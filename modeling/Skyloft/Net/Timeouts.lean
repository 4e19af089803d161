import Skyloft.Net.Shutdown

/-!
# Deadlines

`next_timeout` caches the earliest deadline of a connection, and `tcp_worker` visits
only the connections whose cached deadline has passed.  So everything that sets a time
stamp, queues a segment or gives the send side back has to refresh the cache.

`Timing` is what the deadlines are computed from.  A step leaves it alone, or refreshes
the cache, or owns the send side, which disables the deadline of `txq`, or closes the
connection; there is one more case, a FIN that is put on an empty `txq` by a call that
returns without `tcp_timer_update`.

## Main definitions

* `Timing`, `Timing.Ok` — the deadlines and the cache.
* `FinTimed` — no FIN is put on an empty `txq` and left without a timeout.
* `TimeMove`, `sysStep_timeMove` — what a step does to the deadlines.
* `next_timeout_le` — the cache in every run.
-/

namespace Skyloft

open Run

/-! ## The deadlines -/

/-- What the deadlines of a connection are computed from, and `next_timeout`. -/
structure Timing where
  state : TcpState
  next : Usec
  ackDelayed : Bool
  ackTs : Usec
  timeWaitTs : Usec
  exclusive : Bool
  /-- the time stamp of the head of `txq` -/
  head : Option Usec
  /-- `rxq_ooo` is not empty -/
  ooo : Bool

def Conn.timing (c : Conn) : Timing where
  state := c.state
  next := c.tmr.nextTimeout
  ackDelayed := c.tmr.ackDelayed
  ackTs := c.tmr.ackTs
  timeWaitTs := c.tmr.timeWaitTs
  exclusive := c.tx.exclusive
  head := c.tx.txq.head?.map Mbuf.timestamp
  ooo := !c.rx.rxqOoo.isEmpty

namespace Timing

/-- The cache is at most each deadline that is enabled. -/
structure Ok (x : Timing) : Prop where
  timeWait : x.state = .timeWait → x.next ≤ x.timeWaitTs + tcpTimeWaitTimeout
  ack : x.ackDelayed → x.next ≤ x.ackTs + tcpAckTimeout
  txq : x.exclusive = false → ∀ ts ∈ x.head, x.next ≤ ts + tcpRetransmitTimeout
  ooo : x.ooo → x.next ≠ noTimeout

/-- All but the deadline of `txq`. -/
def headless (x : Timing) : Timing := { x with head := none }

/-- Whoever owns the send side may change the head of `txq`. -/
theorem Ok.of_headless {x y : Timing} (h : x.Ok) (hex : x.exclusive = true)
    (heq : y.headless = x.headless) : y.Ok := by
  have hx : x.headless.Ok := by
    refine ⟨h.timeWait, h.ack, ?_, h.ooo⟩
    intro _ ts hts
    cases hts
  have hexcl : y.headless.exclusive = x.headless.exclusive := by rw [heq]
  rw [← heq] at hx
  refine ⟨hx.timeWait, hx.ack, ?_, hx.ooo⟩
  intro hfree
  have hboth : x.exclusive = false := hexcl.symm.trans hfree
  rw [hex] at hboth
  cases hboth

/-- A writer takes the send side. -/
theorem Ok.lock {x : Timing} (h : x.Ok) : Ok { x with exclusive := true } := by
  refine ⟨h.timeWait, h.ack, ?_, h.ooo⟩
  intro hfree
  cases hfree

end Timing

/-! ## The refresh -/

theorem usecMin_le_left (a b : Usec) : usecMin a b ≤ a := by
  rw [usecMin]
  split
  · exact BitVec.le_of_eq rfl
  · rename_i h
    exact BitVec.not_lt.mp h

theorem usecMin_le_right (a b : Usec) : usecMin a b ≤ b := by
  rw [usecMin]
  split
  · rename_i h
    exact BitVec.le_of_lt h
  · exact BitVec.le_of_eq rfl

/-- `tcp_timer_update` takes every deadline into account. -/
theorem ok_tcpTimerUpdate (c : Conn) {now : Usec}
    (hnow : c.rx.rxqOoo ≠ [] → now + tcpOoqAckTimeout ≠ noTimeout) :
    (tcpTimerUpdate c now).timing.Ok := by
  -- the value of the local variable after each of the first three tests
  obtain ⟨t₁, ht₁⟩ : ∃ t, t = if c.state = .timeWait then c.tmr.timeWaitTs + tcpTimeWaitTimeout
    else noTimeout := ⟨_, rfl⟩
  obtain ⟨t₂, ht₂⟩ : ∃ t, t = if c.tmr.ackDelayed then usecMin t₁ (c.tmr.ackTs + tcpAckTimeout)
    else t₁ := ⟨_, rfl⟩
  obtain ⟨t₃, h₃, htxq, hnext⟩ : ∃ t, t ≤ t₂ ∧
      (c.tx.exclusive = false → ∀ m ∈ c.tx.txq.head?, t ≤ m.timestamp + tcpRetransmitTimeout) ∧
      (tcpTimerUpdate c now).timing.next =
        if c.rx.rxqOoo = [] then t else usecMin t (now + tcpOoqAckTimeout) := by
    simp only [tcpTimerUpdate, Conn.timing]
    rw [← ht₁, ← ht₂]
    cases c.tx.exclusive with
    | true =>
        refine ⟨t₂, BitVec.le_refl _, ?_, rfl⟩
        intro hfree
        cases hfree
    | false =>
        cases c.tx.txq with
        | nil =>
            refine ⟨t₂, BitVec.le_refl _, ?_, rfl⟩
            intro _ m hm
            cases hm
        | cons m q =>
            refine ⟨_, usecMin_le_left t₂ (m.timestamp + tcpRetransmitTimeout), ?_, ?_⟩
            · intro _ m' hm'
              cases hm'
              exact usecMin_le_right _ _
            · simp only [Bool.false_eq_true, if_false]
  have h₂ : t₂ ≤ t₁ := by
    rw [ht₂]
    split
    · exact usecMin_le_left _ _
    · exact BitVec.le_refl _
  have h₄ : (tcpTimerUpdate c now).timing.next ≤ t₃ := by
    rw [hnext]
    split
    · exact BitVec.le_refl _
    · exact usecMin_le_left _ _
  constructor
  · intro hst
    change c.state = .timeWait at hst
    rw [if_pos hst] at ht₁
    rw [ht₁] at h₂
    exact BitVec.le_trans h₄ (BitVec.le_trans h₃ h₂)
  · intro hack
    change c.tmr.ackDelayed = true at hack
    rw [if_pos hack] at ht₂
    have hle : t₂ ≤ c.tmr.ackTs + tcpAckTimeout := by
      rw [ht₂]
      exact usecMin_le_right _ _
    exact BitVec.le_trans h₄ (BitVec.le_trans h₃ hle)
  · intro hex ts hts
    change c.tx.exclusive = false at hex
    change c.tx.txq.head?.map Mbuf.timestamp = some ts at hts
    rcases Option.map_eq_some_iff.mp hts with ⟨m, hm, hmts⟩
    rw [← hmts]
    exact BitVec.le_trans h₄ (htxq hex m hm)
  · intro hooo hinf
    have hne : c.rx.rxqOoo ≠ [] := by
      simpa [Conn.timing, tcpTimerUpdate] using hooo
    rw [hinf, if_neg hne] at hnext
    have hle : noTimeout ≤ now + tcpOoqAckTimeout := by
      rw [hnext]
      exact usecMin_le_right _ _
    apply hnow hne
    rw [noTimeout] at hle ⊢
    have hlt := (now + tcpOoqAckTimeout).isLt
    apply BitVec.eq_of_toNat_eq
    rw [BitVec.le_def, BitVec.toNat_allOnes] at hle
    rw [BitVec.toNat_allOnes]
    omega

/-! ## Functions that leave the deadlines alone -/

@[simp] theorem timing_netTxIp (c : Conn) (p : Packet) (ret : ℤ) :
    (netTxIp c p ret).timing = c.timing := by
  rw [netTxIp]
  split <;> rfl

@[simp] theorem timing_tcpTxAck (c : Conn) (io : Io) : (tcpTxAck c io).timing = c.timing := by
  rw [tcpTxAck]
  split
  · exact timing_netTxIp _ _ _
  · rfl

theorem timing_ackIf (c : Conn) (ack : Bool) (io : Io) :
    (if ack then tcpTxAck c io else c).timing = c.timing := by
  cases ack with
  | false => rfl
  | true => exact timing_tcpTxAck c io

@[simp] theorem timing_tcpTxRawRst (c : Conn) (seq : Seq) (io : Io) :
    (tcpTxRawRst c seq io).timing = c.timing := by
  rw [tcpTxRawRst]
  split
  · exact timing_netTxIp _ _ _
  · rfl

@[simp] theorem timing_tcpConnShutdownRx (c : Conn) : (tcpConnShutdownRx c).timing = c.timing := by
  rw [tcpConnShutdownRx]
  split <;> rfl

theorem timing_tcpConnPut {c c' : Conn} (h : tcpConnPut c = .ok c') : c'.timing = c.timing := by
  obtain ⟨n, rfl⟩ := tcpConnPut_eq h
  rfl

theorem timing_readTake (c : Conn) (p : Popped) (io : Io) :
    (readWndUpdate (readTake c p) io).timing = c.timing := by
  have htake : (readTake c p).timing = c.timing := by
    simp only [readTake]
    split
    · exact timing_tcpConnShutdownRx c
    · rfl
  rw [readWndUpdate]
  split
  · exact (timing_tcpTxAck (readTake c p) io).trans htake
  · exact htake

theorem timing_tcpReadCopy {c c' : Conn} {len : ℕ} {q : List Mbuf} {part : Bool}
    {bytes : List Byte} (h : tcpReadCopy c len q part = .ok (c', bytes)) :
    c'.timing = c.timing := by
  obtain ⟨rxq, rfl⟩ := tcpReadCopy_eq h
  rfl

theorem timing_tcpTxRetransmitOne {c c' : Conn} {m m' : Mbuf} {io : Io} {k : ℕ} {ret : ℤ}
    (h : tcpTxRetransmitOne c m io k = .ok (c', m', ret)) : c'.timing = c.timing := by
  rw [tcpTxRetransmitOne] at h
  split at h
  · cases h
    rfl
  · split at h
    · cases h
      rfl
    · rcases bind_eq_ok.mp h with ⟨m₁, -, h⟩
      cases h
      exact timing_netTxIp _ _ _

/-- What changes only the references of the buffers on `txq`. -/
theorem timing_of_txq {c : Conn} {q : List Mbuf}
    (h : q.head?.map Mbuf.timestamp = c.tx.txq.head?.map Mbuf.timestamp) :
    ({ c with tx := { c.tx with txq := q } } : Conn).timing = c.timing := by
  simp only [Conn.timing, h]

theorem timing_tcpTxFastRetransmitFinish {c c' : Conn} {m : Mbuf} {io : Io}
    (h : tcpTxFastRetransmitFinish c m io = .ok c') : c'.timing = c.timing := by
  rcases bind_eq_ok.mp h with ⟨⟨c₁, m₁, ret⟩, h₁, h⟩
  cases h
  refine (timing_of_txq ?_).trans (timing_tcpTxRetransmitOne h₁)
  cases c₁.tx.txq with
  | nil => rfl
  | cons x q =>
      simp only [List.map_cons, List.head?_cons, Option.map_some]
      split <;> rfl

/-! ## Functions under the ownership of the send side -/

theorem headless_of_txFrame {c c' : Conn} (h : c'.txFrame = c.txFrame) :
    c'.timing.headless = c.timing.headless := by
  have hhead : c'.txFrame.timing.headless = c.txFrame.timing.headless :=
    congrArg (fun d => d.timing.headless) h
  exact hhead

theorem headless_tcpTxSend {c c' : Conn} {buf : List Byte} {push : Bool} {io : Io} {ret : ℤ}
    (h : tcpTxSend c buf push io = .ok (c', ret)) : c'.timing.headless = c.timing.headless :=
  headless_of_txFrame (txFrame_tcpTxSend h)

theorem headless_tcpTxRetransmit {c c' : Conn} {io : Io} (h : tcpTxRetransmit c io = .ok c') :
    c'.timing.headless = c.timing.headless := headless_of_txFrame (txFrame_tcpTxRetransmit h)

/-! ## Functions that refresh the cache -/

/-- The clock is not at its very end. -/
def Io.ClockOk (io : Io) : Prop := io.now + tcpOoqAckTimeout ≠ noTimeout

instance (io : Io) : Decidable io.ClockOk := inferInstanceAs (Decidable (_ ≠ _))

theorem ok_tcpConnSetState {c c' : Conn} {new : TcpState} {now : Usec}
    (h : tcpConnSetState c new now = .ok c')
    (hnow : c.rx.rxqOoo ≠ [] → now + tcpOoqAckTimeout ≠ noTimeout) : c'.timing.Ok := by
  obtain ⟨wq, rfl⟩ := tcpConnSetState_eq h
  exact ok_tcpTimerUpdate _ hnow

theorem ok_tcpWriteFinish {c c' : Conn} {now : Usec} {m : Option Mbuf}
    (h : tcpWriteFinish c now = .ok (c', m)) (hnow : now + tcpOoqAckTimeout ≠ noTimeout) :
    c'.timing.Ok := by
  obtain ⟨-, _, _, _, u, -, -, rfl⟩ := tcpWriteFinish_eq h
  exact ok_tcpTimerUpdate u fun _ => hnow

/-- `tcp_handle_timeouts` refreshes the cache or closes the connection. -/
theorem tcpHandleTimeouts_timing {c c' : Conn} {now clock : Usec} {ack re : Bool}
    (h : tcpHandleTimeouts c now clock = .ok (c', ack, re))
    (hnow : clock + tcpOoqAckTimeout ≠ noTimeout) : c'.state = .closed ∨ c'.timing.Ok := by
  rw [tcpHandleTimeouts] at h
  split at h
  · rename_i hcl
    cases h
    exact .inl hcl
  · split at h
    · rcases bind_eq_ok.mp h with ⟨c₁, h₁, h⟩
      rcases bind_eq_ok.mp h with ⟨c₂, h₂, h⟩
      cases h
      left
      exact (sameRx_tcpConnPut h₂).state.trans (tcpConnSetState_spec h₁).2
    · cases h
      right
      exact ok_tcpTimerUpdate _ fun _ => hnow

theorem ok_tcpRxConn {c : Conn} {s : Segment} {sndNxt : Seq} {io : Io} {r : RxOut}
    (h : tcpRxConn c s sndNxt io = .ok r) (hio : io.ClockOk) : r.conn.timing.Ok := by
  rcases bind_eq_ok.mp h with ⟨r₁, -, h⟩
  cases h
  exact ok_tcpTimerUpdate _ fun _ => hio

/-! ## The FIN -/

/-- A control segment that is put on a queue behind others, or not at all. -/
theorem timing_tcpTxCtl {c : Conn} {flags : TcpFlags} {io : Io}
    (h : c.tx.txq ≠ [] ∨ io.alloc 0 = false) : (tcpTxCtl c flags io).1.timing = c.timing := by
  rw [tcpTxCtl]
  split
  · rename_i halloc
    rcases h with hq | hno
    · simp only [timing_netTxIp]
      refine timing_of_txq ?_
      cases hq' : c.tx.txq with
      | nil => exact absurd hq' hq
      | cons m q => simp [tcpPushTcphdr, hq']
    · rw [hno] at halloc
      cases halloc
  · rfl

/-- The FIN of `tcp_conn_shutdown_tx` is followed by a refresh, unless its transmission fails
or the state is not one from which a FIN is sent. -/
theorem tcpShutdownTxFin_timing {c c' : Conn} {io : Io} {ret : ℤ} {warn : Bool}
    (h : tcpShutdownTxFin c io = .ok (c', ret, warn)) (hio : io.ClockOk) :
    (c'.timing = (tcpTxCtl c { fin := true, ack := true } io).1.timing ∧
      (ret ≠ 0 ∨ c.state.sendsFin = false)) ∨ c'.timing.Ok := by
  have hsame := (SameRx.refl c).tcpTxCtl { fin := true, ack := true } io
  rw [tcpShutdownTxFin] at h
  generalize tcpTxCtl c { fin := true, ack := true } io = r at h hsame ⊢
  rcases r with ⟨c₁, ret₁⟩
  dsimp only at h hsame
  split at h
  · rename_i hne
    cases h
    exact .inl ⟨rfl, .inl hne⟩
  · rcases bind_eq_ok.mp h with ⟨c₂, h₂, h⟩
    cases h
    have hst : c₁.state = c.state := hsame.state
    have hok : ∀ {new}, tcpConnSetState c₁ new io.now = .ok c₂ →
        ({ c₂ with tx := { c₂.tx with closed := true, wq := [] } } : Conn).timing.Ok := by
      intro new hset
      have hset' := ok_tcpConnSetState hset fun _ => hio
      exact hset'
    rw [shutdownTxState] at h₂
    split_ifs at h₂ with hest hwait
    · exact .inr (hok h₂)
    · exact .inr (hok h₂)
    · cases h₂
      refine .inl ⟨rfl, .inr ?_⟩
      rw [hst] at hest hwait
      simp [TcpState.sendsFin, hest, hwait]

/-- `tcp_shutdown` and `tcp_close` return, the latter after failing the connection if the FIN
could not be sent. -/
theorem shutReturn_timing {s s' : Sys} {c : Conn} {t : Tid} {k : ShutKind} {ret : ℤ} {io : Io}
    (h : shutReturn s c t k ret io = .ok s') :
    s'.conn.timing = c.timing ∨ s'.conn.state = .closed := by
  cases k with
  | shutdown rd =>
      rw [shutReturn] at h
      split at h
      · cases h
        exact .inl rfl
      · cases h
        left
        cases rd
        · rfl
        · exact timing_tcpConnShutdownRx c
  | close =>
      rw [shutReturn] at h
      split at h
      · rcases bind_eq_ok.mp h with ⟨c₁, h₁, h⟩
        rcases bind_eq_ok.mp h with ⟨c₂, h₂, h⟩
        cases h
        right
        have hclosed : (tcpConnShutdownRx c₁).state = .closed :=
          (congrArg Timing.state (timing_tcpConnShutdownRx c₁)).trans (tcpConnFail_spec h₁).1
        exact (sameRx_tcpConnPut h₂).state.trans hclosed
      · rcases bind_eq_ok.mp h with ⟨c₂, h₂, h⟩
        cases h
        left
        exact (timing_tcpConnPut h₂).trans (timing_tcpConnShutdownRx c)

/-- `tcp_close` fails a connection whose FIN could not be sent. -/
theorem shutReturn_close {s s' : Sys} {c : Conn} {t : Tid} {ret : ℤ} {io : Io} (hret : ret ≠ 0)
    (h : shutReturn s c t .close ret io = .ok s') : s'.conn.state = .closed := by
  have hst : c.state = ({ s with conn := c } : Sys).conn.state := rfl
  exact (shutReturn_err hret hst h).1.1

/-! ## Steps -/

/-- The call is `tcp_close`, which fails the connection when its FIN cannot be sent. -/
def Proc.closes (p : Proc) : Bool :=
  match p.shutKind with
  | some .close => true
  | _ => false

/-- The guard.  A FIN that is put on an empty `txq` is followed by `tcp_timer_update`: it is
sent, from ESTABLISHED or CLOSE_WAIT, or it is the FIN of `tcp_close`, which fails the
connection otherwise. -/
def FinTimed (s : Sys) : Event → Prop
  | .run t io =>
      s.queuesFin t → io.alloc 0 → s.conn.tx.txq.isEmpty → s.conn.state ≠ .closed →
        if io.net 0 = 0 then s.conn.state.sendsFin else (s.procs t).closes
  | _ => True

instance (s : Sys) : (e : Event) → Decidable (FinTimed s e)
  | .run t io => by
      unfold FinTimed
      infer_instance
  | .call _ _ | .rx _ _ _ | .ackOut _ | .resend _ | .timeouts _ _ _ | .txDone _ | .netErr _ _ =>
      .isTrue trivial

/-- The readings of the clock that a step makes. -/
def Event.ClockOk : Event → Prop
  | .run _ io | .rx _ _ io | .timeouts _ _ io => io.ClockOk
  | _ => True

instance : (e : Event) → Decidable e.ClockOk
  | .run _ io | .rx _ _ io | .timeouts _ _ io => inferInstanceAs (Decidable io.ClockOk)
  | .call _ _ | .ackOut _ | .resend _ | .txDone _ | .netErr _ _ => .isTrue trivial

/-- What a step does to the deadlines. -/
inductive TimeMove (s s' : Sys) : Prop
  | same : s'.conn.timing = s.conn.timing → TimeMove s s'
  | closed : s'.conn.state = .closed → TimeMove s s'
  | fresh : s'.conn.timing.Ok → TimeMove s s'
  | lock : s'.conn.timing = { s.conn.timing with exclusive := true } → TimeMove s s'
  | owned : s.conn.tx.exclusive = true → s'.conn.timing.headless = s.conn.timing.headless →
      TimeMove s s'

theorem TimeMove.ok {s s' : Sys} (h : TimeMove s s')
    (hs : s.conn.state ≠ .closed → s.conn.timing.Ok) (hs' : s'.conn.state ≠ .closed) :
    s'.conn.timing.Ok := by
  cases h with
  | same heq =>
      have hst : s'.conn.state = s.conn.state := congrArg Timing.state heq
      rw [heq]
      exact hs (by rwa [← hst])
  | closed hcl => exact absurd hcl hs'
  | fresh hok => exact hok
  | lock heq =>
      have hst : s'.conn.state = s.conn.state := congrArg Timing.state heq
      rw [heq]
      exact (hs (by rwa [← hst])).lock
  | owned hex heq =>
      have hst : s'.conn.timing.headless.state = s.conn.timing.headless.state := by rw [heq]
      have hst' : s'.conn.state = s.conn.state := hst
      exact (hs (by rwa [← hst'])).of_headless hex heq

/-- One turn of the wait loop of `tcp_conn_shutdown_tx`. -/
theorem runShutWait_timeMove {s s₁ s' : Sys} {t : Tid} {k : ShutKind} {io : Io}
    (hc : s₁.conn = s.conn) (hk : (s.procs t).shutKind = some k)
    (hq : s.conn.tx.exclusive = false → s.queuesFin t) (hio : io.ClockOk)
    (hg : FinTimed s (.run t io)) (h : runShutWait s₁ t k io = .ok s') : TimeMove s s' := by
  rw [runShutWait, hc] at h
  split at h
  · cases h
    exact .same rfl
  · rename_i hex
    rw [Bool.not_eq_true] at hex
    rcases bind_eq_ok.mp h with ⟨⟨c, ret, warn⟩, h₁, h⟩
    dsimp only at h
    rcases shutReturn_timing h with heq | hcl
    · rcases tcpShutdownTxFin_timing h₁ hio with ⟨hctl, hwhy⟩ | hok
      · by_cases hempty : s.conn.tx.txq ≠ [] ∨ io.alloc 0 = false
        · exact .same (heq.trans (hctl.trans (timing_tcpTxCtl hempty)))
        · -- the FIN is alone on `txq`
          simp only [not_or, not_not, Bool.not_eq_false] at hempty
          rcases hempty with ⟨hnil, halloc⟩
          have hctlState := (SameRx.refl s.conn).tcpTxCtl { fin := true, ack := true } io
          have hst : s'.conn.state = s.conn.state :=
            (congrArg Timing.state (heq.trans hctl)).trans hctlState.state
          by_cases hcl : s.conn.state = .closed
          · exact .closed (hst.trans hcl)
          · have hguard := hg (hq hex) halloc (by simp [hnil]) hcl
            have hret := tcpShutdownTxFin_cases h₁
            split at hguard
            · rename_i hnet
              rcases hwhy with hne | hno
              · rcases hret with ⟨-, herr, -⟩ | ⟨hz, -⟩
                · exact absurd hnet (herr halloc)
                · exact absurd hz hne
              · rw [hno] at hguard
                cases hguard
            · rename_i hnet
              have hne : ret ≠ 0 := by
                rcases hret with ⟨hne, -⟩ | ⟨-, -, hz, -⟩
                · exact hne
                · exact absurd hz hnet
              rw [Proc.closes, hk] at hguard
              cases k with
              | shutdown rd => cases hguard
              | close => exact .closed (shutReturn_close hne h)
      · exact .fresh (by rw [heq]; exact hok)
    · exact .closed hcl

theorem runShutEnter_timeMove {s s' : Sys} {t : Tid} {k : ShutKind} {io : Io}
    (hk : (s.procs t).shutKind = some k)
    (hq : s.conn.tx.closed = false → s.conn.tx.exclusive = false → s.queuesFin t)
    (hio : io.ClockOk) (hg : FinTimed s (.run t io)) (h : runShutEnter s t k io = .ok s') :
    TimeMove s s' := by
  rw [runShutEnter] at h
  split at h
  · rcases shutReturn_timing h with heq | hcl
    · exact .same heq
    · exact .closed hcl
  · rename_i hcl
    rw [Bool.not_eq_true] at hcl
    refine runShutWait_timeMove ?_ hk (hq hcl) hio hg h
    split <;> rfl

theorem runReadWait_timing (s : Sys) (t : Tid) (len : ℕ) (io : Io) :
    (runReadWait s t len io).conn.timing = s.conn.timing := by
  rw [runReadWait, tcpReadWait]
  split_ifs
  · rfl
  · rfl
  · dsimp only
    split
    · exact timing_readTake _ _ _
    · exact timing_readTake _ _ _

theorem runAbortWait_timing (s : Sys) (t : Tid) (io : Io) :
    (runAbortWait s t io).conn.timing = s.conn.timing := by
  rw [runAbortWait]
  split
  · rfl
  · exact timing_tcpTxRawRst _ _ _

/-- A task runs to its next program point. -/
theorem runProc_timeMove {s s' : Sys} {t : Tid} {io : Io} (hown : s.TxOwned)
    (ha : s.asleep t = false) (hio : io.ClockOk) (hg : FinTimed s (.run t io))
    (h : runProc s t io = .ok s') : TimeMove s s' := by
  -- the steps of a task that owns the send side
  have howned : ∀ {c : Conn} {p q : Proc}, s.procs t = q → q.holdsTx →
      c.timing.headless = s.conn.timing.headless → TimeMove s (s.move c t p) := by
    intro c p q hq hp hc
    exact .owned (hown.owner t (hq ▸ hp)) hc
  cases runProc_step h with
  | idle => exact .same rfl
  | sleep => exact .same rfl
  | dialFail => exact .same rfl
  | dialled => exact .same rfl
  | readWait => exact .same (runReadWait_timing s t _ io)
  | readCopy _ hcopy => exact .same (timing_tcpReadCopy hcopy)
  | readFinish => exact .same rfl
  | writeClosed => exact .same rfl
  | writeLock => exact .lock rfl
  | writeSend hp hsend => exact howned hp rfl (headless_tcpTxSend hsend)
  | writevEnd => exact .same rfl
  | writevSend hp _ hsend => exact howned hp rfl (headless_tcpTxSend hsend)
  | writeFinish _ hfin => exact .fresh (ok_tcpWriteFinish hfin hio)
  | shutRx =>
      apply TimeMove.same
      rw [Sys.conn_move]
      split
      · exact timing_tcpConnShutdownRx _
      · rfl
  | shutEnter hp hrun =>
      refine runShutEnter_timeMove ?_ ?_ hio hg hrun
      · rcases hp with ⟨_, hp, rfl⟩ | ⟨hp, rfl⟩ <;> rw [hp] <;> rfl
      · intro hcl hex
        rcases hp with ⟨_, hp, -⟩ | ⟨hp, -⟩ <;> simp [Sys.queuesFin, ha, hex, hp, hcl]
  | shutWait hp hrun =>
      refine runShutWait_timeMove rfl (by rw [hp]; rfl) ?_ hio hg hrun
      intro hex
      simp [Sys.queuesFin, ha, hex, hp]
  | abortClosed => exact .same rfl
  | @abortEnter c _ _ hfail =>
      apply TimeMove.closed
      have hab := congrArg Timing.state (runAbortWait_timing { s with conn := c } t io)
      exact hab.trans (tcpConnFail_spec hfail).1
  | abortWait => exact .same (runAbortWait_timing s t io)
  | retransmitLock => exact .lock rfl
  | retransmitClosed _ hput => exact .same (timing_tcpConnPut hput)
  | retransmitSend hp hsend => exact howned hp rfl (headless_tcpTxRetransmit hsend)
  | @retransmitFinish _ c' _ _ hfin hput =>
      apply TimeMove.fresh
      have hkeep := timing_tcpConnPut hput
      change c'.timing.Ok
      rw [hkeep]
      exact ok_tcpWriteFinish hfin hio

/-- **Every step** leaves the deadlines, refreshes the cache, owns the send side or closes the
connection. -/
theorem sysStep_timeMove {s s' : Sys} {e : Event} (hown : s.TxOwned) (hclock : e.ClockOk)
    (hg : FinTimed s e) (h : sysStep s e = .ok s') : TimeMove s s' := by
  -- an acknowledgement of the worker does not count
  have hvisit : ∀ {c : Conn} {now : Usec} {ack re : Bool} {io : Io} {d : Conn},
      tcpHandleTimeouts s.conn now io.now = .ok (c, ack, re) → io.ClockOk →
      d.timing = c.timing → d = s'.conn → TimeMove s s' := by
    intro c now ack re io d hto hio htiming hd
    subst hd
    rcases tcpHandleTimeouts_timing hto hio with hcl | hok
    · exact .closed ((congrArg Timing.state htiming).trans hcl)
    · exact .fresh (by rw [htiming]; exact hok)
  cases sysStep_cases h with
  | skip => exact .same rfl
  | call => exact .same rfl
  | run ha hrun => exact runProc_timeMove hown ha hclock hg hrun
  | rx _ hrx => exact .fresh (ok_tcpRxConn hrx hclock)
  | ackOut => exact .same (timing_tcpTxAck _ _)
  | resend _ hfin => exact .same (timing_tcpTxFastRetransmitFinish hfin)
  | timeouts hto => exact hvisit hto hclock (timing_ackIf _ _ _) rfl
  | retransmit _ hto => exact hvisit hto hclock (timing_ackIf _ _ _) rfl
  | txDone =>
      refine .same (timing_of_txq ?_)
      cases s.conn.tx.txq with
      | nil => simp
      | cons m q => rename_i i; cases i <;> simp
  | netErr hfail => exact .closed (tcpConnFail_spec hfail).1

/-! ## Runs -/

/-- A deadline of the connection has passed. -/
def Conn.Expired (c : Conn) (now : Usec) : Prop :=
  (c.state = .timeWait ∧ c.tmr.timeWaitTs + tcpTimeWaitTimeout ≤ now) ∨
    (c.tmr.ackDelayed = true ∧ c.tmr.ackTs + tcpAckTimeout ≤ now) ∨
    (c.tx.exclusive = false ∧ ∃ m ∈ c.tx.txq.head?, m.timestamp + tcpRetransmitTimeout ≤ now)

/-- The invariant. -/
structure TimeInv (s : Sys) : Prop where
  rx : s.RxInv
  dialling : s.Dialling
  owned : s.TxOwned
  timed : s.conn.state ≠ .closed → s.conn.timing.Ok

theorem TimeInv.step {s s' : Sys} {e : Event} (h : TimeInv s) (hclock : e.ClockOk)
    (hg : FinTimed s e) (hs : sysStep s e = .ok s') : TimeInv s' where
  rx := sysStep_rxInv h.rx hs
  dialling := (Sys.Dialling.step h.rx h.dialling hs).1
  owned := Sys.TxOwned.step h.rx h.dialling h.owned hs
  timed := (sysStep_timeMove h.owned hclock hg hs).ok h.timed

/-- A connection starts with the timeout of its SYN. -/
theorem Sys.Start.timed {s : Sys} (h : s.Start) : s.conn.timing.Ok := by
  cases h with
  | @dial iss io c h =>
      have hsame := (SameRx.refl (tcpConnAlloc iss)).tcpTxCtl { syn := true } io
      rw [tcpDialStart] at h
      generalize tcpTxCtl (tcpConnAlloc iss) { syn := true } io = r at h hsame
      rcases r with ⟨c₁, ret⟩
      dsimp only at h hsame
      split at h
      · cases h
        contradiction
      · rcases bind_eq_ok.mp h with ⟨c₂, h₂, h⟩
        cases h
        refine ok_tcpConnSetState h₂ fun hne => ?_
        exact absurd (congrArg (fun x : RxSide => x.rx.rxqOoo) hsame.side) hne
  | @listen iss f io c h =>
      rw [tcpRxListener] at h
      split at h
      · cases h
      · split at h
        · cases h
        · dsimp only at h
          generalize hc₀ : ({ tcpConnAlloc iss with rcv := _ } : Conn) = c₀ at h
          have hsame := (SameRx.refl c₀).tcpTxCtl { syn := true, ack := true } io
          generalize tcpTxCtl c₀ { syn := true, ack := true } io = r at h hsame
          rcases r with ⟨c₁, ret⟩
          dsimp only at h hsame
          split at h
          · cases h
          · rcases bind_eq_ok.mp h with ⟨c₂, h₂, h⟩
            cases h
            refine ok_tcpConnSetState h₂ fun hne => ?_
            refine absurd (congrArg (fun x : RxSide => x.rx.rxqOoo) hsame.side) ?_
            rw [← hc₀]
            exact hne

theorem Sys.Start.timeInv {s : Sys} (h : s.Start) : TimeInv s :=
  ⟨h.rxInv, h.dialling, h.txOwned, fun _ => h.timed⟩

/-- **No missed timeout.**  In every state of every guarded run, `next_timeout` of a connection
that is not CLOSED is at most each of its deadlines, and `tcp_worker` does not skip it once one
of them has passed. -/
theorem next_timeout_le {s₀ s : Sys} {es : List Event} (h₀ : s₀.Start)
    (hg : Along sysStep (fun s e => e.ClockOk ∧ FinTimed s e) s₀ es)
    (h : exec sysStep s₀ es = .ok s) (hne : s.conn.state ≠ .closed) :
    (s.conn.state = .timeWait →
      s.conn.tmr.nextTimeout ≤ s.conn.tmr.timeWaitTs + tcpTimeWaitTimeout) ∧
    (s.conn.tmr.ackDelayed = true →
      s.conn.tmr.nextTimeout ≤ s.conn.tmr.ackTs + tcpAckTimeout) ∧
    (s.conn.tx.exclusive = false → ∀ m ∈ s.conn.tx.txq.head?,
      s.conn.tmr.nextTimeout ≤ m.timestamp + tcpRetransmitTimeout) ∧
    (s.conn.rx.rxqOoo ≠ [] → s.conn.tmr.nextTimeout ≠ noTimeout) ∧
    ∀ now, s.conn.Expired now → ¬ now < s.conn.tmr.nextTimeout := by
  have hinv : TimeInv s := by
    refine exec_invariant ?_ h₀.timeInv hg h
    intro s e s' hs hge hstep
    exact hs.step hge.1 hge.2 hstep
  have hok := hinv.timed hne
  have htxq : s.conn.tx.exclusive = false → ∀ m ∈ s.conn.tx.txq.head?,
      s.conn.tmr.nextTimeout ≤ m.timestamp + tcpRetransmitTimeout := by
    intro hex m hm
    apply hok.txq hex
    change s.conn.tx.txq.head?.map Mbuf.timestamp = some m.timestamp
    rw [Option.mem_def.mp hm]
    rfl
  refine ⟨hok.timeWait, hok.ack, htxq, ?_, ?_⟩
  · intro hooo
    apply hok.ooo
    simpa [Conn.timing] using hooo
  · intro now hexp
    rw [BitVec.not_lt]
    rcases hexp with ⟨hst, hle⟩ | ⟨hack, hle⟩ | ⟨hex, m, hm, hle⟩
    · exact BitVec.le_trans (hok.timeWait hst) hle
    · exact BitVec.le_trans (hok.ack hack) hle
    · exact BitVec.le_trans (htxq hex m hm) hle

/-- The connection is established and then shut down, the FIN being sent under `io`. -/
def shutRun (io : Io) : List Event :=
  [.rx (windowFrame 1000) 1 (Io.good 0), .call 0 (.shutdown false true), .run 0 io]

theorem next_timeout_le_shutRun : ∃ s : Sys,
    exec sysStep accepted (shutRun (Io.good 5)) = .ok s ∧ s.conn.state = .finWait1 ∧
    s.conn.tx.exclusive = false ∧ s.conn.tx.txq.head?.map Mbuf.timestamp = some 5 ∧
    ∀ m ∈ s.conn.tx.txq.head?, s.conn.tmr.nextTimeout ≤ m.timestamp + tcpRetransmitTimeout := by
  have h : exec sysStep accepted (shutRun (Io.good 5)) =
      .ok (final sysStep accepted (shutRun (Io.good 5))) := exec_final (by decide)
  refine ⟨_, h, by decide, by decide, by decide, ?_⟩
  exact (next_timeout_le accepted_start (by decide) h (by decide)).2.2.1
    (by decide)

/-- Transmissions that fail. -/
def Io.lost (now : Usec) : Io := ⟨now, fun _ => true, fun _ => -eNobufs⟩

/-- The FIN of `tcp_shutdown` is queued and `net_tx_ip` fails: the FIN waits for its
retransmission, but no timeout is set, and `tcp_worker` skips the connection at every time. -/
theorem fin_without_timeout : accepted.Start ∧ ∃ s : Sys,
    exec sysStep accepted (shutRun (Io.lost 5)) = .ok s ∧ s.conn.state = .established ∧
    s.conn.tx.exclusive = false ∧ s.conn.tx.txq.head?.map Mbuf.timestamp = some 5 ∧
    ¬ s.conn.tmr.nextTimeout ≤ 5 + tcpRetransmitTimeout ∧
    ∀ now t io, now < noTimeout → sysStep s (.timeouts now t io) = .ok s := by
  refine ⟨accepted_start, final sysStep accepted (shutRun (Io.lost 5)),
    exec_final (by decide), by decide, by decide, by decide,
    by decide, ?_⟩
  intro now t io hnow
  have hnext : (final sysStep accepted (shutRun (Io.lost 5))).conn.tmr.nextTimeout = noTimeout := by
    decide
  rw [sysStep, runTimeouts, hnext, if_pos (.inl hnow)]

end Skyloft
