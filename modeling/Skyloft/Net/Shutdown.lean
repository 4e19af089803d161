import Skyloft.Net.Life

/-!
# Shutting the send side down

`tcp_conn_shutdown_tx` tests `tx_closed` when it is entered, sleeps until no writer
is exclusive and then queues its FIN, whatever has become of the connection in the
meantime.  `ShutStep` has one constructor for each way a stretch of it can end;
`Sys.TxOwned` is what holds of the owners of the send side in every state of every
run.

A connection that is not shut down is in one of the four states in front of its
FIN.  So a FIN is queued once and from the right state as long as `tx_closed` is
still clear when the wait is over, which the source does not test again.

## Main definitions

* `ShutStep`, `runProc_shutStep` — one stretch of `tcp_shutdown` and `tcp_close`.
* `Sys.TxOwned` — the owners of the send side, in every run.
* `Unraced`, `fin_queued_once` — the guard, and the result.
-/

namespace Skyloft

open Run

/-! ## Inversion -/

/-- The task enters `tcp_conn_shutdown_tx` before the connection is established. -/
def Sys.entersEarly (s : Sys) (t : Tid) : Bool :=
  !s.asleep t && !s.conn.tx.closed && decide (s.conn.state < .established) &&
    match s.procs t with
    | .shutEnter _ wr => wr
    | .closeEnter => true
    | _ => false

/-- The states from which `tcp_conn_shutdown_tx` expects to send a FIN. -/
def TcpState.sendsFin (st : TcpState) : Bool := st == .established || st == .closeWait

/-- The state after the FIN was sent. -/
def TcpState.afterOwnFin : TcpState → TcpState
  | .established => .finWait1
  | .closeWait => .lastAck
  | st => st

/-- The assertions that a stretch of `tcp_conn_shutdown_tx` runs past. -/
def entryWarns (s : Sys) (t : Tid) : List Fault := if s.entersEarly t then [.shutState] else []

/-- The call that shuts the send side down. -/
def Proc.shutKind : Proc → Option ShutKind
  | .shutEnter rd true => some (.shutdown rd)
  | .closeEnter => some .close
  | .shutWait k => some k
  | _ => none

/-- How the call ends when its FIN could not be sent: `tcp_shutdown` returns the
error, `tcp_close` fails the connection. -/
def ShutKind.Failed (s s' : Sys) : ShutKind → Prop
  | .shutdown _ => s'.conn.state = s.conn.state
  | .close => s'.conn.state = .closed ∧ s'.conn.tx.closed

/-- What a stretch of `tcp_shutdown` or `tcp_close` does to the state of the
connection. -/
inductive ShutStep (s : Sys) (t : Tid) (io : Io) (s' : Sys) : Prop
  /-- There is nothing to send. -/
  | skip {r : ℤ} : s.queuesFin t = false → s'.conn.state = s.conn.state → s'.warns = s.warns →
      s'.procs = Function.update s.procs t (.done r []) → ShutStep s t io s'
  /-- The task waits for the writer. -/
  | wait {k : ShutKind} : s.conn.tx.exclusive →
      s.procs t = .shutWait k ∨ s.conn.tx.closed = false → (s.procs t).shutKind = some k →
      s'.conn.state = s.conn.state →
      s'.warns = s.warns ++ entryWarns s t →
      s'.procs = Function.update s.procs t (.shutWait k) → ShutStep s t io s'
  /-- The FIN could not be queued or sent. -/
  | err {k : ShutKind} {r : ℤ} : (s.procs t).shutKind = some k → s.queuesFin t →
      (io.alloc 0 → io.net 0 ≠ 0) → k.Failed s s' → s'.warns = s.warns ++ entryWarns s t →
      s'.procs = Function.update s.procs t (.done r []) → ShutStep s t io s'
  /-- The FIN is queued and sent. -/
  | sent {r : ℤ} : s.queuesFin t → io.alloc 0 → io.net 0 = 0 → s'.conn.tx.closed →
      s'.conn.state = s.conn.state.afterOwnFin →
      s'.warns = s.warns ++ entryWarns s t ++
        (if s.conn.state.sendsFin then [] else [.shutState]) →
      s'.procs = Function.update s.procs t (.done r []) →
      s'.conn.snd.nxt = s.conn.snd.nxt + 1 → ShutStep s t io s'

theorem tcpConnShutdownRx_keeps (c : Conn) :
    (tcpConnShutdownRx c).state = c.state ∧ (tcpConnShutdownRx c).tx = c.tx ∧
      (tcpConnShutdownRx c).snd = c.snd := by
  rw [tcpConnShutdownRx]
  split <;> exact ⟨rfl, rfl, rfl⟩

/-- The end of `tcp_shutdown` and of `tcp_close`. -/
theorem shutReturn_ok {s s' : Sys} {c : Conn} {t : Tid} {k : ShutKind} {io : Io}
    (h : shutReturn s c t k 0 io = .ok s') : s'.conn.state = c.state ∧
      s'.conn.tx.closed = c.tx.closed ∧ s'.warns = s.warns ∧
      s'.procs = Function.update s.procs t (.done 0 []) ∧ s'.conn.snd = c.snd := by
  obtain ⟨hst, htx, hsnd⟩ := tcpConnShutdownRx_keeps c
  cases k with
  | shutdown rd =>
      rw [shutReturn, if_neg (by simp)] at h
      cases h
      cases rd
      · exact ⟨rfl, rfl, rfl, rfl, rfl⟩
      · exact ⟨hst, congrArg Egress.closed htx, rfl, rfl, hsnd⟩
  | close =>
      rw [shutReturn, if_neg (by simp)] at h
      obtain ⟨c₁, h₁, h⟩ := bind_eq_ok.mp h
      cases h
      have hput := txSide_tcpConnPut h₁
      refine ⟨(sameRx_tcpConnPut h₁).state.trans hst, ?_, rfl, rfl, ?_⟩
      · exact (congrArg TxSide.closed hput).trans (congrArg Egress.closed htx)
      · exact (congrArg TxSide.snd hput).trans hsnd

theorem shutReturn_err {s s₀ s' : Sys} {c : Conn} {t : Tid} {k : ShutKind} {ret : ℤ} {io : Io}
    (hret : ret ≠ 0) (hst : c.state = s₀.conn.state) (h : shutReturn s c t k ret io = .ok s') :
    k.Failed s₀ s' ∧ s'.warns = s.warns ∧
      ∃ r, s'.procs = Function.update s.procs t (.done r []) := by
  cases k with
  | shutdown rd =>
      rw [shutReturn, if_pos hret] at h
      cases h
      exact ⟨hst, rfl, _, rfl⟩
  | close =>
      rw [shutReturn, if_pos hret] at h
      obtain ⟨c₁, h₁, h⟩ := bind_eq_ok.mp h
      obtain ⟨c₂, h₂, h⟩ := bind_eq_ok.mp h
      cases h
      obtain ⟨hst₁, htx₁, -⟩ := tcpConnShutdownRx_keeps c₁
      refine ⟨⟨?_, ?_⟩, rfl, _, rfl⟩
      · exact (sameRx_tcpConnPut h₂).state.trans (hst₁.trans (tcpConnFail_spec h₁).1)
      · refine (congrArg TxSide.closed (txSide_tcpConnPut h₂)).trans ?_
        refine (congrArg Egress.closed htx₁).trans ?_
        exact congrArg TxSide.closed (txSide_tcpConnFail h₁)

/-- The FIN, once no writer is exclusive. -/
theorem tcpShutdownTxFin_cases {c c' : Conn} {io : Io} {ret : ℤ} {warn : Bool}
    (h : tcpShutdownTxFin c io = .ok (c', ret, warn)) :
    (ret ≠ 0 ∧ (io.alloc 0 → io.net 0 ≠ 0) ∧ c'.state = c.state ∧ warn = false) ∨
      (ret = 0 ∧ io.alloc 0 ∧ io.net 0 = 0 ∧ c'.tx.closed ∧ c'.state = c.state.afterOwnFin ∧
        warn = (!c.state.sendsFin) ∧ c'.snd.nxt = c.snd.nxt + 1) := by
  have hret := ret_tcpTxCtl c { fin := true, ack := true } io
  have hsame := (SameRx.refl c).tcpTxCtl { fin := true, ack := true } io
  have hside := txSide_tcpTxCtl c { fin := true, ack := true } io
  rw [tcpShutdownTxFin] at h
  generalize tcpTxCtl c { fin := true, ack := true } io = r at h hret hsame hside
  obtain ⟨c₁, ret₁⟩ := r
  dsimp only at h hret hsame hside
  split at h
  · rename_i hne
    cases h
    refine .inl ⟨hne, fun ha hn => hne ?_, hsame.state, rfl⟩
    rw [hret, if_pos ha, hn]
  · rename_i hz
    rw [not_not] at hz
    obtain ⟨c₂, h₂, h⟩ := bind_eq_ok.mp h
    cases h
    have hio : io.alloc 0 ∧ io.net 0 = 0 := by
      cases ha : io.alloc 0 with
      | false =>
          rw [ha, if_neg (by simp)] at hret
          exact absurd (hret.symm.trans hz) (by decide)
      | true =>
          rw [ha, if_pos rfl] at hret
          exact ⟨rfl, hret.symm.trans hz⟩
    rw [if_pos hio.1] at hside
    have hstep : c₂.state = c₁.state.afterOwnFin ∧ c₂.txSide = c₁.txSide := by
      rw [shutdownTxState] at h₂
      split_ifs at h₂ with he hc
      · rw [(tcpConnSetState_spec h₂).2, he]
        exact ⟨rfl, txSide_tcpConnSetState h₂⟩
      · rw [(tcpConnSetState_spec h₂).2, hc]
        exact ⟨rfl, txSide_tcpConnSetState h₂⟩
      · cases h₂
        cases hst : c₁.state <;> first | exact ⟨rfl, rfl⟩ | contradiction
    refine .inr ⟨rfl, hio.1, hio.2, rfl, ?_, ?_, ?_⟩
    · rw [← hsame.state]
      exact hstep.1
    · rw [← hsame.state]
      cases c₁.state <;> rfl
    · exact congrArg (fun x : TxSide => x.snd.nxt) (hstep.2.trans hside)

/-- One turn of the wait loop; `s₁` is `s` with the assertion at the entry noted. -/
theorem runShutWait_shutStep {s s₁ s' : Sys} {t : Tid} {k : ShutKind} {io : Io}
    (hs : s₁.procs = s.procs) (hc : s₁.conn = s.conn) (hw : s₁.warns = s.warns ++ entryWarns s t)
    (hk : (s.procs t).shutKind = some k) (hq : s.conn.tx.exclusive = false → s.queuesFin t)
    (hcl : s.procs t = .shutWait k ∨ s.conn.tx.closed = false)
    (h : runShutWait s₁ t k io = .ok s') : ShutStep s t io s' := by
  rw [runShutWait, hc] at h
  split at h
  · rename_i hex
    cases h
    exact .wait hex hcl hk rfl hw (by rw [← hs]; rfl)
  · rename_i hex
    rw [Bool.not_eq_true] at hex
    obtain ⟨⟨c, ret, warn⟩, h₁, h⟩ := bind_eq_ok.mp h
    dsimp only at h
    rcases tcpShutdownTxFin_cases h₁ with ⟨hret, hio, hst, rfl⟩ | ⟨rfl, ha, hn, hcl, hst, hwarn, hnxt⟩
    · rw [if_neg (by simp)] at h
      obtain ⟨hfail, hw', r, hprocs⟩ := @shutReturn_err _ s _ _ _ _ _ _ hret hst h
      exact .err hk (hq hex) hio hfail (hw'.trans hw) (hs ▸ hprocs)
    · obtain ⟨hst', hcl', hw', hprocs, hsnd⟩ := shutReturn_ok h
      refine @ShutStep.sent _ _ _ _ 0 (hq hex) ha hn (hcl'.trans hcl) (hst'.trans hst) ?_ ?_
        ((congrArg SndVars.nxt hsnd).trans hnxt)
      · rw [hw', hwarn]
        cases s.conn.state.sendsFin <;> simp [hw]
      · rw [hprocs, ← hs]
        split <;> rfl

theorem runShutEnter_shutStep {s s' : Sys} {t : Tid} {k : ShutKind} {io : Io}
    (hk : (s.procs t).shutKind = some k)
    (he : s.conn.tx.closed = false → entryWarns s t =
      if s.conn.state < .established then [.shutState] else [])
    (hq : s.conn.tx.closed = false → s.conn.tx.exclusive = false → s.queuesFin t)
    (hno : s.conn.tx.closed → s.queuesFin t = false)
    (h : runShutEnter s t k io = .ok s') : ShutStep s t io s' := by
  rw [runShutEnter] at h
  split at h
  · rename_i hcl
    obtain ⟨hst, -, hw, hprocs, -⟩ := shutReturn_ok h
    exact .skip (hno hcl) hst hw hprocs
  · rename_i hcl
    rw [Bool.not_eq_true] at hcl
    refine runShutWait_shutStep ?_ ?_ ?_ hk (hq hcl) (.inr hcl) h
    · split <;> rfl
    · split <;> rfl
    · rw [he hcl]
      split <;> simp

/-- **One stretch** of `tcp_shutdown` or `tcp_close`. -/
theorem runProc_shutStep {s s' : Sys} {t : Tid} {io : Io} (ha : s.asleep t = false)
    (hp : (s.procs t).shuts) (h : runProc s t io = .ok s') : ShutStep s t io s' := by
  rw [runProc] at h
  cases hpt : s.procs t with
  | shutEnter rd wr =>
      rw [hpt] at h
      dsimp only at h
      cases wr with
      | false =>
          rw [if_neg (by simp)] at h
          cases h
          refine .skip (by simp [Sys.queuesFin, hpt]) ?_ rfl rfl
          split
          · exact (tcpConnShutdownRx_keeps _).1
          · rfl
      | true =>
          rw [if_pos rfl] at h
          refine runShutEnter_shutStep (by rw [hpt]; rfl) (fun hcl => ?_) (fun hcl hex => ?_)
            (fun hcl => ?_) h
          · simp [entryWarns, Sys.entersEarly, ha, hcl, hpt]
          · simp [Sys.queuesFin, ha, hex, hpt, hcl]
          · simp [Sys.queuesFin, hpt, hcl]
  | closeEnter =>
      rw [hpt] at h
      dsimp only at h
      split at h
      · cases h
      · refine runShutEnter_shutStep (by rw [hpt]; rfl) (fun hcl => ?_) (fun hcl hex => ?_)
          (fun hcl => ?_) h
        · simp [entryWarns, Sys.entersEarly, ha, hcl, hpt]
        · simp [Sys.queuesFin, ha, hex, hpt, hcl]
        · simp [Sys.queuesFin, hpt, hcl]
  | shutWait k =>
      rw [hpt] at h
      refine runShutWait_shutStep rfl rfl ?_ (by rw [hpt]; rfl) (fun hex => ?_) (.inl hpt) h
      · simp [entryWarns, Sys.entersEarly, hpt]
      · simp [Sys.queuesFin, ha, hex, hpt]
  | _ =>
      rw [hpt] at hp
      cases hp

/-! ## The states behind the own FIN -/

/-- The states of a connection whose FIN was sent, and CLOSED. -/
def TcpState.shutDown : TcpState → Bool
  | .finWait1 | .finWait2 | .closing | .lastAck | .timeWait | .closed => true
  | _ => false

theorem TcpState.shutDown_of_le {st : TcpState} (h : st ≤ .established) : st.shutDown = false := by
  revert h
  cases st <;> decide

/-- The states behind the own FIN are reached from one of them. -/
theorem EstMove.shutDown {acked : Prop} {x x' : Life} (h : EstMove acked x x')
    (hsd : x'.state.shutDown) : x.state.shutDown := by
  cases h with
  | plain h =>
      rcases h with rfl | rfl
      · exact hsd
      · revert hsd
        cases hst : x.state <;> simp [TcpState.afterFin, TcpState.shutDown]
  | close _ hmove _ _ =>
      generalize x.state = st at hmove
      cases hmove <;> rfl
  | lastAck _ hst _ =>
      rw [hst]
      rfl

/-- A segment takes a connection behind its own FIN only by failing it. -/
theorem RxLife.shutDown {c c' : Conn} {s : Segment} {sndNxt : Seq} (h : RxLife c s sndNxt c')
    (hsd : c'.state.shutDown) : c.state.shutDown ∨ (c'.tx.closed ∧ c'.state = .closed) := by
  have hst : c'.state = c'.life.state := rfl
  rw [hst] at hsd
  cases h with
  | same hl =>
      rw [hl] at hsd
      exact .inl hsd
  | @early st _ hle hl =>
      rw [hl] at hsd
      exact absurd hsd (by simp [TcpState.shutDown_of_le hle])
  | fail _ _ hl hcl => exact .inr ⟨hcl, hst.trans (congrArg Life.state hl)⟩
  | est hx _ hmove =>
      have hx' := hmove.shutDown hsd
      rcases hx with ⟨rfl, -, -⟩ | ⟨rfl, -⟩
      · exact .inl hx'
      · cases hx'

theorem runAbortWait_life (s : Sys) (t : Tid) (io : Io) :
    (runAbortWait s t io).conn.life = s.conn.life ∧ (runAbortWait s t io).warns = s.warns ∧
      ∃ p, (runAbortWait s t io).procs = Function.update s.procs t p ∧ p.shuts = false := by
  rw [runAbortWait]
  split
  · exact ⟨rfl, rfl, _, rfl, rfl⟩
  · exact ⟨life_tcpTxRawRst _ _ _, rfl, _, rfl, rfl⟩

/-- A task outside `tcp_shutdown` and `tcp_close` leaves the state alone or fails the
connection, and does not enter them. -/
structure OtherStep (s : Sys) (t : Tid) (s' : Sys) : Prop where
  state : s'.conn.state = s.conn.state ∨ (s'.conn.state = .closed ∧ s'.conn.tx.closed)
  warns : s'.warns = s.warns
  procs : ∃ p, s'.procs = Function.update s.procs t p ∧ p.shuts = false

theorem OtherStep.stay {s : Sys} {t : Tid} {c : Conn} (hp : (s.procs t).shuts = false)
    (hst : c.state = s.conn.state) : OtherStep s t { s with conn := c } :=
  ⟨.inl hst, rfl, s.procs t, (Function.update_eq_self t s.procs).symm, hp⟩

theorem OtherStep.move {s : Sys} {t : Tid} {c : Conn} {p : Proc} (hp : p.shuts = false)
    (hl : c.life = s.conn.life) : OtherStep s t (s.move c t p) :=
  ⟨.inl (congrArg Life.state hl), rfl, p, rfl, hp⟩

theorem runProc_other {s s' : Sys} {t : Tid} {io : Io} (hp : (s.procs t).shuts = false)
    (h : runProc s t io = .ok s') : OtherStep s t s' := by
  cases runProc_step h with
  | idle => exact .stay hp rfl
  | sleep => exact .stay hp rfl
  | dialFail => exact ⟨.inl rfl, rfl, _, rfl, rfl⟩
  | dialled => exact .move rfl rfl
  | readWait =>
      rw [runReadWait, tcpReadWait]
      split_ifs
      · exact .stay hp rfl
      · exact .move rfl rfl
      · dsimp only
        split <;> exact .move rfl (by simp)
  | readCopy _ hcopy => exact .move (by split <;> rfl) (life_tcpReadCopy hcopy)
  | readFinish => exact .move rfl rfl
  | writeClosed => exact .move rfl rfl
  | writeLock _ _ hp' => rcases hp' with ⟨_, -, rfl⟩ | ⟨_, -, rfl⟩ <;> exact .move rfl rfl
  | writeSend _ hsend => exact .move rfl (life_tcpTxSend hsend)
  | writevEnd => exact .move rfl rfl
  | writevSend _ _ hsend hnext =>
      rcases hnext with ⟨_, rfl⟩ | ⟨_, rfl⟩ <;> exact .move rfl (life_tcpTxSend hsend)
  | writeFinish _ hfin =>
      exact ⟨.inl (congrArg Life.state (life_tcpWriteFinish hfin)), rfl, _, rfl, rfl⟩
  | shutRx hpt =>
      rw [hpt] at hp
      cases hp
  | shutEnter hpt =>
      rcases hpt with ⟨_, hpt, -⟩ | ⟨hpt, -⟩ <;>
      · rw [hpt] at hp
        cases hp
  | shutWait hpt =>
      rw [hpt] at hp
      cases hp
  | abortClosed => exact .move rfl rfl
  | @abortEnter c _ _ hfail =>
      obtain ⟨hl, hw, p, hprocs, hpr⟩ := runAbortWait_life { s with conn := c } t io
      have hside := (runAbortWait_txSide { s with conn := c } t io).1
      refine ⟨.inr ⟨?_, ?_⟩, hw, p, hprocs, hpr⟩
      · exact (congrArg Life.state hl).trans (tcpConnFail_spec hfail).1
      · exact (congrArg TxSide.closed hside).trans
          (congrArg TxSide.closed (txSide_tcpConnFail hfail))
  | abortWait =>
      obtain ⟨hl, hw, p, hprocs, hpr⟩ := runAbortWait_life s t io
      exact ⟨.inl (congrArg Life.state hl), hw, p, hprocs, hpr⟩
  | retransmitLock => exact .move rfl rfl
  | retransmitClosed _ hput =>
      exact ⟨.inl (congrArg Life.state (life_tcpConnPut hput)), rfl, _, rfl, rfl⟩
  | retransmitSend _ hsend => exact .move rfl (life_tcpTxRetransmit hsend)
  | @retransmitFinish _ c' _ _ hfin hput =>
      have hl : c'.life = s.conn.life.put := by rw [life_tcpConnPut hput, life_tcpWriteFinish hfin]
      exact ⟨.inl (congrArg Life.state hl), rfl, _, rfl, rfl⟩

/-- **The states behind the own FIN** are reached with the send side closed, by a
failure or with a FIN. -/
theorem sysStep_shutDown {s s' : Sys} {e : Event} (h : sysStep s e = .ok s')
    (hsd : s'.conn.state.shutDown) : s.conn.state.shutDown ∨
      (s'.conn.tx.closed ∧ (s'.conn.state = .closed ∨ finQueued s s' e)) := by
  have hsame : s'.conn.state = s.conn.state → s.conn.state.shutDown ∨
      (s'.conn.tx.closed ∧ (s'.conn.state = .closed ∨ finQueued s s' e)) :=
    fun hst => .inl (hst ▸ hsd)
  cases sysStep_cases h with
  | skip => exact hsame rfl
  | call => exact hsame rfl
  | @run t io _ ha hrun =>
      cases hp : (s.procs t).shuts with
      | false =>
          rcases (runProc_other hp hrun).state with hst | ⟨hst, hcl⟩
          · exact hsame hst
          · exact .inr ⟨hcl, .inl hst⟩
      | true =>
          cases runProc_shutStep ha hp hrun with
          | skip _ hst => exact hsame hst
          | wait _ _ _ hst => exact hsame hst
          | @err k _ _ _ _ hfail =>
              cases k with
              | shutdown rd => exact hsame hfail
              | close => exact .inr ⟨hfail.2, .inl hfail.1⟩
          | sent _ _ _ hcl _ _ _ hnxt =>
              refine .inr ⟨hcl, .inr ?_⟩
              simp [finQueued, hp, hnxt]
  | rx _ hrx => exact ((tcpRxConn_life hrx).shutDown hsd).imp_right fun hf => ⟨hf.1, .inl hf.2⟩
  | @ackOut io => exact hsame (congrArg Life.state (life_tcpTxAck _ io))
  | resend _ hfin => exact hsame (congrArg Life.state (life_tcpTxFastRetransmitFinish hfin))
  | @timeouts _ _ io c ack hto | @retransmit _ _ io c ack _ hto =>
      have hack := life_of_txFrame (txFrame_ackIf c ack io)
      rcases (tcpHandleTimeouts_spec hto).2 with hst | ⟨hst, -⟩
      · exact hsame ((congrArg Life.state hack).trans hst)
      · rw [hst]
        exact .inl rfl
  | txDone => exact hsame rfl
  | netErr hfail =>
      exact .inr ⟨congrArg TxSide.closed (txSide_tcpConnFail hfail),
        .inl (tcpConnFail_spec hfail).1⟩

/-! ## The owners of the send side -/

/-- What holds of the owners of the send side in every state of every run.  A send
side that was shut down has no writer, unless the connection failed under it. -/
structure Sys.TxOwned (s : Sys) : Prop where
  owner : ∀ t, (s.procs t).holdsTx → s.conn.tx.exclusive
  unique : ∀ t u, (s.procs t).holdsTx → (s.procs u).holdsTx → t = u
  closed : s.conn.state.shutDown → s.conn.tx.closed
  idle : s.conn.tx.closed → s.conn.state = .closed ∨ ∀ t, (s.procs t).winlen = none

/-- A send side that is not shut down is in one of the states in front of its FIN. -/
theorem Sys.TxOwned.state {s : Sys} (h : s.TxOwned) (hcl : s.conn.tx.closed = false) :
    s.conn.state < .established ∨ s.conn.state.sendsFin := by
  have hsd : s.conn.state.shutDown = false := by
    by_contra hsd
    rw [h.closed (by simpa using hsd)] at hcl
    cases hcl
  revert hsd
  cases s.conn.state <;> decide

theorem Proc.winlen_of_not_holdsTx {p : Proc} (h : p.holdsTx = false) : p.winlen = none := by
  cases p <;> first | rfl | cases h

/-- The send side is never opened again. -/
theorem TxMove.closed_mono {s s' : Sys} {e : Event} (h : TxMove s e s') (hcl : s.conn.tx.closed) :
    s'.conn.tx.closed := by
  cases h with
  | inert hside => exact (congrArg TxSide.closed hside).trans hcl
  | fail _ hside => exact congrArg TxSide.closed hside
  | segment _ heff => exact heff.closed hcl
  | fin _ _ _ hside => exact congrArg TxSide.closed hside
  | finErr _ _ _ hside =>
      rcases hside with hside | ⟨-, hside⟩
      · exact (congrArg TxSide.closed hside).trans hcl
      · exact congrArg TxSide.closed hside
  | lock | lockRetransmit | endv => exact hcl
  | send _ hsend => exact (tcpTxSend_sameSend hsend).closed.trans hcl
  | sendv _ _ hsend => exact (tcpTxSend_sameSend hsend).closed.trans hcl
  | resend _ hre =>
      obtain ⟨txq, -, hside⟩ := txSide_tcpTxRetransmit hre
      exact (congrArg TxSide.closed hside).trans hcl
  | unlock _ _ hside =>
      exact (congrArg TxSide.closed hside).trans ((TxSide.closed_unlocked _ _).trans hcl)

namespace Sys.TxOwned

variable {s s' : Sys} {e : Event}

theorem no_owner (h : s.TxOwned) (hex : s.conn.tx.exclusive = false) (t : Tid) :
    (s.procs t).holdsTx = false := by
  by_contra hholds
  have := h.owner t (by simpa using hholds)
  rw [hex] at this
  cases this

theorem only_owner (h : s.TxOwned) {t : Tid} (ht : (s.procs t).holdsTx) (u : Tid) (hu : u ≠ t) :
    (s.procs u).holdsTx = false := by
  by_contra hholds
  exact hu (h.unique u t (by simpa using hholds) ht)

/-- The tasks that own the send side did not move. -/
theorem of_same (h : s.TxOwned) (hw : SameWriters s s')
    (hex : s.conn.tx.exclusive → s'.conn.tx.exclusive)
    (hsd : s'.conn.state.shutDown → s'.conn.tx.closed)
    (hidle : s'.conn.tx.closed → s'.conn.state = .closed ∨ ∀ t, (s.procs t).winlen = none) :
    s'.TxOwned := by
  have hholds : ∀ t, (s'.procs t).holdsTx → s'.procs t = s.procs t := by
    intro t ht
    rcases hw t with h' | ⟨-, h'⟩
    · exact h'
    · rw [h'] at ht
      cases ht
  refine ⟨fun t ht => ?_, fun t u ht hu => ?_, hsd, fun hcl => (hidle hcl).imp id fun hn t => ?_⟩
  · exact hex (h.owner t (hholds t ht ▸ ht))
  · exact h.unique t u (hholds t ht ▸ ht) (hholds u hu ▸ hu)
  · rcases hw t with h' | ⟨-, h'⟩
    · rw [h']
      exact hn t
    · exact Proc.winlen_of_not_holdsTx h'

/-- The only task that owns the send side moves, or a task takes it. -/
theorem of_owner {t : Tid} {p : Proc} (honly : ∀ u, u ≠ t → (s.procs u).holdsTx = false)
    (hprocs : s'.procs = Function.update s.procs t p) (hex : p.holdsTx → s'.conn.tx.exclusive)
    (hsd : s'.conn.state.shutDown → s'.conn.tx.closed)
    (hidle : s'.conn.tx.closed → s'.conn.state = .closed ∨ p.winlen = none) : s'.TxOwned := by
  have hself : s'.procs t = p := by rw [hprocs, Function.update_self]
  have hother : ∀ u, u ≠ t → (s'.procs u).holdsTx = false := by
    intro u hu
    rw [hprocs, Function.update_of_ne hu, honly u hu]
  have honly' : ∀ u, (s'.procs u).holdsTx → u = t := by
    intro u hu
    by_contra hne
    rw [hother u hne] at hu
    cases hu
  refine ⟨fun u hu => ?_, fun u v hu hv => ?_, hsd, fun hcl => (hidle hcl).imp id fun hn u => ?_⟩
  · obtain rfl := honly' u hu
    exact hex (hself ▸ hu)
  · rw [honly' u hu, honly' v hv]
  · by_cases hu : u = t
    · rw [hu, hself]
      exact hn
    · exact Proc.winlen_of_not_holdsTx (hother u hu)

/-- What is known of a writer that is about to send. -/
theorem not_closed (h : s.TxOwned) {t : Tid} {w : ℕ} (hw : (s.procs t).winlen = some w)
    (hcl : s.conn.tx.closed) : s.conn.state = .closed := by
  refine (h.idle hcl).resolve_right fun hn => ?_
  rw [hn t] at hw
  cases hw

/-- **The owners of the send side**, one step. -/
theorem step (hrx : s.RxInv) (hd : s.Dialling) (h : s.TxOwned) (hs : sysStep s e = .ok s') :
    s'.TxOwned := by
  have hmove := sysStep_txMove hd.synSent hs
  have hst := (sysStep_rxMove hrx.rxOk hs).state_le
  have hclosed : s.conn.state = .closed → s'.conn.state = .closed := by
    intro hcl
    rw [hcl] at hst
    revert hst
    cases s'.conn.state <;> decide
  have hsd : s'.conn.state.shutDown → s'.conn.tx.closed := by
    intro hsd
    rcases sysStep_shutDown hs hsd with hsd | ⟨hcl, -⟩
    · exact hmove.closed_mono (h.closed hsd)
    · exact hcl
  -- what was shut down before stays without a writer
  have hidle : s.conn.tx.closed → s'.conn.state = .closed ∨ ∀ t, (s.procs t).winlen = none :=
    fun hcl => (h.idle hcl).imp hclosed id
  cases hmove with
  | inert hside hw =>
      have hcl : s'.conn.tx.closed = s.conn.tx.closed := congrArg TxSide.closed hside
      have hex : s'.conn.tx.exclusive = s.conn.tx.exclusive := congrArg TxSide.exclusive hside
      exact h.of_same hw (by simp [hex]) hsd fun hcl' => hidle (hcl ▸ hcl')
  | fail hc hside hw =>
      have hex : s'.conn.tx.exclusive = s.conn.tx.exclusive := congrArg TxSide.exclusive hside
      exact h.of_same hw (by simp [hex]) hsd fun _ => .inl hc
  | segment _ heff hprocs =>
      have hw : SameWriters s s' := fun t => .inl (by rw [hprocs])
      cases heff with
      | quiet hside | syn _ hside =>
          have hcl : s'.conn.tx.closed = s.conn.tx.closed := congrArg TxSide.closed hside
          have hex : s'.conn.tx.exclusive = s.conn.tx.exclusive := congrArg TxSide.exclusive hside
          exact h.of_same hw (by simp [hex]) hsd fun hcl' => hidle (hcl ▸ hcl')
      | fail hc hside =>
          have hex : s'.conn.tx.exclusive = s.conn.tx.exclusive := congrArg TxSide.exclusive hside
          exact h.of_same hw (by simp [hex]) hsd fun _ => .inl hc
      | @ack x _ _ _ hx _ hside _ =>
          have hkeep : x.closed = s.conn.tx.closed ∧ x.exclusive = s.conn.tx.exclusive := by
            rcases hx with rfl | ⟨-, rfl⟩
            · exact ⟨rfl, rfl⟩
            · simp [TxSide.acked, Conn.txSide]
          have hcl : s'.conn.tx.closed = s.conn.tx.closed :=
            (congrArg TxSide.closed hside).trans hkeep.1
          have hex : s'.conn.tx.exclusive = s.conn.tx.exclusive :=
            (congrArg TxSide.exclusive hside).trans hkeep.2
          exact h.of_same hw (by simp [hex]) hsd fun hcl' => hidle (hcl ▸ hcl')
  | fin hq _ _ hside hw =>
      have hex := Sys.exclusive_of_queuesFin hq
      refine h.of_same hw (fun hex' => absurd hex' (by simp [hex])) hsd fun _ => .inr fun t => ?_
      exact Proc.winlen_of_not_holdsTx (h.no_owner hex t)
  | finErr hq _ _ hside hw =>
      have hex := Sys.exclusive_of_queuesFin hq
      refine h.of_same hw (fun hex' => absurd hex' (by simp [hex])) hsd fun _ => .inr fun t => ?_
      exact Proc.winlen_of_not_holdsTx (h.no_owner hex t)
  | lock _ hcl hb _ _ =>
      simp only [writeBlocked, not_or, Bool.not_eq_true] at hb
      refine of_owner (fun u _ => h.no_owner hb.2.1 u) rfl (fun _ => rfl) hsd fun hcl' => ?_
      exact absurd (hcl.symm.trans hcl') (by simp)
  | lockRetransmit _ hex _ =>
      exact of_owner (fun u _ => h.no_owner hex u) rfl (fun _ => rfl) hsd fun _ => .inr rfl
  | @send t _ _ _ c ret hp hsend =>
      have hholds : (s.procs t).holdsTx := by rw [hp]; rfl
      have hkeep := tcpTxSend_sameSend hsend
      refine of_owner (h.only_owner hholds) rfl (fun _ => ?_) hsd fun _ => .inr rfl
      exact hkeep.exclusive.trans (h.owner t hholds)
  | @sendv t _ _ _ winlen _ c _ ret p hp _ hsend _ =>
      have hholds : (s.procs t).holdsTx := by rw [hp]; rfl
      have hkeep := tcpTxSend_sameSend hsend
      refine of_owner (h.only_owner hholds) rfl (fun _ => ?_) hsd fun hcl' => .inl ?_
      · exact hkeep.exclusive.trans (h.owner t hholds)
      · refine hclosed (h.not_closed (t := t) (w := winlen) (by rw [hp]; rfl) ?_)
        exact hkeep.closed.symm.trans hcl'
  | @endv t _ _ _ _ _ _ hp _ =>
      have hholds : (s.procs t).holdsTx := by rw [hp]; rfl
      exact of_owner (h.only_owner hholds) rfl (fun _ => h.owner t hholds) hsd fun _ => .inr rfl
  | @resend t _ c hp hre =>
      have hholds : (s.procs t).holdsTx := by rw [hp]; rfl
      obtain ⟨txq, -, hside⟩ := txSide_tcpTxRetransmit hre
      refine of_owner (h.only_owner hholds) rfl (fun _ => ?_) hsd fun _ => .inr rfl
      exact (congrArg TxSide.exclusive hside).trans (h.owner t hholds)
  | @unlock t _ _ _ hp _ _ hprocs =>
      have hholds : (s.procs t).holdsTx := by
        rcases hp with ⟨r, hp⟩ | hp <;> rw [hp] <;> rfl
      exact of_owner (h.only_owner hholds) hprocs (fun hd => by cases hd) hsd fun _ => .inr rfl

end Sys.TxOwned

theorem Sys.Start.txOwned {s : Sys} (h : s.Start) : s.TxOwned := by
  obtain ⟨iss, hside, hst, hidle⟩ := h.txSide
  have hnone : ∀ t, (s.procs t).holdsTx = false := fun t => by rw [hidle t]; rfl
  refine ⟨fun t ht => ?_, fun t u ht => ?_, fun hsd => ?_, fun _ => .inr fun t => ?_⟩
  · rw [hnone t] at ht
    cases ht
  · rw [hnone t] at ht
    cases ht
  · rw [TcpState.shutDown_of_le (Nat.le_of_lt hst)] at hsd
    cases hsd
  · rw [hidle t]
    rfl

/-! ## The guard -/

/-- The guard.  A task enters `tcp_conn_shutdown_tx` only on an established
connection; when the wait for the writer is over, `tx_closed` is still clear; a FIN
of `tcp_shutdown` is sent without an error; and a writer that owns the send side
does not go on after the connection closed. -/
def Unraced (s : Sys) : Event → Prop
  | .run t io =>
      s.entersEarly t = false ∧
      (s.queuesFin t → s.conn.tx.closed = false) ∧
      (match (s.procs t).shutKind with
        | some (.shutdown _) => s.queuesFin t → io.alloc 0 → io.net 0 = 0
        | _ => True) ∧
      ((s.procs t).winlen ≠ none → s.conn.state ≠ .closed)
  | _ => True

instance (s : Sys) : (e : Event) → Decidable (Unraced s e)
  | .run t io => by
      refine @instDecidableAnd _ _ inferInstance (@instDecidableAnd _ _ inferInstance
        (@instDecidableAnd _ _ ?_ inferInstance))
      rcases (s.procs t).shutKind with _ | _ | _ <;> infer_instance
  | .call _ _ | .rx _ _ _ | .ackOut _ | .resend _ | .timeouts _ _ _ | .txDone _ | .netErr _ _ =>
      .isTrue trivial

/-- A step is a stretch of `tcp_shutdown` or `tcp_close`, or it leaves these calls
alone. -/
theorem sysStep_shut {s s' : Sys} {e : Event} (h : sysStep s e = .ok s') :
    (∃ t io, e = .run t io ∧ s.asleep t = false ∧ (s.procs t).shuts ∧ ShutStep s t io s') ∨
      (s'.warns = s.warns ∧ (∀ u k, s'.procs u = .shutWait k → s.procs u = .shutWait k) ∧
        finQueued s s' e = false) := by
  -- a task that goes to a point outside the wait for the FIN
  have hmove : ∀ {c : Conn} {t : Tid} {p : Proc}, (∀ k, p ≠ .shutWait k) →
      ∀ u k, (s.move c t p).procs u = .shutWait k → s.procs u = .shutWait k := by
    intro c t p hp u k hu
    by_cases hut : u = t
    · subst hut
      rw [Sys.procs_move_self] at hu
      exact absurd hu (hp k)
    · rwa [Sys.procs_move_of_ne _ _ _ hut] at hu
  cases sysStep_cases h with
  | skip =>
      refine .inr ⟨rfl, fun _ _ hp => hp, ?_⟩
      cases e <;> simp [finQueued]
  | @call t c => exact .inr ⟨rfl, hmove (fun k hk => by cases c <;> cases hk), rfl⟩
  | @run t io _ ha hrun =>
      cases hp : (s.procs t).shuts with
      | true => exact .inl ⟨t, io, rfl, ha, hp, runProc_shutStep ha hp hrun⟩
      | false =>
          obtain ⟨-, hw, p, hprocs, hps⟩ := runProc_other hp hrun
          refine .inr ⟨hw, fun u k hu => ?_, by simp [finQueued, hp]⟩
          rw [hprocs] at hu
          by_cases hut : u = t
          · subst hut
            rw [Function.update_self] at hu
            rw [hu] at hps
            cases hps
          · rwa [Function.update_of_ne hut] at hu
  | retransmit => exact .inr ⟨rfl, hmove (fun k hk => by cases hk), rfl⟩
  | rx | ackOut | resend | timeouts | txDone | netErr => exact .inr ⟨rfl, fun _ _ hp => hp, rfl⟩

/-- A sequence number is taken for a FIN when a task is past its wait and has a
buffer. -/
theorem TxMove.queuesFin {s s' : Sys} {t : Tid} {io : Io} (h : TxMove s (.run t io) s')
    (hf : finQueued s s' (.run t io)) : s.queuesFin t ∧ io.alloc 0 := by
  simp only [finQueued, Bool.and_eq_true, bne_iff_ne, ne_eq] at hf
  obtain ⟨hshut, hne⟩ := hf
  -- a task inside the two calls does not own the send side
  have hown : ∀ {q : Prop}, (s.procs t).holdsTx → q := by
    intro q hholds
    rw [Proc.holdsTx_of_shuts hshut] at hholds
    cases hholds
  have hsame : s'.conn.snd = s.conn.snd → s.queuesFin t ∧ io.alloc 0 :=
    fun hsnd => absurd (by rw [hsnd]) hne
  cases h with
  | inert hside => exact hsame (congrArg TxSide.snd hside)
  | fail _ hside => exact hsame (congrArg TxSide.snd hside)
  | fin hq ha | finErr hq ha => exact ⟨hq, ha⟩
  | lock | lockRetransmit => exact hsame rfl
  | send hp | sendv hp | endv hp | resend hp => exact hown (by rw [hp]; rfl)
  | unlock hp =>
      rcases hp with ⟨r, hp⟩ | hp <;> exact hown (by rw [hp]; rfl)

/-! ## The invariant -/

/-- The invariant: no assertion was run past, a FIN was queued at most once and with
the send side closed, and the tasks that wait are on an established connection. -/
structure FinInv (l : TxLog) : Prop where
  rx : l.sys.RxInv
  dialling : l.sys.Dialling
  owned : l.sys.TxOwned
  warns : l.sys.warns = []
  once : l.fins ≤ 1
  closed : 0 < l.fins → l.sys.conn.tx.closed
  waiting : ∀ t k, l.sys.procs t = .shutWait k → .established ≤ l.sys.conn.state

namespace FinInv

variable {l l' : TxLog} {e : Event} {t : Tid} {io : Io}

/-- Past the test at its entry, a task in `tcp_conn_shutdown_tx` has an established
connection. -/
theorem established (h : FinInv l) (ha : l.sys.asleep t = false)
    (he : l.sys.entersEarly t = false) (hcl : l.sys.conn.tx.closed = false)
    (hk : (l.sys.procs t).shutKind ≠ none) : .established ≤ l.sys.conn.state := by
  by_contra hst
  have hlt : l.sys.conn.state < .established := Nat.lt_of_not_le hst
  cases hp : l.sys.procs t with
  | shutWait k => exact hst (h.waiting t k hp)
  | shutEnter rd wr =>
      cases wr
      · simp [hp, Proc.shutKind] at hk
      · simp [Sys.entersEarly, ha, hcl, hlt, hp] at he
  | closeEnter => simp [Sys.entersEarly, ha, hcl, hlt, hp] at he
  | _ => simp [hp, Proc.shutKind] at hk

theorem shutKind_of_queuesFin {s : Sys} (h : s.queuesFin t) :
    (s.procs t).shutKind ≠ none := by
  simp only [Sys.queuesFin, Bool.and_eq_true] at h
  cases hp : s.procs t with
  | shutEnter rd wr =>
      cases wr
      · simp [hp] at h
      · simp [Proc.shutKind]
  | closeEnter | shutWait k => simp [Proc.shutKind]
  | _ => simp [hp] at h

/-- **A FIN is queued from ESTABLISHED or CLOSE_WAIT.** -/
theorem sendsFin (h : FinInv l) (hg : Unraced l.sys (.run t io)) (hq : l.sys.queuesFin t) :
    l.sys.conn.tx.closed = false ∧ l.sys.conn.state.sendsFin := by
  have ha : l.sys.asleep t = false := by
    simp only [Sys.queuesFin, Bool.and_eq_true, Bool.not_eq_true'] at hq
    exact hq.1.1
  have hcl := hg.2.1 hq
  have hest := h.established ha hg.1 hcl (shutKind_of_queuesFin hq)
  refine ⟨hcl, (h.owned.state hcl).resolve_left ?_⟩
  exact Nat.not_lt.mpr hest

/-- A stretch of `tcp_shutdown` or `tcp_close` under the guard: no assertion is run
past, and a FIN closes the send side. -/
theorem shutStep {s' : Sys} (h : FinInv l) (hg : Unraced l.sys (.run t io))
    (ha : l.sys.asleep t = false) (hs : ShutStep l.sys t io s') : s'.warns = [] ∧
      (l.sys.queuesFin t → io.alloc 0 → s'.conn.tx.closed) ∧
      ∀ u k, s'.procs u = .shutWait k → .established ≤ l.sys.conn.state := by
  have hentry : entryWarns l.sys t = [] := by simp [entryWarns, hg.1]
  -- the other tasks that wait have been waiting before
  have hothers : ∀ {p : Proc}, s'.procs = Function.update l.sys.procs t p →
      (∀ k, p = .shutWait k → .established ≤ l.sys.conn.state) →
      ∀ u k, s'.procs u = .shutWait k → .established ≤ l.sys.conn.state := by
    intro p hprocs hp u k hu
    rw [hprocs] at hu
    by_cases hut : u = t
    · subst hut
      rw [Function.update_self] at hu
      exact hp k hu
    · rw [Function.update_of_ne hut] at hu
      exact h.waiting u k hu
  cases hs with
  | skip hno hst hw hprocs =>
      refine ⟨hw.trans h.warns, fun hq _ => ?_, hothers hprocs nofun⟩
      rw [hno] at hq
      cases hq
  | @wait k hex hcl hk hst hw hprocs =>
      refine ⟨by rw [hw, h.warns, hentry]; rfl, fun hq _ => ?_, hothers hprocs fun k' _ => ?_⟩
      · exact absurd (hex.symm.trans (Sys.exclusive_of_queuesFin hq)) (by simp)
      · rcases hcl with hp | hcl
        · exact h.waiting t k hp
        · exact h.established ha hg.1 hcl (by simp [hk])
  | @err k r hk hq hio hfail hw hprocs =>
      refine ⟨by rw [hw, h.warns, hentry]; rfl, fun hq halloc => ?_, hothers hprocs nofun⟩
      have hg' := hg.2.2.1
      rw [hk] at hg'
      cases k with
      | shutdown rd => exact absurd (hg' hq halloc) (hio halloc)
      | close => exact hfail.2
  | sent hq halloc hnet hcl hst hw hprocs =>
      refine ⟨?_, fun _ _ => hcl, hothers hprocs nofun⟩
      rw [hw, h.warns, hentry, if_pos (h.sendsFin hg hq).2]
      rfl

theorem step (h : FinInv l) (hg : Unraced l.sys e) (hs : txLogStep l e = .ok l') : FinInv l' := by
  obtain ⟨s', h₁, h₂⟩ := bind_eq_ok.mp hs
  cases h₂
  have hmove := sysStep_txMove h.dialling.synSent h₁
  have hle := (sysStep_rxMove h.rx.rxOk h₁).state_le
  -- the parts that need no guard
  have hbase : ∀ {a b n : ℕ}, s'.warns = [] → n ≤ 1 → (0 < n → s'.conn.tx.closed) →
      (∀ u k, s'.procs u = .shutWait k → .established ≤ l.sys.conn.state) →
      FinInv ⟨s', a, b, n⟩ := by
    intro a b n hw hn hcl hwait
    exact ⟨sysStep_rxInv h.rx h₁, (h.dialling.step h.rx h₁).1, h.owned.step h.rx h.dialling h₁, hw,
      hn, hcl, fun u k hu => Nat.le_trans (hwait u k hu) hle⟩
  rcases sysStep_shut h₁ with ⟨t, io, rfl, ha, hp, hshut⟩ | ⟨hw, hwait, hfin⟩
  · obtain ⟨hw, hcl, hwait⟩ := h.shutStep hg ha hshut
    cases hf : finQueued l.sys s' (.run t io) with
    | false =>
        refine hbase hw (by simpa using h.once) (fun hpos => ?_) hwait
        exact hmove.closed_mono (h.closed (by simpa using hpos))
    | true =>
        obtain ⟨hq, halloc⟩ := hmove.queuesFin hf
        have hopen := (h.sendsFin hg hq).1
        have hzero : l.fins = 0 := by
          by_contra hne
          rw [h.closed (Nat.pos_of_ne_zero hne)] at hopen
          cases hopen
        exact hbase hw (by simp [hzero]) (fun _ => hcl hq halloc) hwait
  · rw [hfin]
    refine hbase (hw.trans h.warns) (by simpa using h.once) (fun hpos => ?_)
      fun u k hu => h.waiting u k (hwait u k hu)
    exact hmove.closed_mono (h.closed (by simpa using hpos))

theorem of_start {s : Sys} (h : s.Start) : FinInv (.start s) := by
  obtain ⟨-, -, -, hidle⟩ := h.txSide
  refine ⟨h.rxInv, h.dialling, h.txOwned, ?_, Nat.zero_le _, nofun, fun t k ht => ?_⟩
  · cases h <;> rfl
  · change s.procs t = _ at ht
    rw [hidle t] at ht
    cases ht

end FinInv

/-- Nothing was queued: no sequence number was taken and the queue did not grow. -/
def NothingQueued (c c' : Conn) : Prop :=
  c'.snd.nxt = c.snd.nxt ∧ c'.txSide.txq.length ≤ c.txSide.txq.length

theorem TxSide.length_trimmed (x : TxSide) : x.trimmed.txq.length ≤ x.txq.length := by
  rw [trimmed]
  split
  · exact Nat.le_refl _
  · exact List.length_dropWhile_le _ _

/-- **Nothing is queued on a CLOSED connection** under the guard. -/
theorem FinInv.nothingQueued {l : TxLog} {e : Event} {s' : Sys} (h : FinInv l)
    (hg : Unraced l.sys e) (hst : l.sys.conn.state = .closed) (hs : sysStep l.sys e = .ok s') :
    NothingQueued l.sys.conn s'.conn := by
  have hclosed : l.sys.conn.tx.closed := h.owned.closed (by rw [hst]; rfl)
  have hside : ∀ {x : TxSide}, s'.conn.txSide = x → x.snd.nxt = l.sys.conn.snd.nxt →
      x.txq.length ≤ l.sys.conn.txSide.txq.length → NothingQueued l.sys.conn s'.conn := by
    rintro _ rfl hnxt hlen
    exact ⟨hnxt, hlen⟩
  have hfailed : l.sys.conn.txSide.failed.txq.length ≤ l.sys.conn.txSide.txq.length := by
    simp only [TxSide.failed]
    split
    · exact Nat.le_refl _
    · exact Nat.zero_le _
  -- the guard keeps a FIN and a writer away
  have hopen : ∀ {q : Prop}, l.sys.conn.tx.closed = false → q := by
    intro q hcl
    rw [hclosed] at hcl
    cases hcl
  cases sysStep_txMove h.dialling.synSent hs with
  | inert hx _ => exact hside hx rfl (Nat.le_refl _)
  | fail _ hx _ => exact hside hx rfl hfailed
  | segment _ heff _ =>
      cases heff with
      | quiet hx => exact hside hx rfl (Nat.le_refl _)
      | fail _ hx => exact hside hx rfl hfailed
      | syn hsent _ =>
          rw [hst] at hsent
          cases hsent
      | ack hx _ hw _ =>
          refine hside hw ?_ ?_
          · rcases hx with rfl | ⟨-, rfl⟩
            · rfl
            · simp [TxSide.withWnd, TxSide.acked, Conn.txSide]
          · rcases hx with rfl | ⟨-, rfl⟩
            · exact Nat.le_refl _
            · exact TxSide.length_trimmed _
  | fin hq => exact hopen (hg.2.1 hq)
  | finErr hq => exact hopen (hg.2.1 hq)
  | lock _ hcl => exact hopen hcl
  | lockRetransmit _ _ hne => exact absurd hst hne
  | send hp => exact absurd hst (hg.2.2.2 (by simp [hp, Proc.winlen]))
  | sendv hp => exact absurd hst (hg.2.2.2 (by simp [hp, Proc.winlen]))
  | endv => exact ⟨rfl, Nat.le_refl _⟩
  | resend _ hre =>
      obtain ⟨txq, hall, hx⟩ := txSide_tcpTxRetransmit hre
      exact hside hx rfl (Nat.le_of_eq hall.length_eq.symm)
  | unlock _ _ hx _ =>
      refine hside hx (by simp [Conn.txSide]) ?_
      rw [TxSide.unlocked, if_pos hst]
      exact Nat.zero_le _

/-- **A FIN is queued once, and from the right state.**  In every state of every
guarded run the assertion and the `WARN` of `tcp_conn_shutdown_tx` were not reached
and at most one FIN was queued; and a further guarded step queues a FIN only from
ESTABLISHED or CLOSE_WAIT, and nothing on a CLOSED connection. -/
theorem fin_queued_once {s₀ : Sys} {l : TxLog} {es : List Event} (h₀ : s₀.Start)
    (hg : Along txLogStep (fun l e => Unraced l.sys e) (.start s₀) es)
    (h : exec txLogStep (.start s₀) es = .ok l) :
    l.sys.warns = [] ∧ l.fins ≤ 1 ∧ ∀ e l', Unraced l.sys e → txLogStep l e = .ok l' →
      (finQueued l.sys l'.sys e → l.sys.conn.state.sendsFin) ∧
      (l.sys.conn.state = .closed → NothingQueued l.sys.conn l'.sys.conn) := by
  have hinv : FinInv l :=
    exec_invariant (fun l e l' hi hge hs => hi.step hge hs) (.of_start h₀) hg h
  refine ⟨hinv.warns, hinv.once, fun e l' hge hs => ?_⟩
  obtain ⟨s', h₁, h₂⟩ := bind_eq_ok.mp hs
  cases h₂
  refine ⟨fun hf => ?_, fun hst => hinv.nothingQueued hge hst h₁⟩
  have hmove := sysStep_txMove hinv.dialling.synSent h₁
  cases e with
  | run t io => exact (hinv.sendsFin hge (hmove.queuesFin hf).1).2
  | _ => cases hf

/-- A write, then a shutdown on the established connection. -/
theorem fin_queued_once_after_write : ∃ l : TxLog,
    exec txLogStep (.start accepted)
      [.rx (windowFrame 1000) 1 (Io.good 0), .call 0 (.write [7, 8, 9]), .run 0 (Io.good 0),
        .call 1 (.shutdown false true), .run 1 (Io.good 0), .run 0 (Io.good 0),
        .run 0 (Io.good 0), .run 1 (Io.good 0)] = .ok l ∧
    l.sys.conn.state = .finWait1 ∧ l.fins = 1 ∧ l.sys.warns = [] :=
  have h := exec_final (by decide)
  ⟨_, h, by decide, by decide,
    (fin_queued_once accepted_start (by decide) h).1⟩

/-- Two tasks shut the connection down while a writer is exclusive: both queue a FIN
when the writer is done, the second in FIN_WAIT1.  And a connection that `tcp_accept`
hands out in SYN_RECEIVED takes a FIN in that state. -/
theorem fin_queued_twice : accepted.Start ∧
    (∃ l : TxLog, exec txLogStep (.start accepted)
        [.rx (windowFrame 1000) 1 (Io.good 0), .call 0 (.write [7, 8, 9]), .run 0 (Io.good 0),
          .call 1 (.shutdown false true), .run 1 (Io.good 0), .call 2 (.shutdown false true),
          .run 2 (Io.good 0), .run 0 (Io.good 0), .run 0 (Io.good 0), .run 1 (Io.good 0),
          .run 2 (Io.good 0)] = .ok l ∧
      l.fins = 2 ∧ l.sys.warns = [.shutState] ∧ l.sys.conn.state = .finWait1) ∧
    (∃ l : TxLog, exec txLogStep (.start accepted)
        [.call 0 (.shutdown false true), .run 0 (Io.good 0)] = .ok l ∧
      l.fins = 1 ∧ l.sys.warns = [.shutState, .shutState] ∧
      l.sys.conn.state = .synReceived) :=
  ⟨accepted_start, ⟨_, exec_final (by decide), by decide, by decide,
      by decide⟩,
    ⟨_, exec_final (by decide), by decide, by decide, by decide⟩⟩
end Skyloft
