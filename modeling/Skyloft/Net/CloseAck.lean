import Skyloft.Net.Shutdown

/-!
# The acknowledgement of the own FIN

`tcp_rx_conn` loads `snd_nxt` before it takes the lock, and its body compares
`snd_una` with the loaded value.  Between the two a task can queue a FIN.  Here the
load and the body are two events, any number of segments being between the two at a
time.

* `LoadSys`, `loadStep` — a connection with the segments whose body is to run.
* `StaleAck` — the segments that take the FIN for acknowledged and do not carry its
  acknowledgement.
* `sysStep_nxt_kept` — behind the own FIN only another FIN moves `snd_nxt`.
* `LoadInv`, `close_acked` — the close transitions of runs without such segments.
-/

namespace Skyloft

open Run

/-! ## Loads -/

/-- A call of `tcp_rx_conn` before it takes the lock: the frame, the `snd_nxt` that was
loaded, and whether a FIN was queued since. -/
structure Load where
  frame : Frame
  snap : Seq
  stale : Bool

/-- A connection with the calls of `tcp_rx_conn` that wait for the lock. -/
structure LoadSys where
  sys : Sys
  loads : List Load

inductive LoadEvent
  /-- `tcp_rx_conn` loads `snd_nxt`. -/
  | load (f : Frame)
  /-- The body of the `i`-th waiting call runs. -/
  | body (i : ℕ) (io : Io)
  /-- Anything that is not the ingress path. -/
  | other (e : Event)

/-- The calls that wait while a step is taken; a FIN makes them stale. -/
def Load.after (fin : Bool) (x : Load) : Load := { x with stale := x.stale || fin }

/-- One event.  A segment is processed by its load and its body only. -/
def loadStep (l : LoadSys) : LoadEvent → Except Fault LoadSys
  | .load f => .ok { l with loads := l.loads ++ [⟨f, l.sys.conn.snd.nxt, false⟩] }
  | .body i io =>
      match l.loads[i]? with
      | none => .ok l
      | some x => do
          return ⟨← sysStep l.sys (.rx x.frame x.snap io), l.loads.eraseIdx i⟩
  | .other (.rx _ _ _) => .ok l
  | .other e => do
      let s ← sysStep l.sys e
      return ⟨s, l.loads.map (Load.after (finQueued l.sys s e))⟩

def LoadSys.ofSys (s : Sys) : LoadSys := ⟨s, []⟩

/-- The states in which the FIN of the connection waits for its acknowledgement. -/
def TcpState.awaitsAck : TcpState → Bool
  | .finWait1 | .closing | .lastAck => true
  | _ => false

/-- The load is older than the FIN, and its segment acknowledges all that was sent when
`snd_nxt` was loaded. -/
def StaleAck (c : Conn) (x : Load) (seg : Segment) : Prop :=
  x.stale ∧ c.state.awaitsAck ∧ ReachesAck c seg ∧ AckedTo c.snd.una seg.ack x.snap

instance (c : Conn) (x : Load) (seg : Segment) : Decidable (StaleAck c x seg) :=
  inferInstanceAs (Decidable (_ ∧ _ ∧ _ ∧ _))

/-- The segment whose body the `i`-th waiting call is about to run. -/
def LoadSys.waiting (l : LoadSys) (i : ℕ) : Option (Load × Segment) :=
  match l.loads[i]? with
  | none => none
  | some x =>
      match tcpRxParse x.frame with
      | .ok (some seg) => some (x, seg)
      | _ => none

/-- The guard: no body runs for such a segment. -/
def NoStaleAck (l : LoadSys) : LoadEvent → Prop
  | .body i _ => ∀ p ∈ l.waiting i, ¬ StaleAck l.sys.conn p.1 p.2
  | _ => True

instance (l : LoadSys) : (e : LoadEvent) → Decidable (NoStaleAck l e)
  | .body i _ => inferInstanceAs (Decidable (∀ p ∈ l.waiting i, _))
  | .load _ | .other _ => .isTrue trivial

/-- The transitions that the acknowledgement of the own FIN takes; the peer's FIN may
come in the same segment. -/
def TcpState.closes : TcpState → TcpState → Bool
  | .finWait1, .finWait2 | .finWait1, .timeWait | .closing, .timeWait | .lastAck, .closed => true
  | _, _ => false

/-- The step is the body of a segment that is no reset and no SYN, and takes such a
transition. -/
def CloseTaken (l l' : LoadSys) : LoadEvent → Prop
  | .body i _ => ∃ p ∈ l.waiting i, p.2.flags.rst = false ∧ p.2.flags.syn = false ∧
      l.sys.conn.state.closes l'.sys.conn.state
  | _ => False

instance (l l' : LoadSys) : (e : LoadEvent) → Decidable (CloseTaken l l' e)
  | .body i _ => inferInstanceAs (Decidable (∃ p ∈ l.waiting i, _))
  | .load _ | .other _ => .isFalse id

theorem LoadSys.mem_waiting {l : LoadSys} {i : ℕ} {x : Load} {seg : Segment} :
    (x, seg) ∈ l.waiting i ↔ l.loads[i]? = some x ∧ tcpRxParse x.frame = .ok (some seg) := by
  rw [waiting]
  cases hl : l.loads[i]? with
  | none => simp
  | some y =>
      dsimp only
      split
      · rename_i seg' hparse
        simp only [Option.mem_def, Option.some.injEq, Prod.mk.injEq]
        constructor
        · rintro ⟨rfl, rfl⟩
          exact ⟨rfl, hparse⟩
        · rintro ⟨rfl, h⟩
          simpa using hparse.symm.trans h
      · rename_i hne
        simp only [Option.mem_def, reduceCtorEq, Option.some.injEq, false_iff, not_and]
        rintro rfl h
        exact hne seg h

/-! ## `snd_nxt` behind the own FIN -/

theorem shuts_of_queuesFin {s : Sys} {t : Tid} (h : s.queuesFin t) : (s.procs t).shuts := by
  revert h
  simp only [Sys.queuesFin]
  cases s.procs t <;> simp [Proc.shuts]

/-- A segment does not move `snd_nxt`, unless it is the SYN that both ends sent. -/
theorem TxEffect.nxt {c c' : Conn} {seg : Segment} {sndNxt : Seq} (h : TxEffect seg sndNxt c c')
    (hsyn : c.state ≠ .synSent) : c'.snd.nxt = c.snd.nxt := by
  change c'.txSide.snd.nxt = _
  cases h with
  | quiet hside | fail _ hside =>
      rw [hside]
      rfl
  | syn hst => exact absurd hst hsyn
  | ack hx _ hside _ =>
      rw [hside]
      rcases hx with rfl | ⟨-, rfl⟩
      · rfl
      · simp [TxSide.withWnd, TxSide.acked, Conn.txSide]

/-- **Behind the own FIN** only another FIN moves `snd_nxt`, as long as the connection
is not closed. -/
theorem sysStep_nxt_kept {s s' : Sys} {e : Event} (hrx : s.RxInv) (hd : s.Dialling)
    (ho : s.TxOwned) (hsd : s.conn.state.shutDown) (hs : sysStep s e = .ok s')
    (hne : s'.conn.state ≠ .closed) : s'.conn.snd.nxt = s.conn.snd.nxt ∨ finQueued s s' e := by
  have hst := (sysStep_rxMove hrx.rxOk hs).state_le
  have hne₀ : s.conn.state ≠ .closed := by
    intro hcl
    rw [hcl] at hst
    revert hst hne
    cases s'.conn.state <;> decide
  have hfin : ∀ {t io}, e = .run t io → s.queuesFin t →
      s'.conn.snd.nxt = s.conn.snd.nxt ∨ finQueued s s' e := by
    intro t io he hq
    by_cases hnxt : s'.conn.snd.nxt = s.conn.snd.nxt
    · exact .inl hnxt
    · exact .inr (by simp [he, finQueued, shuts_of_queuesFin hq, hnxt])
  have hnowriter : ∀ {t w}, (s.procs t).winlen = some w → False :=
    fun hw => hne₀ (ho.not_closed hw (ho.closed hsd))
  cases sysStep_txMove hd.synSent hs with
  | inert hside => exact .inl (congrArg (fun x : TxSide => x.snd.nxt) hside)
  | fail hcl => exact absurd hcl hne
  | segment _ heff =>
      refine .inl (heff.nxt fun hsyn => ?_)
      simp [hsyn, TcpState.shutDown] at hsd
  | fin hq => exact hfin rfl hq
  | finErr hq => exact hfin rfl hq
  | lock | lockRetransmit | endv => exact .inl rfl
  | @send t _ _ w _ _ hp => exact (hnowriter (t := t) (w := w) (by rw [hp]; rfl)).elim
  | @sendv t _ _ _ w _ _ _ _ _ hp => exact (hnowriter (t := t) (w := w) (by rw [hp]; rfl)).elim
  | resend _ hre =>
      obtain ⟨txq, -, hside⟩ := txSide_tcpTxRetransmit hre
      exact .inl (congrArg (fun x : TxSide => x.snd.nxt) hside)
  | unlock _ _ hside =>
      exact .inl ((congrArg (fun x : TxSide => x.snd.nxt) hside).trans
        (by rw [TxSide.snd_unlocked]; rfl))

/-! ## Close transitions -/

/-- A close transition is taken when `snd_una` is the loaded `snd_nxt`. -/
theorem RxLife.of_closes {c c' : Conn} {s : Segment} {sndNxt : Seq} (h : RxLife c s sndNxt c')
    (hrst : s.flags.rst = false) (hsyn : s.flags.syn = false) (hc : c.state.closes c'.state) :
    c.state.awaitsAck ∧ ReachesAck c s ∧ c'.snd.una = sndNxt ∧ AckedTo c.snd.una s.ack sndNxt := by
  have hawait : c.state.awaitsAck := by
    revert hc
    cases c.state <;> simp [TcpState.closes, TcpState.awaitsAck]
  have hst : c'.state = c'.life.state := rfl
  rw [hst] at hc
  cases h with
  | same hl =>
      rw [hl] at hc
      change c.state.closes c.state at hc
      revert hc
      cases c.state <;> simp [TcpState.closes]
  | early hlt =>
      rcases TcpState.lt_established_iff.mp hlt with hst | hst <;>
        simp [hst, TcpState.awaitsAck] at hawait
  | fail _ hwhy =>
      rcases hwhy with hwhy | hwhy | hwhy
      · simp [hwhy, TcpState.awaitsAck] at hawait
      · simp [hrst] at hwhy
      · simp [hsyn] at hwhy
  | est hx hreach hmove =>
      rcases hx with ⟨rfl, -, -⟩ | ⟨-, hrecv⟩
      · cases hmove with
        | plain hx' =>
            rcases hx' with hx' | hx' <;>
              · rw [hx'] at hc
                simp only [Conn.life] at hc
                revert hc
                cases c.state <;> simp [TcpState.closes, TcpState.afterFin]
        | close hack => exact ⟨hawait, hreach, hack⟩
        | lastAck hack => exact ⟨hawait, hreach, hack⟩
      · simp [hrecv, TcpState.awaitsAck] at hawait

/-- What holds of the waiting calls: a load that is not older than a FIN has the
`snd_nxt` of the connection, once that is behind its own FIN. -/
structure LoadInv (l : LoadSys) : Prop where
  rx : l.sys.RxInv
  dialling : l.sys.Dialling
  owned : l.sys.TxOwned
  fresh : ∀ x ∈ l.loads, x.stale = false → l.sys.conn.state.shutDown →
    l.sys.conn.state ≠ .closed → x.snap = l.sys.conn.snd.nxt

namespace LoadInv

variable {l l' : LoadSys} {e : LoadEvent}

/-- A step of the connection, and what it leaves of the waiting calls. -/
theorem advance (h : LoadInv l) {e : Event} {s' : Sys} {loads : List Load}
    (hs : sysStep l.sys e = .ok s')
    (hl : ∀ x ∈ loads, ∃ y ∈ l.loads, x = y.after (finQueued l.sys s' e)) :
    LoadInv ⟨s', loads⟩ := by
  refine ⟨sysStep_rxInv h.rx hs, (h.dialling.step h.rx hs).1, h.owned.step h.rx h.dialling hs,
    fun x hx hfresh hsd hne => ?_⟩
  obtain ⟨y, hy, rfl⟩ := hl x hx
  simp only [Load.after, Bool.or_eq_false_iff] at hfresh ⊢
  obtain ⟨hfresh, hfin⟩ := hfresh
  dsimp only at hsd hne ⊢
  have hsd₀ : l.sys.conn.state.shutDown := by
    rcases sysStep_shutDown hs hsd with hsd₀ | ⟨-, hcl | hf⟩
    · exact hsd₀
    · exact absurd hcl hne
    · simp [hfin] at hf
  have hne₀ : l.sys.conn.state ≠ .closed := by
    intro hcl
    have hst := (sysStep_rxMove h.rx.rxOk hs).state_le
    rw [hcl] at hst
    revert hst hne
    cases s'.conn.state <;> decide
  have hkept := sysStep_nxt_kept h.rx h.dialling h.owned hsd₀ hs hne
  simp only [hfin, Bool.false_eq_true, or_false] at hkept
  rw [hkept]
  exact h.fresh y hy hfresh hsd₀ hne₀

theorem step (h : LoadInv l) (hs : loadStep l e = .ok l') : LoadInv l' := by
  cases e with
  | load f =>
      cases hs
      refine ⟨h.rx, h.dialling, h.owned, fun x hx hfresh hsd hne => ?_⟩
      simp only [List.mem_append, List.mem_singleton] at hx
      rcases hx with hx | rfl
      · exact h.fresh x hx hfresh hsd hne
      · rfl
  | body i io =>
      rw [loadStep] at hs
      split at hs
      · cases hs
        exact h
      · obtain ⟨s', h₁, hl⟩ := bind_eq_ok.mp hs
        cases hl
        refine h.advance h₁ fun x hx => ⟨x, List.mem_of_mem_eraseIdx hx, ?_⟩
        simp [Load.after, finQueued]
  | other e =>
      have hother : ∀ {s'}, sysStep l.sys e = .ok s' →
          LoadInv ⟨s', l.loads.map (Load.after (finQueued l.sys s' e))⟩ := by
        intro s' hs
        refine h.advance hs fun x hx => ?_
        obtain ⟨y, hy, rfl⟩ := List.mem_map.mp hx
        exact ⟨y, hy, rfl⟩
      cases e with
      | rx f sndNxt io =>
          cases hs
          exact h
      | _ =>
          obtain ⟨s', h₁, hl⟩ := bind_eq_ok.mp hs
          cases hl
          exact hother h₁

theorem of_start {s : Sys} (h : s.Start) : LoadInv (.ofSys s) :=
  ⟨h.rxInv, h.dialling, h.txOwned, fun _ hx => by cases hx⟩

end LoadInv

/-- **The close transitions follow the acknowledgement of the FIN.**  After every run
of loads, bodies, calls and timers in any order, a step takes a close transition only
when all that was sent, the FIN included, is acknowledged, unless it is the body of a
segment that was loaded before the FIN was queued. -/
theorem close_acked {s₀ : Sys} {l : LoadSys} {es : List LoadEvent} (h₀ : s₀.Start)
    (h : exec loadStep (.ofSys s₀) es = .ok l) {e : LoadEvent} {l' : LoadSys}
    (hg : NoStaleAck l e) (hs : loadStep l e = .ok l') (hc : CloseTaken l l' e) :
    l'.sys.conn.snd.una = l'.sys.conn.snd.nxt := by
  have hinv : LoadInv l :=
    exec_invariant (fun _ _ _ hi _ hs => hi.step hs) (.of_start h₀) (Along.trivial es _) h
  cases e with
  | load f => exact hc.elim
  | other e => exact hc.elim
  | body i io =>
      obtain ⟨⟨x, seg⟩, hp, hrst, hsyn, hc⟩ := hc
      obtain ⟨hx, hparse⟩ := LoadSys.mem_waiting.mp hp
      have hg : ¬ StaleAck l.sys.conn x seg := hg _ hp
      simp only [loadStep, hx] at hs
      obtain ⟨s', h₁, hl⟩ := bind_eq_ok.mp hs
      cases hl
      dsimp only at hc ⊢
      have hmove : RxLife l.sys.conn seg x.snap s'.conn ∧ TxEffect seg x.snap l.sys.conn s'.conn := by
        obtain ⟨o, h₂, h₃⟩ := bind_eq_ok.mp h₁
        cases hparse.symm.trans h₂
        obtain ⟨r, h₄, hr⟩ := bind_eq_ok.mp h₃
        cases hr
        exact ⟨tcpRxConn_life h₄, tcpRxConn_txEffect hinv.dialling.synSent h₄⟩
      obtain ⟨hawait, hreach, huna, hacked⟩ := hmove.1.of_closes hrst hsyn hc
      have hst : l.sys.conn.state.shutDown ∧ l.sys.conn.state ≠ .closed ∧
          l.sys.conn.state ≠ .synSent := by
        revert hawait
        cases l.sys.conn.state <;> simp [TcpState.awaitsAck, TcpState.shutDown]
      have hfresh : x.stale = false := by
        by_contra hstale
        exact hg ⟨by simpa using hstale, hawait, hreach, hacked⟩
      calc s'.conn.snd.una = x.snap := huna
        _ = l.sys.conn.snd.nxt := hinv.fresh x (List.mem_of_getElem? hx) hfresh hst.1 hst.2.1
        _ = s'.conn.snd.nxt := (hmove.2.nxt hst.2.2).symm

/-- The acknowledgement of the FIN of a connection that sent nothing else. -/
def finAckFrame : Frame :=
  Packet.frame { seq := 1, ack := 2, flags := { ack := true }, win := 1000, data := [] }

/-- The peer acknowledges the FIN. -/
theorem close_acked_finWait2 : ∃ l l' : LoadSys,
    exec loadStep (.ofSys accepted)
      [.load (windowFrame 1000), .body 0 (Io.good 0), .other (.call 0 (.shutdown false true)),
        .other (.run 0 (Io.good 0)), .load finAckFrame] = .ok l ∧
    loadStep l (.body 0 (Io.good 0)) = .ok l' ∧ l.sys.conn.state = .finWait1 ∧
    l'.sys.conn.state = .finWait2 ∧ l'.sys.conn.snd.una = l'.sys.conn.snd.nxt :=
  have h := exec_final (by decide)
  have hs := step_final (by decide)
  ⟨_, _, h, hs, by decide, by decide,
    close_acked accepted_start h (by decide) hs (by decide)⟩

/-- The segment that announced the window comes again and is loaded before the FIN is
queued, its body running after.  The connection goes to FIN_WAIT2 and its FIN is not
acknowledged. -/
theorem close_not_acked : accepted.Start ∧ ∃ l l' : LoadSys,
    exec loadStep (.ofSys accepted)
      [.load (windowFrame 1000), .body 0 (Io.good 0), .load (windowFrame 1000),
        .other (.call 0 (.shutdown false true)), .other (.run 0 (Io.good 0))] = .ok l ∧
    loadStep l (.body 0 (Io.good 0)) = .ok l' ∧ CloseTaken l l' (.body 0 (Io.good 0)) ∧
    l'.sys.conn.state = .finWait2 ∧ l'.sys.conn.snd.una = 1 ∧ l'.sys.conn.snd.nxt = 2 :=
  ⟨accepted_start, _, _, exec_final (by decide), step_final (by decide),
    by decide, by decide, by decide, by decide⟩

end Skyloft
