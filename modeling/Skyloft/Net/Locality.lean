import Skyloft.Net.Frame

/-!
# What each function leaves alone

The sending functions, the timers and the reference counts do not touch the
receive side of a connection or its state.  `SameRx c c'` says so of two
connections; there is one lemma for each function, and the proofs about the
receive side use these and never unfold a sending function.
-/

namespace Skyloft

open Run

/-- `c'` has the state and the receive side of `c`. -/
structure SameRx (c c' : Conn) : Prop where
  side : c'.rxSide = c.rxSide
  state : c'.state = c.state

namespace SameRx

variable {a b c : Conn}

theorem refl (c : Conn) : SameRx c c := ⟨rfl, rfl⟩

theorem trans (h : SameRx a b) (h' : SameRx b c) : SameRx a c :=
  ⟨h'.side.trans h.side, h'.state.trans h.state⟩

theorem rcv (h : SameRx a b) : b.rcv = a.rcv := congrArg RxSide.rcv h.side

theorem rx (h : SameRx a b) : b.rx = a.rx := congrArg RxSide.rx h.side

end SameRx

/-! ## Sending -/

namespace SameRx

variable {a c d : Conn}

/-- The egress path leaves state and receive side alone. -/
theorem of_txFrame (h : SameRx a c) (hd : d.txFrame = c.txFrame) : SameRx a d := by
  have hside : d.txFrame.rxSide = c.txFrame.rxSide := congrArg Conn.rxSide hd
  have hstate : d.txFrame.state = c.txFrame.state := congrArg Conn.state hd
  exact h.trans ⟨hside, hstate⟩

theorem tcpTxRawRst (h : SameRx a c) (seq : Seq) (io : Io) : SameRx a (tcpTxRawRst c seq io) :=
  h.of_txFrame (txFrame_tcpTxRawRst c seq io)

theorem sendRst (h : SameRx a c) (acked : Bool) (s : Segment) (io : Io) :
    SameRx a (sendRst c acked s io) := h.of_txFrame (txFrame_sendRst c acked s io)

theorem tcpTxAck (h : SameRx a c) (io : Io) : SameRx a (tcpTxAck c io) :=
  h.of_txFrame (txFrame_tcpTxAck c io)

theorem tcpTxCtl (h : SameRx a c) (f : TcpFlags) (io : Io) : SameRx a (tcpTxCtl c f io).1 :=
  h.of_txFrame (txFrame_tcpTxCtl c f io)

theorem tcpTxFastRetransmitStart (h : SameRx a c) (now : Usec) :
    SameRx a (tcpTxFastRetransmitStart c now).1 :=
  h.of_txFrame (txFrame_tcpTxFastRetransmitStart c now)

theorem tcpConnAck (h : SameRx a c) : SameRx a (tcpConnAck c) :=
  h.of_txFrame (txFrame_tcpConnAck c)

theorem tcpTimerUpdate (h : SameRx a c) (now : Usec) : SameRx a (tcpTimerUpdate c now) :=
  ⟨h.side, h.state⟩

end SameRx

theorem sameRx_tcpTxSend {c c' : Conn} {buf : List Byte} {push : Bool} {io : Io} {ret : ℤ}
    (h : tcpTxSend c buf push io = .ok (c', ret)) : SameRx c c' :=
  (SameRx.refl c).of_txFrame (txFrame_tcpTxSend h)

theorem sameRx_tcpTxRetransmit {c c' : Conn} {io : Io} (h : tcpTxRetransmit c io = .ok c') :
    SameRx c c' := (SameRx.refl c).of_txFrame (txFrame_tcpTxRetransmit h)

theorem sameRx_tcpTxFastRetransmitFinish {c c' : Conn} {m : Mbuf} {io : Io}
    (h : tcpTxFastRetransmitFinish c m io = .ok c') : SameRx c c' :=
  (SameRx.refl c).of_txFrame (txFrame_tcpTxFastRetransmitFinish h)

/-! ## States and references -/

theorem sameRx_tcpConnPut {c c' : Conn} (h : tcpConnPut c = .ok c') : SameRx c c' := by
  obtain ⟨n, rfl⟩ := tcpConnPut_eq h
  exact ⟨rfl, rfl⟩

/-- A state change touches nothing of the receive side. -/
theorem tcpConnSetState_spec {c c' : Conn} {new : TcpState} {now : Usec}
    (h : tcpConnSetState c new now = .ok c') : c'.rxSide = c.rxSide ∧ c'.state = new := by
  obtain ⟨wq, rfl⟩ := tcpConnSetState_eq h
  exact ⟨rfl, rfl⟩

theorem tcpConnSetState_ok {c : Conn} {new : TcpState} (now : Usec) (h : c.state < new) :
    ∃ c', tcpConnSetState c new now = .ok c' := by
  rw [tcpConnSetState, if_pos (.inr h)]
  exact ⟨_, rfl⟩

theorem tcpConnPut_ok {c : Conn} (h : c.state = .closed) : ∃ c', tcpConnPut c = .ok c' := by
  rw [tcpConnPut]
  dsimp only
  rw [if_pos h]
  split <;> exact ⟨_, rfl⟩

theorem SameRx.writeFinishQueue {a c : Conn} (h : SameRx a c) (now : Usec) :
    SameRx a (writeFinishQueue c now).1 := by
  rw [Skyloft.writeFinishQueue]
  split
  · exact ⟨h.side, h.state⟩
  · split
    · dsimp only
      split
      · refine SameRx.tcpTxFastRetransmitStart ?_ now
        exact ⟨h.side, h.state⟩
      · exact ⟨h.side, h.state⟩
    · exact h

theorem sameRx_tcpWriteFinish {c c' : Conn} {now : Usec} {m : Option Mbuf}
    (h : tcpWriteFinish c now = .ok (c', m)) : SameRx c c' := by
  obtain ⟨-, d, _, _, u, hd, hu, rfl⟩ := tcpWriteFinish_eq h
  have hack : SameRx c d := by
    rw [hd]
    refine SameRx.tcpConnAck ?_
    exact ⟨rfl, rfl⟩
  have hqueue : SameRx c u := by
    rw [hu]
    refine SameRx.writeFinishQueue ?_ now
    exact ⟨hack.side, hack.state⟩
  exact ⟨hqueue.side, hqueue.state⟩

/-- The state changes of `tcp_conn_shutdown_tx`. -/
inductive ShutMove : TcpState → TcpState → Prop
  | same {st} : ShutMove st st
  | finWait1 : ShutMove .established .finWait1
  | lastAck : ShutMove .closeWait .lastAck

theorem shutdownTxState_spec {c c' : Conn} {now : Usec} (h : shutdownTxState c now = .ok c') :
    c'.rxSide = c.rxSide ∧ ShutMove c.state c'.state := by
  rw [shutdownTxState] at h
  split at h
  · rename_i he
    obtain ⟨hs, hst⟩ := tcpConnSetState_spec h
    exact ⟨hs, he ▸ hst ▸ .finWait1⟩
  · split at h
    · rename_i he
      obtain ⟨hs, hst⟩ := tcpConnSetState_spec h
      exact ⟨hs, he ▸ hst ▸ .lastAck⟩
    · cases h
      exact ⟨rfl, .same⟩

theorem tcpShutdownTxFin_spec {c c' : Conn} {io : Io} {ret : ℤ} {warn : Bool}
    (h : tcpShutdownTxFin c io = .ok (c', ret, warn)) :
    c'.rxSide = c.rxSide ∧ ShutMove c.state c'.state := by
  have h₁ := (SameRx.refl c).tcpTxCtl { fin := true, ack := true } io
  rw [tcpShutdownTxFin] at h
  generalize tcpTxCtl c { fin := true, ack := true } io = r at h h₁
  obtain ⟨c₁, ret₁⟩ := r
  dsimp only at h h₁
  split at h
  · cases h
    exact ⟨h₁.side, h₁.state ▸ .same⟩
  · obtain ⟨c₂, h₂, h⟩ := bind_eq_ok.mp h
    cases h
    obtain ⟨hs, hst⟩ := shutdownTxState_spec h₂
    exact ⟨hs.trans h₁.side, h₁.state ▸ hst⟩

/-- `tcp_handle_timeouts` can only close a connection in TIME_WAIT. -/
theorem tcpHandleTimeouts_spec {c c' : Conn} {now clock : Usec} {ack re : Bool}
    (h : tcpHandleTimeouts c now clock = .ok (c', ack, re)) :
    c'.rxSide = c.rxSide ∧
      (c'.state = c.state ∨ (c.state = .timeWait ∧ c'.state = .closed)) := by
  rw [tcpHandleTimeouts] at h
  split at h
  · cases h; exact ⟨rfl, .inl rfl⟩
  split at h
  · rename_i htw
    obtain ⟨c₁, h₁, h⟩ := bind_eq_ok.mp h
    obtain ⟨c₂, h₂, h⟩ := bind_eq_ok.mp h
    cases h
    obtain ⟨hs, hst⟩ := tcpConnSetState_spec h₁
    have hp := sameRx_tcpConnPut h₂
    exact ⟨hp.side.trans hs, .inr ⟨htw.1, hp.state.trans hst⟩⟩
  · cases h
    have h₁ : ∀ d : Conn, SameRx d (if ackDue d now then
        { d with tmr := { d.tmr with ackDelayed := false } } else d) := by
      intro d
      split <;> exact ⟨rfl, rfl⟩
    have h₂ : ∀ d : Conn, SameRx d (if retransmitDue c now then tcpConnGet d else d) := by
      intro d
      split <;> exact ⟨rfl, rfl⟩
    have h₃ := ((h₁ c).trans (h₂ _)).tcpTimerUpdate clock
    exact ⟨h₃.side, .inl h₃.state⟩

/-- The receive side that `tcp_conn_fail` leaves. -/
def RxSide.failed (x : RxSide) (err : ℤ) : RxSide :=
  { x with
    rx := { x.rx with
      closed := true
      wq := if x.rx.closed then x.rx.wq else []
      rxqOoo := []
      rxq := if x.rx.exclusive then x.rx.rxq else [] }
    err := err }

theorem tcpConnFail_spec {c c' : Conn} {err : ℤ} {now : Usec}
    (h : tcpConnFail c err now = .ok c') :
    c'.state = .closed ∧ c'.rxSide = c.rxSide.failed err := by
  obtain ⟨c₁, h₁, h⟩ := bind_eq_ok.mp h
  obtain ⟨hs, hst⟩ := tcpConnSetState_spec h₁
  have hp := sameRx_tcpConnPut h
  refine ⟨hp.state.trans hst, hp.side.trans ?_⟩
  have herr : c₁.err = err := congrArg RxSide.err hs
  change c₁.rxSide.failed c₁.err = _
  rw [hs, herr]
  rfl

theorem tcpConnFail_ok (c : Conn) (err : ℤ) (now : Usec) :
    ∃ c', tcpConnFail c err now = .ok c' := by
  have h₁ : ∃ c₁, tcpConnSetState { c with err := err } .closed now = .ok c₁ := by
    rw [tcpConnSetState, if_pos]
    · exact ⟨_, rfl⟩
    · change c.state = .closed ∨ c.state < .closed
      cases c.state <;> decide
  obtain ⟨c₁, h₁⟩ := h₁
  have hst : (connFailQueues c₁).state = .closed := (tcpConnSetState_spec h₁).2
  obtain ⟨c', h'⟩ := tcpConnPut_ok hst
  exact ⟨c', bind_eq_ok.mpr ⟨c₁, h₁, h'⟩⟩

end Skyloft
