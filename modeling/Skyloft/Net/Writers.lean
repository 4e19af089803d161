import Skyloft.Net.Readers
import Skyloft.Net.TxSide

/-!
# The send side of one step

What a step of the system can do to the send side and to the tasks that own it:
`TxMove` has one constructor for each, and `sysStep_txMove` says that every step is
one of them.  The invariants of the send side are proved by going through these
constructors.

## Main definitions

* `Proc.holdsTx` — the program points at which a task owns the send side.
* `TxEffect`, `tcpRxConn_txEffect` — what a segment does to the send side.
* `TxMove`, `sysStep_txMove` — the moves of a step.
-/

namespace Skyloft

open Run

/-- The program points at which a task owns the send side. -/
def Proc.holdsTx : Proc → Bool
  | .writeSend _ _ | .writevSend _ _ _ _ | .writeFinish _ | .retransmitSend
  | .retransmitFinish => true
  | _ => false

/-- The tasks that own the send side have not moved. -/
def SameWriters (s s' : Sys) : Prop :=
  ∀ t, s'.procs t = s.procs t ∨ ((s.procs t).holdsTx = false ∧ (s'.procs t).holdsTx = false)

/-- The task is about to queue a FIN: it is inside `tcp_conn_shutdown_tx`, past the
test of `tx_closed`, and no writer is exclusive. -/
def Sys.queuesFin (s : Sys) (t : Tid) : Bool :=
  !s.asleep t && !s.conn.tx.exclusive &&
    match s.procs t with
    | .shutEnter _ wr => wr && !s.conn.tx.closed
    | .closeEnter => !s.conn.tx.closed
    | .shutWait _ => true
    | _ => false

/-- The send side with the send window that a segment announced. -/
def TxSide.withWnd (x : TxSide) (wnd wl1 wl2 : Seq) : TxSide :=
  { x with snd := { x.snd with wnd := wnd, wl1 := wl1, wl2 := wl2 } }

/-- The segment acknowledges something between `snd_una` and the `snd_nxt` that was
loaded for it. -/
def Acks (c : Conn) (seg : Segment) (sndNxt : Seq) : Prop :=
  seg.flags.ack ∧ wrapsLte c.snd.una seg.ack ∧ wrapsLte seg.ack sndNxt

instance (c : Conn) (seg : Segment) (sndNxt : Seq) : Decidable (Acks c seg sndNxt) :=
  inferInstanceAs (Decidable (_ ∧ _ ∧ _))

/-! ## Segments -/

/-- What a segment does to the send side of a connection. -/
inductive TxEffect (seg : Segment) (sndNxt : Seq) (c c' : Conn) : Prop
  | quiet : c'.txSide = c.txSide → TxEffect seg sndNxt c c'
  | fail : c'.state = .closed → c'.txSide = c.txSide.failed → TxEffect seg sndNxt c c'
  /-- Both ends opened the connection. -/
  | syn : c.state = .synSent → c'.txSide = c.txSide.queued → TxEffect seg sndNxt c c'
  | ack {x : TxSide} {wnd wl1 wl2 : Seq} :
      x = c.txSide ∨ (Acks c seg sndNxt ∧ x = c.txSide.acked seg.ack) →
      wnd = c.snd.wnd ∨ wnd = sndWndOf seg.win → c'.txSide = x.withWnd wnd wl1 wl2 →
      (c.state = .synSent → c'.state = .established) → TxEffect seg sndNxt c c'

theorem txSide_rxDupAck (c : Conn) (s : Segment) (now : Usec) :
    (rxDupAck c s now).1.txSide = c.txSide := by
  rw [rxDupAck]
  split
  · dsimp only
    split
    · split
      · rfl
      · exact (txSide_tcpTxFastRetransmitStart _ now)
    · rfl
  · rfl

theorem txSide_rxAck {c c' : Conn} {s : Segment} {sndNxt : Seq} (h : rxAck c s sndNxt = some c') :
    (¬ (wrapsLte c.snd.una s.ack ∧ wrapsLte s.ack sndNxt) ∧ c'.txSide = c.txSide) ∨
      (wrapsLte c.snd.una s.ack ∧ wrapsLte s.ack sndNxt ∧ c'.txSide = c.txSide.acked s.ack) := by
  rw [rxAck] at h
  split at h
  · rename_i hle
    cases h
    exact .inr ⟨hle.1, hle.2, txSide_tcpConnAck _⟩
  · rename_i hle
    split at h
    · cases h
    · cases h
      exact .inl ⟨hle, rfl⟩

theorem txSide_rxSndWnd (c : Conn) (s : Segment) : ∃ wnd wl1 wl2,
    (wnd = c.snd.wnd ∨ wnd = sndWndOf s.win) ∧
      (rxSndWnd c s).txSide = c.txSide.withWnd wnd wl1 wl2 := by
  rw [rxSndWnd]
  split
  · exact ⟨_, _, _, .inr rfl, rfl⟩
  · exact ⟨_, _, _, .inl rfl, rfl⟩

theorem txSide_rxCloseStep {c c' : Conn} {sndNxt : Seq} {now : Usec} {b : Bool}
    (h : rxCloseStep c sndNxt now = .ok (c', b)) : c'.txSide = c.txSide := by
  rw [rxCloseStep] at h
  split_ifs at h
  · obtain ⟨c₁, h₁, h⟩ := bind_eq_ok.mp h
    cases h
    exact (txSide_tcpConnSetState h₁).trans rfl
  · obtain ⟨c₁, h₁, h⟩ := bind_eq_ok.mp h
    cases h
    exact (txSide_tcpConnSetState h₁).trans rfl
  · obtain ⟨c₁, h₁, h⟩ := bind_eq_ok.mp h
    obtain ⟨c₂, h₂, h⟩ := bind_eq_ok.mp h
    cases h
    exact (txSide_tcpConnPut h₂).trans (txSide_tcpConnSetState h₁)
  · cases h
    rfl

theorem txSide_rxTextStep {c c' : Conn} {s : Segment} {now : Usec} {drop ack : Bool}
    (h : rxTextStep c s now = .ok (c', drop, ack)) : c'.txSide = c.txSide := by
  rw [rxTextStep] at h
  split at h
  · obtain ⟨r, h₁, h⟩ := bind_eq_ok.mp h
    rw [← txSide_tcpRxText h₁]
    rw [rxTextWake] at h
    split_ifs at h <;> cases h <;> dsimp only <;> split <;> rfl
  · cases h
    rfl

theorem txSide_rxFinStep {c c' : Conn} {s : Segment} {sndNxt : Seq} {now : Usec} {ack : Bool}
    (h : rxFinStep c s sndNxt now = .ok (c', ack)) : c'.txSide = c.txSide := by
  rw [rxFinStep] at h
  split_ifs at h
  · cases h
    rfl
  · obtain ⟨c₁, h₁, h⟩ := bind_eq_ok.mp h
    cases h
    exact (txSide_tcpConnSetState h₁).trans rfl
  · obtain ⟨c₁, h₁, h⟩ := bind_eq_ok.mp h
    cases h
    exact (txSide_tcpConnSetState h₁).trans rfl
  · obtain ⟨c₁, h₁, h⟩ := bind_eq_ok.mp h
    cases h
    exact (txSide_tcpConnSetState h₁).trans rfl
  · cases h
    rfl

@[simp] theorem TxSide.withWnd_withWnd (x : TxSide) (w l k w' l' k' : Seq) :
    (x.withWnd w l k).withWnd w' l' k' = x.withWnd w' l' k' := rfl

theorem TxSide.acked_withWnd (x : TxSide) (ack w l k : Seq) :
    (x.withWnd w l k).acked ack = (x.acked ack).withWnd w l k := by
  cases h : x.exclusive <;> simp [acked, withWnd, trimmed, h]

/-- The steps from the acknowledgement on take the acknowledgement, or not, and the
window, or not. -/
theorem rxEstablished_txSide {c : Conn} {s : Segment} {sndNxt : Seq} {io : Io} {r : RxOut}
    (h : rxEstablished c s sndNxt io = .ok r) : ∃ x wnd wl1 wl2,
      ((¬ (wrapsLte c.snd.una s.ack ∧ wrapsLte s.ack sndNxt) ∧ x = c.txSide) ∨
        (wrapsLte c.snd.una s.ack ∧ wrapsLte s.ack sndNxt ∧ x = c.txSide.acked s.ack)) ∧
      (wnd = c.snd.wnd ∨ wnd = sndWndOf s.win) ∧ r.conn.txSide = x.withWnd wnd wl1 wl2 := by
  have h₁ := txSide_rxDupAck c s io.now
  rw [rxEstablished] at h
  generalize rxDupAck c s io.now = r₁ at h h₁
  obtain ⟨c₁, re⟩ := r₁
  have hsnd₁ : c₁.snd = c.snd := congrArg TxSide.snd h₁
  dsimp only at h h₁
  cases ha : rxAck c₁ s sndNxt with
  | none =>
      rw [ha] at h
      cases h
      refine ⟨c.txSide, c.snd.wnd, c.snd.wl1, c.snd.wl2, .inl ⟨fun hle => ?_, rfl⟩, .inl rfl, h₁⟩
      rw [rxAck, if_pos (hsnd₁ ▸ hle)] at ha
      cases ha
  | some c₂ =>
      rw [ha] at h
      obtain ⟨⟨c₄, closed⟩, h₄, h⟩ := bind_eq_ok.mp h
      have h₂ := txSide_rxAck ha
      rw [h₁, hsnd₁] at h₂
      obtain ⟨wnd, wl1, wl2, hwnd, h₃⟩ := txSide_rxSndWnd c₂ s
      have hsnd₂ : c₂.snd.wnd = c.snd.wnd := by
        change c₂.txSide.snd.wnd = _
        rcases h₂ with ⟨-, h₂⟩ | ⟨-, -, h₂⟩ <;> rw [h₂] <;> simp [TxSide.acked, Conn.txSide]
      have hside₄ : c₄.txSide = c₂.txSide.withWnd wnd wl1 wl2 := by
        rw [txSide_rxCloseStep h₄, ← h₃]
        split <;> rfl
      refine ⟨c₂.txSide, wnd, wl1, wl2, h₂, hsnd₂ ▸ hwnd, ?_⟩
      dsimp only at h
      split at h
      · cases h
        exact hside₄
      · obtain ⟨⟨c₅, drop, ack⟩, h₅, h⟩ := bind_eq_ok.mp h
        obtain ⟨⟨c₆, ack'⟩, h₆, h⟩ := bind_eq_ok.mp h
        cases h
        exact (txSide_rxFinStep h₆).trans ((txSide_rxTextStep h₅).trans hside₄)

/-- The SYN_SENT branch. -/
theorem rxSynSent_txEffect {c : Conn} {s : Segment} {sndNxt : Seq} {io : Io} {r : RxOut}
    (hst : c.state = .synSent) (hsyn : c.snd.una = c.snd.iss)
    (h : rxSynSent c s sndNxt io = .ok r) : TxEffect s sndNxt c r.conn := by
  rw [rxSynSent] at h
  split at h
  · cases h
    exact .quiet (txSide_sendRst _ _ _ _)
  rename_i hack
  split at h
  · obtain ⟨c₁, h₁, h⟩ := bind_eq_ok.mp h
    cases h
    exact .fail (tcpConnFail_spec h₁).1 (txSide_tcpConnFail h₁)
  split at h
  · cases h
    exact .quiet rfl
  split at h
  · cases ha : s.flags.ack with
    | true =>
        simp only [ha, true_and, if_true, not_or] at hack h
        have hgt : wrapsGt s.ack c.snd.iss := wrapsGt_of_not_wrapsLte hack.1
        have hacks : Acks c s sndNxt :=
          ⟨ha, hsyn ▸ wrapsLte_of_wrapsGt hgt, wrapsLte_of_not_wrapsGt hack.2⟩
        generalize hc₁ : tcpConnAck _ = c₁ at h
        have hside : c₁.txSide = c.txSide.acked s.ack := by
          rw [← hc₁, txSide_tcpConnAck]
          rfl
        have hsnd : c₁.snd = { c.snd with una := s.ack } := by
          rw [show c₁.snd = c₁.txSide.snd from rfl, hside]
          simp [TxSide.acked, Conn.txSide]
        rw [if_pos (by rw [hsnd]; exact hgt)] at h
        obtain ⟨c₂, h₂, h⟩ := bind_eq_ok.mp h
        cases h
        have hside₂ : c₂.txSide = c₁.txSide.withWnd (sndWndOf s.win) s.seq s.ack :=
          txSide_tcpConnSetState h₂
        exact .ack (.inr ⟨hacks, hside⟩) (.inr rfl) hside₂ fun _ => (tcpConnSetState_spec h₂).2
    | false =>
        simp only [ha, Bool.false_eq_true, if_false] at h
        rw [if_neg (by rw [hsyn]; simp [wrapsGt_iff])] at h
        generalize hc₁ : ({ c with rcv := _ } : Conn) = c₁ at h
        have hside : c₁.txSide = c.txSide := by rw [← hc₁]; rfl
        have hctl := txSide_tcpTxCtl c₁ { syn := true, ack := true } io
        rw [hside] at hctl
        generalize tcpTxCtl c₁ { syn := true, ack := true } io = r₁ at h hctl
        obtain ⟨c₂, ret⟩ := r₁
        have heff : ∀ {c' : Conn}, c'.txSide = c₂.txSide → TxEffect s sndNxt c c' := by
          intro c' hc'
          dsimp only at hctl
          split at hctl
          · exact .syn hst (hc'.trans hctl)
          · exact .quiet (hc'.trans hctl)
        dsimp only at h
        split at h
        · cases h
          exact heff rfl
        · obtain ⟨c₃, h₃, h⟩ := bind_eq_ok.mp h
          cases h
          exact heff (txSide_tcpConnSetState h₃)
  · cases h
    exact .quiet rfl

/-- **A segment** leaves the send side alone, fails the connection, has a control
segment queued or is taken for its acknowledgement and its window. -/
theorem tcpRxConn_txEffect {c : Conn} {s : Segment} {sndNxt : Seq} {io : Io} {r : RxOut}
    (hsyn : c.state = .synSent → c.snd.una = c.snd.iss) (h : tcpRxConn c s sndNxt io = .ok r) :
    TxEffect s sndNxt c r.conn := by
  obtain ⟨r, h₁, h⟩ := bind_eq_ok.mp h
  cases h
  suffices heff : TxEffect s sndNxt c r.conn by
    cases heff with
    | quiet hside => exact .quiet hside
    | fail hst hside => exact .fail hst hside
    | syn hst hside => exact .syn hst hside
    | ack hx hwnd hside hst => exact .ack hx hwnd hside hst
  rw [tcpRxConnBody] at h₁
  split at h₁
  · cases h₁
    dsimp only
    split
    · exact .quiet rfl
    · exact .quiet (txSide_sendRst _ _ _ _)
  split at h₁
  · rename_i hst
    exact rxSynSent_txEffect hst (hsyn hst) h₁
  rename_i hst
  split at h₁
  · cases h₁
    exact .quiet rfl
  split at h₁
  · obtain ⟨c₁, h₂, h₁⟩ := bind_eq_ok.mp h₁
    cases h₁
    exact .fail (tcpConnFail_spec h₂).1 (txSide_tcpConnFail h₂)
  split at h₁
  · obtain ⟨c₁, h₂, h₁⟩ := bind_eq_ok.mp h₁
    cases h₁
    exact .fail (tcpConnFail_spec h₂).1 (by rw [txSide_tcpConnFail h₂, txSide_sendRst])
  split at h₁
  · cases h₁
    exact .quiet rfl
  rename_i hack
  rw [not_not] at hack
  split at h₁
  · split at h₁
    · obtain ⟨c₁, h₂, h₁⟩ := bind_eq_ok.mp h₁
      have hside : c₁.txSide = c.txSide.withWnd (sndWndOf s.win) s.seq s.ack :=
        (txSide_tcpConnSetState h₂).trans rfl
      have hsnd : c₁.snd = (c.txSide.withWnd (sndWndOf s.win) s.seq s.ack).snd :=
        congrArg TxSide.snd hside
      obtain ⟨x, wnd, wl1, wl2, hx, hwnd, hr⟩ := rxEstablished_txSide h₁
      rw [hside, hsnd] at hx
      rw [hsnd] at hwnd
      have hwnd' : wnd = sndWndOf s.win := hwnd.elim id id
      rcases hx with ⟨-, rfl⟩ | ⟨h₃, h₄, rfl⟩
      · exact .ack (.inl rfl) (.inr hwnd') hr fun h => absurd h hst
      · rw [TxSide.acked_withWnd, TxSide.withWnd_withWnd] at hr
        exact .ack (.inr ⟨⟨hack, h₃, h₄⟩, rfl⟩) (.inr hwnd') hr fun h => absurd h hst
    · cases h₁
      exact .quiet (txSide_sendRst _ _ _ _)
  · obtain ⟨x, wnd, wl1, wl2, hx, hwnd, hr⟩ := rxEstablished_txSide h₁
    refine .ack ?_ hwnd hr fun h => absurd h hst
    rcases hx with ⟨-, hx⟩ | ⟨h₃, h₄, h₅⟩
    · exact .inl hx
    · exact .inr ⟨⟨hack, h₃, h₄⟩, h₅⟩

/-! ## Moves -/

/-- What a step can do to the send side. -/
inductive TxMove (s : Sys) : Event → Sys → Prop
  /-- Nothing. -/
  | inert {e : Event} {s' : Sys} : s'.conn.txSide = s.conn.txSide → SameWriters s s' →
      TxMove s e s'
  /-- The connection fails. -/
  | fail {e : Event} {s' : Sys} : s'.conn.state = .closed →
      s'.conn.txSide = s.conn.txSide.failed → SameWriters s s' → TxMove s e s'
  /-- A segment is processed. -/
  | segment {f : Frame} {sndNxt : Seq} {io : Io} {seg : Segment} {s' : Sys} :
      tcpRxParse f = .ok (some seg) → TxEffect seg sndNxt s.conn s'.conn →
      s'.procs = s.procs → TxMove s (.rx f sndNxt io) s'
  /-- A FIN is queued and sent. -/
  | fin {t : Tid} {io : Io} {s' : Sys} : s.queuesFin t → io.alloc 0 → io.net 0 = 0 →
      s'.conn.txSide = { s.conn.txSide.queued with closed := true } → SameWriters s s' →
      TxMove s (.run t io) s'
  /-- A FIN is queued and its transmission fails. -/
  | finErr {t : Tid} {io : Io} {s' : Sys} : s.queuesFin t → io.alloc 0 → io.net 0 ≠ 0 →
      s'.conn.txSide = s.conn.txSide.queued ∨
        (s'.conn.state = .closed ∧ s'.conn.txSide = s.conn.txSide.queued.failed) →
      SameWriters s s' → TxMove s (.run t io) s'
  /-- A writer takes the send side. -/
  | lock {t : Tid} {io : Io} {p : Proc} {winlen : ℕ} : (s.procs t).holdsTx = false →
      s.conn.tx.closed = false → ¬ writeBlocked s.conn →
      winlen = (s.conn.snd.una + s.conn.snd.wnd - s.conn.snd.nxt).toNat →
      (∃ buf, p = .writeSend buf winlen) ∨ (∃ iov, p = .writevSend iov winlen 0 0) →
      TxMove s (.run t io)
        (s.move { s.conn with tx := { s.conn.tx with exclusive := true } } t p)
  /-- A retransmission task takes the send side. -/
  | lockRetransmit {t : Tid} {io : Io} : (s.procs t).holdsTx = false →
      s.conn.tx.exclusive = false → s.conn.state ≠ .closed →
      TxMove s (.run t io)
        (s.move { s.conn with tx := { s.conn.tx with exclusive := true } } t .retransmitSend)
  /-- A writer sends its buffer. -/
  | send {t : Tid} {io : Io} {buf : List Byte} {winlen : ℕ} {c : Conn} {ret : ℤ} :
      s.procs t = .writeSend buf winlen →
      tcpTxSend s.conn (buf.take winlen) (buf.length ≤ winlen) io = .ok (c, ret) →
      TxMove s (.run t io) (s.move c t (.writeFinish ret))
  /-- A writer sends the first of its buffers. -/
  | sendv {t : Tid} {io : Io} {buf : List Byte} {iov : List (List Byte)} {winlen sent : ℕ}
      {c : Conn} {ret₀ ret : ℤ} {p : Proc} :
      s.procs t = .writevSend (buf :: iov) winlen sent ret₀ → winlen ≠ 0 →
      tcpTxSend s.conn (buf.take winlen) (iov.isEmpty && buf.length ≤ winlen) io =
        .ok (c, ret) →
      (ret ≤ 0 ∧ ∃ r, p = .writeFinish r) ∨
        (0 < ret ∧ p = .writevSend iov (winlen - ret.toNat) (sent + ret.toNat) ret) →
      TxMove s (.run t io) (s.move c t p)
  /-- A writer has no buffer or no window left. -/
  | endv {t : Tid} {io : Io} {iov : List (List Byte)} {winlen sent : ℕ} {ret ret' : ℤ} :
      s.procs t = .writevSend iov winlen sent ret → iov = [] ∨ winlen = 0 →
      TxMove s (.run t io) (s.move s.conn t (.writeFinish ret'))
  /-- A retransmission task resends what is due. -/
  | resend {t : Tid} {io : Io} {c : Conn} : s.procs t = .retransmitSend →
      tcpTxRetransmit s.conn io = .ok c → TxMove s (.run t io) (s.move c t .retransmitFinish)
  /-- The send side is given back. -/
  | unlock {t : Tid} {io : Io} {ret : ℤ} {s' : Sys} :
      (∃ r, s.procs t = .writeFinish r) ∨ s.procs t = .retransmitFinish →
      s.conn.tx.exclusive → s'.conn.txSide = s.conn.txSide.unlocked s.conn.state →
      s'.procs = Function.update s.procs t (.done ret []) → TxMove s (.run t io) s'

namespace SameWriters

theorem refl (s : Sys) : SameWriters s s := fun _ => .inl rfl

/-- A task that does not own the send side moves to a program point at which it does
not own it. -/
theorem of_update {s s' : Sys} {t : Tid} {p : Proc} (hs : s'.procs = Function.update s.procs t p)
    (h : (s.procs t).holdsTx = false) (hp : p.holdsTx = false) : SameWriters s s' := by
  intro u
  by_cases hu : u = t
  · subst hu
    exact .inr ⟨h, by simpa [hs] using hp⟩
  · exact .inl (by rw [hs, Function.update_of_ne hu])

theorem move {s s' : Sys} {c : Conn} {t : Tid} {p : Proc} (hs : s'.procs = s.procs)
    (h : (s.procs t).holdsTx = false) (hp : p.holdsTx = false) :
    SameWriters s (s'.move c t p) :=
  of_update (by rw [← hs]; rfl) h hp

end SameWriters

theorem Proc.holdsTx_of_shuts {p : Proc} (h : p.shuts) : p.holdsTx = false := by
  cases p <;> first | rfl | cases h

/-! ## Inversion -/

/-- The end of `tcp_shutdown` and `tcp_close` shuts the receive side down, and fails
the connection when the FIN could not be sent. -/
theorem shutReturn_txSide {s s' : Sys} {c : Conn} {t : Tid} {k : ShutKind} {ret : ℤ} {io : Io}
    (h : shutReturn s c t k ret io = .ok s') : (∃ r, s'.procs = (s.move c t (.done r [])).procs) ∧
      (s'.conn.txSide = c.txSide ∨
        (ret ≠ 0 ∧ s'.conn.state = .closed ∧ s'.conn.txSide = c.txSide.failed)) := by
  cases k with
  | shutdown rd =>
      rw [shutReturn] at h
      split at h
      · cases h
        exact ⟨⟨_, rfl⟩, .inl rfl⟩
      · cases h
        refine ⟨⟨_, rfl⟩, .inl ?_⟩
        cases rd
        · rfl
        · exact txSide_tcpConnShutdownRx c
  | close =>
      rw [shutReturn] at h
      split at h
      · rename_i hret
        obtain ⟨c₁, h₁, h⟩ := bind_eq_ok.mp h
        obtain ⟨c₂, h₂, h⟩ := bind_eq_ok.mp h
        cases h
        refine ⟨⟨_, rfl⟩, .inr ⟨hret, ?_, ?_⟩⟩
        · change c₂.state = _
          rw [(sameRx_tcpConnPut h₂).state, tcpConnShutdownRx]
          split <;> exact (tcpConnFail_spec h₁).1
        · change c₂.txSide = _
          rw [txSide_tcpConnPut h₂, txSide_tcpConnShutdownRx, txSide_tcpConnFail h₁]
      · obtain ⟨c₂, h₂, h⟩ := bind_eq_ok.mp h
        cases h
        refine ⟨⟨_, rfl⟩, .inl ?_⟩
        change c₂.txSide = _
        rw [txSide_tcpConnPut h₂, txSide_tcpConnShutdownRx]

/-- The FIN is queued if a buffer can be had. -/
theorem tcpShutdownTxFin_txSide {c c' : Conn} {io : Io} {ret : ℤ} {warn : Bool}
    (h : tcpShutdownTxFin c io = .ok (c', ret, warn)) :
    (io.alloc 0 = false ∧ ret ≠ 0 ∧ c'.txSide = c.txSide) ∨
      (io.alloc 0 ∧ io.net 0 ≠ 0 ∧ ret ≠ 0 ∧ c'.txSide = c.txSide.queued) ∨
      (io.alloc 0 ∧ io.net 0 = 0 ∧ ret = 0 ∧
        c'.txSide = { c.txSide.queued with closed := true }) := by
  have hctl := txSide_tcpTxCtl c { fin := true, ack := true } io
  have hret := ret_tcpTxCtl c { fin := true, ack := true } io
  rw [tcpShutdownTxFin] at h
  generalize tcpTxCtl c { fin := true, ack := true } io = r at h hctl hret
  obtain ⟨c₁, ret₁⟩ := r
  dsimp only at h hctl hret
  cases ha : io.alloc 0 with
  | false =>
      rw [ha, if_neg (by simp)] at hctl hret
      have hne : ret₁ ≠ 0 := by rw [hret]; decide
      rw [if_pos hne] at h
      cases h
      exact .inl ⟨rfl, hne, hctl⟩
  | true =>
      rw [ha, if_pos rfl] at hctl hret
      by_cases hn : io.net 0 = 0
      · rw [if_neg (by simp [hret, hn])] at h
        obtain ⟨c₂, h₂, h⟩ := bind_eq_ok.mp h
        cases h
        refine .inr (.inr ⟨rfl, hn, rfl, ?_⟩)
        have hside : c₂.txSide = c₁.txSide := by
          rw [shutdownTxState] at h₂
          split_ifs at h₂
          · exact txSide_tcpConnSetState h₂
          · exact txSide_tcpConnSetState h₂
          · cases h₂
            rfl
        rw [← hctl, ← hside]
        rfl
      · have hne : ret₁ ≠ 0 := by rw [hret]; exact hn
        rw [if_pos hne] at h
        cases h
        exact .inr (.inl ⟨rfl, hn, hne, hctl⟩)

theorem runShutWait_txMove {s s₁ s' : Sys} {t : Tid} {k : ShutKind} {io : Io}
    (hs : s₁.procs = s.procs) (hc : s₁.conn = s.conn) (hp : (s.procs t).shuts)
    (hq : s.conn.tx.exclusive = false → s.queuesFin t) (h : runShutWait s₁ t k io = .ok s') :
    TxMove s (.run t io) s' := by
  have hw : ∀ {c : Conn} {p : Proc} {u : Sys}, p.holdsTx = false →
      s'.procs = (u.move c t p).procs → u.procs = s.procs → SameWriters s s' := by
    intro c p u hp' hprocs hu v
    rw [hprocs]
    exact SameWriters.move hu (Proc.holdsTx_of_shuts hp) hp' v
  rw [runShutWait, hc] at h
  split at h
  · cases h
    exact .inert rfl (hw (c := s.conn) (p := .shutWait k) (u := s) rfl
      (by simp [Sys.move, hs]) rfl)
  · rename_i hex
    rw [Bool.not_eq_true] at hex
    obtain ⟨⟨c, ret, warn⟩, h₁, h⟩ := bind_eq_ok.mp h
    obtain ⟨⟨r, hprocs⟩, hside⟩ := shutReturn_txSide h
    have hsame : SameWriters s s' := hw rfl hprocs (by split <;> exact hs)
    rcases tcpShutdownTxFin_txSide h₁ with ⟨-, -, h₂⟩ | ⟨ha, hn, -, h₂⟩ | ⟨ha, hn, hret, h₂⟩
    · rcases hside with hside | ⟨-, hst, hside⟩
      · exact .inert (hside.trans h₂) hsame
      · exact .fail hst (hside.trans (by rw [h₂])) hsame
    · refine .finErr (hq hex) ha hn ?_ hsame
      rcases hside with hside | ⟨-, hst, hside⟩
      · exact .inl (hside.trans h₂)
      · exact .inr ⟨hst, hside.trans (by rw [h₂])⟩
    · rcases hside with hside | ⟨hne, -, -⟩
      · exact .fin (hq hex) ha hn (hside.trans h₂) hsame
      · exact absurd hret hne

theorem runShutEnter_txMove {s s' : Sys} {t : Tid} {k : ShutKind} {io : Io}
    (hp : (s.procs t).shuts)
    (hq : s.conn.tx.closed = false → s.conn.tx.exclusive = false → s.queuesFin t)
    (h : runShutEnter s t k io = .ok s') : TxMove s (.run t io) s' := by
  rw [runShutEnter] at h
  split at h
  · obtain ⟨⟨r, hprocs⟩, hside⟩ := shutReturn_txSide h
    refine .inert (hside.resolve_right fun hne => hne.1 rfl) fun v => ?_
    rw [hprocs]
    exact SameWriters.move rfl (Proc.holdsTx_of_shuts hp) rfl v
  · rename_i hcl
    refine runShutWait_txMove ?_ ?_ hp (hq (by simpa using hcl)) h
    · split <;> rfl
    · split <;> rfl

theorem runAbortWait_txSide (s : Sys) (t : Tid) (io : Io) :
    (runAbortWait s t io).conn.txSide = s.conn.txSide ∧ (runAbortWait s t io).procs =
      Function.update s.procs t ((runAbortWait s t io).procs t) ∧
      ((runAbortWait s t io).procs t).holdsTx = false := by
  rw [runAbortWait]
  split
  · exact ⟨rfl, by simp [Sys.move], by simp [Sys.move, Proc.holdsTx]⟩
  · exact ⟨txSide_tcpTxRawRst _ _ _, by simp [Sys.move], by simp [Sys.move, Proc.holdsTx]⟩

theorem runProc_txMove {s s' : Sys} {t : Tid} {io : Io} (ha : s.asleep t = false)
    (h : runProc s t io = .ok s') : TxMove s (.run t io) s' := by
  -- a task that does not own the send side and leaves it alone
  have hmove : ∀ {c : Conn} {p q : Proc}, s.procs t = q → q.holdsTx = false →
      c.txSide = s.conn.txSide → p.holdsTx = false → TxMove s (.run t io) (s.move c t p) := by
    intro c p q hq hr hc hp
    exact .inert hc (SameWriters.move rfl (hq ▸ hr) hp)
  cases runProc_step h with
  | idle => exact .inert rfl (SameWriters.refl _)
  | sleep => exact .inert rfl (SameWriters.refl _)
  | dialFail hp => exact hmove hp rfl rfl rfl
  | dialled hp => exact hmove hp rfl rfl rfl
  | readWait hp =>
      rw [runReadWait, tcpReadWait]
      split_ifs
      · exact .inert rfl (SameWriters.refl _)
      · exact hmove hp rfl rfl rfl
      · dsimp only
        split
        · exact hmove hp rfl (by simp) rfl
        · exact hmove hp rfl (by simp) rfl
  | readCopy hp hcopy => exact hmove hp rfl (txSide_tcpReadCopy hcopy) (by split <;> rfl)
  | readFinish hp => exact hmove hp rfl rfl rfl
  | writeClosed hp hwait =>
      rcases hwait with ⟨_, rfl⟩ | ⟨_, rfl⟩ <;> exact hmove hp rfl rfl rfl
  | writeLock hcl hfree hp =>
      rcases hp with ⟨buf, hp, rfl⟩ | ⟨iov, hp, rfl⟩
      · exact .lock (by rw [hp]; rfl) hcl hfree rfl (.inl ⟨buf, rfl⟩)
      · exact .lock (by rw [hp]; rfl) hcl hfree rfl (.inr ⟨iov, rfl⟩)
  | writeSend hp hsend => exact .send hp hsend
  | writevEnd hp hend => exact .endv hp hend
  | writevSend hp hwin hsend hnext =>
      refine .sendv hp hwin hsend ?_
      rcases hnext with ⟨hle, hp'⟩ | hnext
      · exact .inl ⟨hle, _, hp'⟩
      · exact .inr hnext
  | @writeFinish ret _ _ hp hfin =>
      obtain ⟨hex, hside⟩ := txSide_tcpWriteFinish hfin
      exact .unlock (.inl ⟨ret, hp⟩) hex hside rfl
  | shutRx hp =>
      refine hmove hp rfl ?_ rfl
      split
      · exact txSide_tcpConnShutdownRx _
      · rfl
  | shutEnter hp hrun =>
      refine runShutEnter_txMove ?_ (fun hcl hex => ?_) hrun
      · rcases hp with ⟨_, hp, -⟩ | ⟨hp, -⟩ <;> rw [hp] <;> rfl
      · rcases hp with ⟨_, hp, -⟩ | ⟨hp, -⟩ <;> simp [Sys.queuesFin, ha, hex, hp, hcl]
  | shutWait hp hrun =>
      refine runShutWait_txMove rfl rfl (by rw [hp]; rfl) (fun hex => ?_) hrun
      simp [Sys.queuesFin, ha, hex, hp]
  | abortClosed hp => exact hmove hp rfl rfl rfl
  | @abortEnter c hp _ hfail =>
      obtain ⟨hside, hprocs, hholds⟩ := runAbortWait_txSide { s with conn := c } t io
      have hst := (runAbortWait_sameRx { s with conn := c } t io).1.state
      refine .fail (hst.trans (tcpConnFail_spec hfail).1)
        (hside.trans (txSide_tcpConnFail hfail)) ?_
      exact SameWriters.of_update hprocs (by rw [hp]; rfl) hholds
  | abortWait hp =>
      obtain ⟨hside, hprocs, hholds⟩ := runAbortWait_txSide s t io
      exact .inert hside (SameWriters.of_update hprocs (by rw [hp]; rfl) hholds)
  | retransmitLock hp hfree hst => exact .lockRetransmit (by rw [hp]; rfl) hfree hst
  | retransmitClosed hp hput => exact hmove hp rfl (txSide_tcpConnPut hput) rfl
  | retransmitSend hp hsend => exact .resend hp hsend
  | retransmitFinish hp hfin hput =>
      obtain ⟨hex, hside⟩ := txSide_tcpWriteFinish hfin
      exact .unlock (.inr hp) hex ((txSide_tcpConnPut hput).trans hside) rfl

theorem Sys.holdsTx_of_free {s : Sys} {t : Tid} (h : s.free t) : (s.procs t).holdsTx = false := by
  rw [Sys.free] at h
  split at h <;> simp_all [Proc.holdsTx]

/-- **Every step is one of the moves.** -/
theorem sysStep_txMove {s s' : Sys} {e : Event}
    (hsyn : s.conn.state = .synSent → s.conn.snd.una = s.conn.snd.iss)
    (h : sysStep s e = .ok s') : TxMove s e s' := by
  cases sysStep_cases h with
  | skip => exact .inert rfl (SameWriters.refl _)
  | @call t c hfree =>
      refine .inert rfl (SameWriters.move rfl (Sys.holdsTx_of_free hfree) ?_)
      cases c <;> rfl
  | run ha hrun => exact runProc_txMove ha hrun
  | rx hparse hrx => exact .segment hparse (tcpRxConn_txEffect hsyn hrx) rfl
  | ackOut => exact .inert (txSide_tcpTxAck _ _) (SameWriters.refl _)
  | resend _ hfin => exact .inert (txSide_tcpTxFastRetransmitFinish hfin) (SameWriters.refl _)
  | @timeouts now t io c ack hto =>
      have hside := (txSide_ackIf c ack io).trans (txSide_tcpHandleTimeouts hto)
      exact .inert hside (SameWriters.refl _)
  | @retransmit now t io c ack hfree hto =>
      have hside := (txSide_ackIf c ack io).trans (txSide_tcpHandleTimeouts hto)
      exact .inert hside (SameWriters.move rfl (Sys.holdsTx_of_free hfree) rfl)
  | @txDone i =>
      refine .inert ?_ (SameWriters.refl _)
      simp only [Conn.txSide, TxSide.mk.injEq, true_and]
      refine List.ext_getElem? fun k => ?_
      simp only [List.getElem?_map, List.getElem?_modify]
      by_cases hk : i = k
      · subst hk
        cases s.conn.tx.txq[i]? <;> simp [Mbuf.span]
      · simp [hk]
  | netErr hfail =>
      exact .fail (tcpConnFail_spec hfail).1 (txSide_tcpConnFail hfail) (SameWriters.refl _)

end Skyloft
