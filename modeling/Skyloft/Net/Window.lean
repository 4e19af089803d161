import Skyloft.Net.RxSafety

/-!
# The receive window

The window is debited by the sequence range of a segment and credited by the bytes
of a read.  The credit account of `Sys.RxInv` bounds it by `TCP_WIN`, so that the
window field of a header holds it.  What a segment takes from the window it adds to
`rcv_nxt`: the right edge of the window only moves when a read moves it forward.

## Main definitions

* `RcvVars.edge` — the right edge of the window.
* `sysStep_edge` — what a step does to it.
* `rcv_window` — the account, the window field and the edge, in every run.
-/

namespace Skyloft

open Run Serial

/-- The right edge of the receive window. -/
def RcvVars.edge (rcv : RcvVars) : Seq := rcv.nxt + rcv.wnd

/-- What is accepted is taken from the window. -/
theorem RcvVars.edge_advance (rcv : RcvVars) (k : ℕ) : (rcv.advance k).edge = rcv.edge := by
  simp only [edge, advance]
  ring

theorem Drained.edge {rcv rcv' : RcvVars} {q app left : List Mbuf}
    (h : Drained rcv q rcv' app left) : rcv'.edge = rcv.edge := by
  induction h with
  | nil => rfl
  | stale _ _ ih => exact ih
  | wait _ => rfl
  | take _ _ _ _ ih => rw [ih, RcvVars.edge_advance]

theorem TextOf.edge {x x' : RxSide} {m : Mbuf} {used wake : Bool} (h : TextOf x m x' used wake) :
    x'.rcv.edge = x.rcv.edge := by
  cases h with
  | inOrder _ _ hd =>
      have hedge := hd.edge
      rwa [RcvVars.edge_advance] at hedge
  | queued _ _ => rfl
  | unused _ => rfl

/-- A segment moves the edge only if it opens the connection. -/
theorem RxEffect.edge {s : Segment} {c c' : Conn} (h : RxEffect s c c') (hst : c.state ≠ .synSent) :
    c'.rcv.edge = c.rcv.edge := by
  cases h with
  | quiet hside _ =>
      have hrcv : c'.rcv = c.rcv := congrArg RxSide.rcv hside
      rw [hrcv]
  | syn hsyn _ _ => exact absurd hsyn hst
  | reset _ hside =>
      have hrcv : c'.rcv = c.rcv := congrArg RxSide.rcv hside
      rw [hrcv]
  | text _ _ _ _ htext _ hside _ =>
      have hrcv := congrArg RxSide.rcv hside
      change c'.rcv = _ at hrcv
      rw [hrcv]
      exact htext.edge

/-- Whoever is credited for a read has read no more than `TCP_WIN` bytes, and nothing else
moves the edge. -/
theorem sysStep_edge {s s' : Sys} {e : Event} (h : s.RxInv) (hstep : sysStep s e = .ok s')
    (hst : s.conn.state ≠ .synSent) :
    ∃ n ≤ tcpWin, s'.conn.rcv.edge = s.conn.rcv.edge + BitVec.ofNat 32 n := by
  have hsame : s'.conn.rcv.edge = s.conn.rcv.edge →
      ∃ n ≤ tcpWin, s'.conn.rcv.edge = s.conn.rcv.edge + BitVec.ofNat 32 n := by
    intro hedge
    exact ⟨0, Nat.zero_le _, by simp [hedge]⟩
  cases sysStep_rxMove h.rxOk hstep with
  | inert hside _ _ =>
      have hrcv : s'.conn.rcv = s.conn.rcv := congrArg RxSide.rcv hside
      exact hsame (by rw [hrcv])
  | shut _ hside _ _ =>
      have hrcv := (RxSide.shut_keeps hside).1
      exact hsame (by rw [hrcv])
  | fail hside _ _ _ =>
      have hrcv : s'.conn.rcv = s.conn.rcv := congrArg RxSide.rcv hside
      exact hsame (by rw [hrcv])
  | segment _ _ heff _ => exact hsame (heff.edge hst)
  | start _ => exact hsame rfl
  | sleep _ _ _ _ => exact hsame rfl
  | closed _ _ _ => exact hsame rfl
  | @pop t io len p c' _ _ _ hex _ hpop hside _ =>
      have hle : p.readlen ≤ rxBytes s.conn.rx.rxq := by
        rw [hpop]
        exact (readPop_spec len _ 0).readlen_le
      have hload : s.conn.rcv.wnd.toNat + rxBytes s.conn.rx.rxq ≤ tcpWin := h.free hex
      have hrcv : c'.rcv = (s.conn.rxSide.popped p).rcv := congrArg RxSide.rcv hside
      refine ⟨p.readlen, by omega, ?_⟩
      simp only [Sys.conn_move, hrcv, RxSide.popped, RcvVars.edge, Conn.rcv_rxSide]
      ring
  | copy _ _ _ => exact hsame rfl
  | @copyPart t io len q bytes c' _ hp hcopy =>
      rcases h.readCopy_eq hp with ⟨m, m', rest, -, -, -, -, heq⟩
      rw [heq] at hcopy
      cases hcopy
      exact hsame rfl
  | finish _ _ => exact hsame rfl

/-- A move forward by at most `TCP_WIN`. -/
theorem wrapsLte_add {n : ℕ} (a : Seq) (hn : n ≤ tcpWin) : wrapsLte a (a + BitVec.ofNat 32 n) := by
  have hn' : n ≤ 64240 := hn
  have hahead : ahead (a + BitVec.ofNat 32 n) a = n := by
    rw [ahead_add_ofNat (by omega) (by rw [ahead_self]; omega), ahead_self, zero_add]
  rw [wrapsLte_iff, ahead_swap (by omega)]
  omega

/-- The header has the window as it is. -/
theorem win_tcpPushTcphdr {c : Conn} (h : c.rcv.wnd.toNat ≤ tcpWin) (seq : Seq) (flags : TcpFlags)
    (payload : List Byte) :
    (tcpPushTcphdr c seq flags payload).2.win.toNat = c.rcv.wnd.toNat := by
  have h' : c.rcv.wnd.toNat ≤ 64240 := h
  simp only [tcpPushTcphdr, BitVec.toNat_setWidth]
  exact Nat.mod_eq_of_lt (by omega)

/-- **The receive window.**  In every state that a connection can reach, by any interleaving
of calls, segments and timers: while no reader owns the receive side, the window and the
unread bytes are at most `TCP_WIN`; a header announces the window as it is; and once the SYN
of the peer has been processed, no step moves the right edge of the window back. -/
theorem rcv_window {s₀ s : Sys} {es : List Event} (h₀ : s₀.Start)
    (h : exec sysStep s₀ es = .ok s) :
    (s.conn.rx.exclusive = false → s.conn.rcv.wnd.toNat + rxBytes s.conn.rx.rxq ≤ tcpWin) ∧
    s.conn.rcv.wnd.toNat ≤ tcpWin ∧
    (∀ seq flags payload,
      (tcpPushTcphdr s.conn seq flags payload).2.win.toNat = s.conn.rcv.wnd.toNat) ∧
    (s.conn.state ≠ .synSent → ∀ e s', sysStep s e = .ok s' →
      wrapsLte s.conn.rcv.edge s'.conn.rcv.edge) := by
  have hinv := rxInv_of_reach h₀ h
  have hwnd := hinv.rxOk.wnd_le
  refine ⟨hinv.free, hwnd, win_tcpPushTcphdr hwnd, ?_⟩
  intro hst e s' hstep
  rcases sysStep_edge hinv hstep hst with ⟨n, hn, hedge⟩
  rw [hedge]
  exact wrapsLte_add _ hn

/-- A segment of three bytes with a FIN is read in part. -/
theorem rcv_window_partRead :
    ∃ s, exec sysStep accepted [.rx (peerFrame 1 { ack := true, fin := true } [5, 6, 7]) 1
        (Io.good 0), .call 0 (.read 2), .run 0 (Io.good 0), .run 0 (Io.good 0),
        .run 0 (Io.good 0)] = .ok s ∧
      s.conn.rx.exclusive = false ∧ rxBytes s.conn.rx.rxq = 1 ∧
      s.conn.rcv.wnd.toNat + rxBytes s.conn.rx.rxq ≤ tcpWin := by
  refine ⟨_, exec_final (by decide), by decide, by decide, ?_⟩
  exact (rcv_window accepted_start (exec_final (by decide))).1 (by decide)

end Skyloft
