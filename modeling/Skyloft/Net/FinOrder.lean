import Skyloft.Net.RxSafety

/-!
# The FIN of the peer

`tcp_rx_conn` decides the FIN step by the flag of the arriving segment alone, while
the text of that segment may have been queued, clipped or dropped.  So the state
change comes in order exactly when the segment starts at or before `rcv_nxt` and
ends inside the receive window; `finMove_iff` says so for every state of every
run.  In that case every byte in front of the FIN has been accepted, and no byte
that falls into the receive window later belongs in front of the FIN.

## Main definitions

* `FinMove` — a state change made because of a FIN.
* `FinFits` — the condition.
* `finMove_iff` — the FIN takes effect in order exactly under it.
-/

namespace Skyloft

open Run Serial

/-- The state changes that `tcp_rx_conn` makes because of a FIN. -/
def FinMove (st st' : TcpState) : Prop :=
  (st = .synReceived ∨ st.takesText) ∧ (st' = .closeWait ∨ st' = .closing ∨ st' = .timeWait)

instance (st st' : TcpState) : Decidable (FinMove st st') := inferInstanceAs (Decidable (_ ∧ _))

/-- An acknowledgement makes none of these. -/
theorem AckMove.not_finMove {st st' : TcpState} (h : AckMove st st') : ¬ FinMove st st' := by
  cases h with
  | same => cases st <;> decide
  | established => decide
  | finWait2 => decide
  | timeWait => decide
  | closed => decide

/-- The sequence number of the FIN. -/
def Segment.finSeq (s : Segment) : Seq := s.seq + s.len - 1

/-- The segment starts at or before `rcv_nxt` and ends inside the receive window. -/
def FinFits (rcv : RcvVars) (s : Segment) : Prop :=
  wrapsLte s.seq rcv.nxt ∧ wrapsLte (s.seq + s.len) (rcv.nxt + rcv.wnd)

instance (rcv : RcvVars) (s : Segment) : Decidable (FinFits rcv s) :=
  inferInstanceAs (Decidable (_ ∧ _))

/-- No byte that the receive window admits comes before `fin`. -/
def NoneRefused (rcv : RcvVars) (fin : Seq) : Prop :=
  ∀ b, isAcceptable rcv 1 b → ¬ wrapsLt b fin

/-! ## How far a segment takes `rcv_nxt` -/

/-- A drain moves `rcv_nxt` by as much as it takes from the window. -/
theorem Drained.nxt_eq {rcv rcv' : RcvVars} {q app left : List Mbuf}
    (h : Drained rcv q rcv' app left) :
    rcv'.nxt = rcv.nxt + BitVec.ofNat 32 (rcv.wnd.toNat - rcv'.wnd.toNat) := by
  induction h with
  | nil => simp
  | stale _ _ ih => exact ih
  | wait _ => simp
  | @take rcv pos rest m' rcv' app left _ _ hc hd ih =>
      have h₁ := hc.segLen_le_wnd
      have h₂ := hd.wnd_le
      have h₃ := RcvVars.toNat_advance_wnd h₁
      rw [ih, h₃]
      rw [h₃] at h₂
      change rcv.nxt + BitVec.ofNat 32 m'.segLen + _ = _
      rw [BitVec.add_assoc, ← BitVec.ofNat_add]
      congr 2
      omega

/-- Where an in-order segment and the drain after it leave `rcv_nxt`: past the
segment if it fits into the window, else at the end of the window. -/
theorem inOrder_nxt {rcv rcv' : RcvVars} {m m' : Mbuf} {q app left : List Mbuf}
    (hw : rcv.wnd.toNat ≤ tcpWin) (hc : Clip rcv m m') (hhi : 0 < ahead m.segSeq rcv.nxt + m.segLen)
    (hd : Drained (rcv.advance m'.segLen) q rcv' app left) :
    ∃ j : ℕ, ahead rcv'.nxt rcv.nxt = j ∧ j ≤ rcv.wnd.toNat ∧
      (ahead m.segSeq rcv.nxt + m.segLen ≤ j ↔
        ahead m.segSeq rcv.nxt + m.segLen ≤ rcv.wnd.toNat) := by
  have hw' : rcv.wnd.toNat ≤ 64240 := hw
  have h₁ := hc.segLen_le_wnd
  have h₂ := RcvVars.toNat_advance_wnd h₁
  have h₃ := hd.wnd_le
  have h₄ := hc.segLen
  refine ⟨rcv.wnd.toNat - rcv'.wnd.toNat, ?_, by omega, by omega⟩
  have hn : rcv'.nxt = rcv.nxt + BitVec.ofNat 32 (rcv.wnd.toNat - rcv'.wnd.toNat) := by
    rw [hd.nxt_eq, h₂]
    change rcv.nxt + BitVec.ofNat 32 m'.segLen + _ = _
    rw [BitVec.add_assoc, ← BitVec.ofNat_add]
    congr 2
    omega
  rw [hn, ahead_add_ofNat (by omega) (by rw [ahead_self]; omega), ahead_self, zero_add]

/-- The positions of a segment with text, seen from `rcv_nxt`. -/
theorem Segment.ahead_finSeq {s : Segment} (nxt : Seq) (hpos : 0 < s.len.toNat)
    (hle : s.len.toNat ≤ 65536) (hd : ahead s.seq nxt < 2 ^ 30) :
    ahead s.finSeq nxt = ahead s.seq nxt + s.len.toNat - 1 := by
  have he : s.finSeq = s.seq + BitVec.ofNat 32 (s.len.toNat - 1) := by
    have hlen : s.len - 1 = BitVec.ofNat 32 (s.len.toNat - 1) := by
      apply BitVec.eq_of_toNat_eq
      rw [BitVec.toNat_sub, BitVec.toNat_ofNat]
      change (2 ^ 32 - 1 + s.len.toNat) % 2 ^ 32 = _
      omega
    rw [Segment.finSeq, ← hlen]
    ring
  rw [he, ahead_add_ofNat (by omega) (by omega)]
  omega

/-- When an acceptable segment ends inside the receive window. -/
theorem Segment.fits_iff {rcv : RcvVars} {s : Segment} (hs : s.WellFormed) (hpos : 0 < s.len.toNat)
    (hw : rcv.wnd.toNat ≤ tcpWin) (hacc : isAcceptable rcv s.len s.seq) :
    wrapsLte (s.seq + s.len) (rcv.nxt + rcv.wnd) ↔
      ahead s.seq rcv.nxt + s.len.toNat ≤ rcv.wnd.toNat := by
  have hw' : rcv.wnd.toNat ≤ 64240 := hw
  have hle := hs.len_le
  obtain ⟨-, hlo, hhi⟩ := hacc.bounds hw hle hpos
  have hedge := ahead_add_wnd rcv.nxt hw
  have hend : ahead (s.seq + s.len) rcv.nxt = ahead s.seq rcv.nxt + s.len.toNat := by
    have he : s.seq + s.len = s.seq + BitVec.ofNat 32 s.len.toNat := by simp
    rw [he, ahead_add_ofNat (by omega) (by omega)]
  rw [wrapsLte_iff, ahead_eq_sub (c := rcv.nxt) (by omega) (by omega), hend, hedge]
  omega

/-- **One FIN.**  After an acceptable segment with a FIN, `rcv_nxt` is past the FIN
exactly when the segment fits. -/
theorem TextOf.past_fin_iff {x x' : RxSide} {s : Segment} {used wake : Bool} (hs : s.WellFormed)
    (hpos : 0 < s.len.toNat) (hw : x.rcv.wnd.toNat ≤ tcpWin)
    (hacc : isAcceptable x.rcv s.len s.seq) (h : TextOf x s.mbuf x' used wake) :
    (wrapsGt x'.rcv.nxt s.finSeq ↔ FinFits x.rcv s) ∧
      (FinFits x.rcv s → -2 ^ 18 ≤ ahead s.finSeq x'.rcv.nxt ∧ ahead s.finSeq x'.rcv.nxt < 0) := by
  have hw' : x.rcv.wnd.toNat ≤ 64240 := hw
  have hle := hs.len_le
  obtain ⟨hwnd, hlo, hhi⟩ := hacc.bounds hw hle hpos
  have hfin := Segment.ahead_finSeq x.rcv.nxt hpos hle (by omega)
  have hfit := Segment.fits_iff hs hpos hw hacc
  have hseq : s.mbuf.segSeq = s.seq := rfl
  have hlen : s.mbuf.segLen = s.len.toNat := Segment.WellFormed.segLen_mbuf s
  rw [FinFits, hfit, wrapsLte_iff, wrapsGt_iff]
  cases h with
  | @inOrder m' rcv' app left hin hc hd =>
      rw [hseq] at hin
      obtain ⟨j, hj, hjw, hiff⟩ := inOrder_nxt hw hc (by rw [hseq, hlen]; omega) hd
      rw [hseq, hlen] at hiff
      have hdist : ahead s.finSeq rcv'.nxt = ahead s.finSeq x.rcv.nxt - j := by
        rw [← hj]
        refine ahead_eq_sub ?_ ?_ <;> omega
      change (ahead s.finSeq rcv'.nxt < 0 ↔ _) ∧ (_ → _ ≤ ahead s.finSeq rcv'.nxt ∧
        ahead s.finSeq rcv'.nxt < 0)
      omega
  | queued hout _ =>
      rw [hseq] at hout
      change (ahead s.finSeq x.rcv.nxt < 0 ↔ _) ∧ _
      omega
  | unused hout =>
      rw [hseq] at hout
      omega

/-! ## After the FIN -/

/-- The states after the FIN of the peer, and the closed state. -/
def TcpState.postFin (st : TcpState) : Bool :=
  st == .closeWait || st == .closing || st == .lastAck || st == .timeWait || st == .closed

theorem AckMove.postFin {st st' : TcpState} (h : AckMove st st') (hst : st.postFin) :
    st'.postFin := by
  cases h <;> exact hst

theorem AppMove.postFin {st st' : TcpState} (h : AppMove st st') (hst : st.postFin) :
    st'.postFin := by
  cases h with
  | shut h => cases h <;> exact hst
  | expire => rfl

theorem TcpState.not_takesText_of_postFin {st : TcpState} (h : st.postFin) :
    st.takesText = false := by
  revert h
  cases st <;> decide

theorem TcpState.postFin_afterFin {st : TcpState} (h : st.takesText) : st.afterFin.postFin := by
  revert h
  cases st <;> decide

/-- After the FIN nothing moves `rcv_nxt`. -/
theorem sysStep_postFin {s s' : Sys} {e : Event} (h : s.RxInv) (hst : s.conn.state.postFin)
    (hstep : sysStep s e = .ok s') :
    s'.conn.state.postFin ∧ s'.conn.rcv.nxt = s.conn.rcv.nxt := by
  cases sysStep_rxMove h.rxOk hstep with
  | inert hside hmove _ =>
      exact ⟨hmove.postFin hst, congrArg (fun x : RxSide => x.rcv.nxt) hside⟩
  | shut _ hside hmove _ =>
      refine ⟨hmove.postFin hst, (congrArg (fun x : RxSide => x.rcv.nxt) hside).trans ?_⟩
      rw [RxSide.shut]
      split <;> rfl
  | fail hside hcl _ _ =>
      exact ⟨by rw [hcl]; decide, congrArg (fun x : RxSide => x.rcv.nxt) hside⟩
  | segment _ _ heff _ =>
      cases heff with
      | quiet hside hmove =>
          exact ⟨hmove.postFin hst, congrArg (fun x : RxSide => x.rcv.nxt) hside⟩
      | syn h₁ => exact absurd hst (by rw [h₁]; decide)
      | reset hcl hside =>
          exact ⟨by rw [hcl]; decide, congrArg (fun x : RxSide => x.rcv.nxt) hside⟩
      | @text st _ _ _ hmove htake =>
          rw [TcpState.not_takesText_of_postFin (hmove.postFin hst)] at htake
          cases htake
  | start => exact ⟨hst, rfl⟩
  | sleep => exact ⟨hst, rfl⟩
  | closed => exact ⟨hst, rfl⟩
  | pop _ _ _ _ _ _ hside hst' =>
      exact ⟨by rw [Sys.conn_move, hst']; exact hst,
        congrArg (fun x : RxSide => x.rcv.nxt) hside⟩
  | copy => exact ⟨hst, rfl⟩
  | copyPart _ hp hc =>
      obtain ⟨m, m', rest, -, -, -, -, he⟩ := h.readCopy_eq hp
      rw [he] at hc
      cases hc
      exact ⟨hst, rfl⟩
  | finish => exact ⟨hst, rfl⟩

theorem exec_postFin {s t : Sys} {es : List Event} (h : s.RxInv) (hst : s.conn.state.postFin)
    (hrun : exec sysStep s es = .ok t) : t.RxInv ∧ t.conn.rcv.nxt = s.conn.rcv.nxt := by
  have hinv := exec_invariant (G := fun _ _ => True)
    (I := fun u => u.RxInv ∧ u.conn.state.postFin ∧ u.conn.rcv.nxt = s.conn.rcv.nxt)
    (fun u e u' hu _ hstep => ⟨sysStep_rxInv hu.1 hstep,
      (sysStep_postFin hu.1 hu.2.1 hstep).1,
      (sysStep_postFin hu.1 hu.2.1 hstep).2.trans hu.2.2⟩)
    ⟨h, hst, rfl⟩ (Along.trivial _ _) hrun
  exact ⟨hinv.1, hinv.2.2⟩

/-- Once `rcv_nxt` is past the FIN, the window admits nothing in front of it. -/
theorem noneRefused_of_past {rcv : RcvVars} {fin : Seq} (hw : rcv.wnd.toNat ≤ tcpWin)
    (hlo : -2 ^ 18 ≤ ahead fin rcv.nxt) (hhi : ahead fin rcv.nxt < 0) : NoneRefused rcv fin := by
  intro b hb hlt
  have hw' : rcv.wnd.toNat ≤ 64240 := hw
  obtain ⟨-, h₁, h₂⟩ := hb.bounds hw (by decide) (by decide)
  have hone : ((1 : Seq).toNat : ℤ) = 1 := rfl
  rw [wrapsLt_iff, ahead_eq_sub (c := rcv.nxt) (by omega) (by omega)] at hlt
  omega

/-- **The FIN takes effect in order exactly when it fits.**  In every state of
every run, when a segment moves the connection because of its FIN, `rcv_nxt` is
past the FIN, and stays such that no byte in front of the FIN is refused later, if
and only if the segment started at or before `rcv_nxt` and ended inside the
receive window. -/
theorem finMove_iff {s₀ s s' : Sys} {es : List Event} {f : Frame} {sndNxt : Seq} {io : Io}
    {seg : Segment} (h₀ : s₀.Start) (h : exec sysStep s₀ es = .ok s)
    (hp : tcpRxParse f = .ok (some seg)) (hs' : sysStep s (.rx f sndNxt io) = .ok s')
    (hmove : FinMove s.conn.state s'.conn.state) :
    (wrapsGt s'.conn.rcv.nxt seg.finSeq ∧
      ∀ es' t, exec sysStep s' es' = .ok t → NoneRefused t.conn.rcv seg.finSeq) ↔
      FinFits s.conn.rcv seg := by
  have hinv := rxInv_of_reach h₀ h
  obtain ⟨o, ho, hwf⟩ := tcpRxParse_spec f
  rw [hp] at ho
  cases ho
  obtain ⟨r, hr, heff⟩ := tcpRxConn_spec sndNxt io (hwf seg rfl).1 hinv.rxOk
  have hs₁ : sysStep s (.rx f sndNxt io) = .ok { s with
      conn := r.conn
      owedAcks := s.owedAcks + (if r.doAck then 1 else 0)
      owedResend := s.owedResend ++ r.retransmit.toList } :=
    bind_eq_ok.mpr ⟨some seg, hp, bind_eq_ok.mpr ⟨r, hr, rfl⟩⟩
  have hinv' := sysStep_rxInv hinv hs'
  rw [hs₁] at hs'
  cases hs'
  obtain ⟨hbefore, hafter⟩ := hmove
  cases heff with
  | quiet _ hm => exact absurd ⟨hbefore, hafter⟩ hm.not_finMove
  | syn hst => simp [hst, TcpState.takesText] at hbefore
  | reset hst => simp [hst] at hafter
  | @text st x used wake hm htake hpos hacc hx _ hside hst =>
      obtain ⟨hiff, hpast⟩ := hx.past_fin_iff (hwf seg rfl).1 hpos hinv.rxOk.wnd_le hacc
      have hnxt : r.conn.rcv.nxt = x.rcv.nxt := congrArg (fun y : RxSide => y.rcv.nxt) hside
      have hpost : r.conn.state.postFin := by
        rcases hafter with he | he | he <;> rw [he] <;> rfl
      change (wrapsGt r.conn.rcv.nxt seg.finSeq ∧ _) ↔ _
      rw [hnxt, hiff]
      refine ⟨fun h => h.1, fun hfit => ⟨hfit, fun es' t ht => ?_⟩⟩
      obtain ⟨hlo, hhi⟩ := hpast hfit
      obtain ⟨hti, htn⟩ := exec_postFin hinv' hpost ht
      have htn' : t.conn.rcv.nxt = x.rcv.nxt := htn.trans hnxt
      exact noneRefused_of_past hti.rxOk.wnd_le (htn' ▸ hlo) (htn' ▸ hhi)

/-- A FIN that arrives in order: its byte has been accepted. -/
theorem finMove_iff_in_order :
    ∃ s s' : Sys, ∃ seg : Segment,
      exec sysStep accepted [.rx (peerFrame 1 { ack := true } []) 1 (Io.good 0)] = .ok s ∧
      tcpRxParse (peerFrame 1 { ack := true, fin := true } [7]) = .ok (some seg) ∧
      sysStep s (.rx (peerFrame 1 { ack := true, fin := true } [7]) 1 (Io.good 0)) = .ok s' ∧
      FinMove s.conn.state s'.conn.state ∧ wrapsGt s'.conn.rcv.nxt seg.finSeq :=
  have h : exec sysStep accepted [.rx (peerFrame 1 { ack := true } []) 1 (Io.good 0)] = .ok _ :=
    exec_final (by decide)
  ⟨_, _, _, h, rfl, step_final (by decide), by decide,
    ((finMove_iff accepted_start h rfl (step_final (by decide))
      (by decide)).mpr (by decide)).1⟩

/-- A FIN that arrives before the byte in front of it: the connection moves to
CLOSE_WAIT with `rcv_nxt` at that byte, which is in the window and refused when it
arrives. -/
theorem finMove_out_of_order :
    accepted.Start ∧ ∃ s s' t : Sys, ∃ seg : Segment,
      exec sysStep accepted [.rx (peerFrame 1 { ack := true } []) 1 (Io.good 0)] = .ok s ∧
      tcpRxParse (peerFrame 2 { ack := true, fin := true } [8]) = .ok (some seg) ∧
      sysStep s (.rx (peerFrame 2 { ack := true, fin := true } [8]) 1 (Io.good 0)) = .ok s' ∧
      FinMove s.conn.state s'.conn.state ∧ ¬ wrapsGt s'.conn.rcv.nxt seg.finSeq ∧
      isAcceptable s'.conn.rcv 1 1 ∧ wrapsLt 1 seg.finSeq ∧
      sysStep s' (.rx (peerFrame 1 { ack := true } [7]) 1 (Io.good 0)) = .ok t ∧
      t.conn.rcv.nxt = 1 ∧ t.conn.rx.rxq = [] :=
  ⟨accepted_start, _, _, _, _, exec_final (by decide), rfl, step_final (by decide),
    by decide, by decide, by decide, by decide,
    step_final (by decide), by decide, rfl⟩

end Skyloft
