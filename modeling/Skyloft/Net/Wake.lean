import Skyloft.Net.FinOrder

/-!
# Waking readers

`tcp_rx_text` wakes a reader when it appends a segment that carries PSH or FIN, but
for a drained segment it tests the flags of the arriving one.  `reach` says on the
queue itself how far the out-of-order segments continue an arriving one and
whether one of them is pushed; `WakeOk` is the condition in these terms, and
`pushed_text_wakes` says that a call wakes as it should exactly under it, and what
that means for readers that sleep.

## Main definitions

* `reach` — what an arriving segment makes contiguous.
* `WakeOk`, `WakeGuard` — the condition on a call and on a step of a run.
* `pushed_text_wakes` — the two readings of the wake output.
-/

namespace Skyloft

open Run Serial

/-- From the position `p`, measured from `nxt`, the position to which the sorted
segments of a queue continue without a gap, and whether one of those that take part
carries PSH or FIN. -/
def reach (nxt : Seq) : ℤ → List Mbuf → ℤ × Bool
  | p, [] => (p, false)
  | p, m :: q =>
      if ahead m.segSeq nxt + m.segLen ≤ p then reach nxt p q
      else if p < ahead m.segSeq nxt then (p, false)
      else
        let r := reach nxt (ahead m.segSeq nxt + m.segLen) q
        (r.1, m.flags.pushed || r.2)

theorem le_reach (nxt : Seq) : ∀ (q : List Mbuf) (p : ℤ), p ≤ (reach nxt p q).1 := by
  intro q
  induction q with
  | nil => intro p; exact le_refl p
  | cons m q ih =>
      intro p
      rw [reach]
      split_ifs with h₁ h₂
      · exact ih p
      · exact le_refl p
      · have := ih (ahead m.segSeq nxt + m.segLen)
        dsimp only
        omega

/-- What an arriving segment makes contiguous, when it is in order. -/
def reachOf (x : RxSide) (m : Mbuf) : ℤ × Bool :=
  reach x.rcv.nxt (ahead m.segSeq x.rcv.nxt + m.segLen) x.rx.rxqOoo

/-- The arriving segment is pushed or out of order, or no pushed segment continues
it, or the text fills the receive window. -/
def WakeOk (x : RxSide) (m : Mbuf) : Prop :=
  m.flags.pushed ∨ 0 < ahead m.segSeq x.rcv.nxt ∨ (reachOf x m).2 = false ∨
    x.rcv.wnd.toNat ≤ (reachOf x m).1

instance (x : RxSide) (m : Mbuf) : Decidable (WakeOk x m) := inferInstanceAs (Decidable (_ ∨ _))

/-! ## The drain loop in these terms -/

/-- A drain that leaves the window open appends the segments that `reach` counts;
one that fills the window reaches its end.  Positions are measured from `base`. -/
theorem Drained.reach_spec {base : Seq} {rcv rcv' : RcvVars} {q app left : List Mbuf}
    (h : Drained rcv q rcv' app left) : ∀ {p : ℤ}, ahead rcv.nxt base = p → 0 ≤ p →
      p + rcv.wnd.toNat ≤ 2 ^ 20 →
      (∀ m ∈ q, -2 ^ 20 ≤ ahead m.segSeq base ∧ ahead m.segSeq base ≤ 2 ^ 20 ∧ m.segLen ≤ 65536) →
      (rcv'.wnd.toNat ≠ 0 → (reach base p q).1 < p + rcv.wnd.toNat ∧
        (app.any fun m => m.flags.pushed) = (reach base p q).2) ∧
      (rcv'.wnd.toNat = 0 → p + rcv.wnd.toNat ≤ (reach base p q).1) := by
  induction h with
  | nil =>
      intro p _ _ _ _
      rw [reach]
      exact ⟨fun hne => ⟨by dsimp only; omega, rfl⟩, fun he => by dsimp only; omega⟩
  | @stale rcv pos rest rcv' app left hst _ ih =>
      intro p hp h0 h1 hq
      obtain ⟨hlo, hhi, hle⟩ := hq pos List.mem_cons_self
      have hd : ahead pos.segSeq rcv.nxt = ahead pos.segSeq base - p := by
        rw [← hp]
        refine ahead_eq_sub ?_ ?_ <;> omega
      have hr : reach base p (pos :: rest) = reach base p rest := by
        rw [reach, if_pos (by omega)]
      rw [hr]
      exact ih hp h0 h1 fun m hm => hq m (List.mem_cons_of_mem _ hm)
  | @wait rcv pos rest hw =>
      intro p hp h0 h1 hq
      obtain ⟨hlo, hhi, hle⟩ := hq pos List.mem_cons_self
      have hd : ahead pos.segSeq rcv.nxt = ahead pos.segSeq base - p := by
        rw [← hp]
        refine ahead_eq_sub ?_ ?_ <;> omega
      have hr : reach base p (pos :: rest) = (p, false) := by
        rw [reach, if_neg (by omega), if_pos (by omega)]
      rw [hr]
      exact ⟨fun hne => ⟨by dsimp only; omega, rfl⟩, fun he => by dsimp only; omega⟩
  | @take rcv pos rest m' rcv' app left hlt hgt hc hdr ih =>
      intro p hp h0 h1 hq
      obtain ⟨hlo, hhi, hle⟩ := hq pos List.mem_cons_self
      have hd : ahead pos.segSeq rcv.nxt = ahead pos.segSeq base - p := by
        rw [← hp]
        refine ahead_eq_sub ?_ ?_ <;> omega
      have hk := hc.segLen_le_wnd
      have hlen := hc.segLen
      have hwnd := RcvVars.toNat_advance_wnd hk
      have hp' : ahead (rcv.advance m'.segLen).nxt base = p + m'.segLen := by
        change ahead (rcv.nxt + BitVec.ofNat 32 m'.segLen) base = _
        rw [ahead_add_ofNat (by omega) (by omega), hp]
      have hr : reach base p (pos :: rest) =
          ((reach base (ahead pos.segSeq base + pos.segLen) rest).1,
            pos.flags.pushed || (reach base (ahead pos.segSeq base + pos.segLen) rest).2) := by
        rw [reach, if_neg (by omega), if_neg (by omega)]
      have hflags : m'.flags.pushed = pos.flags.pushed := by rw [hc.flags]
      obtain ⟨h₁, h₂⟩ := ih hp' (by omega) (by omega) fun m hm => hq m (List.mem_cons_of_mem _ hm)
      rw [hr, List.any_cons, hflags]
      by_cases hfit : ahead pos.segSeq base + pos.segLen ≤ p + rcv.wnd.toNat
      · have he : p + m'.segLen = ahead pos.segSeq base + pos.segLen := by omega
        rw [he, hwnd] at h₁ h₂
        refine ⟨fun hne => ?_, fun he0 => ?_⟩
        · obtain ⟨h₃, h₄⟩ := h₁ hne
          exact ⟨by dsimp only; omega, by rw [h₄]⟩
        · have := h₂ he0
          dsimp only
          omega
      · -- the window is filled by this segment
        have hz : rcv'.wnd.toNat = 0 := by
          have := hdr.wnd_le
          omega
        have hre := le_reach base rest (ahead pos.segSeq base + pos.segLen)
        exact ⟨fun hne => absurd hz hne, fun _ => by dsimp only; omega⟩

/-- What a drain appends carries the flags of queued segments. -/
theorem Drained.flags_mem {rcv rcv' : RcvVars} {q app left : List Mbuf}
    (h : Drained rcv q rcv' app left) : ∀ a ∈ app, ∃ m ∈ q, a.flags = m.flags := by
  induction h with
  | nil => simp
  | stale _ _ ih =>
      intro a ha
      obtain ⟨m, hm, he⟩ := ih a ha
      exact ⟨m, List.mem_cons_of_mem _ hm, he⟩
  | wait _ => simp
  | take _ _ hc _ ih =>
      intro a ha
      rcases List.mem_cons.mp ha with rfl | ha
      · exact ⟨_, List.mem_cons_self, hc.flags⟩
      · obtain ⟨m, hm, he⟩ := ih a ha
        exact ⟨m, List.mem_cons_of_mem _ hm, he⟩

theorem TextOf.flags_mem {x x' : RxSide} {m : Mbuf} {used wake : Bool}
    (h : TextOf x m x' used wake) :
    ∀ a ∈ appended x x', a.flags = m.flags ∨ ∃ y ∈ x.rx.rxqOoo, a.flags = y.flags := by
  cases h with
  | @inOrder m' rcv' app left _ hc hd =>
      intro a ha
      have happ : appended x (x.drained rcv' (m' :: app) left) = m' :: app := by
        simp [appended, RxSide.drained]
      rw [happ] at ha
      rcases List.mem_cons.mp ha with rfl | ha
      · exact .inl hc.flags
      · exact .inr (hd.flags_mem a ha)
  | queued _ _ => simp [appended]
  | unused _ => simp [appended]

/-- **One call.**  If it appends a pushed segment it wakes a reader, exactly under
`WakeOk`. -/
theorem TextOf.wakes_iff {x x' : RxSide} {m : Mbuf} {used wake : Bool} (hm : m.WellFormed)
    (hw : x.rcv.wnd.toNat ≤ tcpWin) (ho : Ooo 0 x.rcv.nxt x.rx.rxqOoo)
    (h : TextOf x m x' used wake) :
    ((∃ a ∈ appended x x', a.flags.pushed) → wake) ↔ WakeOk x m := by
  have hw' : x.rcv.wnd.toNat ≤ 64240 := hw
  have hle := hm.segLen_le
  cases h with
  | @inOrder m' rcv' app left hin hc hd =>
      have happ : appended x (x.drained rcv' (m' :: app) left) = m' :: app := by
        simp [appended, RxSide.drained]
      have hflags : m'.flags.pushed = m.flags.pushed := by rw [hc.flags]
      have hk := hc.segLen_le_wnd
      have hlen := hc.segLen
      have hwnd := RcvVars.toNat_advance_wnd hk
      have hz : (rcv'.wnd == 0) = true ↔ rcv'.wnd.toNat = 0 := by
        rw [beq_iff_eq]
        exact ⟨fun h => by rw [h]; rfl, fun h => BitVec.eq_of_toNat_eq h⟩
      have hp : ahead (x.rcv.advance m'.segLen).nxt x.rcv.nxt = m'.segLen := by
        change ahead (x.rcv.nxt + BitVec.ofNat 32 m'.segLen) x.rcv.nxt = _
        rw [ahead_add_ofNat (by omega) (by rw [ahead_self]; omega), ahead_self, zero_add]
      obtain ⟨hopen, hfull⟩ := hd.reach_spec hp (by omega) (by omega) fun y hy =>
        ⟨by have := ho.lo_lt y hy; omega, by have := ho.lt_hi y hy; omega, (ho.wf y hy).segLen_le⟩
      rw [happ]
      cases hpush : m.flags.pushed with
      | true => exact ⟨fun _ => .inl hpush, fun _ _ => by simp⟩
      | false =>
          have hany : (∃ a ∈ m' :: app, a.flags.pushed = true) ↔
              (app.any fun a => a.flags.pushed) = true := by
            simp [hflags, hpush]
          have hok : WakeOk x m ↔ (reachOf x m).2 = false ∨ x.rcv.wnd.toNat ≤ (reachOf x m).1 := by
            rw [WakeOk, hpush]
            simp only [Bool.false_eq_true, false_or]
            exact or_iff_right (by omega)
          rw [hany, Bool.false_or, hz, hok]
          by_cases hfit : ahead m.segSeq x.rcv.nxt + m.segLen ≤ x.rcv.wnd.toNat
          · have hend : (m'.segLen : ℤ) = ahead m.segSeq x.rcv.nxt + m.segLen := by omega
            rw [hend] at hopen hfull
            change _ → (reachOf x m).1 < _ ∧ _ = (reachOf x m).2 at hopen
            change _ → _ ≤ (reachOf x m).1 at hfull
            by_cases h0 : rcv'.wnd.toNat = 0
            · have := hfull h0
              exact ⟨fun _ => .inr (by omega), fun _ _ => h0⟩
            · obtain ⟨h₁, h₂⟩ := hopen h0
              rw [h₂]
              refine ⟨fun h => .inl (by simpa [h0] using h), fun h ht => ?_⟩
              rcases h with h | h
              · rw [h] at ht
                cases ht
              · omega
          · -- the arriving segment fills the window by itself
            have h0 : rcv'.wnd.toNat = 0 := by
              have := hd.wnd_le
              omega
            have hre : ahead m.segSeq x.rcv.nxt + m.segLen ≤ (reachOf x m).1 := le_reach _ _ _
            exact ⟨fun _ => .inr (by omega), fun _ _ => h0⟩
  | queued hout _ =>
      refine ⟨fun _ => .inr (.inl hout), fun _ h => ?_⟩
      simp [appended] at h
  | unused hout =>
      refine ⟨fun _ => .inr (.inl hout), fun _ h => ?_⟩
      simp [appended] at h

/-! ## Sleeping readers -/

/-- The condition on a step: for a segment with text, `WakeOk`, and as one segment
wakes one reader, at most one sleeping reader unless a reader owns the receive side
or nothing at hand is pushed. -/
def WakeGuard (s : Sys) : Event → Prop
  | .rx f _ _ =>
      match tcpRxParse f with
      | .ok (some seg) =>
          0 < seg.len.toNat → isAcceptable s.conn.rcv seg.len seg.seq →
            WakeOk s.conn.rxSide seg.mbuf ∧
            (s.conn.rx.exclusive ∨ s.conn.rx.wq.length ≤ 1 ∨
              (seg.flags.pushed = false ∧ ∀ m ∈ s.conn.rx.rxqOoo, m.flags.pushed = false))
      | _ => True
  | _ => True

instance (s : Sys) : (e : Event) → Decidable (WakeGuard s e)
  | .rx f _ _ => by
      dsimp only [WakeGuard]
      rcases tcpRxParse f with _ | _ | _ <;> infer_instance
  | .call _ _ | .run _ _ | .ackOut _ | .resend _ | .timeouts _ _ _ | .txDone _ | .netErr _ _ =>
      .isTrue trivial

/-- No reader sleeps on pushed data. -/
def NoneSleepsOnPush (s : Sys) : Prop :=
  s.conn.rx.exclusive = false → s.conn.rx.wq ≠ [] → ∀ m ∈ s.conn.rx.rxq, m.flags.pushed = false

theorem NoneSleepsOnPush.of_rx {s s' : Sys} (h : NoneSleepsOnPush s)
    (hex : s'.conn.rx.exclusive = s.conn.rx.exclusive)
    (hwq : s'.conn.rx.wq = s.conn.rx.wq ∨ s'.conn.rx.wq = [])
    (hq : ∀ m ∈ s'.conn.rx.rxq, m ∈ s.conn.rx.rxq) : NoneSleepsOnPush s' := by
  intro he hne m hm
  rcases hwq with hwq | hwq
  · exact h (hex ▸ he) (hwq ▸ hne) m (hq m hm)
  · exact absurd hwq hne

theorem TextOf.wq_eq {x x' : RxSide} {m : Mbuf} {used wake : Bool}
    (h : TextOf x m x' used wake) : x'.rx.wq = x.rx.wq := by
  cases h <;> rfl

/-- A segment under the guard. -/
theorem NoneSleepsOnPush.segment {s s' : Sys} {f : Frame} {sndNxt : Seq} {io : Io} {seg : Segment}
    (h : NoneSleepsOnPush s) (hi : s.RxInv) (hg : WakeGuard s (.rx f sndNxt io))
    (hp : tcpRxParse f = .ok (some seg)) (hseg : seg.WellFormed)
    (heff : RxEffect seg s.conn s'.conn) : NoneSleepsOnPush s' := by
  cases heff with
  | quiet hside _ =>
      have hrx : s'.conn.rx = s.conn.rx := congrArg RxSide.rx hside
      exact h.of_rx (by rw [hrx]) (.inl (by rw [hrx])) (by rw [hrx]; exact fun _ => id)
  | syn _ _ hside =>
      have hrx : s'.conn.rx = s.conn.rx := congrArg RxSide.rx hside
      exact h.of_rx (by rw [hrx]) (.inl (by rw [hrx])) (by rw [hrx]; exact fun _ => id)
  | reset _ hside =>
      have hrx : s'.conn.rx = (s.conn.rxSide.failed eConnReset).rx := congrArg RxSide.rx hside
      intro he _ m hm
      rw [hrx] at he hm
      change s.conn.rx.exclusive = false at he
      simp [RxSide.failed, he] at hm
  | @text st x used wake hmove htake hpos hacc hx _ hside _ =>
      simp only [WakeGuard, hp] at hg
      obtain ⟨hok, hone⟩ := hg hpos hacc
      have hrx : s'.conn.rx = (x.woken wake).rx := congrArg RxSide.rx hside
      have hwakes := (hx.wakes_iff (hseg.mbuf hpos) hi.rxOk.wnd_le
        (hi.rxOk.ooo_of_ackMove hmove htake)).mpr hok
      intro he hne m hm
      rw [hrx] at he hne hm
      change x.rx.exclusive = false at he
      change (if wake then x.rx.wq.tail else x.rx.wq) ≠ [] at hne
      change m ∈ x.rx.rxq at hm
      have hex : s.conn.rx.exclusive = false := hx.load_le.2.2.symm.trans he
      have hwq : x.rx.wq = s.conn.rx.wq := hx.wq_eq
      rw [TextOf.rxq_eq hx] at hm
      -- what was there before is covered by the invariant: a reader slept already
      have hold : ∀ a ∈ s.conn.rx.rxq, a.flags.pushed = false := by
        refine h hex fun hnil => hne ?_
        rw [hwq, hnil]
        split <;> rfl
      rcases List.mem_append.mp hm with hm | hm
      · exact hold m hm
      · by_contra hpush
        rw [Bool.not_eq_false] at hpush
        have hw : wake = true := hwakes ⟨m, hm, hpush⟩
        rw [hw, if_pos rfl, hwq] at hne
        rcases hone with h₁ | h₁ | ⟨h₁, h₂⟩
        · rw [hex] at h₁
          cases h₁
        · refine hne ?_
          rw [← List.length_eq_zero_iff, List.length_tail]
          omega
        · rcases hx.flags_mem m hm with hf | ⟨y, hy, hf⟩
          · rw [hf] at hpush
            exact absurd (hpush.symm.trans h₁) (by simp)
          · rw [hf] at hpush
            exact absurd (hpush.symm.trans (h₂ y hy)) (by simp)

theorem sysStep_noneSleepsOnPush {s s' : Sys} {e : Event} (h : NoneSleepsOnPush s) (hi : s.RxInv)
    (hg : WakeGuard s e) (hstep : sysStep s e = .ok s') : NoneSleepsOnPush s' := by
  cases sysStep_rxMove hi.rxOk hstep with
  | inert hside _ _ =>
      have hrx : s'.conn.rx = s.conn.rx := congrArg RxSide.rx hside
      exact h.of_rx (by rw [hrx]) (.inl (by rw [hrx])) (by rw [hrx]; exact fun _ => id)
  | shut _ hside _ _ =>
      have hrx : s'.conn.rx = s.conn.rxSide.shut.rx := congrArg RxSide.rx hside
      rw [RxSide.shut] at hrx
      split at hrx
      · exact h.of_rx (by rw [hrx]; rfl) (.inl (by rw [hrx]; rfl)) (by rw [hrx]; exact fun _ => id)
      · exact h.of_rx (by rw [hrx]; rfl) (.inr (by rw [hrx])) (by rw [hrx]; exact fun _ => id)
  | @fail _ _ err hside _ _ _ =>
      have hrx : s'.conn.rx = (s.conn.rxSide.failed err).rx := congrArg RxSide.rx hside
      intro he _ m hm
      rw [hrx] at he hm
      change s.conn.rx.exclusive = false at he
      simp [RxSide.failed, he] at hm
  | segment hp hseg heff _ => exact h.segment hi hg hp hseg heff
  | start => exact h
  | @sleep t io len _ _ _ hwait =>
      intro he _ m hm
      change s.conn.rx.exclusive = false at he
      change m ∈ s.conn.rx.rxq at hm
      rw [he] at hwait
      rw [hwait.resolve_left (by simp)] at hm
      cases hm
  | closed => exact h
  | @pop t io len p c' _ _ _ hex _ hpop hside _ =>
      have hrx : c'.rx = (s.conn.rxSide.popped p).rx := congrArg RxSide.rx hside
      intro _ hne m hm
      change c'.rx.wq ≠ [] at hne
      change m ∈ c'.rx.rxq at hm
      rw [hrx] at hne hm
      change (if p.fin then [] else s.conn.rx.wq) ≠ [] at hne
      change m ∈ p.rest at hm
      have hsplit := (readPop_spec len s.conn.rx.rxq 0).split
      rw [← hpop] at hsplit
      refine h hex (fun hnil => hne ?_) m (by rw [hsplit]; exact List.mem_append_right _ hm)
      rw [hnil]
      split <;> rfl
  | copy => exact h
  | copyPart _ hp hc =>
      obtain ⟨m, m', rest, -, -, -, -, he⟩ := hi.readCopy_eq hp
      rw [he] at hc
      cases hc
      intro hex
      have : s.conn.rx.exclusive = true := hi.holder _ (by rw [hp]; rfl)
      exact absurd (this.symm.trans hex) (by simp)
  | finish =>
      intro _ hne
      exact absurd rfl hne

/-- **Pushed text wakes a reader.**  In every state of every run, a call of
`tcp_rx_text` that appends pushed text sets its wake output exactly under `WakeOk`;
and along every run whose steps meet the guard no reader sleeps on pushed data
while no reader owns the receive side. -/
theorem pushed_text_wakes {s₀ : Sys} (h₀ : s₀.Start) :
    (∀ {es : List Event} {s : Sys} {f : Frame} {seg : Segment} {r : RxText},
      exec sysStep s₀ es = .ok s → tcpRxParse f = .ok (some seg) → 0 < seg.len.toNat →
      isAcceptable s.conn.rcv seg.len seg.seq →
      s.conn.state = .synReceived ∨ s.conn.state.takesText →
      tcpRxText s.conn seg.mbuf = .ok r →
      (((∃ a ∈ appended s.conn.rxSide r.conn.rxSide, a.flags.pushed) → r.wake) ↔
        WakeOk s.conn.rxSide seg.mbuf)) ∧
    ∀ {es : List Event} {s : Sys}, Along sysStep WakeGuard s₀ es → exec sysStep s₀ es = .ok s →
      NoneSleepsOnPush s := by
  constructor
  · intro es s f seg r hrun hp hpos hacc hst hr
    have hi := rxInv_of_reach h₀ hrun
    obtain ⟨o, ho, hwf⟩ := tcpRxParse_spec f
    rw [hp] at ho
    cases ho
    have hseg := (hwf seg rfl).1
    have hooo : Ooo 0 s.conn.rcv.nxt s.conn.rx.rxqOoo := by
      rcases hst with hst | hst
      · exact hi.rxOk.ooo_of_ackMove (show AckMove _ .established by rw [hst]; exact .established) rfl
      · exact hi.ooo hst
    obtain ⟨hwnd, hlo, hhi⟩ := hacc.bounds hi.rxOk.wnd_le hseg.len_le hpos
    obtain ⟨x, used, wake, he, hx, -⟩ := tcpRxText_spec (c := s.conn) (hseg.mbuf hpos)
      hi.rxOk.wnd_le hooo hwnd (by rw [Segment.WellFormed.segLen_mbuf]; exact hlo) hhi
    rw [he] at hr
    cases hr
    exact hx.wakes_iff (hseg.mbuf hpos) hi.rxOk.wnd_le hooo
  · intro es s hg hrun
    have hinit : NoneSleepsOnPush s₀ := by
      have hwq : s₀.conn.rx.rxq = [] := h₀.rxq_nil
      intro _ _ m hm
      rw [hwq] at hm
      cases hm
    exact (exec_invariant (I := fun u => u.RxInv ∧ NoneSleepsOnPush u)
      (fun u e u' hu hg hstep => ⟨sysStep_rxInv hu.1 hstep,
        sysStep_noneSleepsOnPush hu.2 hu.1 hg hstep⟩) ⟨h₀.rxInv, hinit⟩ hg hrun).2

/-- A pushed segment in order wakes the reader that sleeps. -/
theorem pushed_text_wakes_in_order :
    ∃ s, exec sysStep accepted [.rx (peerFrame 1 { ack := true } []) 1 (Io.good 0),
        .call 0 (.read 1), .run 0 (Io.good 0),
        .rx (peerFrame 1 { ack := true, psh := true } [7]) 1 (Io.good 0)] = .ok s ∧
      NoneSleepsOnPush s ∧ s.conn.rx.wq = [] ∧ ∃ m ∈ s.conn.rx.rxq, m.flags.pushed :=
  ⟨_, exec_final (by decide),
    (pushed_text_wakes accepted_start).2 (by decide) (exec_final (by decide)),
    by decide, by decide⟩

/-- A hole is filled by a segment without PSH while a pushed one is queued behind
it: the call appends both and wakes nobody, and the reader sleeps on. -/
theorem hole_filled_without_wake :
    accepted.Start ∧ ∃ s s' : Sys, ∃ seg : Segment, ∃ r : RxText,
      exec sysStep accepted [.rx (peerFrame 1 { ack := true } []) 1 (Io.good 0),
        .call 0 (.read 1), .run 0 (Io.good 0),
        .rx (peerFrame 2 { ack := true, psh := true } [8]) 1 (Io.good 0)] = .ok s ∧
      tcpRxParse (peerFrame 1 { ack := true } [7]) = .ok (some seg) ∧
      isAcceptable s.conn.rcv seg.len seg.seq ∧ tcpRxText s.conn seg.mbuf = .ok r ∧
      (∃ a ∈ appended s.conn.rxSide r.conn.rxSide, a.flags.pushed) ∧ r.wake = false ∧
      sysStep s (.rx (peerFrame 1 { ack := true } [7]) 1 (Io.good 0)) = .ok s' ∧
      s'.conn.rx.exclusive = false ∧ s'.conn.rx.wq = [0] ∧
      ∃ m ∈ s'.conn.rx.rxq, m.flags.pushed := by
  refine ⟨accepted_start, _, _, _, _, exec_final (by decide), rfl, by decide, rfl,
    ?_, ?_, step_final (by decide), by decide, by decide, by decide⟩
  · decide
  · decide

end Skyloft
