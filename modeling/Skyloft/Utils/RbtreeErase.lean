import Skyloft.Utils.RbtreeInsert

/-!
# Taking a node out

`__rb_erase_augmented` unlinks a node and moves its successor into its place, and the loop of
`____rb_erase_color` climbs from there as `RedBlack.eraseFix` does.

* `rep_settle` — one round of the loop.
* `rbEraseColorLoop_rep` — the loop.
-/

namespace Skyloft

open RedBlack (Side Color RbTree Crumb Path plug settle eraseFix Balanced Fits)
open RbMem RbTree

variable {V : Type} {m : RbMem V} {A : List NodePtr → V → Prop} {S : NodePtr → Prop}
  {rotate : RbMem V → BitVec 64 → BitVec 64 → RbMem V}

theorem mk_other (d : Side) (c : Color) (a b : RbTree NodePtr) (x : NodePtr) :
    RbTree.mk d.other c a x b = .mk d c b x a := by
  cases d <;> rfl

theorem glue_other (d : Side) (a b : List NodePtr) (x : NodePtr) :
    d.other.glue a x b = d.glue b x a := by
  cases d <;> rfl

/-- Case 4: a rotation at the parent `p`, whose place `t` is short, and the far child `far` of its
sibling `s` is painted black. -/
theorem rep_case4 (hrot : RotateLaw rotate A S) {d : Side} {c : Color} {p s z : NodePtr}
    {q : Option NodePtr} {t near far : RbTree NodePtr} {mid : List NodePtr} {path : Path NodePtr}
    (hz : root far = some z)
    (hpc : m.parentColor p.word = pcWord (top path) c)
    (hpt : m.child d p.word = ptr (root t)) (ht : Rep m A (some p) t)
    (hsn : m.child d s.word = ptr (root near)) (hsf : m.child d.other s.word = z.word)
    (hnear : Rep m A (some s) near) (hfar : Rep m A q far)
    (haug : A (d.glue t.inorder p (d.glue near.inorder s far.inorder)) (m.aug p.word))
    (hpath : RepPath m A (some p) mid path)
    (hnd : (p :: s :: (far.inorder ++ near.inorder ++ t.inorder ++ items path)).Nodup)
    (hS : ∀ z ∈ d.glue t.inorder p near.inorder, S z) :
    let r := rbEraseCase4 rotate d m p.word s.word z.word
    Rep r A (top path) (.mk d c (.mk d .black t p near) s (far.paint .black)) ∧
      RepPath r A (some s) mid path ∧
      Only (p :: s :: z :: (root near).toList ++ (top path).toList) m r := by
  have hnd' := hnd
  simp only [List.nodup_append, List.nodup_cons, List.mem_append, List.mem_cons, not_or] at hnd'
  have hzf := mem_of_root hz
  have hzp : z ≠ p := by grind
  have hzs : z ≠ s := by grind
  have hnroot := root_subset near
  -- the far child is painted first
  let m₀ := m.setPc z.word (pcWord (some s) .black)
  have h₀ : Only [z] m m₀ := only_setPc (by simp) _
  have hfar₀ : Rep m₀ A (some s) (far.paint .black) := by
    refine hfar.repaint h₀ (fun y _ hy => by rw [List.mem_singleton.mp hy, hz]) (by grind) fun y hy => ?_
    cases hz.symm.trans hy
    exact ⟨parentColor_setPc .., fun _ => rfl, rfl⟩
  let m₂ := (m₀.setChild d.other p.word (ptr (root near))).setChild d s.word p.word
  have h₂ : Only [p, s] m₀ m₂ := (only_setChild (by simp) ..).trans (only_setChild (by simp) ..)
  have hnear₂ : Rep m₂ A (some s) near :=
    (hnear.only h₀ fun y hy hw => by grind).only h₂ fun y hy hw => by grind
  obtain ⟨hb, h₃, hroot₃⟩ := hnear₂.setParentIf (by grind) p
  have hpath₀ : RepPath m₀ A (some p) mid path := hpath.only h₀ rfl fun y hy hw => by grind
  have ht₀ : Rep m₀ A (some p) t := ht.only h₀ fun y hy hw => by grind
  obtain ⟨h₁, h₄, h₅⟩ := rep_turn hrot .black (d := d.other) (x := p) (y := s)
    ((h₀.same p (by simpa using Ne.symm hzp)).parentColor.trans hpc)
    (show m₀.child d.other s.word = ptr (root (far.paint .black)) by
      rw [root_paint, hz]
      exact hsf)
    (show m₀.child d.other.other p.word = ptr (root t) by
      rw [Side.other_other]
      exact hpt) hfar₀ ht₀
    (show A (d.other.glue (d.other.glue (far.paint .black).inorder s near.inorder) p t.inorder)
        (m₀.aug p.word) by
      rw [RbTree.inorder_paint, glue_other, glue_other]
      exact haug) hpath₀
    (by simp only [List.nodup_append, List.nodup_cons, List.mem_append, List.mem_cons,
          RbTree.inorder_paint]; grind)
    (by rwa [glue_other]) hb (by rwa [Side.other_other])
    (hroot₃.trans ((rbNode_setChild ..).trans (rbNode_setChild ..)))
  have hm₂ : ((m.setChild d.other p.word (m.child d s.word)).setChild d s.word
      p.word).rbSetParentColor z.word s.word rbBlack = m₂ := by
    rw [hsn, rbSetParentColor, setPc_setChild, setPc_setChild]
    rfl
  intro r
  have hr : r = rotate ((if ptr (root near) = 0#64 then m₂
      else m₂.rbSetParent (ptr (root near)) p.word).rbRotateSetParents p.word s.word rbBlack)
      p.word s.word := by
    show rbEraseCase4 rotate d m p.word s.word z.word = _
    rw [rbEraseCase4, hm₂, hsn]
  rw [hr]
  rw [mk_other, mk_other] at h₁
  refine ⟨h₁, h₄, (h₀.mono (by simp)).trans (h₅.mono ?_)⟩
  intro y hy
  simp only [List.cons_append, List.mem_cons, List.mem_append] at hy ⊢
  tauto

/-- Case 2: the sibling gets red, and the parent black if it was red. -/
theorem rep_case2_erase {d : Side} {c : Color} {p s : NodePtr} {t sib : RbTree NodePtr}
    {mid : List NodePtr} {path : Path NodePtr} (hroot : root sib = some s)
    (hpc : m.parentColor p.word = pcWord (top path) c)
    (hpt : m.child d p.word = ptr (root t)) (ht : Rep m A (some p) t)
    (hps : m.child d.other p.word = s.word) (hs : Rep m A (some p) sib)
    (haug : A (d.glue t.inorder p sib.inorder) (m.aug p.word))
    (hpath : RepPath m A (some p) mid path)
    (hnd : (p :: (sib.inorder ++ t.inorder ++ items path)).Nodup) :
    let m₁ := m.rbSetParentColor s.word p.word rbRed
    let m₂ := if m₁.rbIsRed p.word then m₁.rbSetBlack p.word else m₁
    m₁.rbIsRed p.word = decide (c = .red) ∧
      Rep m₂ A (top path) (.mk d .black t p (sib.paint .red)) ∧ RepPath m₂ A (some p) mid path ∧
      Only [p, s] m m₂ := by
  simp only [List.nodup_append, List.nodup_cons, List.mem_append, not_or] at hnd
  have hsmem := mem_of_root hroot
  have hps' : p ≠ s := by grind
  intro m₁ m₂
  have h₁ : Only [s] m m₁ := only_setPc (by simp) _
  have hpc₁ : m₁.parentColor p.word = pcWord (top path) c := by rw [rbSetParentColor_ne hps', hpc]
  have hred : m₁.rbIsRed p.word = decide (c = .red) := by
    rw [RbMem.rbIsRed, hpc₁, rbColorOf_pcWord]
    cases c <;> rfl
  have h₂ : Only [p] m₁ m₂ ∧ m₂.parentColor p.word = pcWord (top path) .black ∧
      m₂.rbNode = m₁.rbNode ∧ m₂.child = m₁.child ∧ m₂.aug = m₁.aug := by
    show Only [p] m₁ (if m₁.rbIsRed p.word then _ else _) ∧ _
    simp only [m₂]
    cases c with
    | red =>
        rw [if_pos (by simp [hred])]
        refine ⟨only_setPc (by simp) _, (parentColor_setPc ..).trans ?_, rfl, rfl, rfl⟩
        rw [hpc₁, pcWord_red]
        rfl
    | black =>
        rw [if_neg (by simp [hred])]
        exact ⟨Only.refl _, hpc₁, rfl, rfl, rfl⟩
  obtain ⟨h₂, hpc₂, hroot₂, hchild₂, haug₂⟩ := h₂
  refine ⟨hred, rep_mk.mpr ⟨hpc₂, ?_, ?_, ?_, ?_, ?_⟩, ?_, (h₁.mono (by simp)).trans (h₂.mono (by simp))⟩
  · rw [hchild₂]
    exact hpt
  · rw [hchild₂, root_paint, hroot]
    exact hps
  · rw [haug₂, RbTree.inorder_paint]
    exact haug
  · exact (ht.only h₁ fun y hy hw => by grind).only h₂ fun y hy hw => by grind
  · refine Rep.only (hs.repaint h₁ (fun y _ hy => ?_) (by grind) fun y hy => ?_) h₂ ?_
    · rw [List.mem_singleton.mp hy, hroot]
    · cases hroot.symm.trans hy
      exact ⟨parentColor_setPc .., fun _ => rfl, rfl⟩
    · rw [RbTree.inorder_paint]
      exact fun y hy hw => by grind
  · exact (hpath.only h₁ rfl fun y hy hw => by grind).only h₂ hroot₂ fun y hy hw => by grind

/-- Case 3: a rotation at the sibling `s`.  The near child `n` of it is the sibling then. -/
theorem rep_case3 (hrot : RotateLaw rotate A S) {d : Side} {cs : Color} {p s n : NodePtr}
    {near far nfar : RbTree NodePtr} (hblack : nfar.isRed = false)
    (hs : Rep m A (some p) (.mk d cs (.mk d .red near n nfar) s far))
    (hnd : (p :: s :: n :: (far.inorder ++ near.inorder ++ nfar.inorder)).Nodup)
    (hS : ∀ z ∈ d.glue nfar.inorder s far.inorder, S z) :
    let m₁ := m.setChild d s.word (ptr (root nfar))
    let m₂ := m₁.setChild d.other n.word s.word
    let m₃ := m₂.setChild d.other p.word n.word
    let m₄ := m₃.rbSetParentColorIf (ptr (root nfar)) s.word rbBlack
    let m₅ := rotate m₄ s.word n.word
    Rep m₅ A (some p) (.mk d cs nfar s far) ∧ Rep m₅ A (some n) near ∧
      m₅.child d n.word = ptr (root near) ∧ m₅.child d.other n.word = s.word ∧
      m₅.child d p.word = m.child d p.word ∧ m₅.parentColor p.word = m.parentColor p.word ∧
      m₅.aug p.word = m.aug p.word ∧ m₅.rbNode = m.rbNode ∧
      Only (p :: s :: n :: (root nfar).toList) m m₅ := by
  simp only [List.nodup_append, List.nodup_cons, List.mem_append, List.mem_cons, not_or] at hnd
  obtain ⟨hpcs, hsn, hsf, has, hn, hrf⟩ := rep_mk.mp hs
  obtain ⟨hpcn, hnn, hnf, han, hrn, hrnf⟩ := rep_mk.mp hn
  have hroot := root_subset nfar
  have hpr : p ∉ (root nfar).toList := fun h => by grind
  have hsr : s ∉ (root nfar).toList := fun h => by grind
  have hnr : n ∉ (root nfar).toList := fun h => by grind
  obtain ⟨⟨hps, hpn, -⟩, ⟨hsn', -⟩, -⟩ := id hnd
  intro m₁ m₂ m₃ m₄ m₅
  have h₃ : Only [p, s, n] m m₃ := ((only_setChild (by simp) ..).trans
    (only_setChild (by simp) ..)).trans (only_setChild (by simp) ..)
  have hpc₃ : ∀ a, m₃.parentColor a = m.parentColor a := fun a =>
    (parentColor_setChild ..).trans ((parentColor_setChild ..).trans (parentColor_setChild ..))
  have hroot₃ : m₃.rbNode = m.rbNode :=
    (rbNode_setChild ..).trans ((rbNode_setChild ..).trans (rbNode_setChild ..))
  have hrnf₃ : Rep m₃ A (some n) nfar := hrnf.only h₃ fun y hy hw => by grind
  obtain ⟨hnf₄, h₄, hroot₄⟩ := hrnf₃.setParentColorIf hblack (by grind) s
  have honly₄ : Only (p :: s :: n :: (root nfar).toList) m m₄ :=
    (h₃.mono (by simp)).trans (h₄.mono fun y hy => by simp [hy])
  have hsd : m₄.child d s.word = ptr (root nfar) := by
    refine ((h₄.same _ hsr).child d).trans ?_
    rw [child_other_setChild, child_other_setChild, child_setChild]
  have hso : m₄.child d.other s.word = ptr (root far) := by
    refine ((h₄.same _ hsr).child _).trans ?_
    rw [child_setChild_ne (Ne.symm hps), child_setChild_ne hsn', child_setChild_other, hsf]
  have hfar₄ : Rep m₄ A (some s) far := hrf.only honly₄ fun y hy hw => by grind
  -- the callback
  obtain ⟨hpc₅, hch₅, hroot₅, haug₅, hnf₅, hfar₅, h₅⟩ := rep_rotate_kids hrot (y := n) hsd hso hnf₄
    hfar₄ (by simp only [List.nodup_append, List.nodup_cons, List.mem_append, List.mem_cons]; grind)
    hS
  have honly₅ : Only (p :: s :: n :: (root nfar).toList) m m₅ := honly₄.trans (h₅.mono (by simp))
  refine ⟨rep_mk.mpr ⟨?_, (hch₅ _ _).trans hsd, (hch₅ _ _).trans hso, haug₅, hnf₅, hfar₅⟩,
    hrn.only honly₅ fun y hy hw => by grind, ?_, ?_, ?_, ?_, ?_,
    hroot₅.trans (hroot₄.trans hroot₃), honly₅⟩
  · rw [hpc₅]
    exact (h₄.same _ hsr).parentColor.trans ((hpc₃ _).trans hpcs)
  · refine (hch₅ _ _).trans (((h₄.same _ hnr).child d).trans ?_)
    rw [child_other_setChild, child_other_setChild, child_setChild_ne (Ne.symm hsn'), hnn]
  · refine (hch₅ _ _).trans (((h₄.same _ hnr).child _).trans ?_)
    rw [child_setChild_ne (Ne.symm hpn), child_setChild]
  · refine (hch₅ _ _).trans (((h₄.same _ hpr).child d).trans ?_)
    rw [child_other_setChild, child_setChild_ne hpn, child_setChild_ne hps]
  · rw [hpc₅]
    exact (h₄.same _ hpr).parentColor.trans (hpc₃ _)
  · refine (h₅.same p (by simp [hps, hpn])).aug.trans ((h₄.same _ hpr).aug.trans ?_)
    rw [aug_setChild, aug_setChild, aug_setChild]

/-- Case 3 and then case 4. -/
theorem rep_case3_4 (hrot : RotateLaw rotate A S) {d : Side} {c cs : Color} {p s n : NodePtr}
    {t near far nfar : RbTree NodePtr} {mid : List NodePtr} {path : Path NodePtr}
    (hblack : nfar.isRed = false)
    (hpc : m.parentColor p.word = pcWord (top path) c)
    (hpt : m.child d p.word = ptr (root t)) (ht : Rep m A (some p) t)
    (hs : Rep m A (some p) (.mk d cs (.mk d .red near n nfar) s far))
    (haug : A (d.glue t.inorder p (d.glue (d.glue near.inorder n nfar.inorder) s far.inorder))
      (m.aug p.word))
    (hpath : RepPath m A (some p) mid path)
    (hnd : (p :: s :: n :: (far.inorder ++ near.inorder ++ nfar.inorder ++ t.inorder ++
      items path)).Nodup)
    (hS : ∀ z ∈ p :: s :: n :: (far.inorder ++ near.inorder ++ nfar.inorder ++ t.inorder ++
      items path), S z) :
    let m₁ := m.setChild d s.word (ptr (root nfar))
    let m₂ := m₁.setChild d.other n.word s.word
    let m₃ := m₂.setChild d.other p.word n.word
    let m₄ := m₃.rbSetParentColorIf (ptr (root nfar)) s.word rbBlack
    let m₅ := rotate m₄ s.word n.word
    let r := rbEraseCase4 rotate d m₅ p.word n.word s.word
    Rep r A (top path) (.mk d c (.mk d .black t p near) n (.mk d .black nfar s far)) ∧
      RepPath r A (some n) mid path ∧
      Only (p :: s :: n :: (far.inorder ++ near.inorder ++ nfar.inorder ++ t.inorder ++
        items path)) m r := by
  have hnd' := hnd
  simp only [List.nodup_append, List.nodup_cons, List.mem_append, List.mem_cons, not_or] at hnd'
  have hroot := root_subset nfar
  obtain ⟨hfar, hnear, hnn, hns, hpd, hpcp, hpa, hpr, h₅⟩ := rep_case3 hrot hblack hs
    (by simp only [List.nodup_append, List.nodup_cons, List.mem_append, List.mem_cons]; grind)
    (fun z hz => hS z (by rcases Side.mem_glue.mp hz with hz | rfl | hz <;> simp [*]))
  have hperm : (p :: s :: n :: (far.inorder ++ near.inorder ++ nfar.inorder ++ t.inorder ++
      items path)).Perm
      (p :: n :: ((RbTree.mk d cs nfar s far).inorder ++ near.inorder ++ t.inorder ++ items path)) := by
    rw [List.perm_iff_count, RbTree.inorder_mk]
    intro z
    simp only [Side.count_glue, List.count_append, List.count_cons]
    omega
  obtain ⟨h₆, h₇, h₈⟩ := rep_case4 hrot (root_mk d cs nfar far s) (hpcp.trans hpc) (hpd.trans hpt)
    (ht.only h₅ fun y hy hw => by grind) hnn hns hnear hfar
    (by
      rw [hpa, RbTree.inorder_mk, ← glue_glue d near.inorder]
      exact haug)
    (hpath.only h₅ hpr fun y hy hw => by grind)
    (hperm.nodup_iff.mp hnd)
    (fun z hz => hS z (by rcases Side.mem_glue.mp hz with hz | rfl | hz <;> simp [*]))
  refine ⟨h₆, h₇, (h₅.mono fun y hy => ?_).trans (h₈.mono fun y hy => ?_)⟩
  · simp only [List.mem_cons, List.mem_append] at hy ⊢
    grind
  · have hnroot := root_subset near
    have htop := top_subset path
    simp only [List.cons_append, List.mem_cons, List.mem_append] at hy ⊢
    grind

/-- Cases 2 to 4, for a short place `t` below `p` and its sibling `s`. -/
theorem rep_settle (hrot : RotateLaw rotate A S) {d : Side} {c cs : Color} {p s : NodePtr}
    {t sl sr near far : RbTree NodePtr} {mid : List NodePtr} {path : Path NodePtr} {n : ℕ}
    (hnear : d.pick sl sr = near) (hfar : d.other.pick sl sr = far) (hbal : Balanced near n)
    (hpc : m.parentColor p.word = pcWord (top path) c)
    (hpt : m.child d p.word = ptr (root t)) (ht : Rep m A (some p) t)
    (hps : m.child d.other p.word = s.word) (hs : Rep m A (some p) (.node cs sl s sr))
    (haug : A (d.glue t.inorder p (d.glue near.inorder s far.inorder)) (m.aug p.word))
    (hpath : RepPath m A (some p) mid path)
    (hnd : (p :: s :: (far.inorder ++ near.inorder ++ t.inorder ++ items path)).Nodup)
    (hS : ∀ z ∈ p :: s :: (far.inorder ++ near.inorder ++ t.inorder ++ items path), S z) :
    let r := rbEraseCases rotate d m p.word s.word
    let u := settle d c t p sl s sr
    r.2 = u.2 ∧ Rep r.1 A (top path) u.1 ∧ RepPath r.1 A (root u.1) mid path ∧
      Only (p :: s :: (far.inorder ++ near.inorder ++ t.inorder ++ items path)) m r.1 := by
  have hnd' := hnd
  simp only [List.nodup_append, List.nodup_cons, List.mem_append, List.mem_cons, not_or] at hnd'
  have hmk : RbTree.node cs sl s sr = .mk d cs near s far := by
    rw [← hnear, ← hfar, RbTree.mk_pick]
  have hs' := hs
  rw [hmk, rep_mk] at hs'
  obtain ⟨hpcs, hsn, hsf, has, hrn, hrf⟩ := hs'
  intro r u
  have hr : r = rbEraseCases rotate d m p.word s.word := rfl
  have hu : u = settle d c t p sl s sr := rfl
  rw [settle, hnear, hfar] at hu
  rw [rbEraseCases] at hr
  by_cases hred : far.isRed = true
  · -- Case 4
    obtain ⟨z, hz⟩ : ∃ z, root far = some z := by
      cases hf : far with
      | nil => simp [hf] at hred
      | node c a z b => exact ⟨z, rfl⟩
    have hsz : m.child d.other s.word = z.word := by rw [hsf, hz, ptr_some]
    rw [if_neg (by rw [hsf, hrf.isBlack_iff, hred]; simp), hsz] at hr
    rw [if_pos hred] at hu
    obtain ⟨h₁, h₂, h₃⟩ := rep_case4 hrot hz hpc hpt ht hsn hsz hrn hrf haug hpath hnd
      fun z hz => hS z (by rcases Side.mem_glue.mp hz with hz | rfl | hz <;> simp [*])
    rw [hr, hu]
    refine ⟨rfl, h₁, h₂, h₃.mono fun y hy => ?_⟩
    have hroot := root_subset near
    have htop := top_subset path
    have hzf := mem_of_root hz
    simp only [List.cons_append, List.mem_cons, List.mem_append] at hy ⊢
    grind
  · rw [if_pos (by rw [hsf, hrf.isBlack_iff]; simpa using hred)] at hr
    rw [if_neg hred] at hu
    by_cases hnred : near.isRed = true
    · -- Case 3
      obtain ⟨nl, x, nr, hx⟩ : ∃ nl x nr, near = .node .red nl x nr := by
        match near, hnred with
        | .node .red nl x nr, _ => exact ⟨nl, x, nr, rfl⟩
      have hsx : m.child d s.word = x.word := by rw [hsn, hx, root_node, ptr_some]
      rw [if_neg (by rw [hsn, hrn.isBlack_iff, hnred]; simp), hsx] at hr
      have hnmk : near = .mk d .red (d.pick nl nr) x (d.other.pick nl nr) := by
        rw [hx, RbTree.mk_pick]
      have hkids : (d.other.pick nl nr).isRed = false := by
        rw [hx] at hbal
        cases d
        · exact hbal.2.2
        · exact hbal.2.1
      rw [hx] at hu
      rw [hnmk] at hrn
      rw [hmk, hnmk] at hs
      have hperm : (p :: s :: (far.inorder ++ near.inorder ++ t.inorder ++ items path)).Perm
          (p :: s :: x :: (far.inorder ++ (d.pick nl nr).inorder ++ (d.other.pick nl nr).inorder ++
            t.inorder ++ items path)) := by
        rw [List.perm_iff_count, hnmk, RbTree.inorder_mk]
        intro z
        simp only [Side.count_glue, List.count_append, List.count_cons]
        omega
      rw [hnmk, RbTree.inorder_mk] at haug
      rw [(rep_mk.mp hrn).2.2.1] at hr
      obtain ⟨h₁, h₂, h₃⟩ := rep_case3_4 hrot hkids hpc hpt ht hs haug hpath
        (hperm.nodup_iff.mp hnd) fun z hz => hS z (hperm.mem_iff.mpr hz)
      rw [hr, hu]
      exact ⟨rfl, h₁, h₂, h₃.mono fun y hy => hperm.mem_iff.mpr hy⟩
    · -- Case 2
      rw [if_pos (by rw [hsn, hrn.isBlack_iff]; simpa using hnred)] at hr
      obtain ⟨hc, h₁, h₂, h₃⟩ := rep_case2_erase (root_node cs sl sr s) hpc hpt ht hps hs
        (by rw [hmk, RbTree.inorder_mk]; exact haug) hpath (by
          have hperm : (p :: ((RbTree.node cs sl s sr).inorder ++ t.inorder ++ items path)).Perm
              (p :: s :: (far.inorder ++ near.inorder ++ t.inorder ++ items path)) := by
            rw [List.perm_iff_count, hmk, RbTree.inorder_mk]
            intro z
            simp only [Side.count_glue, List.count_append, List.count_cons]
            omega
          exact hperm.nodup_iff.mpr hnd)
      have hu : u = (.mk d .black t p (.node .red sl s sr), decide (c = .black)) := by
        rw [hu]
        split
        · simp at hnred
        · rfl
      rw [hr, hu]
      have honly : Only (p :: s :: (far.inorder ++ near.inorder ++ t.inorder ++ items path)) _ _ :=
        h₃.mono (by simp)
      cases c with
      | red =>
          simp only [hc, decide_true, if_true] at h₁ h₂ honly ⊢
          exact ⟨rfl, h₁, h₂, honly⟩
      | black =>
          simp only [hc] at h₁ h₂ honly ⊢
          exact ⟨rfl, h₁, h₂, honly⟩

/-- Case 1: a rotation at the parent `p` moves the sibling `s` up. -/
theorem rep_case1 (hrot : RotateLaw rotate A S) {d : Side} {c : Color} {p s x : NodePtr}
    {t near far : RbTree NodePtr} {mid : List NodePtr} {path : Path NodePtr}
    (hx : root near = some x) (hblack : near.isRed = false)
    (hpc : m.parentColor p.word = pcWord (top path) c)
    (hpt : m.child d p.word = ptr (root t)) (ht : Rep m A (some p) t)
    (hs : Rep m A (some p) (.mk d .red near s far))
    (haug : A (d.glue t.inorder p (d.glue near.inorder s far.inorder)) (m.aug p.word))
    (hpath : RepPath m A (some p) mid path)
    (hnd : (p :: s :: (far.inorder ++ near.inorder ++ t.inorder ++ items path)).Nodup)
    (hS : ∀ z ∈ p :: s :: (far.inorder ++ near.inorder ++ t.inorder ++ items path), S z) :
    let r := rbEraseCase1 rotate d m p.word s.word
    r.2 = x.word ∧ Rep r.1 A (top path) (.mk d c (.mk d .red t p near) s far) ∧
      RepPath r.1 A (some s) mid path ∧
      Only (p :: s :: (far.inorder ++ near.inorder ++ t.inorder ++ items path)) m r.1 := by
  obtain ⟨hpcs, hsn, hsf, has, hrn, hrf⟩ := rep_mk.mp hs
  have hnd' := hnd
  simp only [List.nodup_append, List.nodup_cons, List.mem_append, List.mem_cons, not_or] at hnd'
  have h₂ : Only [p, s] m ((m.setChild d.other p.word (ptr (root near))).setChild d s.word p.word) :=
    (only_setChild (by simp) ..).trans (only_setChild (by simp) ..)
  have hrn₂ := hrn.only h₂ fun y hy hw => by grind
  obtain ⟨hb, h₃, hroot₃⟩ := hrn₂.setParentColorIf hblack (by grind) p
  obtain ⟨h₁, h₄, h₅⟩ := rep_turn hrot .red (d := d.other) (x := p) (y := s) hpc hsf
    (by rwa [Side.other_other]) hrf ht
    (by rwa [glue_other, glue_other]) hpath hnd
    (fun z hz => hS z (by
      rw [glue_other] at hz
      rcases Side.mem_glue.mp hz with hz | rfl | hz <;> simp [*])) hb
    (by rwa [Side.other_other]) (hroot₃.trans ((rbNode_setChild ..).trans (rbNode_setChild ..)))
  have hif : ∀ m' : RbMem V, m'.rbSetParentColorIf (ptr (root near)) p.word rbBlack =
      m'.rbSetParentColor x.word p.word rbBlack := fun m' => by
    rw [hx, ptr_some, rbSetParentColorIf, if_neg x.ne_zero]
  rw [mk_other, mk_other, hif, hx] at h₁
  rw [hif, hx] at h₄ h₅
  have hsx : m.child d s.word = x.word := by rw [hsn, hx, ptr_some]
  intro r
  have hr : r = _ := if_pos (by rw [hs.rbIsRed (root_mk ..)]; rfl)
  rw [hr, hsx]
  refine ⟨rfl, h₁, h₄, h₅.mono fun y hy => ?_⟩
  have hxn := mem_of_root hx
  have htop := top_subset path
  simp only [Option.toList_some, List.cons_append, List.mem_cons, List.mem_append] at hy ⊢
  grind

theorem root_settle {d : Side} {c : Color} {t sl sr : RbTree NodePtr} {p s : NodePtr}
    (h : (settle d c t p sl s sr).2 = true) : root (settle d c t p sl s sr).1 = some p := by
  fun_cases settle d c t p sl s sr with
  | case1 hfar => simp [settle, hfar] at h
  | case2 hfar nl n nr hnear => simp [settle, hfar, hnear] at h
  | case3 => exact root_mk ..

/-- A red sibling `s` goes up, and the repair is done below it. -/
theorem rep_red_sibling (hrot : RotateLaw rotate A S) {d : Side} {c : Color} {p s x : NodePtr}
    {t nl nr far : RbTree NodePtr} {path : Path NodePtr} {n : ℕ} (hl : Balanced nl n)
    (hr : Balanced nr n)
    (hpc : m.parentColor p.word = pcWord (top path) c)
    (hpt : m.child d p.word = ptr (root t)) (ht : Rep m A (some p) t)
    (hps : m.child d.other p.word = s.word)
    (hs : Rep m A (some p) (.mk d .red (.node .black nl x nr) s far))
    (haug : A (d.glue t.inorder p (d.glue (RbTree.node .black nl x nr).inorder s far.inorder))
      (m.aug p.word))
    (hpath : RepPath m A (some p)
      (d.glue t.inorder p (d.glue (RbTree.node .black nl x nr).inorder s far.inorder)) path)
    (hnd : (p :: s :: (far.inorder ++ (RbTree.node .black nl x nr).inorder ++ t.inorder ++
      items path)).Nodup)
    (hS : ∀ z ∈ p :: s :: (far.inorder ++ (RbTree.node .black nl x nr).inorder ++ t.inorder ++
      items path), S z) :
    let m₁ := rbEraseCase1 rotate d m p.word s.word
    let r := rbEraseCases rotate d m₁.1 p.word m₁.2
    r.2 = false ∧ RepRoot r.1 A (plug (.mk d c (settle d .red t p nl x nr).1 s far) path) ∧
      Only (p :: s :: (far.inorder ++ (RbTree.node .black nl x nr).inorder ++ t.inorder ++
        items path)) m r.1 := by
  intro m₁ r
  obtain ⟨h₁, h₂, h₃, h₄⟩ := rep_case1 hrot (root_node .black nl nr x) rfl hpc hpt ht hs haug hpath
    hnd hS
  have hm₁ : m₁.2 = x.word := h₁
  obtain ⟨hpcs, hsp, hsf, has, hp, hrf⟩ := rep_mk.mp h₂
  obtain ⟨hpcp, hpt', hpx, hap, ht', hrx⟩ := rep_mk.mp hp
  rw [RbTree.inorder_mk] at has
  rw [← glue_glue] at h₃
  let path' : Path NodePtr := ⟨d, c, s, far⟩ :: path
  have hin : (RbTree.node .black nl x nr).inorder =
      d.glue (d.pick nl nr).inorder x (d.other.pick nl nr).inorder := by
    cases d <;> rfl
  have hperm : (p :: s :: (far.inorder ++ (RbTree.node .black nl x nr).inorder ++ t.inorder ++
      items path)).Perm (p :: x :: ((d.other.pick nl nr).inorder ++ (d.pick nl nr).inorder ++
        t.inorder ++ items path')) := by
    rw [List.perm_iff_count, hin]
    intro z
    simp only [path', items, Side.count_glue, List.count_append, List.count_cons]
    omega
  have hbal : Balanced (d.pick nl nr) n := by cases d <;> assumption
  rw [hin] at hap
  obtain ⟨h₅, h₆, h₇, h₈⟩ := rep_settle hrot rfl rfl hbal (show _ = pcWord (top path') _ from hpcp) hpt' ht'
    (hpx.trans (ptr_some x)) hrx hap
    (show RepPath m₁.1 A (some p) (d.glue t.inorder p _) path' from
      ⟨hpcs, hsp, hsf, hin ▸ has, hrf, hin ▸ h₃⟩)
    (hperm.nodup_iff.mp hnd) fun z hz => hS z (hperm.mem_iff.mpr hz)
  have hr' : r = rbEraseCases rotate d m₁.1 p.word x.word := by
    show rbEraseCases rotate d m₁.1 p.word m₁.2 = _
    rw [hm₁]
  have hmid : (settle d .red t p nl x nr).1.inorder = d.glue t.inorder p
      (d.glue (d.pick nl nr).inorder x (d.other.pick nl nr).inorder) := by
    rw [RedBlack.inorder_settle, ← hin]
    rfl
  rw [← hmid] at h₇
  have hplug := rep_plug_iff.mp ⟨h₆, h₇⟩
  rw [hr']
  exact ⟨h₅.trans (RedBlack.settle_red ..), hplug,
    h₄.trans (h₈.mono fun y hy => hperm.mem_iff.mpr hy)⟩

/-- **The loop of `____rb_erase_color`.** -/
theorem rbEraseColorLoop_rep (hrot : RotateLaw rotate A S) {fuel : ℕ} :
    ∀ {path : Path NodePtr} {t : RbTree NodePtr} {n : ℕ} {m : RbMem V}, path.length ≤ fuel →
      path ≠ [] → Balanced t n → Fits path (n + 1) →
      Rep m A (top path) t → RepPath m A (root t) t.inorder path →
      (t.inorder ++ items path).Nodup → (∀ z ∈ t.inorder ++ items path, S z) →
      ∃ m', rbEraseColorLoop rotate fuel m (ptr (root t)) (ptr (top path)) = some m' ∧
        RepRoot m' A (eraseFix t path) ∧ Only (t.inorder ++ items path) m m' := by
  induction fuel with
  | zero =>
      intro path t n m hfuel hne
      cases path <;> simp at hfuel hne
  | succ fuel ih =>
      intro path t n m hfuel hne ht hfits hrep hpath hnd hS
      cases path with
      | nil => exact absurd rfl hne
      | cons f path =>
          obtain ⟨hsib, hfr, hp⟩ := hfits
          obtain ⟨hpcf, hft, hfs, hfa, hrs, hpath⟩ := hpath
          have hnd' := hnd
          simp only [items, List.cons_append, List.nodup_append, List.nodup_cons, List.mem_append,
            List.mem_cons, not_or] at hnd'
          have hside : (if ptr (root t) ≠ m.right f.item.word then Side.left else .right) = f.side :=
            side_of_child hft (by
              rw [hfs]
              intro heq
              have hroot := ptr_inj.mp heq
              cases hu : root f.sibling with
              | none =>
                  rw [root_eq_none.mp hu] at hsib
                  cases hsib
              | some u =>
                  have := mem_of_root hu
                  have := mem_of_root (hroot.symm.trans hu)
                  grind)
          rw [rbEraseColorLoop, top_cons, ptr_some]
          rcases hsibling : f.sibling with _ | ⟨_ | _, sl, s, sr⟩
          · rw [hsibling] at hsib
            cases hsib
          · rw [hsibling] at hsib hrs hfa hfs hpath hfr
            have hf : f.color = .black := by
              cases hc : f.color with
              | black => rfl
              | red => cases (hfr hc).1
            have hpick : ∀ e : Side, Balanced (e.pick sl sr) (n + 1) ∧
                (e.pick sl sr).isRed = false := by
              intro e
              cases e
              · exact ⟨hsib.1.1, hsib.2.1⟩
              · exact ⟨hsib.1.2, hsib.2.2⟩
            obtain ⟨hbal, hblack⟩ := hpick f.side
            rcases hnear : f.side.pick sl sr with _ | ⟨_ | _, nl, x, nr⟩
            · rw [hnear] at hbal
              cases hbal
            · rw [hnear] at hblack
              cases hblack
            · have hmk : RbTree.node .red sl s sr =
                  .mk f.side .red (.node .black nl x nr) s (f.side.other.pick sl sr) := by
                rw [← hnear, RbTree.mk_pick]
              have hperm : (t.inorder ++ items (f :: path)).Perm (f.item :: s ::
                  ((f.side.other.pick sl sr).inorder ++ (RbTree.node .black nl x nr).inorder ++
                    t.inorder ++ items path)) := by
                rw [List.perm_iff_count]
                intro z
                rw [items, hsibling, hmk, RbTree.inorder_mk]
                simp only [Side.count_glue, List.count_append, List.count_cons]
                omega
              rw [hnear] at hbal
              obtain ⟨k, hk, hl, hr⟩ := hbal
              cases hk
              rw [hmk, RbTree.inorder_mk] at hfa
              rw [root_node, ptr_some] at hfs
              obtain ⟨h₁, h₂, h₃⟩ := rep_red_sibling hrot hl hr hpcf hft hrep hfs (hmk ▸ hrs) hfa
                (by rwa [hmk, RbTree.inorder_mk] at hpath) (hperm.nodup_iff.mp hnd)
                fun z hz => hS z (hperm.mem_iff.mpr hz)
              simp only [hside, hfs]
              rw [h₁, if_neg (by simp), RedBlack.eraseFix_red hsibling hnear]
              rw [hf] at h₂
              exact ⟨_, rfl, h₂, h₃.mono fun y hy => hperm.mem_iff.mpr hy⟩
          · rw [hsibling] at hsib hrs hfa hfs hpath
            obtain ⟨k, hk, hl, hr⟩ := hsib
            cases hk
            have hcase1 : rbEraseCase1 rotate f.side m f.item.word s.word = (m, s.word) :=
              if_neg (by rw [hrs.rbIsRed rfl]; simp)
            have hin : (RbTree.node .black sl s sr).inorder =
                f.side.glue (f.side.pick sl sr).inorder s (f.side.other.pick sl sr).inorder := by
              cases f.side <;> rfl
            have hperm : (t.inorder ++ items (f :: path)).Perm
                (f.item :: s :: ((f.side.other.pick sl sr).inorder ++ (f.side.pick sl sr).inorder ++
                  t.inorder ++ items path)) := by
              rw [List.perm_iff_count]
              intro z
              rw [items, hsibling, hin]
              simp only [Side.count_glue, List.count_append, List.count_cons]
              omega
            have hbal : Balanced (f.side.pick sl sr) n := by cases f.side <;> assumption
            rw [hin] at hfa hpath
            obtain ⟨h₁, h₂, h₃, h₄⟩ := rep_settle hrot rfl rfl hbal hpcf hft hrep hfs hrs hfa hpath
              (hperm.nodup_iff.mp hnd) fun z hz => hS z (hperm.mem_iff.mpr hz)
            rw [root_node, ptr_some] at hfs
            simp only [hside, hfs, hcase1]
            set r := rbEraseCases rotate f.side m f.item.word s.word
            set u := settle f.side f.color t f.item sl s sr with hu
            have hfix : eraseFix t (f :: path) = if u.2 then eraseFix u.1 path else plug u.1 path :=
              RedBlack.eraseFix_black hsibling
            have hmid : u.1.inorder = f.side.glue t.inorder f.item (f.side.glue
                (f.side.pick sl sr).inorder s (f.side.other.pick sl sr).inorder) := by
              rw [hu, RedBlack.inorder_settle, ← hin]
              rfl
            rw [← hmid] at h₃
            have honly := h₄.mono fun y hy => hperm.mem_iff.mpr hy
            rw [h₁, hfix]
            by_cases hup : u.2 = true
            · obtain ⟨hcol, -, hbal⟩ := RedBlack.balanced_settle (d := f.side) (c := f.color)
                (p := f.item) (s := s) ht hl hr
              have hroot : root u.1 = some f.item := root_settle hup
              rw [if_pos hup, if_pos hup, h₂.rbParent hroot]
              rw [if_pos hup] at hbal
              rw [hcol hup] at hp
              cases path with
              | nil => exact ⟨r.1, if_neg (by simp [top]), ⟨h₂, h₃⟩, honly⟩
              | cons g path =>
                  have hclimb : (u.1.inorder ++ items (g :: path)).Perm
                      (t.inorder ++ items (f :: g :: path)) := by
                    rw [hmid, ← hin, ← hsibling]
                    exact perm_climb t f (g :: path)
                  obtain ⟨m', hm', hrep', honly'⟩ := ih (Nat.le_of_succ_le_succ hfuel) (by simp) hbal
                    hp h₂ h₃ (hclimb.nodup_iff.mpr hnd) fun z hz => hS z (hclimb.mem_iff.mp hz)
                  rw [hroot, ptr_some] at hm'
                  rw [if_pos (by simp [g.item.ne_zero])]
                  exact ⟨m', hm', hrep', honly.trans (honly'.mono fun y hy => hclimb.mem_iff.mp hy)⟩
            · rw [if_neg hup, if_neg hup]
              exact ⟨r.1, rfl, rep_plug_iff.mp ⟨h₂, h₃⟩, honly⟩

end Skyloft
