import Skyloft.Utils.RbtreeErase
import Skyloft.Utils.RbtreeWalk

/-!
# The calls that take a node out

`__rb_erase_augmented` takes the node out of the search tree as `RedBlack.unlink` does.  With the
colours repaired after that, a call makes of the tree in memory what `RedBlack.erase` makes of it.

* `rbEraseNode_rep` — the node is unlinked.
* `rbEraseAugmented_rep`, `rbMoveLeftmost_rep` — the call, and the leftmost node before it.
-/

namespace Skyloft

open RedBlack (Side Color RbTree Crumb Path plug short unlink minPath eraseFix Balanced Fits)
open RbMem RbTree

variable {V : Type} {m : RbMem V} {S : NodePtr → Prop}
  {value : BitVec 64 → Option V → Option V → V} {K : Summary value S}

/-! ## The place of the node -/

/-- An only child is painted black; where there is none, `w` says where to go on. -/
theorem rep_child2 {A : List NodePtr → V → Prop} {t : RbTree NodePtr} {par : Option NodePtr}
    (par' : Option NodePtr) (h : Rep m A par t) (hnd : t.inorder.Nodup) (w : BitVec 64) :
    let r := if ptr (root t) ≠ 0#64 then
        (m.rbSetParentColor (ptr (root t)) (ptr par') rbBlack, 0#64)
      else (m, w)
    Rep r.1 A par' (t.paint .black) ∧ Only (root t).toList m r.1 ∧ r.1.rbNode = m.rbNode ∧
      r.2 = if root t = none then w else 0#64 := by
  cases t with
  | nil => exact ⟨trivial, Only.refl m, rfl, rfl⟩
  | node c l x r =>
      have honly : Only [x] m (m.setPc x.word (pcWord par' .black)) := only_setPc (by simp) _
      intro r'
      have hr' : r' = (m.setPc x.word (pcWord par' .black), 0#64) := if_pos (by simp [x.ne_zero])
      rw [hr']
      refine ⟨h.repaint honly (fun y _ hy => ?_) hnd fun y hy => ?_, honly, rfl, rfl⟩
      · rw [List.mem_singleton.mp hy, root_node]
      · cases hy
        exact ⟨parentColor_setPc .., fun _ => rfl, rfl⟩

/-- The node `s`, with the nodes of the path `q` and then `sr` on its right, takes the place and the
colour of `x`, and `l` for its left child. -/
theorem rep_successor [DecidableEq V] {c cm : Color} {x s z : NodePtr} {l sr : RbTree NodePtr}
    {q p : Path NodePtr} {old : List NodePtr} {psr : Option NodePtr} {fuel : ℕ}
    (hz : root l = some z) (hpcs : rbColorOf (m.parentColor s.word) = colorWord cm)
    (hsr : m.child .right s.word = ptr (apex (root sr) q)) (haug : K.Is old (m.aug s.word))
    (hrsr : Rep m K.Is psr sr) (hq : RepSeg m K.Is (some s) (root sr) sr.inorder q)
    (hpcx : m.parentColor x.word = pcWord (top p) c) (hxl : m.left x.word = z.word)
    (hl : Rep m K.Is (some x) l) (hp : RepPath m K.Is (some x) old p)
    (hnd : (x :: s :: (l.inorder ++ sr.inorder ++ items q ++ items p)).Nodup) (hold : old ≠ [])
    (hS : ∀ z ∈ old, S z) (hSp : ∀ z ∈ s :: (l.inorder ++ sr.inorder ++ items q ++ items p), S z)
    (hfuel : p.length + 1 < fuel) :
    let m₁ := m.setChild .left s.word (m.left x.word)
    let m₂ := m₁.rbSetParent (m.left x.word) s.word
    let m₃ := m₂.rbChangeChild x.word s.word (rbParentOf (m₂.parentColor x.word))
    let r := if ptr (root sr) ≠ 0#64 then
        (m₃.rbSetParentColor (ptr (root sr)) (ptr (topOr (some s) q)) rbBlack, 0#64)
      else (m₃, if m₃.rbIsBlack s.word then ptr (topOr (some s) q) else 0#64)
    let m₅ := r.1.setPc s.word (m₂.parentColor x.word)
    let q' := q ++ ⟨.right, c, s, l⟩ :: p
    r.2 = (if short cm sr then ptr (top q') else 0#64) ∧
      ∃ m', propagateLoop value fuel m₅ s.word 0#64 = some m' ∧
        RepRoot m' K.Is (plug (sr.paint .black) q') ∧
        Only (s :: (l.inorder ++ sr.inorder ++ items q ++ items p)) m m' := by
  have hnd' := hnd
  simp only [List.nodup_append, List.nodup_cons, List.mem_append, List.mem_cons, not_or] at hnd'
  have hzl := mem_of_root hz
  have hxs : x ≠ s := by grind
  have hzs : z ≠ s := by grind
  have hxz : x ≠ z := by grind
  intro m₁ m₂ m₃ r m₅ q'
  -- the left child
  have h₁ : Only [s] m m₁ := only_setChild (by simp) ..
  have hl₁ : Rep m₁ K.Is (some x) l := hl.only h₁ fun y hy hw => by grind
  have hm₂ : m₂ = if ptr (root l) = 0#64 then m₁ else m₁.rbSetParent (ptr (root l)) s.word := by
    rw [if_neg (by simp [hz, z.ne_zero]), hz, ptr_some, ← hxl]
  obtain ⟨hl₂, h₂, hroot₂⟩ := hl₁.setParentIf (by grind) s
  rw [← hm₂, hz, Option.toList_some] at h₂
  rw [← hm₂] at hl₂ hroot₂
  have honly₂ : Only [s, z] m m₂ := (h₁.mono (by simp)).trans (h₂.mono (by simp))
  have hpcx₂ : m₂.parentColor x.word = pcWord (top p) c :=
    (honly₂.same x (by simp [hxs, hxz])).parentColor.trans hpcx
  -- the place
  have hp₂ : RepPath m₂ K.Is (some x) old p :=
    hp.only honly₂ (hroot₂.trans (rbNode_setChild ..)) fun y hy hw => by grind
  obtain ⟨hp₃, h₃⟩ := RepPath.changeChild (some s) hp₂ (by grind) (by grind)
  have hm₃ : m₃ = m₂.rbChangeChild x.word (ptr (some s)) (ptr (top p)) := by
    show m₂.rbChangeChild x.word s.word (rbParentOf (m₂.parentColor x.word)) = _
    rw [hpcx₂, rbParentOf_pcWord, ptr_some]
  rw [← hm₃] at hp₃ h₃
  have htop := top_subset p
  have honly₃ : Only (s :: z :: (top p).toList) m m₃ :=
    (honly₂.mono (by simp)).trans (h₃.mono fun y hy => by simp [hy])
  have hpcs₃ : m₃.rbIsBlack s.word = decide (cm = .black) := by
    have hpc₃ : m₃.parentColor s.word = m.parentColor s.word :=
      (h₃.same s fun h => by grind).parentColor.trans
        ((h₂.same s (by simpa using Ne.symm hzs)).parentColor.trans (parentColor_setChild ..))
    rw [RbMem.rbIsBlack, hpc₃, hpcs]
    cases cm <;> rfl
  -- the child of `s`
  have hsr₃ : Rep m₃ K.Is psr sr := hrsr.only honly₃ fun y hy hw => by grind
  obtain ⟨hsr₄, h₄, hroot₄, hr⟩ := rep_child2 (topOr (some s) q) hsr₃ (by grind)
    (if m₃.rbIsBlack s.word then ptr (topOr (some s) q) else 0#64)
  have hsroot := root_subset sr
  have h₅ : Only [s] r.1 m₅ := only_setPc (by simp) _
  have honly₅ : Only (s :: z :: (top p).toList ++ (root sr).toList) m m₅ :=
    ((honly₃.mono fun y hy => by simp at hy ⊢; tauto).trans
      (h₄.mono fun y hy => by simp [hy])).trans (h₅.mono (by simp))
  -- the subtree on the right of `s`
  have hrep₅ : Rep m₅ K.Is (some s) (plug (sr.paint .black) q) := by
    refine rep_plug_seg.mpr ⟨hsr₄.only h₅ fun y hy hw => ?_, ?_⟩
    · rw [RbTree.inorder_paint] at hy
      grind
    · rw [root_paint, RbTree.inorder_paint]
      exact hq.only honly₅ fun y hy hw => by grind
  have hin : ∀ y ∈ (plug (sr.paint .black) q).inorder, y ∈ sr.inorder ∨ y ∈ items q := fun y hy => by
    have := (perm_plug (sr.paint .black) q).mem_iff.mpr hy
    rwa [RbTree.inorder_paint, List.mem_append] at this
  have hs₃ : m₃.child .right s.word = ptr (apex (root sr) q) ∧ m₃.child .left s.word = z.word ∧
      K.Is old (m₃.aug s.word) := by
    have s₃ := h₃.same s fun h => by grind
    have s₂ := h₂.same s (by simpa using Ne.symm hzs)
    refine ⟨(s₃.child _).trans ((s₂.child _).trans ?_), (s₃.child _).trans ((s₂.child _).trans ?_), ?_⟩
    · exact (child_setChild_other (d := .left) ..).trans hsr
    · exact (child_setChild ..).trans hxl
    · rw [s₃.aug, s₂.aug, show m₁.aug s.word = m.aug s.word from aug_setChild ..]
      exact haug
  have s₄ := h₄.same s fun h => by grind
  have hl₅ : Rep m₅ K.Is (some s) l := ((hl₂.only h₃ fun y hy hw => by grind).only h₄ fun y hy hw => by
    grind).only h₅ fun y hy hw => by grind
  have hp₅ : RepPath m₅ K.Is (some s) old p := (hp₃.only h₄ hroot₄ fun y hy hw => by grind).only h₅ rfl
    fun y hy hw => by grind
  obtain ⟨hseg, hroot⟩ := repPath_iff_seg.mp hp₅
  -- the fields
  obtain ⟨g, hg, hseg', h₆⟩ := Summary.propagate_cons none
    (f := ⟨.right, c, s, l⟩) hfuel
    (show m₅.parentColor s.word = pcWord (topOr none p) c by
      rw [topOr_none, ← hpcx₂]
      exact parentColor_setPc ..)
    (show m₅.child .right s.word = ptr (root (plug (sr.paint .black) q)) by
      rw [root_plug, root_paint]
      exact (s₄.child _).trans hs₃.1)
    (show m₅.child .left s.word = ptr (root l) by
      rw [hz]
      exact (s₄.child _).trans hs₃.2.1)
    (show K.Is old (m₅.aug s.word) from s₄.aug ▸ hs₃.2.2) hl₅ hseg (Summary.augOf_root hrep₅) hold
    (fun y hy => by
      rw [List.mem_append, List.mem_append] at hy
      rcases hy with (hy | hy) | hy
      · exact hS y hy
      · rcases hin y hy with hy | hy <;> exact hSp y (by simp [hy])
      · refine hSp y ?_
        simp only [items, List.cons_append, List.mem_cons, List.mem_append] at hy ⊢
        tauto)
    (by
      simp only [items, List.cons_append, List.nodup_cons, List.nodup_append, List.mem_append]
      grind)
    (by simp)
  have hpath' := repPath_iff_seg.mpr ⟨hseg', show m₅.rbNode = ptr (apex _ p) from hroot⟩
  have hsub : (⟨.right, c, s, l⟩ :: p : Path NodePtr).map Crumb.item ⊆ s :: items p := by
    rw [List.map_cons]
    exact List.cons_subset_cons _ (map_item_subset p)
  have hrep' := hrep₅.only h₆ fun y hy hw => by
    have := hsub hw
    rcases hin y hy with hy | hy <;> grind
  refine ⟨?_, { m₅ with aug := g }, hg, ?_, ?_⟩
  · have htopq : top q' = topOr (some s) q := by cases q <;> rfl
    rw [htopq]
    refine hr.trans ?_
    rw [hpcs₃]
    cases sr with
    | nil => simp [short]
    | node => simp [short]
  · have h := rep_plug_iff.mp ⟨hrep', hpath'⟩
    rwa [← RedBlack.plug_append] at h
  · refine (honly₅.mono fun y hy => ?_).trans (h₆.mono fun y hy => ?_)
    · simp only [List.cons_append, List.mem_cons, List.mem_append] at hy ⊢
      grind
    · have := hsub hy
      simp only [List.mem_cons, List.mem_append] at this ⊢
      tauto

/-- The node `x` with the only child `t` goes. -/
theorem rep_only_child [DecidableEq V] {c : Color} {x : NodePtr} {t : RbTree NodePtr}
    {p : Path NodePtr} {old : List NodePtr} {fuel : ℕ} (ht : Rep m K.Is (some x) t)
    (hp : RepPath m K.Is (some x) old p) (hnd : (x :: (t.inorder ++ items p)).Nodup)
    (hS : ∀ z ∈ old, S z) (hSp : ∀ z ∈ t.inorder ++ items p, S z) (hfuel : p.length < fuel) :
    let m₁ := m.rbChangeChild x.word (ptr (root t)) (ptr (top p))
    let m₂ := if ptr (root t) ≠ 0#64 then m₁.setPc (ptr (root t)) (pcWord (top p) c) else m₁
    ∃ m', propagateLoop value fuel m₂ (ptr (top p)) 0#64 = some m' ∧
      RepRoot m' K.Is (plug (t.paint c) p) ∧ Only (t.inorder ++ items p) m m' := by
  simp only [List.nodup_append, List.nodup_cons, List.mem_append, not_or] at hnd
  obtain ⟨⟨hxt, hxp⟩, hndt, hndp, hdisj⟩ := hnd
  intro m₁ m₂
  obtain ⟨hp₁, h₁⟩ := RepPath.changeChild (root t) hp hxp hndp
  have htop := top_subset p
  have hroot := root_subset t
  have ht₁ : Rep m₁ K.Is (some x) t := ht.only h₁ fun y hy hw => hdisj y hy y (htop hw) rfl
  have h₂ : Rep m₂ K.Is (top p) (t.paint c) ∧ Only (root t).toList m₁ m₂ ∧
      m₂.rbNode = m₁.rbNode := by
    cases t with
    | nil => exact ⟨trivial, Only.refl _, rfl⟩
    | node ct a y b =>
        have hm₂ : m₂ = m₁.setPc y.word (pcWord (top p) c) := if_pos (by simp [y.ne_zero])
        have honly : Only [y] m₁ (m₁.setPc y.word (pcWord (top p) c)) := only_setPc (by simp) _
        rw [hm₂]
        refine ⟨ht₁.repaint honly (fun z _ hz => ?_) hndt fun z hz => ?_, honly, rfl⟩
        · rw [List.mem_singleton.mp hz, root_node]
        · cases hz
          exact ⟨parentColor_setPc .., fun _ => rfl, rfl⟩
  obtain ⟨ht₂, h₂, hroot₂⟩ := h₂
  have hp₂ : RepPath m₂ K.Is (root t) old p :=
    hp₁.only h₂ hroot₂ fun y hy hw => hdisj y (hroot hw) y hy rfl
  obtain ⟨hseg, hrootp⟩ := repPath_iff_seg.mp hp₂
  obtain ⟨g, hg, hseg', h₃⟩ := Summary.propagate_seg none t.inorder hfuel hseg
    (by
      have h := Summary.augOf_root ht₂
      rwa [root_paint, RbTree.inorder_paint] at h)
    (fun y hy => by
      rw [List.append_assoc, List.mem_append] at hy
      exact hy.elim (hS y) (hSp y)) hndp (by simp)
  rw [topOr_none] at hg
  refine ⟨_, hg, rep_plug_iff.mp ⟨ht₂.only h₃ fun y hy hw => ?_, ?_⟩, ?_⟩
  · rw [RbTree.inorder_paint] at hy
    exact hdisj y hy y (map_item_subset p hw) rfl
  · rw [root_paint, RbTree.inorder_paint]
    exact repPath_iff_seg.mpr ⟨hseg', hrootp⟩
  · exact ((h₁.mono fun y hy => List.mem_append_right _ (htop hy)).trans
      (h₂.mono fun y hy => List.mem_append_left _ (hroot hy))).trans
      (h₃.mono fun y hy => List.mem_append_right _ (map_item_subset p hy))

/-- The loop that looks for the successor. -/
theorem rbSuccessor_rep {A : List NodePtr → V → Prop} {c cy : Color} {l r ry : RbTree NodePtr}
    {x y : NodePtr} {q : Path NodePtr} {par : Option NodePtr} {fuel : ℕ}
    (h : Rep m A par (.node c l x r)) (hfuel : l.height < fuel) :
    let u := minPath c l x r (⟨.left, cy, y, ry⟩ :: q)
    rbSuccessor m fuel y.word x.word = some (ptr (top u.1), u.2.2.1.word) := by
  induction fuel generalizing c cy l r ry x y q par with
  | zero => omega
  | succ fuel ih =>
      obtain ⟨-, hl, -, -, hrl, -⟩ := h
      rw [child_left] at hl
      rw [rbSuccessor]
      cases l with
      | nil => exact if_neg (by simp [hl])
      | node c' l' x' r' =>
          rw [root_node, ptr_some] at hl
          simp only [RbTree.height] at hfuel
          simp only [hl]
          rw [if_pos (by simp [x'.ne_zero])]
          exact ih hrl (by omega)

/-- Where a node with no child on the left goes. -/
theorem rbEraseNode_left [DecidableEq V] {c : Color} {x : NodePtr} {r : RbTree NodePtr}
    {p : Path NodePtr} {fuel : ℕ} (h : RepRoot m K.Is (plug (.node c .nil x r) p))
    (hnd : (x :: (r.inorder ++ items p)).Nodup) (hS : ∀ z ∈ x :: (r.inorder ++ items p), S z)
    (hfuel : p.length < fuel) :
    ∃ m', rbEraseNode (declareCallbacks value) fuel m x.word =
        some (m', if short c r then ptr (top p) else 0#64) ∧
      RepRoot m' K.Is (plug (r.paint c) p) ∧ Only (r.inorder ++ items p) m m' := by
  obtain ⟨⟨hpc, hl, hr, -, -, hrr⟩, hp⟩ := rep_plug_iff.mpr h
  rw [child_left, root_nil, ptr_none] at hl
  rw [child_right] at hr
  obtain ⟨m', hm', hrep, honly⟩ := rep_only_child (c := c) hrr hp hnd (fun z hz => hS z (by
    simp at hz ⊢; tauto)) (fun z hz => hS z (List.mem_cons_of_mem _ hz)) hfuel
  refine ⟨m', ?_, hrep, honly⟩
  rw [rbEraseNode]
  simp only [hl, hr, hpc, rbParentOf_pcWord]
  cases r with
  | nil =>
      have hcol : (if rbColorOf (pcWord (top p) c) ≠ 0#64 then ptr (top p) else 0#64) =
          if short c (.nil : RbTree NodePtr) then ptr (top p) else 0#64 := by
        rw [rbColorOf_pcWord]
        cases c <;> rfl
      rw [← hcol]
      exact congrArg (fun o => Option.bind o _) hm'
  | node cr a y b =>
      have hroot : ptr (root (.node cr a y b)) ≠ 0#64 := y.ne_zero
      rw [if_pos hroot] at hm' ⊢
      exact congrArg (fun o => Option.bind o _) hm'

/-- The same for a child on the left alone. -/
theorem rbEraseNode_right [DecidableEq V] {c : Color} {x : NodePtr} {l : RbTree NodePtr}
    {p : Path NodePtr} {fuel : ℕ} (hne : l ≠ .nil) (h : RepRoot m K.Is (plug (.node c l x .nil) p))
    (hnd : (x :: (l.inorder ++ items p)).Nodup) (hS : ∀ z ∈ x :: (l.inorder ++ items p), S z)
    (hfuel : p.length < fuel) :
    ∃ m', rbEraseNode (declareCallbacks value) fuel m x.word = some (m', 0#64) ∧
      RepRoot m' K.Is (plug (l.paint c) p) ∧ Only (l.inorder ++ items p) m m' := by
  obtain ⟨⟨hpc, hl, hr, -, hrl, -⟩, hp⟩ := rep_plug_iff.mpr h
  rw [child_left] at hl
  rw [child_right, root_nil, ptr_none] at hr
  obtain ⟨m', hm', hrep, honly⟩ := rep_only_child (c := c) hrl hp hnd (fun z hz => hS z (by
    simp at hz ⊢; tauto)) (fun z hz => hS z (List.mem_cons_of_mem _ hz)) hfuel
  refine ⟨m', ?_, hrep, honly⟩
  have hroot : ptr (root l) ≠ 0#64 := by
    rw [Ne, ptr_eq_zero]
    exact fun h => hne (root_eq_none.mp h)
  rw [if_pos hroot] at hm'
  rw [rbEraseNode]
  simp only [hl, hr, hpc, rbParentOf_pcWord]
  rw [if_neg hroot, if_pos trivial, rbChangeChild_setPc]
  exact congrArg (fun o => Option.bind o _) hm'

/-- Case 3: the successor `s` leaves the place below the path `f :: q`, and `y` is below it then. -/
theorem rep_take [DecidableEq V] {x y s : NodePtr} {sr : RbTree NodePtr} {f : Crumb NodePtr}
    {q : Path NodePtr} {par : Option NodePtr} {fuel : ℕ} (hf : f.side = .left)
    (hseg : RepSeg m K.Is par (some s) (s :: sr.inorder) (f :: q)) (hsr : Rep m K.Is (some s) sr)
    (hapex : apex (some s) (f :: q) = some y)
    (hnd : (x :: s :: (sr.inorder ++ items (f :: q))).Nodup)
    (hS : ∀ z ∈ s :: (sr.inorder ++ items (f :: q)), S z) (hfuel : (f :: q).length < fuel) :
    let m₁ := m.setChild .left f.item.word (ptr (root sr))
    let m₂ := m₁.setChild .right s.word y.word
    let m₃ := m₂.rbSetParent y.word s.word
    let m₄ := m₃.setAug s.word (m₃.aug x.word)
    ∃ m', propagateLoop value fuel m₄ f.item.word s.word = some m' ∧
      m'.parentColor s.word = m.parentColor s.word ∧
      m'.child .right s.word = ptr (apex (root sr) (f :: q)) ∧ m'.aug s.word = m.aug x.word ∧
      Rep m' K.Is (some s) sr ∧ RepSeg m' K.Is (some s) (root sr) sr.inorder (f :: q) ∧
      Only (s :: items (f :: q)) m m' ∧ m'.rbNode = m.rbNode := by
  intro m₁ m₂ m₃ m₄
  simp only [List.nodup_append, List.nodup_cons, List.mem_append, List.mem_cons, not_or] at hnd
  obtain ⟨⟨hxs, hxsr, hxq⟩, ⟨hssr, hsq⟩, hndsr, hndq, hdisj⟩ := hnd
  have hfq : f.item ∈ items (f :: q) := by simp [items]
  have h₁ : Only [f.item] m m₁ := only_setChild (by simp) ..
  have hseg₁ : RepSeg m₁ K.Is par (root sr) (s :: sr.inorder) (f :: q) := by
    have h := RepSeg.setChild (root sr) hseg hndq
    rwa [hf] at h
  have h₂ : Only [s] m₁ m₂ := only_setChild (by simp) ..
  obtain ⟨y', hy, hapex', hseg₃, h₃⟩ := RepSeg.setParent (s := s)
    (hseg₁.only h₂ (List.disjoint_singleton.mpr hsq)) hndq
  obtain rfl : y' = y := Option.some.inj ((hapex' _).symm.trans hapex)
  have h₄ : Only [s] m₃ m₄ := only_setAug (by simp) _
  have honly : Only (s :: items (f :: q)) m m₄ := by
    refine ((h₁.mono ?_).trans (h₂.mono (by simp))).trans ((h₃.mono ?_).trans (h₄.mono (by simp)))
    · simp [hfq]
    · simp [hy]
  have hsr₄ : Rep m₄ K.Is (some s) sr := hsr.only honly fun z hz hw => by
    rcases List.mem_cons.mp hw with rfl | hw
    · exact hssr hz
    · exact hdisj z hz z hw rfl
  obtain ⟨g, hg, hseg', h₅⟩ := Summary.propagate_seg (some s) sr.inorder hfuel
    (hseg₃.only h₄ (List.disjoint_singleton.mpr hsq)) (Summary.augOf_root hsr₄)
    (fun z hz => hS z (by simp only [List.mem_append, List.mem_cons] at hz ⊢; tauto)) hndq
    fun z hz h => hsq (Option.some.inj h ▸ hz)
  have s₁ := h₁.same s fun h => hsq (List.mem_singleton.mp h ▸ hfq)
  have s₃ := h₃.same s fun h => hsq (List.mem_singleton.mp h ▸ hy)
  have s₅ := h₅.same s fun h => hsq (map_item_subset _ h)
  refine ⟨_, hg, ?_, ?_, ?_, hsr₄.only h₅ ?_, hseg', ?_, ?_⟩
  · exact s₃.parentColor.trans ((parentColor_setChild ..).trans s₁.parentColor)
  · rw [hapex']
    exact (s₃.child _).trans (child_setChild ..)
  · refine s₅.aug.trans ((aug_setAug ..).trans ?_)
    have x₁ := h₁.same x fun h => hxq (List.mem_singleton.mp h ▸ hfq)
    have x₂ := h₂.same x (by simpa using hxs)
    have x₃ := h₃.same x fun h => hxq (List.mem_singleton.mp h ▸ hy)
    exact x₃.aug.trans (x₂.aug.trans x₁.aug)
  · exact fun z hz hw => hdisj z hz z (map_item_subset _ hw) rfl
  · exact honly.trans (h₅.mono fun z hz => List.mem_cons_of_mem _ (map_item_subset _ hz))
  · exact (rbNode_setChild ..).trans (rbNode_setChild ..)

/-- Cases 2 and 3: what is found, and what is left of the subtree on the right. -/
theorem rbTakeSuccessor_rep [DecidableEq V] {c cr : Color} {x y : NodePtr} {l rl rr : RbTree NodePtr}
    {par : Option NodePtr} {fuel : ℕ}
    (h : Rep m K.Is par (.node c l x (.node cr rl y rr)))
    (hnd : (x :: (l.inorder ++ (RbTree.node cr rl y rr).inorder)).Nodup)
    (hS : ∀ z ∈ (RbTree.node cr rl y rr).inorder, S z) (hfuel : rl.height + 1 < fuel) :
    let u := minPath cr rl y rr []
    ∃ m' psr, rbTakeSuccessor (declareCallbacks value) fuel m x.word y.word =
        some (m', ptr (topOr (some u.2.2.1) u.1), u.2.2.1.word, ptr (root u.2.2.2)) ∧
      rbColorOf (m'.parentColor u.2.2.1.word) = colorWord u.2.1 ∧
      m'.child .right u.2.2.1.word = ptr (apex (root u.2.2.2) u.1) ∧
      m'.aug u.2.2.1.word = m.aug x.word ∧ Rep m' K.Is psr u.2.2.2 ∧
      RepSeg m' K.Is (some u.2.2.1) (root u.2.2.2) u.2.2.2.inorder u.1 ∧
      Only (u.2.2.1 :: items u.1) m m' ∧ m'.rbNode = m.rbNode := by
  intro u
  obtain ⟨hpcx, -, -, -, hrl, hrr⟩ := h
  rw [rbTakeSuccessor]
  cases rl with
  | nil =>
      obtain ⟨hpcy, hyl, hyr, -, -, hryr⟩ := hrr
      rw [child_left, root_nil, ptr_none] at hyl
      have hxy : x ≠ y := by
        simp only [List.nodup_cons, List.mem_append, RbTree.inorder_node] at hnd
        grind
      rw [if_pos hyl]
      refine ⟨m.setAug y.word (m.aug x.word), some y, ?_, ?_, hyr, aug_setAug .., ?_, trivial,
        only_setAug (by simp [u, minPath]) _, rfl⟩
      · rw [child_right] at hyr
        simp only [hyr]
        rfl
      · exact (congrArg rbColorOf hpcy).trans (rbColorOf_pcWord ..)
      · refine hryr.only (only_setAug (w := [y]) (by simp) _) fun z hz hw => ?_
        simp only [List.nodup_cons, List.nodup_append, RbTree.inorder_node] at hnd
        grind
  | node cl ll xl rl' =>
      obtain ⟨-, hyl, -, -, hrxl, -⟩ := id hrr
      rw [child_left, root_node, ptr_some] at hyl
      have hplug : plug (.node u.2.1 .nil u.2.2.1 u.2.2.2) u.1 = .node cr (.node cl ll xl rl') y rr :=
        RedBlack.plug_minPath ..
      have hperm := perm_plug (.node u.2.1 .nil u.2.2.1 u.2.2.2) u.1
      have hlen : u.1.length ≤ (RbTree.node cl ll xl rl').height + 0 := RedBlack.length_minPath ..
      have hleft : ∀ f ∈ u.1, f.side = .left := RedBlack.minPath_left (by simp)
      have hsucc : rbSuccessor m fuel y.word xl.word = some (ptr (top u.1), u.2.2.1.word) :=
        rbSuccessor_rep hrxl (by simp only [RbTree.height] at hfuel ⊢; omega)
      rw [← hplug] at hrr
      obtain ⟨⟨hpcs, -, hsr, -, -, hrsr⟩, hseg⟩ := rep_plug_seg.mp hrr
      rw [hplug] at hperm
      have hapex : apex (some u.2.2.1) u.1 = some y := by
        rw [← root_node u.2.1 .nil u.2.2.2, ← root_plug, hplug, root_node]
      rw [child_right] at hsr
      rw [if_neg (by rw [hyl]; exact xl.ne_zero), hyl, hsucc]
      simp only [hsr, Option.bind_eq_bind, Option.bind_some]
      obtain ⟨q, cm, s, sr⟩ := u
      simp only at *
      cases q with
      | nil => cases hplug
      | cons f q =>
          have hperm' : (x :: (l.inorder ++ (RbTree.node cr (.node cl ll xl rl') y rr).inorder)).Perm
              (x :: (l.inorder ++ (s :: (sr.inorder ++ items (f :: q))))) :=
            (hperm.symm.append_left _).cons _
          obtain ⟨m', hm', hpc, hch, haug, hrep, hseg', honly, hroot⟩ := rep_take (x := x)
            (hleft f (by simp)) hseg hrsr hapex
            (by
              have h := hperm'.nodup_iff.mp hnd
              simp only [List.nodup_cons, List.nodup_append, List.mem_append, List.mem_cons] at h ⊢
              tauto)
            (fun z hz => hS z (hperm.mem_iff.mp hz)) (show (f :: q).length < fuel by omega)
          refine ⟨m', some s, congrArg (fun o => Option.bind o _) hm', ?_, hch, haug, hrep, hseg',
            honly, hroot⟩
          rw [hpc, hpcs, rbColorOf_pcWord]

/-- A node with two children. -/
theorem rbEraseNode_two [DecidableEq V] {c cl cr : Color} {x y z : NodePtr}
    {ll lr rl rr : RbTree NodePtr} {p : Path NodePtr} {fuel : ℕ}
    (h : RepRoot m K.Is (plug (.node c (.node cl ll z lr) x (.node cr rl y rr)) p))
    (hnd : (x :: ((RbTree.node cl ll z lr).inorder ++ (RbTree.node cr rl y rr).inorder ++
      items p)).Nodup)
    (hS : ∀ w ∈ x :: ((RbTree.node cl ll z lr).inorder ++ (RbTree.node cr rl y rr).inorder ++ items p),
      S w) (hp : p.length + 1 < fuel) (hr : (RbTree.node cr rl y rr).height < fuel) :
    let u := unlink c (.node cl ll z lr) (.node cr rl y rr) p
    ∃ m', rbEraseNode (declareCallbacks value) fuel m x.word =
        some (m', if u.2.2 then ptr (top u.2.1) else 0#64) ∧
      RepRoot m' K.Is (plug u.1 u.2.1) ∧
      Only ((RbTree.node cl ll z lr).inorder ++ (RbTree.node cr rl y rr).inorder ++ items p) m m' := by
  obtain ⟨hrep, hpath⟩ := rep_plug_iff.mpr h
  obtain ⟨hpcx, hxl, hxr, hax, hrl, hrr⟩ := id hrep
  rw [child_left, root_node, ptr_some] at hxl
  rw [child_right, root_node, ptr_some] at hxr
  intro u
  have hu : u = ((minPath cr rl y rr []).2.2.2.paint .black, (minPath cr rl y rr []).1 ++
      ⟨.right, c, (minPath cr rl y rr []).2.2.1, .node cl ll z lr⟩ :: p,
      short (minPath cr rl y rr []).2.1 (minPath cr rl y rr []).2.2.2) := rfl
  have hplug : plug (.node (minPath cr rl y rr []).2.1 .nil (minPath cr rl y rr []).2.2.1
      (minPath cr rl y rr []).2.2.2) (minPath cr rl y rr []).1 = .node cr rl y rr :=
    RedBlack.plug_minPath ..
  have hperm := perm_plug (.node (minPath cr rl y rr []).2.1 .nil (minPath cr rl y rr []).2.2.1
    (minPath cr rl y rr []).2.2.2) (minPath cr rl y rr []).1
  obtain ⟨m₁, psr, hm₁, hpcs, hsr, haug, hrsr, hseg, honly, hroot⟩ := rbTakeSuccessor_rep hrep
    (by
      rw [List.append_assoc] at hnd
      simp only [List.nodup_cons, List.nodup_append, List.mem_append, not_or] at hnd ⊢
      tauto)
    (fun w hw => hS w (by simp only [List.mem_cons, List.mem_append]; tauto))
    (show rl.height + 1 < fuel by simp only [RbTree.height] at hr; omega)
  rw [hplug] at hperm
  rw [hu, rbEraseNode]
  clear hu u
  generalize minPath cr rl y rr [] = v at *
  obtain ⟨q, cm, s, sr⟩ := v
  replace hperm : (s :: (sr.inorder ++ items q)).Perm (RbTree.node cr rl y rr).inorder := hperm
  simp only at hplug hm₁ hpcs hsr haug hrsr hseg honly ⊢
  have hin : ∀ w, w ∈ (RbTree.node cr rl y rr).inorder ↔ w = s ∨ w ∈ sr.inorder ∨ w ∈ items q := by
    intro w
    rw [← hperm.mem_iff, List.mem_cons, List.mem_append]
  have hperm' : (x :: ((RbTree.node cl ll z lr).inorder ++ (RbTree.node cr rl y rr).inorder ++
      items p)).Perm (x :: s :: ((RbTree.node cl ll z lr).inorder ++ sr.inorder ++ items q ++
        items p)) := by
    rw [List.perm_iff_count]
    intro w
    have hw := List.perm_iff_count.mp hperm w
    simp only [List.count_cons, List.count_append, RbTree.inorder_node] at hw ⊢
    omega
  have hnd₂ := hperm'.nodup_iff.mp hnd
  have hnd' := hnd₂
  simp only [List.nodup_append, List.nodup_cons, List.mem_append, List.mem_cons, not_or] at hnd'
  have sx := honly.same x (by simp only [List.mem_cons]; tauto)
  have hS' : ∀ w ∈ x :: s :: ((RbTree.node cl ll z lr).inorder ++ sr.inorder ++ items q ++ items p),
      S w := fun w hw => hS w (hperm'.mem_iff.mpr hw)
  obtain ⟨hreb, m', hm', hrep', honly'⟩ := rep_successor (root_node cl ll lr z) hpcs hsr
    (show K.Is _ (m₁.aug s.word) by
      rw [haug]
      exact hax) hrsr hseg (sx.parentColor.trans hpcx) ((sx.child .left).trans hxl)
    (hrl.only honly fun w hw hww => by grind)
    (hpath.only honly hroot fun w hw hww => by grind) hnd₂ (by simp)
    (fun w hw => hS w (by
      rw [RbTree.inorder_node c, List.mem_append, List.mem_cons] at hw
      simp only [List.mem_cons, List.mem_append]
      tauto)) (fun w hw => hS' w (List.mem_cons_of_mem _ hw)) hp
  refine ⟨m', ?_, hrep', (honly.mono ?_).trans (honly'.mono ?_)⟩
  · rw [← hreb]
    simp only [hxl, hxr, hm₁]
    rw [if_neg z.ne_zero, if_neg y.ne_zero]
    exact congrArg (fun o => Option.bind o _) hm'
  · intro w hw
    simp only [List.mem_append, hin]
    simp only [List.mem_cons] at hw
    tauto
  · intro w hw
    simp only [List.mem_append, hin]
    simp only [List.mem_cons, List.mem_append] at hw
    tauto

/-- **`__rb_erase_augmented`.** -/
theorem rbEraseNode_rep [DecidableEq V] {c : Color} {x : NodePtr} {l r : RbTree NodePtr}
    {p : Path NodePtr} {fuel : ℕ} (h : RepRoot m K.Is (plug (.node c l x r) p))
    (hnd : ((RbTree.node c l x r).inorder ++ items p).Nodup)
    (hS : ∀ z ∈ (RbTree.node c l x r).inorder ++ items p, S z) (hp : p.length + 1 < fuel)
    (hr : r.height < fuel) :
    let u := unlink c l r p
    ∃ m', rbEraseNode (declareCallbacks value) fuel m x.word =
        some (m', if u.2.2 then ptr (top u.2.1) else 0#64) ∧
      RepRoot m' K.Is (plug u.1 u.2.1) ∧ Only (l.inorder ++ r.inorder ++ items p) m m' := by
  have hperm : ((RbTree.node c l x r).inorder ++ items p).Perm
      (x :: (l.inorder ++ r.inorder ++ items p)) := by
    rw [List.perm_iff_count, RbTree.inorder_node]
    intro z
    simp only [List.count_append, List.count_cons]
    omega
  have hnd' := hperm.nodup_iff.mp hnd
  have hS' := fun z hz => hS z (hperm.mem_iff.mpr hz)
  match l, r with
  | .nil, r =>
      obtain ⟨m', hm', hrep, honly⟩ := rbEraseNode_left h (by simpa using hnd')
        (by simpa using hS') (show p.length < fuel by omega)
      exact ⟨m', hm', hrep, by simpa using honly⟩
  | .node cl ll xl rl, .nil =>
      obtain ⟨m', hm', hrep, honly⟩ := rbEraseNode_right (by simp) h
        (by simpa using hnd') (by simpa using hS') (show p.length < fuel by omega)
      exact ⟨m', hm', hrep, by simpa using honly⟩
  | .node cl ll z lr, .node cr rl y rr => exact rbEraseNode_two h hnd' hS' hp hr

/-! ## The calls -/

/-- **`rb_erase_augmented`.** -/
theorem rbEraseAugmented_rep [DecidableEq V] {c : Color} {x : NodePtr} {l r : RbTree NodePtr}
    {p : Path NodePtr} {fuel : ℕ} (h : RepRoot m K.Is (plug (.node c l x r) p))
    (hrooted : RedBlack.Rooted (plug (.node c l x r) p))
    (hnd : ((RbTree.node c l x r).inorder ++ items p).Nodup)
    (hS : ∀ z ∈ (RbTree.node c l x r).inorder ++ items p, S z)
    (hfuel : (plug (.node c l x r) p).height < fuel) :
    ∃ m', rbEraseAugmented (declareCallbacks value) fuel m x.word = some m' ∧
      RepRoot m' K.Is (RedBlack.erase c l r p) ∧
      Only ((RbTree.node c l x r).inorder ++ items p) m m' := by
  have hheight := RedBlack.height_plug (.node c l x r) p
  rw [RbTree.height] at hheight
  obtain ⟨m₁, hm₁, hrep, honly⟩ := rbEraseNode_rep h hnd hS
    (show p.length + 1 < fuel by omega) (by omega)
  obtain ⟨k, hbal, hblack, hfits⟩ := RedBlack.left_unlink hrooted
  have hperm : ((unlink c l r p).1.inorder ++ items (unlink c l r p).2.1).Perm
      (l.inorder ++ r.inorder ++ items p) := by
    have hin := RedBlack.inorder_unlink c l r p
    have hplug := perm_plug (.node c l x r) p
    rw [RedBlack.inorder_plug] at hplug
    refine (perm_plug _ _).trans (hin ▸ ?_)
    rw [List.perm_iff_count] at hplug ⊢
    intro z
    have := hplug z
    simp only [List.count_append, List.count_cons, RbTree.inorder_node] at this ⊢
    omega
  have hsub : l.inorder ++ r.inorder ++ items p ⊆ (RbTree.node c l x r).inorder ++ items p := by
    intro z hz
    simp only [List.mem_append, List.mem_cons, RbTree.inorder_node] at hz ⊢
    tauto
  rw [rbEraseAugmented, hm₁, RedBlack.erase]
  cases hu : (unlink c l r p).2.2 with
  | false =>
      rw [if_neg (by simp)]
      exact ⟨m₁, rfl, hrep, honly.mono hsub⟩
  | true =>
      rw [hu, if_pos rfl] at hfits
      rw [if_pos rfl, if_pos rfl]
      cases hpath : (unlink c l r p).2.1 with
      | nil =>
          rw [hpath] at hrep
          exact ⟨m₁, rfl, hrep, honly.mono hsub⟩
      | cons f q =>
          have hlen := RedBlack.length_unlink c l r x p
          rw [hpath] at hperm hfits hlen
          obtain ⟨hrt, hpt⟩ := rep_plug_iff.mpr hrep
          rw [hpath] at hrt hpt
          have hnil := RedBlack.unlink_short hu
          have hnd' : (l.inorder ++ r.inorder ++ items p).Nodup := by
            simp only [List.nodup_append, List.nodup_cons, List.mem_append, List.mem_cons,
              RbTree.inorder_node] at hnd ⊢
            grind
          obtain ⟨m', hm', hrep', honly'⟩ := rbEraseColorLoop_rep K.rotateLaw
            (show List.length _ ≤ fuel by rw [RbTree.height] at hlen; omega) (by simp) hbal hfits hrt hpt
            (hperm.nodup_iff.mpr hnd') fun z hz => hS z (hsub (hperm.mem_iff.mp hz))
          refine ⟨m', ?_, hrep', (honly.mono hsub).trans
            (honly'.mono fun z hz => hsub (hperm.mem_iff.mp hz))⟩
          rw [hnil] at hm'
          exact (if_pos (by simp [f.item.ne_zero])).trans hm'

/-- `rb_leftmost` moves on before its node goes. -/
theorem rbMoveLeftmost_rep {A : List NodePtr → V → Prop} {c : Color} {x : NodePtr}
    {l r : RbTree NodePtr} {p : Path NodePtr} {fuel : ℕ} (h : RepRoot m A (plug (.node c l x r) p))
    (hleft : m.rbLeftmost = ptr (plug (.node c l x r) p).inorder.head?)
    (hnd : (plug (.node c l x r) p).inorder.Nodup) (hfuel : (plug (.node c l x r) p).height < fuel) :
    rbMoveLeftmost fuel m x.word = some { m with
      rbLeftmost := ptr (RedBlack.before p ++ (l.inorder ++ r.inorder) ++
        RedBlack.after p).head? } := by
  obtain ⟨hrep, hpath⟩ := rep_plug_iff.mpr h
  have hnd' := (perm_plug (.node c l x r) p).nodup_iff.mpr hnd
  have hheight := RedBlack.height_plug (.node c l x r) p
  rw [RbTree.height] at hheight
  rw [RedBlack.inorder_plug] at hleft hnd
  rw [rbMoveLeftmost, hleft]
  have hin : RedBlack.before p ++ (RbTree.node c l x r).inorder ++ RedBlack.after p =
      (RedBlack.before p ++ l.inorder) ++ x :: (r.inorder ++ RedBlack.after p) := by
    rw [RbTree.inorder_node]
    simp
  have hout : RedBlack.before p ++ (l.inorder ++ r.inorder) ++ RedBlack.after p =
      (RedBlack.before p ++ l.inorder) ++ (r.inorder ++ RedBlack.after p) := by
    simp
  rw [hin] at hleft hnd ⊢
  rw [hout]
  cases hb : RedBlack.before p ++ l.inorder with
  | nil =>
      have hnext := rbNext_rep hrep hpath hnd' (show r.height ≤ fuel by omega) (by omega)
      rw [if_pos (by simp), hnext]
      rfl
  | cons y ys =>
      have hyx : y ≠ x := by
        rw [hb] at hnd
        simp only [List.cons_append, List.nodup_cons, List.mem_append, List.mem_cons] at hnd
        tauto
      rw [if_neg (by simpa using hyx)]
      rw [hb] at hleft
      simp only [List.cons_append, List.head?_cons] at hleft ⊢
      rw [← hleft]

end Skyloft
