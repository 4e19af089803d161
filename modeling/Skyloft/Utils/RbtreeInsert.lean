import Skyloft.Utils.RbtreeAugment

/-!
# Adding a node

The loop of `__rb_insert` climbs the path that the node was linked at the end of and makes of the
tree in memory what `RedBlack.insertFix` makes of the tree.

* `rbInsertLoop_rep` — the loop.
* `RbHolds` — what a tree in memory is.
* `rbAddAugmentedCached_holds` — the call.
-/

namespace Skyloft

open RedBlack (Side Color RbTree Crumb Path plug insertFix Balanced Fits)
open RbMem RbTree

variable {V : Type} {m : RbMem V} {A : List NodePtr → V → Prop} {S : NodePtr → Prop}
  {rotate : RbMem V → BitVec 64 → BitVec 64 → RbMem V}

/-- Case 1: the uncle is red, and the colours of the two generations are exchanged. -/
theorem rep_recolor {f g : Crumb NodePtr} {path : Path NodePtr} {t : RbTree NodePtr}
    {u : NodePtr} (hu : root g.sibling = some u)
    (hrep : Rep m A (some f.item) t) (hpath : RepPath m A (root t) t.inorder (f :: g :: path))
    (hnd : (t.inorder ++ items (f :: g :: path)).Nodup) :
    let m₁ := m.rbSetParentColor u.word g.item.word rbBlack
    let m₂ := m₁.rbSetParentColor f.item.word g.item.word rbBlack
    let m₃ := m₂.rbSetParentColor g.item.word (ptr (top path)) rbRed
    let t' := RbTree.mk g.side .red (.mk f.side .black t f.item f.sibling) g.item
      (g.sibling.paint .black)
    Rep m₃ A (top path) t' ∧ RepPath m₃ A (some g.item) t'.inorder path ∧
      Only [u, f.item, g.item] m m₃ := by
  obtain ⟨hpcf, hft, hfs, hfa, hrs, hpcg, hgf, hgs, hga, hrg, hpath⟩ := hpath
  intro m₁ m₂ m₃ t'
  have honly : Only [u, f.item, g.item] m m₃ :=
    ((only_setPc (by simp) _).trans (only_setPc (by simp) _)).trans (only_setPc (by simp) _)
  have hug : u ∈ g.sibling.inorder := mem_of_root hu
  simp only [items, List.cons_append, List.nodup_append, List.nodup_cons, List.mem_append,
    List.mem_cons, not_or] at hnd
  have huf : u ≠ f.item := by grind
  have hugi : u ≠ g.item := by grind
  have hfg : f.item ≠ g.item := by grind
  have hpcu : m₃.parentColor u.word = pcWord (some g.item) .black := by
    rw [rbSetParentColor_ne hugi, rbSetParentColor_ne huf]
    exact parentColor_setPc ..
  have hpcf' : m₃.parentColor f.item.word = pcWord (some g.item) .black := by
    rw [rbSetParentColor_ne hfg]
    exact parentColor_setPc ..
  refine ⟨rep_mk.mpr ⟨parentColor_setPc .., hgf, ?_, ?_, rep_mk.mpr ⟨hpcf', hft, hfs, hfa, ?_, ?_⟩,
    ?_⟩, ?_, honly⟩
  · rw [root_paint]
    exact hgs
  · rw [RbTree.inorder_mk, RbTree.inorder_paint]
    exact hga
  · refine hrep.only honly fun z hz hw => ?_
    grind
  · refine hrs.only honly fun z hz hw => ?_
    grind
  · refine hrg.repaint honly (fun z hz hw => ?_) hnd.2.1.2.2.1.2.1 fun z hz => ?_
    · grind
    · cases hu.symm.trans hz
      exact ⟨hpcu, fun _ => rfl, rfl⟩
  · rw [RbTree.inorder_mk, RbTree.inorder_mk, RbTree.inorder_paint]
    refine hpath.only honly rfl fun z hz hw => ?_
    grind

/-- Case 3: a rotation at the grandparent. -/
theorem rep_outer (hrot : RotateLaw rotate A S) {f g : Crumb NodePtr} {path : Path NodePtr}
    {t : RbTree NodePtr} (hside : f.side = g.side) (hg : g.color = .black)
    (hblack : f.sibling.isRed = false)
    (hrep : Rep m A (some f.item) t) (hpath : RepPath m A (root t) t.inorder (f :: g :: path))
    (hnd : (t.inorder ++ items (f :: g :: path)).Nodup)
    (hS : ∀ z ∈ t.inorder ++ items (f :: g :: path), S z) :
    let m₁ := m.setChild g.side g.item.word (ptr (root f.sibling))
    let m₂ := m₁.setChild g.side.other f.item.word g.item.word
    let m₃ := m₂.rbSetParentColorIf (ptr (root f.sibling)) g.item.word rbBlack
    let m₄ := rotate (m₃.rbRotateSetParents g.item.word f.item.word rbRed) g.item.word f.item.word
    let t' := RbTree.mk g.side .black t f.item (.mk g.side .red f.sibling g.item g.sibling)
    Rep m₄ A (top path) t' ∧ RepPath m₄ A (some f.item) t'.inorder path ∧
      Only (t.inorder ++ items (f :: g :: path)) m m₄ := by
  obtain ⟨hpcf, hft, hfs, hfa, hrs, hpcg, hgf, hgs, hga, hrg, hpath⟩ := hpath
  rw [hside] at hft hfs hga hpath
  rw [hg] at hpcg
  simp only [items, List.cons_append, List.nodup_append, List.nodup_cons, List.mem_append,
    List.mem_cons, not_or] at hnd
  intro m₁ m₂ m₃ m₄ t'
  have honly₂ : Only [g.item, f.item] m m₂ :=
    (only_setChild (by simp) ..).trans (only_setChild (by simp) ..)
  have hrs₂ : Rep m₂ A (some f.item) f.sibling := hrs.only honly₂ fun z hz hw => by grind
  obtain ⟨hb, h₃, hroot⟩ := hrs₂.setParentColorIf hblack hnd.2.1.2.1 g.item
  obtain ⟨h₁, h₂, h₄⟩ := rep_turn hrot .red hpcg hft hgs hrep hrg hga hpath
    (by simp only [List.nodup_append, List.nodup_cons, List.mem_append, List.mem_cons]; grind)
    (fun z hz => hS z (by cases hd : g.side <;> simp [Side.glue, hd, items] at hz ⊢ <;> tauto)) hb h₃
    (hroot.trans ((rbNode_setChild ..).trans (rbNode_setChild ..)))
  refine ⟨h₁, ?_, h₄.mono ?_⟩
  · rw [RbTree.inorder_mk, RbTree.inorder_mk, ← glue_glue]
    exact h₂
  · intro z hz
    have hroot := root_subset f.sibling
    have htop := top_subset path
    simp only [items, List.cons_append, List.mem_append, List.mem_cons] at hz ⊢
    rcases hz with rfl | rfl | hz | hz
    · simp
    · simp
    · simp [hroot hz]
    · simp [htop hz]

/-- Case 2: a rotation at the parent `x`.  The pointer of the grandparent and the parent of `n` are
as they were. -/
theorem rep_case2 (hrot : RotateLaw rotate A S) {d : Side} {x n : NodePtr}
    {sib near : RbTree NodePtr} (far : RbTree NodePtr) (hnear : near.isRed = false)
    (hxs : m.child d x.word = ptr (root sib)) (hsib : Rep m A (some x) sib)
    (hrep : Rep m A (some x) (.mk d .red near n far))
    (hnd : (x :: n :: (sib.inorder ++ near.inorder ++ far.inorder)).Nodup)
    (hS : ∀ z ∈ d.glue sib.inorder x near.inorder, S z) :
    let m₁ := m.setChild d.other x.word (ptr (root near))
    let m₂ := m₁.setChild d n.word x.word
    let m₃ := m₂.rbSetParentColorIf (ptr (root near)) x.word rbBlack
    let m₄ := m₃.rbSetParentColor x.word n.word rbRed
    let m₅ := rotate m₄ x.word n.word
    m₅.child d n.word = x.word ∧ m₅.child d.other n.word = ptr (root far) ∧
      Rep m₅ A (some n) (.mk d .red sib x near) ∧ Rep m₅ A (some n) far ∧
      Only (x :: n :: (root near).toList) m m₅ ∧ m₅.rbNode = m.rbNode := by
  obtain ⟨hpcn, hnn, hnf, hna, hrn, hrf⟩ := rep_mk.mp hrep
  have hnd' := hnd
  simp only [List.nodup_append, List.nodup_cons, List.mem_append, List.mem_cons, not_or] at hnd'
  have hxn : x ≠ n := by grind
  have hroot := root_subset near
  have hxr : x ∉ (root near).toList := fun h => by grind
  have hnr : n ∉ (root near).toList := fun h => by grind
  intro m₁ m₂ m₃ m₄ m₅
  have honly₂ : Only [x, n] m m₂ :=
    (only_setChild (by simp) ..).trans (only_setChild (by simp) ..)
  have hrn₂ : Rep m₂ A (some n) near := hrn.only honly₂ fun z hz hw => by grind
  obtain ⟨hb, h₃, hroot₃⟩ := hrn₂.setParentColorIf hnear (by grind) x
  have h₄ : Only [x] m₃ m₄ := only_setPc (by simp) _
  have honly₄ : Only (x :: n :: (root near).toList) m m₄ :=
    ((honly₂.mono (by simp)).trans (h₃.mono (by simp))).trans (h₄.mono (by simp))
  have hxd : m₄.child d x.word = ptr (root sib) := by
    refine ((h₃.same _ hxr).child d).trans ?_
    rw [child_setChild_ne hxn, child_other_setChild, hxs]
  have hxo : m₄.child d.other x.word = ptr (root near) := by
    refine ((h₃.same _ hxr).child _).trans ?_
    rw [child_setChild_ne hxn, child_setChild]
  have hsib₄ : Rep m₄ A (some x) sib := hsib.only honly₄ fun z hz hw => by grind
  have hrn₄ : Rep m₄ A (some x) near := hb.only h₄ fun z hz hw => by grind
  -- the callback
  obtain ⟨hpc₅, hch₅, hroot₅, haug₅, hsib₅, hrn₅, h₅⟩ := rep_rotate_kids hrot (y := n) hxd hxo hsib₄
    hrn₄ (by simp only [List.nodup_append, List.nodup_cons, List.mem_append, List.mem_cons]; grind) hS
  have honly₅ : Only (x :: n :: (root near).toList) m m₅ := honly₄.trans (h₅.mono (by simp))
  refine ⟨?_, ?_, rep_mk.mpr ⟨?_, (hch₅ _ _).trans hxd, (hch₅ _ _).trans hxo, haug₅, hsib₅, hrn₅⟩, ?_,
    honly₅, hroot₅.trans (hroot₃.trans ((rbNode_setChild ..).trans (rbNode_setChild ..)))⟩
  · refine (hch₅ _ _).trans (((h₃.same n hnr).child d).trans ?_)
    exact child_setChild ..
  · refine (hch₅ _ _).trans (((h₃.same n hnr).child _).trans ?_)
    rw [child_setChild_other, child_setChild_ne (Ne.symm hxn), hnf]
  · rw [hpc₅]
    exact parentColor_setPc ..
  · exact hrf.only honly₅ fun z hz hw => by grind

/-- Case 2 and then case 3: rotations at the parent and at the grandparent. -/
theorem rep_inner (hrot : RotateLaw rotate A S) {f g : Crumb NodePtr} {path : Path NodePtr}
    {near far : RbTree NodePtr} {n : NodePtr} (hside : f.side = g.side.other)
    (hg : g.color = .black) (hnear : near.isRed = false) (hfar : far.isRed = false)
    (hrep : Rep m A (some f.item) (.mk g.side .red near n far))
    (hpath : RepPath m A (some n) (g.side.glue near.inorder n far.inorder) (f :: g :: path))
    (hnd : (n :: (near.inorder ++ far.inorder ++ items (f :: g :: path))).Nodup)
    (hS : ∀ z ∈ n :: (near.inorder ++ far.inorder ++ items (f :: g :: path)), S z) :
    let d := g.side
    let m₁ := m.setChild d.other f.item.word (ptr (root near))
    let m₂ := m₁.setChild d n.word f.item.word
    let m₃ := m₂.rbSetParentColorIf (ptr (root near)) f.item.word rbBlack
    let m₄ := m₃.rbSetParentColor f.item.word n.word rbRed
    let m₅ := rotate m₄ f.item.word n.word
    let m₆ := m₅.setChild d g.item.word (ptr (root far))
    let m₇ := m₆.setChild d.other n.word g.item.word
    let m₈ := m₇.rbSetParentColorIf (ptr (root far)) g.item.word rbBlack
    let m₉ := rotate (m₈.rbRotateSetParents g.item.word n.word rbRed) g.item.word n.word
    let t' := RbTree.mk d .black (.mk d .red f.sibling f.item near) n (.mk d .red far g.item g.sibling)
    m₅.child d.other n.word = ptr (root far) ∧
      Rep m₉ A (top path) t' ∧ RepPath m₉ A (some n) t'.inorder path ∧
      Only (n :: (near.inorder ++ far.inorder ++ items (f :: g :: path))) m m₉ := by
  obtain ⟨hpcf, hft, hfs, hfa, hrs, hpcg, hgf, hgs, hga, hrg, hpath⟩ := hpath
  rw [hside, Side.other_other] at hfs
  rw [hg] at hpcg
  simp only [items, List.cons_append, List.nodup_append, List.nodup_cons, List.mem_append,
    List.mem_cons, not_or] at hnd
  intro d m₁ m₂ m₃ m₄ m₅ m₆ m₇ m₈ m₉ t'
  obtain ⟨hnf, hnfar, ha, hfar₅, h₅, hroot₅⟩ := rep_case2 hrot far hnear hfs hrs hrep
    (by simp only [List.nodup_append, List.nodup_cons, List.mem_append, List.mem_cons]; grind)
    (fun z hz => hS z (by cases hd : g.side <;> simp [Side.glue, hd, items] at hz ⊢ <;> tauto))
  have hnroot := root_subset near
  have hg₅ := h₅.same g.item fun h => by grind
  have honly₇ : Only [g.item, n] m₅ m₇ :=
    (only_setChild (by simp) ..).trans (only_setChild (by simp) ..)
  have hfar₇ : Rep m₇ A (some n) far := hfar₅.only honly₇ fun z hz hw => by grind
  obtain ⟨hb, h₈, hroot₈⟩ := hfar₇.setParentColorIf hfar (by grind) g.item
  obtain ⟨h₁, h₂, h₃⟩ := rep_turn hrot .red (d := d) (hg₅.parentColor.trans hpcg) hnf
    ((hg₅.child _).trans hgs) ha (hrg.only h₅ fun z hz hw => by grind)
    (by
      rw [hg₅.aug, RbTree.inorder_mk]
      rw [hside] at hga
      cases hd : g.side <;> simp only [d, hd, Side.glue, Side.other] at hga ⊢ <;> simpa using hga)
    (hpath.only h₅ hroot₅ fun z hz hw => by grind)
    (by
      cases hd : d <;> simp only [Side.glue, List.nodup_append, List.nodup_cons,
        List.mem_append, List.mem_cons, RbTree.inorder_mk] <;> grind)
    (fun z hz => hS z (by cases hd : g.side <;> simp [Side.glue, d, hd, items] at hz ⊢ <;> tauto)) hb h₈
    (hroot₈.trans ((rbNode_setChild ..).trans (rbNode_setChild ..)))
  refine ⟨hnfar, h₁, ?_, (h₅.mono fun z hz => ?_).trans (h₃.mono fun z hz => ?_)⟩
  · rw [hside] at h₂
    have hin : t'.inorder = g.side.glue (g.side.other.glue (g.side.glue near.inorder n far.inorder)
        f.item f.sibling.inorder) g.item g.sibling.inorder := by
      cases hd : g.side <;> simp [t', d, hd, Side.glue, Side.other]
    rw [hin]
    exact h₂
  · simp only [items, List.cons_append, List.mem_append, List.mem_cons] at hz ⊢
    rcases hz with rfl | rfl | hz
    · simp
    · simp
    · simp [hnroot hz]
  · have hfroot := root_subset far
    have htop := top_subset path
    simp only [items, List.cons_append, List.mem_append, List.mem_cons] at hz ⊢
    rcases hz with rfl | rfl | hz | hz
    · simp
    · simp
    · simp [hfroot hz]
    · simp [htop hz]

/-- The memory holds the tree, root pointer included. -/
def RepRoot (m : RbMem V) (A : List NodePtr → V → Prop) (t : RbTree NodePtr) : Prop :=
  Rep m A none t ∧ m.rbNode = ptr (root t)

/-- **The loop of `__rb_insert`.** -/
theorem rbInsertLoop_rep (hrot : RotateLaw rotate A S) {fuel : ℕ} :
    ∀ {path : Path NodePtr} {t : RbTree NodePtr} {n : ℕ} {m : RbMem V}, path.length < fuel →
      Balanced t n → t.isRed = true → Fits path n →
      Rep m A (top path) t → RepPath m A (root t) t.inorder path →
      (t.inorder ++ items path).Nodup → (∀ z ∈ t.inorder ++ items path, S z) →
      ∃ m', rbInsertLoop rotate fuel m (ptr (root t)) (ptr (top path)) = some m' ∧
        RepRoot m' A (insertFix t path) ∧ Only (t.inorder ++ items path) m m' := by
  induction fuel with
  | zero => intro path t n m hfuel; omega
  | succ fuel ih =>
      intro path t n m hfuel ht hred hfits hrep hpath hnd hS
      obtain ⟨l, x, r, rfl⟩ : ∃ l x r, t = .node .red l x r := by
        rcases t with _ | ⟨_ | _, l, x, r⟩
        · cases hred
        · exact ⟨l, x, r, rfl⟩
        · cases hred
      rw [rbInsertLoop]
      cases path with
      | nil =>
          rw [if_pos (show ptr (top []) = 0#64 from rfl)]
          have honly : Only [x] m (m.rbSetParentColor x.word 0#64 rbBlack) :=
            only_setPc (by simp) _
          refine ⟨_, rfl, ⟨?_, hpath⟩, honly.mono (by simp)⟩
          refine hrep.repaint honly (fun z _ hz => ?_) (by simpa [items] using hnd) fun z hz => ?_
          · rw [List.mem_singleton.mp hz, root_node]
          · cases hz
            exact ⟨parentColor_setPc .., fun _ => rfl, rfl⟩
      | cons f path =>
          have hpcf := hpath.1
          rw [top_cons, ptr_some, if_neg f.item.ne_zero]
          have hblack : m.rbIsBlack f.item.word = decide (f.color = .black) := by
            rw [RbMem.rbIsBlack, hpcf, rbColorOf_pcWord]
            cases f.color <;> rfl
          cases hf : f.color with
          | black =>
              rw [if_pos (by rw [hblack, hf]; rfl)]
              refine ⟨m, rfl, ?_, Only.refl m⟩
              rw [RedBlack.insertFix_black hf]
              exact rep_plug_iff.mp ⟨hrep, hpath⟩
          | red =>
              rw [if_neg (by rw [hblack, hf]; simp)]
              cases path with
              | nil => cases (hfits.2.1 hf).2
              | cons g path =>
                  have hnd' := hnd
                  simp only [items, List.cons_append, List.nodup_append, List.nodup_cons,
                    List.mem_append, List.mem_cons, not_or] at hnd'
                  obtain ⟨hfs, hfr, hgs, hgr, hp⟩ := hfits
                  have hg : g.color = .black := of_decide_eq_true (hfr hf).2
                  obtain ⟨-, hft, hfsib, -, -, hpcg, hgf, hgsib, -, hrg, -⟩ := id hpath
                  have hgp : m.rbRedParent f.item.word = g.item.word := by
                    rw [rbRedParent, hpcf, hf, pcWord_red, top_cons, ptr_some]
                  have hside : (if f.item.word ≠ m.right g.item.word then Side.left else .right) =
                      g.side := side_of_child hgf (by
                    rw [hgsib]
                    intro heq
                    have := mem_of_root (ptr_inj.mp (heq.trans (ptr_some f.item).symm))
                    grind)
                  simp only [hgp, hside, hgsib]
                  by_cases hu : g.sibling.isRed = true
                  · rw [if_pos (hrg.isRed_iff.mpr hu)]
                    obtain ⟨u, hroot⟩ : ∃ u, root g.sibling = some u := by
                      cases hs : g.sibling with
                      | nil => simp [hs] at hu
                      | node c a y b => exact ⟨y, rfl⟩
                    have hug := mem_of_root hroot
                    obtain ⟨hrep', hpath', honly⟩ := rep_recolor hroot hrep hpath hnd
                    have hparent : ((m.rbSetParentColor u.word g.item.word rbBlack).rbSetParentColor
                        f.item.word g.item.word rbBlack).rbParent g.item.word = ptr (top path) := by
                      rw [rbParent, rbSetParentColor_ne (by grind), rbSetParentColor_ne (by grind),
                        hpcg, rbParentOf_pcWord]
                    simp only [hroot, ptr_some, hparent]
                    have hperm : ((RbTree.mk g.side .red (.mk f.side .black (.node .red l x r) f.item
                        f.sibling) g.item (g.sibling.paint .black)).inorder ++ items path).Perm
                        ((RbTree.node .red l x r).inorder ++ items (f :: g :: path)) := by
                      have h := perm_climb (.mk f.side .black (.node .red l x r) f.item f.sibling) g
                        path
                      rw [RbTree.inorder_mk f.side] at h
                      rw [RbTree.inorder_mk g.side, RbTree.inorder_mk f.side, RbTree.inorder_paint]
                      exact h.trans (perm_climb _ f (g :: path))
                    rw [hg] at hp
                    obtain ⟨m', hm', hrep'', honly'⟩ := ih (by simp at hfuel; omega)
                      (RedBlack.balanced_mk_red.mpr ⟨⟨RedBlack.balanced_mk_black.mpr
                        ⟨n, rfl, ht, hfs⟩, (by simpa [hf, hg, Color.weigh] using hgs.paint_black hu)⟩,
                        RbTree.isRed_mk .., RbTree.isRed_paint_black _⟩) (RbTree.isRed_mk ..)
                      (by simpa [hf, Color.weigh] using hp) hrep' hpath'
                      (hperm.nodup_iff.mpr hnd) (fun z hz => hS z (hperm.mem_iff.mp hz))
                    refine ⟨m', hm', ?_, ?_⟩
                    · rw [RedBlack.insertFix_uncle hf hu]
                      exact hrep''
                    · exact (honly.mono fun z hz => by
                        simp only [List.mem_cons, List.not_mem_nil, or_false] at hz
                        simp only [items, List.cons_append, List.mem_append, List.mem_cons]
                        grind).trans (honly'.mono fun z hz => hperm.mem_iff.mp hz)
                  · rw [if_neg fun h => hu (hrg.isRed_iff.mp h)]
                    have hu : g.sibling.isRed = false := by simpa using hu
                    by_cases hfg : f.side = g.side
                    · obtain ⟨h₁, h₂, h₃⟩ := rep_outer hrot hfg hg (hfr hf).1 hrep hpath hnd hS
                      rw [hfg] at hfsib
                      rw [if_neg (by
                        rw [hfsib]
                        intro heq
                        have := mem_of_root (ptr_inj.mp heq).symm
                        have := hnd'.2.2 x (by simp)
                        grind), hfsib]
                      refine ⟨_, rfl, ?_, h₃⟩
                      rw [RedBlack.insertFix_outer hf hu hfg]
                      exact rep_plug_iff.mp ⟨h₁, h₂⟩
                    · have hfg := Side.eq_other_of_ne hfg
                      rw [← RbTree.mk_pick g.side .red l r x] at hrep
                      have hin : (RbTree.node .red l x r).inorder =
                          g.side.glue (g.side.pick l r).inorder x (g.side.other.pick l r).inorder := by
                        cases g.side <;> rfl
                      have hperm : ((RbTree.node .red l x r).inorder ++ items (f :: g :: path)).Perm
                          (x :: ((g.side.pick l r).inorder ++ (g.side.other.pick l r).inorder ++
                            items (f :: g :: path))) := by
                        rw [List.perm_iff_count]
                        intro z
                        rw [hin]
                        simp only [Side.count_glue, List.count_append, List.count_cons]
                        omega
                      have hkids : ∀ d : Side, (d.pick l r).isRed = false := fun d => by
                        cases d
                        · exact ht.2.1
                        · exact ht.2.2
                      rw [hin] at hpath
                      obtain ⟨hfar, h₁, h₂, h₃⟩ := rep_inner hrot hfg hg (hkids _) (hkids _) hrep hpath
                        (hperm.nodup_iff.mp hnd) fun z hz => hS z (hperm.mem_iff.mpr hz)
                      have hnear : m.child g.side x.word = ptr (root (g.side.pick l r)) :=
                        (rep_mk.mp hrep).2.1
                      rw [hfg] at hft
                      rw [if_pos (by rw [hft])]
                      simp only [root_node, ptr_some, hnear]
                      rw [hfar]
                      refine ⟨_, rfl, ?_, h₃.mono fun z hz => hperm.mem_iff.mpr hz⟩
                      rw [RedBlack.insertFix_inner hf hu hfg]
                      exact rep_plug_iff.mp ⟨h₁, h₂⟩

/-! ## The new node -/

/-- The pointer to what is in the place. -/
def linkOf : Path NodePtr → RbLink
  | [] => none
  | f :: _ => some (f.item.word, f.side)

theorem load_linkOf {hole : Option NodePtr} {mid : List NodePtr} {path : Path NodePtr}
    (h : RepPath m A hole mid path) : m.load (linkOf path) = ptr hole := by
  cases path with
  | nil => exact h
  | cons f path => exact h.2.1

/-- The pointer is written. -/
theorem RepPath.store {mid : List NodePtr} {path : Path NodePtr} {hole : Option NodePtr}
    (new : Option NodePtr) (h : RepPath m A hole mid path) (hnd : (items path).Nodup) :
    RepPath (m.store (ptr new) (linkOf path)) A new mid path ∧
      Only (top path).toList m (m.store (ptr new) (linkOf path)) := by
  cases path with
  | nil => exact ⟨rfl, only_setRoot _⟩
  | cons f path =>
      obtain ⟨hpc, hs, ho, ha, ht, hp⟩ := h
      have honly : Only [f.item] m (m.store (ptr new) (linkOf (f :: path))) :=
        only_setChild (by simp) ..
      simp only [items, List.cons_append, List.nodup_cons, List.mem_append, not_or] at hnd
      refine ⟨⟨?_, child_setChild .., ?_, ?_, ?_, ?_⟩, honly⟩
      · exact (parentColor_setChild ..).trans hpc
      · exact (child_setChild_other ..).trans ho
      · rw [show (m.store (ptr new) (linkOf (f :: path))).aug f.item.word = m.aug f.item.word from
          aug_setChild ..]
        exact ha
      · exact ht.only honly (List.disjoint_singleton.mpr hnd.1.1)
      · exact hp.only honly (rbNode_setChild ..) (List.disjoint_singleton.mpr hnd.1.2)

/-- **The search.** -/
theorem rbSearch_eq {less : BitVec 64 → BitVec 64 → Bool} {x : NodePtr} {fuel : ℕ} :
    ∀ {t : RbTree NodePtr} (path : Path NodePtr), t.height < fuel →
      Rep m A (top path) t → RepPath m A (root t) t.inorder path →
      let q := RedBlack.descend (fun a b => less a.word b.word) x t path
      rbSearch less m x.word fuel (linkOf path) (ptr (top path))
          (decide (RedBlack.before path = [])) =
        some (linkOf q, ptr (top q), decide (RedBlack.before q = [])) := by
  induction fuel with
  | zero => intro t path hfuel; omega
  | succ fuel ih =>
      intro t path hfuel hrep hpath
      rw [rbSearch, load_linkOf hpath]
      match t with
      | .nil => exact if_pos rfl
      | .node c l y r =>
          obtain ⟨hpc, hl, hr, ha, htl, htr⟩ := hrep
          rw [root_node, ptr_some, if_neg y.ne_zero, RedBlack.descend]
          simp only [RbTree.height] at hfuel
          by_cases hless : less x.word y.word = true
          · have h := ih (t := l) (⟨.left, c, y, r⟩ :: path) (by omega) htl
              ⟨hpc, hl, hr, ha, htr, hpath⟩
            simp only [hless, if_true]
            simpa [RedBlack.before, Side.pick, linkOf] using h
          · have h := ih (t := r) (⟨.right, c, y, l⟩ :: path) (by omega) htr
              ⟨hpc, hr, hl, ha, htl, hpath⟩
            simp only [hless]
            simpa [RedBlack.before, Side.pick, linkOf] using h

/-- The node is linked, its field as it was. -/
theorem rbLinkNode_rep {x : NodePtr} {path : Path NodePtr} (hpath : RepPath m A none [] path)
    (hx : x ∉ items path) (hnd : (items path).Nodup) (ha : A [x] (m.aug x.word)) :
    let m' := rbLinkNode m x.word (ptr (top path)) (linkOf path)
    Rep m' A (top path) (.node .red .nil x .nil) ∧ RepPath m' A (some x) [] path ∧
      Only (x :: (top path).toList) m m' ∧ m'.aug x.word = m.aug x.word := by
  let m₀ := ((m.setPc x.word (ptr (top path))).setChild .right x.word 0#64).setChild .left x.word 0#64
  have h₀ : Only [x] m m₀ := ((only_setPc (by simp) _).trans (only_setChild (by simp) ..)).trans
    (only_setChild (by simp) ..)
  have hp₀ : RepPath m₀ A none [] path := hpath.only h₀ rfl (List.disjoint_singleton.mpr hx)
  obtain ⟨hp, h₁⟩ := RepPath.store (some x) hp₀ hnd
  have sx := h₁.same x fun h => hx (top_subset path h)
  have haug : (m₀.store (ptr (some x)) (linkOf path)).aug x.word = m.aug x.word := sx.aug
  refine ⟨⟨?_, ?_, ?_, ?_, trivial, trivial⟩, hp, (h₀.mono (by simp)).trans (h₁.mono (by simp)), haug⟩
  · rw [pcWord_red]
    exact sx.parentColor.trans (parentColor_setPc ..)
  · exact (sx.child .left).trans (child_setChild ..)
  · refine (sx.child .right).trans ?_
    exact Function.update_self ..
  · rw [show (rbLinkNode m x.word (ptr (top path)) (linkOf path)).aug x.word = m.aug x.word from haug]
    exact ha

/-! ## The call -/

variable {value : BitVec 64 → Option V → Option V → V} {K : Summary value S}

/-- The memory holds the tree, with the leftmost node, by the rules. -/
structure RbHolds (K : Summary value S) (m : RbMem V) (t : RbTree NodePtr) : Prop where
  rep : RepRoot m K.Is t
  leftmost : m.rbLeftmost = ptr t.inorder.head?
  nodup : t.inorder.Nodup
  rooted : RedBlack.Rooted t

/-- The data that the fields are computed from may change elsewhere. -/
theorem RbHolds.congr {value' : BitVec 64 → Option V → Option V → V} {S' : NodePtr → Prop}
    {K' : Summary value' S'} {t : RbTree NodePtr} (h : RbHolds K m t)
    (hvalue : ∀ z ∈ t.inorder, value z.word = value' z.word) (hS : ∀ z ∈ t.inorder, S z)
    (hS' : ∀ z ∈ t.inorder, S' z) : RbHolds K' m t := by
  refine ⟨⟨h.rep.1.imp fun xs v hxs hne hv => ?_, h.rep.2⟩, h.leftmost, h.nodup, h.rooted⟩
  have hsum := K.sum_congr K' (fun z hz => hvalue z (hxs hz)) (fun z hz => hS z (hxs hz))
    fun z hz => hS' z (hxs hz)
  rw [optSum, if_neg hne, optSum, if_neg hne] at hsum
  exact Eq.trans hv (Option.some.inj hsum)

/-- **`rb_add_augmented_cached`.** The node joins the tree where a plain search tree has it, the
rules hold, and no other node's memory is written. -/
theorem rbAddAugmentedCached_holds [DecidableEq V] (less : BitVec 64 → BitVec 64 → Bool)
    {t : RbTree NodePtr} {x : NodePtr} {fuel : ℕ} (h : RbHolds K m t) (hx : x ∉ t.inorder)
    (hS : ∀ z ∈ x :: t.inorder, S z) (haug : m.aug x.word = K.sum [x]) (hfuel : t.height < fuel) :
    ∃ m', rbAddAugmentedCached less (declareCallbacks value) fuel m x.word =
        some (m', if (RedBlack.insert (fun a b => less a.word b.word) x t).inorder.head? = some x
          then x.word else 0#64) ∧
      RbHolds K m' (RedBlack.insert (fun a b => less a.word b.word) x t) ∧
      ∀ z, z ∉ x :: t.inorder → SameAt m m' z := by
  set less' : NodePtr → NodePtr → Bool := fun a b => less a.word b.word
  set q := RedBlack.descend less' x t []
  have hplug : plug .nil q = t := RedBlack.plug_descend
  have hlen : q.length ≤ t.height := by simpa using RedBlack.length_descend (p := [])
  have hperm : (items q).Perm t.inorder := hplug ▸ perm_plug .nil q
  have hin : t.inorder = RedBlack.before q ++ RedBlack.after q := by
    rw [← hplug, RedBlack.inorder_plug]
    simp
  have hin' : (RedBlack.insert less' x t).inorder = RedBlack.before q ++ x :: RedBlack.after q := by
    rw [RedBlack.insert, RedBlack.inorder_insertFix]
    simp [q]
  have hxq : x ∉ items q := fun h => hx (hperm.mem_iff.mp h)
  have hndq : (items q).Nodup := hperm.nodup_iff.mpr h.nodup
  have hSq : ∀ z ∈ items q, S z := fun z hz => hS z (List.mem_cons_of_mem _ (hperm.mem_iff.mp hz))
  have hSx := hS x List.mem_cons_self
  obtain ⟨n, hfits, hnil, -⟩ := RedBlack.rooted_plug_iff.mp (hplug ▸ h.rooted)
  -- the search and the link
  let first := decide (RedBlack.before q = [])
  have hsearch : rbSearch less m x.word fuel none 0#64 true = some (linkOf q, ptr (top q), first) :=
    rbSearch_eq [] hfuel h.rep.1 h.rep.2
  have hrep := rep_plug_iff.mpr (show Rep m K.Is none (plug .nil q) ∧ _ from hplug ▸ h.rep)
  obtain ⟨hx₁, hp₁, h₁, haug₁⟩ := rbLinkNode_rep hrep.2 hxq hndq haug
  set m₁ := rbLinkNode m x.word (ptr (top q)) (linkOf q)
  -- the fields of the nodes above
  obtain ⟨hseg₁, hroot₁⟩ := repPath_iff_seg.mp hp₁
  obtain ⟨g, hg, hseg₂, h₂⟩ := Summary.propagate_seg none [x] (show q.length < fuel by omega) hseg₁
    (show m₁.augOf (ptr (some x)) = optSum K.sum [x] by
      rw [augOf, ptr_some, if_neg x.ne_zero, haug₁, haug]
      rfl)
    (fun z hz => (List.mem_cons.mp hz).elim (fun h => h ▸ hSx) (hSq z)) hndq (by simp)
  have hp₂ : RepPath { m₁ with aug := g } K.Is (some x) [x] q :=
    repPath_iff_seg.mpr ⟨hseg₂, hroot₁⟩
  have hx₂ : Rep { m₁ with aug := g } K.Is (top q) (.node .red .nil x .nil) :=
    hx₁.only h₂ fun z hz hw => by
      rw [RbTree.inorder_node, RbTree.inorder_nil, List.nil_append, List.mem_singleton] at hz
      exact hxq (hz ▸ map_item_subset q hw)
  -- the leftmost node
  let m₃ := if first then { { m₁ with aug := g } with rbLeftmost := x.word } else { m₁ with aug := g }
  have h₃ : ∀ z, SameAt { m₁ with aug := g } m₃ z := fun z => by
    cases hf : first <;> simp only [m₃, hf] <;> exact ⟨rfl, fun _ => rfl, rfl⟩
  have hroot₃ : m₃.rbNode = m₁.rbNode := by cases hf : first <;> simp [m₃, hf]
  have hpcx : m₃.rbRedParent x.word = ptr (top q) := by
    rw [rbRedParent, (h₃ x).parentColor, hx₂.1, pcWord_red]
  -- the colours
  obtain ⟨m', hm', hrep', h'⟩ := rbInsertLoop_rep K.rotateLaw (m := m₃)
    (t := .node .red .nil x .nil) (show q.length < fuel by omega) ⟨⟨hnil, hnil⟩, rfl, rfl⟩ rfl hfits
    (hx₂.congr fun z _ => h₃ z) (hp₂.congr hroot₃ fun z _ => h₃ z)
    (by simpa using ⟨hxq, hndq⟩)
    (fun z hz => (List.mem_cons.mp hz).elim (fun h => h ▸ hSx) (hSq z))
  rw [root_node, ptr_some] at hm'
  refine ⟨m', ?_, ⟨hrep', ?_, ?_, RedBlack.rooted_insert h.rooted⟩, fun z hz => ?_⟩
  · have hret : (RedBlack.insert less' x t).inorder.head? = some x ↔ RedBlack.before q = [] := by
      rw [hin']
      cases hb : RedBlack.before q with
      | nil => simp
      | cons y ys =>
          have hyx : y ≠ x := fun h => hx (by rw [hin, hb]; simp [h])
          simp [hyx]
    have hprop : (declareCallbacks value).propagate fuel m₁ (ptr (top q)) 0#64 =
        some { m₁ with aug := g } := topOr_none q ▸ hg
    have hinsert : rbInsert (declareCallbacks value).rotate fuel m₃ x.word = some m' := by
      rw [rbInsert, hpcx]
      exact hm'
    rw [rbAddAugmentedCached, hsearch]
    refine (congrArg (fun o => Option.bind o _) hprop).trans ?_
    refine (congrArg (fun o => Option.bind o _) hinsert).trans ?_
    simp [hret, first]
  · rw [h'.leftmost, hin']
    cases hb : RedBlack.before q with
    | nil => simp [m₃, first, hb]
    | cons y ys =>
        rw [hb] at hin
        have hleft : m₃.rbLeftmost = m.rbLeftmost := by
          simp only [m₃, first, hb, List.cons_ne_nil, decide_false]
          exact h₁.leftmost
        rw [hleft, h.leftmost, hin]
        rfl
  · rw [hin']
    have hnd := h.nodup
    rw [hin] at hnd
    exact List.nodup_middle.mpr (List.nodup_cons.mpr ⟨fun h => hx (hin ▸ h), hnd⟩)
  · rw [List.mem_cons, not_or] at hz
    have hzq : z ∉ items q := fun h => hz.2 (hperm.mem_iff.mp h)
    have s₁ := h₁.same z (by simpa [hz.1] using fun h => hzq (top_subset q (by simpa using h)))
    have s₂ := h₂.same z fun h => hzq (map_item_subset q h)
    have s₄ := h'.same z (by simpa [hz.1] using hzq)
    have s₃ := h₃ z
    exact ⟨s₄.parentColor.trans (s₃.parentColor.trans (s₂.parentColor.trans s₁.parentColor)),
      fun d => (s₄.child d).trans ((s₃.child d).trans ((s₂.child d).trans (s₁.child d))),
      s₄.aug.trans (s₃.aug.trans (s₂.aug.trans s₁.aug))⟩

end Skyloft
