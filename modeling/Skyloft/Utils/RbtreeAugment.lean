import Skyloft.Utils.RbtreeRep

/-!
# What a node keeps about its subtree

The callbacks of an augmented tree recompute the field of a node from the fields of its children.
Where that adds up to one value for all nodes of a subtree, whatever its shape, a rotation keeps the
value, and after a change the nodes above it are recomputed until one stays as it is.

* `Summary` — the value of a subtree, from its nodes in order.
* `Summary.rotateLaw` — the callback of a rotation.
* `propagate_seg` — the loop of the other one.
-/

namespace Skyloft

open RedBlack (Side Color RbTree Crumb Path)
open RbMem RbTree

variable {V : Type}

/-- The value for a list, if there is something in it. -/
def optSum (sum : List NodePtr → V) (xs : List NodePtr) : Option V :=
  if xs = [] then none else some (sum xs)

/-- For nodes with `S` the fields of the children make the field of their parent. -/
structure Summary (value : BitVec 64 → Option V → Option V → V) (S : NodePtr → Prop) where
  sum : List NodePtr → V
  step : ∀ l x r, (∀ z ∈ l ++ x :: r, S z) →
    value x.word (optSum sum r) (optSum sum l) = sum (l ++ x :: r)

namespace Summary

variable {value : BitVec 64 → Option V → Option V → V} {S : NodePtr → Prop}

/-- The field of the root of a subtree. -/
def Is (K : Summary value S) (xs : List NodePtr) (v : V) : Prop := v = K.sum xs

/-- For fewer nodes. -/
def restrict {S' : NodePtr → Prop} (K : Summary value S) (h : ∀ z, S' z → S z) :
    Summary value S' where
  sum := K.sum
  step l x r hS := K.step l x r fun z hz => h z (hS z hz)

/-- The value of a list follows from what is computed at its nodes. -/
theorem sum_congr {value' : BitVec 64 → Option V → Option V → V} {S' : NodePtr → Prop}
    (K : Summary value S) (K' : Summary value' S') {xs : List NodePtr}
    (hvalue : ∀ z ∈ xs, value z.word = value' z.word) (hS : ∀ z ∈ xs, S z) (hS' : ∀ z ∈ xs, S' z) :
    optSum K.sum xs = optSum K'.sum xs := by
  induction xs with
  | nil => rfl
  | cons x xs ih =>
      have h := ih (fun z hz => hvalue z (by simp [hz])) (fun z hz => hS z (by simp [hz]))
        fun z hz => hS' z (by simp [hz])
      have hk := K.step [] x xs hS
      have hk' := K'.step [] x xs hS'
      rw [List.nil_append, hvalue x (by simp), h] at hk
      rw [optSum, if_neg (by simp), optSum, if_neg (by simp), ← hk]
      exact congrArg some hk'

variable {K : Summary value S} {m m' : RbMem V} {p : Option NodePtr} {t : RbTree NodePtr}

theorem augOf_root (h : Rep m K.Is p t) : m.augOf (ptr (root t)) = optSum K.sum t.inorder := by
  cases t with
  | nil => rfl
  | node c l x r =>
      rw [root_node, ptr_some, augOf, if_neg x.ne_zero, optSum, if_neg (by simp), h.2.2.2.1]
      rfl

/-- What is computed from the two children, seen from a side. -/
theorem value_children {d : Side} {x : NodePtr} {near far : List NodePtr}
    (hnear : m.augOf (m.child d x.word) = optSum K.sum near)
    (hfar : m.augOf (m.child d.other x.word) = optSum K.sum far)
    (hS : ∀ z ∈ d.glue near x far, S z) :
    value x.word (m.augOf (m.right x.word)) (m.augOf (m.left x.word)) =
      K.sum (d.glue near x far) := by
  cases d with
  | left =>
      rw [← child_right, ← child_left, hnear]
      rw [Side.other] at hfar
      rw [hfar]
      exact K.step _ _ _ hS
  | right =>
      rw [← child_right, ← child_left, hnear]
      rw [Side.other] at hfar
      rw [hfar]
      exact K.step _ _ _ hS

theorem rotateLaw [DecidableEq V] (K : Summary value S) :
    RotateLaw (declareCallbacks value).rotate K.Is S := by
  intro m x y hxy
  refine ⟨_, rfl, fun z hzx hzy => ?_, fun xs hxs => ?_, ?_⟩
  · exact (aug_setAug_ne hzx _).trans (aug_setAug_ne hzy _)
  · exact ((aug_setAug_ne (Ne.symm hxy) _).trans (aug_setAug ..)).trans hxs
  · intro d b e hb he hrb hre hyb hye hS
    refine (aug_setAug ..).trans ?_
    have hkeep : ∀ t : RbTree NodePtr, Rep m K.Is (some x) t → y ∉ t.inorder →
        (m.setAug y.word (m.aug x.word)).augOf (ptr (root t)) = optSum K.sum t.inorder := by
      intro t ht hyt
      refine augOf_root (ht.only (only_setAug (w := [y]) (by simp) _) ?_)
      exact List.disjoint_singleton.mpr hyt
    refine value_children (d := d) ?_ ?_ hS
    · rw [child_setAug, hb]
      exact hkeep b hrb hyb
    · rw [child_setAug, he]
      exact hkeep e hre hye

/-! ## The way up -/

theorem sum_glue_congr (K : Summary value S) {d : Side} {x : NodePtr} {mid mid' far : List NodePtr}
    (hsum : optSum K.sum mid = optSum K.sum mid') (hS : ∀ z ∈ d.glue mid x far, S z)
    (hS' : ∀ z ∈ d.glue mid' x far, S z) : K.sum (d.glue mid x far) = K.sum (d.glue mid' x far) := by
  cases d with
  | left => exact (K.step _ _ _ hS).symm.trans (hsum ▸ K.step _ _ _ hS')
  | right => exact (K.step _ _ _ hS).symm.trans (hsum ▸ K.step _ _ _ hS')

/-- Other nodes in the place that add up to the same leave every field above as it is. -/
theorem repSeg_swap {par hole : Option NodePtr} {q : Path NodePtr} {mid mid' : List NodePtr}
    (h : RepSeg m K.Is par hole mid q) (hsum : optSum K.sum mid = optSum K.sum mid')
    (hS : ∀ z ∈ mid ++ mid' ++ items q, S z) : RepSeg m K.Is par hole mid' q := by
  induction q generalizing hole mid mid' with
  | nil => trivial
  | cons f q ih =>
      obtain ⟨hpc, hs, ho, ha, ht, hq⟩ := h
      have hglue : ∀ mid'', (∀ z ∈ mid'', S z) →
          ∀ z ∈ f.side.glue mid'' f.item f.sibling.inorder, S z := by
        intro mid'' hmid z hz
        rcases Side.mem_glue.mp hz with hz | rfl | hz
        · exact hmid z hz
        · exact hS _ (by simp [items])
        · exact hS z (by simp [items, hz])
      have hmidS := hglue mid fun z hz => hS z (by simp [hz])
      have hmidS' := hglue mid' fun z hz => hS z (by simp [hz])
      have heq := K.sum_glue_congr hsum hmidS hmidS'
      refine ⟨hpc, hs, ho, ha.trans heq, ht, ih hq ?_ ?_⟩
      · have hne : ∀ mid, f.side.glue mid f.item f.sibling.inorder ≠ [] := by
          intro mid
          cases f.side <;> simp [Side.glue]
        rw [optSum, if_neg (hne _), optSum, if_neg (hne _), heq]
      · intro z hz
        simp only [List.mem_append] at hz
        rcases hz with (hz | hz) | hz
        · exact hmidS z hz
        · exact hmidS' z hz
        · exact hS z (by simp [items, hz])

/-- **The loop of the callback.** From a node with what it kept for `old`, and with the nodes
`mid'` on the side `f.side` now, up to the node `par`. -/
theorem propagate_cons [DecidableEq V] (par : Option NodePtr) {fuel : ℕ} :
    ∀ {f : Crumb NodePtr} {q : Path NodePtr} {hole : Option NodePtr} {old mid' : List NodePtr}
      {m : RbMem V}, q.length + 1 < fuel →
      m.parentColor f.item.word = pcWord (topOr par q) f.color →
      m.child f.side f.item.word = ptr hole →
      m.child f.side.other f.item.word = ptr (root f.sibling) → K.Is old (m.aug f.item.word) →
      Rep m K.Is (some f.item) f.sibling → RepSeg m K.Is par (some f.item) old q →
      m.augOf (ptr hole) = optSum K.sum mid' → old ≠ [] →
      (∀ z ∈ old ++ mid' ++ items (f :: q), S z) → (items (f :: q)).Nodup →
      (∀ x ∈ items (f :: q), par ≠ some x) →
      ∃ g, propagateLoop value fuel m f.item.word (ptr par) = some { m with aug := g } ∧
        RepSeg { m with aug := g } K.Is par hole mid' (f :: q) ∧
        Only ((f :: q).map Crumb.item) m { m with aug := g } := by
  induction fuel with
  | zero => intro f q hole old mid' m hfuel; omega
  | succ fuel ih =>
      intro f q hole old mid' m hfuel hpc hs ho ha ht hq hhole hold hS hnd hpar
      rw [propagateLoop, if_neg (by
        rw [← ptr_some, ptr_inj]
        exact (hpar f.item (by simp [items])).symm)]
      have hglue : ∀ z ∈ f.side.glue mid' f.item f.sibling.inorder, S z := by
        intro z hz
        rcases Side.mem_glue.mp hz with hz | rfl | hz
        · exact hS z (by simp [hz])
        · exact hS _ (by simp [items])
        · exact hS z (by simp [items, hz])
      have hv : value f.item.word (m.augOf (m.right f.item.word)) (m.augOf (m.left f.item.word)) =
          K.sum (f.side.glue mid' f.item f.sibling.inorder) := by
        refine value_children ?_ ?_ hglue
        · rw [hs, hhole]
        · rw [ho, augOf_root ht]
      have hne : f.side.glue mid' f.item f.sibling.inorder ≠ [] := by
        cases f.side <;> simp [Side.glue]
      have hSq : ∀ z ∈ old ++ f.side.glue mid' f.item f.sibling.inorder ++ items q, S z := by
        intro z hz
        simp only [List.mem_append] at hz
        rcases hz with (hz | hz) | hz
        · exact hS z (by simp [hz])
        · exact hglue z hz
        · exact hS z (by simp [items, hz])
      simp only [items, List.cons_append, List.nodup_cons, List.nodup_append, List.mem_append,
        not_or] at hnd
      obtain ⟨⟨hfs, hfq⟩, hsnd, hqnd, hsq⟩ := hnd
      have h₁ : Only [f.item] m (m.setAug f.item.word
          (K.sum (f.side.glue mid' f.item f.sibling.inorder))) := only_setAug (by simp) _
      have ht₁ := ht.only h₁ (List.disjoint_singleton.mpr hfs)
      have hq₁ := hq.only h₁ (List.disjoint_singleton.mpr hfq)
      simp only [rbCompute, hv]
      by_cases hsame : K.sum (f.side.glue mid' f.item f.sibling.inorder) = m.aug f.item.word
      · -- the field is as it was, and so are those above it
        rw [if_pos (by simpa using hsame)]
        refine ⟨_, rfl, ⟨hpc, hs, ho, aug_setAug .., ht₁, ?_⟩, h₁.mono (by simp)⟩
        refine repSeg_swap hq₁ ?_ hSq
        rw [optSum, if_neg hold, optSum, if_neg hne, hsame, ha]
      · rw [if_neg (by simpa using hsame)]
        have hparent : (m.setAug f.item.word (K.sum (f.side.glue mid' f.item
            f.sibling.inorder))).rbParent f.item.word = ptr (topOr par q) := by
          rw [rbParent, parentColor_setAug, hpc, rbParentOf_pcWord]
        have haug : (m.setAug f.item.word (K.sum (f.side.glue mid' f.item
            f.sibling.inorder))).augOf (ptr (some f.item)) =
            optSum K.sum (f.side.glue mid' f.item f.sibling.inorder) := by
          rw [augOf, ptr_some, if_neg f.item.ne_zero, aug_setAug, optSum, if_neg hne]
        rw [hparent]
        cases q with
        | nil =>
            refine ⟨(m.setAug f.item.word (K.sum (f.side.glue mid' f.item f.sibling.inorder))).aug, ?_,
              ⟨hpc, hs, ho, aug_setAug .., ht₁, trivial⟩, h₁.mono (by simp)⟩
            cases fuel with
            | zero => simp at hfuel
            | succ fuel => exact if_pos rfl
        | cons e q =>
            obtain ⟨hpc', hs', ho', ha', ht', hq'⟩ := hq₁
            have hne' : e.side.glue old e.item e.sibling.inorder ≠ [] := by
              cases e.side <;> simp [Side.glue]
            obtain ⟨g, hg, hseg, honly⟩ := ih (by simp at hfuel ⊢; omega) hpc' hs' ho' ha' ht' hq'
              haug hne' (fun z hz => by
                rw [List.mem_append, List.mem_append, Side.mem_glue] at hz
                apply hSq
                simp only [items, List.cons_append, List.mem_append, List.mem_cons] at hz ⊢
                tauto) hqnd fun x hx => hpar x (by simp [items] at hx ⊢; tauto)
            refine ⟨g, hg, ⟨hpc, hs, ho, ?_, ht₁.only honly ?_, hseg⟩,
              (h₁.mono (by simp)).trans (honly.mono (by simp))⟩
            · have hfq' : f.item ∉ (e :: q).map Crumb.item := fun h => hfq (map_item_subset _ h)
              exact (honly.same _ hfq').aug.trans (aug_setAug ..)
            · exact fun z hz hzq => hsq z hz z (map_item_subset _ hzq) rfl

/-- From the node above a place whose nodes are `mid'` now. -/
theorem propagate_seg [DecidableEq V] (par : Option NodePtr) {hole : Option NodePtr} {fuel : ℕ}
    {q : Path NodePtr} {mid : List NodePtr} (mid' : List NodePtr) (hfuel : q.length < fuel)
    (h : RepSeg m K.Is par hole mid q)
    (hhole : m.augOf (ptr hole) = optSum K.sum mid') (hS : ∀ z ∈ mid ++ mid' ++ items q, S z)
    (hnd : (items q).Nodup) (hpar : ∀ x ∈ items q, par ≠ some x) :
    ∃ g, propagateLoop value fuel m (ptr (topOr par q)) (ptr par) = some { m with aug := g } ∧
      RepSeg { m with aug := g } K.Is par hole mid' q ∧
      Only (q.map Crumb.item) m { m with aug := g } := by
  match q with
  | [] =>
      refine ⟨m.aug, ?_, trivial, Only.refl m⟩
      cases fuel with
      | zero => simp at hfuel
      | succ fuel => exact if_pos rfl
  | f :: q =>
      obtain ⟨hpc, hs, ho, ha, ht, hq⟩ := h
      refine propagate_cons par hfuel hpc hs ho ha ht hq hhole ?_ (fun z hz => ?_) hnd hpar
      · cases f.side <;> simp [Side.glue]
      · simp only [List.mem_append, Side.mem_glue, items, List.cons_append, List.mem_cons] at hz
        apply hS
        simp only [items, List.cons_append, List.mem_append, List.mem_cons]
        tauto

end Summary

end Skyloft
