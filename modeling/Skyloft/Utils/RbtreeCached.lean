import Skyloft.Utils.RbtreeUnlink

/-!
# Runs of the calls on a cached root

A user of the tree adds a node with its field for itself alone, by an order of its own, and takes
out nodes that are there.  Then the memory holds a tree by the rules at any time, its nodes are
sorted, and each loop takes as many rounds as the tree has levels.

* `rbEraseAugmentedCached_holds` — the call that takes a node out.
* `RbOp`, `rbStep` — what a user does.
* `rbStep_holds`, `rbRun_holds` — a step and a run.
* `rbAddCached_holds`, `rbEraseCached_holds` — the calls without callbacks.
-/

namespace Skyloft

open RedBlack (Side Color RbTree Crumb Path plug Rooted)
open RbMem RbTree

variable {V : Type} {m : RbMem V} {S : NodePtr → Prop}
  {value : BitVec 64 → Option V → Option V → V} {K : Summary value S}

/-- **`rb_erase_augmented_cached`.** -/
theorem rbEraseAugmentedCached_holds [DecidableEq V] {t : RbTree NodePtr} {x : NodePtr} {fuel : ℕ}
    (h : RbHolds K m t) (hx : x ∈ t.inorder) (hS : ∀ z ∈ t.inorder, S z) (hfuel : t.height < fuel) :
    ∃ m' t', rbEraseAugmentedCached (declareCallbacks value) fuel m x.word = some m' ∧
      RbHolds K m' t' ∧ t'.inorder = t.inorder.erase x ∧
      ∀ z, z ∉ t.inorder → SameAt m m' z := by
  obtain ⟨hrep, hleft, hnd, hrooted⟩ := h
  obtain ⟨c, l, r, p, rfl⟩ := RedBlack.exists_plug hx
  have hperm := perm_plug (.node c l x r) p
  have hmove := rbMoveLeftmost_rep hrep hleft hnd hfuel
  set m₁ : RbMem V := { m with
    rbLeftmost := ptr (RedBlack.before p ++ (l.inorder ++ r.inorder) ++ RedBlack.after p).head? }
  have h₁ : ∀ z, SameAt m m₁ z := fun z => ⟨rfl, fun _ => rfl, rfl⟩
  obtain ⟨m', hm', hrep', honly⟩ := rbEraseAugmented_rep
    (show RepRoot m₁ K.Is _ from ⟨hrep.1.congr fun z _ => h₁ z, hrep.2⟩) hrooted
    (hperm.nodup_iff.mpr hnd) (fun z hz => hS z (hperm.mem_iff.mp hz)) hfuel
  have hin : (RedBlack.erase c l r p).inorder = (plug (.node c l x r) p).inorder.erase x := by
    rw [RedBlack.inorder_erase, RedBlack.inorder_plug, RbTree.inorder_node]
    rw [RedBlack.inorder_plug, RbTree.inorder_node] at hnd
    have hsplit : RedBlack.before p ++ (l.inorder ++ x :: r.inorder) ++ RedBlack.after p =
        (RedBlack.before p ++ l.inorder) ++ x :: (r.inorder ++ RedBlack.after p) := by simp
    rw [hsplit] at hnd ⊢
    have hxl : x ∉ RedBlack.before p ++ l.inorder := fun hx => by
      rw [List.nodup_append] at hnd
      exact hnd.2.2 x hx x (by simp) rfl
    rw [List.erase_append_right _ hxl, List.erase_cons_head]
    simp
  refine ⟨m', _, ?_, ⟨hrep', ?_, ?_, RedBlack.rooted_erase hrooted⟩, hin, fun z hz => ?_⟩
  · rw [rbEraseAugmentedCached, hmove]
    exact hm'
  · rw [honly.leftmost, RedBlack.inorder_erase]
  · rw [hin]
    exact hnd.erase x
  · have s := honly.same z fun hz' => hz (hperm.mem_iff.mp hz')
    exact ⟨s.parentColor, s.child, s.aug⟩

/-! ## The calls without callbacks -/

/-- The callbacks for nodes that keep nothing. -/
abbrev unitCallbacks : RbAugmentCallbacks Unit := declareCallbacks fun _ _ _ => ()

/-- Nothing is kept. -/
def unitSummary : Summary (fun _ _ _ => ()) fun _ => True where
  sum _ := ()
  step _ _ _ _ := rfl

theorem propagateLoop_unit {fuel : ℕ} (hfuel : 0 < fuel) (m : RbMem Unit) (rb stop : BitVec 64) :
    propagateLoop (fun _ _ _ => ()) fuel m rb stop = some m := by
  obtain ⟨fuel, rfl⟩ := Nat.exists_eq_add_of_lt hfuel
  rw [propagateLoop]
  split <;> rfl

/-- They do what `dummy_callbacks` does. -/
theorem rbEraseNode_unit {fuel : ℕ} (hfuel : 0 < fuel) (m : RbMem Unit) (x : BitVec 64) :
    rbEraseNode unitCallbacks fuel m x = rbEraseNode dummyCallbacks fuel m x := by
  have hprop : unitCallbacks.propagate fuel = dummyCallbacks.propagate fuel := by
    funext m rb stop
    exact propagateLoop_unit hfuel m rb stop
  rw [rbEraseNode, rbEraseNode, rbTakeSuccessor, rbTakeSuccessor, hprop]
  simp only [rbReplaceNode, hprop]
  rfl

theorem rbAddCached_eq {less : BitVec 64 → BitVec 64 → Bool} {fuel : ℕ} (hfuel : 0 < fuel)
    (m : RbMem Unit) (x : BitVec 64) :
    rbAddCached less fuel m x = rbAddAugmentedCached less unitCallbacks fuel m x := by
  have hprop : unitCallbacks.propagate fuel = dummyCallbacks.propagate fuel := by
    funext m rb stop
    exact propagateLoop_unit hfuel m rb stop
  rw [rbAddCached, rbAddAugmentedCached, hprop]
  rfl

theorem rbEraseCached_eq {fuel : ℕ} (hfuel : 0 < fuel) (m : RbMem Unit) (x : BitVec 64) :
    (rbEraseCached fuel m x).map Prod.fst = rbEraseAugmentedCached unitCallbacks fuel m x := by
  have hnode := rbEraseNode_unit hfuel
  rw [rbEraseCached, rbEraseAugmentedCached]
  cases rbMoveLeftmost fuel m x with
  | none => rfl
  | some m =>
      have herase : rbErase fuel m x = rbEraseAugmented unitCallbacks fuel m x := by
        rw [rbErase, rbEraseAugmented, hnode]
        rfl
      show (Option.bind (rbErase fuel m x) _).map Prod.fst = rbEraseAugmented unitCallbacks fuel m x
      rw [← herase]
      cases rbErase fuel m x <;> rfl

/-- **`rb_add_cached`.** -/
theorem rbAddCached_holds (less : BitVec 64 → BitVec 64 → Bool) {m : RbMem Unit} {t : RbTree NodePtr}
    {x : NodePtr} {fuel : ℕ} (h : RbHolds unitSummary m t) (hx : x ∉ t.inorder)
    (hfuel : t.height < fuel) :
    ∃ m', rbAddCached less fuel m x.word =
        some (m', if (RedBlack.insert (fun a b => less a.word b.word) x t).inorder.head? = some x
          then x.word else 0#64) ∧
      RbHolds unitSummary m' (RedBlack.insert (fun a b => less a.word b.word) x t) ∧
      ∀ z, z ∉ x :: t.inorder → SameAt m m' z := by
  rw [rbAddCached_eq (Nat.zero_lt_of_lt hfuel)]
  exact rbAddAugmentedCached_holds less h hx (fun _ _ => trivial) rfl hfuel

/-- **`rb_erase_cached`.** -/
theorem rbEraseCached_holds {m : RbMem Unit} {t : RbTree NodePtr} {x : NodePtr} {fuel : ℕ}
    (h : RbHolds unitSummary m t) (hx : x ∈ t.inorder) (hfuel : t.height < fuel) :
    ∃ m' t', (rbEraseCached fuel m x.word).map Prod.fst = some m' ∧
      RbHolds unitSummary m' t' ∧ t'.inorder = t.inorder.erase x ∧
      ∀ z, z ∉ t.inorder → SameAt m m' z := by
  rw [rbEraseCached_eq (Nat.zero_lt_of_lt hfuel)]
  exact rbEraseAugmentedCached_holds h hx (fun _ _ => trivial) hfuel

/-! ## Runs -/

/-- What a user of the tree does with a node. -/
inductive RbOp
  | add (x : NodePtr)
  | erase (x : NodePtr)

namespace RbOp

def node : RbOp → NodePtr
  | add x => x
  | erase x => x

/-- What becomes of the nodes in order; `none` where the user must not do it. -/
def onList (key : NodePtr → ℤ) (xs : List NodePtr) : RbOp → Option (List NodePtr)
  | add x => if x ∈ xs then none else some (xs.orderedInsert (fun a b => key a < key b) x)
  | erase x => if x ∈ xs then some (xs.erase x) else none

end RbOp

/-- The call, for `add` once the node's field is set for the node alone. -/
def rbStep [DecidableEq V] (value : BitVec 64 → Option V → Option V → V)
    (less : BitVec 64 → BitVec 64 → Bool) (fuel : ℕ) (m : RbMem V) : RbOp → Option (RbMem V)
  | .add x => (rbAddAugmentedCached less (declareCallbacks value) fuel
      (m.setAug x.word (value x.word none none)) x.word).map Prod.fst
  | .erase x => rbEraseAugmentedCached (declareCallbacks value) fuel m x.word

/-- The memory holds a sorted tree by the rules. -/
structure RbSorted (K : Summary value S) (key : NodePtr → ℤ) (m : RbMem V) (xs : List NodePtr) :
    Prop where
  holds : ∃ t, RbHolds K m t ∧ t.inorder = xs
  sorted : xs.Pairwise fun a b => key a ≤ key b
  inS : ∀ z ∈ xs, S z

theorem rbStep_holds [DecidableEq V] {key : NodePtr → ℤ} {less : BitVec 64 → BitVec 64 → Bool}
    (hless : ∀ a b, S a → S b → (less a.word b.word = true ↔ key a < key b))
    {xs ys : List NodePtr} (op : RbOp) {fuel : ℕ} (h : RbSorted K key m xs) (hop : S op.node)
    (hys : op.onList key xs = some ys) (hfuel : 2 * Nat.log 2 (xs.length + 1) < fuel) :
    ∃ m', rbStep value less fuel m op = some m' ∧ RbSorted K key m' ys ∧
      ∀ z, z ≠ op.node → z ∉ xs → SameAt m m' z := by
  obtain ⟨⟨t, ht, rfl⟩, hsort, hS⟩ := h
  have hheight := RedBlack.height_le ht.rooted
  cases op with
  | add x =>
      have hx : x ∉ t.inorder := fun hx => by simp [RbOp.onList, hx] at hys
      obtain rfl : t.inorder.orderedInsert (fun a b => key a < key b) x = ys := by
        simpa [RbOp.onList, hx] using hys
      have hm₀ : Only [x] m (m.setAug x.word (value x.word none none)) := only_setAug (by simp) _
      have ht₀ : RbHolds K (m.setAug x.word (value x.word none none)) t :=
        ⟨⟨ht.rep.1.only hm₀ (List.disjoint_singleton.mpr hx), ht.rep.2⟩, ht.leftmost, ht.nodup,
          ht.rooted⟩
      have haug : (m.setAug x.word (value x.word none none)).aug x.word = K.sum [x] :=
        (aug_setAug ..).trans (K.step [] x [] (by simpa [RbOp.node] using hop))
      have hSx : ∀ z ∈ x :: t.inorder, S z := List.forall_mem_cons.mpr ⟨hop, hS⟩
      obtain ⟨m', hm', ht', hsame⟩ := rbAddAugmentedCached_holds less ht₀ hx hSx haug
        (show t.height < fuel by omega)
      have hin : (RedBlack.insert (fun a b => less a.word b.word) x t).inorder =
          t.inorder.orderedInsert (fun a b => key a < key b) x := by
        rw [RedBlack.inorder_insert, ← RbTree.inorder_shape]
        rw [← RbTree.inorder_shape] at hS hsort
        exact SearchTree.inorder_link _ _ (fun y hy => hless x y hop (hS y hy)) hsort
      refine ⟨m', ?_, ⟨⟨_, ht', hin⟩, ?_, fun z hz => ?_⟩, fun z hzx hz => ?_⟩
      · rw [rbStep, hm']
        rfl
      · rw [← hin, RedBlack.inorder_insert]
        rw [← RbTree.inorder_shape] at hS hsort
        exact SearchTree.sorted_link _ (fun y hy => hless x y hop (hS y hy)) hsort
      · rw [List.mem_orderedInsert] at hz
        exact hz.elim (fun h => h ▸ hop) (hS z)
      · have s₀ := hm₀.same z (by simpa [RbOp.node] using hzx)
        have s' := hsame z (by simpa [RbOp.node] using ⟨hzx, hz⟩)
        exact ⟨s'.parentColor.trans s₀.parentColor, fun d => (s'.child d).trans (s₀.child d),
          s'.aug.trans s₀.aug⟩
  | erase x =>
      have hx : x ∈ t.inorder := by
        by_contra hx
        simp [RbOp.onList, hx] at hys
      obtain rfl : t.inorder.erase x = ys := by simpa [RbOp.onList, hx] using hys
      obtain ⟨m', t', hm', ht', hin, hsame⟩ := rbEraseAugmentedCached_holds ht hx hS
        (show t.height < fuel by omega)
      refine ⟨m', hm', ⟨⟨t', ht', hin⟩, hsort.sublist List.erase_sublist, fun z hz => ?_⟩,
        fun z _ hz => hsame z hz⟩
      exact hS z (List.mem_of_mem_erase hz)

/-- `RB_ROOT_CACHED` -/
def RbMem.Empty (m : RbMem V) : Prop := m.rbNode = 0#64 ∧ m.rbLeftmost = 0#64

theorem RbMem.Empty.sorted {key : NodePtr → ℤ} (h : m.Empty) : RbSorted K key m [] where
  holds := ⟨.nil, ⟨⟨trivial, h.1⟩, h.2, List.nodup_nil, rfl, 0, rfl⟩, rfl⟩
  sorted := List.Pairwise.nil
  inS := by simp

/-- As many nodes as calls at most. -/
theorem RbOp.length_onList {key : NodePtr → ℤ} {xs ys : List NodePtr} {op : RbOp}
    (h : op.onList key xs = some ys) : ys.length ≤ xs.length + 1 := by
  cases op with
  | add x =>
      by_cases hx : x ∈ xs
      · simp [RbOp.onList, hx] at h
      · obtain rfl : xs.orderedInsert (fun a b => key a < key b) x = ys := by
          simpa [RbOp.onList, hx] using h
        rw [List.orderedInsert_length]
  | erase x =>
      by_cases hx : x ∈ xs
      · obtain rfl : xs.erase x = ys := by simpa [RbOp.onList, hx] using h
        exact (List.length_erase_le).trans (Nat.le_succ _)
      · simp [RbOp.onList, hx] at h

/-- **A run** from any sorted tree. -/
theorem rbRun_holds [DecidableEq V] {key : NodePtr → ℤ} {less : BitVec 64 → BitVec 64 → Bool}
    (hless : ∀ a b, S a → S b → (less a.word b.word = true ↔ key a < key b)) {ops : List RbOp} :
    ∀ {m : RbMem V} {xs ys : List NodePtr} {fuel : ℕ}, RbSorted K key m xs →
      (∀ op ∈ ops, S op.node) → ops.foldlM (RbOp.onList key) xs = some ys →
      2 * Nat.log 2 (xs.length + ops.length + 1) < fuel →
      ∃ m', ops.foldlM (rbStep value less fuel) m = some m' ∧ RbSorted K key m' ys := by
  induction ops with
  | nil =>
      intro m xs ys fuel h hS hys hfuel
      cases hys
      exact ⟨m, rfl, h⟩
  | cons op ops ih =>
      intro m xs ys fuel h hS hys hfuel
      rw [List.foldlM_cons] at hys
      obtain ⟨zs, hzs, hys⟩ := Option.bind_eq_some_iff.mp hys
      have hlen := RbOp.length_onList hzs
      rw [List.length_cons] at hfuel
      have hlog : Nat.log 2 (xs.length + 1) ≤ Nat.log 2 (xs.length + (ops.length + 1) + 1) :=
        Nat.log_mono_right (by omega)
      have hlog' : Nat.log 2 (zs.length + ops.length + 1) ≤
          Nat.log 2 (xs.length + (ops.length + 1) + 1) := Nat.log_mono_right (by omega)
      obtain ⟨m₁, hm₁, h₁, -⟩ := rbStep_holds hless op h (hS op (by simp)) hzs
        (show 2 * Nat.log 2 (xs.length + 1) < fuel by omega)
      obtain ⟨m', hm', h'⟩ := ih h₁ (fun o ho => hS o (by simp [ho])) hys
        (show 2 * Nat.log 2 (zs.length + ops.length + 1) < fuel by omega)
      refine ⟨m', ?_, h'⟩
      rw [List.foldlM_cons, hm₁]
      exact hm'

end Skyloft
