import Skyloft.Utils.RbtreeCached

/-!
# The interface of the tree

What a user of `rbtree.h` relies on, for every tree in memory and for every run of calls: the nodes
are those that were added and not taken out, in order; the leftmost one is at hand; the tree is no
higher than twice the logarithm of its size, so that a bound on the rounds of every loop is known;
and the memory of no other node is written.

* `rb_add`, `rb_erase` — one call.
* `rb_run` — all calls since the tree was empty.
* `rb_walk` — the ends and the neighbours.
-/

namespace Skyloft

open RedBlack (Side Color RbTree Crumb Path plug Rooted)
open RbMem RbTree

variable {V : Type} {m : RbMem V} {S : NodePtr → Prop}
  {value : BitVec 64 → Option V → Option V → V} {K : Summary value S} {t : RbTree NodePtr}
  {fuel : ℕ}

/-- A tree holds as many nodes as fit in its levels. -/
theorem RbHolds.height_le (h : RbHolds K m t) :
    t.height ≤ 2 * Nat.log 2 (t.inorder.length + 1) := RedBlack.height_le h.rooted

/-- **The neighbours of a node.** -/
theorem RbHolds.beside {xs ys : List NodePtr} {x : NodePtr} (h : RbHolds K m t)
    (hin : t.inorder = xs ++ x :: ys) (hfuel : t.height < fuel) :
    rbNext fuel m x.word = some (ptr ys.head?) ∧
      rbPrev fuel m x.word = some (ptr xs.getLast?) := by
  have hnd := h.nodup
  have hx : x ∈ t.inorder := by rw [hin]; simp
  obtain ⟨c, l, r, p, rfl⟩ := RedBlack.exists_plug hx
  obtain ⟨hrep, hpath⟩ := rep_plug_iff.mpr h.rep
  have hnd' := (perm_plug (.node c l x r) p).nodup_iff.mpr hnd
  have hheight := RedBlack.height_plug (.node c l x r) p
  rw [RbTree.height] at hheight
  rw [hin] at hnd
  -- the node splits the list in one way only
  have hsplit : (RedBlack.before p ++ l.inorder) ++ x :: (r.inorder ++ RedBlack.after p) =
      xs ++ x :: ys := by
    rw [← hin, RedBlack.inorder_plug, RbTree.inorder_node]
    simp
  rw [← hsplit, List.nodup_middle, List.nodup_cons, List.mem_append, not_or] at hnd
  obtain ⟨rfl, -, rfl⟩ := (List.append_cons_inj_of_notMem hnd.1.1 hnd.1.2).mp hsplit
  exact ⟨rbNext_rep hrep hpath hnd' (by omega) (by omega),
    rbPrev_rep hrep hpath hnd' (by omega) (by omega)⟩

/-! ### Counted nodes

A user that counts the nodes of every subtree, with a tree in which the calls have something to
repair. -/

/-- The number of nodes of a subtree, from those of its children. -/
def countValue (_ : BitVec 64) (right left : Option ℕ) : ℕ := left.getD 0 + 1 + right.getD 0

theorem getD_optSum_length (xs : List NodePtr) : (optSum List.length xs).getD 0 = xs.length := by
  cases xs <;> rfl

def countSummary : Summary countValue fun _ => True where
  sum := List.length
  step l x r _ := by
    simp only [countValue, getD_optSum_length, List.length_append, List.length_cons]
    omega

/-- The root has the number of all nodes. -/
theorem RepRoot.augOf_rbNode {m : RbMem ℕ} {t : RbTree NodePtr} (h : RepRoot m countSummary.Is t)
    (hne : t.inorder ≠ []) : m.augOf m.rbNode = some t.inorder.length := by
  rw [h.2, Summary.augOf_root h.1, optSum, if_neg hne]
  rfl

/-- The node at `8 * (n + 1)`. -/
def nodeAt (n : Fin 8) : NodePtr where
  word := BitVec.ofNat 64 (8 * (n + 1))
  low := by decide +revert
  ne_zero := by decide +revert

/-- Seven nodes, all but `nodeAt 3`. -/
def sevenTree : RbTree NodePtr :=
  let red x y z := RbTree.node .black (.node .red .nil x .nil) y (.node .red .nil z .nil)
  let leaf x := RbTree.node .black .nil x .nil
  .node .black (.node .red (leaf (nodeAt 0)) (nodeAt 1) (red (nodeAt 2) (nodeAt 4) (nodeAt 5)))
    (nodeAt 6) (leaf (nodeAt 7))

/-- It in memory, field by field. -/
def seven : RbMem ℕ where
  parentColor a := [0, 17, 56, 40, 0, 17, 40, 1, 57].getD (a.toNat / 8) 0
  right a := [0, 0, 40, 0, 0, 48, 0, 64, 0].getD (a.toNat / 8) 0
  left a := [0, 0, 8, 0, 0, 24, 0, 16, 0].getD (a.toNat / 8) 0
  aug a := [0, 1, 5, 1, 1, 3, 1, 7, 1].getD (a.toNat / 8) 0
  rbNode := 56
  rbLeftmost := 8

theorem seven_holds : RbHolds countSummary seven sevenTree where
  rep := by
    refine ⟨?_, rfl⟩
    simp only [sevenTree, Rep, Summary.Is, countSummary]
    decide
  leftmost := rfl
  nodup := by decide
  rooted := ⟨rfl, 2, by simp [sevenTree, RedBlack.Balanced, RedBlack.RbTree.isRed]⟩

/-! ## One call -/

/-- **`rb_add_augmented_cached`** on any tree.  It ends; the node is in the place where a plain
search tree has it, the rules hold, every node has the value of its subtree, and the node is
returned if it is the leftmost one.  No memory is written but that of the tree and of the node.

`haug` is a duty of the caller: the call does not compute the field of the new node itself, which
must have the value of the node alone beforehand, as `__enqueue_task` sets it. -/
theorem rb_add [DecidableEq V] (K : Summary value S) (less : BitVec 64 → BitVec 64 → Bool)
    (x : NodePtr) (h : RbHolds K m t) (hx : x ∉ t.inorder) (hS : ∀ z ∈ x :: t.inorder, S z)
    (haug : m.aug x.word = K.sum [x]) (hfuel : 2 * Nat.log 2 (t.inorder.length + 1) < fuel) :
    ∃ m' t', rbAddAugmentedCached less (declareCallbacks value) fuel m x.word =
        some (m', if t'.inorder.head? = some x then x.word else 0#64) ∧
      RbHolds K m' t' ∧
      t'.inorder = (SearchTree.link (fun a b => less a.word b.word) x t.shape).inorder ∧
      ∀ z, z ∉ x :: t.inorder → SameAt m m' z := by
  have hheight := h.height_le
  obtain ⟨m', hm', h', hsame⟩ := rbAddAugmentedCached_holds less h hx hS haug
    (show t.height < fuel by omega)
  exact ⟨m', _, hm', h', RedBlack.inorder_insert, hsame⟩

/-- `nodeAt 3` goes under a red node with a red sibling: the three cases of `__rb_insert` follow on
one another. -/
theorem rb_add_seven : ∃ m' t',
    rbAddAugmentedCached (fun a b => decide (a < b)) (declareCallbacks countValue) 7 seven
      (nodeAt 3).word = some (m', 0#64) ∧
    RbHolds countSummary m' t' ∧ t'.inorder = (List.finRange 8).map nodeAt ∧
    m'.rbNode = (nodeAt 4).word ∧ m'.augOf m'.rbNode = some 8 := by
  obtain ⟨m', t', hm', h', hin, -⟩ := rb_add countSummary (fun a b => decide (a < b)) (nodeAt 3)
    seven_holds (by decide) (fun _ _ => trivial) (by decide) (show 2 * Nat.log 2 (7 + 1) < 7 by decide)
  have hin' : t'.inorder = (List.finRange 8).map nodeAt := hin.trans (by decide)
  have hroot : (rbAddAugmentedCached (fun a b => decide (a < b)) (declareCallbacks countValue) 7 seven
      (nodeAt 3).word).map (fun r => r.1.rbNode) = some (nodeAt 4).word := by decide
  have haug := h'.rep.augOf_rbNode (by simp [hin'])
  rw [hin'] at hm' haug
  rw [hm'] at hroot
  exact ⟨m', t', hm', h', hin', Option.some.inj hroot, haug⟩

/-- **`rb_erase_augmented_cached`** on any tree.  It ends; the node is out, the others are in the
same order, the rules hold, and every node has the value of its subtree.  No memory is written but
that of the tree. -/
theorem rb_erase [DecidableEq V] (K : Summary value S) (x : NodePtr) (h : RbHolds K m t)
    (hx : x ∈ t.inorder) (hS : ∀ z ∈ t.inorder, S z)
    (hfuel : 2 * Nat.log 2 (t.inorder.length + 1) < fuel) :
    ∃ m' t', rbEraseAugmentedCached (declareCallbacks value) fuel m x.word = some m' ∧
      RbHolds K m' t' ∧ t'.inorder = t.inorder.erase x ∧
      ∀ z, z ∉ t.inorder → SameAt m m' z := by
  have hheight := h.height_le
  exact rbEraseAugmentedCached_holds h hx hS (show t.height < fuel by omega)

/-- The root is taken out.  Its successor is a black leaf, whose place is made good by a rotation at
a red sibling and one more. -/
theorem rb_erase_seven : ∃ m' t',
    rbEraseAugmentedCached (declareCallbacks countValue) 7 seven (nodeAt 6).word = some m' ∧
    RbHolds countSummary m' t' ∧
    t'.inorder = [nodeAt 0, nodeAt 1, nodeAt 2, nodeAt 4, nodeAt 5, nodeAt 7] ∧
    m'.rbNode = (nodeAt 1).word ∧ m'.augOf m'.rbNode = some 6 := by
  obtain ⟨m', t', hm', h', hin, -⟩ := rb_erase countSummary (nodeAt 6) seven_holds (by decide)
    (fun _ _ => trivial) (show 2 * Nat.log 2 (7 + 1) < 7 by decide)
  have hin' : t'.inorder = [nodeAt 0, nodeAt 1, nodeAt 2, nodeAt 4, nodeAt 5, nodeAt 7] :=
    hin.trans (by decide)
  have hroot : (rbEraseAugmentedCached (declareCallbacks countValue) 7 seven (nodeAt 6).word).map
      RbMem.rbNode = some (nodeAt 1).word := by decide
  have haug := h'.rep.augOf_rbNode (by simp [hin'])
  rw [hin'] at haug
  rw [hm'] at hroot
  exact ⟨m', t', hm', h', hin', Option.some.inj hroot, haug⟩

/-! ## Runs -/

/-- **All calls since the tree was empty.**  A user with an order adds nodes that are not there and
takes out nodes that are.  Then every call ends, and the memory holds a red-black tree with the
nodes that are left, sorted; `rb_first_cached` is the first of them, every node has the value of its
subtree, and no path is longer than twice the logarithm of their number. -/
theorem rb_run [DecidableEq V] (K : Summary value S) (key : NodePtr → ℤ)
    (less : BitVec 64 → BitVec 64 → Bool) (ops : List RbOp) {xs : List NodePtr}
    (hless : ∀ a b, S a → S b → (less a.word b.word = true ↔ key a < key b)) (h : m.Empty)
    (hS : ∀ op ∈ ops, S op.node) (hxs : ops.foldlM (RbOp.onList key) [] = some xs)
    (hfuel : 2 * Nat.log 2 (ops.length + 1) < fuel) :
    ∃ m' t, ops.foldlM (rbStep value less fuel) m = some m' ∧
      RepRoot m' K.Is t ∧ t.inorder = xs ∧ m'.rbLeftmost = ptr xs.head? ∧
      (xs.Pairwise fun a b => key a ≤ key b) ∧ Rooted t ∧
      t.height ≤ 2 * Nat.log 2 (xs.length + 1) := by
  obtain ⟨m', hm', ⟨t, ht, rfl⟩, hsort, -⟩ := rbRun_holds hless
    (show RbSorted K key m [] from h.sorted) hS hxs
    (show 2 * Nat.log 2 (([] : List NodePtr).length + ops.length + 1) < fuel by simpa using hfuel)
  exact ⟨m', t, hm', ht.rep, rfl, ht.leftmost, hsort, ht.rooted, ht.height_le⟩

/-- Six calls, the last one for the leftmost node. -/
theorem rb_run_six : ∃ m' t,
    [RbOp.add (nodeAt 4), .add (nodeAt 0), .add (nodeAt 2), .add (nodeAt 6), .add (nodeAt 7),
        .erase (nodeAt 0)].foldlM (rbStep countValue (fun a b => decide (a < b)) 6)
      ⟨0, 0, 0, fun _ => 0, 0#64, 0#64⟩ = some m' ∧
    RepRoot m' countSummary.Is t ∧ t.inorder = [nodeAt 2, nodeAt 4, nodeAt 6, nodeAt 7] ∧
    m'.rbLeftmost = (nodeAt 2).word ∧ m'.augOf m'.rbNode = some 4 ∧ t.height ≤ 4 := by
  obtain ⟨m', t, hm', hrep, hin, hleft, -, -, hheight⟩ := rb_run countSummary
    (fun z => (z.word.toNat : ℤ)) (fun a b => decide (a < b))
    [.add (nodeAt 4), .add (nodeAt 0), .add (nodeAt 2), .add (nodeAt 6), .add (nodeAt 7),
      .erase (nodeAt 0)] (m := ⟨0, 0, 0, fun _ => 0, 0#64, 0#64⟩)
    (fun a b _ _ => by simp [BitVec.lt_def]) ⟨rfl, rfl⟩ (fun _ _ => trivial)
    (show _ = some [nodeAt 2, nodeAt 4, nodeAt 6, nodeAt 7] by decide)
    (show 2 * Nat.log 2 (6 + 1) < 6 by decide)
  have haug := hrep.augOf_rbNode (by simp [hin])
  rw [hin] at haug
  exact ⟨m', t, hm', hrep, hin, hleft, haug, hheight⟩

/-! ## The order -/

/-- **Walking along the order.**  In any tree in memory `rb_first` and `rb_last` return the ends of
the list of the nodes, and `rb_next` and `rb_prev` of a node return its neighbours there. -/
theorem rb_walk (K : Summary value S) (h : RbHolds K m t)
    (hfuel : 2 * Nat.log 2 (t.inorder.length + 1) < fuel) :
    rbFirst fuel m = some (ptr t.inorder.head?) ∧ rbLast fuel m = some (ptr t.inorder.getLast?) ∧
      ∀ xs x ys, t.inorder = xs ++ x :: ys →
        rbNext fuel m x.word = some (ptr ys.head?) ∧
          rbPrev fuel m x.word = some (ptr xs.getLast?) := by
  have hheight := h.height_le
  refine ⟨rbEnd_rep h.rep.1 h.rep.2 (by omega), rbEnd_rep h.rep.1 h.rep.2 (by omega), ?_⟩
  exact fun xs x ys hin => h.beside hin (by omega)

/-- From `nodeAt 5` the walk goes up by three levels to its successor, from `nodeAt 6` down by three
to its predecessor. -/
theorem rb_walk_seven : rbFirst 7 seven = some (nodeAt 0).word ∧
    rbLast 7 seven = some (nodeAt 7).word ∧ rbNext 7 seven (nodeAt 5).word = some (nodeAt 6).word ∧
    rbPrev 7 seven (nodeAt 6).word = some (nodeAt 5).word ∧
    rbNext 7 seven (nodeAt 7).word = some 0#64 := by
  have h := rb_walk countSummary seven_holds (show 2 * Nat.log 2 (7 + 1) < 7 by decide)
  have h5 := h.2.2 [nodeAt 0, nodeAt 1, nodeAt 2, nodeAt 4] (nodeAt 5) [nodeAt 6, nodeAt 7] rfl
  have h6 := h.2.2 [nodeAt 0, nodeAt 1, nodeAt 2, nodeAt 4, nodeAt 5] (nodeAt 6) [nodeAt 7] rfl
  have h7 := h.2.2 [nodeAt 0, nodeAt 1, nodeAt 2, nodeAt 4, nodeAt 5, nodeAt 6] (nodeAt 7) [] rfl
  exact ⟨h.1, h.2.1, h5.1, h6.2, h7.1⟩

end Skyloft
