import Mathlib.Data.List.Nodup
import Mathlib.Data.List.Sort

/-!
# Search trees kept by a balancing library

The user of an intrusive red-black tree walks down by a comparison of its own and links the
new node below the last one it saw; the library then rotates the tree, and takes nodes out.
What the library promises is about the order of the nodes only, so that is all that is asked
of it here, and the shape of the tree is its own affair.

* `SearchTree` — the shape, `SearchTree.inorder` the nodes from left to right.
* `SearchTree.link` — the walk and the new leaf.
* `SearchTree.prunedSearch` — a search that follows a summary of the subtrees.
* `Balancer` — a library that rotates and erases.
* `Balancer.perm_add`, `Balancer.perm_erase` — which nodes are there afterwards.
* `Balancer.sorted_add` — adding along the order keeps the tree sorted.
-/

inductive SearchTree (α : Type*)
  | nil
  | node (l : SearchTree α) (x : α) (r : SearchTree α)

namespace SearchTree

variable {α : Type*}

def inorder : SearchTree α → List α
  | nil => []
  | node l x r => l.inorder ++ x :: r.inorder

/-- The leftmost node. -/
def first : SearchTree α → Option α
  | nil => none
  | node nil x _ => some x
  | node (node l y r) _ _ => (node l y r).first

@[simp] theorem inorder_nil : (nil : SearchTree α).inorder = [] := rfl

@[simp] theorem inorder_node (l r : SearchTree α) (x : α) :
    (node l x r).inorder = l.inorder ++ x :: r.inorder := rfl

theorem first_eq_head (t : SearchTree α) : t.first = t.inorder.head? := by
  induction t with
  | nil => rfl
  | node l x r ihl _ =>
      cases l with
      | nil => rfl
      | node a y b =>
          rw [first, ihl, inorder_node, List.head?_append]
          simp

/-- Walks down by `less` and links the new node there. -/
def link (less : α → α → Bool) (x : α) : SearchTree α → SearchTree α
  | nil => node nil x nil
  | node l y r => if less x y then node (link less x l) y r else node l y (link less x r)

variable {less : α → α → Bool} {x : α}

/-- The new node is somewhere among the others. -/
theorem perm_link (t : SearchTree α) : (t.link less x).inorder.Perm (x :: t.inorder) := by
  induction t with
  | nil => simp [link]
  | node l y r ihl ihr =>
      by_cases h : less x y = true
      · rw [link, if_pos h, inorder_node, inorder_node]
        exact ihl.append_right _
      · rw [link, if_neg h, inorder_node, inorder_node]
        refine ((ihr.cons y).append_left l.inorder).trans ?_
        refine ((List.Perm.swap x y _).append_left l.inorder).trans ?_
        exact List.perm_middle

/-- Where `less` compares keys, the walk keeps the tree sorted. -/
theorem sorted_link {key : α → ℤ} (t : SearchTree α)
    (hless : ∀ y ∈ t.inorder, less x y = true ↔ key x < key y)
    (hs : t.inorder.Pairwise fun a b => key a ≤ key b) :
    (t.link less x).inorder.Pairwise fun a b => key a ≤ key b := by
  induction t with
  | nil => simp [link]
  | node l y r ihl ihr =>
      simp only [inorder_node, List.pairwise_append, List.pairwise_cons, List.mem_cons] at hs
      have hmem : ∀ {t : SearchTree α} {a}, a ∈ (t.link less x).inorder ↔ a = x ∨ a ∈ t.inorder := by
        intro t a
        rw [(perm_link t).mem_iff, List.mem_cons]
      have hy := hless y (by simp)
      by_cases h : less x y = true
      · have hlt := hy.mp h
        rw [link, if_pos h]
        simp only [inorder_node, List.pairwise_append, List.pairwise_cons, List.mem_cons, hmem]
        refine ⟨ihl (fun z hz => hless z (by simp [hz])) hs.1, hs.2.1, ?_⟩
        rintro a (rfl | ha) b (rfl | hb)
        · omega
        · have := hs.2.1.1 b hb
          omega
        · exact hs.2.2 a ha b (.inl rfl)
        · exact hs.2.2 a ha b (.inr hb)
      · have hge : key y ≤ key x := by
          by_contra hlt
          exact h (hy.mpr (by omega))
        rw [link, if_neg h]
        simp only [inorder_node, List.pairwise_append, List.pairwise_cons, List.mem_cons, hmem]
        refine ⟨hs.1, ⟨?_, ihr (fun z hz => hless z (by simp [hz])) hs.2.1.2⟩, ?_⟩
        · rintro b (rfl | hb)
          · exact hge
          · exact hs.2.1.1 b hb
        · rintro a ha b (rfl | rfl | hb)
          · exact hs.2.2 a ha b (.inl rfl)
          · have := hs.2.2 a ha y (.inl rfl)
            omega
          · exact hs.2.2 a ha b (.inr hb)

/-- In a sorted tree the place of the new node does not depend on the shape: it comes after the
nodes with the same key. -/
theorem inorder_link (key : α → ℤ) (t : SearchTree α)
    (hless : ∀ y ∈ t.inorder, less x y = true ↔ key x < key y)
    (hs : t.inorder.Pairwise fun a b => key a ≤ key b) :
    (t.link less x).inorder = t.inorder.orderedInsert (fun a b => key a < key b) x := by
  have hleft : ∀ (y : α) (l r : List α), key x < key y →
      (l ++ y :: r).orderedInsert (fun a b => key a < key b) x =
        l.orderedInsert (fun a b => key a < key b) x ++ y :: r := by
    intro y l r hy
    induction l with
    | nil => simp [hy]
    | cons a l ih =>
        rw [List.cons_append, List.orderedInsert_cons, List.orderedInsert_cons, ih]
        split <;> rfl
  have hright : ∀ l r : List α, (∀ a ∈ l, key a ≤ key x) →
      (l ++ r).orderedInsert (fun a b => key a < key b) x =
        l ++ r.orderedInsert (fun a b => key a < key b) x := by
    intro l r hl
    induction l with
    | nil => rfl
    | cons a l ih =>
        rw [List.cons_append, List.orderedInsert_cons, if_neg (by simpa using hl a (by simp)),
          ih fun b hb => hl b (by simp [hb]), List.cons_append]
  induction t with
  | nil => rfl
  | node l y r ihl ihr =>
      simp only [inorder_node, List.pairwise_append, List.pairwise_cons, List.mem_cons] at hs
      by_cases h : less x y = true
      · rw [link, if_pos h, inorder_node, inorder_node,
          ihl (fun z hz => hless z (by simp [hz])) hs.1, hleft y _ _ ((hless y (by simp)).mp h)]
      · have hy : key y ≤ key x := by
          by_contra hlt
          exact h ((hless y (by simp)).mpr (by omega))
        have hl : ∀ a ∈ l.inorder ++ [y], key a ≤ key x := by
          intro a ha
          rcases List.mem_append.mp ha with ha | ha
          · exact (hs.2.2 a ha y (.inl rfl)).trans hy
          · rwa [List.mem_singleton.mp ha]
        rw [link, if_neg h, inorder_node, inorder_node,
          ihr (fun z hz => hless z (by simp [hz])) hs.2.1.2]
        rw [List.append_cons, ← hright _ _ hl, ← List.append_cons]

/-- A search for the first node with `p`, which goes to the left whenever `q` says that there is
one. -/
def prunedSearch (p : α → Bool) (q : SearchTree α → Bool) : SearchTree α → Option α
  | nil => none
  | node l x r =>
      if q l then prunedSearch p q l else if p x then some x else prunedSearch p q r

/-- A tree with the items of a list. -/
def ofList : List α → SearchTree α
  | [] => nil
  | x :: xs => node nil x (ofList xs)

@[simp] theorem inorder_ofList (xs : List α) : (ofList xs).inorder = xs := by
  induction xs with
  | nil => rfl
  | cons x xs ih => rw [ofList, inorder_node, ih, inorder_nil, List.nil_append]

/-- **The search never has to turn back** when `q` is right about every subtree. -/
theorem prunedSearch_eq_find? {p : α → Bool} {q : SearchTree α → Bool} {t : SearchTree α}
    (hq : ∀ n : SearchTree α, n.inorder ⊆ t.inorder → q n = n.inorder.any p) :
    t.prunedSearch p q = t.inorder.find? p := by
  induction t with
  | nil => rfl
  | node l x r ihl ihr =>
      have hl : ∀ {y}, y ∈ l.inorder → y ∈ (node l x r).inorder := by
        intro y hy
        simp [hy]
      have hr : ∀ {y}, y ∈ r.inorder → y ∈ (node l x r).inorder := by
        intro y hy
        simp [hy]
      rw [prunedSearch, hq l fun y hy => hl hy, ihl fun n hn => hq n fun y hy => hl (hn hy),
        ihr fun n hn => hq n fun y hy => hr (hn hy), inorder_node, List.find?_append,
        List.find?_cons]
      cases hany : l.inorder.any p with
      | true =>
          rw [if_pos rfl]
          obtain ⟨y, hy⟩ := Option.isSome_iff_exists.mp (List.find?_isSome.mpr
            (List.any_eq_true.mp hany))
          rw [hy, Option.some_or]
      | false =>
          have hnone : l.inorder.find? p = none := by
            rw [List.find?_eq_none]
            intro y hy hpy
            have htrue := List.any_eq_true.mpr ⟨y, hy, hpy⟩
            rw [hany] at htrue
            cases htrue
          rw [hnone, Option.none_or, if_neg (by simp)]
          cases p x <;> rfl

end SearchTree

/-- What a balancing library does to a tree. -/
structure Balancer (α : Type*) [DecidableEq α] where
  rotate : SearchTree α → SearchTree α
  erase : α → SearchTree α → SearchTree α
  inorder_rotate : ∀ t, (rotate t).inorder = t.inorder
  inorder_erase : ∀ x t, (erase x t).inorder = t.inorder.erase x

namespace Balancer

variable {α : Type*} [DecidableEq α] (b : Balancer α) {less : α → α → Bool} {x : α}
  {t : SearchTree α}

/-- Adds a node along `less`. -/
def add (less : α → α → Bool) (x : α) (t : SearchTree α) : SearchTree α :=
  b.rotate (t.link less x)

theorem perm_add : (b.add less x t).inorder.Perm (x :: t.inorder) := by
  rw [add, b.inorder_rotate]
  exact t.perm_link

theorem perm_erase (hx : x ∈ t.inorder) : t.inorder.Perm (x :: (b.erase x t).inorder) := by
  rw [b.inorder_erase]
  exact List.perm_cons_erase hx

theorem sorted_add {key : α → ℤ} (hless : ∀ y ∈ t.inorder, less x y = true ↔ key x < key y)
    (hs : t.inorder.Pairwise fun a b => key a ≤ key b) :
    (b.add less x t).inorder.Pairwise fun a b => key a ≤ key b := by
  rw [add, b.inorder_rotate]
  exact t.sorted_link hless hs

theorem sorted_erase {r : α → α → Prop} (hs : t.inorder.Pairwise r) :
    (b.erase x t).inorder.Pairwise r := by
  rw [b.inorder_erase]
  exact hs.sublist List.erase_sublist

/-- A library that never rotates, and rebuilds the tree as a list to erase. -/
def plain : Balancer α where
  rotate t := t
  erase x t := (t.inorder.erase x).foldr (fun y r => .node .nil y r) .nil
  inorder_rotate _ := rfl
  inorder_erase x t := by
    have hlist : ∀ l : List α,
        (l.foldr (fun y r => SearchTree.node .nil y r) .nil).inorder = l := by
      intro l
      induction l with
      | nil => rfl
      | cons y l ih => simp [ih]
    exact hlist _

end Balancer
