import Mathlib.Algebra.Group.Nat.Defs
import Mathlib.Data.List.Basic
import Mathlib.Data.Nat.Log
import Mathlib.Tactic.Tauto
import Skyloft.Lib.SearchTree

/-!
# Red-black trees, from the place of a change upwards

A library that works on parent pointers repairs a tree from the place where it was changed: it
climbs towards the root, recolours, and rotates at most a few times.  Here the place is a path, the
nodes above it with what hangs off to their other side, and the two repairs are recursions over it.
A node has a near and a far child, seen from the side that the repair comes from, so that what is
done from the left is not said again for the right.

## Main definitions

* `RedBlack.RbTree`, `RedBlack.Path`, `RedBlack.plug` — a tree, a place in one, and filling it.
* `RedBlack.Balanced`, `RedBlack.Fits` — the rules on colours, and what may fill a place.
* `RedBlack.insertFix`, `RedBlack.eraseFix` — the repair at a red node below a red one, and at a
  subtree that is one black node short.
* `RedBlack.insert` — a node is added along an order.
* `RedBlack.unlink` — a node is taken out, its successor takes its place.

## Main results

* `RedBlack.inorder_insertFix`, `RedBlack.inorder_erase` — what is in order stays so.
* `RedBlack.rooted_insertFix`, `RedBlack.rooted_erase` — the rules hold afterwards.
* `RedBlack.height_le` — how high a tree can be.
-/

namespace RedBlack

inductive Side
  | left
  | right
  deriving DecidableEq, Repr

inductive Color
  | red
  | black
  deriving DecidableEq, Repr

inductive RbTree (α : Type*)
  | nil
  | node (c : Color) (l : RbTree α) (x : α) (r : RbTree α)
  deriving DecidableEq, Repr

namespace Side

def other : Side → Side
  | left => right
  | right => left

/-- Of a left and a right one, the one on this side. -/
def pick {β : Type*} (l r : β) : Side → β
  | left => l
  | right => r

/-- The elements `near` on this side of `x`, and `far` on the other. -/
def glue {α : Type*} (near : List α) (x : α) (far : List α) : Side → List α
  | left => near ++ x :: far
  | right => far ++ x :: near

@[simp] theorem other_other (d : Side) : d.other.other = d := by cases d <;> rfl

@[simp] theorem other_ne (d : Side) : d.other ≠ d := by cases d <;> simp [other]

@[simp] theorem ne_other (d : Side) : d ≠ d.other := by cases d <;> simp [other]

theorem mem_glue {α : Type*} {d : Side} {a b : List α} {x z : α} :
    z ∈ d.glue a x b ↔ z ∈ a ∨ z = x ∨ z ∈ b := by
  cases d <;> simp only [glue, List.mem_append, List.mem_cons]
  tauto

theorem count_glue {α : Type*} [DecidableEq α] {d : Side} {a b : List α} {x z : α} :
    (d.glue a x b).count z = a.count z + ((x :: b).count z) := by
  cases d <;> simp only [glue, List.count_append, List.count_cons]
  omega

/-- The element at the end on the side `d`. -/
def last {α : Type*} (d : Side) (xs : List α) : Option α := d.pick xs.head? xs.getLast?

theorem last_glue {α : Type*} (d : Side) (a b : List α) (x : α) :
    d.last (d.glue a x b) = some ((d.last a).getD x) := by
  cases d with
  | left => cases a <;> simp [last, pick, glue]
  | right =>
      rcases List.eq_nil_or_concat a with rfl | ⟨a, y, rfl⟩
      · simp [last, pick, glue]
      · simp [last, pick, glue, List.getLast?_cons]

theorem eq_other_of_ne {d e : Side} (h : e ≠ d) : e = d.other := by
  cases d <;> cases e <;> simp_all [other]

end Side

/-! ## Trees and places -/

variable {α : Type*}

namespace RbTree

/-- The node with the child `near` on the side `d`. -/
def mk (d : Side) (c : Color) (near : RbTree α) (x : α) (far : RbTree α) : RbTree α :=
  .node c (d.pick near far) x (d.pick far near)

def inorder : RbTree α → List α
  | nil => []
  | node _ l x r => l.inorder ++ x :: r.inorder

/-- The tree without its colours. -/
def shape : RbTree α → SearchTree α
  | nil => .nil
  | node _ l x r => .node l.shape x r.shape

def height : RbTree α → ℕ
  | nil => 0
  | node _ l _ r => max l.height r.height + 1

def isRed : RbTree α → Bool
  | node .red _ _ _ => true
  | _ => false

/-- The root gets the colour. -/
def paint (c : Color) : RbTree α → RbTree α
  | nil => nil
  | node _ l x r => node c l x r

@[simp] theorem inorder_nil : (nil : RbTree α).inorder = [] := rfl

@[simp] theorem inorder_node (c : Color) (l r : RbTree α) (x : α) :
    (node c l x r).inorder = l.inorder ++ x :: r.inorder := rfl

@[simp] theorem inorder_mk (d : Side) (c : Color) (a b : RbTree α) (x : α) :
    (mk d c a x b).inorder = d.glue a.inorder x b.inorder := by cases d <;> rfl

@[simp] theorem inorder_paint (c : Color) (t : RbTree α) : (t.paint c).inorder = t.inorder := by
  cases t <;> rfl

@[simp] theorem isRed_mk (d : Side) (c : Color) (a b : RbTree α) (x : α) :
    (mk d c a x b).isRed = decide (c = .red) := by
  cases c <;> rfl

@[simp] theorem isRed_node (c : Color) (a b : RbTree α) (x : α) :
    (node c a x b).isRed = decide (c = .red) := by
  cases c <;> rfl

@[simp] theorem isRed_nil : (nil : RbTree α).isRed = false := rfl

@[simp] theorem isRed_paint_black (t : RbTree α) : (t.paint .black).isRed = false := by
  cases t <;> rfl

@[simp] theorem paint_mk (d : Side) (c c' : Color) (a b : RbTree α) (x : α) :
    (mk d c a x b).paint c' = mk d c' a x b := rfl

theorem inorder_shape (t : RbTree α) : t.shape.inorder = t.inorder := by
  induction t with
  | nil => rfl
  | node c l x r ihl ihr => rw [shape, SearchTree.inorder_node, ihl, ihr, inorder_node]

/-- A node, seen from a side. -/
theorem mk_pick (d : Side) (c : Color) (l r : RbTree α) (x : α) :
    mk d c (d.pick l r) x (d.other.pick l r) = node c l x r := by
  cases d <;> rfl

end RbTree

open RbTree

/-- A node above the place: the place is below it on `side`, and `sibling` on the other. -/
structure Crumb (α : Type*) where
  side : Side
  color : Color
  item : α
  sibling : RbTree α

/-- The nodes above a place, from the nearest one to the root. -/
abbrev Path (α : Type*) := List (Crumb α)

/-- The tree with `t` in the place. -/
def plug (t : RbTree α) : Path α → RbTree α
  | [] => t
  | f :: p => plug (mk f.side f.color t f.item f.sibling) p

/-- The elements before the place. -/
def before : Path α → List α
  | [] => []
  | f :: p => before p ++ f.side.pick [] (f.sibling.inorder ++ [f.item])

/-- The elements after the place. -/
def after : Path α → List α
  | [] => []
  | f :: p => f.side.pick (f.item :: f.sibling.inorder) [] ++ after p

theorem inorder_plug (t : RbTree α) (p : Path α) :
    (plug t p).inorder = before p ++ t.inorder ++ after p := by
  induction p generalizing t with
  | nil => simp [plug, before, after]
  | cons f p ih =>
      rw [plug, ih, inorder_mk, before, after]
      cases f.side <;> simp [Side.glue, Side.pick]

/-- What is put in the place matters for the order by its own order only. -/
theorem inorder_plug_congr {t u : RbTree α} (h : t.inorder = u.inorder) (p : Path α) :
    (plug t p).inorder = (plug u p).inorder := by
  rw [inorder_plug, inorder_plug, h]

theorem plug_append (t : RbTree α) (p q : Path α) : plug t (p ++ q) = plug (plug t p) q := by
  induction p generalizing t with
  | nil => rfl
  | cons f p ih => exact ih _

/-- The first node on the way up that the place is not on the side `d` of. -/
def beside (d : Side) : Path α → Option α
  | [] => none
  | f :: p => if f.side = d then beside d p else some f.item

theorem beside_right (p : Path α) : beside .right p = (after p).head? := by
  induction p with
  | nil => rfl
  | cons f p ih => cases hf : f.side <;> simp [beside, after, hf, Side.pick, ih]

theorem beside_left (p : Path α) : beside .left p = (before p).getLast? := by
  induction p with
  | nil => rfl
  | cons f p ih => cases hf : f.side <;> simp [beside, before, hf, Side.pick, ih]

/-- Each element is at a place of its own. -/
theorem exists_plug {t : RbTree α} {x : α} (h : x ∈ t.inorder) :
    ∃ c l r p, t = plug (.node c l x r) p := by
  induction t with
  | nil => cases h
  | node c l y r ihl ihr =>
      rw [inorder_node, List.mem_append, List.mem_cons] at h
      rcases h with h | rfl | h
      · obtain ⟨c', l', r', p, rfl⟩ := ihl h
        exact ⟨c', l', r', p ++ [⟨.left, c, y, r⟩], by rw [plug_append]; rfl⟩
      · exact ⟨c, l, r, [], rfl⟩
      · obtain ⟨c', l', r', p, rfl⟩ := ihr h
        exact ⟨c', l', r', p ++ [⟨.right, c, y, l⟩], by rw [plug_append]; rfl⟩

theorem height_plug (t : RbTree α) (p : Path α) : t.height + p.length ≤ (plug t p).height := by
  induction p generalizing t with
  | nil => exact Nat.le_refl _
  | cons f p ih =>
      have h := ih (mk f.side f.color t f.item f.sibling)
      have hmk : t.height + 1 ≤ (mk f.side f.color t f.item f.sibling).height := by
        cases f.side <;> simp [mk, height, Side.pick]
      rw [plug, List.length_cons]
      omega

/-! ## The rules -/

/-- What a node of the colour adds to the black nodes on the way down. -/
def Color.weigh (n : ℕ) : Color → ℕ
  | .red => n
  | .black => n + 1

/-- No red node has a red child, and each way down passes `n` black nodes. -/
def Balanced : RbTree α → ℕ → Prop
  | .nil, n => n = 0
  | .node .red l _ r, n => (Balanced l n ∧ Balanced r n) ∧ l.isRed = false ∧ r.isRed = false
  | .node .black l _ r, n => ∃ k, n = k + 1 ∧ Balanced l k ∧ Balanced r k

/-- The rules for a whole tree. -/
def Rooted (t : RbTree α) : Prop := t.isRed = false ∧ ∃ n, Balanced t n

@[simp] theorem balanced_mk_red {d : Side} {a b : RbTree α} {x : α} {n : ℕ} :
    Balanced (mk d .red a x b) n ↔
      (Balanced a n ∧ Balanced b n) ∧ a.isRed = false ∧ b.isRed = false := by
  cases d
  · exact Iff.rfl
  · simp only [mk, Side.pick, Balanced]
    tauto

@[simp] theorem balanced_mk_black {d : Side} {a b : RbTree α} {x : α} {n : ℕ} :
    Balanced (mk d .black a x b) n ↔ ∃ k, n = k + 1 ∧ Balanced a k ∧ Balanced b k := by
  cases d
  · exact Iff.rfl
  · simp only [mk, Side.pick, Balanced]
    exact ⟨fun ⟨k, h, hb, ha⟩ => ⟨k, h, ha, hb⟩, fun ⟨k, h, ha, hb⟩ => ⟨k, h, hb, ha⟩⟩

/-- A node of either colour. -/
theorem balanced_mk {d : Side} {c : Color} {a b : RbTree α} {x : α} {n : ℕ} :
    Balanced (mk d c a x b) n ↔ ∃ k, n = c.weigh k ∧ (Balanced a k ∧ Balanced b k) ∧
      (c = .red → a.isRed = false ∧ b.isRed = false) := by
  cases c with
  | red => simp [Color.weigh]
  | black => simp [Color.weigh]

theorem balanced_node {c : Color} {l r : RbTree α} {x : α} {n : ℕ} :
    Balanced (.node c l x r) n ↔ ∃ k, n = c.weigh k ∧ (Balanced l k ∧ Balanced r k) ∧
      (c = .red → l.isRed = false ∧ r.isRed = false) :=
  balanced_mk (d := .left)

/-- A red root that is painted black adds to every way. -/
theorem Balanced.paint_black {t : RbTree α} {n : ℕ} (h : Balanced t n) (hr : t.isRed = true) :
    Balanced (t.paint .black) (n + 1) := by
  match t, hr with
  | .node .red l x r, _ => exact ⟨n, rfl, h.1⟩

/-- The root can be red. -/
def Path.takesRed : Path α → Bool
  | [] => false
  | f :: _ => decide (f.color = .black)

/-- With `n` black nodes on each way through the place the rules hold of the whole tree. -/
def Fits : Path α → ℕ → Prop
  | [], _ => True
  | f :: p, n => Balanced f.sibling n ∧
      (f.color = .red → f.sibling.isRed = false ∧ Path.takesRed p = true) ∧
      Fits p (f.color.weigh n)

theorem rooted_plug_iff {t : RbTree α} {p : Path α} :
    Rooted (plug t p) ↔ ∃ n, Fits p n ∧ Balanced t n ∧ (t.isRed = true → Path.takesRed p = true) := by
  induction p generalizing t with
  | nil =>
      rw [plug, Rooted]
      cases ht : t.isRed <;> simp [Fits, Path.takesRed]
  | cons f p ih =>
      rw [plug, ih]
      simp only [balanced_mk, isRed_mk, decide_eq_true_eq, Fits, Path.takesRed]
      constructor
      · rintro ⟨n, hp, ⟨k, rfl, ⟨ht, hs⟩, hred⟩, htop⟩
        refine ⟨k, ⟨hs, fun hc => ⟨(hred hc).2, htop hc⟩, hp⟩, ht, fun htr => ?_⟩
        cases hc : f.color with
        | black => rfl
        | red => simp [htr] at hred; exact absurd hc hred
      · rintro ⟨n, ⟨hs, hred, hp⟩, ht, htr⟩
        refine ⟨_, hp, ⟨n, rfl, ⟨ht, hs⟩, fun hc => ⟨?_, (hred hc).1⟩⟩, fun hc => (hred hc).2⟩
        cases hr : t.isRed with
        | false => rfl
        | true =>
            have hblack := htr hr
            rw [hc] at hblack
            cases hblack

/-! ## A red node below a red one -/

/-- The repair above the red root of `t`. -/
def insertFix (t : RbTree α) : Path α → RbTree α
  | [] => t.paint .black
  | f :: p =>
      match f.color, p with
      | .black, p => plug t (f :: p)
      | .red, [] => plug t [f]
      | .red, g :: p =>
          if g.sibling.isRed then
            insertFix (mk g.side .red (mk f.side .black t f.item f.sibling) g.item
              (g.sibling.paint .black)) p
          else if f.side = g.side then
            plug (mk g.side .black t f.item (mk g.side .red f.sibling g.item g.sibling)) p
          else
            match t with
            | .nil => plug .nil (f :: g :: p)
            | .node _ l x r =>
                plug (mk g.side .black (mk g.side .red f.sibling f.item (g.side.pick l r)) x
                  (mk g.side .red (g.side.other.pick l r) g.item g.sibling)) p

alias insertFix_def := insertFix.eq_def

section

variable {t : RbTree α} {f g : Crumb α} {p : Path α}

theorem insertFix_black (hf : f.color = .black) : insertFix t (f :: p) = plug t (f :: p) := by
  simp [insertFix, hf]

/-- The uncle is red. -/
theorem insertFix_uncle (hf : f.color = .red) (hu : g.sibling.isRed = true) :
    insertFix t (f :: g :: p) =
      insertFix (mk g.side .red (mk f.side .black t f.item f.sibling) g.item
        (g.sibling.paint .black)) p := by
  rw [insertFix_def]
  simp [hf, hu]

/-- One rotation. -/
theorem insertFix_outer (hf : f.color = .red) (hu : g.sibling.isRed = false)
    (hside : f.side = g.side) :
    insertFix t (f :: g :: p) =
      plug (mk g.side .black t f.item (mk g.side .red f.sibling g.item g.sibling)) p := by
  rw [insertFix_def]
  simp [hf, hu, hside]

/-- Two rotations. -/
theorem insertFix_inner {c : Color} {l r : RbTree α} {x : α} (hf : f.color = .red)
    (hu : g.sibling.isRed = false) (hside : f.side = g.side.other) :
    insertFix (.node c l x r) (f :: g :: p) =
      plug (mk g.side .black (mk g.side .red f.sibling f.item (g.side.pick l r)) x
        (mk g.side .red (g.side.other.pick l r) g.item g.sibling)) p := by
  simp [insertFix, hf, hu, hside]

end

theorem inorder_insertFix (t : RbTree α) (p : Path α) :
    (insertFix t p).inorder = before p ++ t.inorder ++ after p := by
  rw [← inorder_plug]
  fun_induction insertFix t p with
  | case1 t => rw [plug, inorder_paint]
  | case2 => rfl
  | case3 => rfl
  | case4 t f g p hf hred ih =>
      rw [ih, plug, plug]
      refine inorder_plug_congr ?_ p
      cases g.side <;> simp [Side.glue]
  | case5 t f g p hf hred hside =>
      rw [plug, plug, hside]
      refine inorder_plug_congr ?_ p
      cases g.side <;> simp [Side.glue]
  | case6 => rfl
  | case7 f g p hf hred hside c l x r =>
      rw [plug, plug, Side.eq_other_of_ne hside]
      refine inorder_plug_congr ?_ p
      cases g.side <;> simp [Side.glue, Side.other, Side.pick]

/-- **The repair of an insertion.** A red root that may be below a red node leaves no other rule
broken. -/
theorem rooted_insertFix {t : RbTree α} {p : Path α} {n : ℕ} (ht : Balanced t n)
    (hred : t.isRed = true) (hp : Fits p n) : Rooted (insertFix t p) := by
  fun_induction insertFix t p generalizing n with
  | case1 t => exact ⟨isRed_paint_black t, _, ht.paint_black hred⟩
  | case2 t f p hf =>
      exact rooted_plug_iff.mpr ⟨n, hp, ht, fun _ => by simp [Path.takesRed, hf]⟩
  | case3 t f hf =>
      obtain ⟨-, hroot, -⟩ := hp
      cases (hroot hf).2
  | case4 t f g p hf hs ih =>
      obtain ⟨hfs, hfr, hgs, hgr, hp⟩ := hp
      have hg : g.color = .black := of_decide_eq_true (hfr hf).2
      simp only [hf, hg, Color.weigh] at hgs hp
      refine ih ?_ (isRed_mk ..) hp
      exact balanced_mk_red.mpr ⟨⟨balanced_mk_black.mpr ⟨n, rfl, ht, hfs⟩, hgs.paint_black hs⟩,
        isRed_mk .., isRed_paint_black _⟩
  | case5 t f g p hf hs hside =>
      obtain ⟨hfs, hfr, hgs, hgr, hp⟩ := hp
      have hg : g.color = .black := of_decide_eq_true (hfr hf).2
      simp only [hf, hg, Color.weigh] at hgs hp
      refine rooted_plug_iff.mpr ⟨n + 1, hp, balanced_mk_black.mpr ⟨n, rfl, ht, ?_⟩, by simp⟩
      exact balanced_mk_red.mpr ⟨⟨hfs, hgs⟩, (hfr hf).1, by simpa using hs⟩
  | case6 => cases hred
  | case7 f g p hf hs hside c l x r =>
      obtain ⟨hfs, hfr, hgs, hgr, hp⟩ := hp
      have hg : g.color = .black := of_decide_eq_true (hfr hf).2
      simp only [hf, hg, Color.weigh] at hgs hp
      have hc : c = .red := by simpa using hred
      subst hc
      obtain ⟨⟨hl, hr⟩, hlr, hrr⟩ := ht
      refine rooted_plug_iff.mpr ⟨n + 1, hp, balanced_mk_black.mpr ⟨n, rfl, ?_, ?_⟩, by simp⟩
      · refine balanced_mk_red.mpr ⟨⟨hfs, ?_⟩, (hfr hf).1, ?_⟩ <;> cases g.side <;> assumption
      · refine balanced_mk_red.mpr ⟨⟨?_, hgs⟩, ?_, by simpa using hs⟩ <;> cases g.side <;> assumption

/-! ## A new node -/

/-- The way from the top of `t` to where the new node belongs. -/
def descend (less : α → α → Bool) (x : α) : RbTree α → Path α → Path α
  | .nil, p => p
  | .node c l y r, p =>
      if less x y then descend less x l (⟨.left, c, y, r⟩ :: p)
      else descend less x r (⟨.right, c, y, l⟩ :: p)

/-- The tree with the node that is new. -/
def insert (less : α → α → Bool) (x : α) (t : RbTree α) : RbTree α :=
  insertFix (.node .red .nil x .nil) (descend less x t [])

section

variable {less : α → α → Bool} {x : α} {t : RbTree α} {p : Path α}

theorem plug_descend : plug .nil (descend less x t p) = plug t p := by
  fun_induction descend less x t p with
  | case1 => rfl
  | case2 p c l y r h ih => exact ih
  | case3 p c l y r h ih => exact ih

theorem length_descend : (descend less x t p).length ≤ t.height + p.length := by
  fun_induction descend less x t p with
  | case1 => simp [height]
  | case2 p c l y r h ih =>
      rw [List.length_cons] at ih
      rw [height]
      omega
  | case3 p c l y r h ih =>
      rw [List.length_cons] at ih
      rw [height]
      omega

/-- The new node stands where a plain search tree has it. -/
theorem inorder_descend :
    before (descend less x t p) ++ x :: after (descend less x t p) =
      before p ++ (t.shape.link less x).inorder ++ after p := by
  fun_induction descend less x t p with
  | case1 => simp [shape, SearchTree.link]
  | case2 p c l y r h ih =>
      rw [ih, shape, SearchTree.link, if_pos h, before, after, SearchTree.inorder_node, inorder_shape]
      simp [Side.pick]
  | case3 p c l y r h ih =>
      rw [ih, shape, SearchTree.link, if_neg h, before, after, SearchTree.inorder_node, inorder_shape]
      simp [Side.pick]

theorem inorder_insert : (insert less x t).inorder = (t.shape.link less x).inorder := by
  have h := @inorder_descend α less x t []
  rw [insert, inorder_insertFix]
  simpa [before, after] using h

theorem rooted_insert (h : Rooted t) : Rooted (insert less x t) := by
  have hplug : Rooted (plug .nil (descend less x t [])) := by
    rw [plug_descend]
    exact h
  obtain ⟨n, hp, hn, -⟩ := rooted_plug_iff.mp hplug
  exact rooted_insertFix ⟨⟨hn, hn⟩, rfl, rfl⟩ rfl hp

end

/-! ## A subtree that is one black node short -/

/-- The place `t` of the node `p` is short and its sibling is the black node `s`.  The subtree
instead, and whether it is short in its turn. -/
def settle (d : Side) (c : Color) (t : RbTree α) (p : α) (sl : RbTree α) (s : α) (sr : RbTree α) :
    RbTree α × Bool :=
  if (d.other.pick sl sr).isRed then
    (mk d c (mk d .black t p (d.pick sl sr)) s ((d.other.pick sl sr).paint .black), false)
  else
    match d.pick sl sr with
    | .node .red nl n nr =>
        (mk d c (mk d .black t p (d.pick nl nr)) n
          (mk d .black (d.other.pick nl nr) s (d.other.pick sl sr)), false)
    | _ => (mk d .black t p (.node .red sl s sr), decide (c = .black))

/-- The repair above the subtree `t`. -/
def eraseFix (t : RbTree α) : Path α → RbTree α
  | [] => t
  | f :: p =>
      match f.sibling with
      | .nil => plug t (f :: p)
      | .node .black sl s sr =>
          let u := settle f.side f.color t f.item sl s sr
          if u.2 then eraseFix u.1 p else plug u.1 p
      | .node .red sl s sr =>
          -- the red sibling goes up, and its near child is the sibling then
          match f.side.pick sl sr with
          | .nil => plug t (f :: p)
          | .node _ nl n nr =>
              let u := settle f.side .red t f.item nl n nr
              plug (mk f.side .black u.1 s (f.side.other.pick sl sr)) p

/-- A red node takes what is short below it. -/
theorem settle_red (d : Side) (t : RbTree α) (p : α) (sl : RbTree α) (s : α) (sr : RbTree α) :
    (settle d .red t p sl s sr).2 = false := by
  fun_cases settle d .red t p sl s sr with
  | case1 => rfl
  | case2 => rfl
  | case3 => rfl

theorem eraseFix_black {t sl sr : RbTree α} {s : α} {f : Crumb α} {p : Path α}
    (hs : f.sibling = .node .black sl s sr) :
    eraseFix t (f :: p) = if (settle f.side f.color t f.item sl s sr).2 then
      eraseFix (settle f.side f.color t f.item sl s sr).1 p
    else plug (settle f.side f.color t f.item sl s sr).1 p := by
  rw [eraseFix, hs]

theorem eraseFix_red {t sl sr nl nr : RbTree α} {s n : α} {c : Color} {f : Crumb α} {p : Path α}
    (hs : f.sibling = .node .red sl s sr) (hnear : f.side.pick sl sr = .node c nl n nr) :
    eraseFix t (f :: p) =
      plug (mk f.side .black (settle f.side .red t f.item nl n nr).1 s (f.side.other.pick sl sr))
        p := by
  rw [eraseFix, hs]
  simp only [hnear]

theorem inorder_settle (d : Side) (c : Color) (t : RbTree α) (p : α) (sl : RbTree α) (s : α)
    (sr : RbTree α) :
    (settle d c t p sl s sr).1.inorder = d.glue t.inorder p (RbTree.node c sl s sr).inorder := by
  fun_cases settle d c t p sl s sr with
  | case1 => cases d <;> simp [Side.glue, Side.pick, Side.other]
  | case2 hfar nl n nr hnear =>
      cases d <;> simp only [Side.pick] at hnear <;>
        simp [Side.glue, Side.pick, Side.other, hnear]
  | case3 => cases d <;> simp [Side.glue]

theorem inorder_eraseFix (t : RbTree α) (p : Path α) :
    (eraseFix t p).inorder = before p ++ t.inorder ++ after p := by
  rw [← inorder_plug]
  fun_induction eraseFix t p with
  | case1 => rfl
  | case2 => rfl
  | case3 t f p sl s sr hs u hu ih =>
      rw [ih, plug, hs]
      refine inorder_plug_congr ?_ p
      rw [inorder_settle, inorder_mk]
      rfl
  | case4 t f p sl s sr hs u hu =>
      rw [plug, hs]
      refine inorder_plug_congr ?_ p
      rw [inorder_settle, inorder_mk]
      rfl
  | case5 => rfl
  | case6 t f p sl s sr hs c nl n nr hnear u =>
      rw [plug, hs]
      refine inorder_plug_congr ?_ p
      rw [inorder_mk, inorder_settle, inorder_mk]
      have hin := congrArg inorder hnear
      revert hin
      cases f.side <;> simp +contextual [Side.glue, Side.pick, Side.other]

/-- What `settle` makes of a place with `n` black nodes and a sibling with one more. -/
theorem balanced_settle {d : Side} {c : Color} {t : RbTree α} {p : α} {sl : RbTree α} {s : α}
    {sr : RbTree α} {n : ℕ} (ht : Balanced t n) (hl : Balanced sl n)
    (hr : Balanced sr n) :
    let u := settle d c t p sl s sr
    (u.2 = true → c = .black) ∧ (u.1.isRed = true → c = .red) ∧
      Balanced u.1 (if u.2 then n + 1 else c.weigh (n + 1)) := by
  have hpick : ∀ e : Side, Balanced (e.pick sl sr) n := fun e => by cases e <;> assumption
  fun_cases settle d c t p sl s sr with
  | case1 hfar =>
      refine ⟨by simp, by simp, balanced_mk.mpr ⟨n + 1, rfl, ⟨?_, ?_⟩, fun _ => ⟨?_, ?_⟩⟩⟩
      · exact balanced_mk_black.mpr ⟨n, rfl, ht, hpick d⟩
      · exact (hpick _).paint_black hfar
      · simp
      · exact isRed_paint_black _
  | case2 hfar nl m nr hnear =>
      have hm := hpick d
      rw [hnear] at hm
      have hkids : ∀ e : Side, Balanced (e.pick nl nr) n := fun e => by
        cases e
        · exact hm.1.1
        · exact hm.1.2
      refine ⟨by simp, by simp, balanced_mk.mpr ⟨n + 1, rfl, ⟨?_, ?_⟩, fun _ => by simp⟩⟩
      · exact balanced_mk_black.mpr ⟨n, rfl, ht, hkids d⟩
      · exact balanced_mk_black.mpr ⟨n, rfl, hkids _, hpick _⟩
  | case3 hfar hnear =>
      have hsides : ∀ e : Side, (e.pick sl sr).isRed = false := by
        intro e
        by_cases he : e = d
        · cases hd : e.pick sl sr with
          | nil => rfl
          | node ce a x b =>
              cases ce with
              | black => rfl
              | red => exact absurd (he ▸ hd) (hnear a x b)
        · rw [Side.eq_other_of_ne he]
          simpa using hfar
      have hmk : Balanced (mk d .black t p (.node .red sl s sr)) (n + 1) :=
        balanced_mk_black.mpr ⟨n, rfl, ht, ⟨hl, hr⟩, hsides .left, hsides .right⟩
      refine ⟨of_decide_eq_true, by simp, ?_⟩
      cases c <;> exact hmk

/-- **The repair of a removal.** A black root that is one black node short leaves no other rule
broken. -/
theorem rooted_eraseFix {t : RbTree α} {p : Path α} {n : ℕ} (ht : Balanced t n)
    (hblack : t.isRed = false) (hp : Fits p (n + 1)) : Rooted (eraseFix t p) := by
  fun_induction eraseFix t p generalizing n with
  | case1 t => exact ⟨hblack, n, ht⟩
  | case2 t f p hs =>
      obtain ⟨hsib, -⟩ := hp
      rw [hs] at hsib
      cases hsib
  | case3 t f p sl s sr hs u hu =>
      rename_i ih
      obtain ⟨hsib, -, hp⟩ := hp
      rw [hs] at hsib
      obtain ⟨k, hk, hl, hr⟩ := hsib
      cases hk
      obtain ⟨hc, hr', hbal⟩ := balanced_settle (d := f.side) (c := f.color) (p := f.item) (s := s)
        ht hl hr
      have hcol := hc hu
      rw [hcol] at hp
      rw [if_pos hu] at hbal
      exact ih hbal (Bool.eq_false_iff.mpr fun h => by cases hcol.symm.trans (hr' h)) hp
  | case4 t f p sl s sr hs u =>
      rename_i hu
      obtain ⟨hsib, hfr, hp⟩ := hp
      rw [hs] at hsib
      obtain ⟨k, hk, hl, hr⟩ := hsib
      cases hk
      obtain ⟨-, hr', hbal⟩ := balanced_settle (d := f.side) (c := f.color) (p := f.item) (s := s)
        ht hl hr
      rw [if_neg hu] at hbal
      exact rooted_plug_iff.mpr ⟨_, hp, hbal, fun h => (hfr (hr' h)).2⟩
  | case5 t f p sl s sr hs hnear =>
      obtain ⟨hsib, -⟩ := hp
      rw [hs] at hsib
      have hpick : Balanced (f.side.pick sl sr) (n + 1) := by
        cases f.side
        · exact hsib.1.1
        · exact hsib.1.2
      rw [hnear] at hpick
      cases hpick
  | case6 t f p sl s sr hs c nl m nr hnear =>
      obtain ⟨hsib, hfr, hp⟩ := hp
      rw [hs] at hsib hfr
      have hf : f.color = .black := by
        cases hc : f.color with
        | black => rfl
        | red => cases (hfr hc).1
      have hpick : ∀ e : Side, Balanced (e.pick sl sr) (n + 1) ∧ (e.pick sl sr).isRed = false := by
        intro e
        cases e
        · exact ⟨hsib.1.1, hsib.2.1⟩
        · exact ⟨hsib.1.2, hsib.2.2⟩
      obtain ⟨hbal, hm⟩ := hpick f.side
      rw [hnear] at hbal hm
      cases c with
      | red => cases hm
      | black =>
          obtain ⟨k, hk, hl, hr⟩ := hbal
          cases hk
          obtain ⟨hshort, -, hbal⟩ := balanced_settle (d := f.side) (c := .red) (p := f.item) (s := m)
            ht hl hr
          rw [if_neg fun h => by cases hshort h] at hbal
          rw [hf] at hp
          exact rooted_plug_iff.mpr ⟨_, hp, balanced_mk_black.mpr ⟨_, rfl, hbal, (hpick _).1⟩, by simp⟩

/-! ## A node is taken out -/

/-- The way to the leftmost node below the path `q`: the path, and the node without its left
child. -/
def minPath : Color → RbTree α → α → RbTree α → Path α → Path α × Color × α × RbTree α
  | c, .nil, x, r, q => (q, c, x, r)
  | c, .node c' l' x' r', x, r, q => minPath c' l' x' r' (⟨.left, c, x, r⟩ :: q)

/-- Whether the place of a node with the colour `c` is short once `t` is there alone. -/
def short (c : Color) : RbTree α → Bool
  | .nil => decide (c = .black)
  | .node .. => false

/-- Takes out the node between `l` and `r`: what takes the place where a node is missing, the path
to there, and whether that place is one black node short. -/
def unlink (c : Color) (l r : RbTree α) (p : Path α) : RbTree α × Path α × Bool :=
  match l, r with
  | .nil, r => (r.paint c, p, short c r)
  | l, .nil => (l.paint c, p, false)
  | l, .node cr rl y rr =>
      -- the successor takes the place and the colour of the node
      let m := minPath cr rl y rr []
      (m.2.2.2.paint .black, m.1 ++ ⟨.right, c, m.2.2.1, l⟩ :: p, short m.2.1 m.2.2.2)

/-- The tree without the node between `l` and `r`. -/
def erase (c : Color) (l r : RbTree α) (p : Path α) : RbTree α :=
  let u := unlink c l r p
  if u.2.2 then eraseFix u.1 u.2.1 else plug u.1 u.2.1

theorem plug_minPath (c : Color) (l : RbTree α) (x : α) (r : RbTree α) (q : Path α) :
    let m := minPath c l x r q
    plug (.node m.2.1 .nil m.2.2.1 m.2.2.2) m.1 = plug (.node c l x r) q := by
  fun_induction minPath c l x r q with
  | case1 => rfl
  | case2 c x r q c' l' x' r' ih => exact ih

/-- Nothing comes before the leftmost node. -/
theorem before_minPath (c : Color) (l : RbTree α) (x : α) (r : RbTree α) (q : Path α) :
    before (minPath c l x r q).1 = before q := by
  fun_induction minPath c l x r q with
  | case1 => rfl
  | case2 c x r q c' l' x' r' ih => rw [ih, before, Side.pick, List.append_nil]

theorem length_minPath (c : Color) (l : RbTree α) (x : α) (r : RbTree α) (q : Path α) :
    (minPath c l x r q).1.length ≤ l.height + q.length := by
  fun_induction minPath c l x r q with
  | case1 => simp [height]
  | case2 c x r q c' l' x' r' ih =>
      rw [height]
      simp only [List.length_cons] at ih
      omega

theorem minPath_left {c : Color} {l : RbTree α} {x : α} {r : RbTree α} {q : Path α}
    (h : ∀ f ∈ q, f.side = .left) : ∀ f ∈ (minPath c l x r q).1, f.side = .left := by
  fun_induction minPath c l x r q with
  | case1 => exact h
  | case2 c x r q c' l' x' r' ih => exact ih (List.forall_mem_cons.mpr ⟨rfl, h⟩)

theorem before_append (p q : Path α) : before (p ++ q) = before q ++ before p := by
  induction p with
  | nil => simp [before]
  | cons f p ih => simp [before, ih]

theorem after_append (p q : Path α) : after (p ++ q) = after p ++ after q := by
  induction p with
  | nil => simp [after]
  | cons f p ih => simp [after, ih]

/-- The leftmost node and what comes after it. -/
theorem inorder_minPath (c : Color) (l : RbTree α) (x : α) (r : RbTree α) :
    let m := minPath c l x r []
    l.inorder ++ x :: r.inorder = m.2.2.1 :: (m.2.2.2.inorder ++ after m.1) := by
  have h := congrArg inorder (plug_minPath c l x r [])
  rw [inorder_plug, inorder_plug, before_minPath] at h
  simpa [before, after] using h.symm

theorem inorder_unlink (c : Color) (l r : RbTree α) (p : Path α) :
    (plug (unlink c l r p).1 (unlink c l r p).2.1).inorder =
      before p ++ (l.inorder ++ r.inorder) ++ after p := by
  rw [inorder_plug]
  fun_cases unlink c l r p with
  | case1 => simp
  | case2 => simp
  | case3 l cr rl y rr hl m =>
      have hin : rl.inorder ++ y :: rr.inorder = m.2.2.1 :: (m.2.2.2.inorder ++ after m.1) :=
        inorder_minPath cr rl y rr
      have hbefore : before m.1 = [] := before_minPath cr rl y rr []
      rw [inorder_node, hin, before_append, after_append, hbefore, inorder_paint]
      simp [before, after, Side.pick]

theorem unlink_short {c : Color} {l r : RbTree α} {p : Path α} (h : (unlink c l r p).2.2 = true) :
    (unlink c l r p).1 = .nil := by
  have hshort : ∀ {e c : Color} {t : RbTree α}, short c t = true → t.paint e = .nil := by
    intro e c t ht
    cases t with
    | nil => rfl
    | node => cases ht
  revert h
  fun_cases unlink c l r p with
  | case1 => exact hshort
  | case2 => simp
  | case3 => exact hshort

theorem length_unlink (c : Color) (l r : RbTree α) (x : α) (p : Path α) :
    (unlink c l r p).2.1.length ≤ (node c l x r).height + p.length := by
  fun_cases unlink c l r p with
  | case1 => simp
  | case2 => simp
  | case3 l cr rl y rr hl m =>
      have hm : m.1.length ≤ rl.height + 0 := length_minPath cr rl y rr []
      simp only [height, List.length_append, List.length_cons]
      omega

theorem inorder_erase (c : Color) (l r : RbTree α) (p : Path α) :
    (erase c l r p).inorder = before p ++ (l.inorder ++ r.inorder) ++ after p := by
  rw [← inorder_unlink, erase]
  split
  · rw [inorder_eraseFix, inorder_plug]
  · rfl

/-- An only child is red, and the leaf that it is painted into is black. -/
theorem only_child {d : Side} {c : Color} {t : RbTree α} {x : α} {n : ℕ}
    (h : Balanced (mk d c .nil x t) n) :
    (t = .nil ∧ n = c.weigh 0) ∨ (c = .black ∧ n = 1 ∧ Balanced (t.paint .black) 1) := by
  obtain ⟨k, rfl, ⟨hk, ht⟩, hred⟩ := balanced_mk.mp h
  cases hk
  match t, c with
  | .nil, c => exact .inl ⟨rfl, rfl⟩
  | .node .black a y b, c =>
      obtain ⟨k, hk, -⟩ := ht
      cases hk
  | .node .red a y b, .red => cases (hred rfl).2
  | .node .red a y b, .black => exact .inr ⟨rfl, rfl, ht.paint_black rfl⟩

/-- What stands in the nodes above a place does not matter for the rules. -/
theorem fits_item {q p : Path α} {d : Side} {c : Color} {t : RbTree α} {x y : α} {n : ℕ} :
    (Fits (q ++ ⟨d, c, x, t⟩ :: p) n → Fits (q ++ ⟨d, c, y, t⟩ :: p) n) ∧
      Path.takesRed (q ++ ⟨d, c, x, t⟩ :: p) = Path.takesRed (q ++ ⟨d, c, y, t⟩ :: p) := by
  induction q generalizing n with
  | nil => exact ⟨id, rfl⟩
  | cons f q ih =>
      refine ⟨fun ⟨hs, hred, hp⟩ => ⟨hs, fun hf => ?_, ih.1 hp⟩, rfl⟩
      have htop := (ih (n := n)).2
      exact ⟨(hred hf).1, htop ▸ (hred hf).2⟩

/-- What `unlink` leaves in the place. -/
def Left (u : RbTree α × Path α × Bool) : Prop :=
  ∃ k, Balanced u.1 k ∧ u.1.isRed = false ∧ Fits u.2.1 (if u.2.2 then k + 1 else k)

/-- The node with the only child `t` goes, where a child is painted `e`. -/
theorem left_only_child {d : Side} {c e : Color} {t : RbTree α} {x : α} {n : ℕ} {p : Path α}
    (h : Balanced (mk d c .nil x t) n) (hp : Fits p n) (he : c = .black → e = .black) :
    Left (t.paint e, p, short c t) := by
  rcases only_child h with ⟨rfl, rfl⟩ | ⟨hc, rfl, ht⟩
  · refine ⟨0, rfl, rfl, ?_⟩
    cases c <;> exact hp
  · rw [he hc]
    cases t with
    | nil => cases ht
    | node ct a y b => exact ⟨1, ht, rfl, hp⟩

/-- The successor's place, once the successor has moved up. -/
theorem successor_fits {c cr : Color} {l rl rr : RbTree α} {x y : α} {p : Path α}
    (h : Rooted (plug (.node c l x (.node cr rl y rr)) p)) :
    let m := minPath cr rl y rr []
    ∃ k, Fits (m.1 ++ ⟨.right, c, m.2.2.1, l⟩ :: p) k ∧
      Balanced (mk .left m.2.1 .nil m.2.2.1 m.2.2.2) k := by
  intro m
  have hm : plug (mk .left m.2.1 .nil m.2.2.1 m.2.2.2) m.1 = .node cr rl y rr :=
    plug_minPath cr rl y rr []
  have hplug : plug (mk .left m.2.1 .nil m.2.2.1 m.2.2.2) (m.1 ++ ⟨.right, c, x, l⟩ :: p) =
      plug (.node c l x (.node cr rl y rr)) p := by
    rw [plug_append, hm]
    rfl
  rw [← hplug] at h
  obtain ⟨k, hfits, hbal, -⟩ := rooted_plug_iff.mp h
  exact ⟨k, fits_item.1 hfits, hbal⟩

theorem left_unlink {c : Color} {l r : RbTree α} {x : α} {p : Path α}
    (h : Rooted (plug (.node c l x r) p)) : Left (unlink c l r p) := by
  obtain ⟨n, hp, hn, -⟩ := rooted_plug_iff.mp h
  fun_cases unlink c l r p with
  | case1 => exact left_only_child (d := .left) hn hp id
  | case2 l hl =>
      have hleft := left_only_child (d := .right) (t := l) hn hp id
      cases l with
      | nil => exact absurd rfl hl
      | node ct a y b => exact hleft
  | case3 l cr rl y rr hl m =>
      obtain ⟨k, hq, hm⟩ := successor_fits h
      exact left_only_child (d := .left) hm hq fun _ => rfl

theorem rooted_erase {c : Color} {l r : RbTree α} {x : α} {p : Path α}
    (h : Rooted (plug (.node c l x r) p)) : Rooted (erase c l r p) := by
  obtain ⟨k, hk, hblack, hfits⟩ := left_unlink h
  rw [erase]
  cases hu : (unlink c l r p).2.2 with
  | true =>
      rw [hu, if_pos rfl] at hfits
      rw [if_pos rfl]
      exact rooted_eraseFix hk hblack hfits
  | false =>
      rw [hu, if_neg (by simp)] at hfits
      rw [if_neg (by simp)]
      exact rooted_plug_iff.mpr ⟨k, hfits, hk, fun hr => by rw [hblack] at hr; cases hr⟩

/-! ## Height -/

/-- A tree has nodes enough for its black ones, and twice as many levels at most. -/
theorem two_pow_le {t : RbTree α} {n : ℕ} (h : Balanced t n) :
    2 ^ n ≤ t.inorder.length + 1 ∧ t.height ≤ 2 * n + if t.isRed then 1 else 0 := by
  induction t generalizing n with
  | nil =>
      cases h
      simp [height]
  | node c l x r ihl ihr =>
      obtain ⟨k, rfl, ⟨hl, hr⟩, hred⟩ := balanced_node.mp h
      obtain ⟨hlpow, hlh⟩ := ihl hl
      obtain ⟨hrpow, hrh⟩ := ihr hr
      rw [inorder_node, List.length_append, List.length_cons, height]
      cases c with
      | red =>
          rw [(hred rfl).1] at hlh
          rw [(hred rfl).2] at hrh
          simp only [Color.weigh, isRed_node] at *
          exact ⟨by omega, by simp at *; omega⟩
      | black =>
          have hup : ∀ b : Bool, (if b then 1 else 0) ≤ 1 := fun b => by cases b <;> simp
          have hlup := hup l.isRed
          have hrup := hup r.isRed
          simp only [Color.weigh, isRed_node, Nat.pow_succ] at *
          exact ⟨by omega, by simp; omega⟩

/-- **The height.** -/
theorem height_le {t : RbTree α} (h : Rooted t) : t.height ≤ 2 * Nat.log 2 (t.inorder.length + 1) := by
  obtain ⟨hblack, n, hn⟩ := h
  obtain ⟨hpow, hheight⟩ := two_pow_le hn
  rw [hblack] at hheight
  have hlog := Nat.le_log_of_pow_le (by omega) hpow
  simp at hheight
  omega

end RedBlack
