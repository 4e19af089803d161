import Mathlib.Data.List.Nodup
import Mathlib.Logic.Function.Basic

/-!
# Linked lists in memory

A list whose nodes carry the pointer to the next one, as a function from nodes to pointers.

* `Chain.Linked` — the nodes that follow a pointer, to the null pointer.
* `Chain.Linked.congr` — what is written elsewhere does not matter.
* `Chain.link` — linking nodes up, one after the other.
* `Chain.walk` — following the pointers, as far as there is room for the nodes.
-/

namespace Chain

variable {α : Type*}

/-- The nodes `xs` follow the pointer `p`, and the last one points to nothing. -/
def Linked (next : α → Option α) : Option α → List α → Prop
  | p, [] => p = none
  | p, x :: xs => p = some x ∧ Linked next (next x) xs

section

variable {next other : α → Option α} {p : Option α} {x : α} {xs ys : List α}

@[simp] theorem linked_nil : Linked next p [] ↔ p = none := Iff.rfl

@[simp] theorem linked_cons : Linked next p (x :: xs) ↔ p = some x ∧ Linked next (next x) xs :=
  Iff.rfl

theorem Linked.eq_head? (h : Linked next p xs) : p = xs.head? := by
  cases xs with
  | nil => exact h
  | cons x xs => exact h.1

theorem Linked.eq_nil (h : Linked next none xs) : xs = [] := by
  cases xs with
  | nil => rfl
  | cons x xs => exact absurd h.1 (by simp)

theorem Linked.eq_cons (h : Linked next (some x) xs) :
    ∃ ys, xs = x :: ys ∧ Linked next (next x) ys := by
  cases xs with
  | nil => exact absurd h (by simp)
  | cons y ys =>
      obtain ⟨hx, hys⟩ := h
      cases hx
      exact ⟨ys, rfl, hys⟩

theorem Linked.congr (h : Linked next p xs) (heq : ∀ x ∈ xs, other x = next x) :
    Linked other p xs := by
  induction xs generalizing p with
  | nil => exact h
  | cons x xs ih =>
      refine ⟨h.1, ?_⟩
      rw [heq x List.mem_cons_self]
      exact ih h.2 fun y hy => heq y (List.mem_cons_of_mem x hy)

variable [DecidableEq α]

theorem Linked.update (h : Linked next p xs) (hx : x ∉ xs) (q : Option α) :
    Linked (Function.update next x q) p xs := by
  apply h.congr
  intro y hy
  apply Function.update_of_ne
  intro hyx
  exact hx (hyx ▸ hy)

theorem Linked.push (h : Linked next p xs) (hx : x ∉ xs) :
    Linked (Function.update next x p) (some x) (x :: xs) := by
  refine ⟨rfl, ?_⟩
  rw [Function.update_self]
  exact h.update hx p

end

/-! ## Linking nodes up -/

section

variable [DecidableEq α]

/-- Each node is made to point to the one after it. -/
def link (next : α → Option α) : List α → α → Option α
  | [] => next
  | x :: xs => link (Function.update next x xs.head?) xs

theorem link_of_notMem {x : α} : ∀ {xs : List α} {next : α → Option α}, x ∉ xs →
    link next xs x = next x := by
  intro xs
  induction xs with
  | nil => intro next _; rfl
  | cons y ys ih =>
      intro next hx
      rw [List.mem_cons, not_or] at hx
      rw [link, ih hx.2, Function.update_of_ne hx.1]

theorem linked_link : ∀ {xs : List α} {next : α → Option α}, xs.Nodup →
    Linked (link next xs) xs.head? xs := by
  intro xs
  induction xs with
  | nil => intro next _; rfl
  | cons x xs ih =>
      intro next hnd
      rw [List.nodup_cons] at hnd
      refine ⟨rfl, ?_⟩
      rw [link, link_of_notMem hnd.1, Function.update_self]
      exact ih hnd.2

end

/-! ## Following the pointers -/

/-- The nodes that follow a pointer, if there are at most so many. -/
def walk (next : α → Option α) : ℕ → Option α → Option (List α)
  | _, none => some []
  | 0, some _ => none
  | n + 1, some x => (walk next n (next x)).map (x :: ·)

theorem Linked.walk_eq {next : α → Option α} : ∀ {xs : List α} {p : Option α} {n : ℕ},
    Linked next p xs → xs.length ≤ n → walk next n p = some xs := by
  intro xs
  induction xs with
  | nil =>
      intro p n h _
      rw [linked_nil.mp h]
      cases n <;> rfl
  | cons x xs ih =>
      intro p n h hn
      rw [h.1]
      cases n with
      | zero => simp at hn
      | succ n =>
          have hrest := ih h.2 (n := n) (by simpa using hn)
          simp [walk, hrest]

end Chain
