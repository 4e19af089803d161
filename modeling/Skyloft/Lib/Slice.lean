import Mathlib.Data.List.Basic

/-!
# Slices of an unbounded sequence

`slice f o n` lists the `n` values of a sequence from position `o` on.  Cutting a
slice at the front or at the end gives a slice again, and adjacent slices join.  `store f o xs`
is the sequence after the values `xs` were written at position `o`.

## Main definitions

* `slice f o n` — the values at the positions `o, …, o + n - 1`.
* `slice_add`, `take_slice`, `drop_slice` — how slices are joined and cut.
* `store f o xs` — the sequence with `xs` at the positions from `o` on.
* `slice_store_self`, `slice_store_of_disjoint` — what a slice sees of a write.
-/

namespace Slice

variable {α : Type*}

/-- The `n` values of `f` from position `o` on. -/
def slice (f : ℕ → α) (o n : ℕ) : List α := (List.range' o n).map f

@[simp] theorem length_slice (f : ℕ → α) (o n : ℕ) : (slice f o n).length = n := by
  simp [slice]

@[simp] theorem slice_zero (f : ℕ → α) (o : ℕ) : slice f o 0 = [] := rfl

/-- Adjacent slices join. -/
theorem slice_add (f : ℕ → α) (o m n : ℕ) :
    slice f o (m + n) = slice f o m ++ slice f (o + m) n := by
  simp [slice, ← List.map_append, List.range'_append_1]

theorem slice_succ (f : ℕ → α) (o n : ℕ) : slice f o (n + 1) = f o :: slice f (o + 1) n := by
  simp [slice, List.range'_succ]

theorem take_slice (f : ℕ → α) (o n : ℕ) {k : ℕ} (h : k ≤ n) :
    (slice f o n).take k = slice f o k := by
  obtain ⟨j, rfl⟩ := Nat.exists_eq_add_of_le h
  rw [slice_add]
  simp

theorem drop_slice (f : ℕ → α) (o n : ℕ) {k : ℕ} (h : k ≤ n) :
    (slice f o n).drop k = slice f (o + k) (n - k) := by
  obtain ⟨j, rfl⟩ := Nat.exists_eq_add_of_le h
  rw [slice_add]
  simp

/-! ## Writing -/

/-- The sequence `f` with `xs` written at the positions from `o` on. -/
def store (f : ℕ → α) (o : ℕ) (xs : List α) : ℕ → α :=
  fun i => if o ≤ i then xs[i - o]?.getD (f i) else f i

theorem store_add {f : ℕ → α} {o : ℕ} {xs : List α} {i : ℕ} (h : i < xs.length) :
    store f o xs (o + i) = xs[i] := by
  have hle : o ≤ o + i := Nat.le_add_right o i
  rw [store, if_pos hle, Nat.add_sub_cancel_left, List.getElem?_eq_getElem h, Option.getD_some]

theorem store_of_disjoint {f : ℕ → α} {o : ℕ} {xs : List α} {i : ℕ}
    (h : i < o ∨ o + xs.length ≤ i) : store f o xs i = f i := by
  rw [store]
  split
  · rename_i hle
    have hnone : xs[i - o]? = none := List.getElem?_eq_none (by omega)
    rw [hnone, Option.getD_none]
  · rfl

theorem slice_congr {f g : ℕ → α} {o n : ℕ} (h : ∀ i, o ≤ i → i < o + n → f i = g i) :
    slice f o n = slice g o n := by
  apply List.map_congr_left
  intro i hi
  rw [List.mem_range'_1] at hi
  exact h i hi.1 hi.2

theorem slice_eq_iff {f : ℕ → α} {o : ℕ} {xs : List α} :
    slice f o xs.length = xs ↔ ∀ i (hi : i < xs.length), f (o + i) = xs[i] := by
  have hget : ∀ i (hi : i < (slice f o xs.length).length),
      (slice f o xs.length)[i] = f (o + i) := by
    intro i hi
    simp only [slice, List.getElem_map, List.getElem_range', Nat.one_mul]
  constructor
  · intro h i hi
    rw [← hget i (by rw [length_slice]; exact hi)]
    simp only [h]
  · intro h
    apply List.ext_getElem (length_slice _ _ _)
    intro i h₁ h₂
    rw [hget i h₁, h i h₂]

/-- What was written is read back. -/
theorem slice_store_self (f : ℕ → α) (o : ℕ) (xs : List α) :
    slice (store f o xs) o xs.length = xs :=
  slice_eq_iff.mpr fun _ hi => store_add hi

/-- A write elsewhere is not seen. -/
theorem slice_store_of_disjoint {f : ℕ → α} {o p n : ℕ} {xs : List α}
    (h : p + n ≤ o ∨ o + xs.length ≤ p) : slice (store f o xs) p n = slice f p n := by
  apply slice_congr
  intro i hlo hhi
  apply store_of_disjoint
  omega

end Slice
