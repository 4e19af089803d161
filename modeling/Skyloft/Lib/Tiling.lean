import Mathlib.Data.List.Basic

/-!
# Tilings

`Tiling lo xs hi` says that the spans of a list lie end to end and lead from `lo`
to `hi`.  Nothing is assumed of the positions, so the spans may run round a circle.

## Main definitions

* `Tiling lo xs hi` — the spans `xs` lead from `lo` to `hi`.
* `Tiling.append_iff` — a tiling is cut at every position between two spans.
* `Tiling.suffix`, `Tiling.last` — what is left of a tiling, and where it ends.
-/

variable {α : Type*}

/-- The spans of `xs` lie end to end, from `lo` to `hi`. -/
def Tiling : α → List (α × α) → α → Prop
  | lo, [], hi => lo = hi
  | lo, p :: ps, hi => p.1 = lo ∧ Tiling p.2 ps hi

namespace Tiling

variable {lo mid hi : α} {xs ys : List (α × α)}

@[simp] theorem nil_iff : Tiling lo [] hi ↔ lo = hi := Iff.rfl

@[simp] theorem cons_iff {p : α × α} : Tiling lo (p :: xs) hi ↔ p.1 = lo ∧ Tiling p.2 xs hi :=
  Iff.rfl

theorem append_iff : Tiling lo (xs ++ ys) hi ↔ ∃ mid, Tiling lo xs mid ∧ Tiling mid ys hi := by
  induction xs generalizing lo with
  | nil => simp
  | cons p ps ih => simp [ih, and_assoc]

theorem append (h : Tiling lo xs mid) (h' : Tiling mid ys hi) : Tiling lo (xs ++ ys) hi :=
  append_iff.mpr ⟨mid, h, h'⟩

theorem suffix (h : Tiling lo xs hi) (hs : ys <:+ xs) : ∃ lo', Tiling lo' ys hi := by
  obtain ⟨zs, rfl⟩ := hs
  obtain ⟨mid, -, h'⟩ := append_iff.mp h
  exact ⟨mid, h'⟩

theorem last (h : Tiling lo xs hi) {p : α × α} (hp : p ∈ xs.getLast?) : p.2 = hi := by
  induction xs generalizing lo with
  | nil => cases hp
  | cons q qs ih =>
      cases qs with
      | nil =>
          obtain rfl : q = p := by simpa using hp
          exact h.2
      | cons r rs => exact ih h.2 (by simpa using hp)

end Tiling
