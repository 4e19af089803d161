import Mathlib.Data.Nat.Notation
import Mathlib.Order.Bounds.Basic
import Mathlib.Order.Nat

/-!
# The first index of an interval

A search asks for the least index of an interval at which a predicate holds.  An interval may be cut
into pieces that are searched one after the other, and a search that is taken up again behind what it
has found goes through all indices there are.

* `Search.first` — the least index, if there is one.
* `Search.first_eq_some`, `first_eq_none` — what an answer says.
* `Search.isLeast_first` — the least index, or the end of the interval.
* `Search.first_split` — two pieces.
* `Search.all_of_first` — the search as a step of an enumeration.
-/

namespace Search

variable {p : ℕ → Bool} {lo mid hi i : ℕ}

/-- The least index from `lo` on and below `hi`. -/
def first (p : ℕ → Bool) (lo hi : ℕ) : Option ℕ := (List.range' lo (hi - lo)).find? p

/-- All of them, in order. -/
def all (p : ℕ → Bool) (lo hi : ℕ) : List ℕ := (List.range' lo (hi - lo)).filter p

theorem first_eq_some :
    first p lo hi = some i ↔ p i = true ∧ lo ≤ i ∧ i < hi ∧ ∀ j, lo ≤ j → j < i → p j = false := by
  rw [first, List.find?_range'_eq_some, List.mem_range'_1]
  constructor
  · rintro ⟨hp, hmem, hleast⟩
    refine ⟨hp, hmem.1, by omega, fun j hj hji => ?_⟩
    simpa using hleast j hj hji
  · rintro ⟨hp, hlo, hhi, hleast⟩
    refine ⟨hp, ⟨hlo, by omega⟩, fun j hj hji => ?_⟩
    simpa using hleast j hj hji

theorem first_eq_none : first p lo hi = none ↔ ∀ j, lo ≤ j → j < hi → p j = false := by
  rw [first, List.find?_eq_none]
  simp only [List.mem_range'_1]
  constructor
  · intro h j hlo hhi
    simpa using h j ⟨hlo, by omega⟩
  · intro h j hj
    simpa using h j hj.1 (by omega)

/-- The first piece is searched, and then the second one. -/
theorem first_split (hlo : lo ≤ mid) (hhi : mid ≤ hi) :
    first p lo hi = (first p lo mid).or (first p mid hi) := by
  have hsplit : List.range' lo (hi - lo) = List.range' lo (mid - lo) ++ List.range' mid (hi - mid) := by
    have hmid : lo + (mid - lo) = mid := by omega
    have hlen : mid - lo + (hi - mid) = hi - lo := by omega
    rw [← hlen, ← List.range'_append_1, hmid]
  rw [first, hsplit, List.find?_append, first, first]

/-- Of the answer for a longer interval, what is past the end of the shorter one is cut off. -/
theorem first_cut (hlo : lo ≤ mid) (hhi : mid ≤ hi) :
    ((first p lo hi).map (min · mid)).getD mid = (first p lo mid).getD mid := by
  rw [first_split hlo hhi]
  cases hfirst : first p lo mid with
  | some i =>
      obtain ⟨-, -, hi, -⟩ := first_eq_some.mp hfirst
      exact min_eq_left hi.le
  | none =>
      cases hrest : first p mid hi with
      | some i =>
          obtain ⟨-, hmid, -, -⟩ := first_eq_some.mp hrest
          exact min_eq_right hmid
      | none => rfl

theorem isLeast_first (hlo : lo ≤ hi) :
    IsLeast {i | lo ≤ i ∧ (i < hi → p i = true)} ((first p lo hi).getD hi) := by
  cases hfirst : first p lo hi with
  | some i =>
      obtain ⟨hp, hloi, hhi, hleast⟩ := first_eq_some.mp hfirst
      refine ⟨⟨hloi, fun _ => hp⟩, fun j hj => ?_⟩
      by_contra hlt
      rw [Option.getD_some, not_le] at hlt
      have hpj := hj.2 (hlt.trans hhi)
      rw [hleast j hj.1 hlt] at hpj
      cases hpj
  | none =>
      have hnone := first_eq_none.mp hfirst
      refine ⟨⟨hlo, fun hlt => absurd hlt (lt_irrefl _)⟩, fun j hj => ?_⟩
      by_contra hlt
      rw [Option.getD_none, not_le] at hlt
      have hpj := hj.2 hlt
      rw [hnone j hj.1 hlt] at hpj
      cases hpj

theorem all_of_first_none (h : first p lo hi = none) : all p lo hi = [] := by
  rw [all, List.filter_eq_nil_iff]
  rwa [first, List.find?_eq_none] at h

/-- The first index, and those behind it. -/
theorem all_of_first (h : first p lo hi = some i) : all p lo hi = i :: all p (i + 1) hi := by
  obtain ⟨hp, hlo, hhi, hleast⟩ := first_eq_some.mp h
  have hsplit : List.range' lo (hi - lo) =
      List.range' lo (i - lo) ++ i :: List.range' (i + 1) (hi - (i + 1)) := by
    have hmid : lo + (i - lo) = i := by omega
    have hlen : i - lo + (hi - (i + 1) + 1) = hi - lo := by omega
    rw [← hlen, ← List.range'_append_1, hmid, List.range'_succ]
  have hnone : (List.range' lo (i - lo)).filter p = [] := by
    rw [List.filter_eq_nil_iff]
    intro j hj
    obtain ⟨hjlo, hji⟩ := List.mem_range'_1.mp hj
    simp [hleast j hjlo (by omega)]
  rw [all, hsplit, List.filter_append, hnone, List.nil_append, List.filter_cons_of_pos hp, all]

end Search
