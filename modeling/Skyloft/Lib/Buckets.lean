import Mathlib.Logic.Function.Basic
import Mathlib.Data.List.Basic

/-!
# Hash tables with chaining

A table maps the number of a bucket to the list of its entries.  `home` is the bucket in which an
entry belongs; nothing is assumed of it, so the facts below hold for all collisions.  A search that
goes through one bucket finds what it would find in the whole table, as long as every entry is in
its bucket and the entries it looks for all belong in the one it goes through.

## Main definitions

* `Buckets.Holds` — the entry is in the table.
* `Buckets.Placed` — every entry is in the bucket in which it belongs.
* `Buckets.insert`, `Buckets.remove` — linking an entry at the head of a bucket, and unlinking it.
* `Buckets.Placed.find?_eq_none_iff`, `Buckets.Placed.find?_eq_some_iff` — searching one bucket.
-/

namespace Buckets

variable {E : Type*}

/-- The entry is in the table. -/
def Holds (tbl : ℕ → List E) (e : E) : Prop := ∃ i, e ∈ tbl i

/-- Every entry is in the bucket in which it belongs. -/
def Placed (home : E → ℕ) (tbl : ℕ → List E) : Prop := ∀ i, ∀ e ∈ tbl i, home e = i

/-- Link an entry at the head of a bucket. -/
def insert (tbl : ℕ → List E) (i : ℕ) (e : E) : ℕ → List E := Function.update tbl i (e :: tbl i)

/-- Unlink an entry. -/
def remove [DecidableEq E] (tbl : ℕ → List E) (e : E) : ℕ → List E :=
  fun i => (tbl i).filter (· ≠ e)

variable {tbl : ℕ → List E} {home : E → ℕ} {e x : E} {i : ℕ}

theorem not_holds_empty (e : E) : ¬ Holds (fun _ => []) e := by
  rintro ⟨i, h⟩
  cases h

theorem mem_insert {j : ℕ} : x ∈ insert tbl i e j ↔ (x = e ∧ j = i) ∨ x ∈ tbl j := by
  by_cases hj : j = i
  · subst hj
    simp [insert]
  · simp [insert, hj]

theorem holds_insert : Holds (insert tbl i e) x ↔ x = e ∨ Holds tbl x := by
  constructor
  · rintro ⟨j, hj⟩
    rcases mem_insert.mp hj with ⟨rfl, -⟩ | hj
    · exact .inl rfl
    · exact .inr ⟨j, hj⟩
  · rintro (rfl | ⟨j, hj⟩)
    · exact ⟨i, mem_insert.mpr (.inl ⟨rfl, rfl⟩)⟩
    · exact ⟨j, mem_insert.mpr (.inr hj)⟩

theorem holds_remove [DecidableEq E] : Holds (remove tbl e) x ↔ x ≠ e ∧ Holds tbl x := by
  constructor
  · rintro ⟨j, hj⟩
    rw [remove, List.mem_filter, decide_eq_true_eq] at hj
    exact ⟨hj.2, j, hj.1⟩
  · rintro ⟨hne, j, hj⟩
    refine ⟨j, ?_⟩
    rw [remove, List.mem_filter, decide_eq_true_eq]
    exact ⟨hj, hne⟩

namespace Placed

theorem empty : Placed home (fun _ => []) := by
  intro i e he
  cases he

theorem insert (h : Placed home tbl) (e : E) : Placed home (insert tbl (home e) e) := by
  intro i x hx
  rcases mem_insert.mp hx with ⟨rfl, rfl⟩ | hx
  · rfl
  · exact h i x hx

theorem remove [DecidableEq E] (h : Placed home tbl) (e : E) : Placed home (remove tbl e) := by
  intro i x hx
  exact h i x (List.mem_filter.mp hx).1

/-- The buckets of what is not in the table do not matter. -/
theorem congr {home' : E → ℕ} (h : Placed home tbl) (heq : ∀ e, Holds tbl e → home' e = home e) :
    Placed home' tbl := by
  intro i e he
  rw [heq e ⟨i, he⟩]
  exact h i e he

/-- **Searching one bucket.**  If all that is looked for belongs in the bucket, then what is not
found there is not in the table. -/
theorem find?_eq_none_iff {p : E → Bool} (h : Placed home tbl)
    (hp : ∀ e, Holds tbl e → p e = true → home e = i) :
    (tbl i).find? p = none ↔ ∀ e, Holds tbl e → p e = false := by
  rw [List.find?_eq_none]
  constructor
  · rintro hnone e ⟨j, hj⟩
    by_contra hpe
    rw [Bool.not_eq_false] at hpe
    have hij : j = i := (h j e hj).symm.trans (hp e ⟨j, hj⟩ hpe)
    exact hnone e (hij ▸ hj) hpe
  · intro hall e he
    rw [hall e ⟨i, he⟩]
    simp

theorem find?_eq_some_iff {p : E → Bool} (h : Placed home tbl)
    (hp : ∀ e, Holds tbl e → p e = true → home e = i)
    (huniq : ∀ e e', Holds tbl e → Holds tbl e' → p e = true → p e' = true → e = e') :
    (tbl i).find? p = some e ↔ Holds tbl e ∧ p e = true := by
  constructor
  · intro hsome
    exact ⟨⟨i, List.mem_of_find?_eq_some hsome⟩, List.find?_some hsome⟩
  · rintro ⟨he, hpe⟩
    cases hf : (tbl i).find? p with
    | none =>
        have hno := (h.find?_eq_none_iff hp).mp hf e he
        rw [hpe] at hno
        cases hno
    | some e' =>
        have he' : Holds tbl e' := ⟨i, List.mem_of_find?_eq_some hf⟩
        rw [huniq e e' he he' hpe (List.find?_some hf)]

end Placed

end Buckets
