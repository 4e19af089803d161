import Mathlib.Logic.Function.Basic

/-!
# Locks and the places that hold them

Parties move between places of their code, and each place says which locks a party
standing there holds.  `Owned` compares that with a table of holders; the rules
below keep the two together when one party moves, takes a lock or gives one back.
-/

namespace Locks

variable {ι κ π : Type*} [DecidableEq ι]

/-- The table of holders agrees with the places of the parties. -/
def Owned (holds : ι → π → κ → Prop) (holder : κ → Option ι) (place : ι → π) : Prop :=
  ∀ i k, holder k = some i ↔ holds i (place i) k

variable {holds : ι → π → κ → Prop} {holder : κ → Option ι} {place : ι → π}

/-- A move to a place that holds the same locks. -/
theorem Owned.move (h : Owned holds holder place) {i : ι} {p : π}
    (hp : ∀ k, holds i p k ↔ holds i (place i) k) :
    Owned holds holder (Function.update place i p) := by
  intro j k
  by_cases hj : j = i
  · subst hj
    simp [h j k, hp]
  · simp [Function.update_of_ne hj, h j k]

variable [DecidableEq κ]

/-- A free lock is taken on the way to a place that holds it too. -/
theorem Owned.acquire (h : Owned holds holder place) {i : ι} {k : κ} {p : π}
    (hk : holder k = none) (hp : ∀ l, holds i p l ↔ holds i (place i) l ∨ l = k) :
    Owned holds (Function.update holder k (some i)) (Function.update place i p) := by
  intro j l
  by_cases hl : l = k
  · -- nobody held `k`, so no place but the new one asks for it
    subst hl
    have hfree : ∀ j, ¬ holds j (place j) l := by
      intro j hj
      simp [(h j l).mpr hj] at hk
    by_cases hj : j = i
    · subst hj
      simp [hp]
    · simp [Function.update_of_ne hj, hfree, Ne.symm hj]
  · rw [Function.update_of_ne hl, h j l]
    by_cases hj : j = i
    · subst hj
      simp [hp, hl]
    · simp [Function.update_of_ne hj]

/-- The holder gives a lock back on the way to a place that does without it. -/
theorem Owned.release (h : Owned holds holder place) {i : ι} {k : κ} {p : π}
    (hk : holder k = some i) (hp : ∀ l, holds i p l ↔ holds i (place i) l ∧ l ≠ k) :
    Owned holds (Function.update holder k none) (Function.update place i p) := by
  intro j l
  by_cases hl : l = k
  · subst hl
    by_cases hj : j = i
    · subst hj
      simp [hp]
    · have hother : ¬ holds j (place j) l := by
        intro hh
        have hjl := (h j l).mpr hh
        rw [hk] at hjl
        exact hj (Option.some.inj hjl).symm
      simp [Function.update_of_ne hj, hother]
  · rw [Function.update_of_ne hl, h j l]
    by_cases hj : j = i
    · subst hj
      simp [hp, hl]
    · simp [Function.update_of_ne hj]

end Locks
