import Skyloft.Sync.TimerHeap

/-!
# The check of the timer heap

`is_valid_heap` goes down from the last slot and compares each timer with its parent.  The loop
ends above slot 1, so the timer there is never compared with the root: an array in which only these
two are out of order passes, and `timer_softirq` goes on with it.

* `validDown` — the loop, from a slot down.
* `isValidHeap_iff` — which pairs it compares.
* `isValidHeap_exact_iff` — for which arrays its answer is right.
-/

namespace Skyloft

open Heap

section

variable {E : Type} {heap : ℕ → TimerIdx E} {n i : ℕ}

/-- The loop of `is_valid_heap` from slot `i` down. -/
def validDown (heap : ℕ → TimerIdx E) : ℕ → Bool
  | 0 => true
  | i + 1 =>
      if 1 < i + 1 then
        if (heap (i + 1)).deadlineUs < (heap (i / arity)).deadlineUs then false
        else validDown heap i
      else true

/-- The timer in a slot is not due before its parent. -/
def InOrder (heap : ℕ → TimerIdx E) (i : ℕ) : Prop := (heap (parent arity i)).key ≤ (heap i).key

instance : Decidable (InOrder heap i) := inferInstanceAs (Decidable (_ ≤ _))

theorem heapFrom_iff : HeapFrom arity TimerIdx.key heap n 0 ↔ ∀ i, 0 < i → i < n → InOrder heap i :=
  ⟨fun h i hi hin => h i hi hin (Nat.zero_le _), fun h i hi hin _ => h i hi hin⟩

theorem validDown_iff : validDown heap n = true ↔ ∀ i, 1 < i → i ≤ n → InOrder heap i := by
  induction n with
  | zero => exact iff_of_true rfl fun i hi hle => by omega
  | succ n ih =>
      rw [validDown]
      by_cases hn : 1 < n + 1
      · rw [if_pos hn]
        have hlast : InOrder heap (n + 1) ↔
            ¬ (heap (n + 1)).deadlineUs < (heap (n / arity)).deadlineUs :=
          not_lt.symm
        by_cases hlt : (heap (n + 1)).deadlineUs < (heap (n / arity)).deadlineUs
        · rw [if_pos hlt]
          exact iff_of_false Bool.false_ne_true fun h => hlast.mp (h (n + 1) hn (le_refl _)) hlt
        · rw [if_neg hlt, ih]
          constructor
          · intro h i hi hle
            rcases Nat.le_succ_iff.mp hle with hle | rfl
            · exact h i hi hle
            · exact hlast.mpr hlt
          · exact fun h i hi hle => h i hi (Nat.le_succ_of_le hle)
      · rw [if_neg hn]
        exact iff_of_true rfl fun i hi hle => by omega

/-- Every slot is compared with its parent, but for slot 1. -/
theorem isValidHeap_iff :
    isValidHeap heap n = true ↔ ∀ i, 1 < i → i < n → InOrder heap i := by
  simp only [isValidHeap, List.all_eq_true, List.mem_range, Bool.or_eq_true, decide_eq_true_eq]
  constructor
  · intro h i hi hin
    exact (h i hin).resolve_left (not_le.mpr hi)
  · intro h i hin
    rcases le_or_gt i 1 with hi | hi
    · exact .inl hi
    · exact .inr (h i hi hin)

/-- The loop, started at the last slot. -/
theorem isValidHeap_eq_validDown (heap : ℕ → TimerIdx E) (n : ℕ) :
    isValidHeap heap n = validDown heap (n - 1) := by
  rw [Bool.eq_iff_iff, isValidHeap_iff, validDown_iff]
  constructor
  · exact fun h i hi hle => h i hi (by omega)
  · exact fun h i hi hlt => h i hi (by omega)

/-- What the check leaves open. -/
theorem heapFrom_iff_isValidHeap :
    HeapFrom arity TimerIdx.key heap n 0 ↔
      isValidHeap heap n = true ∧ (1 < n → InOrder heap 1) := by
  rw [heapFrom_iff, isValidHeap_iff]
  constructor
  · exact fun h => ⟨fun i hi => h i (by omega), h 1 Nat.one_pos⟩
  · rintro ⟨h, hone⟩ i hi hin
    rcases Nat.eq_or_lt_of_le hi with rfl | hi
    · exact hone hin
    · exact h i hi hin

/-- **The check of the heap** is right about an array of timers exactly when the second timer is not
due before the first, or another timer is due before its parent. -/
theorem isValidHeap_exact_iff (heap : ℕ → TimerIdx E) (n : ℕ) :
    (isValidHeap heap n = true ↔ HeapFrom arity TimerIdx.key heap n 0) ↔
      (1 < n → InOrder heap 1 ∨ ∃ i, 1 < i ∧ i < n ∧ ¬ InOrder heap i) := by
  have hopen : (∃ i, 1 < i ∧ i < n ∧ ¬ InOrder heap i) ↔ ¬ isValidHeap heap n = true := by
    simp only [isValidHeap_iff, not_forall, exists_prop]
  rw [hopen, heapFrom_iff_isValidHeap]
  tauto

end

/-- Two timers, the second one due first. -/
def swappedPair : ℕ → TimerIdx ℕ
  | 0 => { deadlineUs := 5, e := 0 }
  | _ => { deadlineUs := 3, e := 1 }

theorem swappedPair_passes :
    isValidHeap swappedPair 2 = true ∧ ¬ HeapFrom arity TimerIdx.key swappedPair 2 0 :=
  ⟨by decide, fun h => absurd (h 1 Nat.one_pos (by decide) (Nat.zero_le _)) (by decide)⟩

end Skyloft
