import Mathlib.Data.List.Nodup
import Mathlib.Logic.Function.Basic

/-!
# Lists of sleeping tasks

A synchronisation object keeps the tasks that sleep on it on a list.  Who releases them moves
some of them, or the whole list, to a list of its own and wakes the tasks from there, one at a
time and without the lock of the object, so that meanwhile others join the list again.

* `Park` — the list, the tasks in the hands of those who wake them, and who sleeps.
* `Park.Ok` — nobody sleeps unless listed or in one hand.
* `Park.Ok.sleep`, `Park.Ok.take`, `Park.Ok.wake` — what the three operations keep.
-/

structure Park (α : Type*) where
  waiters : List α
  /-- taken off the list and still to be woken -/
  hand : α → List α
  asleep : α → Bool

namespace Park

variable {α : Type*}

def empty : Park α where
  waiters := []
  hand _ := []
  asleep _ := false

structure Ok (p : Park α) : Prop where
  listed : ∀ i ∈ p.waiters, p.asleep i = true
  nodup : p.waiters.Nodup
  inHand : ∀ j, ∀ i ∈ p.hand j, p.asleep i = true ∧ i ∉ p.waiters
  handNodup : ∀ j, (p.hand j).Nodup
  oneHand : ∀ j l i, i ∈ p.hand j → i ∈ p.hand l → j = l
  /-- no sleeper is forgotten -/
  kept : ∀ i, p.asleep i = true → i ∈ p.waiters ∨ ∃ j, i ∈ p.hand j

variable {p : Park α} {i j u : α} {us : List α}

/-- The order of the list does not matter. -/
theorem Ok.of_perm {p' : Park α} (h : p.Ok) (hw : p'.waiters.Perm p.waiters)
    (hhand : p'.hand = p.hand) (hasleep : p'.asleep = p.asleep) : p'.Ok := by
  constructor
  · intro i hi
    rw [hasleep]
    exact h.listed i (hw.mem_iff.mp hi)
  · exact hw.nodup_iff.mpr h.nodup
  · rw [hhand, hasleep]
    intro j i hi
    have hk := h.inHand j i hi
    exact ⟨hk.1, fun hr => hk.2 (hw.mem_iff.mp hr)⟩
  · rw [hhand]
    exact h.handNodup
  · rw [hhand]
    exact h.oneHand
  · rw [hhand, hasleep]
    intro i hi
    exact (h.kept i hi).imp_left hw.mem_iff.mpr

/-- The next in a hand sleeps. -/
theorem Ok.asleep_head (h : p.Ok) (hj : p.hand j = u :: us) : p.asleep u = true :=
  (h.inHand j u (by simp [hj])).1

/-! ## The operations -/

variable [DecidableEq α]

/-- `i` joins the list and sleeps. -/
def sleep (p : Park α) (i : α) : Park α :=
  { p with
    waiters := p.waiters ++ [i]
    asleep := Function.update p.asleep i true }

/-- `j` takes `us` off the list, and `rest` stays. -/
def take (p : Park α) (j : α) (us rest : List α) : Park α :=
  { p with
    waiters := rest
    hand := Function.update p.hand j us }

/-- `j` takes everyone off the list. -/
def takeAll (p : Park α) (j : α) : Park α :=
  { p with
    waiters := []
    hand := Function.update p.hand j p.waiters }

/-- `j` wakes `u`, the first in its hand, and keeps `us`. -/
def wake (p : Park α) (j u : α) (us : List α) : Park α :=
  { p with
    hand := Function.update p.hand j us
    asleep := Function.update p.asleep u false }

theorem Ok.sleep (h : p.Ok) (hi : p.asleep i = false) : (p.sleep i).Ok := by
  have hnew : ∀ {l}, p.asleep l = true → l ≠ i := by
    rintro l hl rfl
    simp [hi] at hl
  have hstill : ∀ {l}, p.asleep l = true → (p.sleep i).asleep l = true := by
    intro l hl
    simp [Park.sleep, Function.update_of_ne (hnew hl), hl]
  constructor
  · intro l hl
    simp only [Park.sleep, List.mem_append, List.mem_singleton] at hl
    rcases hl with hl | rfl
    · exact hstill (h.listed l hl)
    · simp [Park.sleep]
  · simp only [Park.sleep, List.nodup_append, List.mem_singleton]
    refine ⟨h.nodup, by simp, ?_⟩
    rintro a ha b rfl
    exact hnew (h.listed a ha)
  · intro k l hl
    have hk := h.inHand k l hl
    refine ⟨hstill hk.1, ?_⟩
    simp [Park.sleep, hk.2, hnew hk.1]
  · exact h.handNodup
  · exact h.oneHand
  · intro l hl
    by_cases hli : l = i
    · left
      simp [Park.sleep, hli]
    · simp only [Park.sleep, Function.update_of_ne hli] at hl
      rcases h.kept l hl with hw | hh
      · left
        simp [Park.sleep, hw]
      · exact .inr hh

theorem Ok.take {rest : List α} (h : p.Ok) (hj : p.hand j = [])
    (hsplit : p.waiters.Perm (us ++ rest)) : (p.take j us rest).Ok := by
  have hnd := hsplit.nodup_iff.mp h.nodup
  rw [List.nodup_append] at hnd
  have hus : ∀ {l}, l ∈ us → l ∈ p.waiters := fun hl => hsplit.mem_iff.mpr (by simp [hl])
  have hrest : ∀ {l}, l ∈ rest → l ∈ p.waiters := fun hl => hsplit.mem_iff.mpr (by simp [hl])
  -- a hand now holds what it held, and that of `j` what was taken off the list
  have hcases : ∀ {k l}, l ∈ (p.take j us rest).hand k →
      (k = j ∧ l ∈ us) ∨ (k ≠ j ∧ l ∈ p.hand k) := by
    intro k l hl
    by_cases hk : k = j
    · left
      simpa [Park.take, hk] using hl
    · right
      simpa [Park.take, Function.update_of_ne hk, hk] using hl
  constructor
  · intro l hl
    exact h.listed l (hrest hl)
  · exact hnd.2.1
  · intro k l hl
    rcases hcases hl with ⟨-, hl⟩ | ⟨-, hl⟩
    · exact ⟨h.listed l (hus hl), fun hr => hnd.2.2 l hl l hr rfl⟩
    · have hk := h.inHand k l hl
      exact ⟨hk.1, fun hr => hk.2 (hrest hr)⟩
  · intro k
    by_cases hk : k = j
    · simpa [Park.take, hk] using hnd.1
    · simpa [Park.take, Function.update_of_ne hk] using h.handNodup k
  · intro k m l hk hm
    rcases hcases hk with ⟨rfl, hl⟩ | ⟨-, hl⟩ <;> rcases hcases hm with ⟨rfl, hl'⟩ | ⟨-, hl'⟩
    · rfl
    · exact absurd (hus hl) (h.inHand m l hl').2
    · exact absurd (hus hl') (h.inHand k l hl).2
    · exact h.oneHand k m l hl hl'
  · intro l hl
    rcases h.kept l hl with hw | ⟨k, hk⟩
    · rcases List.mem_append.mp (hsplit.mem_iff.mp hw) with hw | hw
      · exact .inr ⟨j, by simpa [Park.take] using hw⟩
      · exact .inl hw
    · have hkj : k ≠ j := by
        rintro rfl
        simp [hj] at hk
      exact .inr ⟨k, by simpa [Park.take, Function.update_of_ne hkj] using hk⟩

theorem Ok.takeAll (h : p.Ok) (hj : p.hand j = []) : (p.takeAll j).Ok :=
  h.take hj (by simp)

theorem Ok.wake (h : p.Ok) (hj : p.hand j = u :: us) : (p.wake j u us).Ok := by
  have hnd := h.handNodup j
  rw [hj, List.nodup_cons] at hnd
  have hu := h.inHand j u (by simp [hj])
  -- whoever is in a hand now was there before, and is not `u`
  have hcases : ∀ {k l}, l ∈ (p.wake j u us).hand k → l ∈ p.hand k ∧ l ≠ u := by
    intro k l hl
    by_cases hk : k = j
    · simp only [Park.wake, hk, Function.update_self] at hl
      refine ⟨by simp [hk, hj, hl], ?_⟩
      rintro rfl
      exact hnd.1 hl
    · simp only [Park.wake, Function.update_of_ne hk] at hl
      refine ⟨hl, ?_⟩
      rintro rfl
      exact hk (h.oneHand k j l hl (by simp [hj]))
  have hstill : ∀ {l}, l ≠ u → p.asleep l = true → (p.wake j u us).asleep l = true := by
    intro l hlu hl
    simp [Park.wake, Function.update_of_ne hlu, hl]
  constructor
  · intro l hl
    refine hstill ?_ (h.listed l hl)
    rintro rfl
    exact hu.2 hl
  · exact h.nodup
  · intro k l hl
    have hk := h.inHand k l (hcases hl).1
    exact ⟨hstill (hcases hl).2 hk.1, hk.2⟩
  · intro k
    by_cases hk : k = j
    · simpa [Park.wake, hk] using hnd.2
    · simpa [Park.wake, Function.update_of_ne hk] using h.handNodup k
  · intro k m l hk hm
    exact h.oneHand k m l (hcases hk).1 (hcases hm).1
  · intro l hl
    have hlu : l ≠ u := by
      rintro rfl
      simp [Park.wake] at hl
    simp only [Park.wake, Function.update_of_ne hlu] at hl
    rcases h.kept l hl with hw | ⟨k, hk⟩
    · exact .inl hw
    · right
      refine ⟨k, ?_⟩
      by_cases hkj : k = j
      · rw [hkj, hj, List.mem_cons] at hk
        simpa [Park.wake, hkj] using hk.resolve_left hlu
      · simpa [Park.wake, Function.update_of_ne hkj] using hk

end Park
