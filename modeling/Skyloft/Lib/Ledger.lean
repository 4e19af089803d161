import Mathlib.Algebra.BigOperators.Group.Finset.Basic
import Mathlib.Data.Multiset.AddSub
import Mathlib.Data.Multiset.UnionInter

/-!
# Ledgers

Things that are kept in several places, with the places as multisets that sum up to what there
is.  A thing that is there once is in one place.

* `Ledger.sum_add_comm_of_eq_off`, `Ledger.sum_add_comm_of_eq_off_mem` — one place of finitely many
  changes.
* `Ledger.not_mem_of_nodup` — a thing in one place is in no other.
-/

namespace Ledger

variable {ι α : Type*}

/-- What the sum gains is what the one place gains. -/
theorem sum_add_comm_of_eq_off_mem {M : Type*} [AddCommMonoid M] [DecidableEq ι] {s : Finset ι}
    {f g : ι → M} {i : ι} (hi : i ∈ s) (h : ∀ j, j ≠ i → g j = f j) :
    (∑ j ∈ s, g j) + f i = (∑ j ∈ s, f j) + g i := by
  have hsum : ∑ j ∈ s.erase i, g j = ∑ j ∈ s.erase i, f j :=
    Finset.sum_congr rfl fun j hj => h j (Finset.ne_of_mem_erase hj)
  rw [← Finset.sum_erase_add _ _ hi, hsum, ← Finset.sum_erase_add s f hi]
  exact add_right_comm _ _ _

theorem sum_add_comm_of_eq_off [Fintype ι] [DecidableEq ι] {f g : ι → Multiset α} (i : ι)
    (h : ∀ j, j ≠ i → g j = f j) : (∑ j, g j) + f i = (∑ j, f j) + g i :=
  sum_add_comm_of_eq_off_mem (Finset.mem_univ i) h

theorem not_mem_of_nodup {s t : Multiset α} (h : (s + t).Nodup) {a : α} (ha : a ∈ t) : a ∉ s :=
  fun hs => Multiset.disjoint_left.mp (Multiset.nodup_add.mp h).2.2 hs ha

end Ledger
