import Mathlib.Algebra.BigOperators.Group.List.Basic
import Mathlib.Algebra.BigOperators.Ring.List
import Mathlib.Data.BitVec
import Mathlib.Data.Int.Cast.Lemmas

/-!
# Signed words

A signed word is an integer as long as nothing overflows.  `Fits w z` says that the integer `z` is
the value of a signed word of `w` bits, and an operation on words is that on the integers whenever
its exact result fits.

* `Signed.Fits` — the integers that a signed word holds.
* `Signed.toInt_eq` — a word that is the image of an integer in range.
* `Signed.toInt_add`, `toInt_sub`, `toInt_mul`, `toInt_sdiv`, `toInt_sum` — exact operations.
* `Signed.toInt_floorDiv` — a division that rounds down, by one that truncates.
-/

namespace Signed

variable {w : ℕ} {z : ℤ} {x y : BitVec w}

/-- `z` is the value of a signed word of `w` bits. -/
def Fits (w : ℕ) (z : ℤ) : Prop := -(2 : ℤ) ^ w ≤ 2 * z ∧ 2 * z < 2 ^ w

instance : Decidable (Fits w z) := inferInstanceAs (Decidable (_ ∧ _))

theorem fits_toInt (x : BitVec w) : Fits w x.toInt :=
  ⟨BitVec.le_two_mul_toInt, BitVec.two_mul_toInt_lt⟩

theorem intCast_toInt (x : BitVec w) : ((x.toInt : ℤ) : BitVec w) = x := BitVec.ofInt_toInt

theorem toInt_intCast (h : Fits w z) : (z : BitVec w).toInt = z := by
  change (BitVec.ofInt w z).toInt = z
  rw [BitVec.toInt_ofInt]
  have hpow : ((2 ^ w : ℕ) : ℤ) = (2 : ℤ) ^ w := by push_cast; rfl
  obtain ⟨hlo, hhi⟩ := h
  rw [← hpow] at hlo hhi
  rw [Int.bmod_eq_of_le_mul_two] <;> omega

/-- A word that is the image of an integer in range has its value. -/
theorem toInt_eq (hx : x = (z : BitVec w)) (h : Fits w z) : x.toInt = z := by
  rw [hx, toInt_intCast h]

theorem toInt_add (h : Fits w (x.toInt + y.toInt)) : (x + y).toInt = x.toInt + y.toInt := by
  refine toInt_eq ?_ h
  rw [Int.cast_add, intCast_toInt, intCast_toInt]

theorem toInt_sub (h : Fits w (x.toInt - y.toInt)) : (x - y).toInt = x.toInt - y.toInt := by
  refine toInt_eq ?_ h
  rw [Int.cast_sub, intCast_toInt, intCast_toInt]

theorem toInt_mul (h : Fits w (x.toInt * y.toInt)) : (x * y).toInt = x.toInt * y.toInt := by
  refine toInt_eq ?_ h
  rw [Int.cast_mul, intCast_toInt, intCast_toInt]

theorem toInt_sdiv (hy : 0 < y.toInt) : (x.sdiv y).toInt = x.toInt.tdiv y.toInt := by
  refine BitVec.toInt_sdiv_of_ne_or_ne x y (.inr ?_)
  rintro rfl
  have hneg : (-1#w).toInt ≤ 0 := by
    rcases Nat.eq_zero_or_pos w with rfl | hpos
    · simp [BitVec.of_length_zero]
    · have hpow : (1 : ℤ) < 2 ^ w := by exact_mod_cast Nat.one_lt_two_pow (Nat.ne_of_gt hpos)
      rw [toInt_eq (z := -1) (by simp) ⟨by omega, by omega⟩]
      decide
  omega

/-- Division that truncates rounds down after a negative dividend is moved away from zero. -/
theorem tdiv_sub_pred {a b : ℤ} (ha : a < 0) (hb : 0 < b) : (a - (b - 1)).tdiv b = a / b := by
  have hr : 0 ≤ a % b := Int.emod_nonneg a (ne_of_gt hb)
  have hlt : a % b < b := Int.emod_lt_of_pos a hb
  have hdiv : b * (a / b) + a % b = a := Int.mul_ediv_add_emod a b
  have hmul : b * -(a / b) = -(b * (a / b)) := Int.mul_neg _ _
  have hneg : a - (b - 1) = -((b - 1 - a % b) + b * -(a / b)) := by omega
  have hnonneg : 0 ≤ (b - 1 - a % b) + b * -(a / b) := by omega
  rw [hneg, Int.neg_tdiv, Int.tdiv_eq_ediv_of_nonneg hnonneg,
    Int.add_mul_ediv_left _ _ (ne_of_gt hb), Int.ediv_eq_zero_of_lt (by omega) (by omega)]
  omega

/-- The same on words. -/
theorem toInt_floorDiv (hy : 0 < y.toInt)
    (hbias : x.toInt < 0 → Fits w (x.toInt - (y.toInt - 1))) :
    ((if x.toInt < 0 then x - (y - 1#w) else x).sdiv y).toInt = x.toInt / y.toInt := by
  rw [toInt_sdiv hy]
  by_cases hx : x.toInt < 0
  · have hmoved : (x - (y - 1#w)).toInt = x.toInt - (y.toInt - 1) := by
      refine toInt_eq ?_ (hbias hx)
      rw [Int.cast_sub, Int.cast_sub, intCast_toInt, intCast_toInt]
      simp
    rw [if_pos hx, hmoved, tdiv_sub_pred hx hy]
  · rw [if_neg hx, Int.tdiv_eq_ediv_of_nonneg (not_lt.mp hx)]

/-- A sum of words is the sum of the integers behind them. -/
theorem toInt_sum {α : Type*} {ts : List α} {f : α → BitVec w} {g : α → ℤ}
    (hf : ∀ t ∈ ts, f t = (g t : BitVec w)) (h : Fits w (ts.map g).sum) :
    (ts.map f).sum.toInt = (ts.map g).sum := by
  refine toInt_eq ?_ h
  rw [List.map_congr_left hf]
  clear h hf
  induction ts with
  | nil => simp
  | cons t ts ih => rw [List.map_cons, List.map_cons, List.sum_cons, List.sum_cons, ih, Int.cast_add]

end Signed
