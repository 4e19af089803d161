import Mathlib.Data.BitVec

/-!
# Masks of low bits

The complement of a mask of low bits rounds a word down to a multiple of a power of two.

* `Mask.low` — the mask of the lowest bits.
* `Mask.toNat_and_not_low`, `ofNat_and_not_low` — rounding down.
-/

namespace Mask

variable {w : ℕ}

/-- The mask of the lowest `n` bits. -/
def low (w n : ℕ) : BitVec w := BitVec.ofNat w (2 ^ n - 1)

theorem getLsbD_low (w n i : ℕ) : (low w n).getLsbD i = decide (i < w ∧ i < n) := by
  rw [low, BitVec.getLsbD_ofNat, Nat.testBit_two_pow_sub_one, ← Bool.decide_and]

/-- The bits that the mask clears. -/
theorem not_low (w n : ℕ) : ~~~low w n = BitVec.allOnes w <<< n := by
  apply BitVec.eq_of_getLsbD_eq
  intro i hi
  rw [BitVec.getLsbD_not, getLsbD_low, BitVec.getLsbD_shiftLeft, BitVec.getLsbD_allOnes]
  by_cases hn : i < n
  · simp [hi, hn]
  · have hsub : i - n < w := by omega
    simp [hi, hn, hsub]

theorem toNat_and_not_low (x : BitVec w) (n : ℕ) :
    (x &&& ~~~low w n).toNat = x.toNat / 2 ^ n * 2 ^ n := by
  have hlt : x.toNat / 2 ^ n * 2 ^ n < 2 ^ w := lt_of_le_of_lt (Nat.div_mul_le_self _ _) x.isLt
  rw [not_low, ← BitVec.shiftLeft_ushiftRight, BitVec.toNat_shiftLeft, BitVec.toNat_ushiftRight,
    Nat.shiftRight_eq_div_pow, Nat.shiftLeft_eq, Nat.mod_eq_of_lt hlt]

theorem ofNat_and_not_low {m : ℕ} (hm : m < 2 ^ w) (n : ℕ) :
    BitVec.ofNat w m &&& ~~~low w n = BitVec.ofNat w (m / 2 ^ n * 2 ^ n) := by
  apply BitVec.eq_of_toNat_eq
  have hle : m / 2 ^ n * 2 ^ n ≤ m := Nat.div_mul_le_self _ _
  rw [toNat_and_not_low, BitVec.toNat_ofNat, BitVec.toNat_ofNat, Nat.mod_eq_of_lt hm,
    Nat.mod_eq_of_lt (lt_of_le_of_lt hle hm)]

end Mask
