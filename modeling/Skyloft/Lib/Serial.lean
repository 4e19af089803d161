import Mathlib.Data.BitVec
import Mathlib.Tactic.Ring

/-!
# Serial number arithmetic

Positions on a circle of `2 ^ w` numbers, compared by the sign of their
difference.  The comparison is not an order: it is one only among positions that
lie within half the circle of each other.  The single notion here is the signed
distance `ahead a b`; a wrapped comparison is a statement about its sign, and
`ahead_eq_sub` turns distances from a common base into ordinary integers, after
which a goal is linear arithmetic.

## Main definitions

* `Serial.ahead a b` — the signed distance from `b` to `a`.
* `Serial.ahead_eq_sub` — distances subtract while they stay in half the circle.
* `Serial.ahead_add_ofNat` — moving a position forward adds to its distance.
* `Serial.ahead_add_add` — the distance of two offsets from one base.
-/

namespace Serial

variable {w : ℕ}

/-- The signed distance from `b` to `a`: how far `a` lies ahead of `b`. -/
def ahead (a b : BitVec w) : ℤ := (a - b).toInt

@[simp] theorem ahead_self (a : BitVec w) : ahead a a = 0 := by
  simp [ahead]

theorem two_mul_ahead_lt (a b : BitVec w) : 2 * ahead a b < 2 ^ w :=
  BitVec.two_mul_toInt_lt

theorem le_two_mul_ahead (a b : BitVec w) : -2 ^ w ≤ 2 * ahead a b :=
  BitVec.le_two_mul_toInt

/-- Two positions at the same distance from a base are the same position. -/
theorem eq_of_ahead_eq {a b c : BitVec w} (h : ahead a c = ahead b c) : a = b := by
  have h' : a - c = b - c := BitVec.eq_of_toInt_eq h
  calc a = a - c + c := (BitVec.sub_add_cancel a c).symm
    _ = b - c + c := by rw [h']
    _ = b := BitVec.sub_add_cancel b c

theorem ahead_eq_zero_iff {a b : BitVec w} : ahead a b = 0 ↔ a = b := by
  refine ⟨fun h => eq_of_ahead_eq (c := b) (by simpa using h), ?_⟩
  rintro rfl
  exact ahead_self a

/-- **Distances from a common base subtract**, as long as the difference stays
inside half the circle. -/
theorem ahead_eq_sub {a b c : BitVec w} (hlo : -2 ^ w ≤ 2 * (ahead a c - ahead b c))
    (hhi : 2 * (ahead a c - ahead b c) < 2 ^ w) : ahead a b = ahead a c - ahead b c := by
  have hsplit : a - b = (a - c) - (b - c) := by ring
  have hcast : ((2 ^ w : ℕ) : ℤ) = 2 ^ w := by norm_cast
  rw [ahead, hsplit, BitVec.toInt_sub]
  refine Int.bmod_eq_of_le_mul_two ?_ ?_
  · rw [hcast, Int.mul_comm]; exact hlo
  · rw [hcast, Int.mul_comm]; exact hhi

/-- Moving a position forward by `n` adds `n` to its distance from the base. -/
theorem ahead_add_ofNat {a c : BitVec w} {n : ℕ} (hn : 2 * (n : ℤ) < 2 ^ w)
    (hhi : 2 * (ahead a c + n) < 2 ^ w) : ahead (a + BitVec.ofNat w n) c = ahead a c + n := by
  have hlo := le_two_mul_ahead a c
  have hcast : ((2 ^ w : ℕ) : ℤ) = 2 ^ w := by norm_cast
  have hof : (BitVec.ofNat w n).toInt = n := by
    rw [BitVec.toInt_ofNat']
    refine Int.bmod_eq_of_le_mul_two ?_ ?_ <;> rw [hcast] <;> omega
  have hsplit : a + BitVec.ofNat w n - c = (a - c) + BitVec.ofNat w n := by ring
  rw [ahead, hsplit, BitVec.toInt_add, hof]
  refine Int.bmod_eq_of_le_mul_two ?_ ?_
  · rw [hcast, Int.mul_comm]; change -2 ^ w ≤ 2 * (ahead a c + n); omega
  · rw [hcast, Int.mul_comm]; exact hhi

/-- Two positions at known offsets from a base. -/
theorem ahead_add_add (a : BitVec w) {m n : ℕ} (hlo : -2 ^ w ≤ 2 * ((m : ℤ) - n))
    (hhi : 2 * ((m : ℤ) - n) < 2 ^ w) :
    ahead (a + BitVec.ofNat w m) (a + BitVec.ofNat w n) = m - n := by
  have hcast : ((2 ^ w : ℕ) : ℤ) = 2 ^ w := by norm_cast
  have hsub : a + BitVec.ofNat w m - (a + BitVec.ofNat w n) =
      BitVec.ofNat w m - BitVec.ofNat w n := by ring
  rw [ahead, hsub, BitVec.toInt_sub, BitVec.toInt_ofNat', BitVec.toInt_ofNat',
    Int.bmod_sub_bmod, Int.sub_bmod_bmod]
  refine Int.bmod_eq_of_le_mul_two ?_ ?_ <;> rw [hcast, Int.mul_comm]
  exacts [hlo, hhi]

/-- A distance that is not negative is the unsigned difference. -/
theorem toNat_sub_of_ahead_nonneg {a b : BitVec w} (h : 0 ≤ ahead a b) :
    ((a - b).toNat : ℤ) = ahead a b := by
  have hlt := (a - b).isLt
  have hcast : ((2 ^ w : ℕ) : ℤ) = 2 ^ w := by norm_cast
  simp only [ahead, BitVec.toInt_eq_toNat_cond, hcast] at h ⊢
  split at h <;> split <;> omega

/-- Seen from the other end the distance changes its sign, unless the two
positions are opposite. -/
theorem ahead_swap {a b : BitVec w} (h : -2 ^ w < 2 * ahead a b) : ahead b a = -ahead a b := by
  have hhi := two_mul_ahead_lt a b
  have hz : ahead b b - ahead a b = -ahead a b := by rw [ahead_self, zero_sub]
  rw [← hz]
  refine ahead_eq_sub ?_ ?_ <;> rw [hz] <;> omega

/-- A distance that is not positive is the unsigned difference the other way. -/
theorem toNat_sub_of_ahead_nonpos {a b : BitVec w} (hlo : -2 ^ w < 2 * ahead a b)
    (h : ahead a b ≤ 0) : ((b - a).toNat : ℤ) = -ahead a b := by
  have hswap := ahead_swap hlo
  rw [toNat_sub_of_ahead_nonneg (by omega), hswap]

/-- A position moved forward by a distance from it. -/
theorem add_ofNat_eq_of_ahead {a b : BitVec w} {n : ℕ} (h : ahead a b = n) :
    b + BitVec.ofNat w n = a := by
  have hn : (a - b).toNat = n := by
    have := toNat_sub_of_ahead_nonneg (a := a) (b := b) (by omega)
    omega
  rw [← hn, BitVec.ofNat_toNat, BitVec.setWidth_eq]
  ring

end Serial
