import Skyloft.Lib.Reciprocal
import Skyloft.Sched.Runqueue

/-!
# Weighted division

`__calc_delta` divides by the weight of a load through the inverse that the load caches.  The
product with the inverse is halved until it fits 32 bits, and each turn makes the last shift shorter
by one.  The shift is a signed counter, so what is shown is that it does not go below zero.

* `LoadWeight` — `struct load_weight`, whose cache is empty or right.
* `calcDelta_eq_cached` — the cache makes no difference.
* `calcFact_spec` — the factor and the shift that `__calc_delta` ends up with.
* `calcDelta_bounds` — the result, as one division.
-/

namespace Skyloft

/-! ## Loads with their cache -/

/-- `struct load_weight` -/
structure LoadWeight where
  weight : BitVec 64
  inv : BitVec 32
  cached : inv = 0 ∨ inv = (invWeight weight).setWidth 32

namespace LoadWeight

/-- A weight that was just changed: `update_load_add`, `update_load_sub` and `update_load_set`. -/
def ofWeight (w : BitVec 64) : LoadWeight where
  weight := w
  inv := 0
  cached := .inl rfl

/-- `__update_inv_weight` -/
def updateInv (lw : LoadWeight) : LoadWeight :=
  if lw.inv ≠ 0 then lw
  else { lw with inv := (invWeight lw.weight).setWidth 32, cached := .inr rfl }

theorem inv_updateInv (lw : LoadWeight) :
    lw.updateInv.inv = (invWeight lw.weight).setWidth 32 := by
  rw [updateInv]
  split
  · rename_i h
    exact lw.cached.resolve_left h
  · rfl

end LoadWeight

/-- `__calc_delta`, with what it leaves in the cache. -/
def calcDeltaCached (deltaExec weight : BitVec 64) (lw : LoadWeight) : BitVec 64 × LoadWeight :=
  let lw := lw.updateInv
  let r := calcFact weight lw.inv
  (mulU64U32Shr deltaExec (r.1.setWidth 32) r.2.toNat, lw)

/-! ## The loops -/

section

variable {f : BitVec 64} {n : ℕ}

theorem ushiftRight_32_eq_zero : f >>> 32 = 0#64 ↔ f.toNat < 2 ^ 32 := by
  rw [← BitVec.toNat_inj, BitVec.toNat_ushiftRight, Nat.shiftRight_eq_div_pow, BitVec.toNat_ofNat,
    Nat.zero_mod, Nat.div_eq_zero_iff_lt (Nat.two_pow_pos 32)]

theorem halve_of_lt {shift : ℤ} (h : f.toNat < 2 ^ 32) : halve n f shift = (f, shift) := by
  cases n with
  | zero => rfl
  | succ n => rw [halve, if_pos (ushiftRight_32_eq_zero.mpr h)]

/-- What a loop leaves: `k` low bits were dropped and taken off the shift. -/
structure Halved (f : BitVec 64) (shift : ℤ) (k : ℕ) (r : BitVec 64 × ℤ) : Prop where
  fact : r.1 = f >>> k
  shift : r.2 = shift - k
  lt : r.1.toNat < 2 ^ 32
  kept : Reciprocal.Kept 31 f.toNat r.1.toNat k

theorem halve_stop {shift : ℤ} (h : f.toNat < 2 ^ 32) : Halved f shift 0 (halve n f shift) := by
  rw [halve_of_lt h]
  refine ⟨(BitVec.ushiftRight_zero f).symm, (sub_zero shift).symm, h, ?_, .inl rfl⟩
  rw [pow_zero, Nat.div_one]

/-- **What a loop does.**  It ends with a factor of 32 bits, and drops no more bits than it must. -/
theorem halve_spec {shift : ℤ} (h : f.toNat < 2 ^ (32 + n)) :
    ∃ k ≤ n, Halved f shift k (halve n f shift) := by
  induction n generalizing f shift with
  | zero => exact ⟨0, le_refl 0, halve_stop h⟩
  | succ n ih =>
      by_cases hsmall : f.toNat < 2 ^ 32
      · exact ⟨0, Nat.zero_le _, halve_stop hsmall⟩
      · have hhalf : (f >>> 1).toNat = f.toNat / 2 := by
          rw [BitVec.toNat_ushiftRight, Nat.shiftRight_eq_div_pow, pow_one]
        have hpow : 2 ^ (32 + (n + 1)) = 2 * 2 ^ (32 + n) := by
          rw [← Nat.add_assoc, Nat.pow_succ, Nat.mul_comm]
        obtain ⟨k, hk, hrest⟩ := @ih (f >>> 1) (shift - 1) (by omega)
        have hkept := hrest.kept
        rw [halve, if_neg (mt ushiftRight_32_eq_zero.mp hsmall)]
        refine ⟨k + 1, Nat.succ_le_succ hk, ?_, ?_, hrest.lt, ?_, .inr ?_⟩
        · rw [hrest.fact, ← BitVec.shiftRight_add, Nat.add_comm]
        · rw [hrest.shift, Nat.cast_succ]
          ring
        · rw [hkept.eq, hhalf, Nat.div_div_eq_div_mul, pow_succ, Nat.mul_comm]
        · rcases hkept.large with rfl | hkeep
          · rw [hkept.eq, hhalf, pow_zero, Nat.div_one]
            omega
          · exact hkeep

end

/-! ## The factor -/

section

variable {weight load : BitVec 64}

theorem toNat_invWeight_lt (load : BitVec 64) : (invWeight load).toNat < 2 ^ 32 := by
  have hconst : wmultConst.toNat = 2 ^ 32 - 1 := rfl
  rw [invWeight]
  split
  · decide
  · split
    · decide
    · rw [BitVec.toNat_udiv, hconst]
      exact lt_of_le_of_lt (Nat.div_le_self _ _) (by decide)

/-- The inverse rounds down. -/
theorem toNat_invWeight (hpos : 0 < load.toNat) (hlt : load.toNat < 2 ^ 32 - 1) :
    (invWeight load).toNat = Reciprocal.inverse 32 load.toNat := by
  have hconst : wmultConst.toNat = 2 ^ 32 - 1 := rfl
  have hsmall : ¬ wmultConst ≤ load := by
    rw [BitVec.le_def, hconst]
    omega
  have hne : load ≠ 0#64 := by
    rintro rfl
    exact absurd hpos (by decide)
  rw [invWeight, if_neg hsmall, if_neg hne, BitVec.toNat_udiv, hconst, Reciprocal.inverse]

/-- `(uint64_t)(uint32_t)` -/
theorem setWidth_setWidth {x : BitVec 64} (h : x.toNat < 2 ^ 32) :
    (x.setWidth 32).setWidth 64 = x := by
  apply BitVec.eq_of_toNat_eq
  rw [BitVec.toNat_setWidth, BitVec.toNat_setWidth, Nat.mod_eq_of_lt h, Nat.mod_eq_of_lt x.isLt]

/-- The factor before its last loop. -/
theorem calcFact_eq (hweight : weight.toNat < 2 ^ 32) (inv : BitVec 32) :
    calcFact weight inv = halve 32 (weight * inv.setWidth 64) 32 := by
  simp only [calcFact, halve_of_lt hweight, setWidth_setWidth hweight]

/-- **The cache makes no difference.** -/
theorem calcDelta_eq_cached (delta weight : BitVec 64) (lw : LoadWeight) :
    (calcDeltaCached delta weight lw).1 = calcDelta delta weight lw.weight := by
  simp only [calcDeltaCached, calcDelta, lw.inv_updateInv]

end

/-! ## The multiplication -/

/-- **`mul_u64_u32_shr` is exact** when the result fits. -/
theorem toNat_mulU64U32Shr {a : BitVec 64} {mul : BitVec 32} {shift : ℕ} (hshift : shift ≤ 32)
    (hfit : a.toNat * mul.toNat / 2 ^ shift < 2 ^ 64) :
    (mulU64U32Shr a mul shift).toNat = a.toNat * mul.toNat / 2 ^ shift := by
  have hal : (a.setWidth 32).toNat = a.toNat % 2 ^ 32 := BitVec.toNat_setWidth _ _
  have hah : ((a >>> 32).setWidth 32).toNat = a.toNat / 2 ^ 32 := by
    have ha := a.isLt
    rw [BitVec.toNat_setWidth, BitVec.toNat_ushiftRight, Nat.shiftRight_eq_div_pow]
    omega
  have hsplit : a.toNat * mul.toNat / 2 ^ shift =
      a.toNat % 2 ^ 32 * mul.toNat / 2 ^ shift +
        a.toNat / 2 ^ 32 * mul.toNat * 2 ^ (32 - shift) := by
    have hpow : 2 ^ 32 = 2 ^ shift * 2 ^ (32 - shift) := by
      rw [← Nat.pow_add, Nat.add_sub_cancel' hshift]
    have ha : a.toNat * mul.toNat = a.toNat % 2 ^ 32 * mul.toNat +
        2 ^ shift * (a.toNat / 2 ^ 32 * mul.toNat * 2 ^ (32 - shift)) := by
      calc a.toNat * mul.toNat = (a.toNat % 2 ^ 32 + 2 ^ 32 * (a.toNat / 2 ^ 32)) * mul.toNat := by
            rw [Nat.mod_add_div]
        _ = a.toNat % 2 ^ 32 * mul.toNat + 2 ^ 32 * (a.toNat / 2 ^ 32 * mul.toNat) := by ring
        _ = _ := by rw [hpow]; ring
    rw [ha, Nat.add_mul_div_left _ _ (Nat.two_pow_pos shift)]
  have hmul : ∀ x : BitVec 32, (x.setWidth 64 * mul.setWidth 64).toNat = x.toNat * mul.toNat := by
    intro x
    have hprod : x.toNat * mul.toNat < 2 ^ 32 * 2 ^ 32 := Nat.mul_lt_mul'' x.isLt mul.isLt
    rw [← Nat.pow_add] at hprod
    rw [BitVec.toNat_mul, BitVec.toNat_setWidth_of_le (by decide),
      BitVec.toNat_setWidth_of_le (by decide), Nat.mod_eq_of_lt hprod]
  rw [hsplit] at hfit ⊢
  generalize hl : a.setWidth 32 = al at hal
  generalize hh : (a >>> 32).setWidth 32 = ah at hah
  rw [← hal, ← hah] at hfit ⊢
  have hlow : ((al.setWidth 64 * mul.setWidth 64) >>> shift).toNat =
      al.toNat * mul.toNat / 2 ^ shift := by
    rw [BitVec.toNat_ushiftRight, hmul, Nat.shiftRight_eq_div_pow]
  simp only [mulU64U32Shr, hl, hh]
  split
  · rename_i hzero
    rw [hlow, hzero, BitVec.toNat_zero, Nat.zero_mul, Nat.zero_mul, Nat.add_zero]
  · rw [BitVec.toNat_add, BitVec.toNat_shiftLeft, hmul, hlow, Nat.shiftLeft_eq, Nat.add_mod_mod,
      Nat.mod_eq_of_lt hfit]

/-! ## The result -/

section

variable {delta weight : BitVec 64} {lw : LoadWeight}

/-- The factor and the shift, for a weight and a load of 32 bits. -/
theorem calcFact_spec (hweight : weight.toNat < 2 ^ 32) (hpos : 0 < lw.weight.toNat)
    (hlt : lw.weight.toNat < 2 ^ 32 - 1) :
    ∃ k : ℕ, k ≤ 32 ∧ (calcFact weight lw.updateInv.inv).2 = 32 - k ∧
      (calcFact weight lw.updateInv.inv).1.toNat < 2 ^ 32 ∧
      Reciprocal.Kept 31 (weight.toNat * Reciprocal.inverse 32 lw.weight.toNat)
        (calcFact weight lw.updateInv.inv).1.toNat k := by
  have hinv := toNat_invWeight hpos hlt
  have hprod : (weight * invWeight lw.weight).toNat =
      weight.toNat * Reciprocal.inverse 32 lw.weight.toNat := by
    have hwide : weight.toNat * (invWeight lw.weight).toNat < 2 ^ 32 * 2 ^ 32 :=
      Nat.mul_lt_mul'' hweight (toNat_invWeight_lt _)
    rw [← Nat.pow_add] at hwide
    rw [BitVec.toNat_mul, Nat.mod_eq_of_lt hwide, hinv]
  rw [calcFact_eq hweight, lw.inv_updateInv, setWidth_setWidth (toNat_invWeight_lt _)]
  obtain ⟨k, hk, h⟩ := @halve_spec (weight * invWeight lw.weight) 32 32 (BitVec.isLt _)
  exact ⟨k, hk, h.shift, h.lt, hprod ▸ h.kept⟩

/-- `delta * weight / load` -/
def exactDelta (delta weight : BitVec 64) (lw : LoadWeight) : ℚ :=
  delta.toNat * weight.toNat / lw.weight.toNat

/-- What `__calc_delta` computes, and how close it is to the quotient. -/
structure CalcDelta (delta weight : BitVec 64) (lw : LoadWeight) : Prop where
  shift_nonneg : 0 ≤ (calcFact weight lw.updateInv.inv).2
  shift_le : (calcFact weight lw.updateInv.inv).2 ≤ 32
  exact_floor : (calcDeltaCached delta weight lw).1.toNat =
    delta.toNat * (calcFact weight lw.updateInv.inv).1.toNat /
      2 ^ (calcFact weight lw.updateInv.inv).2.toNat
  le : ((calcDeltaCached delta weight lw).1.toNat : ℚ) ≤ exactDelta delta weight lw
  ge : exactDelta delta weight lw * (1 - (lw.weight.toNat + 1) / 2 ^ 32 - 1 / 2 ^ 31) - 1 ≤
    (calcDeltaCached delta weight lw).1.toNat

theorem calcDelta_bounds (hweight : weight.toNat < 2 ^ 32) (hpos : 0 < lw.weight.toNat)
    (hlt : lw.weight.toNat < 2 ^ 32 - 1) (hfit : exactDelta delta weight lw < 2 ^ 64) :
    CalcDelta delta weight lw := by
  obtain ⟨k, hk, hshift, hfact, hkept⟩ := calcFact_spec hweight hpos hlt
  have hnat : (calcFact weight lw.updateInv.inv).2.toNat = 32 - k := by omega
  have hnarrow : ((calcFact weight lw.updateInv.inv).1.setWidth 32).toNat =
      (calcFact weight lw.updateInv.inv).1.toNat := by
    rw [BitVec.toNat_setWidth, Nat.mod_eq_of_lt hfact]
  have hle : ((delta.toNat * (calcFact weight lw.updateInv.inv).1.toNat / 2 ^ (32 - k) : ℕ) : ℚ) ≤
      delta.toNat * weight.toNat / lw.weight.toNat := Reciprocal.quotient_le hk hkept rfl hpos
  have hge : (delta.toNat * weight.toNat / lw.weight.toNat : ℚ) *
        (1 - lw.weight.toNat / 2 ^ 32 - 1 / 2 ^ 31) - 1 ≤
      (delta.toNat * (calcFact weight lw.updateInv.inv).1.toNat / 2 ^ (32 - k) : ℕ) :=
    Reciprocal.quotient_ge hk hkept rfl hpos (by omega)
  have hexact : (calcDeltaCached delta weight lw).1.toNat =
      delta.toNat * (calcFact weight lw.updateInv.inv).1.toNat / 2 ^ (32 - k) := by
    have hfit' : delta.toNat * (calcFact weight lw.updateInv.inv).1.toNat / 2 ^ (32 - k) <
        2 ^ 64 := by exact_mod_cast hle.trans_lt hfit
    rw [calcDeltaCached]
    simp only [hnat]
    rw [toNat_mulU64U32Shr (Nat.sub_le _ _) (by rwa [hnarrow]), hnarrow]
  rw [← hexact] at hle hge
  refine ⟨by omega, by omega, by rw [hexact, hnat], hle, le_trans ?_ hge⟩
  have hq : 0 ≤ exactDelta delta weight lw := by
    rw [exactDelta]
    positivity
  apply sub_le_sub_right
  apply mul_le_mul_of_nonneg_left _ hq
  have hmore : (lw.weight.toNat : ℚ) / 2 ^ 32 ≤ (lw.weight.toNat + 1) / 2 ^ 32 := by
    gcongr
    linarith
  linarith

end

end Skyloft
