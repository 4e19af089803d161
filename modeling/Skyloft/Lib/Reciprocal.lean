import Mathlib.Algebra.Order.BigOperators.Group.List
import Mathlib.Data.Nat.Cast.Order.Field
import Mathlib.Tactic.FieldSimp
import Mathlib.Tactic.Linarith
import Mathlib.Tactic.Positivity
import Mathlib.Tactic.Ring

/-!
# Division by a reciprocal

A quotient `x * w / W` is computed as a product with `(2 ^ s - 1) / W` and a shift by `s`.  The
product with the weight may be too wide, and then its low bits are dropped first and the shift is
shorter.  Each of the three steps rounds down: the reciprocal loses at most the part `W / 2 ^ s`, the
dropped bits lose at most the part `1 / 2 ^ n` if `n` bits are kept, and the last shift loses less
than one.

* `Reciprocal.Kept` — a number without its low bits.
* `Reciprocal.quotient_le`, `quotient_ge` — the bounds of the result.
* `Reciprocal.sum_le` — shares of a whole.
-/

namespace Reciprocal

/-- `f` is `x` without its low `k` bits; if bits were dropped, a bit of weight `2 ^ n` was kept. -/
structure Kept (n x f k : ℕ) : Prop where
  eq : f = x / 2 ^ k
  large : k = 0 ∨ 2 ^ n ≤ f

variable {n s k w W x f δ r : ℕ}

theorem Kept.le (h : Kept n x f k) : (f : ℚ) * 2 ^ k ≤ x := by
  have hle : f * 2 ^ k ≤ x := h.eq ▸ Nat.div_mul_le_self x (2 ^ k)
  exact_mod_cast hle

/-- The part that is lost. -/
theorem Kept.ge (h : Kept n x f k) : (x : ℚ) * (1 - 1 / 2 ^ n) ≤ f * 2 ^ k := by
  have hn : (0 : ℚ) < 2 ^ n := by positivity
  rcases h.large with rfl | hlarge
  · have hx : (f : ℚ) = x := by
      rw [h.eq, pow_zero, Nat.div_one]
    have hnonneg : (0 : ℚ) ≤ x * (1 / 2 ^ n) := by positivity
    rw [hx, pow_zero]
    linarith
  · have hlt : x < (f + 1) * 2 ^ k :=
      Nat.lt_mul_of_div_lt (h.eq ▸ Nat.lt_succ_self _) (Nat.two_pow_pos k)
    have hltq : (x : ℚ) ≤ (f + 1) * 2 ^ k := by exact_mod_cast hlt.le
    have hone : (1 : ℚ) ≤ 2 ^ n := one_le_pow₀ (by norm_num)
    have hfrac : (0 : ℚ) ≤ 1 - 1 / 2 ^ n := by
      rw [sub_nonneg, div_le_one hn]
      exact hone
    have hkept : (1 : ℚ) ≤ f * (1 / 2 ^ n) := by
      rw [mul_one_div, one_le_div hn]
      exact_mod_cast hlarge
    have hpos : (0 : ℚ) ≤ 1 / 2 ^ n := by positivity
    calc (x : ℚ) * (1 - 1 / 2 ^ n) ≤ (f + 1) * 2 ^ k * (1 - 1 / 2 ^ n) :=
          mul_le_mul_of_nonneg_right hltq hfrac
      _ = (f + (1 - f * (1 / 2 ^ n)) - 1 / 2 ^ n) * 2 ^ k := by ring
      _ ≤ f * 2 ^ k := by
          apply mul_le_mul_of_nonneg_right _ (by positivity)
          linarith

/-! ## The reciprocal -/

/-- The reciprocal that is used. -/
def inverse (s W : ℕ) : ℕ := (2 ^ s - 1) / W

theorem inverse_le (s W : ℕ) : (inverse s W : ℚ) * W ≤ 2 ^ s := by
  have hle : inverse s W * W ≤ 2 ^ s := le_trans (Nat.div_mul_le_self _ W) (Nat.sub_le _ _)
  exact_mod_cast hle

/-- It is too small by less than one. -/
theorem inverse_ge (hW : 0 < W) (s : ℕ) : (2 : ℚ) ^ s - W ≤ inverse s W * W := by
  have hlt : 2 ^ s - 1 < (inverse s W + 1) * W :=
    Nat.lt_mul_of_div_lt (Nat.lt_succ_self _) hW
  have hle : 2 ^ s ≤ inverse s W * W + W := by
    rw [Nat.add_mul, Nat.one_mul] at hlt
    omega
  have hleq : (2 : ℚ) ^ s ≤ inverse s W * W + W := by exact_mod_cast hle
  linarith

/-! ## The quotient -/

section

variable (hk : k ≤ s) (hf : Kept n (w * inverse s W) f k) (hr : r = δ * f / 2 ^ (s - k))

include hk hf hr

theorem quotient_le (hW : 0 < W) : (r : ℚ) ≤ δ * w / W := by
  have hWq : (0 : ℚ) < W := by exact_mod_cast hW
  have hs : (0 : ℚ) < 2 ^ s := by positivity
  have hpow : (2 : ℚ) ^ (s - k) * 2 ^ k = 2 ^ s := by rw [← pow_add, Nat.sub_add_cancel hk]
  have hshift : (r : ℚ) * 2 ^ (s - k) ≤ δ * f := by
    have hle : r * 2 ^ (s - k) ≤ δ * f := hr ▸ Nat.div_mul_le_self _ _
    exact_mod_cast hle
  have hkept : (f : ℚ) * 2 ^ k ≤ w * inverse s W := by exact_mod_cast hf.le
  rw [le_div_iff₀ hWq]
  refine le_of_mul_le_mul_right ?_ hs
  calc (r : ℚ) * W * 2 ^ s = r * 2 ^ (s - k) * 2 ^ k * W := by rw [← hpow]; ring
    _ ≤ δ * f * 2 ^ k * W := by gcongr
    _ = δ * (f * 2 ^ k) * W := by ring
    _ ≤ δ * (w * inverse s W) * W := by gcongr
    _ = δ * w * (inverse s W * W) := by ring
    _ ≤ δ * w * 2 ^ s := by
        gcongr
        exact inverse_le s W

theorem quotient_ge (hW : 0 < W) (hWs : W ≤ 2 ^ s) :
    (δ * w / W : ℚ) * (1 - W / 2 ^ s - 1 / 2 ^ n) - 1 ≤ r := by
  have hWq : (0 : ℚ) < W := by exact_mod_cast hW
  have hs : (0 : ℚ) < 2 ^ s := by positivity
  have hn : (0 : ℚ) < 2 ^ n := by positivity
  have hpow : (2 : ℚ) ^ (s - k) * 2 ^ k = 2 ^ s := by rw [← pow_add, Nat.sub_add_cancel hk]
  have hshift : (δ : ℚ) * f ≤ (r + 1) * 2 ^ (s - k) := by
    have hlt : δ * f < (r + 1) * 2 ^ (s - k) :=
      Nat.lt_mul_of_div_lt (hr ▸ Nat.lt_succ_self _) (Nat.two_pow_pos _)
    exact_mod_cast hlt.le
  have hkept : (w * inverse s W : ℚ) * (1 - 1 / 2 ^ n) ≤ f * 2 ^ k := by exact_mod_cast hf.ge
  have hfrac : (0 : ℚ) ≤ 1 - 1 / 2 ^ n := by
    rw [sub_nonneg, div_le_one hn]
    exact one_le_pow₀ (by norm_num)
  have hpart : (W : ℚ) / 2 ^ s ≤ 1 := by
    rw [div_le_one hs]
    exact_mod_cast hWs
  have hmain : (δ * w : ℚ) * (2 ^ s - W) * (1 - 1 / 2 ^ n) ≤ (r + 1) * 2 ^ s * W := by
    calc (δ * w : ℚ) * (2 ^ s - W) * (1 - 1 / 2 ^ n) ≤
          δ * w * (inverse s W * W) * (1 - 1 / 2 ^ n) := by
          gcongr
          exact inverse_ge hW s
      _ = δ * (w * inverse s W * (1 - 1 / 2 ^ n)) * W := by ring
      _ ≤ δ * (f * 2 ^ k) * W := by gcongr
      _ = δ * f * 2 ^ k * W := by ring
      _ ≤ (r + 1) * 2 ^ (s - k) * 2 ^ k * W := by gcongr
      _ = (r + 1) * 2 ^ s * W := by rw [← hpow]; ring
  have hparts : (1 - W / 2 ^ s - 1 / 2 ^ n : ℚ) ≤ (1 - W / 2 ^ s) * (1 - 1 / 2 ^ n) := by
    have hprod : (0 : ℚ) ≤ W / 2 ^ s * (1 / 2 ^ n) := by positivity
    linarith
  have hquot : (δ * w / W : ℚ) * ((1 - W / 2 ^ s) * (1 - 1 / 2 ^ n)) ≤ r + 1 := by
    have heq : (δ * w / W : ℚ) * ((1 - W / 2 ^ s) * (1 - 1 / 2 ^ n)) =
        δ * w * (2 ^ s - W) * (1 - 1 / 2 ^ n) / (2 ^ s * W) := by field_simp
    rw [heq, div_le_iff₀ (mul_pos hs hWq), ← mul_assoc]
    exact hmain
  have hq : (0 : ℚ) ≤ δ * w / W := by positivity
  have hlow := mul_le_mul_of_nonneg_left hparts hq
  linarith

end

/-- **Shares of a whole.**  If each share is at most its part, the shares add up to no more than the
whole. -/
theorem sum_le {ι : Type*} {l : List ι} {weight share : ι → ℕ} (hW : (l.map weight).sum = W)
    (hl : ∀ i ∈ l, (share i : ℚ) ≤ δ * weight i / W) : (l.map share).sum ≤ δ := by
  have hparts : ∀ l' : List ι, (∀ i ∈ l', (share i : ℚ) ≤ δ * weight i / W) →
      ((l'.map share).sum : ℚ) ≤ δ * (l'.map weight).sum / W := by
    intro l' hl'
    induction l' with
    | nil => simp
    | cons i l' ih =>
        have hrest := ih fun j hj => hl' j (List.mem_cons_of_mem i hj)
        have hi := hl' i List.mem_cons_self
        rw [List.map_cons, List.sum_cons, List.map_cons, List.sum_cons, Nat.cast_add, Nat.cast_add,
          mul_add, add_div]
        exact add_le_add hi hrest
  have hall := hparts l hl
  rw [hW] at hall
  have hwhole : (δ * W / W : ℚ) ≤ δ := by
    rw [mul_div_assoc]
    exact mul_le_of_le_one_right (Nat.cast_nonneg δ) (div_self_le_one _)
  exact_mod_cast hall.trans hwhole

end Reciprocal
