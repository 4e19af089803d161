import Mathlib.Algebra.BigOperators.Group.List.Basic
import Mathlib.Data.Nat.ModEq

/-!
# One's-complement sums

A one's-complement sum of words of `w` bits adds the carry of each addition back in.  It is a sum
modulo `2 ^ w - 1` in which zero has two representations: a sum is zero only if all its terms are,
and the full word otherwise.  So the order of the terms does not matter, nor does the width at which
carries are collected, as long as `2 ^ w - 1` is a multiple of the last modulus.

* `OnesComplement.sum` — the plain loop.
* `OnesComplement.Stands` — a number with the residue and the zero of another one.
* `Stands.fold` — the two halves of a number may be added up.
* `Stands.eq` — words that stand for the same number are equal.
-/

namespace OnesComplement

/-- Addition with end-around carry. -/
def endAround (w a b : ℕ) : ℕ := (a + b) % 2 ^ w + (a + b) / 2 ^ w

/-- The one's-complement sum, one term after the other. -/
def sum (w : ℕ) (l : List ℕ) : ℕ := l.foldl (endAround w) 0

/-- The residue of `n` modulo `d`, and zero only for zero. -/
structure Stands (d x n : ℕ) : Prop where
  modEq : x ≡ n [MOD d]
  zero : x = 0 ↔ n = 0

variable {d w x y n m b : ℕ}

theorem Stands.refl (d x : ℕ) : Stands d x x := ⟨Nat.ModEq.refl x, Iff.rfl⟩

theorem Stands.add (hx : Stands d x n) (hy : Stands d y m) : Stands d (x + y) (n + m) where
  modEq := hx.modEq.add hy.modEq
  zero := by rw [Nat.add_eq_zero_iff, Nat.add_eq_zero_iff, hx.zero, hy.zero]

theorem Stands.trans (hx : Stands d x n) (hn : Stands d n m) : Stands d x m :=
  ⟨hx.modEq.trans hn.modEq, hx.zero.trans hn.zero⟩

theorem Stands.symm (hx : Stands d x n) : Stands d n x := ⟨hx.modEq.symm, hx.zero.symm⟩

/-- The digits of a number stand for it. -/
theorem Stands.digits (hb : 0 < b) (hd : d ∣ b - 1) (lo hi : ℕ) :
    Stands d (lo + hi) (lo + b * hi) where
  modEq := by
    have hone : b ≡ 1 [MOD d] := ((Nat.modEq_iff_dvd' hb).mpr hd).symm
    have hmul : b * hi ≡ 1 * hi [MOD d] := hone.mul_right hi
    rw [Nat.one_mul] at hmul
    exact hmul.symm.add_left lo
  zero := by
    rw [Nat.add_eq_zero_iff, Nat.add_eq_zero_iff, Nat.mul_eq_zero, or_iff_right (Nat.ne_of_gt hb)]

/-- A number is folded into its two halves. -/
theorem Stands.fold (hd : d ∣ 2 ^ w - 1) (hx : Stands d x n) :
    Stands d (x % 2 ^ w + x / 2 ^ w) n := by
  have hsplit := Stands.digits (Nat.two_pow_pos w) hd (x % 2 ^ w) (x / 2 ^ w)
  rw [Nat.mod_add_div] at hsplit
  exact hsplit.trans hx

theorem Stands.endAround (hd : d ∣ 2 ^ w - 1) (hx : Stands d x n) (hy : Stands d y m) :
    Stands d (endAround w x y) (n + m) :=
  (hx.add hy).fold hd

/-- **Two words that stand for the same number are equal.** -/
theorem Stands.eq (hx : Stands d x n) (hy : Stands d y n) (hxd : x ≤ d) (hyd : y ≤ d) : x = y := by
  have hzero : x = 0 ↔ y = 0 := hx.zero.trans hy.zero.symm
  rcases Nat.eq_zero_or_pos x with hx0 | hx0
  · rw [hx0, hzero.mp hx0]
  · have hy0 : 0 < y := Nat.pos_of_ne_zero fun h => Nat.ne_of_gt hx0 (hzero.mpr h)
    -- both are in `1 .. d`
    obtain ⟨a, rfl⟩ := Nat.exists_eq_succ_of_ne_zero (Nat.ne_of_gt hx0)
    obtain ⟨c, rfl⟩ := Nat.exists_eq_succ_of_ne_zero (Nat.ne_of_gt hy0)
    have hmod : a ≡ c [MOD d] := Nat.ModEq.add_right_cancel' 1 (hx.modEq.trans hy.modEq.symm)
    rw [hmod.eq_of_lt_of_lt hxd hyd]

theorem endAround_lt (hx : x < 2 ^ w) (hy : y < 2 ^ w) : endAround w x y < 2 ^ w := by
  rw [endAround]
  rcases Nat.lt_or_ge (x + y) (2 ^ w) with h | h
  · rw [Nat.mod_eq_of_lt h, Nat.div_eq_of_lt h]
    omega
  · have hdiv : (x + y) / 2 ^ w = 1 := Nat.div_eq_of_lt_le (by omega) (by omega)
    rw [Nat.mod_eq_sub_mod h, Nat.mod_eq_of_lt (by omega), hdiv]
    omega

/-! ## Sums -/

theorem stands_foldl (hd : d ∣ 2 ^ w - 1) {l : List ℕ} (hx : Stands d x n) :
    Stands d (l.foldl (endAround w) x) (n + l.sum) := by
  induction l generalizing x n with
  | nil => simpa using hx
  | cons a l ih =>
      rw [List.foldl_cons, List.sum_cons, ← Nat.add_assoc]
      exact ih (hx.endAround hd (.refl d a))

theorem stands_sum (hd : d ∣ 2 ^ w - 1) (l : List ℕ) : Stands d (sum w l) l.sum := by
  have h := stands_foldl hd (l := l) (Stands.refl d 0)
  rwa [Nat.zero_add] at h

theorem sum_lt {l : List ℕ} (hl : ∀ a ∈ l, a < 2 ^ w) : sum w l < 2 ^ w := by
  have hfold : ∀ {l : List ℕ} {x : ℕ}, (∀ a ∈ l, a < 2 ^ w) → x < 2 ^ w →
      l.foldl (endAround w) x < 2 ^ w := by
    intro l
    induction l with
    | nil => exact fun _ hx => hx
    | cons a l ih =>
        intro x hl hx
        exact ih (fun b hb => hl b (List.mem_cons_of_mem a hb))
          (endAround_lt hx (hl a List.mem_cons_self))
  exact hfold hl (Nat.two_pow_pos w)

end OnesComplement
