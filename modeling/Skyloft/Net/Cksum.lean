import Mathlib.Data.Nat.ModEq
import Skyloft.Net.RawMbuf

/-!
# The internet checksum

`utils/cksum.h` sums up a buffer in chunks of eight bytes, with the carry of one addition going into
the next one, then what is left of it, and folds the sum into 16 bits.

* `adc`, `addCarry` — additions that use and leave the carry flag.
* `cksumInternet` — the checksum.
-/

namespace Skyloft

/-! ## Machine additions -/

/-- `adc`: the sum with the carry flag, and the carry flag after it. -/
def adc {w : ℕ} (a b : BitVec w) (carry : Bool) : BitVec w × Bool :=
  (a + b + BitVec.ofNat w carry.toNat, decide (2 ^ w ≤ a.toNat + b.toNat + carry.toNat))

/-- `add`, followed by `adc $0`. -/
def addCarry {w : ℕ} (a b : BitVec w) : BitVec w :=
  let r := adc a b false
  (adc r.1 0 r.2).1

theorem toNat_adc {w : ℕ} (hw : 0 < w) (a b : BitVec w) (carry : Bool) :
    (adc a b carry).1.toNat =
      if a.toNat + b.toNat + carry.toNat < 2 ^ w then a.toNat + b.toNat + carry.toNat
      else a.toNat + b.toNat + carry.toNat - 2 ^ w := by
  have ha := a.isLt
  have hb := b.isLt
  have hc : carry.toNat ≤ 1 := carry.toNat_le
  have hone : 2 ≤ 2 ^ w := Nat.le_self_pow (by omega) 2
  have hcarry : carry.toNat % 2 ^ w = carry.toNat := Nat.mod_eq_of_lt (by omega)
  rw [adc, BitVec.toNat_add, BitVec.toNat_add, BitVec.toNat_ofNat, hcarry, Nat.mod_add_mod]
  split
  · exact Nat.mod_eq_of_lt ‹_›
  · rw [Nat.mod_eq_sub_mod (by omega), Nat.mod_eq_of_lt (by omega)]

/-- The carry goes back in without another one. -/
theorem toNat_addCarry {w : ℕ} (hw : 0 < w) (a b : BitVec w) :
    (addCarry a b).toNat = if a.toNat + b.toNat < 2 ^ w then a.toNat + b.toNat
      else a.toNat + b.toNat - (2 ^ w - 1) := by
  have ha := a.isLt
  have hb := b.isLt
  have hzero : (0 : BitVec w).toNat = 0 := by simp
  have hsum := toNat_adc hw a b false
  rw [Bool.toNat_false, Nat.add_zero] at hsum
  have hflag : (adc a b false).2 = decide (2 ^ w ≤ a.toNat + b.toNat) := rfl
  change (adc (adc a b false).1 0 (adc a b false).2).1.toNat = _
  rw [toNat_adc hw, hzero, Nat.add_zero, hsum, hflag]
  by_cases hover : a.toNat + b.toNat < 2 ^ w
  · rw [if_pos hover, if_pos hover, decide_eq_false (by omega), Bool.toNat_false, Nat.add_zero,
      if_pos hover]
  · rw [if_neg hover, if_neg hover, decide_eq_true (by omega), Bool.toNat_true, if_pos (by omega)]
    omega

/-! ## The checksum -/

/-- The `n` bytes at `o`, the lowest one first, in a register. -/
def leWord (mem : ℕ → Byte) (o : ℕ) : ℕ → BitVec 64
  | 0 => 0
  | n + 1 => leWord mem (o + 1) n <<< 8 ||| (mem o).setWidth 64

/-- The loop over `n` chunks of eight bytes. -/
def cksumChunks (mem : ℕ → Byte) : ℕ → ℕ → BitVec 64 → Bool → BitVec 64 × Bool
  | 0, _, sum, carry => (sum, carry)
  | n + 1, o, sum, carry =>
      let r := adc sum (leWord mem o 8) carry
      cksumChunks mem n (o + 8) r.1 r.2

/-- The fold of the sum into 16 bits, and its complement. -/
def cksumFold (sum : BitVec 64) : BitVec 16 :=
  let sum := addCarry ((sum >>> 32).setWidth 32) (sum.setWidth 32)
  ~~~ addCarry ((sum >>> 16).setWidth 16) (sum.setWidth 16)

/-- The `2 ^ k` bytes that are left if that bit of the length is set, with the sum so far and the
position. -/
def cksumTail (mem : ℕ → Byte) (len k : ℕ) (s : BitVec 64 × ℕ) : BitVec 64 × ℕ :=
  if len.testBit k then (addCarry s.1 (leWord mem s.2 (2 ^ k)), s.2 + 2 ^ k) else s

/-- `cksum_internet` of the `len` bytes at `o`. -/
def cksumInternet (mem : ℕ → Byte) (o len : ℕ) : BitVec 16 :=
  let n := len / 8
  -- the carry flag is clear before the loop
  let sum :=
    if n = 0 then 0
    else
      let r := cksumChunks mem n o 0 false
      (adc r.1 0 r.2).1
  let s := cksumTail mem len 2 (sum, o + 8 * n)
  let s := cksumTail mem len 1 s
  let s := cksumTail mem len 0 s
  cksumFold s.1

/-! ## The bytes that are read -/

section

variable {mem mem' : ℕ → Byte} {o : ℕ}

theorem leWord_congr : ∀ {n o : ℕ}, (∀ i, o ≤ i → i < o + n → mem i = mem' i) →
    leWord mem o n = leWord mem' o n := by
  intro n
  induction n with
  | zero => intro o _; rfl
  | succ n ih =>
      intro o h
      rw [leWord, leWord, h o (le_refl o) (by omega),
        ih fun i hle hlt => h i (by omega) (by omega)]

theorem cksumChunks_congr : ∀ {n o : ℕ} (sum : BitVec 64) (carry : Bool),
    (∀ i, o ≤ i → i < o + 8 * n → mem i = mem' i) →
      cksumChunks mem n o sum carry = cksumChunks mem' n o sum carry := by
  intro n
  induction n with
  | zero => intro o sum carry _; rfl
  | succ n ih =>
      intro o sum carry h
      rw [cksumChunks, cksumChunks, leWord_congr fun i hle hlt => h i hle (by omega)]
      exact ih _ _ fun i hle hlt => h i (by omega) (by omega)

theorem cksumTail_snd (mem : ℕ → Byte) (len k : ℕ) (s : BitVec 64 × ℕ) :
    (cksumTail mem len k s).2 = s.2 + len / 2 ^ k % 2 * 2 ^ k := by
  rw [cksumTail, Nat.testBit_eq_decide_div_mod_eq]
  by_cases hbit : len / 2 ^ k % 2 = 1
  · rw [decide_eq_true hbit, if_pos rfl, hbit, Nat.one_mul]
  · rw [decide_eq_false hbit, if_neg Bool.false_ne_true, (Nat.mod_two_eq_zero_or_one _).resolve_right
      hbit, Nat.zero_mul, Nat.add_zero]

theorem cksumTail_congr {len k : ℕ} {s : BitVec 64 × ℕ}
    (h : ∀ i, s.2 ≤ i → i < s.2 + len / 2 ^ k % 2 * 2 ^ k → mem i = mem' i) :
    cksumTail mem len k s = cksumTail mem' len k s := by
  rw [cksumTail, cksumTail]
  split
  · rename_i hbit
    rw [Nat.testBit_eq_decide_div_mod_eq, decide_eq_true_eq] at hbit
    rw [hbit, Nat.one_mul] at h
    rw [leWord_congr h]
  · rfl

/-- The checksum depends on the bytes of the buffer alone. -/
theorem cksumInternet_congr {len : ℕ} (h : ∀ i, o ≤ i → i < o + len → mem i = mem' i) :
    cksumInternet mem o len = cksumInternet mem' o len := by
  have hchunks : cksumChunks mem (len / 8) o 0 false = cksumChunks mem' (len / 8) o 0 false :=
    cksumChunks_congr 0 false fun i hle hlt => h i hle (by omega)
  have h₂ : ∀ sum, cksumTail mem len 2 (sum, o + 8 * (len / 8)) =
      cksumTail mem' len 2 (sum, o + 8 * (len / 8)) := by
    intro sum
    apply cksumTail_congr
    dsimp only
    exact fun i hle hlt => h i (by omega) (by omega)
  have h₁ : ∀ sum, cksumTail mem len 1 (cksumTail mem' len 2 (sum, o + 8 * (len / 8))) =
      cksumTail mem' len 1 (cksumTail mem' len 2 (sum, o + 8 * (len / 8))) := by
    intro sum
    apply cksumTail_congr
    rw [cksumTail_snd]
    dsimp only
    exact fun i hle hlt => h i (by omega) (by omega)
  have h₀ : ∀ sum, cksumTail mem len 0
        (cksumTail mem' len 1 (cksumTail mem' len 2 (sum, o + 8 * (len / 8)))) =
      cksumTail mem' len 0
        (cksumTail mem' len 1 (cksumTail mem' len 2 (sum, o + 8 * (len / 8)))) := by
    intro sum
    apply cksumTail_congr
    rw [cksumTail_snd, cksumTail_snd]
    dsimp only
    exact fun i hle hlt => h i (by omega) (by omega)
  rw [cksumInternet, cksumInternet, hchunks]
  dsimp only
  rw [h₂, h₁, h₀]

end

end Skyloft
