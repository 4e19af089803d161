import Skyloft.Lib.OnesComplement
import Skyloft.Net.Cksum

/-!
# What the internet checksum computes

RFC 1071 defines the checksum by a plain loop over the 16-bit words of a buffer, with end-around
carry; a last odd byte is padded with zero.  `cksum_internet` collects carries at 64 bits and folds
the sum at the end.  All of it keeps the residue modulo `2 ^ 16 - 1` and is zero only when the buffer
is, and a word of 16 bits is determined by these two.

* `words` — the words of a buffer, in the byte order of the machine.
* `cksumChunks_stands`, `cksumTail_stands`, `cksumFold_stands` — the parts of `cksum_internet`.
* `cksumInternet_eq` — the checksum, and the check of a buffer that it was put into.
-/

namespace Skyloft

open OnesComplement Slice

/-! ## Words -/

/-- The 16-bit words of the `len` bytes at `o`, the lower byte first. -/
def words (mem : ℕ → Byte) (o : ℕ) : ℕ → List ℕ
  | 0 => []
  | 1 => [(mem o).toNat]
  | len + 2 => ((mem o).toNat + 256 * (mem (o + 1)).toNat) :: words mem (o + 2) len

/-- `2 ^ 16 - 1` -/
abbrev ones16 : ℕ := 65535

section

variable {mem mem' : ℕ → Byte} {o : ℕ}

theorem words_add (m n : ℕ) : words mem o (2 * m + n) = words mem o (2 * m) ++ words mem (o + 2 * m) n := by
  induction m generalizing o with
  | zero => simp [words]
  | succ m ih =>
      have hlen : 2 * (m + 1) + n = (2 * m + n) + 2 := by omega
      have hlen' : 2 * (m + 1) = 2 * m + 2 := by omega
      have ho : o + 2 * (m + 1) = o + 2 + 2 * m := by omega
      rw [hlen, ho, hlen', words, words, ih, List.cons_append]

theorem words_congr {len : ℕ} (h : ∀ i, o ≤ i → i < o + len → mem i = mem' i) :
    words mem o len = words mem' o len := by
  induction len using Nat.twoStepInduction generalizing o with
  | zero => rfl
  | one => rw [words, words, h o (le_refl o) (by omega)]
  | more len ih _ =>
      rw [words, words, h o (le_refl o) (by omega), h (o + 1) (by omega) (by omega),
        ih fun i hle hlt => h i (by omega) (by omega)]

theorem words_lt {len a : ℕ} (ha : a ∈ words mem o len) : a < 2 ^ 16 := by
  induction len using Nat.twoStepInduction generalizing o with
  | zero => cases ha
  | one =>
      have hbyte := (mem o).isLt
      rw [words, List.mem_singleton] at ha
      omega
  | more len ih _ =>
      have hlow := (mem o).isLt
      have hhigh := (mem (o + 1)).isLt
      rw [words, List.mem_cons] at ha
      rcases ha with rfl | ha
      · omega
      · exact ih ha

/-! ## The parts of the sum -/

/-- A register is filled from its low end. -/
theorem toNat_leWord {n : ℕ} (hn : n ≤ 7) :
    (leWord mem o n).toNat < 2 ^ (8 * n) ∧
      (leWord mem o (n + 1)).toNat = (mem o).toNat + 256 * (leWord mem (o + 1) n).toNat := by
  have hstep : ∀ {n o : ℕ}, n ≤ 7 → (leWord mem (o + 1) n).toNat < 2 ^ (8 * n) →
      (leWord mem o (n + 1)).toNat = (mem o).toNat + 256 * (leWord mem (o + 1) n).toNat := by
    intro n o hn hlt
    have hbyte : (mem o).toNat < 2 ^ 8 := (mem o).isLt
    have hword : (leWord mem (o + 1) n).toNat < 2 ^ 56 :=
      lt_of_lt_of_le hlt (Nat.pow_le_pow_right (by decide) (by omega))
    have hshift : (leWord mem (o + 1) n <<< 8).toNat = (leWord mem (o + 1) n).toNat <<< 8 := by
      rw [BitVec.toNat_shiftLeft, Nat.mod_eq_of_lt]
      rw [Nat.shiftLeft_eq]
      omega
    have hwide : ((mem o).setWidth 64).toNat = (mem o).toNat := by
      rw [BitVec.toNat_setWidth, Nat.mod_eq_of_lt (by omega)]
    rw [leWord, BitVec.toNat_or, hshift, hwide, ← Nat.shiftLeft_add_eq_or_of_lt hbyte,
      Nat.shiftLeft_eq]
    omega
  have hlt : ∀ {n o : ℕ}, n ≤ 7 → (leWord mem o n).toNat < 2 ^ (8 * n) := by
    intro n
    induction n with
    | zero => intro o _; simp [leWord]
    | succ n ih =>
        intro o hn
        have hbyte := (mem o).isLt
        have hrest := ih (o := o + 1) (by omega)
        have hpow : 2 ^ (8 * (n + 1)) = 256 * 2 ^ (8 * n) := by
          rw [Nat.mul_add, Nat.pow_add, Nat.mul_comm]
        rw [hstep (by omega) hrest, hpow]
        omega
  exact ⟨hlt hn, hstep hn (hlt hn)⟩

/-- Bytes of a register stand for the sum of its words. -/
theorem leWord_stands {n : ℕ} (hn : n ≤ 8) :
    Stands ones16 (leWord mem o n).toNat (words mem o n).sum := by
  induction n using Nat.twoStepInduction generalizing o with
  | zero => exact .refl _ _
  | one =>
      rw [(toNat_leWord (Nat.zero_le 7)).2, words, List.sum_singleton]
      exact .refl _ _
  | more n ih _ =>
      have hlow : (leWord mem o (n + 2)).toNat =
          (mem o).toNat + 256 * (leWord mem (o + 1) (n + 1)).toNat := (toNat_leWord (by omega)).2
      have hhigh : (leWord mem (o + 1) (n + 1)).toNat =
          (mem (o + 1)).toNat + 256 * (leWord mem (o + 2) n).toNat := (toNat_leWord (by omega)).2
      have hsplit : (leWord mem o (n + 2)).toNat =
          (mem o).toNat + 256 * (mem (o + 1)).toNat + 2 ^ 16 * (leWord mem (o + 2) n).toNat := by
        rw [hlow, hhigh]
        omega
      have hdigits := Stands.digits (Nat.two_pow_pos 16) (dvd_refl ones16)
        ((mem o).toNat + 256 * (mem (o + 1)).toNat) (leWord mem (o + 2) n).toNat
      rw [hsplit, words, List.sum_cons]
      exact hdigits.symm.trans ((Stands.refl _ _).add (ih (by omega)))

theorem toNat_addCarry_eq {w : ℕ} (hw : 0 < w) (a b : BitVec w) :
    (addCarry a b).toNat = endAround w a.toNat b.toNat := by
  have ha := a.isLt
  have hb := b.isLt
  rw [toNat_addCarry hw, endAround]
  split
  · rename_i h
    rw [Nat.mod_eq_of_lt h, Nat.div_eq_of_lt h, Nat.add_zero]
  · rename_i h
    have hdiv : (a.toNat + b.toNat) / 2 ^ w = 1 := Nat.div_eq_of_lt_le (by omega) (by omega)
    rw [Nat.mod_eq_sub_mod (by omega), Nat.mod_eq_of_lt (by omega), hdiv]
    omega

/-- The carry flag counts as one; flag and sum together never exceed a register. -/
theorem adc_endAround {a b : BitVec 64} {carry : Bool} (h : a.toNat + carry.toNat < 2 ^ 64) :
    (adc a b carry).1.toNat + (adc a b carry).2.toNat =
      endAround 64 (a.toNat + carry.toNat) b.toNat := by
  have hb := b.isLt
  have hflag : (adc a b carry).2 = decide (2 ^ 64 ≤ a.toNat + b.toNat + carry.toNat) := rfl
  rw [toNat_adc (by decide), hflag, endAround]
  by_cases hlt : a.toNat + b.toNat + carry.toNat < 2 ^ 64
  · rw [if_pos hlt, decide_eq_false (by omega), Bool.toNat_false]
    omega
  · rw [if_neg hlt, decide_eq_true (by omega), Bool.toNat_true]
    omega

/-- The loop over the chunks. -/
theorem cksumChunks_stands {n N : ℕ} {s : BitVec 64} (carry : Bool)
    (hlt : s.toNat + carry.toNat < 2 ^ 64) (hs : Stands ones16 (s.toNat + carry.toNat) N) :
    (cksumChunks mem n o s carry).1.toNat + (cksumChunks mem n o s carry).2.toNat < 2 ^ 64 ∧
      Stands ones16
        ((cksumChunks mem n o s carry).1.toNat + (cksumChunks mem n o s carry).2.toNat)
        (N + (words mem o (8 * n)).sum) := by
  induction n generalizing o s carry N with
  | zero => exact ⟨hlt, hs⟩
  | succ n ih =>
      have hadc := adc_endAround (b := leWord mem o 8) hlt
      have hwords : words mem o (8 * (n + 1)) = words mem o 8 ++ words mem (o + 8) (8 * n) := by
        rw [Nat.mul_succ, Nat.add_comm]
        exact words_add 4 (8 * n)
      rw [cksumChunks, hwords, List.sum_append, ← Nat.add_assoc]
      apply ih
      · rw [hadc]
        exact endAround_lt hlt (BitVec.isLt _)
      · rw [hadc]
        exact hs.endAround (by decide) (leWord_stands (le_refl 8))

/-- The bytes that are left after the chunks; the sum has taken in the first `p` bytes. -/
theorem cksumTail_stands (len : ℕ) {k p : ℕ} {s : BitVec 64 × ℕ} (hk : k ≤ 2) (hp : 2 ∣ p)
    (ho : s.2 = o + p) (hs : Stands ones16 s.1.toNat (words mem o p).sum) :
    (cksumTail mem len k s).2 = o + (p + len / 2 ^ k % 2 * 2 ^ k) ∧
      Stands ones16 (cksumTail mem len k s).1.toNat
        (words mem o (p + len / 2 ^ k % 2 * 2 ^ k)).sum := by
  refine ⟨by rw [cksumTail_snd, ho, Nat.add_assoc], ?_⟩
  rw [cksumTail, Nat.testBit_eq_decide_div_mod_eq]
  by_cases hbit : len / 2 ^ k % 2 = 1
  · have hle : 2 ^ k ≤ 8 := by
      calc 2 ^ k ≤ 2 ^ 2 := Nat.pow_le_pow_right (by decide) hk
        _ ≤ 8 := by decide
    obtain ⟨j, rfl⟩ := hp
    rw [decide_eq_true hbit, if_pos rfl, hbit, Nat.one_mul, words_add, List.sum_append,
      toNat_addCarry_eq (by decide), ho]
    exact hs.endAround (by decide) (leWord_stands hle)
  · have hzero : len / 2 ^ k % 2 = 0 := (Nat.mod_two_eq_zero_or_one _).resolve_right hbit
    rw [decide_eq_false hbit, if_neg Bool.false_ne_true, hzero, Nat.zero_mul]
    exact hs

/-- The two halves of a register are added up. -/
theorem halves_stands {v w N : ℕ} {s : BitVec v} (hw : 0 < w) (hd : ones16 ∣ 2 ^ w - 1)
    (hlt : s.toNat < 2 ^ w * 2 ^ w) (hs : Stands ones16 s.toNat N) :
    Stands ones16 (addCarry ((s >>> w).setWidth w) (s.setWidth w)).toNat N := by
  have hhigh : ((s >>> w).setWidth w).toNat = s.toNat / 2 ^ w := by
    rw [BitVec.toNat_setWidth, BitVec.toNat_ushiftRight, Nat.shiftRight_eq_div_pow]
    exact Nat.mod_eq_of_lt (Nat.div_lt_of_lt_mul hlt)
  rw [toNat_addCarry_eq hw, hhigh, BitVec.toNat_setWidth, endAround, Nat.add_comm (s.toNat / 2 ^ w)]
  exact (hs.fold hd).fold hd

theorem cksumFold_stands {N : ℕ} {s : BitVec 64} (hs : Stands ones16 s.toNat N) :
    Stands ones16 (~~~ cksumFold s).toNat N := by
  have hs₃₂ := halves_stands (w := 32) (by decide) (by decide) s.isLt hs
  have hs₁₆ := halves_stands (w := 16) (by decide) (by decide) (BitVec.isLt _) hs₃₂
  rw [cksumFold, BitVec.not_not]
  exact hs₁₆

/-! ## The checksum -/

/-- The sum of the chunks, with the last carry. -/
theorem cksumChunks_sum_stands (mem : ℕ → Byte) (o n : ℕ) :
    Stands ones16
      (adc (cksumChunks mem n o 0 false).1 0 (cksumChunks mem n o 0 false).2).1.toNat
      (words mem o (8 * n)).sum := by
  obtain ⟨hlt, hs⟩ : (cksumChunks mem n o 0 false).1.toNat + _ < 2 ^ 64 ∧ _ :=
    cksumChunks_stands false (by decide) (.refl ones16 0)
  rw [Nat.zero_add] at hs
  have hzero : (0 : BitVec 64).toNat = 0 := rfl
  rw [toNat_adc (by decide), hzero, Nat.add_zero, if_pos hlt]
  exact hs

/-- The complement of the checksum stands for the sum of the words. -/
theorem cksumInternet_stands (mem : ℕ → Byte) (o len : ℕ) :
    Stands ones16 (~~~ cksumInternet mem o len).toNat (words mem o len).sum := by
  have hstart : ∀ s : BitVec 64, Stands ones16 s.toNat (words mem o (8 * (len / 8))).sum →
      Stands ones16 (cksumTail mem len 0 (cksumTail mem len 1
        (cksumTail mem len 2 (s, o + 8 * (len / 8))))).1.toNat (words mem o len).sum := by
    intro s hs
    have h₂ := cksumTail_stands len (k := 2) (s := (s, o + 8 * (len / 8))) (le_refl 2)
      (by omega) rfl hs
    have h₁ := cksumTail_stands len (k := 1) (by decide) (by omega) h₂.1 h₂.2
    have h₀ := (cksumTail_stands len (k := 0) (by decide) (by omega) h₁.1 h₁.2).2
    have hlen : 8 * (len / 8) + len / 2 ^ 2 % 2 * 2 ^ 2 + len / 2 ^ 1 % 2 * 2 ^ 1 +
        len / 2 ^ 0 % 2 * 2 ^ 0 = len := by omega
    rwa [hlen] at h₀
  rw [cksumInternet]
  apply cksumFold_stands
  apply hstart
  split
  · rename_i hzero
    rw [hzero]
    exact .refl _ _
  · exact cksumChunks_sum_stands mem o (len / 8)

/-- The checksum of RFC 1071, as its plain loop. -/
def rfc1071 (mem : ℕ → Byte) (o len : ℕ) : BitVec 16 :=
  ~~~ BitVec.ofNat 16 (OnesComplement.sum 16 (words mem o len))

theorem toNat_le_ones16 (x : BitVec 16) : x.toNat ≤ ones16 := Nat.le_of_lt_succ x.isLt

theorem cksumInternet_eq_rfc1071 (mem : ℕ → Byte) (o len : ℕ) :
    cksumInternet mem o len = rfc1071 mem o len := by
  have hlt : OnesComplement.sum 16 (words mem o len) < 2 ^ 16 := sum_lt fun a ha => words_lt ha
  have hplain : (BitVec.ofNat 16 (OnesComplement.sum 16 (words mem o len))).toNat =
      OnesComplement.sum 16 (words mem o len) := by
    rw [BitVec.toNat_ofNat, Nat.mod_eq_of_lt hlt]
  have hloop := stands_sum (d := ones16) (w := 16) (by decide) (words mem o len)
  rw [← hplain] at hloop
  have heq := (cksumInternet_stands mem o len).eq hloop (toNat_le_ones16 _) (toNat_le_ones16 _)
  rw [rfc1071, ← BitVec.eq_of_toNat_eq heq, BitVec.not_not]

/-! ## A buffer with its checksum -/

/-- A 16-bit value as it is stored. -/
def le16 (v : BitVec 16) : List Byte := [v.extractLsb' 0 8, v.extractLsb' 8 8]

/-- The field at `f` of the `len` bytes at `o` is cleared, and then filled with the checksum. -/
def fillCksum (mem : ℕ → Byte) (o len f : ℕ) : ℕ → Byte :=
  let mem := store mem (o + f) (le16 0)
  store mem (o + f) (le16 (cksumInternet mem o len))

theorem toNat_le16 (v : BitVec 16) :
    (v.extractLsb' 0 8).toNat + 256 * (v.extractLsb' 8 8).toNat = v.toNat := by
  have hlt := v.isLt
  rw [BitVec.extractLsb'_toNat, BitVec.extractLsb'_toNat, Nat.shiftRight_eq_div_pow,
    Nat.shiftRight_eq_div_pow]
  omega

/-- The sum of the words with a field stored. -/
theorem sum_words_store {len f : ℕ} (hf : 2 ∣ f) (hlen : f + 2 ≤ len) (v : BitVec 16) :
    (words (store mem (o + f) (le16 v)) o len).sum =
      (words mem o f).sum + (v.toNat + (words mem (o + f + 2) (len - (f + 2))).sum) := by
  obtain ⟨j, rfl⟩ := hf
  obtain ⟨r, rfl⟩ := Nat.exists_eq_add_of_le hlen
  have hsplit : 2 * j + 2 + r = 2 * j + (2 + r) := Nat.add_assoc _ _ _
  have hfield : words (store mem (o + 2 * j) (le16 v)) (o + 2 * j) (2 + r) =
      v.toNat :: words (store mem (o + 2 * j) (le16 v)) (o + 2 * j + 2) r := by
    have hlow : store mem (o + 2 * j) (le16 v) (o + 2 * j) = v.extractLsb' 0 8 :=
      store_add (show 0 < (le16 v).length from Nat.two_pos)
    have hhigh : store mem (o + 2 * j) (le16 v) (o + 2 * j + 1) = v.extractLsb' 8 8 :=
      store_add (show 1 < (le16 v).length from Nat.one_lt_two)
    rw [Nat.add_comm 2 r, words, hlow, hhigh, toNat_le16]
  have hfront : words (store mem (o + 2 * j) (le16 v)) o (2 * j) = words mem o (2 * j) :=
    words_congr fun i _ hi => store_of_disjoint (.inl hi)
  have hback : words (store mem (o + 2 * j) (le16 v)) (o + 2 * j + 2) r =
      words mem (o + 2 * j + 2) r :=
    words_congr fun i hi _ => store_of_disjoint (.inr hi)
  rw [hsplit, words_add, List.sum_append, hfront, hfield, List.sum_cons, hback, ← hsplit,
    Nat.add_sub_cancel_left]

/-- **A buffer that its checksum was put into verifies.** -/
theorem cksumInternet_fillCksum {len f : ℕ} (hf : 2 ∣ f) (hlen : f + 2 ≤ len) :
    cksumInternet (fillCksum mem o len f) o len = 0 := by
  have hblank := cksumInternet_stands (store mem (o + f) (le16 0)) o len
  have hfilled := cksumInternet_stands (fillCksum mem o len f) o len
  rw [fillCksum] at hfilled ⊢
  generalize cksumInternet (store mem (o + f) (le16 0)) o len = c at hblank hfilled ⊢
  have hsum : ∀ v, (words (store (store mem (o + f) (le16 0)) (o + f) (le16 v)) o len).sum =
      v.toNat + (words (store mem (o + f) (le16 0)) o len).sum := by
    intro v
    have hrest : words (store mem (o + f) (le16 0)) o f = words mem o f :=
      words_congr fun i _ hi => store_of_disjoint (.inl hi)
    have hback : words (store mem (o + f) (le16 0)) (o + f + 2) (len - (f + 2)) =
        words mem (o + f + 2) (len - (f + 2)) :=
      words_congr fun i hi _ => store_of_disjoint (.inr hi)
    have hzero : (0 : BitVec 16).toNat = 0 := rfl
    rw [sum_words_store hf hlen, sum_words_store hf hlen, hrest, hback, hzero]
    omega
  -- the checksum and its complement add up to the full word
  have hfull : c.toNat + (~~~ c).toNat = ones16 := by
    have hc := c.isLt
    rw [BitVec.toNat_not]
    change c.toNat + (2 ^ 16 - 1 - c.toNat) = 65535
    omega
  rw [hsum c] at hfilled
  have hones := (Stands.refl ones16 c.toNat).add hblank
  rw [hfull] at hones
  have heq := hfilled.eq hones (toNat_le_ones16 _) (le_refl _)
  have hall : ~~~ cksumInternet (store (store mem (o + f) (le16 0)) (o + f) (le16 c)) o len =
      BitVec.allOnes 16 := BitVec.eq_of_toNat_eq heq
  rw [← BitVec.not_not (b := cksumInternet _ _ _), hall]
  rfl

end

/-- **The internet checksum.**  For every buffer and every length, `cksum_internet` is the checksum of
RFC 1071, and a buffer with the checksum in a field of its own verifies to zero. -/
theorem cksumInternet_eq (mem : ℕ → Byte) (o len : ℕ) :
    cksumInternet mem o len = rfc1071 mem o len ∧
      ∀ f, 2 ∣ f → f + 2 ≤ len → cksumInternet (fillCksum mem o len f) o len = 0 :=
  ⟨cksumInternet_eq_rfc1071 mem o len, fun _ hf hlen => cksumInternet_fillCksum hf hlen⟩

/-- An echo reply with one byte of data. -/
def echoReply (i : ℕ) : Byte := [0x00, 0x00, 0x7f, 0x01, 0x12, 0x34, 0x00, 0x01, 0x61].getD i 0

theorem cksumInternet_eq_echoReply : fillCksum echoReply 0 9 2 2 = 0x8c ∧
    fillCksum echoReply 0 9 2 3 = 0xca ∧ cksumInternet (fillCksum echoReply 0 9 2) 0 9 = 0 :=
  ⟨by decide, by decide, (cksumInternet_eq echoReply 0 9).2 2 (by decide) (by decide)⟩

end Skyloft
