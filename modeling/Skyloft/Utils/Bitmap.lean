import Skyloft.Lib.Mask
import Skyloft.Lib.Search

/-!
# Searching a bitmap

`bitmap_find_next` goes through the words of a bitmap with an `int` that counts bits.  The first word
is masked, the last one may have bits behind the end of the bitmap; what is found there is cut off.
The counter is advanced by 64 before it is compared with the number of bits, so it does not come to
an end if that number is within 64 of the largest `int`.

* `bitmapFindNext`, `bitmapForEachLoop` — the search and the loops made of it.
* `Bitmap.find_eq` — the search is that for the first matching bit of the words.
* `Bitmap.search_iff` — for which bitmaps it finds the next matching bit.
-/

namespace Skyloft

/-! ## The search -/

inductive BitmapFault
  /-- a word that the bitmap does not have -/
  | outOfBounds
  /-- the sum of two `int`s is too large -/
  | overflow
  /-- the loop goes on after all words -/
  | endless
  deriving DecidableEq

/-- `BITS_PER_LONG` -/
def bitsPerLong : BitVec 64 := 64

/-- `BITMAP_LONG_SIZE` -/
def bitmapLongSize (nbits : ℕ) : ℕ := (nbits + 63) / 64

/-- `BITMAP_POS_IDX` -/
def bitmapPosIdx (pos : BitVec 32) : BitVec 64 := pos.signExtend 64 / bitsPerLong

/-- `BITMAP_POS_SHIFT` -/
def bitmapPosShift (pos : BitVec 32) : BitVec 64 := pos.signExtend 64 % bitsPerLong

/-- `align_down` of an `int` -/
def alignDownInt (x align : BitVec 32) : BitVec 32 := x &&& ~~~(align - 1)

/-- `__builtin_ffsl` -/
def ffsl (x : BitVec 64) : BitVec 32 := if x = 0 then 0 else BitVec.ofNat 32 (x.ctz.toNat + 1)

/-- `MIN` of two `int`s -/
def minInt (a b : BitVec 32) : BitVec 32 := if a.slt b then a else b

/-- The loop of `bitmap_find_next`. -/
def findLoop (bits : List (BitVec 64)) (nbits : BitVec 32) (invert : Bool) :
    ℕ → BitVec 32 → BitVec 64 → Except BitmapFault (BitVec 32)
  | 0, _, _ => .error .endless
  | fuel + 1, idx, mask =>
      if idx.slt nbits then
        match bits[(bitmapPosIdx idx).toNat]? with
        | none => .error .outOfBounds
        | some word =>
            let val := (if invert then ~~~word else word) &&& mask
            if val ≠ 0 then
              if idx.saddOverflow (ffsl val) then .error .overflow
              else .ok (minInt (idx + ffsl val - 1) nbits)
            else
              findLoop bits nbits invert fuel ((idx.signExtend 64 + bitsPerLong).setWidth 32)
                (BitVec.allOnes 64)
      else .ok nbits

def bitmapFindNext (bits : List (BitVec 64)) (nbits pos : BitVec 32) (invert : Bool) :
    Except BitmapFault (BitVec 32) :=
  findLoop bits nbits invert (bits.length + 2) (alignDownInt pos (bitsPerLong.setWidth 32))
    (~~~(1#64 <<< bitmapPosShift pos - 1))

def bitmapFindNextCleared (bits : List (BitVec 64)) (nbits pos : BitVec 32) :
    Except BitmapFault (BitVec 32) :=
  bitmapFindNext bits nbits pos true

def bitmapFindNextSet (bits : List (BitVec 64)) (nbits pos : BitVec 32) :
    Except BitmapFault (BitVec 32) :=
  bitmapFindNext bits nbits pos false

/-- The loop of `bitmap_for_each_set` and `bitmap_for_each_cleared`, and the positions its body runs
with. -/
def bitmapForEachLoop (find : BitVec 32 → Except BitmapFault (BitVec 32)) (nbits : BitVec 32) :
    ℕ → BitVec 32 → Except BitmapFault (List (BitVec 32))
  | 0, _ => .error .endless
  | fuel + 1, pos =>
      match find (pos + 1) with
      | .error f => .error f
      | .ok pos =>
          if pos.slt nbits then (bitmapForEachLoop find nbits fuel pos).map (pos :: ·) else .ok []

def bitmapForEachSet (bits : List (BitVec 64)) (nbits : BitVec 32) :
    Except BitmapFault (List (BitVec 32)) :=
  bitmapForEachLoop (bitmapFindNextSet bits nbits) nbits (nbits.toNat + 1) (-1)

def bitmapForEachCleared (bits : List (BitVec 64)) (nbits : BitVec 32) :
    Except BitmapFault (List (BitVec 32)) :=
  bitmapForEachLoop (bitmapFindNextCleared bits nbits) nbits (nbits.toNat + 1) (-1)

def bitmapTest (bits : List (BitVec 64)) (pos : BitVec 32) : Option Bool :=
  bits[(bitmapPosIdx pos).toNat]?.map fun word => decide (word &&& 1#64 <<< bitmapPosShift pos ≠ 0)

/-- `pick_cpu`, with the map of the CPUs that are in use and `USED_CPUS` -/
def pickCpu (lcCpus : List (BitVec 64)) (usedCpus : BitVec 32) : Except BitmapFault (BitVec 32) :=
  bitmapFindNextCleared lcCpus usedCpus 0

/-! ## Positions as numbers -/

section

variable {a b : ℕ}

theorem toNat_pos (ha : a < 2 ^ 31) : (BitVec.ofNat 32 a).toNat = a := by
  rw [BitVec.toNat_ofNat, Nat.mod_eq_of_lt (by omega)]

theorem toInt_pos (ha : a < 2 ^ 31) : (BitVec.ofNat 32 a).toInt = a := by
  rw [BitVec.toInt_eq_toNat_of_lt, toNat_pos ha]
  rw [toNat_pos ha]
  omega

theorem slt_pos (ha : a < 2 ^ 31) (hb : b < 2 ^ 31) :
    (BitVec.ofNat 32 a).slt (BitVec.ofNat 32 b) = decide (a < b) := by
  rw [BitVec.slt_eq_decide, toInt_pos ha, toInt_pos hb]
  exact decide_eq_decide.mpr Int.ofNat_lt

theorem signExtend_pos (ha : a < 2 ^ 31) :
    (BitVec.ofNat 32 a).signExtend 64 = BitVec.ofNat 64 a := by
  have hmsb : (BitVec.ofNat 32 a).msb = false := by
    rw [BitVec.msb_eq_false_iff_two_mul_lt, toNat_pos ha]
    omega
  apply BitVec.eq_of_toNat_eq
  rw [BitVec.signExtend_eq_setWidth_of_msb_false hmsb, BitVec.toNat_setWidth, toNat_pos ha,
    BitVec.toNat_ofNat]

theorem posIdx_pos (ha : a < 2 ^ 31) : (bitmapPosIdx (BitVec.ofNat 32 a)).toNat = a / 64 := by
  rw [bitmapPosIdx, signExtend_pos ha, BitVec.toNat_udiv, BitVec.toNat_ofNat,
    Nat.mod_eq_of_lt (by omega)]
  rfl

theorem posShift_pos (ha : a < 2 ^ 31) : (bitmapPosShift (BitVec.ofNat 32 a)).toNat = a % 64 := by
  have hlt : a < 2 ^ 64 := by omega
  rw [bitmapPosShift, signExtend_pos ha, BitVec.toNat_umod, BitVec.toNat_ofNat,
    Nat.mod_eq_of_lt hlt]
  rfl

theorem alignDown_pos (ha : a < 2 ^ 31) :
    alignDownInt (BitVec.ofNat 32 a) (bitsPerLong.setWidth 32) = BitVec.ofNat 32 (a / 64 * 64) := by
  have hmask : bitsPerLong.setWidth 32 - 1 = Mask.low 32 6 := by decide
  rw [alignDownInt, hmask]
  exact Mask.ofNat_and_not_low (by omega) 6

/-- The counter is advanced. -/
theorem advance_pos (ha : a < 2 ^ 31) :
    ((BitVec.ofNat 32 a).signExtend 64 + bitsPerLong).setWidth 32 = BitVec.ofNat 32 (a + 64) := by
  have hword : bitsPerLong = BitVec.ofNat 64 64 := rfl
  apply BitVec.eq_of_toNat_eq
  have hlt : a + 64 < 2 ^ 64 := by omega
  rw [signExtend_pos ha, hword, BitVec.ofNat_add_ofNat, BitVec.toNat_setWidth, BitVec.toNat_ofNat,
    BitVec.toNat_ofNat, Nat.mod_eq_of_lt hlt]

theorem saddOverflow_pos (ha : a < 2 ^ 31) (hb : b < 2 ^ 31) :
    (BitVec.ofNat 32 a).saddOverflow (BitVec.ofNat 32 b) = decide (2 ^ 31 ≤ a + b) := by
  rw [BitVec.saddOverflow, toInt_pos ha, toInt_pos hb]
  rw [Bool.eq_iff_iff]
  simp only [Bool.or_eq_true, decide_eq_true_eq]
  omega

theorem minInt_pos (ha : a < 2 ^ 31) (hb : b < 2 ^ 31) :
    minInt (BitVec.ofNat 32 a) (BitVec.ofNat 32 b) = BitVec.ofNat 32 (min a b) := by
  rw [minInt, slt_pos ha hb]
  by_cases hab : a < b
  · rw [if_pos (decide_eq_true hab), min_eq_left hab.le]
  · rw [if_neg (by simpa using hab), min_eq_right (not_lt.mp hab)]

end

/-! ## A word -/

section

variable {val : BitVec 64}

theorem ctz_lt (hval : val ≠ 0) : val.ctz.toNat < 64 :=
  BitVec.ctz_lt_iff_ne_zero.mpr hval

theorem ffsl_of_ne_zero (hval : val ≠ 0) : ffsl val = BitVec.ofNat 32 (val.ctz.toNat + 1) :=
  if_neg hval

/-- The mask of the first word. -/
theorem getLsbD_firstMask {n j : ℕ} {shift : BitVec 64} (hshift : shift.toNat = n) (hn : n < 64)
    (hj : j < 64) : (~~~(1#64 <<< shift - 1)).getLsbD j = decide (n ≤ j) := by
  have hlow : 1#64 <<< shift - 1 = Mask.low 64 n := by
    have hpos : 0 < 2 ^ n := Nat.two_pow_pos n
    have hlt : 2 ^ n < 2 ^ 64 := Nat.pow_lt_pow_right (by decide) hn
    have hone : 1#64 <<< shift = BitVec.ofNat 64 (2 ^ n) := by
      apply BitVec.eq_of_toNat_eq
      rw [BitVec.shiftLeft_eq', hshift, BitVec.toNat_shiftLeft, BitVec.toNat_ofNat,
        Nat.shiftLeft_eq]
      simp
    rw [hone, Mask.low, ← BitVec.ofNat_sub_ofNat_of_le _ _ (by decide) hpos]
    rfl
  rw [hlow, BitVec.getLsbD_not, Mask.getLsbD_low]
  by_cases hjn : j < n
  · simp [hj, hjn]
  · simp [hj, hjn, not_lt.mp hjn]

end

/-! ## The bits of a bitmap -/

/-- An array for at most as many bits as the largest `int`, and a number of bits that it has words
for. -/
structure Bitmap where
  bits : List (BitVec 64)
  nbits : ℕ
  isInt : nbits < 2 ^ 31
  room : bitmapLongSize nbits ≤ bits.length
  declared : bits.length ≤ bitmapLongSize (2 ^ 31 - 1)

namespace Bitmap

/-- The bit is set, or it is cleared.  The array may have more bits than are counted. -/
def hit (b : Bitmap) (cleared : Bool) (i : ℕ) : Bool :=
  (b.bits.getD (i / 64) 0).getLsbD (i % 64) != cleared

/-- The number of bits in the words that are searched. -/
def span (b : Bitmap) : ℕ := bitmapLongSize b.nbits * 64

def find (b : Bitmap) (cleared : Bool) (pos : BitVec 32) : Except BitmapFault (BitVec 32) :=
  if cleared then bitmapFindNextCleared b.bits (BitVec.ofNat 32 b.nbits) pos
  else bitmapFindNextSet b.bits (BitVec.ofNat 32 b.nbits) pos

def forEach (b : Bitmap) (cleared : Bool) : Except BitmapFault (List (BitVec 32)) :=
  if cleared then bitmapForEachCleared b.bits (BitVec.ofNat 32 b.nbits)
  else bitmapForEachSet b.bits (BitVec.ofNat 32 b.nbits)

/-- What the search makes of the first matching bit of the words. -/
def outcome (b : Bitmap) : Option ℕ → Except BitmapFault (BitVec 32)
  | some i =>
      if i = 2 ^ 31 - 1 then .error .overflow else .ok (BitVec.ofNat 32 (min i b.nbits))
  | none =>
      if b.nbits ≤ 2 ^ 31 - 64 then .ok (BitVec.ofNat 32 b.nbits) else .error .outOfBounds

variable {b : Bitmap} {cleared : Bool} {k lo : ℕ} {mask : BitVec 64}

theorem size_le (b : Bitmap) : bitmapLongSize b.nbits ≤ 2 ^ 25 := b.room.trans b.declared

theorem getD_bits (hk : k < b.bits.length) : b.bits.getD k 0 = b.bits[k] := by
  rw [List.getD_eq_getElem?_getD, List.getElem?_eq_getElem hk, Option.getD_some]

/-- `bitmap_test` -/
theorem bitmapTest_eq {i : ℕ} (hi : i < 2 ^ 31) (hk : i / 64 < b.bits.length) :
    bitmapTest b.bits (BitVec.ofNat 32 i) = some (b.hit false i) := by
  have hone : (1#64 <<< bitmapPosShift (BitVec.ofNat 32 i)) = BitVec.twoPow 64 (i % 64) := by
    rw [BitVec.shiftLeft_eq', posShift_pos hi, BitVec.twoPow_eq]
  have hne : BitVec.twoPow 64 (i % 64) ≠ 0 := by
    intro hzero
    have hbit := congrArg (fun x => x.getLsbD (i % 64)) hzero
    simp [Nat.mod_lt] at hbit
  rw [bitmapTest, posIdx_pos hi, List.getElem?_eq_getElem hk, Option.map_some, hit, getD_bits hk,
    hone, BitVec.and_twoPow, Bool.bne_false]
  cases b.bits[i / 64].getLsbD (i % 64) with
  | false => rfl
  | true => exact congrArg some (decide_eq_true hne)

/-- A word has the matching bits of its positions. -/
theorem getLsbD_word (hk : k < b.bits.length) {j : ℕ} (hj : j < 64) :
    (if cleared then ~~~b.bits[k] else b.bits[k]).getLsbD j = b.hit cleared (k * 64 + j) := by
  have hdiv : (k * 64 + j) / 64 = k := by omega
  have hmod : (k * 64 + j) % 64 = j := by omega
  rw [hit, hdiv, hmod, getD_bits hk]
  cases cleared with
  | false => simp
  | true => simp [hj]

/-- The masked word has those from a position on. -/
theorem getLsbD_masked (hk : k < b.bits.length)
    (hmask : ∀ j < 64, mask.getLsbD j = decide (lo ≤ k * 64 + j)) {j : ℕ} (hj : j < 64) :
    ((if cleared then ~~~b.bits[k] else b.bits[k]) &&& mask).getLsbD j =
      (b.hit cleared (k * 64 + j) && decide (lo ≤ k * 64 + j)) := by
  rw [BitVec.getLsbD_and, getLsbD_word hk hj, hmask j hj]

/-- The first bit of a word that is not empty. -/
theorem first_word {val : BitVec 64} (hlo : k * 64 ≤ lo)
    (hbits : ∀ j < 64, val.getLsbD j = (b.hit cleared (k * 64 + j) && decide (lo ≤ k * 64 + j)))
    (hval : val ≠ 0) :
    Search.first (b.hit cleared) lo ((k + 1) * 64) = some (k * 64 + val.ctz.toNat) := by
  have hlt := ctz_lt hval
  have hset := BitVec.getLsbD_true_ctz_of_ne_zero hval
  rw [hbits _ hlt, Bool.and_eq_true, decide_eq_true_iff] at hset
  refine Search.first_eq_some.mpr ⟨hset.1, hset.2, by omega, fun i hi hic => ?_⟩
  have hclear := BitVec.getLsbD_false_of_lt_ctz (x := val) (i := i - k * 64) (by omega)
  have hpos : k * 64 + (i - k * 64) = i := by omega
  rw [hbits _ (by omega), hpos, decide_eq_true hi, Bool.and_true] at hclear
  exact hclear

/-- An empty word. -/
theorem first_word_none {val : BitVec 64} (hlo : k * 64 ≤ lo)
    (hbits : ∀ j < 64, val.getLsbD j = (b.hit cleared (k * 64 + j) && decide (lo ≤ k * 64 + j)))
    (hval : val = 0) : Search.first (b.hit cleared) lo ((k + 1) * 64) = none := by
  refine Search.first_eq_none.mpr fun i hi hik => ?_
  have hpos : k * 64 + (i - k * 64) = i := by omega
  have hclear := hbits (i - k * 64) (by omega)
  rw [hpos, decide_eq_true hi, Bool.and_true, hval] at hclear
  exact hclear.symm.trans BitVec.getLsbD_zero

/-! ## The loop -/

/-- The counter is past the words. -/
theorem findLoop_end (b : Bitmap) (cleared : Bool) (fuel : ℕ) (mask : BitVec 64) :
    findLoop b.bits (BitVec.ofNat 32 b.nbits) cleared (fuel + 1) (BitVec.ofNat 32 b.span) mask =
      b.outcome none := by
  have hsize := b.size_le
  have hint := b.isInt
  have hspan : b.span = bitmapLongSize b.nbits * 64 := rfl
  have hwords : bitmapLongSize b.nbits = (b.nbits + 63) / 64 := rfl
  rw [findLoop, outcome]
  by_cases hend : b.nbits ≤ 2 ^ 31 - 64
  · rw [slt_pos (by omega) hint, if_neg (by simp; omega), if_pos hend]
  · -- the counter has become the smallest `int`
    have hwrap : BitVec.ofNat 32 b.span = BitVec.ofNat 32 (2 ^ 31) := by
      congr 1
      omega
    have hlt : (BitVec.ofNat 32 (2 ^ 31)).slt (BitVec.ofNat 32 b.nbits) = true := by
      rw [BitVec.slt_eq_decide, toInt_pos hint, decide_eq_true_iff]
      exact lt_of_lt_of_le (by decide : (BitVec.ofNat 32 (2 ^ 31)).toInt < 0) (Int.natCast_nonneg _)
    have hidx : (bitmapPosIdx (BitVec.ofNat 32 (2 ^ 31))).toNat = 288230376118157312 := by decide
    have hdeclared : b.bits.length ≤ 33554432 := b.declared
    rw [hwrap, if_pos hlt, hidx, List.getElem?_eq_none (by omega), if_neg hend]

/-- A word in which there is a matching bit. -/
theorem findLoop_found (fuel : ℕ) (hk : k < bitmapLongSize b.nbits) (hlo : k * 64 ≤ lo)
    (hmask : ∀ j < 64, mask.getLsbD j = decide (lo ≤ k * 64 + j)) :
    findLoop b.bits (BitVec.ofNat 32 b.nbits) cleared (fuel + 1) (BitVec.ofNat 32 (k * 64)) mask =
      match Search.first (b.hit cleared) lo ((k + 1) * 64) with
      | some i => b.outcome (some i)
      | none => findLoop b.bits (BitVec.ofNat 32 b.nbits) cleared fuel
          (BitVec.ofNat 32 ((k + 1) * 64)) (BitVec.allOnes 64) := by
  have hsize := b.size_le
  have hint := b.isInt
  have hwords : bitmapLongSize b.nbits = (b.nbits + 63) / 64 := rfl
  have hlen : k < b.bits.length := lt_of_lt_of_le hk b.room
  have hdiv : k * 64 / 64 = k := Nat.mul_div_cancel k (by decide)
  have hbits : ∀ j < 64, ((if cleared then ~~~b.bits[k] else b.bits[k]) &&& mask).getLsbD j =
      (b.hit cleared (k * 64 + j) && decide (lo ≤ k * 64 + j)) :=
    fun _ hj => getLsbD_masked hlen hmask hj
  rw [findLoop, slt_pos (by omega) hint, if_pos (by simp; omega), posIdx_pos (by omega), hdiv,
    List.getElem?_eq_getElem hlen]
  dsimp only
  by_cases hval : (if cleared then ~~~b.bits[k] else b.bits[k]) &&& mask = 0
  · rw [if_neg (not_not.mpr hval), first_word_none hlo hbits hval, advance_pos (by omega),
      Nat.add_mul, Nat.one_mul]
  · have hctz := ctz_lt hval
    rw [if_pos hval, first_word hlo hbits hval, ffsl_of_ne_zero hval,
      saddOverflow_pos (by omega) (by omega)]
    dsimp only [outcome]
    generalize ((if cleared then ~~~b.bits[k] else b.bits[k]) &&& mask).ctz.toNat = c at *
    have hsub : BitVec.ofNat 32 (k * 64) + BitVec.ofNat 32 (c + 1) - 1 =
        BitVec.ofNat 32 (k * 64 + c) := by
      rw [BitVec.ofNat_add_ofNat, ← Nat.add_assoc, BitVec.ofNat_add]
      exact add_sub_cancel_right _ _
    by_cases hlast : k * 64 + c = 2 ^ 31 - 1
    · rw [if_pos (by simp; omega), if_pos hlast]
    · rw [if_neg (by simp; omega), if_neg hlast, hsub, minInt_pos (by omega) hint]

theorem findLoop_eq (b : Bitmap) (cleared : Bool) : ∀ (fuel k lo : ℕ) (mask : BitVec 64),
    k ≤ bitmapLongSize b.nbits → bitmapLongSize b.nbits < fuel + k → k * 64 ≤ lo →
    (k < bitmapLongSize b.nbits → lo ≤ (k + 1) * 64) →
    (∀ j < 64, mask.getLsbD j = decide (lo ≤ k * 64 + j)) →
    findLoop b.bits (BitVec.ofNat 32 b.nbits) cleared fuel (BitVec.ofNat 32 (k * 64)) mask =
      b.outcome (Search.first (b.hit cleared) lo b.span) := by
  intro fuel
  induction fuel with
  | zero => intro k lo mask hk hfuel; omega
  | succ fuel ih =>
      intro k lo mask hk hfuel hlo hin hmask
      rcases Nat.lt_or_eq_of_le hk with hk | rfl
      · have hnext : (k + 1) * 64 ≤ b.span := Nat.mul_le_mul_right 64 hk
        rw [findLoop_found fuel hk hlo hmask, Search.first_split (hin hk) hnext]
        cases hfirst : Search.first (b.hit cleared) lo ((k + 1) * 64) with
        | some i => rfl
        | none =>
            rw [Option.none_or]
            apply ih (k + 1) ((k + 1) * 64) _ hk (by omega) le_rfl (by omega)
            intro j hj
            rw [BitVec.getLsbD_allOnes, decide_eq_decide]
            omega
      · have hnone : Search.first (b.hit cleared) lo b.span = none :=
          Search.first_eq_none.mpr fun j hj hjs => absurd hjs (not_lt.mpr (hlo.trans hj))
        rw [hnone]
        exact findLoop_end b cleared fuel mask

/-- **The search** is that for the first matching bit from a position on. -/
theorem find_eq (b : Bitmap) (cleared : Bool) {pos : ℕ} (hpos : pos ≤ b.nbits) :
    b.find cleared (BitVec.ofNat 32 pos) =
      b.outcome (Search.first (b.hit cleared) pos b.span) := by
  have hint := b.isInt
  have hlt : pos < 2 ^ 31 := lt_of_le_of_lt hpos hint
  have hwords : bitmapLongSize b.nbits = (b.nbits + 63) / 64 := rfl
  have hroom := b.room
  have hboth : b.find cleared (BitVec.ofNat 32 pos) =
      bitmapFindNext b.bits (BitVec.ofNat 32 b.nbits) (BitVec.ofNat 32 pos) cleared := by
    cases cleared <;> rfl
  rw [hboth, bitmapFindNext, alignDown_pos hlt]
  apply findLoop_eq b cleared
  · omega
  · omega
  · omega
  · omega
  · intro j hj
    rw [getLsbD_firstMask (posShift_pos hlt) (Nat.mod_lt _ (by decide)) hj, decide_eq_decide]
    omega

/-! ## When it comes to an end -/

/-- The search returns the least matching index from a position on, or the number of bits. -/
def FindsNext (b : Bitmap) (cleared : Bool) (pos : ℕ) : Prop :=
  ∃ r, b.find cleared (BitVec.ofNat 32 pos) = .ok (BitVec.ofNat 32 r) ∧
    IsLeast {i | pos ≤ i ∧ (i < b.nbits → b.hit cleared i = true)} r

/-- The body of the loop runs with the matching indices, in order. -/
def VisitsAll (b : Bitmap) (cleared : Bool) : Prop :=
  b.forEach cleared = .ok (((List.range b.nbits).filter (b.hit cleared)).map (BitVec.ofNat 32))

/-- The counter does not run over: there is an `int` past the last word, or a matching bit to stop
at, which may be one that is not counted. -/
def Stops (b : Bitmap) (cleared : Bool) (pos : ℕ) : Prop :=
  b.nbits ≤ 2 ^ 31 - 64 ∨ ∃ i, pos ≤ i ∧ i < 2 ^ 31 - 1 ∧ b.hit cleared i = true

variable {pos : ℕ}

theorem nbits_le_span (b : Bitmap) : b.nbits ≤ b.span := by
  rw [span, bitmapLongSize]
  omega

theorem span_le (b : Bitmap) : b.span ≤ 2 ^ 31 := Nat.mul_le_mul_right 64 b.size_le

theorem find_of_stops (hpos : pos ≤ b.nbits) (h : b.Stops cleared pos) :
    b.find cleared (BitVec.ofNat 32 pos) =
      .ok (BitVec.ofNat 32 ((Search.first (b.hit cleared) pos b.nbits).getD b.nbits)) := by
  rw [find_eq b cleared hpos, ← Search.first_cut hpos b.nbits_le_span]
  cases hfirst : Search.first (b.hit cleared) pos b.span with
  | some i =>
      obtain ⟨hhit, hi, hspan, hleast⟩ := Search.first_eq_some.mp hfirst
      have hne : i ≠ 2 ^ 31 - 1 := by
        rcases h with hsmall | ⟨j, hj, hlt, hhitj⟩
        · have hwords : b.span = (b.nbits + 63) / 64 * 64 := rfl
          omega
        · intro heq
          rw [hleast j hj (heq ▸ hlt)] at hhitj
          cases hhitj
      exact if_neg hne
  | none =>
      by_cases hsmall : b.nbits ≤ 2 ^ 31 - 64
      · exact if_pos hsmall
      · -- all positions there are are in the words
        obtain ⟨j, hj, hlt, hhit⟩ := h.resolve_left hsmall
        have hspan : b.span = (b.nbits + 63) / 64 * 64 := rfl
        rw [Search.first_eq_none.mp hfirst j hj (by omega)] at hhit
        cases hhit

theorem find_of_not_stops (hpos : pos ≤ b.nbits) (h : ¬ b.Stops cleared pos) :
    ∃ f, b.find cleared (BitVec.ofNat 32 pos) = .error f := by
  rw [Stops, not_or] at h
  rw [find_eq b cleared hpos]
  cases hfirst : Search.first (b.hit cleared) pos b.span with
  | some i =>
      obtain ⟨hhit, hi, hspan, -⟩ := Search.first_eq_some.mp hfirst
      have hle := b.span_le
      have hlast : i = 2 ^ 31 - 1 := by
        by_contra hne
        exact h.2 ⟨i, hi, by omega, hhit⟩
      exact ⟨.overflow, if_pos hlast⟩
  | none => exact ⟨.outOfBounds, if_neg h.1⟩

theorem findsNext_iff (hpos : pos ≤ b.nbits) : b.FindsNext cleared pos ↔ b.Stops cleared pos := by
  constructor
  · rintro ⟨r, hr, -⟩
    by_contra h
    obtain ⟨f, hf⟩ := find_of_not_stops hpos h
    cases hr.symm.trans hf
  · exact fun h => ⟨_, find_of_stops hpos h, Search.isLeast_first hpos⟩

/-! ## The loops -/

/-- Behind the last matching index it is the bits that are not counted that matter. -/
theorem stops_end (hpos : pos ≤ b.nbits) (hnone : Search.first (b.hit cleared) pos b.nbits = none) :
    b.Stops cleared pos ↔ b.Stops cleared b.nbits := by
  refine or_congr_right ⟨?_, fun ⟨i, hi, hrest⟩ => ⟨i, hpos.trans hi, hrest⟩⟩
  rintro ⟨i, hi, hlt, hhit⟩
  refine ⟨i, ?_, hlt, hhit⟩
  by_contra hin
  rw [Search.first_eq_none.mp hnone i hi (not_le.mp hin)] at hhit
  cases hhit

/-- The loop, from a position on. -/
theorem forEachLoop_eq (b : Bitmap) (cleared : Bool) : ∀ (fuel pos : ℕ), pos ≤ b.nbits →
    b.nbits < fuel + pos →
    (b.Stops cleared b.nbits →
      bitmapForEachLoop (b.find cleared) (BitVec.ofNat 32 b.nbits) fuel (BitVec.ofNat 32 pos - 1) =
        .ok ((Search.all (b.hit cleared) pos b.nbits).map (BitVec.ofNat 32))) ∧
    (¬ b.Stops cleared b.nbits → ∃ f,
      bitmapForEachLoop (b.find cleared) (BitVec.ofNat 32 b.nbits) fuel (BitVec.ofNat 32 pos - 1) =
        .error f) := by
  have hint := b.isInt
  intro fuel
  induction fuel with
  | zero => intro pos hpos hfuel; omega
  | succ fuel ih =>
      intro pos hpos hfuel
      rw [bitmapForEachLoop, sub_add_cancel]
      cases hfirst : Search.first (b.hit cleared) pos b.nbits with
      | some i =>
          obtain ⟨hhit, hi, hlt, -⟩ := Search.first_eq_some.mp hfirst
          have hstops : b.Stops cleared pos := .inr ⟨i, hi, by omega, hhit⟩
          have hprev : BitVec.ofNat 32 (i + 1) - 1 = BitVec.ofNat 32 i := by
            rw [BitVec.ofNat_add]
            exact add_sub_cancel_right _ _
          have hslt : (BitVec.ofNat 32 i).slt (BitVec.ofNat 32 b.nbits) = true := by
            rw [slt_pos (by omega) hint, decide_eq_true hlt]
          have hrest := ih (i + 1) hlt (by omega)
          rw [hprev] at hrest
          obtain ⟨hok, herr⟩ := hrest
          rw [find_of_stops hpos hstops, hfirst, Option.getD_some]
          simp only [hslt, if_true]
          constructor
          · intro h
            rw [hok h, Search.all_of_first hfirst, List.map_cons]
            rfl
          · intro h
            obtain ⟨f, hf⟩ := herr h
            exact ⟨f, by rw [hf]; rfl⟩
      | none =>
          have hslt : (BitVec.ofNat 32 b.nbits).slt (BitVec.ofNat 32 b.nbits) = false := by
            rw [slt_pos hint hint, decide_eq_false (lt_irrefl _)]
          constructor
          · intro h
            rw [find_of_stops hpos ((stops_end hpos hfirst).mpr h), hfirst, Option.getD_none,
              Search.all_of_first_none hfirst]
            simp only [hslt]
            rfl
          · intro h
            obtain ⟨f, hf⟩ := find_of_not_stops hpos (mt (stops_end hpos hfirst).mp h)
            exact ⟨f, by rw [hf]⟩

theorem forEach_eq (b : Bitmap) (cleared : Bool) :
    b.forEach cleared = bitmapForEachLoop (b.find cleared) (BitVec.ofNat 32 b.nbits) (b.nbits + 1)
      (BitVec.ofNat 32 0 - 1) := by
  cases cleared <;>
    simp only [forEach, bitmapForEachSet, bitmapForEachCleared, toNat_pos b.isInt, if_true,
      Bool.false_eq_true, if_false] <;> rfl

theorem visitsAll_iff (b : Bitmap) (cleared : Bool) :
    b.VisitsAll cleared ↔ b.Stops cleared b.nbits := by
  obtain ⟨hok, herr⟩ := forEachLoop_eq b cleared (b.nbits + 1) 0 (Nat.zero_le _) (by omega)
  rw [VisitsAll, forEach_eq, List.range_eq_range']
  constructor
  · intro hvisits
    by_contra h
    obtain ⟨f, hf⟩ := herr h
    cases hvisits.symm.trans hf
  · exact hok

/-! ## Results -/

/-- `pick_cpu` picks the first CPU that is not in use, as far as an `int` can count CPUs. -/
theorem pickCpu_least (b : Bitmap) (hn : b.nbits ≤ 2 ^ 31 - 64) :
    ∃ r, pickCpu b.bits (BitVec.ofNat 32 b.nbits) = .ok (BitVec.ofNat 32 r) ∧
      IsLeast {i | i < b.nbits → b.hit true i = true} r := by
  have hnext : b.FindsNext true 0 := (findsNext_iff (Nat.zero_le _)).mpr (.inl hn)
  obtain ⟨r, hr, hleast⟩ := hnext
  simp only [Nat.zero_le, true_and] at hleast
  exact ⟨r, hr, hleast⟩

/-- **Bitmap search.** A search from a position finds the least matching index from there on, or the
number of bits, and a loop visits all matching indices in order, exactly if the counter does not run
over. -/
theorem search_iff (b : Bitmap) (cleared : Bool) :
    (∀ pos ≤ b.nbits, b.FindsNext cleared pos ↔ b.Stops cleared pos) ∧
      (b.VisitsAll cleared ↔ b.Stops cleared b.nbits) :=
  ⟨fun _ hpos => findsNext_iff hpos, visitsAll_iff b cleared⟩

/-- Bits are set at the ends of both words, and the last one is not counted. -/
def twoWords : Bitmap where
  bits := [0x8000000000000001, 0x8000000000000001]
  nbits := 127
  isInt := by decide
  room := by decide
  declared := by decide

theorem search_iff_twoWords : twoWords.FindsNext false 65 ∧ twoWords.VisitsAll false :=
  ⟨((search_iff twoWords false).1 65 (by decide)).mpr (.inl (by decide)),
    (search_iff twoWords false).2.mpr (.inl (by decide))⟩

example : twoWords.forEach false = .ok [0, 63, 64] := by decide +kernel

/-- As many bits as the largest `int`, all cleared. -/
def allCleared : Bitmap where
  bits := List.replicate (2 ^ 25) 0
  nbits := 2 ^ 31 - 1
  isInt := by decide
  room := by rw [List.length_replicate]; decide
  declared := by rw [List.length_replicate]; decide

/-- No bit is set, and the search reads a word far behind the array instead of returning the number
of bits. -/
theorem allCleared_out_of_bounds :
    allCleared.nbits = 2 ^ 31 - 1 ∧ (∀ i, allCleared.hit false i = false) ∧
      allCleared.find false (BitVec.ofNat 32 0) = .error .outOfBounds ∧
      ¬ allCleared.FindsNext false 0 ∧ ¬ allCleared.VisitsAll false := by
  have hzero : ∀ i, allCleared.hit false i = false := by
    intro i
    rw [hit, Bool.bne_false, allCleared, List.getD_eq_getElem?_getD, List.getElem?_replicate]
    split <;> exact BitVec.getLsbD_zero
  have hfirst : Search.first (allCleared.hit false) 0 allCleared.span = none :=
    Search.first_eq_none.mpr fun i _ _ => hzero i
  have hlarge : ¬ allCleared.nbits ≤ 2 ^ 31 - 64 := by decide
  have hnot : ∀ pos, ¬ allCleared.Stops false pos := by
    rintro pos (hsmall | ⟨i, -, -, hhit⟩)
    · exact absurd hsmall hlarge
    · rw [hzero i] at hhit
      cases hhit
  refine ⟨rfl, hzero, ?_, ?_, ?_⟩
  · rw [find_eq allCleared false (Nat.zero_le _), hfirst, outcome, if_neg hlarge]
  · exact fun h => hnot 0 ((findsNext_iff (Nat.zero_le _)).mp h)
  · exact fun h => hnot _ ((visitsAll_iff allCleared false).mp h)

end Bitmap

end Skyloft
