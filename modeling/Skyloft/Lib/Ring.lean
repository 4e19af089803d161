import Mathlib.Data.BitVec
import Mathlib.Data.List.Basic
import Mathlib.Data.Nat.Bitwise
import Mathlib.Data.Nat.ModEq
import Mathlib.Logic.Function.Basic

/-!
# Rings with running counters

A ring keeps its entries in `size` slots and addresses them by two machine counters that
only ever grow and are reduced to a slot when one is read.  The counters wrap, so `size`
has to divide the number of counter values.

* `Ring.contents` — the entries between two counters, oldest first.
* `Ring.contents_push`, `Ring.contents_drop`, `Ring.contents_copy` — what writing at the
  tail, advancing the head and copying to another ring do to them.
* `Ring.Tagged` — a bit in each slot, which changes with every lap, tells the entries from
  the slots that are free.
-/

namespace Ring

variable {α : Type*} {w size : ℕ}

/-- The entries from `head` up to `tail`. -/
def contents (size : ℕ) (slots : ℕ → α) (head tail : BitVec w) : List α :=
  (List.range (tail - head).toNat).map fun j => slots ((head + BitVec.ofNat w j).toNat % size)

variable {slots : ℕ → α} {head tail : BitVec w}

@[simp] theorem length_contents : (contents size slots head tail).length = (tail - head).toNat := by
  simp [contents]

theorem contents_eq_nil : contents size slots head tail = [] ↔ head = tail := by
  rw [← List.length_eq_zero_iff, length_contents]
  constructor
  · intro h
    have h0 : tail - head = 0#w := BitVec.eq_of_toNat_eq (by simpa using h)
    simpa using (BitVec.sub_eq_iff_eq_add.mp h0).symm
  · intro h
    simp [h]

/-- The slot of a counter does not see it wrap. -/
theorem slot_add (hs : size ∣ 2 ^ w) (j : ℕ) :
    (head + BitVec.ofNat w j).toNat % size = (head.toNat + j) % size := by
  simp only [BitVec.toNat_add, BitVec.toNat_ofNat, Nat.add_mod_mod]
  exact Nat.mod_mod_of_dvd _ hs

theorem contents_eq (hs : size ∣ 2 ^ w) :
    contents size slots head tail =
      (List.range (tail - head).toNat).map fun j => slots ((head.toNat + j) % size) := by
  simp only [contents, slot_add hs]

/-- A whole turn from the first slot on. -/
theorem contents_turn (hw : size < 2 ^ w) :
    contents size slots 0#w (BitVec.ofNat w size) = (List.range size).map slots := by
  rw [contents, BitVec.sub_zero, BitVec.toNat_ofNat, Nat.mod_eq_of_lt hw]
  apply List.map_congr_left
  intro j hj
  have hlt : j < size := List.mem_range.mp hj
  rw [BitVec.zero_add, BitVec.toNat_ofNat, Nat.mod_eq_of_lt (hlt.trans hw), Nat.mod_eq_of_lt hlt]

/-- Two slots less than a turn apart are different. -/
theorem slot_ne {a j n : ℕ} (hj : j < n) (hn : n < size) : (a + j) % size ≠ (a + n) % size := by
  intro h
  have hmod : a + j ≡ a + n [MOD size] := h
  have hjn : j ≡ n [MOD size] := Nat.ModEq.add_left_cancel' a hmod
  have : j = n := Nat.ModEq.eq_of_lt_of_lt hjn (by omega) hn
  omega

theorem toNat_push (hw : size < 2 ^ w) (hfull : (tail - head).toNat < size) :
    (tail + 1#w - head).toNat = (tail - head).toNat + 1 := by
  have hassoc : tail + 1#w - head = (tail - head) + 1#w := by grind
  have hone : (1#w).toNat = 1 := by
    rcases w with _ | w
    · simp at hw
      omega
    · simp
  rw [hassoc, BitVec.toNat_add, hone, Nat.mod_eq_of_lt (by omega)]

/-- The slot of the tail, counted from the head. -/
theorem slot_tail (hs : size ∣ 2 ^ w) (head tail : BitVec w) :
    tail.toNat % size = (head.toNat + (tail - head).toNat) % size := by
  have hsum : head + BitVec.ofNat w (tail - head).toNat = tail := by
    rw [BitVec.ofNat_toNat, BitVec.setWidth_eq]
    grind
  rw [← slot_add hs, hsum]

/-- The slot of the tail holds no entry, as long as a slot is free. -/
theorem contents_fill (hs : size ∣ 2 ^ w) {x : α} (hfull : (tail - head).toNat < size) :
    contents size (Function.update slots (tail.toNat % size) x) head tail =
      contents size slots head tail := by
  rw [contents_eq hs, contents_eq hs]
  apply List.map_congr_left
  intro j hj
  rw [Function.update_of_ne]
  rw [slot_tail hs head tail]
  exact slot_ne (List.mem_range.mp hj) hfull

/-- Advancing the tail takes in the entry in its slot. -/
theorem contents_succ (hs : size ∣ 2 ^ w) (hw : size < 2 ^ w)
    (hfull : (tail - head).toNat < size) :
    contents size slots head (tail + 1#w) =
      contents size slots head tail ++ [slots (tail.toNat % size)] := by
  rw [contents_eq hs, contents_eq hs, toNat_push hw hfull, List.range_succ, List.map_append,
    slot_tail hs head tail]
  rfl

/-- Writing the slot of the tail appends an entry, as long as a slot is free. -/
theorem contents_push (hs : size ∣ 2 ^ w) (hw : size < 2 ^ w) {x : α}
    (hfull : (tail - head).toNat < size) :
    contents size (Function.update slots (tail.toNat % size) x) head (tail + 1#w) =
      contents size slots head tail ++ [x] := by
  rw [contents_succ hs hw hfull, contents_fill hs hfull, Function.update_self]

theorem toNat_advance {n : ℕ} (hn : n ≤ (tail - head).toNat) :
    (tail - (head + BitVec.ofNat w n)).toNat = (tail - head).toNat - n := by
  have hassoc : tail - (head + BitVec.ofNat w n) = (tail - head) - BitVec.ofNat w n := by grind
  have hlt : n < 2 ^ w := lt_of_le_of_lt hn (tail - head).isLt
  rw [hassoc, BitVec.toNat_sub_of_le]
  · simp [Nat.mod_eq_of_lt hlt]
  · simpa [BitVec.le_def, Nat.mod_eq_of_lt hlt] using hn

/-- Advancing the head gives up the oldest entries. -/
theorem contents_drop (hs : size ∣ 2 ^ w) {n : ℕ} (hn : n ≤ (tail - head).toNat) :
    contents size slots (head + BitVec.ofNat w n) tail =
      (contents size slots head tail).drop n := by
  apply List.ext_getElem
  · simp [toNat_advance hn]
  · intro j h₁ h₂
    simp only [contents_eq hs, List.getElem_map, List.getElem_range, List.getElem_drop]
    congr 1
    rw [← Nat.add_assoc, ← Nat.mod_add_mod, slot_add hs, Nat.mod_add_mod]

/-- The oldest entry is in the slot of the head. -/
theorem contents_cons (hs : size ∣ 2 ^ w) (h : head ≠ tail) :
    contents size slots head tail =
      slots (head.toNat % size) :: (contents size slots head tail).drop 1 := by
  have hpos : 0 < (contents size slots head tail).length := by
    rw [List.length_pos_iff]
    exact fun hnil => h (contents_eq_nil.mp hnil)
  have hhead : (contents size slots head tail)[0] = slots (head.toNat % size) := by
    simp [contents_eq hs]
  rw [← hhead, ← List.drop_eq_getElem_cons hpos, List.drop_zero]

/-- Entries copied to the front of another ring. -/
theorem contents_copy (hs : size ∣ 2 ^ w) {n : ℕ} (hn : n ≤ (tail - head).toNat)
    (hsize : n ≤ size) {front : ℕ → α}
    (hfront : ∀ i < n, front i = slots ((head + BitVec.ofNat w i).toNat % size)) :
    contents size front 0#w (BitVec.ofNat w n) = (contents size slots head tail).take n := by
  have hlt : n < 2 ^ w := lt_of_le_of_lt hn (tail - head).isLt
  have hlen : (BitVec.ofNat w n - 0#w).toNat = n := by simp [Nat.mod_eq_of_lt hlt]
  apply List.ext_getElem
  · rw [List.length_take, length_contents, length_contents, hlen]
    omega
  · intro i h₁ h₂
    have hi : i < n := by rwa [length_contents, hlen] at h₁
    simp only [contents_eq hs, List.getElem_map, List.getElem_range, List.getElem_take]
    rw [BitVec.toNat_ofNat, Nat.zero_mod, Nat.zero_add, Nat.mod_eq_of_lt (by omega), hfront i hi,
      slot_add hs]

/-! ## Laps

The entries are numbered, and each slot has a bit that its entry sets or clears by the number of
its lap. -/

/-- The bit of an entry. -/
def lapTag (size j : ℕ) : Bool := j / size % 2 = 0

/-- The bits of the slots, from `head` on for a lap, are those of entries up to `tail` only. -/
def Tagged (size : ℕ) (tag : ℕ → Bool) (head tail : ℕ) : Prop :=
  ∀ j, head ≤ j → j < head + size → (tag (j % size) = lapTag size j ↔ j < tail)

section

variable {tag other : ℕ → Bool} {h t k : ℕ}

theorem lapTag_add (hs : 0 < size) (j : ℕ) : lapTag size (j + size) = !lapTag size j := by
  simp only [lapTag, Nat.add_div_right j hs]
  grind

/-- All bits are clear before the first lap. -/
theorem tagged_zero (htag : ∀ i < size, tag i = false) : Tagged size tag 0 0 := by
  intro j _ hj
  have hlt : j < size := by omega
  simp [Nat.mod_eq_of_lt hlt, htag j hlt, lapTag, Nat.div_eq_of_lt hlt]

/-- Two entries less than a lap apart are in different slots. -/
theorem mod_ne {i j : ℕ} (hij : i < j) (hj : j < i + size) : i % size ≠ j % size := by
  have hne : (i + 0) % size ≠ (i + (j - i)) % size := slot_ne (by omega) (by omega)
  rwa [Nat.add_zero, Nat.add_sub_cancel' hij.le] at hne

/-- An entry is written to a slot that is free. -/
theorem Tagged.push (ht : Tagged size tag h t) (hle : h ≤ t) (hfull : t < h + size)
    (hother : ∀ i, i ≠ t % size → other i = tag i) (htag : other (t % size) = lapTag size t) :
    Tagged size other h (t + 1) := by
  intro j hj hlt
  by_cases heq : j = t
  · subst heq
    simp [htag]
  · have hne : j % size ≠ t % size := by
      rcases Nat.lt_or_gt_of_ne heq with hjt | hjt
      · exact mod_ne hjt (by omega)
      · exact (mod_ne hjt (by omega)).symm
    rw [hother _ hne, ht j hj hlt]
    omega

/-- An entry is taken; its bit is wrong for the next lap. -/
theorem Tagged.pop (ht : Tagged size tag h t) (hne : h < t) (hle : t ≤ h + size) :
    Tagged size tag (h + 1) t := by
  intro j hj hlt
  by_cases heq : j = h + size
  · subst heq
    have hs : 0 < size := by omega
    have hh := (ht h (Nat.le_refl h) (by omega)).mpr hne
    rw [Nat.add_mod_right, hh, lapTag_add hs]
    constructor
    · intro hcontra
      simp at hcontra
    · intro hcontra
      omega
  · exact ht j (by omega) (by omega)

/-- The slot of an entry, computed from a machine counter. -/
theorem slot_ofNat (hk : k < w) (n : ℕ) :
    (BitVec.ofNat w n &&& (BitVec.ofNat w (2 ^ k) - 1#w)).toNat = n % 2 ^ k := by
  have hlt : 2 ^ k < 2 ^ w := Nat.pow_lt_pow_right (by decide) hk
  have hpos : 0 < 2 ^ k := Nat.two_pow_pos k
  have hone : 1 < 2 ^ w := by omega
  have hmask : (BitVec.ofNat w (2 ^ k) - 1#w).toNat = 2 ^ k - 1 := by
    have hsize : (BitVec.ofNat w (2 ^ k)).toNat = 2 ^ k := by
      rw [BitVec.toNat_ofNat, Nat.mod_eq_of_lt hlt]
    have hunit : (1#w).toNat = 1 := by rw [BitVec.toNat_ofNat, Nat.mod_eq_of_lt hone]
    rw [BitVec.toNat_sub_of_le, hsize, hunit]
    rw [BitVec.le_def, hsize, hunit]
    exact hpos
  rw [BitVec.toNat_and, hmask, Nat.and_two_pow_sub_one_eq_mod, BitVec.toNat_ofNat]
  exact Nat.mod_mod_of_dvd _ (Nat.pow_dvd_pow 2 hk.le)

/-- The bit of an entry, computed from a machine counter. -/
theorem lap_ofNat (hk : k < w) (n : ℕ) :
    BitVec.ofNat w n &&& BitVec.ofNat w (2 ^ k) = 0#w ↔ lapTag (2 ^ k) n = true := by
  have hlt : 2 ^ k < 2 ^ w := Nat.pow_lt_pow_right (by decide) hk
  rw [← BitVec.toNat_inj, BitVec.toNat_and, BitVec.toNat_ofNat, BitVec.toNat_ofNat,
    Nat.mod_eq_of_lt hlt, Nat.and_two_pow, Nat.testBit_mod_two_pow]
  simp [hk, lapTag, Nat.testBit_eq_decide_div_mod_eq]

/-- The distance of two entries, computed from machine counters. -/
theorem dist_ofNat {i j : ℕ} (hle : i ≤ j) (hlt : j < i + 2 ^ w) :
    (BitVec.ofNat w j - BitVec.ofNat w i).toNat = j - i := by
  have hj : BitVec.ofNat w j = BitVec.ofNat w (j - i) + BitVec.ofNat w i := by
    rw [← BitVec.ofNat_add, Nat.sub_add_cancel hle]
  rw [hj, BitVec.add_sub_cancel, BitVec.toNat_ofNat, Nat.mod_eq_of_lt (by omega)]

end

end Ring
