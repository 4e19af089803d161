import Mathlib.Data.Multiset.Range
import Mathlib.Logic.Equiv.Basic
import Mathlib.Order.Defs.LinearOrder

/-!
# Heaps in an array

The first `n` slots of an array are the nodes of a tree in which slot `i` has the children
`d * i + 1` to `d * i + d`.  The tree is a heap when no child comes before its parent.

A sift exchanges one slot with its parent or with its first child until the order is restored.
In between all pairs are in order but those of one slot, and what keeps the sift going is that
the neighbours of that slot are in order with each other.

* `Heap.HeapFrom` — the order, for the parents from a slot on.
* `Heap.UpHeap`, `Heap.DownHeap` — the order while a slot is sifted up, or down.
* `Heap.exchange` — one turn; `UpHeap.exchange`, `DownHeap.exchange` say where it leads.
* `Heap.contents` — what the heap holds, as a multiset.
-/

namespace Heap

variable {α κ : Type*}

/-- The parent of a slot. -/
def parent (d i : ℕ) : ℕ := (i - 1) / d

theorem parent_lt {d i : ℕ} (hi : 0 < i) : parent d i < i := by
  have h := Nat.div_le_self (i - 1) d
  simp only [parent]
  omega

/-- The children of a slot stand next to each other. -/
theorem parent_eq_iff {d i j : ℕ} (hj : 0 < j) (hd : 0 < d) :
    parent d j = i ↔ ∃ c, c < d ∧ j = i * d + 1 + c := by
  constructor
  · intro h
    refine ⟨(j - 1) % d, Nat.mod_lt _ hd, ?_⟩
    have hmod := Nat.div_add_mod (j - 1) d
    rw [parent] at h
    rw [h, Nat.mul_comm] at hmod
    omega
  · intro h
    obtain ⟨c, hc, rfl⟩ := h
    have hsub : i * d + 1 + c - 1 = c + d * i := by
      rw [Nat.mul_comm]
      omega
    rw [parent, hsub, Nat.add_mul_div_left _ _ hd, Nat.div_eq_of_lt hc, Nat.zero_add]

/-- Two slots change places. -/
def exchange (t : ℕ → α) (i j : ℕ) : ℕ → α :=
  Function.update (Function.update t i (t j)) j (t i)

@[grind =] theorem exchange_apply (t : ℕ → α) (i j x : ℕ) :
    exchange t i j x = if x = j then t i else if x = i then t j else t x := by
  simp only [exchange, Function.update_apply]

/-! ## The order -/

section

variable [LinearOrder κ]

/-- The parents from `m` on come before their children. -/
def HeapFrom (d : ℕ) (key : α → κ) (t : ℕ → α) (n m : ℕ) : Prop :=
  ∀ j, 0 < j → j < n → m ≤ parent d j → key (t (parent d j)) ≤ key (t j)

/-- Only slot `i` may come before its parent. -/
structure UpHeap (d : ℕ) (key : α → κ) (t : ℕ → α) (n i : ℕ) : Prop where
  off : ∀ j, 0 < j → j < n → j ≠ i → key (t (parent d j)) ≤ key (t j)
  skip : ∀ j, 0 < j → j < n → parent d j = i → 0 < i → key (t (parent d i)) ≤ key (t j)

/-- Only the children of slot `i` may come before their parent. -/
structure DownHeap (d : ℕ) (key : α → κ) (t : ℕ → α) (n m i : ℕ) : Prop where
  off : ∀ j, 0 < j → j < n → m ≤ parent d j → parent d j ≠ i → key (t (parent d j)) ≤ key (t j)
  skip : ∀ j, 0 < j → j < n → parent d j = i → 0 < i → m ≤ parent d i →
    key (t (parent d i)) ≤ key (t j)

variable {d n m i c : ℕ} {key : α → κ} {t : ℕ → α}

theorem UpHeap.exchange (h : UpHeap d key t n i) (hi : 0 < i) (hin : i < n)
    (hlt : key (t i) < key (t (parent d i))) :
    UpHeap d key (exchange t i (parent d i)) n (parent d i) := by
  have hp : parent d i < i := parent_lt hi
  constructor
  · intro j hj hjn hne
    have hpj : parent d j < j := parent_lt hj
    have hoff := h.off j hj hjn
    have hskip := h.skip j hj hjn
    simp only [exchange_apply]
    grind
  · intro j hj hjn hpar hpos
    have hpp : parent d (parent d i) < parent d i := parent_lt hpos
    have htop := h.off (parent d i) hpos (by omega) (by omega)
    have hoff := h.off j hj hjn
    simp only [exchange_apply]
    grind

theorem UpHeap.finish (h : UpHeap d key t n i) (hle : 0 < i → key (t (parent d i)) ≤ key (t i)) :
    HeapFrom d key t n 0 := by
  intro j hj hjn _
  by_cases hji : j = i
  · rw [hji] at hj ⊢
    exact hle hj
  · exact h.off j hj hjn hji

theorem DownHeap.exchange (h : DownHeap d key t n m i) (hc : 0 < c) (hcn : c < n)
    (hpar : parent d c = i) (hlt : key (t c) < key (t i))
    (hmin : ∀ j, 0 < j → j < n → parent d j = i → key (t c) ≤ key (t j)) :
    DownHeap d key (exchange t i c) n m c := by
  have hp : parent d c < c := parent_lt hc
  constructor
  · intro j hj hjn hmj hne
    have hpj : parent d j < j := parent_lt hj
    have hoff := h.off j hj hjn hmj
    have hle := hmin j hj hjn
    have hskip := h.skip c hc hcn hpar
    simp only [exchange_apply]
    grind
  · intro j hj hjn hjc _ hmc
    have hpj : parent d j < j := parent_lt hj
    have hoff := h.off j hj hjn
    simp only [exchange_apply]
    grind

theorem DownHeap.finish (h : DownHeap d key t n m i)
    (hle : ∀ j, 0 < j → j < n → parent d j = i → key (t i) ≤ key (t j)) :
    HeapFrom d key t n m := by
  intro j hj hjn hmj
  by_cases hpar : parent d j = i
  · rw [hpar]
    exact hle j hj hjn hpar
  · exact h.off j hj hjn hmj hpar

/-- A heap is one slot short of a larger heap. -/
theorem HeapFrom.downHeap (h : HeapFrom d key t n (m + 1)) : DownHeap d key t n m m := by
  constructor
  · intro j hj hjn hmj hne
    exact h j hj hjn (by omega)
  · intro j _ _ _ hm hmp
    have hp : parent d m < m := parent_lt hm
    omega

theorem HeapFrom.downHeap_self (h : HeapFrom d key t n 0) (i : ℕ) : DownHeap d key t n 0 i := by
  constructor
  · intro j hj hjn hmj _
    exact h j hj hjn hmj
  · intro j hj hjn hpar hi _
    have hij : i < j := by
      rw [← hpar]
      exact parent_lt hj
    have htop := h i hi (by omega) (Nat.zero_le _)
    have hlow := h j hj hjn (Nat.zero_le _)
    rw [hpar] at hlow
    exact le_trans htop hlow

/-- Slots whose children would stand behind the end have none. -/
theorem HeapFrom.leaves (hd : 0 < d) (hm : n ≤ d * m) : HeapFrom d key t n m := by
  intro j hj hjn hmj
  obtain ⟨c, _, hjc⟩ := (parent_eq_iff (i := parent d j) hj hd).mp rfl
  have hmul : d * m ≤ d * parent d j := Nat.mul_le_mul_left d hmj
  rw [Nat.mul_comm (parent d j)] at hjc
  omega

/-- A new last slot. -/
theorem HeapFrom.push (h : HeapFrom d key t n 0) (a : α) :
    UpHeap d key (Function.update t n a) (n + 1) n := by
  constructor
  · intro j hj hjn hne
    have hp : parent d j < j := parent_lt hj
    rw [Function.update_of_ne hne, Function.update_of_ne (by omega)]
    exact h j hj (by omega) (Nat.zero_le _)
  · intro j hj hjn hpar _
    have hp : parent d j < j := parent_lt hj
    omega

/-- Slot `i` gets a value that comes before its parent. -/
theorem HeapFrom.replace_up (h : HeapFrom d key t n 0) {a : α} (hi : 0 < i) (hin : i < n)
    (hlt : key a < key (t (parent d i))) : UpHeap d key (Function.update t i a) n i := by
  have hp : parent d i < i := parent_lt hi
  have htop := h i hi hin (Nat.zero_le _)
  constructor
  · intro j hj hjn hne
    have hj' := h j hj hjn (Nat.zero_le _)
    simp only [Function.update_apply]
    grind
  · intro j hj hjn hpar _
    have hpj : parent d j < j := parent_lt hj
    have hj' := h j hj hjn (Nat.zero_le _)
    simp only [Function.update_apply]
    grind

/-- Slot `i` gets a value that does not come before its parent. -/
theorem HeapFrom.replace_down (h : HeapFrom d key t n 0) {a : α} (hin : i < n)
    (hle : 0 < i → key (t (parent d i)) ≤ key a) :
    DownHeap d key (Function.update t i a) n 0 i := by
  constructor
  · intro j hj hjn _ hne
    have hj' := h j hj hjn (Nat.zero_le _)
    simp only [Function.update_apply]
    grind
  · intro j hj hjn hpar hi _
    have hp : parent d i < i := parent_lt hi
    have hpj : parent d j < j := parent_lt hj
    have htop := h i hi hin (Nat.zero_le _)
    have hj' := h j hj hjn (Nat.zero_le _)
    simp only [Function.update_apply]
    grind

/-- The root is the least. -/
theorem HeapFrom.root_le (h : HeapFrom d key t n 0) : ∀ i < n, key (t 0) ≤ key (t i) := by
  intro i
  induction i using Nat.strong_induction_on with
  | h i ih =>
      intro hi
      by_cases hzero : i = 0
      · rw [hzero]
      · have hlt : parent d i < i := parent_lt (Nat.pos_of_ne_zero hzero)
        exact (ih _ hlt (hlt.trans hi)).trans (h i (Nat.pos_of_ne_zero hzero) hi (Nat.zero_le _))

theorem HeapFrom.mono (h : HeapFrom d key t n m) {n' m' : ℕ} (hn : n' ≤ n) (hm : m ≤ m') :
    HeapFrom d key t n' m' :=
  fun j hj hjn hmj => h j hj (by omega) (by omega)

end

/-! ## The contents -/

/-- The first `n` slots. -/
def contents (t : ℕ → α) (n : ℕ) : Multiset α := (Multiset.range n).map t

variable {t : ℕ → α} {n i j : ℕ}

@[simp] theorem contents_zero (t : ℕ → α) : contents t 0 = 0 := rfl

theorem contents_succ (t : ℕ → α) (n : ℕ) : contents t (n + 1) = t n ::ₘ contents t n := by
  simp [contents, Multiset.range_succ]

theorem mem_contents {a : α} : a ∈ contents t n ↔ ∃ x, x < n ∧ t x = a := by
  simp [contents]

theorem contents_congr {u : ℕ → α} (h : ∀ x, x < n → t x = u x) : contents t n = contents u n :=
  Multiset.map_congr rfl fun x hx => h x (Multiset.mem_range.mp hx)

theorem contents_exchange (hi : i < n) (hj : j < n) : contents (exchange t i j) n = contents t n := by
  have hcomp : exchange t i j = t ∘ Equiv.swap i j := by
    funext x
    simp only [exchange_apply, Function.comp_apply, Equiv.swap_apply_def]
    grind
  have hperm : (Multiset.range n).map (Equiv.swap i j) = Multiset.range n := by
    apply Multiset.Nodup.ext (Multiset.Nodup.map (Equiv.injective _) (Multiset.nodup_range n))
      (Multiset.nodup_range n) |>.mpr
    intro x
    simp only [Multiset.mem_map, Multiset.mem_range]
    constructor
    · intro h
      obtain ⟨y, hy, rfl⟩ := h
      rw [Equiv.swap_apply_def]
      grind
    · intro h
      refine ⟨Equiv.swap i j x, ?_, Equiv.swap_apply_self i j x⟩
      rw [Equiv.swap_apply_def]
      grind
  rw [contents, hcomp, ← Multiset.map_map, hperm, contents]

/-- A slot is given up to the last one. -/
theorem contents_replace (hi : i ≤ n) :
    t i ::ₘ contents (Function.update t i (t n)) n = contents t (n + 1) := by
  have hlast : exchange t i n n = t i := by simp [exchange]
  have hex : contents (exchange t i n) (n + 1) = contents t (n + 1) :=
    contents_exchange (by omega) (by omega)
  rw [← hex, contents_succ, hlast]
  congr 1
  apply contents_congr
  intro x hx
  simp only [exchange_apply, Function.update_apply]
  grind

end Heap
