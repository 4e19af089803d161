import Mathlib.Data.Multiset.Range
import Skyloft.Errno
import Skyloft.Lib.Ledger
import Skyloft.Lib.Run

/-!
# Memory pools

A pool cuts a region of pages into items of one length, which do not straddle pages.  The addresses
of the items are in an array; those from `allocated` on are the free ones.

`mempool_tcache_alloc` and `mempool_tcache_free` take and return items under a lock.  An allocation
that runs out of items drops the lock before it returns those that it got, as a call of
`mempool_tcache_free` of its own; other CPUs may come in between.

* `mempoolCreate` — the array is filled.
* `PoolSys`, `poolStep` — the calls of the CPUs.
* `MempoolItems` — where the items are to lie.
* `PoolInv` — free items and those that were handed out are all items.
* `mempool_exact` — both for every pool and every run.
-/

namespace Skyloft

open Run Ledger

/-! ## The pool -/

structure Mempool where
  freeItems : ℕ → BitVec 64
  /-- how many entries the array has -/
  slots : ℕ
  allocated : ℕ
  capacity : ℕ
  buf : BitVec 64
  len : BitVec 64
  pgSz : BitVec 64
  itemLen : BitVec 64

inductive MempoolFault
  /-- an access outside the array -/
  | bounds
  /-- the assertion of `mempool_free` -/
  | assertion
  deriving DecidableEq

namespace Mempool

def isPowerOfTwo (x : BitVec 64) : Prop := x ≠ 0 ∧ x &&& (x - 1) = 0

instance (x : BitVec 64) : Decidable (isPowerOfTwo x) := inferInstanceAs (Decidable (_ ∧ _))

/-- A pool that is zero-initialised. -/
def zero : Mempool where
  freeItems _ := 0
  slots := 0
  allocated := 0
  capacity := 0
  buf := 0
  len := 0
  pgSz := 0
  itemLen := 0

/-- `m->free_items[m->capacity++] = x` -/
def storeItem (m : Mempool) (x : BitVec 64) : Except MempoolFault Mempool :=
  if m.slots ≤ m.capacity then .error .bounds
  else
    .ok { m with
      freeItems := Function.update m.freeItems m.capacity x
      capacity := m.capacity + 1 }

/-- The address of an item of a page. -/
def itemAddr (buf pgSz itemLen : BitVec 64) (i j : ℕ) : BitVec 64 :=
  buf + pgSz * BitVec.ofNat 64 i + itemLen * BitVec.ofNat 64 j

/-- `mempool_populate`; `calloc` says whether `calloc` has the memory. -/
def mempoolPopulate (calloc : Bool) (m : Mempool) (buf len pgSz itemLen : BitVec 64) :
    Except MempoolFault (ℤ × Mempool) :=
  let itemsPerPage := pgSz / itemLen
  let nrPages := len / pgSz
  if calloc = false then .ok (-eNomem, m)
  else
    let m := { m with slots := (nrPages * itemsPerPage).toNat }
    let filled := (List.range nrPages.toNat).foldlM (fun m i =>
      (List.range itemsPerPage.toNat).foldlM (fun m j =>
        m.storeItem (itemAddr buf pgSz itemLen i j)) m) m
    filled.map fun m => (0, m)

def mempoolCreate (calloc : Bool) (m : Mempool) (buf len pgSz itemLen : BitVec 64) :
    Except MempoolFault (ℤ × Mempool) :=
  if itemLen = 0 ∨ ¬ isPowerOfTwo pgSz ∨ len % pgSz ≠ 0 then .ok (-eInval, m)
  else mempoolPopulate calloc { m with allocated := 0, buf, len, pgSz, itemLen } buf len pgSz itemLen

def mempoolAlloc (m : Mempool) : Except MempoolFault (Option (BitVec 64) × Mempool) :=
  if m.capacity ≤ m.allocated then .ok (none, m)
  else if m.slots ≤ m.allocated then .error .bounds
  else .ok (some (m.freeItems m.allocated), { m with allocated := m.allocated + 1 })

def mempoolFree (m : Mempool) (item : BitVec 64) : Except MempoolFault Mempool :=
  if m.allocated = 0 ∨ m.slots < m.allocated then .error .bounds
  else
    let m := { m with
      freeItems := Function.update m.freeItems (m.allocated - 1) item
      allocated := m.allocated - 1 }
    if m.capacity < m.allocated then .error .assertion else .ok m

/-- `mempool_tcache_free`, under its lock. -/
def mempoolTcacheFree (m : Mempool) (items : List (BitVec 64)) : Except MempoolFault Mempool :=
  items.foldlM mempoolFree m

/-- `mempool_tcache_alloc` while it has the lock: the items it gets, and whether these are all. -/
def mempoolTcacheAlloc : ℕ → Mempool → Except MempoolFault (List (BitVec 64) × Bool × Mempool)
  | 0, m => .ok ([], true, m)
  | nr + 1, m =>
      match m.mempoolAlloc with
      | .error f => .error f
      | .ok (none, m) => .ok ([], false, m)
      | .ok (some item, m) =>
          match mempoolTcacheAlloc nr m with
          | .error f => .error f
          | .ok (items, done, m) => .ok (item :: items, done, m)

end Mempool

/-! ## The calls -/

/-- A pool and its CPUs. -/
structure PoolSys (C : Type) where
  pool : Mempool
  /-- the items that were handed out -/
  held : Multiset (BitVec 64)
  /-- the items that a failed allocation is about to return -/
  unwinding : C → List (BitVec 64)

inductive PoolEvent (C : Type)
  /-- `mempool_tcache_alloc` up to where it drops the lock -/
  | alloc (c : C) (nr : ℕ)
  /-- `mempool_tcache_free` in an allocation that failed -/
  | unwind (c : C)
  /-- `mempool_tcache_free` -/
  | free (items : List (BitVec 64))

namespace PoolSys

/-- Nothing is handed out. -/
def start (C : Type) (m : Mempool) : PoolSys C where
  pool := m
  held := 0
  unwinding _ := []

end PoolSys

def poolStep {C : Type} [DecidableEq C] (s : PoolSys C) :
    PoolEvent C → Except MempoolFault (PoolSys C)
  | .alloc c nr =>
      match s.pool.mempoolTcacheAlloc nr with
      | .error f => .error f
      | .ok (items, true, m) => .ok { s with pool := m, held := items + s.held }
      | .ok (items, false, m) =>
          .ok { s with pool := m, unwinding := Function.update s.unwinding c items }
  | .unwind c =>
      (s.pool.mempoolTcacheFree (s.unwinding c)).map fun m =>
        { s with pool := m, unwinding := Function.update s.unwinding c [] }
  | .free items =>
      (s.pool.mempoolTcacheFree items).map fun m => { s with pool := m, held := s.held - items }

/-! ## What is to hold -/

namespace Mempool

/-- The items that the array was filled with. -/
def stored (m : Mempool) : List (BitVec 64) := (List.range m.capacity).map m.freeItems

/-- What is in `free_items[allocated..capacity)`. -/
def free (m : Mempool) : Multiset (BitVec 64) :=
  ↑((List.range' m.allocated (m.capacity - m.allocated)).map m.freeItems)

end Mempool

/-- The items are pairwise disjoint, inside the region, and none crosses the boundary of a page of
the region; when the region is aligned, these are the boundaries of pages in memory. -/
structure MempoolItems (buf len pgSz itemLen : BitVec 64) (items : List (BitVec 64)) : Prop where
  disjoint : items.Pairwise fun x y =>
    x.toNat + itemLen.toNat ≤ y.toNat ∨ y.toNat + itemLen.toNat ≤ x.toNat
  inside : ∀ x ∈ items, buf.toNat ≤ x.toNat ∧
    x.toNat + itemLen.toNat ≤ buf.toNat + len.toNat
  page : ∀ x ∈ items, ∃ i, buf.toNat + pgSz.toNat * i ≤ x.toNat ∧
    x.toNat + itemLen.toNat ≤ buf.toNat + pgSz.toNat * (i + 1)
  aligned : pgSz.toNat ∣ buf.toNat → ∀ x ∈ items, ∃ k, pgSz.toNat * k ≤ x.toNat ∧
    x.toNat + itemLen.toNat ≤ pgSz.toNat * (k + 1)

namespace PoolSys

variable {C : Type} [Fintype C]

/-- What callers have, and calls that are about to return it. -/
def handed (s : PoolSys C) : Multiset (BitVec 64) :=
  s.held + ∑ c, (s.unwinding c : Multiset (BitVec 64))

/-- A call that failed comes to its end before the CPU makes another one, and what is freed was
handed out. -/
def Allowed (s : PoolSys C) : PoolEvent C → Prop
  | .alloc c _ => s.unwinding c = []
  | .unwind _ => True
  | .free items => (items : Multiset (BitVec 64)) ≤ s.held

/-- Free items and those that were handed out are all items. -/
structure PoolInv (m : Mempool) (s : PoolSys C) : Prop where
  slots : s.pool.capacity ≤ s.pool.slots
  capacity : s.pool.capacity = m.capacity
  allocated : s.pool.allocated ≤ s.pool.capacity
  ledger : s.pool.free + s.handed = m.stored

end PoolSys

namespace Mempool

variable {m m' m'' : Mempool} {items items' : List (BitVec 64)} {x : BitVec 64}
  {buf len pgSz itemLen : BitVec 64}

/-! ## The array is filled -/

/-- Items were stored behind those that the array had. -/
structure Filled (m : Mempool) (items : List (BitVec 64)) (m' : Mempool) : Prop where
  stored : m'.stored = m.stored ++ items
  slots : m'.slots = m.slots
  capacity : m'.capacity = m.capacity + items.length
  allocated : m'.allocated = m.allocated

theorem Filled.refl (m : Mempool) : Filled m [] m :=
  ⟨(List.append_nil _).symm, rfl, rfl, rfl⟩

theorem Filled.trans (h : Filled m items m') (h' : Filled m' items' m'') :
    Filled m (items ++ items') m'' where
  stored := by rw [h'.stored, h.stored, List.append_assoc]
  slots := h'.slots.trans h.slots
  capacity := by rw [h'.capacity, h.capacity, List.length_append, Nat.add_assoc]
  allocated := h'.allocated.trans h.allocated

theorem storeItem_filled (h : m.capacity < m.slots) (x : BitVec 64) :
    ∃ m', m.storeItem x = .ok m' ∧ Filled m [x] m' := by
  refine ⟨_, if_neg (not_le.mpr h), ?_, rfl, rfl, rfl⟩
  have hbelow : ∀ i ∈ List.range m.capacity,
      Function.update m.freeItems m.capacity x i = m.freeItems i :=
    fun i hi => Function.update_of_ne (Nat.ne_of_lt (List.mem_range.mp hi)) ..
  have hlast : Function.update m.freeItems m.capacity x m.capacity = x := Function.update_self ..
  rw [stored, stored, List.range_succ, List.map_append, List.map_congr_left hbelow, List.map_singleton]
  exact congrArg (fun y => _ ++ [y]) hlast

/-- The inner loop fills in a page. -/
theorem fillPage (f : ℕ → BitVec 64) : ∀ (js : List ℕ) {m : Mempool},
    m.capacity + js.length ≤ m.slots →
    ∃ m', js.foldlM (fun m j => m.storeItem (f j)) m = .ok m' ∧ Filled m (js.map f) m' := by
  intro js
  induction js with
  | nil => exact fun _ => ⟨_, rfl, Filled.refl _⟩
  | cons j js ih =>
      intro m h
      rw [List.length_cons] at h
      obtain ⟨m₁, h₁, hf₁⟩ := storeItem_filled (m := m) (by omega) (f j)
      obtain ⟨m₂, h₂, hf₂⟩ := ih (m := m₁) (by
        rw [hf₁.capacity, hf₁.slots, List.length_singleton]
        omega)
      refine ⟨m₂, ?_, hf₁.trans hf₂⟩
      rw [List.foldlM_cons]
      exact bind_eq_ok.mpr ⟨m₁, h₁, h₂⟩

/-- The outer loop fills in the pages. -/
theorem fillPages (f : ℕ → ℕ → BitVec 64) (js : List ℕ) : ∀ (is : List ℕ) {m : Mempool},
    m.capacity + is.length * js.length ≤ m.slots →
    ∃ m', is.foldlM (fun m i => js.foldlM (fun m j => m.storeItem (f i j)) m) m = .ok m' ∧
      Filled m (is.flatMap fun i => js.map (f i)) m' := by
  intro is
  induction is with
  | nil => exact fun _ => ⟨_, rfl, Filled.refl _⟩
  | cons i is ih =>
      intro m h
      rw [List.length_cons, Nat.add_mul, Nat.one_mul] at h
      obtain ⟨m₁, h₁, hf₁⟩ := fillPage (f i) js (m := m) (by omega)
      obtain ⟨m₂, h₂, hf₂⟩ := ih (m := m₁) (by
        rw [hf₁.capacity, hf₁.slots, List.length_map]
        omega)
      refine ⟨m₂, ?_, hf₁.trans hf₂⟩
      rw [List.foldlM_cons]
      exact bind_eq_ok.mpr ⟨m₁, h₁, h₂⟩

/-! ## Where the items are -/

/-- The addresses in the order in which they are stored. -/
def itemAddrs (buf len pgSz itemLen : BitVec 64) : List (BitVec 64) :=
  (List.range (len / pgSz).toNat).flatMap fun i =>
    (List.range (pgSz / itemLen).toNat).map (itemAddr buf pgSz itemLen i)

/-- The array is as large as it has to be: the product does not overflow. -/
theorem slots_eq (len pgSz itemLen : BitVec 64) :
    (len / pgSz * (pgSz / itemLen)).toNat = (len / pgSz).toNat * (pgSz / itemLen).toNat := by
  rw [BitVec.toNat_mul]
  apply Nat.mod_eq_of_lt
  rw [BitVec.toNat_udiv, BitVec.toNat_udiv]
  calc len.toNat / pgSz.toNat * (pgSz.toNat / itemLen.toNat)
      ≤ len.toNat / pgSz.toNat * pgSz.toNat := Nat.mul_le_mul_left _ (Nat.div_le_self _ _)
    _ ≤ len.toNat := Nat.div_mul_le_self _ _
    _ < 2 ^ 64 := len.isLt

theorem length_itemAddrs (buf len pgSz itemLen : BitVec 64) :
    (itemAddrs buf len pgSz itemLen).length = (len / pgSz).toNat * (pgSz / itemLen).toNat := by
  simp [itemAddrs]

/-- With the memory for it, the array is filled and full. -/
theorem mempoolPopulate_filled (hcapacity : m.capacity = 0) (buf len pgSz itemLen : BitVec 64) :
    ∃ m', mempoolPopulate true m buf len pgSz itemLen = .ok (0, m') ∧
      m'.stored = itemAddrs buf len pgSz itemLen ∧ m'.allocated = m.allocated ∧
      m'.capacity = m'.slots := by
  have hroom : ({ m with slots := (len / pgSz * (pgSz / itemLen)).toNat } : Mempool).capacity +
      (List.range (len / pgSz).toNat).length * (List.range (pgSz / itemLen).toNat).length ≤
      (len / pgSz * (pgSz / itemLen)).toNat := by
    rw [slots_eq, List.length_range, List.length_range]
    exact (congrArg (· + _) hcapacity).le.trans (Nat.zero_add _).le
  obtain ⟨m', hm', hfilled⟩ := fillPages (itemAddr buf pgSz itemLen) _ _ hroom
  have hstored : m.stored = [] := by rw [stored, hcapacity, List.range_zero, List.map_nil]
  refine ⟨m', congrArg (Except.map fun m => ((0 : ℤ), m)) hm', ?_, hfilled.allocated, ?_⟩
  · exact hfilled.stored.trans (congrArg (· ++ _) hstored)
  · calc m'.capacity
        = m.capacity + (itemAddrs buf len pgSz itemLen).length := hfilled.capacity
      _ = (len / pgSz).toNat * (pgSz / itemLen).toNat := by
          rw [hcapacity, Nat.zero_add, length_itemAddrs]
      _ = (len / pgSz * (pgSz / itemLen)).toNat := (slots_eq len pgSz itemLen).symm
      _ = m'.slots := hfilled.slots.symm

/-- What `mempool_create` accepts, and the array that it fills. -/
theorem mempoolCreate_spec {calloc : Bool}
    (h : mempoolCreate calloc zero buf len pgSz itemLen = .ok (0, m)) :
    (itemLen ≠ 0 ∧ isPowerOfTwo pgSz ∧ len % pgSz = 0) ∧
      m.stored = itemAddrs buf len pgSz itemLen ∧ m.allocated = 0 ∧ m.capacity = m.slots := by
  rw [mempoolCreate] at h
  split at h
  · cases h
  · rename_i hargs
    cases calloc with
    | false => cases h
    | true =>
        obtain ⟨m', hm', hfilled⟩ := mempoolPopulate_filled
          (m := { zero with allocated := 0, buf, len, pgSz, itemLen }) rfl buf len pgSz itemLen
        rw [hm'] at h
        cases h
        refine ⟨⟨fun hz => hargs (.inl hz), ?_, ?_⟩, hfilled⟩
        · exact by_contra fun hnot => hargs (.inr (.inl hnot))
        · exact by_contra fun hnot => hargs (.inr (.inr hnot))

/-- `mempool_create` stays inside the array. -/
theorem mempoolCreate_ok (calloc : Bool) (buf len pgSz itemLen : BitVec 64) :
    ∃ r, mempoolCreate calloc zero buf len pgSz itemLen = .ok r := by
  rw [mempoolCreate]
  split
  · exact ⟨_, rfl⟩
  · cases calloc with
    | false => exact ⟨_, rfl⟩
    | true =>
        obtain ⟨m', hm', -⟩ := mempoolPopulate_filled
          (m := { zero with allocated := 0, buf, len, pgSz, itemLen }) rfl buf len pgSz itemLen
        exact ⟨_, hm'⟩

/-- An item ends where its page ends, at the latest, and a page where the region does. -/
structure Fits (len pgSz itemLen : BitVec 64) (i j : ℕ) : Prop where
  item : itemLen.toNat * (j + 1) ≤ pgSz.toNat
  page : pgSz.toNat * (i + 1) ≤ len.toNat

theorem fits {i j : ℕ} (hi : i < (len / pgSz).toNat) (hj : j < (pgSz / itemLen).toNat) :
    Fits len pgSz itemLen i j := by
  rw [BitVec.toNat_udiv] at hi hj
  exact ⟨(Nat.mul_le_mul_left _ hj).trans (Nat.mul_div_le _ _),
    (Nat.mul_le_mul_left _ hi).trans (Nat.mul_div_le _ _)⟩

/-- The address of an item does not overflow. -/
theorem toNat_itemAddr {i j : ℕ} (hfits : Fits len pgSz itemLen i j) (hpos : 0 < itemLen.toNat)
    (hregion : buf.toNat + len.toNat ≤ 2 ^ 64) :
    (itemAddr buf pgSz itemLen i j).toNat =
      buf.toNat + pgSz.toNat * i + itemLen.toNat * j := by
  have hitem := hfits.item
  have hpage := hfits.page
  rw [Nat.mul_add, Nat.mul_one] at hitem hpage
  have hlt : buf.toNat + pgSz.toNat * i + itemLen.toNat * j < 2 ^ 64 := by omega
  rw [← Nat.mod_eq_of_lt hlt]
  simp [itemAddr, BitVec.toNat_add, BitVec.toNat_mul, Nat.add_mod, Nat.mul_mod]

theorem mem_itemAddrs (hx : x ∈ itemAddrs buf len pgSz itemLen) :
    ∃ i j, Fits len pgSz itemLen i j ∧ x = itemAddr buf pgSz itemLen i j := by
  obtain ⟨i, hi, hx⟩ := List.mem_flatMap.mp hx
  obtain ⟨j, hj, rfl⟩ := List.mem_map.mp hx
  exact ⟨i, j, fits (List.mem_range.mp hi) (List.mem_range.mp hj), rfl⟩

/-- Items follow one another, within a page and from page to page. -/
theorem itemAddrs_pairwise (hpos : 0 < itemLen.toNat) (hregion : buf.toNat + len.toNat ≤ 2 ^ 64) :
    (itemAddrs buf len pgSz itemLen).Pairwise fun x y => x.toNat + itemLen.toNat ≤ y.toNat := by
  have haddr : ∀ {i j}, i ∈ List.range (len / pgSz).toNat → j ∈ List.range (pgSz / itemLen).toNat →
      (itemAddr buf pgSz itemLen i j).toNat = buf.toNat + pgSz.toNat * i + itemLen.toNat * j :=
    fun hi hj => toNat_itemAddr (fits (List.mem_range.mp hi) (List.mem_range.mp hj)) hpos hregion
  refine List.pairwise_flatMap.mpr ⟨?_, ?_⟩
  · intro i hi
    rw [List.pairwise_map]
    apply List.pairwise_lt_range.imp_of_mem
    intro j j' hj hj' hlt
    have hmul := Nat.mul_le_mul_left itemLen.toNat (Nat.succ_le_of_lt hlt)
    rw [Nat.mul_succ] at hmul
    rw [haddr hi hj, haddr hi hj']
    omega
  · apply List.pairwise_lt_range.imp_of_mem
    intro i i' hi hi' hlt x hx y hy
    obtain ⟨j, hj, rfl⟩ := List.mem_map.mp hx
    obtain ⟨j', hj', rfl⟩ := List.mem_map.mp hy
    have hitem := (fits (List.mem_range.mp hi) (List.mem_range.mp hj)).item
    have hmul := Nat.mul_le_mul_left pgSz.toNat (Nat.succ_le_of_lt hlt)
    rw [Nat.mul_succ] at hitem hmul
    rw [haddr hi hj, haddr hi' hj']
    omega

/-- The items of a pool are where they are to be. -/
theorem mempoolItems_itemAddrs (hpos : 0 < itemLen.toNat)
    (hregion : buf.toNat + len.toNat ≤ 2 ^ 64) :
    MempoolItems buf len pgSz itemLen (itemAddrs buf len pgSz itemLen) := by
  have hpage : ∀ x ∈ itemAddrs buf len pgSz itemLen, ∃ i,
      buf.toNat + pgSz.toNat * i ≤ x.toNat ∧
      x.toNat + itemLen.toNat ≤ buf.toNat + pgSz.toNat * (i + 1) ∧
      pgSz.toNat * (i + 1) ≤ len.toNat := by
    intro x hx
    obtain ⟨i, j, hfits, rfl⟩ := mem_itemAddrs hx
    have hitem := hfits.item
    rw [toNat_itemAddr hfits hpos hregion]
    rw [Nat.mul_succ] at hitem
    refine ⟨i, Nat.le_add_right _ _, ?_, hfits.page⟩
    rw [Nat.mul_succ]
    omega
  refine ⟨(itemAddrs_pairwise hpos hregion).imp .inl, ?_, ?_, ?_⟩
  · intro x hx
    obtain ⟨i, hlo, hhi, hlen⟩ := hpage x hx
    exact ⟨(Nat.le_add_right _ _).trans hlo, hhi.trans (Nat.add_le_add_left hlen _)⟩
  · intro x hx
    obtain ⟨i, hlo, hhi, -⟩ := hpage x hx
    exact ⟨i, hlo, hhi⟩
  · rintro ⟨b, hb⟩ x hx
    obtain ⟨i, hlo, hhi, -⟩ := hpage x hx
    rw [hb, ← Nat.mul_add] at hlo hhi
    exact ⟨b + i, hlo, hhi⟩

theorem itemAddrs_nodup (hpos : 0 < itemLen.toNat) (hregion : buf.toNat + len.toNat ≤ 2 ^ 64) :
    (itemAddrs buf len pgSz itemLen).Nodup := by
  apply (itemAddrs_pairwise hpos hregion).imp
  intro x y hxy heq
  rw [heq] at hxy
  omega

/-! ## Items are taken and returned -/

/-- The next free item is taken. -/
theorem mempoolAlloc_free (hslots : m.capacity ≤ m.slots) (hlt : m.allocated < m.capacity) :
    ∃ x m', m.mempoolAlloc = .ok (some x, m') ∧ m.free = x ::ₘ m'.free ∧
      m'.capacity = m.capacity ∧ m'.slots = m.slots ∧ m'.allocated = m.allocated + 1 := by
  refine ⟨m.freeItems m.allocated, { m with allocated := m.allocated + 1 }, ?_, ?_, rfl, rfl, rfl⟩
  · rw [mempoolAlloc, if_neg (not_le.mpr hlt), if_neg (not_le.mpr (hlt.trans_le hslots))]
  · have hcount : m.capacity - m.allocated = (m.capacity - (m.allocated + 1)) + 1 := by omega
    rw [free, free, hcount, List.range'_succ, List.map_cons, ← Multiset.cons_coe]

/-- An item is put before the free ones. -/
theorem mempoolFree_free (hslots : m.capacity ≤ m.slots) (hle : m.allocated ≤ m.capacity)
    (hpos : 0 < m.allocated) (x : BitVec 64) :
    ∃ m', m.mempoolFree x = .ok m' ∧ m'.free = x ::ₘ m.free ∧
      m'.capacity = m.capacity ∧ m'.slots = m.slots ∧ m'.allocated + 1 = m.allocated := by
  obtain ⟨a, ha⟩ : ∃ a, m.allocated = a + 1 := ⟨m.allocated - 1, by omega⟩
  have hbounds : ¬ (m.allocated = 0 ∨ m.slots < m.allocated) := by omega
  refine ⟨{ m with freeItems := Function.update m.freeItems a x, allocated := a }, ?_, ?_, rfl, rfl,
    ha.symm⟩
  · have hassert : ¬ m.capacity < a := by omega
    rw [mempoolFree, if_neg hbounds, ha, Nat.add_sub_cancel]
    exact if_neg hassert
  · have hcount : m.capacity - a = (m.capacity - m.allocated) + 1 := by omega
    have habove : ∀ i ∈ List.range' m.allocated (m.capacity - m.allocated),
        Function.update m.freeItems a x i = m.freeItems i := by
      intro i hi
      have hge := (List.mem_range'_1.mp hi).1
      exact Function.update_of_ne (by omega) ..
    rw [free, free]
    dsimp only
    rw [hcount, List.range'_succ, List.map_cons, Function.update_self, ← ha,
      List.map_congr_left habove, ← Multiset.cons_coe]

/-- The pool after items moved between the free ones and the callers. -/
structure Moved (m m' : Mempool) : Prop where
  capacity : m'.capacity = m.capacity
  slots : m'.slots = m.slots
  allocated : m'.allocated ≤ m'.capacity

/-- `mempool_tcache_free` adds the items to the free ones. -/
theorem mempoolTcacheFree_free : ∀ {items : List (BitVec 64)} {m : Mempool},
    m.capacity ≤ m.slots → m.allocated ≤ m.capacity → items.length ≤ m.allocated →
    ∃ m', m.mempoolTcacheFree items = .ok m' ∧ m'.free = ↑items + m.free ∧ Moved m m' := by
  intro items
  induction items with
  | nil => exact fun _ hle _ => ⟨_, rfl, (zero_add _).symm, rfl, rfl, hle⟩
  | cons x items ih =>
      intro m hslots hle hlen
      rw [List.length_cons] at hlen
      obtain ⟨m₁, h₁, hfree₁, hcap₁, hslots₁, ha₁⟩ := mempoolFree_free hslots hle (by omega) x
      obtain ⟨m₂, h₂, hfree₂, hmoved⟩ := ih (m := m₁) (by omega) (by omega) (by omega)
      refine ⟨m₂, ?_, ?_, hmoved.capacity.trans hcap₁, hmoved.slots.trans hslots₁, hmoved.allocated⟩
      · rw [mempoolTcacheFree, List.foldlM_cons]
        exact bind_eq_ok.mpr ⟨m₁, h₁, h₂⟩
      · rw [hfree₂, hfree₁, ← Multiset.cons_coe, Multiset.cons_add, Multiset.add_cons]

/-- `mempool_tcache_alloc` takes the items from the free ones, and all that it is asked for unless
there are too few. -/
theorem mempoolTcacheAlloc_free : ∀ (nr : ℕ) {m : Mempool},
    m.capacity ≤ m.slots → m.allocated ≤ m.capacity →
    ∃ items done m', mempoolTcacheAlloc nr m = .ok (items, done, m') ∧ m.free = ↑items + m'.free ∧
      Moved m m' ∧ m'.allocated = m.allocated + items.length ∧
      (done = true ↔ nr ≤ m.capacity - m.allocated) ∧ (done = true → items.length = nr) := by
  intro nr
  induction nr with
  | zero =>
      intro m _ hle
      exact ⟨[], true, m, rfl, (zero_add _).symm, ⟨rfl, rfl, hle⟩, rfl, by simp, fun _ => rfl⟩
  | succ nr ih =>
      intro m hslots hle
      by_cases hlt : m.allocated < m.capacity
      · obtain ⟨x, m₁, h₁, hfree₁, hcap₁, hslots₁, ha₁⟩ := mempoolAlloc_free hslots hlt
        obtain ⟨items, done, m₂, h₂, hfree₂, hmoved, ha₂, hdone, hlen⟩ :=
          ih (m := m₁) (by omega) (by omega)
        refine ⟨x :: items, done, m₂, ?_, ?_,
          ⟨hmoved.capacity.trans hcap₁, hmoved.slots.trans hslots₁, hmoved.allocated⟩, ?_, ?_, ?_⟩
        · simp only [mempoolTcacheAlloc, h₁, h₂]
        · rw [hfree₁, hfree₂, ← Multiset.cons_coe, Multiset.cons_add]
        · rw [ha₂, ha₁, List.length_cons]
          omega
        · rw [hdone, hcap₁, ha₁]
          omega
        · intro hd
          rw [List.length_cons, hlen hd]
      · have hnone : m.mempoolAlloc = .ok (none, m) := if_pos (not_lt.mp hlt)
        refine ⟨[], false, m, ?_, (zero_add _).symm, ⟨rfl, rfl, hle⟩, rfl, ?_, ?_⟩
        · simp only [mempoolTcacheAlloc, hnone]
        · exact iff_of_false Bool.false_ne_true (by omega)
        · exact fun hd => absurd hd Bool.false_ne_true

end Mempool

namespace PoolSys

open Mempool

variable {C : Type} [DecidableEq C] [Fintype C] {s s' : PoolSys C} {m : Mempool} {c : C}
  {e : PoolEvent C}

/-! ## Runs -/

omit [DecidableEq C] in
/-- As many items are handed out as the counter says. -/
theorem PoolInv.card (h : PoolInv m s) : s.handed.card = s.pool.allocated := by
  have hcard := congrArg Multiset.card h.ledger
  have hle := h.allocated
  rw [Multiset.card_add, free, stored, Multiset.coe_card, Multiset.coe_card, List.length_map,
    List.length_map, List.length_range, List.length_range', ← h.capacity] at hcard
  omega

/-- A CPU has other items to return. -/
theorem handed_update (s : PoolSys C) (c : C) (items : List (BitVec 64)) :
    ({ s with unwinding := Function.update s.unwinding c items } : PoolSys C).handed +
      ↑(s.unwinding c) = s.handed + ↑items := by
  have hsum := sum_add_comm_of_eq_off (f := fun c => (s.unwinding c : Multiset (BitVec 64)))
    (g := fun c' => (Function.update s.unwinding c items c' : Multiset (BitVec 64))) c
    (fun c' hc' => congrArg _ (Function.update_of_ne hc' ..))
  rw [Function.update_self] at hsum
  simp only [handed]
  rw [add_assoc, hsum, add_assoc]

omit [DecidableEq C] in
/-- Items that were handed out are returned to the pool. -/
theorem PoolInv.returned (h : PoolInv m s) {items : List (BitVec 64)}
    (hle : (items : Multiset (BitVec 64)) ≤ s.handed) :
    ∃ p, s.pool.mempoolTcacheFree items = .ok p ∧ p.free = ↑items + s.pool.free ∧
      ∀ u : PoolSys C, u.pool = p → u.handed + ↑items = s.handed → PoolInv m u := by
  have hlen : items.length ≤ s.pool.allocated := by
    rw [← h.card, ← Multiset.coe_card]
    exact Multiset.card_le_card hle
  obtain ⟨p, hp, hfree, hmoved⟩ := mempoolTcacheFree_free h.slots h.allocated hlen
  refine ⟨p, hp, hfree, ?_⟩
  rintro u rfl hu
  refine ⟨?_, hmoved.capacity.trans h.capacity, hmoved.allocated, ?_⟩
  · rw [hmoved.capacity, hmoved.slots]
    exact h.slots
  · rw [hfree, ← h.ledger, ← hu]
    ac_rfl

omit [DecidableEq C] in
/-- Items are taken from the pool. -/
theorem PoolInv.taken (h : PoolInv m s) (nr : ℕ) :
    ∃ items done p, mempoolTcacheAlloc nr s.pool = .ok (items, done, p) ∧
      s.pool.free = ↑items + p.free ∧
      ∀ u : PoolSys C, u.pool = p → u.handed = ↑items + s.handed → PoolInv m u := by
  obtain ⟨items, done, p, hp, hfree, hmoved, -⟩ := mempoolTcacheAlloc_free nr h.slots h.allocated
  refine ⟨items, done, p, hp, hfree, ?_⟩
  rintro u rfl hu
  refine ⟨?_, hmoved.capacity.trans h.capacity, hmoved.allocated, ?_⟩
  · rw [hmoved.capacity, hmoved.slots]
    exact h.slots
  · rw [hu, ← h.ledger, hfree]
    ac_rfl

/-- What a CPU is about to return was handed out. -/
theorem unwinding_le (s : PoolSys C) (c : C) :
    (s.unwinding c : Multiset (BitVec 64)) ≤ s.handed := by
  have hupd := handed_update s c []
  rw [Multiset.coe_nil, add_zero] at hupd
  exact (Multiset.le_add_left _ _).trans hupd.le

/-- **One call.**  It does not fault, and free and handed-out items are still all items. -/
theorem poolStep_inv (h : PoolInv m s) (he : s.Allowed e) :
    ∃ s', poolStep s e = .ok s' ∧ PoolInv m s' := by
  cases e with
  | alloc c nr =>
      obtain ⟨items, done, p, hp, -, hinv⟩ := h.taken nr
      cases done with
      | true =>
          refine ⟨{ s with pool := p, held := items + s.held }, by simp only [poolStep, hp], ?_⟩
          exact hinv _ rfl (add_assoc _ _ _)
      | false =>
          refine ⟨{ s with pool := p, unwinding := Function.update s.unwinding c items },
            by simp only [poolStep, hp], hinv _ rfl ?_⟩
          have hupd := handed_update s c items
          rw [show s.unwinding c = [] from he, Multiset.coe_nil, add_zero, add_comm] at hupd
          exact hupd
  | unwind c =>
      obtain ⟨p, hp, -, hinv⟩ := h.returned (unwinding_le s c)
      refine ⟨{ s with pool := p, unwinding := Function.update s.unwinding c [] },
        by rw [poolStep, hp]; rfl, hinv _ rfl ?_⟩
      have hupd := handed_update s c []
      rw [Multiset.coe_nil, add_zero] at hupd
      exact hupd
  | free items =>
      have hle : (items : Multiset (BitVec 64)) ≤ s.held := he
      obtain ⟨p, hp, -, hinv⟩ := h.returned (hle.trans (Multiset.le_add_right _ _))
      refine ⟨{ s with pool := p, held := s.held - items }, by rw [poolStep, hp]; rfl, hinv _ rfl ?_⟩
      rw [handed, handed, add_right_comm, tsub_add_cancel_of_le hle]

omit [DecidableEq C] in
theorem start_inv (ha : m.allocated = 0) (hslots : m.capacity = m.slots) :
    PoolInv m (start C m) := by
  refine ⟨hslots.le, rfl, ?_, ?_⟩
  · exact ha.le.trans (Nat.zero_le _)
  · have hhanded : (start C m).handed = 0 := by simp [handed, start]
    rw [hhanded, add_zero]
    show m.free = _
    rw [free, stored, ha, Nat.sub_zero, List.range_eq_range']

/-- An allocation that ran out of items leaves the free ones as they were once it is undone. -/
theorem failed_alloc_undone (h : PoolInv m s) (hc : s.unwinding c = []) {nr : ℕ}
    {items : List (BitVec 64)} {p : Mempool}
    (hp : mempoolTcacheAlloc nr s.pool = .ok (items, false, p)) :
    ∃ s', exec poolStep s [.alloc c nr, .unwind c] = .ok s' ∧ s'.pool.free = s.pool.free ∧
      s'.held = s.held ∧ s'.unwinding = s.unwinding := by
  obtain ⟨items', done, p', hp', hfree, hinv⟩ := h.taken nr
  rw [hp] at hp'
  cases hp'
  let u : PoolSys C := { s with pool := p, unwinding := Function.update s.unwinding c items }
  have hupd := handed_update s c items
  rw [hc, Multiset.coe_nil, add_zero, add_comm] at hupd
  have hu : PoolInv m u := hinv u rfl hupd
  have hitems : u.unwinding c = items := Function.update_self ..
  obtain ⟨q, hq, hfree', -⟩ := hu.returned (unwinding_le u c)
  refine ⟨{ u with pool := q, unwinding := Function.update u.unwinding c [] }, ?_, ?_, rfl, ?_⟩
  · refine exec_cons_ok.mpr ⟨u, by simp only [poolStep, hp, u], exec_cons_ok.mpr ⟨_, ?_, rfl⟩⟩
    rw [poolStep, hq]
    rfl
  · rw [hitems] at hfree'
    exact hfree'.trans hfree.symm
  · show Function.update (Function.update s.unwinding c items) c [] = s.unwinding
    rw [Function.update_idem, ← hc, Function.update_eq_self]

/-- **Memory pools.**  The items of a pool that `mempool_create` has set up are disjoint, inside the
region and within its pages; and after every run of allocations and frees of any CPUs the free ones
are those that are not handed out, each once, and an allocation that fails midway restores them. -/
theorem mempool_exact {calloc : Bool} {buf len pgSz itemLen : BitVec 64}
    (hcreate : mempoolCreate calloc zero buf len pgSz itemLen = .ok (0, m))
    (hregion : buf.toNat + len.toNat ≤ 2 ^ 64) (es : List (PoolEvent C))
    (hes : Along poolStep Allowed (start C m) es) :
    MempoolItems buf len pgSz itemLen m.stored ∧
      ∃ s, exec poolStep (start C m) es = .ok s ∧
        s.pool.free + s.handed = m.stored ∧ (s.pool.free + s.handed).Nodup ∧
        ∀ c nr items p, s.unwinding c = [] → mempoolTcacheAlloc nr s.pool = .ok (items, false, p) →
          ∃ s', exec poolStep s [.alloc c nr, .unwind c] = .ok s' ∧ s'.pool.free = s.pool.free ∧
            s'.held = s.held ∧ s'.unwinding = s.unwinding := by
  obtain ⟨⟨hlen, -, -⟩, hstored, ha, hslots⟩ := mempoolCreate_spec hcreate
  have hpos : 0 < itemLen.toNat := by
    rw [Nat.pos_iff_ne_zero]
    exact fun hz => hlen (BitVec.eq_of_toNat_eq hz)
  obtain ⟨s, hs, hinv⟩ := exec_ok (fun s e h he => poolStep_inv h he) (start_inv ha hslots) hes
  refine ⟨hstored ▸ mempoolItems_itemAddrs hpos hregion, s, hs, hinv.ledger, ?_, ?_⟩
  · rw [hinv.ledger, hstored]
    exact itemAddrs_nodup hpos hregion
  · exact fun c nr items p hc hp => failed_alloc_undone hinv hc hp

instance (s : PoolSys C) : (e : PoolEvent C) → Decidable (s.Allowed e)
  | .alloc c _ => inferInstanceAs (Decidable (s.unwinding c = []))
  | .unwind _ => inferInstanceAs (Decidable True)
  | .free items => inferInstanceAs (Decidable ((items : Multiset (BitVec 64)) ≤ s.held))

/-- Two pages with two items each. -/
def poolOfFour : Mempool :=
  match mempoolCreate true zero 8192 8192 4096 1500 with
  | .ok (_, m) => m
  | .error _ => zero

/-- The second allocation runs out of items; an item is freed, and then there are enough. -/
def poolRun : List (PoolEvent Bool) :=
  [.alloc true 3, .alloc false 2, .unwind false, .free [9692], .alloc false 2]

theorem mempool_exact_poolRun :
    mempoolCreate true zero 8192 8192 4096 1500 = .ok (0, poolOfFour) ∧
    Along poolStep Allowed (start Bool poolOfFour) poolRun ∧
    MempoolItems 8192 8192 4096 1500 poolOfFour.stored ∧
      ∃ s, exec poolStep (start Bool poolOfFour) poolRun = .ok s ∧
        s.pool.free + s.handed = poolOfFour.stored ∧ (s.pool.free + s.handed).Nodup ∧
        ∀ c nr items p, s.unwinding c = [] → mempoolTcacheAlloc nr s.pool = .ok (items, false, p) →
          ∃ s', exec poolStep s [.alloc c nr, .unwind c] = .ok s' ∧ s'.pool.free = s.pool.free ∧
            s'.held = s.held ∧ s'.unwinding = s.unwinding :=
  have hcreate : mempoolCreate true zero 8192 8192 4096 1500 = .ok (0, poolOfFour) := by rfl
  have hes : Along poolStep Allowed (start Bool poolOfFour) poolRun := by decide
  ⟨hcreate, hes, mempool_exact hcreate (by decide) poolRun hes⟩

end PoolSys

end Skyloft
