import Skyloft.Mm.SlabCreate
import Skyloft.Mm.Tcache

/-!
# Size classes

`smalloc` has a slab and a cache in front of it for each power of two from 16 bytes on.  It
finds the cache from the size that is asked for; `sfree` finds it from the size of the slab that
the item's page belongs to, which `slab_create` has rounded up.

* `smallocSizeToIdx`, `nodeSize` — the number of a cache, and the size of its slab's items.
* `Smalloc`, `smTurn` — the caches, and an allocation whose item is freed at once.
* `smallocRight_iff` — the sizes for which both find the same cache.
-/

namespace Skyloft

open Run

/-! ## Indices -/

def smallocMagSize : ℕ := 8

theorem smallocMagSize_pos : 0 < smallocMagSize := Nat.succ_pos 7

def smallocBits : ℕ := 15

/-- `SMALLOC_MIN_SIZE`, which is `SLAB_MIN_SIZE` -/
def smallocMinSize : BitVec 64 := 16

def smallocMaxSize : BitVec 64 := smallocMinSize <<< (smallocBits - 1)

def smallocSizeToIdx (size : BitVec 64) : ℤ :=
  64 - (smallocMinSize.ctz.toNat : ℤ) - (((size - 1) ||| smallocMinSize).clz.toNat : ℤ)

/-- The size of the items that `smalloc_init` creates a slab for. -/
def nodeSize (i : ℕ) : BitVec 64 := slabItemSize (smallocMinSize <<< i) slabFlagFalseOkay

/-- `smalloc_init` gets its slabs, with items of this size. -/
theorem slabCreate_smalloc :
    ∀ i < smallocBits, (slabCreate (smallocMinSize <<< i) slabFlagFalseOkay).map SlabGeom.size =
      .ok (nodeSize i).toNat := by
  decide

/-- The index says how many bits `size - 1` has. -/
theorem smallocSizeToIdx_eq {size : BitVec 64} {k : ℕ}
    (hlo : 2 ^ k ≤ ((size - 1) ||| smallocMinSize).toNat)
    (hhi : ((size - 1) ||| smallocMinSize).toNat < 2 ^ (k + 1)) :
    smallocSizeToIdx size = k - 3 := by
  have hne : (size - 1) ||| smallocMinSize ≠ 0 := by
    intro hzero
    rw [hzero] at hlo
    exact absurd hlo (by simp)
  have hge := BitVec.two_pow_sub_clz_le_toNat_of_ne_zero (by decide : 0 < 64) hne
  have hlt := BitVec.toNat_lt_two_pow_sub_clz (x := (size - 1) ||| smallocMinSize)
  have hclz := BitVec.clz_lt_iff_ne_zero.mpr hne
  have h₁ := (Nat.pow_lt_pow_iff_right Nat.one_lt_two).mp (lt_of_le_of_lt hge hhi)
  have h₂ := (Nat.pow_lt_pow_iff_right Nat.one_lt_two).mp (lt_of_le_of_lt hlo hlt)
  have hctz : smallocMinSize.ctz.toNat = 4 := by decide +kernel
  have hclz' : ((size - 1) ||| smallocMinSize).clz.toNat < 64 := by
    simpa [BitVec.lt_def] using hclz
  rw [smallocSizeToIdx, hctz]
  omega

/-- A size of zero has an index that no cache has. -/
theorem smallocSizeToIdx_zero : smallocSizeToIdx 0 = 60 :=
  smallocSizeToIdx_eq (k := 63) (by decide) (by decide)

theorem toNat_size_sub_one {size : BitVec 64} (hpos : 0 < size.toNat) :
    (size - 1).toNat = size.toNat - 1 :=
  BitVec.toNat_sub_of_le (BitVec.le_def.mpr hpos)

/-- Sizes up to 32 are all put into the second class. -/
theorem smallocSizeToIdx_small {size : BitVec 64} (hpos : 0 < size) (hsmall : size ≤ 32) :
    smallocSizeToIdx size = 1 := by
  have hsub := toNat_size_sub_one hpos
  have hle : size.toNat ≤ 32 := hsmall
  have hpos' : 0 < size.toNat := hpos
  apply smallocSizeToIdx_eq (k := 4)
  · rw [BitVec.toNat_or]
    exact Nat.right_le_or
  · rw [BitVec.toNat_or]
    exact Nat.or_lt_two_pow (by omega) (by decide)

/-- Above 32 the bit that is set at the bottom does not matter. -/
theorem smallocSizeToIdx_large {size : BitVec 64} {k : ℕ} (hk : 4 ≤ k)
    (hlo : 2 ^ k ≤ size.toNat - 1) (hhi : size.toNat - 1 < 2 ^ (k + 1)) :
    smallocSizeToIdx size = k - 3 := by
  have hpos := Nat.two_pow_pos k
  have hsub := toNat_size_sub_one (by omega : 0 < size.toNat)
  have hmin : smallocMinSize.toNat < 2 ^ (k + 1) :=
    lt_of_lt_of_le (by decide : smallocMinSize.toNat < 2 ^ 5)
      (Nat.pow_le_pow_right Nat.two_pos (by omega))
  apply smallocSizeToIdx_eq
  · rw [BitVec.toNat_or, hsub]
    exact hlo.trans Nat.left_le_or
  · rw [BitVec.toNat_or, hsub]
    exact Nat.or_lt_two_pow hhi hmin

theorem nodeSize_eq : ∀ i < smallocBits, 2 ≤ i → (nodeSize i).toNat = 2 ^ (i + 4) := by decide

/-- The class of a size above 32: its items have room, and the size of its items leads to the same
class. -/
theorem exists_class {size : BitVec 64} (hlarge : 32 < size) (hmax : size ≤ smallocMaxSize) :
    ∃ i : ℕ, smallocSizeToIdx size = i ∧ i < smallocBits ∧ size ≤ nodeSize i ∧
      smallocSizeToIdx (nodeSize i) = i := by
  have hlo : 32 < size.toNat := hlarge
  have hhi : size.toNat ≤ 262144 := hmax
  obtain ⟨k, hk⟩ : ∃ k, k = Nat.log2 (size.toNat - 1) := ⟨_, rfl⟩
  have hpow : 2 ^ k ≤ size.toNat - 1 := by
    rw [hk]
    exact Nat.log2_self_le (by omega)
  have hpow' : size.toNat - 1 < 2 ^ (k + 1) := by
    rw [hk]
    exact Nat.lt_log2_self
  have hk₁ : 5 < k + 1 := (Nat.pow_lt_pow_iff_right Nat.one_lt_two).mp
    (by omega : 2 ^ 5 < 2 ^ (k + 1))
  have hk₂ : k < 18 := (Nat.pow_lt_pow_iff_right Nat.one_lt_two).mp (by omega : 2 ^ k < 2 ^ 18)
  obtain ⟨i, rfl⟩ : ∃ i, k = i + 3 := ⟨k - 3, by omega⟩
  have hi : i < smallocBits := by
    show i < 15
    omega
  have hnode := nodeSize_eq i hi (by omega)
  have hhalf : 2 ^ (i + 4) = 2 * 2 ^ (i + 3) := Nat.pow_succ'
  have hpos := Nat.two_pow_pos (i + 3)
  refine ⟨i, ?_, hi, ?_, ?_⟩
  · rw [smallocSizeToIdx_large (by omega) hpow hpow']
    omega
  · rw [BitVec.le_def, hnode]
    omega
  · rw [smallocSizeToIdx_large (k := i + 3) (by omega) (by omega) (by omega)]
    omega

/-- Items of the second class are rounded up to the third. -/
theorem smallocSizeToIdx_nodeSize_one : smallocSizeToIdx (nodeSize 1) = 2 :=
  smallocSizeToIdx_large (k := 5) (by decide) (by decide) (by decide)

/-! ## The caches -/

/-- `smalloc_pts`: the caches, with the handles of the CPUs.  Items are addresses. -/
structure Smalloc (C : Type) where
  cache : ℕ → Tcache ℕ C

inductive SmFault
  /-- an index outside `smalloc_pts` -/
  | outOfRange
  | tcache (f : TcFault)
  deriving DecidableEq

/-- An allocation on one CPU, whose item is freed on another one. -/
structure SmTurn (C : Type) where
  alloc : C
  /-- what the slab answers if it is asked -/
  backend : Option (List ℕ)
  free : C

namespace Smalloc

variable {C : Type} [DecidableEq C]

/-- `smalloc_init` and `smalloc_init_percpu` -/
def create (C : Type) : Smalloc C where
  cache _ := Tcache.create (fun _ => none) fun _ => none

/-- The cache at an index. -/
def pt (idx : ℤ) : Option ℕ := if 0 ≤ idx ∧ idx < smallocBits then some idx.toNat else none

def setCache (s : Smalloc C) (i : ℕ) (t : Tcache ℕ C) : Smalloc C where
  cache := Function.update s.cache i t

def smalloc (s : Smalloc C) (size : BitVec 64) (c : C) (backend : Option (List ℕ)) :
    Except SmFault (Option ℕ × Smalloc C) :=
  if smallocMaxSize < size then .ok (none, s)
  else
    match pt (smallocSizeToIdx size) with
    | none => .error .outOfRange
    | some i =>
        (((s.cache i).callAlloc smallocMagSize c backend).mapError .tcache).map fun r =>
          (r.1, s.setCache i r.2)

/-- `sfree`; `snode` says which slab the page of an item belongs to. -/
def sfree (snode : ℕ → ℕ) (s : Smalloc C) (c : C) (item : ℕ) : Except SmFault (Smalloc C) :=
  match pt (smallocSizeToIdx (nodeSize (snode item))) with
  | none => .error .outOfRange
  | some i =>
      (((s.cache i).callFree smallocMagSize c item).mapError .tcache).map (s.setCache i)

end Smalloc

/-- An item is allocated, and freed if there is one. -/
def smTurn {C : Type} [DecidableEq C] (snode : ℕ → ℕ) (size : BitVec 64) (s : Smalloc C)
    (t : SmTurn C) : Except SmFault (Smalloc C) :=
  match s.smalloc size t.alloc t.backend with
  | .error f => .error f
  | .ok (none, s) => .ok s
  | .ok (some item, s) => s.sfree snode t.free item

namespace Smalloc

variable {C : Type} [DecidableEq C] [Fintype C] {snode : ℕ → ℕ} {s s' : Smalloc C}
  {size : BitVec 64} {i : ℕ}

/-- Each cache has its items in one place, and they come from its slab. -/
def SmInv (snode : ℕ → ℕ) (s : Smalloc C) : Prop :=
  ∀ i < smallocBits, (∃ l, TcInv smallocMagSize (s.cache i) l) ∧
    ∀ x ∈ (s.cache i).out, snode x = i

omit [Fintype C] in
/-- The slab of the class returns items of its own that it has not given out. -/
def Supplied (snode : ℕ → ℕ) (size : BitVec 64) (s : Smalloc C) (backend : Option (List ℕ)) : Prop :=
  ∀ i items, pt (smallocSizeToIdx size) = some i → backend = some items →
    (s.cache i).Fresh smallocMagSize items ∧ ∀ x ∈ items, snode x = i

/-- What `smalloc` and `sfree` are to do with a size. -/
structure SmallocRight (C : Type) [DecidableEq C] [Fintype C] (size : BitVec 64) : Prop where
  /-- the index is one of the caches' -/
  inRange : 0 ≤ smallocSizeToIdx size ∧ smallocSizeToIdx size < smallocBits
  /-- the item has room, and goes back to the cache that it was taken from -/
  item : ∀ (snode : ℕ → ℕ) (s : Smalloc C) (c : C) backend x s', SmInv snode s →
    Supplied snode size s backend → s.smalloc size c backend = .ok (some x, s') →
    size ≤ nodeSize (snode x) ∧ smallocSizeToIdx (nodeSize (snode x)) = smallocSizeToIdx size
  /-- taking turns, the slabs do not give out more and more items -/
  bounded : ∀ (snode : ℕ → ℕ) (s : Smalloc C), SmInv snode s → ∃ bound, ∀ ts : List (SmTurn C),
    Along (smTurn snode size) (fun s t => Supplied snode size s t.backend) s ts →
    ∃ s', exec (smTurn snode size) s ts = .ok s' ∧ ∀ i < smallocBits, (s'.cache i).out.card ≤ bound

/-! ## Sizes that are put back where they came from -/

theorem pt_natCast (h : i < smallocBits) : pt i = some i := by
  rw [pt, if_pos ⟨Int.natCast_nonneg i, Int.ofNat_lt.mpr h⟩, Int.toNat_natCast]

omit [DecidableEq C] [Fintype C] in
theorem setCache_cache (s : Smalloc C) (i j : ℕ) (t : Tcache ℕ C) :
    (s.setCache i t).cache j = if j = i then t else s.cache j :=
  Function.update_apply ..

omit [DecidableEq C] [Fintype C] in
@[simp] theorem setCache_self (s : Smalloc C) (i : ℕ) (t : Tcache ℕ C) :
    (s.setCache i t).cache i = t :=
  Function.update_self ..

omit [DecidableEq C] [Fintype C] in
theorem setCache_cache_self (s : Smalloc C) (i : ℕ) : s.setCache i (s.cache i) = s := by
  rw [setCache, Function.update_eq_self]

omit [DecidableEq C] in
theorem SmInv.setCache (h : SmInv snode s) {t : Tcache ℕ C}
    (ht : ∃ l, TcInv smallocMagSize t l) (hown : ∀ x ∈ t.out, snode x = i) :
    SmInv snode (s.setCache i t) := by
  intro j hj
  rw [setCache_cache]
  split
  · rename_i hji
    rw [hji]
    exact ⟨ht, hown⟩
  · exact h j hj

/-- What `smalloc` does: it takes an item, or the slab has none. -/
theorem smalloc_inv (h : SmInv snode s) (hidx : smallocSizeToIdx size = i) (hi : i < smallocBits)
    (hmax : size ≤ smallocMaxSize) {c : C} {backend : Option (List ℕ)}
    (hb : Supplied snode size s backend) :
    (∃ x t l, s.smalloc size c backend = .ok (some x, s.setCache i t) ∧
      TcInv smallocMagSize t l ∧ (∀ y ∈ t.out, snode y = i) ∧
      t.held = x ::ₘ (s.cache i).held ∧
      t.out.card ≤ max (s.cache i).out.card
        (smallocMagSize + (Fintype.card C * (2 * smallocMagSize) + (s.cache i).held.card))) ∨
    s.smalloc size c backend = .ok (none, s) := by
  obtain ⟨⟨l, hl⟩, hown⟩ := h i hi
  have hpt : pt (smallocSizeToIdx size) = some i := by rw [hidx, pt_natCast hi]
  simp only [smalloc, if_neg (BitVec.not_lt.mpr hmax), hpt]
  rcases Tcache.callAlloc_inv hl smallocMagSize_pos fun _ items heq => (hb i items hpt heq).1 with
    ⟨x, t, l', hs, hinv, hout⟩ | ⟨hs, -, -⟩
  · left
    refine ⟨x, t, l', by rw [hs]; rfl, hinv, ?_, Tcache.callAlloc_held hs, ?_⟩
    · intro y hy
      rw [hout] at hy
      rcases Multiset.mem_add.mp hy with hy | hy
      · split at hy
        · cases backend with
          | none => simp at hy
          | some items => exact (hb i items hpt rfl).2 y hy
        · simp at hy
      · exact hown y hy
    · rw [hout, Multiset.card_add]
      split
      · rename_i hask
        have hcard := Tcache.out_card_le hl hask
        have hlen : ((backend.getD [] : List ℕ) : Multiset ℕ).card ≤ smallocMagSize := by
          cases backend with
          | none => simp
          | some items => exact (hb i items hpt rfl).1.1.le
        exact le_max_of_le_right (Nat.add_le_add hlen hcard)
      · simp
  · right
    rw [hs]
    exact congrArg (fun u => Except.ok (none, u)) (setCache_cache_self s i)

/-- An item of the class is freed into the cache of the class. -/
theorem sfree_inv {t : Tcache ℕ C} {l : Layout ℕ C} {x : ℕ}
    (hidx : smallocSizeToIdx (nodeSize (snode x)) = i) (hi : i < smallocBits)
    (hl : TcInv smallocMagSize t l) (hx : x ∈ t.held) (c : C) :
    ∃ t', (s.setCache i t).sfree snode c x = .ok (s.setCache i t') ∧
      (∃ l, TcInv smallocMagSize t' l) ∧ t'.out = t.out ∧ t'.held = t.held.erase x := by
  obtain ⟨t', l', hs, hinv, hout⟩ := Tcache.callFree_inv (c := c) hl smallocMagSize_pos hx
  refine ⟨t', ?_, ⟨l', hinv⟩, hout, (Tcache.callFree_held hs).1⟩
  have hagain : (s.setCache i t).setCache i t' = s.setCache i t' := by
    rw [setCache, setCache, setCache, Function.update_idem]
  have hpt : pt (smallocSizeToIdx (nodeSize (snode x))) = some i := by rw [hidx, pt_natCast hi]
  unfold sfree
  rw [hpt]
  dsimp only
  rw [setCache_self, hs]
  exact congrArg Except.ok hagain

/-- One turn: the callers have what they had, and the slab has given out no more items than the
CPUs' magazines and the callers can have, or than before. -/
theorem smTurn_inv (h : SmInv snode s) (hidx : smallocSizeToIdx size = i) (hi : i < smallocBits)
    (hmax : size ≤ smallocMaxSize) (hback : smallocSizeToIdx (nodeSize i) = i) {t : SmTurn C}
    (hb : Supplied snode size s t.backend) :
    ∃ s', smTurn snode size s t = .ok s' ∧ SmInv snode s' ∧ (∀ j ≠ i, s'.cache j = s.cache j) ∧
      (s'.cache i).held = (s.cache i).held ∧
      (s'.cache i).out.card ≤ max (s.cache i).out.card
        (smallocMagSize + (Fintype.card C * (2 * smallocMagSize) + (s.cache i).held.card)) := by
  rcases smalloc_inv h hidx hi hmax (c := t.alloc) hb with
    ⟨x, u, l, hs, hl, hown, hheld, hcard⟩ | hs
  · have hx : x ∈ u.held := hheld ▸ Multiset.mem_cons_self x _
    have hxout : x ∈ u.out := hl.ledger ▸ Multiset.mem_add.mpr (.inr hx)
    have hback' : smallocSizeToIdx (nodeSize (snode x)) = i := by rw [hown x hxout, hback]
    obtain ⟨u', hs', hinv, hout, hheld'⟩ := sfree_inv (s := s) hback' hi hl hx t.free
    refine ⟨s.setCache i u', by rw [smTurn, hs]; exact hs', h.setCache hinv (hout ▸ hown), ?_, ?_, ?_⟩
    · intro j hj
      rw [setCache_cache, if_neg hj]
    · rw [setCache_self, hheld', hheld, Multiset.erase_cons_head]
    · rw [setCache_self, hout]
      exact hcard
  · exact ⟨s, by rw [smTurn, hs], h, fun _ _ => rfl, rfl, le_max_left _ _⟩

/-- Taking turns with a size above 32, the slabs give out a bounded number of items. -/
theorem exec_bounded (h : SmInv snode s) (hlarge : 32 < size) (hmax : size ≤ smallocMaxSize) :
    ∃ bound, ∀ ts : List (SmTurn C),
      Along (smTurn snode size) (fun s t => Supplied snode size s t.backend) s ts →
      ∃ s', exec (smTurn snode size) s ts = .ok s' ∧
        ∀ i < smallocBits, (s'.cache i).out.card ≤ bound := by
  obtain ⟨i, hidx, hi, -, hback⟩ := exists_class hlarge hmax
  let most : ℕ → ℕ := fun j => max (s.cache j).out.card
    (smallocMagSize + (Fintype.card C * (2 * smallocMagSize) + (s.cache j).held.card))
  refine ⟨(Finset.range smallocBits).sup most, ?_⟩
  intro ts hts
  -- what is in use stays, and so does what can be cached besides
  have hstep : ∀ (u : Smalloc C) (t : SmTurn C), (SmInv snode u ∧ ∀ j, (u.cache j).held = (s.cache j).held ∧
        (u.cache j).out.card ≤ most j) → Supplied snode size u t.backend →
      ∃ u', smTurn snode size u t = .ok u' ∧ SmInv snode u' ∧
        ∀ j, (u'.cache j).held = (s.cache j).held ∧ (u'.cache j).out.card ≤ most j := by
    rintro u t ⟨hu, hkept⟩ hb
    obtain ⟨u', hu', hinv, hoff, hheld, hcard⟩ := smTurn_inv hu hidx hi hmax hback hb
    refine ⟨u', hu', hinv, ?_⟩
    intro j
    by_cases hj : j = i
    · rw [hj, hheld]
      refine ⟨(hkept i).1, hcard.trans (max_le (hkept i).2 ?_)⟩
      rw [(hkept i).1]
      exact le_max_right _ _
    · rw [hoff j hj]
      exact hkept j
  obtain ⟨s', hs', -, hkept⟩ := exec_ok hstep ⟨h, fun j => ⟨rfl, le_max_left _ _⟩⟩ hts
  refine ⟨s', hs', ?_⟩
  intro j hj
  exact (hkept j).2.trans (Finset.le_sup (f := most) (Finset.mem_range.mpr hj))

/-! ## Sizes that are put back elsewhere -/

omit [DecidableEq C] [Fintype C] in
/-- As long as it has not given out everything, a slab can fill a magazine. -/
theorem exists_fresh (t : Tcache ℕ C) : ∃ items, t.Fresh smallocMagSize items := by
  obtain ⟨m, hm⟩ := t.out.toFinset.exists_nat_subset_range
  refine ⟨List.range' m smallocMagSize, List.length_range', List.nodup_range', ?_⟩
  intro x hx hout
  have hlt := Finset.mem_range.mp (hm (Multiset.mem_toFinset.mpr hout))
  have hle := (List.mem_range'_1.mp hx).1
  omega

/-- Every item that was taken from the second cache is in the third one. -/
structure Leaked (s : Smalloc C) (n : ℕ) : Prop where
  second : ∃ l, TcInv smallocMagSize (s.cache 1) l
  card : (s.cache 1).held.card = n
  third : ∃ l, TcInv smallocMagSize { s.cache 2 with held := 0, out := (s.cache 1).held } l

/-- An item of another slab is freed into a cache. -/
theorem free_foreign {t : Tcache ℕ C} {l : Layout ℕ C} {x : ℕ} {foreign : Multiset ℕ}
    (hl : TcInv smallocMagSize { t with held := 0, out := foreign } l)
    (hx : (x ::ₘ foreign).Nodup) (c : C) :
    ∃ t', t.callFree smallocMagSize c x = .ok t' ∧
      ∃ l', TcInv smallocMagSize { t' with held := 0, out := x ::ₘ foreign } l' := by
  have hgiven : TcInv smallocMagSize { t with held := {x}, out := x ::ₘ foreign } l := by
    refine ⟨⟨hl.wired.load, hl.wired.prev, hl.wired.pool⟩,
      ⟨hl.sized.load, hl.sized.rounds, hl.sized.prev, hl.sized.pool⟩, ?_, hx⟩
    have hledger : l.cached + 0 = foreign := hl.ledger
    rw [add_zero] at hledger
    rw [hledger, add_comm, Multiset.singleton_add]
  obtain ⟨u, l', hu, hinv, -⟩ := Tcache.callFree_inv (c := c) hgiven smallocMagSize_pos
    (Multiset.mem_singleton_self x)
  rw [Tcache.callFree_relabel] at hu
  cases ht : t.callFree smallocMagSize c x with
  | error f =>
      rw [ht] at hu
      cases hu
  | ok t' =>
      rw [ht] at hu
      have hu' := Except.ok.inj hu
      simp only [Multiset.erase_singleton] at hu'
      exact ⟨t', rfl, l', hu' ▸ hinv⟩

/-- One turn with a small size moves one item from the second cache to the third. -/
theorem smTurn_leaked {n : ℕ} (h : Leaked s n) (hpos : 0 < size) (hsmall : size ≤ 32) (c : C) :
    ∃ t : SmTurn C, Supplied (fun _ => 1) size s t.backend ∧
      ∃ s', smTurn (fun _ => 1) size s t = .ok s' ∧ Leaked s' (n + 1) := by
  obtain ⟨l, hl⟩ := h.second
  obtain ⟨l₂, hl₂⟩ := h.third
  obtain ⟨items, hfresh⟩ := exists_fresh (s.cache 1)
  have hpt : pt (smallocSizeToIdx size) = some 1 := by
    rw [smallocSizeToIdx_small hpos hsmall]
    rfl
  have hpt₂ : pt (smallocSizeToIdx (nodeSize 1)) = some 2 := by
    rw [smallocSizeToIdx_nodeSize_one]
    rfl
  have hmax : ¬ smallocMaxSize < size :=
    BitVec.not_lt.mpr (BitVec.le_trans hsmall (by decide : (32 : BitVec 64) ≤ smallocMaxSize))
  refine ⟨⟨c, some items, c⟩, ?_, ?_⟩
  · rintro i items' hi ⟨⟩
    rw [hpt] at hi
    cases hi
    exact ⟨hfresh, fun _ _ => rfl⟩
  rcases Tcache.callAlloc_inv (c := c) hl smallocMagSize_pos
      (fun _ items' heq => Option.some.inj heq ▸ hfresh) with
    ⟨x, u, l', hs, hinv, -⟩ | ⟨-, -, hnone⟩
  · have hheld := Tcache.callAlloc_held hs
    have hnodup : (x ::ₘ (s.cache 1).held).Nodup := by
      have hle : u.held ≤ u.out := hinv.ledger ▸ Multiset.le_add_left _ _
      exact hheld ▸ Multiset.nodup_of_le hle hinv.nodup
    obtain ⟨v, hv, l₂', hinv₂⟩ := free_foreign hl₂ hnodup c
    have hsm : s.smalloc size c (some items) = .ok (some x, s.setCache 1 u) := by
      simp only [smalloc, if_neg hmax, hpt]
      rw [hs]
      rfl
    have hother : (s.setCache 1 u).cache 2 = s.cache 2 := by rw [setCache_cache, if_neg (by decide)]
    have hfree : (s.setCache 1 u).sfree (fun _ => 1) c x =
        .ok ((s.setCache 1 u).setCache 2 v) := by
      unfold sfree
      rw [hpt₂]
      dsimp only
      rw [hother, hv]
      rfl
    have h₁ : ((s.setCache 1 u).setCache 2 v).cache 1 = u := by
      rw [setCache_cache, if_neg (by decide), setCache_self]
    refine ⟨(s.setCache 1 u).setCache 2 v, ?_, ?_, ?_, ?_⟩
    · rw [smTurn, hsm]
      exact hfree
    · rw [h₁]
      exact ⟨l', hinv⟩
    · rw [h₁, hheld, Multiset.card_cons, h.card]
    · rw [h₁, setCache_self, hheld]
      exact ⟨l₂', hinv₂⟩
  · cases hnone

/-- With a small size the slab of the second cache gives out as many items as there are turns. -/
theorem exec_leaked {n : ℕ} (h : Leaked s n) (hpos : 0 < size) (hsmall : size ≤ 32) (c : C) (m : ℕ) :
    ∃ ts : List (SmTurn C),
      Along (smTurn (fun _ => 1) size) (fun s t => Supplied (fun _ => 1) size s t.backend) s ts ∧
      ∃ s', exec (smTurn (fun _ => 1) size) s ts = .ok s' ∧ Leaked s' (n + m) := by
  induction m generalizing s n with
  | zero => exact ⟨[], trivial, s, rfl, h⟩
  | succ m ih =>
      obtain ⟨t, hb, u, hu, hleak⟩ := smTurn_leaked h hpos hsmall c
      obtain ⟨ts, hts, s', hs', hleak'⟩ := ih hleak
      refine ⟨t :: ts, ⟨hb, ?_⟩, s', exec_cons_ok.mpr ⟨u, hu, hs'⟩, ?_⟩
      · intro u' hu'
        rw [hu] at hu'
        cases hu'
        exact hts
      · rwa [Nat.add_assoc, Nat.add_comm 1 m] at hleak'

omit [DecidableEq C] in
theorem create_inv : SmInv snode (create C) := by
  intro i _
  refine ⟨⟨_, Tcache.create_inv _ _ _⟩, ?_⟩
  intro x hx
  exact absurd hx (Multiset.notMem_zero x)

omit [DecidableEq C] in
theorem create_leaked : Leaked (create C) 0 :=
  ⟨⟨_, Tcache.create_inv _ _ _⟩, rfl, ⟨_, Tcache.create_inv _ _ _⟩⟩

theorem not_bounded (hpos : 0 < size) (hsmall : size ≤ 32) (c : C) : ¬ SmallocRight C size := by
  intro hright
  obtain ⟨bound, hbound⟩ := hright.bounded (fun _ => 1) (create C) create_inv
  obtain ⟨ts, hts, s', hs', hleak⟩ := exec_leaked create_leaked hpos hsmall c (bound + 1)
  obtain ⟨s'', hs'', hcard⟩ := hbound ts hts
  rw [hs'] at hs''
  cases hs''
  obtain ⟨l, hl⟩ := hleak.second
  have hle : (s'.cache 1).held ≤ (s'.cache 1).out := hl.ledger ▸ Multiset.le_add_left _ _
  have hheld := Multiset.card_le_card hle
  have hone := hcard 1 (by decide)
  rw [hleak.card] at hheld
  omega

/-! ## Which sizes are right -/

/-- **Size classes.**  `smalloc` and `sfree` do what they are to do with the sizes above 32. -/
theorem smallocRight_iff [Inhabited C] (hmax : size ≤ smallocMaxSize) :
    SmallocRight C size ↔ 32 < size := by
  constructor
  · intro hright
    by_contra hnot
    have hsmall : size ≤ 32 := BitVec.not_lt.mp hnot
    by_cases hzero : size = 0
    · have hrange := hright.inRange
      rw [hzero, smallocSizeToIdx_zero] at hrange
      exact absurd hrange.2 (by decide)
    · exact not_bounded (BitVec.lt_def.mpr (pos_of_ne_zero hzero)) hsmall default hright
  · intro hlarge
    obtain ⟨i, hidx, hi, hroom, hback⟩ := exists_class hlarge hmax
    refine ⟨?_, ?_, ?_⟩
    · rw [hidx]
      exact ⟨Int.natCast_nonneg i, Int.ofNat_lt.mpr hi⟩
    · intro snode s c backend x s' h hb hs
      rcases smalloc_inv h hidx hi hmax (c := c) hb with ⟨y, t, l, ht, hl, hown, hheld, -⟩ | hnone
      · rw [ht] at hs
        cases hs
        have hx : x ∈ t.out := by
          rw [← hl.ledger, hheld]
          exact Multiset.mem_add.mpr (.inr (Multiset.mem_cons_self x _))
        rw [hown x hx, hback, hidx]
        exact ⟨hroom, rfl⟩
      · rw [hnone] at hs
        cases hs
    · intro snode s h
      exact exec_bounded h hlarge hmax

theorem smallocRight_iff_hundred : SmallocRight Bool 100 ↔ (32 : BitVec 64) < 100 :=
  smallocRight_iff (by decide)

/-- An allocation of one byte comes from the second cache, with items of 64 bytes, which are put
into the third one. -/
theorem one_byte_elsewhere :
    smallocSizeToIdx 1 = 1 ∧ nodeSize 1 = 64 ∧ smallocSizeToIdx 64 = 2 ∧ ¬ SmallocRight Bool 1 :=
  ⟨smallocSizeToIdx_small (by decide) (by decide), by decide, smallocSizeToIdx_nodeSize_one,
    not_bounded (by decide) (by decide) true⟩

end Smalloc

end Skyloft
