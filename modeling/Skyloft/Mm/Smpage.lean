import Skyloft.Mm.Numa
import Skyloft.Mm.PageMap

/-!
# Small pages

A large page that the slab of the small pages takes is shattered: its beginning holds the descriptors
of its small pages, the others are handed out.  `smpage_alloc_on_node` asks the cache of the CPU if
the page is to come from the node of the CPU, and else the slab; `smpage_free` finds the address of
the page from its descriptor, and from the address the node it goes back to.

* `smpageStep` — the two calls, on the slab and its cache.
* `SmpageInv` — what is handed out lies in large pages of the node that is told by their addresses.
* `page_maps` — no call faults, and the pages that callers have are where the maps between pages
  and addresses are inverse.
-/

namespace Skyloft

open Run

/-! ## The calls -/

/-- `SMPAGE_MAG_SIZE` -/
def smpageMagSize : ℕ := 8

inductive SmpageFault
  | numa (f : NumaFault)
  /-- `assert(numa_node < MAX_NUMA)`, or a negative index -/
  | assertion
  deriving DecidableEq

/-- A call on a CPU, by a thread that is initialised or not. -/
inductive SmpageEvent (C : Type)
  /-- `smpage_alloc_on_node`, with the pages that `page_alloc_on_node` returns if the slab asks for
  them -/
  | alloc (c : C) (threadInitDone : Bool) (n : Fin maxNuma) (pages : List (Option ℕ))
  /-- `smpage_free`, with the descriptor -/
  | free (c : C) (threadInitDone : Bool) (pg : BitVec 64)
  /-- one call of `slab_node_free` after `slab_tcache_alloc` has failed -/
  | put (n : Fin maxNuma) (item : ℕ)
  /-- a caller writes over a page it has -/
  | write (item : ℕ) (first second : Option ℕ)

namespace SlabCache

variable {N C : Type}

/-- The slab has given an item to a caller. -/
def hold (s : SlabCache N C) (item : ℕ) : SlabCache N C :=
  { s with cache := { s.cache with held := item ::ₘ s.cache.held, out := item ::ₘ s.cache.out } }

/-- A caller has no longer an item and has not given it to the cache. -/
def drop (s : SlabCache N C) (item : ℕ) : SlabCache N C :=
  { s with cache :=
      { s.cache with held := s.cache.held.erase item, out := s.cache.out.erase item } }

variable [DecidableEq N]

/-- `slab_alloc_on_node` -/
def slabAllocOnNode (g : SlabGeom) (debug : Bool) (s : SlabCache N C) (n : N) (fresh : Option ℕ) :
    Except NumaFault (SlabCache N C) :=
  match s.slab.slabNodeAlloc g debug n fresh with
  | .error f => .error (.slab f)
  | .ok (none, slab) => .ok (s.setSlab slab)
  | .ok (some item, slab) => .ok ((s.setSlab slab).hold item)

/-- `slab_free`, with the node it finds -/
def slabFree [Fintype N] (g : SlabGeom) (s : SlabCache N C) (n : N) (item : ℕ) : SlabCache N C :=
  (s.drop item).setSlab (s.slab.slabNodeFree g n item)

end SlabCache

/-- The slab of the small pages and its cache. -/
abbrev SmpageSys (C : Type) := SlabCache (Fin maxNuma) C

namespace SmpageSys

variable {C : Type} [DecidableEq C]

def smpageAllocOnNode (debug : Bool) (node : C → Fin maxNuma) (s : SmpageSys C) (c : C)
    (threadInitDone : Bool) (n : Fin maxNuma) (pages : List (Option ℕ)) :
    Except NumaFault (SmpageSys C) :=
  if threadInitDone ∧ node c = n then
    numaStep smpageGeom smpageMagSize debug node s (.alloc c pages)
  else s.slabAllocOnNode smpageGeom debug n (pages.headD none)

def smpageFree (debug : Bool) (node : C → Fin maxNuma) (s : SmpageSys C) (c : C)
    (threadInitDone : Bool) (pg : BitVec 64) : Except SmpageFault (SmpageSys C) :=
  let addr := PageMap.smpageToAddr pg
  if h : (PageMap.addrToNumaNode addr).toNat < maxNuma then
    if threadInitDone ∧ node c = ⟨_, h⟩ then
      (numaStep smpageGeom smpageMagSize debug node s (.free c addr.toNat)).mapError .numa
    else .ok (s.slabFree smpageGeom ⟨_, h⟩ addr.toNat)
  else .error .assertion

end SmpageSys

/-- One step. -/
def smpageStep {C : Type} [DecidableEq C] (debug : Bool) (node : C → Fin maxNuma) (s : SmpageSys C) :
    SmpageEvent C → Except SmpageFault (SmpageSys C)
  | .alloc c threadInitDone n pages =>
      (s.smpageAllocOnNode debug node c threadInitDone n pages).mapError .numa
  | .free c threadInitDone pg => s.smpageFree debug node c threadInitDone pg
  | .put n item => (numaStep smpageGeom smpageMagSize debug node s (.put n item)).mapError .numa
  | .write item first second =>
      (numaStep smpageGeom smpageMagSize debug node s (.write item first second)).mapError .numa

/-! ## The node of a page -/

namespace SlabSys

variable {N : Type} [DecidableEq N] {g : SlabGeom} {s s' : SlabSys N} {l : SlabLayout} {debug : Bool}
  {n m : N} {fresh r : Option ℕ} {pg item : ℕ}

theorem owner_refill (h : refill g debug s n fresh = .ok (r, s')) (hown : s'.owner pg = some m) :
    s.owner pg = some m ∨ (fresh = some pg ∧ m = n) := by
  cases hpart : (s.node n).partialList with
  | cons p rest =>
      simp only [refill, getPage, hpart] at h
      rw [(snode_takeItem h).2] at hown
      exact .inl hown
  | nil =>
      cases fresh with
      | none =>
          simp only [refill, getPage, hpart] at h
          cases h
          exact .inl hown
      | some p =>
          simp only [refill, getPage, hpart] at h
          rw [(snode_takeItem h).2] at hown
          by_cases hp : pg = p
          · subst hp
            have hn : some n = some m := by simpa [setNode] using hown
            exact .inr ⟨rfl, (Option.some.inj hn).symm⟩
          · exact .inl (by simpa [setNode, hp] using hown)

/-- `__slab_node_alloc` gives a page to a node only if `page_alloc_on_node` has returned it. -/
theorem owner_slabNodeAlloc (h : s.slabNodeAlloc g debug n fresh = .ok (r, s'))
    (hown : s'.owner pg = some m) : s.owner pg = some m ∨ (fresh = some pg ∧ m = n) := by
  unfold slabNodeAlloc at h
  split at h
  · exact owner_refill h hown
  · split at h
    · have hret := owner_refill h hown
      exact hret
    · rw [(snode_takeItem h).2] at hown
      exact .inl hown

theorem owner_allocItems {pages : List (Option ℕ)} : ∀ {s s' : SlabSys N} {items : List ℕ}
    {done : Bool}, s.allocItems g debug n pages = .ok (items, done, s') → s'.owner pg = some m →
    s.owner pg = some m ∨ (some pg ∈ pages ∧ m = n) := by
  induction pages with
  | nil =>
      intro s s' items done h hown
      cases h
      exact .inl hown
  | cons fresh rest ih =>
      intro s s' items done h hown
      rw [allocItems] at h
      split at h
      · cases h
      · rename_i u hu
        cases h
        exact (owner_slabNodeAlloc hu hown).imp_right
          fun hf => ⟨List.mem_cons.mpr (.inl hf.1.symm), hf.2⟩
      · rename_i item u hu
        split at h
        · cases h
        · rename_i rest' done' u' hu'
          cases h
          rcases ih hu' hown with hold | ⟨hmem, hm⟩
          · exact (owner_slabNodeAlloc hu hold).imp_right
              fun hf => ⟨List.mem_cons.mpr (.inl hf.1.symm), hf.2⟩
          · exact .inr ⟨List.mem_cons_of_mem _ hmem, hm⟩

/-- `slab_node_free` takes a page from its node or leaves it there. -/
theorem owner_slabNodeFree [Fintype N] (hown : (s.slabNodeFree g n item).owner pg = some m) :
    s.owner pg = some m := by
  unfold slabNodeFree at hown
  dsimp only at hown
  split at hown
  · exact hown
  · split at hown
    · exact hown
    · split at hown
      · by_cases hp : pg = g.pageOf item
        · simp [hp] at hown
        · simpa [hp, setNode, unlink, pushItem] using hown
      · exact hown

omit [DecidableEq N] in
/-- An item in use stands at one of the places of its page. -/
theorem slot_of_live (h : SlabInv g s l) (hitem : item ∈ s.live) :
    ∃ n j, s.owner (g.pageOf item) = some n ∧ j < g.nrElems ∧ item = g.slot (g.pageOf item) j := by
  obtain ⟨n, hown⟩ := Option.ne_none_iff_exists'.mp (h.live item hitem)
  have hmem : item ∈ slots g (g.pageOf item) (l.carved (g.pageOf item)) := by
    rw [h.items _ n hown]
    exact Multiset.mem_add.mpr (.inr (Multiset.mem_filter.mpr ⟨hitem, rfl⟩))
  obtain ⟨j, hj, heq⟩ := Multiset.mem_map.mp hmem
  exact ⟨n, j, hown, lt_of_lt_of_le (Multiset.mem_range.mp hj) (h.carved_le _ n hown), heq.symm⟩

end SlabSys

/-! ## Items that bypass the cache -/

namespace Tcache

variable {I C : Type} [DecidableEq I] [Fintype C] {magSize : ℕ} {s : Tcache I C} {l : Layout I C} {x : I}

omit [DecidableEq I] in
/-- A caller has got an item from elsewhere. -/
theorem hold_inv (h : TcInv magSize s l) (hx : x ∉ s.out) :
    TcInv magSize { s with held := x ::ₘ s.held, out := x ::ₘ s.out } l := by
  refine ⟨⟨h.wired.load, h.wired.prev, h.wired.pool⟩,
    ⟨h.sized.load, h.sized.rounds, h.sized.prev, h.sized.pool⟩, ?_, ?_⟩
  · rw [Multiset.add_cons, h.ledger]
  · exact Multiset.nodup_cons.mpr ⟨hx, h.nodup⟩

/-- A caller has given an item away. -/
theorem drop_inv (h : TcInv magSize s l) (hx : x ∈ s.held) :
    TcInv magSize { s with held := s.held.erase x, out := s.out.erase x } l := by
  refine ⟨⟨h.wired.load, h.wired.prev, h.wired.pool⟩,
    ⟨h.sized.load, h.sized.rounds, h.sized.prev, h.sized.pool⟩, ?_, h.nodup.erase x⟩
  rw [← h.ledger, Multiset.erase_add_right_pos _ hx]

end Tcache

namespace SlabCache

variable {N C : Type} [DecidableEq N] [DecidableEq C] [Fintype C] {g : SlabGeom} {magSize : ℕ}
  {s : SlabCache N C} {n : N}

omit [DecidableEq C] in
/-- `slab_alloc_on_node` -/
theorem slabAllocOnNode_inv (hfit : g.Fits) (debug : Bool) (h : NumaInv g magSize s) (n : N)
    {fresh : Option ℕ} (hfresh : ∀ pg, fresh = some pg → s.slab.owner pg = none) :
    ∃ s', s.slabAllocOnNode g debug n fresh = .ok s' ∧ NumaInv g magSize s' ∧
      ∀ pg m, s'.slab.owner pg = some m → s.slab.owner pg = some m ∨ (fresh = some pg ∧ m = n) := by
  obtain ⟨l, hi⟩ := h.slab
  obtain ⟨lc, hc⟩ := h.cache
  have hhome : ∀ {r slab}, s.slab.slabNodeAlloc g debug n fresh = .ok (r, slab) →
      ∀ p ∈ s.pending, slab.snode (g.pageOf p.2) = some p.1 := by
    intro r slab hs p hp
    have hne : fresh ≠ some (g.pageOf p.2) :=
      fun heq => hi.live _ (mem_live_of_pending h hp) (hfresh _ heq)
    rw [(SlabSys.snode_slabNodeAlloc hs hne).1]
    exact h.home p hp
  rcases SlabSys.slabNodeAlloc_inv hfit hi n debug hfresh with
    ⟨item, slab, hs, ht⟩ | ⟨slab, hs, ht⟩
  · have hcache := setSlab_cache (s := s) (ht.nextHdr.trans h.words)
    have hnew : item ∉ s.cache.out := fun hout => ht.fresh (mem_live_of_out h hout)
    refine ⟨(s.setSlab slab).hold item, by simp only [slabAllocOnNode, hs], ⟨?_, ht.inv, rfl, ?_,
      hhome hs⟩, fun pg m => SlabSys.owner_slabNodeAlloc hs⟩
    · rw [hold, hcache]
      exact ⟨lc, Tcache.hold_inv hc hnew⟩
    · change slab.live = _
      rw [ht.live, h.ledger]
      exact (Multiset.cons_add ..).symm
  · have hcache := setSlab_cache (s := s) (ht.nextHdr.trans h.words)
    refine ⟨s.setSlab slab, by simp only [slabAllocOnNode, hs], ⟨?_, ht.inv, rfl, ?_, hhome hs⟩,
      fun pg m => SlabSys.owner_slabNodeAlloc hs⟩
    · rw [hcache]
      exact ⟨lc, hc⟩
    · exact ht.live.trans h.ledger

omit [DecidableEq N] [DecidableEq C] in
/-- An item that a caller gives away is on its way to the node of its page. -/
theorem drop_inv (h : NumaInv g magSize s) {item : ℕ} (hitem : item ∈ s.cache.held)
    (hn : s.slab.snode (g.pageOf item) = some n) :
    NumaInv g magSize { s.drop item with pending := (n, item) ::ₘ s.pending } := by
  obtain ⟨lc, hc⟩ := h.cache
  refine ⟨⟨lc, Tcache.drop_inv hc hitem⟩, h.slab, h.words, ?_, ?_⟩
  · change s.slab.live = s.cache.out.erase item + _
    rw [h.ledger, Multiset.map_cons, Multiset.add_cons, ← Multiset.cons_add,
      Multiset.cons_erase (Tcache.mem_out_of_held hc hitem)]
  · intro p hp
    rcases Multiset.mem_cons.mp hp with rfl | hp
    · exact hn
    · exact h.home p hp

omit [DecidableEq C] in
/-- `slab_free` -/
theorem slabFree_inv [Fintype N] (hfit : g.Fits) (h : NumaInv g magSize s) {item : ℕ}
    (hitem : item ∈ s.cache.held) (hn : s.slab.snode (g.pageOf item) = some n) :
    NumaInv g magSize (s.slabFree g n item) := by
  have hput := put_inv hfit (drop_inv h hitem hn) (Multiset.mem_cons_self _ _)
  simp only [Multiset.erase_cons_head] at hput
  exact hput

end SlabCache

/-! ## What is handed out -/

/-- The large page number `pg` has an entry in the part of the table that is the node's. -/
def EntryOf (n : Fin maxNuma) (pg : ℕ) : Prop :=
  ∃ i, lgpageNuma i = n ∧ pg = pageBaseAddr / pgsize2mb + i

instance (n : Fin maxNuma) (pg : ℕ) : Decidable (EntryOf n pg) :=
  decidable_of_iff (pageBaseAddr / pgsize2mb ≤ pg ∧ lgpageNuma (pg - pageBaseAddr / pgsize2mb) = n) <| by
    constructor
    · exact fun h => ⟨pg - pageBaseAddr / pgsize2mb, h.2, by omega⟩
    · rintro ⟨i, hi, rfl⟩
      exact ⟨Nat.le_add_right _ _, by rwa [Nat.add_sub_cancel_left]⟩

/-- What the slab has given out is in one place, and the slab has the pages of a node in the part of
memory that is the node's. -/
structure SmpageInv {C : Type} [Fintype C] (s : SmpageSys C) : Prop where
  numa : NumaInv smpageGeom smpageMagSize s
  entries : ∀ pg n, s.slab.owner pg = some n → EntryOf n pg

/-- The item is the small page number `j` of the large page of an entry, behind the descriptors. -/
structure SmallPage (item i j : ℕ) : Prop where
  entry : i < lgpageMetaEnts * maxNuma
  behind : smpageMetaLen ≤ j * pgsize4kb
  inside : j < pgsize2mb / pgsize4kb
  addr : item = lgpageToAddr i + j * pgsize4kb

namespace SmallPage

open PageMap

variable {item i j : ℕ}

theorem ofNat_eq (h : SmallPage item i j) (pageTbl : BitVec 64) :
    BitVec.ofNat 64 item = smpageToAddr (smEntry pageTbl i j) := by
  rw [smpageToAddr_smEntry pageTbl h.entry h.inside, lgpageToAddr_add pageTbl h.entry, h.addr,
    Skyloft.lgpageToAddr, Nat.add_assoc]

theorem lt (h : SmallPage item i j) : item < 2 ^ 64 := by
  have hi : i < 65536 := h.entry
  have hj : j < 512 := h.inside
  rw [h.addr]
  simp only [Skyloft.lgpageToAddr, pageBaseAddr, pgsize2mb, pgsize4kb]
  omega

/-- The descriptor that `smpage_alloc_on_node` returns. -/
theorem addrToSmpage_eq (h : SmallPage item i j) (pageTbl : BitVec 64) :
    addrToSmpage (BitVec.ofNat 64 item) = smEntry pageTbl i j := by
  have hmap := (smpage_maps pageTbl h.entry h.inside (k := 0) (by decide)).1
  rwa [BitVec.add_zero, ← h.ofNat_eq pageTbl] at hmap

/-- The address that `smpage_free` finds. -/
theorem smpageToAddr_eq (h : SmallPage item i j) :
    smpageToAddr (addrToSmpage (BitVec.ofNat 64 item)) = BitVec.ofNat 64 item := by
  rw [h.addrToSmpage_eq 0, ← h.ofNat_eq 0]

/-- The node that `smpage_free` and `slab_free` find. -/
theorem addrToNumaNode_eq (h : SmallPage item i j) :
    (PageMap.addrToNumaNode (BitVec.ofNat 64 item)).toNat = lgpageNuma i := by
  have hmap := (smpage_maps 0 h.entry h.inside (k := 0) (by decide)).2.2.2.1
  rw [BitVec.add_zero, ← h.ofNat_eq 0] at hmap
  have hle : lgpageNuma i ≤ i := Nat.div_le_self _ _
  have hi : i < 65536 := h.entry
  rw [hmap, BitVec.toNat_ofNat, Nat.mod_eq_of_lt (by omega)]

/-- No byte of it is in the metadata of a large page. -/
theorem not_metadata (h : SmallPage item i j) (pageTbl : BitVec 64) {i' k k' : ℕ}
    (hi' : i' < lgpageMetaEnts * maxNuma) (hk : k < smpageMetaLen) (hk' : k' < pgsize4kb) :
    PageMap.lgpageToAddr pageTbl (lgEntry pageTbl i') + BitVec.ofNat 64 k ≠
      BitVec.ofNat 64 item + BitVec.ofNat 64 k' := by
  have hi : i < 65536 := h.entry
  have hj : j < 512 := h.inside
  have hbehind : 32768 ≤ j * 4096 := h.behind
  have hin : i' < 65536 := hi'
  have hkn : k < 32768 := hk
  have hkm : k' < 4096 := hk'
  rw [lgpageToAddr_add pageTbl hi', BitVec.ofNat_add_ofNat, h.addr]
  intro heq
  have hnat := congrArg BitVec.toNat heq
  simp only [Skyloft.lgpageToAddr, pageBaseAddr, pgsize2mb, pgsize4kb] at hnat
  rw [PageMap.toNat_ofNat_lt (by omega), PageMap.toNat_ofNat_lt (by omega)] at hnat
  omega

end SmallPage

namespace SmpageInv

variable {C : Type} [Fintype C] {s : SmpageSys C} {item : ℕ}

/-- What the slab has given out are small pages, of the nodes that their addresses tell. -/
theorem smallPage (h : SmpageInv s) (hitem : item ∈ s.slab.live) :
    ∃ i j n, SmallPage item i j ∧ s.slab.snode (smpageGeom.pageOf item) = some n ∧
      lgpageNuma i = n := by
  obtain ⟨l, hi⟩ := h.numa.slab
  obtain ⟨n, j, hown, hj, hslot⟩ := SlabSys.slot_of_live hi hitem
  obtain ⟨i, hn, hpg⟩ := h.entries _ n hown
  have hj' : j < 504 := hj
  have hlt : i / 32768 < 2 := lt_of_eq_of_lt hn n.isLt
  refine ⟨i, j + 8, n, ⟨?_, ?_, ?_, ?_⟩, hi.snode _ n hown, hn⟩
  · change i < 65536
    omega
  · change 32768 ≤ (j + 8) * 4096
    omega
  · change j + 8 < 512
    omega
  · rw [hslot, hpg]
    change (8388608 + i) * 2097152 + (32768 + j * 4096) =
      17592186044416 + i * 2097152 + (j + 8) * 4096
    omega

end SmpageInv

/-! ## Runs -/

namespace SlabCache

variable {N C : Type} [DecidableEq N] [DecidableEq C] {g : SlabGeom} {magSize : ℕ}
  {s s' : SlabCache N C} {n m : N} {c : C} {pg : ℕ}

omit [DecidableEq N] in
theorem slab_finishAlloc {backend : Option (List ℕ)}
    (h : s.finishAlloc magSize c backend = .ok s') : s'.slab.owner = s.slab.owner := by
  unfold finishAlloc at h
  split at h
  · cases h
  · cases h
    rfl

theorem owner_alloc {debug : Bool} {pages : List (Option ℕ)}
    (h : s.alloc g magSize debug n c pages = .ok s') (hown : s'.slab.owner pg = some m) :
    s.slab.owner pg = some m ∨ (some pg ∈ pages ∧ m = n) := by
  unfold alloc at h
  split at h
  · split at h
    · cases h
    · rename_i hs
      rw [slab_finishAlloc h] at hown
      exact SlabSys.owner_allocItems hs hown
    · rename_i hs
      rw [slab_finishAlloc h] at hown
      exact SlabSys.owner_allocItems hs hown
  · rw [slab_finishAlloc h] at hown
    exact .inl hown

end SlabCache

namespace SmpageSys

variable {C : Type} [DecidableEq C] [Fintype C] {s : SmpageSys C}

/-- The descriptors of the pages that callers have, as `smpage_alloc_on_node` returns them. -/
def descriptors (s : SmpageSys C) : Multiset (BitVec 64) :=
  s.cache.held.map fun item => PageMap.addrToSmpage (BitVec.ofNat 64 item)

/-- The pages that `page_alloc_on_node` returns have entries of the node it is asked for, and no node
has them; what is freed or written is the caller's. -/
def Allowed (s : SmpageSys C) : SmpageEvent C → Prop
  | .alloc _ _ n pages =>
      pages.length = smpageMagSize ∧ s.slab.Supply pages ∧ ∀ pg ∈ pages.reduceOption, EntryOf n pg
  | .free _ _ pg => pg ∈ s.descriptors
  | .put _ _ => True
  | .write item _ _ => item ∈ s.cache.held

instance (s : SmpageSys C) : (e : SmpageEvent C) → Decidable (s.Allowed e)
  | .alloc _ _ n pages => inferInstanceAs (Decidable
      (pages.length = smpageMagSize ∧ s.slab.Supply pages ∧ ∀ pg ∈ pages.reduceOption, EntryOf n pg))
  | .free _ _ pg => inferInstanceAs (Decidable (pg ∈ s.descriptors))
  | .put _ _ => inferInstanceAs (Decidable True)
  | .write item _ _ => inferInstanceAs (Decidable (item ∈ s.cache.held))

omit [DecidableEq C] in
theorem create_inv (itemCount : ℕ → ℕ) (next first second : ℕ → Option ℕ) :
    SmpageInv (SlabCache.create itemCount next first second : SmpageSys C) where
  numa := SlabCache.create_inv smpageGeom smpageMagSize itemCount next first second
  entries := nofun

/-- `smpage_alloc_on_node` -/
theorem alloc_inv (debug : Bool) (node : C → Fin maxNuma) (h : SmpageInv s) (c : C)
    (threadInitDone : Bool) (n : Fin maxNuma) {pages : List (Option ℕ)}
    (hlen : pages.length = smpageMagSize) (hsup : s.slab.Supply pages)
    (hentry : ∀ pg ∈ pages.reduceOption, EntryOf n pg) :
    ∃ s', s.smpageAllocOnNode debug node c threadInitDone n pages = .ok s' ∧ SmpageInv s' := by
  rw [smpageAllocOnNode]
  split
  · rename_i hnear
    obtain ⟨s', hs, hi⟩ := SlabCache.alloc_inv (c := c) smpageGeom_fits (by decide) debug h.numa
      (node c) hlen hsup
    refine ⟨s', hs, hi, fun pg m hown => ?_⟩
    rcases SlabCache.owner_alloc hs hown with hold | ⟨hmem, rfl⟩
    · exact h.entries pg m hold
    · rw [hnear.2]
      exact hentry pg (List.reduceOption_mem_iff.mpr hmem)
  · have hfirst : ∀ pg, pages.headD none = some pg → some pg ∈ pages := by
      intro pg hpg
      cases pages with
      | nil => cases hpg
      | cons p rest => exact List.mem_cons.mpr (.inl hpg.symm)
    obtain ⟨s', hs, hi, hown⟩ := SlabCache.slabAllocOnNode_inv smpageGeom_fits debug h.numa n
      (fun pg hpg => hsup.2 pg (List.reduceOption_mem_iff.mpr (hfirst pg hpg)))
    refine ⟨s', hs, hi, fun pg m hm => ?_⟩
    rcases hown pg m hm with hold | ⟨hpg, rfl⟩
    · exact h.entries pg m hold
    · exact hentry pg (List.reduceOption_mem_iff.mpr (hfirst pg hpg))

/-- `smpage_free` -/
theorem free_inv (debug : Bool) (node : C → Fin maxNuma) (h : SmpageInv s) (c : C)
    (threadInitDone : Bool) {item : ℕ} (hitem : item ∈ s.cache.held) :
    ∃ s', s.smpageFree debug node c threadInitDone
        (PageMap.addrToSmpage (BitVec.ofNat 64 item)) = .ok s' ∧ SmpageInv s' := by
  obtain ⟨lc, hc⟩ := h.numa.cache
  have hlive := SlabCache.mem_live_of_out h.numa (Tcache.mem_out_of_held hc hitem)
  obtain ⟨i, j, n, hpage, hsnode, hn⟩ := h.smallPage hlive
  have hnode := hpage.addrToNumaNode_eq
  have hlt : (PageMap.addrToNumaNode (BitVec.ofNat 64 item)).toNat < maxNuma := by
    rw [hnode, hn]
    exact n.isLt
  have hfin : (⟨_, hlt⟩ : Fin maxNuma) = n := Fin.ext (hnode.trans hn)
  simp only [smpageFree, hpage.smpageToAddr_eq, dif_pos hlt, hfin,
    PageMap.toNat_ofNat_lt hpage.lt]
  split
  · obtain ⟨cache, hs, hi⟩ := SlabCache.free_inv (c := c) smpageGeom_fits (by decide) h.numa hitem
    exact ⟨s.setCache cache, by simp only [numaStep, hs, Except.mapError], hi, h.entries⟩
  · refine ⟨_, rfl, SlabCache.slabFree_inv smpageGeom_fits h.numa hitem hsnode, ?_⟩
    intro pg m hown
    exact h.entries pg m (SlabSys.owner_slabNodeFree hown)

theorem smpageStep_inv (debug : Bool) (node : C → Fin maxNuma) (h : SmpageInv s) {e : SmpageEvent C}
    (he : s.Allowed e) : ∃ s', smpageStep debug node s e = .ok s' ∧ SmpageInv s' := by
  cases e with
  | alloc c threadInitDone n pages =>
      obtain ⟨s', hs, hi⟩ := alloc_inv debug node h c threadInitDone n he.1 he.2.1 he.2.2
      exact ⟨s', by simp only [smpageStep, hs, Except.mapError], hi⟩
  | free c threadInitDone pg =>
      obtain ⟨item, hitem, rfl⟩ := Multiset.mem_map.mp he
      exact free_inv debug node h c threadInitDone hitem
  | put n item =>
      refine ⟨_, rfl, ?_⟩
      split
      · rename_i hp
        refine ⟨SlabCache.put_inv smpageGeom_fits h.numa hp, ?_⟩
        intro pg m hown
        exact h.entries pg m (SlabSys.owner_slabNodeFree hown)
      · exact h
  | write item first second =>
      exact ⟨_, rfl, SlabCache.write_inv smpageGeom_fits h.numa he first second, h.entries⟩

/-- The pages that callers have are small pages behind the descriptors of their large page, and no
byte of them is in the metadata of any large page. -/
structure Apart (pageTbl : BitVec 64) (s : SmpageSys C) : Prop where
  smpage : ∀ item ∈ s.cache.held, ∃ i < lgpageMetaEnts * maxNuma, ∃ j < pgsize2mb / pgsize4kb,
    smpageMetaLen ≤ j * pgsize4kb ∧
      BitVec.ofNat 64 item = PageMap.smpageToAddr (PageMap.smEntry pageTbl i j)
  apart : ∀ item ∈ s.cache.held, ∀ k' < pgsize4kb, ∀ i < lgpageMetaEnts * maxNuma,
    ∀ k < smpageMetaLen,
    PageMap.lgpageToAddr pageTbl (PageMap.lgEntry pageTbl i) + BitVec.ofNat 64 k ≠
      BitVec.ofNat 64 item + BitVec.ofNat 64 k'

omit [DecidableEq C] in
theorem apart_of_inv (pageTbl : BitVec 64) (h : SmpageInv s) : s.Apart pageTbl := by
  obtain ⟨lc, hc⟩ := h.numa.cache
  have hpages : ∀ item ∈ s.cache.held, ∃ i j, SmallPage item i j := by
    intro item hitem
    obtain ⟨i, j, n, hpage, -⟩ :=
      h.smallPage (SlabCache.mem_live_of_out h.numa (Tcache.mem_out_of_held hc hitem))
    exact ⟨i, j, hpage⟩
  constructor
  · intro item hitem
    obtain ⟨i, j, hpage⟩ := hpages item hitem
    exact ⟨i, hpage.entry, j, hpage.inside, hpage.behind, hpage.ofNat_eq pageTbl⟩
  · intro item hitem k' hk' i' hi' k hk
    obtain ⟨i, j, hpage⟩ := hpages item hitem
    exact hpage.not_metadata pageTbl hi' hk hk'

/-- **Pages and addresses.** The maps between pages and addresses are inverse, and in every run of
the allocator of small pages no call faults and what is handed out is where the maps are right. -/
theorem page_maps (pageTbl : BitVec 64) (debug : Bool) (node : C → Fin maxNuma) (itemCount : ℕ → ℕ)
    (next first second : ℕ → Option ℕ) (es : List (SmpageEvent C))
    (hes : Along (smpageStep debug node) Allowed
      (SlabCache.create itemCount next first second) es) :
    PageMap.Inverse pageTbl ∧
      ∃ s, exec (smpageStep debug node) (SlabCache.create itemCount next first second) es = .ok s ∧
        s.Apart pageTbl := by
  obtain ⟨s, hs, h⟩ := exec_ok (fun s e h he => smpageStep_inv debug node h he)
    (create_inv itemCount next first second) hes
  exact ⟨PageMap.inverse pageTbl, s, hs, apart_of_inv pageTbl h⟩

def cpuNode (c : Bool) : Fin maxNuma := if c then ⟨1, by decide⟩ else ⟨0, by decide⟩

/-- A page of the second node is allocated before the cache is set up, another one through the cache,
and the first is freed by a CPU of the first node. -/
def smpageRun : List (SmpageEvent Bool) :=
  [.alloc false false (cpuNode true) (some (8388608 + lgpageMetaEnts) :: List.replicate 7 none),
    .alloc true true (cpuNode true) (List.replicate 8 none),
    .free false true
      (PageMap.addrToSmpage (BitVec.ofNat 64 ((8388608 + lgpageMetaEnts) * pgsize2mb + smpageMetaLen)))]

theorem page_maps_smpageRun :
    PageMap.Inverse 0x7f0000000000 ∧
      ∃ s, exec (smpageStep true cpuNode)
          (SlabCache.create (fun _ => 0) (fun _ => none) (fun _ => none) (fun _ => none)) smpageRun =
          .ok s ∧ s.Apart 0x7f0000000000 :=
  page_maps _ _ _ _ _ _ _ _ (by decide)

end SmpageSys

end Skyloft
