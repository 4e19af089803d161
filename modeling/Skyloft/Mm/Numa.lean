import Mathlib.Data.List.ReduceOption
import Skyloft.Mm.Slab
import Skyloft.Mm.Tcache

/-!
# Slabs behind caches

The caches of `smalloc` have slabs as their backends.  `slab_tcache_alloc` and `slab_tcache_free`
work on the slab node of the CPU they run on.  Through the pool an item can come from a CPU of one
NUMA node to a CPU of another one.

The first word of an item is `next_item` while it is in a magazine and `next_hdr` while it is
free in its page.  A call of the cache is one step, and so is each call of `slab_node_free` that
gives an item back.

* `SlabCache`, `numaStep` — a cache and its slab.
* `NumaInv` — what the backend has given out is in the cache or on its way back.
* `Home` — pages are changed and linked only by the node they belong to.
* `items_go_home` — this lasts exactly as long as every CPU drains items of its own node.
-/

namespace Skyloft

open Run Chain Ledger

/-! ## The backend -/

namespace SlabSys

variable {N : Type} [DecidableEq N]

/-- The loop of `slab_tcache_alloc`, with the page that `page_alloc_on_node` returns in each turn if
it is asked: the items, and whether the loop has come to its end. -/
def allocItems (g : SlabGeom) (debug : Bool) (n : N) :
    SlabSys N → List (Option ℕ) → Except SlabFault (List ℕ × Bool × SlabSys N)
  | s, [] => .ok ([], true, s)
  | s, fresh :: rest =>
      match s.slabNodeAlloc g debug n fresh with
      | .error f => .error f
      | .ok (none, s) => .ok ([], false, s)
      | .ok (some item, s) =>
          match allocItems g debug n s rest with
          | .error f => .error f
          | .ok (items, done, s) => .ok (item :: items, done, s)

end SlabSys

/-- The magazines of the pool. -/
def Tcache.pooled {I C : Type} (magSize : ℕ) (s : Tcache I C) : List I :=
  match s.drained magSize s.out.card s.sharedMags with
  | .error _ => []
  | .ok mags => mags.flatten

/-- A tcache that `slab_create_tcache` has created, and its slab. -/
structure SlabCache (N C : Type) where
  cache : Tcache ℕ C
  slab : SlabSys N
  /-- the calls of `slab_node_free` that are still to be made -/
  pending : Multiset (N × ℕ)

inductive NumaFault
  | cache (f : TcFault)
  | slab (f : SlabFault)
  deriving DecidableEq

inductive NumaEvent (N C : Type)
  /-- `tcache_alloc`, with the pages that `page_alloc_on_node` returns if the slab asks for them -/
  | alloc (c : C) (pages : List (Option ℕ))
  | free (c : C) (item : ℕ)
  /-- `tcache_reclaim`, up to the calls of `slab_node_free` -/
  | reclaim (c : C)
  /-- one call of `slab_node_free` -/
  | put (n : N) (item : ℕ)
  /-- a caller writes over an item it has -/
  | write (item : ℕ) (first second : Option ℕ)

namespace SlabCache

variable {N C : Type}

def create (itemCount : ℕ → ℕ) (next first second : ℕ → Option ℕ) : SlabCache N C where
  cache := Tcache.create first second
  slab := SlabSys.create itemCount next first
  pending := 0

/-- The cache has changed, and the first words of items with it. -/
def setCache (s : SlabCache N C) (cache : Tcache ℕ C) : SlabCache N C :=
  { s with cache, slab := { s.slab with nextHdr := cache.nextItem } }

/-- The slab has changed, and the first words of items with it. -/
def setSlab (s : SlabCache N C) (slab : SlabSys N) : SlabCache N C :=
  { s with slab, cache := { s.cache with nextItem := slab.nextHdr } }

/-- The calls of `slab_node_free` for a node. -/
def later (s : SlabCache N C) (n : N) (items : List ℕ) : SlabCache N C :=
  { s with pending := ↑(items.map (n, ·)) + s.pending }

variable [DecidableEq N] [DecidableEq C]

/-- `tcache_alloc` with what the backend has answered. -/
def finishAlloc (magSize : ℕ) (s : SlabCache N C) (c : C) (backend : Option (List ℕ)) :
    Except NumaFault (SlabCache N C) :=
  match s.cache.callAlloc magSize c backend with
  | .error f => .error (.cache f)
  | .ok (_, cache) => .ok (s.setCache cache)

/-- `tcache_alloc` with `slab_tcache_alloc` behind it. -/
def alloc (g : SlabGeom) (magSize : ℕ) (debug : Bool) (s : SlabCache N C) (n : N) (c : C)
    (pages : List (Option ℕ)) : Except NumaFault (SlabCache N C) :=
  if s.cache.AsksBackend c then
    match s.slab.allocItems g debug n pages with
    | .error f => .error (.slab f)
    | .ok (items, true, slab) => (s.setSlab slab).finishAlloc magSize c (some items)
    | .ok (items, false, slab) =>
        ((s.setSlab slab).later n items.reverse).finishAlloc magSize c none
  else s.finishAlloc magSize c none

end SlabCache

/-- One step, where the NUMA nodes of the CPUs are given. -/
def numaStep {N C : Type} [DecidableEq N] [Fintype N] [DecidableEq C] (g : SlabGeom) (magSize : ℕ)
    (debug : Bool) (node : C → N) (s : SlabCache N C) :
    NumaEvent N C → Except NumaFault (SlabCache N C)
  | .alloc c pages => s.alloc g magSize debug (node c) c pages
  | .free c item =>
      match s.cache.callFree magSize c item with
      | .error f => .error (.cache f)
      | .ok cache => .ok (s.setCache cache)
  | .reclaim c =>
      match s.cache.callReclaim magSize with
      | .error f => .error (.cache f)
      | .ok (mags, cache) => .ok ((s.setCache cache).later (node c) mags.flatten)
  | .put n item =>
      .ok (if (n, item) ∈ s.pending then
        { s.setSlab (s.slab.slabNodeFree g n item) with pending := s.pending.erase (n, item) } else s)
  | .write item first second => .ok (s.setCache (s.cache.write item first second))

/-! ## What the parts leave alone -/

namespace Tcache

variable {I C : Type} [DecidableEq I] [DecidableEq C] {magSize : ℕ} {s s' : Tcache I C} {c : C}

omit [DecidableEq I] in
theorem nextItem_takeFirst {r : Option I} (h : takeFirst magSize s c = .ok (r, s')) :
    s'.nextItem = s.nextItem := by
  unfold takeFirst at h
  split at h
  · cases h
  · cases h
    rfl

/-- `tcache_alloc` writes only to items that come from the backend. -/
theorem nextItem_tcacheAlloc {backend : Option (List I)} {r : Option I}
    (h : s.tcacheAlloc magSize c backend = .ok (r, s')) {x : I} (hx : x ∉ backend.getD []) :
    s'.nextItem x = s.nextItem x := by
  unfold tcacheAlloc allocSlow at h
  split at h
  · split at h
    · cases h
    · split at h
      · rw [nextItem_takeFirst h]
      · split at h
        · rw [nextItem_takeFirst h]
        · split at h
          · cases h
            rfl
          · rw [nextItem_takeFirst h]
            exact link_of_notMem hx
  · split at h
    · cases h
    · cases h
      rfl

theorem nextItem_callAlloc {backend : Option (List I)} {r : Option I}
    (h : s.callAlloc magSize c backend = .ok (r, s')) {x : I} (hx : x ∉ backend.getD []) :
    s'.nextItem x = s.nextItem x := by
  obtain ⟨u, hu, heq⟩ := map_eq_ok.mp h
  cases heq
  exact nextItem_tcacheAlloc hu hx

/-- `tcache_free` writes only to the item. -/
theorem nextItem_tcacheFree {item : I} (h : s.tcacheFree magSize c item = .ok s') {x : I}
    (hx : x ≠ item) : s'.nextItem x = s.nextItem x := by
  unfold tcacheFree freeSlow at h
  split at h
  · split at h
    · cases h
    · split at h
      · cases h
        exact Function.update_of_ne hx _ _
      · cases h
        exact Function.update_of_ne hx _ _
  · cases h
    exact Function.update_of_ne hx _ _

theorem nextItem_callFree {item : I} (h : s.callFree magSize c item = .ok s') {x : I}
    (hx : x ≠ item) : s'.nextItem x = s.nextItem x := by
  obtain ⟨u, hu, heq⟩ := map_eq_ok.mp h
  cases heq
  exact nextItem_tcacheFree hu hx

variable [Fintype C] {l : Layout I C}

omit [DecidableEq I] [DecidableEq C] in
/-- The words outside the items that the backend has given out do not matter. -/
theorem words_inv (h : TcInv magSize s l) {words : I → Option I}
    (hwords : ∀ x ∈ s.out, words x = s.nextItem x) :
    TcInv magSize { s with nextItem := words } l := by
  refine ⟨?_, ⟨h.sized.load, h.sized.rounds, h.sized.prev, h.sized.pool⟩, h.ledger, h.nodup⟩
  apply h.wired.congr
  · intro x hx
    apply hwords
    rw [← h.ledger]
    exact Multiset.mem_add.mpr (.inl hx)
  · intro x _
    rfl

omit [DecidableEq I] [DecidableEq C] in
theorem mem_out_of_held (h : TcInv magSize s l) {x : I} (hx : x ∈ s.held) : x ∈ s.out := by
  rw [← h.ledger]
  exact Multiset.mem_add.mpr (.inr hx)

end Tcache

namespace SlabSys

variable {N : Type} [DecidableEq N] {g : SlabGeom} {s s' : SlabSys N} {l : SlabLayout}

theorem snode_takeItem {debug : Bool} {n : N} {pg : ℕ} {r : Option ℕ}
    (h : takeItem g debug s n pg = .ok (r, s')) : s'.snode = s.snode ∧ s'.owner = s.owner := by
  unfold takeItem at h
  split at h
  · cases h
    exact ⟨rfl, rfl⟩
  · dsimp only at h
    split at h
    · cases h
    · cases h
      exact ⟨rfl, rfl⟩

theorem snode_refill {debug : Bool} {n : N} {fresh r : Option ℕ}
    (h : refill g debug s n fresh = .ok (r, s')) {pg : ℕ} (hpg : fresh ≠ some pg) :
    s'.snode pg = s.snode pg ∧ s'.owner pg = s.owner pg := by
  cases hpart : (s.node n).partialList with
  | cons p rest =>
      simp only [refill, getPage, hpart] at h
      have ht := snode_takeItem h
      rw [ht.1, ht.2]
      exact ⟨rfl, rfl⟩
  | nil =>
      cases fresh with
      | none =>
          simp only [refill, getPage, hpart] at h
          cases h
          exact ⟨rfl, rfl⟩
      | some p =>
          have hne : pg ≠ p := fun heq => hpg (congrArg some heq.symm)
          simp only [refill, getPage, hpart] at h
          have ht := snode_takeItem h
          rw [ht.1, ht.2]
          exact ⟨Function.update_of_ne hne _ _, Function.update_of_ne hne _ _⟩

/-- `__slab_node_alloc` changes the node of a page only if it gets it from `page_alloc_on_node`. -/
theorem snode_slabNodeAlloc {debug : Bool} {n : N} {fresh r : Option ℕ}
    (h : s.slabNodeAlloc g debug n fresh = .ok (r, s')) {pg : ℕ} (hpg : fresh ≠ some pg) :
    s'.snode pg = s.snode pg ∧ s'.owner pg = s.owner pg := by
  unfold slabNodeAlloc at h
  split at h
  · exact snode_refill h hpg
  · split at h
    · exact snode_refill h hpg
    · have ht := snode_takeItem h
      rw [ht.1, ht.2]
      exact ⟨rfl, rfl⟩

/-- `slab_node_free` does not change the node of a page. -/
theorem snode_slabNodeFree [Fintype N] (n : N) (item : ℕ) :
    (s.slabNodeFree g n item).snode = s.snode := by
  unfold slabNodeFree
  dsimp only
  split
  · rfl
  · split
    · rfl
    · split <;> rfl

/-! ## A magazine from the slab -/

/-- The pages that `page_alloc_on_node` returns are different ones that no node has. -/
def Supply (s : SlabSys N) (pages : List (Option ℕ)) : Prop :=
  pages.reduceOption.Nodup ∧ ∀ pg ∈ pages.reduceOption, s.owner pg = none

instance (s : SlabSys N) (pages : List (Option ℕ)) : Decidable (s.Supply pages) :=
  inferInstanceAs (Decidable (_ ∧ _))

/-- What the loop of `slab_tcache_alloc` gives: items of the node that were not in use. -/
structure Drawn (g : SlabGeom) (s : SlabSys N) (n : N) (items : List ℕ) (s' : SlabSys N) : Prop where
  inv : ∃ l, SlabInv g s' l
  live : s'.live = ↑items + s.live
  nextHdr : s'.nextHdr = s.nextHdr
  home : ∀ x ∈ items, s'.snode (g.pageOf x) = some n
  snode : ∀ x ∈ s.live, s'.snode (g.pageOf x) = s.snode (g.pageOf x)

omit [DecidableEq N] in
theorem Supply.head {fresh : Option ℕ} {rest : List (Option ℕ)} (h : s.Supply (fresh :: rest)) {pg : ℕ}
    (hpg : fresh = some pg) : s.owner pg = none :=
  h.2 pg (List.reduceOption_mem_iff.mpr (by simp [hpg]))

omit [DecidableEq N] in
theorem Supply.ne {fresh : Option ℕ} {rest : List (Option ℕ)} (h : s.Supply (fresh :: rest)) {pg : ℕ}
    (hpg : pg ∈ rest.reduceOption) : fresh ≠ some pg := by
  intro heq
  have hnd := h.1
  rw [heq, List.reduceOption_cons_of_some, List.nodup_cons] at hnd
  exact hnd.1 hpg

omit [DecidableEq N] in
theorem Supply.tail {fresh : Option ℕ} {rest : List (Option ℕ)} (h : s.Supply (fresh :: rest))
    (hown : ∀ pg, fresh ≠ some pg → s'.owner pg = s.owner pg) : s'.Supply rest := by
  constructor
  · refine List.Nodup.sublist ?_ h.1
    cases fresh with
    | none => rw [List.reduceOption_cons_of_none]
    | some p =>
        rw [List.reduceOption_cons_of_some]
        exact List.sublist_cons_self _ _
  · intro pg hpg
    rw [hown pg (h.ne hpg)]
    apply h.2
    rw [List.reduceOption_mem_iff] at hpg ⊢
    exact List.mem_cons_of_mem _ hpg

omit [DecidableEq N] in
/-- The page of an item in use is not a new one. -/
theorem Supply.ne_live {fresh : Option ℕ} {rest : List (Option ℕ)} (h : s.Supply (fresh :: rest))
    (hi : SlabInv g s l) {x : ℕ} (hx : x ∈ s.live) : fresh ≠ some (g.pageOf x) :=
  fun heq => hi.live x hx (h.head heq)

theorem allocItems_inv (hfit : g.Fits) (debug : Bool) (n : N) : ∀ {pages : List (Option ℕ)}
    {s : SlabSys N}, (∃ l, SlabInv g s l) → s.Supply pages →
    ∃ items done s', s.allocItems g debug n pages = .ok (items, done, s') ∧ Drawn g s n items s' ∧
      (done = true → items.length = pages.length) := by
  intro pages
  induction pages with
  | nil =>
      intro s h _
      refine ⟨[], true, s, rfl, ⟨h, ?_, rfl, ?_, fun _ _ => rfl⟩, fun _ => rfl⟩
      · simp
      · simp
  | cons fresh rest ih =>
      intro s hinv hsup
      obtain ⟨l, h⟩ := hinv
      rcases slabNodeAlloc_inv hfit h n debug (fun _ => hsup.head) with ⟨item, u, hu, ht⟩ | ⟨u, hu, ht⟩
      · have hsnode : ∀ pg, fresh ≠ some pg → u.snode pg = s.snode pg ∧ u.owner pg = s.owner pg :=
          fun _ => snode_slabNodeAlloc hu
        obtain ⟨items, done, s', hs', hd, hlen⟩ := ih ht.inv (hsup.tail fun pg hpg => (hsnode pg hpg).2)
        refine ⟨item :: items, done, s', by simp only [allocItems, hu, hs'], ⟨hd.inv, ?_, ?_, ?_, ?_⟩, ?_⟩
        · rw [hd.live, ht.live, Multiset.add_cons, ← Multiset.cons_coe, Multiset.cons_add]
        · rw [hd.nextHdr, ht.nextHdr]
        · intro x hx
          rcases List.mem_cons.mp hx with rfl | hx
          · obtain ⟨l', hi⟩ := ht.inv
            rw [hd.snode x (by simp [ht.live])]
            exact hi.snode _ n ht.owner
          · exact hd.home x hx
        · intro x hx
          rw [hd.snode x (by simp [ht.live, hx])]
          exact (hsnode _ (hsup.ne_live h hx)).1
        · intro hdone
          simp [hlen hdone]
      · refine ⟨[], false, u, by simp only [allocItems, hu], ⟨ht.inv, ?_, ht.nextHdr, ?_, ?_⟩, ?_⟩
        · simpa using ht.live
        · simp
        · intro x hx
          exact (snode_slabNodeAlloc hu (hsup.ne_live h hx)).1
        · simp

end SlabSys

/-! ## The invariant -/

/-- What the slab has given out is in the cache, in use or on its way back, and goes back to the
node of its page. -/
structure NumaInv {N C : Type} [Fintype C] (g : SlabGeom) (magSize : ℕ) (s : SlabCache N C) :
    Prop where
  cache : ∃ l, TcInv magSize s.cache l
  slab : ∃ l, SlabInv g s.slab l
  words : s.slab.nextHdr = s.cache.nextItem
  ledger : s.slab.live = s.cache.out + s.pending.map Prod.snd
  home : ∀ p ∈ s.pending, s.slab.snode (g.pageOf p.2) = some p.1

namespace SlabCache

variable {N C : Type} [DecidableEq N] [DecidableEq C] [Fintype C] {g : SlabGeom} {magSize : ℕ}
  {s : SlabCache N C} {c : C}

omit [DecidableEq N] [DecidableEq C] in
theorem create_inv (g : SlabGeom) (magSize : ℕ) (itemCount : ℕ → ℕ) (next first second : ℕ → Option ℕ) :
    NumaInv g magSize (create itemCount next first second : SlabCache N C) where
  cache := ⟨_, Tcache.create_inv magSize first second⟩
  slab := ⟨_, SlabSys.create_inv g itemCount next first⟩
  words := rfl
  ledger := rfl
  home := by simp [create]

omit [DecidableEq N] [DecidableEq C] in
theorem mem_live_of_out (h : NumaInv g magSize s) {x : ℕ} (hx : x ∈ s.cache.out) : x ∈ s.slab.live := by
  rw [h.ledger]
  exact Multiset.mem_add.mpr (.inl hx)

omit [DecidableEq N] [DecidableEq C] in
theorem mem_live_of_pending (h : NumaInv g magSize s) {p : N × ℕ} (hp : p ∈ s.pending) :
    p.2 ∈ s.slab.live := by
  rw [h.ledger]
  exact Multiset.mem_add.mpr (.inr (Multiset.mem_map_of_mem Prod.snd hp))

omit [DecidableEq N] [DecidableEq C] in
/-- The cache has changed, and has written to items in use. -/
theorem setCache_inv (hfit : g.Fits) {cache : Tcache ℕ C} (hslab : ∃ l, SlabInv g s.slab l)
    (hhome : ∀ p ∈ s.pending, s.slab.snode (g.pageOf p.2) = some p.1)
    (hcache : ∃ l, TcInv magSize cache l)
    (hledger : s.slab.live = cache.out + s.pending.map Prod.snd)
    (hwords : ∀ x, x ∉ s.slab.live → cache.nextItem x = s.slab.nextHdr x) :
    NumaInv g magSize (s.setCache cache) := by
  obtain ⟨l, h⟩ := hslab
  exact ⟨hcache, ⟨l, SlabSys.words_inv hfit h hwords⟩, rfl, hledger, hhome⟩

omit [DecidableEq N] [DecidableEq C] [Fintype C] in
@[simp] theorem setSlab_cache {slab : SlabSys N} (h : slab.nextHdr = s.cache.nextItem) :
    (s.setSlab slab).cache = s.cache := by
  simp [setSlab, h]

section

omit [DecidableEq N] [DecidableEq C] [Fintype C]

theorem cache_later (s : SlabCache N C) (n : N) (items : List ℕ) : (s.later n items).cache = s.cache :=
  rfl

theorem mem_pending_later {n : N} {items : List ℕ} {p : N × ℕ} :
    p ∈ (s.later n items).pending ↔ (p.1 = n ∧ p.2 ∈ items) ∨ p ∈ s.pending := by
  simp only [later, Multiset.mem_add, Multiset.mem_coe, List.mem_map]
  grind

theorem map_pending_later (s : SlabCache N C) (n : N) (items : List ℕ) :
    (s.later n items).pending.map Prod.snd = ↑items + s.pending.map Prod.snd := by
  simp [later]

end

omit [DecidableEq N] in
/-- `tcache_alloc` with the answer of the backend, whose items are in use but not yet in the cache. -/
theorem finishAlloc_inv (hfit : g.Fits) (hpos : 0 < magSize) (backend : Option (List ℕ))
    (hcache : ∃ l, TcInv magSize s.cache l) (hslab : ∃ l, SlabInv g s.slab l)
    (hwords : s.slab.nextHdr = s.cache.nextItem)
    (hledger : s.slab.live = ↑(backend.getD []) + s.cache.out + s.pending.map Prod.snd)
    (hhome : ∀ p ∈ s.pending, s.slab.snode (g.pageOf p.2) = some p.1)
    (hasks : backend ≠ none → s.cache.AsksBackend c)
    (hfresh : ∀ items, backend = some items → s.cache.Fresh magSize items) :
    ∃ s', s.finishAlloc magSize c backend = .ok s' ∧ NumaInv g magSize s' := by
  obtain ⟨l, hc⟩ := hcache
  have hin : ∀ x, x ∉ s.slab.live → x ∉ backend.getD [] := by
    intro x hx hmem
    apply hx
    rw [hledger, add_assoc]
    exact Multiset.mem_add.mpr (.inl hmem)
  rcases Tcache.callAlloc_inv (c := c) hc hpos (fun _ => hfresh) with
    ⟨x, cache, l', hs', hi, hout⟩ | ⟨hs', -, hnone⟩
  · refine ⟨s.setCache cache, by simp only [finishAlloc, hs'], ?_⟩
    apply setCache_inv hfit hslab hhome ⟨l', hi⟩
    · rw [hledger, hout]
      by_cases hb : backend = none
      · simp [hb]
      · rw [if_pos (hasks hb)]
    · intro y hy
      rw [Tcache.nextItem_callAlloc hs' (hin y hy), hwords]
  · refine ⟨s.setCache s.cache, by simp only [finishAlloc, hs'], ?_⟩
    apply setCache_inv hfit hslab hhome ⟨l, hc⟩
    · simpa [hnone] using hledger
    · intro y _
      rw [hwords]

omit [DecidableEq N] [DecidableEq C] in
/-- `slab_tcache_alloc` gives a magazine of items that the cache does not have. -/
theorem fresh_of_drawn (h : NumaInv g magSize s) {n : N} {items : List ℕ} {slab : SlabSys N}
    (hd : SlabSys.Drawn g s.slab n items slab) (hlen : items.length = magSize) :
    s.cache.Fresh magSize items := by
  obtain ⟨l, hi⟩ := hd.inv
  have hnd := SlabSys.live_nodup hi
  rw [hd.live] at hnd
  refine ⟨hlen, ?_, ?_⟩
  · exact Multiset.coe_nodup.mp (Multiset.nodup_add.mp hnd).1
  · intro x hx hout
    exact not_mem_of_nodup hnd (mem_live_of_out h hout) (Multiset.mem_coe.mpr hx)

/-- `tcache_alloc` -/
theorem alloc_inv (hfit : g.Fits) (hpos : 0 < magSize) (debug : Bool) (h : NumaInv g magSize s) (n : N)
    {pages : List (Option ℕ)} (hlen : pages.length = magSize) (hsup : s.slab.Supply pages) :
    ∃ s', s.alloc g magSize debug n c pages = .ok s' ∧ NumaInv g magSize s' := by
  by_cases hasks : s.cache.AsksBackend c
  · obtain ⟨items, done, slab, hs, hd, hdone⟩ := SlabSys.allocItems_inv hfit debug n h.slab hsup
    have hwords : slab.nextHdr = s.cache.nextItem := hd.nextHdr.trans h.words
    have hcache := setSlab_cache (s := s) hwords
    have hhome : ∀ p ∈ s.pending, slab.snode (g.pageOf p.2) = some p.1 := by
      intro p hp
      rw [hd.snode _ (mem_live_of_pending h hp)]
      exact h.home p hp
    cases done with
    | true =>
        have hledger : slab.live = ↑items + s.cache.out + s.pending.map Prod.snd := by
          rw [hd.live, h.ledger, add_assoc]
        obtain ⟨s', hs', hi⟩ := finishAlloc_inv (s := s.setSlab slab) (c := c) hfit hpos
          (some items) (by rw [hcache]; exact h.cache) hd.inv (by rw [hcache]; exact hwords)
          (by rw [hcache]; exact hledger) hhome (fun _ => by rw [hcache]; exact hasks)
          (fun its hits => by
            cases hits
            rw [hcache]
            exact fresh_of_drawn h hd ((hdone rfl).trans hlen))
        exact ⟨s', by simp only [alloc, if_pos hasks, hs, hs'], hi⟩
    | false =>
        -- the items that were taken go back to the node they are from
        have hledger : slab.live =
            s.cache.out + ((s.setSlab slab).later n items.reverse).pending.map Prod.snd := by
          rw [map_pending_later, hd.live, h.ledger, add_left_comm]
          simp [setSlab]
        have hback : ∀ p ∈ ((s.setSlab slab).later n items.reverse).pending,
            slab.snode (g.pageOf p.2) = some p.1 := by
          intro p hp
          rcases mem_pending_later.mp hp with ⟨hn, hmem⟩ | hp
          · rw [hn]
            exact hd.home _ (List.mem_reverse.mp hmem)
          · exact hhome p hp
        obtain ⟨s', hs', hi⟩ := finishAlloc_inv (s := (s.setSlab slab).later n items.reverse) (c := c)
          hfit hpos none (by rw [cache_later, hcache]; exact h.cache) hd.inv
          (by rw [cache_later, hcache]; exact hwords)
          (by rw [cache_later, hcache, Option.getD_none, Multiset.coe_nil, zero_add]; exact hledger) hback (fun hne => absurd rfl hne) (by simp)
        exact ⟨s', by simp only [alloc, if_pos hasks, hs, hs'], hi⟩
  · obtain ⟨s', hs', hi⟩ := finishAlloc_inv (s := s) (c := c) hfit hpos none h.cache
      h.slab h.words (by simpa using h.ledger) h.home (fun hne => absurd rfl hne) (by simp)
    exact ⟨s', by simp only [alloc, if_neg hasks, hs'], hi⟩

/-! The other calls. -/

omit [DecidableEq N] in
theorem free_inv (hfit : g.Fits) (hpos : 0 < magSize) (h : NumaInv g magSize s) {item : ℕ}
    (hitem : item ∈ s.cache.held) :
    ∃ cache, s.cache.callFree magSize c item = .ok cache ∧ NumaInv g magSize (s.setCache cache) := by
  obtain ⟨l, hc⟩ := h.cache
  obtain ⟨cache, l', hs', hi, hout⟩ := Tcache.callFree_inv (c := c) hc hpos hitem
  refine ⟨cache, hs', setCache_inv hfit h.slab h.home ⟨l', hi⟩ ?_ ?_⟩
  · rw [hout]
    exact h.ledger
  · intro x hx
    have hne : x ≠ item := by
      intro heq
      exact hx (mem_live_of_out h (Tcache.mem_out_of_held hc (heq ▸ hitem)))
    rw [Tcache.nextItem_callFree hs' hne, h.words]

omit [DecidableEq N] [DecidableEq C] in
theorem write_inv (hfit : g.Fits) (h : NumaInv g magSize s) {item : ℕ} (hitem : item ∈ s.cache.held)
    (first second : Option ℕ) : NumaInv g magSize (s.setCache (s.cache.write item first second)) := by
  obtain ⟨l, hc⟩ := h.cache
  apply setCache_inv hfit h.slab h.home ⟨l, Tcache.write_inv hc hitem first second⟩ h.ledger
  intro x hx
  have hne : x ≠ item := by
    intro heq
    exact hx (mem_live_of_out h (Tcache.mem_out_of_held hc (heq ▸ hitem)))
  rw [h.words]
  exact Function.update_of_ne hne _ _

omit [DecidableEq N] [DecidableEq C] in
/-- What `tcache_reclaim` drains is what was in the pool. -/
theorem reclaim_ok (hpos : 0 < magSize) (hmax : magSize ≤ maxMagSize) (h : NumaInv g magSize s) :
    ∃ mags cache, s.cache.callReclaim magSize = .ok (mags, cache) ∧
      s.cache.pooled magSize = mags.flatten ∧ (∃ l, TcInv magSize cache l) ∧
      ↑mags.flatten + cache.out = s.cache.out ∧ cache.nextItem = s.cache.nextItem := by
  obtain ⟨l, hc⟩ := h.cache
  have hdrained := Tcache.drained_eq hmax hc.wired.pool hc.sized.pool (Tcache.pool_length_le hc hpos)
  obtain ⟨cache, hs', hi, hout, hwords, -⟩ := Tcache.callReclaim_inv hc hpos hmax
  exact ⟨l.pool, cache, hs', by simp only [Tcache.pooled, hdrained], ⟨_, hi⟩, hout, hwords⟩

omit [DecidableEq N] [DecidableEq C] in
theorem reclaim_inv (hfit : g.Fits) (hpos : 0 < magSize) (hmax : magSize ≤ maxMagSize)
    (h : NumaInv g magSize s) {n : N}
    (hown : ∀ item ∈ s.cache.pooled magSize, s.slab.snode (g.pageOf item) = some n) :
    ∃ mags cache, s.cache.callReclaim magSize = .ok (mags, cache) ∧
      NumaInv g magSize ((s.setCache cache).later n mags.flatten) := by
  obtain ⟨mags, cache, hs', hpool, hi, hout, hwords⟩ := reclaim_ok hpos hmax h
  refine ⟨mags, cache, hs', ?_⟩
  change NumaInv g magSize ((s.later n mags.flatten).setCache cache)
  apply setCache_inv (s := s.later n mags.flatten) hfit h.slab _ hi
  · change s.slab.live = _
    rw [map_pending_later, h.ledger, ← hout, ← add_assoc, add_comm cache.out]
  · intro x _
    rw [hwords]
    exact congrFun h.words.symm x
  · intro p hp
    rcases mem_pending_later.mp hp with ⟨hn, hmem⟩ | hp
    · rw [hn]
      exact hown _ (hpool ▸ hmem)
    · exact h.home p hp

omit [DecidableEq C] in
/-- `slab_node_free` for an item that goes back to the node of its page. -/
theorem put_inv [Fintype N] (hfit : g.Fits) (h : NumaInv g magSize s) {n : N} {item : ℕ}
    (hp : (n, item) ∈ s.pending) :
    NumaInv g magSize
      { s.setSlab (s.slab.slabNodeFree g n item) with pending := s.pending.erase (n, item) } := by
  obtain ⟨l, hi⟩ := h.slab
  have hlive := mem_live_of_pending h hp
  have hr := SlabSys.slabNodeFree_inv hfit hi hlive (SlabSys.owner_of_live hi hlive (h.home _ hp))
  have hpending : s.pending.map Prod.snd = item ::ₘ (s.pending.erase (n, item)).map Prod.snd := by
    conv_lhs => rw [← Multiset.cons_erase hp]
    rw [Multiset.map_cons]
  have hnot : item ∉ s.cache.out := by
    have hnd := SlabSys.live_nodup hi
    rw [h.ledger, hpending] at hnd
    exact not_mem_of_nodup hnd (Multiset.mem_cons_self _ _)
  constructor
  · obtain ⟨lc, hc⟩ := h.cache
    refine ⟨lc, Tcache.words_inv hc ?_⟩
    intro x hx
    rw [hr.nextHdr x (ne_of_mem_of_not_mem hx hnot), h.words]
  · exact hr.inv
  · rfl
  · change (s.slab.slabNodeFree g n item).live = _
    rw [hr.live, h.ledger, hpending, Multiset.add_cons, Multiset.erase_cons_head]
    rfl
  · intro p hmem
    change (s.slab.slabNodeFree g n item).snode _ = _
    rw [SlabSys.snode_slabNodeFree]
    exact h.home p (Multiset.mem_of_mem_erase hmem)

/-! ## Runs -/

/-- The calls that are made: `page_alloc_on_node` returns pages that no node has, and what is freed
or written is the caller's. -/
def Allowed (magSize : ℕ) (s : SlabCache N C) : NumaEvent N C → Prop
  | .alloc _ pages => pages.length = magSize ∧ s.slab.Supply pages
  | .free _ item | .write item _ _ => item ∈ s.cache.held
  | .reclaim _ | .put _ _ => True

/-- A CPU that drains the pool finds only items of its own node there. -/
def DrainsOwn (g : SlabGeom) (magSize : ℕ) (node : C → N) (s : SlabCache N C) : NumaEvent N C → Prop
  | .reclaim c => ∀ item ∈ s.cache.pooled magSize, s.slab.snode (g.pageOf item) = some (node c)
  | .alloc _ _ | .free _ _ | .put _ _ | .write _ _ _ => True

instance (magSize : ℕ) (s : SlabCache N C) : (e : NumaEvent N C) → Decidable (s.Allowed magSize e)
  | .alloc _ pages => inferInstanceAs (Decidable (pages.length = magSize ∧ s.slab.Supply pages))
  | .free _ item | .write item _ _ => inferInstanceAs (Decidable (item ∈ s.cache.held))
  | .reclaim _ | .put _ _ => inferInstanceAs (Decidable True)

instance (g : SlabGeom) (magSize : ℕ) (node : C → N) (s : SlabCache N C) :
    (e : NumaEvent N C) → Decidable (s.DrainsOwn g magSize node e)
  | .reclaim c => inferInstanceAs (Decidable
      (∀ item ∈ s.cache.pooled magSize, s.slab.snode (g.pageOf item) = some (node c)))
  | .alloc _ _ | .free _ _ | .put _ _ | .write _ _ _ => inferInstanceAs (Decidable True)

/-- Pages are changed under the lock of the node they belong to, and are in no lists but those of
that node; and so it will be with the items that are on their way back. -/
structure Home (g : SlabGeom) (s : SlabCache N C) : Prop where
  stray : s.slab.stray = false
  lists : ∀ n pg, (s.slab.node n).curPg = some pg ∨ pg ∈ (s.slab.node n).fullList ∨
    pg ∈ (s.slab.node n).partialList → s.slab.snode pg = some n
  pending : ∀ p ∈ s.pending, s.slab.snode (g.pageOf p.2) = some p.1

omit [DecidableEq N] [DecidableEq C] in
theorem home_of_inv (h : NumaInv g magSize s) : Home g s := by
  obtain ⟨l, hi⟩ := h.slab
  constructor
  · exact hi.stray
  · intro n pg hpg
    exact hi.snode pg n ((hi.pages pg n).mpr hpg)
  · exact h.home

variable [Fintype N]

theorem numaStep_inv (hfit : g.Fits) (hpos : 0 < magSize) (hmax : magSize ≤ maxMagSize) (debug : Bool)
    {node : C → N} (h : NumaInv g magSize s) {e : NumaEvent N C} (he : s.Allowed magSize e)
    (hown : s.DrainsOwn g magSize node e) :
    ∃ s', numaStep g magSize debug node s e = .ok s' ∧ NumaInv g magSize s' := by
  cases e with
  | alloc c pages => exact alloc_inv hfit hpos debug h (node c) he.1 he.2
  | free c item =>
      obtain ⟨cache, hs', hi⟩ := free_inv (c := c) hfit hpos h he
      exact ⟨_, by simp only [numaStep, hs'], hi⟩
  | reclaim c =>
      obtain ⟨mags, cache, hs', hi⟩ := reclaim_inv hfit hpos hmax h hown
      exact ⟨_, by simp only [numaStep, hs'], hi⟩
  | put n item =>
      refine ⟨_, rfl, ?_⟩
      split
      · rename_i hp
        exact put_inv hfit h hp
      · exact h
  | write item first second => exact ⟨_, rfl, write_inv hfit h he first second⟩

/-- A CPU that drains an item of another node sends it to the wrong one. -/
theorem drain_astray (hpos : 0 < magSize) (hmax : magSize ≤ maxMagSize) (debug : Bool) {node : C → N}
    (h : NumaInv g magSize s) {e : NumaEvent N C} (hown : ¬ s.DrainsOwn g magSize node e) :
    ∃ s', numaStep g magSize debug node s e = .ok s' ∧ ¬ Home g s' := by
  cases e with
  | reclaim c =>
      obtain ⟨mags, cache, hs', hpool, -⟩ := reclaim_ok hpos hmax h
      refine ⟨(s.setCache cache).later (node c) mags.flatten, by simp only [numaStep, hs'], ?_⟩
      intro hhome
      apply hown
      intro item hitem
      exact hhome.pending (node c, item) (mem_pending_later.mpr (.inl ⟨rfl, hpool ▸ hitem⟩))
  | alloc c pages => exact absurd trivial hown
  | free c item => exact absurd trivial hown
  | put n item => exact absurd trivial hown
  | write item first second => exact absurd trivial hown

/-- Slab items go home in a run exactly if no CPU drains an item of another node. -/
theorem items_go_home (hfit : g.Fits) (hpos : 0 < magSize) (hmax : magSize ≤ maxMagSize) (debug : Bool)
    (node : C → N) (itemCount : ℕ → ℕ) (next first second : ℕ → Option ℕ) (es : List (NumaEvent N C))
    (hes : Along (numaStep g magSize debug node) (Allowed magSize)
      (create itemCount next first second) es) :
    Throughout (numaStep g magSize debug node) (Home g) (create itemCount next first second) es ↔
      Along (numaStep g magSize debug node) (DrainsOwn g magSize node)
        (create itemCount next first second) es := by
  have hstart := create_inv (N := N) (C := C) g magSize itemCount next first second
  apply throughout_iff_along (I := NumaInv g magSize) _ _ hstart (home_of_inv hstart) hes
  · intro s e s' h _ he hown hs'
    obtain ⟨u, hu, hi⟩ := numaStep_inv hfit hpos hmax debug h he hown
    cases hu.symm.trans hs'
    exact ⟨hi, home_of_inv hi⟩
  · intro s e h _ _ hown
    exact drain_astray hpos hmax debug h hown

/-- Nothing is allocated yet; there are two nodes, with one CPU each. -/
def blank : SlabCache Bool Bool :=
  create (fun _ => 0) (fun _ => none) (fun _ => none) (fun _ => none)

/-- Seventeen items are taken by one CPU and freed by that CPU or the other one, which brings the
first eight of them, a whole page, into the pool; then the pool is drained. -/
def migration (c : Bool) : List (NumaEvent Bool Bool) :=
  (List.range 17).map (fun i => .alloc true
      ((if i % 8 = 0 then some (10 + i / 8) else none) :: List.replicate 7 none)) ++
    (List.range 17).map (fun i => .free c (SlabSys.slabGeom512.slot (10 + i / 8) (i % 8))) ++
    [.reclaim c] ++
    (List.range 4).map (fun i => .put c (SlabSys.slabGeom512.slot 10 i))

/-- The CPU frees its own items. -/
theorem items_go_home_migration :
    Along (numaStep SlabSys.slabGeom512 8 true id) (DrainsOwn SlabSys.slabGeom512 8 id) blank
      (migration true) ∧
    Throughout (numaStep SlabSys.slabGeom512 8 true id) (Home SlabSys.slabGeom512) blank
      (migration true) :=
  have hown : Along (numaStep SlabSys.slabGeom512 8 true id) (DrainsOwn SlabSys.slabGeom512 8 id) blank
      (migration true) := by
    decide +kernel
  ⟨hown, (items_go_home (by decide) (by decide) (by decide) _ _ _ _ _ _ _ (by decide +kernel)).mpr
    hown⟩

/-- The other CPU drains the items: the fourth one brings their page into the list of its own
node. -/
theorem page_in_foreign_list :
    Along (numaStep SlabSys.slabGeom512 8 true id) (Allowed 8) blank (migration false) ∧
    ∃ s, exec (numaStep SlabSys.slabGeom512 8 true id) blank (migration false) = .ok s ∧
      s.slab.snode 10 = some true ∧ 10 ∈ (s.slab.node false).partialList ∧ s.slab.stray = true ∧
      ¬ Home SlabSys.slabGeom512 s := by
  have hstray : (final (numaStep SlabSys.slabGeom512 8 true id) blank (migration false)).slab.stray =
      true := by
    decide +kernel
  refine ⟨by decide +kernel, final (numaStep SlabSys.slabGeom512 8 true id) blank (migration false),
    exec_final (by decide +kernel), by decide +kernel, by decide +kernel, hstray, ?_⟩
  intro hhome
  rw [hhome.stray] at hstray
  cases hstray

end SlabCache

end Skyloft
