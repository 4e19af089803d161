import Mathlib.Data.Fintype.Basic
import Mathlib.Data.Multiset.Filter
import Mathlib.Data.Multiset.Range
import Skyloft.Lib.Chain
import Skyloft.Lib.Ledger
import Skyloft.Lib.Run

/-!
# Slabs

A slab cuts pages into items of one size.  It has a node for each NUMA node, with pages of that
NUMA node: the current page, from which items are taken, the pages that have few free items and
those that have many.  The free items of a page are linked through their first word; the
current page may have a rest that was never cut, from `pg_off` on.

Pages have numbers, and an item is an address: the page of an item is found by its address.
`page_alloc_on_node` returns a page that it owns, or fails.  Each function runs under the lock
of the node it is given.

* `SlabGeom` — the item size and the number of items of a page, as `slab_create` computes them.
* `SlabSys`, `slabNodeAlloc`, `slabNodeFree` — the nodes, their pages and the functions.
* `SlabInv` — which items of a page are free, and in which list it is.
* `slab_exact` — the invariant holds in every run, if the items fit into a page.
-/

namespace Skyloft

open Run Chain Ledger

/-! ## The slab -/

/-- `SLAB_PARTIAL_THRESH`, half of `SLAB_CHUNK_SIZE` -/
def partialThresh : ℕ := 4

/-- The numbers that `__slab_create_node` is given, with the page size of the flags. -/
structure SlabGeom where
  size : ℕ
  offset : ℕ
  nrElems : ℕ
  pgsize : ℕ
  size_pos : 0 < size
  pgsize_pos : 0 < pgsize
  chunk : 2 * partialThresh ≤ nrElems

namespace SlabGeom

/-- The items fit into a page. -/
def Fits (g : SlabGeom) : Prop := g.offset + g.nrElems * g.size ≤ g.pgsize

instance (g : SlabGeom) : Decidable g.Fits := inferInstanceAs (Decidable (_ ≤ _))

/-- `addr_to_smpage` and `addr_to_lgpage` -/
def pageOf (g : SlabGeom) (item : ℕ) : ℕ := item / g.pgsize

/-- The address of the item number `j` of a page. -/
def slot (g : SlabGeom) (pg j : ℕ) : ℕ := pg * g.pgsize + (g.offset + j * g.size)

end SlabGeom

/-- `struct slab_node`, without what `SlabGeom` has -/
structure SlabNode where
  pgOff : ℕ
  curPg : Option ℕ
  fullList : List ℕ
  partialList : List ℕ
  nrPages : ℤ

/-- The nodes, the pages and the items. -/
structure SlabSys (N : Type) where
  node : N → SlabNode
  /-- the fields of `struct page` -/
  next : ℕ → Option ℕ
  itemCount : ℕ → ℕ
  snode : ℕ → Option N
  /-- the word in a free item -/
  nextHdr : ℕ → Option ℕ
  /-- the items that are in use -/
  live : Multiset ℕ
  /-- the node that has a page from `page_alloc_on_node` and has not put it -/
  owner : ℕ → Option N
  /-- a page was unlinked that is in no list -/
  corrupt : Bool
  /-- a page was changed under the lock of a node that is not its `snode` -/
  stray : Bool

inductive SlabFault
  /-- the assertion on `n->pg_off` -/
  | pgOff
  deriving DecidableEq

namespace SlabSys

variable {N : Type} [DecidableEq N]

/-- `__slab_create_node` for all nodes; the pages are not initialised. -/
def create (itemCount : ℕ → ℕ) (next nextHdr : ℕ → Option ℕ) : SlabSys N where
  node _ := { pgOff := 0, curPg := none, fullList := [], partialList := [], nrPages := 0 }
  next := next
  itemCount := itemCount
  snode _ := none
  nextHdr := nextHdr
  live := 0
  owner _ := none
  corrupt := false
  stray := false

def setNode (s : SlabSys N) (n : N) (nd : SlabNode) : SlabSys N :=
  { s with node := Function.update s.node n nd }

/-- `__slab_node_get_page`; the page that `page_alloc_on_node` returns if it is asked. -/
def getPage (g : SlabGeom) (s : SlabSys N) (n : N) (fresh : Option ℕ) : Option ℕ × SlabSys N :=
  match (s.node n).partialList with
  | pg :: rest => (some pg, s.setNode n { s.node n with partialList := rest })
  | [] =>
      match fresh with
      | none => (none, s)
      | some pg =>
          (some pg,
            { s.setNode n { s.node n with pgOff := g.offset } with
              snode := Function.update s.snode pg (some n)
              itemCount := Function.update s.itemCount pg g.nrElems
              next := Function.update s.next pg none
              owner := Function.update s.owner pg (some n) })

/-- The end of `__slab_node_alloc`: an item of the current page. -/
def takeItem (g : SlabGeom) (debug : Bool) (s : SlabSys N) (n : N) (pg : ℕ) :
    Except SlabFault (Option ℕ × SlabSys N) :=
  match s.next pg with
  | some hdr =>
      .ok (some hdr,
        { s with
          next := Function.update s.next pg (s.nextHdr hdr)
          itemCount := Function.update s.itemCount pg (s.itemCount pg - 1)
          live := hdr ::ₘ s.live })
  | none =>
      let off := (s.node n).pgOff
      if debug ∧ g.pgsize ≤ off then .error .pgOff
      else
        let hdr := pg * g.pgsize + off
        .ok (some hdr,
          { s.setNode n { s.node n with pgOff := off + g.size } with
            itemCount := Function.update s.itemCount pg (s.itemCount pg - 1)
            live := hdr ::ₘ s.live })

/-- The middle of `__slab_node_alloc`: another page becomes the current one. -/
def refill (g : SlabGeom) (debug : Bool) (s : SlabSys N) (n : N) (fresh : Option ℕ) :
    Except SlabFault (Option ℕ × SlabSys N) :=
  let r := getPage g s n fresh
  let s := r.2.setNode n { r.2.node n with curPg := r.1 }
  match r.1 with
  | none => .ok (none, s)
  | some pg =>
      takeItem g debug (s.setNode n { s.node n with nrPages := (s.node n).nrPages + 1 }) n pg

/-- `__slab_node_alloc`; assertions are compiled in when `debug` is set. -/
def slabNodeAlloc (g : SlabGeom) (debug : Bool) (s : SlabSys N) (n : N) (fresh : Option ℕ) :
    Except SlabFault (Option ℕ × SlabSys N) :=
  match (s.node n).curPg with
  | none => refill g debug s n fresh
  | some pg =>
      if s.itemCount pg = 0 then
        refill g debug (s.setNode n { s.node n with fullList := pg :: (s.node n).fullList }) n fresh
      else takeItem g debug s n pg

/-- `list_del(&pg->link)` -/
def unlink [Fintype N] (s : SlabSys N) (pg : ℕ) : SlabSys N :=
  { s with
    node := fun n =>
      { s.node n with
        fullList := (s.node n).fullList.erase pg
        partialList := (s.node n).partialList.erase pg }
    corrupt := s.corrupt ||
      !decide (∃ n, pg ∈ (s.node n).fullList ∨ pg ∈ (s.node n).partialList) }

/-- The item is put on the list of its page. -/
def pushItem (g : SlabGeom) (s : SlabSys N) (n : N) (item : ℕ) : SlabSys N :=
  let pg := g.pageOf item
  { s with
    nextHdr := Function.update s.nextHdr item (s.next pg)
    next := Function.update s.next pg (some item)
    itemCount := Function.update s.itemCount pg (s.itemCount pg + 1)
    live := s.live.erase item
    stray := s.stray || decide (s.snode pg ≠ some n) }

/-- The critical section of `slab_node_free`.  A page that it unlinks without putting it on another
list is put after the unlock; `nr_pages--` comes after that, without the lock. -/
def slabNodeFree [Fintype N] (g : SlabGeom) (s : SlabSys N) (n : N) (item : ℕ) : SlabSys N :=
  let pg := g.pageOf item
  let s := pushItem g s n item
  if (s.node n).curPg = some pg then s
  else if s.itemCount pg = partialThresh then
    let s := s.unlink pg
    s.setNode n { s.node n with partialList := pg :: (s.node n).partialList }
  else if s.itemCount pg = g.nrElems then
    { s.unlink pg with owner := Function.update s.owner pg none }
  else s

end SlabSys

inductive SlabEvent (N : Type)
  /-- `__slab_node_alloc`, with the page that `page_alloc_on_node` returns if it is asked -/
  | alloc (n : N) (fresh : Option ℕ)
  | free (n : N) (item : ℕ)
  /-- a caller writes over an item it has -/
  | write (item : ℕ) (word : Option ℕ)

/-- One critical section. -/
def slabStep {N : Type} [DecidableEq N] [Fintype N] (g : SlabGeom) (debug : Bool)
    (s : SlabSys N) : SlabEvent N → Except SlabFault (SlabSys N)
  | .alloc n fresh => (s.slabNodeAlloc g debug n fresh).map Prod.snd
  | .free n item => .ok (s.slabNodeFree g n item)
  | .write item word => .ok { s with nextHdr := Function.update s.nextHdr item word }

/-! ## Where the items are -/

/-- The first `k` items of a page. -/
def slots (g : SlabGeom) (pg k : ℕ) : Multiset ℕ := (Multiset.range k).map (g.slot pg)

section

variable {g : SlabGeom}

theorem slots_succ (g : SlabGeom) (pg k : ℕ) : slots g pg (k + 1) = g.slot pg k ::ₘ slots g pg k := by
  simp [slots, Multiset.range_succ]

theorem card_slots (g : SlabGeom) (pg k : ℕ) : (slots g pg k).card = k := by simp [slots]

theorem nodup_slots (g : SlabGeom) (pg k : ℕ) : (slots g pg k).Nodup := by
  apply Multiset.Nodup.map _ (Multiset.nodup_range k)
  intro i j hij
  simp only [SlabGeom.slot] at hij
  exact Nat.eq_of_mul_eq_mul_right g.size_pos (by omega)

theorem slotOff_lt (hfit : g.Fits) {j : ℕ} (hj : j < g.nrElems) :
    g.offset + j * g.size < g.pgsize := by
  have hmul : (j + 1) * g.size ≤ g.nrElems * g.size := Nat.mul_le_mul_right _ hj
  have hpos := g.size_pos
  rw [Nat.add_mul, Nat.one_mul] at hmul
  have hfit' := hfit
  simp only [SlabGeom.Fits] at hfit'
  omega

/-- An item that fits into its page is found there. -/
theorem pageOf_slot (hfit : g.Fits) {pg j : ℕ} (hj : j < g.nrElems) : g.pageOf (g.slot pg j) = pg := by
  have hlt := slotOff_lt hfit hj
  rw [SlabGeom.pageOf, SlabGeom.slot, Nat.mul_comm, Nat.mul_add_div g.pgsize_pos,
    Nat.div_eq_of_lt hlt, Nat.add_zero]

end

section

variable {g : SlabGeom} {item pg : ℕ}

theorem filter_cons_pageOf (hpage : g.pageOf item = pg) (t : Multiset ℕ) :
    (item ::ₘ t).filter (g.pageOf · = pg) = item ::ₘ t.filter (g.pageOf · = pg) :=
  Multiset.filter_cons_of_pos t hpage

theorem filter_cons_pageOf_of_ne (hpage : g.pageOf item ≠ pg) (t : Multiset ℕ) :
    (item ::ₘ t).filter (g.pageOf · = pg) = t.filter (g.pageOf · = pg) :=
  Multiset.filter_cons_of_neg t hpage

end

/-- The free items of each page, and how many of its items were cut. -/
structure SlabLayout where
  free : ℕ → List ℕ
  carved : ℕ → ℕ

/-- The pages of a node and their items. -/
structure SlabInv {N : Type} (g : SlabGeom) (s : SlabSys N) (l : SlabLayout) : Prop where
  snode : ∀ pg n, s.owner pg = some n → s.snode pg = some n
  linked : ∀ pg n, s.owner pg = some n → Linked s.nextHdr (s.next pg) (l.free pg)
  /-- an item that was cut is free or in use -/
  items : ∀ pg n, s.owner pg = some n →
    slots g pg (l.carved pg) = ↑(l.free pg) + s.live.filter (g.pageOf · = pg)
  count : ∀ pg n, s.owner pg = some n →
    s.itemCount pg = (l.free pg).length + (g.nrElems - l.carved pg)
  carved_le : ∀ pg n, s.owner pg = some n → l.carved pg ≤ g.nrElems
  /-- only the current page has a rest, and `pg_off` is where it starts -/
  carved : ∀ pg n, s.owner pg = some n → (s.node n).curPg ≠ some pg → l.carved pg = g.nrElems
  pgOff : ∀ pg n, (s.node n).curPg = some pg →
    l.carved pg = g.nrElems ∨ (s.node n).pgOff = g.offset + l.carved pg * g.size
  pages : ∀ pg n, s.owner pg = some n ↔
    (s.node n).curPg = some pg ∨ pg ∈ (s.node n).fullList ∨ pg ∈ (s.node n).partialList
  nodup : ∀ n, ((s.node n).curPg.toList ++ (s.node n).fullList ++ (s.node n).partialList).Nodup
  few : ∀ pg n, pg ∈ (s.node n).fullList → s.itemCount pg < partialThresh
  many : ∀ pg n, pg ∈ (s.node n).partialList → partialThresh ≤ s.itemCount pg
  live : ∀ item ∈ s.live, s.owner (g.pageOf item) ≠ none
  corrupt : s.corrupt = false
  stray : s.stray = false

namespace SlabSys

variable {N : Type} [DecidableEq N] {g : SlabGeom} {s : SlabSys N} {l : SlabLayout}

omit [DecidableEq N] in
theorem create_inv (g : SlabGeom) (itemCount : ℕ → ℕ) (next nextHdr : ℕ → Option ℕ) :
    SlabInv g (create itemCount next nextHdr : SlabSys N)
      { free := fun _ => [], carved := fun _ => 0 } := by
  constructor <;> simp [create]

@[simp, grind =] theorem node_setNode (s : SlabSys N) (n m : N) (nd : SlabNode) :
    (s.setNode n nd).node m = if m = n then nd else s.node m :=
  Function.update_apply s.node n nd m

@[simp] theorem setNode_setNode (s : SlabSys N) (n : N) (nd nd' : SlabNode) :
    (s.setNode n nd).setNode n nd' = s.setNode n nd' := by
  simp [setNode]

/-- The lists of one node change. -/
theorem relist (h : SlabInv g s l) {n : N} {nd : SlabNode}
    (hpages : ∀ pg, s.owner pg = some n ↔
      nd.curPg = some pg ∨ pg ∈ nd.fullList ∨ pg ∈ nd.partialList)
    (hcarved : ∀ pg, s.owner pg = some n → nd.curPg ≠ some pg → l.carved pg = g.nrElems)
    (hoff : ∀ pg, nd.curPg = some pg →
      l.carved pg = g.nrElems ∨ nd.pgOff = g.offset + l.carved pg * g.size)
    (hnodup : (nd.curPg.toList ++ nd.fullList ++ nd.partialList).Nodup)
    (hfew : ∀ pg, pg ∈ nd.fullList → s.itemCount pg < partialThresh)
    (hmany : ∀ pg, pg ∈ nd.partialList → partialThresh ≤ s.itemCount pg) :
    SlabInv g (s.setNode n nd) l := by
  refine ⟨h.snode, h.linked, h.items, h.count, h.carved_le, ?_, ?_, ?_, ?_, ?_, ?_, h.live, h.corrupt,
    h.stray⟩
  · intro pg m
    by_cases hm : m = n
    · simpa [setNode, hm] using hcarved pg
    · simpa [setNode, hm] using h.carved pg m
  · intro pg m
    by_cases hm : m = n
    · simpa [hm] using hoff pg
    · simpa [hm] using h.pgOff pg m
  · intro pg m
    by_cases hm : m = n
    · simpa [setNode, hm] using hpages pg
    · simpa [setNode, hm] using h.pages pg m
  · intro m
    by_cases hm : m = n
    · simpa [hm] using hnodup
    · simpa [hm] using h.nodup m
  · intro pg m
    by_cases hm : m = n
    · simpa [setNode, hm] using hfew pg
    · simpa [setNode, hm] using h.few pg m
  · intro pg m
    by_cases hm : m = n
    · simpa [setNode, hm] using hmany pg
    · simpa [setNode, hm] using h.many pg m

/-! ## Taking an item -/

omit [DecidableEq N] in
/-- A page without free items was cut to its end. -/
theorem carved_of_count (h : SlabInv g s l) {n : N} {pg : ℕ} (howner : s.owner pg = some n)
    (hcount : s.itemCount pg = 0) : l.carved pg = g.nrElems := by
  have hc := h.count pg n howner
  have hle := h.carved_le pg n howner
  omega

/-- An exhausted page leaves for the pages with few free items. -/
theorem retire_inv (h : SlabInv g s l) {n : N} {pg : ℕ} (hcur : (s.node n).curPg = some pg)
    (hcount : s.itemCount pg = 0) :
    SlabInv g (s.setNode n
      { s.node n with curPg := none, fullList := pg :: (s.node n).fullList }) l := by
  have howner := (h.pages pg n).mpr (.inl hcur)
  have hall := carved_of_count h howner hcount
  have hnd := h.nodup n
  rw [hcur] at hnd
  apply relist h
  · intro p
    have hp := h.pages p n
    simp only [hcur] at hp
    grind
  · intro p hp _
    have hcarved := h.carved p n hp
    grind
  · intro p hp
    cases hp
  · simpa using hnd
  · intro p hp
    rcases List.mem_cons.mp hp with rfl | hp
    · rw [hcount]
      decide
    · exact h.few p n hp
  · exact fun p => h.many p n

/-- A page with many free items becomes the current one. -/
theorem adopt_inv (h : SlabInv g s l) {n : N} {pg : ℕ} {rest : List ℕ}
    (hcur : (s.node n).curPg = none) (hpart : (s.node n).partialList = pg :: rest) :
    SlabInv g (s.setNode n { s.node n with curPg := some pg, partialList := rest }) l := by
  have howner := (h.pages pg n).mpr (.inr (.inr (by simp [hpart])))
  have hall : ∀ p, s.owner p = some n → l.carved p = g.nrElems := by
    intro p hp
    exact h.carved p n hp (by simp [hcur])
  have hnd := h.nodup n
  rw [hcur, hpart] at hnd
  apply relist h
  · intro p
    have hp := h.pages p n
    simp only [hcur, hpart] at hp
    grind
  · exact fun p hp _ => hall p hp
  · intro p hp
    cases hp
    exact .inl (hall pg howner)
  · simp only [Option.toList_none, List.nil_append] at hnd
    simpa using List.nodup_middle.mp hnd
  · exact fun p => h.few p n
  · intro p hp
    exact h.many p n (by rw [hpart]; exact List.mem_cons_of_mem pg hp)

/-- A new page becomes the current one. -/
theorem fresh_inv (h : SlabInv g s l) {n : N} {pg : ℕ} (hcur : (s.node n).curPg = none)
    (howner : s.owner pg = none) :
    SlabInv g
      { s.setNode n { s.node n with curPg := some pg, pgOff := g.offset } with
        snode := Function.update s.snode pg (some n)
        itemCount := Function.update s.itemCount pg g.nrElems
        next := Function.update s.next pg none
        owner := Function.update s.owner pg (some n) }
      { free := Function.update l.free pg [], carved := Function.update l.carved pg 0 } := by
  have hfilter : s.live.filter (g.pageOf · = pg) = 0 := by
    apply Multiset.filter_eq_nil.mpr
    intro item hitem hpg
    have hlive := h.live item hitem
    rw [hpg] at hlive
    exact hlive howner
  have hnot : ∀ m, pg ∉ (s.node m).fullList ∧ pg ∉ (s.node m).partialList ∧
      (s.node m).curPg ≠ some pg := by
    intro m
    have hp := h.pages pg m
    simp only [howner] at hp
    grind
  constructor
  · intro p m hp
    have hold := h.snode p m
    simp only [Function.update_apply] at hp ⊢
    grind
  · intro p m hp
    have hold := h.linked p m
    simp only [Function.update_apply] at hp ⊢
    by_cases hpg : p = pg
    · simp [hpg]
    · simpa [hpg, setNode] using hold (by simpa [hpg] using hp)
  · intro p m hp
    have hold := h.items p m
    simp only [Function.update_apply] at hp ⊢
    by_cases hpg : p = pg
    · subst hpg
      simp [slots, setNode, hfilter]
    · simpa [hpg, setNode] using hold (by simpa [hpg] using hp)
  · intro p m hp
    have hold := h.count p m
    simp only [Function.update_apply] at hp ⊢
    by_cases hpg : p = pg
    · simp [hpg]
    · simpa [hpg] using hold (by simpa [hpg] using hp)
  · intro p m hp
    have hold := h.carved_le p m
    simp only [Function.update_apply] at hp ⊢
    grind
  · intro p m hp hne
    have hold := h.carved p m
    simp only [Function.update_apply, setNode] at hp hne ⊢
    grind
  · intro p m hp
    have hold := h.pgOff p m
    simp only [Function.update_apply, setNode] at hp ⊢
    grind
  · intro p m
    have hold := h.pages p m
    simp only [Function.update_apply, setNode]
    grind
  · intro m
    by_cases hm : m = n
    · subst hm
      have hnd := h.nodup m
      rw [hcur] at hnd
      simpa [setNode, (hnot m).1, (hnot m).2.1] using hnd
    · simpa [setNode, hm] using h.nodup m
  · intro p m hp
    have hold := h.few p m
    simp only [Function.update_apply, setNode] at hp ⊢
    grind
  · intro p m hp
    have hold := h.many p m
    simp only [Function.update_apply, setNode] at hp ⊢
    grind
  · intro item hitem
    have hold := h.live item hitem
    simp only [Function.update_apply]
    grind
  · exact h.corrupt
  · exact h.stray

omit [DecidableEq N] in
/-- The current page is in no list. -/
theorem cur_not_listed (h : SlabInv g s l) {n : N} {pg : ℕ} (hcur : (s.node n).curPg = some pg)
    (m : N) : pg ∉ (s.node m).fullList ∧ pg ∉ (s.node m).partialList := by
  have howner := (h.pages pg n).mpr (.inl hcur)
  have hnd := h.nodup n
  simp only [hcur, Option.toList_some, List.cons_append, List.nil_append, List.nodup_cons,
    List.mem_append, not_or] at hnd
  have hsame : ∀ {q : Prop}, (q → s.owner pg = some m) → (q → m = n) := by
    intro q hq hqq
    have hm := hq hqq
    rw [howner] at hm
    exact (Option.some.inj hm).symm
  constructor
  · intro hin
    have hm := hsame (fun hin => (h.pages pg m).mpr (.inr (.inl hin))) hin
    subst hm
    exact hnd.1.1 hin
  · intro hin
    have hm := hsame (fun hin => (h.pages pg m).mpr (.inr (.inr hin))) hin
    subst hm
    exact hnd.1.2 hin

omit [DecidableEq N] in
theorem pageOf_of_mem_slots (hfit : g.Fits) {pg k item : ℕ} (hk : k ≤ g.nrElems)
    (hitem : item ∈ slots g pg k) : g.pageOf item = pg := by
  obtain ⟨j, hj, rfl⟩ := Multiset.mem_map.mp hitem
  exact pageOf_slot hfit (lt_of_lt_of_le (Multiset.mem_range.mp hj) hk)

/-- An item of the current page is taken: the rest of its free items, and where it is cut next. -/
theorem take_inv (h : SlabInv g s l) {n : N} {pg item : ℕ} (hcur : (s.node n).curPg = some pg)
    (hpage : g.pageOf item = pg) {rest : List ℕ} {head : Option ℕ} {k off : ℕ}
    (hlinked : Linked s.nextHdr head rest)
    (hitems : slots g pg k = ↑rest + item ::ₘ s.live.filter (g.pageOf · = pg))
    (hcount : s.itemCount pg - 1 = rest.length + (g.nrElems - k)) (hk : k ≤ g.nrElems)
    (hoff : k = g.nrElems ∨ off = g.offset + k * g.size) :
    SlabInv g
      { s.setNode n { s.node n with pgOff := off } with
        next := Function.update s.next pg head
        itemCount := Function.update s.itemCount pg (s.itemCount pg - 1)
        live := item ::ₘ s.live }
      { free := Function.update l.free pg rest, carved := Function.update l.carved pg k } := by
  have howner := (h.pages pg n).mpr (.inl hcur)
  have hlists := cur_not_listed h hcur
  have hcurPg : ∀ m, ((s.setNode n { s.node n with pgOff := off }).node m).curPg =
      (s.node m).curPg := by
    grind
  have hfull : ∀ m, ((s.setNode n { s.node n with pgOff := off }).node m).fullList =
      (s.node m).fullList := by
    grind
  have hpart : ∀ m, ((s.setNode n { s.node n with pgOff := off }).node m).partialList =
      (s.node m).partialList := by
    grind
  constructor
  · exact h.snode
  · intro p m hp
    by_cases hpg : p = pg
    · subst hpg
      simpa [setNode] using hlinked
    · simpa [hpg, setNode] using h.linked p m hp
  · intro p m hp
    by_cases hpg : p = pg
    · subst hpg
      simpa [filter_cons_pageOf hpage] using hitems
    · have hne : g.pageOf item ≠ p := fun heq => hpg (heq.symm.trans hpage)
      simpa [hpg, filter_cons_pageOf_of_ne hne] using h.items p m hp
  · intro p m hp
    by_cases hpg : p = pg
    · subst hpg
      simpa using hcount
    · simpa [hpg] using h.count p m hp
  · intro p m hp
    by_cases hpg : p = pg
    · subst hpg
      simpa using hk
    · simpa [hpg] using h.carved_le p m hp
  · intro p m hp hne
    rw [hcurPg] at hne
    have hpg : p ≠ pg := by
      intro heq
      subst heq
      have hm : n = m := Option.some.inj (howner.symm.trans hp)
      exact hne (hm ▸ hcur)
    simpa [hpg] using h.carved p m hp hne
  · intro p m hp
    rw [hcurPg] at hp
    by_cases hm : m = n
    · subst hm
      have heq : p = pg := Option.some.inj (hp.symm.trans hcur)
      subst heq
      simpa using hoff
    · have hpg : p ≠ pg := by
        intro heq
        have hown := (h.pages p m).mpr (.inl hp)
        rw [heq, howner] at hown
        exact hm (Option.some.inj hown).symm
      simpa [hm, hpg] using h.pgOff p m hp
  · intro p m
    rw [hcurPg, hfull, hpart]
    exact h.pages p m
  · intro m
    rw [hcurPg, hfull, hpart]
    exact h.nodup m
  · intro p m hp
    rw [hfull] at hp
    have hpg : p ≠ pg := fun heq => (hlists m).1 (heq ▸ hp)
    simpa [hpg] using h.few p m hp
  · intro p m hp
    rw [hpart] at hp
    have hpg : p ≠ pg := fun heq => (hlists m).2 (heq ▸ hp)
    simpa [hpg] using h.many p m hp
  · intro x hx
    rcases Multiset.mem_cons.mp hx with rfl | hx
    · simp [hpage, howner, setNode]
    · exact h.live x hx
  · exact h.corrupt
  · exact h.stray

/-- The first free item of the current page is taken. -/
theorem takeFree_inv (hfit : g.Fits) (h : SlabInv g s l) {n : N} {pg hdr : ℕ}
    (hcur : (s.node n).curPg = some pg) (hnext : s.next pg = some hdr) :
    ∃ l', SlabInv g
      { s with
        next := Function.update s.next pg (s.nextHdr hdr)
        itemCount := Function.update s.itemCount pg (s.itemCount pg - 1)
        live := hdr ::ₘ s.live } l' ∧ hdr ∉ s.live ∧ g.pageOf hdr = pg := by
  have howner := (h.pages pg n).mpr (.inl hcur)
  have hlinked := h.linked pg n howner
  rw [hnext] at hlinked
  obtain ⟨fs, hfs, hrest⟩ := hlinked.eq_cons
  have hitems := h.items pg n howner
  have hcount := h.count pg n howner
  rw [hfs] at hitems hcount
  have hmem : hdr ∈ slots g pg (l.carved pg) := by
    rw [hitems]
    simp
  have hpage := pageOf_of_mem_slots hfit (h.carved_le pg n howner) hmem
  have hnot : hdr ∉ s.live := by
    intro hlive
    have hnd := nodup_slots g pg (l.carved pg)
    rw [hitems] at hnd
    have hin : hdr ∈ s.live.filter (g.pageOf · = pg) := Multiset.mem_filter.mpr ⟨hlive, hpage⟩
    exact not_mem_of_nodup hnd hin (by simp)
  rw [← Multiset.cons_coe, Multiset.cons_add, ← Multiset.add_cons] at hitems
  have htake := take_inv h hcur hpage hrest hitems (by simp [hcount])
    (h.carved_le pg n howner) (h.pgOff pg n hcur)
  simp only [setNode, Function.update_eq_self] at htake
  exact ⟨_, htake, hnot, hpage⟩

/-- The next item of the current page is cut. -/
theorem takeCut_inv (hfit : g.Fits) (h : SlabInv g s l) {n : N} {pg : ℕ}
    (hcur : (s.node n).curPg = some pg) (hnext : s.next pg = none) (hcount : s.itemCount pg ≠ 0) :
    (s.node n).pgOff < g.pgsize ∧ ∃ l', SlabInv g
      { s.setNode n { s.node n with pgOff := (s.node n).pgOff + g.size } with
        itemCount := Function.update s.itemCount pg (s.itemCount pg - 1)
        live := (pg * g.pgsize + (s.node n).pgOff) ::ₘ s.live } l' ∧
      pg * g.pgsize + (s.node n).pgOff ∉ s.live ∧
      g.pageOf (pg * g.pgsize + (s.node n).pgOff) = pg := by
  have howner := (h.pages pg n).mpr (.inl hcur)
  have hlinked := h.linked pg n howner
  have hnil : l.free pg = [] := by
    have hold := hlinked
    rw [hnext] at hold
    exact hold.eq_nil
  have hitems := h.items pg n howner
  have hc := h.count pg n howner
  simp only [hnil, List.length_nil, Nat.zero_add] at hc
  have hlt : l.carved pg < g.nrElems := by omega
  have hoff : (s.node n).pgOff = g.offset + l.carved pg * g.size :=
    (h.pgOff pg n hcur).resolve_left (by omega)
  have hslot : pg * g.pgsize + (s.node n).pgOff = g.slot pg (l.carved pg) := by
    rw [hoff, SlabGeom.slot]
  have hpage : g.pageOf (g.slot pg (l.carved pg)) = pg := pageOf_slot hfit hlt
  have hnot : g.slot pg (l.carved pg) ∉ s.live := by
    intro hlive
    have hin : g.slot pg (l.carved pg) ∈ s.live.filter (g.pageOf · = pg) :=
      Multiset.mem_filter.mpr ⟨hlive, hpage⟩
    have hnd := nodup_slots g pg (l.carved pg + 1)
    rw [slots_succ, hitems, hnil, Multiset.nodup_cons] at hnd
    exact hnd.1 (by simpa using hin)
  have hcut : slots g pg (l.carved pg + 1) =
      ↑(l.free pg) + g.slot pg (l.carved pg) ::ₘ s.live.filter (g.pageOf · = pg) := by
    rw [slots_succ, hitems, Multiset.add_cons]
  have hend : (s.node n).pgOff + g.size = g.offset + (l.carved pg + 1) * g.size := by
    rw [hoff, Nat.add_mul]
    omega
  have htake := take_inv h hcur hpage hlinked hcut (by rw [hnil, List.length_nil]; omega) hlt
    (.inr hend)
  simp only [Function.update_eq_self] at htake
  rw [hslot]
  refine ⟨?_, _, htake, hnot, hpage⟩
  rw [hoff]
  exact slotOff_lt hfit hlt

/-- What an allocation gives: an item of a page of the node that was not in use. -/
structure Taken (g : SlabGeom) (s : SlabSys N) (n : N) (item : ℕ) (s' : SlabSys N) : Prop where
  inv : ∃ l, SlabInv g s' l
  fresh : item ∉ s.live
  live : s'.live = item ::ₘ s.live
  owner : s'.owner (g.pageOf item) = some n
  nextHdr : s'.nextHdr = s.nextHdr

theorem takeItem_inv (hfit : g.Fits) (h : SlabInv g s l) {n : N} {pg : ℕ} (debug : Bool)
    (hcur : (s.node n).curPg = some pg) (hcount : s.itemCount pg ≠ 0) :
    ∃ item s', takeItem g debug s n pg = .ok (some item, s') ∧ Taken g s n item s' := by
  have howner := (h.pages pg n).mpr (.inl hcur)
  cases hnext : s.next pg with
  | some hdr =>
      obtain ⟨l', hi, hnot, hpage⟩ := takeFree_inv hfit h hcur hnext
      refine ⟨hdr, _, by simp only [takeItem, hnext], ⟨l', hi⟩, hnot, rfl, ?_, rfl⟩
      rw [hpage]
      exact howner
  | none =>
      obtain ⟨hoff, l', hi, hnot, hpage⟩ := takeCut_inv hfit h hcur hnext hcount
      have hassert : ¬ (debug = true ∧ g.pgsize ≤ (s.node n).pgOff) :=
        fun hc => absurd hc.2 (by omega)
      refine ⟨_, _, by simp only [takeItem, hnext, if_neg hassert], ⟨l', hi⟩, hnot, rfl, ?_, rfl⟩
      rw [hpage]
      exact howner

/-- What an allocation leaves when there is no page. -/
structure Refused (g : SlabGeom) (s s' : SlabSys N) : Prop where
  inv : ∃ l, SlabInv g s' l
  live : s'.live = s.live
  owner : s'.owner = s.owner
  nextHdr : s'.nextHdr = s.nextHdr

/-- The number of pages is a statistic. -/
theorem setNrPages_inv (h : SlabInv g s l) (n : N) (k : ℤ) :
    SlabInv g (s.setNode n { s.node n with nrPages := k }) l :=
  relist h (fun pg => h.pages pg n) (fun pg => h.carved pg n) (fun pg => h.pgOff pg n) (h.nodup n)
    (fun pg => h.few pg n) (fun pg => h.many pg n)

theorem refill_inv (hfit : g.Fits) (h : SlabInv g s l) {n : N} (debug : Bool)
    (hcur : (s.node n).curPg = none) {fresh : Option ℕ}
    (hfresh : ∀ pg, fresh = some pg → s.owner pg = none) :
    (∃ item s', refill g debug s n fresh = .ok (some item, s') ∧ Taken g s n item s') ∨
    (∃ s', refill g debug s n fresh = .ok (none, s') ∧ Refused g s s') := by
  cases hpart : (s.node n).partialList with
  | cons pg rest =>
      left
      have hadopt := setNrPages_inv (adopt_inv h hcur hpart) n ((s.node n).nrPages + 1)
      have hmany := h.many pg n (by simp [hpart])
      have hpos : s.itemCount pg ≠ 0 := by
        have hthresh : partialThresh = 4 := rfl
        omega
      obtain ⟨item, s', hs', ht⟩ := takeItem_inv hfit hadopt (n := n) debug (by simp) hpos
      refine ⟨item, s', ?_, ht.inv, ht.fresh, ht.live, ht.owner, ht.nextHdr⟩
      simpa [refill, getPage, hpart] using hs'
  | nil =>
      cases fresh with
      | none =>
          right
          have hsame : SlabInv g (s.setNode n { s.node n with curPg := none }) l :=
            relist h (fun pg => by simpa [hcur] using h.pages pg n)
              (fun pg hp _ => h.carved pg n hp (by simp [hcur])) (fun pg hp => by cases hp)
              (by simpa [hcur] using h.nodup n) (fun pg => h.few pg n) (fun pg => h.many pg n)
          exact ⟨_, by simp only [refill, getPage, hpart], ⟨l, hsame⟩, rfl, rfl, rfl⟩
      | some pg =>
          left
          have hnew := setNrPages_inv (fresh_inv h hcur (hfresh pg rfl)) n
            ((s.node n).nrPages + 1)
          have hpos : g.nrElems ≠ 0 := by
            have hchunk := g.chunk
            have hthresh : partialThresh = 4 := rfl
            omega
          obtain ⟨item, s', hs', ht⟩ := takeItem_inv hfit hnew (n := n) debug (by simp; rfl)
            (by simpa [setNode] using hpos)
          refine ⟨item, s', ?_, ht.inv, ht.fresh, ht.live, ht.owner, ht.nextHdr⟩
          simpa [refill, getPage, hpart, setNode] using hs'

/-- The page that was the current one does not matter when it is replaced. -/
theorem refill_eq (s : SlabSys N) (n : N) (debug : Bool) (fresh cur : Option ℕ) :
    refill g debug (s.setNode n { s.node n with curPg := cur }) n fresh =
      refill g debug s n fresh := by
  cases hpart : (s.node n).partialList with
  | cons pg rest => simp [refill, getPage, hpart]
  | nil => cases fresh <;> simp [refill, getPage, hpart, setNode]

/-- `__slab_node_alloc` gives an item of the node that is not in use, or there is no page. -/
theorem slabNodeAlloc_inv (hfit : g.Fits) (h : SlabInv g s l) (n : N) (debug : Bool)
    {fresh : Option ℕ} (hfresh : ∀ pg, fresh = some pg → s.owner pg = none) :
    (∃ item s', s.slabNodeAlloc g debug n fresh = .ok (some item, s') ∧ Taken g s n item s') ∨
    (∃ s', s.slabNodeAlloc g debug n fresh = .ok (none, s') ∧ Refused g s s') := by
  cases hcur : (s.node n).curPg with
  | none =>
      simp only [slabNodeAlloc, hcur]
      exact refill_inv hfit h debug hcur hfresh
  | some pg =>
      simp only [slabNodeAlloc, hcur]
      by_cases hcount : s.itemCount pg = 0
      · have hret := retire_inv h hcur hcount
        have hrefill := refill_inv hfit hret debug (n := n) (by simp) hfresh
        have heq := refill_eq (g := g)
          (s.setNode n { s.node n with fullList := pg :: (s.node n).fullList }) n debug fresh none
        simp only [setNode_setNode, node_setNode, if_true, hcur] at heq
        rw [if_pos hcount, ← heq]
        rcases hrefill with ⟨item, s', hs', ht⟩ | ⟨s', hs', ht⟩
        · exact .inl ⟨item, s', hs', ht.inv, ht.fresh, ht.live, ht.owner, ht.nextHdr⟩
        · exact .inr ⟨s', hs', ht.inv, ht.live, ht.owner, ht.nextHdr⟩
      · rw [if_neg hcount]
        exact .inl (takeItem_inv hfit h debug hcur hcount)

/-! ## Freeing an item -/

omit [DecidableEq N] in
/-- A free item is not in use. -/
theorem free_not_live (hfit : g.Fits) (h : SlabInv g s l) {n : N} {pg item : ℕ}
    (howner : s.owner pg = some n) (hfree : item ∈ l.free pg) : item ∉ s.live := by
  intro hlive
  have hslots : item ∈ slots g pg (l.carved pg) := by
    rw [h.items pg n howner]
    exact Multiset.mem_add.mpr (.inl hfree)
  have hpage := pageOf_of_mem_slots hfit (h.carved_le pg n howner) hslots
  have hnd := nodup_slots g pg (l.carved pg)
  rw [h.items pg n howner] at hnd
  exact not_mem_of_nodup hnd (Multiset.mem_filter.mpr ⟨hlive, hpage⟩) hfree

/-- The layout after an item is put on the list of its page. -/
def pushFree (l : SlabLayout) (g : SlabGeom) (item : ℕ) : SlabLayout :=
  { l with free := Function.update l.free (g.pageOf item) (item :: l.free (g.pageOf item)) }

/-- An item that is in use is put on the list of its page; what is left are the lists of pages,
which may lose some. -/
theorem pushItem_inv (hfit : g.Fits) (h : SlabInv g s l) {n : N} {item : ℕ} (hitem : item ∈ s.live)
    (howner : s.owner (g.pageOf item) = some n) {node : N → SlabNode} {owner : ℕ → Option N}
    {corrupt : Bool} (hown : ∀ p m, owner p = some m → s.owner p = some m)
    (hcarved : ∀ p m, owner p = some m → (node m).curPg ≠ some p → l.carved p = g.nrElems)
    (hoff : ∀ p m, (node m).curPg = some p →
      l.carved p = g.nrElems ∨ (node m).pgOff = g.offset + l.carved p * g.size)
    (hpages : ∀ p m, owner p = some m ↔
      (node m).curPg = some p ∨ p ∈ (node m).fullList ∨ p ∈ (node m).partialList)
    (hnodup : ∀ m, ((node m).curPg.toList ++ (node m).fullList ++ (node m).partialList).Nodup)
    (hfew : ∀ p m, p ∈ (node m).fullList → (pushItem g s n item).itemCount p < partialThresh)
    (hmany : ∀ p m, p ∈ (node m).partialList → partialThresh ≤ (pushItem g s n item).itemCount p)
    (hlive : ∀ x ∈ s.live.erase item, owner (g.pageOf x) ≠ none) (hcorrupt : corrupt = false) :
    SlabInv g { pushItem g s n item with node, owner, corrupt } (pushFree l g item) := by
  have hsplit : s.live = item ::ₘ s.live.erase item := (Multiset.cons_erase hitem).symm
  have hnotfree : ∀ p m, s.owner p = some m → item ∉ l.free p :=
    fun p m hp hin => free_not_live hfit h hp hin hitem
  constructor
  · exact fun p m hp => h.snode p m (hown p m hp)
  · intro p m hp
    have hold := h.linked p m (hown p m hp)
    have hnot := hnotfree p m (hown p m hp)
    by_cases hpg : p = g.pageOf item
    · subst hpg
      simpa [pushFree, pushItem] using hold.push hnot
    · simpa [pushFree, pushItem, hpg] using hold.update hnot _
  · intro p m hp
    have hold := h.items p m (hown p m hp)
    rw [hsplit] at hold
    by_cases hpg : p = g.pageOf item
    · subst hpg
      rw [filter_cons_pageOf rfl, Multiset.add_cons, ← Multiset.cons_add] at hold
      simpa [pushFree, pushItem] using hold
    · rw [filter_cons_pageOf_of_ne (fun heq => hpg heq.symm)] at hold
      simpa [pushFree, pushItem, hpg] using hold
  · intro p m hp
    have hold := h.count p m (hown p m hp)
    by_cases hpg : p = g.pageOf item
    · subst hpg
      simp only [pushFree, pushItem, Function.update_self, List.length_cons, hold]
      omega
    · simpa [pushFree, pushItem, hpg] using hold
  · exact fun p m hp => h.carved_le p m (hown p m hp)
  · exact hcarved
  · exact hoff
  · exact hpages
  · exact hnodup
  · exact hfew
  · exact hmany
  · exact hlive
  · exact hcorrupt
  · simp [pushItem, h.stray, h.snode _ n howner]

omit [DecidableEq N] in
/-- A page that is taken out of all lists. -/
theorem mem_erase_lists (h : SlabInv g s l) (m : N) (pg p : ℕ) :
    (p ∈ (s.node m).fullList.erase pg ↔ p ≠ pg ∧ p ∈ (s.node m).fullList) ∧
    (p ∈ (s.node m).partialList.erase pg ↔ p ≠ pg ∧ p ∈ (s.node m).partialList) := by
  have hnd := h.nodup m
  rw [List.append_assoc] at hnd
  have hlists := hnd.of_append_right
  exact ⟨hlists.of_append_left.mem_erase_iff, hlists.of_append_right.mem_erase_iff⟩

omit [DecidableEq N] in
theorem nodup_erase_lists (h : SlabInv g s l) (m : N) (pg : ℕ) :
    ((s.node m).curPg.toList ++ (s.node m).fullList.erase pg ++
      (s.node m).partialList.erase pg).Nodup :=
  (h.nodup m).sublist
    (((List.Sublist.refl _).append List.erase_sublist).append List.erase_sublist)

omit [DecidableEq N] in
/-- When all items of a page are free, none is in use. -/
theorem filter_erase_eq_zero (h : SlabInv g s l) {n : N} {item : ℕ} (hitem : item ∈ s.live)
    (howner : s.owner (g.pageOf item) = some n)
    (hcarved : l.carved (g.pageOf item) = g.nrElems)
    (hcount : s.itemCount (g.pageOf item) + 1 = g.nrElems) :
    (s.live.erase item).filter (g.pageOf · = g.pageOf item) = 0 := by
  have hitems := h.items _ n howner
  have hc := h.count _ n howner
  rw [← Multiset.cons_erase hitem, filter_cons_pageOf rfl] at hitems
  have hcard := congrArg Multiset.card hitems
  rw [card_slots, hcarved, Multiset.card_add, Multiset.coe_card, Multiset.card_cons] at hcard
  apply Multiset.card_eq_zero.mp
  omega

variable [Fintype N]

/-- What freeing an item leaves. -/
structure Returned (g : SlabGeom) (s : SlabSys N) (item : ℕ) (s' : SlabSys N) : Prop where
  inv : ∃ l, SlabInv g s' l
  live : s'.live = s.live.erase item
  nextHdr : ∀ x, x ≠ item → s'.nextHdr x = s.nextHdr x

section

variable {n : N} {item : ℕ}

omit [DecidableEq N] [Fintype N] in
theorem live_erase (h : SlabInv g s l) (item : ℕ) :
    ∀ x ∈ s.live.erase item, s.owner (g.pageOf x) ≠ none :=
  fun x hx => h.live x (Multiset.mem_of_mem_erase hx)

omit [Fintype N] in
theorem itemCount_pushItem (g : SlabGeom) (s : SlabSys N) (n : N) (item p : ℕ) :
    (pushItem g s n item).itemCount p =
      if p = g.pageOf item then s.itemCount p + 1 else s.itemCount p := by
  simp only [pushItem, Function.update_apply]
  grind

/-- A page that is not the current one is in a list, from which it can be unlinked. -/
theorem unlink_corrupt (h : SlabInv g s l) (howner : s.owner (g.pageOf item) = some n)
    (hcur : (s.node n).curPg ≠ some (g.pageOf item)) :
    ((pushItem g s n item).unlink (g.pageOf item)).corrupt = false := by
  have hin : ∃ m, g.pageOf item ∈ (s.node m).fullList ∨ g.pageOf item ∈ (s.node m).partialList :=
    ⟨n, ((h.pages _ n).mp howner).resolve_left hcur⟩
  simp [unlink, pushItem, h.corrupt, hin]

omit [Fintype N] in
/-- An item of the current page is freed. -/
theorem freeCur_inv (hfit : g.Fits) (h : SlabInv g s l) (hitem : item ∈ s.live)
    (howner : s.owner (g.pageOf item) = some n)
    (hcur : (s.node n).curPg = some (g.pageOf item)) :
    SlabInv g (pushItem g s n item) (pushFree l g item) := by
  apply pushItem_inv hfit h hitem howner (fun _ _ hp => hp) h.carved h.pgOff h.pages h.nodup
  · intro p m hp
    have hpg : p ≠ g.pageOf item := fun heq => (cur_not_listed h hcur m).1 (heq ▸ hp)
    simpa [itemCount_pushItem, hpg] using h.few p m hp
  · intro p m hp
    have hpg : p ≠ g.pageOf item := fun heq => (cur_not_listed h hcur m).2 (heq ▸ hp)
    simpa [itemCount_pushItem, hpg] using h.many p m hp
  · exact live_erase h item
  · exact h.corrupt

/-- A page that has many free items now moves to the pages that have. -/
theorem freeMove_inv (hfit : g.Fits) (h : SlabInv g s l) (hitem : item ∈ s.live)
    (howner : s.owner (g.pageOf item) = some n)
    (hcur : (s.node n).curPg ≠ some (g.pageOf item))
    (hcount : (pushItem g s n item).itemCount (g.pageOf item) = partialThresh) :
    let s' := (pushItem g s n item).unlink (g.pageOf item)
    SlabInv g (s'.setNode n
      { s'.node n with partialList := g.pageOf item :: (s'.node n).partialList })
      (pushFree l g item) := by
  have hcarved := h.carved _ n howner hcur
  have hmem := mem_erase_lists h
  have hnode : (pushItem g s n item).node = s.node := rfl
  have hown : (pushItem g s n item).owner = s.owner := rfl
  apply pushItem_inv hfit h hitem howner (fun _ _ hp => hp)
  · intro p m hp hne
    apply h.carved p m hp
    simp only [unlink, hnode, Function.update_apply] at hne
    grind
  · intro p m hp
    have hold := h.pgOff p m
    simp only [unlink, hnode, Function.update_apply] at hp ⊢
    grind
  · intro p m
    have hold := h.pages p m
    have hm := hmem m (g.pageOf item) p
    simp only [unlink, hnode, hown, Function.update_apply]
    grind
  · intro m
    have hnd := nodup_erase_lists h m (g.pageOf item)
    by_cases hm : m = n
    · subst hm
      simp only [unlink, hnode, Function.update_self]
      apply List.nodup_middle.mpr
      apply List.nodup_cons.mpr
      refine ⟨?_, hnd⟩
      simp only [List.mem_append, Option.mem_toList, (hmem _ _ _).1, (hmem _ _ _).2]
      simp [hcur]
    · simpa only [unlink, hnode, Function.update_of_ne hm] using hnd
  · intro p m hp
    have hm := (hmem m (g.pageOf item) p).1
    have hin : p ≠ g.pageOf item ∧ p ∈ (s.node m).fullList := by
      simp only [unlink, hnode, Function.update_apply] at hp
      grind
    simpa [itemCount_pushItem, hin.1] using h.few p m hin.2
  · intro p m hp
    by_cases hpg : p = g.pageOf item
    · rw [hpg, hcount]
    · have hm := (hmem m (g.pageOf item) p).2
      have hin : p ∈ (s.node m).partialList := by
        simp only [unlink, hnode, Function.update_apply] at hp
        grind
      simpa [itemCount_pushItem, hpg] using h.many p m hin
  · exact live_erase h item
  · exact unlink_corrupt h howner hcur

/-- A page all of whose items are free is put. -/
theorem freePut_inv (hfit : g.Fits) (h : SlabInv g s l) (hitem : item ∈ s.live)
    (howner : s.owner (g.pageOf item) = some n)
    (hcur : (s.node n).curPg ≠ some (g.pageOf item))
    (hcount : (pushItem g s n item).itemCount (g.pageOf item) = g.nrElems) :
    let s' := (pushItem g s n item).unlink (g.pageOf item)
    SlabInv g { s' with owner := Function.update s'.owner (g.pageOf item) none }
      (pushFree l g item) := by
  have hcarved := h.carved _ n howner hcur
  have hmem := mem_erase_lists h
  have hnode : (pushItem g s n item).node = s.node := rfl
  rw [itemCount_pushItem, if_pos rfl] at hcount
  have hzero := filter_erase_eq_zero h hitem howner hcarved hcount
  apply pushItem_inv hfit h hitem howner
  · intro p m hp
    simp only [unlink, pushItem, Function.update_apply] at hp
    grind
  · intro p m hp hne
    have hold := h.carved p m
    simp only [unlink, pushItem, Function.update_apply] at hp hne
    grind
  · intro p m hp
    have hold := h.pgOff p m
    simp only [unlink, hnode] at hp ⊢
    grind
  · intro p m
    have hold := h.pages p m
    have hm := hmem m (g.pageOf item) p
    simp only [unlink, pushItem, Function.update_apply]
    grind
  · intro m
    have hnd := nodup_erase_lists h m (g.pageOf item)
    simpa only [unlink, hnode] using hnd
  · intro p m hp
    have hm := (hmem m (g.pageOf item) p).1
    have hin : p ≠ g.pageOf item ∧ p ∈ (s.node m).fullList := by
      simp only [unlink, hnode] at hp
      grind
    simpa [itemCount_pushItem, hin.1] using h.few p m hin.2
  · intro p m hp
    have hm := (hmem m (g.pageOf item) p).2
    have hin : p ≠ g.pageOf item ∧ p ∈ (s.node m).partialList := by
      simp only [unlink, hnode] at hp
      grind
    simpa [itemCount_pushItem, hin.1] using h.many p m hin.2
  · -- the items that are still in use are in other pages
    intro x hx
    have hne : g.pageOf x ≠ g.pageOf item := by
      intro heq
      have hin : x ∈ (s.live.erase item).filter (g.pageOf · = g.pageOf item) :=
        Multiset.mem_filter.mpr ⟨hx, heq⟩
      rw [hzero] at hin
      exact absurd hin (Multiset.notMem_zero x)
    simp only [Function.update_of_ne hne]
    exact live_erase h item x hx
  · exact unlink_corrupt h howner hcur

omit [Fintype N] in
/-- A page stays in its list while its number of free items does not reach the threshold. -/
theorem freeListed_inv (hfit : g.Fits) (h : SlabInv g s l) (hitem : item ∈ s.live)
    (howner : s.owner (g.pageOf item) = some n)
    (hcount : (pushItem g s n item).itemCount (g.pageOf item) ≠ partialThresh) :
    SlabInv g (pushItem g s n item) (pushFree l g item) := by
  rw [itemCount_pushItem, if_pos rfl] at hcount
  apply pushItem_inv hfit h hitem howner (fun _ _ hp => hp) h.carved h.pgOff h.pages h.nodup
  · intro p m hp
    have hfew := h.few p m hp
    rw [itemCount_pushItem]
    by_cases hpg : p = g.pageOf item
    · subst hpg
      simp only [if_true]
      omega
    · simpa only [if_neg hpg] using hfew
  · intro p m hp
    have hmany := h.many p m hp
    rw [itemCount_pushItem]
    split
    · omega
    · exact hmany
  · exact live_erase h item
  · exact h.corrupt

/-- `slab_node_free` with an item in use of a page of the node. -/
theorem slabNodeFree_inv (hfit : g.Fits) (h : SlabInv g s l) (hitem : item ∈ s.live)
    (howner : s.owner (g.pageOf item) = some n) :
    Returned g s item (s.slabNodeFree g n item) := by
  have hnode : (pushItem g s n item).node = s.node := rfl
  have hnext : ∀ x, x ≠ item → (pushItem g s n item).nextHdr x = s.nextHdr x :=
    fun x hx => Function.update_of_ne hx _ _
  simp only [slabNodeFree, hnode]
  by_cases hcur : (s.node n).curPg = some (g.pageOf item)
  · rw [if_pos hcur]
    exact ⟨⟨_, freeCur_inv hfit h hitem howner hcur⟩, rfl, hnext⟩
  rw [if_neg hcur]
  by_cases hmany : (pushItem g s n item).itemCount (g.pageOf item) = partialThresh
  · rw [if_pos hmany]
    exact ⟨⟨_, freeMove_inv hfit h hitem howner hcur hmany⟩, rfl, hnext⟩
  rw [if_neg hmany]
  by_cases hall : (pushItem g s n item).itemCount (g.pageOf item) = g.nrElems
  · rw [if_pos hall]
    exact ⟨⟨_, freePut_inv hfit h hitem howner hcur hall⟩, rfl, hnext⟩
  · rw [if_neg hall]
    exact ⟨⟨_, freeListed_inv hfit h hitem howner hmany⟩, rfl, hnext⟩

end

omit [DecidableEq N] [Fintype N] in
/-- The words in the items in use do not matter. -/
theorem words_inv (hfit : g.Fits) (h : SlabInv g s l) {words : ℕ → Option ℕ}
    (hwords : ∀ x, x ∉ s.live → words x = s.nextHdr x) : SlabInv g { s with nextHdr := words } l := by
  refine ⟨h.snode, ?_, h.items, h.count, h.carved_le, h.carved, h.pgOff, h.pages, h.nodup, h.few,
    h.many, h.live, h.corrupt, h.stray⟩
  intro p m hp
  apply (h.linked p m hp).congr
  intro x hx
  exact hwords x (free_not_live hfit h hp hx)

omit [DecidableEq N] [Fintype N] in
/-- A caller writes to an item in use. -/
theorem write_inv (hfit : g.Fits) (h : SlabInv g s l) {item : ℕ} (hitem : item ∈ s.live)
    (word : Option ℕ) :
    SlabInv g { s with nextHdr := Function.update s.nextHdr item word } l := by
  apply words_inv hfit h
  intro x hx
  exact Function.update_of_ne (ne_of_mem_of_not_mem hitem hx).symm _ _

/-! ## Runs -/

/-- The calls that are made: `page_alloc_on_node` returns a page that no node has, an item is
freed or written by who has it, and freed to the node of its page. -/
def Allowed (g : SlabGeom) (s : SlabSys N) : SlabEvent N → Prop
  | .alloc _ (some pg) => s.owner pg = none
  | .alloc _ none => True
  | .free n item => item ∈ s.live ∧ s.snode (g.pageOf item) = some n
  | .write item _ => item ∈ s.live

instance (g : SlabGeom) (s : SlabSys N) : (e : SlabEvent N) → Decidable (s.Allowed g e)
  | .alloc _ (some pg) => inferInstanceAs (Decidable (s.owner pg = none))
  | .alloc _ none => inferInstanceAs (Decidable True)
  | .free n item => inferInstanceAs (Decidable (item ∈ s.live ∧ s.snode (g.pageOf item) = some n))
  | .write item _ => inferInstanceAs (Decidable (item ∈ s.live))

omit [DecidableEq N] [Fintype N] in
/-- No item is in use twice. -/
theorem live_nodup (h : SlabInv g s l) : s.live.Nodup := by
  apply Multiset.nodup_iff_count_le_one.mpr
  intro item
  by_cases hitem : item ∈ s.live
  · obtain ⟨n, howner⟩ := Option.ne_none_iff_exists'.mp (h.live item hitem)
    have hnd := nodup_slots g (g.pageOf item) (l.carved (g.pageOf item))
    rw [h.items _ n howner] at hnd
    have hfilter := Multiset.nodup_iff_count_le_one.mp (Multiset.nodup_add.mp hnd).2.1 item
    rwa [Multiset.count_filter_of_pos (p := (g.pageOf · = g.pageOf item)) rfl] at hfilter
  · rw [Multiset.count_eq_zero_of_notMem hitem]
    exact Nat.zero_le _

omit [DecidableEq N] [Fintype N] in
/-- The node of the page of an item in use. -/
theorem owner_of_live (h : SlabInv g s l) {item : ℕ} (hitem : item ∈ s.live) {n : N}
    (hnode : s.snode (g.pageOf item) = some n) : s.owner (g.pageOf item) = some n := by
  obtain ⟨m, howner⟩ := Option.ne_none_iff_exists'.mp (h.live item hitem)
  rw [h.snode _ m howner] at hnode
  rw [howner, hnode]

theorem slabStep_inv (hfit : g.Fits) (debug : Bool) (h : ∃ l, SlabInv g s l) {e : SlabEvent N}
    (he : s.Allowed g e) : ∃ s', slabStep g debug s e = .ok s' ∧ ∃ l, SlabInv g s' l := by
  obtain ⟨l, h⟩ := h
  cases e with
  | alloc n fresh =>
      have hfresh : ∀ pg, fresh = some pg → s.owner pg = none := by
        intro pg hpg
        rwa [hpg] at he
      rcases slabNodeAlloc_inv hfit h n debug hfresh with ⟨item, s', hs', ht⟩ | ⟨s', hs', ht⟩
      · exact ⟨s', by simp [slabStep, hs', Except.map], ht.inv⟩
      · exact ⟨s', by simp [slabStep, hs', Except.map], ht.inv⟩
  | free n item =>
      exact ⟨_, rfl, (slabNodeFree_inv hfit h he.1 (owner_of_live h he.1 he.2)).inv⟩
  | write item word => exact ⟨_, rfl, l, write_inv hfit h he word⟩

/-- If the items fit into a page, then whatever calls are made, each item that was cut is free or
in use, no item is in use twice, and the lists of pages go by their number of free items. -/
theorem slab_exact (hfit : g.Fits) (debug : Bool) (itemCount : ℕ → ℕ) (next nextHdr : ℕ → Option ℕ)
    (es : List (SlabEvent N))
    (hes : Along (slabStep g debug) (Allowed g) (create itemCount next nextHdr) es) :
    ∃ s : SlabSys N, exec (slabStep g debug) (create itemCount next nextHdr) es = .ok s ∧
      (∃ l, SlabInv g s l) ∧ s.live.Nodup := by
  obtain ⟨s, hs, l, hi⟩ := exec_ok (I := fun s => ∃ l, SlabInv g s l)
    (fun s e h he => slabStep_inv hfit debug h he) ⟨_, create_inv g itemCount next nextHdr⟩ hes
  exact ⟨s, hs, ⟨l, hi⟩, live_nodup hi⟩

/-- Items of 512 bytes in pages of 4 KB. -/
def slabGeom512 : SlabGeom where
  size := 512
  offset := 0
  nrElems := 8
  pgsize := 4096
  size_pos := by decide
  pgsize_pos := by decide
  chunk := by decide

/-- A page is used up and another one begun, all items of the first one are freed, and there is
no third page. -/
def slabRun : List (SlabEvent Bool) :=
  (List.range 9).map (fun i => .alloc true (if i % 8 = 0 then some (10 + i / 8) else none)) ++
    (List.range 8).map (fun i => .free true (slabGeom512.slot 10 i)) ++
    (List.range 8).map (fun _ => .alloc true none) ++ [.write (slabGeom512.slot 11 0) (some 7)]

theorem slab_exact_slabRun :
    Along (slabStep slabGeom512 true) (Allowed slabGeom512)
      (create (fun _ => 0) (fun _ => none) (fun _ => none)) slabRun ∧
    ∃ s : SlabSys Bool, exec (slabStep slabGeom512 true)
        (create (fun _ => 0) (fun _ => none) (fun _ => none)) slabRun = .ok s ∧
      (∃ l, SlabInv slabGeom512 s l) ∧ s.live.Nodup :=
  have hes : Along (slabStep slabGeom512 true) (Allowed slabGeom512)
      (create (fun _ => 0) (fun _ => none) (fun _ => none)) slabRun := by
    decide +kernel
  ⟨hes, slab_exact (by decide) _ _ _ _ _ hes⟩

/-- The slab of the `struct slab_node`s themselves, as `slab_init` creates it: they have 88 bytes,
the items 96, and the number of items is computed from 88. -/
def nodeSlabGeom : SlabGeom where
  size := 96
  offset := 0
  nrElems := 4096 / 88
  pgsize := 4096
  size_pos := by decide
  pgsize_pos := by decide
  chunk := by decide

/-- Two pages are used up and a third one is begun; then the items are freed that stand in the
second page, three of which belong to the first one. -/
def nodeSlabRun : List (SlabEvent Bool) :=
  (List.range 93).map (fun i => .alloc true (if i % 46 = 0 then some (10 + i / 46) else none)) ++
    (List.range 43).map (fun i => .free true (nodeSlabGeom.slot 11 i)) ++
    (List.range 3).map (fun i => .free true (nodeSlabGeom.slot 10 (43 + i)))

omit [DecidableEq N] [Fintype N] in
/-- No page has an item in use that it was not cut into. -/
theorem foreign_not_inv (n : N) (pg item : ℕ) (howner : s.owner pg = some n) (hlive : item ∈ s.live)
    (hpage : g.pageOf item = pg) (hslot : ∀ j, g.slot pg j ≠ item) : ¬ ∃ l, SlabInv g s l := by
  intro hinv
  obtain ⟨l, h⟩ := hinv
  have hslots : item ∈ slots g pg (l.carved pg) := by
    rw [h.items pg n howner]
    exact Multiset.mem_add.mpr (.inr (Multiset.mem_filter.mpr ⟨hlive, hpage⟩))
  obtain ⟨j, -, hj⟩ := Multiset.mem_map.mp hslots
  exact hslot j hj

/-- The second page is put while three of its items are in use. -/
theorem nodeSlab_put_in_use :
    ¬ nodeSlabGeom.Fits ∧
    Along (slabStep nodeSlabGeom false) (Allowed nodeSlabGeom)
      (create (fun _ => 0) (fun _ => none) (fun _ => none)) nodeSlabRun ∧
    ∃ s : SlabSys Bool, exec (slabStep nodeSlabGeom false)
        (create (fun _ => 0) (fun _ => none) (fun _ => none)) nodeSlabRun = .ok s ∧
      s.snode 11 = some true ∧ s.owner 11 = none ∧ nodeSlabGeom.slot 11 43 ∈ s.live ∧
      ¬ ∃ l, SlabInv nodeSlabGeom s l := by
  refine ⟨by decide, by decide +kernel, final (slabStep nodeSlabGeom false)
    (create (fun _ => 0) (fun _ => none) (fun _ => none)) nodeSlabRun, ?_, ?_, ?_, ?_, ?_⟩
  · exact exec_final (by decide +kernel)
  · decide +kernel
  · decide +kernel
  · decide +kernel
  · apply foreign_not_inv true 12 (nodeSlabGeom.slot 11 43)
    · decide +kernel
    · decide +kernel
    · decide
    · intro j hj
      simp only [SlabGeom.slot, nodeSlabGeom] at hj
      omega

end SlabSys

end Skyloft
