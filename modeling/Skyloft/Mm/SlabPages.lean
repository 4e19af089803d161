import Mathlib.Tactic.Ring
import Skyloft.Mm.Slab

/-!
# The page count of a slab node

A node counts its pages in `nr_pages`, from which `slab_print_usage` computes the memory that a slab
holds.  The count goes up under the lock whenever a page becomes the current one, whether it comes
from `page_alloc_on_node` or from the node's own list of pages with many free items; it goes down
after a page is put, when the lock has been released.  Both are a load and a store, and what is
stored in between is lost.

Nobody else reads the lists of a node while its lock is held, so they change in one step; the count
is read and written without the lock, so a load and a store of it are steps of their own.

* `SlabSys.pagesOf`, `SlabSys.drift` — the pages that a node owns, and how far the count is off.
* `PageCount`, `countStep` — the slab with the changes of the count that are under way.
* `Tidy` — what is off is what has yet to be taken off, as long as no page is taken back and the
  changes do not overlap.
* `nr_pages_iff` — the count is right as long as no page is taken back and none is put.
-/

namespace Skyloft

open Run

namespace SlabSys

variable {N : Type} [DecidableEq N] {g : SlabGeom} {s s' : SlabSys N} {n m : N} {pg : ℕ}

/-! ## The pages of a node -/

/-- The current page and the pages on the two lists. -/
def pagesOf (s : SlabSys N) (n : N) : List ℕ :=
  (s.node n).curPg.toList ++ (s.node n).fullList ++ (s.node n).partialList

/-- How many pages more are counted than there are. -/
def drift (s : SlabSys N) (n : N) : ℤ := (s.node n).nrPages - (s.pagesOf n).length

/-- The memory of a node that `slab_print_usage` adds up.  The product is computed as an `int`. -/
def slabUsage (g : SlabGeom) (s : SlabSys N) (n : N) : BitVec 64 :=
  (BitVec.ofInt 32 (s.node n).nrPages * BitVec.ofNat 32 g.pgsize).signExtend 64

/-- The pages that a node has from `page_alloc_on_node` are on its lists, each once. -/
structure Paged (s : SlabSys N) : Prop where
  owner : ∀ pg n, s.owner pg = some n ↔ pg ∈ s.pagesOf n
  nodup : ∀ n, (s.pagesOf n).Nodup

/-- The allocation calls `__slab_node_get_page`. -/
def needsPage (s : SlabSys N) (n : N) : Bool :=
  match (s.node n).curPg with
  | none => true
  | some pg => s.itemCount pg == 0

/-- It takes a page back from the list of pages with many free items. -/
def adopts (s : SlabSys N) (n : N) : Bool := s.needsPage n && !(s.node n).partialList.isEmpty

/-- It gets a page, and counts it. -/
def getsPage (s : SlabSys N) (n : N) (fresh : Option ℕ) : Bool :=
  s.needsPage n && (!(s.node n).partialList.isEmpty || fresh.isSome)

/-- `free` in `slab_node_free`: the page is put. -/
def putsPage (g : SlabGeom) (s : SlabSys N) (n : N) (item : ℕ) : Bool :=
  let pg := g.pageOf item
  (s.node n).curPg ≠ some pg ∧ s.itemCount pg + 1 ≠ partialThresh ∧ s.itemCount pg + 1 = g.nrElems

/-- `page_alloc_on_node` returns a page that it owns, and an item is freed to the node of the page it
stands in. -/
def OwnPages (g : SlabGeom) (s : SlabSys N) : SlabEvent N → Prop
  | .alloc _ (some pg) => s.owner pg = none
  | .alloc _ none => True
  | .free n item => s.owner (g.pageOf item) = some n
  | .write _ _ => True

/-- The lists, the counts and the owners of two states are the same. -/
structure SamePages (s s' : SlabSys N) : Prop where
  curPg : ∀ n, (s'.node n).curPg = (s.node n).curPg
  fullList : ∀ n, (s'.node n).fullList = (s.node n).fullList
  partialList : ∀ n, (s'.node n).partialList = (s.node n).partialList
  nrPages : ∀ n, (s'.node n).nrPages = (s.node n).nrPages
  owner : s'.owner = s.owner

omit [DecidableEq N] in
theorem SamePages.pagesOf_eq (h : SamePages s s') (n : N) : s'.pagesOf n = s.pagesOf n := by
  rw [pagesOf, pagesOf, h.curPg, h.fullList, h.partialList]

omit [DecidableEq N] in
theorem SamePages.drift_eq (h : SamePages s s') (n : N) : s'.drift n = s.drift n := by
  rw [drift, drift, h.nrPages, h.pagesOf_eq]

omit [DecidableEq N] in
theorem SamePages.paged (h : SamePages s s') (hp : s.Paged) : s'.Paged where
  owner pg n := by rw [h.owner, h.pagesOf_eq]; exact hp.owner pg n
  nodup n := by rw [h.pagesOf_eq]; exact hp.nodup n

/-- An item that is taken leaves the pages alone. -/
theorem samePages_takeItem {debug : Bool} {r : Option ℕ}
    (h : takeItem g debug s n pg = .ok (r, s')) : SamePages s s' := by
  rw [takeItem] at h
  split at h
  · cases h
    exact ⟨fun _ => rfl, fun _ => rfl, fun _ => rfl, fun _ => rfl, rfl⟩
  · dsimp only at h
    split at h
    · cases h
    · cases h
      constructor <;> grind [setNode]

/-- So does an item that is put on the list of its page. -/
theorem samePages_pushItem (g : SlabGeom) (s : SlabSys N) (n : N) (item : ℕ) :
    SamePages s (pushItem g s n item) :=
  ⟨fun _ => rfl, fun _ => rfl, fun _ => rfl, fun _ => rfl, rfl⟩

/-! ## Another page becomes the current one -/

omit [DecidableEq N] in
/-- The lists of one node change. -/
theorem Paged.setNode (h : s.Paged) (n : N) (nd : SlabNode) (owner : ℕ → Option N)
    (hother : ∀ pg m, m ≠ n → (owner pg = some m ↔ s.owner pg = some m))
    (howner : ∀ pg, owner pg = some n ↔ pg ∈ nd.curPg.toList ++ nd.fullList ++ nd.partialList)
    (hnodup : (nd.curPg.toList ++ nd.fullList ++ nd.partialList).Nodup)
    (hnode : s'.node n = nd) (hsame : ∀ m, m ≠ n → s'.node m = s.node m) (hown : s'.owner = owner) :
    s'.Paged := by
  constructor
  · intro pg m
    by_cases hm : m = n
    · rw [hm, hown, pagesOf, hnode]
      exact howner pg
    · rw [hown, hother pg m hm, pagesOf, hsame m hm]
      exact h.owner pg m
  · intro m
    by_cases hm : m = n
    · rw [hm, pagesOf, hnode]
      exact hnodup
    · rw [pagesOf, hsame m hm]
      exact h.nodup m

/-- A page that is found for a node without a current page, before an item is taken from it. -/
theorem paged_getPage (h : s.Paged) (hcur : (s.node n).curPg = none) {fresh : Option ℕ}
    (hfresh : ∀ pg, fresh = some pg → s.owner pg = none) :
    ((getPage g s n fresh).2.setNode n
      { (getPage g s n fresh).2.node n with curPg := (getPage g s n fresh).1 }).Paged := by
  have hn := h.nodup n
  have ho := h.owner
  simp only [pagesOf] at hn ho
  cases hpart : (s.node n).partialList with
  | cons pg rest =>
      rw [hcur, hpart] at hn
      have hnodup : (pg :: (s.node n).fullList ++ rest).Nodup := by
        simpa using List.nodup_middle.mp hn
      refine h.setNode n { s.node n with curPg := some pg, partialList := rest } s.owner
        (fun _ _ _ => Iff.rfl) (fun p => ?_) hnodup ?_ ?_ ?_
      · rw [ho p n, hcur, hpart]
        grind
      · simp [getPage, hpart]
      · intro m hm
        simp [getPage, hpart, hm]
      · simp [getPage, hpart, setNode]
  | nil =>
      rw [hcur, hpart] at hn
      cases fresh with
      | none =>
          refine h.setNode n { s.node n with curPg := none } s.owner (fun _ _ _ => Iff.rfl)
            (fun p => ?_) (by simpa [hpart] using hn) ?_ ?_ ?_
          · rw [ho p n, hcur]
          · simp [getPage, hpart]
          · intro m hm
            simp [getPage, hpart, hm]
          · simp [getPage, hpart, setNode]
      | some pg =>
          have hnone := hfresh pg rfl
          have hout : ∀ m, pg ∉ (s.node m).curPg.toList ++ (s.node m).fullList ++
              (s.node m).partialList := by
            intro m hin
            rw [(ho pg m).mpr hin] at hnone
            cases hnone
          refine h.setNode n { s.node n with curPg := some pg, pgOff := g.offset }
            (Function.update s.owner pg (some n)) (fun p m hm => ?_) (fun p => ?_) ?_ ?_ ?_ ?_
          · rw [Function.update_apply]
            by_cases hp : p = pg
            · subst hp
              rw [if_pos rfl, hnone]
              exact ⟨fun heq => absurd (Option.some.inj heq).symm hm, fun heq => by cases heq⟩
            · rw [if_neg hp]
          · rw [Function.update_apply]
            have hold := ho p n
            rw [hcur] at hold
            grind
          · have hpg := hout n
            rw [hcur] at hpg
            simpa [hpart] using ⟨by simpa [hpart] using hpg, by simpa using hn⟩
          · simp [getPage, hpart, setNode]
          · intro m hm
            simp [getPage, hpart, setNode, hm]
          · simp [getPage, hpart, setNode]

/-- The count of one node changes. -/
theorem pages_setNrPages (s : SlabSys N) (n : N) (k : ℤ) :
    (s.Paged → (s.setNode n { s.node n with nrPages := (s.node n).nrPages + k }).Paged) ∧
      ∀ m, (s.setNode n { s.node n with nrPages := (s.node n).nrPages + k }).drift m =
        s.drift m + if m = n then k else 0 := by
  have hpages : ∀ m, (s.setNode n { s.node n with nrPages := (s.node n).nrPages + k }).pagesOf m =
      s.pagesOf m := by
    intro m
    simp only [pagesOf, node_setNode]
    split
    · rename_i hm
      rw [hm]
    · rfl
  constructor
  · intro h
    refine ⟨fun pg m => ?_, fun m => ?_⟩
    · rw [hpages]
      exact h.owner pg m
    · rw [hpages]
      exact h.nodup m
  · intro m
    rw [drift, drift, hpages, node_setNode]
    split
    · rename_i hm
      rw [hm]
      ring
    · ring

/-- The store of a count. -/
def setNrPages (s : SlabSys N) (n : N) (count : ℤ) : SlabSys N :=
  s.setNode n { s.node n with nrPages := count }

theorem setNrPages_self (s : SlabSys N) (n : N) : s.setNrPages n (s.node n).nrPages = s := by
  simp [setNrPages, setNode]

theorem nrPages_setNrPages (s : SlabSys N) (n : N) (count : ℤ) (m : N) :
    ((s.setNrPages n count).node m).nrPages = if m = n then count else (s.node m).nrPages := by
  rw [setNrPages, node_setNode]
  split <;> rfl

/-- It does not change the pages. -/
theorem pages_setCount (s : SlabSys N) (n : N) (count : ℤ) :
    (s.Paged → (s.setNrPages n count).Paged) ∧
      ∀ m, (s.setNrPages n count).drift m =
        s.drift m + if m = n then count - (s.node n).nrPages else 0 := by
  have hset := pages_setNrPages s n (count - (s.node n).nrPages)
  rw [add_sub_cancel] at hset
  exact hset

/-- A page that is taken back from the list is counted once more. -/
theorem refill_pages (h : s.Paged) (hcur : (s.node n).curPg = none) {debug : Bool}
    {fresh r : Option ℕ} (hfresh : ∀ pg, fresh = some pg → s.owner pg = none)
    (hs : refill g debug s n fresh = .ok (r, s')) :
    s'.Paged ∧
      ∀ m, s'.drift m = s.drift m + if m = n ∧ (s.node n).partialList ≠ [] then 1 else 0 := by
  have hpaged := paged_getPage (g := g) h hcur hfresh
  rw [refill] at hs
  cases hpart : (s.node n).partialList with
  | cons pg rest =>
      simp only [getPage, hpart] at hs hpaged
      have hsame := samePages_takeItem hs
      obtain ⟨hp, hd⟩ := pages_setNrPages _ n 1
      refine ⟨hsame.paged (hp hpaged), fun m => ?_⟩
      rw [hsame.drift_eq, hd, drift, drift, pagesOf, pagesOf]
      by_cases hm : m = n
      · subst hm
        simp [hcur, hpart]
        ring
      · simp [hm]
  | nil =>
      cases fresh with
      | none =>
          simp only [getPage, hpart] at hs hpaged
          cases hs
          refine ⟨hpaged, fun m => ?_⟩
          rw [drift, drift, pagesOf, pagesOf]
          by_cases hm : m = n
          · subst hm
            simp [hcur, hpart]
          · simp [hm]
      | some pg =>
          simp only [getPage, hpart] at hs hpaged
          have hsame := samePages_takeItem hs
          obtain ⟨hp, hd⟩ := pages_setNrPages _ n 1
          refine ⟨hsame.paged (hp hpaged), fun m => ?_⟩
          rw [hsame.drift_eq, hd, drift, drift, pagesOf, pagesOf]
          by_cases hm : m = n
          · subst hm
            simp [hcur, hpart, setNode]
            ring
          · simp [hm, setNode]

/-- An exhausted page goes to the list of pages with few free items. -/
theorem retire_pages (h : s.Paged) (hcur : (s.node n).curPg = some pg) :
    (s.setNode n { s.node n with curPg := none, fullList := pg :: (s.node n).fullList }).Paged ∧
      ∀ m, (s.setNode n
        { s.node n with curPg := none, fullList := pg :: (s.node n).fullList }).drift m =
          s.drift m := by
  have hpages : ∀ m, (s.setNode n
      { s.node n with curPg := none, fullList := pg :: (s.node n).fullList }).pagesOf m =
        s.pagesOf m := by
    intro m
    by_cases hm : m = n
    · subst hm
      simp [pagesOf, hcur]
    · simp [pagesOf, hm]
  have hcount : ∀ m, ((s.setNode n
      { s.node n with curPg := none, fullList := pg :: (s.node n).fullList }).node m).nrPages =
        (s.node m).nrPages := by
    intro m
    grind
  refine ⟨⟨fun p m => ?_, fun m => ?_⟩, fun m => ?_⟩
  · rw [hpages]
    exact h.owner p m
  · rw [hpages]
    exact h.nodup m
  · rw [drift, drift, hpages, hcount]

theorem slabNodeAlloc_pages (h : s.Paged) {debug : Bool} {fresh r : Option ℕ}
    (hfresh : ∀ pg, fresh = some pg → s.owner pg = none)
    (hs : s.slabNodeAlloc g debug n fresh = .ok (r, s')) :
    s'.Paged ∧ ∀ m, s'.drift m = s.drift m + if m = n ∧ s.adopts n then 1 else 0 := by
  cases hcur : (s.node n).curPg with
  | none =>
      rw [slabNodeAlloc, hcur] at hs
      obtain ⟨hp, hd⟩ := refill_pages h hcur hfresh hs
      exact ⟨hp, fun m => by simp [hd, adopts, needsPage, hcur]⟩
  | some pg =>
      rw [slabNodeAlloc, hcur] at hs
      dsimp only at hs
      split at hs
      · rename_i hcount
        obtain ⟨hpr, hdr⟩ := retire_pages h hcur
        -- which page was the current one does not matter any more
        have heq := refill_eq (g := g)
          (s.setNode n { s.node n with fullList := pg :: (s.node n).fullList }) n debug fresh none
        simp only [setNode_setNode, node_setNode, if_true] at heq
        rw [← heq] at hs
        obtain ⟨hp, hd⟩ := refill_pages hpr (by simp) hfresh hs
        refine ⟨hp, fun m => ?_⟩
        simp [hd, hdr, adopts, needsPage, hcur, hcount]
      · rename_i hcount
        have hsame := samePages_takeItem hs
        exact ⟨hsame.paged h, fun m => by simp [hsame.drift_eq, adopts, needsPage, hcur, hcount]⟩

/-- A page that is found is counted. -/
theorem nrPages_refill {debug : Bool} {fresh r : Option ℕ}
    (hs : refill g debug s n fresh = .ok (r, s')) (m : N) :
    (s'.node m).nrPages = (s.node m).nrPages +
      if m = n ∧ (!(s.node n).partialList.isEmpty || fresh.isSome) = true then 1 else 0 := by
  rw [refill] at hs
  cases hpart : (s.node n).partialList with
  | cons pg rest =>
      simp only [getPage, hpart] at hs
      rw [(samePages_takeItem hs).nrPages]
      by_cases hm : m = n <;> simp [hm]
  | nil =>
      cases fresh with
      | none =>
          simp only [getPage, hpart] at hs
          cases hs
          by_cases hm : m = n <;> simp [hm]
      | some pg =>
          simp only [getPage, hpart] at hs
          rw [(samePages_takeItem hs).nrPages]
          by_cases hm : m = n <;> simp [hm, setNode]

theorem nrPages_slabNodeAlloc {debug : Bool} {fresh r : Option ℕ}
    (hs : s.slabNodeAlloc g debug n fresh = .ok (r, s')) (m : N) :
    (s'.node m).nrPages = (s.node m).nrPages + if m = n ∧ s.getsPage n fresh = true then 1 else 0 := by
  cases hcur : (s.node n).curPg with
  | none =>
      rw [slabNodeAlloc, hcur] at hs
      simpa [getsPage, needsPage, hcur] using nrPages_refill hs m
  | some pg =>
      rw [slabNodeAlloc, hcur] at hs
      dsimp only at hs
      split at hs
      · rename_i hcount
        have href := nrPages_refill hs m
        by_cases hm : m = n
        · subst hm
          simpa [getsPage, needsPage, hcur, hcount] using href
        · simpa [hm] using href
      · rename_i hcount
        rw [(samePages_takeItem hs).nrPages]
        simp [getsPage, needsPage, hcur, hcount]

/-! ## A page leaves the lists -/

section

variable [Fintype N] {item : ℕ}

omit [DecidableEq N] [Fintype N] in
/-- A page is on one list of one node. -/
theorem Paged.erase (h : s.Paged) (hown : s.owner pg = some n) (hcur : (s.node n).curPg ≠ some pg) :
    (s.pagesOf n).erase pg = (s.node n).curPg.toList ++ (s.node n).fullList.erase pg ++
      (s.node n).partialList.erase pg := by
  have hmem := (h.owner pg n).mp hown
  have hnodup := h.nodup n
  rw [pagesOf] at hmem hnodup ⊢
  have hnot : pg ∉ (s.node n).curPg.toList := by simpa [eq_comm] using hcur
  rw [List.append_assoc, List.erase_append_right _ hnot, List.append_assoc]
  congr 1
  by_cases hfull : pg ∈ (s.node n).fullList
  · have hpart : pg ∉ (s.node n).partialList := by grind
    rw [List.erase_append_left _ hfull, List.erase_of_not_mem hpart]
  · rw [List.erase_append_right _ hfull, List.erase_of_not_mem hfull]

omit [DecidableEq N] in
/-- The other nodes do not have the page. -/
theorem Paged.unlink_other (h : s.Paged) (hown : s.owner pg = some n) (hm : m ≠ n) :
    (s.unlink pg).node m = s.node m := by
  have hnot : pg ∉ s.pagesOf m := by
    intro hin
    rw [(h.owner pg m).mpr hin] at hown
    exact hm (Option.some.inj hown)
  simp only [pagesOf, List.mem_append, not_or] at hnot
  simp only [unlink, List.erase_of_not_mem hnot.1.2, List.erase_of_not_mem hnot.2]

/-- A page with many free items goes to their list. -/
theorem freeMove_pages (h : s.Paged) (hown : s.owner pg = some n)
    (hcur : (s.node n).curPg ≠ some pg) :
    ((s.unlink pg).setNode n { (s.unlink pg).node n with
      partialList := pg :: ((s.unlink pg).node n).partialList }).Paged ∧
    ∀ m, ((s.unlink pg).setNode n { (s.unlink pg).node n with
      partialList := pg :: ((s.unlink pg).node n).partialList }).drift m = s.drift m := by
  have hperm : ((s.node n).curPg.toList ++ (s.node n).fullList.erase pg ++
      pg :: (s.node n).partialList.erase pg).Perm (s.pagesOf n) := by
    refine List.perm_middle.trans ?_
    rw [← h.erase hown hcur]
    exact (List.perm_cons_erase ((h.owner pg n).mp hown)).symm
  constructor
  · refine h.setNode n { s.node n with
      fullList := (s.node n).fullList.erase pg
      partialList := pg :: (s.node n).partialList.erase pg } s.owner (fun _ _ _ => Iff.rfl)
      (fun p => ?_) (hperm.nodup_iff.mpr (h.nodup n)) (by simp [unlink]) (fun m hm => ?_) rfl
    · rw [h.owner p n]
      exact hperm.mem_iff.symm
    · rw [node_setNode, if_neg hm]
      exact h.unlink_other hown hm
  · intro m
    rw [drift, drift]
    by_cases hm : m = n
    · subst hm
      rw [← hperm.length_eq]
      simp [pagesOf, unlink]
    · rw [pagesOf, node_setNode, if_neg hm, h.unlink_other hown hm, ← pagesOf]

/-- A page without items in use is put; it is still counted. -/
theorem freePut_pages (h : s.Paged) (hown : s.owner pg = some n)
    (hcur : (s.node n).curPg ≠ some pg) :
    Paged { s.unlink pg with owner := Function.update s.owner pg none } ∧
    ∀ m, drift { s.unlink pg with owner := Function.update s.owner pg none } m =
      s.drift m + if m = n then 1 else 0 := by
  have hmem := (h.owner pg n).mp hown
  have herase := h.erase hown hcur
  constructor
  · refine h.setNode n { s.node n with
      fullList := (s.node n).fullList.erase pg
      partialList := (s.node n).partialList.erase pg } (Function.update s.owner pg none)
      (fun p m hm => ?_) (fun p => ?_) (herase ▸ (h.nodup n).erase pg) rfl (fun m hm => ?_) rfl
    · rw [Function.update_apply]
      split
      · rename_i hp
        rw [hp, hown]
        simp [hm.symm]
      · rfl
    · dsimp only
      rw [← herase, (h.nodup n).mem_erase_iff, ← h.owner p n, Function.update_apply]
      split <;> simp_all
    · exact h.unlink_other hown hm
  · intro m
    rw [drift, drift]
    by_cases hm : m = n
    · subst hm
      have hlen := List.length_erase_of_mem hmem
      have hpos := List.length_pos_of_mem hmem
      rw [herase] at hlen
      simp only [pagesOf, unlink, if_true] at hlen hpos ⊢
      omega
    · change ((s.unlink pg).node m).nrPages - ((s.unlink pg).pagesOf m).length = _
      rw [pagesOf, h.unlink_other hown hm, ← pagesOf, if_neg hm, add_zero]

theorem slabNodeFree_pages (h : s.Paged) (hown : s.owner (g.pageOf item) = some n) :
    (s.slabNodeFree g n item).Paged ∧
      ∀ m, (s.slabNodeFree g n item).drift m = s.drift m + if m = n ∧ s.putsPage g n item then 1 else 0 := by
  have hsame := samePages_pushItem g s n item
  have hp := hsame.paged h
  have hown' : (pushItem g s n item).owner (g.pageOf item) = some n := by rwa [hsame.owner]
  have hcount : (pushItem g s n item).itemCount (g.pageOf item) = s.itemCount (g.pageOf item) + 1 := by
    simp [pushItem]
  simp only [slabNodeFree, putsPage, hcount, decide_eq_true_eq, ← hsame.curPg n]
  split
  · rename_i hcur
    exact ⟨hp, fun m => by rw [hsame.drift_eq, if_neg (by tauto), add_zero]⟩
  rename_i hcur
  split
  · rename_i hpart
    obtain ⟨hp', hd⟩ := freeMove_pages hp hown' hcur
    exact ⟨hp', fun m => by rw [hd, hsame.drift_eq, if_neg (by tauto), add_zero]⟩
  rename_i hpart
  split
  · rename_i hall
    obtain ⟨hp', hd⟩ := freePut_pages hp hown' hcur
    refine ⟨hp', fun m => ?_⟩
    rw [hd, hsame.drift_eq]
    exact congrArg _ (if_congr (by tauto) rfl rfl)
  · rename_i hall
    exact ⟨hp, fun m => by rw [hsame.drift_eq, if_neg (by tauto), add_zero]⟩

/-- The critical section of `slab_node_free` leaves the count alone. -/
theorem nrPages_slabNodeFree (g : SlabGeom) (s : SlabSys N) (n : N) (item : ℕ) (m : N) :
    ((s.slabNodeFree g n item).node m).nrPages = (s.node m).nrPages := by
  have hsame := (samePages_pushItem g s n item).nrPages
  rw [slabNodeFree]
  split
  · exact hsame m
  split
  · rw [node_setNode]
    split
    · rename_i hm
      rw [hm]
      exact hsame n
    · exact hsame m
  split <;> exact hsame m

omit [DecidableEq N] [Fintype N] in
theorem paged_create (itemCount : ℕ → ℕ) (next nextHdr : ℕ → Option ℕ) :
    (create itemCount next nextHdr : SlabSys N).Paged := by
  constructor <;> simp [create, pagesOf]

omit [DecidableEq N] [Fintype N] in
/-- **The usage that is printed** for a node with the right count is the memory that it holds, as long
as this fits an `int`. -/
theorem slabUsage_iff (hc : (s.node n).nrPages = (s.pagesOf n).length)
    (hheld : (s.pagesOf n).length * g.pgsize < 2 ^ 63) :
    (s.slabUsage g n).toNat = (s.pagesOf n).length * g.pgsize ↔
      (s.pagesOf n).length * g.pgsize < 2 ^ 31 := by
  have hprod : BitVec.ofInt 32 (s.node n).nrPages * BitVec.ofNat 32 g.pgsize =
      BitVec.ofNat 32 ((s.pagesOf n).length * g.pgsize) := by
    rw [hc, BitVec.ofInt_natCast, BitVec.ofNat_mul]
  rw [slabUsage, hprod]
  generalize (s.pagesOf n).length * g.pgsize = k at hheld ⊢
  rw [BitVec.toNat_signExtend, BitVec.toNat_setWidth, BitVec.toNat_ofNat, BitVec.msb_eq_decide,
    BitVec.toNat_ofNat]
  by_cases hk : k < 2 ^ 31
  · rw [decide_eq_false (by omega)]
    simp
    omega
  · by_cases hmsb : 2 ^ (32 - 1) ≤ k % 2 ^ 32
    · rw [decide_eq_true hmsb]
      simp
      omega
    · rw [decide_eq_false hmsb]
      simp
      omega

end

/-- `__slab_node_alloc` whose `nr_pages++` has loaded the count. -/
def allocCounting (g : SlabGeom) (debug : Bool) (s : SlabSys N) (n : N) (fresh : Option ℕ)
    (count : ℤ) : Except SlabFault (SlabSys N) :=
  (s.slabNodeAlloc g debug n fresh).map fun r =>
    if s.getsPage n fresh then r.2.setNrPages n (count + 1) else r.2

/-- If it is the count that is there, this is `__slab_node_alloc`. -/
theorem allocCounting_self (g : SlabGeom) (debug : Bool) (s : SlabSys N) (n : N) (fresh : Option ℕ) :
    s.allocCounting g debug n fresh (s.node n).nrPages =
      (s.slabNodeAlloc g debug n fresh).map Prod.snd := by
  rw [allocCounting]
  cases hr : s.slabNodeAlloc g debug n fresh with
  | error f => rfl
  | ok r =>
      have hcount : (r.2.node n).nrPages =
          (s.node n).nrPages + if n = n ∧ s.getsPage n fresh = true then 1 else 0 :=
        nrPages_slabNodeAlloc hr n
      by_cases hgets : s.getsPage n fresh = true
      · rw [if_pos ⟨rfl, hgets⟩] at hcount
        simp only [Except.map, hgets, if_true, ← hcount, setNrPages_self]
      · simp [Except.map, hgets]

end SlabSys

/-! ## The changes of the count -/

/-- The slab, and the changes of `nr_pages` that are under way. -/
structure PageCount (N : Type) where
  slab : SlabSys N
  /-- the lock is held for `__slab_node_alloc`, with the count that `nr_pages++` loaded -/
  holder : N → Option ℤ
  /-- the pages that were put whose `nr_pages--` has not begun -/
  toLoad : N → ℕ
  /-- the counts that were loaded by `nr_pages--` -/
  loaded : N → List ℤ

inductive CountEvent (N : Type)
  /-- the lock is taken for `__slab_node_alloc`, and the count is loaded -/
  | lock (n : N)
  /-- `__slab_node_alloc` and the unlock; the critical section of `slab_node_free`; or a caller writes -/
  | call (e : SlabEvent N)
  /-- `nr_pages--` after a page was put: the load -/
  | load (n : N)
  /-- the store of a thread that loaded this count -/
  | store (n : N) (count : ℤ)

namespace PageCount

open SlabSys

variable {N : Type}

def create (itemCount : ℕ → ℕ) (next nextHdr : ℕ → Option ℕ) : PageCount N where
  slab := SlabSys.create itemCount next nextHdr
  holder _ := none
  toLoad _ := 0
  loaded _ := []

/-- One step; a step that is not there to be taken changes nothing. -/
def countStep [DecidableEq N] [Fintype N] (g : SlabGeom) (debug : Bool) (s : PageCount N) :
    CountEvent N → Except SlabFault (PageCount N)
  | .lock n =>
      .ok (if s.holder n = none then
        { s with holder := Function.update s.holder n (some (s.slab.node n).nrPages) }
      else s)
  | .call (.alloc n fresh) =>
      match s.holder n with
      | none => .ok s
      | some count => (s.slab.allocCounting g debug n fresh count).map fun slab =>
          { s with slab, holder := Function.update s.holder n none }
  | .call (.free n item) =>
      .ok (if s.holder n = none then
        { s with
          slab := s.slab.slabNodeFree g n item
          toLoad := if s.slab.putsPage g n item then Function.update s.toLoad n (s.toLoad n + 1)
            else s.toLoad }
      else s)
  | .call (.write item word) =>
      .ok { s with slab := { s.slab with nextHdr := Function.update s.slab.nextHdr item word } }
  | .load n =>
      .ok (if s.toLoad n = 0 then s
      else { s with
        toLoad := Function.update s.toLoad n (s.toLoad n - 1)
        loaded := Function.update s.loaded n ((s.slab.node n).nrPages :: s.loaded n) })
  | .store n count =>
      .ok (if count ∈ s.loaded n then
        { s with
          slab := s.slab.setNrPages n (count - 1)
          loaded := Function.update s.loaded n ((s.loaded n).erase count) }
      else s)

/-- Outside the critical sections of a node, its `nr_pages` is the number of its pages. -/
def Counted (s : PageCount N) : Prop :=
  ∀ n, s.holder n = none → (s.slab.node n).nrPages = (s.slab.pagesOf n).length

/-- It also counts the pages that were put and not taken off yet. -/
def Owed (s : PageCount N) : Prop :=
  ∀ n, s.holder n = none →
    (s.slab.node n).nrPages = (s.slab.pagesOf n).length + (s.toLoad n + (s.loaded n).length)

def OwnPages (g : SlabGeom) (s : PageCount N) : CountEvent N → Prop
  | .call e => s.slab.OwnPages g e
  | .lock _ | .load _ | .store _ _ => True

def Allowed (g : SlabGeom) (s : PageCount N) : CountEvent N → Prop
  | .call e => s.slab.Allowed g e
  | .lock _ | .load _ | .store _ _ => True

/-- No page is taken back from the list. -/
def NoAdoption (s : PageCount N) : CountEvent N → Prop
  | .call (.alloc n _) => s.holder n ≠ none → s.slab.adopts n = false
  | _ => True

/-- No page is put. -/
def NoPut (g : SlabGeom) (s : PageCount N) : CountEvent N → Prop
  | .call (.free n item) => s.holder n = none → s.slab.putsPage g n item = false
  | _ => True

/-- The count is not loaded while another change of it has loaded it. -/
def Apart (s : PageCount N) : CountEvent N → Prop
  | .lock n => s.loaded n = []
  | .load n => s.holder n = none ∧ s.loaded n = []
  | .call _ | .store _ _ => True

instance [DecidableEq N] (g : SlabGeom) (s : PageCount N) :
    (e : CountEvent N) → Decidable (s.Allowed g e)
  | .call e => inferInstanceAs (Decidable (s.slab.Allowed g e))
  | .lock _ | .load _ | .store _ _ => inferInstanceAs (Decidable True)

instance (s : PageCount N) : (e : CountEvent N) → Decidable (s.NoAdoption e)
  | .call (.alloc n _) => inferInstanceAs (Decidable (s.holder n ≠ none → s.slab.adopts n = false))
  | .call (.free _ _) | .call (.write _ _) | .lock _ | .load _ | .store _ _ =>
      inferInstanceAs (Decidable True)

/-! ### What is off -/

/-- What is off is what has yet to be taken off, and each change has loaded the count that is there. -/
structure Tidy (s : PageCount N) : Prop where
  paged : s.slab.Paged
  holder : ∀ n count, s.holder n = some count → count = (s.slab.node n).nrPages ∧ s.loaded n = []
  loaded : ∀ n, s.loaded n = [] ∨ s.loaded n = [(s.slab.node n).nrPages]
  owed : ∀ n, s.slab.drift n = s.toLoad n + (s.loaded n).length

/-- No page is to be taken off. -/
def Idle (s : PageCount N) : Prop := ∀ n, s.toLoad n = 0 ∧ s.loaded n = []

variable {g : SlabGeom} {debug : Bool} {s s' : PageCount N} {n : N}

theorem Tidy.isOwed (h : Tidy s) : s.Owed := by
  intro n _
  have howed := h.owed n
  rw [drift] at howed
  omega

theorem Tidy.counted (h : Tidy s) (hidle : s.Idle) : s.Counted := by
  intro n hn
  have howed := h.isOwed n hn
  rw [(hidle n).1, (hidle n).2] at howed
  simpa using howed

theorem tidy_create (itemCount : ℕ → ℕ) (next nextHdr : ℕ → Option ℕ) :
    Tidy (create itemCount next nextHdr : PageCount N) where
  paged := paged_create _ _ _
  holder n count hn := by cases hn
  loaded n := .inl rfl
  owed n := by simp [create, SlabSys.create, drift, pagesOf]

variable [DecidableEq N] [Fintype N]

/-- An allocation that is not disturbed is that of the slab. -/
theorem Tidy.countStep_alloc (h : Tidy s) {fresh : Option ℕ} {count : ℤ}
    (hn : s.holder n = some count) :
    countStep g debug s (.call (.alloc n fresh)) =
      (slabStep g debug s.slab (.alloc n fresh)).map fun slab =>
        { s with slab, holder := Function.update s.holder n none } := by
  simp only [countStep, hn, (h.holder n count hn).1, allocCounting_self, slabStep]

omit [Fintype N] in
theorem Tidy.lock (h : Tidy s) (hn : s.loaded n = []) :
    Tidy { s with holder := Function.update s.holder n (some (s.slab.node n).nrPages) } := by
  refine ⟨h.paged, fun m count hm => ?_, h.loaded, h.owed⟩
  dsimp only at hm
  rw [Function.update_apply] at hm
  split at hm
  · rename_i heq
    rw [heq]
    exact ⟨(Option.some.inj hm).symm, hn⟩
  · exact h.holder m count hm

omit [Fintype N] in
theorem Tidy.alloc (h : Tidy s) {fresh r : Option ℕ} {slab : SlabSys N} {count : ℤ}
    (hfresh : ∀ pg, fresh = some pg → s.slab.owner pg = none) (hn : s.holder n = some count)
    (hkeep : s.slab.adopts n = false) (hs : s.slab.slabNodeAlloc g debug n fresh = .ok (r, slab)) :
    Tidy { s with slab, holder := Function.update s.holder n none } := by
  obtain ⟨hpaged, hdrift⟩ := slabNodeAlloc_pages h.paged hfresh hs
  have hcount := nrPages_slabNodeAlloc hs
  have hother : ∀ m, m ≠ n → (slab.node m).nrPages = (s.slab.node m).nrPages := by
    intro m hm
    rw [hcount, if_neg (fun hand => hm hand.1), add_zero]
  refine ⟨hpaged, fun m c hm => ?_, fun m => ?_, fun m => ?_⟩
  · dsimp only at hm
    rw [Function.update_apply] at hm
    split at hm
    · cases hm
    · rename_i hne
      obtain ⟨hc, hl⟩ := h.holder m c hm
      exact ⟨hc.trans (hother m hne).symm, hl⟩
  · by_cases hm : m = n
    · rw [hm]
      exact .inl (h.holder n count hn).2
    · rw [hother m hm]
      exact h.loaded m
  · rw [hdrift, h.owed, if_neg (fun hand => by simp [hkeep] at hand), add_zero]

theorem Tidy.free (h : Tidy s) {item : ℕ} (hown : s.slab.owner (g.pageOf item) = some n) :
    Tidy { s with
      slab := s.slab.slabNodeFree g n item
      toLoad := if s.slab.putsPage g n item then Function.update s.toLoad n (s.toLoad n + 1)
        else s.toLoad } := by
  obtain ⟨hpaged, hdrift⟩ := slabNodeFree_pages h.paged hown
  have hcount := nrPages_slabNodeFree g s.slab n item
  refine ⟨hpaged, fun m c hm => ?_, fun m => ?_, fun m => ?_⟩
  · rw [hcount]
    exact h.holder m c hm
  · rw [hcount]
    exact h.loaded m
  · dsimp only
    rw [hdrift, h.owed]
    by_cases hputs : s.slab.putsPage g n item = true
    · by_cases hm : m = n
      · subst hm
        simp only [hputs, if_true, and_self, Function.update_self, Nat.cast_add, Nat.cast_one]
        ring
      · simp [hputs, hm]
    · simp [hputs]

omit [Fintype N] in
theorem Tidy.load (h : Tidy s) (hpos : s.toLoad n ≠ 0) (hfree : s.holder n = none)
    (hn : s.loaded n = []) :
    Tidy { s with
      toLoad := Function.update s.toLoad n (s.toLoad n - 1)
      loaded := Function.update s.loaded n ((s.slab.node n).nrPages :: s.loaded n) } := by
  refine ⟨h.paged, fun m c hm => ?_, fun m => ?_, fun m => ?_⟩
  · have hne : m ≠ n := fun heq => by
      rw [heq, hfree] at hm
      cases hm
    simpa [hne] using h.holder m c hm
  · by_cases hm : m = n
    · subst hm
      simp [hn]
    · simpa [hm] using h.loaded m
  · rw [h.owed]
    by_cases hm : m = n
    · subst hm
      simp only [Function.update_self, List.length_cons, hn]
      omega
    · simp [hm]

omit [Fintype N] in
theorem Tidy.store (h : Tidy s) {count : ℤ} (hmem : count ∈ s.loaded n) :
    Tidy { s with
      slab := s.slab.setNrPages n (count - 1)
      loaded := Function.update s.loaded n ((s.loaded n).erase count) } := by
  have hone : s.loaded n = [(s.slab.node n).nrPages] := by
    rcases h.loaded n with hnil | hone
    · rw [hnil] at hmem
      cases hmem
    · exact hone
  have hcount : count = (s.slab.node n).nrPages := by simpa [hone] using hmem
  obtain ⟨hpaged, hdrift⟩ := pages_setCount s.slab n (count - 1)
  refine ⟨hpaged h.paged, fun m c hm => ?_, fun m => ?_, fun m => ?_⟩
  · have hne : m ≠ n := fun heq => by
      rw [heq] at hm
      have hnil := (h.holder n c hm).2
      rw [hone] at hnil
      cases hnil
    simpa [hne, nrPages_setNrPages] using h.holder m c hm
  · by_cases hm : m = n
    · subst hm
      simp [hone, hcount]
    · simpa [hm, nrPages_setNrPages] using h.loaded m
  · rw [hdrift, h.owed]
    by_cases hm : m = n
    · subst hm
      simp [hone, hcount]
    · simp [hm]

/-- **A step keeps what is off accounted for**, if it takes no page back and the changes of the count
do not overlap. -/
theorem countStep_tidy (h : Tidy s) {e : CountEvent N} (hown : s.OwnPages g e) (hno : s.NoAdoption e)
    (hapart : s.Apart e) (hs : countStep g debug s e = .ok s') : Tidy s' := by
  cases e with
  | lock n =>
      cases hs
      split
      · exact h.lock hapart
      · exact h
  | call e =>
      cases e with
      | alloc n fresh =>
          cases hn : s.holder n with
          | none =>
              simp only [countStep, hn] at hs
              cases hs
              exact h
          | some count =>
              rw [h.countStep_alloc hn, slabStep] at hs
              have hfresh : ∀ pg, fresh = some pg → s.slab.owner pg = none := by
                intro pg hpg
                rwa [hpg] at hown
              cases hr : s.slab.slabNodeAlloc g debug n fresh with
              | error f =>
                  rw [hr] at hs
                  cases hs
              | ok r =>
                  rw [hr] at hs
                  cases hs
                  exact h.alloc hfresh hn (hno (by simp [hn])) hr
      | free n item =>
          cases hs
          split
          · exact h.free hown
          · exact h
      | write item word =>
          cases hs
          exact ⟨⟨h.paged.owner, h.paged.nodup⟩, h.holder, h.loaded, h.owed⟩
  | load n =>
      cases hs
      split
      · exact h
      · rename_i hpos
        exact h.load hpos hapart.1 hapart.2
  | store n count =>
      cases hs
      split
      · rename_i hmem
        exact h.store hmem
      · exact h

/-- If no page is put either, nothing is ever off. -/
theorem countStep_idle (h : Tidy s) (hidle : s.Idle) {e : CountEvent N} (hown : s.OwnPages g e)
    (hno : s.NoAdoption e) (hput : s.NoPut g e) (hs : countStep g debug s e = .ok s') :
    Tidy s' ∧ s'.Idle := by
  cases e with
  | lock n =>
      refine ⟨countStep_tidy h hown hno (hidle n).2 hs, ?_⟩
      cases hs
      split <;> exact hidle
  | call e =>
      refine ⟨countStep_tidy h hown hno trivial hs, ?_⟩
      cases e with
      | alloc n fresh =>
          cases hn : s.holder n with
          | none =>
              simp only [countStep, hn] at hs
              cases hs
              exact hidle
          | some count =>
              simp only [countStep, hn, map_eq_ok] at hs
              obtain ⟨slab, -, rfl⟩ := hs
              exact hidle
      | free n item =>
          cases hs
          split
          · rename_i hn
            simp only [hput hn, Bool.false_eq_true, if_false]
            exact hidle
          · exact hidle
      | write item word =>
          cases hs
          exact hidle
  | load n =>
      simp only [countStep, (hidle n).1, if_true] at hs
      cases hs
      exact ⟨h, hidle⟩
  | store n count =>
      simp only [countStep, (hidle n).2, List.not_mem_nil, if_false] at hs
      cases hs
      exact ⟨h, hidle⟩

/-- With items that fit and callers that free what they have, the steps do not fault. -/
theorem countStep_ok (hfit : g.Fits) (debug : Bool) (hi : ∃ l, SlabInv g s.slab l) (h : Tidy s)
    (hidle : s.Idle) {e : CountEvent N} (he : s.Allowed g e) :
    ∃ s', countStep g debug s e = .ok s' ∧ ∃ l, SlabInv g s'.slab l := by
  cases e with
  | lock n =>
      refine ⟨_, rfl, ?_⟩
      split <;> exact hi
  | call e =>
      obtain ⟨slab, hslab, hi'⟩ := slabStep_inv hfit debug hi he
      cases e with
      | alloc n fresh =>
          cases hn : s.holder n with
          | none => exact ⟨s, by simp only [countStep, hn], hi⟩
          | some count =>
              rw [h.countStep_alloc hn, hslab]
              exact ⟨_, rfl, hi'⟩
      | free n item =>
          cases hslab
          refine ⟨_, rfl, ?_⟩
          split
          · exact hi'
          · exact hi
      | write item word =>
          cases hslab
          exact ⟨_, rfl, hi'⟩
  | load n => exact ⟨s, by simp only [countStep, (hidle n).1, if_true], hi⟩
  | store n count =>
      exact ⟨s, by simp only [countStep, (hidle n).2, List.not_mem_nil, if_false], hi⟩

omit [DecidableEq N] [Fintype N] in
theorem Allowed.ownPages (hi : ∃ l, SlabInv g s.slab l) {e : CountEvent N} (he : s.Allowed g e) :
    s.OwnPages g e := by
  cases e with
  | call e =>
      obtain ⟨l, hi⟩ := hi
      cases e with
      | alloc n fresh => cases fresh <;> exact he
      | free n item => exact owner_of_live hi he.1 he.2
      | write item word => trivial
  | lock | load | store => trivial

/-- A page that is taken back is counted twice, and one that is put is still counted when the lock is
released. -/
theorem countStep_wrong (h : Tidy s) (hidle : s.Idle) {e : CountEvent N} (hown : s.OwnPages g e)
    (hnot : ¬ (s.NoAdoption e ∧ s.NoPut g e)) (hs : countStep g debug s e = .ok s') : ¬ s'.Counted := by
  intro hc
  cases e with
  | call e =>
      cases e with
      | alloc n fresh =>
          have hadopts : s.holder n ≠ none ∧ s.slab.adopts n = true := by
            simpa [NoAdoption, NoPut] using hnot
          obtain ⟨count, hn⟩ := Option.ne_none_iff_exists'.mp hadopts.1
          rw [h.countStep_alloc hn, slabStep] at hs
          have hfresh : ∀ pg, fresh = some pg → s.slab.owner pg = none := by
            intro pg hpg
            rwa [hpg] at hown
          cases hr : s.slab.slabNodeAlloc g debug n fresh with
          | error f =>
              rw [hr] at hs
              cases hs
          | ok r =>
              rw [hr] at hs
              cases hs
              have hdrift := (slabNodeAlloc_pages h.paged hfresh hr).2 n
              have hcount := hc n (by simp)
              rw [if_pos ⟨rfl, hadopts.2⟩, h.owed, (hidle n).1, (hidle n).2, drift] at hdrift
              dsimp only at hcount
              simp at hdrift
              omega
      | free n item =>
          have hputs : s.holder n = none ∧ s.slab.putsPage g n item = true := by
            simpa [NoAdoption, NoPut] using hnot
          simp only [countStep, if_pos hputs.1] at hs
          cases hs
          have hdrift := (slabNodeFree_pages h.paged hown).2 n
          have hcount := hc n hputs.1
          rw [if_pos ⟨rfl, hputs.2⟩, h.owed, (hidle n).1, (hidle n).2, drift] at hdrift
          dsimp only at hcount
          simp at hdrift
          omega
      | write item word => exact hnot ⟨trivial, trivial⟩
  | lock | load | store => exact hnot ⟨trivial, trivial⟩

/-! ## Whole runs -/

/-- **The page count** is right outside the critical sections in every state of a run in which no page
is taken back from the list of pages with many free items and none is put, whatever the geometry, as
long as items are freed to the node of their page.  If the items fit into a page and the callers free
what they have, it is right exactly as long as this does not happen: a page that is put is taken off
without the lock.  As long as no page is taken back and no two changes of the count overlap, only
these pages are counted too much.  The usage that is printed goes by the count, in an `int`. -/
theorem nr_pages_iff (g : SlabGeom) (debug : Bool) (itemCount : ℕ → ℕ) (next nextHdr : ℕ → Option ℕ)
    (es : List (CountEvent N)) :
    (Along (countStep g debug) (fun s e => s.OwnPages g e ∧ s.NoAdoption e ∧ s.NoPut g e)
        (create itemCount next nextHdr) es →
      Throughout (countStep g debug) Counted (create itemCount next nextHdr) es) ∧
    (g.Fits → Along (countStep g debug) (Allowed g) (create itemCount next nextHdr) es →
      (Throughout (countStep g debug) Counted (create itemCount next nextHdr) es ↔
        Along (countStep g debug) (fun s e => s.NoAdoption e ∧ s.NoPut g e)
          (create itemCount next nextHdr) es)) ∧
    (Along (countStep g debug) (fun s e => s.OwnPages g e ∧ s.NoAdoption e ∧ s.Apart e)
        (create itemCount next nextHdr) es →
      Throughout (countStep g debug) Owed (create itemCount next nextHdr) es) ∧
    ∀ (s : PageCount N) (n : N), s.Counted → s.holder n = none →
      (s.slab.pagesOf n).length * g.pgsize < 2 ^ 63 →
        ((s.slab.slabUsage g n).toNat = (s.slab.pagesOf n).length * g.pgsize ↔
          (s.slab.pagesOf n).length * g.pgsize < 2 ^ 31) := by
  have hidle : (create itemCount next nextHdr : PageCount N).Idle := fun _ => ⟨rfl, rfl⟩
  have htidy : Tidy (create itemCount next nextHdr : PageCount N) := tidy_create _ _ _
  refine ⟨?_, ?_, ?_, fun s n hc hn => slabUsage_iff (hc n hn)⟩
  · apply throughout_of_along (I := fun s => Tidy s ∧ s.Idle)
    · intro s e s' hs he hstep
      exact countStep_idle hs.1 hs.2 he.1 he.2.1 he.2.2 hstep
    · exact fun s hs => hs.1.counted hs.2
    · exact ⟨htidy, hidle⟩
  · intro hfit hes
    refine throughout_iff_along (I := fun s => (∃ l, SlabInv g s.slab l) ∧ Tidy s ∧ s.Idle)
      (H := Allowed g) ?_ ?_ ⟨⟨_, create_inv g _ _ _⟩, htidy, hidle⟩ (htidy.counted hidle) hes
    · intro s e s' hs _ he hno hstep
      obtain ⟨hi, ht, hid⟩ := hs
      obtain ⟨u, hu, hi'⟩ := countStep_ok hfit debug hi ht hid he
      cases hstep.symm.trans hu
      have hnext := countStep_idle ht hid (he.ownPages hi) hno.1 hno.2 hstep
      exact ⟨⟨hi', hnext⟩, hnext.1.counted hnext.2⟩
    · intro s e hs _ he hno
      obtain ⟨hi, ht, hid⟩ := hs
      obtain ⟨u, hu, -⟩ := countStep_ok hfit debug hi ht hid he
      exact ⟨u, hu, countStep_wrong ht hid (he.ownPages hi) hno hu⟩
  · apply throughout_of_along (I := Tidy)
    · intro s e s' hs he hstep
      exact countStep_tidy hs he.1 he.2.1 he.2.2 hstep
    · exact fun s hs => hs.isOwed
    · exact htidy

/-- Allocations one after the other, for which `page_alloc_on_node` returns these pages. -/
def takes (fresh : List (Option ℕ)) : List (CountEvent Bool) :=
  fresh.flatMap fun pg => [.lock true, .call (.alloc true pg)]

/-- The first items of a page are freed. -/
def gives (pg k : ℕ) : List (CountEvent Bool) :=
  (List.range k).map fun i => .call (.free true (slabGeom512.slot pg i))

/-- The first page is used up and the next one begun. -/
def nineItems : List (CountEvent Bool) :=
  takes (some 10 :: List.replicate 7 none ++ [some 11])

/-- Four items of the first page are freed, then the second page is used up too, and the first one is
taken back. -/
def adoptRun : List (CountEvent Bool) := nineItems ++ gives 10 4 ++ takes (List.replicate 8 none)

/-- All items of the first page are freed, and it is put. -/
def putRun : List (CountEvent Bool) := nineItems ++ gives 10 8

/-- Between the load and the store of `nr_pages--`, a third page is begun. -/
def lostRun : List (CountEvent Bool) :=
  putRun ++ .load true :: takes (List.replicate 7 none ++ [some 12]) ++ [.store true 2]

def fresh512 : PageCount Bool := create (fun _ => 0) (fun _ => none) (fun _ => none)

theorem not_counted {s : PageCount Bool} (hn : s.holder true = none)
    (hne : (s.slab.node true).nrPages ≠ (s.slab.pagesOf true).length) : ¬ s.Counted :=
  fun hc => hne (hc true hn)

/-- The node has two pages and counts three; it has one and counts two, as one has been put; it has two
and counts one, as the page that was begun meanwhile is lost. -/
theorem page_count_wrong :
    (Along (countStep slabGeom512 true) (Allowed slabGeom512) fresh512 adoptRun ∧
      ∃ s, exec (countStep slabGeom512 true) fresh512 adoptRun = .ok s ∧
        s.slab.pagesOf true = [10, 11] ∧ (s.slab.node true).nrPages = 3 ∧
        s.slab.slabUsage slabGeom512 true = 12288#64 ∧ ¬ s.Counted) ∧
    (Along (countStep slabGeom512 true) (fun s e => s.Allowed slabGeom512 e ∧ s.NoAdoption e)
        fresh512 putRun ∧
      ∃ s, exec (countStep slabGeom512 true) fresh512 putRun = .ok s ∧
        s.slab.pagesOf true = [11] ∧ (s.slab.node true).nrPages = 2 ∧ ¬ s.Counted) ∧
    (Along (countStep slabGeom512 true) (fun s e => s.Allowed slabGeom512 e ∧ s.NoAdoption e)
        fresh512 lostRun ∧
      ∃ s, exec (countStep slabGeom512 true) fresh512 lostRun = .ok s ∧
        s.toLoad true = 0 ∧ s.loaded true = [] ∧
        s.slab.pagesOf true = [12, 11] ∧ (s.slab.node true).nrPages = 1 ∧ ¬ s.Counted) := by
  refine ⟨⟨by decide, final (countStep slabGeom512 true) fresh512 adoptRun, exec_final (by decide),
    by decide, by decide, by decide, not_counted (by decide) (by decide)⟩,
    ⟨by decide, final (countStep slabGeom512 true) fresh512 putRun, exec_final (by decide),
    by decide, by decide, not_counted (by decide) (by decide)⟩,
    ⟨by decide, final (countStep slabGeom512 true) fresh512 lostRun, exec_final (by decide),
    by decide, by decide, by decide, by decide, not_counted (by decide) (by decide)⟩⟩

end PageCount

end Skyloft
