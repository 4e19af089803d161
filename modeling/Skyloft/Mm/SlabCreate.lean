import Skyloft.Mm.Slab

/-!
# Where the items of a slab lie

`slab_create` rounds the size of an item up and computes from it how many items a page has;
`slab_init` sets up two slabs by hand, that of the `struct slab_node`s and that of the small pages.

* `slabCreate`, `smpageGeom`, `SlabMade` — the slabs.
* `slabCreate_fits` — the items of `slab_create` fit into a page.
* `Cutting` — a page that is being cut into items.
* `items_inside_iff` — items lie inside their page in all slabs but that of the nodes.
-/

namespace Skyloft

open Run

/-! ## The slabs -/

def pgsize4kb : ℕ := 4096
def pgsize2mb : ℕ := 2097152

/-- `align_up` of a `size_t`. -/
def alignUp (x align : BitVec 64) : BitVec 64 := ((x - 1) ||| (align - 1)) + 1

/-- `CACHE_LINE_SIZE` -/
def cacheLineSize : BitVec 64 := 64

/-- `__WORD_SIZE`, which is a number of bits. -/
def wordSize : BitVec 64 := 64

/-- `SLAB_4KB_LIMIT` -/
def slab4kbLimit : BitVec 64 := 512

/-- `SLAB_2MB_LIMIT` -/
def slab2mbLimit : BitVec 64 := 262144

def slabFlagLgpage : BitVec 32 := 1
def slabFlagFalseOkay : BitVec 32 := 2

/-- Why `slab_create` makes no slab. -/
inductive SlabRefusal
  /-- `-E2BIG` -/
  | tooBig
  /-- the page size is divided by a size of zero -/
  | divideByZero
  deriving DecidableEq

/-- The size of the items, rounded up as the flags say. -/
def slabItemSize (size : BitVec 64) (flags : BitVec 32) : BitVec 64 :=
  if flags &&& slabFlagFalseOkay = 0 then alignUp size cacheLineSize else alignUp size wordSize

/-- The flags of a slab whose items are too large for small pages. -/
def slabFlags (size : BitVec 64) (flags : BitVec 32) : BitVec 32 :=
  if slab4kbLimit < size then flags ||| slabFlagLgpage else flags

/-- The page size for items of a size that was rounded up. -/
def slabPgsize (size : BitVec 64) (flags : BitVec 32) : ℕ :=
  if slabFlags size flags &&& slabFlagLgpage ≠ 0 then pgsize2mb else pgsize4kb

theorem slabPgsize_pos (size : BitVec 64) (flags : BitVec 32) : 0 < slabPgsize size flags := by
  rw [slabPgsize]
  split <;> decide

theorem slabFlags_lgpage {size : BitVec 64} (flags : BitVec 32) (h : slab4kbLimit < size) :
    slabFlags size flags &&& slabFlagLgpage ≠ 0 := by
  intro hzero
  have hbit := congrArg (fun x => x.getLsbD 0) hzero
  simp [slabFlags, h, slabFlagLgpage] at hbit

theorem pos_of_ne_zero {size : BitVec 64} (h : size ≠ 0) : 0 < size.toNat := by
  rw [Nat.pos_iff_ne_zero]
  exact fun hz => h (BitVec.eq_of_toNat_eq hz)

/-- The limits leave room for a chunk of items. -/
theorem chunk_slabPgsize {size : BitVec 64} (flags : BitVec 32) (hmax : ¬ slab2mbLimit < size)
    (hsize : size ≠ 0) : 2 * partialThresh ≤ slabPgsize size flags / size.toNat := by
  have hlimit : size.toNat ≤ 262144 := by simpa [BitVec.lt_def, slab2mbLimit] using hmax
  rw [Nat.le_div_iff_mul_le (pos_of_ne_zero hsize), slabPgsize]
  by_cases hlg : slab4kbLimit < size
  · rw [if_pos (slabFlags_lgpage flags hlg)]
    simp only [partialThresh, pgsize2mb]
    omega
  · have hsmall : size.toNat ≤ 512 := by simpa [BitVec.lt_def, slab4kbLimit] using hlg
    split
    · simp only [partialThresh, pgsize2mb]
      omega
    · simp only [partialThresh, pgsize4kb]
      omega

/-- `slab_create`, with the numbers it passes to `__slab_create`. -/
def slabCreate (size : BitVec 64) (flags : BitVec 32) : Except SlabRefusal SlabGeom :=
  if hmax : slab2mbLimit < slabItemSize size flags then .error .tooBig
  else if hsize : slabItemSize size flags = 0 then .error .divideByZero
  else
    .ok {
      size := (slabItemSize size flags).toNat
      offset := 0
      nrElems := slabPgsize (slabItemSize size flags) flags / (slabItemSize size flags).toNat
      pgsize := slabPgsize (slabItemSize size flags) flags
      size_pos := pos_of_ne_zero hsize
      pgsize_pos := slabPgsize_pos _ flags
      chunk := chunk_slabPgsize flags hmax hsize }

/-- `sizeof(struct page)` -/
def sizeofPage : ℕ := 64

/-- `SMPAGE_META_LEN` -/
def smpageMetaLen : ℕ := pgsize2mb / pgsize4kb * sizeofPage

theorem smpage_chunk :
    2 * partialThresh ≤ (pgsize2mb - smpageMetaLen) / pgsize4kb := by decide

/-- The slab of the small pages, as `slab_init` creates it. -/
def smpageGeom : SlabGeom where
  size := pgsize4kb
  offset := smpageMetaLen
  nrElems := (pgsize2mb - smpageMetaLen) / pgsize4kb
  pgsize := pgsize2mb
  size_pos := Nat.succ_pos 4095
  pgsize_pos := Nat.succ_pos 2097151
  chunk := smpage_chunk

/-- The slabs there are: those of `slab_create` and the two of `slab_init`. -/
inductive SlabMade
  | created (size : BitVec 64) (flags : BitVec 32)
  | node
  | smpage

def SlabMade.geom : SlabMade → Except SlabRefusal SlabGeom
  | .created size flags => slabCreate size flags
  | .node => .ok SlabSys.nodeSlabGeom
  | .smpage => .ok smpageGeom

/-! ## Items that fit into a page -/

theorem slabCreate_fits {size : BitVec 64} {flags : BitVec 32} {g : SlabGeom}
    (h : slabCreate size flags = .ok g) : g.Fits := by
  rw [slabCreate] at h
  split at h
  · cases h
  · split at h
    · cases h
    · cases h
      rw [SlabGeom.Fits, Nat.zero_add]
      exact Nat.div_mul_le_self _ _

theorem smpageGeom_fits : smpageGeom.Fits := by decide

/-- The items of a slab fit into its pages, unless they are the `struct slab_node`s. -/
theorem SlabMade.fits_iff {k : SlabMade} {g : SlabGeom} (hk : k.geom = .ok g) :
    g.Fits ↔ k ≠ .node := by
  cases k with
  | created size flags => exact iff_of_true (slabCreate_fits hk) nofun
  | node =>
      cases hk
      exact iff_of_false (by decide) (not_not.mpr rfl)
  | smpage =>
      cases hk
      exact iff_of_true smpageGeom_fits nofun

namespace SlabSys

variable {N : Type} [DecidableEq N] {g : SlabGeom} {s s' : SlabSys N} {n : N} {pg item : ℕ}
  {debug : Bool}

/-- The item that an allocation returns lies inside the page it is taken from, which is the current
one then. -/
def ItemInside (g : SlabGeom) (debug : Bool) (s : SlabSys N) : SlabEvent N → Prop
  | .alloc n fresh => ∀ item s', s.slabNodeAlloc g debug n fresh = .ok (some item, s') →
      ∃ pg off, (s'.node n).curPg = some pg ∧ item = pg * g.pgsize + off ∧ off + g.size ≤ g.pgsize
  | _ => True

/-- An item is returned from a page that is the current one afterwards. -/
theorem takeItem_curPg (h : takeItem g debug s n pg = .ok (some item, s'))
    (hcur : (s.node n).curPg = some pg) : (s'.node n).curPg = some pg := by
  rw [takeItem] at h
  split at h
  · cases h
    exact hcur
  · dsimp only at h
    split at h
    · cases h
    · cases h
      simpa [setNode] using hcur

/-- An item stands at one of the places of its page. -/
theorem takeItem_slot {l : SlabLayout} (h : SlabInv g s l) (hcur : (s.node n).curPg = some pg)
    (hcount : s.itemCount pg ≠ 0) (hs : takeItem g debug s n pg = .ok (some item, s')) :
    ∃ j < g.nrElems, item = g.slot pg j := by
  have howner := (h.pages pg n).mpr (.inl hcur)
  have hle := h.carved_le pg n howner
  have hlinked := h.linked pg n howner
  rw [takeItem] at hs
  split at hs
  · rename_i hdr hnext
    cases hs
    rw [hnext] at hlinked
    obtain ⟨fs, hfs, -⟩ := hlinked.eq_cons
    have hmem : item ∈ slots g pg (l.carved pg) := by
      rw [h.items pg n howner, hfs]
      simp
    obtain ⟨j, hj, rfl⟩ := Multiset.mem_map.mp hmem
    exact ⟨j, lt_of_lt_of_le (Multiset.mem_range.mp hj) hle, rfl⟩
  · rename_i hnext
    dsimp only at hs
    split at hs
    · cases hs
    · cases hs
      rw [hnext] at hlinked
      have hc := h.count pg n howner
      rw [hlinked.eq_nil, List.length_nil] at hc
      have hlt : l.carved pg < g.nrElems := by omega
      have hoff := (h.pgOff pg n hcur).resolve_left (by omega)
      exact ⟨l.carved pg, hlt, by rw [hoff, SlabGeom.slot]⟩

/-- An item is taken from the page that is the current one afterwards, from one of its places. -/
def Placed (g : SlabGeom) (s' : SlabSys N) (n : N) (item : ℕ) : Prop :=
  ∃ pg j, (s'.node n).curPg = some pg ∧ j < g.nrElems ∧ item = g.slot pg j

theorem takeItem_placed {l : SlabLayout} (h : SlabInv g s l) (hcur : (s.node n).curPg = some pg)
    (hcount : s.itemCount pg ≠ 0) (hs : takeItem g debug s n pg = .ok (some item, s')) :
    s'.Placed g n item := by
  obtain ⟨j, hj, hitem⟩ := takeItem_slot h hcur hcount hs
  exact ⟨pg, j, takeItem_curPg hs hcur, hj, hitem⟩

theorem refill_placed {l : SlabLayout} (h : SlabInv g s l) (hcur : (s.node n).curPg = none)
    {fresh : Option ℕ} (hfresh : ∀ pg, fresh = some pg → s.owner pg = none)
    (hs : refill g debug s n fresh = .ok (some item, s')) : s'.Placed g n item := by
  cases hpart : (s.node n).partialList with
  | cons pg rest =>
      have hadopt := setNrPages_inv (adopt_inv h hcur hpart) n ((s.node n).nrPages + 1)
      have hmany := h.many pg n (by simp [hpart])
      have hpos : s.itemCount pg ≠ 0 := by
        have hthresh : partialThresh = 4 := rfl
        omega
      refine takeItem_placed hadopt (by simp) hpos (?_ : takeItem g debug _ n pg = _)
      simpa [refill, getPage, hpart] using hs
  | nil =>
      cases fresh with
      | none => simp [refill, getPage, hpart] at hs
      | some pg =>
          have hnew := setNrPages_inv (fresh_inv h hcur (hfresh pg rfl)) n
            ((s.node n).nrPages + 1)
          have hpos : g.nrElems ≠ 0 := by
            have hchunk := g.chunk
            have hthresh : partialThresh = 4 := rfl
            omega
          refine takeItem_placed hnew (by simp) (by simpa [setNode] using hpos)
            (?_ : takeItem g debug _ n pg = _)
          simpa [refill, getPage, hpart, setNode] using hs

theorem slabNodeAlloc_placed {l : SlabLayout} (h : SlabInv g s l) {fresh : Option ℕ}
    (hfresh : ∀ pg, fresh = some pg → s.owner pg = none)
    (hs : s.slabNodeAlloc g debug n fresh = .ok (some item, s')) : s'.Placed g n item := by
  cases hcur : (s.node n).curPg with
  | none =>
      rw [slabNodeAlloc, hcur] at hs
      exact refill_placed h hcur hfresh hs
  | some pg =>
      rw [slabNodeAlloc, hcur] at hs
      dsimp only at hs
      split at hs
      · rename_i hcount
        have hret := retire_inv h hcur hcount
        have heq := refill_eq (g := g)
          (s.setNode n { s.node n with fullList := pg :: (s.node n).fullList }) n debug fresh none
        simp only [setNode_setNode, node_setNode, if_true] at heq
        rw [← heq] at hs
        exact refill_placed hret (by simp) hfresh hs
      · rename_i hcount
        exact takeItem_placed h hcur hcount hs

/-- When the items fit, every place is inside its page. -/
theorem itemInside_of_fits (hfit : g.Fits) (h : ∃ l, SlabInv g s l) {e : SlabEvent N}
    (he : s.Allowed g e) : s.ItemInside g debug e := by
  obtain ⟨l, h⟩ := h
  cases e with
  | free | write => trivial
  | alloc n fresh =>
      intro item s' hs
      have hfresh : ∀ pg, fresh = some pg → s.owner pg = none := by
        intro pg hpg
        rwa [hpg] at he
      obtain ⟨pg, j, hcur, hj, hitem⟩ := slabNodeAlloc_placed h hfresh hs
      refine ⟨pg, g.offset + j * g.size, hcur, hitem, ?_⟩
      have hmul : (j + 1) * g.size ≤ g.nrElems * g.size := Nat.mul_le_mul_right _ hj
      rw [Nat.add_mul, Nat.one_mul] at hmul
      rw [SlabGeom.Fits] at hfit
      omega

/-! ## A page that is cut -/

/-- The current page is being cut: the next item is the one with number `j`. -/
structure Cutting (g : SlabGeom) (s : SlabSys N) (n : N) (pg j : ℕ) : Prop where
  curPg : (s.node n).curPg = some pg
  next : s.next pg = none
  count : s.itemCount pg + j = g.nrElems
  pgOff : (s.node n).pgOff = g.offset + j * g.size

/-- One item more. -/
theorem Cutting.step {j : ℕ} (h : Cutting g s n pg j) (hj : j < g.nrElems)
    (hoff : g.offset + j * g.size < g.pgsize) (debug : Bool) :
    ∃ s', s.slabNodeAlloc g debug n none = .ok (some (g.slot pg j), s') ∧
      Cutting g s' n pg (j + 1) := by
  have hcount := h.count
  have hpos : s.itemCount pg ≠ 0 := by omega
  have hassert : ¬ (debug = true ∧ g.pgsize ≤ (s.node n).pgOff) := by
    rw [h.pgOff]
    omega
  rw [slabNodeAlloc, h.curPg]
  dsimp only
  rw [if_neg hpos, takeItem, h.next]
  dsimp only
  rw [if_neg hassert, h.pgOff]
  refine ⟨_, rfl, ?_, h.next, ?_, ?_⟩
  · simpa [setNode] using h.curPg
  · simp only [Function.update_self]
    omega
  · simp only [node_setNode, if_true, Nat.add_mul, Nat.one_mul, Nat.add_assoc]

section

variable [Fintype N]

/-- A page is asked for, and cut into `j` items. -/
def cutRun (n : N) (j : ℕ) : List (SlabEvent N) :=
  .alloc n (some 0) :: List.replicate j (.alloc n none)

omit [DecidableEq N] [Fintype N] in
theorem cutRun_succ (n : N) (j : ℕ) : cutRun n (j + 1) = cutRun n j ++ [.alloc n none] := by
  rw [cutRun, cutRun, List.replicate_succ', List.cons_append]

/-- The first `j + 1` items of a page are where `pg_off` goes on, as long as each begins inside. -/
theorem exec_cutRun (debug : Bool) (itemCount : ℕ → ℕ) (next nextHdr : ℕ → Option ℕ) (n : N) :
    ∀ j < g.nrElems, g.offset + j * g.size < g.pgsize → ∃ s : SlabSys N,
      exec (slabStep g debug) (create itemCount next nextHdr) (cutRun n j) = .ok s ∧
        Cutting g s n 0 (j + 1) := by
  intro j
  induction j with
  | zero =>
      intro hpos hoff
      rw [Nat.zero_mul, Nat.add_zero] at hoff
      have hassert : ¬ (debug = true ∧ g.pgsize ≤ g.offset) := by omega
      have hstep : ∃ s, slabStep g debug (create itemCount next nextHdr) (.alloc n (some 0)) = .ok s ∧
          Cutting g s n 0 1 := by
        simp only [slabStep, slabNodeAlloc, create, refill, getPage, takeItem, setNode,
          Function.update_self, if_neg hassert]
        refine ⟨_, rfl, ?_, ?_, ?_, ?_⟩
        · simp
        · simp
        · simp only [Function.update_self]
          omega
        · simp
      obtain ⟨s, hs, hc⟩ := hstep
      exact ⟨s, exec_cons_ok.mpr ⟨s, hs, rfl⟩, hc⟩
  | succ j ih =>
      intro hj hoff
      have hprev : g.offset + j * g.size < g.pgsize := by
        rw [Nat.add_mul] at hoff
        omega
      obtain ⟨s, hs, hc⟩ := ih (by omega) hprev
      obtain ⟨s', hs', hc'⟩ := hc.step hj hoff debug
      refine ⟨s', ?_, hc'⟩
      rw [cutRun_succ]
      refine exec_append_ok.mpr ⟨s, hs, exec_cons_ok.mpr ⟨s', ?_, rfl⟩⟩
      rw [slabStep, hs']
      rfl

theorem allowed_cutRun (debug : Bool) (itemCount : ℕ → ℕ) (next nextHdr : ℕ → Option ℕ) (n : N)
    (j : ℕ) : Along (slabStep g debug) (Allowed g) (create itemCount next nextHdr) (cutRun n j) := by
  have hrest : ∀ (j : ℕ) (s : SlabSys N),
      Along (slabStep g debug) (Allowed g) s (List.replicate j (.alloc n none)) := by
    intro j
    induction j with
    | zero => intro s; trivial
    | succ j ih => intro s; exact ⟨trivial, fun s' _ => ih s'⟩
  exact ⟨rfl, fun s _ => hrest j s⟩

/-- In every run, the items that allocations return lie inside the page they are taken from. -/
def ItemsInside (N : Type) [DecidableEq N] [Fintype N] (g : SlabGeom) : Prop :=
  ∀ (debug : Bool) (itemCount : ℕ → ℕ) (next nextHdr : ℕ → Option ℕ) (es : List (SlabEvent N)),
    Along (slabStep g debug) (Allowed g) (create itemCount next nextHdr) es →
      Along (slabStep g debug) (ItemInside g debug) (create itemCount next nextHdr) es

theorem itemsInside_of_fits (hfit : g.Fits) : ItemsInside N g := by
  intro debug itemCount next nextHdr es hes
  refine Along.imp (I := fun s => ∃ l, SlabInv g s l) (G := Allowed g) ?_ ?_
    ⟨_, create_inv g itemCount next nextHdr⟩ hes
  · intro s e s' hi he hs
    obtain ⟨s'', hs'', hi'⟩ := slabStep_inv hfit debug hi he
    cases hs.symm.trans hs''
    exact hi'
  · intro s e hi he
    exact itemInside_of_fits hfit hi he

/-- After the items that fit, the page gives one that begins inside of it and ends outside. -/
theorem not_itemsInside {j : ℕ} (hj : j + 1 < g.nrElems)
    (hstart : g.offset + (j + 1) * g.size < g.pgsize)
    (hend : g.pgsize < g.offset + (j + 1) * g.size + g.size) (n : N) : ¬ ItemsInside N g := by
  intro h
  have hprev : g.offset + j * g.size < g.pgsize := by
    rw [Nat.add_mul] at hstart
    omega
  obtain ⟨s, hs, hc⟩ :=
    exec_cutRun (g := g) false (fun _ => 0) (fun _ => none) (fun _ => none) n j (by omega) hprev
  obtain ⟨s', hs', hc'⟩ := hc.step hj hstart false
  have hall := allowed_cutRun (g := g) false (fun _ => 0) (fun _ => none) (fun _ => none) n (j + 1)
  have hlast := h false _ _ _ _ hall
  rw [cutRun_succ] at hlast
  obtain ⟨pg, off, hcur, hitem, hle⟩ := hlast.last hs _ _ hs'
  -- the page is still the one with number 0
  cases hcur.symm.trans hc'.curPg
  rw [SlabGeom.slot] at hitem
  omega

/-- The forty-third `struct slab_node` of a page goes past the page's end. -/
theorem node_item_past_page :
    SlabMade.node.geom = .ok nodeSlabGeom ∧ ¬ nodeSlabGeom.Fits ∧
    Along (slabStep nodeSlabGeom true) (Allowed nodeSlabGeom)
      (create (fun _ => 0) (fun _ => none) (fun _ => none)) (cutRun false 42) ∧
    ∃ s s' : SlabSys Bool, exec (slabStep nodeSlabGeom true)
        (create (fun _ => 0) (fun _ => none) (fun _ => none)) (cutRun false 41) = .ok s ∧
      s.slabNodeAlloc nodeSlabGeom true false none = .ok (some 4032, s') ∧
      (s'.node false).curPg = some 0 ∧ nodeSlabGeom.pgsize < 4032 + nodeSlabGeom.size := by
  obtain ⟨s, hs, hc⟩ := exec_cutRun (g := nodeSlabGeom) true (fun _ => 0) (fun _ => none)
    (fun _ => none) false 41 (by decide) (by decide)
  obtain ⟨s', hs', hc'⟩ := hc.step (by decide) (by decide) true
  exact ⟨rfl, by decide, allowed_cutRun true _ _ _ false 42, s, s', hs, hs', hc'.curPg, by decide⟩

/-- **Items lie inside their page** in every run of a slab of `slab_create`, and of the slab of the
small pages. The slab of the `struct slab_node`s counts more items than fit into its page, and
allocations alone reach one that goes past the end. -/
theorem items_inside_iff {k : SlabMade} (hk : k.geom = .ok g) (n : N) :
    (ItemsInside N g ↔ k ≠ .node) ∧ (g.Fits ↔ k ≠ .node) := by
  refine ⟨⟨?_, fun hne => itemsInside_of_fits ((SlabMade.fits_iff hk).mpr hne)⟩,
    SlabMade.fits_iff hk⟩
  rintro h rfl
  cases hk
  exact not_itemsInside (g := nodeSlabGeom) (j := 41) (by decide) (by decide) (by decide) n h

theorem items_inside_iff_hundred : ∃ g, slabCreate 100 0 = .ok g ∧ g.size = 128 ∧
    (ItemsInside Bool g ↔ SlabMade.created 100 0 ≠ .node) ∧
    (g.Fits ↔ SlabMade.created 100 0 ≠ .node) :=
  have hk : (SlabMade.created 100 0).geom = .ok _ := rfl
  ⟨_, hk, rfl, items_inside_iff hk true⟩

end

end SlabSys

end Skyloft
