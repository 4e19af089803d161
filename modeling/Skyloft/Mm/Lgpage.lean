import Skyloft.Errno
import Skyloft.Mm.SlabCreate

/-!
# Large pages

A NUMA node has a table with an entry for each large page that its address space has room for.  An
allocation takes an entry from the node's list of free ones, or the next one that was never used, and
then maps the page; a page that is freed is unmapped and its entry goes to the list.  An entry is
given by its place in the table of all nodes, which also says at which address its page is.

* `LgpageSys`, `lgpageStep` — the nodes and the entries, and the two calls.
* `LgpageSys.NoLoss` — every entry that was taken is in use or on the list.
* `LgpageInv` — an entry is in one place at most.
* `lgpages_kept_iff` — entries are kept as long as no page fails to be created.
-/

namespace Skyloft

open Run

/-! ## The table -/

/-- `LGPAGE_META_ENTS` -/
def lgpageMetaEnts : ℕ := pgsize2mb / sizeofPage

/-- `MAX_NUMA` -/
def maxNuma : ℕ := 2

def pageBaseAddr : ℕ := 0x100000000000

def lgpageToAddr (pg : ℕ) : ℕ := pageBaseAddr + pg * pgsize2mb

def addrToNumaNode (addr : ℕ) : ℕ := (addr - pageBaseAddr) / (lgpageMetaEnts * pgsize2mb)

/-- The node of an entry. -/
def lgpageNuma (pg : ℕ) : ℕ := pg / lgpageMetaEnts

theorem lgpageMetaEnts_pos : 0 < lgpageMetaEnts := by decide

theorem addrToNumaNode_lgpageToAddr (pg : ℕ) :
    addrToNumaNode (lgpageToAddr pg) = lgpageNuma pg := by
  rw [addrToNumaNode, lgpageToAddr, Nat.add_sub_cancel_left, lgpageNuma]
  exact Nat.mul_div_mul_right _ _ (by decide)

def pageFlagLarge : BitVec 32 := 1
def pageFlagInUse : BitVec 32 := 2

/-- `struct lgpage_node`, with the entries on its list. -/
structure LgpageNode where
  idx : ℕ
  pages : List ℕ

/-- The nodes, the entries and which of them callers have. -/
structure LgpageSys where
  node : ℕ → LgpageNode
  flags : ℕ → BitVec 32
  paddr : ℕ → ℕ
  held : Multiset ℕ

/-- How the page of an entry is mapped. -/
inductive LgpageMap
  /-- `mem_map_anom` fails -/
  | failed
  /-- what `mem_lookup_page_phys_addr` returns, and the address it finds -/
  | mapped (ret : ℤ) (paddr : ℕ)

inductive LgpageFault
  /-- an assertion of `lgpage_alloc_on_node` or `lgpage_free` -/
  | assertion
  deriving DecidableEq

inductive LgpageEvent
  | alloc (numaNode : ℕ) (map : LgpageMap)
  | free (pg : ℕ)

namespace LgpageSys

/-- `page_init` -/
def init : LgpageSys where
  node _ := { idx := 0, pages := [] }
  flags _ := 0
  paddr _ := 0
  held := 0

def setNode (s : LgpageSys) (n : ℕ) (node : LgpageNode) : LgpageSys :=
  { s with node := Function.update s.node n node }

/-- What `lgpage_alloc_on_node` does under the lock of the node: an entry, if there is one. -/
def takeEntry (s : LgpageSys) (n : ℕ) : Option (ℕ × LgpageSys) :=
  match (s.node n).pages with
  | pg :: pages => some (pg, s.setNode n { s.node n with pages })
  | [] =>
      if lgpageMetaEnts ≤ (s.node n).idx then none
      else
        some (n * lgpageMetaEnts + (s.node n).idx,
          s.setNode n { s.node n with idx := (s.node n).idx + 1 })

def lgpageCreate (s : LgpageSys) (pg : ℕ) : LgpageMap → ℤ × LgpageSys
  | .failed => (-eNomem, s)
  | .mapped ret paddr =>
      if ret ≠ 0 then (ret, s)
      else
        (0, { s with
          paddr := Function.update s.paddr pg paddr
          flags := Function.update s.flags pg (pageFlagLarge ||| pageFlagInUse) })

def lgpageDestroy (s : LgpageSys) (pg : ℕ) : LgpageSys :=
  { s with flags := Function.update s.flags pg 0, paddr := Function.update s.paddr pg 0 }

def lgpageAllocOnNode (s : LgpageSys) (n : ℕ) (map : LgpageMap) :
    Except LgpageFault (Option ℕ × LgpageSys) :=
  if maxNuma ≤ n then .error .assertion
  else
    match s.takeEntry n with
    | none => .ok (none, s)
    | some (pg, s) =>
        if s.flags pg &&& pageFlagInUse ≠ 0 then .error .assertion
        else
          let r := s.lgpageCreate pg map
          if r.1 ≠ 0 then .ok (none, r.2)
          else .ok (some pg, { r.2 with held := pg ::ₘ r.2.held })

def lgpageFree (s : LgpageSys) (pg : ℕ) : Except LgpageFault LgpageSys :=
  let n := addrToNumaNode (lgpageToAddr pg)
  if maxNuma ≤ n then .error .assertion
  else
    let s := s.lgpageDestroy pg
    let s := s.setNode n { s.node n with pages := pg :: (s.node n).pages }
    .ok { s with held := s.held.erase pg }

end LgpageSys

/-- One call. -/
def lgpageStep (s : LgpageSys) : LgpageEvent → Except LgpageFault LgpageSys
  | .alloc n map => (s.lgpageAllocOnNode n map).map Prod.snd
  | .free pg => s.lgpageFree pg

namespace LgpageSys

variable {s s' : LgpageSys} {n pg : ℕ} {map : LgpageMap} {e : LgpageEvent}

/-! ## What is to hold of the entries -/

/-- The entry is below `idx`. -/
def Taken (s : LgpageSys) (pg : ℕ) : Prop :=
  pg % lgpageMetaEnts < (s.node (lgpageNuma pg)).idx

/-- Every entry below `idx` is in use by a caller or on the list of its node. -/
def NoLoss (s : LgpageSys) : Prop :=
  ∀ pg, lgpageNuma pg < maxNuma → s.Taken pg →
    pg ∈ s.held ∨ pg ∈ (s.node (lgpageNuma pg)).pages

/-- How many pages can be allocated on a node. -/
def allocatable (s : LgpageSys) (n : ℕ) : ℕ :=
  (s.node n).pages.length + (lgpageMetaEnts - (s.node n).idx)

/-- An allocation that fails leaves their number as it was. -/
def FailureKeeps (s : LgpageSys) : LgpageEvent → Prop
  | .alloc n map => ∀ s', s.lgpageAllocOnNode n map = .ok (none, s') →
      ∀ m, s'.allocatable m = s.allocatable m
  | .free _ => True

/-- An allocation is for a node that there is, and what is freed is the caller's. -/
def Allowed (s : LgpageSys) : LgpageEvent → Prop
  | .alloc n _ => n < maxNuma
  | .free pg => pg ∈ s.held

/-- The page can be created. -/
def Created : LgpageMap → Prop
  | .failed => False
  | .mapped ret _ => ret = 0

/-- The page that an allocation finds an entry for can be created. -/
def PageCreated (s : LgpageSys) : LgpageEvent → Prop
  | .alloc n map => s.takeEntry n = none ∨ Created map
  | .free _ => True

/-- Entries are in one place at most, below `idx`, and those that nobody has are not marked as in
use. -/
structure LgpageInv (s : LgpageSys) : Prop where
  idx_le : ∀ n, (s.node n).idx ≤ lgpageMetaEnts
  nodup : ∀ n, (s.node n).pages.Nodup
  listed : ∀ n, ∀ pg ∈ (s.node n).pages, lgpageNuma pg = n ∧ s.Taken pg ∧ pg ∉ s.held
  held : ∀ pg ∈ s.held, lgpageNuma pg < maxNuma ∧ s.Taken pg
  held_nodup : s.held.Nodup
  unused : ∀ pg, pg ∉ s.held → s.flags pg &&& pageFlagInUse = 0

/-! ## An entry is taken -/

theorem setNode_node (s : LgpageSys) (n m : ℕ) (v : LgpageNode) :
    (s.setNode n v).node m = if m = n then v else s.node m :=
  Function.update_apply ..

/-- An entry that nobody has was taken from the node. -/
structure EntryTaken (s s' : LgpageSys) (n pg : ℕ) : Prop where
  numa : lgpageNuma pg = n
  free : pg ∉ s.held
  held : s'.held = s.held
  flags : s'.flags = s.flags
  idx_le : ∀ m, (s'.node m).idx ≤ lgpageMetaEnts
  taken : ∀ q, s'.Taken q ↔ s.Taken q ∨ q = pg
  listed : ∀ m q, q ∈ (s'.node m).pages ↔ q ∈ (s.node m).pages ∧ q ≠ pg
  nodup : ∀ m, (s'.node m).pages.Nodup
  count : s'.allocatable n + 1 = s.allocatable n

/-- The first entry of the list. -/
theorem entryTaken_list (h : LgpageInv s) {pages : List ℕ} (hp : (s.node n).pages = pg :: pages) :
    EntryTaken s (s.setNode n { s.node n with pages }) n pg := by
  have hmem : pg ∈ (s.node n).pages := hp ▸ List.mem_cons_self
  obtain ⟨hnuma, htaken, hfree⟩ := h.listed n pg hmem
  have hnodup := h.nodup n
  rw [hp] at hnodup
  have hidx : ∀ m, ((s.setNode n { s.node n with pages }).node m).idx = (s.node m).idx := by
    intro m
    rw [setNode_node]
    split
    · rename_i hm
      rw [hm]
    · rfl
  have hkeep : ∀ q, (s.setNode n { s.node n with pages }).Taken q ↔ s.Taken q := by
    intro q
    rw [Taken, Taken, hidx]
  refine ⟨hnuma, hfree, rfl, rfl, ?_, ?_, ?_, ?_, ?_⟩
  · intro m
    rw [hidx]
    exact h.idx_le m
  · intro q
    rw [hkeep]
    exact ⟨.inl, fun hq => hq.elim id fun heq => heq ▸ htaken⟩
  · intro m q
    rw [setNode_node]
    by_cases hm : m = n
    · subst hm
      rw [if_pos rfl, hp, List.mem_cons]
      constructor
      · exact fun hq => ⟨.inr hq, fun heq => (List.nodup_cons.mp hnodup).1 (heq ▸ hq)⟩
      · exact fun hq => hq.1.resolve_left hq.2
    · rw [if_neg hm]
      refine ⟨fun hq => ⟨hq, ?_⟩, And.left⟩
      rintro rfl
      exact hm ((h.listed m q hq).1.symm.trans hnuma)
  · intro m
    rw [setNode_node]
    split
    · exact hnodup.of_cons
    · exact h.nodup m
  · rw [allocatable, allocatable, hidx, setNode_node, if_pos rfl, hp, List.length_cons]
    exact Nat.add_right_comm _ _ _

/-- The next entry that was never used. -/
theorem entryTaken_idx (h : LgpageInv s)
    (hidx : (s.node n).idx < lgpageMetaEnts) :
    EntryTaken s (s.setNode n { s.node n with idx := (s.node n).idx + 1 }) n
      (n * lgpageMetaEnts + (s.node n).idx) := by
  have hnuma : lgpageNuma (n * lgpageMetaEnts + (s.node n).idx) = n := by
    rw [lgpageNuma, Nat.mul_comm, Nat.mul_add_div lgpageMetaEnts_pos, Nat.div_eq_of_lt hidx,
      Nat.add_zero]
  have hmod : (n * lgpageMetaEnts + (s.node n).idx) % lgpageMetaEnts = (s.node n).idx := by
    rw [Nat.mul_comm, Nat.mul_add_mod, Nat.mod_eq_of_lt hidx]
  have hnew : ¬ s.Taken (n * lgpageMetaEnts + (s.node n).idx) := by
    rw [Taken, hnuma, hmod]
    exact lt_irrefl _
  have hpages : ∀ m, ((s.setNode n { s.node n with idx := (s.node n).idx + 1 }).node m).pages =
      (s.node m).pages := by
    intro m
    rw [setNode_node]
    split
    · rename_i hm
      rw [hm]
    · rfl
  refine ⟨hnuma, fun hheld => hnew (h.held _ hheld).2, rfl, rfl, ?_, ?_, ?_, ?_, ?_⟩
  · intro m
    rw [setNode_node]
    split
    · exact hidx
    · exact h.idx_le m
  · intro q
    rw [Taken, Taken, setNode_node]
    by_cases hq : lgpageNuma q = n
    · rw [if_pos hq, hq]
      have hdecomp : q = n * lgpageMetaEnts + q % lgpageMetaEnts := by
        rw [← hq, lgpageNuma, Nat.mul_comm]
        exact (Nat.div_add_mod q _).symm
      dsimp only
      omega
    · rw [if_neg hq]
      refine ⟨.inl, fun hor => hor.resolve_right ?_⟩
      rintro rfl
      exact hq hnuma
  · intro m q
    rw [hpages]
    refine ⟨fun hq => ⟨hq, ?_⟩, And.left⟩
    rintro rfl
    exact hnew (h.listed m _ hq).2.1
  · intro m
    rw [hpages]
    exact h.nodup m
  · rw [allocatable, allocatable, hpages, setNode_node, if_pos rfl]
    dsimp only
    omega

theorem takeEntry_taken (h : LgpageInv s) (hs : s.takeEntry n = some (pg, s')) :
    EntryTaken s s' n pg := by
  rw [takeEntry] at hs
  split at hs
  · rename_i hp
    cases hs
    exact entryTaken_list h hp
  · split at hs
    · cases hs
    · rename_i hidx
      cases hs
      exact entryTaken_idx h (Nat.lt_of_not_le hidx)

theorem EntryTaken.inv (h : LgpageInv s) (ht : EntryTaken s s' n pg) : LgpageInv s' := by
  refine ⟨ht.idx_le, ht.nodup, ?_, ?_, ?_, ?_⟩
  · intro m q hq
    have hq' := (ht.listed m q).mp hq
    obtain ⟨hnuma, htaken, hfree⟩ := h.listed m q hq'.1
    exact ⟨hnuma, (ht.taken q).mpr (.inl htaken), ht.held ▸ hfree⟩
  · intro q hq
    rw [ht.held] at hq
    exact ⟨(h.held q hq).1, (ht.taken q).mpr (.inl (h.held q hq).2)⟩
  · rw [ht.held]
    exact h.held_nodup
  · intro q hq
    rw [ht.flags]
    exact h.unused q (ht.held ▸ hq)

/-- Once the entry is taken and the page is not created, nobody has it. -/
theorem EntryTaken.not_noLoss (ht : EntryTaken s s' n pg) (hn : n < maxNuma) : ¬ s'.NoLoss := by
  intro hall
  rcases hall pg (ht.numa ▸ hn) ((ht.taken pg).mpr (.inr rfl)) with hheld | hlist
  · exact ht.free (ht.held ▸ hheld)
  · exact ((ht.listed _ _).mp hlist).2 rfl

/-! ## The calls -/

/-- The page of an entry was created for a caller. -/
def handOut (s : LgpageSys) (pg paddr : ℕ) : LgpageSys :=
  { s with
    paddr := Function.update s.paddr pg paddr
    flags := Function.update s.flags pg (pageFlagLarge ||| pageFlagInUse)
    held := pg ::ₘ s.held }

theorem handOut_inv (h : LgpageInv s) (hnuma : lgpageNuma pg < maxNuma) (htaken : s.Taken pg)
    (hfree : pg ∉ s.held) (hlist : ∀ m, pg ∉ (s.node m).pages) (paddr : ℕ) :
    LgpageInv (s.handOut pg paddr) := by
  refine ⟨h.idx_le, h.nodup, ?_, ?_, Multiset.nodup_cons.mpr ⟨hfree, h.held_nodup⟩, ?_⟩
  · intro m q hq
    obtain ⟨hq₁, hq₂, hq₃⟩ := h.listed m q hq
    refine ⟨hq₁, hq₂, ?_⟩
    rintro hmem
    rcases Multiset.mem_cons.mp hmem with rfl | hmem
    · exact hlist m hq
    · exact hq₃ hmem
  · intro q hq
    rcases Multiset.mem_cons.mp hq with rfl | hq
    · exact ⟨hnuma, htaken⟩
    · exact h.held q hq
  · intro q hq
    have hne : q ≠ pg := fun heq => hq (heq ▸ Multiset.mem_cons_self _ _)
    have hq' : q ∉ s.held := fun hmem => hq (Multiset.mem_cons_of_mem hmem)
    have hflags : (s.handOut pg paddr).flags q = s.flags q := Function.update_of_ne hne ..
    rw [hflags]
    exact h.unused q hq'

/-- What an allocation does: there is no entry, or one is taken, and the page is created or not. -/
theorem alloc_cases (h : LgpageInv s) (hn : n < maxNuma) (map : LgpageMap) :
    (s.takeEntry n = none ∧ s.lgpageAllocOnNode n map = .ok (none, s)) ∨
    ∃ pg u, EntryTaken s u n pg ∧ s.takeEntry n ≠ none ∧
      ((¬ Created map ∧ s.lgpageAllocOnNode n map = .ok (none, u)) ∨
        Created map ∧ ∃ paddr, s.lgpageAllocOnNode n map = .ok (some pg, u.handOut pg paddr)) := by
  rw [lgpageAllocOnNode, if_neg (not_le.mpr hn)]
  cases hs : s.takeEntry n with
  | none => exact .inl ⟨rfl, rfl⟩
  | some r =>
      obtain ⟨pg, u⟩ := r
      have ht := takeEntry_taken h hs
      have hunused : ¬ u.flags pg &&& pageFlagInUse ≠ 0 := by
        rw [ht.flags, not_not]
        exact h.unused pg ht.free
      refine .inr ⟨pg, u, ht, Option.some_ne_none _, ?_⟩
      dsimp only
      rw [if_neg hunused]
      cases map with
      | failed => exact .inl ⟨id, rfl⟩
      | mapped ret paddr =>
          by_cases hret : ret = 0
          · subst hret
            exact .inr ⟨rfl, paddr, rfl⟩
          · refine .inl ⟨hret, ?_⟩
            simp only [lgpageCreate, if_pos hret]

/-- A page that is freed is on the list, and nobody has it. -/
theorem free_spec (h : LgpageInv s) (hpg : pg ∈ s.held) :
    ∃ s', s.lgpageFree pg = .ok s' ∧ LgpageInv s' ∧ (∀ q, s'.Taken q ↔ s.Taken q) ∧
      ∀ q, (q ∈ s.held ∨ q ∈ (s.node (lgpageNuma q)).pages) →
        q ∈ s'.held ∨ q ∈ (s'.node (lgpageNuma q)).pages := by
  obtain ⟨hnuma, htaken⟩ := h.held pg hpg
  have hout : ∀ m, pg ∉ (s.node m).pages := fun m hmem => (h.listed m pg hmem).2.2 hpg
  have hnot : ∀ q, q ∈ s.held.erase pg ↔ q ≠ pg ∧ q ∈ s.held :=
    fun q => h.held_nodup.mem_erase_iff
  obtain ⟨v, hv⟩ : ∃ v : LgpageNode, v =
      { s.node (lgpageNuma pg) with pages := pg :: (s.node (lgpageNuma pg)).pages } := ⟨_, rfl⟩
  have hidx : ∀ m, ((s.setNode (lgpageNuma pg) v).node m).idx = (s.node m).idx := by
    intro m
    rw [setNode_node, hv]
    split
    · rename_i hm
      rw [hm]
    · rfl
  have hpages : ∀ m q, q ∈ ((s.setNode (lgpageNuma pg) v).node m).pages ↔
      (m = lgpageNuma pg ∧ q = pg) ∨ q ∈ (s.node m).pages := by
    intro m q
    rw [setNode_node, hv]
    by_cases hm : m = lgpageNuma pg
    · subst hm
      simp
    · simp [hm]
  let s' : LgpageSys :=
    { (s.lgpageDestroy pg).setNode (lgpageNuma pg) v with held := s.held.erase pg }
  have hkeep : ∀ q, s'.Taken q ↔ s.Taken q := by
    intro q
    exact iff_of_eq (congrArg (q % lgpageMetaEnts < ·) (hidx _))
  refine ⟨s', ?_, ?_, hkeep, ?_⟩
  · unfold lgpageFree
    rw [addrToNumaNode_lgpageToAddr]
    dsimp only
    rw [if_neg (not_le.mpr hnuma)]
    subst hv
    rfl
  · refine ⟨?_, ?_, ?_, ?_, h.held_nodup.erase pg, ?_⟩
    · intro m
      exact (hidx m).le.trans (h.idx_le m)
    · intro m
      show ((s.setNode (lgpageNuma pg) v).node m).pages.Nodup
      rw [setNode_node, hv]
      split
      · exact List.nodup_cons.mpr ⟨hout _, h.nodup _⟩
      · exact h.nodup m
    · intro m q hq
      rcases (hpages m q).mp hq with ⟨rfl, rfl⟩ | hq
      · exact ⟨rfl, (hkeep _).mpr htaken, fun hmem => ((hnot _).mp hmem).1 rfl⟩
      · obtain ⟨hq₁, hq₂, hq₃⟩ := h.listed m q hq
        exact ⟨hq₁, (hkeep _).mpr hq₂, fun hmem => hq₃ ((hnot _).mp hmem).2⟩
    · intro q hq
      obtain ⟨hq₁, hq₂⟩ := h.held q ((hnot q).mp hq).2
      exact ⟨hq₁, (hkeep _).mpr hq₂⟩
    · intro q hq
      show Function.update s.flags pg 0 q &&& pageFlagInUse = 0
      rw [Function.update_apply]
      split
      · rfl
      · rename_i hne
        exact h.unused q fun hmem => hq ((hnot q).mpr ⟨hne, hmem⟩)
  · rintro q (hq | hq)
    · by_cases hqp : q = pg
      · exact .inr ((hpages _ _).mpr (.inl ⟨congrArg lgpageNuma hqp, hqp⟩))
      · exact .inl ((hnot q).mpr ⟨hqp, hq⟩)
    · exact .inr ((hpages _ _).mpr (.inr hq))

/-! ## Runs -/

theorem init_inv : LgpageInv init := by
  refine ⟨fun _ => Nat.zero_le _, fun _ => List.nodup_nil, ?_, ?_, Multiset.nodup_zero, ?_⟩
  · intro n pg hpg
    exact absurd hpg List.not_mem_nil
  · intro pg hpg
    exact absurd hpg (Multiset.notMem_zero pg)
  · intro pg _
    exact BitVec.zero_and

theorem init_noLoss : init.NoLoss := by
  intro pg _ htaken
  exact absurd htaken (Nat.not_lt_zero _)

/-- No call faults, and entries stay in one place at most. -/
theorem lgpageStep_inv (h : LgpageInv s) (he : s.Allowed e) :
    ∃ s', lgpageStep s e = .ok s' ∧ LgpageInv s' := by
  cases e with
  | free pg =>
      obtain ⟨s', hs', hinv, -⟩ := free_spec h he
      exact ⟨s', hs', hinv⟩
  | alloc n map =>
      rcases alloc_cases h he map with ⟨-, hs⟩ | ⟨pg, u, ht, -, ⟨-, hs⟩ | ⟨-, paddr, hs⟩⟩
      · exact ⟨s, by rw [lgpageStep, hs]; rfl, h⟩
      · exact ⟨u, by rw [lgpageStep, hs]; rfl, ht.inv h⟩
      · refine ⟨u.handOut pg paddr, by rw [lgpageStep, hs]; rfl, ?_⟩
        apply handOut_inv (ht.inv h)
        · exact ht.numa ▸ he
        · exact (ht.taken pg).mpr (.inr rfl)
        · exact ht.held ▸ ht.free
        · exact fun m hmem => ((ht.listed m pg).mp hmem).2 rfl

/-- While pages can be created, no entry is lost. -/
theorem noLoss_step (h : LgpageInv s) (hp : s.NoLoss) (he : s.Allowed e) (hg : s.PageCreated e)
    (hs : lgpageStep s e = .ok s') : s'.NoLoss := by
  cases e with
  | free pg =>
      obtain ⟨u, hu, -, htaken, hkeep⟩ := free_spec h he
      rw [lgpageStep, hu] at hs
      cases hs
      exact fun q hq hq' => hkeep q (hp q hq ((htaken q).mp hq'))
  | alloc n map =>
      rcases alloc_cases h he map with ⟨-, hu⟩ | ⟨pg, u, ht, hsome, ⟨hnot, -⟩ | ⟨-, paddr, hu⟩⟩
      · rw [lgpageStep, hu] at hs
        cases hs
        exact hp
      · exact absurd (hg.resolve_left hsome) hnot
      · rw [lgpageStep, hu] at hs
        cases hs
        intro q hq hq'
        by_cases hqp : q = pg
        · exact .inl (hqp ▸ Multiset.mem_cons_self _ _)
        · rcases hp q hq (((ht.taken q).mp hq').resolve_right hqp) with hheld | hlist
          · exact .inl (Multiset.mem_cons_of_mem (ht.held.symm ▸ hheld))
          · exact .inr ((ht.listed _ q).mpr ⟨hlist, hqp⟩)

/-- A page that cannot be created takes its entry with it. -/
theorem loss_step (h : LgpageInv s) (he : s.Allowed e) (hg : ¬ s.PageCreated e) :
    ∃ s', lgpageStep s e = .ok s' ∧ ¬ s'.NoLoss := by
  cases e with
  | free pg => exact absurd trivial hg
  | alloc n map =>
      rcases alloc_cases h he map with ⟨hnone, -⟩ | ⟨pg, u, ht, -, ⟨-, hu⟩ | ⟨hmap, -⟩⟩
      · exact absurd (.inl hnone) hg
      · exact ⟨u, by rw [lgpageStep, hu]; rfl, ht.not_noLoss he⟩
      · exact absurd (.inr hmap) hg

theorem failureKeeps_of_pageCreated (h : LgpageInv s) (he : s.Allowed e) (hg : s.PageCreated e) :
    s.FailureKeeps e := by
  cases e with
  | free pg => trivial
  | alloc n map =>
      intro s' hs m
      rcases alloc_cases h he map with ⟨-, hu⟩ | ⟨pg, u, ht, hsome, ⟨hnot, -⟩ | ⟨-, paddr, hu⟩⟩
      · rw [hu] at hs
        cases hs
        rfl
      · exact absurd (hg.resolve_left hsome) hnot
      · rw [hu] at hs
        cases hs

/-- **Large-page entries.**  In a run of calls, none of which faults, no entry is lost and failed
allocations leave as many pages to allocate as there were, exactly if every page that an allocation
finds an entry for is created. -/
theorem lgpages_kept_iff (es : List LgpageEvent) (hes : Along lgpageStep Allowed init es) :
    (∃ s, exec lgpageStep init es = .ok s) ∧
      (Throughout lgpageStep NoLoss init es ∧ Along lgpageStep FailureKeeps init es ↔
        Along lgpageStep PageCreated init es) := by
  have hstep : ∀ s e s', LgpageInv s → s.Allowed e ∧ s.PageCreated e → lgpageStep s e = .ok s' →
      LgpageInv s' := by
    intro s e s' h he hs
    obtain ⟨u, hu, hinv⟩ := lgpageStep_inv h he.1
    rw [hs] at hu
    cases hu
    exact hinv
  have hlast := throughout_iff_along (I := LgpageInv) (P := NoLoss) (G := PageCreated) (H := Allowed)
    (fun s e s' h hp he hg hs => ⟨hstep s e s' h ⟨he, hg⟩ hs, noLoss_step h hp he hg hs⟩)
    (fun s e h _ he hg => loss_step h he hg) init_inv init_noLoss hes
  refine ⟨?_, ?_⟩
  · obtain ⟨s, hs, -⟩ := exec_ok (fun s e h he => lgpageStep_inv h he) init_inv hes
    exact ⟨s, hs⟩
  · constructor
    · exact fun hall => hlast.mp hall.1
    · intro hg
      refine ⟨hlast.mpr hg, ?_⟩
      exact (hes.and hg).imp hstep (fun s e h he => failureKeeps_of_pageCreated h he.1 he.2) init_inv

instance (s : LgpageSys) : (e : LgpageEvent) → Decidable (s.Allowed e)
  | .alloc n _ => inferInstanceAs (Decidable (n < maxNuma))
  | .free pg => inferInstanceAs (Decidable (pg ∈ s.held))

/-- Two pages on different nodes, the first one freed and allocated again. -/
def lgpageRun : List LgpageEvent :=
  [.alloc 0 (.mapped 0 7), .alloc 1 (.mapped 0 8), .free 0, .alloc 0 (.mapped 0 9)]

theorem lgpages_kept_iff_lgpageRun :
    Along lgpageStep Allowed init lgpageRun ∧
      (∃ s, exec lgpageStep init lgpageRun = .ok s) ∧
      (Throughout lgpageStep NoLoss init lgpageRun ∧ Along lgpageStep FailureKeeps init lgpageRun ↔
        Along lgpageStep PageCreated init lgpageRun) :=
  have hes : Along lgpageStep Allowed init lgpageRun := by decide
  ⟨hes, lgpages_kept_iff lgpageRun hes⟩

/-- The system is out of huge pages once: the first entry is neither in use nor on the list, and one
page less can be allocated. -/
theorem entry_lost :
    ∃ s, init.lgpageAllocOnNode 0 .failed = .ok (none, s) ∧ ¬ s.NoLoss ∧
      s.allocatable 0 + 1 = init.allocatable 0 := by
  refine ⟨_, rfl, ?_, by decide⟩
  intro hall
  exact absurd (hall 0 (by decide) (by decide : _ % _ < _)) (by decide)

end LgpageSys

end Skyloft
