import Skyloft.Lib.Mask
import Skyloft.Mm.Lgpage

/-!
# Pages and their addresses

A `struct page` stands for a page of memory, and each of the two is found from the other by arithmetic
on pointers.  The descriptors of large pages are in a table.  Those of small pages are at the beginning
of the large page that the small ones are part of, where masking the low bits of an address leads.

* `addrToLgpage`, `lgpageToAddr`, `addrToSmpage`, `smpageToAddr`, `addrToNumaNode` — the maps, on
  addresses of 64 bits.
* `Inverse`, `inverse` — that they are inverse.
* `addrToPage_pageToAddr` — the maps that go by the flags of a page.
-/

namespace Skyloft

namespace PageMap

/-! ## The maps -/

/-- `PGMASK_4KB` -/
def pgmask4kb : BitVec 64 := BitVec.ofNat 64 (pgsize4kb - 1)

/-- `PGMASK_2MB` -/
def pgmask2mb : BitVec 64 := BitVec.ofNat 64 (pgsize2mb - 1)

/-- `PGN_4KB` -/
def pgn4kb (la : BitVec 64) : BitVec 64 := la >>> 12

/-- `PGN_2MB` -/
def pgn2mb (la : BitVec 64) : BitVec 64 := la >>> 21

/-- `PGADDR_4KB` -/
def pgaddr4kb (la : BitVec 64) : BitVec 64 := la &&& ~~~pgmask4kb

/-- `PGADDR_2MB` -/
def pgaddr2mb (la : BitVec 64) : BitVec 64 := la &&& ~~~pgmask2mb

/-- `PAGE_BASE_ADDR` -/
def pageBase : BitVec 64 := BitVec.ofNat 64 pageBaseAddr

/-- `PAGE_END_ADDR` -/
def pageEnd : BitVec 64 := pageBase + BitVec.ofNat 64 (lgpageMetaEnts * pgsize2mb * maxNuma)

def isPageAddr (addr : BitVec 64) : Bool := decide (pageBase ≤ addr) && decide (addr < pageEnd)

/-- `LGPGN` -/
def lgpgn (addr : BitVec 64) : BitVec 64 := pgn2mb (addr - pageBase)

/-- `PGN` -/
def pgn (addr : BitVec 64) : BitVec 64 := pgn4kb (addr - pgaddr2mb addr)

/-- `&tbl[i]` -/
def entry (tbl i : BitVec 64) : BitVec 64 := tbl + i * BitVec.ofNat 64 sizeofPage

/-- `pg - tbl`, the difference of two pointers to `struct page` -/
def entryDiff (pg tbl : BitVec 64) : BitVec 64 := (pg - tbl).sdiv (BitVec.ofNat 64 sizeofPage)

def addrToLgpage (pageTbl addr : BitVec 64) : BitVec 64 := entry pageTbl (lgpgn addr)

def lgpageToAddr (pageTbl pg : BitVec 64) : BitVec 64 :=
  pageBase + entryDiff pg pageTbl * BitVec.ofNat 64 pgsize2mb

def addrToSmpage (addr : BitVec 64) : BitVec 64 := entry (pgaddr2mb addr) (pgn addr)

def smpageToAddr (pg : BitVec 64) : BitVec 64 :=
  pgaddr2mb pg + entryDiff pg (pgaddr2mb pg) * BitVec.ofNat 64 pgsize4kb

/-- `addr_to_numa_node`, which returns an `int` -/
def addrToNumaNode (addr : BitVec 64) : BitVec 32 :=
  ((addr - pageBase) / BitVec.ofNat 64 (lgpageMetaEnts * pgsize2mb)).setWidth 32

/-- `PAGE_FLAG_SHATTERED` -/
def pageFlagShattered : BitVec 32 := 8

/-- `addr_to_page`, with the `flags` of each `struct page` -/
def addrToPage (flags : BitVec 64 → BitVec 32) (pageTbl addr : BitVec 64) :
    Except LgpageFault (BitVec 64) :=
  let pg := addrToLgpage pageTbl addr
  if flags pg &&& pageFlagLarge = 0 then .error .assertion
  else if flags pg &&& pageFlagShattered ≠ 0 then .ok (addrToSmpage addr)
  else .ok pg

def pageToAddr (flags : BitVec 64 → BitVec 32) (pageTbl pg : BitVec 64) : BitVec 64 :=
  if flags pg &&& pageFlagLarge ≠ 0 then lgpageToAddr pageTbl pg else smpageToAddr pg

/-! ## Addresses as numbers -/

section

variable {n m i j : ℕ}

theorem toNat_ofNat_lt (hn : n < 2 ^ 64) : (BitVec.ofNat 64 n).toNat = n := by
  rw [BitVec.toNat_ofNat, Nat.mod_eq_of_lt hn]

theorem pgaddr2mb_ofNat (hn : n < 2 ^ 64) :
    pgaddr2mb (BitVec.ofNat 64 n) = BitVec.ofNat 64 (n / pgsize2mb * pgsize2mb) :=
  Mask.ofNat_and_not_low hn 21

theorem pgaddr4kb_ofNat (hn : n < 2 ^ 64) :
    pgaddr4kb (BitVec.ofNat 64 n) = BitVec.ofNat 64 (n / pgsize4kb * pgsize4kb) :=
  Mask.ofNat_and_not_low hn 12

theorem sub_pageBase (n : ℕ) :
    BitVec.ofNat 64 (pageBaseAddr + n) - pageBase = BitVec.ofNat 64 n := by
  rw [BitVec.ofNat_add, pageBase, add_sub_cancel_left]

theorem entry_ofNat (n i : ℕ) :
    entry (BitVec.ofNat 64 n) (BitVec.ofNat 64 i) = BitVec.ofNat 64 (n + i * sizeofPage) := by
  rw [entry, BitVec.ofNat_mul_ofNat, BitVec.ofNat_add_ofNat]

/-- The difference of pointers undoes the index. -/
theorem entryDiff_entry (tbl : BitVec 64) (hi : i < 2 ^ 56) :
    entryDiff (entry tbl (BitVec.ofNat 64 i)) tbl = BitVec.ofNat 64 i := by
  have hlt : i * sizeofPage < 2 ^ 62 := by
    simp only [sizeofPage]
    omega
  have hmsb : (BitVec.ofNat 64 (i * sizeofPage)).msb = false := by
    rw [BitVec.msb_eq_false_iff_two_mul_lt, toNat_ofNat_lt (by omega)]
    omega
  have hsize : (BitVec.ofNat 64 sizeofPage).msb = false := by decide
  rw [entryDiff, entry, add_sub_cancel_left, BitVec.ofNat_mul_ofNat, BitVec.sdiv_eq, hmsb, hsize]
  apply BitVec.eq_of_toNat_eq
  change (BitVec.ofNat 64 (i * sizeofPage) / BitVec.ofNat 64 sizeofPage).toNat = _
  rw [BitVec.toNat_udiv, toNat_ofNat_lt (by omega), toNat_ofNat_lt (by decide),
    toNat_ofNat_lt (by omega)]
  exact Nat.mul_div_cancel i (by decide)

/-! ## Large pages -/

theorem lgpageToAddr_entry (pageTbl : BitVec 64) (hi : i < 2 ^ 56) :
    lgpageToAddr pageTbl (entry pageTbl (BitVec.ofNat 64 i)) =
      BitVec.ofNat 64 (Skyloft.lgpageToAddr i) := by
  rw [lgpageToAddr, entryDiff_entry pageTbl hi, pageBase, BitVec.ofNat_mul_ofNat,
    BitVec.ofNat_add_ofNat, Skyloft.lgpageToAddr]

theorem lgpgn_ofNat (h : pageBaseAddr + n < 2 ^ 64) :
    lgpgn (BitVec.ofNat 64 (pageBaseAddr + n)) = BitVec.ofNat 64 (n / pgsize2mb) := by
  apply BitVec.eq_of_toNat_eq
  have hle : n / pgsize2mb ≤ n := Nat.div_le_self _ _
  rw [lgpgn, sub_pageBase, pgn2mb, BitVec.toNat_ushiftRight, toNat_ofNat_lt (by omega),
    toNat_ofNat_lt (by omega), Nat.shiftRight_eq_div_pow]
  rfl

theorem addrToNumaNode_ofNat (h : pageBaseAddr + n < 2 ^ 64) :
    addrToNumaNode (BitVec.ofNat 64 (pageBaseAddr + n)) =
      BitVec.ofNat 32 (n / (lgpageMetaEnts * pgsize2mb)) := by
  apply BitVec.eq_of_toNat_eq
  rw [addrToNumaNode, sub_pageBase, BitVec.toNat_setWidth, BitVec.toNat_udiv,
    toNat_ofNat_lt (by omega), toNat_ofNat_lt (by decide), BitVec.toNat_ofNat]

/-! ## Small pages -/

theorem pgn_ofNat (hn : n < 2 ^ 64) :
    pgn (BitVec.ofNat 64 n) = BitVec.ofNat 64 (n % pgsize2mb / pgsize4kb) := by
  have hoff : BitVec.ofNat 64 n - pgaddr2mb (BitVec.ofNat 64 n) = BitVec.ofNat 64 (n % pgsize2mb) := by
    rw [pgaddr2mb_ofNat hn, sub_eq_iff_eq_add, BitVec.ofNat_add_ofNat, Nat.mod_add_div']
  have hlt : n % pgsize2mb < 2097152 := Nat.mod_lt _ (by decide)
  apply BitVec.eq_of_toNat_eq
  rw [pgn, hoff, pgn4kb, BitVec.toNat_ushiftRight, toNat_ofNat_lt (by omega), toNat_ofNat_lt,
    Nat.shiftRight_eq_div_pow]
  · rfl
  · simp only [pgsize4kb]
    omega

theorem addrToSmpage_ofNat (hn : n < 2 ^ 64) :
    addrToSmpage (BitVec.ofNat 64 n) =
      BitVec.ofNat 64 (n / pgsize2mb * pgsize2mb + n % pgsize2mb / pgsize4kb * sizeofPage) := by
  rw [addrToSmpage, pgaddr2mb_ofNat hn, pgn_ofNat hn, entry_ofNat]

/-- The descriptors of a large page are in the large page themselves. -/
theorem smpageToAddr_ofNat (hm : m < 2 ^ 43) (hj : j < pgsize2mb / pgsize4kb) :
    smpageToAddr (BitVec.ofNat 64 (m * pgsize2mb + j * sizeofPage)) =
      BitVec.ofNat 64 (m * pgsize2mb + j * pgsize4kb) := by
  have hj' : j < 512 := hj
  have hlt : m * pgsize2mb + j * sizeofPage < 2 ^ 64 := by
    simp only [pgsize2mb, sizeofPage]
    omega
  have hpage : (m * pgsize2mb + j * sizeofPage) / pgsize2mb * pgsize2mb = m * pgsize2mb := by
    simp only [pgsize2mb, sizeofPage]
    omega
  rw [smpageToAddr, pgaddr2mb_ofNat hlt, hpage, ← entry_ofNat, entryDiff_entry _ (by omega),
    BitVec.ofNat_mul_ofNat, BitVec.ofNat_add_ofNat]

end

/-- **The address of the small page that an address is in** is the address without its low bits. -/
theorem smpageToAddr_addrToSmpage (addr : BitVec 64) :
    smpageToAddr (addrToSmpage addr) = pgaddr4kb addr := by
  obtain ⟨n, hn, rfl⟩ : ∃ n < 2 ^ 64, addr = BitVec.ofNat 64 n :=
    ⟨addr.toNat, addr.isLt, by rw [BitVec.ofNat_toNat, BitVec.setWidth_eq]⟩
  have hm : n / pgsize2mb < 2 ^ 43 := by
    simp only [pgsize2mb]
    omega
  have hj : n % pgsize2mb / pgsize4kb < pgsize2mb / pgsize4kb :=
    Nat.div_lt_div_of_lt_of_dvd (by decide) (Nat.mod_lt _ (by decide))
  have hround : n / pgsize2mb * pgsize2mb + n % pgsize2mb / pgsize4kb * pgsize4kb =
      n / pgsize4kb * pgsize4kb := by
    simp only [pgsize2mb, pgsize4kb]
    omega
  rw [addrToSmpage_ofNat hn, smpageToAddr_ofNat hm hj, pgaddr4kb_ofNat hn, hround]

/-! ## The pages of an entry -/

section

variable {i j k : ℕ}

/-- The entry with number `i` of the table. -/
def lgEntry (pageTbl : BitVec 64) (i : ℕ) : BitVec 64 := entry pageTbl (BitVec.ofNat 64 i)

/-- The descriptor of the small page number `j` of the large page of an entry. -/
def smEntry (pageTbl : BitVec 64) (i j : ℕ) : BitVec 64 :=
  entry (lgpageToAddr pageTbl (lgEntry pageTbl i)) (BitVec.ofNat 64 j)

theorem lgpageToAddr_lgEntry (pageTbl : BitVec 64) (hi : i < lgpageMetaEnts * maxNuma) :
    lgpageToAddr pageTbl (lgEntry pageTbl i) = BitVec.ofNat 64 (pageBaseAddr + i * pgsize2mb) := by
  have hi' : i < 65536 := hi
  exact lgpageToAddr_entry pageTbl (by omega)

theorem lgpageToAddr_add (pageTbl : BitVec 64) (hi : i < lgpageMetaEnts * maxNuma) (k : ℕ) :
    lgpageToAddr pageTbl (lgEntry pageTbl i) + BitVec.ofNat 64 k =
      BitVec.ofNat 64 (pageBaseAddr + (i * pgsize2mb + k)) := by
  rw [lgpageToAddr_lgEntry pageTbl hi, BitVec.ofNat_add_ofNat, Nat.add_assoc]

/-- **Large pages.** The entry of any address in the page of an entry is that entry, and the node of
the address is the node of the entry. -/
theorem lgpage_maps (pageTbl : BitVec 64) (hi : i < lgpageMetaEnts * maxNuma) (hk : k < pgsize2mb) :
    let addr := lgpageToAddr pageTbl (lgEntry pageTbl i) + BitVec.ofNat 64 k
    addrToLgpage pageTbl addr = lgEntry pageTbl i ∧
      addrToNumaNode addr = BitVec.ofNat 32 (lgpageNuma i) ∧ isPageAddr addr = true := by
  have hi' : i < 65536 := hi
  have hk' : k < 2097152 := hk
  have hlt : pageBaseAddr + (i * pgsize2mb + k) < 2 ^ 64 := by
    simp only [pageBaseAddr, pgsize2mb]
    omega
  have hentry : (i * pgsize2mb + k) / pgsize2mb = i := by
    simp only [pgsize2mb]
    omega
  intro addr
  have haddr : addr = BitVec.ofNat 64 (pageBaseAddr + (i * pgsize2mb + k)) :=
    lgpageToAddr_add pageTbl hi k
  rw [haddr]
  refine ⟨?_, ?_, ?_⟩
  · rw [addrToLgpage, lgpgn_ofNat hlt, hentry, lgEntry]
  · rw [addrToNumaNode_ofNat hlt, Nat.mul_comm lgpageMetaEnts, ← Nat.div_div_eq_div_mul, hentry,
      lgpageNuma]
  · have hend : pageEnd.toNat = pageBaseAddr + 65536 * pgsize2mb := by decide
    have hbase : pageBase.toNat = pageBaseAddr := by decide
    rw [isPageAddr, Bool.and_eq_true, decide_eq_true_iff, decide_eq_true_iff, BitVec.le_def,
      BitVec.lt_def, toNat_ofNat_lt hlt, hend, hbase]
    simp only [pgsize2mb]
    omega

theorem smpageToAddr_smEntry (pageTbl : BitVec 64) (hi : i < lgpageMetaEnts * maxNuma)
    (hj : j < pgsize2mb / pgsize4kb) :
    smpageToAddr (smEntry pageTbl i j) =
      lgpageToAddr pageTbl (lgEntry pageTbl i) + BitVec.ofNat 64 (j * pgsize4kb) := by
  have hi' : i < 65536 := hi
  have hbase : pageBaseAddr + i * pgsize2mb = (pageBaseAddr / pgsize2mb + i) * pgsize2mb := by
    simp only [pageBaseAddr, pgsize2mb]
    omega
  have hm : pageBaseAddr / pgsize2mb + i < 2 ^ 43 := by
    simp only [pageBaseAddr, pgsize2mb]
    omega
  rw [smEntry, lgpageToAddr_lgEntry pageTbl hi, hbase, entry_ofNat, smpageToAddr_ofNat hm hj,
    BitVec.ofNat_add_ofNat]

/-- **Small pages.** The descriptor of any address in a small page is that of the page, and the entry
of the address is that of the large page around it. -/
theorem smpage_maps (pageTbl : BitVec 64) (hi : i < lgpageMetaEnts * maxNuma)
    (hj : j < pgsize2mb / pgsize4kb) (hk : k < pgsize4kb) :
    let addr := smpageToAddr (smEntry pageTbl i j) + BitVec.ofNat 64 k
    addrToSmpage addr = smEntry pageTbl i j ∧ smpageToAddr (addrToSmpage addr) = pgaddr4kb addr ∧
      addrToLgpage pageTbl addr = lgEntry pageTbl i ∧
      addrToNumaNode addr = BitVec.ofNat 32 (lgpageNuma i) ∧ isPageAddr addr = true := by
  have hi' : i < 65536 := hi
  have hj' : j < 512 := hj
  have hk' : k < 4096 := hk
  intro addr
  have haddr : addr = lgpageToAddr pageTbl (lgEntry pageTbl i) + BitVec.ofNat 64 (j * pgsize4kb + k) := by
    rw [BitVec.ofNat_add, ← add_assoc, ← smpageToAddr_smEntry pageTbl hi hj]
  have hlg := lgpage_maps pageTbl hi (k := j * pgsize4kb + k) (by
    simp only [pgsize4kb, pgsize2mb]
    omega)
  refine ⟨?_, smpageToAddr_addrToSmpage addr, haddr ▸ hlg⟩
  rw [haddr, lgpageToAddr_add pageTbl hi, addrToSmpage_ofNat]
  · rw [smEntry, lgpageToAddr_lgEntry pageTbl hi, entry_ofNat]
    congr 1
    simp only [pageBaseAddr, pgsize2mb, pgsize4kb, sizeofPage]
    omega
  · simp only [pageBaseAddr, pgsize2mb, pgsize4kb]
    omega

/-- The descriptors of the small pages lie in the metadata of their large page. -/
theorem smEntry_metadata (pageTbl : BitVec 64) (i : ℕ) {b : ℕ} (hj : j < pgsize2mb / pgsize4kb)
    (hb : b < sizeofPage) :
    ∃ k < smpageMetaLen, smEntry pageTbl i j + BitVec.ofNat 64 b =
      lgpageToAddr pageTbl (lgEntry pageTbl i) + BitVec.ofNat 64 k := by
  refine ⟨j * sizeofPage + b, ?_, ?_⟩
  · have hsucc : (j + 1) * sizeofPage ≤ smpageMetaLen := Nat.mul_le_mul_right _ hj
    rw [Nat.add_mul, Nat.one_mul] at hsucc
    omega
  · rw [smEntry, entry, BitVec.ofNat_mul_ofNat, add_assoc, BitVec.ofNat_add_ofNat]

/-- The maps are inverse on every page there is an entry for, and on its small pages behind the
descriptors, which have room in front of them. -/
structure Inverse (pageTbl : BitVec 64) : Prop where
  lgpage : ∀ i < lgpageMetaEnts * maxNuma, ∀ k < pgsize2mb,
    let addr := lgpageToAddr pageTbl (lgEntry pageTbl i) + BitVec.ofNat 64 k
    addrToLgpage pageTbl addr = lgEntry pageTbl i ∧
      addrToNumaNode addr = BitVec.ofNat 32 (lgpageNuma i)
  smpage : ∀ i < lgpageMetaEnts * maxNuma, ∀ j < pgsize2mb / pgsize4kb,
    smpageMetaLen ≤ j * pgsize4kb → ∀ k < pgsize4kb,
    let addr := smpageToAddr (smEntry pageTbl i j) + BitVec.ofNat 64 k
    addrToSmpage addr = smEntry pageTbl i j ∧ smpageToAddr (addrToSmpage addr) = pgaddr4kb addr ∧
      addrToNumaNode addr = BitVec.ofNat 32 (lgpageNuma i)
  metadata : ∀ i < lgpageMetaEnts * maxNuma, ∀ j < pgsize2mb / pgsize4kb, ∀ b < sizeofPage,
    ∃ k < smpageMetaLen, smEntry pageTbl i j + BitVec.ofNat 64 b =
      lgpageToAddr pageTbl (lgEntry pageTbl i) + BitVec.ofNat 64 k

theorem inverse (pageTbl : BitVec 64) : Inverse pageTbl where
  lgpage _ hi _ hk := (lgpage_maps pageTbl hi hk).imp_right And.left
  smpage _ hi _ hj _ _ hk :=
    have hmaps := smpage_maps pageTbl hi hj hk
    ⟨hmaps.1, hmaps.2.1, hmaps.2.2.2.1⟩
  metadata i _ _ hj _ hb := smEntry_metadata pageTbl i hj hb

/-- **Pages in use.** An address in a large page that is not shattered leads back to its entry, and
an address in a small page of a shattered one to the descriptor of the small page. -/
theorem addrToPage_pageToAddr (flags : BitVec 64 → BitVec 32) (pageTbl : BitVec 64)
    (hi : i < lgpageMetaEnts * maxNuma) (hlarge : flags (lgEntry pageTbl i) &&& pageFlagLarge ≠ 0) :
    (flags (lgEntry pageTbl i) &&& pageFlagShattered = 0 → ∀ k < pgsize2mb,
      addrToPage flags pageTbl (pageToAddr flags pageTbl (lgEntry pageTbl i) + BitVec.ofNat 64 k) =
        .ok (lgEntry pageTbl i)) ∧
    (flags (lgEntry pageTbl i) &&& pageFlagShattered ≠ 0 → ∀ j < pgsize2mb / pgsize4kb,
      flags (smEntry pageTbl i j) &&& pageFlagLarge = 0 → ∀ k < pgsize4kb,
      addrToPage flags pageTbl (pageToAddr flags pageTbl (smEntry pageTbl i j) + BitVec.ofNat 64 k) =
        .ok (smEntry pageTbl i j)) := by
  constructor
  · intro hwhole k hk
    have hmap := (lgpage_maps pageTbl hi hk).1
    rw [pageToAddr, if_pos hlarge]
    simp only [addrToPage, hmap, if_neg hlarge, hwhole, ne_eq, not_true_eq_false, if_false]
  · intro hshattered j hj hsmall k hk
    obtain ⟨hsm, -, hlg, -⟩ := smpage_maps pageTbl hi hj hk
    rw [pageToAddr, if_neg (not_not.mpr hsmall)]
    simp only [addrToPage, hlg, if_neg hlarge, if_pos hshattered, hsm]

end

end PageMap

end Skyloft
