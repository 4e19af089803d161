import Mathlib.Data.BitVec
import Skyloft.Lib.Run

/-!
# The bounds of packet buffers

The pointers and lengths of `struct mbuf` as the machine words they are: addresses of 64 bits, lengths
of 32.  The operations return an address and a caller uses as many bytes from there on as it has
asked for.  `mbuf_put` compares the length of the data with the length of the whole buffer, so the
headroom in front of the data is room it does not have.

* `MbufWords`, `mbufStep` — the words, and a call.
* `MbufRun.InBounds` — the data and every range that was returned lie inside the buffer.
* `mbuf_in_bounds_iff` — which runs stay in bounds.
-/

namespace Skyloft

open Run

/-! ## The model -/

/-- A backing buffer; its end has an address. -/
structure MbufBuffer where
  head : BitVec 64
  headLen : BitVec 32
  fits : head.toNat + headLen.toNat < 2 ^ 64

/-- The words of `struct mbuf` that say where the data is. -/
structure MbufWords extends MbufBuffer where
  data : BitVec 64
  len : BitVec 32

inductive MbufFault
  | bugOn
  /-- `assert`, in debug builds -/
  | assertion
  deriving DecidableEq

inductive MbufCall
  | put (n : BitVec 32)
  | push (n : BitVec 32)
  | pull (n : BitVec 32)
  | pullOrNull (n : BitVec 32)
  | trim (n : BitVec 32)
  | reset (offset : BitVec 32)

namespace MbufWords

/-- `mbuf_init` -/
def init (debug : Bool) (b : MbufBuffer) (reserveLen : BitVec 32) : Except MbufFault MbufWords :=
  if debug ∧ ¬ reserveLen < b.headLen then .error .assertion
  else .ok { b with data := b.head + reserveLen.setWidth 64, len := 0 }

/-- `__mbuf_pull` -/
def strip (m : MbufWords) (n : BitVec 32) : BitVec 64 × MbufWords :=
  (m.data, { m with len := m.len - n, data := m.data + n.setWidth 64 })

/-- `mbuf_pull` -/
def pull (m : MbufWords) (n : BitVec 32) : Except MbufFault (BitVec 64 × MbufWords) :=
  if m.len < n then .error .bugOn else .ok (m.strip n)

/-- `mbuf_pull_or_null` -/
def pullOrNull (m : MbufWords) (n : BitVec 32) : Option (BitVec 64) × MbufWords :=
  if n ≤ m.len then (some (m.strip n).1, (m.strip n).2) else (none, m)

/-- `mbuf_push` -/
def push (m : MbufWords) (n : BitVec 32) : Except MbufFault (BitVec 64 × MbufWords) :=
  let data := m.data - n.setWidth 64
  if data < m.head then .error .bugOn
  else .ok (data, { m with data := data, len := m.len + n })

/-- `mbuf_put` -/
def put (m : MbufWords) (n : BitVec 32) : Except MbufFault (BitVec 64 × MbufWords) :=
  let len := m.len + n
  if m.headLen < len then .error .bugOn
  else .ok (m.data + m.len.setWidth 64, { m with len := len })

/-- `mbuf_trim` -/
def trim (m : MbufWords) (n : BitVec 32) : Except MbufFault (BitVec 64 × MbufWords) :=
  if m.len < n then .error .bugOn
  else
    let len := m.len - n
    .ok (m.data + len.setWidth 64, { m with len := len })

/-- `mbuf_reset` -/
def reset (m : MbufWords) (offset : BitVec 32) : Except MbufFault MbufWords :=
  let totalLen := (m.data - m.head + m.len.setWidth 64).setWidth 32
  if totalLen < offset then .error .bugOn
  else .ok { m with data := m.head + offset.setWidth 64, len := totalLen - offset }

/-- `mbuf_tailroom` -/
def tailroom (m : MbufWords) : BitVec 32 :=
  (m.head + m.headLen.setWidth 64 - m.data - m.len.setWidth 64).setWidth 32

end MbufWords

/-- A packet buffer, and the ranges that calls have returned. -/
structure MbufRun where
  m : MbufWords
  ranges : List (BitVec 64 × BitVec 32)

namespace MbufRun

/-- A call that returned an address, for `n` bytes. -/
def returned (s : MbufRun) (n : BitVec 32) (r : BitVec 64 × MbufWords) : MbufRun where
  m := r.2
  ranges := s.ranges ++ [(r.1, n)]

end MbufRun

def mbufStep (s : MbufRun) : MbufCall → Except MbufFault MbufRun
  | .put n => (s.m.put n).map (s.returned n)
  | .push n => (s.m.push n).map (s.returned n)
  | .pull n => (s.m.pull n).map (s.returned n)
  | .pullOrNull n =>
      match s.m.pullOrNull n with
      | (some p, m) => .ok (s.returned n (p, m))
      | (none, m) => .ok { s with m := m }
  | .trim n => (s.m.trim n).map (s.returned n)
  | .reset offset => (s.m.reset offset).map fun m => { s with m := m }

/-- `mbuf_init` of a buffer, and no call yet. -/
def mbufStart (debug : Bool) (b : MbufBuffer) (reserveLen : BitVec 32) : Except MbufFault MbufRun :=
  (MbufWords.init debug b reserveLen).map fun m => { m := m, ranges := [] }

/-! ## Bounds -/

/-- The `n` bytes from `p` on lie inside the buffer. -/
structure MbufBuffer.Contains (b : MbufBuffer) (p : BitVec 64) (n : BitVec 32) : Prop where
  head_le : b.head.toNat ≤ p.toNat
  le_end : p.toNat + n.toNat ≤ b.head.toNat + b.headLen.toNat

/-- The data lies inside the buffer. -/
def MbufWords.InBounds (m : MbufWords) : Prop := m.Contains m.data m.len

/-- So does every range that was returned. -/
structure MbufRun.InBounds (s : MbufRun) : Prop where
  data : s.m.InBounds
  ranges : ∀ r ∈ s.ranges, s.m.Contains r.1 r.2

/-- A call of `mbuf_put` is stopped or has the room it asks for; a call of `mbuf_push` does not go
below address 0. -/
def MbufRun.HasRoom (s : MbufRun) : MbufCall → Prop
  | .put n => s.m.headLen < s.m.len + n ∨ n ≤ s.m.tailroom
  | .push n => n.toNat ≤ s.m.data.toNat
  | _ => True

namespace MbufWords

variable {m : MbufWords} {n : BitVec 32}

theorem InBounds.toNat_tailroom (h : m.InBounds) :
    m.tailroom.toNat = m.head.toNat + m.headLen.toNat - (m.data.toNat + m.len.toNat) := by
  have hhead := h.head_le
  have hend := h.le_end
  have hfits := m.fits
  rw [tailroom]
  bv_omega

/-- What a call leaves, and the range it returns, are inside the same buffer. -/
structure Sound (m : MbufWords) (n : BitVec 32) (r : BitVec 64 × MbufWords) : Prop where
  same : r.2.toMbufBuffer = m.toMbufBuffer
  data : r.2.InBounds
  range : m.Contains r.1 n

theorem InBounds.strip (h : m.InBounds) (hn : n ≤ m.len) : m.Sound n (m.strip n) := by
  have hhead := h.head_le
  have hend := h.le_end
  have hfits := m.fits
  refine ⟨rfl, ⟨?_, ?_⟩, ⟨hhead, ?_⟩⟩
  · simp only [MbufWords.strip]
    bv_omega
  · simp only [MbufWords.strip]
    bv_omega
  · simp only [MbufWords.strip]
    bv_omega

theorem InBounds.pull (h : m.InBounds) {r : BitVec 64 × MbufWords} (hr : m.pull n = .ok r) :
    m.Sound n r := by
  rw [MbufWords.pull] at hr
  split at hr
  · cases hr
  · rename_i hn
    cases hr
    exact h.strip (BitVec.not_lt.mp hn)

theorem InBounds.trim (h : m.InBounds) {r : BitVec 64 × MbufWords} (hr : m.trim n = .ok r) :
    m.Sound n r := by
  have hhead := h.head_le
  have hend := h.le_end
  have hfits := m.fits
  rw [MbufWords.trim] at hr
  split at hr
  · cases hr
  · rename_i hn
    cases hr
    refine ⟨rfl, ⟨hhead, ?_⟩, ⟨?_, ?_⟩⟩
    · dsimp only
      bv_omega
    · dsimp only
      bv_omega
    · dsimp only
      bv_omega

/-- `mbuf_push` looks at the address after it has moved it. -/
theorem InBounds.push (h : m.InBounds) (hn : n.toNat ≤ m.data.toNat) {r : BitVec 64 × MbufWords}
    (hr : m.push n = .ok r) : m.Sound n r := by
  have hhead := h.head_le
  have hend := h.le_end
  have hfits := m.fits
  rw [MbufWords.push] at hr
  split at hr
  · cases hr
  · rename_i hroom
    cases hr
    have hlen : m.len.toNat + n.toNat < 2 ^ 32 := by bv_omega
    refine ⟨rfl, ⟨?_, ?_⟩, ⟨?_, ?_⟩⟩
    · dsimp only
      bv_omega
    · dsimp only
      bv_omega
    · dsimp only
      bv_omega
    · dsimp only
      bv_omega

/-- An address that went round zero is not below the buffer. -/
theorem InBounds.push_wraps (h : m.InBounds) (hn : ¬ n.toNat ≤ m.data.toNat) :
    ∃ r, m.push n = .ok r ∧ r.2.toMbufBuffer = m.toMbufBuffer ∧ ¬ m.Contains r.1 n := by
  have hhead := h.head_le
  have hfits := m.fits
  have hroom : ¬ m.data - n.setWidth 64 < m.head := by bv_omega
  refine ⟨_, if_neg hroom, rfl, fun hc => ?_⟩
  have hend := hc.le_end
  dsimp only at hend
  bv_omega

theorem InBounds.put (h : m.InBounds) (hn : m.headLen < m.len + n ∨ n ≤ m.tailroom)
    {r : BitVec 64 × MbufWords} (hr : m.put n = .ok r) : m.Sound n r := by
  have hhead := h.head_le
  have hend := h.le_end
  have hfits := m.fits
  have htail := h.toNat_tailroom
  rw [MbufWords.put] at hr
  split at hr
  · cases hr
  · rename_i hcheck
    cases hr
    have hroom : n.toNat ≤ m.tailroom.toNat := hn.resolve_left hcheck
    refine ⟨rfl, ⟨hhead, ?_⟩, ⟨?_, ?_⟩⟩
    · dsimp only
      bv_omega
    · dsimp only
      bv_omega
    · dsimp only
      bv_omega

/-- Without the room for it, the bytes that are put do not end inside the buffer. -/
theorem InBounds.put_past (h : m.InBounds) (hn : ¬ (m.headLen < m.len + n ∨ n ≤ m.tailroom)) :
    ∃ r, m.put n = .ok r ∧ r.2.toMbufBuffer = m.toMbufBuffer ∧ ¬ m.Contains r.1 n := by
  have hend := h.le_end
  have hfits := m.fits
  have htail := h.toNat_tailroom
  rw [not_or] at hn
  refine ⟨_, if_neg hn.1, rfl, fun hc => ?_⟩
  have hpast := hc.le_end
  have hmore := hn.2
  dsimp only at hpast
  bv_omega

theorem InBounds.reset (h : m.InBounds) {offset : BitVec 32} {m' : MbufWords}
    (hr : m.reset offset = .ok m') : m'.toMbufBuffer = m.toMbufBuffer ∧ m'.InBounds := by
  have hhead := h.head_le
  have hend := h.le_end
  have hfits := m.fits
  have htotal : ((m.data - m.head + m.len.setWidth 64).setWidth 32).toNat =
      m.data.toNat - m.head.toNat + m.len.toNat := by bv_omega
  rw [MbufWords.reset] at hr
  generalize (m.data - m.head + m.len.setWidth 64).setWidth 32 = totalLen at hr htotal
  split at hr
  · cases hr
  · rename_i hoff
    cases hr
    refine ⟨rfl, ⟨?_, ?_⟩⟩
    · dsimp only
      bv_omega
    · dsimp only
      bv_omega

theorem inBounds_init {debug : Bool} {b : MbufBuffer} {reserveLen : BitVec 32}
    (hr : init debug b reserveLen = .ok m) :
    m.toMbufBuffer = b ∧ (m.InBounds ↔ reserveLen ≤ b.headLen) := by
  rw [init] at hr
  split at hr
  · cases hr
  · cases hr
    have hfits := b.fits
    refine ⟨rfl, fun h => ?_, fun h => ⟨?_, ?_⟩⟩
    · have hhead := h.head_le
      have hend := h.le_end
      dsimp only at hhead hend
      bv_omega
    · dsimp only
      bv_omega
    · dsimp only
      bv_omega

end MbufWords

/-! ## Whole runs -/

section

variable {s s' : MbufRun}

theorem MbufRun.InBounds.returned (h : s.InBounds) {n : BitVec 32} {r : BitVec 64 × MbufWords}
    (hr : s.m.Sound n r) : (s.returned n r).InBounds := by
  refine ⟨hr.data, fun x hx => ?_⟩
  change r.2.Contains x.1 x.2
  rw [hr.same]
  rcases List.mem_append.mp hx with hx | hx
  · exact h.ranges x hx
  · cases List.mem_singleton.mp hx
    exact hr.range

/-- The last range is outside. -/
theorem MbufRun.not_inBounds_returned {n : BitVec 32} {r : BitVec 64 × MbufWords}
    (hsame : r.2.toMbufBuffer = s.m.toMbufBuffer) (hr : ¬ s.m.Contains r.1 n) :
    ¬ (s.returned n r).InBounds := by
  intro h
  have hlast := h.ranges (r.1, n) (List.mem_append_right _ (List.mem_singleton_self _))
  change r.2.Contains r.1 n at hlast
  rw [hsame] at hlast
  exact hr hlast

/-- A call with the room it asks for. -/
theorem mbufStep_inBounds (h : s.InBounds) {c : MbufCall} (hc : s.HasRoom c)
    (hs : mbufStep s c = .ok s') : s'.InBounds := by
  cases c with
  | put n =>
      obtain ⟨r, hr, rfl⟩ := map_eq_ok.mp hs
      exact h.returned (h.data.put hc hr)
  | push n =>
      obtain ⟨r, hr, rfl⟩ := map_eq_ok.mp hs
      exact h.returned (h.data.push hc hr)
  | pull n =>
      obtain ⟨r, hr, rfl⟩ := map_eq_ok.mp hs
      exact h.returned (h.data.pull hr)
  | pullOrNull n =>
      rw [mbufStep, MbufWords.pullOrNull] at hs
      by_cases hn : n ≤ s.m.len
      · rw [if_pos hn] at hs
        cases hs
        exact h.returned (h.data.strip hn)
      · rw [if_neg hn] at hs
        cases hs
        exact h
  | trim n =>
      obtain ⟨r, hr, rfl⟩ := map_eq_ok.mp hs
      exact h.returned (h.data.trim hr)
  | reset offset =>
      obtain ⟨m', hr, rfl⟩ := map_eq_ok.mp hs
      obtain ⟨hsame, hin⟩ := h.data.reset hr
      exact ⟨hin, fun x hx => hsame ▸ h.ranges x hx⟩

/-- A call without it. -/
theorem mbufStep_outOfBounds (h : s.InBounds) {c : MbufCall} (hc : ¬ s.HasRoom c) :
    ∃ s', mbufStep s c = .ok s' ∧ ¬ s'.InBounds := by
  cases c with
  | put n =>
      obtain ⟨r, hr, hsame, hout⟩ := h.data.put_past hc
      exact ⟨_, map_eq_ok.mpr ⟨r, hr, rfl⟩, MbufRun.not_inBounds_returned hsame hout⟩
  | push n =>
      obtain ⟨r, hr, hsame, hout⟩ := h.data.push_wraps hc
      exact ⟨_, map_eq_ok.mpr ⟨r, hr, rfl⟩, MbufRun.not_inBounds_returned hsame hout⟩
  | pull | pullOrNull | trim | reset => exact absurd trivial hc

/-- **Packet buffers stay in bounds** exactly when the headroom that was reserved is part of the
buffer, no `mbuf_put` that goes through asks for more than the tailroom, and no `mbuf_push` for more
than the address of the data. -/
theorem mbuf_in_bounds_iff {debug : Bool} {b : MbufBuffer} {reserveLen : BitVec 32} {s : MbufRun}
    (hs : mbufStart debug b reserveLen = .ok s) (es : List MbufCall) :
    Throughout mbufStep MbufRun.InBounds s es ↔
      reserveLen ≤ b.headLen ∧ Along mbufStep MbufRun.HasRoom s es := by
  obtain ⟨m, hm, rfl⟩ := map_eq_ok.mp hs
  obtain ⟨-, hinit⟩ := MbufWords.inBounds_init hm
  have hrun : MbufRun.InBounds ⟨m, []⟩ →
      (Throughout mbufStep MbufRun.InBounds ⟨m, []⟩ es ↔ Along mbufStep MbufRun.HasRoom ⟨m, []⟩ es) :=
    fun h => throughout_iff_along (I := fun _ => True) (H := fun _ _ => True)
      (fun s e s' _ hp _ hg hs => ⟨trivial, mbufStep_inBounds hp hg hs⟩)
      (fun s e _ hp _ hg => mbufStep_outOfBounds hp hg) trivial h (Along.trivial es _)
  constructor
  · intro h
    have hstart : MbufRun.InBounds ⟨m, []⟩ := by
      cases es with
      | nil => exact h
      | cons e es => exact h.1
    exact ⟨hinit.mp hstart.data, (hrun hstart).mp h⟩
  · rintro ⟨hle, hg⟩
    exact (hrun ⟨hinit.mpr hle, fun r hr => absurd hr List.not_mem_nil⟩).mpr hg

end

/-- The buffer of an egress packet, at some address: `MBUF_DEFAULT_LEN - MBUF_RESERVED` bytes. -/
def txBuffer : MbufBuffer := ⟨0x100000008080, 1920, by decide⟩

/-- `net_tx_alloc_mbuf` -/
def txStart : Except MbufFault MbufRun := mbufStart true txBuffer 128

theorem mbuf_in_bounds_iff_segment : ∃ s, txStart = .ok s ∧
    (Throughout mbufStep MbufRun.InBounds s [.put 1400, .push 20, .trim 100] ↔
      (128 : BitVec 32) ≤ 1920 ∧
        Along mbufStep MbufRun.HasRoom s [.put 1400, .push 20, .trim 100]) :=
  have hs : mbufStart true txBuffer 128 = .ok _ := rfl
  ⟨_, hs, mbuf_in_bounds_iff hs _⟩

/-- The tail that is put fits into the length of the buffer, but not behind the headroom. -/
theorem put_past_end : ∃ s s' : MbufRun, txStart = .ok s ∧ mbufStep s (.put 1800) = .ok s' ∧
    s'.m.head.toNat + s'.m.headLen.toNat + 8 = s'.m.data.toNat + s'.m.len.toNat ∧
    ¬ Throughout mbufStep MbufRun.InBounds s [.put 1800] := by
  refine ⟨_, _, rfl, rfl, by decide, fun h => ?_⟩
  have hend := (h.2 _ rfl).data.le_end
  exact absurd hend (by decide)

end Skyloft
