import Skyloft.Net.Reassembly

/-!
# Clipping a segment to the window

`tcp_rx_append_text` keeps of a segment what lies in the receive window: it pulls what was received
before, and trims what is past the window by the difference of two sequence numbers.  A FIN has a
sequence number but no byte.

* `RcvVars.bytesIn` — the bytes of a segment whose sequence numbers are in the window.
* `ClipsExactly` — these are kept, and the length of the buffer goes with its sequence range.
* `clips_exactly_iff` — this is so unless the window cuts a segment with a FIN.
-/

namespace Skyloft

open Serial

namespace RcvVars

/-- A sequence number is in the receive window. -/
def inWindow (rcv : RcvVars) (seq : Seq) : Bool := decide (seq - rcv.nxt < rcv.wnd)

/-- The bytes of a text that starts at `seq` whose sequence numbers are in the receive window. -/
def bytesIn (rcv : RcvVars) : Seq → List Byte → List Byte
  | _, [] => []
  | seq, b :: bs =>
      if rcv.inWindow seq then b :: bytesIn rcv (seq + 1) bs else bytesIn rcv (seq + 1) bs

variable {rcv : RcvVars}

theorem inWindow_iff {seq : Seq} :
    rcv.inWindow seq = true ↔ (seq - rcv.nxt).toNat < rcv.wnd.toNat := by
  rw [inWindow, decide_eq_true_eq, BitVec.lt_def]

/-- From `rcv_nxt` on the window takes a prefix. -/
theorem bytesIn_of_nxt {bs : List Byte} :
    ∀ {i : ℕ}, i + bs.length ≤ 2 ^ 31 →
      rcv.bytesIn (rcv.nxt + BitVec.ofNat 32 i) bs = bs.take (rcv.wnd.toNat - i) := by
  induction bs with
  | nil => simp [bytesIn]
  | cons b bs ih =>
      intro i hi
      rw [List.length_cons] at hi
      have hpos : (rcv.nxt + BitVec.ofNat 32 i - rcv.nxt).toNat = i := by
        rw [BitVec.add_comm, BitVec.add_sub_cancel, BitVec.toNat_ofNat]
        omega
      have hnext : rcv.nxt + BitVec.ofNat 32 i + 1 = rcv.nxt + BitVec.ofNat 32 (i + 1) := by
        rw [BitVec.ofNat_add, ← BitVec.add_assoc]
        rfl
      rw [bytesIn, hnext, ih (by omega)]
      by_cases hin : i < rcv.wnd.toNat
      · have hdec : rcv.inWindow (rcv.nxt + BitVec.ofNat 32 i) = true := by
          rwa [inWindow_iff, hpos]
        have hlen : rcv.wnd.toNat - i = rcv.wnd.toNat - (i + 1) + 1 := by omega
        rw [if_pos hdec, hlen, List.take_succ_cons]
      · have hdec : ¬ rcv.inWindow (rcv.nxt + BitVec.ofNat 32 i) = true := by
          rwa [inWindow_iff, hpos]
        have hz : rcv.wnd.toNat - i = 0 := by omega
        have hz' : rcv.wnd.toNat - (i + 1) = 0 := by omega
        rw [if_neg hdec, hz, hz', List.take_zero, List.take_zero]

/-- What stands in front of `rcv_nxt` is not in the window. -/
theorem bytesIn_of_before {d : ℕ} (hw : rcv.wnd.toNat ≤ 2 ^ 31) :
    ∀ {seq : Seq} {bs : List Byte}, seq + BitVec.ofNat 32 d = rcv.nxt → d ≤ 2 ^ 31 →
      d ≤ bs.length → rcv.bytesIn seq bs = rcv.bytesIn rcv.nxt (bs.drop d) := by
  induction d with
  | zero =>
      intro seq bs hseq _ _
      rw [BitVec.add_zero] at hseq
      rw [hseq, List.drop_zero]
  | succ d ih =>
      intro seq bs hseq hd hlen
      cases bs with
      | nil => simp at hlen
      | cons b bs =>
          have hback : (seq - rcv.nxt).toNat = 2 ^ 32 - (d + 1) := by
            rw [← hseq, BitVec.toNat_sub, BitVec.toNat_add, BitVec.toNat_ofNat]
            have hlt := seq.isLt
            omega
          have hout : ¬ rcv.inWindow seq = true := by
            rw [inWindow_iff, hback]
            omega
          have hnext : seq + 1 + BitVec.ofNat 32 d = rcv.nxt := by
            rw [← hseq, Nat.add_comm, BitVec.ofNat_add, ← BitVec.add_assoc]
            rfl
          rw [bytesIn, if_neg hout, List.drop_succ_cons]
          exact ih hnext (by omega) (by simpa using hlen)

end RcvVars

/-- The FIN of a segment is in the receive window. -/
def RcvVars.finIn (rcv : RcvVars) (m : Mbuf) : Bool := m.flags.fin && rcv.inWindow (m.segEnd - 1)

/-- The receive window ends in front of the end of a segment. -/
def cuts (rcv : RcvVars) (m : Mbuf) : Prop := wrapsLt (rcv.nxt + rcv.wnd) m.segEnd

instance (rcv : RcvVars) (m : Mbuf) : Decidable (cuts rcv m) := inferInstanceAs (Decidable (wrapsLt _ _))

/-- `m'` is what the receive window leaves of `m`. -/
structure Clipped (rcv : RcvVars) (m m' : Mbuf) : Prop where
  data : m'.data = rcv.bytesIn m.segSeq m.data
  len : m'.len + (rcv.finIn m).toNat = m'.segLen

/-- `tcp_rx_append_text` queues what the receive window leaves of a buffer. -/
def ClipsExactly (c : Conn) (m : Mbuf) : Prop :=
  ∃ c' m', tcpRxAppendText c m = .ok c' ∧ c'.rx.rxq = c.rx.rxq ++ [m'] ∧ Clipped c.rcv m m'

section

variable {c : Conn} {m m' : Mbuf}

/-- How far a buffer that comes to the queue starts in front of `rcv_nxt`. -/
def backlog (rcv : RcvVars) (m : Mbuf) : ℕ := (rcv.nxt - m.segSeq).toNat

theorem ahead_segSeq (hm : m.WellFormed) (hlo : wrapsLte m.segSeq c.rcv.nxt)
    (hhi : wrapsGt m.segEnd c.rcv.nxt) :
    ahead m.segSeq c.rcv.nxt = -(backlog c.rcv m : ℤ) ∧ backlog c.rcv m < m.segLen := by
  have hle := hm.segLen_le
  have hlow : ahead m.segSeq c.rcv.nxt ≤ 0 := hlo
  have hend := Mbuf.ahead_segEnd (c := c.rcv.nxt) hle (by omega)
  have hgt : 0 < ahead m.segEnd c.rcv.nxt := by
    rw [wrapsGt_iff] at hhi
    have hrange := le_two_mul_ahead m.segSeq c.rcv.nxt
    have hpos := hm.segLen_pos
    by_contra hnot
    have hswap := ahead_swap (a := m.segEnd) (b := c.rcv.nxt) (by omega)
    omega
  have hback := toNat_sub_of_ahead_nonpos (a := m.segSeq) (b := c.rcv.nxt) (by omega) hlow
  change ((backlog c.rcv m : ℕ) : ℤ) = _ at hback
  omega

/-- Whether the window cuts a segment, in lengths. -/
theorem cuts_iff (hm : m.WellFormed) (hw : c.rcv.wnd.toNat ≤ tcpWin)
    (hlo : wrapsLte m.segSeq c.rcv.nxt) (hhi : wrapsGt m.segEnd c.rcv.nxt) :
    cuts c.rcv m ↔ c.rcv.wnd.toNat + backlog c.rcv m < m.segLen := by
  have hle := hm.segLen_le
  have hw' : c.rcv.wnd.toNat ≤ 64240 := hw
  obtain ⟨hback, hlt⟩ := ahead_segSeq hm hlo hhi
  have hend := Mbuf.ahead_segEnd (c := c.rcv.nxt) hle (by omega)
  have hedge := ahead_add_wnd c.rcv.nxt hw
  have hdist : ahead (c.rcv.nxt + c.rcv.wnd) m.segEnd =
      ahead (c.rcv.nxt + c.rcv.wnd) c.rcv.nxt - ahead m.segEnd c.rcv.nxt := by
    apply ahead_eq_sub <;> omega
  rw [cuts, wrapsLt_iff]
  omega

/-- The bytes in the window, as a part of the data. -/
theorem bytesIn_eq (hm : m.WellFormed) (hw : c.rcv.wnd.toNat ≤ tcpWin)
    (hlo : wrapsLte m.segSeq c.rcv.nxt) (hhi : wrapsGt m.segEnd c.rcv.nxt) :
    c.rcv.bytesIn m.segSeq m.data =
      (m.data.drop (backlog c.rcv m)).take c.rcv.wnd.toNat := by
  have hle := hm.segLen_le
  have hseg := hm.segLen_eq
  have hone : m.flags.fin.toNat ≤ 1 := Bool.toNat_le _
  have hw' : c.rcv.wnd.toNat ≤ 64240 := hw
  obtain ⟨-, hlt⟩ := ahead_segSeq hm hlo hhi
  have hnxt : m.segSeq + BitVec.ofNat 32 (backlog c.rcv m) = c.rcv.nxt := by
    rw [backlog, BitVec.ofNat_toNat, BitVec.setWidth_eq, BitVec.add_comm, BitVec.sub_add_cancel]
  rw [RcvVars.bytesIn_of_before (by omega) hnxt (by omega) (by rw [Mbuf.length_data]; omega)]
  have hstart : c.rcv.bytesIn (c.rcv.nxt + BitVec.ofNat 32 0) (m.data.drop (backlog c.rcv m)) =
      (m.data.drop (backlog c.rcv m)).take (c.rcv.wnd.toNat - 0) := by
    apply RcvVars.bytesIn_of_nxt
    rw [List.length_drop, Mbuf.length_data]
    omega
  rwa [BitVec.add_zero, Nat.sub_zero] at hstart

theorem finIn_iff (hm : m.WellFormed) (hlo : wrapsLte m.segSeq c.rcv.nxt)
    (hhi : wrapsGt m.segEnd c.rcv.nxt) :
    c.rcv.finIn m = true ↔ m.flags.fin = true ∧ m.segLen ≤ c.rcv.wnd.toNat + backlog c.rcv m := by
  have hle := hm.segLen_le
  obtain ⟨hback, hlt⟩ := ahead_segSeq hm hlo hhi
  have hend := Mbuf.ahead_segEnd (c := c.rcv.nxt) hle (by omega)
  have hdist := toNat_sub_of_ahead_nonneg (a := m.segEnd) (b := c.rcv.nxt) (by omega)
  have hlast : (m.segEnd - 1 - c.rcv.nxt).toNat + 1 = (m.segEnd - c.rcv.nxt).toNat := by
    have hsub : m.segEnd - 1 - c.rcv.nxt = m.segEnd - c.rcv.nxt - 1 := by ring
    have hbound := (m.segEnd - c.rcv.nxt).isLt
    have hunit : (1 : Seq).toNat = 1 := rfl
    rw [hsub, BitVec.toNat_sub, hunit]
    omega
  rw [RcvVars.finIn, Bool.and_eq_true, RcvVars.inWindow_iff]
  constructor
  · intro h
    exact ⟨h.1, by omega⟩
  · intro h
    exact ⟨h.1, by omega⟩

/-- Without a window the trimming of a segment with a FIN is longer than its data. -/
theorem append_fault (hm : m.WellFormed) (hlo : wrapsLte m.segSeq c.rcv.nxt)
    (hhi : wrapsGt m.segEnd c.rcv.nxt) (hfin : m.flags.fin = true) (hw : c.rcv.wnd = 0) :
    tcpRxAppendText c m = .error .mbufTrim := by
  have hle := hm.segLen_le
  have hseg := hm.segLen_eq
  rw [hfin, Bool.toNat_true] at hseg
  obtain ⟨hback, hlt⟩ := ahead_segSeq hm hlo hhi
  have hend := Mbuf.ahead_segEnd (c := c.rcv.nxt) hle (by omega)
  obtain ⟨m₁, e₁, hb₁, ho₁, hl₁, hs₁, hE₁, hf₁⟩ :=
    clipHead_eq hlo (by omega) (by omega)
  have hcut := toNat_sub_of_ahead_nonneg (a := m.segEnd) (b := c.rcv.nxt) (by omega)
  have htrim : ¬ (m₁.segEnd - c.rcv.nxt).toNat ≤ m₁.len := by
    rw [hE₁]
    omega
  have hlt' : wrapsLt c.rcv.nxt m₁.segEnd := by
    rw [hE₁]
    exact hhi
  have hedge : c.rcv.nxt + c.rcv.wnd = c.rcv.nxt := by rw [hw, add_zero]
  have e₂ : clipTail (c.rcv.nxt + c.rcv.wnd) m₁ = .error .mbufTrim := by
    rw [hedge, clipTail, if_pos hlt', mbufTrim, dif_neg htrim]
    rfl
  rw [tcpRxAppendText, if_neg (not_not.mpr hlo), if_neg (not_not.mpr hhi), e₁]
  change (clipTail (c.rcv.nxt + c.rcv.wnd) m₁ >>= _) = _
  rw [e₂]
  rfl

/-- What the clipping leaves is a part of the data, which is the part in the window when it has
the right length. -/
theorem clipped_iff (hm : m.WellFormed) (hw : c.rcv.wnd.toNat ≤ tcpWin)
    (hlo : wrapsLte m.segSeq c.rcv.nxt) (hhi : wrapsGt m.segEnd c.rcv.nxt) (hc : Clip c.rcv m m') :
    Clipped c.rcv m m' ↔ m'.len = min c.rcv.wnd.toNat (m.len - backlog c.rcv m) ∧
      m'.len + (c.rcv.finIn m).toNat = m'.segLen := by
  have hback := (ahead_segSeq hm hlo hhi).1
  have hoff : m'.off = m.off + backlog c.rcv m := by
    have hclip := hc.off
    omega
  have hin := bytesIn_eq hm hw hlo hhi
  have hdata : c.rcv.bytesIn m.segSeq m.data =
      (m.buf.drop m'.off).take (min c.rcv.wnd.toNat (m.len - backlog c.rcv m)) := by
    rw [hin, Mbuf.data, List.drop_take, List.drop_drop, List.take_take, hoff]
  have hlen : (c.rcv.bytesIn m.segSeq m.data).length =
      min c.rcv.wnd.toNat (m.len - backlog c.rcv m) := by
    rw [hin, List.length_take, List.length_drop, Mbuf.length_data]
  have hdata' : m'.data = (m.buf.drop m'.off).take m'.len := by rw [Mbuf.data, hc.buf]
  constructor
  · intro h
    refine ⟨?_, h.len⟩
    rw [← hlen, ← h.data, Mbuf.length_data]
  · intro h
    refine ⟨?_, h.2⟩
    rw [hdata', hdata, h.1]

/-- **What is queued of a segment.**  `tcp_rx_append_text` keeps the bytes in the window, and a
length that goes with the sequence range, exactly when the window does not cut a segment with a
FIN. -/
theorem clips_exactly_iff (hm : m.WellFormed) (hw : c.rcv.wnd.toNat ≤ tcpWin)
    (hlo : wrapsLte m.segSeq c.rcv.nxt) (hhi : wrapsGt m.segEnd c.rcv.nxt) :
    ClipsExactly c m ↔ ¬ (m.flags.fin = true ∧ cuts c.rcv m) := by
  have hseg := hm.segLen_eq
  obtain ⟨hback, hlt⟩ := ahead_segSeq hm hlo hhi
  have hcuts := cuts_iff hm hw hlo hhi
  have hfinIn := finIn_iff hm hlo hhi
  by_cases hzero : m.flags.fin = true ∧ c.rcv.wnd = 0
  · have hfault := append_fault hm hlo hhi hzero.1 hzero.2
    have hcut : cuts c.rcv m := by
      rw [hcuts, hzero.2]
      simpa using hlt
    constructor
    · rintro ⟨c', m', h, -⟩
      rw [hfault] at h
      cases h
    · intro h
      exact absurd ⟨hzero.1, hcut⟩ h
  · obtain ⟨m', hc, he⟩ := tcpRxAppendText_eq hm hw hlo (by omega)
      (fun hfin hz => hzero ⟨hfin, hz⟩)
    have hexact : ClipsExactly c m ↔ Clipped c.rcv m m' := by
      constructor
      · rintro ⟨c', m'', h, hq, hcl⟩
        rw [he] at h
        cases h
        have hm'' : m' = m'' := by simpa [Conn.withRx, RxSide.append] using hq
        rwa [hm'']
      · intro hcl
        exact ⟨_, m', he, rfl, hcl⟩
    rw [hexact, clipped_iff hm hw hlo hhi hc]
    have hsegLen := hc.segLen
    have hlen := hc.len
    cases hfin : m.flags.fin with
    | false =>
        have hnone : c.rcv.finIn m = false := by simp [RcvVars.finIn, hfin]
        simp only [hfin, hnone, Bool.toNat_false] at hseg hlen ⊢
        simp only [Bool.false_eq_true, false_and, not_false_eq_true, iff_true]
        omega
    | true =>
        have hpos : c.rcv.wnd.toNat ≠ 0 :=
          fun h => hzero ⟨hfin, BitVec.eq_of_toNat_eq h⟩
        simp only [hfin, Bool.toNat_true] at hseg hlen
        simp only [hfin, true_and] at hfinIn
        rw [hcuts]
        by_cases hin : c.rcv.finIn m = true
        · have hfits := hfinIn.mp hin
          rw [hin, Bool.toNat_true]
          simp only [true_and]
          omega
        · have hcut := mt hfinIn.mpr hin
          rw [Bool.not_eq_true] at hin
          rw [hin, Bool.toNat_false]
          simp only [true_and]
          omega

end

/-- A connection that waits for sequence number 1 with a window of `wnd`. -/
def windowed (wnd : Seq) : Conn := { tcpConnAlloc 0 with rcv := { nxt := 1, wnd := wnd, irs := 0 } }

/-- Two bytes that start at sequence number 0, the first of which was received, and a FIN. -/
theorem clips_exactly_iff_overlap :
    ClipsExactly (windowed 2) (.ofPayload [10, 20] 0 3 { fin := true, ack := true }) :=
  (clips_exactly_iff (by constructor <;> decide) (by decide) (by decide) (by decide)).mpr
    (by decide)

/-- Three bytes and a FIN in a window of three bytes: the trimming takes the last byte, and the
queued buffer holds two bytes for a range of three sequence numbers. -/
theorem fin_trims_byte :
    let m := Mbuf.ofPayload [10, 20, 30] 1 5 { fin := true, ack := true }
    m.WellFormed ∧ wrapsLte m.segSeq (windowed 3).rcv.nxt ∧ wrapsGt m.segEnd (windowed 3).rcv.nxt ∧
      isAcceptable (windowed 3).rcv 4 m.segSeq ∧
      (windowed 3).rcv.bytesIn m.segSeq m.data = [10, 20, 30] ∧ (windowed 3).rcv.finIn m = false ∧
      (∃ c' m', tcpRxAppendText (windowed 3) m = .ok c' ∧ c'.rx.rxq = [m'] ∧
        m'.data = [10, 20] ∧ m'.len = 2 ∧ m'.segLen = 3) ∧
      ¬ ClipsExactly (windowed 3) m := by
  refine ⟨by constructor <;> decide, by decide, by decide, by decide, by decide, by decide,
    ⟨_, _, rfl, rfl, by decide, by decide, by decide⟩, ?_⟩
  rintro ⟨c', m', h, hq, hc⟩
  cases h
  have hlen : m'.len = 2 := by
    cases hq
    decide
  have hdata := congrArg List.length hc.data
  rw [Mbuf.length_data, hlen] at hdata
  exact absurd hdata (by decide)

end Skyloft
