import Skyloft.Net.RawMbuf
import Skyloft.Net.TcpOut

/-!
# Retransmitted segments

`tcp_tx_retransmit_one` at the level of bytes.  A segment on `txq` is a buffer with the headers of
its last transmission in front of its payload.  To send it again the headers are stripped, or the
payload is copied to a fresh buffer while the old one is still with the driver; then the part that
was acknowledged is pulled and the headers are put back on.  The length of the payload is computed
before the pull.

* `TxMbuf.OnTxq` — the buffers that come to `txq`, and what becomes of them there.
* `Resend.WellFormed` — a segment that starts where it should, with its payload and the length of
  the checksum right.
* `resend_wellFormed_iff` — this is so exactly when the segment is not acknowledged in part.
* `tcpTxRetransmitOneRaw_refines` — the buffers without headers of `tcpTxRetransmitOne`.
-/

namespace Skyloft

open Slice Serial

/-! ## The model -/

/-- A segment on `txq`, with its headers. -/
structure TxMbuf where
  raw : RawMbuf
  segSeq : Seq
  segEnd : Seq
  flags : TcpFlags
  ref : ℕ

namespace TxMbuf

/-- `m->flags & (TCP_SYN | TCP_FIN)`. -/
def isCtl (m : TxMbuf) : Bool := m.flags.syn || m.flags.fin

/-- `l4len` of `tcp_tx_retransmit_one`. -/
def l4len (m : TxMbuf) : BitVec 16 :=
  let l4len := (m.segEnd - m.segSeq).setWidth 16
  if m.isCtl then l4len - 1 else l4len

/-- What stands behind the TCP header. -/
def payload (m : TxMbuf) : List Byte :=
  slice m.raw.mem (m.raw.transportOff + 20) (m.raw.data + m.raw.len - (m.raw.transportOff + 20))

end TxMbuf

/-- What `tcp_push_tcphdr` and `net_tx_ip` take from outside the buffer: the interface, the two
ends of the connection, the acknowledgement and the window, and the identification of the packet. -/
structure TxEnv where
  cfg : NetCfg
  laddr : NetAddr
  raddr : NetAddr
  ack : Seq
  win : BitVec 16
  id : BitVec 16

/-- The header that `tcp_push_tcphdr` writes for a payload of length `l4len`. -/
def TxEnv.hdr (x : TxEnv) (seq : Seq) (flags : TcpFlags) (l4len : BitVec 16) : TcpHdr :=
  { sport := x.laddr.port, dport := x.raddr.port, seq := seq, ack := x.ack, flags := flags
    win := x.win, sum := ipv4PhdrCksum ipprotoTcp x.laddr.ip x.raddr.ip (20 + l4len) }

/-- `tcp_push_tcphdr` on the buffer. -/
def pushTcphdr (x : TxEnv) (m : TxMbuf) (l4len : BitVec 16) : Option TxMbuf := do
  let raw ← m.raw.push ((x.hdr m.segSeq m.flags l4len).bytes m.raw.mem (m.raw.data - 20))
  return { m with raw := raw.markTransportOffset }

/-- What a call of `tcp_tx_retransmit_one` sends. -/
inductive Resend
  /-- There is no buffer for the copy. -/
  | noBuffer
  /-- The segment is fully acknowledged. -/
  | acked
  /-- A segment is handed to `net_tx_ip`, with the length that was used in the checksum of its
  header. -/
  | sent (hdr : TcpHdr) (phdrLen : BitVec 16) (segment : List Byte) (ret : ℤ)

/-- `mbuf_pull` of the part that was acknowledged. -/
def pullAcked (una : Seq) (m : TxMbuf) : Option TxMbuf :=
  if wrapsLt m.segSeq una then do
    let raw ← m.raw.pull (una - m.segSeq).toNat
    return { m with raw := raw, segSeq := una }
  else some m

/-- `tcp_tx_retransmit_one` from the test of `snd_una` on, for a buffer that holds the payload. -/
def resendFrom (x : TxEnv) (una : Seq) (l4len : BitVec 16) (m : TxMbuf) (arp : ArpOut) :
    Option (TxMbuf × Resend) :=
  if wrapsLte m.segEnd una then some ({ m with ref := m.ref - 1 }, .acked)
  else do
    let m ← pullAcked una m
    let m ← pushTcphdr x m l4len
    let (raw, ret) ← netTxIpRaw x.cfg m.raw ipprotoTcp x.raddr.ip x.id arp
    -- the caller's reference is dropped when the transmission fails
    return ({ m with raw := raw, ref := if ret = 0 then m.ref else m.ref - 1 },
      .sent (x.hdr m.segSeq m.flags l4len) (20 + l4len) m.raw.bytes ret)

/-- `tcp_tx_retransmit_one`; `fresh` is the buffer that `net_tx_alloc_mbuf` finds in the pool.  The
result is the segment as it is left on `txq`, and what was sent. -/
def tcpTxRetransmitOneRaw (x : TxEnv) (una : Seq) (m : TxMbuf) (fresh : Option RawMbuf)
    (arp : ArpOut) : Option (TxMbuf × Resend) :=
  if m.ref ≠ 1 then
    match fresh with
    | none => some (m, .noBuffer)
    | some raw => do
        let raw ← raw.netTxAllocMbuf.put
          (slice m.raw.mem (m.raw.transportOff + 20) m.l4len.toNat)
        let (_, r) ← resendFrom x una m.l4len { m with raw := raw, ref := 1 } arp
        return (m, r)
  else do
    let raw ← m.raw.reset (m.raw.transportOff + 20)
    resendFrom x una m.l4len { m with raw := raw, ref := 2 } arp

/-! ## Well-formed segments -/

namespace TxMbuf

/-- The segment is acknowledged in part. -/
def PartlyAcked (m : TxMbuf) (una : Seq) : Prop := wrapsLt m.segSeq una ∧ ¬ wrapsLte m.segEnd una

instance (m : TxMbuf) (una : Seq) : Decidable (m.PartlyAcked una) :=
  inferInstanceAs (Decidable (_ ∧ _))

/-- The buffer of a segment: the payload reaches to the end of the data, behind enough room for the
headers; and it goes with the sequence range. -/
structure Wf (m : TxMbuf) : Prop where
  room : mbufDefaultHeadroom ≤ m.raw.transportOff + 20
  hdr : m.raw.transportOff + 20 ≤ m.raw.data + m.raw.len
  short : m.payload.length ≤ tcpMss
  range : (m.segEnd - m.segSeq).toNat = m.payload.length + m.isCtl.toNat
  ctl : m.isCtl → m.payload = []

end TxMbuf

/-- The later of two sequence numbers. -/
def seqMax (a b : Seq) : Seq := if wrapsLt a b then b else a

/-- What was sent for the segment `m`: nothing because it is fully acknowledged, or a segment that
starts at the later of `seg_seq` and `snd_una`, carries the payload from there on, and has its own
length in the pseudo-header. -/
def Resend.WellFormed (m : TxMbuf) (una : Seq) : Resend → Prop
  | .noBuffer => True
  | .acked => wrapsLte m.segEnd una
  | .sent hdr phdrLen segment _ =>
      hdr.seq = seqMax m.segSeq una ∧
        segment.drop 20 = m.payload.drop (hdr.seq - m.segSeq).toNat ∧
        phdrLen.toNat = segment.length

/-! ## The steps of a retransmission -/

section

variable {m : TxMbuf} {una : Seq}

/-- How much of a segment is in front of the later of its start and `snd_una`. -/
theorem toNat_seqMax_sub (a b : Seq) :
    (seqMax a b - a).toNat = if wrapsLt a b then (b - a).toNat else 0 := by
  rw [seqMax]
  split
  · rfl
  · rw [BitVec.sub_self]
    rfl

theorem pullAcked_eq (hle : wrapsLt m.segSeq una → (una - m.segSeq).toNat ≤ m.raw.len) :
    ∃ m', pullAcked una m = some m' ∧
      m'.raw.bytes = m.raw.bytes.drop (seqMax m.segSeq una - m.segSeq).toNat ∧
      m.raw.data ≤ m'.raw.data ∧ m'.segSeq = seqMax m.segSeq una ∧ m'.segEnd = m.segEnd ∧
      m'.flags = m.flags ∧ m'.ref = m.ref := by
  rw [toNat_seqMax_sub, pullAcked]
  split
  · rename_i hlt
    have hpull : m.raw.pull (una - m.segSeq).toNat = some _ := if_pos (hle hlt)
    rw [hpull]
    refine ⟨_, rfl, ?_, Nat.le_add_right _ _, (if_pos hlt).symm, rfl, rfl, rfl⟩
    exact (drop_slice _ _ _ (hle hlt)).symm
  · rename_i hlt
    exact ⟨m, rfl, rfl, le_refl _, (if_neg hlt).symm, rfl, rfl, rfl⟩

theorem pushTcphdr_eq (x : TxEnv) (l4len : BitVec 16) (hroom : 20 ≤ m.raw.data) :
    ∃ m', pushTcphdr x m l4len = some m' ∧ m'.raw.bytes.length = 20 + m.raw.len ∧
      m'.raw.bytes.drop 20 = m.raw.bytes ∧ m'.raw.transportOff + 20 = m.raw.data ∧
      m'.raw.data + 20 = m.raw.data ∧ m'.raw.data + m'.raw.len = m.raw.data + m.raw.len ∧
      m'.segSeq = m.segSeq ∧ m'.segEnd = m.segEnd ∧ m'.flags = m.flags ∧ m'.ref = m.ref ∧
      slice m'.raw.mem m.raw.data m.raw.len = m.raw.bytes := by
  obtain ⟨raw, hpush, hbytes, hdata, hlen, -, -, -, hmem, -⟩ := @RawMbuf.push_eq m.raw
    ((x.hdr m.segSeq m.flags l4len).bytes m.raw.mem (m.raw.data - 20))
    (by rw [TcpHdr.length_bytes]; exact hroom)
  rw [TcpHdr.length_bytes] at hdata hlen
  have hbytes' : raw.markTransportOffset.bytes = _ := hbytes
  refine ⟨{ m with raw := raw.markTransportOffset }, ?_, ?_, ?_, hdata, hdata, ?_, rfl, rfl, rfl,
    rfl, hmem _ _ (le_refl _)⟩
  · exact Option.bind_eq_some_iff.mpr ⟨raw, hpush, rfl⟩
  · rw [hbytes', List.length_append, TcpHdr.length_bytes, RawMbuf.length_bytes]
  · rw [hbytes']
    exact List.drop_left' (TcpHdr.length_bytes _ _ _)
  · change raw.data + raw.len = _
    omega

/-- **A segment that is sent again**, from the buffer that holds its payload. -/
theorem resendFrom_eq (x : TxEnv) (l4len : BitVec 16) (arp : ArpOut)
    (hroom : mbufDefaultHeadroom ≤ m.raw.data) (hend : ¬ wrapsLte m.segEnd una)
    (hle : wrapsLt m.segSeq una → (una - m.segSeq).toNat ≤ m.raw.len) :
    ∃ m' segment, resendFrom x una l4len m arp =
        some (m', .sent (x.hdr (seqMax m.segSeq una) m.flags l4len) (20 + l4len) segment arp.ret) ∧
      segment.drop 20 = m.raw.bytes.drop (seqMax m.segSeq una - m.segSeq).toNat ∧
      segment.length = 20 + (m.raw.len - (seqMax m.segSeq una - m.segSeq).toNat) ∧
      m'.payload = m.raw.bytes.drop (seqMax m.segSeq una - m.segSeq).toNat ∧
      mbufDefaultHeadroom ≤ m'.raw.transportOff + 20 ∧
      m'.raw.transportOff + 20 ≤ m'.raw.data + m'.raw.len ∧
      m'.segSeq = seqMax m.segSeq una ∧ m'.segEnd = m.segEnd ∧ m'.flags = m.flags ∧
      m'.ref = (if arp.ret = 0 then m.ref else m.ref - 1) := by
  have hhead : mbufDefaultHeadroom = 128 := rfl
  obtain ⟨m₁, h₁, hb₁, hd₁, hs₁, he₁, hf₁, hr₁⟩ := pullAcked_eq hle
  obtain ⟨m₂, h₂, hl₂, hb₂, ht₂, hd₂, htot₂, hs₂, he₂, hf₂, hr₂, hmem₂⟩ :=
    @pushTcphdr_eq m₁ x l4len (by omega)
  obtain ⟨raw, h₃, htot₃, ht₃, hmem₃⟩ :=
    netTxIpRaw_eq x.cfg ipprotoTcp x.raddr.ip x.id arp (show 34 ≤ m₂.raw.data by omega)
  have hlen₁ : m₁.raw.len = m.raw.len - (seqMax m.segSeq una - m.segSeq).toNat := by
    rw [← RawMbuf.length_bytes, hb₁, List.length_drop, RawMbuf.length_bytes]
  refine ⟨{ m₂ with raw := raw, ref := if arp.ret = 0 then m₂.ref else m₂.ref - 1 },
    m₂.raw.bytes, ?_, hb₂.trans hb₁, by rw [hl₂, hlen₁], ?_, ?_, ?_, hs₂.trans hs₁, he₂.trans he₁,
    hf₂.trans hf₁, by rw [hr₂, hr₁]⟩
  · rw [resendFrom, if_neg hend]
    refine Option.bind_eq_some_iff.mpr ⟨m₁, h₁, Option.bind_eq_some_iff.mpr ⟨m₂, h₂, ?_⟩⟩
    refine Option.bind_eq_some_iff.mpr ⟨(raw, arp.ret), h₃, ?_⟩
    rw [← hs₁, ← hs₂, ← hf₁, ← hf₂]
    rfl
  · change slice raw.mem (raw.transportOff + 20) (raw.data + raw.len - (raw.transportOff + 20)) = _
    have hoff : raw.transportOff + 20 = m₁.raw.data := by omega
    have hrest : raw.data + raw.len - m₁.raw.data = m₁.raw.len := by omega
    rw [hoff, hrest, hmem₃ _ _ (by omega), hmem₂, hb₁]
  · change _ ≤ raw.transportOff + 20
    omega
  · change raw.transportOff + 20 ≤ raw.data + raw.len
    omega

end

/-! ## Which segments are well formed -/

/-- `snd_una` strictly inside a short sequence range. -/
theorem toNat_sub_of_partly {a b c : Seq} (hlen : (c - a).toNat < 2 ^ 16) (hlt : wrapsLt a b)
    (hend : ¬ wrapsLte c b) : 0 < (b - a).toNat ∧ (b - a).toNat < (c - a).toNat ∧
      (c - b).toNat = (c - a).toNat - (b - a).toNat := by
  have hsplit : c - b = (c - a) - (b - a) := by ring
  have hneg : a - b = 0 - (b - a) := by ring
  rw [wrapsLt, hneg] at hlt
  rw [wrapsLte, hsplit] at hend
  rw [hsplit]
  generalize c - a = l at *
  generalize b - a = d at *
  have hl := l.isLt
  have hd := d.isLt
  have hzero : (0 : Seq).toNat = 0 := rfl
  simp only [BitVec.toInt_eq_toNat_cond, BitVec.toNat_sub, hzero] at hlt hend ⊢
  omega

namespace TxMbuf

variable {m : TxMbuf} {una : Seq}

namespace Wf

theorem range_lt (h : m.Wf) : (m.segEnd - m.segSeq).toNat < 2 ^ 16 := by
  have hshort := h.short
  have hrange := h.range
  have hmss : tcpMss = 1460 := rfl
  have hone : m.isCtl.toNat ≤ 1 := Bool.toNat_le _
  omega

theorem toNat_l4len (h : m.Wf) : m.l4len.toNat = m.payload.length := by
  have hlt := h.range_lt
  have hrange := h.range
  have hset : ((m.segEnd - m.segSeq).setWidth 16).toNat = (m.segEnd - m.segSeq).toNat := by
    rw [BitVec.toNat_setWidth]
    omega
  rw [l4len]
  cases hctl : m.isCtl with
  | false =>
      rw [hctl, Bool.toNat_false] at hrange
      rw [if_neg (by simp), hset, hrange, Nat.add_zero]
  | true =>
      have hempty := h.ctl hctl
      rw [hctl, Bool.toNat_true, hempty, List.length_nil] at hrange
      have hone : (1 : BitVec 16).toNat = 1 := rfl
      rw [if_pos rfl, BitVec.toNat_sub, hset, hrange, hone, hempty]
      rfl

/-- A control segment has one sequence number, which is acknowledged or not. -/
theorem of_partlyAcked (h : m.Wf) (hp : m.PartlyAcked una) :
    m.isCtl = false ∧ 0 < (una - m.segSeq).toNat ∧ (una - m.segSeq).toNat < m.payload.length ∧
      (m.segEnd - una).toNat = m.payload.length - (una - m.segSeq).toNat := by
  obtain ⟨hpos, hlt, hrest⟩ := toNat_sub_of_partly h.range_lt hp.1 hp.2
  have hrange := h.range
  cases hctl : m.isCtl with
  | false =>
      rw [hctl, Bool.toNat_false] at hrange
      exact ⟨rfl, hpos, by omega, by omega⟩
  | true =>
      rw [hctl, Bool.toNat_true, h.ctl hctl, List.length_nil] at hrange
      omega

end Wf

end TxMbuf

/-- A buffer that holds the payload of the segment `m`. -/
structure HoldsPayload (m b : TxMbuf) : Prop where
  bytes : b.raw.bytes = m.payload
  room : mbufDefaultHeadroom ≤ b.raw.data
  segSeq : b.segSeq = m.segSeq
  segEnd : b.segEnd = m.segEnd
  flags : b.flags = m.flags

section

variable {m b : TxMbuf}

theorem HoldsPayload.len_eq (h : HoldsPayload m b) : b.raw.len = m.payload.length := by
  rw [← RawMbuf.length_bytes, h.bytes]

/-- What is sent for the segment `m` from a buffer that holds its payload. -/
theorem resendFrom_of_holdsPayload (x : TxEnv) {una : Seq} (arp : ArpOut) (hm : m.Wf) (hb : HoldsPayload m b)
    (hend : ¬ wrapsLte m.segEnd una) :
    ∃ b' segment, resendFrom x una m.l4len b arp =
        some (b', .sent (x.hdr (seqMax m.segSeq una) m.flags m.l4len) (20 + m.l4len) segment
          arp.ret) ∧
      segment.drop 20 = m.payload.drop (seqMax m.segSeq una - m.segSeq).toNat ∧
      segment.length = 20 + (m.payload.length - (seqMax m.segSeq una - m.segSeq).toNat) ∧
      b'.payload = m.payload.drop (seqMax m.segSeq una - m.segSeq).toNat ∧ b'.Wf ∧
      b'.segSeq = seqMax m.segSeq una ∧ b'.segEnd = m.segEnd ∧ b'.flags = m.flags ∧
      b'.ref = (if arp.ret = 0 then b.ref else b.ref - 1) := by
  have hlen := hb.len_eq
  have hle : wrapsLt b.segSeq una → (una - b.segSeq).toNat ≤ b.raw.len := by
    rw [hb.segSeq, hlen]
    intro hlt
    exact (hm.of_partlyAcked ⟨hlt, hend⟩).2.2.1.le
  obtain ⟨b', segment, he, hdrop, hseg, hpay, hroom, hhdr, hs, hE, hf, href⟩ :=
    resendFrom_eq x m.l4len arp hb.room (by rw [hb.segEnd]; exact hend) hle
  rw [hb.segSeq, hb.flags] at he
  rw [hb.segSeq, hb.bytes] at hdrop hpay
  rw [hb.segSeq, hlen] at hseg
  rw [hb.segSeq] at hs
  rw [hb.segEnd] at hE
  rw [hb.flags] at hf
  have hctl : b'.isCtl = m.isCtl := by rw [TxMbuf.isCtl, TxMbuf.isCtl, hf]
  refine ⟨b', segment, he, hdrop, hseg, hpay, ⟨hroom, hhdr, ?_, ?_, ?_⟩, hs, hE, hf, href⟩
  · have hshort := hm.short
    rw [hpay, List.length_drop]
    omega
  · rw [hpay, List.length_drop, hs, hE, hctl, toNat_seqMax_sub, seqMax]
    split
    · rename_i hlt
      obtain ⟨hno, -, -, hrest⟩ := hm.of_partlyAcked ⟨hlt, hend⟩
      rw [hrest, hno]
      rfl
    · rw [hm.range, Nat.sub_zero]
  · rw [hctl, hpay]
    intro hc
    rw [hm.ctl hc, List.drop_nil]

/-- **The common part of the two paths**: what is sent is well formed unless the segment is
acknowledged in part, and the buffer is one of a segment again. -/
theorem resendFrom_wellFormed_iff (x : TxEnv) (una : Seq) (arp : ArpOut) (hm : m.Wf)
    (hb : HoldsPayload m b) :
    ∃ b' r, resendFrom x una m.l4len b arp = some (b', r) ∧ (b.Wf → b'.Wf) ∧
      (r.WellFormed m una ↔ ¬ m.PartlyAcked una) := by
  by_cases hend : wrapsLte m.segEnd una
  · refine ⟨{ b with ref := b.ref - 1 }, .acked, ?_, fun h => ⟨h.1, h.2, h.3, h.4, h.5⟩, ?_⟩
    · rw [resendFrom, hb.segEnd, if_pos hend]
    · exact iff_of_true hend (fun h => h.2 hend)
  · obtain ⟨b', segment, he, hdrop, hseg, -, hwf, -⟩ := resendFrom_of_holdsPayload x arp hm hb hend
    have hl4 := hm.toNat_l4len
    have hshort := hm.short
    have hmss : tcpMss = 1460 := rfl
    have hphdr : (20 + m.l4len).toNat = 20 + m.payload.length := by
      have htwenty : (20 : BitVec 16).toNat = 20 := rfl
      rw [BitVec.toNat_add, hl4, htwenty]
      omega
    refine ⟨b', _, he, fun _ => hwf, ?_⟩
    change (seqMax m.segSeq una = seqMax m.segSeq una ∧
      segment.drop 20 = m.payload.drop (seqMax m.segSeq una - m.segSeq).toNat ∧
      (20 + m.l4len).toNat = segment.length) ↔ _
    rw [hphdr, hseg, toNat_seqMax_sub]
    by_cases hlt : wrapsLt m.segSeq una
    · obtain ⟨-, hpos, hin, -⟩ := hm.of_partlyAcked ⟨hlt, hend⟩
      refine iff_of_false ?_ (fun h => h ⟨hlt, hend⟩)
      rw [if_pos hlt]
      omega
    · refine iff_of_true ⟨rfl, ?_, ?_⟩ (fun h => hlt h.1)
      · rw [hdrop, toNat_seqMax_sub]
      · rw [if_neg hlt, Nat.sub_zero]

end

/-! ## The buffers of `txq` -/

/-- The first transmission of a segment, at the end of `tcp_tx_send` and `tcp_tx_ctl`. -/
def sendSegment (x : TxEnv) (m : TxMbuf) (l4len : BitVec 16) (arp : ArpOut) : Option TxMbuf := do
  let m ← pushTcphdr x m l4len
  let (raw, ret) ← netTxIpRaw x.cfg m.raw ipprotoTcp x.raddr.ip x.id arp
  -- pretend the packet was sent
  return { m with raw := raw, ref := if ret = 0 then m.ref else 1 }

/-- The buffers that come to `txq`, and what is done to them there. -/
inductive OnTxq : TxMbuf → Prop
  /-- `tcp_tx_send`: a payload that was put in piece by piece. -/
  | text {x : TxEnv} {arp : ArpOut} {raw raw₁ : RawMbuf} {pieces : List (List Byte)} {seq : Seq}
      {psh : Bool} {m : TxMbuf} : pieces.flatten.length ≤ tcpMss →
      raw.netTxAllocMbuf.putAll pieces = some raw₁ →
      sendSegment x
        { raw := raw₁, segSeq := seq, segEnd := seq + BitVec.ofNat 32 pieces.flatten.length
          flags := { ack := true, psh := psh }, ref := 2 }
        (BitVec.ofNat 16 pieces.flatten.length) arp = some m → OnTxq m
  /-- `tcp_tx_ctl`. -/
  | ctl {x : TxEnv} {arp : ArpOut} {raw : RawMbuf} {seq : Seq} {flags : TcpFlags} {m : TxMbuf} :
      flags.syn || flags.fin →
      sendSegment x
        { raw := raw.netTxAllocMbuf, segSeq := seq, segEnd := seq + 1, flags := flags
          ref := 2 } 0 arp = some m → OnTxq m
  /-- `tcp_tx_retransmit_one`. -/
  | resent {x : TxEnv} {una : Seq} {fresh : Option RawMbuf} {arp : ArpOut} {r : Resend}
      {m m' : TxMbuf} : OnTxq m →
      tcpTxRetransmitOneRaw x una m fresh arp = some (m', r) → OnTxq m'
  /-- A reference is taken or dropped. -/
  | ref {n : ℕ} {m : TxMbuf} : OnTxq m → OnTxq { m with ref := n }

theorem sendSegment_wf {x : TxEnv} {m m' : TxMbuf} {l4len : BitVec 16} {arp : ArpOut}
    (hroom : mbufDefaultHeadroom ≤ m.raw.data) (hshort : m.raw.len ≤ tcpMss)
    (hrange : (m.segEnd - m.segSeq).toNat = m.raw.len + m.isCtl.toNat)
    (hctl : m.isCtl → m.raw.len = 0) (h : sendSegment x m l4len arp = some m') : m'.Wf := by
  have hhead : mbufDefaultHeadroom = 128 := rfl
  obtain ⟨m₁, h₁, -, -, ht₁, hd₁, htot₁, hs₁, he₁, hf₁, -, hmem₁⟩ :=
    @pushTcphdr_eq m x l4len (by omega)
  obtain ⟨raw, h₂, htot₂, ht₂, hmem₂⟩ :=
    netTxIpRaw_eq x.cfg ipprotoTcp x.raddr.ip x.id arp (show 34 ≤ m₁.raw.data by omega)
  have hm' : sendSegment x m l4len arp =
      some { m₁ with raw := raw, ref := if arp.ret = 0 then m₁.ref else 1 } := by
    refine Option.bind_eq_some_iff.mpr ⟨m₁, h₁, ?_⟩
    exact Option.bind_eq_some_iff.mpr ⟨(raw, arp.ret), h₂, rfl⟩
  rw [hm'] at h
  cases h
  have hpay : TxMbuf.payload { m₁ with raw := raw, ref := if arp.ret = 0 then m₁.ref else 1 } =
      m.raw.bytes := by
    change slice raw.mem (raw.transportOff + 20) (raw.data + raw.len - (raw.transportOff + 20)) = _
    have hoff : raw.transportOff + 20 = m.raw.data := by omega
    have hrest : raw.data + raw.len - m.raw.data = m.raw.len := by omega
    rw [hoff, hrest, hmem₂ _ _ (by omega), hmem₁]
  have hflags : TxMbuf.isCtl { m₁ with raw := raw, ref := if arp.ret = 0 then m₁.ref else 1 } =
      m.isCtl := by
    rw [TxMbuf.isCtl, TxMbuf.isCtl]
    change (m₁.flags.syn || m₁.flags.fin) = _
    rw [hf₁]
  refine ⟨?_, ?_, ?_, ?_, ?_⟩
  · change _ ≤ raw.transportOff + 20
    omega
  · change raw.transportOff + 20 ≤ raw.data + raw.len
    omega
  · rw [hpay, RawMbuf.length_bytes]
    exact hshort
  · rw [hpay, hflags, RawMbuf.length_bytes]
    change (m₁.segEnd - m₁.segSeq).toNat = _
    rw [he₁, hs₁]
    exact hrange
  · rw [hflags, hpay]
    intro hc
    exact List.length_eq_zero_iff.mp (by rw [RawMbuf.length_bytes, hctl hc])

/-! ## `tcp_tx_retransmit_one` -/

/-- The buffer after its headers were stripped. -/
def TxMbuf.stripped (m : TxMbuf) : TxMbuf :=
  { m with
    raw := { m.raw with
      data := m.raw.transportOff + 20
      len := m.raw.data + m.raw.len - (m.raw.transportOff + 20) }
    ref := 2 }

namespace TxMbuf.Wf

variable {m : TxMbuf}

/-- The copy path. -/
theorem copy_holdsPayload (hm : m.Wf) (raw : RawMbuf) : ∃ raw₁,
    raw.netTxAllocMbuf.put (slice m.raw.mem (m.raw.transportOff + 20) m.l4len.toNat) = some raw₁ ∧
      HoldsPayload m { m with raw := raw₁, ref := 1 } := by
  have hshort := hm.short
  have hmss : tcpMss = 1460 := rfl
  have hpay : m.payload.length = m.raw.data + m.raw.len - (m.raw.transportOff + 20) :=
    length_slice _ _ _
  have hcopy : slice m.raw.mem (m.raw.transportOff + 20) m.l4len.toNat = m.payload := by
    rw [hm.toNat_l4len, hpay]
    rfl
  have hfits : raw.netTxAllocMbuf.len + m.payload.length ≤ raw.netTxAllocMbuf.headLen := by
    change 0 + m.payload.length ≤ 2048 - 128
    omega
  obtain ⟨raw₁, h₁, hb₁, hd₁, -⟩ := RawMbuf.put_eq hfits
  rw [hcopy]
  exact ⟨raw₁, h₁, hb₁, hd₁.ge, rfl, rfl, rfl⟩

theorem payload_stripped (hm : m.Wf) : m.stripped.payload = m.payload := by
  have hhdr := hm.hdr
  simp only [TxMbuf.payload, TxMbuf.stripped]
  congr 1
  omega

/-- The in-place path. -/
theorem stripped_holdsPayload (hm : m.Wf) :
    m.raw.reset (m.raw.transportOff + 20) = some m.stripped.raw ∧ HoldsPayload m m.stripped :=
  ⟨if_pos hm.hdr, rfl, hm.room, rfl, rfl, rfl⟩

theorem stripped (hm : m.Wf) : m.stripped.Wf := by
  refine ⟨hm.room, Nat.le_add_right _ _, ?_, ?_, ?_⟩
  · rw [hm.payload_stripped]
    exact hm.short
  · rw [hm.payload_stripped]
    exact hm.range
  · rw [hm.payload_stripped]
    exact hm.ctl

end TxMbuf.Wf

/-- **`tcp_tx_retransmit_one`** on the buffer of a segment does not fault and leaves the buffer of a
segment; what it sends is well formed unless the segment is acknowledged in part. -/
theorem tcpTxRetransmitOneRaw_spec (x : TxEnv) (una : Seq) {m : TxMbuf} (fresh : Option RawMbuf)
    (arp : ArpOut) (hm : m.Wf) :
    ∃ m' r, tcpTxRetransmitOneRaw x una m fresh arp = some (m', r) ∧ m'.Wf ∧
      (r.WellFormed m una ↔ m.ref ≠ 1 ∧ fresh = none ∨ ¬ m.PartlyAcked una) := by
  unfold tcpTxRetransmitOneRaw
  by_cases href : m.ref ≠ 1
  · rw [if_pos href]
    cases fresh with
    | none => exact ⟨m, .noBuffer, rfl, hm, iff_of_true trivial (.inl ⟨href, rfl⟩)⟩
    | some raw =>
        obtain ⟨raw₁, h₁, hholds⟩ := hm.copy_holdsPayload raw
        obtain ⟨b', r, hr, -, hiff⟩ := resendFrom_wellFormed_iff x una arp hm hholds
        refine ⟨m, r, Option.bind_eq_some_iff.mpr ⟨raw₁, h₁, ?_⟩, hm, by simpa [href] using hiff⟩
        exact Option.bind_eq_some_iff.mpr ⟨(b', r), hr, rfl⟩
  · rw [if_neg href]
    obtain ⟨hreset, hholds⟩ := hm.stripped_holdsPayload
    obtain ⟨b', r, hr, hwf, hiff⟩ := resendFrom_wellFormed_iff x una arp hm hholds
    exact ⟨b', r, Option.bind_eq_some_iff.mpr ⟨_, hreset, hr⟩, hwf hm.stripped,
      by simpa [href] using hiff⟩

/-- Every buffer on `txq` is the buffer of a segment. -/
theorem OnTxq.wf {m : TxMbuf} (h : OnTxq m) : m.Wf := by
  induction h with
  | @text x arp raw raw₁ pieces seq psh m hmss hput hsend =>
      have hmss' : pieces.flatten.length ≤ 1460 := hmss
      have hfits : raw.netTxAllocMbuf.len + pieces.flatten.length ≤
          raw.netTxAllocMbuf.headLen := by
        change 0 + _ ≤ 2048 - 128
        omega
      obtain ⟨raw₂, h₂, hb₂, hd₂⟩ := RawMbuf.putAll_eq hfits
      rw [hput] at h₂
      cases h₂
      have hlen : raw₁.len = pieces.flatten.length := by
        rw [← RawMbuf.length_bytes, hb₂]
        rfl
      refine sendSegment_wf ?_ ?_ ?_ ?_ hsend
      · exact hd₂.ge
      · exact hlen.trans_le hmss
      · change (seq + BitVec.ofNat 32 pieces.flatten.length - seq).toNat = raw₁.len + 0
        rw [BitVec.add_comm, BitVec.add_sub_cancel, BitVec.toNat_ofNat, hlen]
        omega
      · intro hc
        cases hc
  | @ctl x arp raw seq flags m hflags hsend =>
      refine sendSegment_wf (le_refl _) (Nat.zero_le _) ?_ (fun _ => rfl) hsend
      change (seq + 1 - seq).toNat = 0 + (flags.syn || flags.fin).toNat
      rw [BitVec.add_comm, BitVec.add_sub_cancel, hflags]
      rfl
  | resent _ hstep ih =>
      obtain ⟨m₁, r₁, h₁, hwf, -⟩ := tcpTxRetransmitOneRaw_spec _ _ _ _ ih
      rw [h₁] at hstep
      cases hstep
      exact hwf
  | ref _ ih => exact ⟨ih.room, ih.hdr, ih.short, ih.range, ih.ctl⟩

/-! ## Buffers without headers -/

/-- The buffer by which `tcpTxRetransmitOne` stands for a segment: it holds the payload only. -/
structure TxMbuf.Shows (m : TxMbuf) (a : Mbuf) : Prop where
  data : a.data = m.payload
  segSeq : a.segSeq = m.segSeq
  segEnd : a.segEnd = m.segEnd
  flags : a.flags = m.flags
  ref : a.ref = m.ref

/-- The return code of `tcp_tx_retransmit_one`. -/
def Resend.ret : Resend → ℤ
  | .noBuffer => -eNomem
  | .acked => 0
  | .sent _ _ _ ret => ret

/-- The packets that leave the stack. -/
def Resend.packets : Resend → List Packet
  | .sent hdr _ segment ret =>
      if ret = 0 then
        [{ seq := hdr.seq, ack := hdr.ack, flags := hdr.flags, win := hdr.win
           data := segment.drop 20 }]
      else []
  | _ => []

section

variable {m : TxMbuf} {a : Mbuf} {una : Seq}

theorem TxMbuf.Shows.len_eq (h : m.Shows a) : a.len = m.payload.length := by
  rw [← Mbuf.length_data, h.data]

/-- `stripAcked` pulls what `pullAcked` pulls. -/
theorem TxMbuf.Shows.stripAcked_eq (h : m.Shows a) (hm : m.Wf) (hend : ¬ wrapsLte m.segEnd una) :
    ∃ a', stripAcked una a = .ok a' ∧
      a'.data = m.payload.drop (seqMax m.segSeq una - m.segSeq).toNat ∧
      a'.segSeq = seqMax m.segSeq una ∧ a'.segEnd = m.segEnd ∧ a'.flags = m.flags := by
  rw [toNat_seqMax_sub, stripAcked, seqMax, h.segSeq]
  split
  · rename_i hlt
    have hle : (una - m.segSeq).toNat ≤ a.len := by
      rw [h.len_eq]
      exact (hm.of_partlyAcked ⟨hlt, hend⟩).2.2.1.le
    rw [mbufPull, dif_pos hle]
    refine ⟨_, rfl, ?_, rfl, h.segEnd, h.flags⟩
    change (a.buf.drop (a.off + (una - m.segSeq).toNat)).take (a.len - (una - m.segSeq).toNat) = _
    rw [← h.data, Mbuf.data, List.drop_take, List.drop_drop]
  · exact ⟨a, rfl, h.data, h.segSeq, h.segEnd, h.flags⟩

/-- **The segments with headers refine those without**: from buffers that show the same payload,
`tcp_tx_retransmit_one` returns the same code, sends the same packet and leaves buffers that show
the same payload. -/
theorem tcpTxRetransmitOneRaw_refines {c : Conn} {x : TxEnv} {io : Io} {k : ℕ}
    {fresh : Option RawMbuf} {arp : ArpOut} (hm : m.Wf) (ha : m.Shows a)
    (halloc : io.alloc k = fresh.isSome) (hnet : io.net k = arp.ret) (hack : x.ack = c.rcv.nxt)
    (hwin : x.win = c.rcv.wnd.setWidth 16) :
    ∃ m' r c' a', tcpTxRetransmitOneRaw x c.snd.una m fresh arp = some (m', r) ∧
      tcpTxRetransmitOne c a io k = .ok (c', a', r.ret) ∧ m'.Shows a' ∧
      c'.wire = c.wire ++ r.packets := by
  have hpacket : ∀ (seq : Seq) (flags : TcpFlags) (data segment : List Byte),
      segment.drop 20 = data →
      (netTxIp (tcpPushTcphdr c seq flags data).1 (tcpPushTcphdr c seq flags data).2
        (io.net k)).wire =
      c.wire ++ (Resend.sent (x.hdr seq flags m.l4len) (20 + m.l4len) segment arp.ret).packets := by
    rintro seq flags data segment rfl
    rw [hnet, netTxIp, Resend.packets]
    split
    · simp [tcpPushTcphdr, TxEnv.hdr, hack, hwin]
    · simp [tcpPushTcphdr]
  unfold tcpTxRetransmitOneRaw tcpTxRetransmitOne
  rw [halloc, ha.ref, ha.segEnd]
  by_cases href : m.ref ≠ 1
  · cases fresh with
    | none =>
        exact ⟨m, .noBuffer, c, a, by simp [href], by simp [href, Resend.ret], ha,
          by simp [Resend.packets]⟩
    | some raw =>
        obtain ⟨raw₁, h₁, hholds⟩ := hm.copy_holdsPayload raw
        rw [if_pos href, if_neg (by simp)]
        by_cases hend : wrapsLte m.segEnd c.snd.una
        · refine ⟨m, .acked, c, a, ?_, if_pos hend, ha, by simp [Resend.packets]⟩
          refine Option.bind_eq_some_iff.mpr ⟨raw₁, h₁, ?_⟩
          rw [resendFrom, if_pos hend]
          rfl
        · obtain ⟨b', segment, he, hdrop, -⟩ := resendFrom_of_holdsPayload x arp hm hholds hend
          obtain ⟨a', hstrip, hdata, hseq, -, hflags⟩ := ha.stripAcked_eq hm hend
          refine ⟨m, _, _, a, ?_, ?_, ha, hpacket (seqMax m.segSeq c.snd.una) m.flags _ segment hdrop⟩
          · refine Option.bind_eq_some_iff.mpr ⟨raw₁, h₁, ?_⟩
            exact Option.bind_eq_some_iff.mpr ⟨_, he, rfl⟩
          · rw [if_neg hend, hstrip]
            change Except.ok _ = _
            rw [if_pos href, hdata, hseq, hflags, hnet]
            rfl
  · obtain ⟨hreset, hholds⟩ := hm.stripped_holdsPayload
    rw [if_neg href, if_neg (fun h => href h.1)]
    rw [not_not] at href
    by_cases hend : wrapsLte m.segEnd c.snd.una
    · refine ⟨{ m.stripped with ref := 1 }, .acked, c, a, ?_, if_pos hend, ?_,
        by simp [Resend.packets]⟩
      · refine Option.bind_eq_some_iff.mpr ⟨_, hreset, ?_⟩
        rw [resendFrom, if_pos hend]
        rfl
      · refine ⟨ha.data.trans ?_, ha.segSeq, ha.segEnd, ha.flags, ha.ref.trans href⟩
        exact hm.payload_stripped.symm
    · obtain ⟨b', segment, he, hdrop, -, hpay, -, hs, hE, hf, hr⟩ :=
        resendFrom_of_holdsPayload x arp hm hholds hend
      obtain ⟨a', hstrip, hdata, hseq, hend', hflags⟩ := ha.stripAcked_eq hm hend
      refine ⟨b', _, _, { a' with ref := if io.net k = 0 then 2 else 1 },
        Option.bind_eq_some_iff.mpr ⟨_, hreset, he⟩, ?_, ?_,
        hpacket (seqMax m.segSeq c.snd.una) m.flags _ segment hdrop⟩
      · rw [if_neg hend, hstrip]
        change Except.ok _ = _
        rw [if_neg (by simp [href]), hdata, hseq, hflags]
        rw [hnet]
        rfl
      · refine ⟨?_, ?_, ?_, ?_, ?_⟩
        · exact hdata.trans hpay.symm
        · exact hseq.trans hs.symm
        · exact hend'.trans hE.symm
        · exact hflags.trans hf.symm
        · rw [hr, ← hnet]
          rfl

end

/-- **Retransmitted segments.**  For every segment on `txq` and every value of `snd_una`, on both
paths, nothing is sent because the segment is fully acknowledged, or what is sent is well formed,
exactly when the segment is not acknowledged in part; a copy that finds no buffer sends nothing. -/
theorem resend_wellFormed_iff {m : TxMbuf} (hm : OnTxq m) (x : TxEnv) (una : Seq)
    (fresh : Option RawMbuf) (arp : ArpOut) :
    ∃ m' r, tcpTxRetransmitOneRaw x una m fresh arp = some (m', r) ∧
      (r.WellFormed m una ↔ m.ref ≠ 1 ∧ fresh = none ∨ ¬ m.PartlyAcked una) := by
  obtain ⟨m', r, h, -, hiff⟩ := tcpTxRetransmitOneRaw_spec x una fresh arp hm.wf
  exact ⟨m', r, h, hiff⟩

/-- The address of a connection from port 1000 of one host to port 2000 of another. -/
def sampleEnv : TxEnv where
  cfg := { addr := 0x0a000001, mac := 0 }
  laddr := ⟨0x0a000001, 1000⟩
  raddr := ⟨0x0a000002, 2000⟩
  ack := 1
  win := 1000
  id := 0

/-- A buffer of the pool. -/
def poolMbuf : RawMbuf := ⟨fun _ => 0, 0, 0, 0, 0, 0⟩

/-- The segment of the bytes 1, 2, 3 at sequence number 100, once its transmission is complete. -/
def sampleSegment : TxMbuf :=
  { ((sendSegment sampleEnv
      { raw := ((poolMbuf.netTxAllocMbuf.putAll [[1, 2, 3]]).getD poolMbuf), segSeq := 100
        segEnd := 103, flags := { ack := true }, ref := 2 } 3 (.resolved 7)).getD
      ⟨poolMbuf, 0, 0, {}, 0⟩) with ref := 1 }

theorem sampleSegment_onTxq : OnTxq sampleSegment :=
  .ref (@OnTxq.text sampleEnv (.resolved 7) poolMbuf _ [[1, 2, 3]] 100 false _ (by decide) rfl rfl)

/-- A segment of which nothing is acknowledged. -/
theorem resend_whole : ∃ m' r, tcpTxRetransmitOneRaw sampleEnv 100 sampleSegment none .inProgress =
    some (m', r) ∧ r.WellFormed sampleSegment 100 := by
  obtain ⟨m', r, h, hiff⟩ := resend_wellFormed_iff sampleSegment_onTxq sampleEnv 100 none .inProgress
  exact ⟨m', r, h, hiff.mpr (.inr (by decide))⟩

/-- A segment of three bytes whose first byte is acknowledged: two bytes are sent, and the checksum
is seeded with the length of three. -/
theorem resend_partly_acked : OnTxq sampleSegment ∧
    ∃ m' r hdr segment, tcpTxRetransmitOneRaw sampleEnv 101 sampleSegment none .inProgress =
        some (m', r) ∧ r = .sent hdr 23 segment 0 ∧ hdr.seq = 101 ∧ segment.length = 22 ∧
      segment.drop 20 = [2, 3] ∧ ¬ r.WellFormed sampleSegment 101 := by
  refine ⟨sampleSegment_onTxq, _, _, _, _, rfl, rfl, by decide, by decide, by decide, ?_⟩
  rintro ⟨-, -, hlen⟩
  exact absurd hlen (by decide)

end Skyloft
