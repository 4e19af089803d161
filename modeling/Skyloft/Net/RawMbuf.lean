import Skyloft.Lib.Slice
import Skyloft.Net.Conn

/-!
# Packet buffers with their headers

`net/mbuf.h` at the level of bytes.  A `RawMbuf` has the memory of the backing buffer from `head`
on, whatever stood there before included, and the two header offsets.  The operations return
`none` where the source has a `BUG_ON`.

The headers are written as the source writes them: in network byte order, on top of what the
memory holds, so that a field which the source does not set keeps its old bytes.

* `RawMbuf.put`, `RawMbuf.pull`, `RawMbuf.push`, `RawMbuf.reset` — moving the data pointers.
* `TcpHdr.bytes`, `UdpHdr.bytes`, `IpHdr.bytes` — the headers in memory.
* `netTxIpRaw` — what `net_tx_ip` does to the buffer.
-/

namespace Skyloft

open Slice

/-! ## Buffers -/

/-- The fields of `struct mbuf` that lay out a packet.  `data` is an offset from `head`. -/
structure RawMbuf where
  mem : ℕ → Byte
  headLen : ℕ
  data : ℕ
  len : ℕ
  networkOff : ℕ
  transportOff : ℕ

/-- `MBUF_DEFAULT_HEADROOM`. -/
def mbufDefaultHeadroom : ℕ := 128

/-- `MBUF_DEFAULT_LEN - MBUF_RESERVED`, with the 104 bytes of `struct mbuf` in two cache lines. -/
def mbufTxLen : ℕ := 2048 - 128

namespace RawMbuf

/-- The bytes between the data pointer and the end of the data. -/
def bytes (m : RawMbuf) : List Byte := slice m.mem m.data m.len

/-- `mbuf_init` of a buffer whose memory and offsets are left from its last use. -/
def init (m : RawMbuf) (headLen reserveLen : ℕ) : RawMbuf :=
  { m with headLen := headLen, data := reserveLen, len := 0 }

/-- `memcpy(mbuf_put(m, len), src, len)`.  The `BUG_ON` compares the length of the data, without the
headroom in front of it. -/
def put (m : RawMbuf) (src : List Byte) : Option RawMbuf :=
  if m.len + src.length ≤ m.headLen then
    some { m with mem := store m.mem (m.data + m.len) src, len := m.len + src.length }
  else none

/-- `mbuf_pull`. -/
def pull (m : RawMbuf) (n : ℕ) : Option RawMbuf :=
  if n ≤ m.len then some { m with data := m.data + n, len := m.len - n } else none

/-- `mbuf_push` of a header, which is then filled in. -/
def push (m : RawMbuf) (hdr : List Byte) : Option RawMbuf :=
  if hdr.length ≤ m.data then
    some { m with
      mem := store m.mem (m.data - hdr.length) hdr
      data := m.data - hdr.length
      len := m.len + hdr.length }
  else none

/-- `mbuf_reset`. -/
def reset (m : RawMbuf) (offset : ℕ) : Option RawMbuf :=
  if offset ≤ m.data + m.len then some { m with data := offset, len := m.data + m.len - offset }
  else none

/-- `mbuf_mark_transport_offset`. -/
def markTransportOffset (m : RawMbuf) : RawMbuf := { m with transportOff := m.data }

/-- `net_tx_alloc_mbuf`, of a buffer that it takes from the pool. -/
def netTxAllocMbuf (m : RawMbuf) : RawMbuf := m.init mbufTxLen mbufDefaultHeadroom

variable {m m' : RawMbuf}

theorem length_bytes (m : RawMbuf) : m.bytes.length = m.len := length_slice _ _ _

/-- Bytes are appended to the data. -/
theorem put_eq {src : List Byte} (h : m.len + src.length ≤ m.headLen) :
    ∃ m', m.put src = some m' ∧ m'.bytes = m.bytes ++ src ∧ m'.data = m.data ∧
      m'.len = m.len + src.length ∧ m'.headLen = m.headLen := by
  refine ⟨_, if_pos h, ?_, rfl, rfl, rfl⟩
  simp only [bytes]
  rw [slice_add, slice_store_self, slice_store_of_disjoint (by omega)]

/-- One `mbuf_put` after another. -/
def putAll (m : RawMbuf) : List (List Byte) → Option RawMbuf
  | [] => some m
  | src :: rest => do
      let m ← m.put src
      m.putAll rest

theorem putAll_eq : ∀ {srcs : List (List Byte)} {m : RawMbuf},
    m.len + srcs.flatten.length ≤ m.headLen →
      ∃ m', m.putAll srcs = some m' ∧ m'.bytes = m.bytes ++ srcs.flatten ∧ m'.data = m.data := by
  intro srcs
  induction srcs with
  | nil =>
      intro m _
      exact ⟨m, rfl, by simp, rfl⟩
  | cons src rest ih =>
      intro m h
      rw [List.flatten_cons, List.length_append] at h
      obtain ⟨m₁, h₁, hb₁, hd₁, hl₁, hh₁⟩ := @put_eq m src (by omega)
      obtain ⟨m₂, h₂, hb₂, hd₂⟩ := @ih m₁ (by omega)
      refine ⟨m₂, Option.bind_eq_some_iff.mpr ⟨m₁, h₁, h₂⟩, ?_, hd₂.trans hd₁⟩
      rw [hb₂, hb₁, List.flatten_cons, List.append_assoc]

/-- A header goes in front of the data. -/
theorem push_eq {hdr : List Byte} (h : hdr.length ≤ m.data) :
    ∃ m', m.push hdr = some m' ∧ m'.bytes = hdr ++ m.bytes ∧ m'.data + hdr.length = m.data ∧
      m'.len = m.len + hdr.length ∧ m'.headLen = m.headLen ∧ m'.networkOff = m.networkOff ∧
      m'.transportOff = m.transportOff ∧
      (∀ p n, m.data ≤ p → slice m'.mem p n = slice m.mem p n) ∧
      ∀ p n, p + n + hdr.length ≤ m.data → slice m'.mem p n = slice m.mem p n := by
  refine ⟨_, if_pos h, ?_, Nat.sub_add_cancel h, rfl, rfl, rfl, rfl, ?_, ?_⟩
  · simp only [bytes]
    rw [Nat.add_comm m.len, slice_add, slice_store_self, Nat.sub_add_cancel h,
      slice_store_of_disjoint (by omega)]
  · intro p n hp
    exact slice_store_of_disjoint (by omega)
  · intro p n hp
    exact slice_store_of_disjoint (by omega)

/-- What a header that fits leaves in the buffer. -/
theorem push_some {hdr : List Byte} (h : m.push hdr = some m') :
    m'.data + hdr.length = m.data ∧ m'.len = m.len + hdr.length ∧ m'.networkOff = m.networkOff ∧
      slice m'.mem m'.data hdr.length = hdr ∧
      ∀ p n, m.data ≤ p → slice m'.mem p n = slice m.mem p n := by
  rw [push] at h
  split at h
  · rename_i hroom
    cases h
    refine ⟨Nat.sub_add_cancel hroom, rfl, rfl, slice_store_self _ _ _, fun p n hp => ?_⟩
    exact slice_store_of_disjoint (by omega)
  · cases h

end RawMbuf

/-! ## Headers -/

/-- `hton16`, as bytes in memory. -/
def be16 (v : BitVec 16) : List Byte := [v.extractLsb' 8 8, v.extractLsb' 0 8]

/-- `hton32`, as bytes in memory. -/
def be32 (v : BitVec 32) : List Byte :=
  [v.extractLsb' 24 8, v.extractLsb' 16 8, v.extractLsb' 8 8, v.extractLsb' 0 8]

/-- `ntoh16` of two bytes in memory. -/
def ntoh16 (mem : ℕ → Byte) (o : ℕ) : BitVec 16 := mem o ++ mem (o + 1)

/-- `ntoh32` of four bytes in memory. -/
def ntoh32 (mem : ℕ → Byte) (o : ℕ) : BitVec 32 :=
  mem o ++ (mem (o + 1) ++ (mem (o + 2) ++ mem (o + 3)))

/-- `struct netaddr`. -/
structure NetAddr where
  ip : BitVec 32
  port : BitVec 16
  deriving DecidableEq, Repr

/-- `IPPROTO_TCP`. -/
def ipprotoTcp : Byte := 6

/-- `IPPROTO_UDP`. -/
def ipprotoUdp : Byte := 17

/-- `__raw_cksum`: the sum of the words of a buffer, on a little-endian machine. -/
def rawCksumSum : List Byte → BitVec 32 → BitVec 32
  | a :: b :: rest, sum => rawCksumSum rest (sum + (b ++ a).setWidth 32)
  | [a], sum => sum + a.setWidth 32
  | [], sum => sum

/-- `__raw_cksum_reduce`. -/
def rawCksumReduce (sum : BitVec 32) : BitVec 16 :=
  let sum := (sum >>> 16) + (sum &&& 0xffff)
  let sum := (sum >>> 16) + (sum &&& 0xffff)
  sum.setWidth 16

/-- `ipv4_phdr_cksum`. -/
def ipv4PhdrCksum (proto : Byte) (saddr daddr : BitVec 32) (l4len : BitVec 16) : BitVec 16 :=
  rawCksumReduce (rawCksumSum (be32 saddr ++ be32 daddr ++ [0, proto] ++ be16 l4len) 0)

/-- The flag bits of a TCP header. -/
def TcpFlags.byte (f : TcpFlags) : Byte :=
  BitVec.ofBool f.fin |>.setWidth 8 |>.or ((BitVec.ofBool f.syn).setWidth 8 <<< 1)
    |>.or ((BitVec.ofBool f.rst).setWidth 8 <<< 2) |>.or ((BitVec.ofBool f.psh).setWidth 8 <<< 3)
    |>.or ((BitVec.ofBool f.ack).setWidth 8 <<< 4)

/-- The fields of `struct tcp_hdr` that `tcp_push_tcphdr` sets. -/
structure TcpHdr where
  sport : BitVec 16
  dport : BitVec 16
  seq : Seq
  ack : Seq
  flags : TcpFlags
  win : BitVec 16
  sum : BitVec 16
  deriving DecidableEq, Repr

/-- The bytes of a TCP header that is written at `o`.  The unused bits next to the data offset and
the urgent pointer are not set. -/
def TcpHdr.bytes (h : TcpHdr) (mem : ℕ → Byte) (o : ℕ) : List Byte :=
  be16 h.sport ++ be16 h.dport ++ be32 h.seq ++ be32 h.ack ++
    [(mem (o + 12) &&& 0x0f) ||| 0x50, h.flags.byte] ++ be16 h.win ++
    [h.sum.extractLsb' 0 8, h.sum.extractLsb' 8 8] ++ [mem (o + 18), mem (o + 19)]

@[simp] theorem TcpHdr.length_bytes (h : TcpHdr) (mem : ℕ → Byte) (o : ℕ) :
    (h.bytes mem o).length = 20 := rfl

/-- `struct udp_hdr`. -/
structure UdpHdr where
  srcPort : BitVec 16
  dstPort : BitVec 16
  len : BitVec 16

def UdpHdr.bytes (h : UdpHdr) : List Byte :=
  be16 h.srcPort ++ be16 h.dstPort ++ be16 h.len ++ [0, 0]

@[simp] theorem UdpHdr.length_bytes (h : UdpHdr) : h.bytes.length = 8 := rfl

/-- The fields of `struct ip_hdr` that `net_push_iphdr` does not set to constants. -/
structure IpHdr where
  len : BitVec 16
  id : BitVec 16
  proto : Byte
  saddr : BitVec 32
  daddr : BitVec 32

def IpHdr.bytes (h : IpHdr) : List Byte :=
  [0x45, 0] ++ be16 h.len ++ [h.id.extractLsb' 0 8, h.id.extractLsb' 8 8] ++ [0, 0, 64, h.proto] ++
    [0, 0] ++ be32 h.saddr ++ be32 h.daddr

@[simp] theorem IpHdr.length_bytes (h : IpHdr) : h.bytes.length = 20 := rfl

/-- `struct eth_hdr`. -/
structure EthHdr where
  dhost : BitVec 48
  shost : BitVec 48
  type : BitVec 16

def EthHdr.bytes (h : EthHdr) : List Byte :=
  be16 (h.dhost.extractLsb' 32 16) ++ be32 (h.dhost.extractLsb' 0 32) ++
    be16 (h.shost.extractLsb' 32 16) ++ be32 (h.shost.extractLsb' 0 32) ++ be16 h.type

@[simp] theorem EthHdr.length_bytes (h : EthHdr) : h.bytes.length = 14 := rfl

/-! ## Transmission -/

/-- The addresses of the interface. -/
structure NetCfg where
  addr : BitVec 32
  mac : BitVec 48

/-- What `arp_lookup` returns to `net_tx_ip`. -/
inductive ArpOut
  | resolved (dhost : BitVec 48)
  /-- `-EINPROGRESS`: the buffer waits for the address. -/
  | inProgress
  | failed (err : ℤ)

/-- The return code of `net_tx_ip`. -/
def ArpOut.ret : ArpOut → ℤ
  | .resolved _ | .inProgress => 0
  | .failed err => err

/-- `net_push_iphdr`, with the identification it draws. -/
def netPushIphdr (cfg : NetCfg) (m : RawMbuf) (proto : Byte) (daddr : BitVec 32)
    (id : BitVec 16) : Option RawMbuf :=
  m.push ({ len := BitVec.ofNat 16 (m.len + 20), id := id, proto := proto, saddr := cfg.addr,
            daddr := daddr } : IpHdr).bytes

/-- `net_tx_ip` on the buffer, with its return code. -/
def netTxIpRaw (cfg : NetCfg) (m : RawMbuf) (proto : Byte) (daddr : BitVec 32) (id : BitVec 16)
    (arp : ArpOut) : Option (RawMbuf × ℤ) := do
  let m ← netPushIphdr cfg m proto daddr id
  match arp with
  | .resolved dhost =>
      let m ← m.push ({ dhost := dhost, shost := cfg.mac, type := 0x0800 } : EthHdr).bytes
      return (m, 0)
  | .inProgress => return (m, 0)
  | .failed err =>
      let m ← m.pull 20
      return (m, err)

/-- The packet behind the data pointer, the header offsets and the end of the data are left alone by
`net_tx_ip`. -/
theorem netTxIpRaw_eq (cfg : NetCfg) {m : RawMbuf} (proto : Byte) (daddr : BitVec 32)
    (id : BitVec 16) (arp : ArpOut) (hroom : 34 ≤ m.data) :
    ∃ m', netTxIpRaw cfg m proto daddr id arp = some (m', arp.ret) ∧
      m'.data + m'.len = m.data + m.len ∧ m'.transportOff = m.transportOff ∧
      ∀ p n, m.data ≤ p → slice m'.mem p n = slice m.mem p n := by
  obtain ⟨m₁, h₁, -, hd₁, hl₁, -, -, ht₁, hmem₁, -⟩ := @RawMbuf.push_eq m
    ({ len := BitVec.ofNat 16 (m.len + 20), id := id, proto := proto, saddr := cfg.addr,
       daddr := daddr } : IpHdr).bytes (by rw [IpHdr.length_bytes]; omega)
  rw [IpHdr.length_bytes] at hd₁ hl₁
  rw [netTxIpRaw, netPushIphdr, h₁]
  cases arp with
  | resolved dhost =>
      obtain ⟨m₂, h₂, -, hd₂, hl₂, -, -, ht₂, hmem₂, -⟩ := @RawMbuf.push_eq m₁
        ({ dhost := dhost, shost := cfg.mac, type := 0x0800 } : EthHdr).bytes
        (by rw [EthHdr.length_bytes]; omega)
      rw [EthHdr.length_bytes] at hd₂ hl₂
      refine ⟨m₂, ?_, by omega, ht₂.trans ht₁, fun p n hp => ?_⟩
      · exact Option.bind_eq_some_iff.mpr ⟨m₁, rfl, Option.bind_eq_some_iff.mpr ⟨m₂, h₂, rfl⟩⟩
      · rw [hmem₂ p n (by omega), hmem₁ p n hp]
  | inProgress => exact ⟨m₁, rfl, by omega, ht₁, hmem₁⟩
  | failed err =>
      have hpull : m₁.pull 20 = some { m₁ with data := m₁.data + 20, len := m₁.len - 20 } :=
        if_pos (by omega)
      refine ⟨{ m₁ with data := m₁.data + 20, len := m₁.len - 20 }, ?_, ?_, ht₁, hmem₁⟩
      · exact Option.bind_eq_some_iff.mpr ⟨m₁, rfl, Option.bind_eq_some_iff.mpr ⟨_, hpull, rfl⟩⟩
      · change m₁.data + 20 + (m₁.len - 20) = _
        omega

end Skyloft
