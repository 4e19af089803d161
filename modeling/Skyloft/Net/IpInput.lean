import Skyloft.Net.Cksum
import Skyloft.Net.NetError

/-!
# The input of the network layer

`net_rx_one` takes a frame apart and returns the packets for TCP and UDP; those for ARP and ICMP it
hands on itself.  IP fragments are not supported; the header is tested for them, in a field that is
in network byte order.

* `netRxOne` — what becomes of a frame.
* `RxNetHdr.Accepts` — the other tests that a packet passes.
* `netRxOne_delivered_iff` — the packets that are delivered.
* `fragments_dropped_iff` — which fragments are dropped.
-/

namespace Skyloft

open Slice

/-! ## The model -/

def ethtypeIp : BitVec 16 := 0x0800
def ethtypeArp : BitVec 16 := 0x0806

/-- `IPPROTO_ICMP` -/
def ipprotoIcmp : Byte := 1

/-- `CHECKSUM_TYPE_UNNECESSARY` -/
def checksumTypeUnnecessary : ℕ := 1

/-- The fields of `struct rx_net_hdr` that are read, with the payload. -/
structure RxNetHdr where
  csumType : ℕ
  payload : List Byte

/-- What `net_rx_one` does with a frame. -/
inductive NetRx
  /-- It frees the buffer, if it got one. -/
  | dropped
  /-- `net_rx_arp` -/
  | arp (m : RawMbuf)
  /-- `net_rx_icmp` -/
  | icmp (m : RawMbuf) (iphdr : ℕ) (len : BitVec 16)
  /-- It returns the packet. -/
  | trans (m : RawMbuf)

/-- A packet is returned, or handed to ICMP. -/
def NetRx.delivered : NetRx → Bool
  | .dropped | .arp _ => false
  | .icmp _ _ _ | .trans _ => true

namespace RawMbuf

/-- `net_rx_alloc_mbuf`, of a buffer that it takes from the pool. -/
def netRxAllocMbuf (m : RawMbuf) (hdr : RxNetHdr) : RawMbuf :=
  let m := m.init mbufTxLen 0
  { m with mem := store m.mem 0 hdr.payload, len := hdr.payload.length }

/-- `mbuf_mark_network_offset` -/
def markNetworkOffset (m : RawMbuf) : RawMbuf := { m with networkOff := m.data }

/-- `mbuf_trim` -/
def trim (m : RawMbuf) (n : ℕ) : Option RawMbuf :=
  if n ≤ m.len then some { m with len := m.len - n } else none

/-- Cut off what comes after the packet. -/
def cutPadding (m : RawMbuf) (len : ℕ) : Option RawMbuf :=
  if len < m.len then m.trim (m.len - len) else some m

theorem cutPadding_some (m : RawMbuf) (len : ℕ) :
    ∃ m', m.cutPadding len = some m' ∧ m'.mem = m.mem := by
  rw [cutPadding]
  split
  · rw [trim, if_pos (Nat.sub_le _ _)]
    exact ⟨_, rfl, rfl⟩
  · exact ⟨m, rfl, rfl⟩

end RawMbuf

/-- The bytes of an address, as `io->mac` has them. -/
def macBytes (mac : BitVec 48) : List Byte :=
  be16 (mac.extractLsb' 32 16) ++ be32 (mac.extractLsb' 0 32)

/-- The end of `net_rx_one`, for a header at `iphdr` that is supported. -/
def netRxIp (m : RawMbuf) (iphdr : ℕ) : Option NetRx :=
  let len := ntoh16 m.mem (iphdr + 2) - 20
  if m.len < len.toNat then some .dropped
  else do
    let m ← m.cutPadding len.toNat
    let proto := m.mem (iphdr + 9)
    return if proto = ipprotoIcmp then .icmp m iphdr len
      else if proto = ipprotoUdp ∨ proto = ipprotoTcp then .trans m
      else .dropped

/-- The network layer of `net_rx_one`, from the header on. -/
def netRxNetwork (hdr : RxNetHdr) (m : RawMbuf) : Option NetRx :=
  let m := m.markNetworkOffset
  let iphdr := m.data
  match m.pull 20 with
  | none => some .dropped
  | some m =>
      -- did the hardware verify the checksum?
      if hdr.csumType ≠ checksumTypeUnnecessary ∧ cksumInternet m.mem iphdr 20 ≠ 0 then some .dropped
      else if ¬ ipHdrSupported m.mem iphdr then some .dropped
      else netRxIp m iphdr

/-- `net_rx_one`.  `pool` is the buffer that `net_rx_alloc_mbuf` takes, if there is one. -/
def netRxOne (cfg : NetCfg) (pool : Option RawMbuf) (hdr : RxNetHdr) : Option NetRx :=
  match pool with
  | none => some .dropped
  | some m =>
      let m := m.netRxAllocMbuf hdr
      let llhdr := m.data
      match m.pull 14 with
      | none => some .dropped
      | some m =>
          let type := ntoh16 m.mem (llhdr + 12)
          if type = ethtypeArp then some (.arp m)
          else if type ≠ ethtypeIp ∨ slice m.mem llhdr 6 ≠ macBytes cfg.mac then some .dropped
          else netRxNetwork hdr m

/-! ## The tests -/

namespace RxNetHdr

variable (hdr : RxNetHdr)

/-- A byte of the frame. -/
def byte (i : ℕ) : Byte := hdr.payload.getD i 0

/-- The fragment field of the IP header, in the byte order of the network. -/
def fragField : BitVec 16 := ntoh16 hdr.byte 20

/-- The packet is a fragment: more of them follow, or it does not begin at offset zero. -/
def Fragment : Prop :=
  hdr.fragField &&& 0x2000 ≠ 0 ∨ hdr.fragField &&& 0x1fff ≠ 0

/-- The frame passes all tests but the one for fragments: it is for this host, it has an IPv4 header
without options whose checksum is right, the packet is complete, and its protocol is known. -/
structure Accepts (cfg : NetCfg) : Prop where
  len : 34 ≤ hdr.payload.length
  type : ntoh16 hdr.byte 12 = ethtypeIp
  dhost : slice hdr.byte 0 6 = macBytes cfg.mac
  cksum : hdr.csumType = checksumTypeUnnecessary ∨ cksumInternet hdr.byte 14 20 = 0
  version : (hdr.byte 14).extractLsb' 4 4 = 4
  headerLen : (hdr.byte 14).extractLsb' 0 4 = 5
  total : 34 + (ntoh16 hdr.byte 16 - 20).toNat ≤ hdr.payload.length
  proto : hdr.byte 23 = ipprotoIcmp ∨ hdr.byte 23 = ipprotoUdp ∨ hdr.byte 23 = ipprotoTcp

end RxNetHdr

variable {cfg : NetCfg} {hdr : RxNetHdr} {m : RawMbuf}

/-- The test for fragments looks at one bit of the offset. -/
theorem fragTest_iff (a b : Byte) : (b ++ a) &&& 0x2000#16 = 0 ↔ (a ++ b) &&& 0x0020#16 = 0 := by
  have hmf : 0x2000#16 = BitVec.twoPow 16 13 := by decide
  have hoff : 0x0020#16 = BitVec.twoPow 16 5 := by decide
  rw [hmf, hoff, BitVec.and_twoPow, BitVec.and_twoPow, BitVec.getLsbD_append,
    BitVec.getLsbD_append]
  change (if b.getLsbD 5 = true then BitVec.twoPow 16 13 else 0) = 0 ↔
    (if b.getLsbD 5 = true then BitVec.twoPow 16 5 else 0) = 0
  cases b.getLsbD 5 <;> decide

/-- An unfragmented packet passes the test. -/
theorem RxNetHdr.fragTest_of_not_fragment (h : ¬ hdr.Fragment) : hdr.fragField &&& 0x20 = 0 := by
  rw [Fragment, not_or, not_not, not_not] at h
  have hmask : (0x20 : BitVec 16) = 0x1fff &&& 0x20 := by decide
  rw [hmask, ← BitVec.and_assoc, h.2]
  decide

theorem mem_netRxAllocMbuf {i : ℕ} (hi : i < hdr.payload.length) :
    (m.netRxAllocMbuf hdr).mem i = hdr.byte i := by
  have hstore := store_add (f := m.mem) (o := 0) hi
  rw [Nat.zero_add] at hstore
  rw [RxNetHdr.byte, List.getD_eq_getElem?_getD, List.getElem?_eq_getElem hi, ← hstore]
  rfl

/-- The end of `net_rx_one`. -/
theorem netRxIp_delivered (m : RawMbuf) (iphdr : ℕ) :
    ∃ r, netRxIp m iphdr = some r ∧ (r.delivered = true ↔
      (ntoh16 m.mem (iphdr + 2) - 20).toNat ≤ m.len ∧
      (m.mem (iphdr + 9) = ipprotoIcmp ∨ m.mem (iphdr + 9) = ipprotoUdp ∨
        m.mem (iphdr + 9) = ipprotoTcp)) := by
  rw [netRxIp]
  dsimp only
  split
  · exact ⟨_, rfl, iff_of_false Bool.false_ne_true fun h => by omega⟩
  · rename_i hlen
    obtain ⟨m', hm', hmem⟩ := m.cutPadding_some (ntoh16 m.mem (iphdr + 2) - 20).toNat
    rw [hm']
    refine ⟨_, rfl, ?_⟩
    rw [hmem, and_iff_right (Nat.not_lt.mp hlen)]
    split
    · rename_i hicmp
      exact iff_of_true rfl (.inl hicmp)
    · rename_i hicmp
      split
      · rename_i hproto
        exact iff_of_true rfl (.inr hproto)
      · rename_i hproto
        exact iff_of_false Bool.false_ne_true fun h => h.elim hicmp hproto

theorem RawMbuf.pull_eq {n : ℕ} (h : n ≤ m.len) :
    m.pull n = some { m with data := m.data + n, len := m.len - n } := if_pos h

/-- The header at `o` is supported, unless the test for fragments fails. -/
theorem ipHdrSupported_iff (mem : ℕ → Byte) (o : ℕ) : ipHdrSupported mem o = true ↔
    (mem o).extractLsb' 4 4 = 4 ∧ (mem o).extractLsb' 0 4 = 5 ∧
      ntoh16 mem (o + 6) &&& 0x20 = 0 := by
  rw [ipHdrSupported, decide_eq_true_eq, fragTest_iff, ntoh16]
  rfl

/-- The tests of the network layer. -/
theorem netRxNetwork_delivered (hdr : RxNetHdr) (m : RawMbuf) :
    ∃ r, netRxNetwork hdr m = some r ∧ (r.delivered = true ↔ 20 ≤ m.len ∧
      (hdr.csumType = checksumTypeUnnecessary ∨ cksumInternet m.mem m.data 20 = 0) ∧
      ipHdrSupported m.mem m.data = true ∧
      20 + (ntoh16 m.mem (m.data + 2) - 20).toNat ≤ m.len ∧
      (m.mem (m.data + 9) = ipprotoIcmp ∨ m.mem (m.data + 9) = ipprotoUdp ∨
        m.mem (m.data + 9) = ipprotoTcp)) := by
  rw [netRxNetwork]
  by_cases h20 : 20 ≤ m.len
  · have hpull : m.markNetworkOffset.pull 20 = some { m.markNetworkOffset with
        data := m.data + 20, len := m.len - 20 } := RawMbuf.pull_eq h20
    rw [hpull]
    change ∃ r, (if hdr.csumType ≠ checksumTypeUnnecessary ∧ cksumInternet m.mem m.data 20 ≠ 0 then
        some .dropped
      else if ¬ ipHdrSupported m.mem m.data then some .dropped
      else netRxIp { m with data := m.data + 20, len := m.len - 20, networkOff := m.data } m.data) =
        some r ∧ _
    by_cases hbad : hdr.csumType ≠ checksumTypeUnnecessary ∧ cksumInternet m.mem m.data 20 ≠ 0
    · rw [if_pos hbad]
      exact ⟨_, rfl, iff_of_false Bool.false_ne_true fun h => h.2.1.elim hbad.1 hbad.2⟩
    · rw [if_neg hbad]
      by_cases hok : ipHdrSupported m.mem m.data = true
      swap
      · rw [if_pos hok]
        exact ⟨_, rfl, iff_of_false Bool.false_ne_true fun h => hok h.2.2.1⟩
      · rw [if_neg (not_not.mpr hok)]
        obtain ⟨r, hr, hdel⟩ := netRxIp_delivered
          { m with data := m.data + 20, len := m.len - 20, networkOff := m.data } m.data
        refine ⟨r, hr, hdel.trans ?_⟩
        dsimp only
        have htest : hdr.csumType = checksumTypeUnnecessary ∨
            cksumInternet m.mem m.data 20 = 0 := by
          by_contra hno
          exact hbad (not_or.mp hno)
        constructor
        · rintro ⟨htotal, hproto⟩
          exact ⟨h20, htest, hok, by omega, hproto⟩
        · rintro ⟨-, -, -, htotal, hproto⟩
          exact ⟨by omega, hproto⟩
  · have hpull : m.markNetworkOffset.pull 20 = none := if_neg h20
    rw [hpull]
    exact ⟨_, rfl, iff_of_false Bool.false_ne_true fun h => h20 h.1⟩

/-- The tests of the link layer. -/
theorem netRxOne_delivered (cfg : NetCfg) (m : RawMbuf) (hdr : RxNetHdr) :
    ∃ r, netRxOne cfg (some m) hdr = some r ∧ (r.delivered = true ↔
      ntoh16 (m.netRxAllocMbuf hdr).mem 12 = ethtypeIp ∧
      slice (m.netRxAllocMbuf hdr).mem 0 6 = macBytes cfg.mac ∧
      34 ≤ hdr.payload.length ∧
      (hdr.csumType = checksumTypeUnnecessary ∨
        cksumInternet (m.netRxAllocMbuf hdr).mem 14 20 = 0) ∧
      ipHdrSupported (m.netRxAllocMbuf hdr).mem 14 = true ∧
      34 + (ntoh16 (m.netRxAllocMbuf hdr).mem (14 + 2) - 20).toNat ≤ hdr.payload.length ∧
      ((m.netRxAllocMbuf hdr).mem (14 + 9) = ipprotoIcmp ∨
        (m.netRxAllocMbuf hdr).mem (14 + 9) = ipprotoUdp ∨
        (m.netRxAllocMbuf hdr).mem (14 + 9) = ipprotoTcp)) := by
  have hlen : (m.netRxAllocMbuf hdr).len = hdr.payload.length := rfl
  have hdata : (m.netRxAllocMbuf hdr).data = 0 := rfl
  rw [netRxOne]
  dsimp only
  generalize m.netRxAllocMbuf hdr = m₀ at hlen hdata
  rw [hdata]
  by_cases h14 : 14 ≤ m₀.len
  · rw [RawMbuf.pull_eq h14, hdata]
    dsimp only
    split
    · rename_i harp
      refine ⟨_, rfl, iff_of_false Bool.false_ne_true fun h => ?_⟩
      have htype : ethtypeArp = ethtypeIp := harp.symm.trans h.1
      exact absurd htype (by decide)
    · split
      · rename_i hother
        exact ⟨_, rfl, iff_of_false Bool.false_ne_true fun h => hother.elim (· h.1) (· h.2.1)⟩
      · rename_i hmine
        obtain ⟨htype, hdhost⟩ := not_or.mp hmine
        obtain ⟨r, hr, hdel⟩ := netRxNetwork_delivered hdr
          { m₀ with data := 0 + 14, len := m₀.len - 14 }
        refine ⟨r, hr, hdel.trans ?_⟩
        dsimp only
        rw [Nat.zero_add, ← hlen]
        constructor
        · rintro ⟨h20, hcksum, hok, htotal, hproto⟩
          exact ⟨not_not.mp htype, not_not.mp hdhost, by omega, hcksum, hok, by omega, hproto⟩
        · rintro ⟨-, -, h34, hcksum, hok, htotal, hproto⟩
          exact ⟨by omega, hcksum, hok, by omega, hproto⟩
  · have hpull : m₀.pull 14 = none := if_neg h14
    rw [hpull]
    exact ⟨_, rfl, iff_of_false Bool.false_ne_true fun h => by omega⟩

/-- **The packets that are delivered** pass all tests. -/
theorem netRxOne_delivered_iff (cfg : NetCfg) (m : RawMbuf) (hdr : RxNetHdr) :
    ∃ r, netRxOne cfg (some m) hdr = some r ∧
      (r.delivered = true ↔ hdr.Accepts cfg ∧ hdr.fragField &&& 0x20 = 0) := by
  have hmem : ∀ i, i < hdr.payload.length → (m.netRxAllocMbuf hdr).mem i = hdr.byte i :=
    fun i hi => mem_netRxAllocMbuf hi
  obtain ⟨r, hr, hdel⟩ := netRxOne_delivered cfg m hdr
  refine ⟨r, hr, hdel.trans ?_⟩
  by_cases h34 : 34 ≤ hdr.payload.length
  swap
  · exact iff_of_false (fun h => h34 h.2.2.1) fun h => h34 h.1.len
  have hntoh : ∀ o, o + 2 ≤ 34 → ntoh16 (m.netRxAllocMbuf hdr).mem o = ntoh16 hdr.byte o := by
    intro o ho
    rw [ntoh16, ntoh16, hmem o (by omega), hmem (o + 1) (by omega)]
  have hdhost : slice (m.netRxAllocMbuf hdr).mem 0 6 = slice hdr.byte 0 6 :=
    slice_congr fun i _ hi => hmem i (by omega)
  have hcksum : cksumInternet (m.netRxAllocMbuf hdr).mem 14 20 = cksumInternet hdr.byte 14 20 :=
    cksumInternet_congr fun i _ hi => hmem i (by omega)
  rw [hntoh 12 (by omega), hdhost, hcksum, ipHdrSupported_iff, hmem 14 (by omega),
    hntoh (14 + 6) (by omega), hntoh (14 + 2) (by omega), hmem (14 + 9) (by omega)]
  constructor
  · rintro ⟨htype, hmac, -, hsum, ⟨hversion, hhdr, hfrag⟩, htotal, hproto⟩
    exact ⟨⟨h34, htype, hmac, hsum, hversion, hhdr, htotal, hproto⟩, hfrag⟩
  · rintro ⟨h, hfrag⟩
    exact ⟨h.type, h.dhost, h.len, h.cksum, ⟨h.version, h.headerLen, hfrag⟩, h.total, h.proto⟩

/-! ## Fragments -/

/-- **Fragments are dropped** exactly when another test fails or bit 5 of the offset is set, which is
the bit that the test sees in a header in network byte order.  No packet that is not a fragment is
dropped by the test, whatever its flags. -/
theorem fragments_dropped_iff (cfg : NetCfg) (pool : Option RawMbuf) (hdr : RxNetHdr) :
    ∃ r, netRxOne cfg pool hdr = some r ∧
      ((hdr.Fragment → r.delivered = false) ↔
        (hdr.Fragment → pool.isSome = true → hdr.Accepts cfg → hdr.fragField &&& 0x20 ≠ 0)) ∧
      (¬ hdr.Fragment → pool.isSome = true → hdr.Accepts cfg → r.delivered = true) := by
  cases pool with
  | none =>
      refine ⟨.dropped, rfl, iff_of_true (fun _ => rfl) fun _ h => ?_, fun _ h => ?_⟩
      · cases h
      · cases h
  | some m =>
      obtain ⟨r, hr, hdel⟩ := netRxOne_delivered_iff cfg m hdr
      refine ⟨r, hr, imp_congr_right fun _ => ?_, fun hnot _ hacc => ?_⟩
      · rw [Option.isSome_some, imp_iff_right rfl, ← Bool.not_eq_true, hdel, not_and]
      · exact hdel.mpr ⟨hacc, hdr.fragTest_of_not_fragment hnot⟩

/-- The first fragment of a datagram, with the more-fragments bit set and its checksum right. -/
def firstFragment : RxNetHdr where
  csumType := 0
  payload :=
    [2, 0, 0, 0, 0, 1, 2, 0, 0, 0, 0, 2, 0x08, 0x00] ++
    [0x45, 0, 0, 28, 0, 1, 0x20, 0, 64, 17, 0x46, 0xce, 10, 0, 0, 1, 10, 0, 0, 2] ++
    [0x10, 0x00, 0x20, 0x00, 0x05, 0xc8, 0, 0]

/-- It is returned as a packet for UDP. -/
theorem first_fragment_delivered :
    firstFragment.Fragment ∧ firstFragment.fragField &&& 0x2000 ≠ 0 ∧
    cksumInternet firstFragment.byte 14 20 = 0 ∧
    ∀ m : RawMbuf, ∃ r, netRxOne ⟨0x0a000002, 0x020000000001⟩ (some m) firstFragment = some r ∧
      r.delivered = true := by
  have hcksum : cksumInternet firstFragment.byte 14 20 = 0 := by decide
  have hmf : firstFragment.fragField &&& 0x2000 ≠ 0 := by decide
  refine ⟨.inl hmf, hmf, hcksum, fun m => ?_⟩
  obtain ⟨r, hr, hdel⟩ := netRxOne_delivered_iff ⟨0x0a000002, 0x020000000001⟩ m firstFragment
  refine ⟨r, hr, hdel.mpr ⟨⟨by decide, by decide, by decide, .inr hcksum, by decide, by decide,
    by decide, .inr (.inl (by decide))⟩, by decide⟩⟩

end Skyloft
