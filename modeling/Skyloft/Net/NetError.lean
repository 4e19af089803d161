import Skyloft.Net.Retransmission
import Skyloft.Net.Transport

/-!
# Network errors

A packet whose address is not resolved is handed to `net_error`, which is to tell the socket that
sent it.  The sender is looked up by `trans_lookup`, as the receiver of a packet is: the local
address is taken from the destination fields, and the IP header is read at the recorded network
offset.  A packet that is sent has its sender in the source fields, and no function of the egress
path records the offset of its IP header.

* `netError`, `transError` — the report of an error, as the socket whose `err` operation is called.
* `udpWriteTo`, `tcpTxPacket`, `tcpTxRawPacket` — the packets that the sockets send.
* `NamesSender` — the header at the recorded offset leads to the sender.
* `net_error_reaches_iff` — exactly then is the sender told.
-/

namespace Skyloft

open Run Slice

/-! ## The report of an error -/

/-- `ip_hdr_supported`, of the header at `o`.  The fragment field is read without `ntoh16`. -/
def ipHdrSupported (mem : ℕ → Byte) (o : ℕ) : Bool :=
  decide ((mem o).extractLsb' 4 4 = 4 ∧ (mem o).extractLsb' 0 4 = 5 ∧
    (mem (o + 7) ++ mem (o + 6)) &&& 0x2000#16 = 0)

section

variable {E : Type}

/-- `trans_error`: the entry whose `err` operation is called.  `hasErr` tells which entries have
one. -/
def transError (h : TransHash) (s : TransTbl E) (hasErr : E → Bool) (m : RawMbuf) : Option E :=
  match transLookup h s m with
  | some e => if hasErr e then some e else none
  | none => none

/-- `net_error`. -/
def netError (h : TransHash) (s : TransTbl E) (hasErr : E → Bool) (m : RawMbuf) : Option E :=
  match m.pull 20 with
  | none => none
  | some m' =>
      if ¬ ipHdrSupported m.mem m.data then none
      else if m.mem (m.data + 9) = ipprotoUdp ∨ m.mem (m.data + 9) = ipprotoTcp then
        transError h s hasErr m'
      else none

end

/-! ## The packets that are sent -/

/-- `UDP_MAX_PAYLOAD`. -/
def udpMaxPayload : ℕ := 1472

/-- The fields of `struct udp_conn` that the egress path uses. -/
structure UdpConn where
  shutdown : Bool
  outqLen : ℕ
  outqCap : ℕ

/-- What a call of `udp_write_to` comes to. -/
inductive UdpWrite
  /-- It waits for room in the transmit buffer. -/
  | waits
  | refused (ret : ℤ)
  | sent (raddr : NetAddr) (m : RawMbuf) (ret : ℤ)

/-- `udp_send_raw`. -/
def udpSendRaw (cfg : NetCfg) (m : RawMbuf) (len : ℕ) (laddr raddr : NetAddr) (id : BitVec 16)
    (arp : ArpOut) : Option (RawMbuf × ℤ) := do
  let m ← m.push ({ srcPort := laddr.port, dstPort := raddr.port
                    len := BitVec.ofNat 16 (len + 8) } : UdpHdr).bytes
  netTxIpRaw cfg m ipprotoUdp raddr.ip id arp

/-- `udp_write_to` on a socket with the entry `x`.  `pool` is the buffer that `net_tx_alloc_mbuf`
takes, if there is one. -/
def udpWriteTo (cfg : NetCfg) (c : UdpConn) (x : TransEntry) (pool : Option RawMbuf)
    (buf : List Byte) (raddr : Option NetAddr) (id : BitVec 16) (arp : ArpOut) :
    Option (UdpConn × UdpWrite) :=
  if udpMaxPayload < buf.length then some (c, .refused (-eMsgSize))
  else if raddr = none ∧ x.kind = .tuple3 then some (c, .refused (-eDestAddrReq))
  else
    let addr := raddr.getD x.raddr
    if c.outqCap ≤ c.outqLen ∧ ¬ c.shutdown then some (c, .waits)
    else if c.shutdown then some (c, .refused (-ePipe))
    else
      let c := { c with outqLen := c.outqLen + 1 }
      match pool with
      | none => some (c, .refused (-eNobufs))
      | some m => do
          let m ← m.netTxAllocMbuf.put buf
          let (m, ret) ← udpSendRaw cfg m buf.length x.laddr addr id arp
          return (c, .sent addr m (if ret ≠ 0 then ret else buf.length))

/-- `tcp_push_tcphdr` and `net_tx_ip`, with which the packets of a connection are sent. -/
def tcpTxPacket (x : TxEnv) (m : TxMbuf) (l4len : BitVec 16) (arp : ArpOut) :
    Option (RawMbuf × ℤ) := do
  let m ← pushTcphdr x m l4len
  netTxIpRaw x.cfg m.raw ipprotoTcp x.raddr.ip x.id arp

/-- `tcp_tx_raw_rst`, and `tcp_tx_raw_rst_ack` with `withAck`. -/
def tcpTxRawPacket (x : TxEnv) (pool : RawMbuf) (seq : Seq) (withAck : Bool) (arp : ArpOut) :
    Option (RawMbuf × ℤ) := do
  let m := pool.netTxAllocMbuf
  let hdr : TcpHdr :=
    { sport := x.laddr.port, dport := x.raddr.port, seq := seq, ack := if withAck then x.ack else 0
      flags := { rst := true, ack := withAck }, win := 0
      sum := ipv4PhdrCksum ipprotoTcp x.laddr.ip x.raddr.ip 20 }
  let m ← m.push (hdr.bytes m.mem (m.data - 20))
  netTxIpRaw x.cfg m ipprotoTcp x.raddr.ip x.id arp

/-- The packets that a socket with the entry `x` sends to `raddr` while the address is not resolved,
in a buffer that comes from `pool`.  For a segment of a connection this is the buffer that waits on
`txq`, or its copy. -/
inductive SentPacket (cfg : NetCfg) (x : TransEntry) (raddr : NetAddr) (pool : RawMbuf) :
    RawMbuf → Prop
  | udp {c c' : UdpConn} {buf : List Byte} {dst : Option NetAddr} {id : BitVec 16} {m : RawMbuf}
      {ret : ℤ} (hproto : x.proto = ipprotoUdp)
      (hsend : udpWriteTo cfg c x (some pool) buf dst id .inProgress = some (c', .sent raddr m ret)) :
      SentPacket cfg x raddr pool m
  | tcp {env : TxEnv} {t : TxMbuf} {l4len : BitVec 16} {m : RawMbuf} {ret : ℤ}
      (hproto : x.proto = ipprotoTcp) (hladdr : env.laddr = x.laddr) (hraddr : env.raddr = raddr)
      (hpool : t.raw = pool) (hsend : tcpTxPacket env t l4len .inProgress = some (m, ret)) :
      SentPacket cfg x raddr pool m
  | rst {env : TxEnv} {seq : Seq} {withAck : Bool} {m : RawMbuf} {ret : ℤ}
      (hproto : x.proto = ipprotoTcp) (hladdr : env.laddr = x.laddr) (hraddr : env.raddr = raddr)
      (hsend : tcpTxRawPacket env pool seq withAck .inProgress = some (m, ret)) :
      SentPacket cfg x raddr pool m

/-! ## What `net_error` gets -/

/-- A packet with its IP header in front, of the given protocol and ports. -/
structure Outgoing (proto : Byte) (lport rport : BitVec 16) (off : ℕ) (m : RawMbuf) : Prop where
  supported : ipHdrSupported m.mem m.data = true
  proto_eq : m.mem (m.data + 9) = proto
  ports : slice m.mem (m.data + 20) 4 = be16 lport ++ be16 rport
  len : 24 ≤ m.len
  off_eq : m.networkOff = off

theorem ntoh16_of_slice {mem : ℕ → Byte} {o : ℕ} {v : BitVec 16} (h : slice mem o 2 = be16 v) :
    ntoh16 mem o = v := by
  have h' : [mem o, mem (o + 1)] = [v.extractLsb' 8 8, v.extractLsb' 0 8] := h
  rw [List.cons.injEq, List.cons.injEq] at h'
  rw [ntoh16, h'.1, h'.2.1]
  ext i hi
  rw [BitVec.getElem_append]
  split
  · rw [BitVec.getElem_extractLsb', Nat.zero_add, BitVec.getLsbD_eq_getElem]
  · rw [BitVec.getElem_extractLsb', ← BitVec.getLsbD_eq_getElem]
    congr 1
    omega

namespace Outgoing

variable {cfg : NetCfg} {proto : Byte} {lport rport : BitVec 16} {off : ℕ} {m m' : RawMbuf}

theorem ntoh16_ports (h : Outgoing proto lport rport off m) :
    ntoh16 m.mem (m.data + 20) = lport ∧ ntoh16 m.mem (m.data + 22) = rport := by
  have hports := h.ports
  rw [show (4 : ℕ) = 2 + 2 from rfl, slice_add] at hports
  obtain ⟨hsrc, hdst⟩ := List.append_inj hports rfl
  exact ⟨ntoh16_of_slice hsrc, ntoh16_of_slice hdst⟩

/-- The IP header is pushed in front of the ports. -/
theorem of_netTxIpRaw {daddr : BitVec 32} {id : BitVec 16} {ret : ℤ} (hlen : 4 ≤ m.len)
    (hports : slice m.mem m.data 4 = be16 lport ++ be16 rport)
    (hsend : netTxIpRaw cfg m proto daddr id .inProgress = some (m', ret)) :
    Outgoing proto lport rport m.networkOff m' := by
  obtain ⟨m₁, hpush, heq⟩ := Option.bind_eq_some_iff.mp hsend
  cases heq
  obtain ⟨hdata, hlen', hoff, hslice, hmem⟩ := RawMbuf.push_some hpush
  have hhdr := slice_eq_iff.mp hslice
  rw [IpHdr.length_bytes] at hdata hlen'
  refine ⟨?_, hhdr 9 (by simp), ?_, by omega, hoff⟩
  · have h₀ : m'.mem m'.data = 0x45 := hhdr 0 (by simp)
    have h₆ : m'.mem (m'.data + 6) = 0 := hhdr 6 (by simp)
    have h₇ : m'.mem (m'.data + 7) = 0 := hhdr 7 (by simp)
    rw [ipHdrSupported, h₀, h₆, h₇]
    rfl
  · rw [hdata, hmem _ _ (le_refl _), hports]

end Outgoing

/-- A transport header starts with the ports. -/
theorem RawMbuf.push_ports {m m' : RawMbuf} {hdr : List Byte} {lport rport : BitVec 16}
    (hpush : m.push hdr = some m') (hhdr : hdr.take 4 = be16 lport ++ be16 rport)
    (hlen : 4 ≤ hdr.length) : slice m'.mem m'.data 4 = be16 lport ++ be16 rport ∧ 4 ≤ m'.len ∧
      m'.networkOff = m.networkOff := by
  obtain ⟨-, hlen', hoff, hslice, -⟩ := RawMbuf.push_some hpush
  refine ⟨?_, by omega, hoff⟩
  rw [← hhdr, ← take_slice _ _ _ hlen, hslice]

/-- A datagram that is sent was put into the buffer and given its header. -/
theorem udpWriteTo_sent {cfg : NetCfg} {c c' : UdpConn} {x : TransEntry} {pool m : RawMbuf}
    {buf : List Byte} {dst : Option NetAddr} {id : BitVec 16} {arp : ArpOut} {raddr : NetAddr}
    {ret : ℤ}
    (h : udpWriteTo cfg c x (some pool) buf dst id arp = some (c', .sent raddr m ret)) :
    ∃ m₁ ret', pool.netTxAllocMbuf.put buf = some m₁ ∧
      udpSendRaw cfg m₁ buf.length x.laddr raddr id arp = some (m, ret') := by
  rw [udpWriteTo] at h
  split at h
  · cases h
  · split at h
    · cases h
    · dsimp only at h
      split at h
      · cases h
      · split at h
        · cases h
        · obtain ⟨m₁, hput, h⟩ := Option.bind_eq_some_iff.mp h
          obtain ⟨⟨m₂, ret'⟩, hsend, h⟩ := Option.bind_eq_some_iff.mp h
          cases h
          exact ⟨m₁, ret', hput, hsend⟩

theorem SentPacket.outgoing {cfg : NetCfg} {x : TransEntry} {raddr : NetAddr} {pool m : RawMbuf}
    (h : SentPacket cfg x raddr pool m) :
    Outgoing x.proto x.laddr.port raddr.port pool.networkOff m := by
  cases h with
  | udp hproto hsend =>
      obtain ⟨m₁, ret', hput, hsend⟩ := udpWriteTo_sent hsend
      obtain ⟨m₂, hpush, hsend⟩ := Option.bind_eq_some_iff.mp hsend
      obtain ⟨hports, hlen, hoff⟩ := RawMbuf.push_ports hpush rfl (by simp)
      have hoff₁ : m₁.networkOff = pool.networkOff := by
        rw [RawMbuf.put] at hput
        split at hput
        · cases hput
          rfl
        · cases hput
      rw [hproto, ← hoff₁, ← hoff]
      exact Outgoing.of_netTxIpRaw hlen hports hsend
  | tcp hproto hladdr hraddr hpool hsend =>
      obtain ⟨t', ht', hsend⟩ := Option.bind_eq_some_iff.mp hsend
      obtain ⟨raw, hpush, heq⟩ := Option.bind_eq_some_iff.mp ht'
      cases heq
      obtain ⟨hports, hlen, hoff⟩ := RawMbuf.push_ports hpush rfl (by simp)
      rw [hproto, ← hladdr, ← hraddr, ← hpool, ← hoff]
      exact Outgoing.of_netTxIpRaw (m := raw.markTransportOffset) hlen hports hsend
  | rst hproto hladdr hraddr hsend =>
      rw [tcpTxRawPacket] at hsend
      obtain ⟨m₁, hpush, hsend⟩ := Option.bind_eq_some_iff.mp hsend
      obtain ⟨hports, hlen, hoff⟩ := RawMbuf.push_ports hpush rfl (by simp)
      rw [hproto, ← hladdr, ← hraddr]
      rw [show pool.networkOff = m₁.networkOff from hoff.symm]
      exact Outgoing.of_netTxIpRaw hlen hports hsend

theorem SentPacket.proto_eq {cfg : NetCfg} {x : TransEntry} {raddr : NetAddr} {pool m : RawMbuf}
    (h : SentPacket cfg x raddr pool m) : x.proto = ipprotoUdp ∨ x.proto = ipprotoTcp := by
  cases h with
  | udp hproto _ => exact .inl hproto
  | tcp hproto _ _ _ _ => exact .inr hproto
  | rst hproto _ _ _ => exact .inr hproto

/-! ## Who is told -/

section

variable {E : Type} {h : TransHash} {s : TransTbl E} {hasErr : E → Bool}

/-- The header at `off` leads from a packet to `raddr` back to its sender, with the ends taken the
other way round: it has the protocol of the sender and the sender's address as its destination, the
packet goes to the sender's own port, and the source address of the header, with that port, is the
sender's peer.  A socket that takes packets from everywhere must not have a connection to that
address beside it. -/
structure NamesSender (s : TransTbl E) (x : TransEntry) (raddr : NetAddr) (mem : ℕ → Byte)
    (off : ℕ) : Prop where
  proto : mem (off + 9) = x.proto
  daddr : ntoh32 mem (off + 16) = x.laddr.ip
  port : raddr.port = x.laddr.port
  peer : match x.kind with
    | .tuple5 => x.raddr = ⟨ntoh32 mem (off + 12), x.laddr.port⟩
    | .tuple3 => ∀ e, Buckets.Holds s.tbl e →
        s.ent e ≠ ⟨.tuple5, x.proto, x.laddr, ⟨ntoh32 mem (off + 12), x.laddr.port⟩⟩

theorem namesSender_iff {e : E} (he : Buckets.Holds s.tbl e) {raddr : NetAddr} {mem : ℕ → Byte}
    {off : ℕ} :
    (Buckets.Holds s.tbl e ∧
      (s.ent e = ⟨.tuple5, mem (off + 9), ⟨ntoh32 mem (off + 16), raddr.port⟩,
          ⟨ntoh32 mem (off + 12), (s.ent e).laddr.port⟩⟩ ∨
        ((s.ent e).kind = .tuple3 ∧ (s.ent e).proto = mem (off + 9) ∧
            (s.ent e).laddr = ⟨ntoh32 mem (off + 16), raddr.port⟩) ∧
          ∀ e', Buckets.Holds s.tbl e' →
            s.ent e' ≠ ⟨.tuple5, mem (off + 9), ⟨ntoh32 mem (off + 16), raddr.port⟩,
              ⟨ntoh32 mem (off + 12), (s.ent e).laddr.port⟩⟩)) ↔
      NamesSender s (s.ent e) raddr mem off := by
  generalize s.ent e = x
  obtain ⟨kind, proto, ⟨ip, port⟩, peer⟩ := x
  constructor
  · rintro ⟨-, h5 | ⟨⟨hkind, hproto, hladdr⟩, hno⟩⟩
    · simp only [TransEntry.mk.injEq, NetAddr.mk.injEq] at h5
      obtain ⟨rfl, rfl, ⟨rfl, rfl⟩, rfl⟩ := h5
      exact ⟨rfl, rfl, rfl, rfl⟩
    · simp only [NetAddr.mk.injEq] at hkind hproto hladdr hno
      obtain ⟨rfl, rfl⟩ := hladdr
      subst hkind hproto
      exact ⟨rfl, rfl, rfl, hno⟩
  · rintro ⟨hproto, hdaddr, hport, hpeer⟩
    dsimp only at hproto hdaddr hport
    subst hproto hdaddr hport
    refine ⟨he, ?_⟩
    cases kind with
    | tuple5 =>
        left
        rw [show peer = _ from hpeer]
    | tuple3 => exact .inr ⟨⟨rfl, rfl, rfl⟩, hpeer⟩

/-- `net_error` gets as far as the lookup. -/
theorem Outgoing.netError_eq {proto : Byte} {lport rport : BitVec 16} {off : ℕ} {m : RawMbuf}
    (hm : Outgoing proto lport rport off m) (hproto : proto = ipprotoUdp ∨ proto = ipprotoTcp) :
    netError h s hasErr m =
      transError h s hasErr { m with data := m.data + 20, len := m.len - 20 } := by
  have hlen : 20 ≤ m.len := by
    have := hm.len
    omega
  rw [netError, RawMbuf.pull, if_pos hlen]
  dsimp only
  rw [if_neg (not_not.mpr hm.supported), hm.proto_eq, if_pos hproto]

/-- The lookup sees the ends of the packet exchanged, and the header at the recorded offset. -/
theorem TransInv.transLookup_outgoing (hi : TransInv h s) {e : E} (he : Buckets.Holds s.tbl e)
    {raddr : NetAddr} {off : ℕ} {m : RawMbuf}
    (hm : Outgoing (s.ent e).proto (s.ent e).laddr.port raddr.port off m)
    (hproto : (s.ent e).proto = ipprotoUdp ∨ (s.ent e).proto = ipprotoTcp) :
    transLookup h s { m with data := m.data + 20, len := m.len - 20 } = some e ↔
      NamesSender s (s.ent e) raddr m.mem off := by
  obtain ⟨hsrc, hdst⟩ := hm.ntoh16_ports
  set m' : RawMbuf := { m with data := m.data + 20, len := m.len - 20 } with hm'
  have hlen : 4 ≤ m'.len := by
    have := hm.len
    change 4 ≤ m.len - 20
    omega
  have hq : m'.proto = m.mem (off + 9) := by rw [← hm.off_eq]; rfl
  have hladdr : m'.laddr = ⟨ntoh32 m.mem (off + 16), raddr.port⟩ := by
    rw [← hm.off_eq, ← hdst]
    rfl
  have hraddr : m'.raddr = ⟨ntoh32 m.mem (off + 12), (s.ent e).laddr.port⟩ := by
    rw [← hm.off_eq, ← hsrc]
    rfl
  by_cases hknown : m'.proto = ipprotoTcp ∨ m'.proto = ipprotoUdp
  · rw [hi.transLookup_eq_some_iff hknown hlen, hq, hladdr, hraddr]
    exact namesSender_iff he
  · -- the stale byte is no protocol that is looked up, and not the sender's
    constructor
    · intro hsome
      rw [transLookup, if_pos ⟨fun hudp => hknown (.inr hudp), fun htcp => hknown (.inl htcp)⟩]
        at hsome
      cases hsome
    · intro hnames
      rw [hq, hnames.proto] at hknown
      exact absurd hproto.symm hknown

/-- **Network errors.**  For every state of the transport table, every socket in it and every packet
that the socket sends: `net_error` calls the `err` operation of the socket exactly when the bytes at
the network offset, which is the one that the buffer had before, happen to name it with the two ends
exchanged. -/
theorem net_error_reaches_iff [DecidableEq E] {ent : E → TransEntry} {es : List (TransEvent E)}
    (hes : Along (transStep h) TransAllowed (.empty ent) es)
    (hs : exec (transStep h) (.empty ent) es = .ok s) {e : E} (he : Buckets.Holds s.tbl e)
    (herr : hasErr e = true) {cfg : NetCfg} {raddr : NetAddr} {pool m : RawMbuf}
    (hm : SentPacket cfg (s.ent e) raddr pool m) :
    netError h s hasErr m = some e ↔ NamesSender s (s.ent e) raddr m.mem pool.networkOff := by
  have hi : TransInv h s :=
    exec_invariant (fun _ _ _ hs hok hstep => hs.step hok hstep) (.empty ent) hes hs
  rw [hm.outgoing.netError_eq hm.proto_eq, ← hi.transLookup_outgoing he hm.outgoing hm.proto_eq,
    transError]
  cases transLookup h s { m with data := m.data + 20, len := m.len - 20 } with
  | none => simp
  | some e' =>
      dsimp only
      constructor
      · intro hret
        split at hret
        · exact hret
        · cases hret
      · rintro ⟨⟩
        rw [if_pos herr]

end

/-- A UDP socket on port 7000, alone in the table. -/
def udpSocket : TransEntry := ⟨.tuple3, ipprotoUdp, ⟨10, 7000⟩, ⟨0, 0⟩⟩

def openUdp : List (TransEvent Unit) := [.add ()]

theorem openUdp_allowed :
    Along (transStep collidingHash) TransAllowed (.empty fun _ => udpSocket) openUdp := by
  refine ⟨trivial, ?_⟩
  rintro _ ⟨⟩
  trivial

def udpTbl : TransTbl Unit := (transTableAdd collidingHash (.empty fun _ => udpSocket) ()).1

/-- A buffer in memory that was never written, and one in which there is an IP header at the recorded
offset. -/
def freshBuf : RawMbuf := ⟨fun _ => 0, 0, 0, 0, 0, 0⟩
def usedBuf : RawMbuf :=
  { freshBuf with mem := fun i => (⟨31, 0, ipprotoUdp, 20, 10⟩ : IpHdr).bytes.getD i 0 }

def idleUdp : UdpConn := ⟨false, 0, 2048⟩

/-- Three bytes to port 8000 in a fresh buffer: the socket is not told. -/
theorem net_error_lost : ∃ m,
    Along (transStep collidingHash) TransAllowed (.empty fun _ => udpSocket) openUdp ∧
    exec (transStep collidingHash) (.empty fun _ => udpSocket) openUdp = .ok udpTbl ∧
    Buckets.Holds udpTbl.tbl () ∧
    SentPacket ⟨10, 0⟩ (udpTbl.ent ()) ⟨20, 8000⟩ freshBuf m ∧
    netError collidingHash udpTbl (fun _ => true) m = none := by
  refine ⟨_, openUdp_allowed, rfl, ⟨0, by decide⟩,
    @SentPacket.udp _ _ _ _ idleUdp _ [1, 2, 3] (some ⟨20, 8000⟩) 0 _ _ rfl rfl, ?_⟩
  decide

theorem net_error_reaches_used : ∃ m,
    SentPacket ⟨10, 0⟩ (udpTbl.ent ()) ⟨20, 7000⟩ usedBuf m ∧
    netError collidingHash udpTbl (fun _ => true) m = some () := by
  have hm : ∃ m, SentPacket ⟨10, 0⟩ (udpTbl.ent ()) ⟨20, 7000⟩ usedBuf m ∧
      NamesSender udpTbl (udpTbl.ent ()) ⟨20, 7000⟩ m.mem usedBuf.networkOff := by
    refine ⟨_, @SentPacket.udp _ _ _ _ idleUdp _ [1, 2, 3] (some ⟨20, 7000⟩) 0 _ _ rfl rfl,
      by decide, by decide, rfl, ?_⟩
    rintro ⟨⟩ - hne
    cases hne
  obtain ⟨m, hsent, hnames⟩ := hm
  exact ⟨m, hsent, (net_error_reaches_iff openUdp_allowed rfl ⟨0, by decide⟩ rfl hsent).mpr hnames⟩

end Skyloft
