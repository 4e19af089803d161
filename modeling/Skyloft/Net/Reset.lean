import Skyloft.Net.Handshake

/-!
# Resets

Who answers a segment with a reset, and whether a reset is believed.  A segment
enters the stack at a connection, at a listener or, when no transport entry
matches, at `tcp_rx_closed`; `Entry.sent` is what each of them puts on the wire.

SYN_SENT looks at the acknowledgement number before it looks at the RST flag, so
it answers a reset with a reset; and `tcp_rx_closed` does not count the SYN it
refuses, so its reset carries an acknowledgement number that SYN_SENT refuses.

## Main definitions

* `tcpRxConnThrough` — `tcp_rx_conn` with the work it defers.
* `Entry`, `Entry.sent` — the entry points.
* `reset_not_answered_iff` — when a reset is answered with a reset.
* `ResetInFlight`, `Refused`, `connection_never_refused` — a refused dial.
-/

namespace Skyloft

open Run

/-- `tcp_rx_conn` run through, with the work it defers until the lock is dropped:
a fast retransmission and an acknowledgement. -/
def tcpRxConnThrough (c : Conn) (f : Frame) (sndNxt : Seq) (io ioResend ioAck : Io) :
    Except Fault Conn := do
  match ← tcpRxParse f with
  | none => return c
  | some seg =>
      let r ← tcpRxConn c seg sndNxt io
      let c ←
        match r.retransmit with
        | none => pure r.conn
        | some m => tcpTxFastRetransmitFinish r.conn m ioResend
      return if r.doAck then tcpTxAck c ioAck else c

/-- Where a segment enters. -/
inductive Entry
  /-- `tcp_rx_conn`, with the value of `snd_nxt` it loads. -/
  | conn (c : Conn) (sndNxt : Seq)
  /-- `tcp_rx_listener`, with the initial sequence number it draws. -/
  | listener (iss : Seq)
  /-- `tcp_rx_closed`. -/
  | closed

/-- The packets that the processing of a frame puts on the wire. -/
def Entry.sent (f : Frame) (io ioResend ioAck : Io) : Entry → Except Fault (List Packet)
  | .conn c sndNxt => do
      let c' ← tcpRxConnThrough c f sndNxt io ioResend ioAck
      return c'.wire.drop c.wire.length
  | .listener iss => tcpRxListenerSent iss f io
  | .closed => .ok (tcpRxClosed f io)

/-! ## What goes on the wire -/

/-- `c'` has sent nothing or only packets without RST since `c`. -/
def NoRst (c c' : Conn) : Prop := ∃ ps, c'.wire = c.wire ++ ps ∧ ∀ p ∈ ps, p.flags.rst = false

namespace NoRst

variable {a b c : Conn}

theorem of_wire (h : b.wire = a.wire) : NoRst a b := ⟨[], by simp [h], nofun⟩

theorem trans (h : NoRst a b) (h' : NoRst b c) : NoRst a c := by
  obtain ⟨ps, hps, hp⟩ := h
  obtain ⟨qs, hqs, hq⟩ := h'
  refine ⟨ps ++ qs, by rw [hqs, hps, List.append_assoc], fun p hmem => ?_⟩
  exact (List.mem_append.mp hmem).elim (hp p) (hq p)

theorem netTxIp {p : Packet} (hp : p.flags.rst = false) (ret : ℤ) : NoRst c (netTxIp c p ret) := by
  rw [Skyloft.netTxIp]
  split
  · exact ⟨[p], rfl, by simpa using hp⟩
  · exact of_wire rfl

theorem tcpTxAck (c : Conn) (io : Io) : NoRst c (tcpTxAck c io) := by
  rw [Skyloft.tcpTxAck]
  split
  · exact (of_wire rfl).trans (netTxIp rfl _)
  · exact of_wire rfl

theorem tcpTxCtl (c : Conn) {flags : TcpFlags} (hf : flags.rst = false) (io : Io) :
    NoRst c (tcpTxCtl c flags io).1 := by
  rw [Skyloft.tcpTxCtl]
  split
  · exact (of_wire rfl).trans (netTxIp hf _)
  · exact of_wire rfl

end NoRst

theorem wire_tcpConnSetState {c c' : Conn} {new : TcpState} {now : Usec}
    (h : tcpConnSetState c new now = .ok c') : c'.wire = c.wire := by
  obtain ⟨wq, rfl⟩ := tcpConnSetState_eq h
  rfl

theorem wire_tcpConnPut {c c' : Conn} (h : tcpConnPut c = .ok c') : c'.wire = c.wire := by
  obtain ⟨n, rfl⟩ := tcpConnPut_eq h
  rfl

theorem wire_tcpConnFail {c c' : Conn} {err : ℤ} {now : Usec}
    (h : tcpConnFail c err now = .ok c') : c'.wire = c.wire := by
  obtain ⟨c₁, h₁, h₂⟩ := bind_eq_ok.mp h
  rw [wire_tcpConnPut h₂]
  exact (wire_tcpConnSetState h₁).trans rfl

theorem wire_tcpConnAck (c : Conn) : (tcpConnAck c).wire = c.wire := by
  rw [tcpConnAck]
  split <;> rfl

/-- `send_rst` for a segment whose acknowledgement is not used. -/
theorem wire_sendRst (c : Conn) (s : Segment) (io : Io) :
    (sendRst c false s io).wire = c.wire ++ rawRstAck 0 (s.seq + s.len) io := by
  rw [sendRst, if_neg (by simp), tcpTxRawRstAck, rawRstAck, netTxIp]
  by_cases ha : io.alloc 0 <;> by_cases hn : io.net 0 = 0 <;> simp [ha, hn]

/-! ## A reset at a connection -/

/-- The acknowledgement number that SYN_SENT refuses. -/
def SynSentRefuses (c : Conn) (sndNxt ack : Seq) : Prop :=
  wrapsLte ack c.snd.iss ∨ wrapsGt ack sndNxt

instance (c : Conn) (sndNxt ack : Seq) : Decidable (SynSentRefuses c sndNxt ack) :=
  inferInstanceAs (Decidable (_ ∨ _))

/-- SYN_SENT answers what it refuses, whatever its flags. -/
theorem tcpRxConn_refused {c : Conn} {s : Segment} {sndNxt : Seq} (io : Io)
    (hst : c.state = .synSent) (hack : s.flags.ack) (href : SynSentRefuses c sndNxt s.ack) :
    tcpRxConn c s sndNxt io =
      .ok { conn := tcpTimerUpdate (sendRst c false s io) io.now } := by
  have hbody : tcpRxConnBody c s sndNxt io = .ok { conn := sendRst c false s io } := by
    rw [tcpRxConnBody, if_neg (by rw [hst]; decide), if_pos hst, rxSynSent, if_pos ⟨hack, href⟩]
  exact bind_eq_ok.mpr ⟨_, hbody, rfl⟩

/-- SYN_SENT sends no reset for a reset whose acknowledgement number it takes. -/
theorem rxSynSent_noRst {c : Conn} {s : Segment} {sndNxt : Seq} {io : Io} {r : RxOut}
    (hacc : ¬ (s.flags.ack ∧ SynSentRefuses c sndNxt s.ack))
    (h : rxSynSent c s sndNxt io = .ok r) : NoRst c r.conn ∧ r.retransmit = none := by
  rw [SynSentRefuses] at hacc
  rw [rxSynSent, if_neg hacc] at h
  split at h
  · obtain ⟨c₁, h₁, h⟩ := bind_eq_ok.mp h
    cases h
    exact ⟨.of_wire (wire_tcpConnFail h₁), rfl⟩
  split at h
  · cases h
    exact ⟨.of_wire rfl, rfl⟩
  split at h
  · dsimp only at h
    generalize hc₁ : (if s.flags.ack = true then _ else _ : Conn) = c₁ at h
    have hwire : c₁.wire = c.wire := by
      rw [← hc₁]
      split
      · exact wire_tcpConnAck _
      · rfl
    split at h
    · obtain ⟨c₂, h₂, h⟩ := bind_eq_ok.mp h
      cases h
      exact ⟨.of_wire ((wire_tcpConnSetState h₂).trans hwire), rfl⟩
    · have hctl := @NoRst.tcpTxCtl c₁ { syn := true, ack := true } rfl io
      generalize tcpTxCtl c₁ { syn := true, ack := true } io = r₁ at h hctl
      obtain ⟨c₂, ret⟩ := r₁
      dsimp only at h hctl
      split at h
      · cases h
        exact ⟨(NoRst.of_wire hwire).trans hctl, rfl⟩
      · obtain ⟨c₃, h₃, h⟩ := bind_eq_ok.mp h
        cases h
        exact ⟨((NoRst.of_wire hwire).trans hctl).trans (.of_wire (wire_tcpConnSetState h₃)), rfl⟩
  · cases h
    exact ⟨.of_wire rfl, rfl⟩

/-- **A reset at a connection** is answered with a reset only in SYN_SENT, by an
acknowledgement number that is refused there. -/
theorem tcpRxConn_noRst {c : Conn} {s : Segment} {sndNxt : Seq} {io : Io} {r : RxOut}
    (hrst : s.flags.rst)
    (hacc : ¬ (c.state = .synSent ∧ s.flags.ack ∧ SynSentRefuses c sndNxt s.ack))
    (h : tcpRxConn c s sndNxt io = .ok r) : NoRst c r.conn ∧ r.retransmit = none := by
  obtain ⟨r, h₁, h⟩ := bind_eq_ok.mp h
  cases h
  suffices hr : NoRst c r.conn ∧ r.retransmit = none from hr.imp (·.trans (.of_wire rfl)) id
  rw [tcpRxConnBody] at h₁
  split at h₁
  · cases h₁
    exact ⟨.of_wire rfl, rfl⟩
  split at h₁
  · rename_i hst
    exact rxSynSent_noRst (fun hack => hacc ⟨hst, hack⟩) h₁
  split at h₁
  · cases h₁
    exact ⟨.of_wire rfl, rfl⟩
  · obtain ⟨c₁, h₂, h₁⟩ := bind_eq_ok.mp h₁
    cases h₁
    exact ⟨.of_wire (wire_tcpConnFail h₂), rfl⟩

theorem tcpRxParse_fields {f : Frame} {seg : Segment} (h : tcpRxParse f = .ok (some seg)) :
    seg.flags = f.flags ∧ seg.ack = f.ack := by
  rw [tcpRxParse] at h
  dsimp only at h
  split_ifs at h <;> cases h <;> exact ⟨rfl, rfl⟩

/-- The processing of a reset from end to end. -/
theorem tcpRxConnThrough_noRst {c c' : Conn} {f : Frame} {sndNxt : Seq} {io ioResend ioAck : Io}
    (hrst : f.flags.rst)
    (hacc : ¬ (c.state = .synSent ∧ f.flags.ack ∧ SynSentRefuses c sndNxt f.ack ∧
      ∃ seg, tcpRxParse f = .ok (some seg)))
    (h : tcpRxConnThrough c f sndNxt io ioResend ioAck = .ok c') : NoRst c c' := by
  obtain ⟨o, h₁, h⟩ := bind_eq_ok.mp h
  cases o with
  | none =>
      cases h
      exact .of_wire rfl
  | some seg =>
      obtain ⟨hflags, hackno⟩ := tcpRxParse_fields h₁
      obtain ⟨r, h₂, h⟩ := bind_eq_ok.mp h
      have hno := tcpRxConn_noRst (hflags ▸ hrst)
        (fun ⟨hst, hack, href⟩ => hacc ⟨hst, hflags ▸ hack, hackno ▸ href, seg, h₁⟩) h₂
      rw [hno.2] at h
      obtain ⟨c₁, h₃, h⟩ := bind_eq_ok.mp h
      cases h₃
      cases h
      split
      · exact hno.1.trans (.tcpTxAck _ _)
      · exact hno.1

/-! ## A reset at any entry point -/

/-- The processing of the frame puts no reset on the wire. -/
def SendsNoRst (e : Entry) (f : Frame) (io ioResend ioAck : Io) : Prop :=
  ∀ ps, e.sent f io ioResend ioAck = .ok ps → ∀ p ∈ ps, p.flags.rst = false

/-- The frame is an acknowledgement that SYN_SENT refuses, and a packet can be
sent. -/
def RefusedBySynSent (f : Frame) (io : Io) : Entry → Prop
  | .conn c sndNxt =>
      c.state = .synSent ∧ f.flags.ack ∧ SynSentRefuses c sndNxt f.ack ∧
        (∃ seg, tcpRxParse f = .ok (some seg)) ∧ io.alloc 0 ∧ io.net 0 = 0
  | _ => False

/-- A listener opens no connection for a reset. -/
theorem tcpRxListenerSent_rst (iss : Seq) {f : Frame} (io : Io) (hrst : f.flags.rst) :
    tcpRxListenerSent iss f io = .ok [] := by
  rw [tcpRxListenerSent, if_neg (by simp [hrst]), tcpRxListener, if_pos (by simp [hrst])]
  rfl

/-- What SYN_SENT refuses is answered with a reset, whatever its flags. -/
theorem sent_refused {c : Conn} {f : Frame} {sndNxt : Seq} {seg : Segment} (io ioResend ioAck : Io)
    (hst : c.state = .synSent) (hack : f.flags.ack) (href : SynSentRefuses c sndNxt f.ack)
    (hseg : tcpRxParse f = .ok (some seg)) :
    (Entry.conn c sndNxt).sent f io ioResend ioAck = .ok (rawRstAck 0 (seg.seq + seg.len) io) := by
  obtain ⟨hflags, hackno⟩ := tcpRxParse_fields hseg
  have hrx := tcpRxConn_refused (s := seg) io hst (hflags ▸ hack) (hackno ▸ href)
  have hthrough : tcpRxConnThrough c f sndNxt io ioResend ioAck =
      .ok (tcpTimerUpdate (sendRst c false seg io) io.now) :=
    bind_eq_ok.mpr ⟨_, hseg, bind_eq_ok.mpr ⟨_, hrx, rfl⟩⟩
  have hwire : (tcpTimerUpdate (sendRst c false seg io) io.now).wire =
      c.wire ++ rawRstAck 0 (seg.seq + seg.len) io := wire_sendRst c seg io
  refine bind_eq_ok.mpr ⟨_, hthrough, ?_⟩
  rw [hwire, List.drop_left]
  rfl

/-- **When a reset is answered with a reset**: for every frame with the RST flag and
every entry point, exactly when the frame reaches a connection in SYN_SENT with an
acknowledgement number that SYN_SENT refuses. -/
theorem reset_not_answered_iff (e : Entry) (f : Frame) (io ioResend ioAck : Io)
    (hrst : f.flags.rst) : SendsNoRst e f io ioResend ioAck ↔ ¬ RefusedBySynSent f io e := by
  cases e with
  | conn c sndNxt =>
      constructor
      · rintro hno ⟨hst, hack, href, ⟨seg, hseg⟩, ha, hn⟩
        have hsent := sent_refused io ioResend ioAck hst hack href hseg
        rw [rawRstAck, if_pos ⟨ha, hn⟩] at hsent
        exact absurd (hno _ hsent _ (List.mem_singleton_self _)) (by simp)
      · intro hnot ps hsent p hp
        by_cases hacc : c.state = .synSent ∧ f.flags.ack ∧ SynSentRefuses c sndNxt f.ack ∧
            ∃ seg, tcpRxParse f = .ok (some seg)
        · -- refused, but there is no buffer or the transmission fails
          obtain ⟨hst, hack, href, seg, hseg⟩ := hacc
          have hio : ¬ (io.alloc 0 ∧ io.net 0 = 0) :=
            fun hio => hnot ⟨hst, hack, href, ⟨seg, hseg⟩, hio.1, hio.2⟩
          cases (sent_refused io ioResend ioAck hst hack href hseg).symm.trans hsent
          rw [rawRstAck, if_neg hio] at hp
          cases hp
        · obtain ⟨c', hthrough, hsent⟩ := bind_eq_ok.mp hsent
          cases hsent
          obtain ⟨qs, hqs, hq⟩ := tcpRxConnThrough_noRst hrst hacc hthrough
          rw [hqs, List.drop_left] at hp
          exact hq p hp
  | listener iss =>
      refine iff_of_true (fun ps hsent p hp => ?_) nofun
      cases (tcpRxListenerSent_rst iss io hrst).symm.trans hsent
      cases hp
  | closed =>
      refine iff_of_true (fun ps hsent p hp => ?_) nofun
      cases hsent
      rw [tcpRxClosed, if_pos (.inr hrst)] at hp
      cases hp

/-- The connection of a dial with initial sequence number 0. -/
def dialled : Conn :=
  match tcpDialStart 0 (Io.good 0) with
  | .ok (c, _) => c
  | _ => tcpConnAlloc 0

/-- A reset of the peer that acknowledges just `iss`. -/
def refusedReset : Frame :=
  Packet.frame { seq := 0, ack := 0, flags := { rst := true, ack := true }, win := 0, data := [] }

/-- A reset that acknowledges the SYN is not answered. -/
theorem reset_not_answered_iff_acked :
    SendsNoRst (.conn dialled 1) (Packet.frame ⟨0, 1, { rst := true, ack := true }, 0, []⟩)
      (Io.good 0) (Io.good 0) (Io.good 0) :=
  (reset_not_answered_iff _ _ _ _ _ rfl).mpr fun h => absurd h.2.2.1 (by decide)

/-- A reset that acknowledges just `iss` is answered with a reset. -/
theorem reset_answered_in_synSent : refusedReset.flags.rst ∧ dialled.state = .synSent ∧
    (Entry.conn dialled 1).sent refusedReset (Io.good 0) (Io.good 0) (Io.good 0) =
      .ok [{ seq := 0, ack := 0, flags := { rst := true, ack := true }, win := 0, data := [] }] ∧
    ¬ SendsNoRst (.conn dialled 1) refusedReset (Io.good 0) (Io.good 0) (Io.good 0) := by
  refine ⟨rfl, rfl, rfl, fun h => ?_⟩
  have := h [{ seq := 0, ack := 0, flags := { rst := true, ack := true }, win := 0, data := [] }]
    rfl _ (List.mem_singleton_self _)
  cases this

/-! ## A refused dial -/

/-- A dialler in SYN_SENT, and the reset with which a host without a matching
transport entry answers the SYN of the dialler. -/
def ResetInFlight (iss : Seq) (s : Sys) (q : Packet) : Prop :=
  ∃ io c es p io', tcpDialStart iss io = .ok (c, 0) ∧ p ∈ c.wire ∧
    q ∈ tcpRxClosed p.frame io' ∧ exec sysStep (Sys.ofConn c) es = .ok s ∧
    s.conn.state = .synSent

/-- The reset was believed: the connection failed with `ECONNRESET`, and `tcp_dial`
returns an error to the dialling task. -/
def Refused (c : Conn) (t : Tid) : Prop :=
  c.state = .closed ∧ c.err = eConnReset ∧ ∃ ret, (tcpDialWait c t).2 = some ret ∧ ret < 0

/-- A control segment that could be sent. -/
theorem wire_tcpTxCtl {c c' : Conn} {flags : TcpFlags} {io : Io}
    (h : tcpTxCtl c flags io = (c', 0)) :
    ∃ p : Packet, c'.wire = c.wire ++ [p] ∧ p.seq = c.snd.nxt ∧ p.flags = flags ∧ p.data = [] := by
  rw [tcpTxCtl] at h
  split at h
  · obtain ⟨hc, hret⟩ := Prod.mk.inj h
    rw [← hc, netTxIp, if_pos hret]
    exact ⟨_, rfl, rfl, rfl, rfl⟩
  · exact absurd (Prod.mk.inj h).2 (by decide)

/-- The SYN of a dial. -/
theorem tcpDialStart_syn {iss : Seq} {io : Io} {c : Conn}
    (h : tcpDialStart iss io = .ok (c, 0)) : c.snd.iss = iss ∧ c.state = .synSent ∧
    ∃ p : Packet, c.wire = [p] ∧ p.seq = iss ∧ p.flags = { syn := true } ∧ p.data = [] := by
  rw [tcpDialStart] at h
  cases hr : tcpTxCtl (tcpConnAlloc iss) { syn := true } io with
  | mk c₁ ret =>
      rw [hr] at h
      dsimp only at h
      split at h
      · cases h
        contradiction
      · rename_i hret
        rw [not_not] at hret
        subst hret
        obtain ⟨c₂, h₂, h⟩ := bind_eq_ok.mp h
        cases h
        have hside : c.txSide = c₁.txSide := (txSide_tcpConnSetState h₂).trans rfl
        rw [txSide_tcpTxCtl_of_ret hr (by simp)] at hside
        obtain ⟨p, hwire, hp⟩ := wire_tcpTxCtl hr
        refine ⟨congrArg (fun x : TxSide => x.snd.iss) hside, (tcpConnSetState_spec h₂).2, p, ?_, hp⟩
        exact (wire_tcpConnSetState h₂).trans hwire

/-- The reset for a SYN: the segment counts as empty, so the number acknowledged is
that of the SYN itself. -/
theorem tcpRxClosed_syn {p : Packet} (io : Io) (hf : p.flags = { syn := true })
    (hd : p.data = []) : tcpRxClosed p.frame io = rawRstAck 0 p.seq io := by
  have hlen : p.frame.ipLen = 40 := by simp [Packet.frame, hd]
  have hz : (p.frame.ipLen.setWidth 32 - 20 - BitVec.ofNat 32 (p.frame.dataOff.toNat * 4) : Seq) =
      0 := by
    rw [hlen]
    change (40 : BitVec 16).setWidth 32 - 20 - BitVec.ofNat 32 ((5 : BitVec 4).toNat * 4) = 0
    decide
  have hhdr : p.frame.hasHdr := by
    rw [Frame.hasHdr, hlen]
    exact ⟨by simp, by decide⟩
  have hrst : p.frame.flags.rst = false := by simp [Packet.frame, hf]
  have hack : p.frame.flags.ack = false := by simp [Packet.frame, hf]
  rw [tcpRxClosed, if_neg (by simp [hhdr, hrst]), if_neg (by simp [hack])]
  dsimp only
  rw [hz, show p.frame.seq + 0 = p.seq from BitVec.add_zero p.seq]

theorem ResetInFlight.exists (iss : Seq) : ∃ s q, ResetInFlight iss s q := by
  obtain ⟨c, hdial⟩ : ∃ c, tcpDialStart iss (Io.good 0) = .ok (c, 0) := ⟨_, rfl⟩
  obtain ⟨-, hst, p, hwire, hseq, hflags, hdata⟩ := tcpDialStart_syn hdial
  have hclosed := tcpRxClosed_syn (Io.good 0) hflags hdata
  rw [rawRstAck, if_pos (by simp [Io.good])] at hclosed
  exact ⟨Sys.ofConn c, _, Io.good 0, c, [], p, Io.good 0, hdial, hwire ▸ List.mem_singleton_self p,
    hclosed ▸ List.mem_singleton_self _, rfl, hst⟩

/-- The reset acknowledges the `iss` of the dialler. -/
theorem ResetInFlight.reset {iss : Seq} {s : Sys} {q : Packet} (h : ResetInFlight iss s q) :
    s.conn.snd.iss = iss ∧ s.conn.state = .synSent ∧
      q = { seq := 0, ack := iss, flags := { rst := true, ack := true }, win := 0, data := [] } := by
  obtain ⟨io, c, es, p, io', hdial, hp, hq, hrun, hst⟩ := h
  obtain ⟨hiss, -, p', hwire, hseq, hflags, hdata⟩ := tcpDialStart_syn hdial
  obtain rfl : p = p' := by simpa [hwire] using hp
  refine ⟨(dialling_of_reach (.dial hdial) hrun).2.trans hiss, hst, ?_⟩
  rw [tcpRxClosed_syn io' hflags hdata, rawRstAck] at hq
  split at hq
  · rw [List.mem_singleton] at hq
    rw [hq, hseq]
  · cases hq

/-- **A refused dial is never told so.**  For every initial sequence number there is
a reset in flight to the dialler, and whichever state in SYN_SENT the dialler is in
when such a reset arrives, it does not fail: the acknowledgement number is `iss`,
which SYN_SENT refuses, and `tcp_dial` waits as before. -/
theorem connection_never_refused (iss : Seq) :
    (∃ s q, ResetInFlight iss s q) ∧
    ∀ s q, ResetInFlight iss s q → ∀ sndNxt io ioResend ioAck t,
      ∃ c', tcpRxConnThrough s.conn q.frame sndNxt io ioResend ioAck = .ok c' ∧
        ¬ Refused c' t ∧ c'.state = .synSent ∧
        (tcpDialWait c' t).2 = (tcpDialWait s.conn t).2 := by
  refine ⟨ResetInFlight.exists iss, fun s q h sndNxt io ioResend ioAck t => ?_⟩
  obtain ⟨hiss, hst, rfl⟩ := h.reset
  let seg : Segment :=
    { seq := 0, ack := iss, flags := { rst := true, ack := true }, win := 0, len := 0, payload := [] }
  have hparse : tcpRxParse (Packet.frame ⟨0, iss, { rst := true, ack := true }, 0, []⟩) =
      .ok (some seg) := by
    simp [tcpRxParse, Packet.frame, seg]
  have href : SynSentRefuses s.conn sndNxt seg.ack := .inl (by simp [seg, hiss, wrapsLte_iff])
  have hrx := tcpRxConn_refused (s := seg) io hst rfl href
  have hsame := (SameRx.refl s.conn).sendRst false seg io
  have hclosed := congrArg TxSide.closed (txSide_sendRst s.conn false seg io)
  refine ⟨_, bind_eq_ok.mpr ⟨some seg, hparse, bind_eq_ok.mpr ⟨_, hrx, rfl⟩⟩, ?_, ?_, ?_⟩
  · rintro ⟨hcl, -⟩
    change (sendRst s.conn false seg io).state = .closed at hcl
    rw [hsame.state, hst] at hcl
    cases hcl
  · exact hsame.state.trans hst
  · -- the test of the wait loop reads the state, `tx_closed` and the error, all unchanged
    change (tcpDialWait (tcpTimerUpdate (sendRst s.conn false seg io) io.now) t).2 = _
    have hst' : (tcpTimerUpdate (sendRst s.conn false seg io) io.now).state = s.conn.state :=
      hsame.state
    have hcl' : (tcpTimerUpdate (sendRst s.conn false seg io) io.now).tx.closed =
        s.conn.tx.closed := hclosed
    have herr : (tcpTimerUpdate (sendRst s.conn false seg io) io.now).err = s.conn.err :=
      congrArg RxSide.err hsame.side
    rw [tcpDialWait, tcpDialWait, hst', hcl', herr]
    split_ifs <;> rfl

/-- The dial with initial sequence number 0: the SYN reaches a host that does not
know the connection, its reset is delivered, and the dialler sleeps on in SYN_SENT. -/
theorem refused_dial_waits_on : ∃ c' p q, tcpDialStart 0 (Io.good 0) = .ok (dialled, 0) ∧
    dialled.wire = [p] ∧ tcpRxClosed p.frame (Io.good 0) = [q] ∧
    tcpRxConnThrough dialled q.frame 1 (Io.good 0) (Io.good 0) (Io.good 0) = .ok c' ∧
    c'.state = .synSent ∧ c'.err = 0 ∧ (tcpDialWait c' 0).2 = none ∧ ¬ Refused c' 0 :=
  ⟨_, _, _, rfl, rfl, rfl, rfl, rfl, rfl, rfl, fun h => absurd h.1 (by decide)⟩
end Skyloft
