import Skyloft.Net.Conn

/-!
# The egress datapath

`libos/net/tcp_out.c`.  A transmitted buffer keeps its payload view: the headers
that `tcp_push_tcphdr` and `net_tx_ip` prepend go into the `Packet`, and
`tcp_tx_retransmit_one` strips them again before it reads the buffer.
-/

namespace Skyloft

/-- `tcp_push_tcphdr`: the header takes the acknowledgement and the low half of
the receive window, and the connection remembers both. -/
def tcpPushTcphdr (c : Conn) (seq : Seq) (flags : TcpFlags) (payload : List Byte) :
    Conn × Packet :=
  let win := c.rcv.wnd.setWidth 16
  ({ c with tx := { c.tx with lastAck := c.rcv.nxt, lastWin := win } },
    { seq := seq, ack := c.rcv.nxt, flags := flags, win := win, data := payload })

/-- `net_tx_ip` with return code `ret`. -/
def netTxIp (c : Conn) (p : Packet) (ret : ℤ) : Conn :=
  if ret = 0 then { c with wire := c.wire ++ [p] } else c

/-- `tcp_tx_raw_rst`. -/
def tcpTxRawRst (c : Conn) (seq : Seq) (io : Io) : Conn :=
  if io.alloc 0 then
    netTxIp c { seq := seq, ack := 0, flags := { rst := true }, win := 0, data := [] } (io.net 0)
  else c

/-- `tcp_tx_raw_rst_ack`. -/
def tcpTxRawRstAck (c : Conn) (seq ack : Seq) (io : Io) : Conn :=
  if io.alloc 0 then
    netTxIp c { seq := seq, ack := ack, flags := { rst := true, ack := true }, win := 0, data := [] }
      (io.net 0)
  else c

/-- `tcp_tx_ack`. -/
def tcpTxAck (c : Conn) (io : Io) : Conn :=
  if io.alloc 0 then
    let (c, p) := tcpPushTcphdr c c.snd.nxt { ack := true } []
    netTxIp c p (io.net 0)
  else c

/-- `tcp_tx_ctl`: queue and send a control segment.  The segment stays on `txq`
when its transmission fails. -/
def tcpTxCtl (c : Conn) (flags : TcpFlags) (io : Io) : Conn × ℤ :=
  if io.alloc 0 then
    let seq := c.snd.nxt
    let (c, p) := tcpPushTcphdr c seq flags []
    let m : Mbuf :=
      { buf := [], off := 0, len := 0, segSeq := seq, segEnd := seq + 1, flags := flags
        timestamp := io.now, ref := if io.net 0 = 0 then 2 else 1, inBuf := by simp }
    let c :=
      { c with
        snd := { c.snd with nxt := c.snd.nxt + 1 }
        tx := { c.tx with txq := c.tx.txq ++ [m] } }
    (netTxIp c p (io.net 0), io.net 0)
  else (c, -eNomem)

/-! ## The segmenter -/

/-- `mbuf_length(m) - sizeof(struct tcp_hdr) < TCP_MSS`, in `size_t`. -/
def keepsForLater (len : ℕ) : Prop := (BitVec.ofNat 64 len - 20).toNat < tcpMss

instance (len : ℕ) : Decidable (keepsForLater len) := inferInstanceAs (Decidable (_ < _))

/-- The head of the segmenter loop: take over the pending buffer or allocate a
fresh one.  Returns the buffer and how many bytes to copy into it. -/
def txNextMbuf (c : Conn) (left : ℕ) (alloc : Bool) : Option (Conn × Mbuf × ℕ) :=
  match c.tx.pending with
  | some m =>
      let seglen := min left (tcpMss - m.len)
      some ({ c with tx := { c.tx with pending := none } },
        { m with segEnd := m.segEnd + BitVec.ofNat 32 seglen }, seglen)
  | none =>
      if alloc then
        let seglen := min left tcpMss
        some (c,
          { buf := [], off := 0, len := 0, segSeq := c.snd.nxt
            segEnd := c.snd.nxt + BitVec.ofNat 32 seglen, flags := { ack := true }
            timestamp := 0, ref := 2, inBuf := by simp }, seglen)
      else none

/-- The tail of the segmenter loop: put the header on, queue the buffer and send
it. -/
def txTransmit (c : Conn) (m : Mbuf) (push : Bool) (now : Usec) (ret : ℤ) : Conn :=
  let flags := { m.flags with psh := m.flags.psh || push }
  let (c, p) := tcpPushTcphdr c m.segSeq flags m.data
  let m := { m with flags := flags, timestamp := now, ref := if ret = 0 then m.ref else 1 }
  netTxIp { c with tx := { c.tx with txq := c.tx.txq ++ [m] } } p ret

/-- The segmenter loop of `tcp_tx_send`; returns what is left of the buffer. -/
def tcpTxSendLoop (push : Bool) (io : Io) : ℕ → ℕ → Conn → List Byte → Conn × List Byte
  | 0, _, c, buf => (c, buf)
  | fuel + 1, k, c, buf =>
      if buf = [] then (c, buf)
      else
        match txNextMbuf c buf.length (io.alloc k) with
        | none => (c, buf)
        | some (c, m, seglen) =>
            let m := mbufPut m (buf.take seglen)
            let c := { c with snd := { c.snd with nxt := c.snd.nxt + BitVec.ofNat 32 seglen } }
            let rest := buf.drop seglen
            -- without a push the last buffer is kept for later
            if !push && rest = [] && keepsForLater m.len then
              ({ c with tx := { c.tx with pending := some m } }, rest)
            else
              tcpTxSendLoop push io fuel (k + 1)
                (txTransmit c m (push && rest = []) io.now (io.net k)) rest

/-- `tcp_tx_send`.  Each turn of the loop consumes a byte, except that a full
pending buffer is sent without taking any, so `buf.length + 1` turns are enough. -/
def tcpTxSend (c : Conn) (buf : List Byte) (push : Bool) (io : Io) : Except Fault (Conn × ℤ) :=
  if TcpState.established ≤ c.state then
    let (c, rest) := tcpTxSendLoop push io (buf.length + 1) 0 c buf
    let sent := buf.length - rest.length
    .ok (c, if 0 < sent then sent else if buf = [] then 0 else -eNobufs)
  else .error .txState

/-! ## Retransmission -/

/-- Strip the data that was already received. -/
def stripAcked (una : Seq) (m : Mbuf) : Except Fault Mbuf :=
  if wrapsLt m.segSeq una then do
    let m' ← mbufPull m (una - m.segSeq).toNat
    return { m' with segSeq := una }
  else .ok m

/-- `tcp_tx_retransmit_one` on a buffer; returns the connection, the buffer as it
is left on the queue and the return code.  A buffer that is still being
transmitted is copied first and left alone. -/
def tcpTxRetransmitOne (c : Conn) (m : Mbuf) (io : Io) (k : ℕ) :
    Except Fault (Conn × Mbuf × ℤ) :=
  if m.ref ≠ 1 ∧ io.alloc k = false then .ok (c, m, -eNomem)
  else if wrapsLte m.segEnd c.snd.una then .ok (c, m, 0)
  else do
    let m' ← stripAcked c.snd.una m
    let (c, p) := tcpPushTcphdr c m'.segSeq m'.flags m'.data
    let c := netTxIp c p (io.net k)
    -- the copy is freed or handed over, the buffer itself gets its references back
    return (c, if m.ref ≠ 1 then m else { m' with ref := if io.net k = 0 then 2 else 1 },
      io.net k)

/-- The loop of `tcp_tx_retransmit` over `txq`, with the buffers already passed. -/
def txRetransmitLoop (io : Io) : ℕ → ℕ → Conn → List Mbuf → Except Fault (Conn × List Mbuf)
  | _, _, c, [] => .ok (c, [])
  | k, count, c, m :: ms =>
      if io.now - m.timestamp < tcpRetransmitTimeout then .ok (c, m :: ms)
      else if wrapsGte c.snd.una m.segEnd then do
        let (c, ms) ← txRetransmitLoop io k count c ms
        return (c, m :: ms)
      else do
        let (c, m, ret) ← tcpTxRetransmitOne c { m with timestamp := io.now } io k
        if ret ≠ 0 ∨ tcpRetransmitBatch ≤ count + 1 then .ok (c, m :: ms)
        else
          let (c, ms) ← txRetransmitLoop io (k + 1) (count + 1) c ms
          return (c, m :: ms)

/-- `tcp_tx_retransmit`. -/
def tcpTxRetransmit (c : Conn) (io : Io) : Except Fault Conn := do
  let (c, txq) ← txRetransmitLoop io 0 0 c c.tx.txq
  return { c with tx := { c.tx with txq := txq } }

/-- `tcp_tx_fast_retransmit_start`: reserve the head of `txq`. -/
def tcpTxFastRetransmitStart (c : Conn) (now : Usec) : Conn × Option Mbuf :=
  if c.tx.exclusive then (c, none)
  else
    match c.tx.txq with
    | [] => (c, none)
    | m :: ms =>
        let m := { m with timestamp := now, ref := m.ref + 1 }
        ({ c with tx := { c.tx with txq := m :: ms } }, some m)

/-- `tcp_tx_fast_retransmit_finish`: resend the reserved buffer and drop the
reservation, if the buffer is still queued. -/
def tcpTxFastRetransmitFinish (c : Conn) (m : Mbuf) (io : Io) : Except Fault Conn := do
  let (c, _, _) ← tcpTxRetransmitOne c m io 0
  let unref (x : Mbuf) : Mbuf := if x.segEnd = m.segEnd then { x with ref := x.ref - 1 } else x
  return { c with tx := { c.tx with txq := c.tx.txq.map unref } }

end Skyloft
