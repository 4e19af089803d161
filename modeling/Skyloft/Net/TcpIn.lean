import Skyloft.Net.Tcp

/-!
# The ingress datapath

`libos/net/tcp_in.c`.  `tcpRxParse` is the header handling in front of the lock,
together with the length check of `net_rx_one`; `tcpRxConn` is the locked body of
`tcp_rx_conn`.  The value of `snd_nxt` that the source loads before it takes the
lock is a parameter of the body.

The body is cut where the source numbers its steps: acknowledgement, close
transitions, segment text and FIN each have a definition.
-/

namespace Skyloft

/-! ## Header handling -/

/-- A received IPv4/TCP frame: the total length field of the IP header, the TCP
header fields the code reads, and the bytes behind the fixed TCP header. -/
structure Frame where
  ipLen : BitVec 16
  seq : Seq
  ack : Seq
  dataOff : BitVec 4
  flags : TcpFlags
  win : BitVec 16
  body : List Byte

/-- The frame in which a packet of this stack arrives at its peer. -/
def Packet.frame (p : Packet) : Frame where
  ipLen := BitVec.ofNat 16 (40 + p.data.length)
  seq := p.seq
  ack := p.ack
  dataOff := 5
  flags := p.flags
  win := p.win
  body := p.data

/-- A parsed segment.  `len` is the length in sequence space: the payload and one
more for a FIN. -/
structure Segment where
  seq : Seq
  ack : Seq
  flags : TcpFlags
  win : BitVec 16
  len : Seq
  payload : List Byte
  deriving DecidableEq, Repr

/-- The length checks of `net_rx_one` and the part of `tcp_rx_conn` in front of
the lock; `none` when the frame is dropped. -/
def tcpRxParse (f : Frame) : Except Fault (Option Segment) :=
  let l4len := (f.ipLen - 20).toNat
  -- `net_rx_one` drops short frames and trims long ones to the IP length
  if 20 + f.body.length < l4len then .ok none
  -- `mbuf_pull_hdr_or_null`
  else if l4len < 20 then .ok none
  else
    let m := f.body.take (l4len - 20)
    let hdrLen := f.dataOff.toNat * 4
    if hdrLen < 20 then .ok none
    else
      let len : Seq := f.ipLen.setWidth 32 - 20 - BitVec.ofNat 32 hdrLen
      if m.length < len.toNat then .ok none
      -- strip off options
      else if hdrLen - 20 ≤ m.length then
        .ok (some
          { seq := f.seq, ack := f.ack, flags := f.flags, win := f.win
            len := if f.flags.fin then len + 1 else len
            payload := m.drop (hdrLen - 20) })
      else .error .mbufPull

/-! ## Acceptability and resets -/

/-- `is_acceptable`: the four cases of the acceptability test. -/
def isAcceptable (rcv : RcvVars) (len seq : Seq) : Prop :=
  if len = 0 ∧ rcv.wnd = 0 then seq = rcv.nxt
  else if len = 0 then wrapsLte rcv.nxt seq ∧ wrapsLt seq (rcv.nxt + rcv.wnd)
  else if rcv.wnd = 0 then False
  else
    (wrapsLte rcv.nxt seq ∧ wrapsLt seq (rcv.nxt + rcv.wnd)) ∨
      (wrapsLte rcv.nxt (seq + len - 1) ∧ wrapsLt (seq + len - 1) (rcv.nxt + rcv.wnd))

instance (rcv : RcvVars) (len seq : Seq) : Decidable (isAcceptable rcv len seq) := by
  unfold isAcceptable; infer_instance

/-- `is_snd_full`. -/
def isSndFull (c : Conn) : Prop := wrapsLte (c.snd.una + c.snd.wnd) c.snd.nxt

instance (c : Conn) : Decidable (isSndFull c) := inferInstanceAs (Decidable (wrapsLte _ _))

/-- `send_rst`. -/
def sendRst (c : Conn) (acked : Bool) (s : Segment) (io : Io) : Conn :=
  if acked then tcpTxRawRst c s.ack io else tcpTxRawRstAck c 0 (s.seq + s.len) io

/-- The send window taken from a segment: one byte is reserved for a FIN and one
for the sequence number of a RST. -/
def sndWndOf (win : BitVec 16) : Seq := if 1 < win.toNat then win.setWidth 32 - 2 else 0

/-! ## Segment text -/

/-- Does the next receive octet clip the head of the text? -/
def clipHead (nxt : Seq) (m : Mbuf) : Except Fault Mbuf :=
  if wrapsLt m.segSeq nxt then do
    let m' ← mbufPull m (nxt - m.segSeq).toNat
    return { m' with segSeq := m'.segSeq + (nxt - m.segSeq) }
  else .ok m

/-- Does the end of the receive window clip the tail of the text? -/
def clipTail (edge : Seq) (m : Mbuf) : Except Fault Mbuf :=
  if wrapsLt edge m.segEnd then do
    let m' ← mbufTrim m (m.segEnd - edge).toNat
    return { m' with segEnd := edge }
  else .ok m

/-- `tcp_rx_append_text`. -/
def tcpRxAppendText (c : Conn) (m : Mbuf) : Except Fault Conn :=
  if ¬ wrapsLte m.segSeq c.rcv.nxt then .error .appendSeq
  else if ¬ wrapsGt m.segEnd c.rcv.nxt then .error .appendEnd
  else do
    let m ← clipHead c.rcv.nxt m
    let m ← clipTail (c.rcv.nxt + c.rcv.wnd) m
    -- enqueue the text
    if m.segEnd - m.segSeq ≤ c.rcv.wnd then
      let wnd := c.rcv.wnd - (m.segEnd - m.segSeq)
      .ok { c with
        rcv := { c.rcv with nxt := m.segEnd, wnd := wnd }
        tmr := { c.tmr with rcvWndFull := c.tmr.rcvWndFull || wnd == 0 }
        rx := { c.rx with rxq := c.rx.rxq ++ [m] } }
    else .error .appendWnd

/-- The search of `tcp_rx_text` for the place of an out-of-order segment; `none`
when the segment is not queued.  `size` counts the entries passed. -/
def rxInsert (m : Mbuf) : ℕ → List Mbuf → Option (List Mbuf)
  | size, [] => if tcpOooMaxSize ≤ size then none else some [m]
  | size, pos :: rest =>
      if wrapsLt m.segSeq pos.segSeq then some (m :: pos :: rest)
      else if wrapsLte m.segEnd pos.segEnd then none
      else (rxInsert m (size + 1) rest).map (pos :: ·)

/-- The drain loop of `tcp_rx_text`.  `pushed` is the test of the source on the
flags of the arriving segment, which it repeats for every drained one. -/
def rxDrain (pushed : Bool) : Conn → Bool → List Mbuf → Except Fault (Conn × Bool)
  | c, wake, [] => .ok ({ c with rx := { c.rx with rxqOoo := [] } }, wake)
  | c, wake, pos :: rest =>
      if wrapsLte pos.segEnd c.rcv.nxt then rxDrain pushed c wake rest
      else if wrapsGt pos.segSeq c.rcv.nxt then
        .ok ({ c with rx := { c.rx with rxqOoo := pos :: rest } }, wake)
      else do
        let c ← tcpRxAppendText c pos
        rxDrain pushed c (wake || pushed) rest

/-- `tcp_rx_text`: whether the segment is used for text, and whether readers are
woken. -/
structure RxText where
  conn : Conn
  used : Bool
  wake : Bool

/-- `tcp_rx_text`. -/
def tcpRxText (c : Conn) (m : Mbuf) : Except Fault RxText :=
  let finish (r : Conn × Bool) : RxText := ⟨r.1, true, r.2 || r.1.rcv.wnd == 0⟩
  if c.rcv.wnd = 0 then .ok ⟨c, false, false⟩
  else if wrapsLte m.segSeq c.rcv.nxt then do
    let c ← tcpRxAppendText c m
    return finish (← rxDrain m.flags.pushed c m.flags.pushed c.rx.rxqOoo)
  else
    match rxInsert m 0 c.rx.rxqOoo with
    | none => .ok ⟨c, false, false⟩
    | some ooo => do
        return finish (← rxDrain m.flags.pushed c false ooo)

/-! ## The steps of `tcp_rx_conn` -/

/-- The result of the locked body: what is left to do after the unlock. -/
structure RxOut where
  conn : Conn
  doAck : Bool := false
  doDrop : Bool := true
  retransmit : Option Mbuf := none

/-- The SYN_SENT branch. -/
def rxSynSent (c : Conn) (s : Segment) (sndNxt : Seq) (io : Io) : Except Fault RxOut :=
  if s.flags.ack ∧ (wrapsLte s.ack c.snd.iss ∨ wrapsGt s.ack sndNxt) then
    .ok { conn := sendRst c false s io }
  else if s.flags.ack ∧ s.flags.rst ∧ wrapsLte c.snd.una s.ack ∧ wrapsLte s.ack sndNxt then do
    return { conn := ← tcpConnFail c eConnReset io.now }
  else if ¬ s.flags.ack ∧ s.flags.rst then .ok { conn := c }
  else if s.flags.syn then
    let c := { c with rcv := { c.rcv with nxt := s.seq + 1, irs := s.seq } }
    let c :=
      if s.flags.ack then tcpConnAck { c with snd := { c.snd with una := s.ack } } else c
    if wrapsGt c.snd.una c.snd.iss then do
      let c :=
        { c with snd := { c.snd with wnd := sndWndOf s.win, wl1 := s.seq, wl2 := s.ack } }
      return { conn := ← tcpConnSetState c .established io.now, doAck := true }
    else
      let (c, ret) := tcpTxCtl c { syn := true, ack := true } io
      if ret ≠ 0 then .ok { conn := c }
      else do
        return { conn := ← tcpConnSetState c .synReceived io.now }
  else .ok { conn := c }

/-- Duplicate acknowledgement detection. -/
def rxDupAck (c : Conn) (s : Segment) (now : Usec) : Conn × Option Mbuf :=
  if s.ack = c.snd.una ∧ c.snd.una ≠ c.snd.nxt ∧ s.len = 0 then
    let c := { c with tmr := { c.tmr with repAcks := c.tmr.repAcks + 1 } }
    if tcpFastRetransmitThresh ≤ c.tmr.repAcks then
      let (c, retransmit) :=
        if c.tx.exclusive then
          ({ c with
            tx := { c.tx with doFastRetransmit := true, fastRetransmitLastAck := s.ack } }, none)
        else tcpTxFastRetransmitStart c now
      ({ c with tmr := { c.tmr with repAcks := 0 } }, retransmit)
    else (c, none)
  else (c, none)

/-- The acknowledgement step; `none` when the segment acknowledges something not
yet sent. -/
def rxAck (c : Conn) (s : Segment) (sndNxt : Seq) : Option Conn :=
  if wrapsLte c.snd.una s.ack ∧ wrapsLte s.ack sndNxt then
    let repAcks := if c.snd.una ≠ s.ack then 0 else c.tmr.repAcks
    some (tcpConnAck
      { c with snd := { c.snd with una := s.ack }, tmr := { c.tmr with repAcks := repAcks } })
  else if wrapsGt s.ack sndNxt then none
  else some c

/-- The send window update. -/
def rxSndWnd (c : Conn) (s : Segment) : Conn :=
  if wrapsLt c.snd.wl1 s.seq ∨ (c.snd.wl1 = s.seq ∧ wrapsLte c.snd.wl2 s.ack) then
    { c with
      snd := { c.snd with wnd := sndWndOf s.win, wl1 := s.seq, wl2 := s.ack }
      tmr := { c.tmr with repAcks := 0 } }
  else c

/-- The transitions taken when this side's FIN is acknowledged.  The flag says
that the connection was closed. -/
def rxCloseStep (c : Conn) (sndNxt : Seq) (now : Usec) : Except Fault (Conn × Bool) :=
  if c.state = .finWait1 ∧ c.snd.una = sndNxt then do
    return (← tcpConnSetState c .finWait2 now, false)
  else if c.state = .closing ∧ c.snd.una = sndNxt then do
    let c := { c with tmr := { c.tmr with timeWaitTs := now } }
    return (← tcpConnSetState c .timeWait now, false)
  else if c.state = .lastAck ∧ c.snd.una = sndNxt then do
    let c ← tcpConnSetState c .closed now
    return (← tcpConnPut c, true)
  else .ok (c, false)

/-- Step 7 after `tcp_rx_text`: wake a reader and note that an acknowledgement is
owed. -/
def rxTextWake (r : RxText) (now : Usec) : Except Fault (Conn × Bool × Bool) :=
  if r.wake ∧ r.conn.rx.rxq = [] then .error .wakeEmpty
  else if r.wake ∧ r.used = false then .error .wakeDropped
  else
    let c := r.conn
    let c := if r.wake then { c with rx := { c.rx with wq := c.rx.wq.tail } } else c
    let c :=
      if c.tmr.ackDelayed then c
      else { c with tmr := { c.tmr with ackDelayed := true, ackTs := now } }
    .ok (c, !r.used, decide (c.rx.rxqOoo ≠ []))

/-- Step 7, segment text: the connection, whether the segment is dropped and
whether it is acknowledged at once. -/
def rxTextStep (c : Conn) (s : Segment) (now : Usec) : Except Fault (Conn × Bool × Bool) :=
  if 0 < s.len.toNat ∧ c.state.takesText then do
    let r ← tcpRxText c (Mbuf.ofPayload s.payload s.seq (s.seq + s.len) s.flags)
    rxTextWake r now
  else .ok (c, true, false)

/-- Step 8, FIN: decided by the flag of the arriving segment. -/
def rxFinStep (c : Conn) (s : Segment) (sndNxt : Seq) (now : Usec) :
    Except Fault (Conn × Bool) :=
  if s.flags.fin = false then .ok (c, false)
  else if c.state = .synReceived ∨ c.state = .established then do
    return (← tcpConnSetState c .closeWait now, false)
  else if c.state = .finWait1 then
    if c.snd.una = sndNxt then .error .finAcked
    else do
      return (← tcpConnSetState c .closing now, false)
  else if c.state = .finWait2 then do
    let c := { c with tmr := { c.tmr with timeWaitTs := now } }
    return (← tcpConnSetState c .timeWait now, true)
  else .ok (c, false)

/-- The steps from the acknowledgement on, for a connection that is past
SYN_RECEIVED. -/
def rxEstablished (c : Conn) (s : Segment) (sndNxt : Seq) (io : Io) : Except Fault RxOut :=
  let (c, retransmit) := rxDupAck c s io.now
  let sndWasFull := decide (isSndFull c)
  match rxAck c s sndNxt with
  | none => .ok { conn := c, doAck := true, retransmit := retransmit }
  | some c => do
      let c := rxSndWnd c s
      let c :=
        if sndWasFull ∧ ¬ isSndFull c then { c with tx := { c.tx with wq := [] } } else c
      let (c, closed) ← rxCloseStep c sndNxt io.now
      if closed then .ok { conn := c, retransmit := retransmit }
      else
        let (c, doDrop, doAck) ← rxTextStep c s io.now
        let (c, doAck') ← rxFinStep c s sndNxt io.now
        return { conn := c, doAck := doAck || doAck', doDrop := doDrop, retransmit := retransmit }

/-- The locked body of `tcp_rx_conn` up to its `done` label. -/
def tcpRxConnBody (c : Conn) (s : Segment) (sndNxt : Seq) (io : Io) : Except Fault RxOut :=
  if c.state = .closed then
    .ok { conn := if s.flags.rst then c else sendRst c false s io }
  else if c.state = .synSent then rxSynSent c s sndNxt io
  -- step 1 - acceptability testing
  else if ¬ isAcceptable c.rcv s.len s.seq then .ok { conn := c, doAck := !s.flags.rst }
  -- step 2 - RST
  else if s.flags.rst then do
    return { conn := ← tcpConnFail c eConnReset io.now }
  -- step 4 - SYN
  else if s.flags.syn then do
    return { conn := ← tcpConnFail (sendRst c s.flags.ack s io) eConnReset io.now }
  -- step 5 - ACK
  else if ¬ s.flags.ack then .ok { conn := c }
  else if c.state = .synReceived then
    if wrapsLte c.snd.una s.ack ∧ wrapsLte s.ack sndNxt then do
      let c :=
        { c with snd := { c.snd with wnd := sndWndOf s.win, wl1 := s.seq, wl2 := s.ack } }
      rxEstablished (← tcpConnSetState c .established io.now) s sndNxt io
    else .ok { conn := sendRst c true s io }
  else rxEstablished c s sndNxt io

/-- The locked part of `tcp_rx_conn`. -/
def tcpRxConn (c : Conn) (s : Segment) (sndNxt : Seq) (io : Io) : Except Fault RxOut := do
  let r ← tcpRxConnBody c s sndNxt io
  return { r with conn := tcpTimerUpdate r.conn io.now }

/-! ## Segments without a connection -/

/-- The frame passes the length check of `net_rx_one`, and `mbuf_pull_hdr_or_null`
finds a TCP header in it. -/
def Frame.hasHdr (f : Frame) : Prop :=
  (f.ipLen - 20).toNat ≤ 20 + f.body.length ∧ 20 ≤ (f.ipLen - 20).toNat

instance (f : Frame) : Decidable f.hasHdr := inferInstanceAs (Decidable (_ ∧ _))

/-- `tcp_rx_listener` for a connection with initial sequence number `iss`: the new
connection, if the frame opens one. -/
def tcpRxListener (iss : Seq) (f : Frame) (io : Io) : Except Fault (Option Conn) :=
  if ¬ f.hasHdr ∨ f.flags.rst ∨ f.flags.ack ∨ f.flags.syn = false then .ok none
  else if (f.ipLen - 20).toNat ≠ f.dataOff.toNat * 4 then .ok none
  else
    let c := tcpConnAlloc iss
    let c := { c with rcv := { c.rcv with irs := f.seq, nxt := f.seq + 1 } }
    let (c, ret) := tcpTxCtl c { syn := true, ack := true } io
    if ret ≠ 0 then .ok none
    else do
      return some (← tcpConnSetState (tcpConnGet c) .synReceived io.now)

/-- The packet that a call of `tcp_tx_raw_rst` puts on the wire. -/
def rawRst (seq : Seq) (io : Io) : List Packet :=
  if io.alloc 0 ∧ io.net 0 = 0 then
    [{ seq := seq, ack := 0, flags := { rst := true }, win := 0, data := [] }]
  else []

/-- The packet that a call of `tcp_tx_raw_rst_ack` puts on the wire. -/
def rawRstAck (seq ack : Seq) (io : Io) : List Packet :=
  if io.alloc 0 ∧ io.net 0 = 0 then
    [{ seq := seq, ack := ack, flags := { rst := true, ack := true }, win := 0, data := [] }]
  else []

/-- What `tcp_rx_listener` puts on the wire: a reset for a stray acknowledgement, or
what the new connection sends. -/
def tcpRxListenerSent (iss : Seq) (f : Frame) (io : Io) : Except Fault (List Packet) :=
  if f.hasHdr ∧ f.flags.rst = false ∧ f.flags.ack then .ok (rawRst f.ack io)
  else do
    return ((← tcpRxListener iss f io).map Conn.wire).getD []

/-- `tcp_rx_closed`: what a host without a matching transport entry answers.  The
length of the segment does not count its SYN or its FIN. -/
def tcpRxClosed (f : Frame) (io : Io) : List Packet :=
  if ¬ f.hasHdr ∨ f.flags.rst then []
  else if f.flags.ack then rawRst f.ack io
  else
    let len : Seq := f.ipLen.setWidth 32 - 20 - BitVec.ofNat 32 (f.dataOff.toNat * 4)
    rawRstAck 0 (f.seq + len) io

end Skyloft
