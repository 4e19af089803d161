import Skyloft.Net.TcpOut

/-!
# Connection management and the socket operations

`libos/net/tcp.c`, one definition for each stretch of code that runs under the
connection lock or under the exclusive ownership of one direction.  The places
where a caller drops the lock (to sleep, to copy, to transmit) separate the
definitions; `Skyloft.Net.System` interleaves them.
-/

namespace Skyloft

/-! ## Timers, acknowledgements, states -/

/-- `MIN` on clock readings. -/
def usecMin (a b : Usec) : Usec := if a < b then a else b

/-- `tcp_timer_update`. -/
def tcpTimerUpdate (c : Conn) (now : Usec) : Conn :=
  let t := if c.state = .timeWait then c.tmr.timeWaitTs + tcpTimeWaitTimeout else noTimeout
  let t := if c.tmr.ackDelayed then usecMin t (c.tmr.ackTs + tcpAckTimeout) else t
  let t :=
    if c.tx.exclusive then t
    else
      match c.tx.txq with
      | [] => t
      | m :: _ => usecMin t (m.timestamp + tcpRetransmitTimeout)
  let t := if c.rx.rxqOoo = [] then t else usecMin t (now + tcpOoqAckTimeout)
  { c with tmr := { c.tmr with nextTimeout := t } }

/-- `tcp_conn_ack`: drop the buffers that are fully acknowledged, unless a writer
owns the queue. -/
def tcpConnAck (c : Conn) : Conn :=
  if c.tx.exclusive then c
  else
    { c with
      tx := { c.tx with txq := c.tx.txq.dropWhile fun m => ¬ wrapsGt m.segEnd c.snd.una } }

/-- `tcp_conn_set_state`. -/
def tcpConnSetState (c : Conn) (new : TcpState) (now : Usec) : Except Fault Conn :=
  if c.state = .closed ∨ c.state < new then
    let c :=
      if c.state < .established ∧ .established ≤ new then
        { c with tx := { c.tx with wq := [] } }
      else c
    .ok (tcpTimerUpdate { c with state := new } now)
  else .error .setState

/-- `tcp_conn_get`. -/
def tcpConnGet (c : Conn) : Conn := { c with ref := c.ref + 1 }

/-- `tcp_conn_destroy`. -/
def tcpConnDestroy (c : Conn) : Conn := { c with destroyed := c.destroyed + 1 }

/-- `tcp_conn_put`, with `tcp_conn_release_ref` for the last reference. -/
def tcpConnPut (c : Conn) : Except Fault Conn :=
  let c := { c with ref := c.ref - 1 }
  if c.ref = 0 then
    if c.state = .closed then .ok (tcpConnDestroy c) else .error .releaseState
  else .ok c

/-- `tcp_conn_shutdown_rx`. -/
def tcpConnShutdownRx (c : Conn) : Conn :=
  if c.rx.closed then c else { c with rx := { c.rx with closed := true, wq := [] } }

/-- The part of `tcp_conn_fail` that shuts both directions down and frees the
queues that no task owns. -/
def connFailQueues (c : Conn) : Conn :=
  { c with
    rx := { c.rx with
      closed := true
      wq := if c.rx.closed then c.rx.wq else []
      rxqOoo := []
      rxq := if c.rx.exclusive then c.rx.rxq else [] }
    tx := { c.tx with
      closed := true
      wq := if c.tx.closed then c.tx.wq else []
      txq := if c.tx.exclusive then c.tx.txq else []
      pending := if c.tx.exclusive then c.tx.pending else none } }

/-- `tcp_conn_fail`. -/
def tcpConnFail (c : Conn) (err : ℤ) (now : Usec) : Except Fault Conn := do
  let c ← tcpConnSetState { c with err := err } .closed now
  tcpConnPut (connFailQueues c)

/-! ## Connection setup -/

/-- The locked part of `tcp_dial` up to its wait loop: send the SYN and enter
SYN_SENT.  A failed transmission destroys the connection. -/
def tcpDialStart (iss : Seq) (io : Io) : Except Fault (Conn × ℤ) :=
  let (c, ret) := tcpTxCtl (tcpConnAlloc iss) { syn := true } io
  if ret ≠ 0 then .ok (tcpConnDestroy c, ret)
  else do
    let c ← tcpConnSetState (tcpConnGet c) .synSent io.now
    return (c, 0)

/-- One turn of the wait loop of `tcp_dial`: `none` when the task goes to sleep,
otherwise the return value. -/
def tcpDialWait (c : Conn) (tid : Tid) : Conn × Option ℤ :=
  if c.tx.closed = false ∧ c.state < .established then
    ({ c with tx := { c.tx with wq := c.tx.wq ++ [tid] } }, none)
  else if c.tx.closed then (tcpConnDestroy c, some (-c.err))
  else (c, some 0)

/-! ## Reading -/

/-- What the pop loop of `tcp_read_wait` leaves: the bytes counted, the buffers
taken, the buffers left, whether the first one left is read in part, and whether
a FIN was seen. -/
structure Popped where
  readlen : ℕ
  q : List Mbuf
  rest : List Mbuf
  part : Bool
  fin : Bool

/-- The loop of `tcp_read_wait` that pops off the buffers that will be read.  A
FIN is acted on as soon as its buffer is looked at. -/
def readPop (len : ℕ) : ℕ → List Mbuf → Popped
  | readlen, [] => ⟨readlen, [], [], false, false⟩
  | readlen, m :: rest =>
      if readlen < len then
        if m.flags.fin ∧ m.len = 0 then ⟨readlen, [], m :: rest, false, true⟩
        else if len - readlen < m.len then ⟨len, [], m :: rest, true, m.flags.fin⟩
        else
          let p := readPop len (readlen + m.len) rest
          { p with q := m :: p.q, fin := m.flags.fin || p.fin }
      else ⟨readlen, [], m :: rest, false, false⟩

/-- How one turn of `tcp_read_wait` ends. -/
inductive ReadWait
  /-- The task sleeps on `rx_wq`. -/
  | sleep
  /-- The receive side is closed; the call returns this value. -/
  | closed (ret : ℤ)
  /-- `readlen` bytes are ready, in `q` and, when `part`, at the head of `rxq`. -/
  | ready (readlen : ℕ) (q : List Mbuf) (part : Bool)

/-- The buffers popped by `tcp_read_wait` leave `rxq`, and their bytes are credited
to the receive window. -/
def readTake (c : Conn) (p : Popped) : Conn :=
  let c := if p.fin then tcpConnShutdownRx c else c
  { c with
    rx := { c.rx with rxq := p.rest, exclusive := c.rx.exclusive || p.part }
    rcv := { c.rcv with wnd := c.rcv.wnd + BitVec.ofNat 32 p.readlen } }

/-- The window update at the end of `tcp_read_wait`. -/
def readWndUpdate (c : Conn) (io : Io) : Conn :=
  if c.tmr.rcvWndFull ∧ tcpWin / 4 ≤ c.rcv.wnd.toNat then
    let c := tcpTxAck c io
    { c with tmr := { c.tmr with rcvWndFull := false } }
  else c

/-- `tcp_read_wait`, from a locked connection to the next unlock. -/
def tcpReadWait (c : Conn) (tid : Tid) (len : ℕ) (io : Io) : Conn × ReadWait :=
  if c.rx.closed = false ∧ (c.rx.exclusive ∨ c.rx.rxq = []) then
    ({ c with rx := { c.rx with wq := c.rx.wq ++ [tid] } }, .sleep)
  else if c.rx.closed then (c, .closed (-c.err))
  else
    let p := readPop len 0 c.rx.rxq
    (readWndUpdate (readTake c p) io, .ready p.readlen p.q p.part)

/-- The copy of `tcp_read`, outside the lock: all of `q`, then what is missing to
`len` bytes from the buffer that is read in part. -/
def tcpReadCopy (c : Conn) (len : ℕ) (q : List Mbuf) (part : Bool) :
    Except Fault (Conn × List Byte) :=
  let bytes := (q.map Mbuf.data).flatten
  if part then
    match c.rx.rxq with
    | [] => .ok (c, bytes)
    | m :: rest => do
        let cpylen := len - bytes.length
        let m' ← mbufPull m cpylen
        let m' := { m' with segSeq := m'.segSeq + BitVec.ofNat 32 cpylen }
        return ({ c with rx := { c.rx with rxq := m' :: rest } }, bytes ++ m.data.take cpylen)
  else .ok (c, bytes)

/-- `tcp_read_finish` for a buffer that was read in part. -/
def tcpReadFinish (c : Conn) : Conn :=
  { c with rx := { c.rx with exclusive := false, wq := [] } }

/-! ## Writing -/

/-- How one turn of `tcp_write_wait` ends. -/
inductive WriteWait
  | sleep
  | closed (ret : ℤ)
  | ready (winlen : ℕ)

/-- The condition on which `tcp_write_wait` blocks. -/
def writeBlocked (c : Conn) : Prop :=
  c.state < .established ∨ c.tx.exclusive ∨ wrapsLte (c.snd.una + c.snd.wnd) c.snd.nxt

instance (c : Conn) : Decidable (writeBlocked c) := inferInstanceAs (Decidable (_ ∨ _ ∨ _))

/-- `tcp_write_wait`, from a locked connection to the next unlock. -/
def tcpWriteWait (c : Conn) (tid : Tid) : Conn × WriteWait :=
  if c.tx.closed = false ∧ writeBlocked c then
    ({ c with tx := { c.tx with wq := c.tx.wq ++ [tid] } }, .sleep)
  else if c.tx.closed then (c, .closed (if c.err ≠ 0 then -c.err else -ePipe))
  else
    ({ c with tx := { c.tx with exclusive := true } },
      .ready (c.snd.una + c.snd.wnd - c.snd.nxt).toNat)

/-- What `tcp_write_finish` makes of the queue: a closed connection drops it, a
fast retransmission that was put off is started now. -/
def writeFinishQueue (c : Conn) (now : Usec) : Conn × Option Mbuf :=
  if c.state = .closed then ({ c with tx := { c.tx with txq := [], pending := none } }, none)
  else if c.tx.doFastRetransmit then
    let c := { c with tx := { c.tx with doFastRetransmit := false } }
    if c.tx.fastRetransmitLastAck = c.snd.una then tcpTxFastRetransmitStart c now else (c, none)
  else (c, none)

/-- `tcp_write_finish`, up to the work it defers until the lock is dropped: the
buffer to retransmit, if any. -/
def tcpWriteFinish (c : Conn) (now : Usec) : Except Fault (Conn × Option Mbuf) :=
  if c.tx.exclusive then
    let c := tcpConnAck { c with tx := { c.tx with exclusive := false } }
    let c :=
      if c.rcv.nxt = c.tx.lastAck then { c with tmr := { c.tmr with ackDelayed := false } }
      else { c with tmr := { c.tmr with ackTs := now } }
    let r := writeFinishQueue c now
    let c := tcpTimerUpdate r.1 now
    .ok ({ c with tx := { c.tx with wq := [] } }, r.2)
  else .error .writeExcl

/-! ## Retransmission task -/

/-- How one turn of the wait loop of `tcp_retransmit` ends. -/
inductive RetransmitWait
  | sleep
  | closed
  | ready

/-- `tcp_retransmit`, from a locked connection to the next unlock. -/
def tcpRetransmitWait (c : Conn) (tid : Tid) : Conn × RetransmitWait :=
  if c.tx.exclusive ∧ c.state ≠ .closed then
    ({ c with tx := { c.tx with wq := c.tx.wq ++ [tid] } }, .sleep)
  else if c.state ≠ .closed then ({ c with tx := { c.tx with exclusive := true } }, .ready)
  else (c, .closed)

/-- The delayed acknowledgement of a connection is due. -/
def ackDue (c : Conn) (now : Usec) : Bool :=
  c.tmr.ackDelayed && decide (tcpAckTimeout ≤ now - c.tmr.ackTs)

/-- The oldest unacknowledged segment of a connection is due, and no writer owns
the queue. -/
def retransmitDue (c : Conn) (now : Usec) : Bool :=
  match c.tx.txq with
  | [] => false
  | m :: _ => !c.tx.exclusive && decide (tcpRetransmitTimeout ≤ now - m.timestamp)

/-- `tcp_handle_timeouts`.  The flags say whether an acknowledgement is sent and
whether a retransmission task is spawned once the lock is dropped. -/
def tcpHandleTimeouts (c : Conn) (now clock : Usec) : Except Fault (Conn × Bool × Bool) :=
  if c.state = .closed then .ok (c, false, false)
  else if c.state = .timeWait ∧ tcpTimeWaitTimeout ≤ now - c.tmr.timeWaitTs then do
    let c ← tcpConnSetState c .closed clock
    let c ← tcpConnPut c
    return (c, false, false)
  else
    let c₁ := if ackDue c now then { c with tmr := { c.tmr with ackDelayed := false } } else c
    let c₂ := if retransmitDue c now then tcpConnGet c₁ else c₁
    .ok (tcpTimerUpdate c₂ clock, ackDue c now || decide (c.rx.rxqOoo ≠ []), retransmitDue c now)

/-! ## Shutdown -/

/-- The state change of `tcp_conn_shutdown_tx` once the FIN is queued. -/
def shutdownTxState (c : Conn) (now : Usec) : Except Fault Conn :=
  if c.state = .established then tcpConnSetState c .finWait1 now
  else if c.state = .closeWait then tcpConnSetState c .lastAck now
  else .ok c

/-- `tcp_conn_shutdown_tx` after its wait loop: queue the FIN and move on.  The
last component is set on the branch that the source marks with `WARN`. -/
def tcpShutdownTxFin (c : Conn) (io : Io) : Except Fault (Conn × ℤ × Bool) :=
  let (c, ret) := tcpTxCtl c { fin := true, ack := true } io
  if ret ≠ 0 then .ok (c, ret, false)
  else do
    let c' ← shutdownTxState c io.now
    return ({ c' with tx := { c'.tx with closed := true, wq := [] } }, 0,
      decide (c.state ≠ .established ∧ c.state ≠ .closeWait))

end Skyloft
