import Skyloft.Lib.Run
import Skyloft.Net.TcpIn
import Mathlib.Logic.Function.Basic

/-!
# A connection and the tasks that use it

The connection is shared by application tasks, by the softirq code that delivers
segments, by the worker that handles timeouts and by the retransmission tasks it
spawns.  A state holds the connection and the program point of every task; an
event picks who moves next.  An event runs one stretch of code between two points
at which the lock or the exclusive ownership of a direction changes hands, so
every list of events is one interleaving.

An event that is not possible in a state (a sleeping task is picked, a call is
started by a busy task) leaves the state alone.  Assertions on the ingress path
end the run with a fault; the assertion and the `WARN` of
`tcp_conn_shutdown_tx`, which a release build runs past, are collected in
`warns`.
-/

namespace Skyloft

/-- The calls of the socket interface. -/
inductive Call
  | dial
  | read (len : ℕ)
  | write (buf : List Byte)
  | writev (iov : List (List Byte))
  | shutdown (rd wr : Bool)
  | close
  | abort

/-- How a call of `tcp_conn_shutdown_tx` continues. -/
inductive ShutKind
  /-- `tcp_shutdown`, with whether the receive side is shut down too. -/
  | shutdown (rd : Bool)
  /-- `tcp_close`. -/
  | close

/-- Where a task is, between two stretches of code.  A task in one of the wait
points sleeps while it is on the wait queue. -/
inductive Proc
  | idle
  /-- The call has returned. -/
  | done (ret : ℤ) (bytes : List Byte)
  | dialWait
  | readWait (len : ℕ)
  | readCopy (len : ℕ) (q : List Mbuf) (part : Bool)
  | readFinish (bytes : List Byte)
  | writeWait (buf : List Byte)
  | writeSend (buf : List Byte) (winlen : ℕ)
  | writevWait (iov : List (List Byte))
  | writevSend (iov : List (List Byte)) (winlen : ℕ) (sent : ℕ) (ret : ℤ)
  | writeFinish (ret : ℤ)
  | shutEnter (rd wr : Bool)
  | closeEnter
  | shutWait (k : ShutKind)
  | abortEnter
  | abortWait
  | retransmitWait
  | retransmitSend
  | retransmitFinish

/-- A connection with its tasks and the work that is deferred until after an
unlock: acknowledgements and fast retransmissions. -/
structure Sys where
  conn : Conn
  procs : Tid → Proc
  owedAcks : ℕ
  owedResend : List Mbuf
  warns : List Fault

/-- Who moves, with what the step takes from outside. -/
inductive Event
  /-- A task starts a call. -/
  | call (t : Tid) (c : Call)
  /-- A task runs to its next wait point. -/
  | run (t : Tid) (io : Io)
  /-- A frame is processed, `sndNxt` being the value of `snd_nxt` loaded for it. -/
  | rx (f : Frame) (sndNxt : Seq) (io : Io)
  /-- A deferred acknowledgement is sent. -/
  | ackOut (io : Io)
  /-- A deferred fast retransmission is sent. -/
  | resend (io : Io)
  /-- `tcp_worker` visits the connection with the clock reading `now`; `t` is the
  retransmission task it spawns if one is needed. -/
  | timeouts (now : Usec) (t : Tid) (io : Io)
  /-- The transmission of the `i`-th buffer of `txq` completes. -/
  | txDone (i : ℕ)
  /-- `tcp_conn_err`. -/
  | netErr (err : ℤ) (io : Io)

namespace Sys

/-- The connection and the program point of task `t` after a stretch of code. -/
def move (s : Sys) (c : Conn) (t : Tid) (p : Proc) : Sys :=
  { s with conn := c, procs := Function.update s.procs t p }

@[simp] theorem conn_move (s : Sys) (c : Conn) (t : Tid) (p : Proc) : (s.move c t p).conn = c := rfl

@[simp] theorem procs_move_self (s : Sys) (c : Conn) (t : Tid) (p : Proc) :
    (s.move c t p).procs t = p := by
  simp [move]

theorem procs_move_of_ne {t u : Tid} (s : Sys) (c : Conn) (p : Proc) (h : u ≠ t) :
    (s.move c t p).procs u = s.procs u := by
  simp [move, h]

/-- A call may start when the task is not inside another one. -/
def free (s : Sys) (t : Tid) : Bool :=
  match s.procs t with
  | .idle | .done _ _ => true
  | _ => false

def asleep (s : Sys) (t : Tid) : Bool := s.conn.rx.wq.contains t || s.conn.tx.wq.contains t

end Sys

/-- The program point at which a call starts. -/
def Call.entry : Call → Proc
  | .dial => .dialWait
  | .read len => .readWait len
  | .write buf => .writeWait buf
  | .writev iov => .writevWait iov
  | .shutdown rd wr => .shutEnter rd wr
  | .close => .closeEnter
  | .abort => .abortEnter

/-! ## The stretches of code of one task -/

/-- `tcp_read_wait` and the test of its result in `tcp_read`. -/
def runReadWait (s : Sys) (t : Tid) (len : ℕ) (io : Io) : Sys :=
  match tcpReadWait s.conn t len io with
  | (c, .sleep) => { s with conn := c }
  | (c, .closed ret) => s.move c t (.done ret [])
  | (c, .ready n q part) =>
      if n = 0 then s.move c t (.done 0 []) else s.move c t (.readCopy len q part)

/-- The copy of `tcp_read`. -/
def runReadCopy (s : Sys) (t : Tid) (len : ℕ) (q : List Mbuf) (part : Bool) :
    Except Fault Sys := do
  let (c, bytes) ← tcpReadCopy s.conn len q part
  return s.move c t (if part then .readFinish bytes else .done bytes.length bytes)

/-- `tcp_write_wait` as called by `tcp_write`. -/
def runWriteWait (s : Sys) (t : Tid) (buf : List Byte) : Sys :=
  match tcpWriteWait s.conn t with
  | (c, .sleep) => { s with conn := c }
  | (c, .closed ret) => s.move c t (.done ret [])
  | (c, .ready winlen) => s.move c t (.writeSend buf winlen)

/-- `tcp_tx_send` as called by `tcp_write`. -/
def runWriteSend (s : Sys) (t : Tid) (buf : List Byte) (winlen : ℕ) (io : Io) :
    Except Fault Sys := do
  let (c, ret) ← tcpTxSend s.conn (buf.take winlen) (buf.length ≤ winlen) io
  return s.move c t (.writeFinish ret)

/-- `tcp_write_wait` as called by `tcp_writev`. -/
def runWritevWait (s : Sys) (t : Tid) (iov : List (List Byte)) : Sys :=
  match tcpWriteWait s.conn t with
  | (c, .sleep) => { s with conn := c }
  | (c, .closed ret) => s.move c t (.done ret [])
  | (c, .ready winlen) => s.move c t (.writevSend iov winlen 0 0)

/-- One turn of the send loop of `tcp_writev`. -/
def runWritevSend (s : Sys) (t : Tid) (iov : List (List Byte)) (winlen sent : ℕ) (ret : ℤ)
    (io : Io) : Except Fault Sys :=
  let finish (c : Conn) (sent : ℕ) (ret : ℤ) : Sys :=
    s.move c t (.writeFinish (if 0 < sent then sent else ret))
  match iov with
  | [] => .ok (finish s.conn sent ret)
  | buf :: rest =>
      if winlen = 0 then .ok (finish s.conn sent ret)
      else do
        let (c, ret) ← tcpTxSend s.conn (buf.take winlen)
          (rest.isEmpty && buf.length ≤ winlen) io
        if ret ≤ 0 then .ok (finish c sent ret)
        else
          return s.move c t (.writevSend rest (winlen - ret.toNat) (sent + ret.toNat) ret)

/-- `tcp_write_finish` at the end of a write. -/
def runWriteFinish (s : Sys) (t : Tid) (ret : ℤ) (io : Io) : Except Fault Sys := do
  let (c, retransmit) ← tcpWriteFinish s.conn io.now
  let s := s.move c t (.done ret [])
  return { s with owedResend := s.owedResend ++ retransmit.toList }

/-- The end of `tcp_shutdown` and of `tcp_close`, after `tcp_conn_shutdown_tx`
returned `ret`. -/
def shutReturn (s : Sys) (c : Conn) (t : Tid) (k : ShutKind) (ret : ℤ) (io : Io) :
    Except Fault Sys :=
  match k with
  | .shutdown rd =>
      if ret ≠ 0 then .ok (s.move c t (.done ret []))
      else .ok (s.move (if rd then tcpConnShutdownRx c else c) t (.done 0 []))
  | .close =>
      if ret ≠ 0 then do
        let c ← tcpConnFail c (-ret) io.now
        let c ← tcpConnPut (tcpConnShutdownRx c)
        return s.move c t (.done 0 [])
      else do
        let c ← tcpConnPut (tcpConnShutdownRx c)
        return s.move c t (.done 0 [])

/-- One turn of the wait loop of `tcp_conn_shutdown_tx`, and the FIN once no
writer is exclusive. -/
def runShutWait (s : Sys) (t : Tid) (k : ShutKind) (io : Io) : Except Fault Sys :=
  if s.conn.tx.exclusive then
    let c := { s.conn with tx := { s.conn.tx with wq := s.conn.tx.wq ++ [t] } }
    .ok (s.move c t (.shutWait k))
  else do
    let (c, ret, warn) ← tcpShutdownTxFin s.conn io
    let s := if warn then { s with warns := s.warns ++ [.shutState] } else s
    shutReturn s c t k ret io

/-- `tcp_conn_shutdown_tx` from its entry. -/
def runShutEnter (s : Sys) (t : Tid) (k : ShutKind) (io : Io) : Except Fault Sys :=
  if s.conn.tx.closed then shutReturn s s.conn t k 0 io
  else
    let s :=
      if s.conn.state < .established then { s with warns := s.warns ++ [.shutState] } else s
    runShutWait s t k io

/-- The end of `tcp_abort`: wait for the writer, then send the reset. -/
def runAbortWait (s : Sys) (t : Tid) (io : Io) : Sys :=
  if s.conn.tx.exclusive then
    let c := { s.conn with tx := { s.conn.tx with wq := s.conn.tx.wq ++ [t] } }
    s.move c t .abortWait
  else s.move (tcpTxRawRst s.conn s.conn.snd.nxt io) t (.done 0 [])

/-- A task runs from its program point to the next. -/
def runProc (s : Sys) (t : Tid) (io : Io) : Except Fault Sys :=
  match s.procs t with
  | .idle | .done _ _ => .ok s
  | .dialWait =>
      match tcpDialWait s.conn t with
      | (c, none) => .ok { s with conn := c }
      | (c, some ret) => .ok (s.move c t (.done ret []))
  | .readWait len => .ok (runReadWait s t len io)
  | .readCopy len q part => runReadCopy s t len q part
  | .readFinish bytes => .ok (s.move (tcpReadFinish s.conn) t (.done bytes.length bytes))
  | .writeWait buf => .ok (runWriteWait s t buf)
  | .writeSend buf winlen => runWriteSend s t buf winlen io
  | .writevWait iov => .ok (runWritevWait s t iov)
  | .writevSend iov winlen sent ret => runWritevSend s t iov winlen sent ret io
  | .writeFinish ret => runWriteFinish s t ret io
  | .shutEnter rd wr =>
      if wr then runShutEnter s t (.shutdown rd) io
      else .ok (s.move (if rd then tcpConnShutdownRx s.conn else s.conn) t (.done 0 []))
  | .closeEnter =>
      if s.conn.rx.wq ≠ [] then .error .closeWaiters else runShutEnter s t .close io
  | .shutWait k => runShutWait s t k io
  | .abortEnter =>
      if s.conn.state = .closed then .ok (s.move s.conn t (.done 0 []))
      else do
        let c ← tcpConnFail s.conn eConnAborted io.now
        return runAbortWait { s with conn := c } t io
  | .abortWait => .ok (runAbortWait s t io)
  | .retransmitWait =>
      match tcpRetransmitWait s.conn t with
      | (c, .sleep) => .ok { s with conn := c }
      | (c, .ready) => .ok (s.move c t .retransmitSend)
      | (c, .closed) => do
          return s.move (← tcpConnPut c) t (.done 0 [])
  | .retransmitSend => do
      return s.move (← tcpTxRetransmit s.conn io) t .retransmitFinish
  | .retransmitFinish => do
      let (c, retransmit) ← tcpWriteFinish s.conn io.now
      let c ← tcpConnPut c
      let s := s.move c t (.done 0 [])
      return { s with owedResend := s.owedResend ++ retransmit.toList }

/-! ## Steps -/

/-- The processing of a frame by `tcp_rx_conn`, with the work it defers. -/
def runRx (s : Sys) (f : Frame) (sndNxt : Seq) (io : Io) : Except Fault Sys := do
  match ← tcpRxParse f with
  | none => return s
  | some seg =>
      let r ← tcpRxConn s.conn seg sndNxt io
      return { s with
        conn := r.conn
        owedAcks := s.owedAcks + (if r.doAck then 1 else 0)
        owedResend := s.owedResend ++ r.retransmit.toList }

/-- One visit of `tcp_worker`. -/
def runTimeouts (s : Sys) (now : Usec) (t : Tid) (io : Io) : Except Fault Sys :=
  if now < s.conn.tmr.nextTimeout ∨ s.free t = false then .ok s
  else do
    let (c, doAck, doRetransmit) ← tcpHandleTimeouts s.conn now io.now
    let c := if doAck then tcpTxAck c io else c
    return if doRetransmit then s.move c t .retransmitWait else { s with conn := c }

/-- One event. -/
def sysStep (s : Sys) : Event → Except Fault Sys
  | .call t c => .ok (if s.free t then s.move s.conn t c.entry else s)
  | .run t io => if s.asleep t then .ok s else runProc s t io
  | .rx f sndNxt io => runRx s f sndNxt io
  | .ackOut io =>
      .ok (if s.owedAcks = 0 then s
        else { s with conn := tcpTxAck s.conn io, owedAcks := s.owedAcks - 1 })
  | .resend io =>
      match s.owedResend with
      | [] => .ok s
      | m :: ms => do
          return { s with conn := ← tcpTxFastRetransmitFinish s.conn m io, owedResend := ms }
  | .timeouts now t io => runTimeouts s now t io
  | .txDone i =>
      let unref (m : Mbuf) : Mbuf := { m with ref := m.ref - 1 }
      .ok { s with
        conn := { s.conn with tx := { s.conn.tx with txq := s.conn.tx.txq.modify i unref } } }
  | .netErr err io => do
      return { s with conn := ← tcpConnFail s.conn err io.now }

/-- The state in which a connection starts out, no task being inside a call. -/
def Sys.ofConn (c : Conn) : Sys :=
  { conn := c, procs := fun _ => .idle, owedAcks := 0, owedResend := [], warns := [] }

/-- The states a connection starts in: dialled, or created by a listener. -/
inductive Sys.Start : Sys → Prop
  | dial {iss : Seq} {io : Io} {c : Conn} :
      tcpDialStart iss io = .ok (c, 0) → Sys.Start (Sys.ofConn c)
  | listen {iss : Seq} {f : Frame} {io : Io} {c : Conn} :
      tcpRxListener iss f io = .ok (some c) → Sys.Start (Sys.ofConn c)

/-- A segment from the peer of a connection with initial sequence number 0, which
acknowledges the SYN of the connection. -/
def peerFrame (seq : Seq) (flags : TcpFlags) (data : List Byte) : Frame :=
  Packet.frame { seq := seq, ack := 1, flags := flags, win := 1000, data := data }

/-- The connection that a listener creates for a peer that starts at 0 too. -/
def accepted : Sys :=
  match tcpRxListener 0 (peerFrame 0 { syn := true } []) (Io.good 0) with
  | .ok (some c) => Sys.ofConn c
  | _ => Sys.ofConn (tcpConnAlloc 0)

theorem accepted_start : accepted.Start :=
  @Sys.Start.listen 0 (peerFrame 0 { syn := true } []) (Io.good 0) _ rfl

/-- The frame with which a peer of `accepted` announces a window of `win` bytes. -/
def windowFrame (win : BitVec 16) : Frame :=
  Packet.frame { seq := 1, ack := 1, flags := { ack := true }, win := win, data := [] }

end Skyloft
