import Skyloft.Errno
import Skyloft.Net.Mbuf

/-!
# The TCP connection

The data model of `libos/net/tcp.h`: the constants, the connection states, the
protocol control block and `struct tcp_conn`, grouped as the source groups them
(send and receive sequence variables, ingress path, egress path, timeouts).

A wait queue is the list of the tasks that sleep on it: waking a task takes it
off the list.  `wire` collects the packets that were handed to `net_tx_ip`, in
order.  The addresses of the two ends are constant over a connection and are left
out; so are the urgent pointers, which no code reads.
-/

namespace Skyloft

/-! ## Constants -/

/-- `TCP_MSS`: `ETH_MTU` less the IP and TCP headers. -/
def tcpMss : ℕ := 1500 - 20 - 20

/-- `TCP_WIN`: the largest multiple of the segment size a window field holds. -/
def tcpWin : ℕ := 65535 / tcpMss * tcpMss

def tcpAckTimeout : Usec := 10 * 1000
def tcpOoqAckTimeout : Usec := 300 * 1000
def tcpTimeWaitTimeout : Usec := 1 * 1000000
def tcpRetransmitTimeout : Usec := 300 * 1000
def tcpFastRetransmitThresh : ℕ := 3
def tcpOooMaxSize : ℕ := 2048
def tcpRetransmitBatch : ℕ := 16

/-- `next_timeout` when no deadline is enabled. -/
def noTimeout : Usec := BitVec.allOnes 64

/-! ## Connection states -/

inductive TcpState
  | synSent
  | synReceived
  | established
  | finWait1
  | finWait2
  | closeWait
  | closing
  | lastAck
  | timeWait
  | closed
  deriving DecidableEq, Repr

/-- The value of the source's enumeration constant. -/
def TcpState.toNat : TcpState → ℕ
  | synSent => 0
  | synReceived => 1
  | established => 2
  | finWait1 => 3
  | finWait2 => 4
  | closeWait => 5
  | closing => 6
  | lastAck => 7
  | timeWait => 8
  | closed => 9

instance : LT TcpState := ⟨fun a b => a.toNat < b.toNat⟩
instance : LE TcpState := ⟨fun a b => a.toNat ≤ b.toNat⟩
instance (a b : TcpState) : Decidable (a < b) := inferInstanceAs (Decidable (_ < _))
instance (a b : TcpState) : Decidable (a ≤ b) := inferInstanceAs (Decidable (_ ≤ _))

/-- The states in which `tcp_rx_conn` accepts segment text. -/
def TcpState.takesText (s : TcpState) : Bool :=
  s == .established || s == .finWait1 || s == .finWait2

/-! ## Packets -/

/-- A TCP segment as it leaves the stack. -/
structure Packet where
  seq : Seq
  ack : Seq
  flags : TcpFlags
  win : BitVec 16
  data : List Byte
  deriving DecidableEq, Repr

/-! ## The connection -/

abbrev Tid := ℕ

/-- The send sequence variables of `struct tcp_pcb`. -/
structure SndVars where
  una : Seq
  nxt : Seq
  wnd : Seq
  wl1 : Seq
  wl2 : Seq
  iss : Seq
  deriving DecidableEq, Repr

/-- The receive sequence variables of `struct tcp_pcb`. -/
structure RcvVars where
  nxt : Seq
  wnd : Seq
  irs : Seq
  deriving DecidableEq, Repr

/-- The ingress path of `struct tcp_conn`. -/
structure Ingress where
  closed : Bool
  exclusive : Bool
  wq : List Tid
  rxqOoo : List Mbuf
  rxq : List Mbuf

/-- The egress path of `struct tcp_conn`. -/
structure Egress where
  closed : Bool
  exclusive : Bool
  wq : List Tid
  lastAck : Seq
  lastWin : BitVec 16
  pending : Option Mbuf
  txq : List Mbuf
  doFastRetransmit : Bool
  fastRetransmitLastAck : Seq

/-- The timeout fields of `struct tcp_conn`. -/
structure Timers where
  nextTimeout : Usec
  ackDelayed : Bool
  rcvWndFull : Bool
  ackTs : Usec
  timeWaitTs : Usec
  repAcks : ℕ
  deriving DecidableEq, Repr

/-- `struct tcp_conn`, with the packets it has sent and how often it was
destroyed. -/
structure Conn where
  state : TcpState
  snd : SndVars
  rcv : RcvVars
  err : ℤ
  ref : ℤ
  rx : Ingress
  tx : Egress
  tmr : Timers
  wire : List Packet
  destroyed : ℕ

/-! ## The receive side -/

/-- The part of a connection that the ingress text functions and `tcp_read` work
on, with the error that `tcp_read` returns. -/
structure RxSide where
  rcv : RcvVars
  rx : Ingress
  wndFull : Bool
  err : ℤ

namespace Conn

def rxSide (c : Conn) : RxSide := ⟨c.rcv, c.rx, c.tmr.rcvWndFull, c.err⟩

def withRx (c : Conn) (x : RxSide) : Conn :=
  { c with
    rcv := x.rcv
    rx := x.rx
    tmr := { c.tmr with rcvWndFull := x.wndFull }
    err := x.err }

@[simp] theorem rcv_rxSide (c : Conn) : c.rxSide.rcv = c.rcv := rfl
@[simp] theorem rx_rxSide (c : Conn) : c.rxSide.rx = c.rx := rfl
@[simp] theorem wndFull_rxSide (c : Conn) : c.rxSide.wndFull = c.tmr.rcvWndFull := rfl
@[simp] theorem rxSide_withRx (c : Conn) (x : RxSide) : (c.withRx x).rxSide = x := rfl
@[simp] theorem withRx_withRx (c : Conn) (x y : RxSide) : (c.withRx x).withRx y = c.withRx y := rfl
@[simp] theorem state_withRx (c : Conn) (x : RxSide) : (c.withRx x).state = c.state := rfl

end Conn

/-! ## The outside -/

/-- What a step takes from outside the connection: the clock, whether the `k`-th
buffer allocation succeeds, and what the `k`-th `net_tx_ip` returns. -/
structure Io where
  now : Usec
  alloc : ℕ → Bool
  net : ℕ → ℤ

/-- A step during which every allocation and every transmission succeeds. -/
def Io.good (now : Usec) : Io := ⟨now, fun _ => true, fun _ => 0⟩

/-- `tcp_conn_alloc`, with the initial sequence number it draws. -/
def tcpConnAlloc (iss : Seq) : Conn where
  state := .closed
  snd := { una := iss, nxt := iss, wnd := 0, wl1 := 0, wl2 := 0, iss := iss }
  rcv := { nxt := 0, wnd := BitVec.ofNat 32 tcpWin, irs := 0 }
  err := 0
  ref := 1
  rx := { closed := false, exclusive := false, wq := [], rxqOoo := [], rxq := [] }
  tx :=
    { closed := false, exclusive := false, wq := [], lastAck := 0, lastWin := 0, pending := none
      txq := [], doFastRetransmit := false, fastRetransmitLastAck := 0 }
  tmr :=
    { nextTimeout := noTimeout, ackDelayed := false, rcvWndFull := false, ackTs := 0
      timeWaitTs := 0, repAcks := 0 }
  wire := []
  destroyed := 0

end Skyloft
