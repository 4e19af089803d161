import Skyloft.Lib.Serial

/-!
# Sequence numbers, flags and packet buffers

The wrapped comparisons of `utils/defs.h` are signed comparisons of a 32-bit
difference, so each is a statement about `Serial.ahead`.  An `Mbuf` carries the
part of `struct mbuf` that TCP reads: the bytes that were copied into the buffer,
the window `[off, off + len)` of them that is the data, and the TCP fields.  The
window lies inside the buffer by construction; `mbufPull` and `mbufTrim` return a
`Fault` where the source has a `BUG_ON`.

Stripping a header or a tail only moves the window, so the bytes that arrived
stay in `buf`.  `Mbuf.text` reads off them what the sequence range of the segment
covers, which is what a receiver owes its reader; `Mbuf.data` is what the window
shows, which is what the reader gets.
-/

namespace Skyloft

abbrev Byte := BitVec 8

/-- `tcp_seq`. -/
abbrev Seq := BitVec 32

/-- A reading of the microsecond clock. -/
abbrev Usec := BitVec 64

/-! ## Wrapped comparisons -/

def wrapsLt (a b : Seq) : Prop := (a - b).toInt < 0

def wrapsLte (a b : Seq) : Prop := (a - b).toInt ≤ 0

def wrapsGt (a b : Seq) : Prop := (b - a).toInt < 0

def wrapsGte (a b : Seq) : Prop := (b - a).toInt ≤ 0

instance (a b : Seq) : Decidable (wrapsLt a b) := inferInstanceAs (Decidable (_ < _))
instance (a b : Seq) : Decidable (wrapsLte a b) := inferInstanceAs (Decidable (_ ≤ _))
instance (a b : Seq) : Decidable (wrapsGt a b) := inferInstanceAs (Decidable (_ < _))
instance (a b : Seq) : Decidable (wrapsGte a b) := inferInstanceAs (Decidable (_ ≤ _))

theorem wrapsLt_iff {a b : Seq} : wrapsLt a b ↔ Serial.ahead a b < 0 := Iff.rfl
theorem wrapsLte_iff {a b : Seq} : wrapsLte a b ↔ Serial.ahead a b ≤ 0 := Iff.rfl
theorem wrapsGt_iff {a b : Seq} : wrapsGt a b ↔ Serial.ahead b a < 0 := Iff.rfl

theorem wrapsLte_of_wrapsGt {a b : Seq} (h : wrapsGt a b) : wrapsLte b a := Int.le_of_lt h

theorem wrapsGt_of_not_wrapsLte {a b : Seq} (h : ¬ wrapsLte a b) : wrapsGt a b := by
  rw [wrapsLte_iff] at h
  rw [wrapsGt_iff, Serial.ahead_swap (by omega)]
  omega

theorem wrapsLte_of_not_wrapsGt {a b : Seq} (h : ¬ wrapsGt a b) : wrapsLte a b := by
  rw [wrapsGt_iff] at h
  rw [wrapsLte_iff, Serial.ahead_swap (by omega)]
  omega

/-! ## Faults -/

/-- The assertions and `BUG_ON`s of the TCP code, one constructor each. -/
inductive Fault
  /-- `mbuf_pull` longer than the data. -/
  | mbufPull
  /-- `mbuf_trim` longer than the data. -/
  | mbufTrim
  /-- `tcp_rx_append_text`: the segment starts after `rcv_nxt`. -/
  | appendSeq
  /-- `tcp_rx_append_text`: the segment ends at or before `rcv_nxt`. -/
  | appendEnd
  /-- `tcp_rx_append_text`: the clipped segment exceeds the window. -/
  | appendWnd
  /-- `tcp_rx_conn`: readers are woken with an empty `rxq`. -/
  | wakeEmpty
  /-- `tcp_rx_conn`: readers are woken for a dropped segment. -/
  | wakeDropped
  /-- `tcp_rx_conn`: a FIN in FIN_WAIT1 after this side's FIN was acknowledged. -/
  | finAcked
  /-- `tcp_conn_set_state`: the state would move backwards. -/
  | setState
  /-- `tcp_tx_send`: the connection is not established. -/
  | txState
  /-- `tcp_conn_shutdown_tx`: the connection is not established. -/
  | shutState
  /-- `tcp_write_finish`: the caller does not own the transmit side. -/
  | writeExcl
  /-- `tcp_close`: readers still sleep on the connection. -/
  | closeWaiters
  /-- `tcp_conn_release_ref`: the last reference is dropped before CLOSED. -/
  | releaseState
  deriving DecidableEq, Repr

/-! ## Segment flags -/

/-- The TCP flags the code tests or sets. -/
structure TcpFlags where
  fin : Bool := false
  syn : Bool := false
  rst : Bool := false
  psh : Bool := false
  ack : Bool := false
  deriving DecidableEq, Repr

/-- `(flags & (TCP_PUSH | TCP_FIN)) > 0`. -/
def TcpFlags.pushed (f : TcpFlags) : Bool := f.psh || f.fin

/-! ## Packet buffers -/

/-- The fields of `struct mbuf` used by TCP.  `buf` holds the bytes from the head
of the buffer, `[off, off + len)` is the data. -/
structure Mbuf where
  buf : List Byte
  off : ℕ
  len : ℕ
  segSeq : Seq
  segEnd : Seq
  flags : TcpFlags
  timestamp : Usec
  ref : ℕ
  inBuf : off + len ≤ buf.length

namespace Mbuf

/-- The bytes a reader of the buffer sees. -/
def data (m : Mbuf) : List Byte := (m.buf.drop m.off).take m.len

/-- The length of the sequence range `[seg_seq, seg_end)`. -/
def segLen (m : Mbuf) : ℕ := (m.segEnd - m.segSeq).toNat

/-- The bytes of the arrived payload that the sequence range covers. -/
def text (m : Mbuf) : List Byte := (m.buf.drop m.off).take m.segLen

@[simp] theorem length_data (m : Mbuf) : m.data.length = m.len := by
  have := m.inBuf
  simp only [data, List.length_take, List.length_drop]
  omega

/-- A received buffer: the data is the whole payload. -/
def ofPayload (payload : List Byte) (seq segEnd : Seq) (flags : TcpFlags) : Mbuf where
  buf := payload
  off := 0
  len := payload.length
  segSeq := seq
  segEnd := segEnd
  flags := flags
  timestamp := 0
  ref := 1
  inBuf := by simp

@[simp] theorem data_ofPayload (p : List Byte) (s e : Seq) (f : TcpFlags) :
    (ofPayload p s e f).data = p := by
  simp [data, ofPayload]

end Mbuf

/-- `mbuf_pull`: strip `n` bytes from the front. -/
def mbufPull (m : Mbuf) (n : ℕ) : Except Fault Mbuf :=
  if h : n ≤ m.len then
    .ok { m with off := m.off + n, len := m.len - n, inBuf := by have := m.inBuf; omega }
  else .error .mbufPull

/-- `mbuf_trim`: strip `n` bytes from the end. -/
def mbufTrim (m : Mbuf) (n : ℕ) : Except Fault Mbuf :=
  if h : n ≤ m.len then
    .ok { m with len := m.len - n, inBuf := by have := m.inBuf; omega }
  else .error .mbufTrim

/-- `memcpy(mbuf_put(m, n), src, n)`: append bytes after the data. -/
def mbufPut (m : Mbuf) (bytes : List Byte) : Mbuf :=
  { m with
    buf := m.buf.take (m.off + m.len) ++ bytes
    len := m.len + bytes.length
    inBuf := by
      have := m.inBuf
      simp only [List.length_append, List.length_take]
      omega }

end Skyloft
