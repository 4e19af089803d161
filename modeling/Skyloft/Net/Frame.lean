import Skyloft.Lib.Run
import Skyloft.Net.TcpIn

/-!
# What the sending functions write

A function of the egress path writes the wire, the queue and the pending buffer, the next sequence
number, and what the last header said.  `Conn.txFrame` is the rest of a connection; there is one
lemma for each of these functions, and what else the proofs want to know to be left alone is read off
the frame.

The other functions that many proofs go through have a lemma that says which fields they change.

* `Conn.txFrame` — a connection without what is written on the egress path.
* `tcpConnSetState_eq`, `tcpConnPut_eq`, `tcpReadCopy_eq` — the fields that a change of state, a
  reference that is dropped, and a read change.
-/

namespace Skyloft

open Run

/-- A connection without what is written on the egress path. -/
def Conn.txFrame (c : Conn) : Conn :=
  { c with
    wire := []
    snd := { c.snd with nxt := 0 }
    tx := { c.tx with txq := [], pending := none, lastAck := 0, lastWin := 0 } }

variable {c c' : Conn} {io : Io}

/-! ## Headers and control segments -/

@[simp] theorem txFrame_netTxIp (c : Conn) (p : Packet) (ret : ℤ) :
    (netTxIp c p ret).txFrame = c.txFrame := by
  rw [netTxIp]
  split <;> rfl

@[simp] theorem txFrame_tcpTxRawRst (c : Conn) (seq : Seq) (io : Io) :
    (tcpTxRawRst c seq io).txFrame = c.txFrame := by
  rw [tcpTxRawRst]
  split
  · exact txFrame_netTxIp _ _ _
  · rfl

@[simp] theorem txFrame_sendRst (c : Conn) (acked : Bool) (s : Segment) (io : Io) :
    (sendRst c acked s io).txFrame = c.txFrame := by
  rw [sendRst, tcpTxRawRstAck]
  split
  · exact txFrame_tcpTxRawRst _ _ _
  · split
    · exact txFrame_netTxIp _ _ _
    · rfl

@[simp] theorem txFrame_tcpTxAck (c : Conn) (io : Io) : (tcpTxAck c io).txFrame = c.txFrame := by
  rw [tcpTxAck]
  split
  · exact txFrame_netTxIp _ _ _
  · rfl

/-- The acknowledgement that a visit of the worker sends, or not. -/
theorem txFrame_ackIf (c : Conn) (ack : Bool) (io : Io) :
    (if ack then tcpTxAck c io else c).txFrame = c.txFrame := by
  cases ack with
  | false => rfl
  | true => exact txFrame_tcpTxAck c io

@[simp] theorem txFrame_tcpTxCtl (c : Conn) (flags : TcpFlags) (io : Io) :
    (tcpTxCtl c flags io).1.txFrame = c.txFrame := by
  rw [tcpTxCtl]
  split
  · exact txFrame_netTxIp _ _ _
  · rfl

@[simp] theorem txFrame_tcpConnAck (c : Conn) : (tcpConnAck c).txFrame = c.txFrame := by
  rw [tcpConnAck]
  split <;> rfl

/-! ## The segmenter -/

theorem txFrame_txNextMbuf {m : Mbuf} {left n : ℕ} {alloc : Bool}
    (h : txNextMbuf c left alloc = some (c', m, n)) : c'.txFrame = c.txFrame := by
  rw [txNextMbuf] at h
  split at h
  · cases h
    rfl
  · split at h
    · cases h
      rfl
    · cases h

@[simp] theorem txFrame_txTransmit (c : Conn) (m : Mbuf) (push : Bool) (now : Usec) (ret : ℤ) :
    (txTransmit c m push now ret).txFrame = c.txFrame := txFrame_netTxIp _ _ _

theorem txFrame_tcpTxSendLoop (push : Bool) (io : Io) :
    ∀ (fuel k : ℕ) (c : Conn) (buf : List Byte),
      (tcpTxSendLoop push io fuel k c buf).1.txFrame = c.txFrame := by
  intro fuel
  induction fuel with
  | zero =>
      intro k c buf
      rfl
  | succ fuel ih =>
      intro k c buf
      rw [tcpTxSendLoop]
      split
      · rfl
      cases h : txNextMbuf c buf.length (io.alloc k) with
      | none => rfl
      | some r =>
          obtain ⟨c₁, m, n⟩ := r
          have hnext := txFrame_txNextMbuf h
          dsimp only
          split
          · exact hnext
          · rw [ih, txFrame_txTransmit]
            exact hnext

theorem txFrame_tcpTxSend {buf : List Byte} {push : Bool} {ret : ℤ}
    (h : tcpTxSend c buf push io = .ok (c', ret)) : c'.txFrame = c.txFrame := by
  rw [tcpTxSend] at h
  split at h
  · have hloop := txFrame_tcpTxSendLoop push io (buf.length + 1) 0 c buf
    generalize tcpTxSendLoop push io (buf.length + 1) 0 c buf = r at h hloop
    cases h
    exact hloop
  · cases h

/-! ## Retransmission -/

theorem txFrame_tcpTxRetransmitOne {m m' : Mbuf} {k : ℕ} {ret : ℤ}
    (h : tcpTxRetransmitOne c m io k = .ok (c', m', ret)) : c'.txFrame = c.txFrame := by
  rw [tcpTxRetransmitOne] at h
  split at h
  · cases h
    rfl
  split at h
  · cases h
    rfl
  · obtain ⟨m₁, -, h⟩ := bind_eq_ok.mp h
    cases h
    exact txFrame_netTxIp _ _ _

theorem txFrame_txRetransmitLoop : ∀ {q q' : List Mbuf} {k n : ℕ} {c c' : Conn},
    txRetransmitLoop io k n c q = .ok (c', q') → c'.txFrame = c.txFrame := by
  intro q
  induction q with
  | nil =>
      intro q' k n c c' h
      cases h
      rfl
  | cons m ms ih =>
      intro q' k n c c' h
      rw [txRetransmitLoop] at h
      split at h
      · cases h
        rfl
      split at h
      · obtain ⟨⟨c₁, q₁⟩, h₁, h⟩ := bind_eq_ok.mp h
        cases h
        exact ih h₁
      obtain ⟨⟨c₁, m₁, ret⟩, h₁, h⟩ := bind_eq_ok.mp h
      have hone := txFrame_tcpTxRetransmitOne h₁
      dsimp only at h
      split at h
      · cases h
        exact hone
      · obtain ⟨⟨c₂, q₂⟩, h₂, h⟩ := bind_eq_ok.mp h
        cases h
        exact (ih h₂).trans hone

theorem txFrame_tcpTxRetransmit (h : tcpTxRetransmit c io = .ok c') :
    c'.txFrame = c.txFrame := by
  obtain ⟨⟨c₁, q₁⟩, h₁, h⟩ := bind_eq_ok.mp h
  cases h
  change c₁.txFrame = _
  exact txFrame_txRetransmitLoop h₁

@[simp] theorem txFrame_tcpTxFastRetransmitStart (c : Conn) (now : Usec) :
    (tcpTxFastRetransmitStart c now).1.txFrame = c.txFrame := by
  rw [tcpTxFastRetransmitStart]
  split
  · rfl
  · split <;> rfl

theorem txFrame_tcpTxFastRetransmitFinish {m : Mbuf}
    (h : tcpTxFastRetransmitFinish c m io = .ok c') : c'.txFrame = c.txFrame := by
  obtain ⟨⟨c₁, m₁, ret⟩, h₁, h⟩ := bind_eq_ok.mp h
  cases h
  change c₁.txFrame = _
  exact txFrame_tcpTxRetransmitOne h₁

/-! ## Other functions -/

theorem tcpConnSetState_eq {new : TcpState} {now : Usec}
    (h : tcpConnSetState c new now = .ok c') :
    ∃ wq, c' = tcpTimerUpdate { c with tx := { c.tx with wq }, state := new } now := by
  rw [tcpConnSetState] at h
  split at h
  · cases h
    dsimp only
    split
    · exact ⟨[], rfl⟩
    · exact ⟨c.tx.wq, rfl⟩
  · cases h

theorem tcpConnPut_eq (h : tcpConnPut c = .ok c') :
    ∃ n, c' = { c with ref := c.ref - 1, destroyed := n } := by
  rw [tcpConnPut] at h
  dsimp only at h
  split at h
  · split at h
    · cases h
      exact ⟨c.destroyed + 1, rfl⟩
    · cases h
  · cases h
    exact ⟨c.destroyed, rfl⟩

/-- `tcp_write_finish` acknowledges, goes through the queue and refreshes the cache. -/
theorem tcpWriteFinish_eq {now : Usec} {re : Option Mbuf} (h : tcpWriteFinish c now = .ok (c', re)) :
    c.tx.exclusive ∧ ∃ d ackDelayed ackTs u,
      d = tcpConnAck { c with tx := { c.tx with exclusive := false } } ∧
      u = (writeFinishQueue { d with tmr := { d.tmr with ackDelayed, ackTs } } now).1 ∧
      c' = { tcpTimerUpdate u now with tx := { (tcpTimerUpdate u now).tx with wq := [] } } := by
  rw [tcpWriteFinish] at h
  split at h
  · rename_i hex
    dsimp only at h
    generalize tcpConnAck { c with tx := { c.tx with exclusive := false } } = d at h ⊢
    refine ⟨hex, d, ?_⟩
    split at h
    · cases h
      exact ⟨false, d.tmr.ackTs, _, rfl, rfl, rfl⟩
    · cases h
      exact ⟨d.tmr.ackDelayed, now, _, rfl, rfl, rfl⟩
  · cases h

theorem tcpReadCopy_eq {len : ℕ} {q : List Mbuf} {part : Bool} {bytes : List Byte}
    (h : tcpReadCopy c len q part = .ok (c', bytes)) :
    ∃ rxq, c' = { c with rx := { c.rx with rxq } } := by
  rw [tcpReadCopy] at h
  dsimp only at h
  split at h
  · split at h
    · cases h
      exact ⟨c.rx.rxq, rfl⟩
    · obtain ⟨m, -, h⟩ := bind_eq_ok.mp h
      cases h
      exact ⟨_, rfl⟩
  · cases h
    exact ⟨c.rx.rxq, rfl⟩

end Skyloft
