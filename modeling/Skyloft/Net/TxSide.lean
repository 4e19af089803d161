import Skyloft.Lib.Tiling
import Skyloft.Net.Frame

/-!
# The send side

The part of a connection that the segmenter, the acknowledgements and the
retransmissions work on.  A buffer on `txq` counts as the span of its sequence
numbers; its time stamp and its references are left out, so that everything but
the operations named here leaves the send side alone.  There is one lemma for
each function, and the proofs about the send side use these.

## Main definitions

* `Mbuf.span`, `TxSide`, `Conn.txSide` — the send side.
* `TxSide.queued`, `TxSide.acked`, `TxSide.failed`, `TxSide.unlocked` — what a
  control segment, an acknowledgement, a failure and the end of an exclusive
  section make of it.
* `Stripped`, `txSide_tcpTxRetransmit` — what a retransmission pass makes of it.
* `Sent`, `parkLen`, `tcpTxSend_spec` — what the segmenter makes of it, and what it
  keeps for later.
-/

namespace Skyloft

open Run

/-- The sequence numbers of a buffer, from `seg_seq` up to `seg_end`. -/
def Mbuf.span (m : Mbuf) : Seq × Seq := (m.segSeq, m.segEnd)

/-- The send side of a connection. -/
structure TxSide where
  snd : SndVars
  exclusive : Bool
  closed : Bool
  pending : Option Mbuf
  txq : List (Seq × Seq)

def Conn.txSide (c : Conn) : TxSide :=
  ⟨c.snd, c.tx.exclusive, c.tx.closed, c.tx.pending, c.tx.txq.map Mbuf.span⟩

namespace TxSide

/-- A control segment was queued. -/
def queued (x : TxSide) : TxSide :=
  { x with
    snd := { x.snd with nxt := x.snd.nxt + 1 }
    txq := x.txq ++ [(x.snd.nxt, x.snd.nxt + 1)] }

/-- The fully acknowledged spans are dropped, unless a writer owns the queue. -/
def trimmed (x : TxSide) : TxSide :=
  if x.exclusive then x
  else { x with txq := x.txq.dropWhile fun p => ¬ wrapsGt p.2 x.snd.una }

/-- An acknowledgement was taken. -/
def acked (x : TxSide) (ack : Seq) : TxSide :=
  TxSide.trimmed { x with snd := { x.snd with una := ack } }

/-- The connection failed. -/
def failed (x : TxSide) : TxSide :=
  { x with
    closed := true
    txq := if x.exclusive then x.txq else []
    pending := if x.exclusive then x.pending else none }

/-- The owner gave the queue back. -/
def unlocked (x : TxSide) (state : TcpState) : TxSide :=
  let x := TxSide.trimmed { x with exclusive := false }
  if state = .closed then { x with txq := [], pending := none } else x

@[simp] theorem snd_trimmed (x : TxSide) : x.trimmed.snd = x.snd := by
  rw [trimmed]
  split <;> rfl

@[simp] theorem pending_trimmed (x : TxSide) : x.trimmed.pending = x.pending := by
  rw [trimmed]
  split <;> rfl

@[simp] theorem exclusive_trimmed (x : TxSide) : x.trimmed.exclusive = x.exclusive := by
  rw [trimmed]
  split <;> rfl

@[simp] theorem closed_trimmed (x : TxSide) : x.trimmed.closed = x.closed := by
  rw [trimmed]
  split <;> rfl

@[simp] theorem snd_unlocked (x : TxSide) (state : TcpState) :
    (x.unlocked state).snd = x.snd := by
  simp only [unlocked]
  split <;> simp

@[simp] theorem closed_unlocked (x : TxSide) (state : TcpState) :
    (x.unlocked state).closed = x.closed := by
  simp only [unlocked]
  split <;> simp

theorem pending_unlocked (x : TxSide) (state : TcpState) :
    (x.unlocked state).pending = x.pending ∨ (x.unlocked state).pending = none := by
  simp only [unlocked]
  split <;> simp

end TxSide

/-! ## Functions that leave the send side alone -/

@[simp] theorem txSide_netTxIp (c : Conn) (p : Packet) (ret : ℤ) :
    (netTxIp c p ret).txSide = c.txSide := by
  rw [netTxIp]
  split <;> rfl

@[simp] theorem txSide_tcpTxRawRst (c : Conn) (seq : Seq) (io : Io) :
    (tcpTxRawRst c seq io).txSide = c.txSide := by
  rw [tcpTxRawRst]
  split <;> simp

@[simp] theorem txSide_sendRst (c : Conn) (acked : Bool) (s : Segment) (io : Io) :
    (sendRst c acked s io).txSide = c.txSide := by
  rw [sendRst, tcpTxRawRstAck]
  split
  · simp
  · split <;> simp

@[simp] theorem txSide_tcpTxAck (c : Conn) (io : Io) : (tcpTxAck c io).txSide = c.txSide := by
  rw [tcpTxAck]
  split
  · exact txSide_netTxIp _ _ _
  · rfl

@[simp] theorem txSide_tcpTimerUpdate (c : Conn) (now : Usec) :
    (tcpTimerUpdate c now).txSide = c.txSide := rfl

@[simp] theorem txSide_tcpConnShutdownRx (c : Conn) : (tcpConnShutdownRx c).txSide = c.txSide := by
  rw [tcpConnShutdownRx]
  split <;> rfl

theorem txSide_tcpConnSetState {c c' : Conn} {new : TcpState} {now : Usec}
    (h : tcpConnSetState c new now = .ok c') : c'.txSide = c.txSide := by
  obtain ⟨wq, rfl⟩ := tcpConnSetState_eq h
  rfl

theorem txSide_tcpConnPut {c c' : Conn} (h : tcpConnPut c = .ok c') : c'.txSide = c.txSide := by
  obtain ⟨n, rfl⟩ := tcpConnPut_eq h
  rfl

theorem txSide_ackIf (c : Conn) (ack : Bool) (io : Io) :
    (if ack then tcpTxAck c io else c).txSide = c.txSide := by
  cases ack with
  | false => rfl
  | true => exact txSide_tcpTxAck c io

@[simp] theorem txSide_readWndUpdate (c : Conn) (io : Io) :
    (readWndUpdate c io).txSide = c.txSide := by
  rw [readWndUpdate]
  split
  · exact txSide_tcpTxAck c io
  · rfl

@[simp] theorem txSide_readTake (c : Conn) (p : Popped) : (readTake c p).txSide = c.txSide := by
  rw [readTake]
  cases p.fin
  · rfl
  · exact txSide_tcpConnShutdownRx c

theorem txSide_tcpReadCopy {c c' : Conn} {len : ℕ} {q : List Mbuf} {part : Bool}
    {bytes : List Byte} (h : tcpReadCopy c len q part = .ok (c', bytes)) :
    c'.txSide = c.txSide := by
  obtain ⟨rxq, rfl⟩ := tcpReadCopy_eq h
  rfl

theorem txSide_tcpRxAppendText {c c' : Conn} {m : Mbuf} (h : tcpRxAppendText c m = .ok c') :
    c'.txSide = c.txSide := by
  rw [tcpRxAppendText] at h
  split_ifs at h
  obtain ⟨m₁, -, h⟩ := bind_eq_ok.mp h
  obtain ⟨m₂, -, h⟩ := bind_eq_ok.mp h
  split_ifs at h
  cases h
  rfl

theorem txSide_rxDrain {pushed : Bool} : ∀ {q : List Mbuf} {c c' : Conn} {wake wake' : Bool},
    rxDrain pushed c wake q = .ok (c', wake') → c'.txSide = c.txSide := by
  intro q
  induction q with
  | nil => intro c c' wake wake' h; cases h; rfl
  | cons pos rest ih =>
      intro c c' wake wake' h
      rw [rxDrain] at h
      split_ifs at h
      · exact ih h
      · cases h; rfl
      · obtain ⟨c₁, h₁, h⟩ := bind_eq_ok.mp h
        exact (ih h).trans (txSide_tcpRxAppendText h₁)

theorem txSide_tcpRxText {c : Conn} {m : Mbuf} {r : RxText} (h : tcpRxText c m = .ok r) :
    r.conn.txSide = c.txSide := by
  rw [tcpRxText] at h
  split_ifs at h
  · cases h; rfl
  · obtain ⟨c₁, h₁, h⟩ := bind_eq_ok.mp h
    obtain ⟨⟨c₂, wake⟩, h₂, h⟩ := bind_eq_ok.mp h
    cases h
    exact (txSide_rxDrain h₂).trans (txSide_tcpRxAppendText h₁)
  · split at h
    · cases h; rfl
    · obtain ⟨⟨c₂, wake⟩, h₂, h⟩ := bind_eq_ok.mp h
      cases h
      exact txSide_rxDrain h₂

theorem txSide_tcpHandleTimeouts {c c' : Conn} {now clock : Usec} {ack re : Bool}
    (h : tcpHandleTimeouts c now clock = .ok (c', ack, re)) : c'.txSide = c.txSide := by
  rw [tcpHandleTimeouts] at h
  split at h
  · cases h; rfl
  split at h
  · obtain ⟨c₁, h₃, h⟩ := bind_eq_ok.mp h
    obtain ⟨c₂, h₄, h⟩ := bind_eq_ok.mp h
    cases h
    exact (txSide_tcpConnPut h₄).trans (txSide_tcpConnSetState h₃)
  · cases h
    cases ackDue c now <;> cases retransmitDue c now <;> rfl

/-! ## Queueing, acknowledging, failing -/

theorem txSide_tcpTxCtl (c : Conn) (flags : TcpFlags) (io : Io) :
    (tcpTxCtl c flags io).1.txSide = if io.alloc 0 then c.txSide.queued else c.txSide := by
  rw [tcpTxCtl]
  split
  · dsimp only
    rw [txSide_netTxIp]
    simp [Conn.txSide, TxSide.queued, tcpPushTcphdr, Mbuf.span]
  · rfl

theorem ret_tcpTxCtl (c : Conn) (flags : TcpFlags) (io : Io) :
    (tcpTxCtl c flags io).2 = if io.alloc 0 then io.net 0 else -eNomem := by
  rw [tcpTxCtl]
  split <;> rfl

/-- A control segment that was sent is queued. -/
theorem txSide_tcpTxCtl_of_ret {c c' : Conn} {flags : TcpFlags} {io : Io} {ret : ℤ}
    (h : tcpTxCtl c flags io = (c', ret)) (hret : ¬ ret ≠ 0) : c'.txSide = c.txSide.queued := by
  have hside := txSide_tcpTxCtl c flags io
  have hcode := ret_tcpTxCtl c flags io
  rw [h] at hside hcode
  dsimp only at hside hcode
  split at hcode
  · rename_i ha
    rw [hside, if_pos ha]
  · exact absurd (hcode ▸ (by decide)) hret

theorem span_dropWhile (una : Seq) (q : List Mbuf) :
    (q.dropWhile fun m => ¬ wrapsGt m.segEnd una).map Mbuf.span =
      (q.map Mbuf.span).dropWhile fun p => ¬ wrapsGt p.2 una := by
  induction q with
  | nil => rfl
  | cons m q ih =>
      by_cases h : wrapsGt m.segEnd una
      · simp [Mbuf.span, h]
      · simpa [Mbuf.span, h] using ih

@[simp] theorem txSide_tcpConnAck (c : Conn) : (tcpConnAck c).txSide = c.txSide.trimmed := by
  cases h : c.tx.exclusive
  · simp only [tcpConnAck, h, Bool.false_eq_true, if_false, Conn.txSide, TxSide.trimmed]
    rw [span_dropWhile]
  · simp [tcpConnAck, h, Conn.txSide, TxSide.trimmed]

theorem txSide_tcpConnFail {c c' : Conn} {err : ℤ} {now : Usec}
    (h : tcpConnFail c err now = .ok c') : c'.txSide = c.txSide.failed := by
  obtain ⟨c₁, h₁, h⟩ := bind_eq_ok.mp h
  have hs : c₁.txSide = c.txSide := (txSide_tcpConnSetState h₁).trans rfl
  rw [txSide_tcpConnPut h, ← hs]
  cases hex : c₁.tx.exclusive <;> simp [connFailQueues, Conn.txSide, TxSide.failed, hex]

/-! ## Fast retransmission -/

@[simp] theorem txSide_tcpTxFastRetransmitStart (c : Conn) (now : Usec) :
    (tcpTxFastRetransmitStart c now).1.txSide = c.txSide := by
  rw [tcpTxFastRetransmitStart]
  split
  · rfl
  · split
    · rfl
    · rename_i m ms hq
      simp [Conn.txSide, hq, Mbuf.span]

theorem txSide_tcpTxRetransmitOne {c c' : Conn} {m m' : Mbuf} {io : Io} {k : ℕ} {ret : ℤ}
    (h : tcpTxRetransmitOne c m io k = .ok (c', m', ret)) : c'.txSide = c.txSide := by
  rw [tcpTxRetransmitOne] at h
  split_ifs at h
  · cases h; rfl
  · cases h; rfl
  all_goals
    obtain ⟨m₁, -, h⟩ := bind_eq_ok.mp h
    cases h
    exact txSide_netTxIp _ _ _

theorem txSide_tcpTxFastRetransmitFinish {c c' : Conn} {m : Mbuf} {io : Io}
    (h : tcpTxFastRetransmitFinish c m io = .ok c') : c'.txSide = c.txSide := by
  obtain ⟨⟨c₁, m₁, ret⟩, h₁, h⟩ := bind_eq_ok.mp h
  cases h
  rw [← txSide_tcpTxRetransmitOne h₁]
  simp only [Conn.txSide, List.map_map]
  congr 1
  refine List.map_congr_left fun x _ => ?_
  simp only [Function.comp_apply, Mbuf.span]
  split <;> rfl

/-! ## Retransmission passes -/

/-- `p'` is the span `p` with what was acknowledged stripped off its front, if
anything. -/
def Stripped (una : Seq) (p p' : Seq × Seq) : Prop :=
  p' = p ∨ (wrapsLt p.1 una ∧ ¬ wrapsLte p.2 una ∧ p' = (una, p.2))

theorem span_tcpTxRetransmitOne {c c' : Conn} {m m' : Mbuf} {io : Io} {k : ℕ} {ret : ℤ}
    (h : tcpTxRetransmitOne c m io k = .ok (c', m', ret)) :
    Stripped c.snd.una m.span m'.span := by
  rw [tcpTxRetransmitOne] at h
  split at h
  · cases h; exact .inl rfl
  split at h
  · cases h; exact .inl rfl
  rename_i hgt
  obtain ⟨m₁, hm, h⟩ := bind_eq_ok.mp h
  cases h
  split
  · exact .inl rfl
  rw [stripAcked] at hm
  split at hm
  · rename_i hlt
    obtain ⟨m₂, hp, hm⟩ := bind_eq_ok.mp hm
    cases hm
    rw [mbufPull] at hp
    split at hp
    · cases hp
      exact .inr ⟨hlt, hgt, rfl⟩
    · cases hp
  · cases hm
    exact .inl rfl

/-- A pass leaves the connection as it is and strips buffers. -/
theorem span_txRetransmitLoop {io : Io} : ∀ {q q' : List Mbuf} {k n : ℕ} {c c' : Conn},
    txRetransmitLoop io k n c q = .ok (c', q') → c'.txSide = c.txSide ∧
      List.Forall₂ (Stripped c.snd.una) (q.map Mbuf.span) (q'.map Mbuf.span) := by
  have hrefl : ∀ (una : Seq) (q : List (Seq × Seq)), List.Forall₂ (Stripped una) q q :=
    fun una q => List.forall₂_same.mpr fun _ _ => .inl rfl
  intro q
  induction q with
  | nil =>
      intro q' k n c c' h
      cases h
      exact ⟨rfl, .nil⟩
  | cons m ms ih =>
      intro q' k n c c' h
      rw [txRetransmitLoop] at h
      split at h
      · cases h; exact ⟨rfl, hrefl _ _⟩
      split at h
      · obtain ⟨⟨c₁, q₁⟩, h₁, h⟩ := bind_eq_ok.mp h
        cases h
        obtain ⟨h₂, h₃⟩ := ih h₁
        exact ⟨h₂, .cons (.inl rfl) h₃⟩
      obtain ⟨⟨c₁, m₁, ret⟩, h₁, h⟩ := bind_eq_ok.mp h
      have hside := txSide_tcpTxRetransmitOne h₁
      have hspan := span_tcpTxRetransmitOne h₁
      change Stripped c.snd.una m.span m₁.span at hspan
      dsimp only at h
      split at h
      · cases h
        exact ⟨hside, .cons hspan (hrefl _ _)⟩
      obtain ⟨⟨c₂, q₂⟩, h₂, h⟩ := bind_eq_ok.mp h
      cases h
      obtain ⟨h₃, h₄⟩ := ih h₂
      have hsnd : c₁.snd = c.snd := congrArg TxSide.snd hside
      exact ⟨h₃.trans hside, .cons hspan (hsnd ▸ h₄)⟩

/-- **A retransmission pass** strips what was acknowledged off buffers, and does
nothing else to the send side. -/
theorem txSide_tcpTxRetransmit {c c' : Conn} {io : Io} (h : tcpTxRetransmit c io = .ok c') :
    ∃ txq, List.Forall₂ (Stripped c.snd.una) c.txSide.txq txq ∧
      c'.txSide = { c.txSide with txq := txq } := by
  obtain ⟨⟨c₁, q₁⟩, h₁, h⟩ := bind_eq_ok.mp h
  cases h
  obtain ⟨hside, hq⟩ := span_txRetransmitLoop h₁
  refine ⟨_, hq, ?_⟩
  rw [← hside]
  rfl

/-! ## The end of an exclusive section -/

theorem txSide_writeFinishQueue (c : Conn) (now : Usec) :
    (writeFinishQueue c now).1.txSide =
      if c.state = .closed then { c.txSide with txq := [], pending := none } else c.txSide := by
  rw [writeFinishQueue]
  split
  · rfl
  · split
    · dsimp only
      split
      · exact txSide_tcpTxFastRetransmitStart _ now
      · rfl
    · rfl

theorem txSide_tcpWriteFinish {c c' : Conn} {now : Usec} {re : Option Mbuf}
    (h : tcpWriteFinish c now = .ok (c', re)) :
    c.tx.exclusive ∧ c'.txSide = c.txSide.unlocked c.state := by
  obtain ⟨hex, d, _, _, u, hd, hu, rfl⟩ := tcpWriteFinish_eq h
  refine ⟨hex, ?_⟩
  have hside : d.txSide = TxSide.trimmed { c.txSide with exclusive := false } := by
    rw [hd, txSide_tcpConnAck]
    rfl
  have hst : d.state = c.state := by
    rw [hd, tcpConnAck]
    rfl
  change u.txSide = _
  rw [hu, txSide_writeFinishQueue, TxSide.unlocked, ← hside, ← hst]
  rfl

/-! ## The segmenter -/

namespace TxSide

/-- The spans of `txq` and of the buffer kept for later. -/
def spans (x : TxSide) : List (Seq × Seq) := x.txq ++ x.pending.toList.map Mbuf.span

/-- Where the next buffer of the segmenter starts. -/
def head (x : TxSide) : Seq := x.pending.elim x.snd.nxt Mbuf.segSeq

/-- The buffer kept for later ends at `snd_nxt`. -/
def PendingEnds (x : TxSide) : Prop := ∀ m ∈ x.pending, m.segEnd = x.snd.nxt

end TxSide

/-- The segmenter took `n` bytes: new spans lead from the buffer kept for later, or
from `snd_nxt`, to the new `snd_nxt`. -/
structure Sent (n : ℕ) (x x' : TxSide) : Prop where
  snd : x'.snd = { x.snd with nxt := x.snd.nxt + BitVec.ofNat 32 n }
  exclusive : x'.exclusive = x.exclusive
  closed : x'.closed = x.closed
  pendingEnds : x'.PendingEnds
  txq : x.txq <+: x'.txq
  tiles : ∃ ts, x'.spans = x.txq ++ ts ∧ Tiling x.head ts x'.snd.nxt

theorem Sent.refl {x : TxSide} (h : x.PendingEnds) : Sent 0 x x := by
  refine ⟨by simp, rfl, rfl, h, List.prefix_refl _, _, rfl, ?_⟩
  cases hp : x.pending with
  | none => simp [TxSide.head, hp]
  | some m => simp [TxSide.head, hp, Mbuf.span, h m hp]

/-- The segmenter appends spans that lead from one head to the other. -/
theorem Sent.txq_eq {n : ℕ} {x x' : TxSide} (h : Sent n x x') :
    ∃ us, x'.txq = x.txq ++ us ∧ Tiling x.head us x'.head := by
  obtain ⟨us, hus⟩ := h.txq
  obtain ⟨ts, hts, htile⟩ := h.tiles
  refine ⟨us, hus.symm, ?_⟩
  have hts' : ts = us ++ x'.pending.toList.map Mbuf.span := by
    rw [TxSide.spans, ← hus, List.append_assoc] at hts
    exact (List.append_cancel_left hts).symm
  rw [hts'] at htile
  obtain ⟨mid, h₁, h₂⟩ := Tiling.append_iff.mp htile
  have hmid : mid = x'.head := by
    cases hp : x'.pending with
    | none => simpa [TxSide.head, hp] using h₂
    | some m =>
        rw [hp] at h₂
        simpa [TxSide.head, hp, Mbuf.span] using h₂.1.symm
  exact hmid ▸ h₁

/-- The send side after a buffer with `n` new bytes was transmitted. -/
def TxSide.transmitted (x : TxSide) (n : ℕ) : TxSide :=
  { x with
    snd := { x.snd with nxt := x.snd.nxt + BitVec.ofNat 32 n }
    pending := none
    txq := x.txq ++ [(x.head, x.snd.nxt + BitVec.ofNat 32 n)] }

theorem Sent.transmitted {x x' : TxSide} {n n' : ℕ} (h : Sent n' (x.transmitted n) x') :
    Sent (n + n') x x' := by
  obtain ⟨ts, hts, htile⟩ := h.tiles
  refine ⟨?_, h.exclusive, h.closed, h.pendingEnds, (List.prefix_append _ _).trans h.txq,
    (x.head, x.snd.nxt + BitVec.ofNat 32 n) :: ts, ?_, rfl, htile⟩
  · rw [h.snd, BitVec.ofNat_add, ← BitVec.add_assoc]
    rfl
  · rw [hts]
    simp [TxSide.transmitted]

/-- The send side after a buffer with `n` new bytes was kept for later. -/
theorem Sent.parked {x : TxSide} {n : ℕ} {m : Mbuf}
    (hm : m.span = (x.head, x.snd.nxt + BitVec.ofNat 32 n)) :
    Sent n x { x with
      snd := { x.snd with nxt := x.snd.nxt + BitVec.ofNat 32 n }, pending := some m } := by
  refine ⟨rfl, rfl, rfl, ?_, List.prefix_refl _, [m.span], ?_, ?_⟩
  · rintro m' ⟨⟩
    exact congrArg Prod.snd hm
  · simp [TxSide.spans]
  · simp [hm]

/-- The buffer that the segmenter fills next starts at the head and ends at the new
`snd_nxt`. -/
theorem txNextMbuf_spec {c c' : Conn} {left : ℕ} {alloc : Bool} {m : Mbuf} {n : ℕ}
    (h : txNextMbuf c left alloc = some (c', m, n)) (hp : c.txSide.PendingEnds) :
    m.span = (c.txSide.head, c.snd.nxt + BitVec.ofNat 32 n) ∧ n ≤ left ∧
      c'.txSide = { c.txSide with pending := none } := by
  rw [txNextMbuf] at h
  split at h
  · rename_i m₀ hm
    cases h
    have he : m₀.segEnd = c.snd.nxt := hp m₀ hm
    exact ⟨by simp [Mbuf.span, TxSide.head, Conn.txSide, hm, he], by omega, rfl⟩
  · rename_i hm
    split at h
    · cases h
      exact ⟨by simp [Mbuf.span, TxSide.head, Conn.txSide, hm], by omega,
        by simp [Conn.txSide, hm]⟩
    · cases h

theorem txSide_txTransmit (c : Conn) (m : Mbuf) (push : Bool) (now : Usec) (ret : ℤ) :
    (txTransmit c m push now ret).txSide = { c.txSide with txq := c.txSide.txq ++ [m.span] } := by
  rw [txTransmit]
  dsimp only
  rw [txSide_netTxIp]
  simp [Conn.txSide, tcpPushTcphdr, Mbuf.span]

/-- **The segmenter loop.** -/
theorem tcpTxSendLoop_sent (push : Bool) (io : Io) :
    ∀ (fuel k : ℕ) (c : Conn) (buf : List Byte), c.txSide.PendingEnds →
      ∃ n ≤ buf.length, (tcpTxSendLoop push io fuel k c buf).2 = buf.drop n ∧
        Sent n c.txSide (tcpTxSendLoop push io fuel k c buf).1.txSide := by
  intro fuel
  induction fuel with
  | zero => intro k c buf hp; exact ⟨0, by omega, rfl, Sent.refl hp⟩
  | succ fuel ih =>
      intro k c buf hp
      rw [tcpTxSendLoop]
      split
      · exact ⟨0, by omega, rfl, Sent.refl hp⟩
      cases h : txNextMbuf c buf.length (io.alloc k) with
      | none => exact ⟨0, by omega, rfl, Sent.refl hp⟩
      | some r =>
          obtain ⟨c₁, m, n⟩ := r
          obtain ⟨hspan, hn, hside⟩ := txNextMbuf_spec h hp
          dsimp only
          generalize hc₂ : ({ c₁ with snd := { c₁.snd with nxt := c₁.snd.nxt + BitVec.ofNat 32 n } } :
            Conn) = c₂
          generalize hm₂ : mbufPut m (buf.take n) = m₂
          have hspan₂ : m₂.span = (c.txSide.head, c.snd.nxt + BitVec.ofNat 32 n) := by
            rw [← hm₂]
            exact hspan
          have hsnd₁ : c₁.snd = c.snd := congrArg TxSide.snd hside
          have hside₂ : c₂.txSide = { c.txSide with
              snd := { c.snd with nxt := c.snd.nxt + BitVec.ofNat 32 n }, pending := none } := by
            rw [← hc₂, ← hsnd₁]
            change ({ c₁.txSide with snd := _ } : TxSide) = _
            rw [hside]
          split
          · refine ⟨n, hn, rfl, ?_⟩
            have hpark := Sent.parked (x := c.txSide) hspan₂
            convert hpark using 1
            change ({ c₁.txSide with
              snd := { c₁.snd with nxt := c₁.snd.nxt + BitVec.ofNat 32 n }, pending := some m₂ } :
                TxSide) = _
            rw [hside, hsnd₁]
            rfl
          · generalize hc₃ : txTransmit c₂ m₂ _ io.now (io.net k) = c₃
            have hside₃ : c₃.txSide = c.txSide.transmitted n := by
              rw [← hc₃, txSide_txTransmit, hside₂, hspan₂]
              rfl
            have hp₃ : c₃.txSide.PendingEnds := by
              rw [hside₃]
              rintro m' ⟨⟩
            obtain ⟨n', hn', hrest, hsent⟩ := ih (k + 1) c₃ (buf.drop n) hp₃
            rw [List.length_drop] at hn'
            rw [hside₃] at hsent
            exact ⟨n + n', by omega, by rw [hrest, List.drop_drop], hsent.transmitted⟩

/-! ## What is kept for later -/

/-- The length of the last buffer when `n` bytes are put behind a buffer of `p`. -/
def lastLen (p n : ℕ) : ℕ := (p + n - 1) % tcpMss + 1

theorem lastLen_eq {p n : ℕ} (hpos : 0 < p + n) (h : p + n ≤ tcpMss) : lastLen p n = p + n := by
  have hlt : p + n - 1 < tcpMss := by omega
  rw [lastLen, Nat.mod_eq_of_lt hlt]
  omega

/-- The length of the buffer kept for later after `n` bytes were put behind a kept
buffer of `p` bytes; 0 when none is kept.  The length test of the source wraps for
a buffer shorter than a TCP header, so such a buffer is sent. -/
def parkLen (p n : ℕ) (push : Bool) : ℕ :=
  if n = 0 then p else if push ∨ lastLen p n < 20 then 0 else lastLen p n

/-- The length of the buffer kept for later. -/
def TxSide.pendLen (x : TxSide) : ℕ := x.pending.elim 0 Mbuf.len

/-- The buffer is neither empty nor longer than a segment, and its span is its data. -/
def Mbuf.Fits (m : Mbuf) : Prop :=
  0 < m.len ∧ m.len ≤ tcpMss ∧ m.segEnd = m.segSeq + BitVec.ofNat 32 m.len

/-- The buffer kept for later, if any, fits into a segment. -/
def TxSide.PendingFits (x : TxSide) : Prop := ∀ m ∈ x.pending, m.Fits

theorem keepsForLater_iff {len : ℕ} (h : len ≤ tcpMss) : keepsForLater len ↔ 20 ≤ len := by
  have h' : len ≤ 1460 := h
  change (BitVec.ofNat 64 len - 20).toNat < 1460 ↔ _
  rw [BitVec.toNat_sub, BitVec.toNat_ofNat]
  change (2 ^ 64 - 20 + len % 2 ^ 64) % 2 ^ 64 < 1460 ↔ _
  omega

theorem len_mbufPut (m : Mbuf) (bytes : List Byte) :
    (mbufPut m bytes).len = m.len + bytes.length := rfl

theorem pendLen_le {x : TxSide} (hfit : x.PendingFits) : x.pendLen ≤ tcpMss := by
  cases hp : x.pending with
  | none => simp [TxSide.pendLen, hp]
  | some m => simpa [TxSide.pendLen, hp] using (hfit m hp).2.1

/-- The buffer that the segmenter fills next. -/
theorem len_txNextMbuf {c c' : Conn} {left : ℕ} {alloc : Bool} {m : Mbuf} {n : ℕ}
    (h : txNextMbuf c left alloc = some (c', m, n)) (hfit : c.txSide.PendingFits) :
    m.len = c.txSide.pendLen ∧ n = min left (tcpMss - c.txSide.pendLen) ∧
      c'.tx.pending = none ∧ m.segEnd = m.segSeq + BitVec.ofNat 32 (m.len + n) := by
  rw [txNextMbuf] at h
  split at h
  · rename_i m₀ hm
    cases h
    have hend := (hfit m₀ hm).2.2
    simp [TxSide.pendLen, Conn.txSide, hm, hend, BitVec.ofNat_add, BitVec.add_assoc]
  · rename_i hm
    split at h
    · cases h
      simp [TxSide.pendLen, Conn.txSide, hm]
    · cases h

/-- Bytes behind a full buffer start a new one. -/
theorem parkLen_zero_left {p n : ℕ} {push : Bool} (hp : p ≤ tcpMss) (hn : tcpMss - p < n) :
    parkLen 0 (n - (tcpMss - p)) push = parkLen p n push := by
  have hmss : tcpMss = 1460 := rfl
  have hlast : lastLen 0 (n - (tcpMss - p)) = lastLen p n := by
    rw [lastLen, lastLen, hmss]
    omega
  simp only [parkLen, hlast, show n - (tcpMss - p) ≠ 0 by omega, show n ≠ 0 by omega, if_false]

/-- A buffer that is sent leaves as many bytes to keep as a new start does. -/
theorem parkLen_of_sent {p len n : ℕ} {push : Bool} (hp : p ≤ tcpMss)
    (hn : n = min len (tcpMss - p)) (hlen : 0 < len)
    (hsent : n < len ∨ push = true ∨ p + len < 20) :
    parkLen 0 (len - n) push = parkLen p len push := by
  by_cases hlt : n < len
  · have hfull : n = tcpMss - p := by omega
    rw [hfull, parkLen_zero_left hp (by omega)]
  · have hall : n = len := by omega
    have hflush : push = true ∨ lastLen p len < 20 := by
      refine (hsent.resolve_left hlt).imp id fun hshort => ?_
      rwa [lastLen_eq (by omega) (by omega)]
    rw [hall, Nat.sub_self, parkLen, if_pos rfl, parkLen, if_neg (by omega), if_pos hflush]

/-- One turn of the segmenter loop: it keeps the last buffer for later, or it sends one and goes on
with the other bytes. -/
theorem tcpTxSendLoop_turn (push : Bool) (fuel : ℕ) {io : Io} {k n : ℕ} {c c₁ : Conn}
    {buf : List Byte} {m : Mbuf} (h : txNextMbuf c buf.length (io.alloc k) = some (c₁, m, n))
    (hfit : c.txSide.PendingFits) (hbuf : buf ≠ []) :
    (∃ c' m', tcpTxSendLoop push io (fuel + 1) k c buf = (c', []) ∧ c'.tx.pending = some m' ∧
        m'.len = parkLen c.txSide.pendLen buf.length push ∧ m'.Fits) ∨
      ∃ c', tcpTxSendLoop push io (fuel + 1) k c buf =
          tcpTxSendLoop push io fuel (k + 1) c' (buf.drop n) ∧
        c'.tx.pending = none ∧
        parkLen 0 (buf.length - n) push = parkLen c.txSide.pendLen buf.length push := by
  have hmss : tcpMss = 1460 := rfl
  obtain ⟨hlen, hn, hnone, hend⟩ := len_txNextMbuf h hfit
  have hp : c.txSide.pendLen ≤ tcpMss := pendLen_le hfit
  have hpos : 0 < buf.length := List.length_pos_of_ne_nil hbuf
  rw [tcpTxSendLoop, if_neg hbuf, h]
  generalize c.txSide.pendLen = p at *
  -- the buffer takes what is left, and is then as long as it was kept
  have htake : buf.length ≤ n → (mbufPut m (buf.take n)).len = p + buf.length := by
    intro hall
    rw [len_mbufPut, hlen, List.length_take]
    omega
  dsimp only
  split
  · rename_i hkeep
    simp only [Bool.and_eq_true, Bool.not_eq_true', decide_eq_true_eq] at hkeep
    obtain ⟨⟨hpush, hrest⟩, hkeep⟩ := hkeep
    have hall : buf.length ≤ n := List.drop_eq_nil_iff.mp hrest
    rw [htake hall] at hkeep
    have h20 : 20 ≤ p + buf.length := (keepsForLater_iff (by omega)).mp hkeep
    have hlast : lastLen p buf.length = p + buf.length := lastLen_eq (by omega) (by omega)
    refine .inl ⟨_, _, by rw [hrest], rfl, ?_, ?_⟩
    · rw [htake hall, parkLen, if_neg (by omega), hpush, if_neg (by simp [hlast, h20]), hlast]
    · refine ⟨by have := htake hall; omega, by have := htake hall; omega, ?_⟩
      rw [htake hall]
      change m.segEnd = m.segSeq + _
      rw [hend, hlen, show p + n = p + buf.length by omega]
  · rename_i hsend
    refine .inr ⟨_, rfl, ?_, parkLen_of_sent hp hn hpos ?_⟩
    · exact (congrArg TxSide.pending (txSide_txTransmit _ _ _ _ _)).trans hnone
    · by_contra hkept
      simp only [not_or, not_lt, Bool.not_eq_true] at hkept
      obtain ⟨hall, hpush, h20⟩ := hkept
      have hkeep : keepsForLater (p + buf.length) := (keepsForLater_iff (by omega)).mpr h20
      apply hsend
      rw [htake hall, hpush, List.drop_eq_nil_of_le hall]
      simp [hkeep]

theorem fits_of_pending_none {c : Conn} (h : c.tx.pending = none) :
    c.txSide.PendingFits ∧ c.txSide.pendLen = 0 := by
  have hside : c.txSide.pending = none := h
  constructor
  · intro m hm
    rw [hside] at hm
    cases hm
  · simp [TxSide.pendLen, hside]

/-- The segmenter loop keeps no buffer for later, or it took every byte. -/
theorem tcpTxSendLoop_pending (push : Bool) (io : Io) :
    ∀ (fuel k : ℕ) (c : Conn) (buf : List Byte), c.txSide.PendingFits →
      (fuel = 0 → c.tx.pending = none) →
      (tcpTxSendLoop push io fuel k c buf).1.tx.pending = none ∨
        (tcpTxSendLoop push io fuel k c buf).2 = [] ∧
        ∃ m, (tcpTxSendLoop push io fuel k c buf).1.tx.pending = some m ∧
          m.len = parkLen c.txSide.pendLen buf.length push ∧ m.Fits := by
  intro fuel
  induction fuel with
  | zero => intro k c buf _ h0; exact .inl (h0 rfl)
  | succ fuel ih =>
      intro k c buf hfit _
      by_cases hbuf : buf = []
      · rw [tcpTxSendLoop, if_pos hbuf]
        rcases hp : c.tx.pending with _ | m
        · exact .inl rfl
        · refine .inr ⟨hbuf, m, rfl, ?_, hfit m hp⟩
          simp [hbuf, parkLen, TxSide.pendLen, Conn.txSide, hp]
      cases h : txNextMbuf c buf.length (io.alloc k) with
      | none =>
          left
          rw [tcpTxSendLoop, if_neg hbuf, h]
          rw [txNextMbuf] at h
          split at h
          · cases h
          · assumption
      | some r =>
          obtain ⟨c₁, m, n⟩ := r
          rcases tcpTxSendLoop_turn push fuel h hfit hbuf with
            ⟨c', m', hturn, hm', hlen, hfits⟩ | ⟨c', hturn, hnone, hpark⟩
          · rw [hturn]
            exact .inr ⟨rfl, m', hm', hlen, hfits⟩
          · obtain ⟨hfit', hzero⟩ := fits_of_pending_none hnone
            rw [hturn, ← hpark]
            have hrec := ih (k + 1) c' (buf.drop n) hfit' fun _ => hnone
            rwa [hzero, List.length_drop] at hrec

/-- Without an allocation failure the segmenter takes every byte, and what it keeps for later has
the length `parkLen`. -/
theorem tcpTxSendLoop_of_alloc (push : Bool) {io : Io} (halloc : ∀ k, io.alloc k = true) :
    ∀ (fuel k : ℕ) (c : Conn) (buf : List Byte), c.txSide.PendingFits → buf.length ≤ fuel →
      (c.tx.pending ≠ none → buf.length < fuel) →
      (tcpTxSendLoop push io fuel k c buf).2 = [] ∧
        (tcpTxSendLoop push io fuel k c buf).1.txSide.pendLen =
          parkLen c.txSide.pendLen buf.length push := by
  intro fuel
  induction fuel with
  | zero =>
      intro k c buf _ hfuel _
      have hnil : buf = [] := List.length_eq_zero_iff.mp (by omega)
      subst hnil
      exact ⟨rfl, rfl⟩
  | succ fuel ih =>
      intro k c buf hfit hfuel hfull
      by_cases hbuf : buf = []
      · subst hbuf
        exact ⟨rfl, rfl⟩
      cases h : txNextMbuf c buf.length (io.alloc k) with
      | none =>
          rw [txNextMbuf, halloc k] at h
          split at h <;> cases h
      | some r =>
          obtain ⟨c₁, m, n⟩ := r
          rcases tcpTxSendLoop_turn push fuel h hfit hbuf with
            ⟨c', m', hturn, hm', hlen, -⟩ | ⟨c', hturn, hnone, hpark⟩
          · rw [hturn]
            refine ⟨rfl, Eq.trans ?_ hlen⟩
            simp [TxSide.pendLen, Conn.txSide, hm']
          · obtain ⟨hfit', hzero⟩ := fits_of_pending_none hnone
            rw [hturn, ← hpark]
            have hdrop : (buf.drop n).length ≤ fuel := by
              obtain ⟨-, hn, -, -⟩ := len_txNextMbuf h hfit
              rw [List.length_drop]
              by_cases hfree : c.tx.pending = none
              · have hmss : tcpMss = 1460 := rfl
                have := (fits_of_pending_none hfree).2
                omega
              · have := hfull hfree
                omega
            have hrec := ih (k + 1) c' (buf.drop n) hfit' hdrop (absurd hnone)
            rwa [hzero, List.length_drop] at hrec

/-- **The segmenter** takes a part of the bytes and returns how many.  It keeps no
buffer for later, or it took every byte and keeps a buffer of the length `parkLen`
says. -/
theorem tcpTxSend_spec {c c' : Conn} {buf : List Byte} {push : Bool} {io : Io} {ret : ℤ}
    (h : tcpTxSend c buf push io = .ok (c', ret)) (hp : c.txSide.PendingEnds)
    (hfit : c.txSide.PendingFits) :
    ∃ n ≤ buf.length, Sent n c.txSide c'.txSide ∧ (n = 0 ∧ ret ≤ 0 ∨ 0 < n ∧ ret = n) ∧
      c'.txSide.PendingFits ∧ (c'.tx.pending = none ∨
        (n = buf.length ∧ c'.txSide.pendLen = parkLen c.txSide.pendLen n push)) := by
  have key := tcpTxSendLoop_pending push io (buf.length + 1) 0 c buf hfit (by omega)
  obtain ⟨n, hn, hrest, hsent⟩ := tcpTxSendLoop_sent push io (buf.length + 1) 0 c buf hp
  rw [tcpTxSend] at h
  generalize tcpTxSendLoop push io (buf.length + 1) 0 c buf = r at h key hrest hsent
  obtain ⟨c₁, rest⟩ := r
  dsimp only at h key hrest hsent
  split at h
  · cases h
    refine ⟨n, hn, hsent, ?_, ?_⟩
    · rw [hrest, List.length_drop]
      split_ifs with h₁ h₂
      · right; omega
      · left; omega
      · exact .inl ⟨by omega, by decide⟩
    · rw [TxSide.PendingFits, TxSide.pendLen]
      change (∀ m ∈ c'.tx.pending, _) ∧ (_ ∨ n = _ ∧ c'.tx.pending.elim _ _ = _)
      rcases key with hnone | ⟨hnil, m, hm, hlen, hfits⟩
      · simp [hnone]
      · have hall : n = buf.length := by
          rw [hrest, List.drop_eq_nil_iff] at hnil
          omega
        simpa [hm, hall] using ⟨hfits, hlen⟩
  · cases h

end Skyloft
