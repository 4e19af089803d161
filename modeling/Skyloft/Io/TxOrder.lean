import Skyloft.Io.Lrpc

/-!
# The order of transmitted packets

A kthread hands packets to the I/O thread over the channel `txpktq`.  When the channel is full it
keeps them in `txpktq_overflow`, and every later call of `net_tx_raw` tries to drain this list
before it sends its own packet.

`net_tx_raw` runs with preemption disabled, so that a kthread makes one call after the other.  Its
calls of `lrpc_send` are taken step by step, as in `Skyloft.Io.Lrpc`, between those of the I/O
thread.  A packet is the address of its header.

* `TxSys`, `txStep` — a kthread and the I/O thread.
* `TxqInv` — where each packet is.
* `InOrder` — packets enter the channel in the order of the calls.
* `tx_in_order` — this lasts exactly as long as the channel is still full whenever a call sends its
  own packet after a failed drain.
-/

namespace Skyloft

open Run Ring

/-! ## The system -/

/-- `TXPKT_NET_XMIT` -/
def txpktNetXmit : BitVec 64 := 0

/-- The message for a packet. -/
def xmit (m : BitVec 64) : LrpcMsg := { cmd := txpktNetXmit, payload := m }

/-- Where the kthread is in `net_tx_raw`. -/
inductive TxPc
  | idle
  /-- in `lrpc_send` for the head of the overflow list -/
  | drain (m : BitVec 64)
  /-- in `lrpc_send` for the packet of the call -/
  | direct (m : BitVec 64)
  deriving DecidableEq

/-- The packet that the call was made for. -/
def TxPc.inHand : TxPc → List (BitVec 64)
  | .idle => []
  | .drain m | .direct m => [m]

/-- A kthread and its channel. -/
structure TxSys where
  chan : Lrpc
  overflow : List (BitVec 64)
  pc : TxPc
  /-- the packets that `net_tx_raw` was called with -/
  calls : List (BitVec 64)

inductive TxEvent
  | call (m : BitVec 64)
  /-- the kthread accesses shared memory -/
  | kthread
  /-- the I/O thread does, in `lrpc_recv` -/
  | iothread

/-- What `lrpc_send` returns if it returns with its next access. -/
def Lrpc.returns (s : Lrpc) : Option Bool :=
  match s.sender with
  | .idle | .storePayload _ _ _ => none
  | .reload _ => if s.Refuses then some false else none
  | .storeCmd _ _ _ => some true

namespace TxSys

/-- `lrpc_send` is called. -/
def send (s : TxSys) (pc : TxPc) (m : BitVec 64) : Except LrpcFault TxSys :=
  match s.chan.startSend (xmit m) with
  | .error f => .error f
  | .ok chan => .ok { s with chan, pc }

/-- The loop of `net_tx_drain_overflow`, and what follows it in `net_tx_raw` for the packet `m`. -/
def drain (s : TxSys) (m : BitVec 64) : Except LrpcFault TxSys :=
  match s.overflow with
  | [] => s.send (.direct m) m
  | p :: _ => s.send (.drain m) p

/-- The kthread goes on. -/
def kthreadStep (s : TxSys) : Except LrpcFault TxSys :=
  match s.pc with
  | .idle => .ok s
  | .drain m =>
      match s.chan.returns with
      | none => .ok { s with chan := s.chan.senderStep }
      | some true => { s with chan := s.chan.senderStep, overflow := s.overflow.tail }.drain m
      | some false => { s with chan := s.chan.senderStep }.send (.direct m) m
  | .direct m =>
      match s.chan.returns with
      | none => .ok { s with chan := s.chan.senderStep }
      | some true => .ok { s with chan := s.chan.senderStep, pc := .idle }
      | some false =>
          .ok { s with chan := s.chan.senderStep, overflow := s.overflow ++ [m], pc := .idle }

end TxSys

/-- One event. -/
def txStep (s : TxSys) : TxEvent → Except LrpcFault TxSys
  | .call m => if s.pc = .idle then { s with calls := s.calls ++ [m] }.drain m else .ok s
  | .kthread => s.kthreadStep
  | .iothread => .ok { s with chan := s.chan.receiverStep }

/-! ## The invariant -/

/-- The message that `lrpc_send` was called for. -/
def SenderPc.msg : SenderPc → Option LrpcMsg
  | .idle => none
  | .reload m | .storePayload _ _ m | .storeCmd _ _ m => some m

namespace TxSys

/-- The call of `lrpc_send` is the one that `net_tx_raw` makes. -/
def Sends (s : TxSys) : Prop :=
  match s.pc with
  | .idle => s.chan.sender = .idle
  | .drain _ => ∃ p rest, s.overflow = p :: rest ∧ s.chan.sender.msg = some (xmit p)
  | .direct m => s.chan.sender.msg = some (xmit m)

/-- Packets come to the I/O thread in the order of the calls, and none enters the channel while an
earlier one is in the overflow list. -/
structure InOrder (s : TxSys) : Prop where
  calls : s.chan.sent.map LrpcMsg.payload ++ s.overflow ++ s.pc.inHand = s.calls
  received : s.chan.received <+: s.chan.sent
  enters : ∀ m, s.pc = .direct m → s.overflow ≠ [] → s.chan.storesTo = none

end TxSys

structure TxqInv (k : ℕ) (s : TxSys) : Prop where
  chan : LrpcInv k s.chan
  sends : s.Sends
  order : s.InOrder

namespace Lrpc

variable {k : ℕ} {s : Lrpc} {m : LrpcMsg}

/-- A call of `lrpc_send` begins. -/
theorem startSend_spec (h : LrpcInv k s) (hidle : s.sender = .idle) (hm : m.Plain) :
    ∃ s', s.startSend m = .ok s' ∧ LrpcInv k s' ∧ s'.sender.msg = some m ∧ s'.sent = s.sent := by
  obtain ⟨s', hs', hi⟩ := startSend_inv h hidle hm
  refine ⟨s', hs', hi, ?_⟩
  rw [startSend, if_neg (fun hne => hne hm)] at hs'
  split at hs'
  · cases hs'
    exact ⟨rfl, rfl⟩
  · cases hs'
    exact ⟨rfl, rfl⟩

/-- `lrpc_send` goes on. -/
theorem senderStep_none (h : s.returns = none) :
    s.senderStep.sender.msg = s.sender.msg ∧ s.senderStep.sent = s.sent := by
  cases hp : s.sender with
  | idle => simp [senderStep, hp]
  | reload m =>
      have hfree : ¬ s.Refuses := by
        intro hr
        simp [returns, hp, hr] at h
      simp [senderStep, hp, hfree, claim, SenderPc.msg]
  | storePayload dst cmd m => simp [senderStep, hp, SenderPc.msg]
  | storeCmd dst cmd m => simp [returns, hp] at h

/-- `lrpc_send` returns true. -/
theorem senderStep_true (h : s.returns = some true) (hmsg : s.sender.msg = some m) :
    s.senderStep.sender = .idle ∧ s.senderStep.sent = s.sent ++ [m] ∧ s.storesTo ≠ none := by
  cases hp : s.sender with
  | idle => simp [returns, hp] at h
  | reload m' => simp [returns, hp] at h
  | storePayload dst cmd m' => simp [returns, hp] at h
  | storeCmd dst cmd m' =>
      have heq : m' = m := by simpa [hp, SenderPc.msg] using hmsg
      simp [senderStep, hp, storesTo, heq]

/-- `lrpc_send` returns false: it will find the table full again unless it reloads the head. -/
theorem senderStep_false (h : s.returns = some false) :
    s.senderStep.sender = .idle ∧ s.senderStep.sent = s.sent ∧
      s.senderStep.outTail - s.senderStep.outHead = s.senderStep.size := by
  cases hp : s.sender with
  | idle => simp [returns, hp] at h
  | reload m =>
      have hfull : s.Refuses := by
        by_contra hr
        simp [returns, hp, hr] at h
      have hs : s.senderStep = { s with outHead := s.headWb, sender := .idle } := by
        simp [senderStep, hp, hfull]
      rw [hs]
      exact ⟨rfl, rfl, hfull⟩
  | storePayload dst cmd m => simp [returns, hp] at h
  | storeCmd dst cmd m => simp [returns, hp] at h

theorem startSend_full (hfull : s.outTail - s.outHead = s.size) {s' : Lrpc}
    (hs' : s.startSend m = .ok s') : s'.storesTo = none := by
  unfold startSend at hs'
  split at hs'
  · cases hs'
  · rw [if_pos (by rw [hfull]; exact BitVec.le_refl _)] at hs'
    cases hs'
    rfl

theorem receiverStep_sender (s : Lrpc) :
    s.receiverStep.sender = s.sender ∧ s.receiverStep.sent = s.sent := by
  unfold receiverStep
  split
  · split
    · exact ⟨rfl, rfl⟩
    · exact ⟨rfl, rfl⟩
  · exact ⟨rfl, rfl⟩
  · exact ⟨rfl, rfl⟩

end Lrpc

theorem xmit_plain (m : BitVec 64) : (xmit m).Plain := by
  simp [LrpcMsg.Plain, xmit, txpktNetXmit]

namespace TxSys

variable {k : ℕ} {s : TxSys}

theorem send_spec (h : LrpcInv k s.chan) (hidle : s.chan.sender = .idle) (pc : TxPc) (m : BitVec 64) :
    ∃ chan, s.chan.startSend (xmit m) = .ok chan ∧ s.send pc m = .ok { s with chan, pc } ∧
      LrpcInv k chan ∧ chan.sender.msg = some (xmit m) ∧ chan.sent = s.chan.sent := by
  obtain ⟨chan, hs', hi, hmsg, hsent⟩ := Lrpc.startSend_spec h hidle (xmit_plain m)
  exact ⟨chan, hs', by simp only [send, hs'], hi, hmsg, hsent⟩

theorem drain_nil (h : s.overflow = []) (m : BitVec 64) : s.drain m = s.send (.direct m) m := by
  simp only [drain, h]

theorem drain_cons {p : BitVec 64} {rest : List (BitVec 64)} (h : s.overflow = p :: rest)
    (m : BitVec 64) : s.drain m = s.send (.drain m) p := by
  simp only [drain, h]

/-- `net_tx_raw` between two calls of `lrpc_send`. -/
theorem drain_inv (h : LrpcInv k s.chan) (hidle : s.chan.sender = .idle) (m : BitVec 64)
    (hcalls : s.chan.sent.map LrpcMsg.payload ++ s.overflow ++ [m] = s.calls) :
    ∃ s', s.drain m = .ok s' ∧ TxqInv k s' := by
  cases hover : s.overflow with
  | nil =>
      obtain ⟨chan, -, hs', hi, hmsg, hsent⟩ := send_spec h hidle (.direct m) m
      refine ⟨{ s with chan, pc := .direct m }, (drain_nil hover m).trans hs', hi, hmsg, ?_, hi.order,
        ?_⟩
      · rw [← hcalls, ← hsent]
        rfl
      · intro m' _ hne
        exact absurd hover hne
  | cons p rest =>
      obtain ⟨chan, -, hs', hi, hmsg, hsent⟩ := send_spec h hidle (.drain m) p
      refine ⟨{ s with chan, pc := .drain m }, (drain_cons hover m).trans hs', hi,
        ⟨p, rest, hover, hmsg⟩, ?_, hi.order, ?_⟩
      · rw [← hcalls, ← hsent]
        rfl
      · intro m' hpc
        cases hpc

theorem drain_step (h : TxqInv k s) {m : BitVec 64} (hpc : s.pc = .drain m) :
    ∃ s', s.kthreadStep = .ok s' ∧ TxqInv k s' := by
  have hi := Lrpc.senderStep_inv h.chan
  have hcalls := h.order.calls
  obtain ⟨p, rest, hover, hmsg⟩ : ∃ p rest, s.overflow = p :: rest ∧
      s.chan.sender.msg = some (xmit p) := by simpa [Sends, hpc] using h.sends
  rw [hpc] at hcalls
  cases hret : s.chan.returns with
  | none =>
      obtain ⟨hmsg', hsent⟩ := Lrpc.senderStep_none hret
      refine ⟨{ s with chan := s.chan.senderStep, pc := .drain m },
        by simp only [kthreadStep, hpc, hret], hi, ⟨p, rest, hover, hmsg'.trans hmsg⟩, ?_, hi.order, ?_⟩
      · simpa only [hsent] using hcalls
      · intro m' hpc'
        cases hpc'
  | some r =>
      cases r with
      | true =>
          obtain ⟨hidle, hsent, -⟩ := Lrpc.senderStep_true hret hmsg
          obtain ⟨s', hs', hinv⟩ := drain_inv
            (s := { s with chan := s.chan.senderStep, overflow := s.overflow.tail }) hi hidle m (by
              rw [hover] at hcalls
              simpa [hsent, hover, xmit, TxPc.inHand] using hcalls)
          exact ⟨s', by simp only [kthreadStep, hpc, hret] at hs' ⊢; exact hs', hinv⟩
      | false =>
          obtain ⟨hidle, hsent, hfull⟩ := Lrpc.senderStep_false hret
          obtain ⟨chan, hstart, hs', hi', hmsg', hsent'⟩ := send_spec
            (s := { s with chan := s.chan.senderStep }) hi hidle (.direct m) m
          refine ⟨{ s with chan, pc := .direct m },
            by simp only [kthreadStep, hpc, hret] at hs' ⊢; exact hs', hi', hmsg', ?_, hi'.order, ?_⟩
          · simpa [hsent', hsent, TxPc.inHand] using hcalls
          · intro m' _ _
            exact Lrpc.startSend_full hfull hstart

/-- The packet of the call looks for space while there are earlier ones. -/
def pushing (s : TxSys) : Bool :=
  match s.pc, s.chan.sender with
  | .direct _, .reload _ => s.overflow ≠ []
  | _, _ => false

theorem pushing_of_enters (h : TxqInv k s) {m : BitVec 64} (hpc : s.pc = .direct m)
    (hover : s.overflow ≠ []) : s.pushing = true := by
  have hstores := h.order.enters m hpc hover
  have hmsg : s.chan.sender.msg = some (xmit m) := by simpa [Sends, hpc] using h.sends
  cases hp : s.chan.sender with
  | idle => simp [hp, SenderPc.msg] at hmsg
  | reload m' => simpa [pushing, hpc, hp] using hover
  | storePayload dst cmd m' => simp [Lrpc.storesTo, hp] at hstores
  | storeCmd dst cmd m' => simp [Lrpc.storesTo, hp] at hstores

theorem direct_step (h : TxqInv k s) {m : BitVec 64} (hpc : s.pc = .direct m)
    (hfull : s.pushing = true → s.chan.Refuses) : ∃ s', s.kthreadStep = .ok s' ∧ TxqInv k s' := by
  have hi := Lrpc.senderStep_inv h.chan
  have hcalls := h.order.calls
  have hmsg : s.chan.sender.msg = some (xmit m) := by simpa [Sends, hpc] using h.sends
  rw [hpc] at hcalls
  cases hret : s.chan.returns with
  | none =>
      obtain ⟨hmsg', hsent⟩ := Lrpc.senderStep_none hret
      refine ⟨{ s with chan := s.chan.senderStep, pc := .direct m },
        by simp only [kthreadStep, hpc, hret], hi, hmsg'.trans hmsg, ?_, hi.order, ?_⟩
      · simpa only [hsent] using hcalls
      · intro m' _ hover
        -- with earlier packets left, `lrpc_send` returns false here
        have hpush := pushing_of_enters h hpc hover
        have hrefuse := hfull hpush
        exfalso
        cases hp : s.chan.sender <;> simp_all [pushing, Lrpc.returns]
  | some r =>
      cases r with
      | true =>
          obtain ⟨hidle, hsent, hstores⟩ := Lrpc.senderStep_true hret hmsg
          have hover : s.overflow = [] := by
            by_contra hne
            exact hstores (h.order.enters m hpc hne)
          refine ⟨{ s with chan := s.chan.senderStep, pc := .idle },
            by simp only [kthreadStep, hpc, hret], hi, hidle, ?_, hi.order, ?_⟩
          · simpa [hsent, hover, xmit, TxPc.inHand] using hcalls
          · intro m' hpc'
            cases hpc'
      | false =>
          obtain ⟨hidle, hsent, -⟩ := Lrpc.senderStep_false hret
          refine ⟨{ s with chan := s.chan.senderStep, overflow := s.overflow ++ [m], pc := .idle },
            by simp only [kthreadStep, hpc, hret], hi, hidle, ?_, hi.order, ?_⟩
          · simpa [hsent, TxPc.inHand] using hcalls
          · intro m' hpc'
            cases hpc'

theorem iothread_inv (h : TxqInv k s) : TxqInv k { s with chan := s.chan.receiverStep } := by
  obtain ⟨hsender, hsent⟩ := Lrpc.receiverStep_sender s.chan
  have hi := Lrpc.receiverStep_inv h.chan
  refine ⟨hi, ?_, ?_, hi.order, ?_⟩
  · simpa only [Sends, hsender] using h.sends
  · simpa only [hsent] using h.order.calls
  · intro m hpc hover
    simpa only [Lrpc.storesTo, hsender] using h.order.enters m hpc hover

/-! ## Runs -/

/-- The channel is full whenever a packet looks for space while there are earlier ones in the
overflow list. -/
def StillFull (s : TxSys) : TxEvent → Prop
  | .kthread => s.pushing = true → s.chan.Refuses
  | .call _ | .iothread => True

instance (s : TxSys) : (e : TxEvent) → Decidable (s.StillFull e)
  | .kthread => inferInstanceAs (Decidable (s.pushing = true → s.chan.Refuses))
  | .call _ | .iothread => inferInstanceAs (Decidable True)

theorem txStep_inv (h : TxqInv k s) {e : TxEvent} (he : s.StillFull e) :
    ∃ s', txStep s e = .ok s' ∧ TxqInv k s' := by
  cases e with
  | call m =>
      by_cases hpc : s.pc = .idle
      · have hidle : s.chan.sender = .idle := by simpa [Sends, hpc] using h.sends
        have hcalls := h.order.calls
        rw [hpc, TxPc.inHand, List.append_nil] at hcalls
        obtain ⟨s', hs', hi⟩ := drain_inv (s := { s with calls := s.calls ++ [m] }) h.chan hidle m
          (by rw [← hcalls])
        exact ⟨s', by rw [txStep, if_pos hpc, hs'], hi⟩
      · exact ⟨s, by rw [txStep, if_neg hpc], h⟩
  | kthread =>
      cases hpc : s.pc with
      | idle => exact ⟨s, by simp only [txStep, kthreadStep, hpc], h⟩
      | drain m => exact drain_step h hpc
      | direct m => exact direct_step h hpc he
  | iothread => exact ⟨_, rfl, iothread_inv h⟩

/-- If space has appeared, the packet overtakes the earlier ones. -/
theorem overtakes {e : TxEvent} (he : ¬ s.StillFull e) :
    ∃ s', txStep s e = .ok s' ∧ ¬ s'.InOrder := by
  cases e with
  | call m => exact absurd trivial he
  | iothread => exact absurd trivial he
  | kthread =>
      obtain ⟨hpush, hfree⟩ : s.pushing = true ∧ ¬ s.chan.Refuses := by
        simpa [StillFull] using he
      cases hpc : s.pc with
      | idle => simp [pushing, hpc] at hpush
      | drain m => simp [pushing, hpc] at hpush
      | direct m =>
          cases hp : s.chan.sender with
          | idle => simp [pushing, hpc, hp] at hpush
          | storePayload dst cmd m' => simp [pushing, hpc, hp] at hpush
          | storeCmd dst cmd m' => simp [pushing, hpc, hp] at hpush
          | reload m' =>
              have hover : s.overflow ≠ [] := by simpa [pushing, hpc, hp] using hpush
              have hret : s.chan.returns = none := by simp [Lrpc.returns, hp, hfree]
              refine ⟨{ s with chan := s.chan.senderStep, pc := .direct m },
                by simp only [txStep, kthreadStep, hpc, hret], ?_⟩
              intro horder
              have hstores := horder.enters m rfl hover
              simp [Lrpc.storesTo, Lrpc.senderStep, hp, hfree, Lrpc.claim] at hstores

/-- A kthread whose channel is set up. -/
def start (chan : Lrpc) : TxSys where
  chan := chan
  overflow := []
  pc := .idle
  calls := []

/-- Packets come to the I/O thread in the order of the calls exactly if the channel is still full
whenever `net_tx_raw` sends its own packet after a failed drain. -/
theorem tx_in_order {tbl : ℕ → LrpcMsg} {size : BitVec 32} {chan : Lrpc}
    (hinit : lrpcInit tbl size = some chan) (hzero : ∀ i < size.toNat, (tbl i).cmd = 0)
    (es : List TxEvent) :
    Throughout txStep InOrder (start chan) es ↔ Along txStep StillFull (start chan) es := by
  obtain ⟨k, hchan, -⟩ := lrpcInit_inv hinit hzero
  have hidle : chan.sender = .idle ∧ chan.sent = [] := by
    unfold lrpcInit at hinit
    split at hinit
    · cases hinit
      exact ⟨rfl, rfl⟩
    · cases hinit
  have hstart : TxqInv k (start chan) := by
    refine ⟨hchan, hidle.1, ?_, hchan.order, ?_⟩
    · simp [start, hidle.2, TxPc.inHand]
    · intro m hpc
      cases hpc
  apply throughout_iff_along (I := TxqInv k) _ _ hstart hstart.order (Along.trivial es _)
  · intro s e s' h _ _ he hs'
    obtain ⟨u, hu, hi⟩ := txStep_inv h he
    cases hu.symm.trans hs'
    exact ⟨hi, hi.order⟩
  · intro s e _ _ _ he
    exact overtakes he

/-- Four packets on a channel of two slots: the third is refused, and the call for the fourth fails
to drain it.  The I/O thread receives a packet before or after the fourth one is refused too. -/
def txRun (late : Bool) : List TxEvent :=
  [.call 11, .kthread, .kthread, .call 12, .kthread, .kthread, .call 13, .kthread, .call 14, .kthread] ++
    (if late then [.kthread, .iothread, .iothread, .iothread]
      else [.iothread, .iothread, .iothread, .kthread, .kthread, .kthread])

theorem tx_in_order_late :
    lrpcInit (fun _ => ⟨0, 9⟩) 2 = some Lrpc.pair ∧
    Throughout txStep InOrder (start Lrpc.pair) (txRun true) :=
  have hinit : lrpcInit (fun _ => ⟨0, 9⟩) 2 = some Lrpc.pair := rfl
  ⟨hinit, (tx_in_order hinit (fun _ _ => rfl) _).mpr (by decide)⟩

/-- The fourth packet is sent while the third one is in the overflow list. -/
theorem fourth_before_third :
    lrpcInit (fun _ => ⟨0, 9⟩) 2 = some Lrpc.pair ∧
    ∃ s, exec txStep (start Lrpc.pair) (txRun false) = .ok s ∧ s.calls = [11, 12, 13, 14] ∧
      s.chan.sent.map LrpcMsg.payload = [11, 12, 14] ∧ s.overflow = [13] ∧ ¬ s.InOrder := by
  have hsent : (final txStep (start Lrpc.pair) (txRun false)).chan.sent.map LrpcMsg.payload =
      [11, 12, 14] := by
    decide
  have hover : (final txStep (start Lrpc.pair) (txRun false)).overflow = [13] := by decide
  have hcalls : (final txStep (start Lrpc.pair) (txRun false)).calls = [11, 12, 13, 14] := by
    decide
  refine ⟨rfl, _, exec_final (by decide), hcalls, hsent, hover, ?_⟩
  intro horder
  have heq := horder.calls
  rw [hsent, hover, hcalls] at heq
  simp at heq

end TxSys

end Skyloft
