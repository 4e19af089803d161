import Skyloft.Lib.Ring
import Skyloft.Lib.Run

/-!
# Shared memory channels

A channel is a table of messages with one sender and one receiver, on different CPUs.  The sender
has a copy of the receiver's head, which it reloads when the table looks full; the receiver does not
read the tail at all, but finds a message by the parity bit in its command, which changes with every
lap.  The counters have 32 bits and wrap.

An event is one access to memory that both share, with the work of its party up to the next one.
`sent` and `received` are the messages whose sending or receiving has ended.

* `Lrpc`, `lrpcInit`, `lrpcStep` — the channel, and the two functions step by step.
* `LrpcInv` — where each message is.
* `Lrpc.progress` — how far the receiver has come, in steps.
* `lrpc_exact` — messages come exactly once, unmodified and in order, for any number of laps.
-/

namespace Skyloft

open Run Ring

/-! ## The channel -/

/-- `struct lrpc_msg` -/
structure LrpcMsg where
  cmd : BitVec 64
  payload : BitVec 64
  deriving DecidableEq

/-- `LRPC_DONE_PARITY` -/
def doneParity : BitVec 64 := 1#64 <<< 63

/-- `LRPC_CMD_MASK` -/
def cmdMask : BitVec 64 := ~~~doneParity

/-- Where the sender is in `lrpc_send`. -/
inductive SenderPc
  | idle
  /-- the copy of the head says that the table is full -/
  | reload (m : LrpcMsg)
  /-- the slot and the command with its parity bit are computed, `tail` is advanced -/
  | storePayload (dst : ℕ) (cmd : BitVec 64) (m : LrpcMsg)
  | storeCmd (dst : ℕ) (cmd : BitVec 64) (m : LrpcMsg)
  deriving DecidableEq

/-- Where the receiver is in `lrpc_recv`. -/
inductive ReceiverPc
  | idle
  /-- the command has the right parity, `head` is advanced -/
  | loadPayload (src : ℕ) (cmd : BitVec 64)
  | storeHead (m : LrpcMsg)
  deriving DecidableEq

/-- `struct lrpc_chan` with the two parties. -/
structure Lrpc where
  tbl : ℕ → LrpcMsg
  size : BitVec 32
  mask : BitVec 32
  outHead : BitVec 32
  outTail : BitVec 32
  inHead : BitVec 32
  headWb : BitVec 32
  sender : SenderPc
  receiver : ReceiverPc
  sent : List LrpcMsg
  received : List LrpcMsg

/-- The assertion in `lrpc_send`. -/
inductive LrpcFault
  | parity
  deriving DecidableEq

inductive LrpcEvent
  /-- a call of `lrpc_send`, up to its first access to shared memory -/
  | send (m : LrpcMsg)
  | sender
  /-- the receiver, which calls `lrpc_recv` again and again -/
  | receiver

/-- `is_power_of_two` -/
def isPowerOfTwo (x : BitVec 32) : Bool := x ≠ 0 ∧ x &&& (x - 1) = 0

/-- `lrpc_init` -/
def lrpcInit (tbl : ℕ → LrpcMsg) (size : BitVec 32) : Option Lrpc :=
  if isPowerOfTwo size then
    some {
      tbl, size
      mask := size - 1
      outHead := 0
      outTail := 0
      inHead := 0
      headWb := 0
      sender := .idle
      receiver := .idle
      sent := []
      received := [] }
  else none

namespace Lrpc

/-- The parity bit of a message, by its counter. -/
def parity (s : Lrpc) (counter : BitVec 32) : BitVec 64 :=
  if counter &&& s.size ≠ 0 then 0 else doneParity

/-- The slot is free: `lrpc_send` up to its first store. -/
def claim (s : Lrpc) (m : LrpcMsg) : Lrpc :=
  { s with
    sender := .storePayload (s.outTail &&& s.mask).toNat (m.cmd ||| s.parity s.outTail) m
    outTail := s.outTail + 1 }

def startSend (s : Lrpc) (m : LrpcMsg) : Except LrpcFault Lrpc :=
  if m.cmd &&& doneParity ≠ 0 then .error .parity
  else if s.outTail - s.outHead ≥ s.size then .ok { s with sender := .reload m }
  else .ok (s.claim m)

/-- `lrpc_send` returns false: it finds the table full when it reloads the head. -/
def Refuses (s : Lrpc) : Prop := s.outTail - s.headWb = s.size

instance (s : Lrpc) : Decidable s.Refuses := inferInstanceAs (Decidable (_ = _))

/-- The next access to shared memory of `lrpc_send`. -/
def senderStep (s : Lrpc) : Lrpc :=
  match s.sender with
  | .idle => s
  | .reload m =>
      if s.Refuses then { s with outHead := s.headWb, sender := .idle }
      else { s with outHead := s.headWb }.claim m
  | .storePayload dst cmd m =>
      { s with
        tbl := Function.update s.tbl dst { s.tbl dst with payload := m.payload }
        sender := .storeCmd dst cmd m }
  | .storeCmd dst cmd m =>
      { s with
        tbl := Function.update s.tbl dst { s.tbl dst with cmd }
        sender := .idle
        sent := s.sent ++ [m] }

/-- The slot that the receiver looks at. -/
def src (s : Lrpc) : ℕ := (s.inHead &&& s.mask).toNat

/-- `lrpc_empty` -/
def empty (s : Lrpc) : Bool := (s.tbl s.src).cmd &&& doneParity ≠ s.parity s.inHead

/-- The next access to shared memory of `lrpc_recv`. -/
def receiverStep (s : Lrpc) : Lrpc :=
  match s.receiver with
  | .idle =>
      if s.empty then s
      else { s with
        receiver := .loadPayload s.src (s.tbl s.src).cmd
        inHead := s.inHead + 1 }
  | .loadPayload src cmd =>
      { s with receiver := .storeHead { cmd := cmd &&& cmdMask, payload := (s.tbl src).payload } }
  | .storeHead m =>
      { s with headWb := s.inHead, receiver := .idle, received := s.received ++ [m] }

end Lrpc

/-- One event. -/
def lrpcStep (s : Lrpc) : LrpcEvent → Except LrpcFault Lrpc
  | .send m => if s.sender = .idle then s.startSend m else .ok s
  | .sender => .ok s.senderStep
  | .receiver => .ok s.receiverStep

/-! ## The parity bit -/

/-- The parity bit, set or clear. -/
def parityBit (b : Bool) : BitVec 64 := if b then doneParity else 0

/-- The message as it stands in the table. -/
def LrpcMsg.tagged (m : LrpcMsg) (b : Bool) : LrpcMsg := { m with cmd := m.cmd ||| parityBit b }

/-- The command leaves the parity bit free. -/
def LrpcMsg.Plain (m : LrpcMsg) : Prop := m.cmd &&& doneParity = 0

instance (m : LrpcMsg) : Decidable m.Plain := inferInstanceAs (Decidable (_ = _))

section

variable {m : LrpcMsg} {b : Bool}

theorem getElem_doneParity {i : ℕ} (hi : i < 64) : doneParity[i] = decide (i = 63) := by
  simp only [doneParity, BitVec.getElem_shiftLeft, BitVec.getElem_one]
  grind

theorem and_doneParity (c : BitVec 64) : c &&& doneParity = parityBit (c.getLsbD 63) := by
  ext i hi
  by_cases h63 : i = 63
  · subst h63
    cases hc : c.getLsbD 63 <;> simp_all [parityBit, getElem_doneParity]
  · cases hc : c.getLsbD 63 <;> simp [parityBit, getElem_doneParity, h63]

theorem parityBit_inj {b c : Bool} : parityBit b = parityBit c ↔ b = c := by
  revert b c
  decide

theorem LrpcMsg.Plain.getLsbD (h : m.Plain) : m.cmd.getLsbD 63 = false := by
  rw [LrpcMsg.Plain, and_doneParity] at h
  exact parityBit_inj.mp h

@[simp] theorem getLsbD_tagged (h : m.Plain) (b : Bool) : (m.tagged b).cmd.getLsbD 63 = b := by
  simp only [LrpcMsg.tagged, BitVec.getLsbD_or, h.getLsbD, Bool.false_or]
  revert b
  decide

@[simp] theorem tagged_and_cmdMask (h : m.Plain) (b : Bool) : (m.tagged b).cmd &&& cmdMask = m.cmd := by
  ext i hi
  by_cases h63 : i = 63
  · subst h63
    have hm := h.getLsbD
    simp_all [cmdMask, getElem_doneParity]
  · cases b <;> simp [LrpcMsg.tagged, cmdMask, parityBit, getElem_doneParity, h63]

end

/-! ## The invariant -/

/-- The messages that the sender has claimed a slot for and not sent. -/
def SenderPc.claimed : SenderPc → ℕ
  | .idle | .reload _ => 0
  | .storePayload _ _ _ | .storeCmd _ _ _ => 1

/-- The messages that the receiver has seen and not received. -/
def ReceiverPc.taken : ReceiverPc → ℕ
  | .idle => 0
  | .loadPayload _ _ | .storeHead _ => 1

namespace Lrpc

/-- The number of the next message to be sent, and to be received. -/
def nextSent (s : Lrpc) : ℕ := s.sent.length

def nextReceived (s : Lrpc) : ℕ := s.received.length

/-- The parity bits in the table. -/
def tags (s : Lrpc) (i : ℕ) : Bool := (s.tbl i).cmd.getLsbD 63

/-- What the sender carries from one access to the next. -/
def SenderOk (k : ℕ) (s : Lrpc) : Prop :=
  match s.sender with
  | .idle => True
  | .reload m => m.Plain
  | .storePayload dst cmd m =>
      m.Plain ∧ dst = s.nextSent % 2 ^ k ∧ cmd = (m.tagged (lapTag (2 ^ k) s.nextSent)).cmd
  | .storeCmd dst cmd m =>
      m.Plain ∧ dst = s.nextSent % 2 ^ k ∧ cmd = (m.tagged (lapTag (2 ^ k) s.nextSent)).cmd ∧
        (s.tbl dst).payload = m.payload

/-- What the receiver carries. -/
def ReceiverOk (k : ℕ) (s : Lrpc) : Prop :=
  match s.receiver with
  | .idle => True
  | .loadPayload src cmd =>
      src = s.nextReceived % 2 ^ k ∧ ∃ m, s.sent[s.nextReceived]? = some m ∧
        cmd = (m.tagged (lapTag (2 ^ k) s.nextReceived)).cmd
  | .storeHead m => s.sent[s.nextReceived]? = some m

end Lrpc

/-- The table has `2 ^ k` slots; each message that is not received is in its slot. -/
structure LrpcInv (k : ℕ) (s : Lrpc) : Prop where
  k_lt : k < 32
  size : s.size = BitVec.ofNat 32 (2 ^ k)
  mask : s.mask = s.size - 1
  outTail : s.outTail = BitVec.ofNat 32 (s.nextSent + s.sender.claimed)
  headWb : s.headWb = BitVec.ofNat 32 s.nextReceived
  inHead : s.inHead = BitVec.ofNat 32 (s.nextReceived + s.receiver.taken)
  /-- the copy of the head is behind the head, and a slot is claimed only if it is free -/
  outHead : ∃ d, s.outHead = BitVec.ofNat 32 d ∧ d ≤ s.nextReceived ∧
    s.nextSent + s.sender.claimed ≤ d + 2 ^ k
  order : s.received <+: s.sent
  plain : ∀ m ∈ s.sent, m.Plain
  tags : Tagged (2 ^ k) s.tags s.nextReceived s.nextSent
  kept : ∀ j m, s.nextReceived ≤ j → s.sent[j]? = some m →
    s.tbl (j % 2 ^ k) = m.tagged (lapTag (2 ^ k) j)
  sender : s.SenderOk k
  receiver : s.ReceiverOk k

theorem exists_two_pow {x : BitVec 32} (h : isPowerOfTwo x = true) : ∃ k < 32, x.toNat = 2 ^ k := by
  obtain ⟨hne, hand⟩ : x ≠ 0#32 ∧ x &&& (x - 1#32) = 0#32 := by simpa [isPowerOfTwo] using h
  have hpos : x.toNat ≠ 0 := fun h0 => hne (BitVec.eq_of_toNat_eq h0)
  have hsub : (x - 1#32).toNat = x.toNat - 1 := by
    rw [BitVec.toNat_sub_of_le]
    · rfl
    · rw [BitVec.le_def]
      change 1 ≤ x.toNat
      omega
  have hzero : x.toNat &&& (x.toNat - 1) = 0 := by
    rw [← hsub, ← BitVec.toNat_and, hand]
    rfl
  obtain ⟨k, hk⟩ := Nat.ne_zero_and_sub_one_eq_zero_iff_isPowerOfTwo.mp ⟨hpos, hzero⟩
  refine ⟨k, ?_, hk⟩
  have hlt := x.isLt
  rw [hk] at hlt
  exact (Nat.pow_lt_pow_iff_right (by decide)).mp hlt

/-- `lrpc_init` with a zeroed table. -/
theorem lrpcInit_inv {tbl : ℕ → LrpcMsg} {size : BitVec 32} {s : Lrpc} (h : lrpcInit tbl size = some s)
    (hzero : ∀ i < size.toNat, (tbl i).cmd = 0) : ∃ k, LrpcInv k s ∧ 2 ^ k = size.toNat := by
  unfold lrpcInit at h
  split at h
  · rename_i hpow
    cases h
    obtain ⟨k, hk, hsize⟩ := exists_two_pow hpow
    refine ⟨k, ?_, hsize.symm⟩
    constructor
    · exact hk
    · apply BitVec.eq_of_toNat_eq
      rw [BitVec.toNat_ofNat, hsize, Nat.mod_eq_of_lt (Nat.pow_lt_pow_right (by decide) hk)]
    · rfl
    · rfl
    · rfl
    · rfl
    · exact ⟨0, rfl, Nat.le_refl 0, Nat.zero_le _⟩
    · exact List.prefix_refl _
    · simp
    · apply tagged_zero
      intro i hi
      simp [Lrpc.tags, hzero i (hsize ▸ hi)]
    · simp
    · exact trivial
    · exact trivial
  · cases h

/-- A prefix and the entry that comes next. -/
theorem prefix_snoc {α : Type} {xs ys : List α} {a : α} (h : xs <+: ys) (ha : ys[xs.length]? = some a) :
    xs ++ [a] <+: ys := by
  obtain ⟨zs, rfl⟩ := h
  cases zs with
  | nil => simp at ha
  | cons z zs =>
      have hz : z = a := by simpa using ha
      rw [hz]
      exact ⟨zs, by simp⟩

namespace Lrpc

variable {k : ℕ} {s : Lrpc} {m : LrpcMsg}

/-! What the counters say. -/

theorem parity_eq (h : LrpcInv k s) (n : ℕ) :
    s.parity (BitVec.ofNat 32 n) = parityBit (lapTag (2 ^ k) n) := by
  have hlap := lap_ofNat h.k_lt n
  rw [parity, h.size]
  by_cases htag : lapTag (2 ^ k) n = true
  · rw [if_neg (by simpa using hlap.mpr htag), htag]
    rfl
  · rw [if_pos (by simpa using fun hz => htag (hlap.mp hz)), Bool.eq_false_iff.mpr htag]
    rfl

theorem slot_eq (h : LrpcInv k s) (n : ℕ) : (BitVec.ofNat 32 n &&& s.mask).toNat = n % 2 ^ k := by
  rw [h.mask, h.size]
  exact slot_ofNat h.k_lt n

theorem toNat_size (h : LrpcInv k s) : s.size.toNat = 2 ^ k := by
  rw [h.size, BitVec.toNat_ofNat, Nat.mod_eq_of_lt (Nat.pow_lt_pow_right (by decide) h.k_lt)]

theorem two_pow_lt (h : LrpcInv k s) : 2 ^ k < 2 ^ 32 := Nat.pow_lt_pow_right (by decide) h.k_lt

theorem received_le (h : LrpcInv k s) : s.nextReceived ≤ s.nextSent := h.order.length_le

/-- There are at most as many messages as slots. -/
theorem sent_le (h : LrpcInv k s) : s.nextSent + s.sender.claimed ≤ s.nextReceived + 2 ^ k := by
  obtain ⟨d, -, hd, hle⟩ := h.outHead
  omega

/-! The sender. -/

/-- A slot is free by the copy of the head. -/
theorem claim_inv (h : LrpcInv k s) (hidle : s.sender.claimed = 0) (hm : m.Plain) {d : ℕ}
    (hhead : s.outHead = BitVec.ofNat 32 d) (hd : d ≤ s.nextReceived) (hlt : s.nextSent < d + 2 ^ k) :
    LrpcInv k (s.claim m) := by
  have htail : s.outTail = BitVec.ofNat 32 s.nextSent := by rw [h.outTail, hidle, Nat.add_zero]
  refine ⟨h.k_lt, h.size, h.mask, ?_, h.headWb, h.inHead, ⟨d, hhead, hd, hlt⟩, h.order, h.plain, h.tags,
    h.kept, ?_, h.receiver⟩
  · change s.outTail + 1 = _
    rw [htail, BitVec.ofNat_add]
    rfl
  · refine ⟨hm, ?_, ?_⟩
    · rw [htail]
      exact slot_eq h _
    · rw [htail, parity_eq h]
      rfl

theorem startSend_inv (h : LrpcInv k s) (hidle : s.sender = .idle) (hm : m.Plain) :
    ∃ s', s.startSend m = .ok s' ∧ LrpcInv k s' := by
  obtain ⟨d, hhead, hd, hle⟩ := h.outHead
  have hclaimed : s.sender.claimed = 0 := by rw [hidle]; rfl
  rw [startSend, if_neg (fun hne => hne hm)]
  by_cases hfull : s.outTail - s.outHead ≥ s.size
  · refine ⟨_, if_pos hfull, ?_⟩
    refine ⟨h.k_lt, h.size, h.mask, ?_, h.headWb, h.inHead, ?_, h.order, h.plain, h.tags, h.kept, hm,
      h.receiver⟩
    · rw [h.outTail, hclaimed]
      rfl
    · rw [hclaimed] at hle
      exact ⟨d, hhead, hd, hle⟩
  · refine ⟨_, if_neg hfull, claim_inv h hclaimed hm hhead hd ?_⟩
    have hpow := two_pow_lt h
    have hrs := received_le h
    rw [h.outTail, hclaimed, Nat.add_zero, hhead, ge_iff_le, BitVec.le_def, toNat_size h,
      dist_ofNat (by omega) (by omega)] at hfull
    omega

/-- The head is reloaded. -/
theorem reload_inv (h : LrpcInv k s) : LrpcInv k { s with outHead := s.headWb } := by
  have hle := sent_le h
  exact ⟨h.k_lt, h.size, h.mask, h.outTail, h.headWb, h.inHead,
    ⟨s.nextReceived, h.headWb, Nat.le_refl _, hle⟩, h.order, h.plain, h.tags, h.kept, h.sender,
    h.receiver⟩

/-- `lrpc_send` returns false if all slots have messages that are not received. -/
theorem refuses_iff (h : LrpcInv k s) (hidle : s.sender.claimed = 0) :
    s.Refuses ↔ s.nextSent = s.nextReceived + 2 ^ k := by
  have hpow := two_pow_lt h
  have hrs := received_le h
  have hle := sent_le h
  rw [Refuses, h.outTail, h.headWb, hidle, Nat.add_zero, ← BitVec.toNat_inj, toNat_size h,
    dist_ofNat hrs (by omega)]
  omega

/-- The slot that is claimed has no message that is not received. -/
theorem claimed_slot_ne (h : LrpcInv k s) (hclaimed : s.sender.claimed = 1) {j : ℕ}
    (hj : s.nextReceived ≤ j) (hlt : j < s.nextSent) : j % 2 ^ k ≠ s.nextSent % 2 ^ k := by
  have hle := sent_le h
  exact mod_ne hlt (by omega)

theorem storePayload_inv (h : LrpcInv k s) {dst : ℕ} {cmd : BitVec 64}
    (hp : s.sender = .storePayload dst cmd m) : LrpcInv k s.senderStep := by
  have hclaimed : s.sender.claimed = 1 := by rw [hp]; rfl
  have hs := h.sender
  simp only [SenderOk, hp] at hs
  obtain ⟨hm, hdst, hcmd⟩ := hs
  have htags : ∀ i, (Function.update s.tbl dst { s.tbl dst with payload := m.payload } i).cmd =
      (s.tbl i).cmd := by
    intro i
    by_cases hi : i = dst
    · simp [hi]
    · simp [hi]
  simp only [senderStep, hp]
  refine ⟨h.k_lt, h.size, h.mask, ?_, h.headWb, h.inHead, ?_, h.order, h.plain, ?_, ?_, ?_, ?_⟩
  · rw [h.outTail, hclaimed]
    rfl
  · have hh := h.outHead
    rw [hclaimed] at hh
    exact hh
  · intro j hj hlt
    simp only [tags, htags]
    exact h.tags j hj hlt
  · intro j m' hj hget
    have hlt : j < s.nextSent := (List.getElem?_eq_some_iff.mp hget).1
    simp only [Function.update_of_ne (hdst ▸ claimed_slot_ne h hclaimed hj hlt)]
    exact h.kept j m' hj hget
  · exact ⟨hm, hdst, hcmd, by simp⟩
  · exact h.receiver

/-- More messages do not change what the receiver has seen. -/
theorem receiverOk_append (h : s.ReceiverOk k) (m : LrpcMsg) {tbl : ℕ → LrpcMsg} :
    ReceiverOk k { s with tbl, sender := .idle, sent := s.sent ++ [m] } := by
  have hget : ∀ m', s.sent[s.nextReceived]? = some m' →
      (s.sent ++ [m])[s.nextReceived]? = some m' := by
    intro m' hm'
    rw [List.getElem?_append_left (List.getElem?_eq_some_iff.mp hm').1]
    exact hm'
  cases hp : s.receiver with
  | idle => simp [ReceiverOk]
  | loadPayload src cmd =>
      simp only [ReceiverOk, hp] at h ⊢
      obtain ⟨hsrc, m', hm', hcmd⟩ := h
      exact ⟨hsrc, m', hget m' hm', hcmd⟩
  | storeHead m' =>
      simp only [ReceiverOk, hp] at h ⊢
      exact hget m' h

theorem storeCmd_inv (h : LrpcInv k s) {dst : ℕ} {cmd : BitVec 64}
    (hp : s.sender = .storeCmd dst cmd m) : LrpcInv k s.senderStep := by
  have hclaimed : s.sender.claimed = 1 := by rw [hp]; rfl
  have hs := h.sender
  simp only [SenderOk, hp] at hs
  obtain ⟨hm, hdst, hcmd, hpay⟩ := hs
  have hle := sent_le h
  simp only [senderStep, hp]
  have hlen : (s.sent ++ [m]).length = s.nextSent + 1 := by simp [nextSent]
  refine ⟨h.k_lt, h.size, h.mask, ?_, h.headWb, h.inHead, ?_, ?_, ?_, ?_, ?_, trivial, ?_⟩
  · rw [h.outTail, hclaimed]
    simp [nextSent, SenderPc.claimed]
  · have hh := h.outHead
    rw [hclaimed] at hh
    simpa [nextSent, nextReceived, SenderPc.claimed] using hh
  · exact h.order.trans (List.prefix_append _ _)
  · intro m' hm'
    rcases List.mem_append.mp hm' with hm' | hm'
    · exact h.plain m' hm'
    · rw [List.mem_singleton.mp hm']
      exact hm
  · change Tagged (2 ^ k) _ s.nextReceived (s.sent ++ [m]).length
    rw [hlen]
    apply h.tags.push (received_le h) (by omega)
    · intro i hi
      simp [tags, hdst, hi]
    · simp only [tags, hdst, Function.update_self, hcmd]
      exact getLsbD_tagged hm _
  · intro j m' hj hget
    by_cases hlt : j < s.nextSent
    · rw [List.getElem?_append_left hlt] at hget
      simp only [Function.update_of_ne (hdst ▸ claimed_slot_ne h hclaimed hj hlt)]
      exact h.kept j m' hj hget
    · obtain ⟨hj', hget⟩ := List.getElem?_eq_some_iff.mp hget
      have heq : j = s.nextSent := by
        rw [hlen] at hj'
        omega
      subst heq
      have hm' : m' = m := by simpa [nextSent] using hget.symm
      simp only [← hdst, Function.update_self, hcmd, hpay, hm']
      rfl
  · exact receiverOk_append h.receiver m

/-- The sender keeps the invariant, and returns false only with all slots in use. -/
theorem senderStep_inv (h : LrpcInv k s) : LrpcInv k s.senderStep := by
  cases hp : s.sender with
  | idle => simpa [senderStep, hp] using h
  | reload m =>
      have hclaimed : s.sender.claimed = 0 := by rw [hp]; rfl
      have hm : m.Plain := by simpa [SenderOk, hp] using h.sender
      have hre := reload_inv h
      simp only [senderStep, hp]
      split
      · refine ⟨h.k_lt, h.size, h.mask, ?_, h.headWb, h.inHead, ?_, h.order, h.plain, h.tags, h.kept,
          trivial, h.receiver⟩
        · rw [h.outTail, hclaimed]
          rfl
        · have hh := hre.outHead
          rw [hclaimed] at hh
          exact hh
      · rename_i hfree
        have hle := sent_le h
        have hlt : s.nextSent < s.nextReceived + 2 ^ k := by
          have hne : s.nextSent ≠ s.nextReceived + 2 ^ k :=
            fun heq => hfree ((refuses_iff h hclaimed).mpr heq)
          omega
        have hclaim := claim_inv hre hclaimed hm h.headWb (Nat.le_refl _) hlt
        exact hclaim
  | storePayload dst cmd m => exact storePayload_inv h hp
  | storeCmd dst cmd m => exact storeCmd_inv h hp

/-! The receiver. -/

/-- `lrpc_empty` tells whether all messages are received. -/
theorem empty_iff (h : LrpcInv k s) (hidle : s.receiver.taken = 0) :
    s.empty = true ↔ s.nextReceived = s.nextSent := by
  have hpos := Nat.two_pow_pos k
  have hrs := received_le h
  have htag := h.tags s.nextReceived (Nat.le_refl _) (by omega)
  have hsrc : s.src = s.nextReceived % 2 ^ k := by
    rw [src, h.inHead, hidle, Nat.add_zero]
    exact slot_eq h _
  have hhead : s.inHead = BitVec.ofNat 32 s.nextReceived := by rw [h.inHead, hidle, Nat.add_zero]
  simp only [empty, and_doneParity, hhead, parity_eq h, hsrc, ne_eq, parityBit_inj, decide_eq_true_eq]
  simp only [tags] at htag
  rw [htag]
  omega

theorem loadCmd_inv (h : LrpcInv k s) (hp : s.receiver = .idle) : LrpcInv k s.receiverStep := by
  have htaken : s.receiver.taken = 0 := by rw [hp]; rfl
  simp only [receiverStep, hp]
  split
  · exact h
  · rename_i hempty
    have hrs := received_le h
    have hlt : s.nextReceived < s.nextSent := by
      have hne : s.nextReceived ≠ s.nextSent := fun heq => hempty ((empty_iff h htaken).mpr heq)
      omega
    have hsrc : s.src = s.nextReceived % 2 ^ k := by
      rw [src, h.inHead, htaken, Nat.add_zero]
      exact slot_eq h _
    refine ⟨h.k_lt, h.size, h.mask, h.outTail, h.headWb, ?_, h.outHead, h.order, h.plain, h.tags, h.kept,
      h.sender, ?_⟩
    · rw [h.inHead, htaken]
      change BitVec.ofNat 32 s.nextReceived + 1 = BitVec.ofNat 32 (s.nextReceived + 1)
      rw [BitVec.ofNat_add]
      rfl
    · have hget := List.getElem?_eq_getElem hlt
      refine ⟨hsrc, _, hget, ?_⟩
      rw [hsrc, h.kept _ _ (Nat.le_refl _) hget]
      rfl

theorem loadPayload_inv (h : LrpcInv k s) {src : ℕ} {cmd : BitVec 64}
    (hp : s.receiver = .loadPayload src cmd) : LrpcInv k s.receiverStep := by
  have hr := h.receiver
  simp only [ReceiverOk, hp] at hr
  obtain ⟨hsrc, m, hget, hcmd⟩ := hr
  have hm := h.plain m (List.mem_of_getElem? hget)
  have hread : ({ cmd := cmd &&& cmdMask, payload := (s.tbl src).payload } : LrpcMsg) = m := by
    rw [hsrc, h.kept _ m (Nat.le_refl _) hget, hcmd, tagged_and_cmdMask hm]
    rfl
  simp only [receiverStep, hp, hread]
  refine ⟨h.k_lt, h.size, h.mask, h.outTail, h.headWb, ?_, h.outHead, h.order, h.plain, h.tags, h.kept,
    h.sender, hget⟩
  rw [h.inHead, hp]
  rfl

theorem storeHead_inv (h : LrpcInv k s) (hp : s.receiver = .storeHead m) : LrpcInv k s.receiverStep := by
  have hget : s.sent[s.nextReceived]? = some m := by simpa [ReceiverOk, hp] using h.receiver
  have hlt : s.nextReceived < s.nextSent := (List.getElem?_eq_some_iff.mp hget).1
  have hle := sent_le h
  have hlen : (s.received ++ [m]).length = s.nextReceived + 1 := by simp [nextReceived]
  have htaken : s.inHead = BitVec.ofNat 32 (s.nextReceived + 1) := by
    rw [h.inHead, hp]
    rfl
  simp only [receiverStep, hp]
  refine ⟨h.k_lt, h.size, h.mask, h.outTail, ?_, ?_, ?_, ?_, h.plain, ?_, ?_, h.sender, trivial⟩
  · change s.inHead = BitVec.ofNat 32 (s.received ++ [m]).length
    rw [hlen, htaken]
  · change s.inHead = BitVec.ofNat 32 (s.received ++ [m]).length
    rw [hlen, htaken]
  · obtain ⟨d, hhead, hd, hfull⟩ := h.outHead
    refine ⟨d, hhead, ?_, hfull⟩
    change d ≤ (s.received ++ [m]).length
    omega
  · exact prefix_snoc h.order hget
  · change Tagged (2 ^ k) s.tags (s.received ++ [m]).length s.nextSent
    rw [hlen]
    exact h.tags.pop hlt (by omega)
  · intro j m' hj hget'
    change (s.received ++ [m]).length ≤ j at hj
    exact h.kept j m' (by omega) hget'

theorem receiverStep_inv (h : LrpcInv k s) : LrpcInv k s.receiverStep := by
  cases hp : s.receiver with
  | idle => exact loadCmd_inv h hp
  | loadPayload src cmd => exact loadPayload_inv h hp
  | storeHead m => exact storeHead_inv h hp

/-! ## Runs -/

/-- What `lrpc_send` asserts of its command. -/
def Allowed (_ : Lrpc) : LrpcEvent → Prop
  | .send m => m.Plain
  | .sender | .receiver => True

instance (s : Lrpc) : (e : LrpcEvent) → Decidable (s.Allowed e)
  | .send m => inferInstanceAs (Decidable m.Plain)
  | .sender | .receiver => inferInstanceAs (Decidable True)

theorem lrpcStep_inv (h : LrpcInv k s) {e : LrpcEvent} (he : s.Allowed e) :
    ∃ s', lrpcStep s e = .ok s' ∧ LrpcInv k s' := by
  cases e with
  | send m =>
      by_cases hidle : s.sender = .idle
      · simpa [lrpcStep, hidle] using startSend_inv h hidle he
      · exact ⟨s, by simp [lrpcStep, hidle], h⟩
  | sender => exact ⟨_, rfl, senderStep_inv h⟩
  | receiver => exact ⟨_, rfl, receiverStep_inv h⟩

/-! ## Every message arrives -/

/-- A turn of the receiver. -/
def isReceiver : LrpcEvent → Bool
  | .receiver => true
  | .send _ | .sender => false

/-- The steps of the receiver since `lrpc_init` that were not spent on an empty channel. -/
def progress (s : Lrpc) : ℕ :=
  3 * s.nextReceived +
    match s.receiver with
    | .idle => 0
    | .loadPayload _ _ => 1
    | .storeHead _ => 2

theorem progress_lt (s : Lrpc) : s.progress < 3 * (s.nextReceived + 1) := by
  rw [progress]
  split <;> omega

/-- **As long as a message is there**, each step of the receiver is progress. -/
theorem progress_receiverStep (h : LrpcInv k s) (hlt : s.nextReceived < s.nextSent) :
    s.receiverStep.progress = s.progress + 1 := by
  cases hp : s.receiver with
  | idle =>
      have hempty : ¬ s.empty = true := by
        rw [empty_iff h (by rw [hp]; rfl)]
        omega
      simp [progress, receiverStep, hp, hempty, nextReceived]
  | loadPayload src cmd => simp [progress, receiverStep, hp, nextReceived]
  | storeHead m =>
      simp only [progress, receiverStep, hp, nextReceived, List.length_append, List.length_singleton]
      omega

/-- When all is received, the receiver polls the empty channel. -/
theorem progress_receiverStep_empty (h : LrpcInv k s) (hge : s.nextSent ≤ s.nextReceived) :
    s.receiverStep.progress = s.progress := by
  have hnone : s.sent[s.nextReceived]? = none := List.getElem?_eq_none hge
  have hr := h.receiver
  cases hp : s.receiver with
  | idle =>
      have hempty : s.empty = true := by
        rw [empty_iff h (by rw [hp]; rfl)]
        exact Nat.le_antisymm (received_le h) hge
      simp [receiverStep, hp, hempty]
  | loadPayload src cmd => simp [ReceiverOk, hp, hnone] at hr
  | storeHead m => simp [ReceiverOk, hp, hnone] at hr

theorem receiverStep_sent (s : Lrpc) : s.receiverStep.sent = s.sent := by
  cases hp : s.receiver with
  | idle =>
      simp only [receiverStep, hp]
      split <;> rfl
  | loadPayload src cmd => simp only [receiverStep, hp]
  | storeHead m => simp only [receiverStep, hp]

/-- The sender does not touch what the receiver has done. -/
theorem progress_senderStep (s : Lrpc) :
    s.sent <+: s.senderStep.sent ∧ s.senderStep.progress = s.progress := by
  cases hp : s.sender with
  | idle => simp [senderStep, hp]
  | reload m =>
      simp only [senderStep, hp]
      split <;> exact ⟨List.prefix_refl _, rfl⟩
  | storePayload dst cmd m =>
      simp only [senderStep, hp]
      exact ⟨List.prefix_refl _, rfl⟩
  | storeCmd dst cmd m =>
      simp only [senderStep, hp]
      exact ⟨List.prefix_append _ _, rfl⟩

theorem progress_send {s' : Lrpc} (hs : lrpcStep s (.send m) = .ok s') :
    s.sent <+: s'.sent ∧ s'.progress = s.progress := by
  simp only [lrpcStep, startSend] at hs
  split at hs
  · split at hs
    · cases hs
    · split at hs <;> cases hs <;> exact ⟨List.prefix_refl _, rfl⟩
  · cases hs
    exact ⟨List.prefix_refl _, rfl⟩

/-- Nothing that was sent is lost, and only the receiver's steps are progress. -/
theorem lrpcStep_progress (h : LrpcInv k s) {e : LrpcEvent} {s' : Lrpc} (hs : lrpcStep s e = .ok s') :
    s.sent <+: s'.sent ∧
      (s'.progress = s.progress + if isReceiver e ∧ s.nextReceived < s.nextSent then 1 else 0) := by
  cases e with
  | send m => simpa [isReceiver] using progress_send hs
  | sender =>
      cases hs
      simpa [isReceiver] using progress_senderStep s
  | receiver =>
      cases hs
      rw [receiverStep_sent]
      refine ⟨List.prefix_refl _, ?_⟩
      by_cases hlt : s.nextReceived < s.nextSent
      · rw [if_pos ⟨rfl, hlt⟩]
        exact progress_receiverStep h hlt
      · rw [if_neg (fun hand => hlt hand.2)]
        exact progress_receiverStep_empty h (Nat.le_of_not_lt hlt)

/-- **Every run of the receiver's turns** receives what was sent before, whatever the sender does
in between. -/
theorem exec_progress {n : ℕ} {s' : Lrpc} (es : List LrpcEvent) (h : LrpcInv k s) (hn : n ≤ s.nextSent)
    (hes : Along lrpcStep Allowed s es) (hs : exec lrpcStep s es = .ok s') :
    LrpcInv k s' ∧ s.sent <+: s'.sent ∧ min (3 * n) (s.progress + es.countP isReceiver) ≤ s'.progress := by
  induction es generalizing s with
  | nil =>
      cases hs
      exact ⟨h, List.prefix_refl _, Nat.min_le_right _ _⟩
  | cons e es ih =>
      obtain ⟨u, hu, hrest⟩ := exec_cons_ok.mp hs
      obtain ⟨u', hu', hinv⟩ := lrpcStep_inv h hes.1
      cases hu.symm.trans hu'
      obtain ⟨hsent, hprogress⟩ := lrpcStep_progress h hu
      obtain ⟨hs', hsent', hmin⟩ := ih hinv (hn.trans hsent.length_le) (hes.2 u hu) hrest
      refine ⟨hs', hsent.trans hsent', ?_⟩
      rw [List.countP_cons]
      by_cases hrecv : isReceiver e = true
      · by_cases hlt : s.nextReceived < s.nextSent
        · rw [if_pos ⟨hrecv, hlt⟩] at hprogress
          rw [if_pos hrecv]
          omega
        · -- the first `n` are received already
          rw [if_neg (fun hand => hlt hand.2)] at hprogress
          have hle : 3 * s.nextReceived ≤ s.progress := Nat.le_add_right _ _
          omega
      · rw [if_neg (fun hand => hrecv hand.1)] at hprogress
        rw [if_neg hrecv]
        omega

/-- What was sent before is received after three turns of the receiver for each message. -/
theorem delivered_of_inv {s' : Lrpc} {es : List LrpcEvent} (h : LrpcInv k s)
    (hes : Along lrpcStep Allowed s es) (hs : exec lrpcStep s es = .ok s')
    (hturns : 3 * (s.nextSent - s.nextReceived) ≤ es.countP isReceiver) : s.sent <+: s'.received := by
  obtain ⟨h', hsent, hmin⟩ := exec_progress es h (Nat.le_refl _) hes hs
  have hle : 3 * s.nextReceived ≤ s.progress := Nat.le_add_right _ _
  have hlt := progress_lt s'
  have hrs := received_le h
  apply List.prefix_of_prefix_length_le hsent h'.order
  change s.nextSent ≤ s'.nextReceived
  omega

/-- `lrpc_recv` with a message waiting, undisturbed. -/
theorem received_of_waiting (h : LrpcInv k s) (hidle : s.receiver = .idle)
    (hm : s.sent[s.nextReceived]? = some m) :
    s.receiverStep.receiverStep.receiverStep.received = s.received ++ [m] := by
  have hlt : s.nextReceived < s.nextSent := (List.getElem?_eq_some_iff.mp hm).1
  have hempty : ¬ s.empty = true := by
    rw [empty_iff h (by rw [hidle]; rfl)]
    omega
  have hload : s.receiverStep.receiver = .loadPayload s.src (s.tbl s.src).cmd := by
    simp [receiverStep, hidle, hempty]
  have h' := loadPayload_inv (receiverStep_inv h) hload
  have hr := h'.receiver
  simp only [receiverStep, hidle, if_neg hempty, ReceiverOk, nextReceived] at hr hm ⊢
  rw [hm] at hr
  rw [← Option.some.inj hr]

/-- `lrpc_send` after it has a slot. -/
theorem sent_of_claim (s : Lrpc) (m : LrpcMsg) :
    (s.claim m).senderStep.senderStep.sender = .idle ∧
      (s.claim m).senderStep.senderStep.sent = s.sent ++ [m] :=
  ⟨rfl, rfl⟩

/-- `lrpc_send` sends the message if a slot is free, be the copy of the head old or not. -/
theorem accepted_of_inv (h : LrpcInv k s) (hidle : s.sender = .idle) (hm : m.Plain)
    (hfree : s.nextSent < s.nextReceived + 2 ^ k) :
    ∃ s', exec lrpcStep s [.send m, .sender, .sender, .sender] = .ok s' ∧ s'.sender = .idle ∧
      s'.sent = s.sent ++ [m] := by
  have hplain : ¬ m.cmd &&& doneParity ≠ 0 := fun hne => hne hm
  by_cases hfull : s.outTail - s.outHead ≥ s.size
  · -- the head is reloaded first
    have hkeep : ¬ s.Refuses := by
      rw [refuses_iff h (by rw [hidle]; rfl)]
      omega
    refine ⟨({ s with outHead := s.headWb }.claim m).senderStep.senderStep, ?_,
      sent_of_claim { s with outHead := s.headWb } m⟩
    have hstart : s.startSend m = .ok { s with sender := .reload m } := by
      rw [startSend, if_neg hplain, if_pos hfull]
    have hreload : Lrpc.senderStep { s with sender := .reload m } =
        { s with outHead := s.headWb }.claim m := if_neg hkeep
    simp only [exec, lrpcStep, if_pos hidle, hstart, hreload]
  · have hstart : s.startSend m = .ok (s.claim m) := by
      rw [startSend, if_neg hplain, if_neg hfull]
    refine ⟨(s.claim m).senderStep.senderStep, ?_, sent_of_claim s m⟩
    simp only [exec, lrpcStep, if_pos hidle, hstart]
    rfl

/-! ## The channel is exact -/

/-- The slot that the sender is writing to. -/
def storesTo (s : Lrpc) : Option ℕ :=
  match s.sender with
  | .idle | .reload _ => none
  | .storePayload dst _ _ | .storeCmd dst _ _ => some dst

/-- What the channel guarantees at any time. -/
structure Exact (s : Lrpc) : Prop where
  /-- messages are received at most once, unmodified and in the order in which they were sent -/
  received : s.received <+: s.sent
  /-- the others are in the table -/
  kept : ∀ j m, s.received.length ≤ j → s.sent[j]? = some m →
    (s.tbl (j % s.size.toNat)).cmd &&& cmdMask = m.cmd ∧
      (s.tbl (j % s.size.toNat)).payload = m.payload
  /-- and `lrpc_recv` finds one as long as there is one -/
  found : s.receiver = .idle → (s.empty = true ↔ s.received.length = s.sent.length)
  /-- a call of `lrpc_recv` returns the next of them -/
  next : s.receiver = .idle → ∀ m, s.sent[s.received.length]? = some m →
    s.receiverStep.receiverStep.receiverStep.received = s.received ++ [m]
  /-- and whatever the sender does meanwhile, all are received once the receiver has had its turns -/
  delivered : ∀ es s', Along lrpcStep Allowed s es → exec lrpcStep s es = .ok s' →
    3 * (s.sent.length - s.received.length) ≤ es.countP isReceiver → s.sent <+: s'.received
  /-- no slot is overwritten whose message is not received -/
  free : ∀ dst, s.storesTo = some dst → ∀ j, s.received.length ≤ j → j < s.sent.length →
    j % s.size.toNat ≠ dst
  /-- `lrpc_send` returns false only if as many messages are not received as there are slots -/
  full : ∀ m, s.sender = .reload m → s.Refuses → s.sent.length = s.received.length + s.size.toNat
  /-- with fewer of them it sends its message -/
  accepted : s.sender = .idle → ∀ m : LrpcMsg, m.Plain →
    s.sent.length < s.received.length + s.size.toNat →
      ∃ s', exec lrpcStep s [.send m, .sender, .sender, .sender] = .ok s' ∧ s'.sender = .idle ∧
        s'.sent = s.sent ++ [m]

theorem exact_of_inv (h : LrpcInv k s) : s.Exact := by
  have hsize := toNat_size h
  constructor
  · exact h.order
  · intro j m hj hget
    have hm := h.plain m (List.mem_of_getElem? hget)
    rw [hsize, h.kept j m hj hget]
    exact ⟨tagged_and_cmdMask hm _, rfl⟩
  · intro hidle
    exact empty_iff h (by rw [hidle]; rfl)
  · intro hidle m hm
    exact received_of_waiting h hidle hm
  · intro es s' hes hs hturns
    exact delivered_of_inv h hes hs hturns
  · intro dst hdst j hj hlt
    rw [hsize]
    have hs := h.sender
    cases hp : s.sender with
    | idle => simp [storesTo, hp] at hdst
    | reload m => simp [storesTo, hp] at hdst
    | storePayload d cmd m =>
        simp only [storesTo, hp, Option.some.injEq] at hdst
        simp only [SenderOk, hp] at hs
        rw [← hdst, hs.2.1]
        exact claimed_slot_ne h (by rw [hp]; rfl) hj hlt
    | storeCmd d cmd m =>
        simp only [storesTo, hp, Option.some.injEq] at hdst
        simp only [SenderOk, hp] at hs
        rw [← hdst, hs.2.1]
        exact claimed_slot_ne h (by rw [hp]; rfl) hj hlt
  · intro m hp hrefuse
    rw [hsize]
    exact (refuses_iff h (by rw [hp]; rfl)).mp hrefuse
  · intro hidle m hm hfree
    rw [hsize] at hfree
    exact accepted_of_inv h hidle hm hfree

/-- However the sender and the receiver interleave, messages are received exactly once, unmodified and
in order, no slot is overwritten too early, and only a full channel refuses a message. -/
theorem lrpc_exact {tbl : ℕ → LrpcMsg} {size : BitVec 32} {s : Lrpc} (hinit : lrpcInit tbl size = some s)
    (hzero : ∀ i < size.toNat, (tbl i).cmd = 0) (es : List LrpcEvent) (hes : Along lrpcStep Allowed s es) :
    ∃ s', exec lrpcStep s es = .ok s' ∧ s'.Exact := by
  obtain ⟨k, h, -⟩ := lrpcInit_inv hinit hzero
  obtain ⟨s', hs', hi⟩ := exec_ok (I := LrpcInv k) (fun _ _ h he => lrpcStep_inv h he) h hes
  exact ⟨s', hs', exact_of_inv hi⟩

/-- A channel of two slots. -/
def pair : Lrpc :=
  { tbl := fun _ => ⟨0, 9⟩, size := 2, mask := 1, outHead := 0, outTail := 0, inHead := 0, headWb := 0,
    sender := .idle, receiver := .idle, sent := [], received := [] }

/-- Three messages, of which the third is refused first, and two laps of the receiver. -/
def pairRun : List LrpcEvent :=
  [.send ⟨1, 10⟩, .sender, .receiver, .sender, .send ⟨2, 20⟩, .sender, .sender, .send ⟨3, 30⟩, .sender,
    .receiver, .receiver, .send ⟨3, 30⟩, .receiver, .sender, .sender, .receiver, .receiver, .sender,
    .receiver, .receiver, .receiver, .receiver]

theorem lrpc_exact_pairRun :
    lrpcInit (fun _ => ⟨0, 9⟩) 2 = some pair ∧ Along lrpcStep Allowed pair pairRun ∧
    (∃ s', exec lrpcStep pair pairRun = .ok s' ∧ s'.Exact) ∧
    (final lrpcStep pair pairRun).sent = [⟨1, 10⟩, ⟨2, 20⟩, ⟨3, 30⟩] ∧
    (final lrpcStep pair pairRun).received = [⟨1, 10⟩, ⟨2, 20⟩, ⟨3, 30⟩] :=
  have hinit : lrpcInit (fun _ => ⟨0, 9⟩) 2 = some pair := rfl
  have hes : Along lrpcStep Allowed pair pairRun := by decide
  ⟨hinit, hes, lrpc_exact hinit (fun _ _ => rfl) _ hes, by decide, by decide⟩

end Lrpc

end Skyloft
