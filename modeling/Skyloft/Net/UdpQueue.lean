import Mathlib.Algebra.Order.BigOperators.Group.Finset
import Skyloft.Lib.Ledger
import Skyloft.Lib.Run
import Skyloft.Net.NetError

/-!
# The send queue of a UDP socket

`udp_write_to` takes a slot of the send queue, and the release handler of the packet gives it back
when the transmission has completed.  `udp_close` frees the socket, or leaves it to the handler of
the last packet.  In between a write gets a buffer and hands it to the network layer; both may fail.

* `udpStep` — one step of a write, of a completion, of `udp_shutdown` or of `udp_close`.
* `UdpSock.Accounted` — the length of the queue is the number of slots that are held, and the socket
  is released once, when it is closed and none is held any more.
* `udp_queue_accounted_iff` — this lasts exactly as long as no write fails with its slot.
-/

namespace Skyloft

open Run Ledger

/-! ## The model -/

/-- Where a call of `udp_write_to` stands, and then its packet. -/
inductive UdpPc
  | idle
  /-- in `waitq_wait`, or woken from there -/
  | waiting
  | reserved
  | allocated
  /-- The call has returned the length, and the packet is on its way. -/
  | inFlight
  /-- The release handler has given the slot back; `freeConn` tells whether it frees the socket. -/
  | releasing (freeConn : Bool)
  | released
  /-- The call has returned an error without having taken a slot. -/
  | refused (ret : ℤ)
  /-- The call has returned an error after it took a slot. -/
  | failed (ret : ℤ)
  deriving DecidableEq

/-- Where the call of `udp_close` stands. -/
inductive UdpClosing
  | no
  | checked
  | freeing (freeConn : Bool)
  | closed
  deriving DecidableEq

/-- The egress side of `struct udp_conn`, the calls on it, and how often `udp_release_conn` was
called. -/
structure UdpSock (W : Type) extends UdpConn where
  kind : TransMatch
  outqFree : Bool
  waiters : List W
  pc : W → UdpPc
  closing : UdpClosing
  releases : ℕ

inductive UdpFault
  /-- `BUG_ON(c->shutdown)` -/
  | shutdownTwice
  /-- `BUG_ON(!waitq_empty(&c->outq_wq))` -/
  | waiters

inductive UdpEvent (W : Type)
  /-- A call with a payload of `len` bytes, with or without an address. -/
  | write (w : W) (len : ℕ) (hasAddr : Bool)
  /-- A call that was woken looks again. -/
  | resume (w : W)
  /-- `net_tx_alloc_mbuf` -/
  | alloc (w : W) (ok : Bool)
  /-- `udp_send_raw` -/
  | send (w : W) (ret : ℤ)
  /-- The packet is released: the part of `udp_tx_release_mbuf` under the lock. -/
  | complete (w : W)
  /-- The rest of it. -/
  | finish (w : W)
  /-- `__udp_shutdown` -/
  | shutdown
  /-- `waitq_release` of the writers -/
  | wakeAll
  /-- `udp_close`, up to the lock -/
  | close
  /-- the part under the lock -/
  | closeLocked
  /-- the rest -/
  | closeFinish

namespace UdpSock

variable {W : Type} [DecidableEq W]

def setPc (s : UdpSock W) (w : W) (p : UdpPc) : UdpSock W := { s with pc := Function.update s.pc w p }

/-- The loop of `udp_write_to` and what comes after it, up to the release of the lock. -/
def reserve (s : UdpSock W) (w : W) : UdpSock W :=
  if s.outqCap ≤ s.outqLen ∧ ¬ s.shutdown then
    { s.setPc w .waiting with waiters := s.waiters ++ [w] }
  else if s.shutdown then s.setPc w (.refused (-ePipe))
  else { s.setPc w .reserved with outqLen := s.outqLen + 1 }

/-- `udp_tx_release_mbuf` under the lock. -/
def releaseMbuf (s : UdpSock W) (w : W) : UdpSock W :=
  let n := s.outqLen - 1
  { s.setPc w (.releasing (s.outqFree && n = 0)) with
    outqLen := n
    waiters := if s.shutdown then s.waiters else s.waiters.tail }

end UdpSock

/-- A step that is not the next one of its call does nothing. -/
def udpStep {W : Type} [DecidableEq W] (s : UdpSock W) : UdpEvent W → Except UdpFault (UdpSock W)
  | .write w len hasAddr =>
      if s.pc w ≠ .idle then .ok s
      else if udpMaxPayload < len then .ok (s.setPc w (.refused (-eMsgSize)))
      else if hasAddr = false ∧ s.kind = .tuple3 then .ok (s.setPc w (.refused (-eDestAddrReq)))
      else .ok (s.reserve w)
  | .resume w => if s.pc w = .waiting ∧ w ∉ s.waiters then .ok (s.reserve w) else .ok s
  | .alloc w ok =>
      if s.pc w = .reserved then .ok (s.setPc w (if ok then .allocated else .failed (-eNobufs)))
      else .ok s
  | .send w ret =>
      if s.pc w = .allocated then
        -- an error is followed by `net_tx_release_mbuf`, which is not the handler of the packet
        .ok (s.setPc w (if ret = 0 then .inFlight else .failed ret))
      else .ok s
  | .complete w => if s.pc w = .inFlight then .ok (s.releaseMbuf w) else .ok s
  | .finish w =>
      match s.pc w with
      | .releasing freeConn =>
          .ok { s.setPc w .released with releases := s.releases + freeConn.toNat }
      | _ => .ok s
  | .shutdown => if s.shutdown then .error .shutdownTwice else .ok { s with shutdown := true }
  | .wakeAll => .ok (if s.shutdown then { s with waiters := [] } else s)
  | .close =>
      if s.closing ≠ .no then .ok s
      else if s.waiters ≠ [] then .error .waiters
      else .ok { s with shutdown := true, closing := .checked }
  | .closeLocked =>
      if s.closing = .checked then
        .ok { s with closing := .freeing (decide (s.outqLen = 0)), outqFree := true }
      else .ok s
  | .closeFinish =>
      match s.closing with
      | .freeing freeConn => .ok { s with closing := .closed, releases := s.releases + freeConn.toNat }
      | _ => .ok s

/-- `udp_init_conn`: an open socket with an empty queue. -/
def UdpSock.create (W : Type) (kind : TransMatch) (outqCap : ℕ) : UdpSock W where
  shutdown := false
  outqLen := 0
  outqCap := outqCap
  kind := kind
  outqFree := false
  waiters := []
  pc _ := .idle
  closing := .no
  releases := 0

/-! ## Slots -/

/-- The write has a slot, and its packet was not released yet. -/
def UdpPc.holds : UdpPc → ℕ
  | .reserved | .allocated | .inFlight => 1
  | _ => 0

/-- The write returned an error, and nobody gives its slot back. -/
def UdpPc.leaks : UdpPc → ℕ
  | .failed _ => 1
  | _ => 0

/-- The handler is about to free the socket. -/
def UdpPc.frees : UdpPc → ℕ
  | .releasing freeConn => freeConn.toNat
  | _ => 0

def UdpClosing.frees : UdpClosing → ℕ
  | .freeing freeConn => freeConn.toNat
  | _ => 0

namespace UdpSock

variable {W : Type} [Fintype W]

/-- The sum over all writes. -/
def sum (s : UdpSock W) (f : UdpPc → ℕ) : ℕ := ∑ w, f (s.pc w)

/-- How often the socket was released, or is about to be. -/
def released (s : UdpSock W) : ℕ := s.releases + s.sum UdpPc.frees + s.closing.frees

/-- The queue is as long as there are slots held by writes whose packet was not released, and the
socket is released once, when it is closed and there are none. -/
structure Accounted (s : UdpSock W) : Prop where
  outqLen : s.outqLen = s.sum UdpPc.holds
  released : s.released = if s.outqFree ∧ s.sum UdpPc.holds = 0 then 1 else 0

end UdpSock

/-- No write fails after it took its slot. -/
def NoLateFailure {W : Type} (s : UdpSock W) : UdpEvent W → Prop
  | .alloc w ok => s.pc w = .reserved → ok = true
  | .send w ret => s.pc w = .allocated → ret = 0
  | _ => True

/-! ## The invariant -/

section

variable {W : Type} [Fintype W] {s s' : UdpSock W}

open UdpSock

/-- The queue counts the slots that are held and those that nobody gives back, and the socket is
released once, when it is closed and the queue is empty. -/
structure UdpInv (s : UdpSock W) : Prop where
  outqLen : s.outqLen = s.sum UdpPc.holds + s.sum UdpPc.leaks
  released : s.released = if s.outqFree = true ∧ s.outqLen = 0 then 1 else 0
  shutdown : s.closing ≠ .no → s.shutdown = true
  outqFree : s.outqFree = true → s.closing ≠ .no ∧ s.closing ≠ .checked

theorem UdpInv.not_outqFree (hi : UdpInv s) (hs : s.shutdown = false) : s.outqFree = false := by
  by_contra hfree
  have hclosing := (hi.outqFree (by simpa using hfree)).1
  rw [hi.shutdown hclosing] at hs
  cases hs

/-- The socket is accounted for as long as no slot was lost. -/
theorem UdpInv.accounted_iff (hi : UdpInv s) : s.Accounted ↔ s.sum UdpPc.leaks = 0 := by
  have hlen := hi.outqLen
  constructor
  · intro h
    have heq := h.outqLen
    omega
  · intro hnone
    have heq : s.outqLen = s.sum UdpPc.holds := by omega
    exact ⟨heq, heq ▸ hi.released⟩

theorem UdpInv.create (kind : TransMatch) (outqCap : ℕ) : UdpInv (create W kind outqCap) := by
  have hsum : ∀ f : UdpPc → ℕ, f .idle = 0 → (UdpSock.create W kind outqCap).sum f = 0 :=
    fun f hf => Finset.sum_eq_zero fun _ _ => hf
  refine ⟨?_, ?_, fun h => absurd rfl h, fun h => ?_⟩
  · rw [hsum _ rfl, hsum _ rfl]
    rfl
  · rw [UdpSock.released, hsum _ rfl]
    rfl
  · cases h

variable [DecidableEq W] {w : W} {p : UdpPc}

/-- One write moves on. -/
theorem sum_move (hpc : s'.pc = Function.update s.pc w p) (f : UdpPc → ℕ) :
    s'.sum f + f (s.pc w) = s.sum f + f p := by
  have hself : f (s'.pc w) = f p := by rw [hpc, Function.update_self]
  have hother : ∀ v, v ≠ w → f (s'.pc v) = f (s.pc v) := by
    intro v hv
    rw [hpc, Function.update_of_ne hv]
  rw [← hself]
  exact sum_add_comm_of_eq_off_mem (f := fun v => f (s.pc v)) (Finset.mem_univ w) hother

/-- What a step of a write has to account for. -/
theorem UdpInv.move (hi : UdpInv s) (hpc : s'.pc = Function.update s.pc w p)
    (hlen : s'.outqLen + ((s.pc w).holds + (s.pc w).leaks) = s.outqLen + (p.holds + p.leaks))
    (hfrees : s'.releases + p.frees + (if s.outqFree = true ∧ s.outqLen = 0 then 1 else 0) =
      s.releases + (s.pc w).frees + (if s.outqFree = true ∧ s'.outqLen = 0 then 1 else 0))
    (hshut : s'.shutdown = s.shutdown) (hfree : s'.outqFree = s.outqFree)
    (hclosing : s'.closing = s.closing) : UdpInv s' := by
  have hholds := sum_move hpc UdpPc.holds
  have hleaks := sum_move hpc UdpPc.leaks
  have hrel := sum_move hpc UdpPc.frees
  have hold := hi.outqLen
  have hreleased := hi.released
  rw [UdpSock.released] at hreleased
  refine ⟨by omega, ?_, ?_, ?_⟩
  · rw [UdpSock.released, hclosing, hfree]
    omega
  · rw [hclosing, hshut]
    exact hi.shutdown
  · rw [hclosing, hfree]
    exact hi.outqFree

/-- A write moves on without taking a slot, giving one back, or freeing the socket. -/
theorem UdpInv.setPc (hi : UdpInv s) (hfrees : (s.pc w).frees = p.frees)
    (hslot : (s.pc w).holds + (s.pc w).leaks = p.holds + p.leaks) : UdpInv (s.setPc w p) := by
  refine hi.move (w := w) (p := p) rfl ?_ ?_ rfl rfl rfl
  · rw [hslot]
    rfl
  · rw [hfrees]
    rfl

omit [DecidableEq W] in
theorem UdpInv.setWaiters (hi : UdpInv s) (waiters : List W) :
    UdpInv { s with waiters := waiters } :=
  ⟨hi.outqLen, hi.released, hi.shutdown, hi.outqFree⟩

theorem UdpInv.reserve (hi : UdpInv s) (hpc : s.pc w = .idle ∨ s.pc w = .waiting) :
    UdpInv (s.reserve w) := by
  have hnone : (s.pc w).frees = 0 ∧ (s.pc w).holds + (s.pc w).leaks = 0 := by
    rcases hpc with h | h <;> rw [h] <;> exact ⟨rfl, rfl⟩
  rw [UdpSock.reserve]
  split
  · exact (hi.setPc (p := .waiting) hnone.1 hnone.2).setWaiters _
  · split
    · exact hi.setPc hnone.1 hnone.2
    · rename_i hopen
      have hnot := hi.not_outqFree (by simpa using hopen)
      refine hi.move (w := w) (p := .reserved) rfl ?_ ?_ rfl rfl rfl
      · rw [hnone.2]
        rfl
      · rw [hnone.1, hnot]
        simp [UdpPc.frees, UdpSock.setPc]

theorem UdpInv.releaseMbuf (hi : UdpInv s) (hpc : s.pc w = .inFlight) :
    UdpInv (s.releaseMbuf w) := by
  have hpos : s.outqLen ≠ 0 := by
    have hlen := hi.outqLen
    have hle : (s.pc w).holds ≤ s.sum UdpPc.holds :=
      Finset.single_le_sum (f := fun v => (s.pc v).holds) (fun _ _ => Nat.zero_le _)
        (Finset.mem_univ w)
    rw [hpc] at hle
    change 1 ≤ _ at hle
    omega
  refine hi.move (w := w) (p := .releasing (s.outqFree && s.outqLen - 1 = 0)) rfl ?_ ?_ rfl rfl rfl
  · rw [hpc]
    change s.outqLen - 1 + 1 = s.outqLen
    omega
  · rw [hpc, if_neg fun h => hpos h.2]
    change s.releases + (s.outqFree && decide (s.outqLen - 1 = 0)).toNat + 0 =
      s.releases + 0 + if s.outqFree = true ∧ s.outqLen - 1 = 0 then 1 else 0
    cases s.outqFree <;> by_cases hlast : s.outqLen - 1 = 0 <;> simp [hlast]

/-- What a step may do to the socket.  A write that fails keeps its place in the count of slots, and
only then does the count of lost ones change. -/
inductive UdpMove (s : UdpSock W) (e : UdpEvent W) : UdpSock W → Prop
  | stay : UdpMove s e s
  | turn (w : W) (p : UdpPc) (hfrees : (s.pc w).frees = p.frees)
      (hslot : (s.pc w).holds + (s.pc w).leaks = p.holds + p.leaks)
      (hleaks : NoLateFailure s e → (s.pc w).leaks = p.leaks) : UdpMove s e (s.setPc w p)
  | reserve (w : W) (hpc : s.pc w = .idle ∨ s.pc w = .waiting) : UdpMove s e (s.reserve w)
  | releaseMbuf (w : W) (hpc : s.pc w = .inFlight) : UdpMove s e (s.releaseMbuf w)
  | finish (w : W) (freeConn : Bool) (hpc : s.pc w = .releasing freeConn) :
      UdpMove s e { s.setPc w .released with releases := s.releases + freeConn.toNat }
  | shutdown (hopen : s.shutdown = false) : UdpMove s e { s with shutdown := true }
  | wakeAll (hshut : s.shutdown = true) : UdpMove s e { s with waiters := [] }
  | close (hno : s.closing = .no) : UdpMove s e { s with shutdown := true, closing := .checked }
  | closeLocked (hchecked : s.closing = .checked) :
      UdpMove s e { s with closing := .freeing (decide (s.outqLen = 0)), outqFree := true }
  | closeFinish (freeConn : Bool) (hfreeing : s.closing = .freeing freeConn) :
      UdpMove s e { s with closing := .closed, releases := s.releases + freeConn.toNat }

omit [Fintype W] in
theorem udpMove_of_step {e : UdpEvent W} (hs : udpStep s e = .ok s') : UdpMove s e s' := by
  cases e with
  | write w len hasAddr =>
      rw [udpStep] at hs
      split at hs
      · cases hs
        exact .stay
      · rename_i hidle
        rw [not_not] at hidle
        have hrefuse : ∀ ret, UdpMove s (.write w len hasAddr) (s.setPc w (.refused ret)) :=
          fun ret => .turn w _ (by rw [hidle]; rfl) (by rw [hidle]; rfl) fun _ => by rw [hidle]; rfl
        split at hs
        · cases hs
          exact hrefuse _
        · split at hs
          · cases hs
            exact hrefuse _
          · cases hs
            exact .reserve w (.inl hidle)
  | resume w =>
      rw [udpStep] at hs
      split at hs
      · rename_i hwait
        cases hs
        exact .reserve w (.inr hwait.1)
      · cases hs
        exact .stay
  | alloc w ok =>
      rw [udpStep] at hs
      split at hs
      · rename_i hpc
        cases hs
        refine .turn w _ ?_ ?_ fun hg => ?_
        · cases ok <;> rw [hpc] <;> rfl
        · cases ok <;> rw [hpc] <;> rfl
        · rw [hg hpc, hpc]
          rfl
      · cases hs
        exact .stay
  | send w ret =>
      rw [udpStep] at hs
      split at hs
      · rename_i hpc
        cases hs
        refine .turn w _ ?_ ?_ fun hg => ?_
        · split <;> rw [hpc] <;> rfl
        · split <;> rw [hpc] <;> rfl
        · rw [if_pos (hg hpc), hpc]
          rfl
      · cases hs
        exact .stay
  | complete w =>
      rw [udpStep] at hs
      split at hs
      · rename_i hpc
        cases hs
        exact .releaseMbuf w hpc
      · cases hs
        exact .stay
  | finish w =>
      rw [udpStep] at hs
      split at hs
      · rename_i freeConn hpc
        cases hs
        exact .finish w freeConn hpc
      · cases hs
        exact .stay
  | shutdown =>
      rw [udpStep] at hs
      split at hs
      · cases hs
      · rename_i hopen
        cases hs
        exact .shutdown (by simpa using hopen)
  | wakeAll =>
      rw [udpStep] at hs
      cases hs
      split
      · rename_i hshut
        exact .wakeAll hshut
      · exact .stay
  | close =>
      rw [udpStep] at hs
      split at hs
      · cases hs
        exact .stay
      · rename_i hno
        rw [not_not] at hno
        split at hs
        · cases hs
        · cases hs
          exact .close hno
  | closeLocked =>
      rw [udpStep] at hs
      split at hs
      · rename_i hchecked
        cases hs
        exact .closeLocked hchecked
      · cases hs
        exact .stay
  | closeFinish =>
      rw [udpStep] at hs
      split at hs
      · rename_i freeConn hfreeing
        cases hs
        exact .closeFinish freeConn hfreeing
      · cases hs
        exact .stay

/-- **What one step preserves.** -/
theorem UdpInv.step {e : UdpEvent W} (hi : UdpInv s) (hs : udpStep s e = .ok s') : UdpInv s' := by
  cases udpMove_of_step hs with
  | stay => exact hi
  | turn w p hfrees hslot _ => exact hi.setPc hfrees hslot
  | reserve w hpc => exact hi.reserve hpc
  | releaseMbuf w hpc => exact hi.releaseMbuf hpc
  | finish w freeConn hpc =>
      refine hi.move (w := w) (p := .released) rfl ?_ ?_ rfl rfl rfl
      · rw [hpc]
        rfl
      · rw [hpc]
        rfl
  | shutdown => exact ⟨hi.outqLen, hi.released, fun _ => rfl, hi.outqFree⟩
  | wakeAll => exact hi.setWaiters _
  | close hno =>
      have hnot : s.outqFree ≠ true := fun hfree => (hi.outqFree hfree).1 hno
      have hreleased := hi.released
      rw [UdpSock.released, hno] at hreleased
      exact ⟨hi.outqLen, hreleased, fun _ => rfl, fun hfree => absurd hfree hnot⟩
  | closeLocked hchecked =>
      have hnot : ¬ (s.outqFree = true ∧ s.outqLen = 0) := fun h => (hi.outqFree h.1).2 hchecked
      have hreleased := hi.released
      rw [UdpSock.released, hchecked, if_neg hnot] at hreleased
      have hshut := hi.shutdown (by rw [hchecked]; decide)
      refine ⟨hi.outqLen, ?_, fun _ => hshut, fun _ => ⟨by simp, by simp⟩⟩
      change s.releases + s.sum UdpPc.frees + (decide (s.outqLen = 0)).toNat =
        if true = true ∧ s.outqLen = 0 then 1 else 0
      change s.releases + s.sum UdpPc.frees + 0 = 0 at hreleased
      by_cases hlen : s.outqLen = 0
      · simpa [hlen] using hreleased
      · simpa [hlen] using hreleased
  | closeFinish freeConn hfreeing =>
      have hreleased := hi.released
      rw [UdpSock.released, hfreeing] at hreleased
      change s.releases + s.sum UdpPc.frees + freeConn.toNat = _ at hreleased
      have hshut := hi.shutdown (by rw [hfreeing]; simp)
      refine ⟨hi.outqLen, ?_, fun _ => hshut, fun _ => ⟨by simp, by simp⟩⟩
      change s.releases + freeConn.toNat + s.sum UdpPc.frees + 0 = _
      rw [← hreleased]
      omega

/-! ## Lost slots -/

theorem leaks_of_move (hpc : s'.pc = Function.update s.pc w p)
    (hleaks : (s.pc w).leaks = p.leaks) : s'.sum UdpPc.leaks = s.sum UdpPc.leaks := by
  have hsum := sum_move hpc UdpPc.leaks
  omega

theorem leaks_reserve (hpc : s.pc w = .idle ∨ s.pc w = .waiting) :
    (s.reserve w).sum UdpPc.leaks = s.sum UdpPc.leaks := by
  have hnone : (s.pc w).leaks = 0 := by
    rcases hpc with h | h <;> rw [h] <;> rfl
  rw [UdpSock.reserve]
  split
  · exact leaks_of_move (w := w) (p := .waiting) rfl hnone
  · split
    · exact leaks_of_move (w := w) (p := .refused (-ePipe)) rfl hnone
    · exact leaks_of_move (w := w) (p := .reserved) rfl hnone

/-- No slot is lost but by a failure. -/
theorem leaks_step {e : UdpEvent W} (hs : udpStep s e = .ok s') (hg : NoLateFailure s e) :
    s'.sum UdpPc.leaks = s.sum UdpPc.leaks := by
  cases udpMove_of_step hs with
  | turn w p _ _ hleaks => exact leaks_of_move rfl (hleaks hg)
  | reserve w hpc => exact leaks_reserve hpc
  | releaseMbuf w hpc =>
      exact leaks_of_move (w := w) (p := .releasing (s.outqFree && s.outqLen - 1 = 0)) rfl
        (by rw [hpc]; rfl)
  | finish w freeConn hpc => exact leaks_of_move (w := w) (p := .released) rfl (by rw [hpc]; rfl)
  | stay | shutdown | wakeAll | close | closeLocked | closeFinish => rfl

/-- A failure loses the slot. -/
theorem leaks_lost {e : UdpEvent W} (hg : ¬ NoLateFailure s e) :
    ∃ s', udpStep s e = .ok s' ∧ s'.sum UdpPc.leaks = s.sum UdpPc.leaks + 1 := by
  cases e with
  | alloc w ok =>
      rw [NoLateFailure, Classical.not_imp, Bool.not_eq_true] at hg
      obtain ⟨hpc, rfl⟩ := hg
      have hsum : (s.setPc w (.failed (-eNobufs))).sum UdpPc.leaks + UdpPc.leaks (s.pc w) =
          s.sum UdpPc.leaks + UdpPc.leaks (.failed (-eNobufs)) := sum_move rfl UdpPc.leaks
      rw [hpc] at hsum
      rw [udpStep, if_pos hpc]
      exact ⟨_, rfl, hsum⟩
  | send w ret =>
      rw [NoLateFailure, Classical.not_imp] at hg
      obtain ⟨hpc, hret⟩ := hg
      have hsum : (s.setPc w (.failed ret)).sum UdpPc.leaks + UdpPc.leaks (s.pc w) =
          s.sum UdpPc.leaks + UdpPc.leaks (.failed ret) := sum_move rfl UdpPc.leaks
      rw [hpc] at hsum
      rw [udpStep, if_pos hpc, if_neg hret]
      exact ⟨_, rfl, hsum⟩
  | write | resume | complete | finish | shutdown | wakeAll | close | closeLocked | closeFinish =>
      exact absurd trivial hg

/-! ## One call -/

/-- A call returned an error code. -/
def UdpWrite.IsError : UdpWrite → Prop
  | .waits => False
  | .refused _ => True
  | .sent _ _ ret => ret < 0

/-- It had taken a slot. -/
def UdpWrite.Late : UdpWrite → Prop
  | .waits => False
  | .refused ret => ret = -eNobufs
  | .sent _ _ _ => True

/-- A call that nothing interferes with. -/
theorem udpWriteTo_outqLen_iff {cfg : NetCfg} {c c' : UdpConn} {x : TransEntry}
    {pool : Option RawMbuf} {buf : List Byte} {raddr : Option NetAddr} {id : BitVec 16}
    {arp : ArpOut} {r : UdpWrite}
    (h : udpWriteTo cfg c x pool buf raddr id arp = some (c', r)) (herr : r.IsError) :
    c'.outqLen = c.outqLen ↔ ¬ r.Late := by
  have hnobufs : -eNobufs ≠ -eMsgSize ∧ -eNobufs ≠ -eDestAddrReq ∧ -eNobufs ≠ -ePipe := by decide
  rw [udpWriteTo] at h
  split at h
  · cases h
    exact iff_of_true rfl (Ne.symm hnobufs.1)
  · split at h
    · cases h
      exact iff_of_true rfl (Ne.symm hnobufs.2.1)
    · dsimp only at h
      split at h
      · cases h
        exact herr.elim
      · split at h
        · cases h
          exact iff_of_true rfl (Ne.symm hnobufs.2.2)
        · have hlonger : c.outqLen + 1 ≠ c.outqLen := by omega
          split at h
          · cases h
            exact iff_of_false hlonger (not_not.mpr rfl)
          · obtain ⟨m₁, -, h⟩ := Option.bind_eq_some_iff.mp h
            obtain ⟨⟨m₂, ret⟩, -, h⟩ := Option.bind_eq_some_iff.mp h
            cases h
            exact iff_of_false hlonger (not_not.mpr trivial)

/-- **The send queue.**  In every run of writes, completions, `udp_shutdown` and `udp_close`, the
queue is as long as there are slots held by writes whose packet was not released, and the socket is
released once, when it is closed and no slot is held any more, exactly as long as no write fails to
get a buffer or to hand it to the network layer after it took its slot.  These are also the errors
that leave the queue longer than it was. -/
theorem udp_queue_accounted_iff (kind : TransMatch) (outqCap : ℕ) (es : List (UdpEvent W)) :
    (Throughout udpStep UdpSock.Accounted (UdpSock.create W kind outqCap) es ↔
      Along udpStep NoLateFailure (UdpSock.create W kind outqCap) es) ∧
    ∀ (cfg : NetCfg) (c c' : UdpConn) (x : TransEntry) (pool : Option RawMbuf) (buf : List Byte)
      (raddr : Option NetAddr) (id : BitVec 16) (arp : ArpOut) (r : UdpWrite),
      udpWriteTo cfg c x pool buf raddr id arp = some (c', r) → r.IsError →
        (c'.outqLen = c.outqLen ↔ ¬ r.Late) := by
  refine ⟨?_, fun cfg c c' x pool buf raddr id arp r h herr => udpWriteTo_outqLen_iff h herr⟩
  have hcreate := UdpInv.create (W := W) kind outqCap
  have hstart : (UdpSock.create W kind outqCap).sum UdpPc.leaks = 0 :=
    Finset.sum_eq_zero fun _ _ => rfl
  refine throughout_iff_along (I := UdpInv) (H := fun _ _ => True) ?_ ?_ hcreate
    (hcreate.accounted_iff.mpr hstart) (Along.trivial es _)
  · intro s e s' hi hp _ hg hs
    have hi' := hi.step hs
    refine ⟨hi', hi'.accounted_iff.mpr ?_⟩
    rw [leaks_step hs hg]
    exact hi.accounted_iff.mp hp
  · intro s e hi hp _ hg
    obtain ⟨s', hs, hleaks⟩ := leaks_lost hg
    refine ⟨s', hs, fun hp' => ?_⟩
    rw [(hi.step hs).accounted_iff.mp hp'] at hleaks
    omega

end

/-- A write that gets no buffer, then `udp_close` of the socket. -/
def closeAfterFailure : List (UdpEvent Unit) :=
  [.write () 100 true, .alloc () false, .close, .closeLocked, .closeFinish]

/-- The slot is still counted, and the socket is never released. -/
theorem slot_lost : ∃ s, exec udpStep (UdpSock.create Unit .tuple5 128) closeAfterFailure = .ok s ∧
    s.pc () = .failed (-eNobufs) ∧ s.outqLen = 1 ∧ s.closing = .closed ∧ s.releases = 0 ∧
    ¬ s.Accounted := by
  refine ⟨_, exec_final (by decide), by decide, by decide, by decide, by decide, fun h => ?_⟩
  exact absurd h.outqLen (by decide)

end Skyloft
