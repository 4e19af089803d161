import Mathlib.Data.BitVec
import Mathlib.Data.List.Infix
import Mathlib.Logic.Function.Basic
import Skyloft.Lib.Run

/-!
# The ring of the round-robin policy

The runqueue of the round-robin policy is a ring of 32 slots without a lock.  Any CPU puts
tasks there: `put_task` takes a ticket from `tail`, compares it with `head` and fills the
slot of the ticket.  Only its own CPU takes tasks out: `fifo_sched_pick_next` exchanges the
slot at `head` with NULL and then advances `head`.  A slot is found empty as long as its
ticket is not served, also when later tickets are.

* `RrSys`, `rrStep` — the producers and the consumer, step by step.
* `RrInv` — every ticket from the next one on is under way or in its slot.
* `ring_order` — tasks come out once and in the order of their tickets.
-/

namespace Skyloft

open Run

/-! ## The system -/

/-- `RUNTIME_RQ_SIZE` -/
def rrSize : ℕ := 32

structure RrRq where
  head : BitVec 32
  tail : BitVec 32
  tasks : ℕ → Option ℕ

/-- Where a call of `put_task` is. -/
inductive PutPc
  | idle
  /-- the ticket is taken -/
  | ticketed (t : ℕ) (tail : BitVec 32)
  /-- the test against `head` is passed, the store is to come -/
  | checked (t : ℕ) (tail : BitVec 32)

/-- Where the consumer is. -/
inductive PickPc
  | idle
  /-- the slot is emptied, the store of `head + 1` is to come -/
  | taken (t : ℕ) (head : BitVec 32)

structure RrSys where
  rq : RrRq
  put : ℕ → PutPc
  pick : PickPc
  /-- the tasks in the order of their tickets -/
  tickets : List ℕ
  /-- what the calls of `fifo_sched_pick_next` returned -/
  returned : List ℕ

inductive RrFault
  /-- `panic("runqueue full")` -/
  | rqFull
  deriving DecidableEq

inductive RrEvent
  /-- producer `i` starts `put_task` of `t` and takes a ticket -/
  | ticket (i t : ℕ)
  /-- producer `i` compares its ticket with `head` -/
  | check (i : ℕ)
  /-- producer `i` fills its slot -/
  | store (i : ℕ)
  /-- the consumer reads `head` and exchanges the slot -/
  | exchange
  /-- the consumer advances `head` and returns the task -/
  | advance

/-- A counter under `RQ_SIZE_MASK`. -/
def rrSlot (k : BitVec 32) : ℕ := k.toNat % rrSize

namespace RrSys

def start : RrSys where
  rq := { head := 0, tail := 0, tasks := fun _ => none }
  put _ := .idle
  pick := .idle
  tickets := []
  returned := []

def setPut (s : RrSys) (i : ℕ) (p : PutPc) : RrSys :=
  { s with put := Function.update s.put i p }

def setTask (s : RrSys) (j : ℕ) (t : Option ℕ) : RrSys :=
  { s with rq := { s.rq with tasks := Function.update s.rq.tasks j t } }

/-- `fifo_sched_pick_next` up to the exchange. -/
def exchange (s : RrSys) : RrSys :=
  match s.pick with
  | .idle =>
      match s.rq.tasks (rrSlot s.rq.head) with
      | none => s
      | some t => { s.setTask (rrSlot s.rq.head) none with pick := .taken t s.rq.head }
  | .taken _ _ => s

/-- The rest of `fifo_sched_pick_next`. -/
def advance (s : RrSys) : RrSys :=
  match s.pick with
  | .idle => s
  | .taken t head =>
      { s with
        rq := { s.rq with head := head + 1#32 }
        pick := .idle
        returned := s.returned ++ [t] }

end RrSys

/-- One step.  An event that cannot happen changes nothing. -/
def rrStep (s : RrSys) : RrEvent → Except RrFault RrSys
  | .ticket i t =>
      match s.put i with
      | .idle =>
          .ok { s.setPut i (.ticketed t s.rq.tail) with
            rq := { s.rq with tail := s.rq.tail + 1#32 }
            tickets := s.tickets ++ [t] }
      | .ticketed _ _ | .checked _ _ => .ok s
  | .check i =>
      match s.put i with
      | .ticketed t tail =>
          if s.rq.head + BitVec.ofNat 32 rrSize ≤ tail then .error .rqFull
          else .ok (s.setPut i (.checked t tail))
      | .idle | .checked _ _ => .ok s
  | .store i =>
      match s.put i with
      | .checked t tail => .ok ((s.setTask (rrSlot tail) (some t)).setPut i .idle)
      | .idle | .ticketed _ _ => .ok s
  | .exchange => .ok s.exchange
  | .advance => .ok s.advance

/-- The ticket counter does not wrap. -/
def NoWrap (s : RrSys) : RrEvent → Prop
  | .ticket _ _ => s.rq.tail.toNat + 1 < 2 ^ 32
  | .check _ | .store _ | .exchange | .advance => True

instance (s : RrSys) : (e : RrEvent) → Decidable (NoWrap s e)
  | .ticket _ _ => inferInstanceAs (Decidable (_ < _))
  | .check _ | .store _ | .exchange | .advance => .isTrue trivial

namespace RrSys

/-- The tasks that have a ticket and were not returned. -/
def undelivered (s : RrSys) : List ℕ := s.tickets.drop s.returned.length

/-- A whole call of `fifo_sched_pick_next`. -/
def pickNext (s : RrSys) : Option ℕ × RrSys :=
  match s.exchange.pick with
  | .idle => (none, s.exchange)
  | .taken t _ => (some t, s.exchange.advance)

/-- What `n` calls of `fifo_sched_pick_next` return one after the other. -/
def picks : ℕ → RrSys → List (Option ℕ)
  | 0, _ => []
  | n + 1, s => s.pickNext.1 :: picks n s.pickNext.2

/-- No call is under way. -/
def Quiet (s : RrSys) : Prop := (∀ i, s.put i = .idle) ∧ s.pick = .idle

end RrSys

/-! ## The invariant -/

/-- The task and the ticket of a call of `put_task`. -/
def PutPc.ticket : PutPc → Option (ℕ × ℕ)
  | .idle => none
  | .ticketed t k | .checked t k => some (t, k.toNat)

namespace RrSys

/-- The ticket that the consumer serves next. -/
def next (s : RrSys) : ℕ :=
  match s.pick with
  | .idle => s.rq.head.toNat
  | .taken _ _ => s.rq.head.toNat + 1

/-- A call of `put_task` has ticket `k` and has not filled its slot. -/
def Pending (s : RrSys) (k : ℕ) : Prop := ∃ i t, (s.put i).ticket = some (t, k)

end RrSys

structure RrInv (s : RrSys) : Prop where
  count : s.rq.tail.toNat = s.tickets.length
  order : s.returned = s.tickets.take s.rq.head.toNat
  le : s.next ≤ s.tickets.length
  taken : ∀ t h, s.pick = .taken t h → h = s.rq.head ∧ s.tickets[h.toNat]? = some t
  /-- a slot in use belongs to a ticket of the current turn that is no longer under way -/
  slot : ∀ j t, s.rq.tasks j = some t →
    ∃ k, s.next ≤ k ∧ k < s.rq.head.toNat + rrSize ∧ k % rrSize = j ∧ s.tickets[k]? = some t ∧
      ¬ s.Pending k
  pending : ∀ i t k, (s.put i).ticket = some (t, k) → s.tickets[k]? = some t ∧ s.next ≤ k
  checked : ∀ i t k, s.put i = .checked t k → k.toNat < s.rq.head.toNat + rrSize
  inj : ∀ i j t u k, (s.put i).ticket = some (t, k) → (s.put j).ticket = some (u, k) → i = j
  /-- no ticket is lost -/
  cover : ∀ k, s.next ≤ k → k < s.tickets.length →
    s.Pending k ∨ (k < s.rq.head.toNat + rrSize ∧ s.rq.tasks (k % rrSize) = s.tickets[k]?)

variable {s s' : RrSys} {i : ℕ}

namespace RrSys

theorem head_le_next (s : RrSys) : s.rq.head.toNat ≤ s.next := by
  unfold next
  cases s.pick <;> simp

theorem next_idle (h : s.pick = .idle) : s.next = s.rq.head.toNat := by simp [next, h]

theorem next_taken {t : ℕ} {h : BitVec 32} (hp : s.pick = .taken t h) :
    s.next = s.rq.head.toNat + 1 := by
  simp [next, hp]

end RrSys

theorem rrInv_start : RrInv .start := by
  constructor <;> simp [RrSys.start, RrSys.next, PutPc.ticket]

/-- Two tickets of one turn with the same slot are the same. -/
theorem ticket_eq_of_slot {a k l : ℕ} (hk : a ≤ k) (hk' : k < a + rrSize) (hl : a ≤ l)
    (hl' : l < a + rrSize) (h : k % rrSize = l % rrSize) : k = l := by
  simp only [rrSize] at hk' hl' h
  omega

namespace RrInv

/-- A producer that passed the test finds its slot empty. -/
theorem slot_empty (h : RrInv s) {t : ℕ} {k : BitVec 32} (hp : s.put i = .checked t k) :
    s.rq.tasks (rrSlot k) = none := by
  have hpend : (s.put i).ticket = some (t, k.toNat) := by simp [hp, PutPc.ticket]
  by_contra hne
  rcases Option.ne_none_iff_exists'.mp hne with ⟨u, hu⟩
  rcases h.slot _ u hu with ⟨l, hl, hl', hslot, -, hnot⟩
  have hle := s.head_le_next
  have hkl : l = k.toNat :=
    ticket_eq_of_slot (hle.trans hl) hl' (hle.trans (h.pending i t _ hpend).2) (h.checked i t k hp)
      hslot
  exact hnot ⟨i, t, by rw [hkl, hpend]⟩

/-- The slot at `head` is in use when the task of the next ticket is there. -/
theorem slot_head (h : RrInv s) (hp : s.pick = .idle) {t : ℕ}
    (ht : s.rq.tasks (rrSlot s.rq.head) = some t) :
    s.tickets[s.rq.head.toNat]? = some t ∧ ¬ s.Pending s.rq.head.toNat := by
  rcases h.slot _ t ht with ⟨k, hk, hk', hslot, htk, hnot⟩
  rw [RrSys.next_idle hp] at hk
  have hkh : k = s.rq.head.toNat :=
    ticket_eq_of_slot hk hk' le_rfl (by simp [rrSize]) hslot
  rw [hkh] at htk hnot
  exact ⟨htk, hnot⟩

end RrInv

/-! ## Steps -/

theorem ticket_setPut_self (s : RrSys) (p : PutPc) : ((s.setPut i p).put i) = p := by
  simp [RrSys.setPut]

theorem ticket_setPut_of_ne (s : RrSys) (p : PutPc) {j : ℕ} (hj : j ≠ i) :
    (s.setPut i p).put j = s.put j := by
  simp [RrSys.setPut, Function.update_of_ne hj]

theorem rrTicket_inv (h : RrInv s) (hw : s.rq.tail.toNat + 1 < 2 ^ 32) {t : ℕ}
    (hp : s.put i = .idle) :
    RrInv { s.setPut i (.ticketed t s.rq.tail) with
      rq := { s.rq with tail := s.rq.tail + 1#32 }
      tickets := s.tickets ++ [t] } := by
  have hold : ∀ {k u : ℕ}, s.tickets[k]? = some u → (s.tickets ++ [t])[k]? = some u := by
    intro k u hk
    have hlt := (List.getElem?_eq_some_iff.mp hk).1
    rw [List.getElem?_append_left hlt, hk]
  have hle := s.head_le_next
  have hnext := h.le
  have hcases : ∀ j u k, ((s.setPut i (.ticketed t s.rq.tail)).put j).ticket = some (u, k) →
      (j = i ∧ u = t ∧ k = s.tickets.length) ∨ (j ≠ i ∧ (s.put j).ticket = some (u, k)) := by
    intro j u k hj
    by_cases hji : j = i
    · rw [hji, ticket_setPut_self] at hj
      simp only [PutPc.ticket, Option.some.injEq, Prod.mk.injEq] at hj
      exact .inl ⟨hji, hj.1.symm, by rw [← h.count, hj.2]⟩
    · rw [ticket_setPut_of_ne s _ hji] at hj
      exact .inr ⟨hji, hj⟩
  have hlt : ∀ {j u k}, (s.put j).ticket = some (u, k) → k < s.tickets.length := fun hj =>
    (List.getElem?_eq_some_iff.mp (h.pending _ _ _ hj).1).1
  refine ⟨?_, ?_, ?_, ?_, ?_, ?_, ?_, ?_, ?_⟩
  · have hone : (1#32).toNat = 1 := rfl
    simp only [BitVec.toNat_add, hone, List.length_append, List.length_singleton, ← h.count]
    exact Nat.mod_eq_of_lt hw
  · rw [List.take_append_of_le_length (hle.trans hnext)]
    exact h.order
  · have : s.next ≤ (s.tickets ++ [t]).length := by
      rw [List.length_append]
      omega
    exact this
  · intro u k hk
    have := h.taken u k hk
    exact ⟨this.1, hold this.2⟩
  · intro j u hu
    rcases h.slot j u hu with ⟨k, hk, hk', hslot, htk, hnot⟩
    refine ⟨k, hk, hk', hslot, hold htk, ?_⟩
    rintro ⟨l, v, hl⟩
    rcases hcases l v k hl with ⟨-, -, rfl⟩ | ⟨-, hl⟩
    · simp at htk
    · exact hnot ⟨l, v, hl⟩
  · intro j u k hj
    rcases hcases j u k hj with ⟨-, rfl, rfl⟩ | ⟨-, hj⟩
    · exact ⟨by simp, hnext⟩
    · exact ⟨hold (h.pending j u k hj).1, (h.pending j u k hj).2⟩
  · intro j u k hj
    by_cases hji : j = i
    · rw [hji] at hj
      simp [RrSys.setPut] at hj
    · exact h.checked j u k (by simpa [RrSys.setPut, Function.update_of_ne hji] using hj)
  · intro j l u v k hj hl
    rcases hcases j u k hj with ⟨hji, -, hk⟩ | ⟨-, hj'⟩ <;>
      rcases hcases l v k hl with ⟨hli, -, hk'⟩ | ⟨-, hl'⟩
    · rw [hji, hli]
    · have := hlt hl'
      omega
    · have := hlt hj'
      omega
    · exact h.inj j l u v k hj' hl'
  · intro k hk hklt
    by_cases hlast : k = s.tickets.length
    · refine .inl ⟨i, t, ?_⟩
      change ((s.setPut i (.ticketed t s.rq.tail)).put i).ticket = _
      rw [ticket_setPut_self]
      simp [PutPc.ticket, h.count, hlast]
    · have hk' : k < s.tickets.length := by
        simp only [List.length_append, List.length_singleton] at hklt
        omega
      rcases h.cover k hk hk' with ⟨j, u, hj⟩ | ⟨hb, hs⟩
      · have hji : j ≠ i := by
          rintro rfl
          simp [hp, PutPc.ticket] at hj
        refine .inl ⟨j, u, ?_⟩
        change ((s.setPut i (.ticketed t s.rq.tail)).put j).ticket = _
        rw [ticket_setPut_of_ne s _ hji, hj]
      · refine .inr ⟨hb, ?_⟩
        change s.rq.tasks (k % rrSize) = (s.tickets ++ [t])[k]?
        rw [List.getElem?_append_left hk', hs]

theorem rrCheck_inv (h : RrInv s) {t : ℕ} {k : BitVec 32} (hp : s.put i = .ticketed t k)
    (hk : ¬ s.rq.head + BitVec.ofNat 32 rrSize ≤ k) : RrInv (s.setPut i (.checked t k)) := by
  have hticket : ∀ j, ((s.setPut i (.checked t k)).put j).ticket = (s.put j).ticket := by
    intro j
    by_cases hj : j = i
    · rw [hj, ticket_setPut_self, hp]
      rfl
    · rw [ticket_setPut_of_ne s _ hj]
  have hpend : ∀ l, (s.setPut i (.checked t k)).Pending l ↔ s.Pending l := by
    intro l
    simp only [RrSys.Pending, hticket]
  refine ⟨h.count, h.order, h.le, h.taken, ?_, ?_, ?_, ?_, ?_⟩
  · intro j u hj
    rcases h.slot j u hj with ⟨l, hl, hl', hslot, htl, hnot⟩
    exact ⟨l, hl, hl', hslot, htl, fun hn => hnot ((hpend l).mp hn)⟩
  · intro j u l hj
    rw [hticket] at hj
    exact h.pending j u l hj
  · intro j u l hj
    by_cases hji : j = i
    · rw [hji, ticket_setPut_self] at hj
      cases hj
      -- the sum may wrap, and is then smaller still
      have hlt : k.toNat < (s.rq.head + BitVec.ofNat 32 rrSize).toNat := by
        simpa [BitVec.le_def] using hk
      have hmod : (s.rq.head + BitVec.ofNat 32 rrSize).toNat ≤ s.rq.head.toNat + rrSize := by
        rw [BitVec.toNat_add]
        exact Nat.mod_le _ _
      exact lt_of_lt_of_le hlt hmod
    · rw [ticket_setPut_of_ne s _ hji] at hj
      exact h.checked j u l hj
  · simpa only [hticket] using h.inj
  · intro l hl hlt
    rw [hpend]
    exact h.cover l hl hlt

theorem rrStore_inv (h : RrInv s) {t : ℕ} {k : BitVec 32} (hp : s.put i = .checked t k) :
    RrInv ((s.setTask (rrSlot k) (some t)).setPut i .idle) := by
  have hself : (s.put i).ticket = some (t, k.toNat) := by simp [hp, PutPc.ticket]
  have hempty := h.slot_empty hp
  have hmine := h.pending i t _ hself
  have hb := h.checked i t k hp
  have hticket : ∀ j u l, (((s.setTask (rrSlot k) (some t)).setPut i .idle).put j).ticket =
      some (u, l) ↔ j ≠ i ∧ (s.put j).ticket = some (u, l) := by
    intro j u l
    by_cases hj : j = i
    · simp [hj, RrSys.setPut, PutPc.ticket]
    · simp [hj, RrSys.setPut, RrSys.setTask]
  have hpend : ∀ l, ((s.setTask (rrSlot k) (some t)).setPut i .idle).Pending l ↔
      l ≠ k.toNat ∧ s.Pending l := by
    intro l
    constructor
    · rintro ⟨j, u, hj⟩
      rw [hticket] at hj
      refine ⟨?_, j, u, hj.2⟩
      rintro rfl
      exact hj.1 (h.inj j i u t _ hj.2 hself)
    · rintro ⟨hl, j, u, hj⟩
      refine ⟨j, u, (hticket j u l).mpr ⟨?_, hj⟩⟩
      rintro rfl
      rw [hself, Option.some.injEq, Prod.mk.injEq] at hj
      exact hl hj.2.symm
  refine ⟨h.count, h.order, h.le, h.taken, ?_, ?_, ?_, ?_, ?_⟩
  · intro j u hj
    by_cases hjk : j = rrSlot k
    · have hut : t = u := by simpa [RrSys.setPut, RrSys.setTask, hjk] using hj
      refine ⟨k.toNat, hmine.2, hb, hjk.symm, hut ▸ hmine.1, ?_⟩
      rw [hpend]
      exact fun hn => hn.1 rfl
    · have hj' : s.rq.tasks j = some u := by
        simpa [RrSys.setPut, RrSys.setTask, Function.update_of_ne hjk] using hj
      rcases h.slot j u hj' with ⟨l, hl, hl', hslot, htl, hnot⟩
      refine ⟨l, hl, hl', hslot, htl, ?_⟩
      rw [hpend]
      exact fun hn => hnot hn.2
  · intro j u l hj
    exact h.pending j u l ((hticket j u l).mp hj).2
  · intro j u l hj
    by_cases hji : j = i
    · simp [hji, RrSys.setPut] at hj
    · exact h.checked j u l
        (by simpa [RrSys.setPut, RrSys.setTask, Function.update_of_ne hji] using hj)
  · intro j l u v m hj hl
    exact h.inj j l u v m ((hticket j u m).mp hj).2 ((hticket l v m).mp hl).2
  · intro l hl hlt
    by_cases hlk : l = k.toNat
    · refine .inr ⟨hlk ▸ hb, ?_⟩
      have : (some t : Option ℕ) = s.tickets[l]? := by rw [hlk, hmine.1]
      simpa [RrSys.setPut, RrSys.setTask, hlk, rrSlot] using this
    · rcases h.cover l hl hlt with hpl | ⟨hlb, hsl⟩
      · exact .inl ((hpend l).mpr ⟨hlk, hpl⟩)
      · -- the slot of `l` is in use, so it is not the one that is filled
        have hne : l % rrSize ≠ rrSlot k := by
          intro heq
          rw [heq, hempty] at hsl
          have hge := List.getElem?_eq_none_iff.mp hsl.symm
          exact absurd hlt (not_lt.mpr hge)
        refine .inr ⟨hlb, ?_⟩
        simpa [RrSys.setPut, RrSys.setTask, Function.update_of_ne hne] using hsl

/-- The exchange of a slot in use takes the task of the next ticket. -/
theorem rrTake_inv (h : RrInv s) (hp : s.pick = .idle) {t : ℕ}
    (ht : s.rq.tasks (rrSlot s.rq.head) = some t) :
    RrInv { s.setTask (rrSlot s.rq.head) none with pick := .taken t s.rq.head } := by
  have hhead := h.slot_head hp ht
  have hnext := RrSys.next_idle hp
  have hlt := (List.getElem?_eq_some_iff.mp hhead.1).1
  refine ⟨h.count, h.order, hlt, ?_, ?_, ?_, h.checked, h.inj, ?_⟩
  · intro u k hk
    cases hk
    exact ⟨rfl, hhead.1⟩
  · intro j u hj
    by_cases hjh : j = rrSlot s.rq.head
    · simp [RrSys.setTask, hjh] at hj
    · have hj' : s.rq.tasks j = some u := by
        simpa [RrSys.setTask, Function.update_of_ne hjh] using hj
      rcases h.slot j u hj' with ⟨k, hk, hk', hslot, htk, hnot⟩
      refine ⟨k, ?_, hk', hslot, htk, hnot⟩
      have hne : k ≠ s.rq.head.toNat := by
        rintro rfl
        exact hjh hslot.symm
      have hgt : s.rq.head.toNat + 1 ≤ k := by omega
      exact hgt
  · intro j u k hj
    have hk := h.pending j u k hj
    refine ⟨hk.1, ?_⟩
    have hne : k ≠ s.rq.head.toNat := by
      rintro rfl
      exact hhead.2 ⟨j, u, hj⟩
    have hgt : s.rq.head.toNat + 1 ≤ k := by omega
    exact hgt
  · intro k hk hklt
    have hgt : s.rq.head.toNat + 1 ≤ k := hk
    rcases h.cover k (by omega) hklt with hpk | ⟨hb, hs⟩
    · exact .inl hpk
    · have hne : k % rrSize ≠ rrSlot s.rq.head := by
        intro heq
        have := ticket_eq_of_slot (by omega) hb le_rfl (by simp [rrSize]) heq
        omega
      refine .inr ⟨hb, ?_⟩
      simpa [RrSys.setTask, Function.update_of_ne hne] using hs

theorem rrExchange_inv (h : RrInv s) : RrInv s.exchange := by
  cases hp : s.pick with
  | taken t k => simpa only [RrSys.exchange, hp] using h
  | idle =>
      cases ht : s.rq.tasks (rrSlot s.rq.head) with
      | none => simpa only [RrSys.exchange, hp, ht] using h
      | some t =>
          simp only [RrSys.exchange, hp, ht]
          exact rrTake_inv h hp ht

/-- The task that the consumer took is the next one to be returned. -/
theorem RrInv.returned_length (h : RrInv s) : s.returned.length = s.rq.head.toNat := by
  rw [h.order, List.length_take]
  have := s.head_le_next
  have := h.le
  omega

theorem rrAdvance_inv (h : RrInv s) : RrInv s.advance := by
  cases hp : s.pick with
  | idle => simpa only [RrSys.advance, hp] using h
  | taken t k =>
      have ht := h.taken t k hp
      have hk := ht.1
      subst hk
      have hlt := (List.getElem?_eq_some_iff.mp ht.2).1
      have htail : s.tickets.length < 2 ^ 32 := h.count ▸ s.rq.tail.isLt
      have hsucc : (s.rq.head + 1#32).toNat = s.rq.head.toNat + 1 := by
        rw [BitVec.toNat_add]
        simp only [BitVec.toNat_ofNat]
        omega
      have hnext := RrSys.next_taken hp
      simp only [RrSys.advance, hp]
      refine ⟨h.count, ?_, ?_, ?_, ?_, ?_, ?_, h.inj, ?_⟩
      · simp only [hsucc, List.take_add_one, ht.2]
        rw [h.order]
        rfl
      · simp only [RrSys.next, hsucc]
        omega
      · simp
      · intro j u hj
        rcases h.slot j u hj with ⟨l, hl, hl', hslot, htl, hnot⟩
        rw [hnext] at hl
        refine ⟨l, ?_, ?_, hslot, htl, hnot⟩
        · simpa only [RrSys.next, hsucc] using hl
        · simp only [hsucc]
          omega
      · intro j u l hj
        have hl := h.pending j u l hj
        rw [hnext] at hl
        exact ⟨hl.1, by simpa only [RrSys.next, hsucc] using hl.2⟩
      · intro j u l hj
        have := h.checked j u l hj
        simp only [hsucc]
        omega
      · intro l hl hllt
        have hl' : s.next ≤ l := by
          rw [hnext]
          simpa only [RrSys.next, hsucc] using hl
        rcases h.cover l hl' hllt with hpl | ⟨hb, hs⟩
        · exact .inl hpl
        · refine .inr ⟨?_, hs⟩
          simp only [hsucc]
          omega

theorem rrStep_inv (h : RrInv s) (e : RrEvent) (hg : NoWrap s e) (hs : rrStep s e = .ok s') :
    RrInv s' := by
  cases e with
  | ticket i t =>
      cases hp : s.put i with
      | idle =>
          simp only [rrStep, hp, Except.ok.injEq] at hs
          rw [← hs]
          exact rrTicket_inv h hg hp
      | _ =>
          simp only [rrStep, hp, Except.ok.injEq] at hs
          rwa [← hs]
  | check i =>
      cases hp : s.put i with
      | ticketed t k =>
          simp only [rrStep, hp] at hs
          by_cases hk : s.rq.head + BitVec.ofNat 32 rrSize ≤ k
          · simp [hk] at hs
          · simp only [hk, if_false, Except.ok.injEq] at hs
            rw [← hs]
            exact rrCheck_inv h hp hk
      | _ =>
          simp only [rrStep, hp, Except.ok.injEq] at hs
          rwa [← hs]
  | store i =>
      cases hp : s.put i with
      | checked t k =>
          simp only [rrStep, hp, Except.ok.injEq] at hs
          rw [← hs]
          exact rrStore_inv h hp
      | _ =>
          simp only [rrStep, hp, Except.ok.injEq] at hs
          rwa [← hs]
  | exchange =>
      cases hs
      exact rrExchange_inv h
  | advance =>
      cases hs
      exact rrAdvance_inv h

/-! ## Whole runs -/

theorem rrInv_of_run {es : List RrEvent} (hg : Along rrStep NoWrap .start es)
    (hs : exec rrStep .start es = .ok s) : RrInv s :=
  exec_invariant (I := RrInv) (fun _ e _ hi hge hstep => rrStep_inv hi e hge hstep) rrInv_start
    hg hs

/-- With no call under way the next ticket is in its slot. -/
theorem RrInv.slot_next (h : RrInv s) (hq : s.Quiet) :
    s.rq.tasks (rrSlot s.rq.head) = s.undelivered.head? := by
  have hnext := RrSys.next_idle hq.2
  rw [RrSys.undelivered, List.head?_drop, h.returned_length]
  by_cases hlt : s.rq.head.toNat < s.tickets.length
  · rcases h.cover s.rq.head.toNat hnext.le hlt with ⟨i, t, hi⟩ | hs
    · simp [hq.1 i, PutPc.ticket] at hi
    · exact hs.2
  · rw [List.getElem?_eq_none (by omega)]
    cases ht : s.rq.tasks (rrSlot s.rq.head) with
    | none => rfl
    | some t =>
        have := (List.getElem?_eq_some_iff.mp (h.slot_head hq.2 ht).1).1
        omega

/-- One call of `fifo_sched_pick_next` with no other call under way. -/
theorem RrInv.pickNext (h : RrInv s) (hq : s.Quiet) :
    s.pickNext.1 = s.undelivered.head? ∧ RrInv s.pickNext.2 ∧ s.pickNext.2.Quiet ∧
      s.pickNext.2.undelivered = s.undelivered.tail := by
  have hslot := h.slot_next hq
  cases hu : s.undelivered with
  | nil =>
      have hnone : s.exchange = s := by
        simp [RrSys.exchange, hq.2, hslot, hu]
      have hpick : s.pickNext = (none, s) := by
        simp [RrSys.pickNext, hnone, hq.2]
      simp [hpick, h, hq, hu]
  | cons t rest =>
      have hsome : s.exchange =
          { s.setTask (rrSlot s.rq.head) none with pick := .taken t s.rq.head } := by
        simp [RrSys.exchange, hq.2, hslot, hu]
      have hpick : s.pickNext = (some t, s.exchange.advance) := by
        simp [RrSys.pickNext, hsome]
      rw [hpick]
      refine ⟨rfl, rrAdvance_inv (rrExchange_inv h), ?_, ?_⟩
      · rw [hsome]
        exact ⟨hq.1, rfl⟩
      · rw [hsome]
        simp only [RrSys.advance, RrSys.undelivered, RrSys.setTask, List.length_append,
          List.length_singleton]
        have hdrop : s.tickets.drop s.returned.length = t :: rest := hu
        rw [← List.drop_drop, hdrop]
        rfl

/-- With all calls of `put_task` over, the end of a pick leaves no call under way. -/
theorem RrSys.advance_quiet (s : RrSys) (hq : ∀ i, s.put i = .idle) : s.advance.Quiet := by
  cases hp : s.pick <;> simp [RrSys.advance, RrSys.Quiet, hp, hq]

/-- Repeated calls return the tasks that are left, and then NULL. -/
theorem RrInv.picks : ∀ {us : List ℕ} {s : RrSys}, RrInv s → s.Quiet → s.undelivered = us →
    s.picks (us.length + 1) = us.map some ++ [none] := by
  intro us
  induction us with
  | nil =>
      intro s h hq hu
      have hp := h.pickNext hq
      simp [RrSys.picks, hp.1, hu]
  | cons t us ih =>
      intro s h hq hu
      have hp := h.pickNext hq
      have hrest := ih hp.2.1 hp.2.2.1 (by rw [hp.2.2.2, hu, List.tail_cons])
      rw [List.length_cons, RrSys.picks, hrest, hp.1, hu]
      simp

/-- **The ring keeps the order of the tickets.**  In every run in which the counters do not
wrap and no `put_task` panics, what was returned is the list of tasks in the order of their
tickets up to some point; a producer about to store finds its slot empty; and when all
calls of `put_task` are over, repeated picks return exactly the undelivered tasks before the
first NULL, once the consumer is through with the call it may be in. -/
theorem ring_order (es : List RrEvent) (hg : Along rrStep NoWrap .start es)
    (hs : exec rrStep .start es = .ok s) :
    s.returned <+: s.tickets ∧
      (∀ i t k, s.put i = .checked t k → s.rq.tasks (rrSlot k) = none) ∧
      ((∀ i, s.put i = .idle) →
        s.advance.picks (s.advance.undelivered.length + 1) =
          s.advance.undelivered.map some ++ [none]) := by
  have h := rrInv_of_run hg hs
  refine ⟨?_, ?_, ?_⟩
  · rw [h.order]
    exact List.take_prefix _ _
  · intro i t k hp
    exact h.slot_empty hp
  · intro hq
    exact (rrAdvance_inv h).picks (s.advance_quiet hq) rfl

/-- Three producers take tickets, the second fills its slot first, and the consumer finds
nothing until the first has filled its own. -/
def rrRun : List RrEvent :=
  [.ticket 0 10, .ticket 1 11, .ticket 2 12, .check 1, .store 1, .exchange, .check 0, .store 0,
    .exchange, .check 2, .advance, .store 2]

theorem ring_order_rrRun :
    (final rrStep .start rrRun).returned <+: (final rrStep .start rrRun).tickets ∧
      (∀ i t k, (final rrStep .start rrRun).put i = .checked t k →
        (final rrStep .start rrRun).rq.tasks (rrSlot k) = none) ∧
      ((∀ i, (final rrStep .start rrRun).put i = .idle) →
        (final rrStep .start rrRun).advance.picks
            ((final rrStep .start rrRun).advance.undelivered.length + 1) =
          (final rrStep .start rrRun).advance.undelivered.map some ++ [none]) :=
  ring_order rrRun (by decide) (exec_final (by decide))

example : (final rrStep .start rrRun).picks 3 = [some 11, some 12, none] := by decide

end Skyloft
