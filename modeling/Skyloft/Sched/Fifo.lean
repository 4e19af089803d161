import Skyloft.Lib.Ring
import Skyloft.Sched.Wakeup
import Skyloft.Sync.Timer

/-!
# The idle loop of the FIFO policy

A FIFO runqueue is a ring of 32 tasks with an overflow list.  Only its own CPU puts tasks
there; other CPUs steal from it under its lock.  When a pick in `schedule` finds the ring
empty, the CPU runs its expired timers and then balances: `fifo_sched_balance` resets the
ring to its first slot and steals half of another ring, an overflow task or a softirq.

The build is the one without DPDK, where the softirqs are the timers.  A CPU between a
failed pick and the end of the balance holds the lock of its own runqueue.

* `FifoRq` — the runqueue, and `putTask`, `pickNext` and `stealTask` on it.
* `FifoSys`, `fifoStep` — CPUs with runqueues and timers.
* `FifoInv` — the ring of an idle CPU is what its timers woke since the failed pick.
* `woken_kept`, `kept_iff` — when the balance loses no task.
-/

namespace Skyloft

open Run

/-! ## The runqueue -/

def runtimeRqSize : ℕ := 32

def softirqMaxBudget : ℕ := 16

structure FifoRq where
  head : BitVec 32
  tail : BitVec 32
  tasks : ℕ → ℕ
  overflow : List ℕ

namespace FifoRq

/-- `fifo_sched_init_percpu` -/
def init : FifoRq where
  head := 0
  tail := 0
  tasks _ := 0
  overflow := []

/-- `RQ_IS_EMPTY` -/
def isEmpty (rq : FifoRq) : Bool := rq.head == rq.tail

/-- A counter under `RQ_SIZE_MASK`. -/
def slot (i : BitVec 32) : ℕ := i.toNat % runtimeRqSize

/-- `tail - head`, as a 32-bit number. -/
def avail (rq : FifoRq) : ℕ := (rq.tail - rq.head).toNat

def full (rq : FifoRq) : Bool := runtimeRqSize ≤ rq.avail

/-- The part of `put_task` that writes the ring. -/
def push (rq : FifoRq) (t : ℕ) : FifoRq :=
  { rq with tasks := Function.update rq.tasks (slot rq.tail) t, tail := rq.tail + 1#32 }

/-- `put_task`, with the lock for the overflow list within reach. -/
def putTask (rq : FifoRq) (t : ℕ) : FifoRq :=
  if rq.full then { rq with overflow := rq.overflow ++ [t] } else rq.push t

/-- `fifo_sched_pick_next` -/
def pickNext (rq : FifoRq) : Option (ℕ × FifoRq) :=
  if rq.isEmpty then none
  else some (rq.tasks (slot rq.head), { rq with head := rq.head + 1#32 })

/-- `l->tasks[l->tail++] = task`; the index is not masked here. -/
def append (rq : FifoRq) (t : ℕ) : FifoRq :=
  { rq with tasks := Function.update rq.tasks rq.tail.toNat t, tail := rq.tail + 1#32 }

/-- `steal_task` of `l` from `r` once it has the lock of `r`; `softirq` is what
`softirq_task` returns. -/
def stealTask (l r : FifoRq) (softirq : Option ℕ) : Option (FifoRq × FifoRq) :=
  if r.avail = 0 then
    match r.overflow, softirq with
    | t :: rest, _ => some (l.append t, { r with overflow := rest })
    | [], some t => some (l.append t, r)
    | [], none => none
  else
    -- half the tasks, rounded up
    let n := (r.avail + 1) / 2
    some
      ({ l with
          tasks := fun i => if i < n then r.tasks (slot (r.head + BitVec.ofNat 32 i)) else l.tasks i
          tail := BitVec.ofNat 32 n },
        { r with head := r.head + BitVec.ofNat 32 n })

/-- The tasks in the ring, oldest first. -/
def ring (rq : FifoRq) : List ℕ := Ring.contents runtimeRqSize rq.tasks rq.head rq.tail

def Queued (rq : FifoRq) (t : ℕ) : Prop := t ∈ rq.ring ∨ t ∈ rq.overflow

end FifoRq

/-! ## The system -/

/-- Where a CPU is. -/
inductive FifoPhase
  /-- a task runs -/
  | task
  /-- before a pick -/
  | again
  /-- in the loop of `timer_softirq`, with the budget that is left -/
  | softirq (budget : ℕ)
  /-- before `fifo_sched_balance` -/
  | balance
  /-- a handler waits for the runqueue lock that its own CPU holds -/
  | hung
  deriving DecidableEq

structure FifoSys where
  rq : ℕ → FifoRq
  timers : ℕ → List Timer
  state : ℕ → TaskState
  phase : ℕ → FifoPhase
  /-- the tasks that timer handlers of an idle CPU made runnable since its failed pick -/
  woken : ℕ → List ℕ

/-- What a balance reads from outside: the random start, the locks it gets, the clock,
and the tasks that `task_create_with_buf` hands out. -/
structure Probe where
  start : BitVec 32
  free : ℕ → Bool
  now : ℕ
  alloc : ℕ → Option ℕ

inductive FifoEvent
  /-- the task on `c` spawns or wakes `t`, or yields as `t` -/
  | put (c t : ℕ)
  /-- the task `t` on `c` sleeps until a deadline -/
  | sleep (c t deadline : ℕ)
  /-- the task on `c` arms a timer with a handler of its own -/
  | arm (c : ℕ) (tm : Timer)
  /-- the task on `c` gives up the CPU -/
  | leave (c : ℕ)
  | pick (c : ℕ)
  /-- one test of the loop of `timer_softirq` with this clock, and its turn -/
  | tick (c now : ℕ)
  | balance (c : ℕ) (p : Probe)

namespace FifoSys

def start : FifoSys where
  rq _ := .init
  timers _ := []
  state _ := .runnable
  phase _ := .task
  woken _ := []

def setRq (s : FifoSys) (c : ℕ) (rq : FifoRq) : FifoSys :=
  { s with rq := Function.update s.rq c rq }

def setPhase (s : FifoSys) (c : ℕ) (p : FifoPhase) : FifoSys :=
  { s with phase := Function.update s.phase c p }

def setTimers (s : FifoSys) (c : ℕ) (ts : List Timer) : FifoSys :=
  { s with timers := Function.update s.timers c ts }

/-- The lock of a runqueue is held by its own idle CPU. -/
def lockHeld (s : FifoSys) (c : ℕ) : Bool :=
  match s.phase c with
  | .softirq _ | .balance | .hung => true
  | .task | .again => false

/-- `task_wakeup` in a timer handler of the idle CPU `c`.  When the ring is full,
`put_task` asks for the lock that `schedule` still holds. -/
def wakeup (s : FifoSys) (c t : ℕ) : FifoSys :=
  let s := { s with
    state := Function.update s.state t .runnable
    woken := Function.update s.woken c (s.woken c ++ [t]) }
  if (s.rq c).full then s.setPhase c .hung else s.setRq c ((s.rq c).push t)

/-- A timer handler: it wakes its tasks one after the other. -/
def handle (s : FifoSys) (c : ℕ) : List ℕ → FifoSys
  | [] => s
  | t :: ts =>
      let s := s.wakeup c t
      if s.phase c = .hung then s else s.handle c ts

/-- One attempt of the loop of `fifo_sched_balance`. -/
def steal (s : FifoSys) (c r : ℕ) (p : Probe) : Option FifoSys :=
  if r = c ∨ s.lockHeld r = true ∨ p.free r = false then none
  else
    let softirq := if timerNeeded (s.timers r) p.now then p.alloc r else none
    match (s.rq c).stealTask (s.rq r) softirq with
    | none => none
    | some (l, r') => some ((s.setRq c l).setRq r r')

/-- The loop of `fifo_sched_balance` over `w` CPUs, from attempt number `i` on. -/
def stealLoop (w : ℕ) (s : FifoSys) (c : ℕ) (p : Probe) : List ℕ → FifoSys
  | [] => s
  | i :: is =>
      match s.steal c ((p.start + BitVec.ofNat 32 i).toNat % w) p with
      | some s' => s'
      | none => stealLoop w s c p is

/-- `l->head = l->tail = 0` -/
def reset (s : FifoSys) (c : ℕ) : FifoSys :=
  s.setRq c { s.rq c with head := 0, tail := 0 }

/-- `fifo_sched_balance`; its assertions are compiled out. -/
def balance (w : ℕ) (s : FifoSys) (c : ℕ) (p : Probe) : FifoSys :=
  (s.reset c).stealLoop w c p (List.range w)

def Queued (s : FifoSys) (t : ℕ) : Prop := ∃ c, (s.rq c).Queued t

end FifoSys

/-- One step of a CPU.  An event that its phase does not know changes nothing. -/
def fifoNext (w : ℕ) (s : FifoSys) : FifoEvent → FifoSys
  | .put c t =>
      if s.phase c = .task then
        { s.setRq c ((s.rq c).putTask t) with
          state := Function.update s.state t .runnable }
      else s
  | .sleep c t deadline =>
      if s.phase c = .task then
        { (s.setTimers c (timerStart (s.timers c) ⟨deadline, [t]⟩)).setPhase c .again with
          state := Function.update s.state t .blocked }
      else s
  | .arm c tm =>
      if s.phase c = .task then s.setTimers c (timerStart (s.timers c) tm) else s
  | .leave c => if s.phase c = .task then s.setPhase c .again else s
  | .pick c =>
      if s.phase c = .again then
        match (s.rq c).pickNext with
        | some (_, rq) => (s.setRq c rq).setPhase c .task
        | none =>
            { s.setPhase c (.softirq softirqMaxBudget) with
              woken := Function.update s.woken c [] }
      else s
  | .tick c now =>
      match s.phase c with
      | .softirq (budget + 1) =>
          if timerNeeded (s.timers c) now then
            match timerPop (s.timers c) with
            | some (e, rest) => ((s.setTimers c rest).setPhase c (.softirq budget)).handle c e.wakes
            | none => s.setPhase c .balance
          else s.setPhase c .balance
      | .softirq 0 => s.setPhase c .balance
      | _ => s
  | .balance c p =>
      if s.phase c = .balance then (s.balance w c p).setPhase c .again else s

def fifoStep (w : ℕ) (s : FifoSys) (e : FifoEvent) : Except Empty FifoSys :=
  .ok (fifoNext w s e)

/-- At a balance the ring is empty, so that the reset discards nothing, and the tasks
that the timers woke are in some runqueue afterwards, as is every other queued task. -/
def Kept (w : ℕ) (s : FifoSys) : FifoEvent → Prop
  | .balance c p =>
      s.phase c = .balance →
        (s.rq c).isEmpty = true ∧
          (∀ t ∈ s.woken c, (s.balance w c p).Queued t) ∧
          ∀ t, s.Queued t → (s.balance w c p).Queued t
  | _ => True

/-- The timer that an idle CPU is about to run wakes no task. -/
def Quiet (s : FifoSys) : FifoEvent → Prop
  | .tick c now =>
      match s.phase c with
      | .softirq (_ + 1) => ∀ tm ∈ (s.timers c).head?, tm.deadlineUs ≤ now → tm.wakes = []
      | _ => True
  | .put _ _ | .sleep _ _ _ | .arm _ _ | .leave _ | .pick _ | .balance _ _ => True

instance (s : FifoSys) : (e : FifoEvent) → Decidable (Quiet s e)
  | .tick c now => by
      dsimp only [Quiet]
      rcases s.phase c with _ | _ | (_ | _) | _ | _ <;> infer_instance
  | .put _ _ | .sleep _ _ _ | .arm _ _ | .leave _ | .pick _ | .balance _ _ => .isTrue trivial

/-! ## The runqueue operations -/

namespace FifoRq

variable {rq l r l' r' : FifoRq} {t : ℕ}

theorem size_dvd : runtimeRqSize ∣ 2 ^ 32 := by decide

theorem length_ring : rq.ring.length = rq.avail := Ring.length_contents

theorem isEmpty_iff : rq.isEmpty = true ↔ rq.ring = [] := by
  simp [isEmpty, ring, Ring.contents_eq_nil]

theorem full_iff : rq.full = true ↔ 32 ≤ rq.avail := decide_eq_true_iff

theorem ring_push (h : rq.full = false) : (rq.push t).ring = rq.ring ++ [t] := by
  have hfree : (rq.tail - rq.head).toNat < runtimeRqSize := by
    exact not_le.mp (decide_eq_false_iff_not.mp h)
  exact Ring.contents_push size_dvd (by decide) hfree

theorem avail_push (h : rq.full = false) : (rq.push t).avail = rq.avail + 1 := by
  rw [← length_ring, ring_push h, List.length_append, length_ring, List.length_singleton]

theorem avail_putTask (h : rq.avail ≤ 32) : (rq.putTask t).avail ≤ 32 := by
  by_cases hf : rq.full = true
  · simpa [putTask, hf, avail] using h
  · have hlt : ¬ 32 ≤ rq.avail := fun h32 => hf (full_iff.mpr h32)
    rw [Bool.not_eq_true] at hf
    simp only [putTask, hf, Bool.false_eq_true, if_false, avail_push hf]
    omega

/-- The ring after its head advanced by `n`. -/
theorem ring_advance {n : ℕ} (hn : n ≤ rq.avail) :
    ({ rq with head := rq.head + BitVec.ofNat 32 n } : FifoRq).ring = rq.ring.drop n :=
  Ring.contents_drop size_dvd hn

theorem avail_pickNext (h : rq.avail ≤ 32) (hp : rq.pickNext = some (t, r)) :
    r.avail ≤ 32 := by
  by_cases he : rq.isEmpty = true
  · simp [pickNext, he] at hp
  · have hpos : 1 ≤ rq.avail := by
      rw [← length_ring]
      exact List.length_pos_iff.mpr fun hnil => he (isEmpty_iff.mpr hnil)
    simp only [pickNext, he, Bool.false_eq_true, if_false, Option.some.injEq,
      Prod.mk.injEq] at hp
    rw [← hp.2, ← length_ring]
    have hring : ({ rq with head := rq.head + 1#32 } : FifoRq).ring = rq.ring.drop 1 :=
      ring_advance hpos
    rw [hring, List.length_drop, length_ring]
    omega

/-- A task appended to a ring that was just reset. -/
theorem ring_append (hh : rq.head = 0) (ht : rq.tail = 0) : (rq.append t).ring = [t] := by
  have hslot : rq.tail.toNat = slot rq.tail := by simp [ht, slot]
  have hfree : rq.full = false := by simp [full, avail, hh, ht, runtimeRqSize]
  have hnil : rq.ring = [] := isEmpty_iff.mp (by simp [isEmpty, hh, ht])
  have happ : rq.append t = rq.push t := by simp [append, push, hslot]
  rw [happ, ring_push hfree, hnil, List.nil_append]

/-- Half of the tasks of `r` moved to the front of `l`. -/
theorem ring_half {n : ℕ} (hh : l.head = 0) (hn : n ≤ r.avail) (h32 : n ≤ 32) :
    ({ l with
        tasks := fun i => if i < n then r.tasks (slot (r.head + BitVec.ofNat 32 i)) else l.tasks i
        tail := BitVec.ofNat 32 n } : FifoRq).ring = r.ring.take n := by
  simp only [ring, hh]
  refine Ring.contents_copy size_dvd hn h32 ?_
  intro i hi
  simp [hi, slot]

theorem stealTask_spec {softirq : Option ℕ} (hh : l.head = 0) (ht : l.tail = 0)
    (hr : r.avail ≤ 32) (h : l.stealTask r softirq = some (l', r')) :
    l'.avail ≤ 32 ∧ r'.avail ≤ 32 ∧
      ∀ t, l.Queued t ∨ r.Queued t → l'.Queued t ∨ r'.Queued t := by
  have hnil : l.ring = [] := isEmpty_iff.mp (by simp [isEmpty, hh, ht])
  have hone : ∀ x, (l.append x).avail = 1 := by
    intro x
    rw [← length_ring, ring_append hh ht, List.length_singleton]
  by_cases h0 : r.avail = 0
  · have hrnil : r.ring = [] := List.length_eq_zero_iff.mp (length_ring.trans h0)
    simp only [stealTask, h0, if_true] at h
    cases ho : r.overflow with
    | cons x rest =>
        simp only [ho, Option.some.injEq, Prod.mk.injEq] at h
        rcases h with ⟨rfl, rfl⟩
        refine ⟨by simp [hone], by simpa [avail] using hr, ?_⟩
        intro y hy
        have hring : (l.append x).ring = [x] := ring_append hh ht
        simp only [Queued, hnil, hrnil, ho, hring] at hy ⊢
        simp only [append, List.mem_cons, List.not_mem_nil] at hy ⊢
        tauto
    | nil =>
        cases softirq with
        | none => simp [ho] at h
        | some x =>
            simp only [ho, Option.some.injEq, Prod.mk.injEq] at h
            rcases h with ⟨rfl, rfl⟩
            refine ⟨by simp [hone], hr, ?_⟩
            intro y hy
            simp only [Queued, hnil, hrnil, ho, append, List.not_mem_nil] at hy ⊢
            tauto
  · have hn : (r.avail + 1) / 2 ≤ r.avail := by omega
    have h32 : (r.avail + 1) / 2 ≤ 32 := by omega
    simp only [stealTask, h0, if_false, Option.some.injEq, Prod.mk.injEq] at h
    rcases h with ⟨rfl, rfl⟩
    refine ⟨?_, ?_, ?_⟩
    · rw [← length_ring, ring_half hh hn h32, List.length_take]
      omega
    · rw [← length_ring, ring_advance hn, List.length_drop, length_ring]
      omega
    · intro y hy
      -- a task of the old ring is in one of its two parts
      have hparts : y ∈ r.ring →
          y ∈ r.ring.take ((r.avail + 1) / 2) ∨ y ∈ r.ring.drop ((r.avail + 1) / 2) := by
        intro hm
        rw [← List.mem_append, List.take_append_drop]
        exact hm
      simp only [Queued, ring_half hh hn h32, ring_advance hn, hnil, List.not_mem_nil] at hy ⊢
      tauto

end FifoRq

/-! ## The invariant -/

/-- A CPU between a failed pick and its balance. -/
def FifoPhase.Idle (p : FifoPhase) : Prop := (∃ b, p = .softirq b) ∨ p = .balance

structure FifoInv (s : FifoSys) : Prop where
  bound : ∀ c, (s.rq c).avail ≤ 32
  idle : ∀ c, (s.phase c).Idle → (s.rq c).ring = s.woken c

variable {w c : ℕ} {s s' : FifoSys} {p : Probe}

theorem lockHeld_of_idle (h : (s.phase c).Idle) : s.lockHeld c = true := by
  rcases h with ⟨b, h⟩ | h <;> simp [FifoSys.lockHeld, h]

theorem fifoInv_start : FifoInv .start := by
  constructor
  · intro c
    simp [FifoSys.start, FifoRq.init, FifoRq.avail]
  · intro c h
    simp [FifoSys.start, FifoPhase.Idle] at h

/-- A step of CPU `c` leaves the phases and the woken tasks of the others alone, and their
runqueues too unless it could take the lock. -/
theorem FifoInv.local (h : FifoInv s) (c : ℕ)
    (hphase : ∀ d ≠ c, s'.phase d = s.phase d) (hwoken : ∀ d ≠ c, s'.woken d = s.woken d)
    (hrq : ∀ d ≠ c, s'.rq d = s.rq d ∨ (s.lockHeld d = false ∧ (s'.rq d).avail ≤ 32))
    (hbound : (s'.rq c).avail ≤ 32)
    (hidle : (s'.phase c).Idle → (s'.rq c).ring = s'.woken c) : FifoInv s' := by
  constructor
  · intro d
    by_cases hd : d = c
    · subst hd
      exact hbound
    · rcases hrq d hd with hsame | ⟨-, hle⟩
      · rw [hsame]
        exact h.bound d
      · exact hle
  · intro d hi
    by_cases hd : d = c
    · subst hd
      exact hidle hi
    · rw [hphase d hd] at hi
      rcases hrq d hd with hsame | ⟨hfree, -⟩
      · rw [hsame, hwoken d hd]
        exact h.idle d hi
      · simp [lockHeld_of_idle hi] at hfree

/-- A step that changes no runqueue and ends in a phase that is not idle. -/
theorem FifoInv.setPhase (h : FifoInv s) {q : FifoPhase} (hq : ¬ q.Idle) :
    FifoInv (s.setPhase c q) := by
  refine h.local c ?_ ?_ ?_ (h.bound c) ?_
  · intro d hd
    simp [FifoSys.setPhase, Function.update_of_ne hd]
  · intro d _
    rfl
  · intro d _
    exact .inl rfl
  · intro hi
    simp only [FifoSys.setPhase, Function.update_self] at hi
    exact absurd hi hq

theorem FifoInv.setPhase_idle (h : FifoInv s) {q : FifoPhase} (hc : (s.phase c).Idle) :
    FifoInv (s.setPhase c q) := by
  refine h.local c ?_ ?_ ?_ (h.bound c) fun _ => h.idle c hc
  · intro d hd
    simp [FifoSys.setPhase, Function.update_of_ne hd]
  · intro d _
    rfl
  · intro d _
    exact .inl rfl

theorem FifoInv.congr (h : FifoInv s) (hphase : s'.phase = s.phase)
    (hwoken : s'.woken = s.woken) (hrq : s'.rq = s.rq) : FifoInv s' := by
  constructor
  · intro c
    rw [hrq]
    exact h.bound c
  · intro c
    rw [hrq, hwoken, hphase]
    exact h.idle c

/-! ## Timer handlers -/

theorem wakeup_inv (h : FifoInv s) (hc : (s.phase c).Idle) (t : ℕ) :
    FifoInv (s.wakeup c t) := by
  by_cases hf : (s.rq c).full = true
  · refine h.local c ?_ ?_ ?_ ?_ ?_
    · intro d hd
      simp [FifoSys.wakeup, hf, FifoSys.setPhase, Function.update_of_ne hd]
    · intro d hd
      simp [FifoSys.wakeup, hf, FifoSys.setPhase, Function.update_of_ne hd]
    · intro d _
      simp [FifoSys.wakeup, hf, FifoSys.setPhase]
    · simpa [FifoSys.wakeup, hf, FifoSys.setPhase] using h.bound c
    · simp [FifoSys.wakeup, hf, FifoSys.setPhase, FifoPhase.Idle]
  · have hlt : ¬ 32 ≤ (s.rq c).avail := fun h32 => hf (FifoRq.full_iff.mpr h32)
    rw [Bool.not_eq_true] at hf
    refine h.local c ?_ ?_ ?_ ?_ ?_
    · intro d _
      simp [FifoSys.wakeup, hf, FifoSys.setRq]
    · intro d hd
      simp [FifoSys.wakeup, hf, FifoSys.setRq, Function.update_of_ne hd]
    · intro d hd
      simp [FifoSys.wakeup, hf, FifoSys.setRq, Function.update_of_ne hd]
    · simp only [FifoSys.wakeup, hf, FifoSys.setRq, Bool.false_eq_true, if_false,
        Function.update_self, FifoRq.avail_push hf]
      omega
    · intro _
      simp [FifoSys.wakeup, hf, FifoSys.setRq, FifoRq.ring_push hf, h.idle c hc]

theorem wakeup_phase (hc : (s.phase c).Idle) (t : ℕ) (hne : (s.wakeup c t).phase c ≠ .hung) :
    ((s.wakeup c t).phase c).Idle := by
  by_cases hf : (s.rq c).full = true
  · simp [FifoSys.wakeup, hf, FifoSys.setPhase] at hne
  · rw [Bool.not_eq_true] at hf
    simpa [FifoSys.wakeup, hf, FifoSys.setRq] using hc

theorem handle_inv (ts : List ℕ) : ∀ {s : FifoSys}, FifoInv s → (s.phase c).Idle →
    FifoInv (s.handle c ts) := by
  induction ts with
  | nil => intro s h _; exact h
  | cons t ts ih =>
      intro s h hc
      simp only [FifoSys.handle]
      by_cases hh : (s.wakeup c t).phase c = .hung
      · simpa [hh] using wakeup_inv h hc t
      · simpa [hh] using ih (wakeup_inv h hc t) (wakeup_phase hc t hh)

/-! ## The balance -/

/-- What a round of stealing for `c` does to the system. -/
structure Stolen (c : ℕ) (s s' : FifoSys) : Prop where
  phase : s'.phase = s.phase
  woken : s'.woken = s.woken
  others : ∀ d ≠ c, s'.rq d = s.rq d ∨ (s.lockHeld d = false ∧ (s'.rq d).avail ≤ 32)
  own : (s'.rq c).avail ≤ 32
  queued : ∀ t, s.Queued t → s'.Queued t

theorem Stolen.refl (h : (s.rq c).avail ≤ 32) : Stolen c s s where
  phase := rfl
  woken := rfl
  others _ _ := .inl rfl
  own := h
  queued _ ht := ht

theorem steal_spec {r : ℕ} (hh : (s.rq c).head = 0) (ht : (s.rq c).tail = 0)
    (hb : ∀ d, (s.rq d).avail ≤ 32) (h : s.steal c r p = some s') : Stolen c s s' := by
  by_cases hno : r = c ∨ s.lockHeld r = true ∨ p.free r = false
  · simp [FifoSys.steal, hno] at h
  · simp only [FifoSys.steal, hno, if_false] at h
    simp only [not_or, Bool.not_eq_true] at hno
    rcases hno with ⟨hrc, hlock, -⟩
    revert h
    cases hs : (s.rq c).stealTask (s.rq r)
        (if timerNeeded (s.timers r) p.now then p.alloc r else none) with
    | none => simp
    | some lr =>
        rcases lr with ⟨l, r'⟩
        have hspec := FifoRq.stealTask_spec hh ht (hb r) hs
        simp only [Option.some.injEq]
        rintro rfl
        have hown : ((s.setRq c l).setRq r r').rq c = l := by
          simp [FifoSys.setRq, Function.update_of_ne (Ne.symm hrc)]
        have hvictim : ((s.setRq c l).setRq r r').rq r = r' := by
          simp [FifoSys.setRq]
        have hrest : ∀ d, d ≠ c → d ≠ r → ((s.setRq c l).setRq r r').rq d = s.rq d := by
          intro d hd hdr
          simp [FifoSys.setRq, Function.update_of_ne hd, Function.update_of_ne hdr]
        refine ⟨rfl, rfl, ?_, ?_, ?_⟩
        · intro d hd
          by_cases hdr : d = r
          · subst hdr
            rw [hvictim]
            exact .inr ⟨hlock, hspec.2.1⟩
          · exact .inl (hrest d hd hdr)
        · rw [hown]
          exact hspec.1
        · -- a task of the two runqueues is in one of them afterwards
          rintro t ⟨d, hd⟩
          have hpair : (s.rq c).Queued t ∨ (s.rq r).Queued t →
              ((s.setRq c l).setRq r r').Queued t := by
            intro hq
            rcases hspec.2.2 t hq with hq | hq
            · exact ⟨c, by rwa [hown]⟩
            · exact ⟨r, by rwa [hvictim]⟩
          by_cases hdc : d = c
          · subst hdc
            exact hpair (.inl hd)
          · by_cases hdr : d = r
            · subst hdr
              exact hpair (.inr hd)
            · exact ⟨d, by rwa [hrest d hdc hdr]⟩

theorem stealLoop_spec (hh : (s.rq c).head = 0) (ht : (s.rq c).tail = 0)
    (hb : ∀ d, (s.rq d).avail ≤ 32) (is : List ℕ) : Stolen c s (s.stealLoop w c p is) := by
  induction is with
  | nil => exact .refl (hb c)
  | cons i is ih =>
      simp only [FifoSys.stealLoop]
      cases hs : s.steal c ((p.start + BitVec.ofNat 32 i).toNat % w) p with
      | none => exact ih
      | some s' => exact steal_spec hh ht hb hs

theorem reset_self : ((s.reset c).rq c).head = 0 ∧ ((s.reset c).rq c).tail = 0 := by
  simp [FifoSys.reset, FifoSys.setRq]

theorem reset_other {d : ℕ} (hd : d ≠ c) : (s.reset c).rq d = s.rq d := by
  simp [FifoSys.reset, FifoSys.setRq, Function.update_of_ne hd]

theorem balance_stolen (hb : ∀ d, (s.rq d).avail ≤ 32) :
    Stolen c (s.reset c) (s.balance w c p) := by
  refine stealLoop_spec reset_self.1 reset_self.2 ?_ _
  intro d
  by_cases hd : d = c
  · subst hd
    simp [FifoRq.avail, reset_self]
  · rw [reset_other hd]
    exact hb d

/-- Resetting an empty ring loses no task. -/
theorem reset_queued (he : (s.rq c).isEmpty = true) {t : ℕ} (h : s.Queued t) :
    (s.reset c).Queued t := by
  rcases h with ⟨d, hd⟩
  refine ⟨d, ?_⟩
  by_cases hdc : d = c
  · subst hdc
    rcases hd with hd | hd
    · simp [FifoRq.isEmpty_iff.mp he] at hd
    · exact .inr (by simpa [FifoSys.reset, FifoSys.setRq] using hd)
  · rwa [reset_other hdc]

theorem balance_inv (h : FifoInv s) : FifoInv ((s.balance w c p).setPhase c .again) := by
  have hst : Stolen c (s.reset c) (s.balance w c p) := balance_stolen h.bound
  refine h.local c ?_ ?_ ?_ hst.own ?_
  · intro d hd
    simp only [FifoSys.setPhase, Function.update_of_ne hd, hst.phase]
    rfl
  · intro d _
    exact congrFun hst.woken d
  · intro d hd
    have := hst.others d hd
    rwa [reset_other hd] at this
  · simp [FifoSys.setPhase, FifoPhase.Idle]

/-! ## Steps -/

/-- A turn of the loop of `timer_softirq`: the loop ends, or the root is taken off the heap
and its handler runs. -/
theorem tick_cases (c now : ℕ) (hc : (s.phase c).Idle) :
    fifoNext w s (.tick c now) = s ∨
    fifoNext w s (.tick c now) = s.setPhase c .balance ∨
    ∃ budget e rest, s.phase c = .softirq (budget + 1) ∧ timerNeeded (s.timers c) now = true ∧
      timerPop (s.timers c) = some (e, rest) ∧
      fifoNext w s (.tick c now) =
        ((s.setTimers c rest).setPhase c (.softirq budget)).handle c e.wakes := by
  rcases hc with ⟨b, hb⟩ | hb
  · cases b with
    | zero => simp [fifoNext, hb]
    | succ budget =>
        by_cases hn : timerNeeded (s.timers c) now = true
        · cases hp : timerPop (s.timers c) with
          | none => simp [fifoNext, hb, hn, hp]
          | some er =>
              rcases er with ⟨e, rest⟩
              exact .inr (.inr ⟨budget, e, rest, hb, hn, rfl, by simp [fifoNext, hb, hn, hp]⟩)
        · simp [fifoNext, hb, hn]
  · simp [fifoNext, hb]

theorem tick_not_idle {c now : ℕ} (hc : ¬ (s.phase c).Idle) :
    fifoNext w s (.tick c now) = s := by
  cases hp : s.phase c with
  | softirq b => exact absurd (.inl ⟨b, hp⟩) hc
  | balance => exact absurd (.inr hp) hc
  | _ => simp [fifoNext, hp]

theorem tick_inv (h : FifoInv s) (c now : ℕ) : FifoInv (fifoNext w s (.tick c now)) := by
  by_cases hc : (s.phase c).Idle
  · rcases tick_cases (w := w) c now hc with heq | heq | ⟨budget, e, rest, -, -, -, heq⟩
    · rwa [heq]
    · rw [heq]
      exact h.setPhase_idle hc
    · rw [heq]
      have h₁ : FifoInv (s.setTimers c rest) := h.congr rfl rfl rfl
      have h₂ : FifoInv ((s.setTimers c rest).setPhase c (.softirq budget)) :=
        h₁.setPhase_idle hc
      refine handle_inv _ h₂ (.inl ⟨budget, ?_⟩)
      simp [FifoSys.setPhase]
  · rwa [tick_not_idle hc]

theorem pick_inv (h : FifoInv s) (c : ℕ) : FifoInv (fifoNext w s (.pick c)) := by
  by_cases hc : s.phase c = .again
  · cases hp : (s.rq c).pickNext with
    | none =>
        -- the pick failed, so that the ring is as empty as the list of woken tasks
        have hnil : (s.rq c).ring = [] := by
          by_contra hne
          have hf : (s.rq c).isEmpty = false := by
            rw [← Bool.not_eq_true, FifoRq.isEmpty_iff]
            exact hne
          simp [FifoRq.pickNext, hf] at hp
        simp only [fifoNext, hc, hp, if_true]
        refine h.local c ?_ ?_ ?_ (h.bound c) ?_
        · intro d hd
          simp [FifoSys.setPhase, Function.update_of_ne hd]
        · intro d hd
          simp [Function.update_of_ne hd]
        · intro d _
          exact .inl rfl
        · intro _
          simpa [FifoSys.setPhase] using hnil
    | some tr =>
        rcases tr with ⟨t, rq⟩
        simp only [fifoNext, hc, hp, if_true]
        refine h.local c ?_ ?_ ?_ ?_ ?_
        · intro d hd
          simp [FifoSys.setPhase, FifoSys.setRq, Function.update_of_ne hd]
        · intro d _
          rfl
        · intro d hd
          simp [FifoSys.setPhase, FifoSys.setRq, Function.update_of_ne hd]
        · simpa [FifoSys.setPhase, FifoSys.setRq] using FifoRq.avail_pickNext (h.bound c) hp
        · simp [FifoSys.setPhase, FifoPhase.Idle]
  · simpa only [fifoNext, hc, if_false] using h

theorem put_inv (h : FifoInv s) (c t : ℕ) : FifoInv (fifoNext w s (.put c t)) := by
  by_cases hc : s.phase c = .task
  · simp only [fifoNext, hc, if_true]
    refine h.local c ?_ ?_ ?_ ?_ ?_
    · intro d _
      rfl
    · intro d _
      rfl
    · intro d hd
      simp [FifoSys.setRq, Function.update_of_ne hd]
    · simpa [FifoSys.setRq] using FifoRq.avail_putTask (h.bound c)
    · simp [FifoSys.setRq, FifoPhase.Idle, hc]
  · simpa only [fifoNext, hc, if_false] using h

theorem fifoNext_inv (h : FifoInv s) (e : FifoEvent) : FifoInv (fifoNext w s e) := by
  cases e with
  | put c t => exact put_inv h c t
  | pick c => exact pick_inv h c
  | tick c now => exact tick_inv h c now
  | sleep c t deadline =>
      by_cases hc : s.phase c = .task
      · simp only [fifoNext, hc, if_true]
        have hq : ¬ FifoPhase.Idle .again := by simp [FifoPhase.Idle]
        exact (h.setPhase hq).congr rfl rfl rfl
      · simpa only [fifoNext, hc, if_false] using h
  | arm c tm =>
      by_cases hc : s.phase c = .task
      · simp only [fifoNext, hc, if_true]
        exact h.congr rfl rfl rfl
      · simpa only [fifoNext, hc, if_false] using h
  | leave c =>
      by_cases hc : s.phase c = .task
      · simp only [fifoNext, hc, if_true]
        exact h.setPhase (by simp [FifoPhase.Idle])
      · simpa only [fifoNext, hc, if_false] using h
  | balance c p =>
      by_cases hc : s.phase c = .balance
      · simp only [fifoNext, hc, if_true]
        exact balance_inv h
      · simpa only [fifoNext, hc, if_false] using h

/-! ## What the balance keeps -/

theorem Kept.of_inv (h : FifoInv s) (hc : s.phase c = .balance) :
    Kept w s (.balance c p) ↔ s.woken c = [] := by
  have hring := h.idle c (.inr hc)
  constructor
  · intro hk
    rw [← hring, ← FifoRq.isEmpty_iff]
    exact (hk hc).1
  · intro hnil _
    have he : (s.rq c).isEmpty = true := by rw [FifoRq.isEmpty_iff, hring, hnil]
    refine ⟨he, by simp [hnil], ?_⟩
    intro t ht
    exact (balance_stolen h.bound).queued t (reset_queued he ht)

/-- In every state of every run, a balance finds its ring empty and keeps all tasks if
and only if the timers since the failed pick woke nobody. -/
theorem kept_iff {es : List FifoEvent} (hs : exec (fifoStep w) .start es = .ok s)
    (hc : s.phase c = .balance) : Kept w s (.balance c p) ↔ s.woken c = [] := by
  have hinv : FifoInv s := by
    refine exec_invariant (fun s e s' h _ hstep => ?_) fifoInv_start
      (Along.trivial es FifoSys.start) hs
    cases hstep
    exact fifoNext_inv h e
  exact Kept.of_inv hinv hc

/-- Only a timer handler of an idle CPU adds to the woken tasks. -/
theorem fifoNext_quiet (hinv : FifoInv s) (h : ∀ c, s.woken c = []) {e : FifoEvent}
    (hq : Quiet s e) : ∀ c, (fifoNext w s e).woken c = [] := by
  cases e with
  | put c t | sleep c t deadline | arm c tm | leave c =>
      intro d
      by_cases hc : s.phase c = .task
      · simp only [fifoNext, hc, if_true]
        exact h d
      · simpa only [fifoNext, hc, if_false] using h d
  | pick c =>
      intro d
      by_cases hc : s.phase c = .again
      · cases hp : (s.rq c).pickNext with
        | none =>
            simp only [fifoNext, hc, hp, if_true]
            by_cases hd : d = c
            · simp [hd]
            · simpa [Function.update_of_ne hd] using h d
        | some tr =>
            simp only [fifoNext, hc, hp, if_true]
            exact h d
      · simpa only [fifoNext, hc, if_false] using h d
  | tick c now =>
      intro d
      by_cases hc : (s.phase c).Idle
      · rcases tick_cases (w := w) c now hc with heq | heq | ⟨budget, e, rest, hb, hn, hp, heq⟩
        · rw [heq]
          exact h d
        · rw [heq]
          exact h d
        · have hhead := timerPop_head? hp
          have hw : e.wakes = [] := by
            simp only [Quiet, hb] at hq
            exact hq e hhead (timerNeeded_head? hhead hn)
          rw [heq, hw]
          exact h d
      · rw [tick_not_idle hc]
        exact h d
  | balance c p =>
      intro d
      by_cases hc : s.phase c = .balance
      · simp only [fifoNext, hc, if_true]
        have hst : Stolen c (s.reset c) (s.balance w c p) := balance_stolen hinv.bound
        exact (congrFun hst.woken d).trans (h d)
      · simpa only [fifoNext, hc, if_false] using h d

/-- **The idle loop keeps woken tasks.**  In every run in which no timer that an idle CPU
fires wakes a task, every balance finds its ring empty and keeps all queued tasks. -/
theorem woken_kept (w : ℕ) (es : List FifoEvent)
    (hq : Along (fifoStep w) Quiet .start es) : Along (fifoStep w) (Kept w) .start es := by
  refine Along.imp (I := fun s => FifoInv s ∧ ∀ c, s.woken c = []) ?_ ?_
    ⟨fifoInv_start, ?_⟩ hq
  · rintro s e s' ⟨h, hw⟩ hq hstep
    cases hstep
    exact ⟨fifoNext_inv h e, fifoNext_quiet h hw hq⟩
  · rintro s e ⟨h, hw⟩ -
    cases e with
    | balance c p =>
        intro hc
        exact (Kept.of_inv h hc).mpr (hw c) hc
    | _ => trivial
  · intro c
    rfl

/-- CPU 0 spawns tasks 1 to 3 and leaves.  CPU 1 sleeps, finds nothing to run, fires a timer
that wakes nobody, and its balance takes two of the three tasks. -/
theorem woken_kept_steal :
    Along (fifoStep 2) (Kept 2) .start
      [.put 0 1, .put 0 2, .put 0 3, .arm 1 ⟨5, []⟩, .leave 1, .pick 1, .tick 1 7, .tick 1 7,
        .balance 1 ⟨0, fun _ => true, 7, fun _ => none⟩, .pick 1] :=
  woken_kept 2 _ (by decide)

/-- Task 1 sleeps on CPU 0 until 5; the CPU goes idle and its timer fires at 7. -/
def sleepRun : List FifoEvent := [.sleep 0 1 5, .pick 0, .tick 0 7, .tick 0 7]

/-- The balance of that CPU, which finds nothing to steal. -/
def sleepBalance : FifoEvent := .balance 0 ⟨0, fun _ => true, 7, fun _ => none⟩

/-- The sleeper is runnable and in the ring when the balance resets it, and in no
runqueue afterwards. -/
theorem woken_lost :
    ((final (fifoStep 2) .start sleepRun).rq 0).ring = [1] ∧
      (final (fifoStep 2) .start sleepRun).phase 0 = .balance ∧
      ¬ Kept 2 (final (fifoStep 2) .start sleepRun) sleepBalance ∧
      (final (fifoStep 2) .start (sleepRun ++ [sleepBalance])).state 1 = .runnable ∧
      ¬ (final (fifoStep 2) .start (sleepRun ++ [sleepBalance])).Queued 1 := by
  refine ⟨by decide, by decide, ?_, by decide, ?_⟩
  · intro hk
    have he := (hk (by decide)).1
    revert he
    decide
  · rintro ⟨c, hc⟩
    rcases c with _ | c
    · revert hc
      unfold FifoRq.Queued
      decide
    · -- every other runqueue is as it was at the start
      have hinit : (final (fifoStep 2) .start (sleepRun ++ [sleepBalance])).rq (c + 1) =
          .init := rfl
      rw [hinit] at hc
      revert hc
      unfold FifoRq.Queued
      decide

end Skyloft
