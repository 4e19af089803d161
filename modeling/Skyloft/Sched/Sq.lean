import Mathlib.Data.Finset.Card
import Mathlib.Logic.Function.Basic
import Skyloft.Lib.Run

/-!
# The single-queue policy

Under the single-queue policy the main task, on CPU 0, creates all other tasks, keeps them
in one queue, and hands them to the workers by polling.  A worker and the dispatcher talk
through the worker's state word and `cur_task`: the dispatcher moves it from IDLE to
QUEUING, the worker to RUNNING, an interrupt handler to PREEMPTED, and the end of a task to
FINISHED.  A handler publishes PREEMPTED before it is known whether the task will yield.

The dispatcher reads the state word of a worker in one step and acts on it in another.
CPU 0 starts with the main task, number 0, as the first spawn leaves it.

* `SqSys`, `sqStep` — the dispatcher, the workers and their interrupt handlers.
* `SqInv` — who holds which task, and what each place of a worker says of its state word.
* `one_owner` — every live task has one place, in every guarded run.
-/

namespace Skyloft

open Run

/-! ## The system -/

inductive SqState
  | idle
  | queuing
  | running
  | preempted
  | finished
  deriving DecidableEq

/-- Where the kthread of a worker is. -/
inductive SqPc
  /-- in the loop of `schedule` -/
  | parked
  /-- `schedule` has picked the task and waits for its stack -/
  | enter (t : ℕ)
  /-- the task runs -/
  | run (t : ℕ)
  /-- in the interrupt handler, after `sq_sched_preempt` returned true -/
  | handler (t : ℕ)
  /-- in `task_yield`, before `sq_sched_yield` -/
  | yielding (t : ℕ)
  /-- in `fast_schedule`, before the pick -/
  | picking (t : ℕ)
  /-- `fast_schedule` has picked `u` and waits for its stack -/
  | switch (t u : ℕ)
  /-- in `__task_exit`, before the read of `skip_free` -/
  | exiting (t : ℕ)
  deriving DecidableEq

/-- The task whose stack the kthread is on. -/
def SqPc.task : SqPc → Option ℕ
  | .run t | .handler t | .yielding t | .picking t | .switch t _ => some t
  | .parked | .enter _ | .exiting _ => none

structure SqWorker where
  state : SqState
  cur : Option ℕ
  pc : SqPc
  /-- a user interrupt was sent and has not arrived -/
  uipi : Bool
  /-- `worker_preempted` -/
  sent : Bool

/-- Where the dispatcher is. -/
inductive DispPc
  | idle
  /-- `task_create` has returned the task, `sq_sched_spawn` is to come -/
  | created (t : ℕ)
  /-- `sq_sched_poll` has read the state word of worker `i` -/
  | loaded (i : ℕ) (st : SqState)
  deriving DecidableEq

structure SqSys where
  worker : ℕ → SqWorker
  /-- `pending_tasks` -/
  pending : List ℕ
  disp : DispPc
  /-- spawned and not freed -/
  live : ℕ → Bool
  /-- in the task cache -/
  cached : ℕ → Bool
  skipFree : ℕ → Bool
  stackBusy : ℕ → Bool

def queueCap : ℕ := 1 <<< 20

def maxTasksPerApp : ℕ := 32768

inductive SqEvent
  /-- `task_create` by the dispatcher returns the task `t` -/
  | create (t : ℕ)
  /-- `sq_sched_spawn` of the created task -/
  | spawn
  /-- `sq_sched_poll` reads the state word of worker `i` -/
  | load (i : ℕ)
  /-- and acts on it; `late` says whether the quantum is over -/
  | act (late : Bool)
  /-- `sq_sched_pick_next` in `schedule` -/
  | pick (i : ℕ)
  /-- the wait for `stack_busy` in `schedule`, and the switch to the task -/
  | go (i : ℕ)
  /-- a user interrupt arrives in a task -/
  | intr (i : ℕ)
  /-- the handler yields or returns -/
  | decide (i : ℕ) (yields : Bool)
  /-- the task calls `task_yield` -/
  | yield (i : ℕ)
  /-- `sq_sched_yield` -/
  | schedYield (i : ℕ)
  /-- `sq_sched_pick_next` in `fast_schedule` -/
  | fastPick (i : ℕ)
  /-- the wait for `stack_busy` in `fast_schedule`, and the switch of stacks -/
  | switch (i : ℕ)
  /-- `task_exit` up to `sq_sched_finish_task` -/
  | exit (i : ℕ)
  /-- the rest of `__task_exit` -/
  | reap (i : ℕ)

namespace SqSys

/-- The main task is handed to CPU 0, and the workers are idle. -/
def start : SqSys where
  worker i :=
    if i = 0 then ⟨.queuing, some 0, .parked, false, false⟩
    else ⟨.idle, none, .parked, false, false⟩
  pending := []
  disp := .idle
  live t := t == 0
  cached t := t != 0
  skipFree _ := false
  stackBusy _ := false

def setWorker (s : SqSys) (i : ℕ) (wk : SqWorker) : SqSys :=
  { s with worker := Function.update s.worker i wk }

def setPc (s : SqSys) (i : ℕ) (p : SqPc) : SqSys :=
  s.setWorker i { s.worker i with pc := p }

/-- `task_free` -/
def taskFree (s : SqSys) (t : ℕ) : SqSys :=
  { s with live := Function.update s.live t false, cached := Function.update s.cached t true }

/-- `queue_push`; the caller in `sq_sched_poll` does not look at the result. -/
def push (s : SqSys) (t : ℕ) : SqSys :=
  if s.pending.length < queueCap then { s with pending := s.pending ++ [t] } else s

/-- The end of a turn of `sq_sched_poll`: the next task, if there is one. -/
def assign (s : SqSys) (i : ℕ) : SqSys :=
  match s.pending with
  | t :: rest =>
      { s.setWorker i { s.worker i with cur := some t, state := .queuing, sent := false } with
        pending := rest, disp := .idle }
  | [] => { s.setWorker i { s.worker i with state := .idle } with disp := .idle }

/-- A turn of `sq_sched_poll` after the read of the state word. -/
def act (s : SqSys) (i : ℕ) (late : Bool) : SqState → SqSys
  | .running =>
      if late = true ∧ (s.worker i).sent = false then
        { s.setWorker i { s.worker i with uipi := true, sent := true } with disp := .idle }
      else { s with disp := .idle }
  | .queuing => { s with disp := .idle }
  | .finished =>
      match (s.worker i).cur with
      | some t => (s.taskFree t).assign i
      | none => s.assign i
  | .preempted =>
      match (s.worker i).cur with
      | some t => (s.push t).assign i
      | none => s.assign i
  | .idle => s.assign i

/-- The dispatcher runs in the main task. -/
def dispatching (s : SqSys) : Prop := (s.worker 0).pc = .run 0

instance (s : SqSys) : Decidable s.dispatching := inferInstanceAs (Decidable (_ = _))

/-- The pick of `fast_schedule` for task `t`: the same task, another one, or the idle
stack, where `schedule` clears `stack_busy`. -/
def fastPick (s : SqSys) (i t : ℕ) : SqSys :=
  let wk := s.worker i
  if wk.state = .queuing then
    match wk.cur with
    | some u =>
        if u = t then
          { s.setWorker i { wk with state := .running, pc := .run t } with
            stackBusy := Function.update s.stackBusy t false }
        else s.setWorker i { wk with state := .running, pc := .switch t u }
    | none => s
  else
    { s.setPc i .parked with stackBusy := Function.update s.stackBusy t false }

end SqSys

/-- One step of the dispatcher or of a worker, with workers 1 to `n` polled.  An event that
cannot happen changes nothing. -/
def sqNext (n : ℕ) (s : SqSys) : SqEvent → SqSys
  | .create t =>
      if s.dispatching ∧ s.disp = .idle ∧ s.cached t = true ∧ t < maxTasksPerApp then
        { s with
          disp := .created t
          cached := Function.update s.cached t false
          skipFree := Function.update s.skipFree t false
          stackBusy := Function.update s.stackBusy t false }
      else s
  | .spawn =>
      match s.disp with
      | .created t =>
          if s.dispatching then
            if s.pending.length < queueCap then
              { s with
                disp := .idle
                pending := s.pending ++ [t]
                live := Function.update s.live t true
                skipFree := Function.update s.skipFree t true }
            else { s with disp := .idle, cached := Function.update s.cached t true }
          else s
      | .idle | .loaded _ _ => s
  | .load i =>
      if s.dispatching ∧ s.disp = .idle ∧ 1 ≤ i ∧ i ≤ n then
        { s with disp := .loaded i (s.worker i).state }
      else s
  | .act late =>
      match s.disp with
      | .loaded i st => if s.dispatching then s.act i late st else s
      | .idle | .created _ => s
  | .pick i =>
      if (s.worker i).pc = .parked ∧ (s.worker i).state = .queuing then
        match (s.worker i).cur with
        | some t => s.setWorker i { s.worker i with state := .running, pc := .enter t }
        | none => s
      else s
  | .go i =>
      match (s.worker i).pc with
      | .enter t => if s.stackBusy t then s else s.setPc i (.run t)
      | _ => s
  | .intr i =>
      match (s.worker i).pc with
      | .run t =>
          if (s.worker i).uipi then
            if (s.worker i).state = .running then
              s.setWorker i { s.worker i with uipi := false, state := .preempted, pc := .handler t }
            else s.setWorker i { s.worker i with uipi := false }
          else s
      | _ => s
  | .decide i yields =>
      match (s.worker i).pc with
      | .handler t =>
          if yields then
            { s.setPc i (.yielding t) with stackBusy := Function.update s.stackBusy t true }
          else s.setPc i (.run t)
      | _ => s
  | .yield i =>
      match (s.worker i).pc with
      | .run t =>
          { s.setPc i (.yielding t) with stackBusy := Function.update s.stackBusy t true }
      | _ => s
  | .schedYield i =>
      match (s.worker i).pc with
      | .yielding t =>
          if (s.worker i).state = .running then
            s.setWorker i { s.worker i with state := .queuing, pc := .picking t }
          else s.setPc i (.picking t)
      | _ => s
  | .fastPick i =>
      match (s.worker i).pc with
      | .picking t => s.fastPick i t
      | _ => s
  | .switch i =>
      match (s.worker i).pc with
      | .switch t u =>
          if s.stackBusy u then s
          else { s.setPc i (.run u) with stackBusy := Function.update s.stackBusy t false }
      | _ => s
  | .exit i =>
      match (s.worker i).pc with
      | .run t => s.setWorker i { s.worker i with state := .finished, pc := .exiting t }
      | _ => s
  | .reap i =>
      match (s.worker i).pc with
      | .exiting t => if s.skipFree t then s.setPc i .parked else (s.taskFree t).setPc i .parked
      | _ => s

def sqStep (n : ℕ) (s : SqSys) (e : SqEvent) : Except Empty SqSys := .ok (sqNext n s e)

namespace SqSys

/-- Worker `i` has task `t`. -/
def Holds (s : SqSys) (i t : ℕ) : Prop :=
  (s.worker i).state ≠ .idle ∧ (s.worker i).cur = some t

/-- Worker `i` is on the stack of task `t`. -/
def Executing (s : SqSys) (i t : ℕ) : Prop := (s.worker i).pc.task = some t

/-- Every live task is once in the queue or with one worker, and a task whose stack is in
use is live, not in the queue and not with another worker. -/
def OneOwner (s : SqSys) : Prop :=
  (∀ t, s.live t = true →
    (s.pending.count t = 1 ∧ ∀ i, ¬ s.Holds i t) ∨
      (s.pending.count t = 0 ∧ ∃ i, s.Holds i t ∧ ∀ j, s.Holds j t → j = i)) ∧
    ∀ i t, s.Executing i t → s.live t = true ∧ t ∉ s.pending ∧ ∀ j, s.Holds j t → j = i

end SqSys

/-- A poll that has read PREEMPTED finds the worker off the stack of its task, or no other
task to hand out, so that the worker gets the task back at once; and no worker reads
`skip_free` of a finished task while the dispatcher creates that task anew. -/
def SqGuard (s : SqSys) : SqEvent → Prop
  | .act _ =>
      match s.disp with
      | .loaded i .preempted => (s.worker i).pc.task = none ∨ s.pending = []
      | _ => True
  | .reap i =>
      match (s.worker i).pc with
      | .exiting t => s.disp ≠ .created t
      | _ => True
  | .create _ | .spawn | .load _ | .pick _ | .go _ | .intr _ | .decide _ _ | .yield _
  | .schedYield _ | .fastPick _ | .switch _ | .exit _ => True

instance (s : SqSys) : (e : SqEvent) → Decidable (SqGuard s e)
  | .act _ => by
      dsimp only [SqGuard]
      rcases s.disp with _ | _ | ⟨_, _ | _ | _ | _ | _⟩ <;> infer_instance
  | .reap i => by
      dsimp only [SqGuard]
      rcases (s.worker i).pc with _ | _ | _ | _ | _ | _ | _ | _ <;> infer_instance
  | .create _ | .spawn | .load _ | .pick _ | .go _ | .intr _ | .decide _ _ | .yield _
  | .schedYield _ | .fastPick _ | .switch _ | .exit _ => .isTrue trivial

/-! ## The invariant -/

/-- What the place of a worker says of its state word and its task. -/
def SqWorker.Ok (wk : SqWorker) : Prop :=
  match wk.pc with
  | .parked => wk.state ≠ .running ∧ (wk.state ≠ .idle → wk.cur.isSome = true)
  | .enter t => wk.state = .running ∧ wk.cur = some t
  | .run t | .yielding t =>
      (wk.state = .running ∨ wk.state = .preempted ∨ wk.state = .queuing) ∧ wk.cur = some t
  | .handler t | .picking t =>
      (wk.state = .preempted ∨ wk.state = .queuing) ∧ wk.cur = some t
  | .switch _ _ => False
  | .exiting t =>
      (wk.state = .finished ∧ wk.cur = some t) ∨ wk.state = .idle ∨
        (wk.state = .queuing ∧ wk.cur.isSome = true)

/-- What the dispatcher knows of a worker whose state word it has read. -/
def SqState.Stable (st now : SqState) : Prop :=
  (st = .finished → now = .finished) ∧ (st = .idle → now = .idle) ∧
    (st = .preempted → now = .preempted ∨ now = .finished)

structure SqInv (s : SqSys) : Prop where
  ok : ∀ i, (s.worker i).Ok
  nodup : s.pending.Nodup
  queued : ∀ t ∈ s.pending, s.live t = true ∧ ∀ i, ¬ s.Holds i t
  single : ∀ i j t, s.Holds i t → s.Holds j t → i = j
  held : ∀ i t, s.Holds i t → s.live t = true ∨ (i = 0 ∧ t = 0)
  cover : ∀ t, s.live t = true → t ∈ s.pending ∨ ∃ i, s.Holds i t
  bound : ∀ t, s.live t = true → t < maxTasksPerApp
  uncached : ∀ t, s.live t = true → s.cached t = false
  created : ∀ t, s.disp = .created t → s.cached t = false ∧ s.live t = false ∧ t ≠ 0 ∧
    t < maxTasksPerApp
  loaded : ∀ i st, s.disp = .loaded i st → 1 ≤ i ∧ st.Stable (s.worker i).state
  main : s.Holds 0 0
  gone : s.live 0 = false → (s.worker 0).pc = .parked ∧ (s.worker 0).state = .finished
  mainExit : ∀ t, (s.worker 0).pc = .exiting t → (s.worker 0).state = .finished
  skip : ∀ t, s.live t = true → t ≠ 0 → s.skipFree t = true
  exiting : ∀ i t, i ≠ 0 → (s.worker i).pc = .exiting t →
    s.skipFree t = true ∨ s.disp = .created t

variable {n i t : ℕ} {s s' : SqSys}

/-- A worker on the stack of a task has that task. -/
theorem SqWorker.Ok.cur_of_task {wk : SqWorker} (h : wk.Ok) (ht : wk.pc.task = some t) :
    wk.state ≠ .idle ∧ wk.cur = some t := by
  cases hp : wk.pc <;> simp [SqWorker.Ok, SqPc.task, hp] at h ht <;> subst ht <;>
    refine ⟨?_, h.2⟩ <;> intro hi <;> simp [hi] at h

theorem SqInv.holds_of_executing (h : SqInv s) (he : s.Executing i t) : s.Holds i t :=
  (h.ok i).cur_of_task he

theorem SqInv.oneOwner (h : SqInv s) : s.OneOwner := by
  constructor
  · intro t hl
    by_cases hp : t ∈ s.pending
    · exact .inl ⟨List.count_eq_one_of_mem h.nodup hp, (h.queued t hp).2⟩
    · refine .inr ⟨List.count_eq_zero.mpr hp, ?_⟩
      rcases h.cover t hl with hq | ⟨i, hi⟩
      · exact absurd hq hp
      · exact ⟨i, hi, fun j hj => h.single j i t hj hi⟩
  · intro i t he
    have hi := h.holds_of_executing he
    refine ⟨?_, fun hp => (h.queued t hp).2 i hi, fun j hj => h.single j i t hj hi⟩
    rcases h.held i t hi with hl | ⟨rfl, rfl⟩
    · exact hl
    · -- the main task is freed after it left its stack
      by_contra hl
      have hg := h.gone (by simpa using hl)
      simp [SqSys.Executing, hg.1, SqPc.task] at he

theorem sqInv_start : SqInv .start where
  ok i := by
    by_cases hi : i = 0 <;> simp [SqSys.start, SqWorker.Ok, hi]
  nodup := by simp [SqSys.start]
  queued t h := by simp [SqSys.start] at h
  single i j t hi hj := by
    have hzero : ∀ k, SqSys.start.Holds k t → k = 0 := by
      intro k hk
      by_contra hne
      simp [SqSys.start, SqSys.Holds, hne] at hk
    rw [hzero i hi, hzero j hj]
  held i t h := by
    by_cases hi : i = 0
    · simp only [SqSys.start, SqSys.Holds, hi, if_true] at h
      exact .inr ⟨hi, (Option.some.inj h.2).symm⟩
    · simp [SqSys.start, SqSys.Holds, hi] at h
  cover t h := by
    have ht : t = 0 := by simpa [SqSys.start] using h
    exact .inr ⟨0, by simp [SqSys.start, SqSys.Holds, ht]⟩
  bound t h := by
    have ht : t = 0 := by simpa [SqSys.start] using h
    simp [ht, maxTasksPerApp]
  uncached t h := by simpa [SqSys.start] using h
  created t h := by simp [SqSys.start] at h
  loaded i st h := by simp [SqSys.start] at h
  main := by simp [SqSys.start, SqSys.Holds]
  gone h := by simp [SqSys.start] at h
  mainExit t h := by simp [SqSys.start] at h
  skip t h ht := by simp [SqSys.start, ht] at h
  exiting i t hi h := by simp [SqSys.start, hi] at h

/-! ## Steps of a worker -/

/-- The main task is live as long as CPU 0 is not done with it. -/
theorem SqInv.main_live (h : SqInv s)
    (hb : (s.worker 0).pc ≠ .parked ∨ (s.worker 0).state ≠ .finished) : s.live 0 = true := by
  by_contra hl
  have hg := h.gone (by simpa using hl)
  rcases hb with hb | hb
  · exact hb hg.1
  · exact hb hg.2

/-- Only the record of worker `i` changes, and which stacks are busy. -/
structure OnlyWorker (s s' : SqSys) (i : ℕ) (wk : SqWorker) : Prop where
  worker : s'.worker = Function.update s.worker i wk
  pending : s'.pending = s.pending
  disp : s'.disp = s.disp
  live : s'.live = s.live
  cached : s'.cached = s.cached
  skipFree : s'.skipFree = s.skipFree

theorem OnlyWorker.self {wk : SqWorker} (h : OnlyWorker s s' i wk) : s'.worker i = wk := by
  simp [h.worker]

theorem OnlyWorker.other {wk : SqWorker} (h : OnlyWorker s s' i wk) {j : ℕ} (hj : j ≠ i) :
    s'.worker j = s.worker j := by
  simp [h.worker, Function.update_of_ne hj]

/-- A step of worker `i` that leaves it with the task it had. -/
theorem SqInv.of_worker (h : SqInv s) {wk : SqWorker} (ho : OnlyWorker s s' i wk)
    (hidle : wk.state = .idle ↔ (s.worker i).state = .idle) (hcur : wk.cur = (s.worker i).cur)
    (hok : wk.Ok) (hstable : ∀ st : SqState, st.Stable (s.worker i).state → st.Stable wk.state)
    (hbusy : (s.worker i).pc ≠ .parked ∨ (s.worker i).state ≠ .finished)
    (hexit : ∀ t, wk.pc = .exiting t → wk.state = .finished ∧ (i ≠ 0 → s.skipFree t = true)) :
    SqInv s' := by
  have hholds : ∀ j t, s'.Holds j t ↔ s.Holds j t := by
    intro j t
    by_cases hj : j = i
    · subst hj
      simp only [SqSys.Holds, ho.self, hcur, ne_eq, hidle]
    · simp only [SqSys.Holds, ho.other hj]
  refine ⟨?_, ?_, ?_, ?_, ?_, ?_, ?_, ?_, ?_, ?_, ?_, ?_, ?_, ?_, ?_⟩
  · intro j
    by_cases hj : j = i
    · subst hj
      rwa [ho.self]
    · rw [ho.other hj]
      exact h.ok j
  · rw [ho.pending]
    exact h.nodup
  · intro t ht
    rw [ho.pending] at ht
    rw [ho.live]
    exact ⟨(h.queued t ht).1, fun j hj => (h.queued t ht).2 j ((hholds j t).mp hj)⟩
  · intro j k t hj hk
    exact h.single j k t ((hholds j t).mp hj) ((hholds k t).mp hk)
  · intro j t hj
    rw [ho.live]
    exact h.held j t ((hholds j t).mp hj)
  · intro t ht
    rw [ho.live] at ht
    rw [ho.pending]
    rcases h.cover t ht with hp | ⟨j, hj⟩
    · exact .inl hp
    · exact .inr ⟨j, (hholds j t).mpr hj⟩
  · rw [ho.live]
    exact h.bound
  · rw [ho.live, ho.cached]
    exact h.uncached
  · rw [ho.live, ho.cached, ho.disp]
    exact h.created
  · intro j st hd
    rw [ho.disp] at hd
    have hl := h.loaded j st hd
    refine ⟨hl.1, ?_⟩
    by_cases hj : j = i
    · subst hj
      rw [ho.self]
      exact hstable st hl.2
    · rw [ho.other hj]
      exact hl.2
  · exact (hholds 0 0).mpr h.main
  · intro hl
    rw [ho.live] at hl
    by_cases hi : i = 0
    · subst hi
      simp [h.main_live hbusy] at hl
    · rw [ho.other (Ne.symm hi)]
      exact h.gone hl
  · intro t ht
    by_cases hi : i = 0
    · subst hi
      rw [ho.self] at ht ⊢
      exact (hexit t ht).1
    · rw [ho.other (Ne.symm hi)] at ht ⊢
      exact h.mainExit t ht
  · rw [ho.live, ho.skipFree]
    exact h.skip
  · intro j t hj ht
    rw [ho.skipFree, ho.disp]
    by_cases hji : j = i
    · subst hji
      rw [ho.self] at ht
      exact .inl ((hexit t ht).2 hj)
    · rw [ho.other hji] at ht
      exact h.exiting j t hj ht

theorem sqPick_inv (h : SqInv s) (i : ℕ) : SqInv (sqNext n s (.pick i)) := by
  by_cases hg : (s.worker i).pc = .parked ∧ (s.worker i).state = .queuing
  · cases hc : (s.worker i).cur with
    | none => simpa only [sqNext, hg, and_self, if_true, hc] using h
    | some t =>
        simp only [sqNext, hg, and_self, if_true, hc]
        refine h.of_worker ⟨rfl, rfl, rfl, rfl, rfl, rfl⟩ ?_ ?_ ?_ ?_ ?_ ?_
        · simp [hg.2]
        · simp [hc]
        · simp [SqWorker.Ok]
        · intro st hst
          cases st <;> simp [SqState.Stable, hg.2] at hst ⊢
        · simp [hg.2]
        · simp
  · simpa only [sqNext, hg, if_false] using h

/-- A move of worker `i` along its code that leaves its state word alone. -/
theorem SqInv.setPc (h : SqInv s) {p : SqPc} (ho : OnlyWorker s s' i { s.worker i with pc := p })
    (hbusy : (s.worker i).pc ≠ .parked) (hok : ({ s.worker i with pc := p } : SqWorker).Ok)
    (hexit : ∀ t, p ≠ .exiting t) : SqInv s' :=
  h.of_worker ho .rfl rfl hok (fun _ hst => hst) (.inl hbusy) fun t ht => absurd ht (hexit t)

theorem sqGo_inv (h : SqInv s) (i : ℕ) : SqInv (sqNext n s (.go i)) := by
  cases hp : (s.worker i).pc with
  | enter t =>
      simp only [sqNext, hp]
      by_cases hb : s.stackBusy t = true
      · simpa only [hb, if_true] using h
      · have hok := h.ok i
        simp only [SqWorker.Ok, hp] at hok
        simp only [hb]
        refine h.setPc ⟨rfl, rfl, rfl, rfl, rfl, rfl⟩ ?_ ?_ ?_
        · simp [hp]
        · simp [SqWorker.Ok, hok]
        · simp
  | _ => simpa only [sqNext, hp] using h

theorem sqIntr_inv (h : SqInv s) (i : ℕ) : SqInv (sqNext n s (.intr i)) := by
  cases hp : (s.worker i).pc with
  | run t =>
      have hok := h.ok i
      simp only [SqWorker.Ok, hp] at hok
      simp only [sqNext, hp]
      by_cases hu : (s.worker i).uipi = true
      · by_cases hr : (s.worker i).state = .running
        · simp only [hu, hr, if_true]
          refine h.of_worker ⟨rfl, rfl, rfl, rfl, rfl, rfl⟩ ?_ rfl ?_ ?_ (.inl (by simp [hp])) ?_
          · simp [hr]
          · simp [SqWorker.Ok, hok]
          · intro st hst
            cases st <;> simp [SqState.Stable, hr] at hst ⊢
          · simp
        · simp only [hu, hr, if_true, if_false]
          refine h.of_worker ⟨rfl, rfl, rfl, rfl, rfl, rfl⟩ .rfl rfl ?_ (fun _ hst => hst)
            (.inl (by simp [hp])) ?_
          · simpa [SqWorker.Ok, hp] using hok
          · simp
      · simpa [hu] using h
  | _ => simpa only [sqNext, hp] using h

theorem sqDecide_inv (h : SqInv s) (i : ℕ) (yields : Bool) :
    SqInv (sqNext n s (.decide i yields)) := by
  cases hp : (s.worker i).pc with
  | handler t =>
      have hok := h.ok i
      simp only [SqWorker.Ok, hp] at hok
      simp only [sqNext, hp]
      cases yields with
      | true =>
          refine h.setPc ⟨rfl, rfl, rfl, rfl, rfl, rfl⟩ ?_ ?_ ?_
          · simp [hp]
          · exact ⟨.inr hok.1, hok.2⟩
          · simp
      | false =>
          refine h.setPc ⟨rfl, rfl, rfl, rfl, rfl, rfl⟩ ?_ ?_ ?_
          · simp [hp]
          · exact ⟨.inr hok.1, hok.2⟩
          · simp
  | _ => simpa only [sqNext, hp] using h

theorem sqYield_inv (h : SqInv s) (i : ℕ) : SqInv (sqNext n s (.yield i)) := by
  cases hp : (s.worker i).pc with
  | run t =>
      have hok := h.ok i
      simp only [SqWorker.Ok, hp] at hok
      simp only [sqNext, hp]
      refine h.setPc ⟨rfl, rfl, rfl, rfl, rfl, rfl⟩ ?_ ?_ ?_
      · simp [hp]
      · simpa [SqWorker.Ok] using hok
      · simp
  | _ => simpa only [sqNext, hp] using h

theorem sqSchedYield_inv (h : SqInv s) (i : ℕ) : SqInv (sqNext n s (.schedYield i)) := by
  cases hp : (s.worker i).pc with
  | yielding t =>
      have hok := h.ok i
      simp only [SqWorker.Ok, hp] at hok
      simp only [sqNext, hp]
      by_cases hr : (s.worker i).state = .running
      · simp only [hr, if_true]
        refine h.of_worker ⟨rfl, rfl, rfl, rfl, rfl, rfl⟩ ?_ rfl ?_ ?_ (.inl (by simp [hp])) ?_
        · simp [hr]
        · simp [SqWorker.Ok, hok]
        · intro st hst
          cases st <;> simp [SqState.Stable, hr] at hst ⊢
        · simp
      · simp only [hr, if_false]
        refine h.setPc ⟨rfl, rfl, rfl, rfl, rfl, rfl⟩ ?_ ?_ ?_
        · simp [hp]
        · simpa [SqWorker.Ok, hr] using hok
        · simp
  | _ => simpa only [sqNext, hp] using h

/-- The pick of a task that yields: it gets itself back, or its worker parks. -/
theorem sqFastPick_inv (h : SqInv s) (i : ℕ) : SqInv (sqNext n s (.fastPick i)) := by
  cases hp : (s.worker i).pc with
  | picking t =>
      have hok := h.ok i
      simp only [SqWorker.Ok, hp] at hok
      simp only [sqNext, hp, SqSys.fastPick, hok.2, if_true]
      by_cases hq : (s.worker i).state = .queuing
      · simp only [hq, if_true]
        refine h.of_worker ⟨rfl, rfl, rfl, rfl, rfl, rfl⟩ ?_ ?_ ?_ ?_ (.inl (by simp [hp])) ?_
        · simp [hq]
        · simp [hok]
        · simp [SqWorker.Ok]
        · intro st hst
          cases st <;> simp [SqState.Stable, hq] at hst ⊢
        · simp
      · simp only [hq, if_false]
        have hpre : (s.worker i).state = .preempted := by simpa [hq] using hok.1
        refine h.setPc ⟨rfl, rfl, rfl, rfl, rfl, rfl⟩ ?_ ?_ ?_
        · simp [hp]
        · simp [SqWorker.Ok, hpre, hok]
        · simp
  | _ => simpa only [sqNext, hp] using h

theorem sqSwitch_inv (h : SqInv s) (i : ℕ) : SqInv (sqNext n s (.switch i)) := by
  cases hp : (s.worker i).pc with
  | switch t u =>
      have hok := h.ok i
      simp [SqWorker.Ok, hp] at hok
  | _ => simpa only [sqNext, hp] using h

theorem sqExit_inv (h : SqInv s) (i : ℕ) : SqInv (sqNext n s (.exit i)) := by
  cases hp : (s.worker i).pc with
  | run t =>
      have hok := h.ok i
      simp only [SqWorker.Ok, hp] at hok
      have hne : (s.worker i).state ≠ .idle := by
        rcases hok.1 with h₁ | h₁ | h₁ <;> simp [h₁]
      simp only [sqNext, hp]
      refine h.of_worker ⟨rfl, rfl, rfl, rfl, rfl, rfl⟩ ?_ rfl ?_ ?_ (.inl (by simp [hp])) ?_
      · simp [hne]
      · exact .inl ⟨rfl, hok.2⟩
      · intro st hst
        rcases hok.1 with h₁ | h₁ | h₁ <;> cases st <;> simp [SqState.Stable, h₁] at hst ⊢
      · intro u hu
        refine ⟨rfl, fun hi => ?_⟩
        have hut : t = u := by simpa using hu
        have hh : s.Holds i t := ⟨hne, hok.2⟩
        have hl : s.live t = true := by
          rcases h.held i t hh with hl | hl
          · exact hl
          · exact absurd hl.1 hi
        have ht : t ≠ 0 := by
          rintro rfl
          exact hi (h.single i 0 0 hh h.main)
        rw [← hut]
        exact h.skip t hl ht
  | _ => simpa only [sqNext, hp] using h

/-- The main task frees itself when it is done, and the dispatcher is gone with it. -/
theorem mainReap_inv (h : SqInv s) (hp : (s.worker 0).pc = .exiting 0) :
    SqInv ((s.taskFree 0).setPc 0 .parked) := by
  have hfin := h.mainExit 0 hp
  have hother : ∀ j ≠ 0, ((s.taskFree 0).setPc 0 .parked).worker j = s.worker j := by
    intro j hj
    simp [SqSys.setPc, SqSys.setWorker, SqSys.taskFree, Function.update_of_ne hj]
  have hself : ((s.taskFree 0).setPc 0 .parked).worker 0 = { s.worker 0 with pc := .parked } := by
    simp [SqSys.setPc, SqSys.setWorker, SqSys.taskFree]
  have hlive : ∀ t ≠ 0, ((s.taskFree 0).setPc 0 .parked).live t = s.live t := by
    intro t ht
    simp [SqSys.setPc, SqSys.setWorker, SqSys.taskFree, Function.update_of_ne ht]
  have hdead : ((s.taskFree 0).setPc 0 .parked).live 0 = false := by
    simp [SqSys.setPc, SqSys.setWorker, SqSys.taskFree]
  have hcached : ∀ t ≠ 0, ((s.taskFree 0).setPc 0 .parked).cached t = s.cached t := by
    intro t ht
    simp [SqSys.setPc, SqSys.setWorker, SqSys.taskFree, Function.update_of_ne ht]
  have hholds : ∀ j t, ((s.taskFree 0).setPc 0 .parked).Holds j t ↔ s.Holds j t := by
    intro j t
    by_cases hj : j = 0
    · subst hj
      simp only [SqSys.Holds, hself]
    · simp only [SqSys.Holds, hother j hj]
  have hne : ∀ t, ((s.taskFree 0).setPc 0 .parked).live t = true → t ≠ 0 := by
    rintro t ht rfl
    simp [hdead] at ht
  refine ⟨?_, h.nodup, ?_, ?_, ?_, ?_, ?_, ?_, ?_, ?_, ?_, ?_, ?_, ?_, ?_⟩
  · intro j
    by_cases hj : j = 0
    · subst hj
      rw [hself]
      have hcur := h.main.2
      simp [SqWorker.Ok, hfin, hcur]
    · rw [hother j hj]
      exact h.ok j
  · intro t ht
    have ht0 : t ≠ 0 := by
      rintro rfl
      exact (h.queued 0 ht).2 0 h.main
    rw [hlive t ht0]
    exact ⟨(h.queued t ht).1, fun j hj => (h.queued t ht).2 j ((hholds j t).mp hj)⟩
  · intro j k t hj hk
    exact h.single j k t ((hholds j t).mp hj) ((hholds k t).mp hk)
  · intro j t hj
    by_cases ht : t = 0
    · subst ht
      exact .inr ⟨h.single j 0 0 ((hholds j 0).mp hj) h.main, rfl⟩
    · rw [hlive t ht]
      exact h.held j t ((hholds j t).mp hj)
  · intro t ht
    rw [hlive t (hne t ht)] at ht
    rcases h.cover t ht with hq | ⟨j, hj⟩
    · exact .inl hq
    · exact .inr ⟨j, (hholds j t).mpr hj⟩
  · intro t ht
    rw [hlive t (hne t ht)] at ht
    exact h.bound t ht
  · intro t ht
    have ht0 := hne t ht
    rw [hlive t ht0] at ht
    rw [hcached t ht0]
    exact h.uncached t ht
  · intro t ht
    have hc := h.created t ht
    rw [hlive t hc.2.2.1, hcached t hc.2.2.1]
    exact hc
  · intro j st hd
    have hl := h.loaded j st hd
    rw [hother j (by omega)]
    exact hl
  · exact (hholds 0 0).mpr h.main
  · intro _
    rw [hself]
    exact ⟨rfl, hfin⟩
  · intro t ht
    rw [hself] at ht
    simp at ht
  · intro t ht ht0
    rw [hlive t ht0] at ht
    exact h.skip t ht ht0
  · intro j t hj ht
    rw [hother j hj] at ht
    exact h.exiting j t hj ht

theorem sqReap_inv (h : SqInv s) (i : ℕ) (hg : SqGuard s (.reap i)) :
    SqInv (sqNext n s (.reap i)) := by
  cases hp : (s.worker i).pc with
  | exiting t =>
      have hok := h.ok i
      simp only [SqWorker.Ok, hp] at hok
      simp only [SqGuard, hp] at hg
      simp only [sqNext, hp]
      by_cases hs : s.skipFree t = true
      · simp only [hs, if_true]
        refine h.setPc ⟨rfl, rfl, rfl, rfl, rfl, rfl⟩ ?_ ?_ ?_
        · simp [hp]
        · rcases hok with h₁ | h₁ | h₁ <;> simp [SqWorker.Ok, h₁]
        · simp
      · simp only [hs]
        have hi : i = 0 := by
          by_contra hi
          rcases h.exiting i t hi hp with h₁ | h₁
          · exact hs h₁
          · exact hg h₁
        subst hi
        have hcur : (s.worker 0).cur = some t := by
          have hfin := h.mainExit t hp
          simpa [hfin] using hok
        have ht : t = 0 := by
          have hmain := h.main.2
          rw [hcur] at hmain
          exact Option.some.inj hmain
        subst ht
        exact mainReap_inv h hp
  | _ => simpa only [sqNext, hp] using h

/-! ## Steps of the dispatcher -/

/-- The dispatcher runs in the main task, which is therefore live. -/
theorem SqInv.dispatching_live (h : SqInv s) (hd : s.dispatching) : s.live 0 = true := by
  refine h.main_live (.inl ?_)
  have hpc : (s.worker 0).pc = .run 0 := hd
  simp [hpc]

theorem sqCreate_inv (h : SqInv s) (t : ℕ) : SqInv (sqNext n s (.create t)) := by
  by_cases hg : s.dispatching ∧ s.disp = .idle ∧ s.cached t = true ∧ t < maxTasksPerApp
  · have hdead : s.live t = false := by
      by_contra hl
      have := h.uncached t (by simpa using hl)
      simp [this] at hg
    have ht0 : t ≠ 0 := by
      rintro rfl
      simp [h.dispatching_live hg.1] at hdead
    have hne : ∀ u, s.live u = true → u ≠ t := by
      rintro u hu rfl
      simp [hdead] at hu
    simp only [sqNext, if_pos hg]
    refine ⟨h.ok, h.nodup, h.queued, h.single, h.held, h.cover, h.bound, ?_, ?_, ?_, h.main,
      h.gone, h.mainExit, ?_, ?_⟩
    · intro u hu
      simpa [Function.update_of_ne (hne u hu)] using h.uncached u hu
    · intro u hu
      have hut : t = u := by simpa using hu
      rw [← hut]
      simp [hdead, ht0, hg.2.2.2]
    · simp
    · intro u hu hu0
      simpa [Function.update_of_ne (hne u hu)] using h.skip u hu hu0
    · intro j u hj hu
      by_cases hut : u = t
      · exact .inr (by simp [hut])
      · rcases h.exiting j u hj hu with h₁ | h₁
        · exact .inl (by simpa [Function.update_of_ne hut] using h₁)
        · simp [hg.2.1] at h₁
  · simpa only [sqNext, if_neg hg] using h

theorem sqLoad_inv (h : SqInv s) (i : ℕ) : SqInv (sqNext n s (.load i)) := by
  by_cases hg : s.dispatching ∧ s.disp = .idle ∧ 1 ≤ i ∧ i ≤ n
  · simp only [sqNext, if_pos hg]
    refine ⟨h.ok, h.nodup, h.queued, h.single, h.held, h.cover, h.bound, h.uncached, ?_, ?_,
      h.main, h.gone, h.mainExit, h.skip, ?_⟩
    · simp
    · intro j st hj
      simp only [DispPc.loaded.injEq] at hj
      rcases hj with ⟨rfl, rfl⟩
      refine ⟨hg.2.2.1, ?_⟩
      simp +contextual [SqState.Stable]
    · intro j t hj ht
      rcases h.exiting j t hj ht with h₁ | h₁
      · exact .inl h₁
      · simp [hg.2.1] at h₁
  · simpa only [sqNext, if_neg hg] using h

/-- The queue has room: there are fewer tasks than it has slots. -/
theorem SqInv.length_lt (h : SqInv s) : s.pending.length < queueCap := by
  have hsub : s.pending.toFinset ⊆ Finset.range maxTasksPerApp := by
    intro t ht
    have hp : t ∈ s.pending := by simpa using ht
    simpa using h.bound t (h.queued t hp).1
  have hcard := Finset.card_le_card hsub
  rw [List.toFinset_card_of_nodup h.nodup, Finset.card_range] at hcard
  simp only [queueCap, maxTasksPerApp] at hcard ⊢
  omega

theorem sqSpawn_inv (h : SqInv s) : SqInv (sqNext n s .spawn) := by
  cases hd : s.disp with
  | created t =>
      by_cases hdis : s.dispatching
      · have hc := h.created t hd
        have hfree : ∀ i, ¬ s.Holds i t := by
          intro i hi
          rcases h.held i t hi with hl | hl
          · simp [hc.2.1] at hl
          · exact hc.2.2.1 hl.2
        have hnot : t ∉ s.pending := by
          intro hp
          simp [(h.queued t hp).1] at hc
        simp only [sqNext, hd, hdis, if_true, if_pos h.length_lt]
        refine ⟨h.ok, ?_, ?_, h.single, ?_, ?_, ?_, ?_, ?_, ?_, h.main, ?_, h.mainExit, ?_, ?_⟩
        · rw [List.nodup_append]
          refine ⟨h.nodup, by simp, ?_⟩
          intro u hu v hv huv
          have hvt : v = t := by simpa using hv
          exact hnot (by rwa [← hvt, ← huv])
        · intro u hu
          by_cases hut : u = t
          · subst hut
            exact ⟨by simp, hfree⟩
          · have hp : u ∈ s.pending := by simpa [hut] using hu
            exact ⟨by simpa [Function.update_of_ne hut] using (h.queued u hp).1, (h.queued u hp).2⟩
        · intro i u hi
          by_cases hut : u = t
          · exact .inl (by simp [hut])
          · simpa [Function.update_of_ne hut] using h.held i u hi
        · intro u hu
          by_cases hut : u = t
          · exact .inl (by simp [hut])
          · have hl : s.live u = true := by simpa [Function.update_of_ne hut] using hu
            rcases h.cover u hl with hp | hh
            · exact .inl (by simp [hp])
            · exact .inr hh
        · intro u hu
          by_cases hut : u = t
          · rw [hut]
            exact hc.2.2.2
          · exact h.bound u (by simpa [Function.update_of_ne hut] using hu)
        · intro u hu
          by_cases hut : u = t
          · rw [hut]
            exact hc.1
          · exact h.uncached u (by simpa [Function.update_of_ne hut] using hu)
        · simp
        · simp
        · intro hl
          exact h.gone (by simpa [Function.update_of_ne (Ne.symm hc.2.2.1)] using hl)
        · intro u hu hu0
          by_cases hut : u = t
          · simp [hut]
          · have hl : s.live u = true := by simpa [Function.update_of_ne hut] using hu
            simpa [Function.update_of_ne hut] using h.skip u hl hu0
        · intro j u hj hu
          by_cases hut : u = t
          · exact .inl (by simp [hut])
          · rcases h.exiting j u hj hu with h₁ | h₁
            · exact .inl (by simpa [Function.update_of_ne hut] using h₁)
            · simp [hd, Ne.symm hut] at h₁
      · simpa only [sqNext, hd, hdis, if_false] using h
  | _ => simpa only [sqNext, hd] using h

/-- The system in the middle of a poll of worker `i`, whose task has been given up. -/
structure Loose (i : ℕ) (s : SqSys) : Prop where
  pos : i ≠ 0
  ok : ∀ j ≠ i, (s.worker j).Ok
  nodup : s.pending.Nodup
  queued : ∀ t ∈ s.pending, s.live t = true ∧ ∀ j ≠ i, ¬ s.Holds j t
  single : ∀ j k t, j ≠ i → k ≠ i → s.Holds j t → s.Holds k t → j = k
  held : ∀ j t, j ≠ i → s.Holds j t → s.live t = true ∨ (j = 0 ∧ t = 0)
  cover : ∀ t, s.live t = true → t ∈ s.pending ∨ ∃ j, j ≠ i ∧ s.Holds j t
  bound : ∀ t, s.live t = true → t < maxTasksPerApp
  uncached : ∀ t, s.live t = true → s.cached t = false
  main : s.Holds 0 0
  gone : s.live 0 = false → (s.worker 0).pc = .parked ∧ (s.worker 0).state = .finished
  mainExit : ∀ t, (s.worker 0).pc = .exiting t → (s.worker 0).state = .finished
  skip : ∀ t, s.live t = true → t ≠ 0 → s.skipFree t = true
  exiting : ∀ j t, j ≠ 0 → (s.worker j).pc = .exiting t → s.skipFree t = true
  /-- the worker is off its task's stack, or gets that task back -/
  ready : (s.worker i).pc.task = none ∧ (∀ t, (s.worker i).pc ≠ .enter t) ∨
    ∃ t, (s.worker i).pc.task = some t ∧ (∀ u v, (s.worker i).pc ≠ .switch u v) ∧ s.pending = [t]

/-- The poll ends: the worker gets the first task of the queue, or none. -/
theorem Loose.settle (h : Loose i s) {g : Option ℕ} (hp : s.pending = g.toList ++ s'.pending)
    (hother : ∀ j ≠ i, s'.worker j = s.worker j) (hpc : (s'.worker i).pc = (s.worker i).pc)
    (hok : (s'.worker i).Ok) (hown : ∀ t, s'.Holds i t ↔ g = some t)
    (hdisp : s'.disp = .idle) (hlive : s'.live = s.live) (hcached : s'.cached = s.cached)
    (hskip : s'.skipFree = s.skipFree) : SqInv s' := by
  have hholds : ∀ j t, j ≠ i → (s'.Holds j t ↔ s.Holds j t) := by
    intro j t hj
    simp only [SqSys.Holds, hother j hj]
  have hnd := h.nodup
  rw [hp, List.nodup_append] at hnd
  -- the task that is given away was queued
  have hgot : ∀ {t}, g = some t → s.live t = true ∧ ∀ j ≠ i, ¬ s.Holds j t := by
    intro t ht
    exact h.queued t (by simp [hp, ht])
  refine ⟨?_, hnd.2.1, ?_, ?_, ?_, ?_, ?_, ?_, ?_, ?_, ?_, ?_, ?_, ?_, ?_⟩
  · intro j
    by_cases hj : j = i
    · rw [hj]
      exact hok
    · rw [hother j hj]
      exact h.ok j hj
  · intro t ht
    rw [hlive]
    have hq := h.queued t (by simp [hp, ht])
    refine ⟨hq.1, fun j hj => ?_⟩
    by_cases hji : j = i
    · rw [hji, hown] at hj
      exact hnd.2.2 t (by simp [hj]) t ht rfl
    · exact hq.2 j hji ((hholds j t hji).mp hj)
  · intro j k t hj hk
    by_cases hji : j = i
    · by_cases hki : k = i
      · rw [hji, hki]
      · rw [hji, hown] at hj
        exact absurd ((hholds k t hki).mp hk) ((hgot hj).2 k hki)
    · by_cases hki : k = i
      · rw [hki, hown] at hk
        exact absurd ((hholds j t hji).mp hj) ((hgot hk).2 j hji)
      · exact h.single j k t hji hki ((hholds j t hji).mp hj) ((hholds k t hki).mp hk)
  · intro j t hj
    rw [hlive]
    by_cases hji : j = i
    · rw [hji, hown] at hj
      exact .inl (hgot hj).1
    · exact h.held j t hji ((hholds j t hji).mp hj)
  · intro t ht
    rw [hlive] at ht
    rcases h.cover t ht with hq | ⟨j, hji, hj⟩
    · rw [hp, List.mem_append, Option.mem_toList] at hq
      rcases hq with hq | hq
      · exact .inr ⟨i, (hown t).mpr hq⟩
      · exact .inl hq
    · exact .inr ⟨j, (hholds j t hji).mpr hj⟩
  · rw [hlive]
    exact h.bound
  · rw [hlive, hcached]
    exact h.uncached
  · simp [hdisp]
  · simp [hdisp]
  · exact (hholds 0 0 (Ne.symm h.pos)).mpr h.main
  · rw [hlive, hother 0 (Ne.symm h.pos)]
    exact h.gone
  · rw [hother 0 (Ne.symm h.pos)]
    exact h.mainExit
  · rw [hlive, hskip]
    exact h.skip
  · intro j t hj ht
    rw [hskip]
    by_cases hji : j = i
    · rw [hji, hpc] at ht
      exact .inl (h.exiting i t h.pos ht)
    · rw [hother j hji] at ht
      exact .inl (h.exiting j t hj ht)

theorem Loose.assign (h : Loose i s) : SqInv (s.assign i) := by
  have hother : ∀ (s : SqSys) (wk : SqWorker),
      ∀ j ≠ i, (s.setWorker i wk).worker j = s.worker j := by
    intro s wk j hj
    simp [SqSys.setWorker, Function.update_of_ne hj]
  cases hp : s.pending with
  | nil =>
      -- there is no other task, and the worker rests
      simp only [SqSys.assign, hp]
      refine h.settle (g := none) (by simp [hp, SqSys.setWorker]) (hother _ _) ?_ ?_ ?_ rfl rfl
        rfl rfl
      · simp [SqSys.setWorker]
      · rcases h.ready with ⟨hn, he⟩ | ⟨t, ht, hsw, hpt⟩
        · cases hpc : (s.worker i).pc <;> simp [hpc, SqPc.task] at hn he <;>
            simp [SqSys.setWorker, SqWorker.Ok]
        · simp [hp] at hpt
      · simp [SqSys.Holds, SqSys.setWorker]
  | cons u rest =>
      simp only [SqSys.assign, hp]
      refine h.settle (g := some u) (by simp [hp]) (hother _ _) ?_ ?_ ?_ rfl rfl
        rfl rfl
      · simp [SqSys.setWorker]
      · rcases h.ready with ⟨hn, he⟩ | ⟨t, ht, hsw, hpt⟩
        · cases hpc : (s.worker i).pc <;> simp [hpc, SqPc.task] at hn he <;>
            simp [SqSys.setWorker, SqWorker.Ok]
        · have hut : u = t := by simp_all
          cases hpc : (s.worker i).pc <;> simp [hpc, SqPc.task] at ht hsw <;>
            simp [SqSys.setWorker, SqWorker.Ok, hut, ht]
      · simp [SqSys.Holds, SqSys.setWorker]

/-- A worker that is not idle has a task. -/
theorem SqWorker.Ok.cur_of_busy {wk : SqWorker} (h : wk.Ok) (hne : wk.state ≠ .idle) :
    ∃ t, wk.cur = some t := by
  rw [← Option.isSome_iff_exists]
  cases hp : wk.pc <;> simp only [SqWorker.Ok, hp] at h
  case parked => exact h.2 hne
  case exiting t =>
    rcases h with h | h | h
    · simp [h.2]
    · exact absurd h hne
    · exact h.2
  all_goals simp [h.2]

/-- While the dispatcher polls it creates no task. -/
theorem SqInv.exiting_skip (h : SqInv s) {st : SqState} {k : ℕ} (hd : s.disp = .loaded k st)
    (j u : ℕ) (hj : j ≠ 0) (hu : (s.worker j).pc = .exiting u) : s.skipFree u = true := by
  rcases h.exiting j u hj hu with h₁ | h₁
  · exact h₁
  · simp [hd] at h₁

/-- An idle worker has no task to give up. -/
theorem SqInv.loose_idle (h : SqInv s) {st : SqState} (hd : s.disp = .loaded i st)
    (hst : (s.worker i).state = .idle) : Loose i s := by
  have hl := h.loaded i st hd
  have hok := h.ok i
  refine ⟨by omega, fun j _ => h.ok j, h.nodup, ?_, ?_, ?_, ?_, h.bound, h.uncached, h.main,
    h.gone, h.mainExit, h.skip, h.exiting_skip hd, ?_⟩
  · intro t ht
    exact ⟨(h.queued t ht).1, fun j _ => (h.queued t ht).2 j⟩
  · intro j k t _ _ hj hk
    exact h.single j k t hj hk
  · intro j t _ hj
    exact h.held j t hj
  · intro t ht
    rcases h.cover t ht with hq | ⟨j, hj⟩
    · exact .inl hq
    · refine .inr ⟨j, ?_, hj⟩
      rintro rfl
      exact hj.1 hst
  · refine .inl ?_
    cases hp : (s.worker i).pc <;> simp [SqWorker.Ok, hp, hst] at hok <;> simp [SqPc.task]

/-- The task of a finished worker is freed. -/
theorem SqInv.loose_finished (h : SqInv s) {st : SqState} (hd : s.disp = .loaded i st)
    (hst : (s.worker i).state = .finished) (hc : (s.worker i).cur = some t) :
    Loose i (s.taskFree t) := by
  have hl := h.loaded i st hd
  have hok := h.ok i
  have hh : s.Holds i t := ⟨by simp [hst], hc⟩
  have ht0 : t ≠ 0 := by
    rintro rfl
    have := h.single i 0 0 hh h.main
    omega
  have hlive : ∀ u, (s.taskFree t).live u = true → u ≠ t ∧ s.live u = true := by
    intro u hu
    by_cases hut : u = t
    · simp [SqSys.taskFree, hut] at hu
    · exact ⟨hut, by simpa [SqSys.taskFree, Function.update_of_ne hut] using hu⟩
  have hkeep : ∀ u ≠ t, (s.taskFree t).live u = s.live u := by
    intro u hu
    simp [SqSys.taskFree, Function.update_of_ne hu]
  refine ⟨by omega, fun j _ => h.ok j, h.nodup, ?_, ?_, ?_, ?_, ?_, ?_, h.main, ?_, h.mainExit,
    ?_, h.exiting_skip hd, ?_⟩
  · intro u hu
    have hq := h.queued u hu
    have hut : u ≠ t := by
      rintro rfl
      exact hq.2 i hh
    rw [hkeep u hut]
    exact ⟨hq.1, fun j _ => hq.2 j⟩
  · intro j k u _ _ hj hk
    exact h.single j k u hj hk
  · intro j u hji hj
    have hut : u ≠ t := by
      rintro rfl
      exact hji (h.single j i u hj hh)
    rw [hkeep u hut]
    exact h.held j u hj
  · intro u hu
    have hu' := hlive u hu
    rcases h.cover u hu'.2 with hq | ⟨j, hj⟩
    · exact .inl hq
    · refine .inr ⟨j, ?_, hj⟩
      rintro rfl
      have hju : (s.worker j).cur = some u := hj.2
      rw [hc] at hju
      exact hu'.1 (Option.some.inj hju).symm
  · intro u hu
    exact h.bound u (hlive u hu).2
  · intro u hu
    have hu' := hlive u hu
    simpa [SqSys.taskFree, Function.update_of_ne hu'.1] using h.uncached u hu'.2
  · rw [hkeep 0 (Ne.symm ht0)]
    exact h.gone
  · intro u hu
    exact h.skip u (hlive u hu).2
  · refine .inl ?_
    change (s.worker i).pc.task = none ∧ ∀ u, (s.worker i).pc ≠ .enter u
    cases hp : (s.worker i).pc <;> simp [SqWorker.Ok, hp, hst] at hok <;> simp [SqPc.task]

/-- The task of a preempted worker goes back to the queue. -/
theorem SqInv.loose_preempted (h : SqInv s) {st : SqState} (hd : s.disp = .loaded i st)
    (hst : (s.worker i).state = .preempted ∨ (s.worker i).state = .finished)
    (hc : (s.worker i).cur = some t) (hg : (s.worker i).pc.task = none ∨ s.pending = []) :
    Loose i (s.push t) := by
  have hl := h.loaded i st hd
  have hok := h.ok i
  have hh : s.Holds i t := ⟨by rcases hst with h₁ | h₁ <;> simp [h₁], hc⟩
  have hlive : s.live t = true := by
    rcases h.held i t hh with h₁ | h₁
    · exact h₁
    · omega
  have hnot : t ∉ s.pending := fun hp => (h.queued t hp).2 i hh
  have hpush : s.push t = { s with pending := s.pending ++ [t] } := if_pos h.length_lt
  rw [hpush]
  refine ⟨by omega, fun j _ => h.ok j, ?_, ?_, ?_, ?_, ?_, h.bound, h.uncached, h.main,
    h.gone, h.mainExit, h.skip, h.exiting_skip hd, ?_⟩
  · rw [List.nodup_append]
    refine ⟨h.nodup, by simp, ?_⟩
    intro u hu v hv huv
    have hvt : v = t := by simpa using hv
    exact hnot (by rwa [← hvt, ← huv])
  · intro u hu
    rw [List.mem_append, List.mem_singleton] at hu
    rcases hu with hu | rfl
    · exact ⟨(h.queued u hu).1, fun j _ => (h.queued u hu).2 j⟩
    · exact ⟨hlive, fun j hji hj => hji (h.single j i u hj hh)⟩
  · intro j k u _ _ hj hk
    exact h.single j k u hj hk
  · intro j u _ hj
    exact h.held j u hj
  · intro u hu
    rcases h.cover u hu with hq | ⟨j, hj⟩
    · exact .inl (by simp [hq])
    · by_cases hji : j = i
      · have hju : (s.worker j).cur = some u := hj.2
        rw [hji, hc] at hju
        exact .inl (by simp [Option.some.inj hju])
      · exact .inr ⟨j, hji, hj⟩
  · -- off the stack the worker is in `schedule` or done; on it, it gets the task back
    change ((s.worker i).pc.task = none ∧ ∀ u, (s.worker i).pc ≠ .enter u) ∨
      ∃ u, (s.worker i).pc.task = some u ∧ (∀ v w, (s.worker i).pc ≠ .switch v w) ∧
        s.pending ++ [t] = [u]
    cases hp : (s.worker i).pc <;> rcases hst with h₁ | h₁ <;>
      simp [SqWorker.Ok, hp, h₁, hc] at hok <;> simp [hp, SqPc.task] at hg ⊢ <;>
      simp [hg, hok]

/-- The end of a poll that gave no task to a worker. -/
theorem SqInv.poll_over (h : SqInv s) {st : SqState} (hd : s.disp = .loaded i st)
    (hw : ∀ j, (s'.worker j).state = (s.worker j).state ∧ (s'.worker j).cur = (s.worker j).cur ∧
      (s'.worker j).pc = (s.worker j).pc)
    (hpending : s'.pending = s.pending) (hdisp : s'.disp = .idle) (hlive : s'.live = s.live)
    (hcached : s'.cached = s.cached) (hskip : s'.skipFree = s.skipFree) : SqInv s' := by
  have hholds : ∀ j t, s'.Holds j t ↔ s.Holds j t := by
    intro j t
    simp only [SqSys.Holds, hw j]
  refine ⟨?_, ?_, ?_, ?_, ?_, ?_, ?_, ?_, ?_, ?_, ?_, ?_, ?_, ?_, ?_⟩
  · intro j
    have hok := h.ok j
    simp only [SqWorker.Ok] at hok ⊢
    simpa only [hw j] using hok
  · rw [hpending]
    exact h.nodup
  · simpa only [hpending, hlive, hholds] using h.queued
  · simpa only [hholds] using h.single
  · simpa only [hholds, hlive] using h.held
  · simpa only [hholds, hlive, hpending] using h.cover
  · rw [hlive]
    exact h.bound
  · rw [hlive, hcached]
    exact h.uncached
  · simp [hdisp]
  · simp [hdisp]
  · exact (hholds 0 0).mpr h.main
  · simpa only [hlive, hw 0] using h.gone
  · simpa only [hw 0] using h.mainExit
  · rw [hlive, hskip]
    exact h.skip
  · intro j t hj ht
    rw [(hw j).2.2] at ht
    rw [hskip]
    exact .inl (h.exiting_skip hd j t hj ht)

theorem sqAct_inv (h : SqInv s) (late : Bool) (hg : SqGuard s (.act late)) :
    SqInv (sqNext n s (.act late)) := by
  cases hd : s.disp with
  | loaded i st =>
      by_cases hdis : s.dispatching
      · simp only [sqNext, hd, hdis, if_true]
        have hl := (h.loaded i st hd).2
        cases st with
        | running =>
            simp only [SqSys.act]
            by_cases hlate : late = true ∧ (s.worker i).sent = false
            · rw [if_pos hlate]
              refine h.poll_over hd ?_ rfl rfl rfl rfl rfl
              intro j
              by_cases hj : j = i
              · simp [SqSys.setWorker, hj]
              · simp [SqSys.setWorker, Function.update_of_ne hj]
            · rw [if_neg hlate]
              exact h.poll_over hd (fun _ => ⟨rfl, rfl, rfl⟩) rfl rfl rfl rfl rfl
        | queuing => exact h.poll_over hd (fun _ => ⟨rfl, rfl, rfl⟩) rfl rfl rfl rfl rfl
        | idle => exact (h.loose_idle hd (hl.2.1 rfl)).assign
        | finished =>
            have hst := hl.1 rfl
            rcases (h.ok i).cur_of_busy (by simp [hst]) with ⟨t, hc⟩
            simp only [SqSys.act, hc]
            exact (h.loose_finished hd hst hc).assign
        | preempted =>
            have hst := hl.2.2 rfl
            rcases (h.ok i).cur_of_busy (by rcases hst with h₁ | h₁ <;> simp [h₁]) with ⟨t, hc⟩
            simp only [SqGuard, hd] at hg
            simp only [SqSys.act, hc]
            exact (h.loose_preempted hd hst hc hg).assign
      · simpa only [sqNext, hd, hdis, if_false] using h
  | _ => simpa only [sqNext, hd] using h

/-! ## Whole runs -/

theorem sqNext_inv (h : SqInv s) (e : SqEvent) (hg : SqGuard s e) : SqInv (sqNext n s e) := by
  cases e with
  | create t => exact sqCreate_inv h t
  | spawn => exact sqSpawn_inv h
  | load i => exact sqLoad_inv h i
  | act late => exact sqAct_inv h late hg
  | pick i => exact sqPick_inv h i
  | go i => exact sqGo_inv h i
  | intr i => exact sqIntr_inv h i
  | decide i yields => exact sqDecide_inv h i yields
  | yield i => exact sqYield_inv h i
  | schedYield i => exact sqSchedYield_inv h i
  | fastPick i => exact sqFastPick_inv h i
  | switch i => exact sqSwitch_inv h i
  | exit i => exact sqExit_inv h i
  | reap i => exact sqReap_inv h i hg

theorem sqInv_of_run {es : List SqEvent} (hg : Along (sqStep n) SqGuard .start es)
    (hs : exec (sqStep n) .start es = .ok s) : SqInv s := by
  refine exec_invariant (I := SqInv) ?_ sqInv_start hg hs
  intro s e s' hi hge hstep
  cases hstep
  exact sqNext_inv hi e hge

/-- **One owner per task.**  In every run in which no poll takes a task from a worker that
is still on its stack to make room for another task, and no worker looks at a finished task
that is being created anew, every live task has one place, and a task whose stack is in use
is with the worker that uses it and nowhere else. -/
theorem one_owner (n : ℕ) (es : List SqEvent) (hg : Along (sqStep n) SqGuard .start es)
    (hs : exec (sqStep n) .start es = .ok s) : s.OneOwner :=
  (sqInv_of_run hg hs).oneOwner

/-- The main task starts, spawns task 1 and hands it to worker 1, which runs it. -/
def sqBoot : List SqEvent :=
  [.pick 0, .go 0, .create 1, .spawn, .load 1, .act false, .pick 1, .go 1]

/-- Task 1 is preempted with no other task there and goes on, is preempted again and leaves
its stack; task 2 takes its place and ends, and task 1 follows. -/
def sqRun : List SqEvent :=
  sqBoot ++ [.load 1, .act true, .intr 1, .load 1, .act false, .decide 1 true, .schedYield 1,
    .fastPick 1, .load 1, .act true, .intr 1, .decide 1 true, .schedYield 1, .fastPick 1,
    .create 2, .spawn, .load 1, .act false, .load 1, .pick 1, .go 1, .act false, .exit 1,
    .load 1, .reap 1, .act false, .pick 1, .go 1]

theorem one_owner_sqRun : (final (sqStep 1) .start sqRun).OneOwner :=
  one_owner 1 sqRun (by decide) (exec_final (by decide))

/-- The condition on polls is exact: in every state of such a run in which the dispatcher
acts on PREEMPTED while the worker is on the stack of its task and another task waits, the
running task ends up in the queue. -/
theorem early_poll_breaks {es : List SqEvent} (hg : Along (sqStep n) SqGuard .start es)
    (hs : exec (sqStep n) .start es = .ok s) (hdis : s.dispatching)
    (hd : s.disp = .loaded i .preempted) (he : s.Executing i t) (hp : s.pending ≠ [])
    (late : Bool) : ¬ (sqNext n s (.act late)).OneOwner := by
  have h := sqInv_of_run hg hs
  have hh := h.holds_of_executing he
  have hc : (s.worker i).cur = some t := hh.2
  rcases List.exists_cons_of_ne_nil hp with ⟨u, rest, hp⟩
  have hpush : s.push t = { s with pending := s.pending ++ [t] } := if_pos h.length_lt
  intro hone
  have hexec : (sqNext n s (.act late)).Executing i t := by
    simpa [sqNext, hd, hdis, SqSys.act, hc, hpush, SqSys.assign, hp, SqSys.Executing,
      SqSys.setWorker] using he
  refine (hone.2 i t hexec).2.1 ?_
  simp [sqNext, hd, hdis, SqSys.act, hc, hpush, SqSys.assign, hp]

/-- Task 2 waits, and worker 1 is interrupted in task 1 with preemption disabled. -/
def sqEarly : List SqEvent :=
  sqBoot ++ [.create 2, .spawn, .load 1, .act true, .intr 1, .load 1, .act false, .decide 1 false]

/-- Task 1 runs on worker 1 and is in the queue. -/
theorem running_task_queued :
    ∃ s, exec (sqStep 1) .start sqEarly = .ok s ∧ s.Executing 1 1 ∧ 1 ∈ s.pending ∧
      ¬ s.OneOwner := by
  have hs : exec (sqStep 1) .start sqEarly = .ok (final (sqStep 1) .start sqEarly) :=
    exec_final (by decide)
  have he : (final (sqStep 1) .start sqEarly).Executing 1 1 := by
    change _ = _
    decide
  have hp : 1 ∈ (final (sqStep 1) .start sqEarly).pending := by decide
  exact ⟨_, hs, he, hp, fun hone => (hone.2 1 1 he).2.1 hp⟩

end Skyloft
