import Skyloft.Errno
import Skyloft.Lib.Nesting
import Skyloft.Sched.Softirq

/-!
# The preemption count

`preempt_cnt` belongs to a kthread.  `spin_lock_np` raises it and `spin_unlock_np` lowers it;
`task_block` lowers it and then drops a lock that was taken with `spin_lock_np`, so that a task
sleeps with the count it came with.  Preemption is enabled while the count is zero.

The calls are modelled with everything they do to the count, and the others may change whatever is
not locked: whenever a task waits for a lock, blocks, yields, or runs the handler of a timer, `others`
may change the rest of the state in any way.  What they do to the count they take back; where a task
goes on, it finds the count it left.  The count is the number of times it was raised less the number
of times it was lowered; the code keeps it in an unsigned word, which wraps below zero.

* `Proc` — what a task runs.
* `timerStart`, `timerCancel`, `mutexLock`, … — the functions of the source.
* `Call` — a call of one of them.
* `preempt_cnt_iff` — which calls leave the count as it was.
-/

namespace Skyloft

namespace Preempt

open Nesting Nesting.Counting TimerSys

/-! ## The state -/

inductive Lock
  | mutex (m : ℕ)
  | condvar (cv : ℕ)
  | barrier (b : ℕ)
  | waitgroup (wg : ℕ)
  /-- `futex_lock` -/
  | futex
  /-- `timer_lock` of a kthread -/
  | timer (k : ℕ)
  deriving DecidableEq

structure Mutex where
  held : Bool
  waiters : List ℕ

structure Barrier where
  waiting : ℤ
  count : ℤ
  waiters : List ℕ

structure Waitgroup where
  cnt : ℤ
  waiters : List ℕ

structure Futex where
  uaddr : ℕ
  task : ℕ
  deriving DecidableEq

inductive TimerRef
  | entry (i : ℕ)
  /-- on the stack of a task, in `timer_sleep` -/
  | sleep (task : ℕ)
  deriving DecidableEq

structure World where
  /-- `__curr` -/
  curr : Option ℕ
  /-- `localk` -/
  localk : ℕ
  /-- what `__sched_pick_next` finds -/
  next : Option ℕ
  irqEnabled : Bool
  locked : Lock → Bool
  /-- the tasks that are `TASK_BLOCKED` -/
  blocked : ℕ → Bool
  mutex : ℕ → Mutex
  /-- the waiters of a condition variable -/
  condvar : ℕ → List ℕ
  barrier : ℕ → Barrier
  waitgroup : ℕ → Waitgroup
  /-- the integers that futexes are about -/
  int : ℕ → BitVec 32
  futexList : List Futex
  timers : TimerSys TimerRef ℕ
  rxq : ℕ → List RxMsg

structure Cpu where
  world : World
  /-- what the others change, each time they get to run -/
  others : ℕ → World → World
  turn : ℕ
  /-- the readings of the clock -/
  clock : ℕ → BitVec 64
  reading : ℕ

inductive Stop
  /-- `assert(__curr != NULL)` -/
  | noTask
  /-- `assert_preempt_disabled` -/
  | preemptible
  /-- `assert_local_irq_disabled` -/
  | irqEnabled
  /-- `assert_spin_lock_held` -/
  | notLocked
  /-- `assert_mutex_held` -/
  | notHeld
  /-- the assertion of `task_wakeup` -/
  | notBlocked
  /-- the assertion of `fast_schedule` about the next task -/
  | notRunnable
  /-- an `int` overflows -/
  | overflow
  /-- `BUG_ON(wg->cnt < 0)` -/
  | negative
  | timer (f : TimerFault)
  /-- a loop did not end in the turns it was given -/
  | running

abbrev Proc := Counting Cpu Stop

/-- How the library is built. -/
structure Build where
  skyloftTimer : Bool
  skyloftUintr : Bool
  skyloftDpdk : Bool
  schedPercpu : Bool

def world : Proc World := do
  let c ← look
  return c.world

def update (f : World → World) : Proc Unit := change fun c => { c with world := f c.world }

/-- The others run. -/
def interfere : Proc Unit :=
  change fun c => { c with world := c.others c.turn c.world, turn := c.turn + 1 }

/-- `now_us` -/
def nowUs : Proc (BitVec 64) := do
  let c ← look
  change fun c => { c with reading := c.reading + 1 }
  return c.clock c.reading

/-! ## The count, locks and tasks -/

/-- `preempt_disable` -/
def preemptDisable : Proc Unit := move 1

/-- `preempt_enable` -/
def preemptEnable : Proc Unit := move (-1)

/-- `preempt_cnt` -/
def preemptCnt (depth : ℤ) : BitVec 32 := BitVec.ofInt 32 depth

/-- `preempt_enabled` -/
def preemptEnabled (depth : ℤ) : Bool := preemptCnt depth = 0#32

/-- `thisk` -/
def thisk : Proc ℕ := do
  let w ← world
  return w.localk

/-- `getk` -/
def getk : Proc ℕ := do
  preemptDisable
  thisk

/-- `putk` -/
def putk : Proc Unit := preemptEnable

/-- `task_self` -/
def taskSelf : Proc ℕ := do
  let w ← world
  match w.curr with
  | none => throw .noTask
  | some t => return t

def assertSpinLockHeld (l : Lock) : Proc Unit := do
  let w ← world
  ensure (w.locked l = true) .notLocked

/-- `spin_lock`, which returns when the others left the lock. -/
def spinLock (l : Lock) : Proc Unit := do
  interfere
  update fun w => { w with locked := Function.update w.locked l true }

def spinUnlock (l : Lock) : Proc Unit := do
  assertSpinLockHeld l
  update fun w => { w with locked := Function.update w.locked l false }

def spinLockNp (l : Lock) : Proc Unit := do
  preemptDisable
  spinLock l

def spinUnlockNp (l : Lock) : Proc Unit := do
  spinUnlock l
  preemptEnable

section

variable (b : Build)

/-- `local_irq_enabled` -/
def localIrqEnabled (w : World) : Bool := b.skyloftUintr && w.irqEnabled

/-- `local_irq_save` -/
def localIrqSave : Proc Bool := do
  let w ← world
  update fun w => { w with irqEnabled := false }
  return localIrqEnabled b w

/-- `local_irq_restore` -/
def localIrqRestore (flags : Bool) : Proc Unit :=
  if flags then update fun w => { w with irqEnabled := true } else pure ()

def assertPreemptDisabled : Proc Unit := do
  let w ← world
  let n ← depth
  ensure (¬ (localIrqEnabled b w ∧ preemptEnabled n)) .preemptible

/-! ## Timers that expire -/

/-- The loop of `timer_softirq`. -/
def timerSoftirqLoop (k : ℕ) : ℕ → Proc Unit
  | 0 => pure ()
  | budget + 1 => do
      let now ← nowUs
      let w ← world
      if w.timers.Expired k now then do
        update fun w => { w with timers := (w.timers.softirqTurn k now).2 }
        spinUnlockNp (.timer k)
        -- the handler
        interfere
        spinLockNp (.timer k)
        timerSoftirqLoop k budget
      else pure ()

/-- `timer_softirq` -/
def timerSoftirq (k : ℕ) (budget : BitVec 32) : Proc Unit := do
  spinLockNp (.timer k)
  let w ← world
  ensure (isValidHeap (w.timers.timers k) (w.timers.nrTimers k) = true) (.timer .invalidHeap)
  timerSoftirqLoop k budget.toNat
  spinUnlockNp (.timer k)

/-- `softirq_pending` -/
def softirqPending (w : World) (k : ℕ) (now : BitVec 64) : Bool :=
  b.skyloftDpdk && !(w.rxq k).isEmpty || w.timers.Expired k now

/-- `softirq_fn` -/
def softirqFn (k : ℕ) (work : SoftirqWork) : Proc Unit := do
  -- the packets, if there are any
  interfere
  let now ← nowUs
  let w ← world
  if w.timers.Expired k now then timerSoftirq k (BitVec.ofInt 32 work.timerBudget) else pure ()

/-- `softirq_run` -/
def softirqRun (budget : ℤ) : Proc Bool := do
  let k ← getk
  let now ← nowUs
  let w ← world
  if softirqPending b w k now then do
    softirqFn k (softirqGatherWork b.skyloftDpdk (w.rxq k) budget)
    putk
    return true
  else do
    putk
    return false

/-- `softirq_run`, in the builds that have it where it is called. -/
def softirqWhen (built : Bool) : Proc Unit :=
  if built then do
    let _ ← softirqRun b softirqMaxBudget
    return ()
  else pure ()

/-! ## Switching -/

/-- `fast_schedule`, until the task runs again. -/
def fastSchedule : Proc Unit := do
  let w ← world
  ensure (localIrqEnabled b w = false) .irqEnabled
  ensure (w.curr ≠ none) .noTask
  interfere
  let w ← world
  match w.next with
  -- idle
  | none => interfere
  | some t => do
      softirqWhen b (b.skyloftTimer && !b.skyloftUintr && !b.skyloftDpdk)
      let w ← world
      ensure (w.blocked t = false) .notRunnable
      interfere

/-- `task_yield` -/
def taskYield : Proc Unit := do
  softirqWhen b b.schedPercpu
  let flags ← localIrqSave b
  fastSchedule b
  localIrqRestore flags

/-- `task_wakeup` -/
def taskWakeup (t : ℕ) : Proc Unit := do
  let w ← world
  ensure (w.blocked t = true) .notBlocked
  let flags ← localIrqSave b
  update fun w => { w with blocked := Function.update w.blocked t false }
  localIrqRestore flags

/-- `task_wakeup` of a list of tasks, one after the other. -/
def wakeAll : List ℕ → Proc Unit
  | [] => pure ()
  | t :: ts => do
      taskWakeup b t
      wakeAll ts

/-- `task_block` -/
def taskBlock (l : Lock) : Proc Unit := do
  assertPreemptDisabled b
  assertSpinLockHeld l
  let flags ← localIrqSave b
  preemptEnable
  let t ← taskSelf
  update fun w => { w with blocked := Function.update w.blocked t true }
  spinUnlock l
  fastSchedule b
  localIrqRestore flags

/-! ## Timers -/

/-- `timer_start_locked` -/
def timerStartLocked (e : TimerRef) (deadlineUs : BitVec 64) : Proc Unit := do
  let k ← thisk
  assertSpinLockHeld (.timer k)
  let w ← world
  match w.timers.timerStartLocked k e deadlineUs with
  | .error f => throw (.timer f)
  | .ok ts => update fun w => { w with timers := ts }

/-- `timer_start` -/
def timerStart (e : TimerRef) (deadlineUs : BitVec 64) : Proc Unit := do
  let k ← thisk
  spinLockNp (.timer k)
  timerStartLocked e deadlineUs
  spinUnlockNp (.timer k)
  putk

/-- `timer_cancel`, which tries again when the timer was merged to a different heap. -/
def timerCancel (e : TimerRef) : ℕ → Proc Bool
  | 0 => throw .running
  | fuel + 1 => do
      preemptDisable
      let w ← world
      match (w.timers.entry e).k with
      | none => throw (.timer .noKthread)
      | some k => do
          spinLockNp (.timer k)
          let w ← world
          if (w.timers.entry e).k ≠ some k then do
            spinUnlockNp (.timer k)
            timerCancel e fuel
          else
            match w.timers.timerCancel e with
            | .error f => throw (.timer f)
            | .ok (r, ts) => do
                update fun w => { w with timers := ts }
                spinUnlockNp (.timer k)
                return r

/-- The loop of `__timer_sleep` without `SKYLOFT_TIMER`. -/
def sleepLoop (deadlineUs : BitVec 64) : ℕ → Proc Unit
  | 0 => throw .running
  | fuel + 1 => do
      let now ← nowUs
      if now < deadlineUs then do
        taskYield b
        sleepLoop deadlineUs fuel
      else pure ()

/-- `__timer_sleep` -/
def timerSleepCommon (fuel : ℕ) (deadlineUs : BitVec 64) : Proc Unit :=
  if b.skyloftTimer then do
    let k ← thisk
    let t ← taskSelf
    update fun w => { w with timers := w.timers.timerInit (.sleep t) }
    spinLockNp (.timer k)
    timerStartLocked (.sleep t) deadlineUs
    taskBlock b (.timer k)
  else sleepLoop b deadlineUs fuel

/-- `timer_sleep_until` -/
def timerSleepUntil (fuel : ℕ) (deadlineUs : BitVec 64) : Proc Unit := do
  let now ← nowUs
  if deadlineUs ≤ now then pure () else timerSleepCommon b fuel deadlineUs

/-- `timer_sleep` -/
def timerSleep (fuel : ℕ) (durationUs : BitVec 64) : Proc Unit := do
  let now ← nowUs
  timerSleepCommon b fuel (now + durationUs)

/-! ## Mutexes and condition variables -/

def setMutex (m : ℕ) (mu : Mutex) : Proc Unit :=
  update fun w => { w with mutex := Function.update w.mutex m mu }

def setCondvar (cv : ℕ) (waiters : List ℕ) : Proc Unit :=
  update fun w => { w with condvar := Function.update w.condvar cv waiters }

/-- `mutex_try_lock` -/
def mutexTryLock (m : ℕ) : Proc Bool := do
  spinLockNp (.mutex m)
  let w ← world
  if (w.mutex m).held then do
    spinUnlockNp (.mutex m)
    return false
  else do
    setMutex m { w.mutex m with held := true }
    spinUnlockNp (.mutex m)
    return true

/-- `mutex_lock` -/
def mutexLock (m : ℕ) : Proc Unit := do
  spinLockNp (.mutex m)
  let t ← taskSelf
  let w ← world
  if (w.mutex m).held = false then do
    setMutex m { w.mutex m with held := true }
    spinUnlockNp (.mutex m)
  else do
    setMutex m { w.mutex m with waiters := (w.mutex m).waiters ++ [t] }
    taskBlock b (.mutex m)

/-- `mutex_unlock` -/
def mutexUnlock (m : ℕ) : Proc Unit := do
  spinLockNp (.mutex m)
  let w ← world
  match (w.mutex m).waiters with
  | [] => do
      setMutex m { w.mutex m with held := false }
      spinUnlockNp (.mutex m)
  | t :: ts => do
      setMutex m { w.mutex m with waiters := ts }
      spinUnlockNp (.mutex m)
      taskWakeup b t

/-- `condvar_wait` -/
def condvarWait (cv m : ℕ) : Proc Unit := do
  let t ← taskSelf
  let w ← world
  ensure ((w.mutex m).held = true) .notHeld
  spinLockNp (.condvar cv)
  mutexUnlock b m
  let w ← world
  setCondvar cv (w.condvar cv ++ [t])
  taskBlock b (.condvar cv)
  mutexLock b m

/-- `condvar_signal` -/
def condvarSignal (cv : ℕ) : Proc Unit := do
  spinLockNp (.condvar cv)
  let w ← world
  match w.condvar cv with
  | [] => spinUnlockNp (.condvar cv)
  | t :: ts => do
      setCondvar cv ts
      spinUnlockNp (.condvar cv)
      taskWakeup b t

/-- `condvar_broadcast` -/
def condvarBroadcast (cv : ℕ) : Proc Unit := do
  spinLockNp (.condvar cv)
  let w ← world
  setCondvar cv []
  spinUnlockNp (.condvar cv)
  wakeAll b (w.condvar cv)

/-! ## Barriers, wait groups and futexes -/

/-- The largest `int`. -/
def intMax : ℤ := 2147483647

def setBarrier (r : ℕ) (v : Barrier) : Proc Unit :=
  update fun w => { w with barrier := Function.update w.barrier r v }

def setWaitgroup (wg : ℕ) (v : Waitgroup) : Proc Unit :=
  update fun w => { w with waitgroup := Function.update w.waitgroup wg v }

/-- `barrier_wait` -/
def barrierWait (r : ℕ) : Proc Bool := do
  spinLockNp (.barrier r)
  let w ← world
  let waiting := (w.barrier r).waiting + 1
  ensure (waiting ≤ intMax) .overflow
  if (w.barrier r).count ≤ waiting then do
    setBarrier r { w.barrier r with waiters := [], waiting := 0 }
    spinUnlockNp (.barrier r)
    wakeAll b (w.barrier r).waiters
    return true
  else do
    let t ← taskSelf
    setBarrier r { w.barrier r with waiters := (w.barrier r).waiters ++ [t], waiting }
    taskBlock b (.barrier r)
    return false

/-- `waitgroup_add` -/
def waitgroupAdd (wg : ℕ) (cnt : ℤ) : Proc Unit := do
  spinLockNp (.waitgroup wg)
  let w ← world
  let v := (w.waitgroup wg).cnt + cnt
  ensure (-intMax - 1 ≤ v ∧ v ≤ intMax) .overflow
  ensure (¬ v < 0) .negative
  if v = 0 then do
    setWaitgroup wg { cnt := v, waiters := [] }
    spinUnlockNp (.waitgroup wg)
    wakeAll b (w.waitgroup wg).waiters
  else do
    setWaitgroup wg { w.waitgroup wg with cnt := v }
    spinUnlockNp (.waitgroup wg)

/-- `waitgroup_wait` -/
def waitgroupWait (wg : ℕ) : Proc Unit := do
  spinLockNp (.waitgroup wg)
  let t ← taskSelf
  let w ← world
  if (w.waitgroup wg).cnt = 0 then spinUnlockNp (.waitgroup wg)
  else do
    setWaitgroup wg { w.waitgroup wg with waiters := (w.waitgroup wg).waiters ++ [t] }
    taskBlock b (.waitgroup wg)

/-- `futex_wait` -/
def futexWait (uaddr : ℕ) (val : BitVec 32) : Proc ℤ := do
  let t ← taskSelf
  spinLockNp .futex
  let w ← world
  if w.int uaddr ≠ val then do
    spinUnlockNp .futex
    return -eAgain
  else do
    update fun w => { w with futexList := w.futexList ++ [{ uaddr, task := t }] }
    taskBlock b .futex
    return 0

/-- The loop of `futex_wake` over the rest of the list. -/
def futexWakeLoop (uaddr : ℕ) (val : ℤ) : List Futex → ℤ → Proc ℤ
  | [], count => pure count
  | f :: fs, count =>
      if f.uaddr = uaddr then do
        update fun w => { w with futexList := w.futexList.erase f }
        taskWakeup b f.task
        if count + 1 = val then return count + 1 else futexWakeLoop uaddr val fs (count + 1)
      else futexWakeLoop uaddr val fs count

/-- `futex_wake` -/
def futexWake (uaddr : ℕ) (val : ℤ) : Proc ℤ := do
  spinLockNp .futex
  let w ← world
  let count ← futexWakeLoop b uaddr val w.futexList 0
  spinUnlockNp .futex
  return count

/-! ## What the functions do to the count -/

variable {lo n : ℤ}

theorem world_level : Level world := Level.look.bind fun c => .pure c.world

theorem update_level (f : World → World) : Level (update f) := .change _

theorem interfere_level : Level interfere := .change _

theorem nowUs_level : Level nowUs := by
  apply Level.look.bind
  intro c
  apply (Level.change _).bind
  intro _
  exact .pure _

theorem thisk_level : Level thisk := by
  apply world_level.bind
  intro w
  exact .pure w.localk

theorem taskSelf_level : Level taskSelf := by
  apply world_level.bind
  intro w
  cases w.curr with
  | none => exact .throw _
  | some t => exact .pure t

theorem assertSpinLockHeld_level (l : Lock) : Level (assertSpinLockHeld l) := by
  apply world_level.bind
  intro w
  exact .ensure _ _

theorem spinLock_level (l : Lock) : Level (spinLock l) := by
  apply interfere_level.bind
  intro _
  exact update_level _

theorem spinUnlock_level (l : Lock) : Level (spinUnlock l) := by
  apply (assertSpinLockHeld_level l).bind
  intro _
  exact update_level _

theorem localIrqSave_level : Level (localIrqSave b) := by
  apply world_level.bind
  intro w
  apply (update_level fun w => { w with irqEnabled := false }).bind
  intro _
  exact .pure _

theorem localIrqRestore_level (flags : Bool) : Level (localIrqRestore flags) := by
  rw [localIrqRestore]
  split
  · exact update_level _
  · exact .pure ()

theorem assertPreemptDisabled_level : Level (assertPreemptDisabled b) := by
  apply world_level.bind
  intro w
  apply Level.depth.bind
  intro n
  exact .ensure _ _

theorem preemptDisable_raises : Raises preemptDisable := raises_move

theorem preemptEnable_drops : Drops preemptEnable := drops_move

theorem getk_raises : Raises getk := by
  apply preemptDisable_raises.bind
  intro _
  exact thisk_level

theorem spinLockNp_raises (l : Lock) : Raises (spinLockNp l) := by
  apply preemptDisable_raises.bind
  intro _
  exact spinLock_level l

theorem spinUnlockNp_drops (l : Lock) : Drops (spinUnlockNp l) := by
  apply (spinUnlock_level l).drops
  intro _
  exact preemptEnable_drops

/-- The loop runs at the level of the lock, and drops it for every handler. -/
theorem counts_timerSoftirqLoop (k : ℕ) (h : lo ≤ n) (budget : ℕ) :
    Counts lo (n + 1) (· = n + 1) (timerSoftirqLoop k budget) := by
  induction budget with
  | zero => exact .pure () rfl
  | succ budget ih =>
      rw [timerSoftirqLoop]
      apply nowUs_level.counts_bind (by omega)
      intro now
      apply world_level.counts_bind (by omega)
      intro w
      split
      · apply (update_level _).counts_bind (by omega)
        intro _
        apply (spinUnlockNp_drops _ h).bind
        intro _
        apply interfere_level.counts_bind h
        intro _
        apply (spinLockNp_raises _ h).bind
        intro _
        exact ih
      · exact .pure () rfl

theorem timerSoftirq_level (k : ℕ) (budget : BitVec 32) : Level (timerSoftirq k budget) := by
  apply (spinLockNp_raises _).level
  intro _
  apply world_level.drops
  intro w
  apply (Level.ensure _ _).drops
  intro _ lo n h
  apply (counts_timerSoftirqLoop k h _).bind
  intro _
  exact spinUnlockNp_drops _ h

theorem softirqFn_level (k : ℕ) (work : SoftirqWork) : Level (softirqFn k work) := by
  apply interfere_level.bind
  intro _
  apply nowUs_level.bind
  intro now
  apply world_level.bind
  intro w
  split
  · exact timerSoftirq_level k _
  · exact .pure ()

theorem softirqRun_level (budget : ℤ) : Level (softirqRun b budget) := by
  apply getk_raises.level
  intro k
  apply nowUs_level.drops
  intro now
  apply world_level.drops
  intro w
  split
  · apply (softirqFn_level k _).drops
    intro _
    apply preemptEnable_drops.bind
    intro _
    exact .pure true
  · apply preemptEnable_drops.bind
    intro _
    exact .pure false

theorem softirqWhen_level (built : Bool) : Level (softirqWhen b built) := by
  rw [softirqWhen]
  split
  · apply (softirqRun_level b _).bind
    intro _
    exact .pure ()
  · exact .pure ()

theorem fastSchedule_level : Level (fastSchedule b) := by
  apply world_level.bind
  intro w
  apply (Level.ensure _ _).bind
  intro _
  apply (Level.ensure _ _).bind
  intro _
  apply interfere_level.bind
  intro _
  apply world_level.bind
  intro w
  cases w.next with
  | none => exact interfere_level
  | some t =>
      apply (softirqWhen_level b _).bind
      intro _
      apply world_level.bind
      intro w
      apply (Level.ensure _ _).bind
      intro _
      exact interfere_level

theorem taskYield_level : Level (taskYield b) := by
  apply (softirqWhen_level b _).bind
  intro _
  apply (localIrqSave_level b).bind
  intro flags
  apply (fastSchedule_level b).bind
  intro _
  exact localIrqRestore_level flags

theorem taskWakeup_level (t : ℕ) : Level (taskWakeup b t) := by
  apply world_level.bind
  intro w
  apply (Level.ensure _ _).bind
  intro _
  apply (localIrqSave_level b).bind
  intro flags
  apply (update_level _).bind
  intro _
  exact localIrqRestore_level flags

theorem wakeAll_level (ts : List ℕ) : Level (wakeAll b ts) := by
  induction ts with
  | nil => exact .pure ()
  | cons t ts ih =>
      apply (taskWakeup_level b t).bind
      intro _
      exact ih

/-- A task that blocks leaves the section of its lock. -/
theorem taskBlock_drops (l : Lock) : Drops (taskBlock b l) := by
  apply (assertPreemptDisabled_level b).drops
  intro _
  apply (assertSpinLockHeld_level l).drops
  intro _
  apply (localIrqSave_level b).drops
  intro flags
  apply preemptEnable_drops.bind
  intro _
  apply taskSelf_level.bind
  intro t
  apply (update_level _).bind
  intro _
  apply (spinUnlock_level l).bind
  intro _
  apply (fastSchedule_level b).bind
  intro _
  exact localIrqRestore_level flags

theorem timerStartLocked_level (e : TimerRef) (deadlineUs : BitVec 64) :
    Level (timerStartLocked e deadlineUs) := by
  apply thisk_level.bind
  intro k
  apply (assertSpinLockHeld_level _).bind
  intro _
  apply world_level.bind
  intro w
  cases w.timers.timerStartLocked k e deadlineUs with
  | error f => exact .throw _
  | ok ts => exact update_level _

theorem counts_timerStart (e : TimerRef) (deadlineUs : BitVec 64) :
    Counts (n - 1) n (· = n - 1) (timerStart e deadlineUs) := by
  have hup : n - 1 ≤ n + 1 := by omega
  apply thisk_level.counts_bind (by omega)
  intro k
  apply (spinLockNp_raises _ (by omega)).bind
  intro _
  apply (timerStartLocked_level e deadlineUs).counts_bind hup
  intro _
  apply (spinUnlockNp_drops _ (by omega)).bind
  intro _
  exact .move le_rfl rfl

theorem counts_timerCancel (e : TimerRef) (fuel : ℕ) : ∀ {lo n : ℤ}, lo ≤ n →
    Counts lo n (n < ·) (timerCancel e fuel) := by
  induction fuel with
  | zero =>
      intro lo n _
      exact .throw _
  | succ fuel ih =>
      intro lo n h
      have hup : lo ≤ n + 1 := by omega
      rw [timerCancel]
      apply (preemptDisable_raises h).bind
      intro _
      apply world_level.counts_bind hup
      intro w
      cases (w.timers.entry e).k with
      | none => exact .throw _
      | some k =>
          apply (spinLockNp_raises _ hup).bind
          intro _
          apply world_level.counts_bind (by omega)
          intro w
          split
          · apply (spinUnlockNp_drops _ hup).bind
            intro _
            exact (ih hup).mono fun m hm => by omega
          · cases w.timers.timerCancel e with
            | error f => exact .throw _
            | ok r =>
                apply (update_level _).counts_bind (by omega)
                intro _
                apply (spinUnlockNp_drops _ hup).bind
                intro _
                exact .pure r.1 (by omega)

theorem sleepLoop_level (deadlineUs : BitVec 64) (fuel : ℕ) :
    Level (sleepLoop b deadlineUs fuel) := by
  induction fuel with
  | zero => exact .throw _
  | succ fuel ih =>
      apply nowUs_level.bind
      intro now
      split
      · apply (taskYield_level b).bind
        intro _
        exact ih
      · exact .pure ()

theorem timerSleepCommon_level (fuel : ℕ) (deadlineUs : BitVec 64) :
    Level (timerSleepCommon b fuel deadlineUs) := by
  rw [timerSleepCommon]
  split
  · apply thisk_level.bind
    intro k
    apply taskSelf_level.bind
    intro t
    apply (update_level _).bind
    intro _
    apply (spinLockNp_raises _).level
    intro _
    apply (timerStartLocked_level _ deadlineUs).drops
    intro _
    exact taskBlock_drops b _
  · exact sleepLoop_level b deadlineUs fuel

theorem timerSleepUntil_level (fuel : ℕ) (deadlineUs : BitVec 64) :
    Level (timerSleepUntil b fuel deadlineUs) := by
  apply nowUs_level.bind
  intro now
  split
  · exact .pure ()
  · exact timerSleepCommon_level b fuel deadlineUs

theorem timerSleep_level (fuel : ℕ) (durationUs : BitVec 64) :
    Level (timerSleep b fuel durationUs) := by
  apply nowUs_level.bind
  intro now
  exact timerSleepCommon_level b fuel _

/-- The last change under a lock, before it is dropped. -/
theorem update_unlock_drops (f : World → World) (l : Lock) :
    Drops (do update f; spinUnlockNp l) := by
  apply (update_level f).drops
  intro _
  exact spinUnlockNp_drops l

/-- The last change under a lock, before the task blocks. -/
theorem update_block_drops (f : World → World) (l : Lock) :
    Drops (do update f; taskBlock b l) := by
  apply (update_level f).drops
  intro _
  exact taskBlock_drops b l

theorem mutexTryLock_level (m : ℕ) : Level (mutexTryLock m) := by
  apply (spinLockNp_raises _).level
  intro _
  apply world_level.drops
  intro w
  split
  · apply (spinUnlockNp_drops _).bind
    intro _
    exact .pure false
  · apply (update_level _).drops
    intro _
    apply (spinUnlockNp_drops _).bind
    intro _
    exact .pure true

theorem mutexLock_level (m : ℕ) : Level (mutexLock b m) := by
  apply (spinLockNp_raises _).level
  intro _
  apply taskSelf_level.drops
  intro t
  apply world_level.drops
  intro w
  split
  · exact update_unlock_drops _ _
  · exact update_block_drops b _ _

theorem mutexUnlock_level (m : ℕ) : Level (mutexUnlock b m) := by
  apply (spinLockNp_raises _).level
  intro _
  apply world_level.drops
  intro w
  cases (w.mutex m).waiters with
  | nil => exact update_unlock_drops _ _
  | cons t ts =>
      apply (update_level _).drops
      intro _
      apply (spinUnlockNp_drops _).bind
      intro _
      exact taskWakeup_level b t

theorem condvarWait_level (cv m : ℕ) : Level (condvarWait b cv m) := by
  apply taskSelf_level.bind
  intro t
  apply world_level.bind
  intro w
  apply (Level.ensure _ _).bind
  intro _
  apply (spinLockNp_raises _).level
  intro _
  apply (mutexUnlock_level b m).drops
  intro _
  apply world_level.drops
  intro w
  apply (update_level _).drops
  intro _
  apply (taskBlock_drops b _).bind
  intro _
  exact mutexLock_level b m

theorem condvarSignal_level (cv : ℕ) : Level (condvarSignal b cv) := by
  apply (spinLockNp_raises _).level
  intro _
  apply world_level.drops
  intro w
  cases w.condvar cv with
  | nil => exact spinUnlockNp_drops _
  | cons t ts =>
      apply (update_level _).drops
      intro _
      apply (spinUnlockNp_drops _).bind
      intro _
      exact taskWakeup_level b t

theorem condvarBroadcast_level (cv : ℕ) : Level (condvarBroadcast b cv) := by
  apply (spinLockNp_raises _).level
  intro _
  apply world_level.drops
  intro w
  apply (update_level _).drops
  intro _
  apply (spinUnlockNp_drops _).bind
  intro _
  exact wakeAll_level b _

theorem barrierWait_level (r : ℕ) : Level (barrierWait b r) := by
  apply (spinLockNp_raises _).level
  intro _
  apply world_level.drops
  intro w
  apply (Level.ensure _ _).drops
  intro _
  split
  · apply (update_level _).drops
    intro _
    apply (spinUnlockNp_drops _).bind
    intro _
    apply (wakeAll_level b _).bind
    intro _
    exact .pure true
  · apply taskSelf_level.drops
    intro t
    apply (update_level _).drops
    intro _
    apply (taskBlock_drops b _).bind
    intro _
    exact .pure false

theorem waitgroupAdd_level (wg : ℕ) (cnt : ℤ) : Level (waitgroupAdd b wg cnt) := by
  apply (spinLockNp_raises _).level
  intro _
  apply world_level.drops
  intro w
  apply (Level.ensure _ _).drops
  intro _
  apply (Level.ensure _ _).drops
  intro _
  split
  · apply (update_level _).drops
    intro _
    apply (spinUnlockNp_drops _).bind
    intro _
    exact wakeAll_level b _
  · exact update_unlock_drops _ _

theorem waitgroupWait_level (wg : ℕ) : Level (waitgroupWait b wg) := by
  apply (spinLockNp_raises _).level
  intro _
  apply taskSelf_level.drops
  intro t
  apply world_level.drops
  intro w
  split
  · exact spinUnlockNp_drops _
  · exact update_block_drops b _ _

theorem futexWait_level (uaddr : ℕ) (val : BitVec 32) : Level (futexWait b uaddr val) := by
  apply taskSelf_level.bind
  intro t
  apply (spinLockNp_raises _).level
  intro _
  apply world_level.drops
  intro w
  split
  · apply (spinUnlockNp_drops _).bind
    intro _
    exact .pure _
  · apply (update_level _).drops
    intro _
    apply (taskBlock_drops b _).bind
    intro _
    exact .pure _

theorem futexWakeLoop_level (uaddr : ℕ) (val : ℤ) (fs : List Futex) :
    ∀ count : ℤ, Level (futexWakeLoop b uaddr val fs count) := by
  induction fs with
  | nil =>
      intro count
      exact .pure count
  | cons f fs ih =>
      intro count
      rw [futexWakeLoop]
      split
      · apply (update_level _).bind
        intro _
        apply (taskWakeup_level b f.task).bind
        intro _
        split
        · exact .pure _
        · exact ih _
      · exact ih count

theorem futexWake_level (uaddr : ℕ) (val : ℤ) : Level (futexWake b uaddr val) := by
  apply (spinLockNp_raises _).level
  intro _
  apply world_level.drops
  intro w
  apply (futexWakeLoop_level b uaddr val _ 0).drops
  intro count
  apply (spinUnlockNp_drops _).bind
  intro _
  exact .pure count

end

/-! ## Calls -/

inductive Call
  | mutexLock (m : ℕ)
  | mutexTryLock (m : ℕ)
  | mutexUnlock (m : ℕ)
  | condvarWait (cv m : ℕ)
  | condvarSignal (cv : ℕ)
  | condvarBroadcast (cv : ℕ)
  | barrierWait (r : ℕ)
  | waitgroupAdd (wg : ℕ) (cnt : ℤ)
  | waitgroupWait (wg : ℕ)
  | futexWait (uaddr : ℕ) (val : BitVec 32)
  | futexWake (uaddr : ℕ) (val : ℤ)
  | timerStart (e : TimerRef) (deadlineUs : BitVec 64)
  | timerCancel (e : TimerRef)
  | timerSleep (durationUs : BitVec 64)
  | timerSleepUntil (deadlineUs : BitVec 64)

/-- What a call runs; its loops that wait for others have `fuel` turns.  What it returns is not
kept. -/
def Call.proc (b : Build) (fuel : ℕ) : Call → Proc Unit
  | .mutexLock m => Preempt.mutexLock b m
  | .mutexTryLock m => do
      let _ ← Preempt.mutexTryLock m
      return ()
  | .mutexUnlock m => Preempt.mutexUnlock b m
  | .condvarWait cv m => Preempt.condvarWait b cv m
  | .condvarSignal cv => Preempt.condvarSignal b cv
  | .condvarBroadcast cv => Preempt.condvarBroadcast b cv
  | .barrierWait r => do
      let _ ← Preempt.barrierWait b r
      return ()
  | .waitgroupAdd wg cnt => Preempt.waitgroupAdd b wg cnt
  | .waitgroupWait wg => Preempt.waitgroupWait b wg
  | .futexWait uaddr val => do
      let _ ← Preempt.futexWait b uaddr val
      return ()
  | .futexWake uaddr val => do
      let _ ← Preempt.futexWake b uaddr val
      return ()
  | .timerStart e deadlineUs => Preempt.timerStart e deadlineUs
  | .timerCancel e => do
      let _ ← Preempt.timerCancel e fuel
      return ()
  | .timerSleep durationUs => Preempt.timerSleep b fuel durationUs
  | .timerSleepUntil deadlineUs => Preempt.timerSleepUntil b fuel deadlineUs

/-- All calls but `timer_start` and `timer_cancel`. -/
def Call.Matched : Call → Prop
  | .timerStart _ _ | .timerCancel _ => False
  | _ => True

theorem Call.level (b : Build) (fuel : ℕ) {c : Call} (hc : c.Matched) : Level (c.proc b fuel) := by
  cases c with
  | mutexLock m => exact mutexLock_level b m
  | mutexTryLock m => exact (mutexTryLock_level m).bind fun _ => .pure ()
  | mutexUnlock m => exact mutexUnlock_level b m
  | condvarWait cv m => exact condvarWait_level b cv m
  | condvarSignal cv => exact condvarSignal_level b cv
  | condvarBroadcast cv => exact condvarBroadcast_level b cv
  | barrierWait r => exact (barrierWait_level b r).bind fun _ => .pure ()
  | waitgroupAdd wg cnt => exact waitgroupAdd_level b wg cnt
  | waitgroupWait wg => exact waitgroupWait_level b wg
  | futexWait uaddr val => exact (futexWait_level b uaddr val).bind fun _ => .pure ()
  | futexWake uaddr val => exact (futexWake_level b uaddr val).bind fun _ => .pure ()
  | timerStart e deadlineUs => exact hc.elim
  | timerCancel e => exact hc.elim
  | timerSleep durationUs => exact timerSleep_level b fuel durationUs
  | timerSleepUntil deadlineUs => exact timerSleepUntil_level b fuel deadlineUs

/-- A call that is not matched returns with another count. -/
theorem Call.not_balanced {b : Build} {fuel : ℕ} {n : ℤ} {cpu : Cpu} {c : Call} (hc : ¬ c.Matched)
    (hret : ((c.proc b fuel).exec (.at n cpu)).1 = .ok ()) :
    ¬ Balanced n ((c.proc b fuel).exec (.at n cpu)) := by
  cases c with
  | timerStart e deadlineUs =>
      exact (counts_timerStart e deadlineUs).not_balanced (by omega) (by omega) hret
  | timerCancel e =>
      have hcounts : Counts n n (n < ·) ((Call.timerCancel e).proc b fuel) := by
        apply (counts_timerCancel e fuel le_rfl).seq
        intro _ m hm
        exact .pure () hm
      exact hcounts.not_balanced le_rfl (lt_irrefl n) hret
  | _ => exact absurd trivial hc

/-- **The preemption count.**  Whatever the others do, and however often a loop turns: a call other
than `timer_start` and `timer_cancel` never takes the count below zero, and leaves it as it was when
it returns.  Those two, when they return, did not. -/
theorem preempt_cnt_iff (b : Build) (fuel n : ℕ) (cpu : Cpu) (c : Call) :
    (c.Matched → Balanced n ((c.proc b fuel).exec (.at n cpu))) ∧
      (((c.proc b fuel).exec (.at n cpu)).1 = .ok () →
        (Balanced n ((c.proc b fuel).exec (.at n cpu)) ↔ c.Matched)) := by
  have hbal : c.Matched → Balanced n ((c.proc b fuel).exec (.at n cpu)) := by
    intro hc
    exact (Call.level b fuel hc).balanced (by omega) cpu
  refine ⟨hbal, fun hret => ⟨fun h => ?_, hbal⟩⟩
  by_contra hc
  exact Call.not_balanced hc hret h

/-- One kthread, nothing locked and no timer pending; the entries were started before and expired. -/
def quiet : Cpu where
  world :=
    { curr := some 0
      localk := 0
      next := none
      irqEnabled := true
      locked := fun _ => false
      blocked := fun _ => false
      mutex := fun _ => { held := false, waiters := [] }
      condvar := fun _ => []
      barrier := fun _ => { waiting := 0, count := 1, waiters := [] }
      waitgroup := fun _ => { cnt := 0, waiters := [] }
      int := fun _ => 0#32
      futexList := []
      timers :=
        { TimerSys.boot fun _ _ => { deadlineUs := 0#64, e := .entry 0 } with
          entry := fun _ => { armed := false, idx := 0, k := some 0 } }
      rxq := fun _ => [] }
  others _ w := w
  turn := 0
  clock _ := 0#64
  reading := 0

/-- `SKYLOFT_TIMER` with `SKYLOFT_UINTR`. -/
def uintrBuild : Build where
  skyloftTimer := true
  skyloftUintr := true
  skyloftDpdk := false
  schedPercpu := true

/-- The count of a call that is made while preemption is enabled. -/
def countAfter (c : Call) : ℤ := ((c.proc uintrBuild 1).exec (.at 0 quiet)).2.count

/-- With preemption enabled, `timer_start` makes the count wrap, and `timer_cancel` leaves it at
one: after either, preemption is disabled. -/
theorem timer_calls_unbalanced :
    ¬ Balanced 0 (((Call.timerStart (.entry 0) 5#64).proc uintrBuild 1).exec (.at 0 quiet)) ∧
      preemptCnt (countAfter (.timerStart (.entry 0) 5#64)) = 4294967295#32 ∧
      ¬ Balanced 0 (((Call.timerCancel (.entry 0)).proc uintrBuild 1).exec (.at 0 quiet)) ∧
      preemptCnt (countAfter (.timerCancel (.entry 0))) = 1#32 := by
  refine ⟨fun h => ?_, by decide, fun h => ?_, by decide⟩
  · exact absurd (h.restored () rfl) (by decide)
  · exact absurd (h.restored () rfl) (by decide)

end Preempt

end Skyloft
