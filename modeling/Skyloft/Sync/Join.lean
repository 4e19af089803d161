import Mathlib.Data.Int.Notation
import Mathlib.Logic.Function.Basic
import Skyloft.Lib.Run
import Skyloft.Errno

/-!
# Joining and detaching threads

The handle of a thread has one field for a task that waits: before the thread is done that is
the task that joins it, afterwards it is the thread itself, which sleeps until it is reaped.
`__trampoline`, `sl_pthread_join` and `sl_pthread_detach` decide under the lock of the handle
what the field means.

A thread is joined or detached once, by one other task.  Both may sleep elsewhere while they
are outside these functions.  As in `Skyloft.Sync.Mutex`, `task_block` releases the lock and
sleeps in one step.

* `JoinSys`, `joinStep` — a thread, and the task that joins or detaches it.
* `JoinInv` — what the waiter field means, place by place.
* `thread_reaped` — what the calls guarantee, and that only a detached thread exits.
-/

namespace Skyloft

open Run

/-! ## The system -/

/-- The call that is made for the thread; `join` with whether it asks for the value. -/
inductive Reap
  | join (retval : Bool)
  | detach
  deriving DecidableEq

inductive Party
  | thread
  | caller
  deriving DecidableEq

/-- What a task sleeps on. -/
inductive Rest
  | awake
  /-- in `task_block` with the lock of the handle -/
  | handle
  | elsewhere
  deriving DecidableEq

/-- Where the thread is. -/
inductive ThreadPc
  /-- in its function -/
  | fn
  /-- `retval` is stored -/
  | spin
  | locked
  /-- in `task_block` -/
  | parked
  | exited
  deriving DecidableEq

/-- Where the other task is. -/
inductive CallerPc
  | out
  | spin
  | locked
  /-- `sl_pthread_detach` has woken the waiter, if there was one -/
  | unlocking
  /-- `sl_pthread_join` is in `task_block`, or on its way to the lock from there -/
  | parked
  /-- `sl_pthread_join` reads the value -/
  | reading
  | done (ret : ℤ) (retval : Option (BitVec 64))
  deriving DecidableEq

/-- `struct join_handle` and the two tasks. -/
structure JoinSys where
  retval : Option (BitVec 64)
  lock : Option Party
  waiter : Option Party
  detached : Bool
  thread : ThreadPc
  caller : CallerPc
  rest : Party → Rest
  /-- what the function returned -/
  fnRet : Option (BitVec 64)
  /-- a task was resumed that slept elsewhere -/
  strayed : Bool

/-- The assertion in `task_wakeup`. -/
inductive JoinFault
  | notBlocked
  deriving DecidableEq

inductive JoinEvent
  /-- a task that is not inside these functions goes to sleep on something, or is woken -/
  | sleep (p : Party)
  | wake (p : Party)
  /-- the function returns -/
  | fnReturn (v : BitVec 64)
  | call
  /-- a task runs to its next program point -/
  | step (p : Party)

namespace JoinSys

/-- `sl_pthread_create` -/
def start : JoinSys where
  retval := none
  lock := none
  waiter := none
  detached := false
  thread := .fn
  caller := .out
  rest _ := .awake
  fnRet := none
  strayed := false

def setRest (s : JoinSys) (p : Party) (r : Rest) : JoinSys :=
  { s with rest := Function.update s.rest p r }

@[simp, grind =] theorem rest_setRest (s : JoinSys) (p q : Party) (r : Rest) :
    (s.setRest p r).rest q = if q = p then r else s.rest q :=
  Function.update_apply s.rest p r q

/-- The task is outside the functions that are modelled. -/
def outside (s : JoinSys) : Party → Bool
  | .thread => s.thread = .fn
  | .caller =>
      match s.caller with
      | .out | .done _ _ => true
      | _ => false

/-- `task_wakeup` -/
def wakeup (s : JoinSys) (p : Party) : Except JoinFault JoinSys :=
  match s.rest p with
  | .awake => .error .notBlocked
  | .handle => .ok (s.setRest p .awake)
  | .elsewhere => .ok { s.setRest p .awake with strayed := true }

/-- `if (j->waiter) task_wakeup(j->waiter)` -/
def wakeWaiter (s : JoinSys) : Except JoinFault JoinSys :=
  match s.waiter with
  | none => .ok s
  | some p => s.wakeup p

end JoinSys

/-- `__trampoline`, after the function has returned. -/
def threadStep (s : JoinSys) : Except JoinFault JoinSys :=
  if s.rest .thread ≠ .awake then .ok s
  else
    match s.thread with
    | .fn | .exited => .ok s
    | .spin => .ok (if s.lock = none then { s with thread := .locked, lock := some .thread } else s)
    | .locked =>
        if s.detached then .ok { s with thread := .exited, lock := none }
        else
          match s.wakeWaiter with
          | .error f => .error f
          | .ok s =>
              .ok { s.setRest .thread .handle with
                waiter := some .thread
                thread := .parked
                lock := none }
    | .parked => .ok { s with thread := .exited }

/-- `sl_pthread_join` under the lock. -/
def joinLocked (s : JoinSys) : JoinSys :=
  if s.detached then { s with caller := .done (-eInval) none, lock := none }
  else if s.waiter = none then
    { s.setRest .caller .handle with waiter := some .caller, caller := .parked, lock := none }
  else { s with caller := .reading }

/-- `sl_pthread_detach` under the lock, up to its unlock. -/
def detachLocked (s : JoinSys) : Except JoinFault JoinSys :=
  if s.detached then .ok { s with caller := .done (-eInval) none, lock := none }
  else
    match { s with detached := true }.wakeWaiter with
    | .error f => .error f
    | .ok s => .ok { s with caller := .unlocking }

/-- The call that is made for the thread. -/
def callerStep (r : Reap) (s : JoinSys) : Except JoinFault JoinSys :=
  if s.rest .caller ≠ .awake then .ok s
  else
    match s.caller with
    | .out | .done _ _ => .ok s
    | .spin => .ok (if s.lock = none then { s with caller := .locked, lock := some .caller } else s)
    | .locked =>
        match r with
        | .join _ => .ok (joinLocked s)
        | .detach => detachLocked s
    | .unlocking => .ok { s with caller := .done 0 none, lock := none }
    | .parked =>
        .ok (if s.lock = none then { s with caller := .reading, lock := some .caller } else s)
    | .reading =>
        let v := match r with
          | .join true => s.retval
          | .join false | .detach => none
        .ok { s with caller := .done 0 v, lock := none }

/-- One event. -/
def joinStep (r : Reap) (s : JoinSys) : JoinEvent → Except JoinFault JoinSys
  | .sleep p =>
      .ok (if s.outside p ∧ s.rest p = .awake then s.setRest p .elsewhere else s)
  | .wake p => .ok (if s.rest p = .elsewhere then s.setRest p .awake else s)
  | .fnReturn v =>
      .ok (if s.thread = .fn ∧ s.rest .thread = .awake then
        { s with thread := .spin, retval := some v, fnRet := some v } else s)
  | .call =>
      .ok (if s.caller = .out ∧ s.rest .caller = .awake then { s with caller := .spin } else s)
  | .step .thread => threadStep s
  | .step .caller => callerStep r s

/-! ## The invariant -/

/-- The places of the caller under the lock. -/
def CallerPc.HasLock : CallerPc → Prop
  | .locked | .unlocking | .reading => True
  | .out | .spin | .parked | .done _ _ => False

structure JoinInv (r : Reap) (s : JoinSys) : Prop where
  value : s.retval = s.fnRet
  fn : s.thread = .fn ↔ s.fnRet = none
  strayed : s.strayed = false
  threadLock : s.thread = .locked ↔ s.lock = some .thread
  callerLock : s.caller.HasLock ↔ s.lock = some .caller
  threadRest : s.rest .thread = .elsewhere → s.thread = .fn
  callerRest : s.rest .caller = .elsewhere → s.outside .caller = true
  /-- who sleeps on the handle is the waiter, and a waiter sleeps unless it was detached -/
  threadSleeps : s.rest .thread = .handle ↔ s.waiter = some .thread ∧ s.detached = false
  callerSleeps : s.rest .caller = .handle ↔ s.waiter = some .caller
  /-- the thread is the waiter once it is done, unless it was detached before -/
  early : s.waiter ≠ some .thread →
    s.thread ≠ .parked ∧ (s.thread = .exited → s.detached = true)
  late : s.waiter = some .thread → s.thread = .parked ∨ (s.thread = .exited ∧ s.detached = true)
  joiner : s.waiter = some .caller → s.caller = .parked ∧ r ≠ .detach
  detaching : r = .detach → s.caller = .out ∨ s.caller = .spin ∨ s.caller = .locked ∨
    (s.detached = true ∧ (s.caller = .unlocking ∨ s.caller = .done 0 none))
  detached : s.detached = true → r = .detach ∧ (s.caller = .unlocking ∨ s.caller = .done 0 none)
  joining : ∀ want, r = .join want → s.caller = .out ∨ s.caller = .spin ∨ s.caller = .locked ∨
    (s.caller = .parked ∧ s.waiter ≠ none) ∨ (s.caller = .reading ∧ s.waiter = some .thread) ∨
    (s.waiter = some .thread ∧ s.caller = .done 0 (if want then s.fnRet else none))

theorem joinInv_start (r : Reap) : JoinInv r JoinSys.start := by
  constructor <;> simp [JoinSys.start, CallerPc.HasLock]

section

variable {r : Reap} {s s' : JoinSys}

/-- Whoever waits sleeps on the handle. -/
theorem JoinInv.waiter_sleeps (h : JoinInv r s) {p : Party} (hw : s.waiter = some p)
    (hd : s.detached = false) : s.rest p = .handle := by
  cases p with
  | thread => exact h.threadSleeps.mpr ⟨hw, hd⟩
  | caller => exact h.callerSleeps.mpr hw

/-- A caller that is woken in `task_block` has been replaced as the waiter. -/
theorem JoinInv.woken (h : JoinInv r s) (hp : s.caller = .parked) (ha : s.rest .caller = .awake) :
    s.waiter = some .thread := by
  have hne : s.waiter ≠ some .caller := by
    intro hw
    have hrest := h.callerSleeps.mpr hw
    rw [ha] at hrest
    cases hrest
  cases r with
  | detach =>
      have hd := h.detaching rfl
      simp [hp] at hd
  | join want =>
      have hj := h.joining want rfl
      simp only [hp, reduceCtorEq, false_or, true_and, false_and, and_false, or_false] at hj
      rcases Option.ne_none_iff_exists'.mp hj with ⟨p, hw⟩
      cases p with
      | thread => exact hw
      | caller => exact absurd hw hne

/-! What the thread does, once it has run its function. -/

theorem threadLock_inv (h : JoinInv r s) (hp : s.thread = .spin) (hl : s.lock = none) :
    JoinInv r { s with thread := .locked, lock := some .thread } := by
  cases h
  constructor <;> grind [CallerPc.HasLock, JoinSys.outside]

theorem threadLeave_inv (h : JoinInv r s) (hp : s.thread = .locked) (hd : s.detached = true) :
    JoinInv r { s with thread := .exited, lock := none } := by
  have hl := h.threadLock.mp hp
  cases h
  constructor <;> grind [CallerPc.HasLock, JoinSys.outside]

/-- Nobody waits yet. -/
theorem threadPark_inv (h : JoinInv r s) (hp : s.thread = .locked) (hd : s.detached = false)
    (hw : s.waiter = none) :
    JoinInv r { s.setRest .thread .handle with
      waiter := some .thread, thread := .parked, lock := none } := by
  have hl := h.threadLock.mp hp
  cases h
  constructor <;> grind [CallerPc.HasLock, JoinSys.outside, JoinSys.setRest]

/-- The task that waits is woken, and the thread takes its place. -/
theorem threadReplace_inv (h : JoinInv r s) (hp : s.thread = .locked) (hd : s.detached = false)
    {p : Party} (hw : s.waiter = some p) :
    JoinInv r { (s.setRest p .awake).setRest .thread .handle with
      waiter := some .thread, thread := .parked, lock := none } := by
  have hl := h.threadLock.mp hp
  have hrest := h.waiter_sleeps hw hd
  cases h
  constructor <;> grind [CallerPc.HasLock, JoinSys.outside, JoinSys.setRest]

theorem threadExit_inv (h : JoinInv r s) (hp : s.thread = .parked) (ha : s.rest .thread = .awake) :
    JoinInv r { s with thread := .exited } := by
  cases h
  constructor <;> grind [CallerPc.HasLock, JoinSys.outside]

theorem threadStep_inv (h : JoinInv r s) : ∃ s', threadStep s = .ok s' ∧ JoinInv r s' := by
  by_cases ha : s.rest .thread = .awake
  · cases hp : s.thread with
    | fn => exact ⟨s, by simp [threadStep, hp], h⟩
    | exited => exact ⟨s, by simp [threadStep, hp], h⟩
    | spin =>
        by_cases hl : s.lock = none
        · exact ⟨_, by simp [threadStep, ha, hp, hl], threadLock_inv h hp hl⟩
        · exact ⟨s, by simp [threadStep, hp, hl], h⟩
    | locked =>
        cases hd : s.detached with
        | true => exact ⟨_, by simp [threadStep, ha, hp, hd], threadLeave_inv h hp hd⟩
        | false =>
            cases hw : s.waiter with
            | none =>
                exact ⟨_, by simp [threadStep, JoinSys.wakeWaiter, ha, hp, hd, hw],
                  threadPark_inv h hp hd hw⟩
            | some p =>
                have hrest := h.waiter_sleeps hw hd
                exact ⟨_, by simp [threadStep, JoinSys.wakeWaiter, JoinSys.wakeup, ha, hp, hd, hw, hrest],
                  threadReplace_inv h hp hd hw⟩
    | parked => exact ⟨_, by simp [threadStep, ha, hp], threadExit_inv h hp ha⟩
  · exact ⟨s, by simp [threadStep, ha], h⟩

/-! What the caller does. -/

theorem joinLocked_inv {want : Bool} (h : JoinInv (.join want) s) (hp : s.caller = .locked) :
    JoinInv (.join want) (joinLocked s) := by
  have hl := h.callerLock.mp (by simp [hp, CallerPc.HasLock])
  have hd : s.detached = false := by
    by_contra hd
    have hr := (h.detached (by simpa using hd)).1
    simp at hr
  rw [joinLocked, if_neg (by simp [hd])]
  by_cases hw : s.waiter = none
  · rw [if_pos hw]
    cases h
    constructor <;> grind [CallerPc.HasLock, JoinSys.outside, JoinSys.setRest]
  · -- the caller itself is not in its wait point, so the thread is the waiter
    have hthread : s.waiter = some .thread := by
      rcases Option.ne_none_iff_exists'.mp hw with ⟨p, hwp⟩
      cases p with
      | thread => exact hwp
      | caller =>
          have hj := (h.joiner hwp).1
          rw [hp] at hj
          cases hj
    rw [if_neg hw]
    cases h
    constructor <;> grind [CallerPc.HasLock, JoinSys.outside]

theorem detachLocked_inv (h : JoinInv .detach s) (hp : s.caller = .locked) :
    ∃ s', detachLocked s = .ok s' ∧ JoinInv .detach s' ∧ s'.caller = .unlocking := by
  have hl := h.callerLock.mp (by simp [hp, CallerPc.HasLock])
  have hd : s.detached = false := by
    by_contra hd
    have hc := (h.detached (by simpa using hd)).2
    simp [hp] at hc
  cases hw : s.waiter with
  | none =>
      refine ⟨_, by simp [detachLocked, JoinSys.wakeWaiter, hd, hw]; rfl, ?_, rfl⟩
      cases h
      constructor <;> grind [CallerPc.HasLock, JoinSys.outside]
  | some p =>
      have hrest : s.rest p = .handle := h.waiter_sleeps hw hd
      refine ⟨_, by simp [detachLocked, JoinSys.wakeWaiter, JoinSys.wakeup, hd, hw, hrest]; rfl,
        ?_, rfl⟩
      cases h
      constructor <;> grind [CallerPc.HasLock, JoinSys.outside, JoinSys.setRest]

theorem callerLock_inv (h : JoinInv r s) (hp : s.caller = .spin) (hl : s.lock = none) :
    JoinInv r { s with caller := .locked, lock := some .caller } := by
  cases h
  constructor <;> grind [CallerPc.HasLock, JoinSys.outside]

theorem callerUnlock_inv (h : JoinInv r s) (hp : s.caller = .unlocking) :
    JoinInv r { s with caller := .done 0 none, lock := none } := by
  cases h
  constructor <;> grind [CallerPc.HasLock, JoinSys.outside]

theorem callerRelock_inv (h : JoinInv r s) (hp : s.caller = .parked) (ha : s.rest .caller = .awake)
    (hl : s.lock = none) : JoinInv r { s with caller := .reading, lock := some .caller } := by
  have hthread := h.woken hp ha
  cases h
  constructor <;> grind [CallerPc.HasLock, JoinSys.outside]

theorem callerRead_inv {want : Bool} (h : JoinInv (.join want) s) (hp : s.caller = .reading) :
    JoinInv (.join want)
      { s with caller := .done 0 (if want then s.retval else none), lock := none } := by
  have hlock := h.callerLock.mp (by simp [hp, CallerPc.HasLock])
  cases h
  constructor <;> grind [CallerPc.HasLock, JoinSys.outside]

theorem callerStep_inv (h : JoinInv r s) : ∃ s', callerStep r s = .ok s' ∧ JoinInv r s' := by
  by_cases ha : s.rest .caller = .awake
  · cases hp : s.caller with
    | out => exact ⟨s, by simp [callerStep, hp], h⟩
    | done ret v => exact ⟨s, by simp [callerStep, hp], h⟩
    | spin =>
        by_cases hl : s.lock = none
        · exact ⟨_, by simp [callerStep, ha, hp, hl], callerLock_inv h hp hl⟩
        · exact ⟨s, by simp [callerStep, hp, hl], h⟩
    | locked =>
        cases r with
        | join want => exact ⟨_, by simp [callerStep, ha, hp], joinLocked_inv h hp⟩
        | detach =>
            rcases detachLocked_inv h hp with ⟨s', hs', hi, -⟩
            exact ⟨s', by simp [callerStep, ha, hp, hs'], hi⟩
    | unlocking => exact ⟨_, by simp [callerStep, ha, hp], callerUnlock_inv h hp⟩
    | parked =>
        by_cases hl : s.lock = none
        · exact ⟨_, by simp [callerStep, ha, hp, hl], callerRelock_inv h hp ha hl⟩
        · exact ⟨s, by simp [callerStep, hp, hl], h⟩
    | reading =>
        cases r with
        | join want =>
            refine ⟨_, ?_, callerRead_inv h hp⟩
            cases want <;> simp [callerStep, ha, hp]
        | detach =>
            have hd := h.detaching rfl
            simp [hp] at hd
  · exact ⟨s, by simp [callerStep, ha], h⟩

/-! What happens outside the functions. -/

theorem sleep_inv (h : JoinInv r s) {p : Party} (hout : s.outside p = true)
    (ha : s.rest p = .awake) : JoinInv r (s.setRest p .elsewhere) := by
  cases h
  cases p <;> constructor <;> grind [CallerPc.HasLock, JoinSys.outside, JoinSys.setRest]

theorem wake_inv (h : JoinInv r s) {p : Party} (hrest : s.rest p = .elsewhere) :
    JoinInv r (s.setRest p .awake) := by
  cases h
  cases p <;> constructor <;> grind [CallerPc.HasLock, JoinSys.outside, JoinSys.setRest]

theorem fnReturn_inv (h : JoinInv r s) (hp : s.thread = .fn) (ha : s.rest .thread = .awake)
    (v : BitVec 64) : JoinInv r { s with thread := .spin, retval := some v, fnRet := some v } := by
  cases h
  constructor <;> grind [CallerPc.HasLock, JoinSys.outside]

theorem call_inv (h : JoinInv r s) (hp : s.caller = .out) (ha : s.rest .caller = .awake) :
    JoinInv r { s with caller := .spin } := by
  cases h
  constructor <;> grind [CallerPc.HasLock, JoinSys.outside]

/-- Every step keeps the invariant. -/
theorem joinStep_inv (h : JoinInv r s) (e : JoinEvent) :
    ∃ s', joinStep r s e = .ok s' ∧ JoinInv r s' := by
  cases e with
  | sleep p =>
      refine ⟨_, rfl, ?_⟩
      split
      · rename_i hout
        exact sleep_inv h hout.1 hout.2
      · exact h
  | wake p =>
      refine ⟨_, rfl, ?_⟩
      split
      · rename_i hrest
        exact wake_inv h hrest
      · exact h
  | fnReturn v =>
      refine ⟨_, rfl, ?_⟩
      split
      · rename_i hfn
        exact fnReturn_inv h hfn.1 hfn.2 v
      · exact h
  | call =>
      refine ⟨_, rfl, ?_⟩
      split
      · rename_i hout
        exact call_inv h hout.1 hout.2
      · exact h
  | step p =>
      cases p with
      | thread => exact threadStep_inv h
      | caller => exact callerStep_inv h

theorem exec_joinInv (r : Reap) (es : List JoinEvent) :
    ∃ s, exec (joinStep r) JoinSys.start es = .ok s ∧ JoinInv r s :=
  exec_ok (G := fun _ _ => True) (fun _ e h _ => joinStep_inv h e) (joinInv_start r)
    (Along.trivial es _)

end

/-! ## The calls -/

/-- Neither task can move: the thread is done, the call was made. -/
def JoinSys.Final (r : Reap) (s : JoinSys) : Prop :=
  s.thread ≠ .fn ∧ s.caller ≠ .out ∧ threadStep s = .ok s ∧ callerStep r s = .ok s

/-- What the calls guarantee at any time: a join that has returned gives what the function
returned, and no task was resumed that waited for something else. -/
structure JoinSys.Ok (r : Reap) (s : JoinSys) : Prop where
  strayed : s.strayed = false
  joined : ∀ want ret v, r = .join want → s.caller = .done ret v →
    s.thread ≠ .fn ∧ ret = 0 ∧ ∃ x, s.fnRet = some x ∧ v = if want then some x else none

theorem JoinInv.ok {r : Reap} {s : JoinSys} (h : JoinInv r s) : s.Ok r := by
  constructor
  · exact h.strayed
  · intro want ret v hr hc
    have hj := h.joining want hr
    simp only [hc, reduceCtorEq, false_or, false_and, CallerPc.done.injEq] at hj
    obtain ⟨hw, rfl, rfl⟩ := hj
    have hfn : s.thread ≠ .fn := by
      intro hfn
      have hl := h.late hw
      simp [hfn] at hl
    have hret : s.fnRet ≠ none := fun hn => hfn (h.fn.mpr hn)
    rcases Option.ne_none_iff_exists'.mp hret with ⟨x, hx⟩
    exact ⟨hfn, rfl, x, hx, by simp [hx]⟩

section

variable {s : JoinSys}

/-- A detaching task that cannot move has woken the waiter, or waits for the thread. -/
theorem JoinInv.detach_stuck (h : JoinInv .detach s) (hcall : s.caller ≠ .out)
    (hstep : callerStep .detach s = .ok s) :
    (s.caller = .spin ∧ s.lock = some .thread) ∨ (s.detached = true ∧ s.lock ≠ some .caller) := by
  have hpc := h.detaching rfl
  have hawake : s.outside .caller = false → s.rest .caller = .awake := by
    intro hin
    cases hrest : s.rest .caller with
    | awake => rfl
    | handle => exact absurd rfl (h.joiner (h.callerSleeps.mp hrest)).2
    | elsewhere =>
        have hout := h.callerRest hrest
        rw [hin] at hout
        cases hout
  cases hc : s.caller with
  | out => exact absurd hc hcall
  | spin =>
      have ha := hawake (by simp [JoinSys.outside, hc])
      have hlock := h.callerLock
      simp only [hc, CallerPc.HasLock, false_iff] at hlock
      cases hl : s.lock with
      | none =>
          simp [callerStep, ha, hc, hl] at hstep
          have hmove := congrArg JoinSys.caller hstep
          simp [hc] at hmove
      | some p =>
          cases p with
          | thread => exact .inl ⟨rfl, rfl⟩
          | caller => exact absurd hl hlock
  | locked =>
      have ha := hawake (by simp [JoinSys.outside, hc])
      obtain ⟨s', hs', -, hmoved⟩ := detachLocked_inv h hc
      have heq : s' = s := by simpa [callerStep, ha, hc, hs'] using hstep
      rw [heq, hc] at hmoved
      cases hmoved
  | unlocking =>
      have ha := hawake (by simp [JoinSys.outside, hc])
      simp [callerStep, ha, hc] at hstep
      have hmove := congrArg JoinSys.caller hstep
      simp [hc] at hmove
  | parked => simp [hc] at hpc
  | reading => simp [hc] at hpc
  | done ret v =>
      refine .inr ⟨?_, ?_⟩
      · simp only [hc, reduceCtorEq, false_or] at hpc
        exact hpc.1
      · have hlock := h.callerLock
        simpa [hc, CallerPc.HasLock] using hlock

/-- Under the lock the thread moves on. -/
theorem JoinInv.locked_moves (h : JoinInv .detach s) (hp : s.thread = .locked)
    (ha : s.rest .thread = .awake) : ∃ s', threadStep s = .ok s' ∧ s'.thread ≠ .locked := by
  cases hd : s.detached with
  | true => exact ⟨_, by simp [threadStep, ha, hp, hd]; rfl, by simp⟩
  | false =>
      cases hw : s.waiter with
      | none =>
          exact ⟨_, by simp [threadStep, JoinSys.wakeWaiter, ha, hp, hd, hw]; rfl, by simp⟩
      | some p =>
          have hrest := h.waiter_sleeps hw hd
          refine ⟨_, by
            simp [threadStep, JoinSys.wakeWaiter, JoinSys.wakeup, ha, hp, hd, hw, hrest]; rfl, ?_⟩
          simp

/-- A detached thread exits. -/
theorem JoinInv.detach_exits (h : JoinInv .detach s) (hfinal : s.Final .detach) :
    s.thread = .exited := by
  obtain ⟨hfn, hcall, hmove, hstep⟩ := hfinal
  have hstuck := h.detach_stuck hcall hstep
  have hasleep : s.rest .thread ≠ .awake → s.waiter = some .thread ∧ s.detached = false := by
    intro hrest
    apply h.threadSleeps.mp
    cases hr : s.rest .thread with
    | awake => exact absurd hr hrest
    | handle => rfl
    | elsewhere => exact absurd (h.threadRest hr) hfn
  cases hp : s.thread with
  | fn => exact absurd hp hfn
  | exited => rfl
  | spin =>
      by_cases ha : s.rest .thread = .awake
      · cases hl : s.lock with
        | none =>
            simp [threadStep, ha, hp, hl] at hmove
            have hpc := congrArg JoinSys.thread hmove
            simp [hp] at hpc
        | some p =>
            cases p with
            | thread => simpa [hp] using h.threadLock.mpr hl
            | caller => simp [hl] at hstuck
      · have hlate := h.late (hasleep ha).1
        simp [hp] at hlate
  | locked =>
      have hl := h.threadLock.mp hp
      have hwaiter : s.waiter ≠ some .thread := by
        intro hw
        have hlate := h.late hw
        simp [hp] at hlate
      have ha : s.rest .thread = .awake := by
        by_contra ha
        exact hwaiter (hasleep ha).1
      obtain ⟨s', hs', hpc⟩ := h.locked_moves hp ha
      rw [hs'] at hmove
      rw [Except.ok.inj hmove, hp] at hpc
      exact absurd rfl hpc
  | parked =>
      by_cases ha : s.rest .thread = .awake
      · simp [threadStep, ha, hp] at hmove
        have hpc := congrArg JoinSys.thread hmove
        simp [hp] at hpc
      · -- the waiter was not woken, and the caller waits for a lock that the thread has left
        have hd := (hasleep ha).2
        simp only [hd, Bool.false_eq_true, false_and, or_false] at hstuck
        simpa [hp] using h.threadLock.mpr hstuck.2

end

/-- The thread wakes the task that joins it and goes to sleep; nobody wakes the thread. -/
theorem join_leaves_thread (want : Bool) :
    ∃ es s, exec (joinStep (.join want)) JoinSys.start es = .ok s ∧ s.Final (.join want) ∧
      s.thread = .parked := by
  refine ⟨[.call, .step .caller, .step .caller, .fnReturn 7, .step .thread, .step .thread,
    .step .caller, .step .caller], _, rfl, ?_, rfl⟩
  refine ⟨by simp, ?_, rfl, ?_⟩ <;> cases want <;> simp [callerStep]

/-- The calls keep their promises to the caller; the thread is made to exit by
`sl_pthread_detach` only. -/
theorem thread_reaped (r : Reap) :
    (∀ es, ∃ s, exec (joinStep r) JoinSys.start es = .ok s ∧ s.Ok r) ∧
    ((∀ es s, exec (joinStep r) JoinSys.start es = .ok s → s.Final r → s.thread = .exited) ↔
      r = .detach) := by
  constructor
  · intro es
    obtain ⟨s, hs, h⟩ := exec_joinInv r es
    exact ⟨s, hs, h.ok⟩
  · constructor
    · intro hexits
      cases r with
      | detach => rfl
      | join want =>
          obtain ⟨es, s, hs, hfinal, hp⟩ := join_leaves_thread want
          have hexited := hexits es s hs hfinal
          rw [hp] at hexited
          cases hexited
    · intro hr es s hs hfinal
      subst hr
      obtain ⟨s', hs', h⟩ := exec_joinInv .detach es
      rw [hs'] at hs
      cases hs
      exact h.detach_exits hfinal

/-- A joined thread sleeps for good. -/
theorem joined_thread_parked :
    ¬ ∀ (r : Reap) (es : List JoinEvent) (s : JoinSys),
      exec (joinStep r) JoinSys.start es = .ok s → s.Final r → s.thread = .exited := by
  intro hexits
  obtain ⟨es, s, hs, hfinal, hp⟩ := join_leaves_thread true
  have hexited := hexits (.join true) es s hs hfinal
  rw [hp] at hexited
  cases hexited

end Skyloft
