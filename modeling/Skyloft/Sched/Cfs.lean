import Skyloft.Lib.SearchTree
import Skyloft.Sched.Runqueue

/-!
# The CFS policy

The tasks of a runqueue are ordered by the virtual time they have run for, and the runqueue
keeps `min_vruntime`, a virtual time that only moves forward.  A task that sleeps keeps its
virtual time, a new one and one that exits keep theirs relative to `min_vruntime`.

The virtual times are machine words and are compared by the sign of their difference.  Two
histories of the values stored are kept next to the fields of the source: of `min_vruntime`,
and of the virtual times of the tasks of the runqueue.

* `CfsRq`, `CfsTask` and the functions of `cfs.c`.
* `cfs`, `cfs_lawful` — the policy, and that it keeps the books of its runqueues.
-/

namespace Skyloft

open Run

/-! ## Data -/

structure CfsRq where
  load : BitVec 64
  nrRunning : BitVec 32
  tree : SearchTree ℕ
  minVruntime : BitVec 64
  curr : Option ℕ
  /-- the values `min_vruntime` was given, in order -/
  mins : List (BitVec 64)
  /-- the virtual times that tasks of the runqueue were given -/
  vtimes : List (BitVec 64)

structure CfsTask where
  lastRun : ℕ
  load : BitVec 64
  onRq : Bool
  execStart : BitVec 64
  sumExecRuntime : BitVec 64
  prevSumExecRuntime : BitVec 64
  vruntime : BitVec 64

abbrev CfsSt := RqSt CfsRq CfsTask

/-- `sysctl_sched_latency` -/
def cfsLatency : BitVec 64 := 50000#64

/-- `sysctl_sched_min_granularity` -/
def cfsMinGranularity : BitVec 64 := 12500#64

/-- `cfs_sched_init_percpu` -/
def cfsInitPercpu : CfsRq where
  load := 0#64
  nrRunning := 0#32
  tree := .nil
  minVruntime := -1048576#64
  curr := none
  mins := [-1048576#64]
  vtimes := []

/-- `cfs_sched_init_task` -/
def cfsInitTask : CfsTask where
  lastRun := 0
  load := nice0Load
  onRq := false
  execStart := 0#64
  sumExecRuntime := 0#64
  prevSumExecRuntime := 0#64
  vruntime := 0#64

/-! ## The functions of `cfs.c` -/

namespace CfsSt

def setTask (s : CfsSt) (t : ℕ) (x : CfsTask) : CfsSt :=
  { s with task := Function.update s.task t x }

/-- The store of a virtual time. -/
def setVruntime (s : CfsSt) (t : ℕ) (v : BitVec 64) : CfsSt :=
  { rq := { s.rq with vtimes := s.rq.vtimes ++ [v] }
    task := Function.update s.task t { s.task t with vruntime := v } }

/-- The store of `min_vruntime`. -/
def setMin (s : CfsSt) (v : BitVec 64) : CfsSt :=
  { s with rq := { s.rq with minVruntime := v, mins := s.rq.mins ++ [v] } }

/-- The task that runs, while it is on the runqueue. -/
def currOnRq (s : CfsSt) : Option ℕ := s.rq.curr.filter fun t => (s.task t).onRq

/-- The virtual time that `update_min_vruntime` moves towards. -/
def nextMin (s : CfsSt) : BitVec 64 :=
  match s.currOnRq, s.rq.tree.first with
  | some t, some f => minVruntime (s.task t).vruntime (s.task f).vruntime
  | some t, none => (s.task t).vruntime
  | none, some f => (s.task f).vruntime
  | none, none => s.rq.minVruntime

/-- `update_min_vruntime` -/
def updateMinVruntime (s : CfsSt) : CfsSt :=
  s.setMin (maxVruntime s.rq.minVruntime s.nextMin)

/-- `update_curr` -/
def updateCurr (s : CfsSt) (now : BitVec 64) : CfsSt :=
  match s.rq.curr with
  | none => s
  | some t =>
      let x := s.task t
      let deltaExec := now - x.execStart
      if deltaExec.toInt ≤ 0 then s
      else
        let s := s.setTask t
          { x with execStart := now, sumExecRuntime := x.sumExecRuntime + deltaExec }
        let s := s.setVruntime t (x.vruntime + calcDeltaFair deltaExec x.load)
        s.updateMinVruntime

/-- `__sched_period` -/
def schedPeriod (nr : BitVec 32) : BitVec 64 :=
  if 4#32 < nr then nr.setWidth 64 * cfsMinGranularity else cfsLatency

/-- `sched_slice` -/
def schedSlice (q : CfsRq) (x : CfsTask) : BitVec 64 :=
  if x.onRq then calcDelta (schedPeriod q.nrRunning) x.load q.load
  else calcDelta (schedPeriod (q.nrRunning + 1#32)) x.load (q.load + x.load)

/-- `sched_vslice` -/
def schedVslice (q : CfsRq) (x : CfsTask) : BitVec 64 := calcDeltaFair (schedSlice q x) x.load

/-- `place_task` -/
def placeTask (s : CfsSt) (t : ℕ) (init : Bool) : CfsSt :=
  let v := s.rq.minVruntime
  let v := if init then v + schedVslice s.rq (s.task t) else v - cfsLatency >>> 1
  s.setVruntime t (maxVruntime (s.task t).vruntime v)

/-- `__vruntime_lt` -/
def vruntimeLt (task : ℕ → CfsTask) (a b : ℕ) : Bool :=
  ((task a).vruntime - (task b).vruntime).toInt < 0

variable (B : Balancer ℕ)

/-- `__enqueue_task` -/
def enqueueTree (s : CfsSt) (t : ℕ) : CfsSt :=
  { s with rq := { s.rq with tree := B.add (vruntimeLt s.task) t s.rq.tree } }

/-- `__dequeue_task` -/
def dequeueTree (s : CfsSt) (t : ℕ) : CfsSt :=
  { s with rq := { s.rq with tree := B.erase t s.rq.tree } }

/-- `enqueue_update` -/
def enqueueUpdate (s : CfsSt) (t : ℕ) : CfsSt :=
  { s with
    rq := { s.rq with load := s.rq.load + (s.task t).load, nrRunning := s.rq.nrRunning + 1#32 } }

/-- `dequeue_update` -/
def dequeueUpdate (s : CfsSt) (t : ℕ) : CfsSt :=
  { s with
    rq := { s.rq with load := s.rq.load - (s.task t).load, nrRunning := s.rq.nrRunning - 1#32 } }

def setOnRq (s : CfsSt) (t : ℕ) (b : Bool) : CfsSt := s.setTask t { s.task t with onRq := b }

/-- `vruntime` becomes absolute. -/
def denormalize (s : CfsSt) (t : ℕ) : CfsSt :=
  s.setVruntime t ((s.task t).vruntime + s.rq.minVruntime)

/-- `vruntime` becomes relative to `min_vruntime`. -/
def normalize (s : CfsSt) (t : ℕ) : CfsSt :=
  s.setTask t { s.task t with vruntime := (s.task t).vruntime - s.rq.minVruntime }

/-- `enqueue_task` -/
def enqueueTask (s : CfsSt) (t : ℕ) (wakeup : Bool) (now : BitVec 64) : CfsSt :=
  let curr := s.rq.curr = some t
  let s := if wakeup = false ∧ curr then s.denormalize t else s
  let s := (s.updateCurr now).enqueueUpdate t
  let s := if wakeup = false ∧ ¬ curr then s.denormalize t else s
  let s := if wakeup then s.placeTask t false else s
  let s := if ¬ curr then s.enqueueTree B t else s
  s.setOnRq t true

/-- `dequeue_task` -/
def dequeueTask (s : CfsSt) (t : ℕ) (sleep : Bool) (now : BitVec 64) : CfsSt :=
  let s := (s.updateCurr now).dequeueUpdate t
  let s := if s.rq.curr ≠ some t then s.dequeueTree B t else s
  let s := s.setOnRq t false
  let s := if sleep then s else s.normalize t
  s.updateMinVruntime

def setCurr (s : CfsSt) (t : Option ℕ) : CfsSt := { s with rq := { s.rq with curr := t } }

/-- `cfs_sched_finish_task` -/
def finishTask (s : CfsSt) (t : ℕ) (now : BitVec 64) : CfsSt :=
  (s.dequeueTask B t false now).setCurr none

/-- `__put_task` -/
def putTask (s : CfsSt) (t : ℕ) (now : BitVec 64) : CfsSt :=
  if (s.task t).onRq then s else s.enqueueTask B t false now

/-- `__fork_task` -/
def forkTask (s : CfsSt) (t : ℕ) (now : BitVec 64) : CfsSt :=
  let curr := s.rq.curr
  let s := s.updateCurr now
  let s :=
    match curr with
    | some c => s.setVruntime t (s.task c).vruntime
    | none => s
  (s.placeTask t true).normalize t

/-- `cfs_sched_spawn` -/
def spawn (s : CfsSt) (t : ℕ) (now₁ now₂ : BitVec 64) : CfsSt :=
  (s.forkTask t now₁).putTask B t now₂

/-- `__set_next_task` -/
def setNextTask (s : CfsSt) (c t : ℕ) (now : BitVec 64) : CfsSt :=
  let s := if (s.task t).onRq then s.dequeueTree B t else s
  let x := s.task t
  let s := s.setTask t
    { x with execStart := now, lastRun := c, prevSumExecRuntime := x.sumExecRuntime }
  s.setCurr (some t)

/-- `cfs_sched_pick_next` -/
def pickNext (c : ℕ) (now : BitVec 64) (s : CfsSt) : Except SchedFault (Option ℕ × CfsSt) :=
  if s.rq.nrRunning = 0#32 then .ok (none, s)
  else
    match s.rq.tree.first with
    | none => .error .nullTask
    | some t => .ok (some t, s.setNextTask B c t now)

/-- `cfs_sched_yield` of task `t`. -/
def yield (s : CfsSt) (t : ℕ) (now : BitVec 64) : Except SchedFault CfsSt :=
  if s.rq.curr ≠ some t then .error .notCurr
  else
    let s := if (s.task t).onRq then (s.updateCurr now).enqueueTree B t else s
    .ok (s.setCurr none)

/-- `cfs_sched_wakeup` -/
def wakeup (s : CfsSt) (t : ℕ) (now : BitVec 64) : CfsSt :=
  if (s.task t).onRq then s else s.enqueueTask B t true now

/-- `cfs_sched_block` -/
def block (s : CfsSt) (now : BitVec 64) : Except SchedFault CfsSt :=
  match s.rq.curr with
  | none => .error .nullTask
  | some t =>
      if (s.task t).onRq then .ok ((s.dequeueTask B t true now).setCurr none)
      else .error .notOnRq

/-- `check_preempt_tick` -/
def checkPreemptTick (s : CfsSt) (t : ℕ) : Except SchedFault Bool :=
  let idealRuntime := schedSlice s.rq (s.task t)
  let deltaExec := (s.task t).sumExecRuntime - (s.task t).prevSumExecRuntime
  if idealRuntime < deltaExec then .ok true
  else if deltaExec < cfsMinGranularity then .ok false
  else
    match s.rq.tree.first with
    | none => .error .nullTask
    | some f =>
        let delta := (s.task t).vruntime - (s.task f).vruntime
        .ok (¬ delta.toInt < 0 ∧ idealRuntime < delta)

/-- `cfs_sched_preempt`; the answer is whether to yield. -/
def preempt (s : CfsSt) (now : BitVec 64) : Except SchedFault (Bool × CfsSt) :=
  let s := s.updateCurr now
  if 1#32 < s.rq.nrRunning then
    match s.rq.curr with
    | none => .error .nullTask
    | some t => do
        let resched ← s.checkPreemptTick t
        return (resched, s)
  else .ok (false, s)

end CfsSt

/-- The policy, over a library for the tree. -/
def cfs (B : Balancer ℕ) : FairPolicy CfsRq CfsTask where
  tree q := q.tree.inorder
  curr := CfsRq.curr
  nrRunning := CfsRq.nrRunning
  load := CfsRq.load
  onRq := CfsTask.onRq
  weight := CfsTask.load
  lastRun := CfsTask.lastRun
  initPercpu := cfsInitPercpu
  initTask := cfsInitTask
  pickNext := CfsSt.pickNext B
  op
    | .spawn t now₁ now₂, s => .ok (CfsSt.spawn B s t now₁ now₂)
    | .yield t now, s => CfsSt.yield B s t now
    | .block now, s => CfsSt.block B s now
    | .wakeup t now, s => .ok (CfsSt.wakeup B s t now)
    | .finish t now, s => .ok (CfsSt.finishTask B s t now)
    | .preempt now, s => (CfsSt.preempt s now).map Prod.snd

/-! ## The books -/

namespace CfsSt

variable {B : Balancer ℕ} {s : CfsSt} {t u : ℕ} {now : BitVec 64}

/-- A store to task `t` that leaves `on_rq` and the weight. -/
theorem quiet_setTask {x : CfsTask} (hon : x.onRq = (s.task t).onRq)
    (hload : x.load = (s.task t).load) : (cfs B).Quiet (some t) s (s.setTask t x) :=
  .of_store rfl hon hload rfl

theorem quiet_setVruntime (v : BitVec 64) : (cfs B).Quiet (some t) s (s.setVruntime t v) := by
  have h := quiet_setTask (B := B) (s := s) (t := t) (x := { s.task t with vruntime := v }) rfl rfl
  exact ⟨h.task, h.onRq, h.weight, rfl, rfl, rfl, rfl⟩

theorem quiet_setMin (v : BitVec 64) : (cfs B).Quiet none s (s.setMin v) := by
  constructor <;> simp [setMin, cfs]

theorem quiet_updateMinVruntime : (cfs B).Quiet none s s.updateMinVruntime := quiet_setMin _

theorem quiet_updateCurr (now : BitVec 64) : (cfs B).Quiet none s (s.updateCurr now) := by
  cases hc : s.rq.curr with
  | none =>
      simp only [updateCurr, hc]
      exact .refl _ _
  | some t =>
      simp only [updateCurr, hc]
      split
      · exact .refl _ _
      · refine FairPolicy.Quiet.of_curr (t := t) ?_ hc
        refine FairPolicy.Quiet.trans ?_ (FairPolicy.Quiet.mono quiet_updateMinVruntime)
        refine FairPolicy.Quiet.trans ?_ (quiet_setVruntime _)
        exact quiet_setTask rfl rfl

theorem quiet_placeTask (init : Bool) : (cfs B).Quiet (some t) s (s.placeTask t init) :=
  quiet_setVruntime _

theorem quiet_denormalize : (cfs B).Quiet (some t) s (s.denormalize t) := quiet_setVruntime _

theorem quiet_normalize : (cfs B).Quiet (some t) s (s.normalize t) := quiet_setTask rfl rfl

theorem quiet_forkTask (now : BitVec 64) : (cfs B).Quiet (some t) s (s.forkTask t now) := by
  have hcurr := (quiet_updateCurr (B := B) (s := s) now).mono (r := some t)
  have hend : ∀ s : CfsSt, (cfs B).Quiet (some t) s ((s.placeTask t true).normalize t) :=
    fun s => (quiet_placeTask true).trans quiet_normalize
  simp only [forkTask]
  cases s.rq.curr with
  | none => exact hcurr.trans (hend _)
  | some c => exact (hcurr.trans (quiet_setVruntime _)).trans (hend _)

/-- What `enqueue_task` has done before the tree. -/
def enqueueHead (s : CfsSt) (t : ℕ) (wakeup : Bool) (now : BitVec 64) : CfsSt :=
  let s := (s.updateCurr now).enqueueUpdate t
  if wakeup then s.placeTask t false else s.denormalize t

/-- `enqueue_task` of a task that does not run. -/
theorem enqueueTask_eq (hc : s.rq.curr ≠ some t) (wakeup : Bool) :
    s.enqueueTask B t wakeup now =
      ((s.enqueueHead t wakeup now).enqueueTree B t).setOnRq t true := by
  cases wakeup <;> simp [enqueueTask, enqueueHead, hc]

theorem entered_enqueueTask (hc : s.rq.curr ≠ some t) (wakeup : Bool) (now : BitVec 64) :
    (cfs B).Entered t s (s.enqueueTask B t wakeup now) := by
  have hq := quiet_updateCurr (B := B) (s := s) now
  have hhead : (cfs B).Quiet (some t) ((s.updateCurr now).enqueueUpdate t)
      (s.enqueueHead t wakeup now) := by
    cases wakeup
    · exact quiet_denormalize
    · exact quiet_placeTask false
  have htask : ∀ u, u ≠ t → s.rq.curr ≠ some u →
      (s.enqueueTask B t wakeup now).task u = s.task u := by
    intro u hut hu
    rw [enqueueTask_eq hc]
    have hcu : (cfs B).curr ((s.updateCurr now).enqueueUpdate t).rq ≠ some u := by
      intro h
      exact hu (hq.curr.symm.trans h)
    have h₁ := hhead.task u (by simpa using hut.symm) hcu
    have h₂ := hq.task u (by simp) hu
    simp only [setOnRq, setTask, Function.update_of_ne hut]
    exact h₁.trans h₂
  have hon : ∀ u, u ≠ t → ((s.enqueueTask B t wakeup now).task u).onRq = (s.task u).onRq := by
    intro u hut
    rw [enqueueTask_eq hc]
    simp only [setOnRq, setTask, Function.update_of_ne hut]
    exact (hhead.onRq u).trans (hq.onRq u)
  have hload : ∀ u, ((s.enqueueTask B t wakeup now).task u).load = (s.task u).load := by
    intro u
    rw [enqueueTask_eq hc]
    have h := (hhead.weight u).trans (hq.weight u)
    by_cases hut : u = t
    · rw [hut] at h ⊢
      simpa [cfs, setOnRq, setTask, enqueueTree] using h
    · simp only [setOnRq, setTask, Function.update_of_ne hut]
      exact h
  refine ⟨⟨?_, ?_, hload⟩, ?_, ?_, ?_, ?_, ?_⟩
  · intro u hut hu
    exact htask u (by simpa using hut.symm) hu
  · intro u hut
    exact hon u (by simpa using hut.symm)
  · rw [enqueueTask_eq hc]
    have htree : (s.enqueueHead t wakeup now).rq.tree.inorder = s.rq.tree.inorder :=
      hhead.tree.trans hq.tree
    change (B.add _ t (s.enqueueHead t wakeup now).rq.tree).inorder.Perm (t :: s.rq.tree.inorder)
    rw [← htree]
    exact B.perm_add
  · rw [enqueueTask_eq hc]
    exact hhead.curr.trans hq.curr
  · rw [enqueueTask_eq hc]
    have h : (s.enqueueHead t wakeup now).rq.nrRunning = (s.updateCurr now).rq.nrRunning + 1#32 :=
      hhead.nrRunning
    have h' : (s.updateCurr now).rq.nrRunning = s.rq.nrRunning := hq.nrRunning
    rw [h'] at h
    exact h
  · rw [enqueueTask_eq hc]
    have h : (s.enqueueHead t wakeup now).rq.load =
        (s.updateCurr now).rq.load + ((s.updateCurr now).task t).load := hhead.load
    have h' : (s.updateCurr now).rq.load = s.rq.load := hq.load
    have h'' : ((s.updateCurr now).task t).load = (s.task t).load := hq.weight t
    rw [h', h''] at h
    exact h
  · rw [enqueueTask_eq hc]
    simp [cfs, setOnRq, setTask]

/-- What `dequeue_task` does to the task that runs. -/
theorem dequeueTask_eq (hc : s.rq.curr = some t) (sleep : Bool) :
    s.dequeueTask B t sleep now =
      (if sleep then ((s.updateCurr now).dequeueUpdate t).setOnRq t false
        else (((s.updateCurr now).dequeueUpdate t).setOnRq t
          false).normalize t).updateMinVruntime := by
  have hq := quiet_updateCurr (B := B) (s := s) now
  have hcurr : ((s.updateCurr now).dequeueUpdate t).rq.curr = some t := hq.curr.trans hc
  simp only [dequeueTask, hcurr, ne_eq, not_true_eq_false, if_false]

theorem left_dequeueTask (hc : s.rq.curr = some t) (sleep : Bool) :
    (cfs B).Left t s ((s.dequeueTask B t sleep now).setCurr none) := by
  have hq := quiet_updateCurr (B := B) (s := s) now
  have hend : (cfs B).Quiet (some t) (((s.updateCurr now).dequeueUpdate t).setOnRq t false)
      (s.dequeueTask B t sleep now) := by
    rw [dequeueTask_eq hc]
    refine FairPolicy.Quiet.trans ?_ (FairPolicy.Quiet.mono quiet_updateMinVruntime)
    cases sleep
    · exact quiet_normalize
    · exact .refl _ _
  have hmid : ∀ u, u ≠ t →
      (((s.updateCurr now).dequeueUpdate t).setOnRq t false).task u = (s.updateCurr now).task u := by
    intro u hu
    simp [setOnRq, setTask, dequeueUpdate, Function.update_of_ne hu]
  have hcurr : (((s.updateCurr now).dequeueUpdate t).setOnRq t false).rq.curr = some t :=
    hq.curr.trans hc
  refine ⟨⟨?_, ?_, ?_⟩, ?_, rfl, ?_, ?_, ?_⟩
  · intro u hut hu
    have hne : u ≠ t := by simpa using Ne.symm hut
    have h₁ := hend.task u hut (fun h => hut (hcurr.symm.trans h))
    exact (h₁.trans (hmid u hne)).trans (hq.task u (by simp) hu)
  · intro u hut
    have hne : u ≠ t := by simpa using Ne.symm hut
    refine (hend.onRq u).trans ?_
    rw [hmid u hne]
    exact hq.onRq u
  · intro u
    refine (hend.weight u).trans ?_
    by_cases hne : u = t
    · rw [hne]
      have := hq.weight t
      simpa [cfs, setOnRq, setTask, dequeueUpdate] using this
    · rw [hmid u hne]
      exact hq.weight u
  · exact hend.tree.trans hq.tree
  · have h : (s.dequeueTask B t sleep now).rq.nrRunning = (s.updateCurr now).rq.nrRunning - 1#32 :=
      hend.nrRunning
    have h' : (s.updateCurr now).rq.nrRunning = s.rq.nrRunning := hq.nrRunning
    rw [h'] at h
    exact h
  · have h : (s.dequeueTask B t sleep now).rq.load =
        (s.updateCurr now).rq.load - ((s.updateCurr now).task t).load := hend.load
    have h' : (s.updateCurr now).rq.load = s.rq.load := hq.load
    have h'' : ((s.updateCurr now).task t).load = (s.task t).load := hq.weight t
    rw [h', h''] at h
    exact h
  · refine (hend.onRq t).trans ?_
    simp [cfs, setOnRq, setTask]

theorem picked_setNextTask {c : ℕ} (hfirst : s.rq.tree.first = some t)
    (hon : (s.task t).onRq = true) : (cfs B).Picked c t s (s.setNextTask B c t now) := by
  have hmem : t ∈ s.rq.tree.inorder := by
    rw [SearchTree.first_eq_head] at hfirst
    exact List.mem_of_mem_head? hfirst
  have hother : ∀ u, u ≠ t → (s.setNextTask B c t now).task u = s.task u := by
    intro u hu
    simp [setNextTask, setCurr, setTask, hon, dequeueTree, Function.update_of_ne hu]
  have hself : (s.setNextTask B c t now).task t =
      { s.task t with
        execStart := now
        lastRun := c
        prevSumExecRuntime := (s.task t).sumExecRuntime } := by
    simp [setNextTask, setCurr, setTask, hon, dequeueTree]
  refine ⟨⟨?_, ?_, ?_⟩, ?_, rfl, ?_, ?_, ?_, ?_⟩
  · intro u hu _
    exact hother u (by simpa using Ne.symm hu)
  · intro u hu
    rw [hother u (by simpa using Ne.symm hu)]
  · intro u
    by_cases hu : u = t
    · rw [hu, hself]
      rfl
    · rw [hother u hu]
  · simp only [cfs, setNextTask, setCurr, setTask, hon, if_true, dequeueTree]
    exact B.perm_erase hmem
  · simp [cfs, setNextTask, setCurr, setTask, hon, dequeueTree]
  · simp [cfs, setNextTask, setCurr, setTask, hon, dequeueTree]
  · rw [hself]
    exact hon
  · rw [hself]
    rfl

/-! The calls, on a task that is where the caller has it. -/

theorem yield_eq (hc : s.rq.curr = some t) (hon : (s.task t).onRq = true) (now : BitVec 64) :
    s.yield B t now = .ok (((s.updateCurr now).enqueueTree B t).setCurr none) := by
  simp only [yield, hc, ne_eq, not_true_eq_false, if_false, hon, if_true]

theorem block_eq (hc : s.rq.curr = some t) (hon : (s.task t).onRq = true) (now : BitVec 64) :
    s.block B now = .ok ((s.dequeueTask B t true now).setCurr none) := by
  simp only [block, hc, hon, if_true]

theorem wakeup_eq (hoff : (s.task t).onRq = false) (now : BitVec 64) :
    s.wakeup B t now = s.enqueueTask B t true now := by
  simp only [wakeup, hoff, Bool.false_eq_true, if_false]

end CfsSt

/-- The tick finds a task in the tree whenever it looks for one. -/
theorem CfsSt.checkPreemptTick_ok {s : CfsSt} (t : ℕ) (h : s.rq.tree.inorder ≠ []) :
    ∃ b, s.checkPreemptTick t = .ok b := by
  cases hf : s.rq.tree.first with
  | none =>
      rw [SearchTree.first_eq_head, List.head?_eq_none_iff] at hf
      exact absurd hf h
  | some f =>
      simp only [CfsSt.checkPreemptTick, hf]
      split
      · exact ⟨_, rfl⟩
      · split <;> exact ⟨_, rfl⟩

theorem cfs_lawful (B : Balancer ℕ) : (cfs B).Lawful where
  tree_init := rfl
  curr_init := rfl
  nrRunning_init := rfl
  load_init := rfl
  onRq_init := rfl
  pick {l} c now h hc := by
    by_cases hnr : l.rq.nrRunning = 0#32
    · exact ⟨none, l, by simp only [cfs, CfsSt.pickNext, if_pos hnr], .refl _ _⟩
    · have hpos : 0 < l.rq.nrRunning.toNat := by
        by_contra hzero
        exact hnr (BitVec.eq_of_toNat_eq (by simpa using hzero))
      have hlt : ((cfs B).curr l.rq).toList.length < ((cfs B).nrRunning l.rq).toNat := by
        rw [hc]
        exact hpos
      have hne : l.rq.tree.inorder ≠ [] := h.tree_ne_nil hlt
      cases hf : l.rq.tree.first with
      | none =>
          rw [SearchTree.first_eq_head, List.head?_eq_none_iff] at hf
          exact absurd hf hne
      | some t =>
          refine ⟨some t, CfsSt.setNextTask B l c t now, ?_, ?_⟩
          · simp only [cfs, CfsSt.pickNext, if_neg hnr, hf]
          · refine CfsSt.picked_setNextTask hf (h.onRq t ?_)
            rw [SearchTree.first_eq_head] at hf
            exact FairPolicy.mem_members.mpr (.inr (List.mem_of_mem_head? hf))
  spawn {l t} now₁ now₂ h ht := by
    have hq := CfsSt.quiet_forkTask (B := B) (s := l) (t := t) now₁
    have hoff : ((CfsSt.forkTask l t now₁).task t).onRq = false := (hq.onRq t).trans ht
    have hc : (CfsSt.forkTask l t now₁).rq.curr ≠ some t :=
      fun hc => h.curr_ne_of_off ht (hq.curr.symm.trans hc)
    have he := CfsSt.entered_enqueueTask (B := B) hc false now₂
    refine ⟨_, rfl, ?_⟩
    simp only [CfsSt.spawn, CfsSt.putTask, hoff, Bool.false_eq_true, if_false]
    exact he.of_quiet hq
  yield {l t} now h hc := by
    have hq := CfsSt.quiet_updateCurr (B := B) (s := l) now
    refine ⟨_, CfsSt.yield_eq hc (h.curr_on hc) now, ?_⟩
    refine ⟨⟨hq.task, fun u _ => hq.onRq u, hq.weight⟩, ?_, rfl, hq.nrRunning, hq.load⟩
    rw [← hq.tree]
    exact B.perm_add
  block {l t} now h hc :=
    ⟨_, CfsSt.block_eq hc (h.curr_on hc) now, CfsSt.left_dequeueTask hc true⟩
  wakeup_on {l t} now ht := by
    have ht' : (l.task t).onRq = true := ht
    simp only [cfs, CfsSt.wakeup, ht', if_true]
  wakeup {l t} now h ht := by
    have ht' : (l.task t).onRq = false := ht
    refine ⟨CfsSt.enqueueTask B l t true now, ?_,
      CfsSt.entered_enqueueTask (h.curr_ne_of_off ht) true now⟩
    exact congrArg Except.ok (CfsSt.wakeup_eq ht' now)
  finish {l t} now h hc := ⟨_, rfl, CfsSt.left_dequeueTask hc false⟩
  preempt {l t} now h hc := by
    have hq := CfsSt.quiet_updateCurr (B := B) (s := l) now
    refine ⟨CfsSt.updateCurr l now, ?_, hq⟩
    have hc' : (CfsSt.updateCurr l now).rq.curr = some t := hq.curr.trans hc
    by_cases hnr : 1#32 < (CfsSt.updateCurr l now).rq.nrRunning
    · have hlt : ((cfs B).curr l.rq).toList.length < ((cfs B).nrRunning l.rq).toNat := by
        rw [hc, ← hq.nrRunning]
        exact hnr
      have hne : (CfsSt.updateCurr l now).rq.tree.inorder ≠ [] := by
        intro hnil
        exact h.tree_ne_nil hlt (hq.tree.symm.trans hnil)
      rcases CfsSt.checkPreemptTick_ok t hne with ⟨b, hb⟩
      simp only [cfs, CfsSt.preempt, if_pos hnr, hc', hb]
      rfl
    · simp only [cfs, CfsSt.preempt, if_neg hnr]
      rfl

end Skyloft
