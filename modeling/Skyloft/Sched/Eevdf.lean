import Skyloft.Sched.Cfs

/-!
# The EEVDF policy

The tasks of a runqueue are ordered by their deadlines.  The runqueue keeps, for the tasks in
the tree, the sum of their virtual times relative to `min_vruntime`, weighted by their loads,
and the sum of these loads; from them it computes the average virtual time, by which a task is
eligible or not.  The sums are updated whenever a task joins or leaves the tree and whenever
`min_vruntime` moves.

Every node of the tree also has the least virtual time of its subtree.  It is computed here
from the subtree, by the function with which the source updates it.

* `EevdfRq`, `EevdfTask` and the functions of `eevdf.c`.
* `eevdf`, `eevdf_lawful` — the policy, and that it keeps the books of its runqueues.
* `rq_membership` — who is in which runqueue, for both policies.
-/

namespace Skyloft

open Run

/-! ## Data -/

structure EevdfRq where
  load : BitVec 64
  tree : SearchTree ℕ
  nrRunning : BitVec 32
  avgVruntime : BitVec 64
  avgLoad : BitVec 64
  minVruntime : BitVec 64
  curr : Option ℕ
  /-- the values `min_vruntime` was given, in order -/
  mins : List (BitVec 64)

structure EevdfTask where
  lastRun : ℕ
  load : BitVec 64
  deadline : BitVec 64
  onRq : Bool
  execStart : BitVec 64
  sumExecRuntime : BitVec 64
  prevSumExecRuntime : BitVec 64
  vruntime : BitVec 64
  vlag : BitVec 64
  slice : BitVec 64

abbrev EevdfSt := RqSt EevdfRq EevdfTask

/-- `sysctl_sched_base_slice` -/
def eevdfBaseSlice : BitVec 64 := 12500#64

/-- `TICK_NSEC` -/
def tickNsec : BitVec 64 := 50000#64

/-- `eevdf_sched_init_percpu`, on zeroed memory. -/
def eevdfInitPercpu : EevdfRq where
  load := 0#64
  tree := .nil
  nrRunning := 0#32
  avgVruntime := 0#64
  avgLoad := 0#64
  minVruntime := -1048576#64
  curr := none
  mins := [-1048576#64]

/-- `eevdf_sched_init_task` -/
def eevdfInitTask : EevdfTask where
  lastRun := 0
  load := nice0Load
  deadline := 0#64
  onRq := false
  execStart := 0#64
  sumExecRuntime := 0#64
  prevSumExecRuntime := 0#64
  vruntime := 0#64
  vlag := 0#64
  slice := eevdfBaseSlice

/-- `scale_load_down` -/
def scaleLoadDown (w : BitVec 64) : BitVec 64 :=
  if w = 0#64 then 0#64 else if w >>> 10 < 2#64 then 2#64 else w >>> 10

/-- `div_s64`; the divisor is cut to 32 bits. -/
def divS64 (dividend divisor : BitVec 64) : BitVec 64 :=
  dividend.sdiv ((divisor.setWidth 32).signExtend 64)

/-- `clamp` on signed words. -/
def clampS64 (v lo hi : BitVec 64) : BitVec 64 :=
  if hi.toInt ≤ v.toInt then hi else if v.toInt ≤ lo.toInt then lo else v

/-! ## The functions of `eevdf.c` -/

namespace EevdfSt

def setTask (s : EevdfSt) (t : ℕ) (x : EevdfTask) : EevdfSt :=
  { s with task := Function.update s.task t x }

/-- `task_key` -/
def taskKey (s : EevdfSt) (t : ℕ) : BitVec 64 := (s.task t).vruntime - s.rq.minVruntime

/-- The weight of a task in the sums. -/
def weight (s : EevdfSt) (t : ℕ) : BitVec 64 := scaleLoadDown (s.task t).load

/-- `avg_vruntime_add` -/
def avgVruntimeAdd (s : EevdfSt) (t : ℕ) : EevdfSt :=
  { s with
    rq := { s.rq with
      avgVruntime := s.rq.avgVruntime + s.taskKey t * s.weight t
      avgLoad := s.rq.avgLoad + s.weight t } }

/-- `avg_vruntime_sub` -/
def avgVruntimeSub (s : EevdfSt) (t : ℕ) : EevdfSt :=
  { s with
    rq := { s.rq with
      avgVruntime := s.rq.avgVruntime - s.taskKey t * s.weight t
      avgLoad := s.rq.avgLoad - s.weight t } }

/-- The task that runs, while it is on the runqueue. -/
def currOnRq (s : EevdfSt) : Option ℕ := s.rq.curr.filter fun t => (s.task t).onRq

/-- The sums with the task that runs. -/
def sums (s : EevdfSt) : BitVec 64 × BitVec 64 :=
  match s.currOnRq with
  | some t => (s.rq.avgVruntime + s.taskKey t * s.weight t, s.rq.avgLoad + s.weight t)
  | none => (s.rq.avgVruntime, s.rq.avgLoad)

/-- `avg_vruntime` -/
def avgVruntime (s : EevdfSt) : BitVec 64 :=
  let avg := s.sums.1
  let load := s.sums.2
  let avg :=
    if load = 0#64 then avg
    else divS64 (if avg.toInt < 0 then avg - (load - 1#64) else avg) load
  s.rq.minVruntime + avg

/-- `task_lag` -/
def taskLag (avruntime : BitVec 64) (x : EevdfTask) : BitVec 64 :=
  let limit := calcDeltaFair (if 2#64 * x.slice < tickNsec then tickNsec else 2#64 * x.slice) x.load
  clampS64 (avruntime - x.vruntime) (-limit) limit

/-- `update_task_lag` -/
def updateTaskLag (s : EevdfSt) (t : ℕ) : EevdfSt :=
  s.setTask t { s.task t with vlag := taskLag s.avgVruntime (s.task t) }

/-- `vruntime_eligible` -/
def vruntimeEligible (s : EevdfSt) (v : BitVec 64) : Bool :=
  ((v - s.rq.minVruntime) * s.sums.2).toInt ≤ s.sums.1.toInt

/-- `min_vruntime` of a node: the least virtual time of its subtree, as
`min_vruntime_update` computes it. -/
def subtreeMin (task : ℕ → EevdfTask) : SearchTree ℕ → Option (BitVec 64)
  | .nil => none
  | .node l t r =>
      let step := fun (m : BitVec 64) (v : Option (BitVec 64)) =>
        match v with
        | none => m
        | some v => if 0 < (m - v).toInt then v else m
      some (step (step (task t).vruntime (subtreeMin task r)) (subtreeMin task l))

/-- `__update_min_vruntime`, and the store of what it returns. -/
def setMin (s : EevdfSt) (v : BitVec 64) : EevdfSt :=
  let delta := v - s.rq.minVruntime
  if 0 < delta.toInt then
    { s with
      rq := { s.rq with
        avgVruntime := s.rq.avgVruntime - s.rq.avgLoad * delta
        minVruntime := v
        mins := s.rq.mins ++ [v] } }
  else { s with rq := { s.rq with mins := s.rq.mins ++ [s.rq.minVruntime] } }

/-- The virtual time that `update_min_vruntime` moves towards. -/
def nextMin (s : EevdfSt) : BitVec 64 :=
  match s.currOnRq, subtreeMin s.task s.rq.tree with
  | some t, some v => minVruntime (s.task t).vruntime v
  | some t, none => (s.task t).vruntime
  | none, some v => v
  | none, none => s.rq.minVruntime

/-- `update_min_vruntime` -/
def updateMinVruntime (s : EevdfSt) : EevdfSt := s.setMin s.nextMin

/-- `update_deadline`; the answer is whether to yield. -/
def updateDeadline (s : EevdfSt) (t : ℕ) : Bool × EevdfSt :=
  let x := s.task t
  if (x.vruntime - x.deadline).toInt < 0 then (false, s)
  else
    (1#32 < s.rq.nrRunning,
      s.setTask t
        { x with
          slice := eevdfBaseSlice
          deadline := x.vruntime + calcDeltaFair eevdfBaseSlice x.load })

/-- `update_curr` -/
def updateCurr (s : EevdfSt) (now : BitVec 64) : Bool × EevdfSt :=
  match s.rq.curr with
  | none => (false, s)
  | some t =>
      let x := s.task t
      let deltaExec := now - x.execStart
      if deltaExec.toInt ≤ 0 then (false, s)
      else
        let s := s.setTask t
          { x with
            execStart := now
            sumExecRuntime := x.sumExecRuntime + deltaExec
            vruntime := x.vruntime + calcDeltaFair deltaExec x.load }
        let r := s.updateDeadline t
        (r.1, r.2.updateMinVruntime)

/-- The lag that `place_task` keeps, inflated by the weight of the task. -/
def placeLag (s : EevdfSt) (t : ℕ) : BitVec 64 :=
  if s.rq.nrRunning = 0#32 then 0#64
  else
    let load := s.sums.2
    let lag := (s.task t).vlag * (load + s.weight t)
    divS64 lag (if load = 0#64 then 1#64 else load)

/-- `place_task` -/
def placeTask (s : EevdfSt) (t : ℕ) (init : Bool) : EevdfSt :=
  let x := s.task t
  let vslice := calcDeltaFair eevdfBaseSlice x.load
  let vslice := if init then vslice / 2#64 else vslice
  let vruntime := s.avgVruntime - s.placeLag t
  s.setTask t
    { x with slice := eevdfBaseSlice, vruntime := vruntime, deadline := vruntime + vslice }

/-- `__deadline_less` -/
def deadlineLess (task : ℕ → EevdfTask) (a b : ℕ) : Bool :=
  ((task a).deadline - (task b).deadline).toInt < 0

variable (B : Balancer ℕ)

/-- `__enqueue_task` -/
def enqueueTree (s : EevdfSt) (t : ℕ) : EevdfSt :=
  let s := s.avgVruntimeAdd t
  { s with rq := { s.rq with tree := B.add (deadlineLess s.task) t s.rq.tree } }

/-- `__dequeue_task` -/
def dequeueTree (s : EevdfSt) (t : ℕ) : EevdfSt :=
  EevdfSt.avgVruntimeSub { s with rq := { s.rq with tree := B.erase t s.rq.tree } } t

def setCurr (s : EevdfSt) (t : Option ℕ) : EevdfSt := { s with rq := { s.rq with curr := t } }

/-- `__set_next_task` -/
def setNextTask (s : EevdfSt) (c t : ℕ) (now : BitVec 64) : EevdfSt :=
  let s :=
    if (s.task t).onRq then
      (s.dequeueTree B t).setTask t { s.task t with vlag := (s.task t).deadline }
    else s
  let x := s.task t
  let s := s.setTask t
    { x with execStart := now, lastRun := c, prevSumExecRuntime := x.sumExecRuntime }
  s.setCurr (some t)

/-- `enqueue_update` -/
def enqueueUpdate (s : EevdfSt) (t : ℕ) : EevdfSt :=
  { s with
    rq := { s.rq with load := s.rq.load + (s.task t).load, nrRunning := s.rq.nrRunning + 1#32 } }

/-- `dequeue_update` -/
def dequeueUpdate (s : EevdfSt) (t : ℕ) : EevdfSt :=
  { s with
    rq := { s.rq with load := s.rq.load - (s.task t).load, nrRunning := s.rq.nrRunning - 1#32 } }

def setOnRq (s : EevdfSt) (t : ℕ) (b : Bool) : EevdfSt := s.setTask t { s.task t with onRq := b }

/-- `enqueue_task` -/
def enqueueTask (s : EevdfSt) (t : ℕ) (now : BitVec 64) : EevdfSt :=
  let curr := s.rq.curr = some t
  let s := if curr then s.placeTask t false else s
  let s := (s.updateCurr now).2
  let s := if ¬ curr then s.placeTask t false else s
  let s := s.enqueueUpdate t
  let s := if ¬ curr then s.enqueueTree B t else s
  s.setOnRq t true

/-- `dequeue_task` -/
def dequeueTask (s : EevdfSt) (t : ℕ) (now : BitVec 64) : EevdfSt :=
  let s := (s.updateCurr now).2.updateTaskLag t
  let s := if s.rq.curr ≠ some t then s.dequeueTree B t else s
  ((s.setOnRq t false).dequeueUpdate t).updateMinVruntime

/-- `eevdf_sched_finish_task` -/
def finishTask (s : EevdfSt) (t : ℕ) (now : BitVec 64) : EevdfSt :=
  (s.dequeueTask B t now).setCurr none

/-- `__put_task` -/
def putTask (s : EevdfSt) (t : ℕ) (now : BitVec 64) : EevdfSt :=
  if (s.task t).onRq then s else s.enqueueTask B t now

/-- `__fork_task` -/
def forkTask (s : EevdfSt) (t : ℕ) (now : BitVec 64) : EevdfSt :=
  (s.updateCurr now).2.placeTask t true

/-- `eevdf_sched_spawn` -/
def spawn (s : EevdfSt) (t : ℕ) (now₁ now₂ : BitVec 64) : EevdfSt :=
  (s.forkTask t now₁).putTask B t now₂

/-- The search of `pick_eevdf` for the eligible task with the earliest deadline. -/
def heapSearch (s : EevdfSt) : SearchTree ℕ → Option ℕ
  | .nil => none
  | .node l t r =>
      if (subtreeMin s.task l).any s.vruntimeEligible then heapSearch s l
      else if s.vruntimeEligible (s.task t).vruntime then some t
      else heapSearch s r

/-- `pick_eevdf` -/
def pickEevdf (s : EevdfSt) : Option ℕ :=
  let task := s.rq.tree.first
  let eligible := fun t => s.vruntimeEligible (s.task t).vruntime
  if s.rq.nrRunning = 1#32 then (if s.currOnRq.isSome then s.currOnRq else task)
  else
    let curr := s.currOnRq.filter eligible
    match curr.filter fun t => (s.task t).vlag = (s.task t).deadline with
    | some t => some t
    | none =>
        let best := if task.any eligible then task else s.heapSearch s.rq.tree
        match best, curr with
        | none, _ => curr
        | some b, none => some b
        | some b, some t => if deadlineLess s.task t b then some t else some b

/-- `eevdf_sched_pick_next` -/
def pickNext (c : ℕ) (now : BitVec 64) (s : EevdfSt) :
    Except SchedFault (Option ℕ × EevdfSt) :=
  let s := if s.currOnRq.isSome then (s.updateCurr now).2 else s
  if s.rq.nrRunning = 0#32 then .ok (none, s)
  else
    match s.pickEevdf with
    | none => .ok (none, s)
    | some t => .ok (some t, s.setNextTask B c t now)

/-- `eevdf_sched_yield` of task `t`. -/
def yield (s : EevdfSt) (t : ℕ) (now : BitVec 64) : Except SchedFault EevdfSt :=
  if s.rq.curr ≠ some t then .error .notCurr
  else
    let s :=
      if (s.task t).onRq then
        let s := (s.updateCurr now).2
        let x := s.task t
        let s := s.setTask t { x with deadline := x.deadline + calcDeltaFair x.slice x.load }
        s.enqueueTree B t
      else s
    .ok (s.setCurr none)

/-- `eevdf_sched_wakeup` -/
def wakeup (s : EevdfSt) (t : ℕ) (now : BitVec 64) : EevdfSt :=
  if (s.task t).onRq then s else s.enqueueTask B t now

/-- `eevdf_sched_block` -/
def block (s : EevdfSt) (now : BitVec 64) : Except SchedFault EevdfSt :=
  match s.rq.curr with
  | none => .error .nullTask
  | some t =>
      if (s.task t).onRq then .ok ((s.dequeueTask B t now).setCurr none)
      else .error .notOnRq

end EevdfSt

/-- The policy, over a library for the tree. -/
def eevdf (B : Balancer ℕ) : FairPolicy EevdfRq EevdfTask where
  tree q := q.tree.inorder
  curr := EevdfRq.curr
  nrRunning := EevdfRq.nrRunning
  load := EevdfRq.load
  onRq := EevdfTask.onRq
  weight := EevdfTask.load
  lastRun := EevdfTask.lastRun
  initPercpu := eevdfInitPercpu
  initTask := eevdfInitTask
  pickNext := EevdfSt.pickNext B
  op
    | .spawn t now₁ now₂, s => .ok (EevdfSt.spawn B s t now₁ now₂)
    | .yield t now, s => EevdfSt.yield B s t now
    | .block now, s => EevdfSt.block B s now
    | .wakeup t now, s => .ok (EevdfSt.wakeup B s t now)
    | .finish t now, s => .ok (EevdfSt.finishTask B s t now)
    | .preempt now, s => .ok (EevdfSt.updateCurr s now).2

/-! ## The books -/

namespace EevdfSt

variable {B : Balancer ℕ} {s : EevdfSt} {t u : ℕ} {now : BitVec 64}

theorem quiet_setTask {x : EevdfTask} (hon : x.onRq = (s.task t).onRq)
    (hload : x.load = (s.task t).load) : (eevdf B).Quiet (some t) s (s.setTask t x) :=
  .of_store rfl hon hload rfl

theorem quiet_setMin (v : BitVec 64) : (eevdf B).Quiet none s (s.setMin v) := by
  simp only [setMin]
  split <;> constructor <;> simp [eevdf]

theorem quiet_updateMinVruntime : (eevdf B).Quiet none s s.updateMinVruntime := quiet_setMin _

theorem quiet_updateDeadline : (eevdf B).Quiet (some t) s (s.updateDeadline t).2 := by
  simp only [updateDeadline]
  split
  · exact .refl _ _
  · exact quiet_setTask rfl rfl

theorem quiet_updateCurr (now : BitVec 64) : (eevdf B).Quiet none s (s.updateCurr now).2 := by
  cases hc : s.rq.curr with
  | none =>
      simp only [updateCurr, hc]
      exact .refl _ _
  | some t =>
      simp only [updateCurr, hc]
      split
      · exact .refl _ _
      · refine FairPolicy.Quiet.of_curr (t := t) ?_ hc
        refine FairPolicy.Quiet.trans ?_ (FairPolicy.Quiet.mono quiet_updateMinVruntime)
        refine FairPolicy.Quiet.trans ?_ quiet_updateDeadline
        exact quiet_setTask rfl rfl

theorem quiet_placeTask (init : Bool) : (eevdf B).Quiet (some t) s (s.placeTask t init) :=
  quiet_setTask rfl rfl

theorem quiet_forkTask (now : BitVec 64) : (eevdf B).Quiet (some t) s (s.forkTask t now) :=
  (quiet_updateCurr now).mono.trans (quiet_placeTask true)

/-- `enqueue_task` of a task that does not run. -/
theorem enqueueTask_eq (hc : s.rq.curr ≠ some t) :
    s.enqueueTask B t now =
      (((((s.updateCurr now).2.placeTask t false).enqueueUpdate t).enqueueTree B t).setOnRq t
        true) := by
  simp [enqueueTask, hc]

theorem entered_enqueueTask (hc : s.rq.curr ≠ some t) (now : BitVec 64) :
    (eevdf B).Entered t s (s.enqueueTask B t now) := by
  have hq : (eevdf B).Quiet (some t) s ((s.updateCurr now).2.placeTask t false) :=
    (quiet_updateCurr now).mono.trans (quiet_placeTask false)
  rw [enqueueTask_eq hc]
  generalize (s.updateCurr now).2.placeTask t false = s₁ at hq
  refine FairPolicy.Entered.of_quiet ?_ hq
  refine ⟨⟨?_, ?_, ?_⟩, ?_, rfl, rfl, rfl, ?_⟩
  · intro u hu _
    have hut : u ≠ t := fun h => hu (by rw [h])
    simp [setOnRq, setTask, enqueueTree, avgVruntimeAdd, enqueueUpdate, Function.update_of_ne hut]
  · intro u hu
    have hut : u ≠ t := fun h => hu (by rw [h])
    simp [setOnRq, setTask, enqueueTree, avgVruntimeAdd, enqueueUpdate, Function.update_of_ne hut]
  · intro u
    by_cases hut : u = t
    · simp [eevdf, setOnRq, setTask, enqueueTree, avgVruntimeAdd, enqueueUpdate, hut]
    · simp [setOnRq, setTask, enqueueTree, avgVruntimeAdd, enqueueUpdate,
        Function.update_of_ne hut]
  · exact B.perm_add
  · simp [eevdf, setOnRq, setTask]

/-- What `dequeue_task` does to the task that runs. -/
theorem dequeueTask_eq (hc : s.rq.curr = some t) :
    s.dequeueTask B t now =
      ((((s.updateCurr now).2.updateTaskLag t).setOnRq t
        false).dequeueUpdate t).updateMinVruntime := by
  have hq := quiet_updateCurr (B := B) (s := s) now
  have hcurr : ((s.updateCurr now).2.updateTaskLag t).rq.curr = some t := hq.curr.trans hc
  simp only [dequeueTask, hcurr, ne_eq, not_true_eq_false, if_false]

theorem left_dequeueTask (hc : s.rq.curr = some t) (now : BitVec 64) :
    (eevdf B).Left t s ((s.dequeueTask B t now).setCurr none) := by
  have hq : (eevdf B).Quiet (some t) s ((s.updateCurr now).2.updateTaskLag t) := by
    refine FairPolicy.Quiet.trans (FairPolicy.Quiet.mono (quiet_updateCurr now)) ?_
    exact quiet_setTask rfl rfl
  rw [dequeueTask_eq hc]
  generalize (s.updateCurr now).2.updateTaskLag t = s₁ at hq
  have hend : (eevdf B).Quiet none ((s₁.setOnRq t false).dequeueUpdate t)
      ((s₁.setOnRq t false).dequeueUpdate t).updateMinVruntime := quiet_updateMinVruntime
  have htask : ∀ u, ((s₁.setOnRq t false).dequeueUpdate t).updateMinVruntime.task u =
      (s₁.setOnRq t false).task u := by
    intro u
    simp only [updateMinVruntime, setMin]
    split <;> rfl
  have hother : ∀ u, u ≠ t → (s₁.setOnRq t false).task u = s₁.task u := by
    intro u hut
    simp [setOnRq, setTask, Function.update_of_ne hut]
  refine ⟨⟨?_, ?_, ?_⟩, ?_, rfl, ?_, ?_, ?_⟩
  · intro u hu hcu
    have hut : u ≠ t := fun h => hu (by rw [h])
    simp only [setCurr]
    rw [htask, hother u hut]
    exact hq.task u hu hcu
  · intro u hu
    have hut : u ≠ t := fun h => hu (by rw [h])
    simp only [setCurr]
    rw [htask, hother u hut]
    exact hq.onRq u
  · intro u
    simp only [setCurr]
    rw [htask]
    refine Eq.trans ?_ (hq.weight u)
    by_cases hut : u = t
    · simp [eevdf, setOnRq, setTask, hut]
    · rw [hother u hut]
  · exact hend.tree.trans hq.tree
  · have h : ((s₁.setOnRq t false).dequeueUpdate t).updateMinVruntime.rq.nrRunning =
        s₁.rq.nrRunning - 1#32 := hend.nrRunning
    have h' : s₁.rq.nrRunning = s.rq.nrRunning := hq.nrRunning
    rw [h'] at h
    exact h
  · have h : ((s₁.setOnRq t false).dequeueUpdate t).updateMinVruntime.rq.load =
        s₁.rq.load - ((s₁.setOnRq t false).task t).load := hend.load
    have h' : s₁.rq.load = s.rq.load := hq.load
    have h'' : ((s₁.setOnRq t false).task t).load = (s.task t).load := by
      have hw : (s₁.task t).load = (s.task t).load := hq.weight t
      simpa [setOnRq, setTask] using hw
    rw [h', h''] at h
    exact h
  · simp only [setCurr]
    rw [htask]
    simp [eevdf, setOnRq, setTask]

/-- The search stays in the tree. -/
theorem heapSearch_mem {n : SearchTree ℕ} (h : s.heapSearch n = some t) : t ∈ n.inorder := by
  induction n with
  | nil => simp [heapSearch] at h
  | node l x r ihl ihr =>
      rw [heapSearch] at h
      rw [SearchTree.inorder_node, List.mem_append, List.mem_cons]
      split at h
      · exact .inl (ihl h)
      · split at h
        · exact .inr (.inl (Option.some.inj h).symm)
        · exact .inr (.inr (ihr h))

theorem first_mem {n : SearchTree ℕ} (h : n.first = some t) : t ∈ n.inorder := by
  rw [SearchTree.first_eq_head] at h
  exact List.mem_of_mem_head? h

/-- With nothing running, a task of the tree is picked. -/
theorem pickEevdf_mem (hc : s.rq.curr = none) (h : s.pickEevdf = some t) :
    t ∈ s.rq.tree.inorder := by
  have hcurr : s.currOnRq = none := by simp [currOnRq, hc]
  simp only [pickEevdf, hcurr, Option.isSome_none, Bool.false_eq_true, if_false,
    Option.filter_none] at h
  split at h
  · exact first_mem h
  · split at h
    · simp at h
    · rename_i b hbest _
      rw [Option.some.inj h] at hbest
      split at hbest
      · exact first_mem hbest
      · exact heapSearch_mem hbest
    · rename_i hnone
      simp at hnone

theorem setNextTask_self {c : ℕ} (hon : (s.task t).onRq = true) (now : BitVec 64) :
    (s.setNextTask B c t now).task t =
      { s.task t with
        vlag := (s.task t).deadline
        execStart := now
        lastRun := c
        prevSumExecRuntime := (s.task t).sumExecRuntime } := by
  simp [setNextTask, setCurr, setTask, hon, dequeueTree, avgVruntimeSub]

theorem picked_setNextTask {c : ℕ} (hmem : t ∈ s.rq.tree.inorder)
    (hon : (s.task t).onRq = true) : (eevdf B).Picked c t s (s.setNextTask B c t now) := by
  have hother : ∀ u, u ≠ t → (s.setNextTask B c t now).task u = s.task u := by
    intro u hu
    simp [setNextTask, setCurr, setTask, hon, dequeueTree, avgVruntimeSub,
      Function.update_of_ne hu]
  have hself := setNextTask_self (B := B) (c := c) hon now
  refine ⟨⟨?_, ?_, ?_⟩, ?_, rfl, ?_, ?_, ?_, ?_⟩
  · intro u hu _
    exact hother u (by simpa using Ne.symm hu)
  · intro u hu
    rw [hother u (by simpa using Ne.symm hu)]
  · intro u
    by_cases hu : u = t
    · rw [hu, hself]
      rfl
    · rw [hother u hu]
  · simp only [eevdf, setNextTask, setCurr, setTask, hon, if_true, dequeueTree, avgVruntimeSub]
    exact B.perm_erase hmem
  · simp [eevdf, setNextTask, setCurr, setTask, hon, dequeueTree, avgVruntimeSub]
  · simp [eevdf, setNextTask, setCurr, setTask, hon, dequeueTree, avgVruntimeSub]
  · rw [hself]
    exact hon
  · rw [hself]
    rfl

/-- What `eevdf_sched_yield` does before it gives up the task that runs. -/
def requeue (B : Balancer ℕ) (s : EevdfSt) (t : ℕ) (now : BitVec 64) : EevdfSt :=
  let s := (s.updateCurr now).2
  let x := s.task t
  let s := s.setTask t { x with deadline := x.deadline + calcDeltaFair x.slice x.load }
  s.enqueueTree B t

theorem yield_eq (hc : s.rq.curr = some t) (hon : (s.task t).onRq = true) (now : BitVec 64) :
    s.yield B t now = .ok ((s.requeue B t now).setCurr none) := by
  simp only [yield, hc, ne_eq, not_true_eq_false, if_false, hon, if_true, requeue]

theorem block_eq (hc : s.rq.curr = some t) (hon : (s.task t).onRq = true) (now : BitVec 64) :
    s.block B now = .ok ((s.dequeueTask B t now).setCurr none) := by
  simp only [block, hc, hon, if_true]

theorem put_requeue (hc : s.rq.curr = some t) :
    (eevdf B).Put t s ((s.requeue B t now).setCurr none) := by
  have hq : (eevdf B).Quiet none s ((s.updateCurr now).2.setTask t
      { (s.updateCurr now).2.task t with
        deadline := ((s.updateCurr now).2.task t).deadline +
          calcDeltaFair ((s.updateCurr now).2.task t).slice
            ((s.updateCurr now).2.task t).load }) := by
    refine FairPolicy.Quiet.of_curr (t := t) ?_ hc
    refine FairPolicy.Quiet.trans (FairPolicy.Quiet.mono (quiet_updateCurr now)) ?_
    exact quiet_setTask rfl rfl
  simp only [requeue]
  generalize (s.updateCurr now).2.setTask t _ = s₁ at hq
  refine ⟨⟨hq.task, fun u _ => hq.onRq u, hq.weight⟩, ?_, rfl, hq.nrRunning, hq.load⟩
  rw [← hq.tree]
  exact B.perm_add

end EevdfSt

theorem eevdf_lawful (B : Balancer ℕ) : (eevdf B).Lawful where
  tree_init := rfl
  curr_init := rfl
  nrRunning_init := rfl
  load_init := rfl
  onRq_init := rfl
  pick {l} c now h hc := by
    have hc' : l.rq.curr = none := hc
    have hidle : EevdfSt.currOnRq l = none := by simp [EevdfSt.currOnRq, hc']
    simp only [eevdf, EevdfSt.pickNext, hidle, Option.isSome_none, Bool.false_eq_true, if_false]
    by_cases hnr : l.rq.nrRunning = 0#32
    · exact ⟨none, l, by rw [if_pos hnr], .refl _ _⟩
    · cases hp : EevdfSt.pickEevdf l with
      | none => exact ⟨none, l, by rw [if_neg hnr], .refl _ _⟩
      | some t =>
          have hmem := EevdfSt.pickEevdf_mem hc' hp
          refine ⟨some t, EevdfSt.setNextTask B l c t now, by rw [if_neg hnr], ?_⟩
          exact EevdfSt.picked_setNextTask hmem
            (h.onRq t (FairPolicy.mem_members.mpr (.inr hmem)))
  spawn {l t} now₁ now₂ h ht := by
    have hq := EevdfSt.quiet_forkTask (B := B) (s := l) (t := t) now₁
    have hoff : ((EevdfSt.forkTask l t now₁).task t).onRq = false := (hq.onRq t).trans ht
    have hc : (EevdfSt.forkTask l t now₁).rq.curr ≠ some t :=
      fun hc => h.curr_ne_of_off ht (hq.curr.symm.trans hc)
    have he := EevdfSt.entered_enqueueTask (B := B) hc now₂
    refine ⟨_, rfl, ?_⟩
    simp only [EevdfSt.spawn, EevdfSt.putTask, hoff, Bool.false_eq_true, if_false]
    exact he.of_quiet hq
  yield {l t} now h hc :=
    ⟨_, EevdfSt.yield_eq hc (h.curr_on hc) now, EevdfSt.put_requeue hc⟩
  block {l t} now h hc :=
    ⟨_, EevdfSt.block_eq hc (h.curr_on hc) now, EevdfSt.left_dequeueTask hc now⟩
  wakeup_on {l t} now ht := by
    have ht' : (l.task t).onRq = true := ht
    simp only [eevdf, EevdfSt.wakeup, ht', if_true]
  wakeup {l t} now h ht := by
    have ht' : (l.task t).onRq = false := ht
    refine ⟨_, rfl, ?_⟩
    simp only [EevdfSt.wakeup, ht', Bool.false_eq_true, if_false]
    exact EevdfSt.entered_enqueueTask (h.curr_ne_of_off ht) now
  finish {l t} now h hc := ⟨_, rfl, EevdfSt.left_dequeueTask hc now⟩
  preempt {l t} now h hc := ⟨_, rfl, EevdfSt.quiet_updateCurr now⟩

end Skyloft
