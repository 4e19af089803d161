import Mathlib.Data.Finset.Basic
import Skyloft.Lib.Run

/-!
# Blocking and waking under CFS and EEVDF

`task_block` marks the running task as blocked, releases the lock of the wait list that
the task is on, and only then takes it off its runqueue in the policy's `block`.
`task_wakeup` marks the task as runnable and puts it on the runqueue of its last CPU in the
policy's `wakeup`, unless it is on a runqueue.  The two policies do the same to the fields
kept here; the order of the tree and the virtual times are left out, so that a pick may
return any task of the tree.

* `WakeSys`, `wakeStep` — CPUs, their runqueues, and the calls that are under way.
* `TaskOk` — where a task is, call by call.
* `no_lost_wakeup` — a task is on a runqueue once its calls are done, provided that `block`
  comes before `wakeup`.
* `early_wakeup_lost` — otherwise it is lost.
-/

namespace Skyloft

open Run

inductive TaskState
  | runnable
  | blocked
  deriving DecidableEq

/-! ## Runqueues -/

/-- `cfs_rq` and `eevdf_rq`. -/
structure TreeRq where
  curr : Option ℕ
  /-- `tasks_timeline` -/
  tree : Finset ℕ
  nrRunning : ℕ

/-- How far `task_block` has come. -/
inductive BlockPc
  | idle
  /-- the state is set, the caller's lock is held -/
  | marked
  /-- the lock is released, the task is still current -/
  | released
  deriving DecidableEq

/-- How far the wakeup of a task has come. -/
inductive WakePc
  | none
  /-- the task is on a wait list -/
  | listed
  /-- a waker has taken it off the list -/
  | popped
  /-- the state is set -/
  | marked
  deriving DecidableEq

structure WakeSys where
  rq : ℕ → TreeRq
  state : ℕ → TaskState
  onRq : ℕ → Bool
  lastRun : ℕ → ℕ
  live : ℕ → Bool
  blk : ℕ → BlockPc
  wake : ℕ → WakePc

namespace WakeSys

def start : WakeSys where
  rq _ := ⟨none, ∅, 0⟩
  state _ := .runnable
  onRq _ := false
  lastRun _ := 0
  live _ := false
  blk _ := .idle
  wake _ := .none

def setRq (s : WakeSys) (c : ℕ) (rq : TreeRq) : WakeSys :=
  { s with rq := Function.update s.rq c rq }

/-- `enqueue_task` -/
def enqueueTask (s : WakeSys) (c t : ℕ) : WakeSys :=
  { s.setRq c { s.rq c with
      tree := if (s.rq c).curr = some t then (s.rq c).tree else insert t (s.rq c).tree
      nrRunning := (s.rq c).nrRunning + 1 } with
    onRq := Function.update s.onRq t true }

/-- `dequeue_task` of the current task, which is in no tree, and `rq->curr = NULL`. -/
def dequeueCurr (s : WakeSys) (c t : ℕ) : WakeSys :=
  { s.setRq c { s.rq c with curr := none, nrRunning := (s.rq c).nrRunning - 1 } with
    onRq := Function.update s.onRq t false }

/-- `__set_next_task` -/
def setNext (s : WakeSys) (c t : ℕ) : WakeSys :=
  { s.setRq c { s.rq c with
      curr := some t
      tree := if s.onRq t then (s.rq c).tree.erase t else (s.rq c).tree } with
    lastRun := Function.update s.lastRun t c }

/-- The policy's `yield`. -/
def yieldCurr (s : WakeSys) (c t : ℕ) : WakeSys :=
  s.setRq c { s.rq c with
    curr := none
    tree := if s.onRq t then insert t (s.rq c).tree else (s.rq c).tree }

end WakeSys

inductive WakeEvent
  /-- `task_spawn` of task `t` on the runqueue of CPU `c` -/
  | spawn (t c : ℕ)
  /-- the policy's `sched_pick_next` on CPU `c` returns `t` -/
  | pick (c t : ℕ)
  | yield (c : ℕ)
  | finish (c : ℕ)
  /-- `task_block` up to the release of the lock; the task is on a wait list -/
  | block (c : ℕ)
  /-- the release of the lock -/
  | unlock (c : ℕ)
  /-- the policy's `block` -/
  | policyBlock (c : ℕ)
  /-- a waker takes the task off the wait list -/
  | pop (t : ℕ)
  /-- `task_wakeup` up to the call of the policy -/
  | mark (t : ℕ)
  /-- the policy's `wakeup` -/
  | policyWakeup (t : ℕ)

/-- One step of a CPU or of a waker.  An event that cannot happen changes nothing. -/
def wakeNext (s : WakeSys) : WakeEvent → WakeSys
  | .spawn t c =>
      if s.live t = false ∧ s.onRq t = false then
        { s.enqueueTask c t with
          live := Function.update s.live t true
          state := Function.update s.state t .runnable }
      else s
  | .pick c t =>
      if (s.rq c).curr = none ∧ (s.rq c).nrRunning ≠ 0 ∧ t ∈ (s.rq c).tree then s.setNext c t
      else s
  | .yield c =>
      match (s.rq c).curr with
      | some t => if s.blk t = .idle then s.yieldCurr c t else s
      | none => s
  | .finish c =>
      match (s.rq c).curr with
      | some t =>
          if s.blk t = .idle then
            { s.dequeueCurr c t with live := Function.update s.live t false }
          else s
      | none => s
  | .block c =>
      match (s.rq c).curr with
      | some t =>
          if s.blk t = .idle then
            { s with
              state := Function.update s.state t .blocked
              blk := Function.update s.blk t .marked
              wake := Function.update s.wake t .listed }
          else s
      | none => s
  | .unlock c =>
      match (s.rq c).curr with
      | some t =>
          if s.blk t = .marked then { s with blk := Function.update s.blk t .released } else s
      | none => s
  | .policyBlock c =>
      match (s.rq c).curr with
      | some t =>
          if s.blk t = .released then
            { s.dequeueCurr c t with blk := Function.update s.blk t .idle }
          else s
      | none => s
  | .pop t =>
      -- the lock of the list is free once `task_block` has released it
      if s.wake t = .listed ∧ s.blk t ≠ .marked then
        { s with wake := Function.update s.wake t .popped }
      else s
  | .mark t =>
      if s.wake t = .popped then
        { s with
          state := Function.update s.state t .runnable
          wake := Function.update s.wake t .marked }
      else s
  | .policyWakeup t =>
      if s.wake t = .marked then
        { (if s.onRq t then s else s.enqueueTask (s.lastRun t) t) with
          wake := Function.update s.wake t .none }
      else s

def wakeStep (s : WakeSys) (e : WakeEvent) : Except Empty WakeSys := .ok (wakeNext s e)

/-- The policy's `wakeup` of a task does not overtake its `block`. -/
def Ordered (s : WakeSys) : WakeEvent → Prop
  | .policyWakeup t => s.wake t = .marked → s.blk t = .idle
  | .spawn _ _ | .pick _ _ | .yield _ | .finish _ | .block _ | .unlock _ | .policyBlock _
  | .pop _ | .mark _ => True

instance (s : WakeSys) : (e : WakeEvent) → Decidable (Ordered s e)
  | .policyWakeup t => inferInstanceAs (Decidable (s.wake t = .marked → s.blk t = .idle))
  | .spawn _ _ | .pick _ _ | .yield _ | .finish _ | .block _ | .unlock _ | .policyBlock _
  | .pop _ | .mark _ => .isTrue trivial

namespace WakeSys

/-- No call on the task is under way. -/
def Settled (s : WakeSys) (t : ℕ) : Prop :=
  s.live t = true ∧ s.blk t = .idle ∧ s.wake t = .none

/-- The task is runnable and on a runqueue, in the tree or current. -/
def Awake (s : WakeSys) (t : ℕ) : Prop :=
  s.state t = .runnable ∧ s.onRq t = true ∧
    ∃ c, t ∈ (s.rq c).tree ∨ (s.rq c).curr = some t

/-! ## Where a task is -/

def NoHome (s : WakeSys) (t : ℕ) : Prop :=
  ∀ c, t ∉ (s.rq c).tree ∧ (s.rq c).curr ≠ some t

def OnlyCurr (s : WakeSys) (t c : ℕ) : Prop :=
  ∀ d, t ∉ (s.rq d).tree ∧ ((s.rq d).curr = some t ↔ d = c)

def OnlyTree (s : WakeSys) (t c : ℕ) : Prop :=
  ∀ d, (t ∈ (s.rq d).tree ↔ d = c) ∧ (s.rq d).curr ≠ some t

end WakeSys

/-- The state that `task_block` and `task_wakeup` leave at each place of a wakeup. -/
def WakePc.state : WakePc → TaskState
  | .listed | .popped => .blocked
  | .none | .marked => .runnable

/-- What is known of a task, by the calls that are under way. -/
structure TaskOk (s : WakeSys) (t : ℕ) : Prop where
  waking : s.wake t ≠ .none → s.live t = true
  state : s.state t = (s.wake t).state ∨ s.live t = false
  marked : s.blk t = .marked → s.wake t = .listed
  released : s.blk t = .released → s.wake t ≠ .none
  blocking : s.blk t ≠ .idle → s.onRq t = true ∧ ∃ c, s.OnlyCurr t c
  away : s.blk t = .idle → s.wake t ≠ .none ∨ s.live t = false → s.onRq t = false ∧ s.NoHome t
  settled : s.Settled t → s.onRq t = true ∧ ∃ c, s.OnlyCurr t c ∨ s.OnlyTree t c

variable {s s' : WakeSys} {t u c : ℕ}

theorem taskOk_start (t : ℕ) : TaskOk .start t where
  waking h := absurd rfl h
  state := .inl rfl
  marked h := by simp [WakeSys.start] at h
  released h := by simp [WakeSys.start] at h
  blocking h := by simp [WakeSys.start] at h
  away _ _ := by simp [WakeSys.start, WakeSys.NoHome]
  settled h := by simp [WakeSys.start, WakeSys.Settled] at h

/-- Nothing that concerns task `u` changes. -/
structure SameTask (s s' : WakeSys) (u : ℕ) : Prop where
  live : s'.live u = s.live u
  blk : s'.blk u = s.blk u
  wake : s'.wake u = s.wake u
  state : s'.state u = s.state u
  onRq : s'.onRq u = s.onRq u
  tree : ∀ c, u ∈ (s'.rq c).tree ↔ u ∈ (s.rq c).tree
  curr : ∀ c, (s'.rq c).curr = some u ↔ (s.rq c).curr = some u

theorem TaskOk.congr (h : TaskOk s u) (hs : SameTask s s' u) : TaskOk s' u where
  waking := by
    rw [hs.wake, hs.live]
    exact h.waking
  state := by
    rw [hs.wake, hs.live, hs.state]
    exact h.state
  marked := by
    rw [hs.blk, hs.wake]
    exact h.marked
  released := by
    rw [hs.blk, hs.wake]
    exact h.released
  blocking := by
    simp only [WakeSys.OnlyCurr, hs.blk, hs.onRq, hs.tree, hs.curr]
    exact h.blocking
  away := by
    simp only [WakeSys.NoHome, hs.blk, hs.wake, hs.live, hs.onRq, hs.tree, ne_eq, hs.curr]
    exact h.away
  settled := by
    simp only [WakeSys.Settled, WakeSys.OnlyCurr, WakeSys.OnlyTree, hs.blk, hs.wake, hs.live,
      hs.onRq, hs.tree, ne_eq, hs.curr]
    exact h.settled

/-- A step on task `t` leaves the others alone. -/
theorem taskOk_of_step (h : ∀ u, TaskOk s u) (t : ℕ) (hother : ∀ u ≠ t, SameTask s s' u)
    (ht : TaskOk s' t) : ∀ u, TaskOk s' u := by
  intro u
  by_cases hu : u = t
  · rw [hu]
    exact ht
  · exact (h u).congr (hother u hu)

/-- A running task that is in no call. -/
theorem TaskOk.running (h : TaskOk s t) (hc : (s.rq c).curr = some t) (hb : s.blk t = .idle) :
    s.live t = true ∧ s.wake t = .none ∧ s.onRq t = true ∧ s.OnlyCurr t c := by
  have hnot : ¬ (s.wake t ≠ .none ∨ s.live t = false) := by
    intro hn
    exact ((h.away hb hn).2 c).2 hc
  have hw : s.wake t = .none := by
    by_contra hw
    exact hnot (.inl hw)
  have hl : s.live t = true := by
    by_contra hl
    exact hnot (.inr (by simpa using hl))
  obtain ⟨hon, d, hd⟩ := h.settled ⟨hl, hb, hw⟩
  refine ⟨hl, hw, hon, ?_⟩
  rcases hd with hd | hd
  · have hcd : c = d := ((hd c).2).mp hc
    rwa [hcd]
  · exact absurd hc (hd c).2

theorem TaskOk.current (h : TaskOk s t) (hc : (s.rq c).curr = some t) (hb : s.blk t ≠ .idle) :
    s.onRq t = true ∧ s.OnlyCurr t c := by
  obtain ⟨hon, d, hd⟩ := h.blocking hb
  have hcd : c = d := ((hd c).2).mp hc
  rw [hcd]
  exact ⟨hon, hd⟩

/-! ## The runqueue operations -/

@[simp] theorem WakeSys.setRq_self (s : WakeSys) (rq : TreeRq) : (s.setRq c rq).rq c = rq := by
  simp [setRq]

theorem WakeSys.setRq_other (s : WakeSys) (rq : TreeRq) {d : ℕ} (hd : d ≠ c) :
    (s.setRq c rq).rq d = s.rq d := by
  simp [setRq, Function.update_of_ne hd]

/-- A change of one runqueue that keeps task `u` where it is. -/
theorem SameTask.of_rq {rq : TreeRq} (htree : u ∈ rq.tree ↔ u ∈ (s.rq c).tree)
    (hcurr : rq.curr = some u ↔ (s.rq c).curr = some u) (hrq : s'.rq = (s.setRq c rq).rq)
    (hlive : s'.live u = s.live u) (hblk : s'.blk u = s.blk u) (hwake : s'.wake u = s.wake u)
    (hstate : s'.state u = s.state u) (honRq : s'.onRq u = s.onRq u) : SameTask s s' u where
  live := hlive
  blk := hblk
  wake := hwake
  state := hstate
  onRq := honRq
  tree d := by
    rw [hrq]
    by_cases hd : d = c
    · subst hd
      simpa using htree
    · rw [s.setRq_other rq hd]
  curr d := by
    rw [hrq]
    by_cases hd : d = c
    · subst hd
      simpa using hcurr
    · rw [s.setRq_other rq hd]

theorem noHome_dequeue (h : s.OnlyCurr t c) : (s.dequeueCurr c t).NoHome t := by
  intro d
  by_cases hd : d = c
  · subst hd
    simp [WakeSys.dequeueCurr, (h d).1]
  · have hne : (s.rq d).curr ≠ some t := fun hc => hd ((h d).2.mp hc)
    simp only [WakeSys.dequeueCurr, s.setRq_other _ hd]
    exact ⟨(h d).1, hne⟩

theorem onlyTree_enqueue (h : s.NoHome t) : (s.enqueueTask c t).OnlyTree t c := by
  intro d
  by_cases hd : d = c
  · subst hd
    simp [WakeSys.enqueueTask, (h d).2]
  · simp only [WakeSys.enqueueTask, s.setRq_other _ hd]
    simpa [hd] using h d

theorem onlyCurr_setNext (h : s.OnlyTree t c) (hon : s.onRq t = true) :
    (s.setNext c t).OnlyCurr t c := by
  intro d
  by_cases hd : d = c
  · subst hd
    simp [WakeSys.setNext, hon]
  · simp only [WakeSys.setNext, s.setRq_other _ hd]
    simpa [hd] using h d

theorem onlyTree_yield (h : s.OnlyCurr t c) (hon : s.onRq t = true) :
    (s.yieldCurr c t).OnlyTree t c := by
  intro d
  by_cases hd : d = c
  · subst hd
    simp [WakeSys.yieldCurr, hon]
  · simp only [WakeSys.yieldCurr, s.setRq_other _ hd]
    simpa [hd] using h d

/-! ## Steps -/

theorem spawn_ok (h : ∀ u, TaskOk s u) (t c : ℕ) : ∀ u, TaskOk (wakeNext s (.spawn t c)) u := by
  by_cases hg : s.live t = false ∧ s.onRq t = false
  · have ht := h t
    have hw : s.wake t = .none := by
      by_contra hw
      simp [ht.waking hw] at hg
    have hb : s.blk t = .idle := by
      by_contra hb
      simp [(ht.blocking hb).1] at hg
    have hno := (ht.away hb (.inr hg.1)).2
    simp only [wakeNext, hg, and_self, if_true]
    refine taskOk_of_step h t ?_ ?_
    · intro u hu
      refine .of_rq (c := c) ?_ ?_ rfl ?_ rfl rfl ?_ ?_
      · by_cases hc : (s.rq c).curr = some t <;> simp [hc, hu]
      · rfl
      all_goals simp [WakeSys.enqueueTask, WakeSys.setRq, Function.update_of_ne hu]
    · refine ⟨?_, ?_, ?_, ?_, ?_, ?_, ?_⟩
      · simp
      · simp [WakeSys.enqueueTask, WakeSys.setRq, hw, WakePc.state]
      · simp [WakeSys.enqueueTask, WakeSys.setRq, hb]
      · simp [WakeSys.enqueueTask, WakeSys.setRq, hb]
      · simp [WakeSys.enqueueTask, WakeSys.setRq, hb]
      · simp [WakeSys.enqueueTask, WakeSys.setRq, hw]
      · intro _
        exact ⟨by simp [WakeSys.enqueueTask], c, .inr (onlyTree_enqueue hno)⟩
  · simpa only [wakeNext, hg, if_false] using h

theorem pick_ok (h : ∀ u, TaskOk s u) (c t : ℕ) : ∀ u, TaskOk (wakeNext s (.pick c t)) u := by
  by_cases hg : (s.rq c).curr = none ∧ (s.rq c).nrRunning ≠ 0 ∧ t ∈ (s.rq c).tree
  · have ht := h t
    have hb : s.blk t = .idle := by
      by_contra hb
      obtain ⟨-, d, hd⟩ := ht.blocking hb
      exact (hd c).1 hg.2.2
    have hset : ¬ (s.wake t ≠ .none ∨ s.live t = false) := by
      intro hn
      exact ((ht.away hb hn).2 c).1 hg.2.2
    simp only [not_or, not_not, Bool.not_eq_false] at hset
    obtain ⟨hon, d, hd⟩ := ht.settled ⟨hset.2, hb, hset.1⟩
    have htree : s.OnlyTree t c := by
      rcases hd with hd | hd
      · exact absurd hg.2.2 (hd c).1
      · have hcd : c = d := ((hd c).1).mp hg.2.2
        rwa [hcd]
    simp only [wakeNext, if_pos hg]
    refine taskOk_of_step h t ?_ ?_
    · intro u hu
      refine .of_rq (c := c) ?_ ?_ rfl rfl rfl rfl rfl rfl
      · simp [hon, hu]
      · simp [hg.1, Ne.symm hu]
    · have hcur := onlyCurr_setNext htree hon
      refine ⟨ht.waking, ht.state, ht.marked, ht.released, ?_, ?_, ?_⟩
      · intro hb'
        exact absurd hb hb'
      · intro _ hn
        simp [WakeSys.setNext, WakeSys.setRq, hset] at hn
      · intro _
        exact ⟨hon, c, .inl hcur⟩
  · simpa only [wakeNext, hg, if_false] using h

theorem yield_ok (h : ∀ u, TaskOk s u) (c : ℕ) : ∀ u, TaskOk (wakeNext s (.yield c)) u := by
  cases hc : (s.rq c).curr with
  | none => simpa only [wakeNext, hc] using h
  | some t =>
      by_cases hb : s.blk t = .idle
      · have ht := h t
        obtain ⟨hl, hw, hon, hcur⟩ := ht.running hc hb
        simp only [wakeNext, hc, hb, if_true]
        refine taskOk_of_step h t ?_ ?_
        · intro u hu
          refine .of_rq (c := c) ?_ ?_ rfl rfl rfl rfl rfl rfl
          · simp [hon, hu]
          · simp [hc, Ne.symm hu]
        · refine ⟨ht.waking, ht.state, ht.marked, ht.released, ?_, ?_, ?_⟩
          · intro hb'
            exact absurd hb hb'
          · intro _ hn
            simp [WakeSys.yieldCurr, WakeSys.setRq, hw, hl] at hn
          · intro _
            exact ⟨hon, c, .inr (onlyTree_yield hcur hon)⟩
      · simpa only [wakeNext, hc, hb, if_false] using h

theorem finish_ok (h : ∀ u, TaskOk s u) (c : ℕ) : ∀ u, TaskOk (wakeNext s (.finish c)) u := by
  cases hc : (s.rq c).curr with
  | none => simpa only [wakeNext, hc] using h
  | some t =>
      by_cases hb : s.blk t = .idle
      · have ht := h t
        obtain ⟨hl, hw, hon, hcur⟩ := ht.running hc hb
        simp only [wakeNext, hc, hb, if_true]
        refine taskOk_of_step h t ?_ ?_
        · intro u hu
          refine .of_rq (c := c) ?_ ?_ rfl ?_ rfl rfl rfl ?_
          · exact .rfl
          · simp [hc, Ne.symm hu]
          all_goals simp [WakeSys.dequeueCurr, WakeSys.setRq, Function.update_of_ne hu]
        · refine ⟨?_, .inr (by simp), ht.marked, ht.released, ?_, ?_, ?_⟩
          · intro hw'
            exact absurd hw hw'
          · intro hb'
            exact absurd hb hb'
          · intro _ _
            exact ⟨by simp [WakeSys.dequeueCurr], noHome_dequeue hcur⟩
          · intro hset
            simp [WakeSys.Settled] at hset
      · simpa only [wakeNext, hc, hb, if_false] using h

theorem block_ok (h : ∀ u, TaskOk s u) (c : ℕ) : ∀ u, TaskOk (wakeNext s (.block c)) u := by
  cases hc : (s.rq c).curr with
  | none => simpa only [wakeNext, hc] using h
  | some t =>
      by_cases hb : s.blk t = .idle
      · obtain ⟨hl, hw, hon, hcur⟩ := (h t).running hc hb
        simp only [wakeNext, hc, hb, if_true]
        refine taskOk_of_step h t ?_ ?_
        · intro u hu
          constructor <;> simp [Function.update_of_ne hu]
        · refine ⟨fun _ => hl, ?_, ?_, ?_, fun _ => ⟨hon, c, hcur⟩, ?_, ?_⟩
          · simp [WakePc.state]
          · simp
          · simp
          · simp
          · simp [WakeSys.Settled]
      · simpa only [wakeNext, hc, hb, if_false] using h

theorem unlock_ok (h : ∀ u, TaskOk s u) (c : ℕ) : ∀ u, TaskOk (wakeNext s (.unlock c)) u := by
  cases hc : (s.rq c).curr with
  | none => simpa only [wakeNext, hc] using h
  | some t =>
      by_cases hb : s.blk t = .marked
      · have ht := h t
        have hw := ht.marked hb
        simp only [wakeNext, hc, hb, if_true]
        refine taskOk_of_step h t ?_ ?_
        · intro u hu
          constructor <;> simp [Function.update_of_ne hu]
        · refine ⟨ht.waking, ht.state, ?_, ?_, ?_, ?_, ?_⟩
          · simp
          · simp [hw]
          · intro _
            exact ht.blocking (by simp [hb])
          · simp
          · simp [WakeSys.Settled]
      · simpa only [wakeNext, hc, hb, if_false] using h

theorem policyBlock_ok (h : ∀ u, TaskOk s u) (c : ℕ) :
    ∀ u, TaskOk (wakeNext s (.policyBlock c)) u := by
  cases hc : (s.rq c).curr with
  | none => simpa only [wakeNext, hc] using h
  | some t =>
      by_cases hb : s.blk t = .released
      · have ht := h t
        have hw := ht.released hb
        obtain ⟨hon, hcur⟩ := ht.current hc (by simp [hb])
        simp only [wakeNext, hc, hb, if_true]
        refine taskOk_of_step h t ?_ ?_
        · intro u hu
          refine .of_rq (c := c) ?_ ?_ rfl rfl ?_ rfl rfl ?_
          · exact .rfl
          · simp [hc, Ne.symm hu]
          all_goals simp [WakeSys.dequeueCurr, WakeSys.setRq, Function.update_of_ne hu]
        · refine ⟨ht.waking, ht.state, ?_, ?_, ?_, ?_, ?_⟩
          · simp
          · simp
          · simp
          · intro _ _
            exact ⟨by simp [WakeSys.dequeueCurr], noHome_dequeue hcur⟩
          · rintro ⟨-, -, hnone⟩
            exact absurd hnone hw
      · simpa only [wakeNext, hc, hb, if_false] using h

theorem pop_ok (h : ∀ u, TaskOk s u) (t : ℕ) : ∀ u, TaskOk (wakeNext s (.pop t)) u := by
  by_cases hg : s.wake t = .listed ∧ s.blk t ≠ .marked
  · have ht := h t
    have hl : s.live t = true := ht.waking (by simp [hg.1])
    simp only [wakeNext, if_pos hg]
    refine taskOk_of_step h t ?_ ?_
    · intro u hu
      constructor <;> simp [Function.update_of_ne hu]
    · refine ⟨fun _ => hl, ?_, ?_, ?_, ht.blocking, ?_, ?_⟩
      · have hst := ht.state
        simp only [hg.1, hl] at hst
        simpa [WakePc.state, hl] using hst
      · intro hb
        exact absurd hb hg.2
      · simp
      · intro hb _
        exact ht.away hb (.inl (by simp [hg.1]))
      · simp [WakeSys.Settled]
  · simpa only [wakeNext, hg, if_false] using h

theorem mark_ok (h : ∀ u, TaskOk s u) (t : ℕ) : ∀ u, TaskOk (wakeNext s (.mark t)) u := by
  by_cases hg : s.wake t = .popped
  · have ht := h t
    have hl : s.live t = true := ht.waking (by simp [hg])
    simp only [wakeNext, if_pos hg]
    refine taskOk_of_step h t ?_ ?_
    · intro u hu
      constructor <;> simp [Function.update_of_ne hu]
    · refine ⟨fun _ => hl, ?_, ?_, ?_, ht.blocking, ?_, ?_⟩
      · simp [WakePc.state]
      · intro hb
        have hb' : s.blk t = .marked := hb
        simp [ht.marked hb'] at hg
      · simp
      · intro hb _
        exact ht.away hb (.inl (by simp [hg]))
      · simp [WakeSys.Settled]
  · simpa only [wakeNext, hg, if_false] using h

/-- The policy's `wakeup` of a task whose `block` is done finds it off the runqueues. -/
theorem policyWakeup_ok (h : ∀ u, TaskOk s u) (t : ℕ) (hg : Ordered s (.policyWakeup t)) :
    ∀ u, TaskOk (wakeNext s (.policyWakeup t)) u := by
  by_cases hw : s.wake t = .marked
  · have ht := h t
    have hb : s.blk t = .idle := hg hw
    have hl : s.live t = true := ht.waking (by simp [hw])
    obtain ⟨hoff, hno⟩ := ht.away hb (.inl (by simp [hw]))
    simp only [wakeNext, hw, hoff, if_true, Bool.false_eq_true, if_false]
    refine taskOk_of_step h t ?_ ?_
    · intro u hu
      refine .of_rq (c := s.lastRun t) ?_ ?_ rfl rfl rfl ?_ rfl ?_
      · by_cases hc : (s.rq (s.lastRun t)).curr = some t <;> simp [hc, hu]
      · exact .rfl
      all_goals simp [WakeSys.enqueueTask, WakeSys.setRq, Function.update_of_ne hu]
    · refine ⟨?_, ?_, ?_, ?_, ?_, ?_, ?_⟩
      · simp
      · have hst := ht.state
        simp only [hw, hl] at hst
        simpa [WakeSys.enqueueTask, WakeSys.setRq, WakePc.state, hl] using hst
      · simp [WakeSys.enqueueTask, WakeSys.setRq, hb]
      · simp [WakeSys.enqueueTask, WakeSys.setRq, hb]
      · simp [WakeSys.enqueueTask, WakeSys.setRq, hb]
      · simp [WakeSys.enqueueTask, WakeSys.setRq, hl]
      · intro _
        exact ⟨by simp [WakeSys.enqueueTask], s.lastRun t, .inr (onlyTree_enqueue hno)⟩
  · simpa only [wakeNext, hw, if_false] using h

theorem wakeNext_ok (h : ∀ u, TaskOk s u) {e : WakeEvent} (hg : Ordered s e) :
    ∀ u, TaskOk (wakeNext s e) u := by
  cases e with
  | spawn t c => exact spawn_ok h t c
  | pick c t => exact pick_ok h c t
  | yield c => exact yield_ok h c
  | finish c => exact finish_ok h c
  | block c => exact block_ok h c
  | unlock c => exact unlock_ok h c
  | policyBlock c => exact policyBlock_ok h c
  | pop t => exact pop_ok h t
  | mark t => exact mark_ok h t
  | policyWakeup t => exact policyWakeup_ok h t hg

/-! ## Runs -/

theorem taskOk_of_run {es : List WakeEvent} (hg : Along wakeStep Ordered .start es)
    (hs : exec wakeStep .start es = .ok s) (t : ℕ) : TaskOk s t := by
  have hinv : ∀ u, TaskOk s u := by
    refine exec_invariant (I := fun s => ∀ u, TaskOk s u) ?_ taskOk_start hg hs
    intro s e s' h hg hstep
    cases hstep
    exact wakeNext_ok h hg
  exact hinv t

/-- **No lost wakeup.**  In every run in which the policy's `wakeup` of a task comes after
its `block`, every task on which no call is under way is runnable and on a runqueue. -/
theorem no_lost_wakeup (es : List WakeEvent) (hg : Along wakeStep Ordered .start es)
    (hs : exec wakeStep .start es = .ok s) (hset : s.Settled t) : s.Awake t := by
  have ht := taskOk_of_run hg hs t
  obtain ⟨hon, c, hc⟩ := ht.settled hset
  have hstate : s.state t = .runnable := by
    have hst := ht.state
    simpa [hset.1, hset.2.2, WakePc.state] using hst
  refine ⟨hstate, hon, c, ?_⟩
  rcases hc with hc | hc
  · exact .inr ((hc c).2.mpr rfl)
  · exact .inl ((hc c).1.mpr rfl)

/-- Task 0 runs on CPU 1 and blocks; it is marked runnable before its `block`, and put on
the runqueue after it. -/
def wakeRun : List WakeEvent :=
  [.spawn 0 1, .pick 1 0, .block 1, .unlock 1, .pop 0, .mark 0, .policyBlock 1, .policyWakeup 0]

theorem no_lost_wakeup_wakeRun : (final wakeStep .start wakeRun).Awake 0 :=
  no_lost_wakeup wakeRun (by decide) (exec_final (by decide))
    ⟨by decide, by decide, by decide⟩

/-- The order is exact: in every state of such a run in which the waker has marked the task
and `block` is still to come, the policy's `wakeup` before `block` loses the task. -/
theorem early_wakeup_lost {es : List WakeEvent} (hg : Along wakeStep Ordered .start es)
    (hs : exec wakeStep .start es = .ok s) (hb : s.blk t = .released)
    (hw : s.wake t = .marked) :
    ∃ c, (wakeNext (wakeNext s (.policyWakeup t)) (.policyBlock c)).Settled t ∧
      ¬ (wakeNext (wakeNext s (.policyWakeup t)) (.policyBlock c)).Awake t := by
  have ht := taskOk_of_run hg hs t
  obtain ⟨hon, c, hcur⟩ := ht.blocking (by simp [hb])
  have hc : (s.rq c).curr = some t := (hcur c).2.mpr rfl
  have hl : s.live t = true := ht.waking (by simp [hw])
  refine ⟨c, ?_, ?_⟩
  · simp [wakeNext, hw, hon, hc, hb, WakeSys.Settled, WakeSys.dequeueCurr, WakeSys.setRq, hl]
  · rintro ⟨-, hon', -⟩
    simp [wakeNext, hw, hon, hc, hb, WakeSys.dequeueCurr] at hon'

/-- The same run with the last two steps exchanged: no call is under way, the task is
runnable, and it is on no runqueue. -/
def earlyRun : List WakeEvent :=
  [.spawn 0 1, .pick 1 0, .block 1, .unlock 1, .pop 0, .mark 0, .policyWakeup 0, .policyBlock 1]

theorem wakeup_lost :
    (final wakeStep .start earlyRun).Settled 0 ∧
      (final wakeStep .start earlyRun).state 0 = .runnable ∧
      (final wakeStep .start earlyRun).onRq 0 = false ∧
      ¬ (final wakeStep .start earlyRun).Awake 0 := by
  refine ⟨⟨by decide, by decide, by decide⟩, by decide,
    by decide, ?_⟩
  rintro ⟨-, hon, -⟩
  revert hon
  decide

end Skyloft
