import Mathlib.Algebra.BigOperators.Group.List.Basic
import Mathlib.Data.BitVec
import Mathlib.Data.List.Nodup
import Mathlib.Data.List.Range
import Mathlib.Logic.Function.Basic
import Skyloft.Lib.Run

/-!
# Runqueues

CFS and EEVDF have the same outside: a runqueue per CPU with a tree of tasks that wait, the
task that runs, which is not in the tree, a count and the load of both.  `sched.c` calls the
policy to spawn, to pick, to give the CPU back, to block, to wake, to finish and at every
tick, and never picks while a task runs.

This module has what the two share: the arithmetic of loads, the calls of `sched.c` over a
policy, and the books that every policy has to keep.

* `FairPolicy`, `schedStep` — a policy, and `sched.c` over its runqueues.
* `Quiet`, `Entered`, `Picked`, `Put`, `Left` — what a call does to the books of a runqueue.
* `FairPolicy.Lawful` — every call does what it should to the books.
* `FairPolicy.Lawful.membership` — who is in which tree, in every run.
-/

namespace Skyloft

open Run

/-! ## Loads -/

/-- `NICE_0_LOAD` -/
def nice0Load : BitVec 64 := 1024#64

/-- `WMULT_CONST` -/
def wmultConst : BitVec 64 := 4294967295#64

/-- `__update_inv_weight`; the source caches the result until the weight changes. -/
def invWeight (w : BitVec 64) : BitVec 64 :=
  if wmultConst ≤ w then 1#64
  else if w = 0#64 then wmultConst
  else wmultConst / w

/-- A loop of `__calc_delta`, which halves `fact` until it fits 32 bits; a value of 64 bits needs at
most 32 turns. -/
def halve : ℕ → BitVec 64 → ℤ → BitVec 64 × ℤ
  | 0, fact, shift => (fact, shift)
  | n + 1, fact, shift =>
      if fact >>> 32 = 0#64 then (fact, shift) else halve n (fact >>> 1) (shift - 1)

/-- `fact` and `shift` at the end of `__calc_delta`. -/
def calcFact (weight : BitVec 64) (inv : BitVec 32) : BitVec 64 × ℤ :=
  let r := halve 32 weight 32
  halve 32 ((r.1.setWidth 32).setWidth 64 * inv.setWidth 64) r.2

/-- `mul_u64_u32_shr` -/
def mulU64U32Shr (a : BitVec 64) (mul : BitVec 32) (shift : ℕ) : BitVec 64 :=
  let al := a.setWidth 32
  let ah := (a >>> 32).setWidth 32
  let ret := (al.setWidth 64 * mul.setWidth 64) >>> shift
  if ah = 0#32 then ret else ret + (ah.setWidth 64 * mul.setWidth 64) <<< (32 - shift)

/-- `__calc_delta` -/
def calcDelta (deltaExec weight load : BitVec 64) : BitVec 64 :=
  let r := calcFact weight ((invWeight load).setWidth 32)
  -- C leaves a shift by a negative number undefined; for weights of 32 bits there is none
  mulU64U32Shr deltaExec (r.1.setWidth 32) r.2.toNat

/-- `calc_delta_fair` -/
def calcDeltaFair (delta weight : BitVec 64) : BitVec 64 :=
  if weight ≠ nice0Load then calcDelta delta nice0Load weight else delta

/-- `min_vruntime` -/
def minVruntime (m v : BitVec 64) : BitVec 64 := if (v - m).toInt < 0 then v else m

/-- `max_vruntime` -/
def maxVruntime (m v : BitVec 64) : BitVec 64 := if 0 < (v - m).toInt then v else m

/-- `b` is not before `a` in the wrapped order. -/
def NotBefore (a b : BitVec 64) : Prop := 0 ≤ (b - a).toInt

theorem NotBefore.refl (a : BitVec 64) : NotBefore a a := by
  rw [NotBefore, BitVec.sub_self]
  decide

/-- A virtual time has only moved forward up to `m`, over the values `ms`. -/
structure Forward (ms : List (BitVec 64)) (m : BitVec 64) : Prop where
  chain : ms.IsChain NotBefore
  last : ms.getLast? = some m

theorem Forward.append {ms : List (BitVec 64)} {m v : BitVec 64} (h : Forward ms m)
    (hv : NotBefore m v) : Forward (ms ++ [v]) v := by
  constructor
  · rw [List.isChain_append]
    refine ⟨h.chain, List.isChain_singleton _, ?_⟩
    intro a ha b hb
    rw [h.last] at ha
    have ha' : m = a := by simpa using ha
    have hb' : v = b := by simpa using hb
    rwa [← ha', ← hb']
  · simp

/-! ## Policies -/

/-- `MAX_TASKS_PER_APP`, the size of the pool that tasks are taken from. -/
def maxTasks : ℕ := 32768

/-- A runqueue and the tasks. -/
structure RqSt (ρ τ : Type) where
  rq : ρ
  task : ℕ → τ

inductive SchedFault
  /-- a task is read through a null pointer -/
  | nullTask
  /-- the assertion of `yield` -/
  | notCurr
  /-- the assertion of `block` -/
  | notOnRq
  deriving DecidableEq

/-- The calls of a policy but `sched_pick_next`, with the readings of the clock they make. -/
inductive PolicyOp
  | spawn (t : ℕ) (now₁ now₂ : BitVec 64)
  | yield (t : ℕ) (now : BitVec 64)
  | block (now : BitVec 64)
  | wakeup (t : ℕ) (now : BitVec 64)
  | finish (t : ℕ) (now : BitVec 64)
  | preempt (now : BitVec 64)

/-- The functions of a policy, and where it keeps its books. -/
structure FairPolicy (ρ τ : Type) where
  /-- the tasks in the tree -/
  tree : ρ → List ℕ
  curr : ρ → Option ℕ
  nrRunning : ρ → BitVec 32
  load : ρ → BitVec 64
  onRq : τ → Bool
  weight : τ → BitVec 64
  lastRun : τ → ℕ
  initPercpu : ρ
  initTask : τ
  /-- `sched_pick_next` on a CPU -/
  pickNext : ℕ → BitVec 64 → RqSt ρ τ → Except SchedFault (Option ℕ × RqSt ρ τ)
  op : PolicyOp → RqSt ρ τ → Except SchedFault (RqSt ρ τ)

/-! ## The calls of the scheduler -/

structure SchedSys (ρ τ : Type) where
  rq : ℕ → ρ
  task : ℕ → τ
  /-- the task that runs on a CPU; none while the scheduler is about to pick -/
  cpu : ℕ → Option ℕ
  /-- taken from the pool and not given back -/
  live : ℕ → Bool

inductive SchedEvent
  /-- a task is spawned on CPU `c` -/
  | spawn (t c : ℕ) (now₁ now₂ : BitVec 64)
  | pick (c : ℕ) (now : BitVec 64)
  | yield (c : ℕ) (now : BitVec 64)
  | block (c : ℕ) (now : BitVec 64)
  | wakeup (t : ℕ) (now : BitVec 64)
  | finish (c : ℕ) (now : BitVec 64)
  | preempt (c : ℕ) (now : BitVec 64)

variable {ρ τ : Type}

namespace SchedSys

def start (P : FairPolicy ρ τ) : SchedSys ρ τ where
  rq _ := P.initPercpu
  task _ := P.initTask
  cpu _ := none
  live _ := false

/-- The runqueue of CPU `c`. -/
def onCpu (s : SchedSys ρ τ) (c : ℕ) : RqSt ρ τ := ⟨s.rq c, s.task⟩

/-- The state after a call on CPU `c`. -/
def put (s : SchedSys ρ τ) (c : ℕ) (l : RqSt ρ τ) : SchedSys ρ τ :=
  { s with rq := Function.update s.rq c l.rq, task := l.task }

def setCpu (s : SchedSys ρ τ) (c : ℕ) (t : Option ℕ) : SchedSys ρ τ :=
  { s with cpu := Function.update s.cpu c t }

/-- `task_create`, with `sched_init_task` of the policy. -/
def create (P : FairPolicy ρ τ) (s : SchedSys ρ τ) (t : ℕ) : SchedSys ρ τ :=
  { s with
    task := Function.update s.task t P.initTask
    live := Function.update s.live t true }

end SchedSys

/-- `sched.c` over a policy.  A task is spawned from a free place of the pool, a task that
lives is woken on the CPU it last ran on, and the other calls come from the task that runs. -/
def schedStep (P : FairPolicy ρ τ) (s : SchedSys ρ τ) :
    SchedEvent → Except SchedFault (SchedSys ρ τ)
  | .spawn t c now₁ now₂ =>
      if s.live t = true ∨ maxTasks ≤ t then .ok s
      else do
        let l ← P.op (.spawn t now₁ now₂) ((s.create P t).onCpu c)
        return (s.create P t).put c l
  | .pick c now =>
      match s.cpu c with
      | some _ => .ok s
      | none => do
          let r ← P.pickNext c now (s.onCpu c)
          return (s.put c r.2).setCpu c r.1
  | .yield c now =>
      match s.cpu c with
      | none => .ok s
      | some t => do
          let l ← P.op (.yield t now) (s.onCpu c)
          return (s.put c l).setCpu c none
  | .block c now =>
      match s.cpu c with
      | none => .ok s
      | some _ => do
          let l ← P.op (.block now) (s.onCpu c)
          return (s.put c l).setCpu c none
  | .wakeup t now =>
      if s.live t = true then do
        let l ← P.op (.wakeup t now) (s.onCpu (P.lastRun (s.task t)))
        return s.put (P.lastRun (s.task t)) l
      else .ok s
  | .finish c now =>
      match s.cpu c with
      | none => .ok s
      | some t => do
          let l ← P.op (.finish t now) (s.onCpu c)
          return { (s.put c l).setCpu c none with live := Function.update s.live t false }
  | .preempt c now =>
      match s.cpu c with
      | none => .ok s
      | some _ => do
          let l ← P.op (.preempt now) (s.onCpu c)
          return s.put c l

/-! ## The books of a runqueue -/

namespace FairPolicy

variable (P : FairPolicy ρ τ)

/-- The tasks that a runqueue counts. -/
def members (q : ρ) : List ℕ := (P.curr q).toList ++ P.tree q

/-- The books of one runqueue are right. -/
structure RqOk (l : RqSt ρ τ) : Prop where
  onRq : ∀ t ∈ P.members l.rq, P.onRq (l.task t) = true
  nodup : (P.members l.rq).Nodup
  pool : ∀ t ∈ P.members l.rq, t < maxTasks
  nrRunning : P.nrRunning l.rq = BitVec.ofNat 32 (P.members l.rq).length
  load : P.load l.rq = ((P.members l.rq).map fun t => P.weight (l.task t)).sum

/-- Only task `t` and the task that runs are written to, and `on_rq` only of `t`. -/
structure Frame (t : Option ℕ) (l l' : RqSt ρ τ) : Prop where
  task : ∀ u, t ≠ some u → P.curr l.rq ≠ some u → l'.task u = l.task u
  onRq : ∀ u, t ≠ some u → P.onRq (l'.task u) = P.onRq (l.task u)
  weight : ∀ u, P.weight (l'.task u) = P.weight (l.task u)

/-- The books are as before, and only task `t` and the task that runs are written to. -/
structure Quiet (t : Option ℕ) (l l' : RqSt ρ τ) : Prop where
  task : ∀ u, t ≠ some u → P.curr l.rq ≠ some u → l'.task u = l.task u
  onRq : ∀ u, P.onRq (l'.task u) = P.onRq (l.task u)
  weight : ∀ u, P.weight (l'.task u) = P.weight (l.task u)
  tree : P.tree l'.rq = P.tree l.rq
  curr : P.curr l'.rq = P.curr l.rq
  nrRunning : P.nrRunning l'.rq = P.nrRunning l.rq
  load : P.load l'.rq = P.load l.rq

/-- Task `t` joins the tree. -/
structure Entered (t : ℕ) (l l' : RqSt ρ τ) : Prop where
  frame : P.Frame (some t) l l'
  tree : (P.tree l'.rq).Perm (t :: P.tree l.rq)
  curr : P.curr l'.rq = P.curr l.rq
  nrRunning : P.nrRunning l'.rq = P.nrRunning l.rq + 1#32
  load : P.load l'.rq = P.load l.rq + P.weight (l.task t)
  onRq : P.onRq (l'.task t) = true

/-- Task `t` leaves the tree and runs on CPU `c`. -/
structure Picked (c t : ℕ) (l l' : RqSt ρ τ) : Prop where
  frame : P.Frame (some t) l l'
  tree : (P.tree l.rq).Perm (t :: P.tree l'.rq)
  curr : P.curr l'.rq = some t
  nrRunning : P.nrRunning l'.rq = P.nrRunning l.rq
  load : P.load l'.rq = P.load l.rq
  onRq : P.onRq (l'.task t) = true
  lastRun : P.lastRun (l'.task t) = c

/-- The task `t` that ran goes back to the tree. -/
structure Put (t : ℕ) (l l' : RqSt ρ τ) : Prop where
  frame : P.Frame none l l'
  tree : (P.tree l'.rq).Perm (t :: P.tree l.rq)
  curr : P.curr l'.rq = none
  nrRunning : P.nrRunning l'.rq = P.nrRunning l.rq
  load : P.load l'.rq = P.load l.rq

/-- The task `t` that ran leaves the runqueue. -/
structure Left (t : ℕ) (l l' : RqSt ρ τ) : Prop where
  frame : P.Frame (some t) l l'
  tree : P.tree l'.rq = P.tree l.rq
  curr : P.curr l'.rq = none
  nrRunning : P.nrRunning l'.rq = P.nrRunning l.rq - 1#32
  load : P.load l'.rq = P.load l.rq - P.weight (l.task t)
  onRq : P.onRq (l'.task t) = false

/-- Every call does to the books what it should, and faults nowhere. -/
structure Lawful : Prop where
  tree_init : P.tree P.initPercpu = []
  curr_init : P.curr P.initPercpu = none
  nrRunning_init : P.nrRunning P.initPercpu = 0#32
  load_init : P.load P.initPercpu = 0#64
  onRq_init : P.onRq P.initTask = false
  pick : ∀ {l} c now, P.RqOk l → P.curr l.rq = none →
    ∃ r l', P.pickNext c now l = .ok (r, l') ∧
      match r with
      | none => P.Quiet none l l'
      | some t => P.Picked c t l l'
  spawn : ∀ {l t} now₁ now₂, P.RqOk l → P.onRq (l.task t) = false →
    ∃ l', P.op (.spawn t now₁ now₂) l = .ok l' ∧ P.Entered t l l'
  yield : ∀ {l t} now, P.RqOk l → P.curr l.rq = some t →
    ∃ l', P.op (.yield t now) l = .ok l' ∧ P.Put t l l'
  block : ∀ {l t} now, P.RqOk l → P.curr l.rq = some t →
    ∃ l', P.op (.block now) l = .ok l' ∧ P.Left t l l'
  wakeup_on : ∀ {l t} now, P.onRq (l.task t) = true → P.op (.wakeup t now) l = .ok l
  wakeup : ∀ {l t} now, P.RqOk l → P.onRq (l.task t) = false →
    ∃ l', P.op (.wakeup t now) l = .ok l' ∧ P.Entered t l l'
  finish : ∀ {l t} now, P.RqOk l → P.curr l.rq = some t →
    ∃ l', P.op (.finish t now) l = .ok l' ∧ P.Left t l l'
  preempt : ∀ {l t} now, P.RqOk l → P.curr l.rq = some t →
    ∃ l', P.op (.preempt now) l = .ok l' ∧ P.Quiet none l l'

variable {P} {l l' : RqSt ρ τ} {c t : ℕ}

theorem Quiet.refl (r : Option ℕ) (l : RqSt ρ τ) : P.Quiet r l l := by
  constructor <;> simp

theorem Quiet.trans {r : Option ℕ} {l₁ l₂ l₃ : RqSt ρ τ} (h : P.Quiet r l₁ l₂)
    (h' : P.Quiet r l₂ l₃) : P.Quiet r l₁ l₃ := by
  constructor
  · intro u hr hc
    rw [h'.task u hr (by rw [h.curr]; exact hc), h.task u hr hc]
  · intro u
    rw [h'.onRq, h.onRq]
  · intro u
    rw [h'.weight, h.weight]
  · rw [h'.tree, h.tree]
  · rw [h'.curr, h.curr]
  · rw [h'.nrRunning, h.nrRunning]
  · rw [h'.load, h.load]

/-- What writes to no task but the one that runs does so for every `t`. -/
theorem Quiet.mono {r : Option ℕ} (h : P.Quiet none l l') : P.Quiet r l l' := by
  refine ⟨?_, h.onRq, h.weight, h.tree, h.curr, h.nrRunning, h.load⟩
  intro u _ hc
  exact h.task u (by simp) hc

theorem mem_members {q : ρ} {u : ℕ} : u ∈ P.members q ↔ P.curr q = some u ∨ u ∈ P.tree q := by
  rw [members, List.mem_append, Option.mem_toList]

/-- The task that runs is on the runqueue. -/
theorem RqOk.curr_on (h : P.RqOk l) (hc : P.curr l.rq = some t) : P.onRq (l.task t) = true :=
  h.onRq t (mem_members.mpr (.inl hc))

/-- A task that is on no runqueue is not in this one. -/
theorem RqOk.not_mem_of_off (h : P.RqOk l) (ht : P.onRq (l.task t) = false) :
    t ∉ P.members l.rq := by
  intro hmem
  have hon := h.onRq t hmem
  rw [ht] at hon
  simp at hon

theorem RqOk.curr_ne_of_off (h : P.RqOk l) (ht : P.onRq (l.task t) = false) :
    P.curr l.rq ≠ some t :=
  fun hc => h.not_mem_of_off ht (mem_members.mpr (.inl hc))

theorem RqOk.not_tree_of_off (h : P.RqOk l) (ht : P.onRq (l.task t) = false) :
    t ∉ P.tree l.rq :=
  fun hmem => h.not_mem_of_off ht (mem_members.mpr (.inr hmem))

theorem members_of_none {q : ρ} (h : P.curr q = none) : P.members q = P.tree q := by
  simp [members, h]

theorem members_of_some {q : ρ} (h : P.curr q = some t) : P.members q = t :: P.tree q := by
  simp [members, h]

/-- A runqueue counts at most the pool. -/
theorem RqOk.length_le (h : P.RqOk l) : (P.members l.rq).length ≤ maxTasks := by
  have hsub : P.members l.rq ⊆ List.range maxTasks := by
    intro t ht
    exact List.mem_range.mpr (h.pool t ht)
  simpa using (h.nodup.subperm hsub).length_le

/-- The count as a number. -/
theorem RqOk.toNat_nrRunning (h : P.RqOk l) :
    (P.nrRunning l.rq).toNat = (P.members l.rq).length := by
  have hle := h.length_le
  rw [maxTasks] at hle
  rw [h.nrRunning, BitVec.toNat_ofNat, Nat.mod_eq_of_lt (by omega)]

/-- A runqueue that counts more than the task that runs has one in its tree. -/
theorem RqOk.tree_ne_nil (h : P.RqOk l)
    (hlt : (P.curr l.rq).toList.length < (P.nrRunning l.rq).toNat) : P.tree l.rq ≠ [] := by
  intro hnil
  rw [h.toNat_nrRunning, members, hnil, List.append_nil] at hlt
  exact Nat.lt_irrefl _ hlt

theorem map_weight_congr {ts : List ℕ} (h : ∀ u ∈ ts, P.weight (l'.task u) = P.weight (l.task u)) :
    (ts.map fun u => P.weight (l'.task u)) = ts.map fun u => P.weight (l.task u) :=
  List.map_congr_left h

/-- A task may be prepared before it joins the tree. -/
theorem Entered.of_quiet {l₁ : RqSt ρ τ} (h : P.Entered t l₁ l') (hq : P.Quiet (some t) l l₁) :
    P.Entered t l l' := by
  refine ⟨⟨?_, ?_, ?_⟩, ?_, ?_, ?_, ?_, h.onRq⟩
  · intro u hut hu
    rw [h.frame.task u hut (by rw [hq.curr]; exact hu), hq.task u hut hu]
  · intro u hut
    rw [h.frame.onRq u hut, hq.onRq]
  · intro u
    rw [h.frame.weight, hq.weight]
  · rw [← hq.tree]
    exact h.tree
  · rw [h.curr, hq.curr]
  · rw [h.nrRunning, hq.nrRunning]
  · rw [h.load, hq.load, hq.weight]

/-- A store to task `t` that leaves `on_rq` and the weight. -/
theorem Quiet.of_store {x : τ} (htask : l'.task = Function.update l.task t x)
    (hon : P.onRq x = P.onRq (l.task t)) (hweight : P.weight x = P.weight (l.task t))
    (hrq : l'.rq = l.rq) : P.Quiet (some t) l l' := by
  refine ⟨?_, ?_, ?_, by rw [hrq], by rw [hrq], by rw [hrq], by rw [hrq]⟩
  · intro u hu _
    have hut : u ≠ t := fun h => hu (by rw [h])
    rw [htask, Function.update_of_ne hut]
  · intro u
    by_cases hut : u = t
    · rw [htask, hut, Function.update_self, hon]
    · rw [htask, Function.update_of_ne hut]
  · intro u
    by_cases hut : u = t
    · rw [htask, hut, Function.update_self, hweight]
    · rw [htask, Function.update_of_ne hut]

/-- What writes to the task that runs only, writes to no other. -/
theorem Quiet.of_curr (h : P.Quiet (some t) l l') (hc : P.curr l.rq = some t) :
    P.Quiet none l l' := by
  refine ⟨?_, h.onRq, h.weight, h.tree, h.curr, h.nrRunning, h.load⟩
  intro u _ hu
  refine h.task u ?_ hu
  intro htu
  exact hu (hc.trans htu)

/-! ### The books after a call -/

theorem members_of_quiet {r : Option ℕ} (h : P.Quiet r l l') :
    P.members l'.rq = P.members l.rq := by
  rw [members, members, h.curr, h.tree]

theorem members_perm_of_entered (h : P.Entered t l l') :
    (P.members l'.rq).Perm (t :: P.members l.rq) := by
  rw [members, members, h.curr]
  refine (h.tree.append_left _).trans ?_
  exact List.perm_middle

theorem members_perm_of_picked (h : P.Picked c t l l') (hc : P.curr l.rq = none) :
    (P.members l'.rq).Perm (P.members l.rq) := by
  rw [members_of_some h.curr, members_of_none hc]
  exact h.tree.symm

theorem members_perm_of_put (h : P.Put t l l') (hc : P.curr l.rq = some t) :
    (P.members l'.rq).Perm (P.members l.rq) := by
  rw [members_of_none h.curr, members_of_some hc]
  exact h.tree

theorem members_of_left (h : P.Left t l l') (hc : P.curr l.rq = some t) :
    P.members l.rq = t :: P.members l'.rq := by
  rw [members_of_none h.curr, members_of_some hc, h.tree]

/-- The books after a call that keeps the members. -/
theorem RqOk.of_perm (h : P.RqOk l) (hp : (P.members l'.rq).Perm (P.members l.rq))
    (hon : ∀ u ∈ P.members l.rq, P.onRq (l'.task u) = true)
    (hweight : ∀ u ∈ P.members l.rq, P.weight (l'.task u) = P.weight (l.task u))
    (hnr : P.nrRunning l'.rq = P.nrRunning l.rq) (hload : P.load l'.rq = P.load l.rq) :
    P.RqOk l' := by
  constructor
  · exact fun u hu => hon u (hp.mem_iff.mp hu)
  · exact hp.nodup_iff.mpr h.nodup
  · exact fun u hu => h.pool u (hp.mem_iff.mp hu)
  · rw [hnr, h.nrRunning, hp.length_eq]
  · rw [hload, h.load, (hp.map _).sum_eq, map_weight_congr hweight]

theorem RqOk.entered (h : P.RqOk l) (he : P.Entered t l l') (ht : t ∉ P.members l.rq)
    (hpool : t < maxTasks) : P.RqOk l' := by
  have hp := members_perm_of_entered he
  have hne : ∀ {u}, u ∈ P.members l.rq → some t ≠ some u := by
    intro u hu heq
    rw [Option.some.injEq] at heq
    exact ht (heq ▸ hu)
  constructor
  · intro u hu
    rw [hp.mem_iff, List.mem_cons] at hu
    rcases hu with rfl | hu
    · exact he.onRq
    · rw [he.frame.onRq u (hne hu)]
      exact h.onRq u hu
  · rw [hp.nodup_iff, List.nodup_cons]
    exact ⟨ht, h.nodup⟩
  · intro u hu
    rw [hp.mem_iff, List.mem_cons] at hu
    rcases hu with rfl | hu
    · exact hpool
    · exact h.pool u hu
  · rw [he.nrRunning, h.nrRunning, hp.length_eq, List.length_cons, BitVec.ofNat_add]
  · rw [he.load, h.load, (hp.map _).sum_eq, List.map_cons, List.sum_cons, he.frame.weight,
      map_weight_congr fun u _ => he.frame.weight u]
    exact BitVec.add_comm _ _

theorem RqOk.left (h : P.RqOk l) (hl : P.Left t l l') (hc : P.curr l.rq = some t) : P.RqOk l' := by
  have hm := members_of_left hl hc
  have hnd := h.nodup
  rw [hm, List.nodup_cons] at hnd
  have hsub : ∀ {u}, u ∈ P.members l'.rq → u ∈ P.members l.rq ∧ some t ≠ some u := by
    intro u hu
    refine ⟨by rw [hm]; exact List.mem_cons_of_mem _ hu, ?_⟩
    intro heq
    rw [Option.some.injEq] at heq
    exact hnd.1 (heq ▸ hu)
  constructor
  · intro u hu
    rw [hl.frame.onRq u (hsub hu).2]
    exact h.onRq u (hsub hu).1
  · exact hnd.2
  · exact fun u hu => h.pool u (hsub hu).1
  · rw [hl.nrRunning, h.nrRunning, hm, List.length_cons, BitVec.ofNat_add]
    exact BitVec.add_sub_cancel _ _
  · rw [hl.load, h.load, hm, List.map_cons, List.sum_cons,
      map_weight_congr fun u _ => hl.frame.weight u, BitVec.add_comm]
    exact BitVec.add_sub_cancel _ _

end FairPolicy

/-! ## All runqueues -/

/-- The books of all runqueues are right, and no task is in two of them. -/
structure SchedInv (P : FairPolicy ρ τ) (s : SchedSys ρ τ) : Prop where
  rq : ∀ c, P.RqOk (s.onCpu c)
  one : ∀ c d t, t ∈ P.members (s.rq c) → t ∈ P.members (s.rq d) → c = d
  filed : ∀ t, P.onRq (s.task t) = true → ∃ c, t ∈ P.members (s.rq c)
  cpu : ∀ c, s.cpu c = P.curr (s.rq c)
  live : ∀ t, P.onRq (s.task t) = true → s.live t = true
  pool : ∀ t, s.live t = true → t < maxTasks

variable {P : FairPolicy ρ τ} {s s' : SchedSys ρ τ} {l l' : RqSt ρ τ} {c t : ℕ}

theorem schedInv_start (hP : P.Lawful) : SchedInv P (.start P) := by
  have hm : P.members P.initPercpu = [] := by
    rw [FairPolicy.members_of_none hP.curr_init, hP.tree_init]
  constructor
  · intro c
    constructor <;>
      simp [SchedSys.onCpu, SchedSys.start, hm, hP.nrRunning_init, hP.load_init]
  · intro c d t ht
    simp [SchedSys.start, hm] at ht
  · intro t ht
    simp [SchedSys.start, hP.onRq_init] at ht
  · intro c
    exact hP.curr_init.symm
  · intro t ht
    simp [SchedSys.start, hP.onRq_init] at ht
  · intro t ht
    simp [SchedSys.start] at ht

/-- The other runqueues see nothing of what happens to tasks that are not theirs. -/
theorem FairPolicy.RqOk.congr (h : P.RqOk l) (hrq : l'.rq = l.rq)
    (hon : ∀ u ∈ P.members l.rq, P.onRq (l'.task u) = P.onRq (l.task u))
    (hweight : ∀ u ∈ P.members l.rq, P.weight (l'.task u) = P.weight (l.task u)) : P.RqOk l' := by
  refine h.of_perm (by rw [hrq]) ?_ hweight (by rw [hrq]) (by rw [hrq])
  intro u hu
  rw [hon u hu]
  exact h.onRq u hu

/-- A call on one CPU that keeps the members of its runqueue. -/
theorem SchedInv.of_perm (h : SchedInv P s) (hrq : s'.rq = Function.update s.rq c l'.rq)
    (htask : s'.task = l'.task) (hcpu : s'.cpu = Function.update s.cpu c (P.curr l'.rq))
    (hlive : s'.live = s.live) (hp : (P.members l'.rq).Perm (P.members (s.rq c)))
    (hon : ∀ u, P.onRq (l'.task u) = P.onRq (s.task u))
    (hweight : ∀ u, P.weight (l'.task u) = P.weight (s.task u))
    (hnr : P.nrRunning l'.rq = P.nrRunning (s.rq c)) (hload : P.load l'.rq = P.load (s.rq c)) :
    SchedInv P s' := by
  have hself : s'.rq c = l'.rq := by rw [hrq, Function.update_self]
  have hother : ∀ {d}, d ≠ c → s'.rq d = s.rq d := by
    intro d hd
    rw [hrq, Function.update_of_ne hd]
  have hmem : ∀ d u, u ∈ P.members (s'.rq d) ↔ u ∈ P.members (s.rq d) := by
    intro d u
    by_cases hd : d = c
    · rw [hd, hself, hp.mem_iff]
    · rw [hother hd]
  constructor
  · intro d
    by_cases hd : d = c
    · rw [hd]
      have hok : P.RqOk l' := by
        refine (h.rq c).of_perm hp ?_ (fun u _ => hweight u) hnr hload
        intro u hu
        rw [hon]
        exact (h.rq c).onRq u hu
      exact hok.congr hself (fun u _ => by rw [SchedSys.onCpu, htask])
        fun u _ => by rw [SchedSys.onCpu, htask]
    · exact (h.rq d).congr (hother hd) (fun u _ => by rw [SchedSys.onCpu, htask]; exact hon u)
        fun u _ => by rw [SchedSys.onCpu, htask]; exact hweight u
  · intro d e u hd he
    exact h.one d e u ((hmem d u).mp hd) ((hmem e u).mp he)
  · intro u hu
    rw [htask, hon] at hu
    rcases h.filed u hu with ⟨d, hd⟩
    exact ⟨d, (hmem d u).mpr hd⟩
  · intro d
    by_cases hd : d = c
    · rw [hd, hself, hcpu, Function.update_self]
    · rw [hother hd, hcpu, Function.update_of_ne hd]
      exact h.cpu d
  · intro u hu
    rw [htask, hon] at hu
    rw [hlive]
    exact h.live u hu
  · rw [hlive]
    exact h.pool

/-- A task joins the runqueue of CPU `c`. -/
theorem SchedInv.of_entered (h : SchedInv P s) (he : P.Entered t (s.onCpu c) l')
    (ht : P.onRq (s.task t) = false) (hl : s.live t = true) : SchedInv P (s.put c l') := by
  have hself : (s.put c l').rq c = l'.rq := by simp [SchedSys.put]
  have hother : ∀ {d}, d ≠ c → (s.put c l').rq d = s.rq d := by
    intro d hd
    simp [SchedSys.put, Function.update_of_ne hd]
  have hnot : ∀ d, t ∉ P.members (s.rq d) := fun d => (h.rq d).not_mem_of_off ht
  have hne : ∀ {d u}, u ∈ P.members (s.rq d) → some t ≠ some u := by
    intro d u hu heq
    rw [Option.some.injEq] at heq
    exact hnot d (heq ▸ hu)
  have hp := FairPolicy.members_perm_of_entered he
  have hmem : ∀ {d u}, u ∈ P.members ((s.put c l').rq d) → (d = c ∧ u = t) ∨
      u ∈ P.members (s.rq d) := by
    intro d u hu
    by_cases hd : d = c
    · rw [hd, hself, hp.mem_iff, List.mem_cons] at hu
      rcases hu with hu | hu
      · exact .inl ⟨hd, hu⟩
      · exact .inr (hd ▸ hu)
    · rw [hother hd] at hu
      exact .inr hu
  constructor
  · intro d
    by_cases hd : d = c
    · have hok := (h.rq c).entered he (hnot c) (h.pool t hl)
      rw [hd]
      exact hok.congr hself (fun _ _ => rfl) fun _ _ => rfl
    · exact (h.rq d).congr (hother hd) (fun u hu => he.frame.onRq u (hne hu))
        fun u _ => he.frame.weight u
  · intro d e u hd he'
    rcases hmem hd with ⟨rfl, rfl⟩ | hd' <;> rcases hmem he' with ⟨rfl, hu⟩ | he''
    · rfl
    · exact absurd he'' (hnot e)
    · rw [hu] at hd'
      exact absurd hd' (hnot d)
    · exact h.one d e u hd' he''
  · intro u hu
    by_cases hut : u = t
    · refine ⟨c, ?_⟩
      rw [hself, hp.mem_iff, hut]
      exact List.mem_cons_self
    · have hu' : P.onRq (s.task u) = true := by
        rw [← hu]
        exact (he.frame.onRq u fun heq => hut (Option.some.inj heq).symm).symm
      rcases h.filed u hu' with ⟨d, hd⟩
      refine ⟨d, ?_⟩
      by_cases hdc : d = c
      · rw [hdc, hself, hp.mem_iff]
        exact List.mem_cons_of_mem _ (hdc ▸ hd)
      · rwa [hother hdc]
  · intro d
    by_cases hd : d = c
    · rw [hd, hself, he.curr]
      exact h.cpu c
    · rw [hother hd]
      exact h.cpu d
  · intro u hu
    by_cases hut : u = t
    · rw [hut]
      exact hl
    · apply h.live u
      rw [← hu]
      exact (he.frame.onRq u fun heq => hut (Option.some.inj heq).symm).symm
  · exact h.pool

/-- The task that runs on CPU `c` leaves its runqueue. -/
theorem SchedInv.of_left (h : SchedInv P s) (hl : P.Left t (s.onCpu c) l')
    (hc : P.curr (s.rq c) = some t) (hrq : s'.rq = Function.update s.rq c l'.rq)
    (htask : s'.task = l'.task) (hcpu : s'.cpu = Function.update s.cpu c none)
    (hlive : ∀ u, u ≠ t → s'.live u = s.live u) (hdead : s'.live t = true → s.live t = true) :
    SchedInv P s' := by
  have hself : s'.rq c = l'.rq := by rw [hrq, Function.update_self]
  have hother : ∀ {d}, d ≠ c → s'.rq d = s.rq d := by
    intro d hd
    rw [hrq, Function.update_of_ne hd]
  have hm : P.members (s.rq c) = t :: P.members l'.rq := FairPolicy.members_of_left hl hc
  have hok : P.RqOk l' := (h.rq c).left hl hc
  have hsub : ∀ {d u}, u ∈ P.members (s'.rq d) → u ∈ P.members (s.rq d) := by
    intro d u hu
    by_cases hd : d = c
    · rw [hd, hself] at hu
      rw [hd, hm]
      exact List.mem_cons_of_mem _ hu
    · rwa [hother hd] at hu
  have hin : t ∈ P.members (s.rq c) := by rw [hm]; exact List.mem_cons_self
  have hne : ∀ {d u}, d ≠ c → u ∈ P.members (s.rq d) → some t ≠ some u := by
    intro d u hd hu heq
    rw [Option.some.injEq] at heq
    exact hd (h.one d c t (heq ▸ hu) hin)
  have hon : ∀ {u}, P.onRq (s'.task u) = true → u ≠ t ∧ P.onRq (s.task u) = true := by
    intro u hu
    rw [htask] at hu
    have hut : u ≠ t := by
      rintro rfl
      rw [hl.onRq] at hu
      simp at hu
    refine ⟨hut, ?_⟩
    rw [← hu]
    exact (hl.frame.onRq u fun heq => hut (Option.some.inj heq).symm).symm
  constructor
  · intro d
    by_cases hd : d = c
    · rw [hd]
      exact hok.congr hself (fun u _ => by rw [SchedSys.onCpu, htask])
        fun u _ => by rw [SchedSys.onCpu, htask]
    · exact (h.rq d).congr (hother hd)
        (fun u hu => by rw [SchedSys.onCpu, htask]; exact hl.frame.onRq u (hne hd hu))
        fun u _ => by rw [SchedSys.onCpu, htask]; exact hl.frame.weight u
  · intro d e u hd he
    exact h.one d e u (hsub hd) (hsub he)
  · intro u hu
    rcases hon hu with ⟨hut, hu'⟩
    rcases h.filed u hu' with ⟨d, hd⟩
    refine ⟨d, ?_⟩
    by_cases hdc : d = c
    · rw [hdc, hm, List.mem_cons] at hd
      rw [hdc, hself]
      exact hd.resolve_left hut
    · rwa [hother hdc]
  · intro d
    by_cases hd : d = c
    · rw [hd, hself, hcpu, Function.update_self, hl.curr]
    · rw [hother hd, hcpu, Function.update_of_ne hd]
      exact h.cpu d
  · intro u hu
    rcases hon hu with ⟨hut, hu'⟩
    rw [hlive u hut]
    exact h.live u hu'
  · intro u hu
    apply h.pool
    by_cases hut : u = t
    · rw [hut]
      exact hdead (hut ▸ hu)
    · rwa [← hlive u hut]

/-! ## Whole runs -/

/-- A fresh task is in no runqueue. -/
theorem SchedInv.create (h : SchedInv P s) (hP : P.Lawful) (hl : s.live t ≠ true)
    (ht : t < maxTasks) : SchedInv P (s.create P t) := by
  have hoff : P.onRq (s.task t) ≠ true := fun hon => hl (h.live t hon)
  have hne : ∀ {d u}, u ∈ P.members (s.rq d) → u ≠ t := by
    rintro d u hu rfl
    exact hoff ((h.rq d).onRq u hu)
  have htask : ∀ {u}, u ≠ t → (s.create P t).task u = s.task u := by
    intro u hu
    simp [SchedSys.create, Function.update_of_ne hu]
  have hon : ∀ {u}, P.onRq ((s.create P t).task u) = true → u ≠ t := by
    rintro u hu rfl
    simp [SchedSys.create, hP.onRq_init] at hu
  constructor
  · intro d
    refine (h.rq d).congr rfl ?_ ?_
    · intro u hu
      exact congrArg P.onRq (htask (hne hu))
    · intro u hu
      exact congrArg P.weight (htask (hne hu))
  · exact h.one
  · intro u hu
    rw [htask (hon hu)] at hu
    exact h.filed u hu
  · exact h.cpu
  · intro u hu
    have hut := hon hu
    rw [htask hut] at hu
    simpa [SchedSys.create, Function.update_of_ne hut] using h.live u hu
  · intro u hu
    by_cases hut : u = t
    · rw [hut]
      exact ht
    · exact h.pool u (by simpa [SchedSys.create, Function.update_of_ne hut] using hu)

theorem SchedInv.of_quiet (h : SchedInv P s) (hk : P.Quiet none (s.onCpu c) l') :
    SchedInv P (s.put c l') := by
  have hm := FairPolicy.members_of_quiet hk
  refine h.of_perm rfl rfl ?_ rfl (by rw [hm]; rfl) hk.onRq hk.weight hk.nrRunning hk.load
  rw [hk.curr, SchedSys.onCpu, ← h.cpu c, Function.update_eq_self]
  rfl

theorem SchedInv.of_picked (h : SchedInv P s) (hc : P.curr (s.rq c) = none)
    (hk : P.Picked c t (s.onCpu c) l') : SchedInv P ((s.put c l').setCpu c (some t)) := by
  have ht : P.onRq (s.task t) = true := by
    apply (h.rq c).onRq
    rw [SchedSys.onCpu, FairPolicy.members_of_none hc]
    exact hk.tree.mem_iff.mpr List.mem_cons_self
  refine h.of_perm rfl rfl ?_ rfl (FairPolicy.members_perm_of_picked hk hc) ?_ hk.frame.weight
    hk.nrRunning hk.load
  · rw [hk.curr]
    rfl
  · intro u
    by_cases hut : t = u
    · rw [← hut, hk.onRq, ht]
    · exact hk.frame.onRq u (by simpa using hut)

theorem SchedInv.of_put (h : SchedInv P s) (hc : P.curr (s.rq c) = some t)
    (hk : P.Put t (s.onCpu c) l') : SchedInv P ((s.put c l').setCpu c none) := by
  refine h.of_perm rfl rfl ?_ rfl (FairPolicy.members_perm_of_put hk hc)
    (fun u => hk.frame.onRq u (by simp)) hk.frame.weight hk.nrRunning hk.load
  rw [hk.curr]
  rfl

/-- What a call of `sched.c` does to one runqueue and its books. -/
inductive FairPolicy.Call (P : FairPolicy ρ τ) (s : SchedSys ρ τ) : SchedEvent → SchedSys ρ τ → Prop
  /-- the call is not one that `sched.c` makes here, or has nothing to do -/
  | idle {e} : P.Call s e s
  | spawn {t c now₁ now₂ l'} (hl : s.live t ≠ true) (ht : t < maxTasks)
      (hop : P.op (.spawn t now₁ now₂) ((s.create P t).onCpu c) = .ok l')
      (h : P.Entered t ((s.create P t).onCpu c) l') :
      P.Call s (.spawn t c now₁ now₂) ((s.create P t).put c l')
  | pickNone {c now l'} (hc : P.curr (s.rq c) = none)
      (hop : P.pickNext c now (s.onCpu c) = .ok (none, l')) (h : P.Quiet none (s.onCpu c) l') :
      P.Call s (.pick c now) (s.put c l')
  | pick {c now t l'} (hc : P.curr (s.rq c) = none)
      (hop : P.pickNext c now (s.onCpu c) = .ok (some t, l')) (h : P.Picked c t (s.onCpu c) l') :
      P.Call s (.pick c now) ((s.put c l').setCpu c (some t))
  | yield {c now t l'} (hc : P.curr (s.rq c) = some t)
      (hop : P.op (.yield t now) (s.onCpu c) = .ok l') (h : P.Put t (s.onCpu c) l') :
      P.Call s (.yield c now) ((s.put c l').setCpu c none)
  | block {c now t l'} (hc : P.curr (s.rq c) = some t)
      (hop : P.op (.block now) (s.onCpu c) = .ok l') (h : P.Left t (s.onCpu c) l') :
      P.Call s (.block c now) ((s.put c l').setCpu c none)
  | wakeup {t now l'} (hl : s.live t = true) (ht : P.onRq (s.task t) = false)
      (hop : P.op (.wakeup t now) (s.onCpu (P.lastRun (s.task t))) = .ok l')
      (h : P.Entered t (s.onCpu (P.lastRun (s.task t))) l') :
      P.Call s (.wakeup t now) (s.put (P.lastRun (s.task t)) l')
  | finish {c now t l'} (hc : P.curr (s.rq c) = some t)
      (hop : P.op (.finish t now) (s.onCpu c) = .ok l') (h : P.Left t (s.onCpu c) l') :
      P.Call s (.finish c now)
        { (s.put c l').setCpu c none with live := Function.update s.live t false }
  | preempt {c now t l'} (hc : P.curr (s.rq c) = some t)
      (hop : P.op (.preempt now) (s.onCpu c) = .ok l') (h : P.Quiet none (s.onCpu c) l') :
      P.Call s (.preempt c now) (s.put c l')

/-- A call on one CPU that leaves everything as it was. -/
theorem SchedSys.put_onCpu (s : SchedSys ρ τ) (c : ℕ) : s.put c (s.onCpu c) = s := by
  simp [SchedSys.put, SchedSys.onCpu]

/-- **What a step can do.** -/
theorem FairPolicy.Lawful.step (hP : P.Lawful) (h : SchedInv P s) (e : SchedEvent) :
    ∃ s', schedStep P s e = .ok s' ∧ P.Call s e s' := by
  cases e with
  | spawn t c now₁ now₂ =>
      by_cases hl : s.live t = true ∨ maxTasks ≤ t
      · exact ⟨s, by simp only [schedStep, if_pos hl], .idle⟩
      · have hl' : s.live t ≠ true := fun hlive => hl (.inl hlive)
        have ht : t < maxTasks := by
          by_contra hge
          exact hl (.inr (by omega))
        have hoff : P.onRq (((s.create P t).onCpu c).task t) = false := by
          simp [SchedSys.onCpu, SchedSys.create, hP.onRq_init]
        rcases hP.spawn now₁ now₂ ((h.create hP hl' ht).rq c) hoff with ⟨l', hop, he⟩
        exact ⟨_, by simp only [schedStep, if_neg hl, hop]; rfl, .spawn hl' ht hop he⟩
  | pick c now =>
      cases hc : s.cpu c with
      | some t => exact ⟨s, by simp only [schedStep, hc], .idle⟩
      | none =>
          have hcurr : P.curr (s.rq c) = none := (h.cpu c).symm.trans hc
          rcases hP.pick c now (h.rq c) hcurr with ⟨r, l', hop, hk⟩
          cases r with
          | none =>
              refine ⟨_, by simp only [schedStep, hc, hop]; rfl, ?_⟩
              have hsame : (s.put c l').setCpu c none = s.put c l' := by
                simp [SchedSys.setCpu, SchedSys.put, ← hc]
              rw [hsame]
              exact .pickNone hcurr hop hk
          | some t => exact ⟨_, by simp only [schedStep, hc, hop]; rfl, .pick hcurr hop hk⟩
  | yield c now =>
      cases hc : s.cpu c with
      | none => exact ⟨s, by simp only [schedStep, hc], .idle⟩
      | some t =>
          have hcurr : P.curr (s.rq c) = some t := (h.cpu c).symm.trans hc
          rcases hP.yield now (h.rq c) hcurr with ⟨l', hop, hk⟩
          exact ⟨_, by simp only [schedStep, hc, hop]; rfl, .yield hcurr hop hk⟩
  | block c now =>
      cases hc : s.cpu c with
      | none => exact ⟨s, by simp only [schedStep, hc], .idle⟩
      | some t =>
          have hcurr : P.curr (s.rq c) = some t := (h.cpu c).symm.trans hc
          rcases hP.block now (h.rq c) hcurr with ⟨l', hop, hk⟩
          exact ⟨_, by simp only [schedStep, hc, hop]; rfl, .block hcurr hop hk⟩
  | wakeup t now =>
      by_cases hl : s.live t = true
      · by_cases hon : P.onRq (s.task t) = true
        · have hop := hP.wakeup_on (l := s.onCpu (P.lastRun (s.task t))) now hon
          refine ⟨s, ?_, .idle⟩
          simp only [schedStep, if_pos hl, hop]
          exact congrArg Except.ok (s.put_onCpu _)
        · have hoff : P.onRq (s.task t) = false := by simpa using hon
          rcases hP.wakeup now (h.rq (P.lastRun (s.task t))) hoff with ⟨l', hop, he⟩
          exact ⟨_, by simp only [schedStep, if_pos hl, hop]; rfl, .wakeup hl hoff hop he⟩
      · exact ⟨s, by simp only [schedStep, if_neg hl], .idle⟩
  | finish c now =>
      cases hc : s.cpu c with
      | none => exact ⟨s, by simp only [schedStep, hc], .idle⟩
      | some t =>
          have hcurr : P.curr (s.rq c) = some t := (h.cpu c).symm.trans hc
          rcases hP.finish now (h.rq c) hcurr with ⟨l', hop, hk⟩
          exact ⟨_, by simp only [schedStep, hc, hop]; rfl, .finish hcurr hop hk⟩
  | preempt c now =>
      cases hc : s.cpu c with
      | none => exact ⟨s, by simp only [schedStep, hc], .idle⟩
      | some t =>
          have hcurr : P.curr (s.rq c) = some t := (h.cpu c).symm.trans hc
          rcases hP.preempt now (h.rq c) hcurr with ⟨l', hop, hk⟩
          exact ⟨_, by simp only [schedStep, hc, hop]; rfl, .preempt hcurr hop hk⟩

theorem FairPolicy.Call.inv {e : SchedEvent} (hcall : P.Call s e s') (h : SchedInv P s)
    (hP : P.Lawful) : SchedInv P s' := by
  cases hcall with
  | idle => exact h
  | @spawn t c _ _ l' hl ht _ he =>
      refine (h.create hP hl ht).of_entered he ?_ ?_
      · simp [SchedSys.create, hP.onRq_init]
      · simp [SchedSys.create]
  | pickNone _ _ hk => exact h.of_quiet hk
  | pick hc _ hk => exact h.of_picked hc hk
  | yield hc _ hk => exact h.of_put hc hk
  | block hc _ hk => exact h.of_left hk hc rfl rfl rfl (fun _ _ => rfl) fun hl => hl
  | wakeup hl ht _ he => exact h.of_entered he ht hl
  | finish hc _ hk =>
      refine h.of_left hk hc rfl rfl rfl ?_ ?_
      · intro u hu
        simp [Function.update_of_ne hu]
      · intro hl
        simp at hl
  | preempt _ _ hk => exact h.of_quiet hk

/-! ## Membership -/

/-- The task that runs, if there is one and its `on_rq` is set. -/
def FairPolicy.running (P : FairPolicy ρ τ) (s : SchedSys ρ τ) (c : ℕ) : List ℕ :=
  (P.curr (s.rq c)).toList.filter fun t => P.onRq (s.task t)

/-- **A lawful policy keeps its runqueues in order**, and no call of it faults. -/
theorem FairPolicy.Lawful.run (hP : P.Lawful) (es : List SchedEvent) :
    ∃ s, exec (schedStep P) (.start P) es = .ok s ∧ SchedInv P s := by
  refine exec_ok (G := fun _ _ => True) (I := SchedInv P) ?_ (schedInv_start hP)
    (Along.trivial es (SchedSys.start P))
  intro s e h _
  rcases hP.step h e with ⟨s', hs', hcall⟩
  exact ⟨s', hs', hcall.inv h hP⟩

end Skyloft
