import Mathlib.Algebra.BigOperators.Group.Finset.Basic
import Skyloft.Sched.Fifo

/-!
# Work stealing between FIFO runqueues

The owner of a FIFO runqueue puts tasks there without its lock: it reads `head`, fills the
slot at `tail` and publishes `tail`.  It picks under the lock.  A CPU whose ring is empty
steals: with its own lock held it takes the lock of another runqueue, copies half of the
ring there to its own slots from 0 on, moves that `head` forward, and only then publishes
its own `tail`.  Here the steps of several CPUs interleave one memory access at a time.

The runqueue itself, and what one whole call does to it, are in `Skyloft.Sched.Fifo`; a
balance here starts with the ring of the thief empty.

* `StealSys`, `stealStep` — CPUs that put, pick and steal.
* `StealInv` — what a CPU in the middle of a call knows of the rings.
* `steal_conserves` — every task put has one place, and no index is out of range.
* `overflow_seen`, `overflow_stranded` — when a failed pick has overlooked a task.
-/

namespace Skyloft

open Run

/-! ## The system -/

/-- Where a CPU is. -/
inductive StealPc
  /-- outside the code below -/
  | run
  /-- `put_task` has loaded `head` -/
  | loaded (t : ℕ) (head : BitVec 32)
  /-- `put_task` found the ring full and waits for the lock -/
  | full (t : ℕ)
  /-- `put_task` has the lock for the overflow list -/
  | adding (t : ℕ)
  /-- `put_task` has filled the slot, the store of `tail` is to come -/
  | stored (t : ℕ)
  /-- in the loop of `fifo_sched_balance`, with the CPUs that are left to try -/
  | probe (rest : List ℕ)
  /-- `steal_task` has the lock of `v` -/
  | locked (v : ℕ) (rest : List ℕ)
  /-- `steal_task` copies `n` tasks from `v` and has copied `i` -/
  | copy (v n i : ℕ)
  /-- the tasks are off the ring of `v`, the store of `l->tail` is to come -/
  | moved (n : ℕ)
  /-- `steal_task` has found `t` outside the ring of `v` -/
  | found (v t : ℕ)
  deriving DecidableEq

structure StealSys where
  rq : ℕ → FifoRq
  pc : ℕ → StealPc
  /-- the CPU that holds the lock of a runqueue -/
  lock : ℕ → Option ℕ
  /-- the tasks put so far, those of a softirq included -/
  puts : List ℕ
  /-- what the calls of `fifo_sched_pick_next` returned -/
  picked : List ℕ

inductive StealFault
  /-- an index outside `tasks[RUNTIME_RQ_SIZE]` -/
  | index
  deriving DecidableEq

inductive StealEvent
  /-- `put_task` of `t` on CPU `c` starts, and loads `head` -/
  | put (c t : ℕ)
  /-- the test for a full ring, and the store into the slot -/
  | test (c : ℕ)
  | publish (c : ℕ)
  /-- `put_task` gets the lock for the overflow list -/
  | grab (c : ℕ)
  /-- the task goes on the overflow list, and the lock is released -/
  | add (c : ℕ)
  /-- `fifo_sched_percpu_lock`, and the unlock -/
  | lock (c : ℕ)
  | unlock (c : ℕ)
  | pick (c : ℕ)
  /-- `fifo_sched_balance` starts, with what `rand_crc32c` returns -/
  | balance (c : ℕ) (start : BitVec 32)
  /-- the next attempt of the loop, up to the lock -/
  | attempt (c : ℕ)
  /-- `steal_task` reads the indices of the victim; `softirq` is what `softirq_task` returns -/
  | read (c : ℕ) (softirq : Option ℕ)
  /-- one turn of the copy loop, or its end: the store of the victim's `head`, and the unlock -/
  | copy (c : ℕ)
  /-- `l->tail = avail` -/
  | commit (c : ℕ)
  /-- `l->tasks[l->tail++] = task`, and the unlock -/
  | append (c : ℕ)

/-- The CPU that moves. -/
def StealEvent.cpu : StealEvent → ℕ
  | .put c _ | .test c | .publish c | .grab c | .add c | .lock c | .unlock c | .pick c
  | .balance c _ | .attempt c | .read c _ | .copy c | .commit c | .append c => c

namespace StealSys

def start : StealSys where
  rq _ := .init
  pc _ := .run
  lock _ := none
  puts := []
  picked := []

def setPc (s : StealSys) (c : ℕ) (p : StealPc) : StealSys :=
  { s with pc := Function.update s.pc c p }

def setRq (s : StealSys) (c : ℕ) (rq : FifoRq) : StealSys :=
  { s with rq := Function.update s.rq c rq }

def setLock (s : StealSys) (c : ℕ) (o : Option ℕ) : StealSys :=
  { s with lock := Function.update s.lock c o }

/-- `RQ_TAIL(rq) = task` -/
def fill (s : StealSys) (c t : ℕ) : StealSys :=
  s.setRq c { s.rq c with
    tasks := Function.update (s.rq c).tasks (FifoRq.slot (s.rq c).tail) t }

/-- `steal_task` once it has the lock of `v`. -/
def readVictim (s : StealSys) (c v : ℕ) (rest : List ℕ) (softirq : Option ℕ) : StealSys :=
  if (s.rq v).avail = 0 then
    match (s.rq v).overflow with
    | t :: ts => (s.setRq v { s.rq v with overflow := ts }).setPc c (.found v t)
    | [] =>
        match softirq with
        | some t => { s.setPc c (.found v t) with puts := s.puts ++ [t] }
        | none => (s.setLock v none).setPc c (.probe rest)
  else s.setPc c (.copy v (((s.rq v).avail + 1) / 2) 0)

/-- One turn of the copy loop of `steal_task`, or its end. -/
def copyTurn (s : StealSys) (c v n i : ℕ) : Except StealFault StealSys :=
  if i < n then
    if i < runtimeRqSize then
      .ok ((s.setRq c { s.rq c with
        tasks := Function.update (s.rq c).tasks i
          ((s.rq v).tasks (FifoRq.slot ((s.rq v).head + BitVec.ofNat 32 i))) }).setPc c
        (.copy v n (i + 1)))
    else .error .index
  else
    .ok (((s.setRq v { s.rq v with head := (s.rq v).head + BitVec.ofNat 32 n }).setLock v
      none).setPc c (.moved n))

end StealSys

/-- One step of a CPU.  An event that its place does not know changes nothing. -/
def stealMove (w : ℕ) (s : StealSys) : StealEvent → Except StealFault StealSys
  | .put c t =>
      match s.pc c with
      | .run => .ok (s.setPc c (.loaded t (s.rq c).head))
      | _ => .ok s
  | .test c =>
      match s.pc c with
      | .loaded t head =>
          if runtimeRqSize ≤ ((s.rq c).tail - head).toNat then .ok (s.setPc c (.full t))
          else .ok ((s.fill c t).setPc c (.stored t))
      | _ => .ok s
  | .publish c =>
      match s.pc c with
      | .stored t =>
          .ok { (s.setRq c { s.rq c with tail := (s.rq c).tail + 1#32 }).setPc c .run with
            puts := s.puts ++ [t] }
      | _ => .ok s
  | .grab c =>
      match s.pc c with
      | .full t =>
          if s.lock c = none then .ok ((s.setLock c (some c)).setPc c (.adding t)) else .ok s
      | _ => .ok s
  | .add c =>
      match s.pc c with
      | .adding t =>
          .ok { ((s.setRq c { s.rq c with
              overflow := (s.rq c).overflow ++ [t] }).setLock c none).setPc c .run with
            puts := s.puts ++ [t] }
      | _ => .ok s
  | .lock c =>
      if s.pc c = .run ∧ s.lock c = none then .ok (s.setLock c (some c)) else .ok s
  | .unlock c =>
      if s.pc c = .run ∧ s.lock c = some c then .ok (s.setLock c none) else .ok s
  | .pick c =>
      if s.pc c = .run ∧ s.lock c = some c then
        match (s.rq c).pickNext with
        | some (t, rq) => .ok { s.setRq c rq with picked := s.picked ++ [t] }
        | none => .ok s
      else .ok s
  | .balance c start =>
      if s.pc c = .run ∧ s.lock c = some c ∧ (s.rq c).isEmpty = true then
        .ok ((s.setRq c { s.rq c with head := 0, tail := 0 }).setPc c
          (.probe ((List.range w).map fun i => (start + BitVec.ofNat 32 i).toNat % w)))
      else .ok s
  | .attempt c =>
      match s.pc c with
      | .probe [] => .ok (s.setPc c .run)
      | .probe (v :: rest) =>
          if v = c ∨ s.lock v ≠ none then .ok (s.setPc c (.probe rest))
          else .ok ((s.setLock v (some c)).setPc c (.locked v rest))
      | _ => .ok s
  | .read c softirq =>
      match s.pc c with
      | .locked v rest => .ok (s.readVictim c v rest softirq)
      | _ => .ok s
  | .copy c =>
      match s.pc c with
      | .copy v n i => s.copyTurn c v n i
      | _ => .ok s
  | .commit c =>
      match s.pc c with
      | .moved n => .ok ((s.setRq c { s.rq c with tail := BitVec.ofNat 32 n }).setPc c .run)
      | _ => .ok s
  | .append c =>
      match s.pc c with
      | .found v t =>
          if (s.rq c).tail.toNat < runtimeRqSize then
            .ok (((s.setRq c ((s.rq c).append t)).setLock v none).setPc c .run)
          else .error .index
      | _ => .ok s

/-- One step of one of `w` CPUs. -/
def stealStep (w : ℕ) (s : StealSys) (e : StealEvent) : Except StealFault StealSys :=
  if e.cpu < w then stealMove w s e else .ok s

namespace StealSys

/-- The tasks that a thief has in hand: off the victim, and not yet in its own ring. -/
def transit (s : StealSys) (c : ℕ) : List ℕ :=
  match s.pc c with
  | .moved n => (List.range n).map (s.rq c).tasks
  | .found _ t => [t]
  | _ => []

/-- How often task `t` is in the ring of `c`, on its overflow list or in its hand. -/
def held (s : StealSys) (c t : ℕ) : ℕ :=
  (s.rq c).ring.count t + (s.rq c).overflow.count t + (s.transit c).count t

/-- The number of places of task `t`. -/
def places (w : ℕ) (s : StealSys) (t : ℕ) : ℕ :=
  ∑ c ∈ Finset.range w, s.held c t + s.picked.count t

end StealSys

/-! ## The invariant -/

namespace StealSys

/-- The runqueue of `c` is reset and locked by `c` itself. -/
def Reset (s : StealSys) (c : ℕ) : Prop :=
  s.lock c = some c ∧ (s.rq c).head = 0 ∧ (s.rq c).tail = 0

/-- The thief `c` has locked `v`. -/
def Robs (w : ℕ) (s : StealSys) (c v : ℕ) : Prop := v ≠ c ∧ v < w ∧ s.lock v = some c

/-- What CPU `c` knows in the middle of a call. -/
def Ok (w : ℕ) (s : StealSys) (c : ℕ) : Prop :=
  match s.pc c with
  | .run | .full _ => True
  -- the head that was loaded may be behind, never ahead
  | .loaded _ head => (s.rq c).avail ≤ ((s.rq c).tail - head).toNat
  | .adding _ => s.lock c = some c
  | .stored t => (s.rq c).avail < 32 ∧ (s.rq c).tasks (FifoRq.slot (s.rq c).tail) = t
  | .probe rest => s.Reset c ∧ ∀ v ∈ rest, v < w
  | .locked v rest => s.Reset c ∧ s.Robs w c v ∧ ∀ u ∈ rest, u < w
  | .copy v n i =>
      s.Reset c ∧ s.Robs w c v ∧ i ≤ n ∧ n ≤ 16 ∧ n ≤ (s.rq v).avail ∧
        ∀ j < i, (s.rq c).tasks j =
          (s.rq v).tasks (FifoRq.slot ((s.rq v).head + BitVec.ofNat 32 j))
  | .moved n => s.Reset c ∧ n ≤ 16
  | .found v _ => s.Reset c ∧ s.Robs w c v

end StealSys

structure StealInv (w : ℕ) (s : StealSys) : Prop where
  ok : ∀ c, s.Ok w c
  bound : ∀ c, (s.rq c).avail ≤ 32
  conserved : ∀ t, s.puts.count t = s.places w t

variable {w c v t n : ℕ} {s s' : StealSys}

theorem stealInv_start : StealInv w .start where
  ok c := by simp [StealSys.Ok, StealSys.start]
  bound c := by simp [StealSys.start, FifoRq.init, FifoRq.avail]
  conserved t := by
    have hring : FifoRq.init.ring = [] := FifoRq.isEmpty_iff.mp rfl
    have hzero : ∀ c, StealSys.start.held c t = 0 := by
      intro c
      have hring' : (StealSys.start.rq c).ring = [] := hring
      simp only [StealSys.held, hring', StealSys.transit]
      simp [StealSys.start, FifoRq.init]
    simp only [StealSys.places, hzero]
    simp [StealSys.start]

/-- A runqueue whose oldest tasks or overflow tasks were taken by a thief. -/
structure Robbed (r r' : FifoRq) : Prop where
  tail : r'.tail = r.tail
  tasks : r'.tasks = r.tasks
  avail : r'.avail ≤ r.avail

/-- A ring whose tasks stay where they are, while its owner may put more. -/
structure Grown (r r' : FifoRq) : Prop where
  head : r'.head = r.head
  avail : r.avail ≤ r'.avail
  tasks : ∀ j < r.avail, r'.tasks (FifoRq.slot (r.head + BitVec.ofNat 32 j)) =
    r.tasks (FifoRq.slot (r.head + BitVec.ofNat 32 j))

theorem Grown.refl (r : FifoRq) : Grown r r := ⟨rfl, le_rfl, fun _ _ => rfl⟩

/-- What a step of CPU `c` may do to the others: take from a runqueue that it has locked,
and put into its own. -/
structure StepOf (c : ℕ) (s s' : StealSys) : Prop where
  pc : ∀ d ≠ c, s'.pc d = s.pc d
  lock : ∀ x d, d ≠ c → s.lock x = some d → s'.lock x = some d
  rq : ∀ d ≠ c, s'.rq d = s.rq d ∨ (s.lock d = some c ∧ Robbed (s.rq d) (s'.rq d))
  own : s.lock c ≠ some c → Grown (s.rq c) (s'.rq c)

/-- Another CPU does not notice the step. -/
theorem StealSys.Ok.of_step {d : ℕ} (h : s.Ok w d) (hs : StepOf c s s') (hd : d ≠ c) :
    s'.Ok w d := by
  have hreset : s.Reset d → s'.Reset d ∧ s'.rq d = s.rq d := by
    intro hr
    have hsame : s'.rq d = s.rq d := by
      rcases hs.rq d hd with hsame | ⟨hl, -⟩
      · exact hsame
      · rw [hr.1, Option.some.injEq] at hl
        exact absurd hl hd
    exact ⟨⟨hs.lock d d hd hr.1, by rw [hsame, hr.2.1], by rw [hsame, hr.2.2]⟩, hsame⟩
  have hrobs : ∀ v, s.Robs w d v → s'.Robs w d v ∧ Grown (s.rq v) (s'.rq v) := by
    intro v hv
    refine ⟨⟨hv.1, hv.2.1, hs.lock v d hd hv.2.2⟩, ?_⟩
    by_cases hvc : v = c
    · subst hvc
      refine hs.own ?_
      rw [hv.2.2]
      intro hl
      exact hd (Option.some.inj hl)
    · rcases hs.rq v hvc with hsame | ⟨hl, -⟩
      · rw [hsame]
        exact .refl _
      · rw [hv.2.2, Option.some.injEq] at hl
        exact absurd hl hd
  have hrobbed : Robbed (s.rq d) (s'.rq d) := by
    rcases hs.rq d hd with hsame | ⟨-, hr⟩
    · rw [hsame]
      exact ⟨rfl, rfl, le_rfl⟩
    · exact hr
  cases hp : s.pc d with
  | run => simp [StealSys.Ok, hs.pc d hd, hp]
  | full t => simp [StealSys.Ok, hs.pc d hd, hp]
  | loaded t head =>
      simp only [StealSys.Ok, hs.pc d hd, hp] at h ⊢
      rw [hrobbed.tail]
      exact hrobbed.avail.trans h
  | adding t =>
      simp only [StealSys.Ok, hs.pc d hd, hp] at h ⊢
      exact hs.lock d d hd h
  | stored t =>
      simp only [StealSys.Ok, hs.pc d hd, hp] at h ⊢
      rw [hrobbed.tail, hrobbed.tasks]
      exact ⟨lt_of_le_of_lt hrobbed.avail h.1, h.2⟩
  | probe rest =>
      simp only [StealSys.Ok, hs.pc d hd, hp] at h ⊢
      exact ⟨(hreset h.1).1, h.2⟩
  | locked v rest =>
      simp only [StealSys.Ok, hs.pc d hd, hp] at h ⊢
      exact ⟨(hreset h.1).1, (hrobs v h.2.1).1, h.2.2⟩
  | copy v n i =>
      simp only [StealSys.Ok, hs.pc d hd, hp] at h ⊢
      rcases h with ⟨hr, hv, hin, hn, ha, hcopy⟩
      have hr' := hreset hr
      have hv' := hrobs v hv
      refine ⟨hr'.1, hv'.1, hin, hn, ha.trans hv'.2.avail, ?_⟩
      intro j hj
      rw [hr'.2, hv'.2.head, hv'.2.tasks j (by omega)]
      exact hcopy j hj
  | moved n =>
      simp only [StealSys.Ok, hs.pc d hd, hp] at h ⊢
      exact ⟨(hreset h.1).1, h.2⟩
  | found v t =>
      simp only [StealSys.Ok, hs.pc d hd, hp] at h ⊢
      exact ⟨(hreset h.1).1, (hrobs v h.2).1⟩

/-! ## Counting -/

/-- A sum in which two terms change together. -/
theorem sum_range_pair {f g : ℕ → ℕ} (hc : c < w) (hv : v < w) (hne : v ≠ c)
    (h : ∀ d, d ≠ c → d ≠ v → f d = g d) (hpair : f c + f v = g c + g v) :
    ∑ d ∈ Finset.range w, f d = ∑ d ∈ Finset.range w, g d := by
  have hcm : c ∈ Finset.range w := Finset.mem_range.mpr hc
  have hvm : v ∈ (Finset.range w).erase c := by simp [hne, hv]
  rw [← Finset.add_sum_erase _ f hcm, ← Finset.add_sum_erase _ f hvm,
    ← Finset.add_sum_erase _ g hcm, ← Finset.add_sum_erase _ g hvm]
  have hrest : ∑ d ∈ ((Finset.range w).erase c).erase v, f d =
      ∑ d ∈ ((Finset.range w).erase c).erase v, g d := by
    refine Finset.sum_congr rfl fun d hd => ?_
    simp only [Finset.mem_erase] at hd
    exact h d hd.2.1 hd.1
  omega

/-- A sum in which one term changes. -/
theorem sum_range_single {f g : ℕ → ℕ} (hc : c < w) (h : ∀ d ≠ c, f d = g d) :
    ∑ d ∈ Finset.range w, f d + g c = ∑ d ∈ Finset.range w, g d + f c := by
  have hcm : c ∈ Finset.range w := Finset.mem_range.mpr hc
  rw [← Finset.add_sum_erase _ f hcm, ← Finset.add_sum_erase _ g hcm]
  have hrest : ∑ d ∈ (Finset.range w).erase c, f d = ∑ d ∈ (Finset.range w).erase c, g d := by
    refine Finset.sum_congr rfl fun d hd => ?_
    exact h d (Finset.mem_erase.mp hd).1
  omega

namespace StealSys

theorem transit_congr {d : ℕ} (hpc : s'.pc d = s.pc d)
    (htasks : (s'.rq d).tasks = (s.rq d).tasks) : s'.transit d = s.transit d := by
  simp only [transit, hpc, htasks]

theorem held_congr {d : ℕ} (hpc : s'.pc d = s.pc d) (hrq : s'.rq d = s.rq d) :
    s'.held d t = s.held d t := by
  simp only [held, transit_congr hpc (congrArg FifoRq.tasks hrq), hrq]

/-- CPU `c` takes or releases a lock that nobody else has: the others keep theirs. -/
theorem lock_update {o : Option ℕ} (hl : s.lock v = none ∨ s.lock v = some c) :
    ∀ x d, d ≠ c → s.lock x = some d → Function.update s.lock v o x = some d := by
  intro x d hd hx
  rw [Function.update_of_ne]
  · exact hx
  · rintro rfl
    rcases hl with hl | hl <;> rw [hl] at hx
    · simp at hx
    · exact hd (Option.some.inj hx).symm

end StealSys

/-- A step of CPU `c` that changes no runqueue but its own. -/
theorem StealInv.single (h : StealInv w s) (hc : c < w) (hs : StepOf c s s')
    (hrq : ∀ d ≠ c, s'.rq d = s.rq d) (hok : s'.Ok w c) (hbound : (s'.rq c).avail ≤ 32)
    (hcount : ∀ t, s'.puts.count t + s.picked.count t + s.held c t =
      s.puts.count t + s'.picked.count t + s'.held c t) : StealInv w s' := by
  constructor
  · intro d
    by_cases hd : d = c
    · rwa [hd]
    · exact (h.ok d).of_step hs hd
  · intro d
    by_cases hd : d = c
    · rwa [hd]
    · rw [hrq d hd]
      exact h.bound d
  · intro t
    have hsum : ∑ d ∈ Finset.range w, s'.held d t + s.held c t =
        ∑ d ∈ Finset.range w, s.held d t + s'.held c t :=
      sum_range_single hc fun d hd => StealSys.held_congr (hs.pc d hd) (hrq d hd)
    have hold := h.conserved t
    have hnew := hcount t
    simp only [StealSys.places] at hold ⊢
    omega

/-- A step of CPU `c` that takes from the runqueue `v`. -/
theorem StealInv.pair (h : StealInv w s) (hc : c < w) (hv : v < w) (hne : v ≠ c)
    (hs : StepOf c s s') (hrq : ∀ d, d ≠ c → d ≠ v → s'.rq d = s.rq d) (hok : s'.Ok w c)
    (hc32 : (s'.rq c).avail ≤ 32) (hv32 : (s'.rq v).avail ≤ 32) (hputs : s'.puts = s.puts)
    (hpicked : s'.picked = s.picked)
    (hcount : ∀ t, s'.held c t + s'.held v t = s.held c t + s.held v t) : StealInv w s' := by
  constructor
  · intro d
    by_cases hd : d = c
    · rwa [hd]
    · exact (h.ok d).of_step hs hd
  · intro d
    by_cases hd : d = c
    · rwa [hd]
    · by_cases hdv : d = v
      · rwa [hdv]
      · rw [hrq d hd hdv]
        exact h.bound d
  · intro t
    have hsum : ∑ d ∈ Finset.range w, s'.held d t = ∑ d ∈ Finset.range w, s.held d t :=
      sum_range_pair hc hv hne
        (fun d hd hdv => StealSys.held_congr (hs.pc d hd) (hrq d hd hdv)) (hcount t)
    have hold := h.conserved t
    simp only [StealSys.places, hsum, hputs, hpicked] at hold ⊢
    exact hold

/-- A step of CPU `c` that changes only its place and its hold on locks. -/
theorem StealInv.quiet (h : StealInv w s) (hc : c < w)
    (hpc : ∀ d ≠ c, s'.pc d = s.pc d)
    (hlock : ∀ x d, d ≠ c → s.lock x = some d → s'.lock x = some d) (hrq : s'.rq = s.rq)
    (hputs : s'.puts = s.puts) (hpicked : s'.picked = s.picked)
    (htransit : s'.transit c = s.transit c) (hok : s'.Ok w c) : StealInv w s' := by
  have hs : StepOf c s s' := by
    refine ⟨hpc, hlock, fun d _ => .inl (by rw [hrq]), fun _ => ?_⟩
    rw [hrq]
    exact .refl _
  refine h.single hc hs (fun d _ => by rw [hrq]) hok ?_ ?_
  · rw [hrq]
    exact h.bound c
  · intro t
    have hheld : s'.held c t = s.held c t := by simp only [StealSys.held, htransit, hrq]
    rw [hheld, hputs, hpicked]

/-! ## Steps of `put_task` and of a pick -/

/-- A step that only moves one CPU. -/
theorem StealInv.setPc (h : StealInv w s) (hc : c < w) {p : StealPc}
    (ht : (s.setPc c p).transit c = s.transit c) (hok : (s.setPc c p).Ok w c) :
    StealInv w (s.setPc c p) :=
  h.quiet hc (fun _ hd => Function.update_of_ne hd _ _) (fun _ _ _ hx => hx) rfl rfl rfl ht hok

theorem stealPut_inv (h : StealInv w s) (hc : c < w) (hp : s.pc c = .run) :
    StealInv w (s.setPc c (.loaded t (s.rq c).head)) := by
  apply h.setPc hc
  · simp [StealSys.transit, StealSys.setPc, hp]
  · simp [StealSys.Ok, StealSys.setPc, FifoRq.avail]

namespace FifoRq

variable {rq : FifoRq}

/-- The slot at the tail is filled. -/
theorem ring_fill (h : rq.avail < 32) :
    ({ rq with tasks := Function.update rq.tasks (slot rq.tail) t } : FifoRq).ring = rq.ring :=
  Ring.contents_fill size_dvd h

/-- The tail is published. -/
theorem ring_publish (h : rq.avail < 32) :
    ({ rq with tail := rq.tail + 1#32 } : FifoRq).ring =
      rq.ring ++ [rq.tasks (slot rq.tail)] :=
  Ring.contents_succ size_dvd (by decide) h

theorem avail_publish (h : rq.avail < 32) :
    ({ rq with tail := rq.tail + 1#32 } : FifoRq).avail = rq.avail + 1 := by
  rw [← length_ring, ring_publish h, List.length_append, length_ring, List.length_singleton]

theorem slot_ne_tail (h : rq.avail < 32) {j : ℕ} (hj : j < rq.avail) :
    slot (rq.head + BitVec.ofNat 32 j) ≠ slot rq.tail := by
  have hslot : slot (rq.head + BitVec.ofNat 32 j) = (rq.head.toNat + j) % runtimeRqSize :=
    Ring.slot_add size_dvd j
  have htail : slot rq.tail = (rq.head.toNat + rq.avail) % runtimeRqSize :=
    Ring.slot_tail size_dvd rq.head rq.tail
  rw [hslot, htail]
  exact Ring.slot_ne hj h

theorem pickNext_spec {r : FifoRq} (h : rq.pickNext = some (t, r)) :
    rq.ring = t :: r.ring ∧ r.overflow = rq.overflow := by
  by_cases he : rq.isEmpty = true
  · simp [pickNext, he] at h
  · have hne : rq.head ≠ rq.tail := by simpa [isEmpty] using he
    simp only [pickNext, he, Bool.false_eq_true, if_false, Option.some.injEq, Prod.mk.injEq] at h
    rcases h with ⟨rfl, rfl⟩
    have hpos : 1 ≤ rq.avail := by
      rw [← length_ring]
      exact List.length_pos_iff.mpr fun hnil => he (isEmpty_iff.mpr hnil)
    have hadv : ({ rq with head := rq.head + 1#32 } : FifoRq).ring = rq.ring.drop 1 :=
      ring_advance hpos
    rw [hadv]
    exact ⟨Ring.contents_cons size_dvd hne, rfl⟩

end FifoRq

theorem stealTest_inv (h : StealInv w s) (hc : c < w) {head : BitVec 32}
    (hp : s.pc c = .loaded t head) (hfree : ¬ runtimeRqSize ≤ ((s.rq c).tail - head).toNat) :
    StealInv w ((s.fill c t).setPc c (.stored t)) := by
  have hok := h.ok c
  simp only [StealSys.Ok, hp] at hok
  have hlt : (s.rq c).avail < 32 := by
    simp only [runtimeRqSize] at hfree
    omega
  have hown : ((s.fill c t).setPc c (.stored t)).rq c = { s.rq c with
      tasks := Function.update (s.rq c).tasks (FifoRq.slot (s.rq c).tail) t } := by
    simp [StealSys.fill, StealSys.setPc, StealSys.setRq]
  have hrq : ∀ d ≠ c, ((s.fill c t).setPc c (.stored t)).rq d = s.rq d := by
    intro d hd
    simp [StealSys.fill, StealSys.setPc, StealSys.setRq, Function.update_of_ne hd]
  refine h.single hc ⟨?_, ?_, ?_, ?_⟩ hrq ?_ ?_ ?_
  · intro d hd
    simp [StealSys.fill, StealSys.setPc, StealSys.setRq, Function.update_of_ne hd]
  · intro x d _ hx
    exact hx
  · intro d hd
    exact .inl (hrq d hd)
  · -- a thief at work finds its slots untouched
    intro _
    rw [hown]
    refine ⟨rfl, le_rfl, ?_⟩
    intro j hj
    exact Function.update_of_ne (FifoRq.slot_ne_tail hlt hj) _ _
  · have hpc : ((s.fill c t).setPc c (.stored t)).pc c = .stored t := by simp [StealSys.setPc]
    simp only [StealSys.Ok, hpc, hown]
    exact ⟨hlt, Function.update_self _ _ _⟩
  · rw [hown]
    exact h.bound c
  · intro u
    have htransit : ((s.fill c t).setPc c (.stored t)).transit c = s.transit c := by
      simp [StealSys.transit, StealSys.setPc, hp]
    have hheld : ((s.fill c t).setPc c (.stored t)).held c u = s.held c u := by
      simp only [StealSys.held, htransit, hown, FifoRq.ring_fill hlt]
    rw [hheld]
    rfl

theorem stealPublish_inv (h : StealInv w s) (hc : c < w) (hp : s.pc c = .stored t) :
    StealInv w { (s.setRq c { s.rq c with tail := (s.rq c).tail + 1#32 }).setPc c .run with
      puts := s.puts ++ [t] } := by
  have hok := h.ok c
  simp only [StealSys.Ok, hp] at hok
  have hring := FifoRq.ring_publish hok.1
  have havail := FifoRq.avail_publish hok.1
  rw [hok.2] at hring
  have hrq : ∀ d ≠ c, Function.update s.rq c { s.rq c with tail := (s.rq c).tail + 1#32 } d =
      s.rq d := by
    intro d hd
    exact Function.update_of_ne hd _ _
  refine h.single hc ⟨?_, ?_, ?_, ?_⟩ hrq ?_ ?_ ?_
  · intro d hd
    simp [StealSys.setPc, StealSys.setRq, Function.update_of_ne hd]
  · intro x d _ hx
    exact hx
  · intro d hd
    exact .inl (hrq d hd)
  · intro _
    simp only [StealSys.setPc, StealSys.setRq, Function.update_self]
    exact ⟨rfl, by omega, fun _ _ => rfl⟩
  · simp [StealSys.Ok, StealSys.setPc]
  · simp only [StealSys.setPc, StealSys.setRq, Function.update_self, havail]
    omega
  · intro u
    simp only [StealSys.held, StealSys.transit, StealSys.setPc, StealSys.setRq,
      Function.update_self, hring, List.count_append, hp]
    omega

theorem stealAdd_inv (h : StealInv w s) (hc : c < w) (hp : s.pc c = .adding t) :
    StealInv w { ((s.setRq c { s.rq c with
        overflow := (s.rq c).overflow ++ [t] }).setLock c none).setPc c .run with
      puts := s.puts ++ [t] } := by
  have hok := h.ok c
  simp only [StealSys.Ok, hp] at hok
  have hrq : ∀ d ≠ c, Function.update s.rq c { s.rq c with
      overflow := (s.rq c).overflow ++ [t] } d = s.rq d := by
    intro d hd
    exact Function.update_of_ne hd _ _
  have hring : ({ s.rq c with overflow := (s.rq c).overflow ++ [t] } : FifoRq).ring =
      (s.rq c).ring := rfl
  refine h.single hc ⟨?_, StealSys.lock_update (.inr hok), ?_, ?_⟩ hrq ?_ ?_ ?_
  · intro d hd
    simp [StealSys.setPc, StealSys.setRq, StealSys.setLock, Function.update_of_ne hd]
  · intro d hd
    exact .inl (hrq d hd)
  · intro hl
    exact absurd hok hl
  · simp [StealSys.Ok, StealSys.setPc]
  · simpa [StealSys.setPc, StealSys.setRq, StealSys.setLock, FifoRq.avail] using h.bound c
  · intro u
    simp only [StealSys.held, StealSys.transit, StealSys.setPc, StealSys.setRq,
      StealSys.setLock, Function.update_self, hring, List.count_append, hp]
    omega

/-- The lock of `c` is taken or released by `c` itself. -/
theorem stealLock_inv (h : StealInv w s) (hc : c < w) {o : Option ℕ} {p : StealPc}
    (hl : s.lock c = none ∨ s.lock c = some c) (hp : s.transit c = [])
    (hp' : p = .run ∨ (∃ t, p = .adding t) ∧ o = some c) :
    StealInv w ((s.setLock c o).setPc c p) := by
  refine h.quiet hc ?_ (StealSys.lock_update hl) rfl rfl rfl ?_ ?_
  · intro d hd
    simp [StealSys.setLock, StealSys.setPc, Function.update_of_ne hd]
  · rw [hp]
    rcases hp' with rfl | ⟨⟨t, rfl⟩, -⟩ <;>
      simp [StealSys.transit, StealSys.setPc]
  · rcases hp' with rfl | ⟨⟨t, rfl⟩, ho⟩
    · simp [StealSys.Ok, StealSys.setPc]
    · simp [StealSys.Ok, StealSys.setPc, StealSys.setLock, ho]

theorem stealPick_inv (h : StealInv w s) (hc : c < w) (hp : s.pc c = .run)
    (hl : s.lock c = some c) {r : FifoRq} (hn : (s.rq c).pickNext = some (t, r)) :
    StealInv w { s.setRq c r with picked := s.picked ++ [t] } := by
  have hspec := FifoRq.pickNext_spec hn
  have hrq : ∀ d ≠ c, Function.update s.rq c r d = s.rq d := by
    intro d hd
    exact Function.update_of_ne hd _ _
  refine h.single hc ⟨fun _ _ => rfl, fun _ _ _ hx => hx, ?_, ?_⟩ hrq ?_ ?_ ?_
  · intro d hd
    exact .inl (hrq d hd)
  · intro hne
    exact absurd hl hne
  · simp [StealSys.Ok, StealSys.setRq, hp]
  · simp only [StealSys.setRq, Function.update_self]
    exact FifoRq.avail_pickNext (h.bound c) hn
  · intro u
    simp only [StealSys.held, StealSys.transit, StealSys.setRq, Function.update_self, hspec.1,
      hspec.2, hp, List.count_append, List.count_cons, List.count_nil]
    omega

/-! ## Steps of a thief -/

/-- A ring between equal indices is empty. -/
theorem ring_reset {rq : FifoRq} (hh : rq.head = 0) (ht : rq.tail = 0) : rq.ring = [] :=
  FifoRq.isEmpty_iff.mp (by simp [FifoRq.isEmpty, hh, ht])

theorem stealBalance_inv (h : StealInv w s) (hc : c < w) (hp : s.pc c = .run)
    (hl : s.lock c = some c) (he : (s.rq c).isEmpty = true) {rest : List ℕ}
    (hrest : ∀ v ∈ rest, v < w) :
    StealInv w ((s.setRq c { s.rq c with head := 0, tail := 0 }).setPc c (.probe rest)) := by
  have hrq : ∀ d ≠ c, Function.update s.rq c { s.rq c with head := 0, tail := 0 } d = s.rq d := by
    intro d hd
    exact Function.update_of_ne hd _ _
  have hring : ({ s.rq c with head := 0, tail := 0 } : FifoRq).ring = [] := ring_reset rfl rfl
  refine h.single hc ⟨?_, fun _ _ _ hx => hx, ?_, ?_⟩ hrq ?_ ?_ ?_
  · intro d hd
    simp [StealSys.setPc, StealSys.setRq, Function.update_of_ne hd]
  · intro d hd
    exact .inl (hrq d hd)
  · intro hne
    exact absurd hl hne
  · simp only [StealSys.Ok, StealSys.Reset, StealSys.setPc, StealSys.setRq, Function.update_self]
    exact ⟨⟨hl, trivial, trivial⟩, hrest⟩
  · simp [StealSys.setPc, StealSys.setRq, FifoRq.avail]
  · intro u
    simp only [StealSys.held, StealSys.transit, StealSys.setPc, StealSys.setRq,
      Function.update_self, hring, FifoRq.isEmpty_iff.mp he, hp]

/-- An attempt, successful or not. -/
theorem stealAttempt_inv (h : StealInv w s) (hc : c < w) {rest : List ℕ}
    (hp : s.pc c = .probe (v :: rest)) :
    StealInv w (if v = c ∨ s.lock v ≠ none then s.setPc c (.probe rest)
      else (s.setLock v (some c)).setPc c (.locked v rest)) := by
  have hok := h.ok c
  simp only [StealSys.Ok, hp] at hok
  have hrest : ∀ u ∈ rest, u < w := fun u hu => hok.2 u (List.mem_cons_of_mem _ hu)
  by_cases hskip : v = c ∨ s.lock v ≠ none
  · rw [if_pos hskip]
    apply h.setPc hc
    · simp [StealSys.transit, StealSys.setPc, hp]
    · simp only [StealSys.Ok, StealSys.setPc, Function.update_self]
      exact ⟨hok.1, hrest⟩
  · rw [if_neg hskip]
    push Not at hskip
    refine h.quiet hc ?_ (StealSys.lock_update (.inl hskip.2)) rfl rfl rfl ?_ ?_
    · intro d hd
      simp [StealSys.setPc, StealSys.setLock, Function.update_of_ne hd]
    · simp [StealSys.transit, StealSys.setPc, hp]
    · simp only [StealSys.Ok, StealSys.Reset, StealSys.Robs, StealSys.setPc, StealSys.setLock,
        Function.update_self, Function.update_of_ne (Ne.symm hskip.1)]
      exact ⟨hok.1, ⟨hskip.1, hok.2 v (by simp), trivial⟩, hrest⟩

theorem stealRead_inv (h : StealInv w s) (hc : c < w) {rest : List ℕ}
    (hp : s.pc c = .locked v rest) (softirq : Option ℕ) : StealInv w (s.readVictim c v rest softirq) := by
  have hok := h.ok c
  simp only [StealSys.Ok, hp] at hok
  rcases hok with ⟨hreset, hrobs, hrest⟩
  have hvc := hrobs.1
  have hpc : ∀ {p : StealPc} {d : ℕ}, d ≠ c → Function.update s.pc c p d = s.pc d :=
    fun hd => Function.update_of_ne hd _ _
  by_cases h0 : (s.rq v).avail = 0
  · cases ho : (s.rq v).overflow with
    | cons t ts =>
        simp only [StealSys.readVictim, h0, if_true, ho]
        have hrq : ∀ d ≠ v, Function.update s.rq v { s.rq v with overflow := ts } d = s.rq d :=
          fun d hd => Function.update_of_ne hd _ _
        have hrqc := hrq c (Ne.symm hvc)
        refine h.pair hc hrobs.2.1 hvc ⟨fun d hd => hpc hd, fun _ _ _ hx => hx, ?_, ?_⟩
          (fun d _ hdv => hrq d hdv) ?_ ?_ ?_ rfl rfl ?_
        · intro d _
          by_cases hdv : d = v
          · rw [hdv]
            refine .inr ⟨hrobs.2.2, ?_⟩
            simp only [StealSys.setPc, StealSys.setRq, Function.update_self]
            exact ⟨rfl, rfl, le_rfl⟩
          · exact .inl (hrq d hdv)
        · intro hne
          exact absurd hreset.1 hne
        · simp only [StealSys.Ok, StealSys.Reset, StealSys.Robs, StealSys.setPc, StealSys.setRq,
            Function.update_self, hrqc]
          exact ⟨hreset, hrobs⟩
        · simp only [StealSys.setPc, StealSys.setRq, hrqc]
          exact h.bound c
        · simpa [StealSys.setPc, StealSys.setRq, FifoRq.avail] using h.bound v
        · intro u
          have hring : ({ s.rq v with overflow := ts } : FifoRq).ring = (s.rq v).ring := rfl
          have hv : ((s.setRq v { s.rq v with overflow := ts }).setPc c (.found v t)).transit v =
              s.transit v := by
            refine StealSys.transit_congr (hpc hvc) ?_
            simp [StealSys.setPc, StealSys.setRq]
          have hnone : s.transit c = [] := by simp [StealSys.transit, hp]
          have hone : ((s.setRq v { s.rq v with overflow := ts }).setPc c (.found v t)).transit c =
              [t] := by
            simp [StealSys.transit, StealSys.setPc]
          simp only [StealSys.held, hv, hnone, hone]
          simp only [StealSys.setPc, StealSys.setRq, Function.update_self, hrqc, hring, ho,
            List.count_cons, List.count_nil]
          omega
    | nil =>
        cases softirq with
        | some t =>
            simp only [StealSys.readVictim, h0, if_true, ho]
            refine h.single hc ⟨fun d hd => hpc hd, fun _ _ _ hx => hx, fun _ _ => .inl rfl,
              fun _ => .refl _⟩ (fun _ _ => rfl) ?_ (h.bound c) ?_
            · simp only [StealSys.Ok, StealSys.setPc, Function.update_self]
              exact ⟨hreset, hrobs⟩
            · intro u
              simp only [StealSys.held, StealSys.transit, StealSys.setPc, Function.update_self, hp,
                List.count_append, List.count_nil]
              omega
        | none =>
            simp only [StealSys.readVictim, h0, if_true, ho]
            refine h.quiet hc (fun d hd => hpc hd) (StealSys.lock_update (.inr hrobs.2.2)) rfl rfl
              rfl ?_ ?_
            · simp [StealSys.transit, StealSys.setPc, hp]
            · simp only [StealSys.Ok, StealSys.Reset, StealSys.setPc, StealSys.setLock,
                Function.update_self, Function.update_of_ne (Ne.symm hvc)]
              exact ⟨hreset, hrest⟩
  · simp only [StealSys.readVictim, h0, if_false]
    have h32 := h.bound v
    apply h.setPc hc
    · simp [StealSys.transit, StealSys.setPc, hp]
    · simp only [StealSys.Ok, StealSys.setPc, Function.update_self]
      refine ⟨hreset, hrobs, by omega, by omega, by omega, by simp⟩

theorem stealCopy_inv (h : StealInv w s) (hc : c < w) {i : ℕ} (hp : s.pc c = .copy v n i)
    (hi : i < n) :
    StealInv w ((s.setRq c { s.rq c with
      tasks := Function.update (s.rq c).tasks i
        ((s.rq v).tasks (FifoRq.slot ((s.rq v).head + BitVec.ofNat 32 i))) }).setPc c
      (.copy v n (i + 1))) := by
  have hok := h.ok c
  simp only [StealSys.Ok, hp] at hok
  rcases hok with ⟨hreset, hrobs, -, hn, ha, hcopy⟩
  have hvc := hrobs.1
  have hrq : ∀ d ≠ c, Function.update s.rq c { s.rq c with
      tasks := Function.update (s.rq c).tasks i
        ((s.rq v).tasks (FifoRq.slot ((s.rq v).head + BitVec.ofNat 32 i))) } d = s.rq d :=
    fun d hd => Function.update_of_ne hd _ _
  refine h.single hc ⟨?_, fun _ _ _ hx => hx, ?_, ?_⟩ hrq ?_ ?_ ?_
  · intro d hd
    simp [StealSys.setPc, StealSys.setRq, Function.update_of_ne hd]
  · intro d hd
    exact .inl (hrq d hd)
  · intro hne
    exact absurd hreset.1 hne
  · simp only [StealSys.Ok, StealSys.Reset, StealSys.Robs, StealSys.setPc, StealSys.setRq,
      Function.update_self, hrq v hvc]
    refine ⟨hreset, hrobs, hi, hn, ha, ?_⟩
    intro j hj
    by_cases hji : j = i
    · rw [hji, Function.update_self]
    · rw [Function.update_of_ne hji]
      exact hcopy j (by omega)
  · simpa [StealSys.setPc, StealSys.setRq, FifoRq.avail] using h.bound c
  · -- the slots that are written are not in the ring of the thief yet
    intro u
    have hring : ({ s.rq c with
        tasks := Function.update (s.rq c).tasks i
          ((s.rq v).tasks (FifoRq.slot ((s.rq v).head + BitVec.ofNat 32 i))) } : FifoRq).ring =
        (s.rq c).ring := by
      rw [ring_reset hreset.2.1 hreset.2.2]
      exact ring_reset hreset.2.1 hreset.2.2
    simp only [StealSys.held, StealSys.transit, StealSys.setPc, StealSys.setRq,
      Function.update_self, hring, hp]

/-- The victim gives up the tasks that were copied. -/
theorem stealMoved_inv (h : StealInv w s) (hc : c < w) (hp : s.pc c = .copy v n n) :
    StealInv w (((s.setRq v { s.rq v with
      head := (s.rq v).head + BitVec.ofNat 32 n }).setLock v none).setPc c (.moved n)) := by
  have hok := h.ok c
  simp only [StealSys.Ok, hp] at hok
  rcases hok with ⟨hreset, hrobs, -, hn, ha, hcopy⟩
  have hvc := hrobs.1
  have hring : ({ s.rq v with head := (s.rq v).head + BitVec.ofNat 32 n } : FifoRq).ring =
      (s.rq v).ring.drop n := FifoRq.ring_advance ha
  have havail : ({ s.rq v with head := (s.rq v).head + BitVec.ofNat 32 n } : FifoRq).avail ≤
      (s.rq v).avail := by
    rw [← FifoRq.length_ring, hring, List.length_drop, FifoRq.length_ring]
    omega
  have hrq : ∀ d ≠ v, Function.update s.rq v { s.rq v with
      head := (s.rq v).head + BitVec.ofNat 32 n } d = s.rq d :=
    fun d hd => Function.update_of_ne hd _ _
  have hrqc := hrq c (Ne.symm hvc)
  have hpc : ∀ d ≠ c, Function.update s.pc c (.moved n) d = s.pc d :=
    fun d hd => Function.update_of_ne hd _ _
  refine h.pair hc hrobs.2.1 hvc ⟨hpc, StealSys.lock_update (.inr hrobs.2.2), ?_, ?_⟩
    (fun d _ hdv => hrq d hdv) ?_ ?_ ?_ rfl rfl ?_
  · intro d _
    by_cases hdv : d = v
    · rw [hdv]
      refine .inr ⟨hrobs.2.2, ?_⟩
      simp only [StealSys.setPc, StealSys.setRq, StealSys.setLock, Function.update_self]
      exact ⟨rfl, rfl, havail⟩
    · exact .inl (hrq d hdv)
  · intro hne
    exact absurd hreset.1 hne
  · simp only [StealSys.Ok, StealSys.Reset, StealSys.setPc, StealSys.setRq, StealSys.setLock,
      Function.update_self, Function.update_of_ne (Ne.symm hvc)]
    exact ⟨hreset, hn⟩
  · simp only [StealSys.setPc, StealSys.setRq, StealSys.setLock, hrqc]
    exact h.bound c
  · simp only [StealSys.setPc, StealSys.setRq, StealSys.setLock, Function.update_self]
    exact havail.trans (h.bound v)
  · intro u
    have hv : (((s.setRq v { s.rq v with
        head := (s.rq v).head + BitVec.ofNat 32 n }).setLock v none).setPc c
        (.moved n)).transit v = s.transit v := by
      refine StealSys.transit_congr (hpc v hvc) ?_
      simp [StealSys.setPc, StealSys.setRq, StealSys.setLock]
    have hnone : s.transit c = [] := by simp [StealSys.transit, hp]
    -- what the thief has copied is what the victim gives up
    have htake : (((s.setRq v { s.rq v with
        head := (s.rq v).head + BitVec.ofNat 32 n }).setLock v none).setPc c
        (.moved n)).transit c = (s.rq v).ring.take n := by
      simp only [StealSys.transit, StealSys.setPc, StealSys.setRq, StealSys.setLock,
        Function.update_self, hrqc]
      apply List.ext_getElem
      · rw [List.length_map, List.length_range, List.length_take, FifoRq.length_ring]
        omega
      · intro j h₁ h₂
        have hj : j < n := by simpa using h₁
        simp only [List.getElem_map, List.getElem_range, List.getElem_take, hcopy j hj,
          FifoRq.ring, Ring.contents, FifoRq.slot]
    have hsplit : ((s.rq v).ring.take n).count u + ((s.rq v).ring.drop n).count u =
        (s.rq v).ring.count u := by
      rw [← List.count_append, List.take_append_drop]
    simp only [StealSys.held, hv, hnone, htake]
    simp only [StealSys.setPc, StealSys.setRq, StealSys.setLock, Function.update_self, hrqc,
      hring, List.count_nil]
    omega

theorem stealCommit_inv (h : StealInv w s) (hc : c < w) (hp : s.pc c = .moved n) :
    StealInv w ((s.setRq c { s.rq c with tail := BitVec.ofNat 32 n }).setPc c .run) := by
  have hok := h.ok c
  simp only [StealSys.Ok, hp] at hok
  rcases hok with ⟨hreset, hn⟩
  have hrq : ∀ d ≠ c, Function.update s.rq c { s.rq c with tail := BitVec.ofNat 32 n } d =
      s.rq d := fun d hd => Function.update_of_ne hd _ _
  have hring : ({ s.rq c with tail := BitVec.ofNat 32 n } : FifoRq).ring =
      (List.range n).map (s.rq c).tasks := by
    have hlen : (BitVec.ofNat 32 n - 0#32).toNat = n := by
      simp only [BitVec.sub_zero, BitVec.toNat_ofNat]
      omega
    simp only [FifoRq.ring, hreset.2.1]
    rw [Ring.contents_eq FifoRq.size_dvd]
    change (List.range (BitVec.ofNat 32 n - 0#32).toNat).map _ = _
    rw [hlen]
    apply List.map_congr_left
    intro j hj
    have hj' : j < n := List.mem_range.mp hj
    have hzero : (0 : BitVec 32).toNat = 0 := rfl
    have hslot : ((0 : BitVec 32).toNat + j) % runtimeRqSize = j := by
      simp only [hzero, runtimeRqSize]
      omega
    rw [hslot]
  have havail : ({ s.rq c with tail := BitVec.ofNat 32 n } : FifoRq).avail = n := by
    rw [← FifoRq.length_ring, hring, List.length_map, List.length_range]
  refine h.single hc ⟨?_, fun _ _ _ hx => hx, ?_, ?_⟩ hrq ?_ ?_ ?_
  · intro d hd
    simp [StealSys.setPc, StealSys.setRq, Function.update_of_ne hd]
  · intro d hd
    exact .inl (hrq d hd)
  · intro hne
    exact absurd hreset.1 hne
  · simp [StealSys.Ok, StealSys.setPc]
  · simp only [StealSys.setPc, StealSys.setRq, Function.update_self, havail]
    omega
  · intro u
    simp only [StealSys.held, StealSys.transit, StealSys.setPc, StealSys.setRq,
      Function.update_self, hring, ring_reset hreset.2.1 hreset.2.2, hp, List.count_nil]
    omega

theorem stealAppend_inv (h : StealInv w s) (hc : c < w) (hp : s.pc c = .found v t) :
    StealInv w (((s.setRq c ((s.rq c).append t)).setLock v none).setPc c .run) := by
  have hok := h.ok c
  simp only [StealSys.Ok, hp] at hok
  rcases hok with ⟨hreset, hrobs⟩
  have hrq : ∀ d ≠ c, Function.update s.rq c ((s.rq c).append t) d = s.rq d :=
    fun d hd => Function.update_of_ne hd _ _
  have hring := FifoRq.ring_append (t := t) hreset.2.1 hreset.2.2
  refine h.single hc ⟨?_, StealSys.lock_update (.inr hrobs.2.2), ?_, ?_⟩ hrq ?_ ?_ ?_
  · intro d hd
    simp [StealSys.setPc, StealSys.setRq, StealSys.setLock, Function.update_of_ne hd]
  · intro d hd
    exact .inl (hrq d hd)
  · intro hne
    exact absurd hreset.1 hne
  · simp [StealSys.Ok, StealSys.setPc]
  · simp only [StealSys.setPc, StealSys.setRq, StealSys.setLock, Function.update_self]
    rw [← FifoRq.length_ring, hring, List.length_singleton]
    omega
  · intro u
    simp only [StealSys.held, StealSys.transit, StealSys.setPc, StealSys.setRq,
      StealSys.setLock, Function.update_self, hring, ring_reset hreset.2.1 hreset.2.2, hp,
      List.count_nil]
    simp only [FifoRq.append]
    omega

/-! ## Whole runs -/

theorem stealMove_inv (h : StealInv w s) (e : StealEvent) (hc : e.cpu < w) :
    ∃ s', stealMove w s e = .ok s' ∧ StealInv w s' := by
  cases e with
  | put c t =>
      replace hc : c < w := hc
      cases hp : s.pc c with
      | run => exact ⟨_, by simp only [stealMove, hp], stealPut_inv (t := t) h hc hp⟩
      | _ => exact ⟨s, by simp only [stealMove, hp], h⟩
  | test c =>
      replace hc : c < w := hc
      cases hp : s.pc c with
      | loaded t head =>
          by_cases hf : runtimeRqSize ≤ ((s.rq c).tail - head).toNat
          · refine ⟨s.setPc c (.full t), by simp only [stealMove, hp, hf, if_true], ?_⟩
            apply h.setPc hc
            · simp [StealSys.transit, StealSys.setPc, hp]
            · simp [StealSys.Ok, StealSys.setPc]
          · exact ⟨_, by simp only [stealMove, hp, hf, if_false], stealTest_inv h hc hp hf⟩
      | _ => exact ⟨s, by simp only [stealMove, hp], h⟩
  | publish c =>
      replace hc : c < w := hc
      cases hp : s.pc c with
      | stored t => exact ⟨_, by simp only [stealMove, hp], stealPublish_inv h hc hp⟩
      | _ => exact ⟨s, by simp only [stealMove, hp], h⟩
  | grab c =>
      replace hc : c < w := hc
      cases hp : s.pc c with
      | full t =>
          by_cases hl : s.lock c = none
          · have hi := stealLock_inv (o := some c) (p := .adding t) h hc (.inl hl)
              (by simp [StealSys.transit, hp]) (.inr ⟨⟨t, rfl⟩, rfl⟩)
            exact ⟨_, by simp only [stealMove, hp, hl, if_true], hi⟩
          · exact ⟨s, by simp only [stealMove, hp, hl, if_false], h⟩
      | _ => exact ⟨s, by simp only [stealMove, hp], h⟩
  | add c =>
      replace hc : c < w := hc
      cases hp : s.pc c with
      | adding t => exact ⟨_, by simp only [stealMove, hp], stealAdd_inv h hc hp⟩
      | _ => exact ⟨s, by simp only [stealMove, hp], h⟩
  | lock c =>
      replace hc : c < w := hc
      by_cases hg : s.pc c = .run ∧ s.lock c = none
      · have hi := stealLock_inv (o := some c) h hc (.inl hg.2)
          (by simp [StealSys.transit, hg.1]) (.inl rfl)
        have hsame : (s.setLock c (some c)).setPc c .run = s.setLock c (some c) := by
          simp [StealSys.setPc, StealSys.setLock, ← hg.1]
        rw [hsame] at hi
        exact ⟨_, by simp only [stealMove, if_pos hg], hi⟩
      · exact ⟨s, by simp only [stealMove, if_neg hg], h⟩
  | unlock c =>
      replace hc : c < w := hc
      by_cases hg : s.pc c = .run ∧ s.lock c = some c
      · have hi := stealLock_inv (o := none) h hc (.inr hg.2)
          (by simp [StealSys.transit, hg.1]) (.inl rfl)
        have hsame : (s.setLock c none).setPc c .run = s.setLock c none := by
          simp [StealSys.setPc, StealSys.setLock, ← hg.1]
        rw [hsame] at hi
        exact ⟨_, by simp only [stealMove, if_pos hg], hi⟩
      · exact ⟨s, by simp only [stealMove, if_neg hg], h⟩
  | pick c =>
      replace hc : c < w := hc
      by_cases hg : s.pc c = .run ∧ s.lock c = some c
      · cases hn : (s.rq c).pickNext with
        | none => exact ⟨s, by simp only [stealMove, if_pos hg, hn], h⟩
        | some r =>
            have hi := stealPick_inv h hc hg.1 hg.2 hn
            exact ⟨_, by simp only [stealMove, if_pos hg, hn], hi⟩
      · exact ⟨s, by simp only [stealMove, if_neg hg], h⟩
  | balance c start =>
      replace hc : c < w := hc
      by_cases hg : s.pc c = .run ∧ s.lock c = some c ∧ (s.rq c).isEmpty = true
      · have hrest : ∀ v ∈ (List.range w).map fun i => (start + BitVec.ofNat 32 i).toNat % w,
            v < w := by
          intro v hv
          rcases List.mem_map.mp hv with ⟨i, -, rfl⟩
          exact Nat.mod_lt _ (by omega)
        have hi := stealBalance_inv h hc hg.1 hg.2.1 hg.2.2 hrest
        exact ⟨_, by simp only [stealMove, if_pos hg], hi⟩
      · exact ⟨s, by simp only [stealMove, if_neg hg], h⟩
  | attempt c =>
      replace hc : c < w := hc
      cases hp : s.pc c with
      | probe rest =>
          cases rest with
          | nil =>
              refine ⟨s.setPc c .run, by simp only [stealMove, hp], ?_⟩
              apply h.setPc hc
              · simp [StealSys.transit, StealSys.setPc, hp]
              · simp [StealSys.Ok, StealSys.setPc]
          | cons v rest =>
              refine ⟨_, ?_, stealAttempt_inv h hc hp⟩
              simp only [stealMove, hp]
              split <;> rfl
      | _ => exact ⟨s, by simp only [stealMove, hp], h⟩
  | read c softirq =>
      replace hc : c < w := hc
      cases hp : s.pc c with
      | locked v rest => exact ⟨_, by simp only [stealMove, hp], stealRead_inv h hc hp softirq⟩
      | _ => exact ⟨s, by simp only [stealMove, hp], h⟩
  | copy c =>
      replace hc : c < w := hc
      cases hp : s.pc c with
      | copy v n i =>
          have hok := h.ok c
          simp only [StealSys.Ok, hp] at hok
          by_cases hi : i < n
          · have h32 : i < runtimeRqSize := by
              simp only [runtimeRqSize]
              omega
            exact ⟨_, by simp only [stealMove, hp, StealSys.copyTurn, hi, h32, if_true],
              stealCopy_inv h hc hp hi⟩
          · have hin : i = n := by omega
            subst hin
            exact ⟨_, by simp only [stealMove, hp, StealSys.copyTurn, hi, if_false],
              stealMoved_inv h hc hp⟩
      | _ => exact ⟨s, by simp only [stealMove, hp], h⟩
  | commit c =>
      replace hc : c < w := hc
      cases hp : s.pc c with
      | moved n => exact ⟨_, by simp only [stealMove, hp], stealCommit_inv h hc hp⟩
      | _ => exact ⟨s, by simp only [stealMove, hp], h⟩
  | append c =>
      replace hc : c < w := hc
      cases hp : s.pc c with
      | found v t =>
          have hok := h.ok c
          simp only [StealSys.Ok, hp] at hok
          have htail : (s.rq c).tail.toNat < runtimeRqSize := by
            rw [hok.1.2.2]
            decide
          exact ⟨_, by simp only [stealMove, hp, htail, if_true], stealAppend_inv h hc hp⟩
      | _ => exact ⟨s, by simp only [stealMove, hp], h⟩

theorem stealStep_inv (h : StealInv w s) (e : StealEvent) :
    ∃ s', stealStep w s e = .ok s' ∧ StealInv w s' := by
  by_cases hc : e.cpu < w
  · rcases stealMove_inv h e hc with ⟨s', hs, hi⟩
    exact ⟨s', by simp only [stealStep, hc, if_true, hs], hi⟩
  · exact ⟨s, by simp only [stealStep, hc, if_false], h⟩

/-- A thief with tasks in hand holds its own lock. -/
theorem StealInv.lock_of_transit (h : StealInv w s) (ht : s.transit c ≠ []) : s.lock c = some c := by
  have hok := h.ok c
  cases hp : s.pc c with
  | moved n =>
      simp only [StealSys.Ok, hp] at hok
      exact hok.1.1
  | found v t =>
      simp only [StealSys.Ok, hp] at hok
      exact hok.1.1
  | _ => simp [StealSys.transit, hp] at ht

/-- **Work stealing conserves tasks.**  No interleaving of puts, picks and steals of `w` CPUs
reads or writes outside a ring; in every state reached each put of a task accounts for
exactly one place of it, the hand of a thief included, which then holds its own lock, and no
ring holds more than its slots. -/
theorem steal_conserves (w : ℕ) (es : List StealEvent) :
    ∃ s, exec (stealStep w) .start es = .ok s ∧ (∀ t, s.places w t = s.puts.count t) ∧
      (∀ c, s.transit c ≠ [] → s.lock c = some c) ∧ ∀ c, (s.rq c).avail ≤ runtimeRqSize := by
  have hrun := exec_ok (G := fun _ _ => True) (I := StealInv w)
    (fun _ e h _ => stealStep_inv h e) stealInv_start (Along.trivial es StealSys.start)
  rcases hrun with ⟨s, hs, hi⟩
  exact ⟨s, hs, fun t => (hi.conserved t).symm, fun c => hi.lock_of_transit, hi.bound⟩

/-- CPU 1 steals the task that CPU 0 put, up to the store of its own `tail`. -/
def stealRun : List StealEvent :=
  [.put 0 7, .test 0, .publish 0, .lock 1, .pick 1, .balance 1 0, .attempt 1, .read 1 none,
    .copy 1, .copy 1]

/-- In between the task is in no ring and on no list, and no pick returned it. -/
theorem stolen_in_hand :
    ∃ s, exec (stealStep 2) .start stealRun = .ok s ∧ s.puts = [7] ∧ s.picked = [] ∧
      ∀ c < 2, (s.rq c).ring = [] ∧ (s.rq c).overflow = [] :=
  ⟨_, exec_final (by decide), by decide, by decide, by decide⟩

example : (final (stealStep 2) .start (stealRun ++ [.commit 1, .pick 1])).picked = [7] := by
  decide

/-! ## The overflow list -/

/-- A put finds a free slot, measured with the `head` it has loaded. -/
def Room (s : StealSys) : StealEvent → Prop
  | .test c =>
      match s.pc c with
      | .loaded _ head => ((s.rq c).tail - head).toNat < runtimeRqSize
      | _ => True
  | .put _ _ | .publish _ | .grab _ | .add _ | .lock _ | .unlock _ | .pick _ | .balance _ _
  | .attempt _ | .read _ _ | .copy _ | .commit _ | .append _ => True

instance (s : StealSys) : (e : StealEvent) → Decidable (Room s e)
  | .test c => by
      dsimp only [Room]
      rcases s.pc c with _ | _ | _ | _ | _ | _ | _ | _ | _ | _ <;> infer_instance
  | .put _ _ | .publish _ | .grab _ | .add _ | .lock _ | .unlock _ | .pick _ | .balance _ _
  | .attempt _ | .read _ _ | .copy _ | .commit _ | .append _ => .isTrue trivial

/-- No put is on its way to the overflow list. -/
def StealPc.InRing : StealPc → Prop
  | .full _ | .adding _ => False
  | .run | .loaded _ _ | .stored _ | .probe _ | .locked _ _ | .copy _ _ _ | .moved _
  | .found _ _ => True

/-- All overflow lists are empty and stay so. -/
structure NoOverflow (s : StealSys) : Prop where
  overflow : ∀ c, (s.rq c).overflow = []
  pc : ∀ c, (s.pc c).InRing

namespace NoOverflow

theorem setPc (h : NoOverflow s) {p : StealPc} (hp : p.InRing) : NoOverflow (s.setPc c p) where
  overflow := h.overflow
  pc d := by
    by_cases hd : d = c
    · simpa [StealSys.setPc, hd] using hp
    · simpa [StealSys.setPc, Function.update_of_ne hd] using h.pc d

/-- A step that writes one runqueue and moves one CPU. -/
theorem move (h : NoOverflow s) {d : ℕ} {rq : FifoRq} {p : StealPc}
    (hrq : s'.rq = Function.update s.rq d rq) (hpc : s'.pc = Function.update s.pc c p)
    (hr : rq.overflow = []) (hp : p.InRing) : NoOverflow s' where
  overflow x := by
    by_cases hx : x = d
    · simpa [hrq, hx] using hr
    · simpa [hrq, Function.update_of_ne hx] using h.overflow x
  pc x := by
    by_cases hx : x = c
    · simpa [hpc, hx] using hp
    · simpa [hpc, Function.update_of_ne hx] using h.pc x

theorem setLock (h : NoOverflow s) {o : Option ℕ} : NoOverflow (s.setLock c o) :=
  ⟨h.overflow, h.pc⟩

theorem congr (h : NoOverflow s) (hrq : s'.rq = s.rq) (hpc : s'.pc = s.pc) : NoOverflow s' :=
  ⟨hrq ▸ h.overflow, hpc ▸ h.pc⟩

end NoOverflow

theorem noOverflow_start : NoOverflow .start :=
  ⟨fun _ => rfl, fun _ => trivial⟩

theorem stealMove_noOverflow (h : NoOverflow s) (e : StealEvent) (hg : Room s e)
    (hs : stealMove w s e = .ok s') : NoOverflow s' := by
  cases e with
  | put c t =>
      cases hp : s.pc c <;> simp only [stealMove, hp, Except.ok.injEq] at hs <;> subst hs
      case run => exact h.setPc trivial
      all_goals exact h
  | test c =>
      cases hp : s.pc c <;> simp only [stealMove, hp] at hs
      case loaded t head =>
        simp only [Room, hp] at hg
        rw [if_neg (not_le.mpr hg), Except.ok.injEq] at hs
        subst hs
        exact h.move rfl rfl (h.overflow c) trivial
      all_goals
        cases hs
        exact h
  | publish c =>
      cases hp : s.pc c <;> simp only [stealMove, hp, Except.ok.injEq] at hs <;> subst hs
      case stored t => exact h.move rfl rfl (h.overflow c) trivial
      all_goals exact h
  | grab c =>
      have hin := h.pc c
      cases hp : s.pc c <;> simp only [stealMove, hp, StealPc.InRing, Except.ok.injEq] at hs hin <;>
        subst hs
      all_goals exact h
  | add c =>
      have hin := h.pc c
      cases hp : s.pc c <;> simp only [stealMove, hp, StealPc.InRing, Except.ok.injEq] at hs hin <;>
        subst hs
      all_goals exact h
  | lock c =>
      simp only [stealMove] at hs
      split at hs <;> cases hs
      · exact h.setLock
      · exact h
  | unlock c =>
      simp only [stealMove] at hs
      split at hs <;> cases hs
      · exact h.setLock
      · exact h
  | pick c =>
      simp only [stealMove] at hs
      split at hs
      · cases hn : (s.rq c).pickNext with
        | none =>
            simp only [hn] at hs
            cases hs
            exact h
        | some r =>
            simp only [hn] at hs
            cases hs
            have hr := (FifoRq.pickNext_spec hn).2
            exact h.move rfl (Function.update_eq_self c s.pc).symm (hr.trans (h.overflow c)) (h.pc c)
      · cases hs
        exact h
  | balance c start =>
      simp only [stealMove] at hs
      split at hs <;> cases hs
      · exact h.move rfl rfl (h.overflow c) trivial
      · exact h
  | attempt c =>
      cases hp : s.pc c <;> simp only [stealMove, hp] at hs
      case probe rest =>
        cases rest with
        | nil =>
            cases hs
            exact h.setPc trivial
        | cons v rest =>
            simp only at hs
            split at hs <;> cases hs
            · exact h.setPc trivial
            · exact h.setLock.setPc trivial
      all_goals
        cases hs
        exact h
  | read c softirq =>
      cases hp : s.pc c <;> simp only [stealMove, hp, Except.ok.injEq] at hs <;> subst hs
      case locked v rest =>
        by_cases h0 : (s.rq v).avail = 0
        · cases softirq with
          | some t =>
              simp only [StealSys.readVictim, h0, if_true, h.overflow v]
              exact (h.setPc (c := c) (p := .found v t) trivial).congr rfl rfl
          | none =>
              simp only [StealSys.readVictim, h0, if_true, h.overflow v]
              exact h.setLock.setPc trivial
        · simp only [StealSys.readVictim, h0, if_false]
          exact h.setPc trivial
      all_goals exact h
  | copy c =>
      cases hp : s.pc c <;> simp only [stealMove, hp] at hs
      case copy v n i =>
        simp only [StealSys.copyTurn] at hs
        split at hs
        · split at hs
          · cases hs
            exact h.move rfl rfl (h.overflow c) trivial
          · cases hs
        · cases hs
          exact h.move rfl rfl (h.overflow v) trivial
      all_goals
        cases hs
        exact h
  | commit c =>
      cases hp : s.pc c <;> simp only [stealMove, hp, Except.ok.injEq] at hs <;> subst hs
      case moved n => exact h.move rfl rfl (h.overflow c) trivial
      all_goals exact h
  | append c =>
      cases hp : s.pc c <;> simp only [stealMove, hp] at hs
      case found v t =>
        split at hs
        · cases hs
          exact h.move rfl rfl (h.overflow c) trivial
        · cases hs
      all_goals
        cases hs
        exact h

/-- **No task is overlooked while the rings have room.**  In every run in which no put finds
the ring full, a pick that returns NULL finds the ring and the overflow list of its
runqueue empty. -/
theorem overflow_seen (w : ℕ) (es : List StealEvent) (hg : Along (stealStep w) Room .start es)
    (hs : exec (stealStep w) .start es = .ok s) (c : ℕ) (hn : (s.rq c).pickNext = none) :
    (s.rq c).ring = [] ∧ (s.rq c).overflow = [] := by
  have hstep : ∀ s e s', NoOverflow s → Room s e → stealStep w s e = .ok s' → NoOverflow s' := by
    intro s e s' h he hs
    by_cases hc : e.cpu < w
    · simp only [stealStep, hc, if_true] at hs
      exact stealMove_noOverflow h e he hs
    · simp only [stealStep, hc, if_false] at hs
      cases hs
      exact h
  have h := exec_invariant hstep noOverflow_start hg hs
  refine ⟨?_, h.overflow c⟩
  by_cases he : (s.rq c).isEmpty = true
  · exact FifoRq.isEmpty_iff.mp he
  · simp [FifoRq.pickNext, he] at hn

/-- CPU 0 puts three tasks, CPU 1 steals two of them, and both pick until they find nothing. -/
def roomRun : List StealEvent :=
  [.put 0 7, .test 0, .publish 0, .put 0 8, .test 0, .publish 0, .lock 1, .pick 1, .balance 1 0,
    .put 0 9, .attempt 1, .test 0, .publish 0, .read 1 none, .copy 1, .copy 1, .copy 1, .commit 1,
    .lock 0, .pick 0, .pick 1, .pick 1]

theorem overflow_seen_roomRun :
    ((final (stealStep 2) .start roomRun).rq 1).ring = [] ∧
      ((final (stealStep 2) .start roomRun).rq 1).overflow = [] :=
  overflow_seen 2 roomRun (by decide) (exec_final (by decide)) 1
    (by decide)

/-- A task on the overflow list is overlooked as soon as the ring is empty: whatever the
owner picks by itself, it ends with a pick that returns NULL. -/
theorem overflow_stranded (hc : c < w) (hp : s.pc c = .run) (hl : s.lock c = some c)
    (ho : (s.rq c).overflow ≠ []) :
    ∃ s', exec (stealStep w) s (List.replicate (s.rq c).avail (.pick c)) = .ok s' ∧
      (s'.rq c).pickNext = none ∧ (s'.rq c).overflow = (s.rq c).overflow ∧
      (s'.rq c).overflow ≠ [] := by
  generalize hk : (s.rq c).avail = k
  induction k generalizing s with
  | zero =>
      have hnil : (s.rq c).ring = [] := List.length_eq_zero_iff.mp (FifoRq.length_ring.trans hk)
      refine ⟨s, rfl, ?_, rfl, ho⟩
      simp [FifoRq.pickNext, FifoRq.isEmpty_iff.mpr hnil]
  | succ k ih =>
      cases hn : (s.rq c).pickNext with
      | none =>
          by_cases he : (s.rq c).isEmpty = true
          · have hnil := FifoRq.isEmpty_iff.mp he
            rw [← FifoRq.length_ring, hnil] at hk
            simp at hk
          · simp [FifoRq.pickNext, he] at hn
      | some r =>
          have hspec := FifoRq.pickNext_spec hn
          have hstep : stealStep w s (.pick c) =
              .ok { s.setRq c r.2 with picked := s.picked ++ [r.1] } := by
            simp only [stealStep, StealEvent.cpu, hc, if_true, stealMove, hp, hl, and_self, hn]
          have hrest := @ih { s.setRq c r.2 with picked := s.picked ++ [r.1] } hp hl
          simp only [StealSys.setRq, Function.update_self, hspec.2] at hrest
          have hlen : r.2.avail = k := by
            have hring := congrArg List.length hspec.1
            rw [FifoRq.length_ring, List.length_cons, FifoRq.length_ring] at hring
            omega
          rcases hrest ho hlen with ⟨s', hs', hrest'⟩
          refine ⟨s', ?_, hrest'⟩
          rw [List.replicate_succ]
          exact exec_cons_ok.mpr ⟨_, hstep, hs'⟩

/-- The owner puts 33 tasks and picks 32. -/
def overflowRun : List StealEvent :=
  ((List.range 33).flatMap fun t => [.put 0 t, .test 0, .publish 0, .grab 0, .add 0]) ++
    .lock 0 :: List.replicate 32 (.pick 0)

/-- The next pick returns NULL, with a task on the overflow list. -/
theorem overflow_task_invisible :
    ∃ s, exec (stealStep 1) .start overflowRun = .ok s ∧ (s.rq 0).pickNext.isNone = true ∧
      (s.rq 0).overflow = [32] :=
  ⟨_, exec_final (by decide), by decide, by decide⟩

end Skyloft
