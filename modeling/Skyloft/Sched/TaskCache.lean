import Mathlib.Data.List.Perm.Basic
import Skyloft.Lib.Ring
import Skyloft.Lib.Run
import Skyloft.Sched.Runqueue

/-!
# The central task cache

Without per-CPU caches the tasks and stacks of an application are in two arrays that are used as
rings with common counters.  `__task_create` takes the entries at `head`, `__task_free` puts the
task and the stack it had at `tail`.  The entries from `head` up to `tail + MAX_TASKS_PER_APP` are
free: the counters start equal with every entry free, so the entries free are not told by the
counters but by their distance, which nothing tests.  What is tested is that `head`, a signed word,
is not less than `tail`.

Of a task only the stack is kept, which is all that the functions read.

* `TaskCache`, `taskCreate`, `taskFree` — the cache and its functions.
* `CacheInv` — the tasks in use and the free ones are all tasks, once each.
* `task_cache_iff` — tasks in use are not returned exactly when the test tells that none is free.
-/

namespace Skyloft

open Run

/-! ## The functions -/

structure TaskCache where
  head : BitVec 32
  tail : BitVec 32
  task : ℕ → ℕ
  stack : ℕ → ℕ

structure CacheSys where
  cache : TaskCache
  /-- `t->stack` -/
  stackOf : ℕ → ℕ
  /-- the tasks that were created and not freed -/
  live : List ℕ

inductive CacheFault
  /-- `BUG_ON(task_cache.head < task_cache.tail)` -/
  | bugOn
  deriving DecidableEq

inductive CacheEvent
  | create
  /-- `__task_free` of a task that is in use -/
  | free (t : ℕ)

/-- A counter under `TASK_CACHE_MASK`. -/
def cacheSlot (k : BitVec 32) : ℕ := k.toNat % maxTasks

/-- `__task_alloc_init`; the tasks and the stacks are numbered as they lie in memory. -/
def taskAllocInit : CacheSys where
  cache := { head := 0#32, tail := 0#32, task := fun i => i, stack := fun i => i }
  stackOf _ := 0
  live := []

/-- `__task_create` -/
def taskCreate (s : CacheSys) : Except CacheFault (ℕ × CacheSys) :=
  if s.cache.head.toInt < s.cache.tail.toInt then .error .bugOn
  else
    let i := cacheSlot s.cache.head
    let t := s.cache.task i
    .ok (t,
      { cache := { s.cache with head := s.cache.head + 1#32 }
        stackOf := Function.update s.stackOf t (s.cache.stack i)
        live := t :: s.live })

/-- `__task_free` -/
def taskFree (s : CacheSys) (t : ℕ) : CacheSys :=
  let i := cacheSlot s.cache.tail
  { s with
    cache := { s.cache with
      tail := s.cache.tail + 1#32
      stack := Function.update s.cache.stack i (s.stackOf t)
      task := Function.update s.cache.task i t }
    live := s.live.erase t }

/-- One call.  A task that is not in use is not freed. -/
def cacheStep (s : CacheSys) : CacheEvent → Except CacheFault CacheSys
  | .create => do
      let r ← taskCreate s
      return r.2
  | .free t => .ok (if t ∈ s.live then taskFree s t else s)

namespace CacheSys

/-- What `__task_create` promises: the task and its stack are not in use, and it stops only when
all tasks are. -/
def CreateOk (s : CacheSys) : CacheEvent → Prop
  | .create =>
      match taskCreate s with
      | .ok (t, s') => t ∉ s.live ∧ s'.stackOf t ∉ s.live.map s.stackOf
      | .error .bugOn => s.live.length = maxTasks
  | .free _ => True

/-- The test of the counters fails exactly when all tasks are in use. -/
def TestRight (s : CacheSys) : CacheEvent → Prop
  | .create => s.cache.head.toInt < s.cache.tail.toInt ↔ s.live.length = maxTasks
  | .free _ => True

/-- The free entries of one of the arrays. -/
def entries (s : CacheSys) (slots : ℕ → ℕ) : List ℕ :=
  Ring.contents maxTasks slots s.cache.head (s.cache.tail + BitVec.ofNat 32 maxTasks)

end CacheSys

/-- All tasks and all stacks are either in use or free. -/
structure CacheInv (s : CacheSys) : Prop where
  task : (s.live ++ s.entries s.cache.task).Perm (List.range maxTasks)
  stack : (s.live.map s.stackOf ++ s.entries s.cache.stack).Perm (List.range maxTasks)
  slot : ∀ i < maxTasks, s.cache.task i < maxTasks

theorem maxTasks_dvd : maxTasks ∣ 2 ^ 32 := by decide

theorem cacheSlot_lt (k : BitVec 32) : cacheSlot k < maxTasks := Nat.mod_lt _ (by decide)

theorem maxTasks_lt : maxTasks < 2 ^ 32 := by decide

theorem entries_init : taskAllocInit.entries (fun i => i) = List.range maxTasks := by
  have hturn : Ring.contents maxTasks (fun i : ℕ => i) 0#32 (BitVec.ofNat 32 maxTasks) =
      (List.range maxTasks).map fun i => i := Ring.contents_turn maxTasks_lt
  rw [List.map_id'] at hturn
  rw [CacheSys.entries, taskAllocInit, BitVec.zero_add]
  exact hturn

theorem cacheInv_init : CacheInv taskAllocInit := by
  have hnil : taskAllocInit.live = [] := rfl
  constructor
  · rw [hnil, List.nil_append]
    exact List.Perm.of_eq entries_init
  · rw [hnil, List.map_nil, List.nil_append]
    exact List.Perm.of_eq entries_init
  · exact fun i hi => hi

variable {s s' : CacheSys} {t : ℕ}

namespace CacheInv

theorem length_add (h : CacheInv s) :
    s.live.length + (s.cache.tail + BitVec.ofNat 32 maxTasks - s.cache.head).toNat = maxTasks := by
  have hlen := h.task.length_eq
  rwa [List.length_append, CacheSys.entries, Ring.length_contents, List.length_range] at hlen

/-- As long as a task is free, the next one is at `head`. -/
theorem entries_cons (h : CacheInv s) (hfree : s.live.length ≠ maxTasks) (slots : ℕ → ℕ) :
    s.entries slots = slots (cacheSlot s.cache.head) ::
      Ring.contents maxTasks slots (s.cache.head + 1#32)
        (s.cache.tail + BitVec.ofNat 32 maxTasks) := by
  have hlen := h.length_add
  have hne : s.cache.head ≠ s.cache.tail + BitVec.ofNat 32 maxTasks := by
    intro heq
    rw [← heq, BitVec.sub_self] at hlen
    exact hfree hlen
  have hdrop : Ring.contents maxTasks slots (s.cache.head + 1#32)
      (s.cache.tail + BitVec.ofNat 32 maxTasks) =
      (Ring.contents maxTasks slots s.cache.head
        (s.cache.tail + BitVec.ofNat 32 maxTasks)).drop 1 :=
    Ring.contents_drop maxTasks_dvd (by omega)
  rw [hdrop, CacheSys.entries, cacheSlot]
  exact Ring.contents_cons maxTasks_dvd hne

/-- With all tasks in use, the one at `head` is too. -/
theorem exhausted (h : CacheInv s) (hlive : s.live.length = maxTasks) :
    s.cache.task (cacheSlot s.cache.head) ∈ s.live := by
  have hlen := h.length_add
  have hnil : s.entries s.cache.task = [] := by
    rw [← List.length_eq_zero_iff, CacheSys.entries, Ring.length_contents]
    omega
  have hperm := h.task
  rw [hnil, List.append_nil] at hperm
  exact hperm.mem_iff.mpr (List.mem_range.mpr (h.slot _ (cacheSlot_lt _)))

end CacheInv

/-! ## The calls -/

theorem taskCreate_eq (hge : ¬ s.cache.head.toInt < s.cache.tail.toInt) :
    taskCreate s = .ok (s.cache.task (cacheSlot s.cache.head),
      { cache := { s.cache with head := s.cache.head + 1#32 }
        stackOf := Function.update s.stackOf (s.cache.task (cacheSlot s.cache.head))
          (s.cache.stack (cacheSlot s.cache.head))
        live := s.cache.task (cacheSlot s.cache.head) :: s.live }) := by
  rw [taskCreate, if_neg hge]

/-- A task that is returned while one is free was free, and so was its stack. -/
theorem taskCreate_inv (h : CacheInv s) (hfree : s.live.length ≠ maxTasks)
    (hs : taskCreate s = .ok (t, s')) :
    CacheInv s' ∧ t ∉ s.live ∧ s'.stackOf t ∉ s.live.map s.stackOf := by
  by_cases hge : s.cache.head.toInt < s.cache.tail.toInt
  · rw [taskCreate, if_pos hge] at hs
    cases hs
  · rw [taskCreate_eq hge] at hs
    cases hs
    have htask := h.task
    have hstack := h.stack
    rw [h.entries_cons hfree] at htask hstack
    have hfresh : s.cache.task (cacheSlot s.cache.head) ∉ s.live := by
      have hnodup := htask.nodup_iff.mpr List.nodup_range
      intro hmem
      exact (List.nodup_append.mp hnodup).2.2 _ hmem _ List.mem_cons_self rfl
    have hother : s.live.map (Function.update s.stackOf (s.cache.task (cacheSlot s.cache.head))
        (s.cache.stack (cacheSlot s.cache.head))) = s.live.map s.stackOf := by
      apply List.map_congr_left
      intro u hu
      rw [Function.update_of_ne]
      rintro rfl
      exact hfresh hu
    refine ⟨⟨?_, ?_, h.slot⟩, hfresh, ?_⟩
    · exact List.perm_middle.symm.trans htask
    · simp only [List.map_cons, Function.update_self, hother]
      exact List.perm_middle.symm.trans hstack
    · have hnodup := hstack.nodup_iff.mpr List.nodup_range
      simp only [Function.update_self]
      intro hmem
      exact (List.nodup_append.mp hnodup).2.2 _ hmem _ List.mem_cons_self rfl

/-- What is freed is behind the free entries. -/
theorem CacheInv.entries_push (h : CacheInv s) (ht : t ∈ s.live) (slots : ℕ → ℕ) (x : ℕ) :
    Ring.contents maxTasks (Function.update slots (cacheSlot s.cache.tail) x) s.cache.head
        (s.cache.tail + 1#32 + BitVec.ofNat 32 maxTasks) = s.entries slots ++ [x] := by
  have hlen := h.length_add
  have hpos : 0 < s.live.length := List.length_pos_of_mem ht
  have hslot : (s.cache.tail + BitVec.ofNat 32 maxTasks).toNat % maxTasks =
      cacheSlot s.cache.tail := by
    rw [Ring.slot_add maxTasks_dvd, Nat.add_mod_right, cacheSlot]
  have hroom : (s.cache.tail + BitVec.ofNat 32 maxTasks - s.cache.head).toNat < maxTasks := by
    omega
  rw [← hslot, add_right_comm]
  exact Ring.contents_push maxTasks_dvd maxTasks_lt hroom

/-- What is moved from one list to the end of another is still in one of them. -/
theorem perm_move {α : Type} {x : α} {xs xs' ys : List α} (h : xs.Perm (x :: xs')) :
    (xs' ++ (ys ++ [x])).Perm (xs ++ ys) := by
  rw [← List.append_assoc]
  exact (List.perm_append_singleton x _).trans (h.symm.append_right ys)

theorem taskFree_inv (h : CacheInv s) (ht : t ∈ s.live) : CacheInv (taskFree s t) := by
  have herase := List.perm_cons_erase ht
  constructor
  · rw [CacheSys.entries]
    simp only [taskFree]
    rw [h.entries_push ht]
    exact (perm_move herase).trans h.task
  · rw [CacheSys.entries]
    simp only [taskFree]
    rw [h.entries_push ht]
    exact (perm_move (herase.map s.stackOf)).trans h.stack
  · intro i hi
    by_cases hslot : i = cacheSlot s.cache.tail
    · have hmem : t ∈ List.range maxTasks :=
        h.task.mem_iff.mp (List.mem_append_left _ ht)
      simp only [taskFree, hslot, Function.update_self]
      exact List.mem_range.mp hmem
    · simp only [taskFree, Function.update_of_ne hslot]
      exact h.slot i hi

theorem cacheStep_inv {e : CacheEvent} (h : CacheInv s) (hg : s.TestRight e)
    (hs : cacheStep s e = .ok s') : CacheInv s' := by
  cases e with
  | create =>
      rw [cacheStep, bind_eq_ok] at hs
      obtain ⟨r, hr, hs⟩ := hs
      cases hs
      have hge : ¬ s.cache.head.toInt < s.cache.tail.toInt := by
        intro hlt
        rw [taskCreate, if_pos hlt] at hr
        cases hr
      exact (taskCreate_inv h (fun hlive => hge (hg.mpr hlive)) hr).1
  | free t =>
      cases hs
      split
      · rename_i ht
        exact taskFree_inv h ht
      · exact h

/-- With the test right, what is returned is free; and nothing else makes it free. -/
theorem createOk_iff {e : CacheEvent} (h : CacheInv s) : s.CreateOk e ↔ s.TestRight e := by
  cases e with
  | free t => exact Iff.rfl
  | create =>
      rw [CacheSys.CreateOk, CacheSys.TestRight]
      by_cases hlt : s.cache.head.toInt < s.cache.tail.toInt
      · rw [taskCreate, if_pos hlt]
        exact ⟨fun hlive => ⟨fun _ => hlive, fun _ => hlt⟩, fun hg => hg.mp hlt⟩
      · have hs := taskCreate_eq hlt
        rw [hs]
        constructor
        · intro hfresh
          exact ⟨fun h' => absurd h' hlt, fun hlive => absurd (h.exhausted hlive) hfresh.1⟩
        · intro hg
          exact (taskCreate_inv h (fun hlive => hlt (hg.mpr hlive)) hs).2

/-- **The task cache.**  No call of `__task_create` returns a task or a stack that is in use, or
stops while one is free, exactly in the runs in which the test of the counters fails when all
tasks are in use and only then. -/
theorem task_cache_iff (es : List CacheEvent) :
    Along cacheStep CacheSys.CreateOk taskAllocInit es ↔
      Along cacheStep CacheSys.TestRight taskAllocInit es := by
  constructor
  · exact Along.imp (fun _ _ _ h hg hs => cacheStep_inv h ((createOk_iff h).mp hg) hs)
      (fun _ _ h hg => (createOk_iff h).mp hg) cacheInv_init
  · exact Along.imp (fun _ _ _ h hg hs => cacheStep_inv h hg hs)
      (fun _ _ h hg => (createOk_iff h).mpr hg) cacheInv_init

/-! ## All tasks in use -/

theorem create_step (hge : ¬ s.cache.head.toInt < s.cache.tail.toInt) :
    ∃ t s', taskCreate s = .ok (t, s') ∧ cacheStep s .create = .ok s' ∧
      s'.live = t :: s.live ∧ s'.cache.head = s.cache.head + 1#32 ∧
      s'.cache.tail = s.cache.tail := by
  have hs := taskCreate_eq hge
  refine ⟨_, _, hs, ?_, rfl, rfl, rfl⟩
  rw [cacheStep, hs]
  rfl

theorem creates : ∀ n ≤ maxTasks, ∃ s,
    exec cacheStep taskAllocInit (List.replicate n .create) = .ok s ∧ CacheInv s ∧
      s.live.length = n ∧ s.cache.head = BitVec.ofNat 32 n ∧ s.cache.tail = 0#32 := by
  intro n
  induction n with
  | zero =>
      intro _
      exact ⟨taskAllocInit, rfl, cacheInv_init, rfl, rfl, rfl⟩
  | succ n ih =>
      intro hn
      obtain ⟨s, hs, h, hlive, hhead, htail⟩ := ih (by omega)
      have hge : ¬ s.cache.head.toInt < s.cache.tail.toInt := by
        have hmax : maxTasks = 32768 := rfl
        have hmod : n % 2 ^ 32 = n := Nat.mod_eq_of_lt (by omega)
        rw [hhead, htail, BitVec.toInt_eq_toNat_of_lt, BitVec.toNat_ofNat, hmod]
        · exact not_lt.mpr (Int.natCast_nonneg n)
        · rw [BitVec.toNat_ofNat, hmod]
          omega
      obtain ⟨t, s', hcreate, hstep, hlive', hhead', htail'⟩ := create_step hge
      refine ⟨s', ?_, ?_, ?_, ?_, ?_⟩
      · rw [List.replicate_succ']
        exact exec_append_ok.mpr ⟨s, hs, exec_cons_ok.mpr ⟨s', hstep, rfl⟩⟩
      · exact (taskCreate_inv h (by omega) hcreate).1
      · rw [hlive', List.length_cons, hlive]
      · rw [hhead', hhead, BitVec.ofNat_add]
      · rw [htail', htail]

/-- The next call after `MAX_TASKS_PER_APP` of them returns a task that is in use. -/
theorem live_task_returned : ∃ s t s',
    exec cacheStep taskAllocInit (List.replicate 32768 .create) = .ok s ∧
    taskCreate s = .ok (t, s') ∧ t ∈ s.live := by
  obtain ⟨s, hs, h, hlive, hhead, htail⟩ := creates maxTasks le_rfl
  have hge : ¬ s.cache.head.toInt < s.cache.tail.toInt := by
    rw [hhead, htail]
    decide
  exact ⟨s, _, _, hs, taskCreate_eq hge, h.exhausted hlive⟩

/-! ## A counter past its sign -/

theorem create_free : ∀ n, ∃ es s,
    exec cacheStep taskAllocInit es = .ok s ∧ s.live = [] ∧
      s.cache.head = BitVec.ofNat 32 n ∧ s.cache.tail = BitVec.ofNat 32 n := by
  intro n
  induction n with
  | zero => exact ⟨[], taskAllocInit, rfl, rfl, rfl, rfl⟩
  | succ n ih =>
      obtain ⟨es, s, hs, hlive, hhead, htail⟩ := ih
      have hge : ¬ s.cache.head.toInt < s.cache.tail.toInt := by
        rw [hhead, htail]
        exact lt_irrefl _
      obtain ⟨t, s', -, hstep, hlive', hhead', htail'⟩ := create_step hge
      have hmem : t ∈ s'.live := by
        rw [hlive']
        exact List.mem_cons_self
      have hfree : cacheStep s' (.free t) = .ok (taskFree s' t) := by
        rw [cacheStep, if_pos hmem]
      refine ⟨es ++ [.create, .free t], taskFree s' t, ?_, ?_, ?_, ?_⟩
      · refine exec_append_ok.mpr ⟨s, hs, exec_cons_ok.mpr ⟨s', hstep, ?_⟩⟩
        exact exec_cons_ok.mpr ⟨taskFree s' t, hfree, rfl⟩
      · simp [taskFree, hlive', hlive]
      · rw [BitVec.ofNat_add, ← hhead]
        exact hhead'
      · simp only [taskFree]
        rw [htail', htail, BitVec.ofNat_add]

/-- With `head` past its sign and `tail` not, the test fails although one task is in use. -/
theorem wrapped_head_stops : ∃ es s,
    exec cacheStep taskAllocInit es = .ok s ∧ s.live.length = 1 ∧
      taskCreate s = .error .bugOn := by
  obtain ⟨es, s, hs, hlive, hhead, htail⟩ := create_free (2 ^ 31 - 1)
  have hge : ¬ s.cache.head.toInt < s.cache.tail.toInt := by
    rw [hhead, htail]
    exact lt_irrefl _
  obtain ⟨t, s', -, hstep, hlive', hhead', htail'⟩ := create_step hge
  refine ⟨es ++ [.create], s', ?_, ?_, ?_⟩
  · exact exec_append_ok.mpr ⟨s, hs, exec_cons_ok.mpr ⟨s', hstep, rfl⟩⟩
  · rw [hlive', hlive]
    rfl
  · rw [taskCreate, if_pos]
    rw [hhead', htail', hhead, htail]
    decide

end Skyloft
