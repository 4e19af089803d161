import Skyloft.Sched.Timeline

/-!
# The timelines of a run

Every call of EEVDF makes one call at most on the tree of one runqueue.  Followed along a run, the
memory of each CPU holds the tree of its runqueue.

* `FairPolicy.treeCall` — the call on a tree that a call of `sched.c` leads to.
* `memStep`, `memExec` — the memories along a run.
* `timelines_exec` — they hold the trees.
-/

namespace Skyloft

open Run RbMem

section

variable {ρ τ : Type} (P : FairPolicy ρ τ) (node : ℕ → NodePtr)

/-- The runqueue and the call of `rbtree.h` on its tree that a call of the policy makes, if any:
`__enqueue_task` from `spawn`, `yield` and `wakeup`, and `__dequeue_task` from `sched_pick_next`. -/
def FairPolicy.treeCall (g g' : SchedSys ρ τ) : SchedEvent → Option (ℕ × RbOp)
  | .spawn t c _ _ =>
      if g.live t = true ∨ maxTasks ≤ t then none else some (c, .add (node t))
  | .pick c _ => if g.cpu c = none then (g'.cpu c).map fun t => (c, .erase (node t)) else none
  | .yield c _ => (g.cpu c).map fun t => (c, .add (node t))
  | .wakeup t _ =>
      if g.live t = true ∧ P.onRq (g.task t) = false then
        some (P.lastRun (g.task t), .add (node t))
      else none
  | .block _ _ => none
  | .finish _ _ => none
  | .preempt _ _ => none

variable {P node} {g g' : SchedSys ρ τ} {e : SchedEvent}

/-- What leaves everything as it was makes no call. -/
theorem FairPolicy.Lawful.treeCall_idle (hP : P.Lawful) (h : SchedInv P g)
    (hstep : schedStep P g e = .ok g) : P.treeCall node g g e = none := by
  cases e with
  | spawn t c now₁ now₂ =>
      rw [treeCall]
      refine ite_eq_left_iff.mpr fun hl => ?_
      simp only [schedStep, if_neg hl] at hstep
      obtain ⟨l, -, hg⟩ := bind_eq_ok.mp hstep
      have hlive := congrArg (fun s => s.live t) (Except.ok.inj hg)
      simp [SchedSys.put, SchedSys.create] at hlive
      exact absurd (.inl hlive) hl
  | pick c now =>
      rw [treeCall]
      refine ite_eq_right_iff.mpr fun hc => ?_
      rw [hc]
      rfl
  | yield c now =>
      rw [treeCall, Option.map_eq_none_iff]
      by_contra hc
      obtain ⟨t, ht⟩ := Option.ne_none_iff_exists'.mp hc
      simp only [schedStep, ht] at hstep
      obtain ⟨l, -, hg⟩ := bind_eq_ok.mp hstep
      have hcpu := congrArg (fun s => s.cpu c) (Except.ok.inj hg)
      simp [SchedSys.setCpu] at hcpu
      exact hc hcpu.symm
  | wakeup t now =>
      rw [treeCall]
      refine ite_eq_right_iff.mpr fun hlo => ?_
      obtain ⟨hl, hoff⟩ := hlo
      simp only [schedStep, if_pos hl] at hstep
      obtain ⟨l, hop, he⟩ := hP.wakeup now (h.rq (P.lastRun (g.task t))) hoff
      rw [hop] at hstep
      have htask := congrArg (fun s => P.onRq (s.task t)) (Except.ok.inj hstep)
      have hon : P.onRq (g.task t) = true := by
        rw [← htask]
        exact he.onRq
      rw [hoff] at hon
      cases hon
  | block => rfl
  | finish => rfl
  | preempt => rfl

end

/-! ## EEVDF -/

/-- The memory of each CPU. -/
abbrev Mems := ℕ → RbMem (BitVec 64)

/-- The call on a tree that a step makes.  Nothing that the tree compares or keeps is written
between this call and the end of the step, so that it is read there. -/
def memStep (B : Balancer ℕ) (N : TaskNodes) (fuel : ℕ) (g g' : SchedSys EevdfRq EevdfTask)
    (e : SchedEvent) (mem : Mems) : Option Mems :=
  match (eevdf B).treeCall N.node g g' e with
  | none => some mem
  | some (c, op) =>
      (rbStep (minValue (N.vruntime g'.task)) (N.deadlineLess g'.task) fuel (mem c) op).map
        (Function.update mem c)

/-- The memories along a run. -/
def memExec (B : Balancer ℕ) (N : TaskNodes) (fuel : ℕ) :
    SchedSys EevdfRq EevdfTask → Mems → List SchedEvent → Option Mems
  | _, mem, [] => some mem
  | g, mem, e :: es =>
      match schedStep (eevdf B) g e with
      | .error _ => none
      | .ok g' => (memStep B N fuel g g' e mem).bind fun mem' => memExec B N fuel g' mem' es

/-- The virtual times and the deadlines are near in every tree. -/
def TimesNear (g : SchedSys EevdfRq EevdfTask) : Prop := ∀ c, ∃ a d, EevdfSt.TreeNear (g.onCpu c) a d

/-- The memory of each CPU holds the tree of its runqueue. -/
def Timelines (N : TaskNodes) (g : SchedSys EevdfRq EevdfTask) (mem : Mems) : Prop :=
  ∀ c, Timeline N (g.onCpu c) (mem c)

section

variable {B : Balancer ℕ} {N : TaskNodes} {g g' : SchedSys EevdfRq EevdfTask} {mem : Mems}
  {c fuel : ℕ}

theorem timelines_start (N : TaskNodes) (hmem : ∀ c, (mem c).Empty) :
    Timelines N (.start (eevdf B)) mem := fun c =>
  ⟨fun _ ht => absurd ht List.not_mem_nil, 0, 0, fun _ ht => absurd ht List.not_mem_nil,
    (hmem c).sorted⟩

/-- The other timelines are not touched. -/
theorem Timelines.update {q : EevdfRq} {m : RbMem (BitVec 64)} (h : Timelines N g mem)
    (hkept : TreesKept g g') (hrq : g'.rq = Function.update g.rq c q)
    (hc : Timeline N (g'.onCpu c) m) : Timelines N g' (Function.update mem c m) := by
  intro d
  by_cases hd : d = c
  · rw [hd, Function.update_self]
    exact hc
  · rw [Function.update_of_ne hd]
    have hother : g'.rq d = g.rq d := by rw [hrq, Function.update_of_ne hd]
    refine (h d).same ?_ fun t ht => hkept d t ht
    rw [SchedSys.onCpu, SchedSys.onCpu, hother]

/-- A call that makes none on a tree. -/
theorem Timelines.same {q : EevdfRq} (h : Timelines N g mem) (hkept : TreesKept g g')
    (hrq : g'.rq = Function.update g.rq c q) (htree : q.tree.inorder = (g.rq c).tree.inorder) :
    Timelines N g' mem := by
  have hnew : Timeline N (g'.onCpu c) (mem c) := by
    refine (h c).same ?_ fun t ht => hkept c t ht
    rw [SchedSys.onCpu, hrq, Function.update_self]
    exact htree
  simpa using h.update hkept hrq hnew

/-- Every tree has fewer levels than `fuel`. -/
theorem EevdfInv.few_levels (h : EevdfInv B g) (hfuel : 2 * Nat.log 2 (maxTasks + 1) < fuel) (c : ℕ) :
    2 * Nat.log 2 ((g.onCpu c).rq.tree.inorder.length + 1) < fuel := by
  have hle : (g.onCpu c).rq.tree.inorder.length ≤ maxTasks := by
    refine le_trans ?_ (h.inv.rq c).length_le
    rw [FairPolicy.members, List.length_append]
    exact Nat.le_add_left ..
  have hlog : Nat.log 2 ((g.onCpu c).rq.tree.inorder.length + 1) ≤ Nat.log 2 (maxTasks + 1) :=
    Nat.log_mono_right (Nat.succ_le_succ hle)
  omega

/-- A call that links task `t` into the tree of CPU `c`. -/
theorem Timelines.added {l' : EevdfSt} {t : ℕ} {e : SchedEvent} (h : Timelines N g mem)
    (hinv : EevdfInv B g) (hfuel : 2 * Nat.log 2 (maxTasks + 1) < fuel) (hkept : TreesKept g g')
    (hcall : (eevdf B).treeCall N.node g g' e = some (c, .add (N.node t)))
    (hrq : g'.rq = Function.update g.rq c l'.rq) (htask : g'.task = l'.task)
    (ha : EevdfSt.Added B t (g.onCpu c) l') (ht : t ∉ (g.rq c).tree.inorder)
    (hpool : t < maxTasks) (hnear : TimesNear g') :
    ∃ mem', memStep B N fuel g g' e mem = some mem' ∧ Timelines N g' mem' := by
  have hon := SchedSys.onCpu_of_update hrq htask
  obtain ⟨m', hm', hm⟩ := (h c).added (hon ▸ ha) ht hpool (fun t ht => hkept c t ht) (hnear c)
    (hinv.few_levels hfuel c)
  refine ⟨_, ?_, h.update hkept hrq hm⟩
  rw [memStep, hcall]
  exact congrArg (Option.map (Function.update mem c)) hm'

/-- A call that takes task `t` out of the tree of CPU `c`. -/
theorem Timelines.erased {l' : EevdfSt} {t : ℕ} {e : SchedEvent} (h : Timelines N g mem)
    (hinv : EevdfInv B g) (hfuel : 2 * Nat.log 2 (maxTasks + 1) < fuel) (hkept : TreesKept g g')
    (hcall : (eevdf B).treeCall N.node g g' e = some (c, .erase (N.node t)))
    (hrq : g'.rq = Function.update g.rq c l'.rq) (htask : g'.task = l'.task)
    (htree : l'.rq.tree.inorder = (g.rq c).tree.inorder.erase t) (ht : t ∈ (g.rq c).tree.inorder) :
    ∃ mem', memStep B N fuel g g' e mem = some mem' ∧ Timelines N g' mem' := by
  have hon := SchedSys.onCpu_of_update hrq htask
  obtain ⟨m', hm', hm⟩ := (h c).erased (hon ▸ htree) ht (fun t ht => hkept c t ht)
    (hinv.few_levels hfuel c)
  refine ⟨_, ?_, h.update hkept hrq hm⟩
  rw [memStep, hcall]
  exact congrArg (Option.map (Function.update mem c)) hm'

/-- **A step.** -/
theorem Timelines.step {e : SchedEvent} (h : Timelines N g mem) (hinv : EevdfInv B g)
    (hfuel : 2 * Nat.log 2 (maxTasks + 1) < fuel) (hstep : schedStep (eevdf B) g e = .ok g')
    (hcall : (eevdf B).Call g e g') (hnear : TimesNear g') :
    ∃ mem', memStep B N fuel g g' e mem = some mem' ∧ Timelines N g' mem' := by
  obtain ⟨-, hkept⟩ := hinv.step hcall
  have hnone : (eevdf B).treeCall N.node g g' e = none → Timelines N g' mem →
      ∃ mem', memStep B N fuel g g' e mem = some mem' ∧ Timelines N g' mem' :=
    fun hnone h' => ⟨mem, by rw [memStep, hnone], h'⟩
  cases hcall with
  | idle => exact hnone ((eevdf_lawful B).treeCall_idle hinv.inv hstep) h
  | @spawn t c now₁ now₂ l' hl ht hop he =>
      have hnew := hinv.create hl ht
      have hoff : ((g.create (eevdf B) t).task t).onRq = false := by
        simp [SchedSys.create, eevdf, eevdfInitTask]
      have hout : t ∉ (g.rq c).tree.inorder := hnew.off_not_mem hoff c
      have ha : EevdfSt.Added B t (g.onCpu c) l' := by
        rw [← Except.ok.inj hop]
        exact EevdfSt.added_spawn (s := (g.create (eevdf B) t).onCpu c) hoff
          ((hnew.inv.rq c).curr_ne_of_off hoff) now₁ now₂
      refine h.added hinv hfuel hkept ?_ rfl rfl ha hout ht hnear
      exact if_neg (by simp [hl, ht])
  | pickNone hc _ hk =>
      refine hnone ?_ (h.same hkept rfl hk.tree)
      rw [FairPolicy.treeCall]
      refine ite_eq_right_iff.mpr fun hcpu => ?_
      rw [SchedSys.put, hcpu]
      rfl
  | @pick c now t l' hc hop hk =>
      have hcpu : g.cpu c = none := (hinv.inv.cpu c).trans hc
      rcases EevdfSt.pickNext_cases hc hop with ⟨ht, -⟩ | ⟨t', ht, hmem, rfl⟩
      · cases ht
      · cases ht
        have hon : ((g.onCpu c).task t).onRq = true :=
          (hinv.inv.rq c).onRq t (FairPolicy.mem_members.mpr (.inr hmem))
        have htree : (EevdfSt.setNextTask B (g.onCpu c) c t now).rq.tree.inorder =
            (g.rq c).tree.inorder.erase t := by
          simp only [EevdfSt.setNextTask, if_pos hon]
          exact B.inorder_erase _ _
        refine h.erased hinv hfuel hkept ?_ rfl rfl htree hmem
        simp [FairPolicy.treeCall, hcpu, SchedSys.setCpu]
  | @yield c now t l' hc hop hk =>
      have ha : EevdfSt.Added B t (g.onCpu c) l' := by
        rw [Except.ok.inj (hop.symm.trans
          (EevdfSt.yield_eq hc ((hinv.inv.rq c).curr_on hc) now))]
        exact EevdfSt.added_requeue
      refine h.added hinv hfuel hkept ?_ rfl rfl ha (hinv.curr_not_mem hc c)
        ((hinv.inv.rq c).pool t (FairPolicy.mem_members.mpr (.inl hc))) hnear
      rw [FairPolicy.treeCall, (hinv.inv.cpu c).trans hc]
      rfl
  | block _ _ hk => exact hnone rfl (h.same hkept rfl hk.tree)
  | @wakeup t now l' hl ht hop he =>
      have ha : EevdfSt.Added B t (g.onCpu ((eevdf B).lastRun (g.task t))) l' := by
        rw [← Except.ok.inj hop]
        exact EevdfSt.added_wakeup ht ((hinv.inv.rq _).curr_ne_of_off ht)
      refine h.added hinv hfuel hkept ?_ rfl rfl ha (hinv.off_not_mem ht _) (hinv.inv.pool t hl) hnear
      exact if_pos ⟨hl, ht⟩
  | finish _ _ hk => exact hnone rfl (h.same hkept rfl hk.tree)
  | preempt _ _ hk => exact hnone rfl (h.same hkept rfl hk.tree)

/-- **The memories of a run** hold the trees, if the times stay near. -/
theorem timelines_exec (hfuel : 2 * Nat.log 2 (maxTasks + 1) < fuel) :
    ∀ {es : List SchedEvent} {g g' : SchedSys EevdfRq EevdfTask} {mem : Mems}, EevdfInv B g →
      Timelines N g mem → Throughout (schedStep (eevdf B)) TimesNear g es →
      exec (schedStep (eevdf B)) g es = .ok g' →
      ∃ mem', memExec B N fuel g mem es = some mem' ∧ Timelines N g' mem' := by
  intro es
  induction es with
  | nil =>
      intro g g' mem _ h _ hexec
      cases hexec
      exact ⟨mem, rfl, h⟩
  | cons e es ih =>
      intro g g' mem hinv h hnear hexec
      obtain ⟨g₁, hstep, hexec⟩ := exec_cons_ok.mp hexec
      obtain ⟨g₂, hstep', hcall⟩ := (eevdf_lawful B).step hinv.inv e
      cases hstep.symm.trans hstep'
      have hnear₁ := hnear.2 g₁ hstep
      have hhead : TimesNear g₁ := by
        cases es with
        | nil => exact hnear₁
        | cons _ _ => exact hnear₁.1
      obtain ⟨mem₁, hmem₁, h₁⟩ := h.step hinv hfuel hstep hcall hhead
      obtain ⟨mem', hmem', h'⟩ := ih (hinv.step hcall).1 h₁ hnear₁ hexec
      refine ⟨mem', ?_, h'⟩
      rw [memExec, hstep]
      simp only [hmem₁, Option.bind_some, hmem']

end

end Skyloft
