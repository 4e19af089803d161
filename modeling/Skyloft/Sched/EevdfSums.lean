import Mathlib.Tactic.Ring
import Skyloft.Sched.Eevdf

/-!
# The sums of EEVDF

`avg_vruntime` and `avg_load` are never computed from the tree: they are moved along whenever
a task joins or leaves it, and `avg_vruntime` is rebased whenever `min_vruntime` moves.  They
stay the sums over the tree because the virtual time of a task in the tree stays as it is; the
task that runs, whose virtual time grows, is outside.

* `sum_rebase` — what moving the base does to a weighted sum.
* `EevdfSums` — the sums of one runqueue, with a lemma for each function that touches them.
* `eevdf_accounting` — the sums in every run.
-/

namespace Skyloft

open Run

/-- The weighted sum relative to another base. -/
theorem sum_rebase {ι R : Type} [CommRing R] (v w : ι → R) (m m' : R) (ts : List ι) :
    (ts.map fun t => (v t - m') * w t).sum =
      (ts.map fun t => (v t - m) * w t).sum - (ts.map w).sum * (m' - m) := by
  induction ts with
  | nil => simp
  | cons t ts ih =>
      simp only [List.map_cons, List.sum_cons]
      rw [ih]
      ring

/-! ## One runqueue -/

/-- The sums of a runqueue are those over its tree, and `min_vruntime` has only moved
forward. -/
structure EevdfSums (s : EevdfSt) : Prop where
  avgVruntime : s.rq.avgVruntime = (s.rq.tree.inorder.map fun t =>
    ((s.task t).vruntime - s.rq.minVruntime) * scaleLoadDown (s.task t).load).sum
  avgLoad : s.rq.avgLoad = (s.rq.tree.inorder.map fun t => scaleLoadDown (s.task t).load).sum
  forward : Forward s.rq.mins s.rq.minVruntime

namespace EevdfSums

variable {B : Balancer ℕ} {s s' : EevdfSt} {t : ℕ} {now : BitVec 64}

/-- The sums read two fields of the tasks in the tree. -/
theorem of_same (h : EevdfSums s) (htree : s'.rq.tree = s.rq.tree)
    (havg : s'.rq.avgVruntime = s.rq.avgVruntime) (hload : s'.rq.avgLoad = s.rq.avgLoad)
    (hmin : s'.rq.minVruntime = s.rq.minVruntime) (hmins : s'.rq.mins = s.rq.mins)
    (htask : ∀ u ∈ s.rq.tree.inorder, (s'.task u).vruntime = (s.task u).vruntime ∧
      (s'.task u).load = (s.task u).load) : EevdfSums s' := by
  constructor
  · rw [havg, h.avgVruntime, htree, hmin]
    apply congrArg List.sum
    apply List.map_congr_left
    intro u hu
    rw [(htask u hu).1, (htask u hu).2]
  · rw [hload, h.avgLoad, htree]
    apply congrArg List.sum
    apply List.map_congr_left
    intro u hu
    rw [(htask u hu).2]
  · rw [hmins, hmin]
    exact h.forward

/-- A store to a task that is not in the tree. -/
theorem setTask (h : EevdfSums s) (ht : t ∉ s.rq.tree.inorder) (x : EevdfTask) :
    EevdfSums (s.setTask t x) := by
  refine h.of_same rfl rfl rfl rfl rfl ?_
  intro u hu
  have hut : u ≠ t := by
    intro heq
    exact ht (heq ▸ hu)
  simp [EevdfSt.setTask, Function.update_of_ne hut]

theorem setOnRq (h : EevdfSums s) (b : Bool) : EevdfSums (s.setOnRq t b) := by
  refine h.of_same rfl rfl rfl rfl rfl ?_
  intro u _
  by_cases hut : u = t
  · simp [EevdfSt.setOnRq, EevdfSt.setTask, hut]
  · simp [EevdfSt.setOnRq, EevdfSt.setTask, Function.update_of_ne hut]

theorem setCurr (h : EevdfSums s) (r : Option ℕ) : EevdfSums (s.setCurr r) :=
  h.of_same rfl rfl rfl rfl rfl fun _ _ => ⟨rfl, rfl⟩

theorem enqueueUpdate (h : EevdfSums s) : EevdfSums (s.enqueueUpdate t) :=
  h.of_same rfl rfl rfl rfl rfl fun _ _ => ⟨rfl, rfl⟩

theorem dequeueUpdate (h : EevdfSums s) : EevdfSums (s.dequeueUpdate t) :=
  h.of_same rfl rfl rfl rfl rfl fun _ _ => ⟨rfl, rfl⟩

/-- `avg_vruntime_update` rebases the sum to the new `min_vruntime`. -/
theorem setMin (h : EevdfSums s) (v : BitVec 64) : EevdfSums (s.setMin v) := by
  rw [EevdfSt.setMin]
  split
  · rename_i hpos
    constructor
    · rw [sum_rebase _ _ s.rq.minVruntime v, ← h.avgVruntime, ← h.avgLoad]
    · exact h.avgLoad
    · exact h.forward.append (le_of_lt hpos)
  · exact ⟨h.avgVruntime, h.avgLoad, h.forward.append (.refl _)⟩

theorem updateMinVruntime (h : EevdfSums s) : EevdfSums s.updateMinVruntime := h.setMin _

/-- `avg_vruntime_add`, and the task joins the tree. -/
theorem enqueueTree (h : EevdfSums s) : EevdfSums (s.enqueueTree B t) := by
  have hp : (s.enqueueTree B t).rq.tree.inorder.Perm (t :: s.rq.tree.inorder) := B.perm_add
  constructor
  · rw [(hp.map _).sum_eq, List.map_cons, List.sum_cons, add_comm]
    simp only [EevdfSt.enqueueTree, EevdfSt.avgVruntimeAdd]
    rw [← h.avgVruntime]
    rfl
  · rw [(hp.map _).sum_eq, List.map_cons, List.sum_cons, add_comm]
    simp only [EevdfSt.enqueueTree, EevdfSt.avgVruntimeAdd]
    rw [← h.avgLoad]
    rfl
  · exact h.forward

/-- `avg_vruntime_sub`, and the task leaves the tree. -/
theorem dequeueTree (h : EevdfSums s) (ht : t ∈ s.rq.tree.inorder) :
    EevdfSums (s.dequeueTree B t) := by
  have hp : s.rq.tree.inorder.Perm (t :: (s.dequeueTree B t).rq.tree.inorder) := B.perm_erase ht
  have havg := h.avgVruntime
  have hload := h.avgLoad
  rw [(hp.map _).sum_eq, List.map_cons, List.sum_cons] at havg hload
  constructor
  · simp only [EevdfSt.dequeueTree, EevdfSt.avgVruntimeSub] at havg ⊢
    rw [havg]
    exact add_sub_cancel_left _ _
  · simp only [EevdfSt.dequeueTree, EevdfSt.avgVruntimeSub] at hload ⊢
    rw [hload]
    exact add_sub_cancel_left _ _
  · exact h.forward

theorem updateDeadline (h : EevdfSums s) (ht : t ∉ s.rq.tree.inorder) :
    EevdfSums (s.updateDeadline t).2 := by
  rw [EevdfSt.updateDeadline]
  split
  · exact h
  · exact h.setTask ht _

/-- The virtual time of the task that runs is in no sum. -/
theorem updateCurr (h : EevdfSums s) (hc : ∀ u, s.rq.curr = some u → u ∉ s.rq.tree.inorder)
    (now : BitVec 64) : EevdfSums (s.updateCurr now).2 := by
  cases hcurr : s.rq.curr with
  | none =>
      simp only [EevdfSt.updateCurr, hcurr]
      exact h
  | some t =>
      simp only [EevdfSt.updateCurr, hcurr]
      split
      · exact h
      · apply updateMinVruntime
        refine updateDeadline ?_ (hc t hcurr)
        exact h.setTask (hc t hcurr) _

theorem placeTask (h : EevdfSums s) (ht : t ∉ s.rq.tree.inorder) (init : Bool) :
    EevdfSums (s.placeTask t init) := h.setTask ht _

theorem forkTask (h : EevdfSums s) (hc : ∀ u, s.rq.curr = some u → u ∉ s.rq.tree.inorder)
    (ht : t ∉ s.rq.tree.inorder) (now : BitVec 64) : EevdfSums (s.forkTask t now) := by
  have hq := EevdfSt.quiet_updateCurr (B := .plain) (s := s) now
  have htree : (s.updateCurr now).2.rq.tree.inorder = s.rq.tree.inorder := hq.tree
  refine (h.updateCurr hc now).placeTask ?_ true
  rwa [htree]

/-- A task that is in no tree joins this one. -/
theorem enqueueTask (h : EevdfSums s) (hc : ∀ u, s.rq.curr = some u → u ∉ s.rq.tree.inorder)
    (ht : t ∉ s.rq.tree.inorder) (hcurr : s.rq.curr ≠ some t) (now : BitVec 64) :
    EevdfSums (s.enqueueTask B t now) := by
  have hq := EevdfSt.quiet_updateCurr (B := B) (s := s) now
  have htree : (s.updateCurr now).2.rq.tree.inorder = s.rq.tree.inorder := hq.tree
  have hplace := (h.updateCurr hc now).placeTask (t := t) (by rwa [htree]) false
  rw [EevdfSt.enqueueTask_eq hcurr]
  exact hplace.enqueueUpdate.enqueueTree.setOnRq true

theorem wakeup (h : EevdfSums s) (hc : ∀ u, s.rq.curr = some u → u ∉ s.rq.tree.inorder)
    (ht : t ∉ s.rq.tree.inorder) (hcurr : s.rq.curr ≠ some t) (now : BitVec 64) :
    EevdfSums (s.wakeup B t now) := by
  rw [EevdfSt.wakeup]
  split
  · exact h
  · exact h.enqueueTask hc ht hcurr now

theorem spawn (h : EevdfSums s) (hc : ∀ u, s.rq.curr = some u → u ∉ s.rq.tree.inorder)
    (ht : t ∉ s.rq.tree.inorder) (hcurr : s.rq.curr ≠ some t) (now₁ now₂ : BitVec 64) :
    EevdfSums (s.spawn B t now₁ now₂) := by
  have hq := EevdfSt.quiet_forkTask (B := B) (s := s) (t := t) now₁
  have htree : (s.forkTask t now₁).rq.tree.inorder = s.rq.tree.inorder := hq.tree
  have hcurr' : (s.forkTask t now₁).rq.curr = s.rq.curr := hq.curr
  have hfork := h.forkTask hc ht now₁
  rw [EevdfSt.spawn, EevdfSt.putTask]
  split
  · exact hfork
  · refine hfork.enqueueTask ?_ ?_ ?_ now₂
    · rw [htree, hcurr']
      exact hc
    · rwa [htree]
    · rwa [hcurr']

/-- The task that runs leaves the runqueue. -/
theorem dequeueTask (h : EevdfSums s) (hc : ∀ u, s.rq.curr = some u → u ∉ s.rq.tree.inorder)
    (hcurr : s.rq.curr = some t) (now : BitVec 64) : EevdfSums (s.dequeueTask B t now) := by
  have hq := EevdfSt.quiet_updateCurr (B := B) (s := s) now
  have htree : (s.updateCurr now).2.rq.tree.inorder = s.rq.tree.inorder := hq.tree
  have hlag : EevdfSums ((s.updateCurr now).2.updateTaskLag t) :=
    (h.updateCurr hc now).setTask (by rw [htree]; exact hc t hcurr) _
  rw [EevdfSt.dequeueTask_eq hcurr]
  exact (hlag.setOnRq false).dequeueUpdate.updateMinVruntime

/-- The task that runs goes back to the tree. -/
theorem requeue (h : EevdfSums s) (hc : ∀ u, s.rq.curr = some u → u ∉ s.rq.tree.inorder)
    (hcurr : s.rq.curr = some t) (now : BitVec 64) : EevdfSums (s.requeue B t now) := by
  have hq := EevdfSt.quiet_updateCurr (B := B) (s := s) now
  have htree : (s.updateCurr now).2.rq.tree.inorder = s.rq.tree.inorder := hq.tree
  rw [EevdfSt.requeue]
  apply enqueueTree
  exact (h.updateCurr hc now).setTask (by rw [htree]; exact hc t hcurr) _

/-- A task of the tree is picked. -/
theorem setNextTask {c : ℕ} (h : EevdfSums s) (ht : t ∈ s.rq.tree.inorder)
    (hnodup : s.rq.tree.inorder.Nodup) (hon : (s.task t).onRq = true) :
    EevdfSums (s.setNextTask B c t now) := by
  have hp : s.rq.tree.inorder.Perm (t :: (s.dequeueTree B t).rq.tree.inorder) := B.perm_erase ht
  have hout : t ∉ (s.dequeueTree B t).rq.tree.inorder := by
    have hnd := hp.nodup_iff.mp hnodup
    rw [List.nodup_cons] at hnd
    exact hnd.1
  simp only [EevdfSt.setNextTask, if_pos hon]
  apply setCurr
  apply setTask
  · exact (h.dequeueTree ht).setTask hout _
  · exact hout

end EevdfSums

/-- What `sched_pick_next` returns when nothing runs. -/
theorem EevdfSt.pickNext_cases {B : Balancer ℕ} {s s' : EevdfSt} {c : ℕ} {now : BitVec 64}
    {r : Option ℕ} (hc : s.rq.curr = none) (h : EevdfSt.pickNext B c now s = .ok (r, s')) :
    (r = none ∧ s' = s) ∨
      ∃ t, r = some t ∧ t ∈ s.rq.tree.inorder ∧ s' = s.setNextTask B c t now := by
  have hidle : s.currOnRq = none := by simp [EevdfSt.currOnRq, hc]
  simp only [EevdfSt.pickNext, hidle, Option.isSome_none, Bool.false_eq_true, if_false] at h
  split at h
  · cases h
    exact .inl ⟨rfl, rfl⟩
  · cases hp : s.pickEevdf with
    | none =>
        rw [hp] at h
        cases h
        exact .inl ⟨rfl, rfl⟩
    | some t =>
        rw [hp] at h
        cases h
        exact .inr ⟨t, rfl, EevdfSt.pickEevdf_mem hc hp, rfl⟩

/-! ## Whole runs -/

/-- The tasks in the trees keep their virtual times and deadlines. -/
def TreesKept (g g' : SchedSys EevdfRq EevdfTask) : Prop :=
  ∀ c, ∀ t ∈ (g.rq c).tree.inorder,
    (g'.task t).vruntime = (g.task t).vruntime ∧ (g'.task t).deadline = (g.task t).deadline

structure EevdfInv (B : Balancer ℕ) (g : SchedSys EevdfRq EevdfTask) : Prop where
  inv : SchedInv (eevdf B) g
  sums : ∀ c, EevdfSums (g.onCpu c)

section

variable {B : Balancer ℕ} {g g' : SchedSys EevdfRq EevdfTask} {l' : EevdfSt} {c t : ℕ}

/-- The task that runs is in no tree. -/
theorem EevdfInv.curr_not_mem (h : EevdfInv B g) (hc : (g.rq c).curr = some t) (d : ℕ) :
    t ∉ (g.rq d).tree.inorder := by
  intro hmem
  have hcd := h.inv.one c d t (FairPolicy.mem_members.mpr (.inl hc))
    (FairPolicy.mem_members.mpr (.inr hmem))
  have hnd := (h.inv.rq c).nodup
  rw [SchedSys.onCpu, FairPolicy.members_of_some hc, List.nodup_cons] at hnd
  exact hnd.1 (hcd ▸ hmem)

/-- A task that is on no runqueue is in no tree. -/
theorem EevdfInv.off_not_mem (h : EevdfInv B g) (ht : (g.task t).onRq = false) (d : ℕ) :
    t ∉ (g.rq d).tree.inorder :=
  (h.inv.rq d).not_tree_of_off ht

/-- What writes to the task that runs and to `r`, which is in no tree, keeps the trees. -/
theorem EevdfInv.kept (h : EevdfInv B g) {r : Option ℕ} (htask : g'.task = l'.task)
    (hframe : (eevdf B).Frame r (g.onCpu c) l')
    (hr : ∀ u, r = some u → ∀ d, u ∉ (g.rq d).tree.inorder) : TreesKept g g' := by
  intro d u hu
  have hsame : l'.task u = g.task u := by
    refine hframe.task u (fun hru => hr u hru d hu) ?_
    intro hcu
    exact h.curr_not_mem hcu d hu
  rw [htask, hsame]
  exact ⟨rfl, rfl⟩

/-- The sums of the other runqueues are not touched. -/
theorem EevdfInv.of_call (h : EevdfInv B g) (hinv : SchedInv (eevdf B) g')
    (hrq : g'.rq = Function.update g.rq c l'.rq) (htask : g'.task = l'.task)
    (hweight : ∀ u, (l'.task u).load = (g.task u).load) (hkept : TreesKept g g')
    (hsums : EevdfSums l') : EevdfInv B g' := by
  refine ⟨hinv, ?_⟩
  intro d
  by_cases hd : d = c
  · rw [SchedSys.onCpu, hd, hrq, Function.update_self, htask]
    exact hsums
  · have hother : g'.rq d = g.rq d := by rw [hrq, Function.update_of_ne hd]
    refine (h.sums d).of_same ?_ ?_ ?_ ?_ ?_ ?_
    · simp only [SchedSys.onCpu, hother]
    · simp only [SchedSys.onCpu, hother]
    · simp only [SchedSys.onCpu, hother]
    · simp only [SchedSys.onCpu, hother]
    · simp only [SchedSys.onCpu, hother]
    · intro u hu
      refine ⟨(hkept d u hu).1, ?_⟩
      simp only [SchedSys.onCpu, htask]
      exact hweight u

theorem EevdfInv.create (h : EevdfInv B g) (hl : g.live t ≠ true) (ht : t < maxTasks) :
    EevdfInv B (g.create (eevdf B) t) := by
  refine ⟨h.inv.create (eevdf_lawful B) hl ht, ?_⟩
  have hoff : (g.task t).onRq = false := by
    by_contra hon
    have hon' : (g.task t).onRq = true := by simpa using hon
    exact hl (h.inv.live t hon')
  intro d
  refine (h.sums d).of_same rfl rfl rfl rfl rfl ?_
  intro u hu
  have hut : u ≠ t := by
    intro heq
    exact h.off_not_mem hoff d (heq ▸ hu)
  simp [SchedSys.onCpu, SchedSys.create, Function.update_of_ne hut]

/-- A task joins a runqueue. -/
theorem EevdfInv.of_entered (h : EevdfInv B g) (ht : (g.task t).onRq = false)
    (hinv : SchedInv (eevdf B) (g.put c l')) (he : (eevdf B).Entered t (g.onCpu c) l')
    (hsums : EevdfSums l') : EevdfInv B (g.put c l') ∧ TreesKept g (g.put c l') := by
  have hkept : TreesKept g (g.put c l') := by
    refine h.kept rfl he.frame ?_
    intro u hu d
    rw [← Option.some.inj hu]
    exact h.off_not_mem ht d
  exact ⟨h.of_call hinv rfl rfl he.frame.weight hkept hsums, hkept⟩

/-- The task that runs leaves its runqueue. -/
theorem EevdfInv.of_left (h : EevdfInv B g) (hc : (g.rq c).curr = some t)
    (hrq : g'.rq = Function.update g.rq c l'.rq) (htask : g'.task = l'.task)
    (hinv : SchedInv (eevdf B) g') (hk : (eevdf B).Left t (g.onCpu c) l')
    (hsums : EevdfSums l') : EevdfInv B g' ∧ TreesKept g g' := by
  have hkept : TreesKept g g' := by
    refine h.kept htask hk.frame ?_
    intro u hu d
    rw [← Option.some.inj hu]
    exact h.curr_not_mem hc d
  exact ⟨h.of_call hinv hrq htask hk.frame.weight hkept hsums, hkept⟩

/-- Every call keeps the sums and the trees. -/
theorem EevdfInv.step {e : SchedEvent} (h : EevdfInv B g) (hcall : (eevdf B).Call g e g') :
    EevdfInv B g' ∧ TreesKept g g' := by
  have hinv := hcall.inv h.inv (eevdf_lawful B)
  have hcurr : ∀ c u, (g.onCpu c).rq.curr = some u → u ∉ (g.onCpu c).rq.tree.inorder :=
    fun c u hu => h.curr_not_mem hu c
  cases hcall with
  | idle => exact ⟨h, fun _ _ _ => ⟨rfl, rfl⟩⟩
  | @spawn t c now₁ now₂ l' hl ht hop he =>
      have hnew := h.create hl ht
      have hoff : ((g.create (eevdf B) t).task t).onRq = false := by
        simp [SchedSys.create, eevdf, eevdfInitTask]
      have hsums : EevdfSums l' := by
        rw [← Except.ok.inj hop]
        exact (hnew.sums c).spawn (fun u hu => hnew.curr_not_mem hu c) (hnew.off_not_mem hoff c)
          ((hnew.inv.rq c).curr_ne_of_off hoff) now₁ now₂
      have hstep := hnew.of_entered hoff hinv he hsums
      refine ⟨hstep.1, ?_⟩
      -- the fresh task was in no tree
      intro d u hu
      have hkept := hstep.2 d u hu
      have hut : u ≠ t := by
        intro heq
        exact hnew.off_not_mem hoff d (heq ▸ hu)
      have hsame : (g.create (eevdf B) t).task u = g.task u := by
        simp [SchedSys.create, Function.update_of_ne hut]
      rwa [hsame] at hkept
  | @pickNone c now l' hc hop hk =>
      rcases EevdfSt.pickNext_cases hc hop with ⟨-, rfl⟩ | ⟨t, ht, -⟩
      · rw [SchedSys.put_onCpu]
        exact ⟨h, fun _ _ _ => ⟨rfl, rfl⟩⟩
      · simp at ht
  | @pick c now t l' hc hop hk =>
      rcases EevdfSt.pickNext_cases hc hop with ⟨ht, -⟩ | ⟨t', ht, hmem, hl'⟩
      · simp at ht
      · rw [← Option.some.inj ht] at hmem hl'
        have hmember : t ∈ (eevdf B).members (g.rq c) := FairPolicy.mem_members.mpr (.inr hmem)
        have hon : ((g.onCpu c).task t).onRq = true := (h.inv.rq c).onRq t hmember
        have hnd := (h.inv.rq c).nodup
        rw [SchedSys.onCpu, FairPolicy.members_of_none hc] at hnd
        have hkept : TreesKept g ((g.put c l').setCpu c (some t)) := by
          intro d u hu
          by_cases hut : u = t
          · have hself := EevdfSt.setNextTask_self (B := B) (c := c) hon now
            rw [← hl'] at hself
            rw [hut]
            simp only [SchedSys.setCpu, SchedSys.put, hself]
            exact ⟨rfl, rfl⟩
          · have hsame : l'.task u = g.task u := by
              refine hk.frame.task u (by simpa using Ne.symm hut) ?_
              intro hcu
              exact h.curr_not_mem hcu d hu
            simp [SchedSys.setCpu, SchedSys.put, hsame]
        refine ⟨h.of_call hinv rfl rfl hk.frame.weight hkept ?_, hkept⟩
        rw [hl']
        exact (h.sums c).setNextTask hmem hnd hon
  | @yield c now t l' hc hop hk =>
      have hl' : l' = (EevdfSt.requeue B (g.onCpu c) t now).setCurr none :=
        Except.ok.inj (hop.symm.trans (EevdfSt.yield_eq hc ((h.inv.rq c).curr_on hc) now))
      have hkept : TreesKept g ((g.put c l').setCpu c none) :=
        h.kept rfl hk.frame (by simp)
      refine ⟨h.of_call hinv rfl rfl hk.frame.weight hkept ?_, hkept⟩
      rw [hl']
      exact ((h.sums c).requeue (hcurr c) hc now).setCurr none
  | @block c now t l' hc hop hk =>
      have hl' : l' = (EevdfSt.dequeueTask B (g.onCpu c) t now).setCurr none :=
        Except.ok.inj (hop.symm.trans (EevdfSt.block_eq hc ((h.inv.rq c).curr_on hc) now))
      refine h.of_left hc rfl rfl hinv hk ?_
      rw [hl']
      exact ((h.sums c).dequeueTask (hcurr c) hc now).setCurr none
  | @wakeup t now l' hl ht hop he =>
      refine h.of_entered ht hinv he ?_
      rw [← Except.ok.inj hop]
      exact (h.sums _).wakeup (hcurr _) (h.off_not_mem ht _) ((h.inv.rq _).curr_ne_of_off ht) now
  | @finish c now t l' hc hop hk =>
      refine h.of_left hc rfl rfl hinv hk ?_
      rw [← Except.ok.inj hop]
      exact ((h.sums c).dequeueTask (hcurr c) hc now).setCurr none
  | @preempt c now t l' hc hop hk =>
      have hkept : TreesKept g (g.put c l') :=
        h.kept (r := none) rfl ⟨hk.task, fun u _ => hk.onRq u, hk.weight⟩ (by simp)
      refine ⟨h.of_call hinv rfl rfl hk.weight hkept ?_, hkept⟩
      rw [← Except.ok.inj hop]
      exact (h.sums c).updateCurr (hcurr c) now

theorem eevdfInv_start : EevdfInv B (.start (eevdf B)) := by
  refine ⟨schedInv_start (eevdf_lawful B), ?_⟩
  intro c
  refine ⟨rfl, rfl, ?_, rfl⟩
  exact List.isChain_singleton _

end

/-- **EEVDF virtual-time accounting.**  In every run the two sums are the sums over the tree,
`min_vruntime` only moves forward, and a step changes the virtual time and the deadline of no
task in a tree. -/
theorem eevdf_accounting (B : Balancer ℕ) (es : List SchedEvent) :
    ∃ g, exec (schedStep (eevdf B)) (.start (eevdf B)) es = .ok g ∧
      (∀ c,
        (g.rq c).avgVruntime = ((g.rq c).tree.inorder.map fun t =>
          ((g.task t).vruntime - (g.rq c).minVruntime) * scaleLoadDown (g.task t).load).sum ∧
        (g.rq c).avgLoad = ((g.rq c).tree.inorder.map fun t => scaleLoadDown (g.task t).load).sum ∧
        (g.rq c).mins.IsChain NotBefore ∧
        (g.rq c).mins.getLast? = some (g.rq c).minVruntime) ∧
      ∀ e, ∃ g', schedStep (eevdf B) g e = .ok g' ∧
        ∀ c, ∀ t ∈ (g.rq c).tree.inorder,
          (g'.task t).vruntime = (g.task t).vruntime ∧
          (g'.task t).deadline = (g.task t).deadline := by
  have hstep : ∀ {g e}, EevdfInv B g →
      ∃ g', schedStep (eevdf B) g e = .ok g' ∧ EevdfInv B g' ∧ TreesKept g g' := by
    intro g e h
    rcases (eevdf_lawful B).step h.inv e with ⟨g', hg', hcall⟩
    exact ⟨g', hg', h.step hcall⟩
  have hrun : ∃ g, exec (schedStep (eevdf B)) (.start (eevdf B)) es = .ok g ∧ EevdfInv B g := by
    refine exec_ok (G := fun _ _ => True) (I := EevdfInv B) ?_ eevdfInv_start
      (Along.trivial es (SchedSys.start (eevdf B)))
    intro g e h _
    rcases hstep (e := e) h with ⟨g', hg', hinv, -⟩
    exact ⟨g', hg', hinv⟩
  rcases hrun with ⟨g, hg, h⟩
  refine ⟨g, hg, ?_, ?_⟩
  · intro c
    have hs := h.sums c
    exact ⟨hs.avgVruntime, hs.avgLoad, hs.forward.chain, hs.forward.last⟩
  · intro e
    rcases hstep (e := e) h with ⟨g', hg', -, hkept⟩
    exact ⟨g', hg', hkept⟩

end Skyloft
