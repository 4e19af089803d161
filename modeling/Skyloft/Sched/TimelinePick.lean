import Skyloft.Sched.TimelineRun

/-!
# The selection in memory

`pick_eevdf` reads the leftmost node, and else goes down from the root along the least virtual
times that the callbacks left in the nodes.  The shape of the tree in memory is its own; but a
search that never has to turn back finds the first eligible task whatever the shape is.

* `pickFirstTask`, `eevdfSearch`, `pickInMemory` — `pick_eevdf` on the memory.
* `Timeline.augOf_root` — what `update_min_vruntime` reads at the root.
* `Timeline.pickInMemory` — the selection from one tree.
* `eevdf_in_memory` — a whole run.
-/

namespace Skyloft

open Run RbMem RbTree
open RedBlack (Side Color RbTree Crumb Path)

variable (N : TaskNodes) (s : EevdfSt) (m : RbMem (BitVec 64))

/-- `__pick_first_task` -/
def pickFirstTask : Option ℕ :=
  if m.rbLeftmost = 0#64 then none else some (N.task m.rbLeftmost)

/-- The loop of `pick_eevdf` from a node, with as many rounds as `fuel` says. -/
def eevdfSearch : ℕ → BitVec 64 → Option (Option ℕ)
  | 0, _ => none
  | fuel + 1, node =>
      if node = 0#64 then some none
      else
        let left := m.child .left node
        if left ≠ 0#64 ∧ s.vruntimeEligible (m.aug left) = true then eevdfSearch fuel left
        else if s.vruntimeEligible (s.task (N.task node)).vruntime then some (some (N.task node))
        else eevdfSearch fuel (m.child .right node)

/-- `pick_eevdf` -/
def pickInMemory (fuel : ℕ) : Option (Option ℕ) :=
  let task := pickFirstTask N m
  let eligible := fun t => s.vruntimeEligible (s.task t).vruntime
  if s.rq.nrRunning = 1#32 then some (if s.currOnRq.isSome then s.currOnRq else task)
  else
    let curr := s.currOnRq.filter eligible
    match curr.filter fun t => (s.task t).vlag = (s.task t).deadline with
    | some t => some (some t)
    | none =>
        (if task.any eligible then some task else eevdfSearch N s m fuel m.rbNode).map fun best =>
          match best, curr with
          | none, _ => curr
          | some b, none => some b
          | some b, some t => if EevdfSt.deadlineLess s.task t b then some t else some b

variable {N s m}

/-! ## What the nodes keep -/

/-- The augmented value of a subtree is that of the list of its tasks. -/
theorem EevdfSt.TreeNear.subtreeMin {a d : BitVec 64} (h : s.TreeNear a d) (hpool : s.Pooled)
    {n : SearchTree ℕ}
    (hsub : n.inorder ⊆ s.rq.tree.inorder) :
    EevdfSt.subtreeMin s.task n =
      optSum (N.summary s.task a d).sum (n.inorder.map N.node) := by
  induction n with
  | nil => rfl
  | node l t r ihl ihr =>
      rw [SearchTree.inorder_node] at hsub ⊢
      have hstep := (N.summary s.task a d).step (l.inorder.map N.node) (N.node t)
        (r.inorder.map N.node) fun z hz => h.near hpool z (by
          rw [← List.map_cons, ← List.map_append] at hz
          exact List.map_subset N.node hsub hz)
      have hsum : optSum (N.summary s.task a d).sum
          ((l.inorder ++ t :: r.inorder).map N.node) = some ((N.summary s.task a d).sum
            (l.inorder.map N.node ++ N.node t :: r.inorder.map N.node)) := by
        rw [List.map_append, List.map_cons, optSum, if_neg (by simp)]
      rw [EevdfSt.subtreeMin_node, ihl fun u hu => hsub (by simp [hu]),
        ihr fun u hu => hsub (by simp [hu]), hsum, ← hstep, minValue, TaskNodes.vruntime,
        N.task_node t (hpool t (hsub (by simp)))]

/-- **What `update_min_vruntime` reads at the root.** -/
theorem Timeline.augOf_root (h : Timeline N s m) :
    m.augOf m.rbNode = EevdfSt.subtreeMin s.task s.rq.tree := by
  obtain ⟨hpool, a, d, hnear, ⟨t, ht, hin⟩, -⟩ := h
  rw [hnear.subtreeMin (N := N) hpool (List.Subset.refl _), ht.rep.2, Summary.augOf_root ht.rep.1, hin]

theorem Timeline.pickFirstTask (h : Timeline N s m) : pickFirstTask N m = s.rq.tree.first := by
  obtain ⟨hpool, a, d, -, ⟨t, ht, hin⟩, -⟩ := h
  rw [Skyloft.pickFirstTask, ht.leftmost, hin, SearchTree.first_eq_head, List.head?_map]
  cases hhead : s.rq.tree.inorder.head? with
  | none => rfl
  | some u =>
      rw [Option.map_some, ptr_some, if_neg (N.node u).ne_zero,
        N.task_node u (hpool u (List.mem_of_mem_head? hhead))]

/-! ## The search -/

/-- The loop goes the way of a search in the tree that the memory holds. -/
theorem eevdfSearch_rep {K : Summary (minValue (N.vruntime s.task)) S} {t : RbTree NodePtr}
    {par : Option NodePtr} {fuel : ℕ} (h : Rep m K.Is par t) (hfuel : t.height < fuel) :
    eevdfSearch N s m fuel (ptr (root t)) = some ((t.shape.prunedSearch
      (fun z => s.eligible (N.task z.word))
      fun n => (optSum K.sum n.inorder).any s.vruntimeEligible).map fun z => N.task z.word) := by
  induction t generalizing par fuel with
  | nil =>
      obtain ⟨fuel, rfl⟩ := Nat.exists_eq_add_of_lt hfuel
      rfl
  | node c l x r ihl ihr =>
      obtain ⟨fuel, rfl⟩ : ∃ k, fuel = k + 1 := ⟨fuel - 1, by omega⟩
      obtain ⟨-, hl, hr, -, hrl, hrr⟩ := h
      rw [RbTree.height] at hfuel
      have haug := Summary.augOf_root hrl
      have hcond : (ptr (root l) ≠ 0#64 ∧ s.vruntimeEligible (m.aug (ptr (root l))) = true) ↔
          (optSum K.sum l.shape.inorder).any s.vruntimeEligible = true := by
        rw [RbTree.inorder_shape, ← haug, augOf]
        by_cases hnil : ptr (root l) = 0#64
        · simp [hnil]
        · simp [hnil]
      rw [root_node, ptr_some, eevdfSearch, if_neg x.ne_zero, RbTree.shape, SearchTree.prunedSearch]
      simp only [hl, hr]
      by_cases hany : (optSum K.sum l.shape.inorder).any s.vruntimeEligible = true
      · rw [if_pos (hcond.mpr hany), if_pos hany]
        exact ihl hrl (by omega)
      · rw [if_neg fun hc => hany (hcond.mp hc), if_neg hany, EevdfSt.eligible]
        by_cases hx : s.vruntimeEligible (s.task (N.task x.word)).vruntime = true
        · rw [if_pos hx, if_pos hx]
          rfl
        · rw [if_neg hx, if_neg hx]
          exact ihr hrr (by omega)

/-- **The selection in memory** is the one by the tree, for a runqueue on which no task runs. -/
theorem Timeline.pickInMemory {B : Balancer ℕ} {fuel : ℕ} (h : Timeline N s m) (hs : EevdfSums s)
    (hok : (eevdf B).RqOk s) (hn : s.Nice) (hk : s.KeysFit) (hc : s.rq.curr = none)
    (hne : s.rq.nrRunning ≠ 0#32) (hfuel : 2 * Nat.log 2 (s.rq.tree.inorder.length + 1) < fuel) :
    pickInMemory N s m fuel = some s.pickEevdf := by
  have hmem : (eevdf B).members s.rq = s.rq.tree.inorder := FairPolicy.members_of_none hc
  have hlen : s.rq.tree.inorder.length ≤ maxTasks := hmem ▸ hok.length_le
  have hfirst := h.pickFirstTask
  have hpick := EevdfSt.pickEevdf_eq_find? hs hok hn hk hc hne
  obtain ⟨hpool, a, d, hnear, ⟨t, ht, hin⟩, -⟩ := h
  have hheight := RedBlack.height_le ht.rooted
  rw [hin, List.length_map] at hheight
  -- the search finds the first eligible node, whatever the shape
  have hsearch : eevdfSearch N s m fuel m.rbNode = some (s.rq.tree.inorder.find? s.eligible) := by
    rw [ht.rep.2, eevdfSearch_rep ht.rep.1 (by omega), SearchTree.prunedSearch_eq_find?,
      RbTree.inorder_shape, hin]
    · exact congrArg some (N.find?_node hpool s.eligible)
    · intro n hsub
      rw [RbTree.inorder_shape, hin] at hsub
      obtain ⟨ts, hts, hmap⟩ := N.exists_tasks hsub
      have hsum := hnear.subtreeMin (N := N) hpool (n := .ofList ts) (by simpa using hts)
      have hany := EevdfSt.any_subtreeMin hs hn hk hlen hc (n := .ofList ts) (by simpa using hts)
      rw [hsum, SearchTree.inorder_ofList, hmap] at hany
      rw [hany, ← hmap]
      exact (N.any_node (fun t ht => hpool t (hts ht)) s.eligible).symm
  have hidle : s.currOnRq = none := by simp [EevdfSt.currOnRq, hc]
  simp only [Skyloft.pickInMemory, hfirst, hsearch, hidle, Option.isSome_none, Bool.false_eq_true,
    if_false, Option.filter_none]
  by_cases hone : s.rq.nrRunning = 1#32
  · rw [if_pos hone, EevdfSt.pickEevdf, if_pos hone, hidle]
    rfl
  · rw [if_neg hone]
    by_cases hel : (s.rq.tree.first.any fun t => s.vruntimeEligible (s.task t).vruntime) = true
    · have hbest : s.pickEevdf = s.rq.tree.first := by
        simp only [EevdfSt.pickEevdf, hidle, hone, if_false, Option.filter_none, hel, if_true]
        cases s.rq.tree.first <;> rfl
      rw [if_pos hel, hbest]
      cases s.rq.tree.first <;> rfl
    · rw [if_neg hel, hpick]
      cases s.rq.tree.inorder.find? s.eligible <;> rfl

/-! ## Whole runs -/

/-- Deadlines and virtual times that are near are near in deadlines. -/
theorem TimesNear.allNear {g : SchedSys EevdfRq EevdfTask} (h : TimesNear g) : AllNear g := by
  intro c
  obtain ⟨_, d, hd⟩ := h c
  exact ⟨d, fun t ht => (hd t ht).2⟩

/-- The page of a task. -/
def pageWord (t : ℕ) : BitVec 64 := BitVec.ofNat 64 (4096 * (t % maxTasks + 1))

theorem pageWord_low (t : ℕ) : pageWord t &&& 3#64 = 0#64 := by
  refine BitVec.eq_of_toNat_eq ?_
  rw [pageWord, BitVec.toNat_and, BitVec.toNat_ofNat, show (3#64).toNat = 2 ^ 2 - 1 from rfl,
    Nat.and_two_pow_sub_one_eq_mod, BitVec.toNat_zero]
  omega

theorem pageWord_ne_zero (t : ℕ) : pageWord t ≠ 0#64 := by
  intro h
  have hz := congrArg BitVec.toNat h
  rw [pageWord, BitVec.toNat_ofNat, BitVec.toNat_zero, maxTasks] at hz
  omega

/-- The node of a task in a pool with a page for each. -/
def pageNode (t : ℕ) : NodePtr := ⟨pageWord t, pageWord_low t, pageWord_ne_zero t⟩

/-- A pool of pages. -/
def TaskNodes.pages : TaskNodes where
  node := pageNode
  task w := w.toNat / 4096 - 1
  task_node t ht := by
    rw [show (pageNode t).word = pageWord t from rfl, pageWord, BitVec.toNat_ofNat,
      Nat.mod_eq_of_lt ht]
    rw [maxTasks] at ht
    omega

theorem timesNear_of_eq {g : SchedSys EevdfRq EevdfTask} (a d : BitVec 64)
    (h : ∀ t ∈ (g.rq 0).tree.inorder, (g.task t).vruntime = a ∧ (g.task t).deadline = d)
    (hnil : ∀ c, (g.rq (c + 1)).tree = .nil) : TimesNear g := by
  intro c
  refine ⟨a, d, ?_⟩
  intro t ht
  cases c with
  | zero =>
      obtain ⟨hv, hd⟩ := h t ht
      simp [SchedSys.onCpu, hv, hd]
  | succ c => simp [SchedSys.onCpu, hnil c] at ht

/-- **EEVDF on red-black trees in memory.**  In every run in which the deadlines and the virtual
times in a tree stay less than `2 ^ 63` apart, each call on a tree ends, and the memory of each CPU
holds a red-black tree of the tasks that wait, in the order of their deadlines, with the least
virtual time of the subtree in each node.  The first task and the least virtual time that are read
there are those of the runqueue, and so is the task that is picked on a CPU where none runs, when
the key sums fit 64 bits. -/
theorem eevdf_in_memory (B : Balancer ℕ) (N : TaskNodes) {fuel : ℕ} {es : List SchedEvent}
    {mem : Mems} (hfuel : 2 * Nat.log 2 (maxTasks + 1) < fuel) (hempty : ∀ c, (mem c).Empty)
    (hnear : Throughout (schedStep (eevdf B)) TimesNear (.start (eevdf B)) es) :
    ∃ g mem', exec (schedStep (eevdf B)) (.start (eevdf B)) es = .ok g ∧
      memExec B N fuel (.start (eevdf B)) mem es = some mem' ∧ ∀ c,
        Timeline N (g.onCpu c) (mem' c) ∧
        pickFirstTask N (mem' c) = (g.rq c).tree.first ∧
        (mem' c).augOf (mem' c).rbNode = EevdfSt.subtreeMin g.task (g.rq c).tree ∧
        ((g.rq c).curr = none → (g.rq c).nrRunning ≠ 0#32 → EevdfSt.KeysFit (g.onCpu c) →
          pickInMemory N (g.onCpu c) (mem' c) fuel = some (EevdfSt.pickEevdf (g.onCpu c))) := by
  obtain ⟨g, hexec, -⟩ := exec_ok (G := fun _ _ => True)
    (fun s e h _ => by
      obtain ⟨s', hs', hcall⟩ := (eevdf_lawful B).step (EevdfInv.inv h) e
      exact ⟨s', hs', (h.step hcall).1⟩)
    (eevdfInv_start (B := B)) (Along.trivial es _)
  obtain ⟨mem', hmem', h⟩ := timelines_exec hfuel eevdfInv_start (timelines_start N hempty) hnear
    hexec
  have horder := eevdfOrder_exec eevdfOrder_start
    (hnear.imp fun _ h => TimesNear.allNear h) hexec
  refine ⟨g, mem', hexec, hmem', fun c => ⟨h c, (h c).pickFirstTask, (h c).augOf_root, ?_⟩⟩
  intro hc hne hk
  exact (h c).pickInMemory (horder.inv.sums c) (horder.inv.inv.rq c) (fun t _ => horder.nice t) hk hc
    hne (horder.inv.few_levels hfuel c)

/-- Two tasks wait. -/
theorem eevdf_in_memory_two : ∃ g mem',
    exec (schedStep (eevdf .plain)) (.start (eevdf .plain))
      [.spawn 0 0 0#64 0#64, .spawn 1 0 0#64 0#64] = .ok g ∧
    memExec .plain .pages 31 (.start (eevdf .plain)) (fun _ => ⟨0, 0, 0, 0, 0#64, 0#64⟩)
      [.spawn 0 0 0#64 0#64, .spawn 1 0 0#64 0#64] = some mem' ∧
    pickInMemory .pages (g.onCpu 0) (mem' 0) 31 = some (EevdfSt.pickEevdf (g.onCpu 0)) := by
  obtain ⟨g, hg, htree, hnil, hcurr, hnr, hv₀, hv₁, hd₀, hd₁⟩ := spawn_pair
  have hmem : ∀ t ∈ (g.rq 0).tree.inorder, t = 0 ∨ t = 1 := by
    intro t ht
    simpa [htree] using ht
  have hexec : exec (schedStep (eevdf .plain)) (.start (eevdf .plain))
      [.spawn 0 0 0#64 0#64, .spawn 1 0 0#64 0#64] = .ok g :=
    exec_cons_ok.mpr ⟨_, spawn_lone, exec_cons_ok.mpr ⟨_, hg, rfl⟩⟩
  have hnear : Throughout (schedStep (eevdf .plain)) TimesNear (.start (eevdf .plain))
      [.spawn 0 0 0#64 0#64, .spawn 1 0 0#64 0#64] := by
    refine ⟨timesNear_of_eq 0#64 0#64 (fun t ht => ?_) fun _ => rfl, ?_⟩
    · cases ht
    intro s hs
    cases spawn_lone.symm.trans hs
    refine ⟨timesNear_of_eq (-1048576#64) (-1048576#64 + 12500#64) (fun t ht => ?_) fun _ => rfl, ?_⟩
    · cases List.mem_singleton.mp ht
      exact ⟨rfl, rfl⟩
    intro s hs
    cases hg.symm.trans hs
    refine timesNear_of_eq (g.rq 0).minVruntime (-1048576#64 + 12500#64) (fun t ht => ?_) hnil
    rcases hmem t ht with rfl | rfl
    · exact ⟨hv₀, hd₀⟩
    · exact ⟨hv₁, hd₁⟩
  have hlog : Nat.log 2 (maxTasks + 1) < 16 := by
    rw [maxTasks]
    exact Nat.log_lt_of_lt_pow (by omega) (by omega)
  obtain ⟨g', mem', hexec', hmem', hall⟩ := eevdf_in_memory .plain .pages
    (show 2 * Nat.log 2 (maxTasks + 1) < 31 by omega)
    (show ∀ _ : ℕ, RbMem.Empty ⟨0, 0, 0, 0, 0#64, 0#64⟩ from fun _ => ⟨rfl, rfl⟩) hnear
  cases hexec.symm.trans hexec'
  refine ⟨g, mem', hexec, hmem', (hall 0).2.2.2 hcurr ?_ (EevdfSt.KeysFit.of_eq_min ?_)⟩
  · rw [hnr]
    decide
  · intro t ht
    rcases hmem t ht with rfl | rfl
    · exact hv₀
    · exact hv₁

end Skyloft
