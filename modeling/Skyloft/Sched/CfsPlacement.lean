import Skyloft.Sched.CalcDelta
import Skyloft.Sched.Cfs

/-!
# Where CFS places a task

A runqueue lets nobody fall behind: `min_vruntime` only moves forward, up to the least virtual
time of the tasks on the runqueue, and a task that comes back from sleep is placed at most
half a latency before it.  So no task on the runqueue is ever more than half a latency behind
`min_vruntime`, as long as the virtual times stay in a range in which the sign of a difference
of two words is the sign of the difference.

* `InRange`, `VirtualTimeBelow` — virtual time stays below `2 ^ 62`.
* `CfsPlaced` — the tasks on a runqueue against its `min_vruntime`.
* `cfs_placement` — the bound, in every run.
-/

namespace Skyloft

open Run

/-! ## Virtual times in range -/

/-- A virtual time that is below `2 ^ 62`. -/
def InRange (v : BitVec 64) : Prop :=
  -4611686018427387904 ≤ v.toInt ∧ v.toInt < 4611686018427387904

instance (v : BitVec 64) : Decidable (InRange v) := inferInstanceAs (Decidable (_ ∧ _))

theorem toInt_sub_of_inRange {a b : BitVec 64} (ha : InRange a) (hb : InRange b) :
    (a - b).toInt = a.toInt - b.toInt := by
  rw [BitVec.toInt_sub, Int.bmod_eq_of_le] <;> simp only [InRange] at ha hb <;> omega

/-- A step forward that stays in range has not wrapped. -/
theorem toInt_add_of_pos {a d : BitVec 64} (ha : InRange a) (hd : 0 < d.toInt)
    (hs : InRange (a + d)) : (a + d).toInt = a.toInt + d.toInt := by
  have hlt := BitVec.two_mul_toInt_lt (x := d)
  simp only [InRange, BitVec.toInt_add, Int.bmod_def] at ha hs ⊢
  omega

theorem maxVruntime_cases (m v : BitVec 64) :
    (0 < (v - m).toInt ∧ maxVruntime m v = v) ∨ (¬ 0 < (v - m).toInt ∧ maxVruntime m v = m) := by
  by_cases h : 0 < (v - m).toInt
  · exact .inl ⟨h, by rw [maxVruntime, if_pos h]⟩
  · exact .inr ⟨h, by rw [maxVruntime, if_neg h]⟩

/-- `max_vruntime` never moves back. -/
theorem maxVruntime_forward (m v : BitVec 64) : NotBefore m (maxVruntime m v) := by
  rw [NotBefore]
  rcases maxVruntime_cases m v with ⟨h, heq⟩ | ⟨-, heq⟩
  · rw [heq]
    omega
  · rw [heq, BitVec.sub_self]
    decide

/-- The lesser of two virtual times. -/
theorem minVruntime_le {a b : BitVec 64} (ha : InRange a) (hb : InRange b) :
    (minVruntime a b).toInt ≤ a.toInt ∧ (minVruntime a b).toInt ≤ b.toInt ∧
      (minVruntime a b = a ∨ minVruntime a b = b) := by
  have hsub := toInt_sub_of_inRange hb ha
  by_cases h : (b - a).toInt < 0
  · rw [minVruntime, if_pos h]
    refine ⟨by omega, le_refl _, .inr rfl⟩
  · rw [minVruntime, if_neg h]
    refine ⟨le_refl _, by omega, .inl rfl⟩

/-! ## Slices -/

/-- A multiplication by a fraction makes a number no larger. -/
theorem mulU64U32Shr_le (a : BitVec 64) (f : BitVec 32) :
    (mulU64U32Shr a f 32).toNat ≤ a.toNat := by
  have hle : a.toNat * f.toNat / 2 ^ 32 ≤ a.toNat := by
    apply Nat.div_le_of_le_mul
    rw [Nat.mul_comm]
    exact Nat.mul_le_mul_right _ f.isLt.le
  rw [toNat_mulU64U32Shr (le_refl 32) (lt_of_le_of_lt hle a.isLt)]
  exact hle

/-- The share of a task of weight `NICE_0_LOAD` is no longer than the period. -/
theorem calcDelta_le (d : BitVec 64) {load : BitVec 64} (hload : 1024 ≤ load.toNat) :
    (calcDelta d nice0Load load).toNat ≤ d.toNat := by
  have hinv : (invWeight load).toNat ≤ 4194303 := by
    have hne : load ≠ 0#64 := by
      rintro rfl
      simp at hload
    rw [invWeight, if_neg hne]
    split
    · decide
    · rw [BitVec.toNat_udiv]
      calc wmultConst.toNat / load.toNat ≤ wmultConst.toNat / 1024 :=
            Nat.div_le_div_left hload (by decide)
        _ = 4194303 := by decide
  have hfact : (nice0Load * invWeight load).toNat < 2 ^ 32 := by
    have hval : nice0Load.toNat = 1024 := rfl
    rw [BitVec.toNat_mul, hval, Nat.mod_eq_of_lt] <;> omega
  rw [calcDelta, calcFact_eq (by decide), setWidth_setWidth (toNat_invWeight_lt load), halve_of_lt hfact]
  exact mulU64U32Shr_le d _

/-- The slice of a new task, on a runqueue of tasks of weight `NICE_0_LOAD`. -/
theorem schedVslice_le {q : CfsRq} {x : CfsTask} (hx : x.load = nice0Load) (hoff : x.onRq = false)
    (hnr : q.nrRunning.toNat ≤ maxTasks) (hload : q.load.toNat ≤ 1024 * maxTasks) :
    (CfsSt.schedVslice q x).toNat ≤ 409612500 := by
  rw [maxTasks] at hnr hload
  have hsum : 1024 ≤ (q.load + nice0Load).toNat := by
    have hval : nice0Load.toNat = 1024 := rfl
    rw [BitVec.toNat_add, hval, Nat.mod_eq_of_lt (by omega)]
    omega
  have hnr' : (q.nrRunning + 1#32).toNat = q.nrRunning.toNat + 1 := by
    have hone : (1#32).toNat = 1 := rfl
    rw [BitVec.toNat_add, hone, Nat.mod_eq_of_lt (by omega)]
  have hperiod : (CfsSt.schedPeriod (q.nrRunning + 1#32)).toNat ≤ 409612500 := by
    rw [CfsSt.schedPeriod]
    split
    · have hgran : cfsMinGranularity.toNat = 12500 := rfl
      rw [BitVec.toNat_mul, BitVec.toNat_setWidth, hgran, hnr', Nat.mod_eq_of_lt] <;> omega
    · decide
  have hslice : CfsSt.schedSlice q x =
      calcDelta (CfsSt.schedPeriod (q.nrRunning + 1#32)) nice0Load (q.load + nice0Load) := by
    simp [CfsSt.schedSlice, hoff, hx]
  have hfair : CfsSt.schedVslice q x = CfsSt.schedSlice q x := by
    simp [CfsSt.schedVslice, calcDeltaFair, hx]
  rw [hfair, hslice]
  exact (calcDelta_le _ hsum).trans hperiod

/-! ## The tasks on a runqueue -/

/-- `v` is in range, and at most half a latency behind `m`. -/
def Fair (m v : BitVec 64) : Prop := InRange v ∧ -25000 ≤ v.toInt - m.toInt

structure CfsPlaced (s : CfsSt) : Prop where
  min : InRange s.rq.minVruntime
  curr : ∀ t, s.currOnRq = some t → Fair s.rq.minVruntime (s.task t).vruntime
  tree : ∀ t ∈ s.rq.tree.inorder,
    Fair s.rq.minVruntime (s.task t).vruntime ∧ s.rq.curr ≠ some t
  sorted : s.rq.tree.inorder.Pairwise fun a b =>
    (s.task a).vruntime.toInt ≤ (s.task b).vruntime.toInt

/-- The virtual times of the runqueue are in range. -/
def CfsSt.Within (s : CfsSt) : Prop := ∀ v ∈ s.rq.vtimes, InRange v

variable {s s' : CfsSt} {t u : ℕ} {now : BitVec 64}

theorem CfsSt.currOnRq_eq_some :
    s.currOnRq = some t ↔ s.rq.curr = some t ∧ (s.task t).onRq = true := by
  rw [CfsSt.currOnRq, Option.filter_eq_some_iff]

/-- What is not about virtual times leaves the tasks where they are. -/
theorem CfsPlaced.of_same (h : CfsPlaced s) (hmin : s'.rq.minVruntime = s.rq.minVruntime)
    (htree : s'.rq.tree = s.rq.tree) (hcurr : s'.rq.curr = s.rq.curr)
    (hv : ∀ u ∈ s.rq.tree.inorder, (s'.task u).vruntime = (s.task u).vruntime)
    (hc : ∀ u, s'.currOnRq = some u → Fair s.rq.minVruntime (s'.task u).vruntime) :
    CfsPlaced s' := by
  constructor
  · rw [hmin]
    exact h.min
  · rw [hmin]
    exact hc
  · intro u hu
    rw [htree] at hu
    rw [hmin, hcurr, hv u hu]
    exact h.tree u hu
  · rw [htree]
    refine h.sorted.imp_of_mem ?_
    intro a b ha hb hab
    rwa [hv a ha, hv b hb]

/-- The first of the tree has the least virtual time of it. -/
theorem CfsPlaced.first_le {f : ℕ} (h : CfsPlaced s) (hf : s.rq.tree.first = some f)
    (hu : u ∈ s.rq.tree.inorder) :
    f ∈ s.rq.tree.inorder ∧ (s.task f).vruntime.toInt ≤ (s.task u).vruntime.toInt := by
  have hs := h.sorted
  rw [SearchTree.first_eq_head] at hf
  cases hl : s.rq.tree.inorder with
  | nil =>
      rw [hl] at hu
      simp at hu
  | cons a l =>
      rw [hl] at hf hs hu
      have haf : a = f := by simpa using hf
      rw [List.pairwise_cons] at hs
      refine ⟨by simp [haf], ?_⟩
      rcases List.mem_cons.mp hu with rfl | hu
      · rw [haf]
      · rw [← haf]
        exact hs.1 u hu

/-- `update_min_vruntime` moves towards the least virtual time on the runqueue. -/
theorem CfsPlaced.nextMin (h : CfsPlaced s) :
    InRange s.nextMin ∧
      (∀ u, s.currOnRq = some u → s.nextMin.toInt ≤ (s.task u).vruntime.toInt) ∧
      ∀ u ∈ s.rq.tree.inorder, s.nextMin.toInt ≤ (s.task u).vruntime.toInt := by
  cases hf : s.rq.tree.first with
  | none =>
      have hnil : s.rq.tree.inorder = [] := by
        rwa [SearchTree.first_eq_head, List.head?_eq_none_iff] at hf
      cases hc : s.currOnRq with
      | none =>
          simp only [CfsSt.nextMin, hc, hf, hnil]
          exact ⟨h.min, by simp, by simp⟩
      | some t =>
          simp only [CfsSt.nextMin, hc, hf, hnil]
          refine ⟨(h.curr t hc).1, ?_, by simp⟩
          intro u hu
          rw [Option.some.inj hu]
  | some f =>
      have hfmem : f ∈ s.rq.tree.inorder := by
        rw [SearchTree.first_eq_head] at hf
        exact List.mem_of_mem_head? hf
      have hle := fun {u} (hu : u ∈ s.rq.tree.inorder) => (h.first_le hf hu).2
      cases hc : s.currOnRq with
      | none =>
          simp only [CfsSt.nextMin, hc, hf]
          exact ⟨(h.tree f hfmem).1.1, by simp, fun u hu => hle hu⟩
      | some t =>
          simp only [CfsSt.nextMin, hc, hf]
          have hmin := minVruntime_le (h.curr t hc).1 (h.tree f hfmem).1.1
          refine ⟨?_, ?_, ?_⟩
          · rcases hmin.2.2 with heq | heq
            · rw [heq]
              exact (h.curr t hc).1
            · rw [heq]
              exact (h.tree f hfmem).1.1
          · intro u hu
            rw [← Option.some.inj hu]
            exact hmin.1
          · intro u hu
            exact hmin.2.1.trans (hle hu)

theorem CfsPlaced.updateMinVruntime (h : CfsPlaced s) : CfsPlaced s.updateMinVruntime := by
  rcases h.nextMin with ⟨hr, hcurr, htree⟩
  rcases maxVruntime_cases s.rq.minVruntime s.nextMin with ⟨-, heq⟩ | ⟨-, heq⟩
  · constructor
    · simp only [CfsSt.updateMinVruntime, CfsSt.setMin, heq]
      exact hr
    · intro u hu
      have := hcurr u hu
      simp only [CfsSt.updateMinVruntime, CfsSt.setMin, heq]
      exact ⟨(h.curr u hu).1, by omega⟩
    · intro u hu
      have := htree u hu
      simp only [CfsSt.updateMinVruntime, CfsSt.setMin, heq]
      exact ⟨⟨(h.tree u hu).1.1, by omega⟩, (h.tree u hu).2⟩
    · exact h.sorted
  · refine h.of_same ?_ rfl rfl (fun _ _ => rfl) h.curr
    simp only [CfsSt.updateMinVruntime, CfsSt.setMin, heq]

/-- A store to a task that is neither in the tree nor running. -/
theorem CfsPlaced.setTask (h : CfsPlaced s) (ht : t ∉ s.rq.tree.inorder)
    (hc : s.rq.curr ≠ some t) (x : CfsTask) : CfsPlaced (s.setTask t x) := by
  refine h.of_same rfl rfl rfl ?_ ?_
  · intro u hu
    have hut : u ≠ t := fun heq => ht (heq ▸ hu)
    simp [CfsSt.setTask, Function.update_of_ne hut]
  · intro u hu
    rw [CfsSt.currOnRq_eq_some] at hu
    have hut : u ≠ t := fun heq => hc (heq ▸ hu.1)
    simp only [CfsSt.setTask, Function.update_of_ne hut] at hu ⊢
    exact h.curr u (CfsSt.currOnRq_eq_some.mpr hu)

theorem CfsPlaced.setVruntime (h : CfsPlaced s) (ht : t ∉ s.rq.tree.inorder)
    (hc : s.rq.curr ≠ some t) (v : BitVec 64) : CfsPlaced (s.setVruntime t v) := by
  have hs := h.setTask ht hc { s.task t with vruntime := v }
  exact ⟨hs.min, hs.curr, hs.tree, hs.sorted⟩

theorem CfsPlaced.updateCurr (h : CfsPlaced s) (hon : ∀ u, s.rq.curr = some u →
    (s.task u).onRq = true ∧ (s.task u).load = nice0Load)
    (hb : (s.updateCurr now).Within) : CfsPlaced (s.updateCurr now) := by
  cases hc : s.rq.curr with
  | none =>
      simp only [CfsSt.updateCurr, hc]
      exact h
  | some t =>
      have hself := h.curr t (CfsSt.currOnRq_eq_some.mpr ⟨hc, (hon t hc).1⟩)
      have hnot : t ∉ s.rq.tree.inorder := fun hmem => (h.tree t hmem).2 hc
      by_cases hd : (now - (s.task t).execStart).toInt ≤ 0
      · simp only [CfsSt.updateCurr, hc, if_pos hd]
        exact h
      · simp only [CfsSt.updateCurr, hc, if_neg hd] at hb ⊢
        apply CfsPlaced.updateMinVruntime
        -- the new virtual time is one of the history, so it has not wrapped
        have hdelta : calcDeltaFair (now - (s.task t).execStart) (s.task t).load =
            now - (s.task t).execStart := by
          simp [calcDeltaFair, (hon t hc).2]
        rw [hdelta] at hb ⊢
        have hin : InRange ((s.task t).vruntime + (now - (s.task t).execStart)) := by
          apply hb
          simp [CfsSt.updateMinVruntime, CfsSt.setMin, CfsSt.setVruntime]
        have hadd := toInt_add_of_pos hself.1 (by omega) hin
        refine h.of_same rfl rfl rfl ?_ ?_
        · intro u hu
          have hut : u ≠ t := fun heq => hnot (heq ▸ hu)
          simp [CfsSt.setTask, CfsSt.setVruntime, Function.update_of_ne hut]
        · intro u hu
          have hcu : s.rq.curr = some u := (CfsSt.currOnRq_eq_some.mp hu).1
          have hut : u = t := by
            rw [hc] at hcu
            exact (Option.some.inj hcu).symm
          simp only [CfsSt.setVruntime, hut, Function.update_self]
          refine ⟨hin, ?_⟩
          have := hself.2
          omega

/-! ## The histories -/

/-- The histories have grown, and tell of every virtual time that was given to a task but
`r`. -/
structure CfsTrace (r : Option ℕ) (s s' : CfsSt) : Prop where
  vtimes : s.rq.vtimes ⊆ s'.rq.vtimes
  stores : ∀ u, r ≠ some u →
    (s'.task u).vruntime = (s.task u).vruntime ∨ (s'.task u).vruntime ∈ s'.rq.vtimes
  mins : Forward s.rq.mins s.rq.minVruntime → Forward s'.rq.mins s'.rq.minVruntime

theorem CfsTrace.refl (r : Option ℕ) (s : CfsSt) : CfsTrace r s s :=
  ⟨fun _ h => h, fun _ _ => .inl rfl, fun h => h⟩

theorem CfsTrace.trans {r : Option ℕ} {s₁ s₂ s₃ : CfsSt} (h : CfsTrace r s₁ s₂)
    (h' : CfsTrace r s₂ s₃) : CfsTrace r s₁ s₃ := by
  refine ⟨fun v hv => h'.vtimes (h.vtimes hv), ?_, fun hm => h'.mins (h.mins hm)⟩
  intro u hu
  rcases h'.stores u hu with heq | hin
  · rw [heq]
    rcases h.stores u hu with heq' | hin'
    · exact .inl heq'
    · exact .inr (h'.vtimes hin')
  · exact .inr hin

theorem CfsTrace.mono {r : Option ℕ} (h : CfsTrace none s s') : CfsTrace r s s' :=
  ⟨h.vtimes, fun u _ => h.stores u (by simp), h.mins⟩

/-- What keeps the virtual times and the histories. -/
theorem CfsTrace.of_same {r : Option ℕ}
    (hv : ∀ u, r ≠ some u → (s'.task u).vruntime = (s.task u).vruntime)
    (hvtimes : s'.rq.vtimes = s.rq.vtimes) (hmins : s'.rq.mins = s.rq.mins)
    (hmin : s'.rq.minVruntime = s.rq.minVruntime) : CfsTrace r s s' := by
  refine ⟨by rw [hvtimes]; exact fun _ h => h, fun u hu => .inl (hv u hu), ?_⟩
  intro h
  exact ⟨by rw [hmins]; exact h.chain, by rw [hmins, hmin]; exact h.last⟩

theorem CfsTrace.within {r : Option ℕ} (h : CfsTrace r s s') (hb : s'.Within) : s.Within :=
  fun v hv => hb v (h.vtimes hv)

theorem trace_setTask {x : CfsTask} (hx : x.vruntime = (s.task t).vruntime) :
    CfsTrace none s (s.setTask t x) := by
  refine .of_same ?_ rfl rfl rfl
  intro u _
  by_cases hut : u = t
  · simp [CfsSt.setTask, hut, hx]
  · simp [CfsSt.setTask, Function.update_of_ne hut]

theorem trace_setVruntime (v : BitVec 64) : CfsTrace none s (s.setVruntime t v) := by
  refine ⟨?_, ?_, fun h => ⟨h.chain, h.last⟩⟩
  · intro w hw
    simp [CfsSt.setVruntime, hw]
  · intro u _
    by_cases hut : u = t
    · right
      simp [CfsSt.setVruntime, hut]
    · left
      simp [CfsSt.setVruntime, Function.update_of_ne hut]

theorem trace_updateMinVruntime : CfsTrace none s s.updateMinVruntime := by
  refine ⟨fun _ h => h, fun _ _ => .inl rfl, ?_⟩
  intro h
  exact h.append (maxVruntime_forward _ _)

theorem trace_updateCurr (now : BitVec 64) : CfsTrace none s (s.updateCurr now) := by
  cases hc : s.rq.curr with
  | none =>
      simp only [CfsSt.updateCurr, hc]
      exact .refl _ _
  | some t =>
      simp only [CfsSt.updateCurr, hc]
      split
      · exact .refl _ _
      · refine CfsTrace.trans ?_ trace_updateMinVruntime
        refine CfsTrace.trans ?_ (trace_setVruntime _)
        exact trace_setTask rfl

/-- The virtual time of a task that leaves is not told of. -/
theorem trace_normalize : CfsTrace (some t) s (s.normalize t) := by
  refine .of_same ?_ rfl rfl rfl
  intro u hu
  have hut : u ≠ t := fun heq => hu (by rw [heq])
  simp [CfsSt.normalize, CfsSt.setTask, Function.update_of_ne hut]

/-! ## The calls -/

variable {B : Balancer ℕ}

/-- A task joins the tree. -/
theorem CfsPlaced.added (h : CfsPlaced s) (hf : Fair s.rq.minVruntime (s.task t).vruntime)
    (htree : s'.rq.tree = B.add (CfsSt.vruntimeLt s.task) t s.rq.tree)
    (hmin : s'.rq.minVruntime = s.rq.minVruntime)
    (hv : ∀ u, (s'.task u).vruntime = (s.task u).vruntime)
    (hcurr : ∀ u, s'.rq.curr = some u → u ≠ t ∧ s.rq.curr = some u)
    (hc : ∀ u, s'.currOnRq = some u → s.currOnRq = some u) : CfsPlaced s' := by
  have hmem : ∀ {u}, u ∈ s'.rq.tree.inorder → u = t ∨ u ∈ s.rq.tree.inorder := by
    intro u hu
    rw [htree, B.perm_add.mem_iff, List.mem_cons] at hu
    exact hu
  constructor
  · rw [hmin]
    exact h.min
  · intro u hu
    rw [hmin, hv]
    exact h.curr u (hc u hu)
  · intro u hu
    rw [hmin, hv]
    rcases hmem hu with rfl | hu
    · exact ⟨hf, fun hcu => (hcurr u hcu).1 rfl⟩
    · exact ⟨(h.tree u hu).1, fun hcu => (h.tree u hu).2 (hcurr u hcu).2⟩
  · simp only [hv, htree]
    refine B.sorted_add ?_ h.sorted
    intro y hy
    have hsub := toInt_sub_of_inRange hf.1 (h.tree y hy).1.1
    simp only [CfsSt.vruntimeLt, decide_eq_true_eq]
    omega

/-- What `enqueue_task` does to a task that does not run, once its virtual time is placed. -/
theorem CfsPlaced.enqueueTask (h : CfsPlaced s) (hc : s.rq.curr ≠ some t)
    (hon : ∀ u, s.rq.curr = some u → (s.task u).onRq = true ∧ (s.task u).load = nice0Load)
    (ht : t ∉ s.rq.tree.inorder) {wakeup : Bool} (hb : (s.enqueueTask B t wakeup now).Within)
    (hplace : InRange (s.updateCurr now).rq.minVruntime →
      InRange ((s.enqueueHead t wakeup now).task t).vruntime →
      -25000 ≤ ((s.enqueueHead t wakeup now).task t).vruntime.toInt -
        (s.updateCurr now).rq.minVruntime.toInt) :
    CfsPlaced (s.enqueueTask B t wakeup now) := by
  have hq := CfsSt.quiet_updateCurr (B := B) (s := s) now
  rw [CfsSt.enqueueTask_eq hc] at hb ⊢
  -- the store of the new virtual time
  have hhead : ∃ v, s.enqueueHead t wakeup now =
      ((s.updateCurr now).enqueueUpdate t).setVruntime t v := by
    cases wakeup
    · exact ⟨_, rfl⟩
    · exact ⟨_, rfl⟩
  rcases hhead with ⟨v, hv⟩
  rw [hv] at hb hplace ⊢
  have hself : ((((s.updateCurr now).enqueueUpdate t).setVruntime t v).task t).vruntime = v := by
    simp [CfsSt.setVruntime]
  rw [hself] at hplace
  have hwithin : (s.updateCurr now).Within := by
    intro w hw
    apply hb
    simp only [CfsSt.setOnRq, CfsSt.setTask, CfsSt.enqueueTree, CfsSt.setVruntime,
      CfsSt.enqueueUpdate]
    exact List.mem_append_left _ hw
  have hin : InRange v := by
    apply hb
    simp [CfsSt.setOnRq, CfsSt.setTask, CfsSt.enqueueTree, CfsSt.setVruntime]
  have hcurr := h.updateCurr hon hwithin
  have htree : (s.updateCurr now).rq.tree.inorder = s.rq.tree.inorder := hq.tree
  have hc' : (s.updateCurr now).rq.curr = s.rq.curr := hq.curr
  have hupd : CfsPlaced ((s.updateCurr now).enqueueUpdate t) :=
    ⟨hcurr.min, hcurr.curr, hcurr.tree, hcurr.sorted⟩
  have hset := hupd.setVruntime (t := t) (by rw [CfsSt.enqueueUpdate, htree]; exact ht)
    (by rw [CfsSt.enqueueUpdate, hc']; exact hc) v
  refine hset.added (t := t) ?_ rfl rfl ?_ ?_ ?_
  · rw [hself]
    exact ⟨hin, hplace hcurr.min hin⟩
  · intro u
    by_cases hut : u = t
    · simp [CfsSt.setOnRq, CfsSt.setTask, CfsSt.enqueueTree, hut]
    · simp [CfsSt.setOnRq, CfsSt.setTask, CfsSt.enqueueTree, Function.update_of_ne hut]
  · intro u hu
    refine ⟨?_, hu⟩
    rintro rfl
    exact hc (hc'.symm.trans hu)
  · intro u hu
    rw [CfsSt.currOnRq_eq_some] at hu ⊢
    have hut : u ≠ t := by
      rintro rfl
      exact hc (hc'.symm.trans hu.1)
    refine ⟨hu.1, ?_⟩
    have := hu.2
    simpa [CfsSt.setOnRq, CfsSt.setTask, CfsSt.enqueueTree, Function.update_of_ne hut] using this

/-- A sleeper comes back at most half a latency behind. -/
theorem CfsPlaced.wakeup (h : CfsPlaced s) (hc : s.rq.curr ≠ some t)
    (hon : ∀ u, s.rq.curr = some u → (s.task u).onRq = true ∧ (s.task u).load = nice0Load)
    (ht : t ∉ s.rq.tree.inorder) (hv : InRange (s.task t).vruntime)
    (hb : (s.enqueueTask B t true now).Within) : CfsPlaced (s.enqueueTask B t true now) := by
  refine h.enqueueTask hc hon ht hb ?_
  have hq := CfsSt.quiet_updateCurr (B := B) (s := s) now
  have htask : (s.updateCurr now).task t = s.task t := hq.task t (by simp) hc
  intro hm hin
  have hval : ((s.enqueueHead t true now).task t).vruntime =
      maxVruntime (s.task t).vruntime ((s.updateCurr now).rq.minVruntime - cfsLatency >>> 1) := by
    simp [CfsSt.enqueueHead, CfsSt.placeTask, CfsSt.setVruntime, CfsSt.enqueueUpdate, htask]
  rw [hval] at hin ⊢
  have hhalf : cfsLatency >>> 1 = 25000#64 := by decide
  rw [hhalf] at hin ⊢
  have h25 : (25000#64).toInt = 25000 := by decide
  rcases maxVruntime_cases (s.task t).vruntime
    ((s.updateCurr now).rq.minVruntime - 25000#64) with ⟨-, heq⟩ | ⟨hle, heq⟩
  · rw [heq] at hin ⊢
    simp only [InRange, BitVec.toInt_sub, h25, Int.bmod_def] at hm hin ⊢
    omega
  · rw [heq]
    simp only [InRange, BitVec.toInt_sub, h25, Int.bmod_def] at hm hv hle
    omega

/-- A new task, with its virtual time relative to `min_vruntime`, starts no earlier. -/
theorem CfsPlaced.putTask (h : CfsPlaced s) (hc : s.rq.curr ≠ some t)
    (hon : ∀ u, s.rq.curr = some u → (s.task u).onRq = true ∧ (s.task u).load = nice0Load)
    (ht : t ∉ s.rq.tree.inorder) (hv : 0 ≤ (s.task t).vruntime.toInt)
    (hb : (s.enqueueTask B t false now).Within) : CfsPlaced (s.enqueueTask B t false now) := by
  refine h.enqueueTask hc hon ht hb ?_
  have hq := CfsSt.quiet_updateCurr (B := B) (s := s) now
  have htask : (s.updateCurr now).task t = s.task t := hq.task t (by simp) hc
  intro hm hin
  have hval : ((s.enqueueHead t false now).task t).vruntime =
      (s.task t).vruntime + (s.updateCurr now).rq.minVruntime := by
    simp [CfsSt.enqueueHead, CfsSt.denormalize, CfsSt.setVruntime, CfsSt.enqueueUpdate, htask]
  rw [hval] at hin ⊢
  have hsub := toInt_sub_of_inRange hin hm
  rw [BitVec.add_sub_cancel] at hsub
  omega

/-- Relative to `min_vruntime`, a new task is not placed before it. -/
theorem place_init_nonneg {m v slice : BitVec 64} (hm : InRange m)
    (hv : Fair m v ∨ v = 0#64) (hs : slice.toNat ≤ 409612500) :
    0 ≤ (maxVruntime v (m + slice) - m).toInt := by
  have hslice : slice.toInt = slice.toNat := BitVec.toInt_eq_toNat_of_lt (by omega)
  have hin : InRange v := by
    rcases hv with hv | rfl
    · exact hv.1
    · decide
  rcases maxVruntime_cases v (m + slice) with ⟨-, heq⟩ | ⟨hle, heq⟩
  · rw [heq, BitVec.add_comm, BitVec.add_sub_cancel, hslice]
    omega
  · rw [heq, toInt_sub_of_inRange hin hm]
    rcases hv with hv | rfl
    · have hlag := hv.2
      simp only [InRange, BitVec.toInt_sub, BitVec.toInt_add, hslice, Int.bmod_def] at hm hin hle
      omega
    · have hz : (0#64).toInt = 0 := by decide
      simp only [InRange, BitVec.toInt_sub, BitVec.toInt_add, hslice, hz, Int.bmod_def] at hm hle ⊢
      omega

theorem CfsPlaced.forkTask (h : CfsPlaced s) (hc : s.rq.curr ≠ some t)
    (hon : ∀ u, s.rq.curr = some u → (s.task u).onRq = true ∧ (s.task u).load = nice0Load)
    (ht : t ∉ s.rq.tree.inorder) (hnew : s.task t = cfsInitTask)
    (hnr : s.rq.nrRunning.toNat ≤ maxTasks) (hload : s.rq.load.toNat ≤ 1024 * maxTasks)
    (hb : (s.updateCurr now).Within) :
    CfsPlaced (s.forkTask t now) ∧ 0 ≤ ((s.forkTask t now).task t).vruntime.toInt := by
  have hq := CfsSt.quiet_updateCurr (B := .plain) (s := s) now
  have hcurr := h.updateCurr hon hb
  have htask : (s.updateCurr now).task t = cfsInitTask := (hq.task t (by simp) hc).trans hnew
  have htree : (s.updateCurr now).rq.tree.inorder = s.rq.tree.inorder := hq.tree
  have hc' : (s.updateCurr now).rq.curr = s.rq.curr := hq.curr
  have hnr' : (s.updateCurr now).rq.nrRunning = s.rq.nrRunning := hq.nrRunning
  have hload' : (s.updateCurr now).rq.load = s.rq.load := hq.load
  -- the virtual time the task starts from
  have hstart : ∃ s₁ : CfsSt, s.forkTask t now = (s₁.placeTask t true).normalize t ∧
      CfsPlaced s₁ ∧ s₁.rq.curr = s.rq.curr ∧ s₁.rq.tree.inorder = s.rq.tree.inorder ∧
      s₁.rq.nrRunning = s.rq.nrRunning ∧ s₁.rq.load = s.rq.load ∧
      (s₁.task t).load = nice0Load ∧ (s₁.task t).onRq = false ∧
      (Fair s₁.rq.minVruntime (s₁.task t).vruntime ∨ (s₁.task t).vruntime = 0#64) := by
    cases hcc : s.rq.curr with
    | none =>
        refine ⟨s.updateCurr now, by simp only [CfsSt.forkTask, hcc], hcurr, hc'.trans hcc, htree,
          hnr', hload', ?_, ?_, ?_⟩ <;> simp [htask, cfsInitTask]
    | some c =>
        refine ⟨(s.updateCurr now).setVruntime t ((s.updateCurr now).task c).vruntime,
          by simp only [CfsSt.forkTask, hcc], ?_, hc'.trans hcc, htree, hnr', hload', ?_, ?_, ?_⟩
        · refine hcurr.setVruntime (by rw [htree]; exact ht) ?_ _
          rw [hc']
          exact hc
        · simp [CfsSt.setVruntime, htask, cfsInitTask]
        · simp [CfsSt.setVruntime, htask, cfsInitTask]
        · left
          have hcon : (s.updateCurr now).currOnRq = some c := by
            rw [CfsSt.currOnRq_eq_some]
            exact ⟨hc'.trans hcc, (hq.onRq c).trans (hon c hcc).1⟩
          simpa [CfsSt.setVruntime] using hcurr.curr c hcon
  rcases hstart with ⟨s₁, hfork, hp, hcurr₁, htree₁, hnr₁, hload₁, hw₁, hoff₁, hv₁⟩
  have ht₁ : t ∉ s₁.rq.tree.inorder := by rwa [htree₁]
  have hc₁ : s₁.rq.curr ≠ some t := by rwa [hcurr₁]
  rw [hfork]
  constructor
  · exact (hp.setVruntime ht₁ hc₁ _).setTask ht₁ hc₁ _
  · have hslice := schedVslice_le hw₁ hoff₁ (by rwa [hnr₁]) (by rwa [hload₁])
    have hnn := place_init_nonneg hp.min hv₁ hslice
    simpa [CfsSt.normalize, CfsSt.setTask, CfsSt.placeTask, CfsSt.setVruntime] using hnn

/-- The task that runs leaves the runqueue. -/
theorem CfsPlaced.dequeueTask (h : CfsPlaced s) (hc : s.rq.curr = some t)
    (hon : (s.task t).onRq = true ∧ (s.task t).load = nice0Load) {sleep : Bool}
    (hb : (s.updateCurr now).Within) :
    CfsPlaced ((s.dequeueTask B t sleep now).setCurr none) := by
  have hq := CfsSt.quiet_updateCurr (B := B) (s := s) now
  have hc' : (s.updateCurr now).rq.curr = some t := hq.curr.trans hc
  have hcurr : CfsPlaced (s.updateCurr now) := by
    refine h.updateCurr ?_ hb
    intro u hu
    rw [hc] at hu
    rw [← Option.some.inj hu]
    exact hon
  -- off the runqueue, the task that runs no longer counts
  have hoff : CfsPlaced (((s.updateCurr now).dequeueUpdate t).setOnRq t false) := by
    refine hcurr.of_same rfl rfl rfl ?_ ?_
    · intro u _
      by_cases hut : u = t
      · simp [CfsSt.setOnRq, CfsSt.setTask, CfsSt.dequeueUpdate, hut]
      · simp [CfsSt.setOnRq, CfsSt.setTask, CfsSt.dequeueUpdate, Function.update_of_ne hut]
    · intro u hu
      rw [CfsSt.currOnRq_eq_some] at hu
      have hut : u = t := by
        have hcu : (s.updateCurr now).rq.curr = some u := hu.1
        rw [hc'] at hcu
        exact (Option.some.inj hcu).symm
      simp [CfsSt.setOnRq, CfsSt.setTask, hut] at hu
  have hnorm : CfsPlaced ((((s.updateCurr now).dequeueUpdate t).setOnRq t false).normalize t) := by
    refine hoff.of_same rfl rfl rfl ?_ ?_
    · intro u hu
      have hut : u ≠ t := fun heq => (hoff.tree u hu).2 (heq ▸ hc')
      simp [CfsSt.normalize, CfsSt.setTask, Function.update_of_ne hut]
    · intro u hu
      rw [CfsSt.currOnRq_eq_some] at hu
      have hut : u = t := by
        have hcu : (s.updateCurr now).rq.curr = some u := hu.1
        rw [hc'] at hcu
        exact (Option.some.inj hcu).symm
      simp [CfsSt.normalize, CfsSt.setOnRq, CfsSt.setTask, hut] at hu
  have hend : CfsPlaced (s.dequeueTask B t sleep now) := by
    rw [CfsSt.dequeueTask_eq hc]
    cases sleep
    · exact hnorm.updateMinVruntime
    · exact hoff.updateMinVruntime
  refine ⟨hend.min, ?_, ?_, hend.sorted⟩
  · intro u hu
    rw [CfsSt.currOnRq_eq_some] at hu
    simp [CfsSt.setCurr] at hu
  · intro u hu
    exact ⟨(hend.tree u hu).1, by simp [CfsSt.setCurr]⟩

/-- The task that runs goes back to the tree. -/
theorem CfsPlaced.yield (h : CfsPlaced s) (hc : s.rq.curr = some t)
    (hon : (s.task t).onRq = true ∧ (s.task t).load = nice0Load)
    (hb : (s.updateCurr now).Within) :
    CfsPlaced (((s.updateCurr now).enqueueTree B t).setCurr none) := by
  have hq := CfsSt.quiet_updateCurr (B := B) (s := s) now
  have hcurr : CfsPlaced (s.updateCurr now) := by
    refine h.updateCurr ?_ hb
    intro u hu
    rw [hc] at hu
    rw [← Option.some.inj hu]
    exact hon
  refine hcurr.added (t := t) ?_ rfl rfl (fun _ => rfl) ?_ ?_
  · exact hcurr.curr t (CfsSt.currOnRq_eq_some.mpr ⟨hq.curr.trans hc, (hq.onRq t).trans hon.1⟩)
  · intro u hu
    simp [CfsSt.setCurr] at hu
  · intro u hu
    rw [CfsSt.currOnRq_eq_some] at hu
    simp [CfsSt.setCurr] at hu

/-- A task is picked from the tree. -/
theorem CfsPlaced.setNextTask {c : ℕ} (h : CfsPlaced s) (ht : t ∈ s.rq.tree.inorder)
    (hon : (s.task t).onRq = true) (hnd : s.rq.tree.inorder.Nodup) :
    CfsPlaced (s.setNextTask B c t now) := by
  have hv : ∀ u, ((s.setNextTask B c t now).task u).vruntime = (s.task u).vruntime := by
    intro u
    by_cases hut : u = t
    · simp [CfsSt.setNextTask, CfsSt.setCurr, CfsSt.setTask, hon, CfsSt.dequeueTree, hut]
    · simp [CfsSt.setNextTask, CfsSt.setCurr, CfsSt.setTask, hon, CfsSt.dequeueTree,
        Function.update_of_ne hut]
  have htree : (s.setNextTask B c t now).rq.tree = B.erase t s.rq.tree := by
    simp [CfsSt.setNextTask, CfsSt.setCurr, CfsSt.setTask, hon, CfsSt.dequeueTree]
  have hmin : (s.setNextTask B c t now).rq.minVruntime = s.rq.minVruntime := by
    simp [CfsSt.setNextTask, CfsSt.setCurr, CfsSt.setTask, hon, CfsSt.dequeueTree]
  have hcurr : (s.setNextTask B c t now).rq.curr = some t := rfl
  constructor
  · rw [hmin]
    exact h.min
  · intro u hu
    rw [CfsSt.currOnRq_eq_some, hcurr] at hu
    rw [hmin, hv, ← Option.some.inj hu.1]
    exact (h.tree t ht).1
  · intro u hu
    rw [htree, B.inorder_erase, hnd.mem_erase_iff] at hu
    rw [hmin, hv, hcurr]
    exact ⟨(h.tree u hu.2).1, fun heq => hu.1 (Option.some.inj heq).symm⟩
  · simp only [hv, htree]
    exact B.sorted_erase h.sorted

theorem trace_enqueueTask (hc : s.rq.curr ≠ some t) (wakeup : Bool) :
    CfsTrace none s (s.enqueueTask B t wakeup now) := by
  rw [CfsSt.enqueueTask_eq hc]
  have hhead : CfsTrace none s (s.enqueueHead t wakeup now) := by
    refine (trace_updateCurr now).trans ?_
    have hupd : CfsTrace none (s.updateCurr now) ((s.updateCurr now).enqueueUpdate t) :=
      .of_same (fun _ _ => rfl) rfl rfl rfl
    refine hupd.trans ?_
    cases wakeup
    · exact trace_setVruntime _
    · exact trace_setVruntime _
  refine hhead.trans ?_
  have htree : CfsTrace none (s.enqueueHead t wakeup now)
      ((s.enqueueHead t wakeup now).enqueueTree B t) := .of_same (fun _ _ => rfl) rfl rfl rfl
  exact htree.trans (trace_setTask rfl)

/-- What `__fork_task` does after `update_curr`. -/
theorem trace_forkTask_tail : CfsTrace (some t) (s.updateCurr now) (s.forkTask t now) := by
  have hend : ∀ s : CfsSt, CfsTrace (some t) s ((s.placeTask t true).normalize t) :=
    fun s => CfsTrace.trans (CfsTrace.mono (trace_setVruntime _)) trace_normalize
  simp only [CfsSt.forkTask]
  cases s.rq.curr with
  | none => exact hend _
  | some c => exact CfsTrace.trans (CfsTrace.mono (trace_setVruntime _)) (hend _)

/-- What `dequeue_task` does after `update_curr`. -/
theorem trace_dequeueTask_tail (hc : s.rq.curr = some t) (sleep : Bool) :
    CfsTrace (if sleep then none else some t) (s.updateCurr now)
      ((s.dequeueTask B t sleep now).setCurr none) := by
  have hoff : CfsTrace none (s.updateCurr now)
      (((s.updateCurr now).dequeueUpdate t).setOnRq t false) := by
    have hupd : CfsTrace none (s.updateCurr now) ((s.updateCurr now).dequeueUpdate t) :=
      .of_same (fun _ _ => rfl) rfl rfl rfl
    exact hupd.trans (trace_setTask rfl)
  have hend : ∀ (r : Option ℕ) (s : CfsSt), CfsTrace r s (s.setCurr none) :=
    fun _ _ => .of_same (fun _ _ => rfl) rfl rfl rfl
  rw [CfsSt.dequeueTask_eq hc]
  cases sleep
  · refine CfsTrace.trans ?_ (hend _ _)
    refine CfsTrace.trans ?_ (CfsTrace.mono trace_updateMinVruntime)
    exact hoff.mono.trans trace_normalize
  · refine CfsTrace.trans ?_ (hend _ _)
    exact hoff.trans trace_updateMinVruntime

theorem trace_setNextTask {c : ℕ} : CfsTrace none s (s.setNextTask B c t now) := by
  refine .of_same ?_ ?_ ?_ ?_
  · intro u _
    by_cases hut : u = t
    · simp only [CfsSt.setNextTask, CfsSt.setCurr, CfsSt.setTask, hut, Function.update_self]
      split <;> rfl
    · simp only [CfsSt.setNextTask, CfsSt.setCurr, CfsSt.setTask, Function.update_of_ne hut]
      split <;> rfl
  all_goals
    simp only [CfsSt.setNextTask, CfsSt.setCurr, CfsSt.setTask]
    split <;> rfl

/-! ## Whole runs -/

abbrev CfsSys := SchedSys CfsRq CfsTask

structure CfsInv (B : Balancer ℕ) (s : CfsSys) : Prop where
  inv : SchedInv (cfs B) s
  weight : ∀ t, s.live t = true → (s.task t).load = nice0Load
  forward : ∀ c, Forward (s.rq c).mins (s.rq c).minVruntime
  placed : (∀ c, CfsSt.Within (s.onCpu c)) →
    (∀ c, CfsPlaced (s.onCpu c)) ∧ ∀ t, s.live t = true → InRange (s.task t).vruntime

theorem cfsInv_start : CfsInv B (.start (cfs B)) := by
  refine ⟨schedInv_start (cfs_lawful B), ?_, ?_, ?_⟩
  · intro t ht
    simp [SchedSys.start] at ht
  · intro c
    exact ⟨List.isChain_singleton _, rfl⟩
  · intro _
    constructor
    · intro c
      have hmin : InRange (-1048576#64) := by decide
      refine ⟨hmin, ?_, ?_, ?_⟩
      · intro t ht
        simp [CfsSt.currOnRq, SchedSys.onCpu, SchedSys.start, cfs, cfsInitPercpu] at ht
      · intro t ht
        simp [SchedSys.onCpu, SchedSys.start, cfs, cfsInitPercpu] at ht
      · simp [SchedSys.onCpu, SchedSys.start, cfs, cfsInitPercpu]
    · intro t ht
      simp [SchedSys.start] at ht

variable {g g' : CfsSys} {c : ℕ} {l' : CfsSt}

/-- A call on one CPU. -/
theorem CfsInv.of_call (h : CfsInv B g) (hinv : SchedInv (cfs B) g') {r v : Option ℕ}
    (hrq : g'.rq = Function.update g.rq c l'.rq) (htask : g'.task = l'.task)
    (hlive : ∀ u, g'.live u = true → g.live u = true)
    (hframe : ∀ u, r ≠ some u → (g.rq c).curr ≠ some u → l'.task u = g.task u)
    (hr : ∀ d, ∀ u ∈ (cfs B).members (g.rq d), r = some u → d = c)
    (hweight : ∀ u, (l'.task u).load = (g.task u).load) (htrace : CfsTrace v (g.onCpu c) l')
    (hplaced : l'.Within → CfsPlaced (g.onCpu c) →
      (∀ u, g.live u = true → InRange (g.task u).vruntime) →
      CfsPlaced l' ∧ ∀ u, v = some u → g'.live u = true → InRange (l'.task u).vruntime) :
    CfsInv B g' := by
  have hself : g'.rq c = l'.rq := by rw [hrq, Function.update_self]
  have hother : ∀ {d}, d ≠ c → g'.rq d = g.rq d := by
    intro d hd
    rw [hrq, Function.update_of_ne hd]
  refine ⟨hinv, ?_, ?_, ?_⟩
  · intro u hu
    rw [htask, hweight]
    exact h.weight u (hlive u hu)
  · intro d
    by_cases hd : d = c
    · rw [hd, hself]
      exact htrace.mins (h.forward c)
    · rw [hother hd]
      exact h.forward d
  · intro hb
    have hbl : l'.Within := by
      intro v hv
      exact hb c v (by rwa [SchedSys.onCpu, hself])
    have hbg : ∀ d, CfsSt.Within (g.onCpu d) := by
      intro d v hv
      by_cases hd : d = c
      · rw [hd] at hv
        exact hbl v (htrace.vtimes hv)
      · exact hb d v (by rwa [SchedSys.onCpu, hother hd])
    rcases h.placed hbg with ⟨hold, hrange⟩
    rcases hplaced hbl (hold c) hrange with ⟨hnew, hnewRange⟩
    constructor
    · intro d
      by_cases hd : d = c
      · rw [SchedSys.onCpu, hd, hself, htask]
        exact hnew
      · -- the tasks of another runqueue are not touched
        have hsame : ∀ u ∈ (cfs B).members (g.rq d), l'.task u = g.task u := by
          intro u hu
          refine hframe u (fun hru => hd (hr d u hu hru)) ?_
          intro hcu
          exact hd (h.inv.one d c u hu (FairPolicy.mem_members.mpr (.inl hcu)))
        refine (hold d).of_same ?_ ?_ ?_ ?_ ?_
        · simp only [SchedSys.onCpu, hother hd]
        · simp only [SchedSys.onCpu, hother hd]
        · simp only [SchedSys.onCpu, hother hd]
        · intro u hu
          simp only [SchedSys.onCpu, htask]
          rw [hsame u (FairPolicy.mem_members.mpr (.inr hu))]
        · intro u hu
          rw [CfsSt.currOnRq_eq_some] at hu
          simp only [SchedSys.onCpu, htask, hother hd] at hu ⊢
          have hmem := hsame u (FairPolicy.mem_members.mpr (.inl hu.1))
          rw [hmem] at hu ⊢
          exact (hold d).curr u (CfsSt.currOnRq_eq_some.mpr hu)
    · intro u hu
      rw [htask]
      by_cases hru : v = some u
      · exact hnewRange u hru hu
      · rcases htrace.stores u hru with heq | hin
        · rw [heq]
          exact hrange u (hlive u hu)
        · exact hbl _ hin

theorem CfsInv.create (h : CfsInv B g) (hl : g.live t ≠ true) (ht : t < maxTasks) :
    CfsInv B (g.create (cfs B) t) := by
  have hnot : ∀ {d u}, u ∈ (cfs B).members (g.rq d) → u ≠ t := by
    rintro d u hu rfl
    exact hl (h.inv.live u ((h.inv.rq d).onRq u hu))
  have hother : ∀ {u}, u ≠ t → (g.create (cfs B) t).task u = g.task u := by
    intro u hu
    simp [SchedSys.create, Function.update_of_ne hu]
  have hself : (g.create (cfs B) t).task t = cfsInitTask := by
    simp [SchedSys.create, cfs]
  have hlive : ∀ {u}, u ≠ t → (g.create (cfs B) t).live u = true → g.live u = true := by
    intro u hu hlu
    simpa [SchedSys.create, Function.update_of_ne hu] using hlu
  refine ⟨h.inv.create (cfs_lawful B) hl ht, ?_, h.forward, ?_⟩
  · intro u hu
    by_cases hut : u = t
    · rw [hut, hself]
      rfl
    · rw [hother hut]
      exact h.weight u (hlive hut hu)
  · intro hb
    rcases h.placed hb with ⟨hold, hrange⟩
    constructor
    · intro d
      refine (hold d).of_same rfl rfl rfl ?_ ?_
      · intro u hu
        exact congrArg CfsTask.vruntime (hother (hnot (FairPolicy.mem_members.mpr (.inr hu))))
      · intro u hu
        rw [CfsSt.currOnRq_eq_some] at hu
        have hut := hnot (FairPolicy.mem_members.mpr (.inl hu.1))
        simp only [SchedSys.onCpu, hother hut] at hu ⊢
        exact (hold d).curr u (CfsSt.currOnRq_eq_some.mpr hu)
    · intro u hu
      by_cases hut : u = t
      · rw [hut, hself]
        decide
      · rw [hother hut]
        exact hrange u (hlive hut hu)

/-- The task that runs is on the runqueue and has the one weight there is. -/
theorem CfsInv.curr (h : CfsInv B g) (c : ℕ) : ∀ u, (g.rq c).curr = some u →
    (g.task u).onRq = true ∧ (g.task u).load = nice0Load := by
  intro u hu
  have hon := (h.inv.rq c).onRq u (FairPolicy.mem_members.mpr (.inl hu))
  exact ⟨hon, h.weight u (h.inv.live u hon)⟩

/-- A load of `NICE_0_LOAD`s, as long as it fits. -/
theorem toNat_sum_nice0Load {l : List ℕ} {f : ℕ → BitVec 64} (hf : ∀ u ∈ l, f u = nice0Load)
    (hl : l.length ≤ maxTasks) : (l.map f).sum.toNat = 1024 * l.length := by
  have hmax : maxTasks = 32768 := rfl
  induction l with
  | nil => rfl
  | cons a l ih =>
      have hval : nice0Load.toNat = 1024 := rfl
      rw [List.length_cons] at hl
      rw [List.map_cons, List.sum_cons, hf a List.mem_cons_self, BitVec.toNat_add, hval,
        ih (fun u hu => hf u (List.mem_cons_of_mem a hu)) (by omega), List.length_cons,
        Nat.mod_eq_of_lt (by omega)]
      omega

/-- The load of a runqueue is that of its tasks. -/
theorem CfsInv.toNat_load (h : CfsInv B g) (c : ℕ) :
    (g.rq c).load.toNat = 1024 * ((cfs B).members (g.rq c)).length := by
  have hok := h.inv.rq c
  have hload : (g.rq c).load = (((cfs B).members (g.rq c)).map fun u => (g.task u).load).sum :=
    hok.load
  rw [hload]
  exact toNat_sum_nice0Load (fun u hu => h.weight u (h.inv.live u (hok.onRq u hu))) hok.length_le

/-- There are at most the tasks of the pool. -/
theorem CfsInv.load_le (h : CfsInv B g) (c : ℕ) :
    (g.rq c).nrRunning.toNat ≤ maxTasks ∧ (g.rq c).load.toNat ≤ 1024 * maxTasks := by
  have hok := h.inv.rq c
  constructor
  · exact hok.toNat_nrRunning.trans_le hok.length_le
  · rw [h.toNat_load c]
    exact Nat.mul_le_mul_left _ hok.length_le

theorem CfsInv.spawn {now₁ now₂ : BitVec 64} (h : CfsInv B g) (hnew : g.task t = cfsInitTask)
    (hinv : SchedInv (cfs B) (g.put c (CfsSt.spawn B (g.onCpu c) t now₁ now₂)))
    (he : (cfs B).Entered t (g.onCpu c) (CfsSt.spawn B (g.onCpu c) t now₁ now₂)) :
    CfsInv B (g.put c (CfsSt.spawn B (g.onCpu c) t now₁ now₂)) := by
  have hoff : (g.task t).onRq = false := by rw [hnew]; rfl
  have hmem : ∀ d, t ∉ (cfs B).members (g.rq d) := fun d => (h.inv.rq d).not_mem_of_off hoff
  have hc : (g.onCpu c).rq.curr ≠ some t := (h.inv.rq c).curr_ne_of_off hoff
  have ht : t ∉ (g.onCpu c).rq.tree.inorder := (h.inv.rq c).not_tree_of_off hoff
  have hq := CfsSt.quiet_forkTask (B := B) (s := g.onCpu c) (t := t) now₁
  have hcf : (CfsSt.forkTask (g.onCpu c) t now₁).rq.curr ≠ some t := by
    rw [show (CfsSt.forkTask (g.onCpu c) t now₁).rq.curr = (g.onCpu c).rq.curr from hq.curr]
    exact hc
  have htf : t ∉ (CfsSt.forkTask (g.onCpu c) t now₁).rq.tree.inorder := by
    rw [show (CfsSt.forkTask (g.onCpu c) t now₁).rq.tree.inorder = _ from hq.tree]
    exact ht
  have hofff : ((CfsSt.forkTask (g.onCpu c) t now₁).task t).onRq = false := (hq.onRq t).trans hoff
  have hspawn : CfsSt.spawn B (g.onCpu c) t now₁ now₂ =
      CfsSt.enqueueTask B (CfsSt.forkTask (g.onCpu c) t now₁) t false now₂ := by
    simp only [CfsSt.spawn, CfsSt.putTask, hofff, Bool.false_eq_true, if_false]
  have hput : CfsTrace none (CfsSt.forkTask (g.onCpu c) t now₁)
      (CfsSt.spawn B (g.onCpu c) t now₁ now₂) := by
    rw [hspawn]
    exact trace_enqueueTask hcf false
  refine h.of_call (r := some t) (v := some t) hinv rfl rfl (fun _ hu => hu)
    (fun u hu hcu => he.frame.task u hu hcu) ?_ he.frame.weight ?_ ?_
  · intro d u hu htu
    exact absurd (Option.some.inj htu ▸ hu) (hmem d)
  · exact ((trace_updateCurr now₁).mono.trans trace_forkTask_tail).trans hput.mono
  · intro hb hp hrange
    have hbf := hput.within hb
    have hload := h.load_le c
    have hfork := hp.forkTask hc (h.curr c) ht hnew hload.1 hload.2 (trace_forkTask_tail.within hbf)
    have hon : ∀ u, (CfsSt.forkTask (g.onCpu c) t now₁).rq.curr = some u →
        ((CfsSt.forkTask (g.onCpu c) t now₁).task u).onRq = true ∧
        ((CfsSt.forkTask (g.onCpu c) t now₁).task u).load = nice0Load := by
      intro u hu
      have hcu := h.curr c u (hq.curr.symm.trans hu)
      exact ⟨(hq.onRq u).trans hcu.1, (hq.weight u).trans hcu.2⟩
    have hres : CfsPlaced (CfsSt.spawn B (g.onCpu c) t now₁ now₂) := by
      rw [hspawn] at hb ⊢
      exact hfork.1.putTask hcf hon htf hfork.2 hb
    refine ⟨hres, ?_⟩
    intro u htu _
    rw [← Option.some.inj htu]
    refine (hres.tree t ?_).1.1
    exact he.tree.mem_iff.mpr List.mem_cons_self

/-- What `sched_pick_next` returns. -/
theorem CfsSt.pickNext_cases {r : Option ℕ} (h : CfsSt.pickNext B c now s = .ok (r, s')) :
    (r = none ∧ s' = s) ∨
      ∃ t, r = some t ∧ s.rq.tree.first = some t ∧ s' = s.setNextTask B c t now := by
  rw [CfsSt.pickNext] at h
  split at h
  · cases h
    exact .inl ⟨rfl, rfl⟩
  · cases hf : s.rq.tree.first with
    | none =>
        rw [hf] at h
        cases h
    | some t =>
        rw [hf] at h
        cases h
        exact .inr ⟨t, rfl, rfl, rfl⟩

/-- The tick has no other effect than `update_curr`. -/
theorem CfsSt.preempt_snd {r : Bool × CfsSt} (h : s.preempt now = .ok r) :
    r.2 = s.updateCurr now := by
  simp only [CfsSt.preempt] at h
  split at h
  · split at h
    · cases h
    · rcases bind_eq_ok.mp h with ⟨b, -, hr⟩
      cases hr
      rfl
  · cases h
    rfl

/-- The call of a task that runs on `c` is about no other runqueue. -/
theorem CfsInv.curr_home (h : CfsInv B g) (hc : (g.rq c).curr = some t) :
    ∀ d, ∀ u ∈ (cfs B).members (g.rq d), some t = some u → d = c := by
  intro d u hu htu
  rw [← Option.some.inj htu] at hu
  exact h.inv.one d c t hu (FairPolicy.mem_members.mpr (.inl hc))

theorem cfsCall_inv {e : SchedEvent} (h : CfsInv B g) (hcall : (cfs B).Call g e g') :
    CfsInv B g' := by
  have hinv := hcall.inv h.inv (cfs_lawful B)
  cases hcall with
  | idle => exact h
  | @spawn t c _ _ _ hl ht hop he =>
      cases hop
      refine (h.create hl ht).spawn ?_ hinv he
      simp [SchedSys.create, cfs]
  | pickNone _ hop _ =>
      rcases CfsSt.pickNext_cases hop with ⟨-, rfl⟩ | ⟨t, ht, -⟩
      · rwa [SchedSys.put_onCpu]
      · simp at ht
  | @pick c now t l' hc hop hk =>
      rcases CfsSt.pickNext_cases hop with ⟨ht, -⟩ | ⟨u, hu, hfirst, rfl⟩
      · simp at ht
      have htu := Option.some.inj hu
      subst htu
      have hmem : t ∈ (g.rq c).tree.inorder := by
        have hhead := hfirst
        rw [SearchTree.first_eq_head] at hhead
        exact List.mem_of_mem_head? hhead
      have hmember : t ∈ (cfs B).members (g.rq c) := FairPolicy.mem_members.mpr (.inr hmem)
      refine h.of_call (r := some t) (v := none) hinv rfl rfl (fun _ hu => hu)
        (fun u hu hcu => hk.frame.task u hu hcu) ?_ hk.frame.weight trace_setNextTask ?_
      · intro d u hu htu
        rw [← Option.some.inj htu] at hu
        exact h.inv.one d c t hu hmember
      · intro _ hp _
        have hnd := (h.inv.rq c).nodup
        rw [SchedSys.onCpu, FairPolicy.members_of_none hc] at hnd
        exact ⟨hp.setNextTask hmem ((h.inv.rq c).onRq t hmember) hnd, by simp⟩
  | @yield c now t l' hc hop hk =>
      have hl' : l' = ((CfsSt.updateCurr (g.onCpu c) now).enqueueTree B t).setCurr none :=
        Except.ok.inj (hop.symm.trans (CfsSt.yield_eq hc ((h.inv.rq c).curr_on hc) now))
      have htail : CfsTrace none (CfsSt.updateCurr (g.onCpu c) now) l' := by
        rw [hl']
        exact .of_same (fun _ _ => rfl) rfl rfl rfl
      refine h.of_call (r := none) (v := none) hinv rfl rfl (fun _ hu => hu)
        (fun u hu hcu => hk.frame.task u hu hcu) (by simp) hk.frame.weight
        ((trace_updateCurr now).trans htail) ?_
      intro hb hp _
      refine ⟨?_, by simp⟩
      have hbt := htail.within hb
      rw [hl']
      exact hp.yield hc (h.curr c t hc) hbt
  | @block c now t l' hc hop hk =>
      have hl' : l' = (CfsSt.dequeueTask B (g.onCpu c) t true now).setCurr none :=
        Except.ok.inj (hop.symm.trans (CfsSt.block_eq hc ((h.inv.rq c).curr_on hc) now))
      have htail : CfsTrace none (CfsSt.updateCurr (g.onCpu c) now) l' := by
        rw [hl']
        exact trace_dequeueTask_tail hc true
      refine h.of_call (r := some t) (v := none) hinv rfl rfl (fun _ hu => hu)
        (fun u hu hcu => hk.frame.task u hu hcu) (h.curr_home hc) hk.frame.weight
        ((trace_updateCurr now).trans htail) ?_
      intro hb hp _
      refine ⟨?_, by simp⟩
      have hbt := htail.within hb
      rw [hl']
      exact hp.dequeueTask hc (h.curr c t hc) hbt
  | @wakeup t now l' hl ht hop he =>
      have hmem : ∀ d, t ∉ (cfs B).members (g.rq d) := fun d => (h.inv.rq d).not_mem_of_off ht
      have hc : (g.onCpu ((cfs B).lastRun (g.task t))).rq.curr ≠ some t :=
        (h.inv.rq _).curr_ne_of_off ht
      have hnot : t ∉ (g.onCpu ((cfs B).lastRun (g.task t))).rq.tree.inorder :=
        (h.inv.rq _).not_tree_of_off ht
      have hl' : l' = CfsSt.enqueueTask B (g.onCpu ((cfs B).lastRun (g.task t))) t true now :=
        (Except.ok.inj hop).symm.trans (CfsSt.wakeup_eq ht now)
      refine h.of_call (r := some t) (v := none) hinv rfl rfl (fun _ hu => hu)
        (fun u hu hcu => he.frame.task u hu hcu) ?_ he.frame.weight ?_ ?_
      · intro d u hu htu
        exact absurd (Option.some.inj htu ▸ hu) (hmem d)
      · rw [hl']
        exact trace_enqueueTask hc true
      · intro hb hp hrange
        refine ⟨?_, by simp⟩
        rw [hl'] at hb ⊢
        exact hp.wakeup hc (h.curr _) hnot (hrange t hl) hb
  | @finish c now t l' hc hop hk =>
      cases hop
      have hc' : (g.onCpu c).rq.curr = some t := hc
      have htail : CfsTrace (some t) (CfsSt.updateCurr (g.onCpu c) now)
          (CfsSt.finishTask B (g.onCpu c) t now) := trace_dequeueTask_tail hc' false
      refine h.of_call (r := some t) (v := some t) hinv rfl rfl ?_
        (fun u hu hcu => hk.frame.task u hu hcu) (h.curr_home hc) hk.frame.weight
        ((trace_updateCurr now).mono.trans htail) ?_
      · intro u hu
        by_cases hut : u = t
        · simp [hut] at hu
        · simpa [Function.update_of_ne hut] using hu
      · intro hb hp _
        refine ⟨hp.dequeueTask hc (h.curr c t hc) (htail.within hb), ?_⟩
        intro u htu hu
        rw [← Option.some.inj htu] at hu
        simp at hu
  | @preempt c now t l' hc hop hk =>
      have hl' : l' = CfsSt.updateCurr (g.onCpu c) now := by
        cases hpre : CfsSt.preempt (g.onCpu c) now with
        | error f =>
            simp only [cfs, hpre] at hop
            cases hop
        | ok r =>
            simp only [cfs, hpre] at hop
            cases hop
            exact CfsSt.preempt_snd hpre
      refine h.of_call (r := none) (v := none) hinv rfl rfl (fun _ hu => hu)
        (fun u hu hcu => hk.task u hu hcu) (by simp) hk.weight ?_ ?_
      · rw [hl']
        exact trace_updateCurr now
      · intro hb hp _
        refine ⟨?_, by simp⟩
        rw [hl'] at hb ⊢
        exact hp.updateCurr (h.curr c) hb

/-- **What a whole run preserves.** -/
theorem CfsInv.of_exec {es : List SchedEvent}
    (hrun : exec (schedStep (cfs B)) (.start (cfs B)) es = .ok g) : CfsInv B g := by
  refine exec_invariant (G := fun _ _ => True) ?_ cfsInv_start (Along.trivial es _) hrun
  intro s e s' h _ hstep
  rcases (cfs_lawful B).step h.inv e with ⟨s'', hs'', hcall⟩
  rw [hstep, Except.ok.injEq] at hs''
  rw [hs'']
  exact cfsCall_inv h hcall

end Skyloft
