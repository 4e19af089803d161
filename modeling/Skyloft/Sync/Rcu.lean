import Mathlib.Data.List.Nodup
import Mathlib.Logic.Function.Basic
import Skyloft.Lib.Run

/-!
# Read-copy-update

Every kthread has a 32-bit generation counter, odd while it runs a task and even while it
is in the scheduler.  `rcu_free` puts an object on a list.  A single worker takes the
whole list, reads all counters one after the other, and then reads them again and again
until every one is even or has changed; after that it runs the callbacks.

A reader section is run by a task between `rcu_read_lock` and `rcu_read_unlock`, and its
kthread does not enter the scheduler meanwhile.  Sections and registrations are numbered
in the order in which they begin.

* `RcuSys`, `rcuStep` — kthreads, readers, registrations and the worker.
* `RcuInv` — what the worker has found out at each place of its loop.
* `rcu_grace_period` — a callback runs after the sections that began before its
  registration, and at most once.
-/

namespace Skyloft

open Run

/-! ## The system -/

inductive KPhase
  /-- before `start_schedule` -/
  | off
  /-- between `start_schedule` and `schedule` -/
  | boot
  | sched
  | task
  deriving DecidableEq

/-- A call of `rcu_free`, with the number of reader sections that had begun. -/
structure Reg where
  id : ℕ
  before : ℕ
  deriving DecidableEq

/-- Where `rcu_worker` is. -/
inductive RcuPc
  /-- not launched -/
  | off
  /-- before the test of `rcu_head` -/
  | look
  /-- before the first read of counter `i` -/
  | sample (i : ℕ)
  /-- before a later read of counter `i` -/
  | check (i : ℕ)
  /-- before the next callback -/
  | run
  deriving DecidableEq

structure RcuSys where
  phase : ℕ → KPhase
  /-- `rcu_gen` of each kthread -/
  gen : ℕ → BitVec 32
  /-- the reader sections that are open on each kthread -/
  readers : ℕ → List ℕ
  /-- how many reader sections have begun -/
  sections : ℕ
  /-- the list `rcu_head`, newest first -/
  queue : List Reg
  /-- how many objects have been registered -/
  regs : ℕ
  launched : Bool
  pc : RcuPc
  /-- `last_rcu_gen` of the worker -/
  last : ℕ → BitVec 32
  /-- the list `head` of the worker -/
  batch : List Reg
  /-- the registrations whose callbacks were called -/
  ran : List Reg

inductive RcuEvent
  /-- `start_schedule` of kthread `k` -/
  | start (k : ℕ)
  /-- `schedule` of kthread `k` up to its first increment -/
  | enter (k : ℕ)
  /-- the second increment of `schedule` -/
  | leave (k : ℕ)
  /-- `fast_schedule` of kthread `k` -/
  | fast (k : ℕ)
  /-- `rcu_read_lock` on kthread `k` -/
  | lock (k : ℕ)
  /-- `rcu_read_unlock` of section `r` on kthread `k` -/
  | unlock (k r : ℕ)
  /-- `rcu_free` or `synchronize_rcu` -/
  | free
  /-- one step of the worker -/
  | work

namespace RcuSys

def init : RcuSys where
  phase _ := .off
  gen _ := 0
  readers _ := []
  sections := 0
  queue := []
  regs := 0
  launched := false
  pc := .off
  last _ := 0
  batch := []
  ran := []

/-- A scheduler step of kthread `k`. -/
def sched (s : RcuSys) (k : ℕ) (p : KPhase) (g : BitVec 32) : RcuSys :=
  { s with phase := Function.update s.phase k p, gen := Function.update s.gen k g }

/-- The test of the worker: the counter is odd and has not changed. -/
def stuck (s : RcuSys) (i : ℕ) : Bool :=
  s.gen i &&& 1#32 == 1#32 && s.gen i == s.last i

/-- `rcu_worker`, over `n` kthreads. -/
def work (n : ℕ) (s : RcuSys) : RcuSys :=
  match s.pc with
  | .off => if s.launched then { s with pc := .look } else s
  | .look =>
      match s.queue with
      | [] => s
      | _ :: _ => { s with batch := s.queue, queue := [], pc := .sample 0 }
  | .sample i =>
      if i < n then
        { s with last := Function.update s.last i (s.gen i), pc := .sample (i + 1) }
      else { s with pc := .check 0 }
  | .check i =>
      if i < n then
        -- a failed test starts over after a sleep
        { s with pc := if s.stuck i then .check 0 else .check (i + 1) }
      else { s with pc := .run }
  | .run =>
      match s.batch with
      | [] => { s with pc := .look }
      | r :: rest => { s with batch := rest, ran := s.ran ++ [r] }

end RcuSys

/-- One step over `n` kthreads.  A kthread with an open reader section does not enter the
scheduler; an event that cannot happen changes nothing. -/
def rcuNext (n : ℕ) (s : RcuSys) : RcuEvent → RcuSys
  | .start k => if k < n ∧ s.phase k = .off then s.sched k .boot 1 else s
  | .enter k =>
      if k < n ∧ (s.phase k = .boot ∨ s.phase k = .task) ∧ s.readers k = [] then
        s.sched k .sched (s.gen k + 1)
      else s
  | .leave k => if k < n ∧ s.phase k = .sched then s.sched k .task (s.gen k + 1) else s
  | .fast k =>
      if k < n ∧ s.phase k = .task ∧ s.readers k = [] then s.sched k .task (s.gen k + 2) else s
  | .lock k =>
      if k < n ∧ s.phase k = .task then
        { s with
          readers := Function.update s.readers k (s.sections :: s.readers k)
          sections := s.sections + 1 }
      else s
  | .unlock k r => { s with readers := Function.update s.readers k ((s.readers k).erase r) }
  | .free =>
      { s with
        queue := ⟨s.regs, s.sections⟩ :: s.queue
        regs := s.regs + 1
        launched := true }
  | .work => s.work n

def rcuStep (n : ℕ) (s : RcuSys) (e : RcuEvent) : Except Empty RcuSys := .ok (rcuNext n s e)

/-! ## What the worker knows -/

/-- Some registration of `rs` was made while one of the sections `xs` was open. -/
def Waits (rs : List Reg) (xs : List ℕ) : Prop := ∃ r ∈ rs, ∃ x ∈ xs, x < r.before

theorem not_waits_nil (rs : List Reg) : ¬ Waits rs [] := by
  rintro ⟨r, -, x, hx, -⟩
  simp at hx

/-- A section that begins now is no concern of earlier registrations. -/
theorem waits_lock {rs : List Reg} {xs : List ℕ} {m : ℕ} (hb : ∀ r ∈ rs, r.before ≤ m)
    (h : Waits rs (m :: xs)) : Waits rs xs := by
  rcases h with ⟨r, hr, x, hx, hlt⟩
  rcases List.mem_cons.mp hx with rfl | hx
  · have := hb r hr
    omega
  · exact ⟨r, hr, x, hx, hlt⟩

theorem waits_unlock {rs : List Reg} {xs : List ℕ} {y : ℕ} (h : Waits rs (xs.erase y)) :
    Waits rs xs := by
  rcases h with ⟨r, hr, x, hx, hlt⟩
  exact ⟨r, hr, x, List.mem_of_mem_erase hx, hlt⟩

theorem waits_mono {rs rs' : List Reg} {xs : List ℕ} (hsub : ∀ r ∈ rs, r ∈ rs')
    (h : Waits rs xs) : Waits rs' xs := by
  rcases h with ⟨r, hr, hx⟩
  exact ⟨r, hsub r hr, hx⟩

/-- The generation of a kthread is odd from `start_schedule` and in a task. -/
def KPhase.odd : KPhase → Bool
  | .off | .sched => false
  | .boot | .task => true

namespace RcuSys

/-- Counter `k` still has the value that the worker read, as long as a section that the
batch waits for is open there. -/
def Sampled (s : RcuSys) (k : ℕ) : Prop := Waits s.batch (s.readers k) → s.last k = s.gen k

/-- No section that the batch waits for is open on kthread `k`. -/
def Passed (s : RcuSys) (k : ℕ) : Prop := ¬ Waits s.batch (s.readers k)

/-- What holds at each place of the worker. -/
def Place (n : ℕ) (s : RcuSys) : Prop :=
  match s.pc with
  | .off | .look => s.batch = []
  | .sample i => ∀ k < i, s.Sampled k
  | .check i => (∀ k < n, s.Sampled k) ∧ ∀ k < i, s.Passed k
  | .run => ∀ k < n, s.Passed k

/-- All registrations, newest first in each list. -/
def all (s : RcuSys) : List Reg := s.ran ++ s.batch ++ s.queue

end RcuSys

structure RcuInv (n : ℕ) (s : RcuSys) : Prop where
  parity : ∀ k, (s.gen k).toNat % 2 = if (s.phase k).odd then 1 else 0
  inTask : ∀ k, s.readers k ≠ [] → s.phase k = .task ∧ k < n
  before : ∀ r ∈ s.all, r.before ≤ s.sections
  numbered : ∀ r ∈ s.all, r.id < s.regs
  nodup : (s.all.map Reg.id).Nodup
  ended : ∀ k, ¬ Waits s.ran (s.readers k)
  place : s.Place n

variable {n k : ℕ} {s s' : RcuSys}

theorem rcuInv_init : RcuInv n .init where
  parity k := by simp [RcuSys.init, KPhase.odd]
  inTask k h := by simp [RcuSys.init] at h
  before r h := by simp [RcuSys.all, RcuSys.init] at h
  numbered r h := by simp [RcuSys.all, RcuSys.init] at h
  nodup := by simp [RcuSys.all, RcuSys.init]
  ended k := not_waits_nil _
  place := by simp [RcuSys.Place, RcuSys.init]

/-! ## Steps of the kthreads -/

/-- The worker's knowledge survives a step of others that opens no old section and leaves
the counters of the kthreads alone where old sections are open. -/
theorem place_of_others (h : s.Place n) (hpc : s'.pc = s.pc) (hlast : s'.last = s.last)
    (hbatch : s'.batch = s.batch)
    (hold : ∀ k, Waits s.batch (s'.readers k) →
      Waits s.batch (s.readers k) ∧ s'.gen k = s.gen k) : s'.Place n := by
  have hsampled : ∀ k, s.Sampled k → s'.Sampled k := by
    intro k hs hw
    rw [hbatch] at hw
    rw [hlast, (hold k hw).2]
    exact hs (hold k hw).1
  have hpassed : ∀ k, s.Passed k → s'.Passed k := by
    intro k hs hw
    rw [hbatch] at hw
    exact hs (hold k hw).1
  unfold RcuSys.Place at h ⊢
  rw [hpc, hbatch]
  cases hp : s.pc with
  | off | look => simpa [hp] using h
  | sample i =>
      simp only [hp] at h
      exact fun k hk => hsampled k (h k hk)
  | check i =>
      simp only [hp] at h
      exact ⟨fun k hk => hsampled k (h.1 k hk), fun k hk => hpassed k (h.2 k hk)⟩
  | run =>
      simp only [hp] at h
      exact fun k hk => hpassed k (h k hk)

theorem sched_inv (h : RcuInv n s) (hk : s.readers k = []) {p : KPhase} {g : BitVec 32}
    (hg : g.toNat % 2 = if p.odd then 1 else 0) : RcuInv n (s.sched k p g) where
  parity j := by
    by_cases hj : j = k
    · subst hj
      simpa [RcuSys.sched] using hg
    · simpa [RcuSys.sched, Function.update_of_ne hj] using h.parity j
  inTask j hr := by
    by_cases hj : j = k
    · subst hj
      exact absurd hk hr
    · simpa [RcuSys.sched, Function.update_of_ne hj] using h.inTask j hr
  before := h.before
  numbered := h.numbered
  nodup := h.nodup
  ended := h.ended
  place := by
    refine place_of_others h.place rfl rfl rfl ?_
    intro j hw
    refine ⟨hw, ?_⟩
    by_cases hj : j = k
    · subst hj
      exact absurd (hk ▸ hw) (not_waits_nil _)
    · simp [RcuSys.sched, Function.update_of_ne hj]

/-- A kthread outside a task has no open section. -/
theorem RcuInv.readers_nil (h : RcuInv n s) (hp : s.phase k ≠ .task) : s.readers k = [] := by
  by_contra hr
  exact hp (h.inTask k hr).1

theorem toNat_add_one_mod (g : BitVec 32) : (g + 1).toNat % 2 = (g.toNat + 1) % 2 := by
  rw [BitVec.toNat_add]
  simp only [BitVec.ofNat_eq_ofNat, BitVec.toNat_ofNat]
  omega

theorem toNat_add_two_mod (g : BitVec 32) : (g + 2).toNat % 2 = g.toNat % 2 := by
  rw [BitVec.toNat_add]
  simp only [BitVec.ofNat_eq_ofNat, BitVec.toNat_ofNat]
  omega

/-- Opening or closing a section on kthread `k`. -/
theorem readers_inv (h : RcuInv n s) {xs : List ℕ} {m : ℕ} (hm : s.sections ≤ m)
    (hk : xs ≠ [] → s.phase k = .task ∧ k < n)
    (hw : ∀ rs : List Reg, (∀ r ∈ rs, r.before ≤ s.sections) → Waits rs xs →
      Waits rs (s.readers k)) :
    RcuInv n { s with readers := Function.update s.readers k xs, sections := m } := by
  have hbatch : ∀ r ∈ s.batch, r.before ≤ s.sections := by
    intro r hr
    exact h.before r (by simp [RcuSys.all, hr])
  have hran : ∀ r ∈ s.ran, r.before ≤ s.sections := by
    intro r hr
    exact h.before r (by simp [RcuSys.all, hr])
  refine ⟨h.parity, ?_, ?_, h.numbered, h.nodup, ?_, ?_⟩
  · intro j hj
    by_cases hjk : j = k
    · subst hjk
      exact hk (by simpa using hj)
    · exact h.inTask j (by simpa [Function.update_of_ne hjk] using hj)
  · intro r hr
    exact Nat.le_trans (h.before r hr) hm
  · intro j hj
    by_cases hjk : j = k
    · subst hjk
      exact h.ended j (hw s.ran hran (by simpa using hj))
    · exact h.ended j (by simpa [Function.update_of_ne hjk] using hj)
  · refine place_of_others h.place rfl rfl rfl ?_
    intro j hj
    refine ⟨?_, rfl⟩
    by_cases hjk : j = k
    · subst hjk
      exact hw s.batch hbatch (by simpa using hj)
    · simpa [Function.update_of_ne hjk] using hj

theorem free_inv (h : RcuInv n s) : RcuInv n (rcuNext n s .free) := by
  have hsplit : ∀ r, r ∈ (rcuNext n s .free).all → r = ⟨s.regs, s.sections⟩ ∨ r ∈ s.all := by
    intro r hr
    simp only [rcuNext, RcuSys.all, List.mem_append, List.mem_cons] at hr ⊢
    tauto
  refine ⟨h.parity, h.inTask, ?_, ?_, ?_, h.ended, ?_⟩
  · intro r hr
    rcases hsplit r hr with rfl | hr
    · exact Nat.le_refl _
    · exact h.before r hr
  · intro r hr
    rcases hsplit r hr with rfl | hr
    · exact Nat.lt_succ_self _
    · exact Nat.lt_succ_of_lt (h.numbered r hr)
  · -- the new number is larger than all the others
    have hnew : s.regs ∉ s.all.map Reg.id := by
      intro hm
      rcases List.mem_map.mp hm with ⟨r, hr, hid⟩
      exact absurd (h.numbered r hr) (by omega)
    have hperm : ((rcuNext n s .free).all.map Reg.id).Perm (s.regs :: s.all.map Reg.id) := by
      have hp : (rcuNext n s .free).all.Perm (⟨s.regs, s.sections⟩ :: s.all) :=
        List.perm_middle
      exact hp.map Reg.id
    rw [hperm.nodup_iff]
    exact List.nodup_cons.mpr ⟨hnew, h.nodup⟩
  · exact place_of_others h.place rfl rfl rfl fun k hw => ⟨hw, rfl⟩

/-! ## Steps of the worker -/

/-- What the worker reads and writes leaves the readers and the set of registrations alone. -/
theorem RcuInv.of_worker (h : RcuInv n s) (hphase : s'.phase = s.phase) (hgen : s'.gen = s.gen)
    (hreaders : s'.readers = s.readers) (hsections : s'.sections = s.sections)
    (hregs : s'.regs = s.regs) (hall : s'.all.Perm s.all)
    (hended : ∀ k, ¬ Waits s'.ran (s.readers k)) (hplace : s'.Place n) : RcuInv n s' where
  parity k := by
    rw [hgen, hphase]
    exact h.parity k
  inTask k hr := by
    rw [hreaders] at hr
    rw [hphase]
    exact h.inTask k hr
  before r hr := by
    rw [hsections]
    exact h.before r (hall.mem_iff.mp hr)
  numbered r hr := by
    rw [hregs]
    exact h.numbered r (hall.mem_iff.mp hr)
  nodup := by
    rw [(hall.map Reg.id).nodup_iff]
    exact h.nodup
  ended k := by
    rw [hreaders]
    exact hended k
  place := hplace

/-- A test that passes: an old section would have kept the counter odd and unchanged. -/
theorem passed_of_not_stuck (h : RcuInv n s) (hs : s.Sampled k) (hno : s.stuck k = false) :
    s.Passed k := by
  intro hw
  have hopen : s.readers k ≠ [] := by
    intro hnil
    rw [hnil] at hw
    exact not_waits_nil _ hw
  have hodd : (s.gen k).toNat % 2 = 1 := by
    have := h.parity k
    rwa [(h.inTask k hopen).1, KPhase.odd, if_pos rfl] at this
  have hbit : s.gen k &&& 1#32 = 1#32 := by
    apply BitVec.eq_of_toNat_eq
    rw [BitVec.toNat_and]
    simpa [Nat.and_one_is_mod] using hodd
  simp [RcuSys.stuck, hbit, hs hw] at hno

theorem work_inv (h : RcuInv n s) : RcuInv n (s.work n) := by
  have hplace := h.place
  unfold RcuSys.Place at hplace
  cases hpc : s.pc with
  | off =>
      simp only [hpc] at hplace
      by_cases hl : s.launched = true
      · simp only [RcuSys.work, hpc, hl, if_true]
        refine h.of_worker rfl rfl rfl rfl rfl (.refl _) h.ended ?_
        simpa [RcuSys.Place] using hplace
      · simpa [RcuSys.work, hpc, hl] using h
  | look =>
      simp only [hpc] at hplace
      cases hq : s.queue with
      | nil => simpa only [RcuSys.work, hpc, hq] using h
      | cons r rest =>
          simp only [RcuSys.work, hpc, hq]
          refine h.of_worker rfl rfl rfl rfl rfl ?_ h.ended ?_
          · simp [RcuSys.all, hplace, hq]
          · simp [RcuSys.Place]
  | sample i =>
      simp only [hpc] at hplace
      by_cases hi : i < n
      · simp only [RcuSys.work, hpc, hi, if_true]
        refine h.of_worker rfl rfl rfl rfl rfl (.refl _) h.ended ?_
        intro k hk hw
        by_cases hki : k = i
        · simp [hki]
        · simpa [Function.update_of_ne hki] using hplace k (by omega) hw
      · simp only [RcuSys.work, hpc, hi, if_false]
        refine h.of_worker rfl rfl rfl rfl rfl (.refl _) h.ended ?_
        refine ⟨fun k hk => hplace k (by omega), fun k hk => ?_⟩
        omega
  | check i =>
      simp only [hpc] at hplace
      by_cases hi : i < n
      · simp only [RcuSys.work, hpc, hi, if_true]
        refine h.of_worker rfl rfl rfl rfl rfl (.refl _) h.ended ?_
        by_cases hs : s.stuck i = true
        · simp only [RcuSys.Place, hs, if_true]
          refine ⟨hplace.1, fun k hk => ?_⟩
          omega
        · rw [Bool.not_eq_true] at hs
          simp only [RcuSys.Place, hs, Bool.false_eq_true, if_false]
          refine ⟨hplace.1, fun k hk => ?_⟩
          by_cases hki : k = i
          · rw [hki]
            have hp : s.Passed i := passed_of_not_stuck h (hplace.1 i hi) hs
            exact hp
          · exact hplace.2 k (by omega)
      · simp only [RcuSys.work, hpc, hi, if_false]
        refine h.of_worker rfl rfl rfl rfl rfl (.refl _) h.ended ?_
        exact fun k hk => hplace.2 k (by omega)
  | run =>
      simp only [hpc] at hplace
      cases hb : s.batch with
      | nil =>
          simp only [RcuSys.work, hpc, hb]
          refine h.of_worker rfl rfl rfl rfl rfl ?_ h.ended ?_
          · simp [RcuSys.all, hb]
          · simp [RcuSys.Place]
      | cons r rest =>
          simp only [RcuSys.work, hpc, hb]
          refine h.of_worker rfl rfl rfl rfl rfl ?_ ?_ ?_
          · simp [RcuSys.all, hb]
          · intro k hw
            rcases hw with ⟨q, hq, x, hx, hlt⟩
            rcases List.mem_append.mp hq with hq | hq
            · exact h.ended k ⟨q, hq, x, hx, hlt⟩
            · have hk : k < n := (h.inTask k (List.ne_nil_of_mem hx)).2
              have hqb : q ∈ s.batch := by simp_all
              exact hplace k hk ⟨q, hqb, x, hx, hlt⟩
          · simp only [RcuSys.Place]
            intro k hk hw
            exact hplace k hk (waits_mono (fun q hq => by simp [hb, hq]) hw)

/-! ## Runs -/

theorem rcuNext_inv (h : RcuInv n s) (e : RcuEvent) : RcuInv n (rcuNext n s e) := by
  cases e with
  | start k =>
      simp only [rcuNext]
      split
      · rename_i hk
        exact sched_inv h (h.readers_nil (by simp [hk.2])) (by decide)
      · exact h
  | enter k =>
      simp only [rcuNext]
      split
      · rename_i hk
        refine sched_inv h hk.2.2 ?_
        have hodd : (s.gen k).toNat % 2 = 1 := by
          have hpar := h.parity k
          rcases hk.2.1 with hp | hp <;> simpa [hp, KPhase.odd] using hpar
        rw [toNat_add_one_mod]
        simp only [KPhase.odd, Bool.false_eq_true, if_false]
        omega
      · exact h
  | leave k =>
      simp only [rcuNext]
      split
      · rename_i hk
        refine sched_inv h (h.readers_nil (by simp [hk.2])) ?_
        have hpar := h.parity k
        rw [hk.2] at hpar
        simp only [KPhase.odd, Bool.false_eq_true, if_false] at hpar
        rw [toNat_add_one_mod]
        simp only [KPhase.odd, if_true]
        omega
      · exact h
  | fast k =>
      simp only [rcuNext]
      split
      · rename_i hk
        refine sched_inv h hk.2.2 ?_
        have hpar := h.parity k
        rw [hk.2.1] at hpar
        rw [toNat_add_two_mod]
        exact hpar
      · exact h
  | lock k =>
      simp only [rcuNext]
      split
      · rename_i hk
        exact readers_inv h (Nat.le_succ _) (fun _ => ⟨hk.2, hk.1⟩) fun rs hb hw => waits_lock hb hw
      · exact h
  | unlock k r =>
      refine readers_inv h (Nat.le_refl _) ?_ fun rs _ hw => waits_unlock hw
      intro hne
      refine h.inTask k fun hnil => hne ?_
      simp [hnil]
  | free => exact free_inv h
  | work => exact work_inv h

/-- **The grace period.**  In every state of every run over any number of kthreads, the
sections that are open began after the registration of every callback that was called, and
no callback was called twice. -/
theorem rcu_grace_period (n : ℕ) (es : List RcuEvent) {s : RcuSys}
    (hs : exec (rcuStep n) .init es = .ok s) :
    (∀ r ∈ s.ran, ∀ k, ∀ x ∈ s.readers k, r.before ≤ x) ∧ (s.ran.map Reg.id).Nodup := by
  have hinv : RcuInv n s := by
    refine exec_invariant (fun s e s' h _ hstep => ?_) rcuInv_init
      (Along.trivial es RcuSys.init) hs
    cases hstep
    exact rcuNext_inv h e
  constructor
  · intro r hr k x hx
    by_contra hlt
    exact hinv.ended k ⟨r, hr, x, hx, by omega⟩
  · have hsub : (s.ran.map Reg.id).Sublist (s.all.map Reg.id) := by
      refine List.Sublist.map _ ?_
      simp [RcuSys.all]
    exact hinv.nodup.sublist hsub

/-- Two kthreads run tasks; a section is open on kthread 1 when an object is registered.
The first test of counter 1 fails, and the callback is called after the section has ended
and kthread 1 has entered the scheduler. -/
def rcuRun : List RcuEvent :=
  [.start 0, .enter 0, .leave 0, .start 1, .enter 1, .leave 1, .lock 1, .free, .work, .work,
    .work, .work, .work, .fast 0, .work, .work, .unlock 1 0, .enter 1, .work, .work, .work, .work]

theorem rcu_grace_period_rcuRun :
    (final (rcuStep 2) .init rcuRun).ran = [⟨0, 1⟩] ∧
      (∀ r ∈ (final (rcuStep 2) .init rcuRun).ran, ∀ k,
        ∀ x ∈ (final (rcuStep 2) .init rcuRun).readers k, r.before ≤ x) ∧
      ((final (rcuStep 2) .init rcuRun).ran.map Reg.id).Nodup :=
  ⟨by decide, rcu_grace_period 2 rcuRun (exec_final (by decide))⟩

end Skyloft
