import Mathlib.Data.List.Nodup
import Mathlib.Logic.Function.Basic
import Skyloft.Lib.Park
import Skyloft.Lib.Run

/-!
# Mutexes and condition variables

A mutex is a flag and a list of waiters under a spinlock.  `mutex_unlock` hands the mutex to
the oldest waiter without clearing the flag, and wakes that task after it dropped the
spinlock.  `condvar_wait` takes the spinlock of the condition variable, releases the mutex
while it holds that lock, and gives the lock up when it blocks.

`task_block` releases its spinlock and sleeps in one step, and `task_wakeup` wakes a task
that sleeps; how the scheduler achieves this is in `Skyloft.Sched.Wakeup`.  A section under
the spinlock of the mutex is entered in one step and done in another.

* `MuSys`, `muStep` — tasks that lock, unlock, wait and signal.
* `MuInv` — who owns the mutex, and who is about to be woken by whom.
* `mutex_condvar` — what the calls guarantee, in every interleaving.
-/

namespace Skyloft

open Run

/-! ## The system -/

/-- Who calls `mutex_unlock`. -/
inductive UnlockFor
  | caller
  /-- `condvar_wait` -/
  | wait
  deriving DecidableEq

/-- Where a task is. -/
inductive MuPc
  /-- outside, without the mutex -/
  | out
  /-- between acquiring and releasing the mutex -/
  | own
  /-- `mutex_try_lock`, before and after its spinlock -/
  | trySpin
  | tryIn
  /-- `mutex_lock` -/
  | lockSpin
  | lockIn
  /-- in `task_block`, for the mutex -/
  | lockBlocked
  /-- `mutex_unlock` -/
  | unlockSpin (k : UnlockFor)
  | unlockIn (k : UnlockFor)
  /-- the mutex is handed to `u`, the wakeup is to come -/
  | unlockWake (k : UnlockFor) (u : ℕ)
  /-- `condvar_wait`, before its spinlock -/
  | waitSpin
  /-- `condvar_wait`, after `mutex_unlock` returned -/
  | waitAdd
  /-- in `task_block`, for the condition variable -/
  | waitBlocked
  /-- `condvar_signal`, or `condvar_broadcast`; the caller may own the mutex -/
  | sigSpin (owns all : Bool)
  | sigIn (owns all : Bool)
  /-- tasks are off the list and are to be woken -/
  | sigWake (owns : Bool) (us : List ℕ)
  deriving DecidableEq

/-- Where `mutex_unlock` returns to. -/
def UnlockFor.after : UnlockFor → MuPc
  | .caller => .out
  | .wait => .waitAdd

structure MuSys where
  held : Bool
  waiters : List ℕ
  /-- the holder of the mutex's spinlock -/
  lock : Option ℕ
  cvWaiters : List ℕ
  /-- the holder of the condition variable's spinlock -/
  cvLock : Option ℕ
  pc : ℕ → MuPc
  /-- asleep in `task_block` -/
  blocked : ℕ → Bool
  /-- the tasks that joined the waiters of the mutex, in order -/
  arrivals : List ℕ
  /-- the tasks that were handed the mutex -/
  grants : List ℕ
  /-- the tasks that released the mutex inside `condvar_wait`, in order -/
  released : List ℕ
  /-- the tasks that a signal or broadcast took off the list -/
  signalled : List ℕ

inductive MuFault
  /-- the assertion of `task_wakeup` -/
  | notBlocked
  deriving DecidableEq

namespace MuSys

def start : MuSys where
  held := false
  waiters := []
  lock := none
  cvWaiters := []
  cvLock := none
  pc _ := .out
  blocked _ := false
  arrivals := []
  grants := []
  released := []
  signalled := []

def setPc (s : MuSys) (i : ℕ) (p : MuPc) : MuSys :=
  { s with pc := Function.update s.pc i p }

/-- A spinlock of the mutex, if it is free. -/
def spin (s : MuSys) (i : ℕ) (p : MuPc) : MuSys :=
  if s.lock = none then { s.setPc i p with lock := some i } else s

/-- `task_wakeup` -/
def wakeup (s : MuSys) (u : ℕ) : Except MuFault MuSys :=
  if s.blocked u then .ok { s with blocked := Function.update s.blocked u false }
  else .error .notBlocked

/-- The releases inside `condvar_wait`, with this one. -/
def releasedBy (s : MuSys) (i : ℕ) : UnlockFor → List ℕ
  | .caller => s.released
  | .wait => s.released ++ [i]

end MuSys

namespace MuPc

/-- The task has the mutex and is awake. -/
def Owning : MuPc → Prop
  | .own | .unlockSpin _ | .unlockIn _ | .waitSpin => True
  | .sigSpin owns _ | .sigIn owns _ | .sigWake owns _ => owns = true
  | .out | .trySpin | .tryIn | .lockSpin | .lockIn | .lockBlocked | .unlockWake _ _ | .waitAdd
  | .waitBlocked => False

/-- The tasks that a task has taken off a list and is about to wake. -/
def toWake : MuPc → List ℕ
  | .unlockWake _ u => [u]
  | .sigWake _ us => us
  | .out | .own | .trySpin | .tryIn | .lockSpin | .lockIn | .lockBlocked | .unlockSpin _
  | .unlockIn _ | .waitSpin | .waitAdd | .waitBlocked | .sigSpin _ _ | .sigIn _ _ => []

/-- Inside `condvar_wait`, between the release of the mutex and the list. -/
def Leaving : MuPc → Prop
  | .unlockWake k _ => k = .wait
  | .waitAdd => True
  | .out | .own | .trySpin | .tryIn | .lockSpin | .lockIn | .lockBlocked | .unlockSpin _
  | .unlockIn _ | .waitSpin | .waitBlocked | .sigSpin _ _ | .sigIn _ _ | .sigWake _ _ => False

/-- Under the spinlock of the condition variable. -/
def UnderCv : MuPc → Prop
  | .unlockSpin k | .unlockIn k | .unlockWake k _ => k = .wait
  | .waitAdd | .sigIn _ _ => True
  | .out | .own | .trySpin | .tryIn | .lockSpin | .lockIn | .lockBlocked | .waitSpin
  | .waitBlocked | .sigSpin _ _ | .sigWake _ _ => False

theorem Leaving.underCv {p : MuPc} (h : p.Leaving) : p.UnderCv := by
  cases p <;> simp_all [Leaving, UnderCv]

end MuPc

/-- The task has acquired the mutex and not released it: it is awake with it, or it was
handed the mutex in its sleep. -/
def MuSys.Between (s : MuSys) (i : ℕ) : Prop :=
  (s.pc i).Owning ∨ (s.pc i = .lockBlocked ∧ i ∉ s.waiters)

structure MuInv (s : MuSys) : Prop where
  unique : ∀ i j, s.Between i → s.Between j → i = j
  held : s.held = true ↔ ∃ i, s.Between i
  waiters : ∀ i ∈ s.waiters, s.pc i = .lockBlocked ∧ s.blocked i = true
  nodup : s.waiters.Nodup
  busy : s.waiters ≠ [] → s.held = true
  cvWaiters : ∀ i ∈ s.cvWaiters, s.pc i = .waitBlocked ∧ s.blocked i = true
  cvNodup : s.cvWaiters.Nodup
  /-- a task about to be woken sleeps, and is on no list any more -/
  hand : ∀ j i, i ∈ (s.pc j).toWake → s.blocked i = true ∧ i ∉ s.waiters ∧ i ∉ s.cvWaiters ∧
    (s.pc i = .lockBlocked ∨ s.pc i = .waitBlocked)
  handNodup : ∀ j, (s.pc j).toWake.Nodup
  oneHand : ∀ j l i, i ∈ (s.pc j).toWake → i ∈ (s.pc l).toWake → j = l
  /-- no sleeper is forgotten -/
  blocked : ∀ i, s.blocked i = true →
    i ∈ s.waiters ∨ i ∈ s.cvWaiters ∨ ∃ j, i ∈ (s.pc j).toWake
  cvLock : ∀ i, (s.pc i).UnderCv → s.cvLock = some i
  fifo : s.arrivals = s.grants ++ s.waiters
  leaving : ∀ i, (s.pc i).Leaving → s.released = s.signalled ++ s.cvWaiters ++ [i]
  listed : (∀ i, ¬ (s.pc i).Leaving) → s.released = s.signalled ++ s.cvWaiters

variable {s s' : MuSys} {i : ℕ}

/-- The sleepers of the mutex and of the condition variable. -/
def MuSys.park (s : MuSys) : Park ℕ where
  waiters := s.waiters ++ s.cvWaiters
  hand j := (s.pc j).toWake
  asleep := s.blocked

/-- Where the sleepers are. -/
structure MuSys.Placed (s : MuSys) : Prop where
  lock : ∀ j ∈ s.waiters, s.pc j = .lockBlocked
  cv : ∀ j ∈ s.cvWaiters, s.pc j = .waitBlocked
  asleep : ∀ j, s.blocked j = true → s.pc j = .lockBlocked ∨ s.pc j = .waitBlocked

theorem MuInv.parked (h : MuInv s) : s.park.Ok := by
  constructor
  · intro j hj
    rcases List.mem_append.mp hj with hj | hj
    · exact (h.waiters j hj).2
    · exact (h.cvWaiters j hj).2
  · refine List.nodup_append.mpr ⟨h.nodup, h.cvNodup, ?_⟩
    rintro a ha b hb rfl
    have hlock := (h.waiters a ha).1
    rw [(h.cvWaiters a hb).1] at hlock
    simp at hlock
  · intro j l hl
    have hk := h.hand j l hl
    exact ⟨hk.1, by simp [MuSys.park, hk.2.1, hk.2.2.1]⟩
  · exact h.handNodup
  · exact h.oneHand
  · intro j hj
    rcases h.blocked j hj with hk | hk | hk
    · exact .inl (by simp [MuSys.park, hk])
    · exact .inl (by simp [MuSys.park, hk])
    · exact .inr hk

theorem MuInv.placed (h : MuInv s) : s.Placed := by
  refine ⟨fun j hj => (h.waiters j hj).1, fun j hj => (h.cvWaiters j hj).1, fun j hj => ?_⟩
  rcases h.blocked j hj with hk | hk | ⟨l, hk⟩
  · exact .inl (h.waiters j hk).1
  · exact .inr (h.cvWaiters j hk).1
  · exact (h.hand l j hk).2.2.2

/-- The invariant from the sleepers, and what is left. -/
theorem MuInv.of_park (hpark : s.park.Ok) (hplaced : s.Placed)
    (hunique : ∀ i j, s.Between i → s.Between j → i = j)
    (hheld : s.held = true ↔ ∃ i, s.Between i) (hbusy : s.waiters ≠ [] → s.held = true)
    (hlock : ∀ j, (s.pc j).UnderCv → s.cvLock = some j) (hfifo : s.arrivals = s.grants ++ s.waiters)
    (hleaving : ∀ j, (s.pc j).Leaving → s.released = s.signalled ++ s.cvWaiters ++ [j])
    (hlisted : (∀ j, ¬ (s.pc j).Leaving) → s.released = s.signalled ++ s.cvWaiters) : MuInv s := by
  have hnd := List.nodup_append.mp hpark.nodup
  refine ⟨hunique, hheld, ?_, hnd.1, hbusy, ?_, hnd.2.1, ?_, hpark.handNodup, hpark.oneHand, ?_,
    hlock, hfifo, hleaving, hlisted⟩
  · intro j hj
    exact ⟨hplaced.lock j hj, hpark.listed j (List.mem_append_left _ hj)⟩
  · intro j hj
    exact ⟨hplaced.cv j hj, hpark.listed j (List.mem_append_right _ hj)⟩
  · intro j l hl
    have hk := hpark.inHand j l hl
    have hnot := hk.2
    simp only [MuSys.park, List.mem_append, not_or] at hnot
    exact ⟨hk.1, hnot.1, hnot.2, hplaced.asleep l hk.1⟩
  · intro j hj
    rcases hpark.kept j hj with hk | hk
    · rcases List.mem_append.mp hk with hk | hk
      · exact .inl hk
      · exact .inr (.inl hk)
    · exact .inr (.inr hk)

/-- A task that sleeps is in one of its two wait points. -/
theorem MuInv.awake (h : MuInv s) (h₁ : s.pc i ≠ .lockBlocked) (h₂ : s.pc i ≠ .waitBlocked) :
    s.blocked i = false := by
  by_contra hb
  rcases h.placed.asleep i (by simpa using hb) with hp | hp
  · exact h₁ hp
  · exact h₂ hp

/-- A task that is awake moves on, and nobody goes to sleep. -/
theorem MuInv.placed_move (h : MuInv s) {p : MuPc} (hpc : s'.pc = Function.update s.pc i p)
    (hawake : s.blocked i = false) (hwaiters : ∀ j ∈ s'.waiters, j ∈ s.waiters)
    (hcv : ∀ j ∈ s'.cvWaiters, j ∈ s.cvWaiters)
    (hblocked : ∀ j, s'.blocked j = true → s.blocked j = true) : s'.Placed := by
  have hsleep : ∀ {j}, s.blocked j = true → s'.pc j = s.pc j := by
    intro j hj
    rw [hpc, Function.update_of_ne]
    rintro rfl
    simp [hawake] at hj
  constructor
  · intro j hj
    have hk := h.waiters j (hwaiters j hj)
    rw [hsleep hk.2]
    exact hk.1
  · intro j hj
    have hk := h.cvWaiters j (hcv j hj)
    rw [hsleep hk.2]
    exact hk.1
  · intro j hj
    rw [hsleep (hblocked j hj)]
    exact h.placed.asleep j (hblocked j hj)

/-- A task that is awake goes to sleep at the end of one of the lists. -/
theorem MuInv.placed_sleep (h : MuInv s) {p : MuPc} (hpc : s'.pc = Function.update s.pc i p)
    (hawake : s.blocked i = false) (hp : p = .lockBlocked ∨ p = .waitBlocked)
    (hwaiters : ∀ j ∈ s'.waiters, j ∈ s.waiters ∨ (j = i ∧ p = .lockBlocked))
    (hcv : ∀ j ∈ s'.cvWaiters, j ∈ s.cvWaiters ∨ (j = i ∧ p = .waitBlocked))
    (hblocked : s'.blocked = Function.update s.blocked i true) : s'.Placed := by
  have hsleep : ∀ {j}, s.blocked j = true → s'.pc j = s.pc j := by
    intro j hj
    rw [hpc, Function.update_of_ne]
    rintro rfl
    simp [hawake] at hj
  constructor
  · intro j hj
    rcases hwaiters j hj with hk | ⟨rfl, rfl⟩
    · rw [hsleep (h.waiters j hk).2]
      exact (h.waiters j hk).1
    · rw [hpc, Function.update_self]
  · intro j hj
    rcases hcv j hj with hk | ⟨rfl, rfl⟩
    · rw [hsleep (h.cvWaiters j hk).2]
      exact (h.cvWaiters j hk).1
    · rw [hpc, Function.update_self]
  · intro j hj
    by_cases hji : j = i
    · rw [hji, hpc, Function.update_self]
      exact hp
    · rw [hblocked, Function.update_of_ne hji] at hj
      rw [hsleep hj]
      exact h.placed.asleep j hj

/-- The hands after task `i` moved on. -/
theorem MuSys.hand_park {p : MuPc} (hpc : s'.pc = Function.update s.pc i p) :
    s'.park.hand = Function.update s.park.hand i p.toWake := by
  change (fun j => (s'.pc j).toWake) = _
  rw [hpc]
  funext j
  exact Function.apply_update (fun _ => MuPc.toWake) s.pc i p j

/-- The hands are as before when that of `i` is. -/
theorem MuSys.hand_park_same {p : MuPc} (hpc : s'.pc = Function.update s.pc i p)
    (hwake : p.toWake = (s.pc i).toWake) : s'.park.hand = s.park.hand := by
  rw [MuSys.hand_park hpc, hwake]
  exact Function.update_eq_self i s.park.hand

theorem leaving_update {p : MuPc} (hleave : p.Leaving ↔ (s.pc i).Leaving) (j : ℕ) :
    (Function.update s.pc i p j).Leaving ↔ (s.pc j).Leaving := by
  by_cases hj : j = i
  · rw [hj, Function.update_self, hleave]
  · rw [Function.update_of_ne hj]

/-- Who is under the spinlock of the condition variable was there before. -/
theorem MuInv.cvLock_move (h : MuInv s) {p : MuPc} (hpc : s'.pc = Function.update s.pc i p)
    (hlock : s'.cvLock = s.cvLock) (hcv : p.UnderCv → (s.pc i).UnderCv) :
    ∀ j, (s'.pc j).UnderCv → s'.cvLock = some j := by
  intro j hj
  rw [hpc] at hj
  rw [hlock]
  by_cases hji : j = i
  · rw [hji, Function.update_self] at hj
    rw [hji]
    exact h.cvLock i (hcv hj)
  · rw [Function.update_of_ne hji] at hj
    exact h.cvLock j hj

/-- A step of one task along its code that changes no list and wakes no one, with what it
does to the ownership of the mutex. -/
theorem MuInv.along (h : MuInv s) {p : MuPc} (hpc : s'.pc = Function.update s.pc i p)
    (hwaiters : s'.waiters = s.waiters) (hcv : s'.cvWaiters = s.cvWaiters)
    (hblocked : s'.blocked = s.blocked) (hfifo : s'.arrivals = s'.grants ++ s'.waiters)
    (hreleased : s'.released = s.released) (hsignalled : s'.signalled = s.signalled)
    (hunique : ∀ j l, s'.Between j → s'.Between l → j = l)
    (hheld : s'.held = true ↔ ∃ j, s'.Between j) (hbusy : s'.waiters ≠ [] → s'.held = true)
    (hwake : p.toWake = (s.pc i).toWake) (hleave : p.Leaving ↔ (s.pc i).Leaving)
    (hawake : s.blocked i = false)
    (hlock : ∀ j, (s'.pc j).UnderCv → s'.cvLock = some j) : MuInv s' := by
  have hpark : s'.park.Ok := by
    refine h.parked.of_perm ?_ (MuSys.hand_park_same hpc hwake) hblocked
    simp [MuSys.park, hwaiters, hcv]
  have hplaced : s'.Placed := by
    refine h.placed_move hpc hawake ?_ ?_ ?_
    · simp [hwaiters]
    · simp [hcv]
    · simp [hblocked]
  refine .of_park hpark hplaced hunique hheld hbusy hlock hfifo ?_ ?_
  · simpa only [hpc, leaving_update hleave, hreleased, hsignalled, hcv] using h.leaving
  · simpa only [hpc, leaving_update hleave, hreleased, hsignalled, hcv] using h.listed

/-- The same for a step that leaves the ownership alone. -/
theorem MuInv.move (h : MuInv s) {p : MuPc} (hpc : s'.pc = Function.update s.pc i p)
    (hheld : s'.held = s.held) (hwaiters : s'.waiters = s.waiters)
    (hcv : s'.cvWaiters = s.cvWaiters) (hblocked : s'.blocked = s.blocked)
    (harrivals : s'.arrivals = s.arrivals) (hgrants : s'.grants = s.grants)
    (hreleased : s'.released = s.released) (hsignalled : s'.signalled = s.signalled)
    (hbetween : s'.Between i ↔ s.Between i) (hwake : p.toWake = (s.pc i).toWake)
    (hleave : p.Leaving ↔ (s.pc i).Leaving) (hawake : s.blocked i = false)
    (hlock : ∀ j, (s'.pc j).UnderCv → s'.cvLock = some j) : MuInv s' := by
  have hb : ∀ j, s'.Between j ↔ s.Between j := by
    intro j
    by_cases hj : j = i
    · rw [hj]
      exact hbetween
    · simp only [MuSys.Between, hpc, Function.update_of_ne hj, hwaiters]
  refine h.along hpc hwaiters hcv hblocked ?_ hreleased hsignalled ?_ ?_ ?_ hwake hleave hawake
    hlock
  · rw [harrivals, hgrants, hwaiters]
    exact h.fifo
  · simpa only [hb] using h.unique
  · simpa only [hb, hheld] using h.held
  · rw [hwaiters, hheld]
    exact h.busy

/-! ## Steps -/

theorem MuInv.setPc (h : MuInv s) {p : MuPc} (hbetween : (s.setPc i p).Between i ↔ s.Between i)
    (hwake : p.toWake = (s.pc i).toWake) (hleave : p.Leaving ↔ (s.pc i).Leaving)
    (hawake : s.blocked i = false) (hcv : p.UnderCv → s.cvLock = some i) :
    MuInv (s.setPc i p) := by
  refine h.move rfl rfl rfl rfl rfl rfl rfl rfl rfl hbetween hwake hleave hawake ?_
  intro j hj
  by_cases hji : j = i
  · rw [hji]
    exact hcv (by simpa [MuSys.setPc, hji] using hj)
  · exact h.cvLock j (by simpa [MuSys.setPc, Function.update_of_ne hji] using hj)

/-- A task takes the spinlock of the mutex. -/
theorem MuInv.spin (h : MuInv s) {p : MuPc} (hown : p.Owning ↔ (s.pc i).Owning)
    (hnb : p ≠ .lockBlocked) (hwake : p.toWake = (s.pc i).toWake)
    (hleave : p.Leaving ↔ (s.pc i).Leaving) (h₁ : s.pc i ≠ .lockBlocked)
    (h₂ : s.pc i ≠ .waitBlocked) (hcv : p.UnderCv → (s.pc i).UnderCv) : MuInv (s.spin i p) := by
  by_cases hl : s.lock = none
  · rw [MuSys.spin, if_pos hl]
    refine h.move rfl rfl rfl rfl rfl rfl rfl rfl rfl ?_ hwake hleave (h.awake h₁ h₂)
      (h.cvLock_move rfl rfl hcv)
    simp [MuSys.Between, MuSys.setPc, hnb, h₁, hown]
  · rwa [MuSys.spin, if_neg hl]

/-- A task finds the mutex free and takes it. -/
theorem MuInv.acquire (h : MuInv s) (hp : s.pc i = .tryIn ∨ s.pc i = .lockIn)
    (hfree : s.held = false) :
    MuInv { s.setPc i .own with held := true, lock := none } := by
  have hb : ∀ j, MuSys.Between { s.setPc i .own with held := true, lock := none } j ↔ j = i := by
    intro j
    by_cases hj : j = i
    · simp [MuSys.Between, MuSys.setPc, hj, MuPc.Owning]
    · have hnobody : ¬ s.Between j := by
        intro hbj
        have := h.held.mpr ⟨j, hbj⟩
        simp [hfree] at this
      simpa [MuSys.Between, MuSys.setPc, Function.update_of_ne hj, hj] using hnobody
  have hawake : s.blocked i = false := by
    rcases hp with hp | hp <;> exact h.awake (by simp [hp]) (by simp [hp])
  refine h.along rfl rfl rfl rfl h.fifo rfl rfl ?_ ?_ ?_ ?_ ?_ hawake
    (h.cvLock_move rfl rfl (by simp [MuPc.UnderCv]))
  · intro j l hj hl
    rw [(hb j).mp hj, (hb l).mp hl]
  · simp [hb]
  · simp
  · rcases hp with hp | hp <;> simp [hp, MuPc.toWake]
  · rcases hp with hp | hp <;> simp [hp, MuPc.Leaving]

/-- The mutex is taken and the task joins its waiters. -/
theorem MuInv.enqueue (h : MuInv s) (hp : s.pc i = .lockIn) (hheld : s.held = true) :
    MuInv { s.setPc i .lockBlocked with
      waiters := s.waiters ++ [i]
      arrivals := s.arrivals ++ [i]
      blocked := Function.update s.blocked i true
      lock := none } := by
  have hawake := h.awake (i := i) (by simp [hp]) (by simp [hp])
  have hl := leaving_update (s := s) (i := i) (p := .lockBlocked) (by simp [hp, MuPc.Leaving])
  have hb : ∀ j, MuSys.Between { s.setPc i .lockBlocked with
      waiters := s.waiters ++ [i]
      arrivals := s.arrivals ++ [i]
      blocked := Function.update s.blocked i true
      lock := none } j ↔ s.Between j := by
    intro j
    by_cases hj : j = i
    · simp [MuSys.Between, MuSys.setPc, hj, MuPc.Owning, hp]
    · simp [MuSys.Between, MuSys.setPc, hj]
  refine .of_park ?_ ?_ ?_ ?_ (fun _ => hheld) ?_ ?_ ?_ ?_
  · refine (h.parked.sleep hawake).of_perm ?_ (MuSys.hand_park_same rfl ?_) rfl
    · simp only [MuSys.park, Park.sleep, List.append_assoc]
      exact List.perm_append_comm.append_left s.waiters
    · simp [hp, MuPc.toWake]
  · refine h.placed_sleep rfl hawake (.inl rfl) ?_ ?_ rfl
    · intro j hj
      simpa using hj
    · intro j hj
      exact .inl hj
  · simpa only [hb] using h.unique
  · simp only [hb]
    exact h.held
  · exact h.cvLock_move rfl rfl (by simp [MuPc.UnderCv])
  · change s.arrivals ++ [i] = s.grants ++ (s.waiters ++ [i])
    rw [h.fifo, List.append_assoc]
  · intro j hj
    exact h.leaving j ((hl j).mp hj)
  · intro hn
    exact h.listed fun j hj => hn j ((hl j).mpr hj)

/-- Only the holder of the condition variable's spinlock is on its way to the list. -/
theorem MuInv.not_leaving (h : MuInv s) (hcv : (s.pc i).UnderCv) (hi : ¬ (s.pc i).Leaving) (j : ℕ) :
    ¬ (s.pc j).Leaving := by
  intro hj
  have h₁ := h.cvLock i hcv
  have h₂ := h.cvLock j hj.underCv
  rw [h₁, Option.some.injEq] at h₂
  exact hi (h₂ ▸ hj)

/-- The books on the releases inside `condvar_wait`, after one more or after another
unlock. -/
theorem MuInv.releasedBy (h : MuInv s) {k : UnlockFor} {p : MuPc} (hp : s.pc i = .unlockIn k)
    (hleave : p.Leaving ↔ k = .wait) :
    (∀ j, (Function.update s.pc i p j).Leaving →
      s.releasedBy i k = s.signalled ++ s.cvWaiters ++ [j]) ∧
    ((∀ j, ¬ (Function.update s.pc i p j).Leaving) →
      s.releasedBy i k = s.signalled ++ s.cvWaiters) := by
  have hpi : ¬ (s.pc i).Leaving := by simp [hp, MuPc.Leaving]
  cases k with
  | caller =>
      have hl : ∀ j, (Function.update s.pc i p j).Leaving ↔ (s.pc j).Leaving := by
        intro j
        by_cases hj : j = i
        · rw [hj, Function.update_self, hleave]
          simp [hpi]
        · rw [Function.update_of_ne hj]
      simp only [MuSys.releasedBy, hl]
      exact ⟨h.leaving, h.listed⟩
  | wait =>
      have hnone := h.not_leaving (i := i) (by simp [hp, MuPc.UnderCv]) hpi
      simp only [MuSys.releasedBy, h.listed hnone]
      constructor
      · intro j hj
        by_cases hji : j = i
        · rw [hji]
        · rw [Function.update_of_ne hji] at hj
          exact absurd hj (hnone j)
      · intro hn
        have := hn i
        rw [Function.update_self] at this
        exact absurd (hleave.mpr rfl) this

/-- Nobody waits, and the mutex is free again. -/
theorem MuInv.release (h : MuInv s) {k : UnlockFor} (hp : s.pc i = .unlockIn k)
    (hempty : s.waiters = []) (hpc : s'.pc = Function.update s.pc i k.after)
    (hheld : s'.held = false) (hwaiters : s'.waiters = s.waiters)
    (hcv : s'.cvWaiters = s.cvWaiters) (hblocked : s'.blocked = s.blocked)
    (harrivals : s'.arrivals = s.arrivals) (hgrants : s'.grants = s.grants)
    (hreleased : s'.released = s.releasedBy i k) (hsignalled : s'.signalled = s.signalled)
    (hlock : s'.cvLock = s.cvLock) : MuInv s' := by
  have hother : ∀ j ≠ i, s'.pc j = s.pc j := by
    intro j hj
    rw [hpc, Function.update_of_ne hj]
  have hself : s'.pc i = k.after := by rw [hpc, Function.update_self]
  have hmine : s.Between i := .inl (by simp [hp, MuPc.Owning])
  have hb : ∀ j, ¬ s'.Between j := by
    intro j hj
    by_cases hji : j = i
    · rw [hji, MuSys.Between, hself] at hj
      cases k <;> simp [UnlockFor.after, MuPc.Owning] at hj
    · refine hji (h.unique j i ?_ hmine)
      simpa only [MuSys.Between, hother j hji, hwaiters] using hj
  have hawake := h.awake (i := i) (by simp [hp]) (by simp [hp])
  have hbooks := h.releasedBy (p := k.after) hp (by cases k <;> simp [UnlockFor.after, MuPc.Leaving])
  refine .of_park ?_ ?_ ?_ ?_ ?_ ?_ ?_ ?_ ?_
  · refine h.parked.of_perm ?_ (MuSys.hand_park_same hpc ?_) hblocked
    · simp [MuSys.park, hwaiters, hcv]
    · cases k <;> simp [hp, UnlockFor.after, MuPc.toWake]
  · refine h.placed_move hpc hawake ?_ ?_ ?_
    · simp [hwaiters]
    · simp [hcv]
    · simp [hblocked]
  · intro j l hj
    exact absurd hj (hb j)
  · simp [hheld, hb]
  · simp [hwaiters, hempty]
  · refine h.cvLock_move hpc hlock ?_
    cases k <;> simp [hp, UnlockFor.after, MuPc.UnderCv]
  · rw [harrivals, hgrants, hwaiters]
    exact h.fifo
  · rw [hpc, hreleased, hsignalled, hcv]
    exact hbooks.1
  · rw [hpc, hreleased, hsignalled, hcv]
    exact hbooks.2

/-- The oldest waiter gets the mutex. -/
theorem MuInv.handOff (h : MuInv s) {k : UnlockFor} {u : ℕ} {rest : List ℕ}
    (hp : s.pc i = .unlockIn k) (hfirst : s.waiters = u :: rest)
    (hpc : s'.pc = Function.update s.pc i (.unlockWake k u)) (hheld : s'.held = s.held)
    (hwaiters : s'.waiters = rest) (hcv : s'.cvWaiters = s.cvWaiters)
    (hblocked : s'.blocked = s.blocked) (harrivals : s'.arrivals = s.arrivals)
    (hgrants : s'.grants = s.grants ++ [u]) (hreleased : s'.released = s.releasedBy i k)
    (hsignalled : s'.signalled = s.signalled) (hlock : s'.cvLock = s.cvLock) : MuInv s' := by
  have hother : ∀ j ≠ i, s'.pc j = s.pc j := by
    intro j hj
    rw [hpc, Function.update_of_ne hj]
  have hself : s'.pc i = .unlockWake k u := by rw [hpc, Function.update_self]
  have hmine : s.Between i := .inl (by simp [hp, MuPc.Owning])
  have hu := h.waiters u (by simp [hfirst])
  have hnd := h.nodup
  rw [hfirst, List.nodup_cons] at hnd
  have hui : u ≠ i := by
    rintro rfl
    simp [hp] at hu
  have hb : ∀ j, s'.Between j ↔ j = u := by
    intro j
    by_cases hji : j = i
    · rw [hji, MuSys.Between, hself]
      simp [MuPc.Owning, Ne.symm hui]
    · by_cases hju : j = u
      · rw [MuSys.Between, hju, hother u hui, hwaiters]
        simp [hu.1, hnd.1]
      · have hsame : s'.Between j ↔ s.Between j := by
          simp [MuSys.Between, hother j hji, hwaiters, hfirst, hju]
        rw [hsame]
        constructor
        · intro hj
          exact absurd (h.unique j i hj hmine) hji
        · intro hj
          exact absurd hj hju
  have hawake := h.awake (i := i) (by simp [hp]) (by simp [hp])
  have hbooks := h.releasedBy (p := .unlockWake k u) hp (by simp [MuPc.Leaving])
  refine .of_park ?_ ?_ ?_ ?_ ?_ ?_ ?_ ?_ ?_
  · -- the waiter goes from the list into the hand
    have htake : (s.park.take i [u] (rest ++ s.cvWaiters)).Ok := by
      refine h.parked.take (by simp [MuSys.park, hp, MuPc.toWake]) ?_
      simp [MuSys.park, hfirst]
    refine htake.of_perm ?_ (MuSys.hand_park hpc) hblocked
    simp [MuSys.park, Park.take, hwaiters, hcv]
  · refine h.placed_move hpc hawake ?_ ?_ ?_
    · intro j hj
      rw [hwaiters] at hj
      simp [hfirst, hj]
    · simp [hcv]
    · simp [hblocked]
  · intro j l hj hl
    rw [(hb j).mp hj, (hb l).mp hl]
  · simp [hheld, hb, h.busy (by simp [hfirst])]
  · intro _
    rw [hheld]
    exact h.busy (by simp [hfirst])
  · exact h.cvLock_move hpc hlock (by simp [hp, MuPc.UnderCv])
  · rw [harrivals, hgrants, hwaiters, h.fifo, hfirst]
    simp
  · rw [hpc, hreleased, hsignalled, hcv]
    exact hbooks.1
  · rw [hpc, hreleased, hsignalled, hcv]
    exact hbooks.2

/-- A task wakes the next one it has in hand. -/
theorem MuInv.wakes (h : MuInv s) {u : ℕ} {us : List ℕ} {p : MuPc}
    (hp : (s.pc i).toWake = u :: us) (hwake : p.toWake = us)
    (hown : p.Owning ↔ (s.pc i).Owning) (hleave : p.Leaving ↔ (s.pc i).Leaving)
    (hcv : p.UnderCv → (s.pc i).UnderCv) (hnb : p ≠ .lockBlocked) (h₁ : s.pc i ≠ .lockBlocked)
    (h₂ : s.pc i ≠ .waitBlocked) :
    ∃ s', s.wakeup u = .ok s' ∧ MuInv (s'.setPc i p) := by
  have hu := h.hand i u (by simp [hp])
  refine ⟨{ s with blocked := Function.update s.blocked u false }, ?_, ?_⟩
  · simp [MuSys.wakeup, hu.1]
  have hb : ∀ j, MuSys.Between
      (MuSys.setPc { s with blocked := Function.update s.blocked u false } i p) j ↔
      s.Between j := by
    intro j
    by_cases hj : j = i
    · simp [MuSys.Between, MuSys.setPc, hj, hown, hnb, h₁]
    · simp [MuSys.Between, MuSys.setPc, Function.update_of_ne hj]
  have hl := leaving_update (s := s) hleave
  refine .of_park ?_ ?_ ?_ ?_ h.busy ?_ h.fifo ?_ ?_
  · refine (h.parked.wake (j := i) hp).of_perm (.refl _) ?_ rfl
    rw [← hwake]
    exact MuSys.hand_park rfl
  · refine h.placed_move rfl (h.awake h₁ h₂) (fun _ hj => hj) (fun _ hj => hj) ?_
    intro j hj
    by_cases hju : j = u
    · rw [hju]
      exact hu.1
    · simpa [MuSys.setPc, Function.update_of_ne hju] using hj
  · simpa only [hb] using h.unique
  · simp only [hb]
    exact h.held
  · exact h.cvLock_move rfl rfl hcv
  · intro j hj
    exact h.leaving j ((hl j).mp hj)
  · intro hn
    exact h.listed fun j hj => hn j ((hl j).mpr hj)

variable {e : MuEvent}

end Skyloft
