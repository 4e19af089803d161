import Mathlib.Data.Nat.Notation
import Skyloft.Lib.Locks
import Skyloft.Lib.Run

/-!
# The runqueue lock

Every CPU has a runqueue with a spinlock.  `fast_schedule` takes it, picks a task and
gives it back; when there is no task it switches to the idle stack with the lock taken,
and `schedule` goes on with it.  The idle loop of `schedule` depends on the build: the
policy decides whether the lock is dropped there, `SCHED_PERCPU` whether there is
anything between two picks, and `SKYLOFT_DPDK` what the softirqs are.

The queues themselves are left out: what a pick finds is an input of the step.

* `Config` — the policy and the switches `params.h.in` sets for it.
* `Pc` — the places of a CPU between two lock operations.
* `lockStep` — one step of one CPU; a breach of the discipline is a fault.
* `LockInv` — who holds which lock, place by place.
* `lock_discipline` — guarded runs never fault.
-/

namespace Skyloft

open Run Locks

/-! ## Build configurations -/

inductive Policy
  | fifo
  | cfs
  | eevdf
  deriving DecidableEq

structure Config where
  policy : Policy
  /-- `SKYLOFT_DPDK` -/
  dpdk : Bool
  deriving DecidableEq

namespace Config

/-- `SCHED_PERCPU`: `params.h.in` lists FIFO and CFS, and not EEVDF. -/
def schedPercpu (cfg : Config) : Bool :=
  match cfg.policy with
  | .fifo | .cfs => true
  | .eevdf => false

/-- `SKYLOFT_SCHED_CFS || SKYLOFT_SCHED_EEVDF`, the condition of the idle loop's own
unlock and lock. -/
def dropsInIdle (cfg : Config) : Bool :=
  match cfg.policy with
  | .fifo => false
  | .cfs | .eevdf => true

/-- `fifo_sched_balance` asserts the lock and steals; the others have the dummy. -/
def balances (cfg : Config) : Bool :=
  match cfg.policy with
  | .fifo => true
  | .cfs | .eevdf => false

end Config

/-! ## Places -/

/-- A call into the policy that takes a runqueue lock of its own returns here. -/
inductive Back
  | boot
  | task
  | fastEnter
  | softirq
  | steal
  | exitFinish
  deriving DecidableEq

/-- Where a CPU stands. -/
inductive Pc
  /-- `percpu_entry` up to the lock in `start_schedule` -/
  | boot
  /-- a task runs -/
  | task
  /-- inside a spawn, wakeup, yield, block, finish, preempt or steal, with the lock of
  runqueue `k` -/
  | hold (k : ℕ) (b : Back)
  | fastLock
  | fastPick
  | fastUnlock
  /-- `fast_schedule` after its unlock, up to the switch of stacks or applications -/
  | fastEnter
  /-- the label `again` of `schedule` -/
  | again
  | idleUnlock
  | softirq
  | balance
  | steal
  | idleLock
  /-- the label `done` of `schedule` -/
  | done
  | schedEnter
  /-- `switch_to_app` returned in `schedule`, which calls `schedule` again -/
  | switched
  | exitFinish
  | exitLock
  deriving DecidableEq

def Back.pc : Back → Pc
  | .boot => .boot
  | .task => .task
  | .fastEnter => .fastEnter
  | .softirq => .softirq
  | .steal => .steal
  | .exitFinish => .exitFinish

/-- Where the kthread stands that gets the CPU from `switch_to_app`: one that never ran,
one that gave the CPU away in `fast_schedule`, one that did so in `schedule`.  An
application that has exited, or a wakeup by the exit of another one, makes
`switch_to_app` return in the caller. -/
inductive Resume
  | boot
  | fast
  | slow
  deriving DecidableEq

def Resume.pc : Resume → Pc
  | .boot => .boot
  | .fast => .task
  | .slow => .switched

/-- What a step reads from outside: whether a pick or a softirq found something, which
runqueue a call of the policy locks, and where an application switch leads. -/
inductive Choice
  | go (found : Bool)
  | take (k : ℕ)
  | exit
  | switch (r : Resume)
  deriving DecidableEq

/-! ## The system -/

structure RqLocks where
  pc : ℕ → Pc
  /-- the CPU that holds the lock of each runqueue -/
  holder : ℕ → Option ℕ

inductive LockFault
  | pickUnlocked
  | balanceUnlocked
  | notHolder
  | heldInTask
  deriving DecidableEq

namespace RqLocks

/-- All kthreads are about to start, and every lock is free. -/
def start : RqLocks where
  pc _ := .boot
  holder _ := none

def goto (s : RqLocks) (i : ℕ) (p : Pc) : RqLocks :=
  { s with pc := Function.update s.pc i p }

/-- `spin_lock`, or `spin_try_lock` that failed: while the lock is taken the CPU stays. -/
def acquire (s : RqLocks) (i k : ℕ) (p : Pc) : Except LockFault RqLocks :=
  match s.holder k with
  | some _ => .ok s
  | none => .ok { s.goto i p with holder := Function.update s.holder k (some i) }

/-- `spin_unlock` -/
def release (s : RqLocks) (i k : ℕ) (p : Pc) : Except LockFault RqLocks :=
  if s.holder k = some i then
    .ok { s.goto i p with holder := Function.update s.holder k none }
  else .error .notHolder

/-- `__sched_pick_next` -/
def pick (s : RqLocks) (i : ℕ) (p : Pc) : Except LockFault RqLocks :=
  if s.holder i = some i then .ok (s.goto i p) else .error .pickUnlocked

/-- `__sched_balance` up to its assertion -/
def balance (cfg : Config) (s : RqLocks) (i : ℕ) (p : Pc) : Except LockFault RqLocks :=
  if cfg.balances = true ∧ s.holder i ≠ some i then .error .balanceUnlocked
  else .ok (s.goto i p)

/-- Control enters a task, of this application or of another one. -/
def enter (s : RqLocks) (i : ℕ) (p : Pc) : Except LockFault RqLocks :=
  if s.holder i = some i then .error .heldInTask else .ok (s.goto i p)

end RqLocks

/-- Where `schedule` goes on after a failed pick, once the lock is dropped if it is. -/
def Config.afterMiss (cfg : Config) : Pc :=
  if cfg.schedPercpu then .softirq else .again

/-- One step of CPU `i`.  A choice that its place does not read changes nothing. -/
def lockStep (cfg : Config) (s : RqLocks) : ℕ × Choice → Except LockFault RqLocks
  | (i, c) =>
    match s.pc i with
    | .boot =>
        match c with
        -- percpu_entry may spawn tasks before start_schedule
        | .take k => s.acquire i k (.hold k .boot)
        | .go _ => s.acquire i i .again
        | .exit | .switch _ => .ok s
    | .task =>
        match c with
        | .take k => s.acquire i k (.hold k .task)
        | .go _ => .ok (s.goto i .fastLock)
        | .exit => .ok (s.goto i .exitFinish)
        | .switch _ => .ok s
    | .hold k b => s.release i k b.pc
    -- fast_schedule
    | .fastLock => s.acquire i i .fastPick
    | .fastPick =>
        match c with
        | .go found => s.pick i (if found then .fastUnlock else .again)
        | .take _ | .exit | .switch _ => .ok s
    | .fastUnlock => s.release i i .fastEnter
    | .fastEnter =>
        match c with
        -- softirq_run, compiled in without DPDK
        | .take k => if cfg.dpdk then .ok s else s.acquire i k (.hold k .fastEnter)
        | .go _ => s.enter i .task
        | .switch r => s.enter i r.pc
        | .exit => .ok s
    -- schedule
    | .again =>
        match c with
        | .go found =>
            s.pick i (if found then .done else if cfg.dropsInIdle then .idleUnlock
              else cfg.afterMiss)
        | .take _ | .exit | .switch _ => .ok s
    | .idleUnlock => s.release i i cfg.afterMiss
    | .softirq =>
        match c with
        -- handlers of softirq_run wake tasks; softirq_task takes no lock
        | .take k => if cfg.dpdk then .ok s else s.acquire i k (.hold k .softirq)
        | .go work => .ok (s.goto i (if cfg.dpdk && work then .done else .balance))
        | .exit | .switch _ => .ok s
    | .balance => s.balance cfg i .steal
    | .steal =>
        match c with
        | .take k =>
            if cfg.balances = true ∧ k ≠ i then s.acquire i k (.hold k .steal) else .ok s
        | .go _ => .ok (s.goto i (if cfg.dropsInIdle then .idleLock else .again))
        | .exit | .switch _ => .ok s
    | .idleLock => s.acquire i i .again
    | .done => s.release i i .schedEnter
    | .schedEnter =>
        match c with
        | .go _ => s.enter i .task
        | .switch r => s.enter i r.pc
        | .take _ | .exit => .ok s
    | .switched => .ok (s.goto i .again)
    -- __task_exit
    | .exitFinish =>
        match c with
        | .take _ => if cfg.balances then .ok s else s.acquire i i (.hold i .exitFinish)
        | .go _ => .ok (s.goto i .exitLock)
        | .exit | .switch _ => .ok s
    | .exitLock => s.acquire i i .again

/-- The places where the builds lose the lock: the idle loop of EEVDF, which has nothing
between its unlock and the next pick; the `goto done` of the DPDK softirq under CFS,
which skips the relock; and the second `schedule` after an application switch. -/
def LockGuard (cfg : Config) (s : RqLocks) : ℕ × Choice → Prop
  | (i, .go found) =>
      (s.pc i = .again → cfg.policy = .eevdf → found = true) ∧
        (s.pc i = .softirq → cfg.policy = .cfs → cfg.dpdk = true → found = false)
  | (i, .switch r) => s.pc i = .fastEnter ∨ s.pc i = .schedEnter → r ≠ .slow
  | (_, .take _) | (_, .exit) => True

instance (cfg : Config) (s : RqLocks) : (e : ℕ × Choice) → Decidable (LockGuard cfg s e)
  | (_, .go _) => inferInstanceAs (Decidable (_ ∧ _))
  | (_, .switch _) => inferInstanceAs (Decidable (_ → _))
  | (_, .take _) | (_, .exit) => .isTrue trivial

/-! ## Who holds what -/

/-- At this place a CPU holds the lock of its own runqueue, calls of the policy apart. -/
def Pc.owns (cfg : Config) : Pc → Bool
  | .fastPick | .fastUnlock | .again | .idleUnlock | .done => true
  | .softirq | .balance | .steal => !cfg.dropsInIdle
  | _ => false

/-- The locks that CPU `i` holds at a place. -/
def holds (cfg : Config) (i : ℕ) : Pc → ℕ → Prop
  | .hold k b, l => l = k ∨ (b.pc.owns cfg = true ∧ l = i)
  | p, l => p.owns cfg = true ∧ l = i

/-- The places that a guarded run comes to. -/
def Pc.Ok (cfg : Config) (i : ℕ) : Pc → Prop
  | .hold k b => (b.pc.owns cfg = true → k ≠ i) ∧ (b = .softirq → cfg.policy ≠ .eevdf)
  | .idleUnlock => cfg.policy = .cfs
  | .softirq => cfg.policy ≠ .eevdf
  | .switched => False
  | _ => True

structure LockInv (cfg : Config) (s : RqLocks) : Prop where
  owned : Owned (holds cfg) s.holder s.pc
  ok : ∀ i, (s.pc i).Ok cfg i

variable {cfg : Config} {s s' : RqLocks} {i k : ℕ} {p : Pc}

theorem lockInv_start : LockInv cfg .start := by
  constructor
  · intro i k
    simp [RqLocks.start, holds, Pc.owns]
  · intro i
    simp [RqLocks.start, Pc.Ok]

theorem ok_update {pc : ℕ → Pc} (h : ∀ j, (pc j).Ok cfg j) (hp : p.Ok cfg i) (j : ℕ) :
    (Function.update pc i p j).Ok cfg j := by
  by_cases hj : j = i
  · subst hj
    simpa using hp
  · simpa [Function.update_of_ne hj] using h j

namespace LockInv

/-! One rule for each operation of `RqLocks`. -/

theorem stay (h : LockInv cfg s) :
    ∃ s', (Except.ok s : Except LockFault RqLocks) = .ok s' ∧ LockInv cfg s' :=
  ⟨s, rfl, h⟩

theorem goto (h : LockInv cfg s) (hok : p.Ok cfg i)
    (hp : ∀ l, holds cfg i p l ↔ holds cfg i (s.pc i) l) :
    ∃ s', (Except.ok (s.goto i p) : Except LockFault RqLocks) = .ok s' ∧ LockInv cfg s' :=
  ⟨_, rfl, h.owned.move hp, ok_update h.ok hok⟩

theorem acquire (h : LockInv cfg s) (hok : ¬ holds cfg i (s.pc i) k → p.Ok cfg i)
    (hp : ∀ l, holds cfg i p l ↔ holds cfg i (s.pc i) l ∨ l = k) :
    ∃ s', s.acquire i k p = .ok s' ∧ LockInv cfg s' := by
  cases hk : s.holder k with
  | some j => exact ⟨s, by simp [RqLocks.acquire, hk], h⟩
  | none =>
      have hfree : ¬ holds cfg i (s.pc i) k := by
        intro hh
        simp [(h.owned i k).mpr hh] at hk
      simp only [RqLocks.acquire, hk]
      exact ⟨_, rfl, h.owned.acquire hk hp, ok_update h.ok (hok hfree)⟩

theorem release (h : LockInv cfg s) (hok : p.Ok cfg i) (hk : holds cfg i (s.pc i) k)
    (hp : ∀ l, holds cfg i p l ↔ holds cfg i (s.pc i) l ∧ l ≠ k) :
    ∃ s', s.release i k p = .ok s' ∧ LockInv cfg s' := by
  have hheld := (h.owned i k).mpr hk
  simp only [RqLocks.release, hheld, if_true]
  exact ⟨_, rfl, h.owned.release hheld hp, ok_update h.ok hok⟩

theorem pick (h : LockInv cfg s) (hok : p.Ok cfg i) (hh : holds cfg i (s.pc i) i)
    (hp : ∀ l, holds cfg i p l ↔ holds cfg i (s.pc i) l) :
    ∃ s', s.pick i p = .ok s' ∧ LockInv cfg s' := by
  simp only [RqLocks.pick, (h.owned i i).mpr hh, if_true]
  exact h.goto hok hp

theorem balance (h : LockInv cfg s) (hok : p.Ok cfg i)
    (hh : cfg.balances = true → holds cfg i (s.pc i) i)
    (hp : ∀ l, holds cfg i p l ↔ holds cfg i (s.pc i) l) :
    ∃ s', s.balance cfg i p = .ok s' ∧ LockInv cfg s' := by
  have hno : ¬ (cfg.balances = true ∧ s.holder i ≠ some i) := by
    rintro ⟨hb, hn⟩
    exact hn ((h.owned i i).mpr (hh hb))
  simp only [RqLocks.balance, if_neg hno]
  exact h.goto hok hp

theorem enter (h : LockInv cfg s) (hok : p.Ok cfg i) (hh : ¬ holds cfg i (s.pc i) i)
    (hp : ∀ l, holds cfg i p l ↔ holds cfg i (s.pc i) l) :
    ∃ s', s.enter i p = .ok s' ∧ LockInv cfg s' := by
  have hno : s.holder i ≠ some i := by
    intro hheld
    exact hh ((h.owned i i).mp hheld)
  simp only [RqLocks.enter, if_neg hno]
  exact h.goto hok hp

end LockInv

/-! ## Steps -/

theorem Back.not_hold (b : Back) (l : ℕ) :
    holds cfg i b.pc l ↔ b.pc.owns cfg = true ∧ l = i := by
  cases b <;> rfl

/-- A call of the policy that locks runqueue `k` and comes back. -/
theorem LockInv.call (h : LockInv cfg s) (b : Back) (hb : s.pc i = b.pc) :
    ∃ s', s.acquire i k (.hold k b) = .ok s' ∧ LockInv cfg s' := by
  have hok := h.ok i
  refine h.acquire ?_ ?_
  · intro hk
    rw [hb, Back.not_hold] at hk
    refine ⟨fun ho hki => hk ⟨ho, hki⟩, ?_⟩
    rintro rfl
    rw [hb] at hok
    exact hok
  · intro l
    rw [hb, Back.not_hold]
    exact or_comm

theorem boot_ok (h : LockInv cfg s) (hpc : s.pc i = .boot) (c : Choice) :
    ∃ s', lockStep cfg s (i, c) = .ok s' ∧ LockInv cfg s' := by
  cases c with
  | go found =>
      simp only [lockStep, hpc]
      refine h.acquire ?_ ?_ <;> simp [holds, hpc, Pc.owns, Pc.Ok]
  | take k =>
      simp only [lockStep, hpc]
      exact h.call .boot hpc
  | _ =>
      simp only [lockStep, hpc]
      exact h.stay

theorem task_ok (h : LockInv cfg s) (hpc : s.pc i = .task) (c : Choice) :
    ∃ s', lockStep cfg s (i, c) = .ok s' ∧ LockInv cfg s' := by
  cases c with
  | go found =>
      simp only [lockStep, hpc]
      refine h.goto ?_ ?_ <;> simp [holds, hpc, Pc.owns, Pc.Ok]
  | take k =>
      simp only [lockStep, hpc]
      exact h.call .task hpc
  | exit =>
      simp only [lockStep, hpc]
      refine h.goto ?_ ?_ <;> simp [holds, hpc, Pc.owns, Pc.Ok]
  | switch r =>
      simp only [lockStep, hpc]
      exact h.stay

theorem hold_ok (h : LockInv cfg s) {b : Back} (hpc : s.pc i = .hold k b) (c : Choice) :
    ∃ s', lockStep cfg s (i, c) = .ok s' ∧ LockInv cfg s' := by
  have hok := h.ok i
  rw [hpc] at hok
  simp only [lockStep, hpc]
  refine h.release ?_ ?_ ?_
  · cases b <;> simp_all [Back.pc, Pc.Ok]
  · simp [holds, hpc]
  · intro l
    have hk := hok.1
    rw [hpc, Back.not_hold]
    simp only [holds]
    grind

theorem enter_ok (h : LockInv cfg s) (hpc : s.pc i = .fastEnter ∨ s.pc i = .schedEnter)
    {q : Pc} (hok : q.Ok cfg i) (hq : q.owns cfg = false) (hh : ∀ k b, q ≠ .hold k b) :
    ∃ s', s.enter i q = .ok s' ∧ LockInv cfg s' := by
  have hfree : ∀ l, ¬ holds cfg i (s.pc i) l := by
    intro l
    rcases hpc with hpc | hpc <;> simp [hpc, holds, Pc.owns]
  refine h.enter hok (hfree i) ?_
  intro l
  cases q <;> simp_all [holds]

theorem resume_ok (h : LockInv cfg s) (hpc : s.pc i = .fastEnter ∨ s.pc i = .schedEnter)
    {r : Resume} (hr : r ≠ .slow) :
    ∃ s', s.enter i r.pc = .ok s' ∧ LockInv cfg s' := by
  refine enter_ok h hpc ?_ ?_ ?_ <;> cases r <;> simp_all [Resume.pc, Pc.Ok, Pc.owns]

theorem fastEnter_ok (h : LockInv cfg s) (hpc : s.pc i = .fastEnter) {c : Choice}
    (hg : LockGuard cfg s (i, c)) :
    ∃ s', lockStep cfg s (i, c) = .ok s' ∧ LockInv cfg s' := by
  cases c with
  | go found =>
      simp only [lockStep, hpc]
      refine enter_ok h (.inl hpc) ?_ ?_ ?_ <;> simp [Pc.Ok, Pc.owns]
  | take k =>
      simp only [lockStep, hpc]
      by_cases hd : cfg.dpdk = true
      · simp only [hd, if_true]
        exact h.stay
      · simp only [hd]
        exact h.call .fastEnter hpc
  | exit =>
      simp only [lockStep, hpc]
      exact h.stay
  | switch r =>
      simp only [lockStep, hpc]
      exact resume_ok h (.inl hpc) (hg (.inl hpc))

theorem schedEnter_ok (h : LockInv cfg s) (hpc : s.pc i = .schedEnter) {c : Choice}
    (hg : LockGuard cfg s (i, c)) :
    ∃ s', lockStep cfg s (i, c) = .ok s' ∧ LockInv cfg s' := by
  cases c with
  | go found =>
      simp only [lockStep, hpc]
      refine enter_ok h (.inr hpc) ?_ ?_ ?_ <;> simp [Pc.Ok, Pc.owns]
  | switch r =>
      simp only [lockStep, hpc]
      exact resume_ok h (.inr hpc) (hg (.inr hpc))
  | _ =>
      simp only [lockStep, hpc]
      exact h.stay

/-- A pick in `fast_schedule`: the lock goes on to the unlock or to the idle stack. -/
theorem fastPick_ok (h : LockInv cfg s) (hpc : s.pc i = .fastPick) (c : Choice) :
    ∃ s', lockStep cfg s (i, c) = .ok s' ∧ LockInv cfg s' := by
  cases c with
  | go found =>
      simp only [lockStep, hpc]
      refine h.pick ?_ ?_ ?_ <;> cases found <;> simp [holds, hpc, Pc.owns, Pc.Ok]
  | _ =>
      simp only [lockStep, hpc]
      exact h.stay

/-- A pick in the idle loop.  Under EEVDF the guard lets only a hit pass, so that the
unlock of the loop is one of CFS. -/
theorem again_ok (h : LockInv cfg s) (hpc : s.pc i = .again) {c : Choice}
    (hg : LockGuard cfg s (i, c)) :
    ∃ s', lockStep cfg s (i, c) = .ok s' ∧ LockInv cfg s' := by
  cases c with
  | go found =>
      have hhit := hg.1 hpc
      simp only [lockStep, hpc]
      cases found with
      | true => refine h.pick ?_ ?_ ?_ <;> simp [holds, hpc, Pc.owns, Pc.Ok]
      | false =>
          have hne : cfg.policy ≠ .eevdf := by simpa using hhit
          refine h.pick ?_ ?_ ?_ <;> cases hp : cfg.policy <;>
            simp_all [holds, Pc.owns, Pc.Ok, Config.dropsInIdle, Config.afterMiss,
              Config.schedPercpu]
  | _ =>
      simp only [lockStep, hpc]
      exact h.stay

theorem softirq_ok (h : LockInv cfg s) (hpc : s.pc i = .softirq) {c : Choice}
    (hg : LockGuard cfg s (i, c)) :
    ∃ s', lockStep cfg s (i, c) = .ok s' ∧ LockInv cfg s' := by
  have hok := h.ok i
  rw [hpc] at hok
  cases c with
  | go work =>
      have hidle := hg.2 hpc
      simp only [lockStep, hpc]
      by_cases hw : (cfg.dpdk && work) = true
      · -- the lock is still held only where the loop does not drop it
        have hf : cfg.policy = .fifo := by
          cases hp : cfg.policy <;> simp_all [Pc.Ok]
        rw [if_pos hw]
        refine h.goto ?_ ?_ <;> simp [holds, hpc, Pc.owns, Pc.Ok, Config.dropsInIdle, hf]
      · rw [if_neg hw]
        refine h.goto ?_ ?_ <;> simp [holds, hpc, Pc.owns, Pc.Ok]
  | take k =>
      simp only [lockStep, hpc]
      by_cases hd : cfg.dpdk = true
      · simp only [hd, if_true]
        exact h.stay
      · simp only [hd]
        exact h.call .softirq hpc
  | _ =>
      simp only [lockStep, hpc]
      exact h.stay

theorem steal_ok (h : LockInv cfg s) (hpc : s.pc i = .steal) (c : Choice) :
    ∃ s', lockStep cfg s (i, c) = .ok s' ∧ LockInv cfg s' := by
  cases c with
  | go found =>
      simp only [lockStep, hpc]
      refine h.goto ?_ ?_ <;> by_cases hd : cfg.dropsInIdle = true <;>
        simp [holds, hpc, Pc.owns, Pc.Ok, hd]
  | take k =>
      simp only [lockStep, hpc]
      by_cases hk : cfg.balances = true ∧ k ≠ i
      · rw [if_pos hk]
        exact h.call .steal hpc
      · rw [if_neg hk]
        exact h.stay
  | _ =>
      simp only [lockStep, hpc]
      exact h.stay

theorem exitFinish_ok (h : LockInv cfg s) (hpc : s.pc i = .exitFinish) (c : Choice) :
    ∃ s', lockStep cfg s (i, c) = .ok s' ∧ LockInv cfg s' := by
  cases c with
  | go found =>
      simp only [lockStep, hpc]
      refine h.goto ?_ ?_ <;> simp [holds, hpc, Pc.owns, Pc.Ok]
  | take k =>
      simp only [lockStep, hpc]
      by_cases hb : cfg.balances = true
      · simp only [hb, if_true]
        exact h.stay
      · simp only [hb]
        exact h.call .exitFinish hpc
  | _ =>
      simp only [lockStep, hpc]
      exact h.stay

/-- A guarded step of any CPU. -/
theorem lockStep_ok (h : LockInv cfg s) {e : ℕ × Choice} (hg : LockGuard cfg s e) :
    ∃ s', lockStep cfg s e = .ok s' ∧ LockInv cfg s' := by
  rcases e with ⟨i, c⟩
  have hok := h.ok i
  cases hpc : s.pc i with
  | boot => exact boot_ok h hpc c
  | task => exact task_ok h hpc c
  | hold k b => exact hold_ok h hpc c
  | fastPick => exact fastPick_ok h hpc c
  | fastEnter => exact fastEnter_ok h hpc hg
  | again => exact again_ok h hpc hg
  | softirq => exact softirq_ok h hpc hg
  | steal => exact steal_ok h hpc c
  | schedEnter => exact schedEnter_ok h hpc hg
  | exitFinish => exact exitFinish_ok h hpc c
  | fastLock | idleLock | exitLock =>
      simp only [lockStep, hpc]
      refine h.acquire ?_ ?_ <;> simp [holds, hpc, Pc.owns, Pc.Ok]
  | fastUnlock | done =>
      simp only [lockStep, hpc]
      refine h.release ?_ ?_ ?_ <;> simp [holds, hpc, Pc.owns, Pc.Ok]
  | idleUnlock =>
      rw [hpc] at hok
      have hc : cfg.policy = .cfs := hok
      simp only [lockStep, hpc, Config.afterMiss, Config.schedPercpu, hc]
      refine h.release ?_ ?_ ?_ <;>
        simp [holds, hpc, Pc.owns, Pc.Ok, Config.dropsInIdle, hc]
  | balance =>
      simp only [lockStep, hpc]
      refine h.balance ?_ ?_ ?_ <;> cases hp : cfg.policy <;>
        simp [holds, hpc, Pc.owns, Pc.Ok, Config.dropsInIdle, Config.balances, hp]
  | switched =>
      rw [hpc] at hok
      exact hok.elim

/-! ## Runs -/

/-- **The lock discipline.**  In every run of any number of CPUs whose steps meet the
guard, a pick finds the runqueue lock held by the picking CPU, so does a balance that
asserts it, a lock is released by its holder, and a task is entered without it. -/
theorem lock_discipline (cfg : Config) (es : List (ℕ × Choice))
    (hg : Along (lockStep cfg) (LockGuard cfg) .start es) :
    ∃ s, exec (lockStep cfg) .start es = .ok s ∧ LockInv cfg s :=
  exec_ok (fun _ _ h hg => lockStep_ok h hg) lockInv_start hg

/-- CFS with DPDK: a miss in `fast_schedule`, and one round of the idle loop in which
CPU 1 spawns onto the runqueue of CPU 0 and makes it wait for the lock. -/
theorem lock_discipline_cfs :
    ∃ s, exec (lockStep ⟨.cfs, true⟩) .start
        [(0, .go true), (0, .go true), (0, .go true), (0, .go true), (0, .go true),
          (0, .go true), (0, .go false), (0, .go false), (0, .go true),
          (1, .go true), (1, .go true), (1, .go true), (1, .go true), (1, .take 0),
          (0, .go false), (0, .go true), (0, .go true), (0, .go true), (1, .go true),
          (0, .go true), (0, .go true), (0, .go true), (0, .go true)] = .ok s ∧
      LockInv ⟨.cfs, true⟩ s :=
  lock_discipline ⟨.cfs, true⟩ _ (by decide)

/-- The guard is exact: from a state it holds in, a step that does not meet it can be
followed to a breach by steps of the same CPU alone. -/
theorem unguarded_breach (h : LockInv cfg s) {e : ℕ × Choice} (hg : ¬ LockGuard cfg s e) :
    ∃ es f, exec (lockStep cfg) s (e :: es) = .error f := by
  rcases e with ⟨i, c⟩
  have hown := h.owned i i
  cases c with
  | go found =>
      by_cases hm : s.pc i = .again → cfg.policy = .eevdf → found = true
      · -- work for the DPDK softirq under CFS
        have hs : s.pc i = .softirq ∧ cfg.policy = .cfs ∧ cfg.dpdk = true ∧ found = true := by
          simp only [LockGuard] at hg
          grind
        refine ⟨[(i, .go true)], .notHolder, ?_⟩
        simp_all [exec, lockStep, holds, Pc.owns, RqLocks.goto, RqLocks.release,
          Config.dropsInIdle]
      · have hs : s.pc i = .again ∧ cfg.policy = .eevdf ∧ found = false := by grind
        refine ⟨[(i, .go true), (i, .go true)], .pickUnlocked, ?_⟩
        simp_all [exec, lockStep, holds, Pc.owns, RqLocks.goto, RqLocks.release,
          RqLocks.pick, Config.dropsInIdle, Config.afterMiss, Config.schedPercpu]
  | switch r =>
      have hr : r = .slow := by
        by_contra hne
        exact hg fun _ => hne
      have hpc : s.pc i = .fastEnter ∨ s.pc i = .schedEnter := by
        by_contra hne
        exact hg fun hpc => absurd hpc hne
      refine ⟨[(i, .go true), (i, .go true)], .pickUnlocked, ?_⟩
      rcases hpc with hpc | hpc <;>
        simp_all [exec, lockStep, holds, Pc.owns, RqLocks.goto, RqLocks.pick, RqLocks.enter,
          Resume.pc]
  | take k => exact absurd trivial hg
  | exit => exact absurd trivial hg

/-- Three breaches by CPU 0 alone.  Under EEVDF the idle loop of an empty runqueue picks
again without the lock; under CFS with DPDK the softirq task leaves the loop past the
relock; under FIFO `schedule` is called again after an application switch. -/
theorem lock_breached :
    exec (lockStep ⟨.eevdf, false⟩) .start
        [(0, .go true), (0, .go false), (0, .go true), (0, .go true)] =
      .error .pickUnlocked ∧
    exec (lockStep ⟨.cfs, true⟩) .start
        [(0, .go true), (0, .go false), (0, .go true), (0, .go true), (0, .go true)] =
      .error .notHolder ∧
    exec (lockStep ⟨.fifo, false⟩) .start
        [(0, .go true), (0, .go true), (0, .go true), (0, .switch .slow), (0, .go true),
          (0, .go true)] =
      .error .pickUnlocked :=
  ⟨rfl, rfl, rfl⟩

end Skyloft
