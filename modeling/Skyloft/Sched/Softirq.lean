import Skyloft.Sched.Fifo
import Skyloft.Sync.TimerSoftirq

/-!
# The budget of softirq

`softirq_gather_work` takes messages from the receive queue of a kthread until its budget is used up
or the queue is empty, and leaves the rest of the budget to the timers.  The loop tests
`budget-- > 0`.  When the queue is empty the test has counted one message too many; when the budget
is used up it leaves `-1`, and `timer_softirq` takes its budget as an unsigned number.

The packets are handled elsewhere; here they only count, and may start and cancel timers.

* `softirqGatherWork`, `softirqFn` — the work, and what is done of it.
* `softirqRun`, `softirqTask` — doing it at once, or in a task.
* `softirq_budget_iff` — when no more events are handled than the budget.
-/

namespace Skyloft

open Run TimerSys

/-! ## The functions -/

/-- A message of the receive queue. -/
structure RxMsg where
  cmd : BitVec 64
  payload : BitVec 64

/-- `RX_NET_RECV` -/
def rxNetRecv : BitVec 64 := 0#64

/-- `RX_NET_COMPLETE` -/
def rxNetComplete : BitVec 64 := 1#64

structure SoftirqWork where
  recvReqs : List (BitVec 64)
  complReqs : List (BitVec 64)
  timerBudget : ℤ

/-- The packets of the work. -/
def SoftirqWork.packets (w : SoftirqWork) : ℕ := w.complReqs.length + w.recvReqs.length

/-- A message goes to the work; one with another command is dropped. -/
def SoftirqWork.add (w : SoftirqWork) (m : RxMsg) : SoftirqWork :=
  if m.cmd = rxNetRecv then { w with recvReqs := w.recvReqs ++ [m.payload] }
  else if m.cmd = rxNetComplete then { w with complReqs := w.complReqs ++ [m.payload] }
  else w

/-- The loop of `softirq_gather_work`; the counter is kept in `timerBudget`, where it is stored in
the end. -/
def gatherLoop (w : SoftirqWork) : List RxMsg → SoftirqWork
  -- the test fails, or `lrpc_recv` does
  | [] => { w with timerBudget := w.timerBudget - 1 }
  | m :: queue =>
      if 0 < w.timerBudget then
        gatherLoop ({ w with timerBudget := w.timerBudget - 1 }.add m) queue
      else { w with timerBudget := w.timerBudget - 1 }

/-- `softirq_gather_work`, with `SKYLOFT_DPDK` or without. -/
def softirqGatherWork (dpdk : Bool) (queue : List RxMsg) (budget : ℤ) : SoftirqWork :=
  let w : SoftirqWork :=
    { recvReqs := [], complReqs := [], timerBudget := min budget softirqMaxBudget }
  if dpdk then gatherLoop w queue else w

/-- What a softirq meets: the clock readings, and the calls of the timers while packets and timers
are handled. -/
structure SoftirqEnv (E K : Type) where
  /-- the clock in `softirq_pending` -/
  pending : BitVec 64
  net : List (TimerEvent E K)
  /-- the clock in `softirq_fn` -/
  needed : BitVec 64
  clock : ℕ → BitVec 64
  handler : ℕ → List (TimerEvent E K)

section

variable {E K : Type} [DecidableEq E] [DecidableEq K] [Fintype K]

/-- `softirq_pending` -/
def SoftirqPending (dpdk : Bool) (queue : List RxMsg) (k : K) (now : BitVec 64)
    (s : TimerSys E K) : Prop :=
  dpdk = true ∧ queue ≠ [] ∨ s.Expired k now

instance (dpdk : Bool) (queue : List RxMsg) (k : K) (now : BitVec 64) (s : TimerSys E K) :
    Decidable (SoftirqPending dpdk queue k now s) :=
  inferInstanceAs (Decidable (_ ∧ (¬ _) ∨ _))

/-- `softirq_fn`: how many events it handles. -/
def softirqFn (dpdk : Bool) (k : K) (env : SoftirqEnv E K) (w : SoftirqWork)
    (s : TimerSys E K) : ℕ :=
  let packets := if dpdk then w.packets else 0
  match if dpdk then exec handlerStep s env.net else .ok s with
  | .error _ => packets
  | .ok s =>
      if s.Expired k env.needed then
        packets +
          (timerSoftirq k env.clock env.handler (BitVec.ofInt 32 w.timerBudget) s).1.length
      else packets

/-- `softirq_run`: how many events it handles. -/
def softirqRun (dpdk : Bool) (k : K) (env : SoftirqEnv E K) (queue : List RxMsg) (budget : ℤ)
    (s : TimerSys E K) : ℕ :=
  if SoftirqPending dpdk queue k env.pending s then
    if dpdk then softirqFn dpdk k env (softirqGatherWork dpdk queue budget) s
    else
      softirqFn dpdk k env
        { recvReqs := [], complReqs := [], timerBudget := min budget softirqMaxBudget } s
  else 0

/-- `softirq_task`: the work of the closure, if there is any and a task for it. -/
def softirqTask (dpdk : Bool) (k : K) (env : SoftirqEnv E K) (queue : List RxMsg) (budget : ℤ)
    (created : Bool) (s : TimerSys E K) : Option SoftirqWork :=
  if SoftirqPending dpdk queue k env.pending s then
    if created then some (softirqGatherWork dpdk queue budget) else none
  else none

end

/-! ## What is gathered -/

theorem SoftirqWork.packets_add (w : SoftirqWork) (m : RxMsg) :
    (w.add m).packets ≤ w.packets + 1 := by
  rw [SoftirqWork.add]
  by_cases hrecv : m.cmd = rxNetRecv
  · rw [if_pos hrecv]
    simp [SoftirqWork.packets, Nat.add_assoc]
  · by_cases hcompl : m.cmd = rxNetComplete
    · rw [if_neg hrecv, if_pos hcompl]
      simp [SoftirqWork.packets, Nat.add_right_comm]
    · rw [if_neg hrecv, if_neg hcompl]
      exact Nat.le_succ _

theorem SoftirqWork.timerBudget_add (w : SoftirqWork) (m : RxMsg) :
    (w.add m).timerBudget = w.timerBudget := by
  rw [SoftirqWork.add]
  split
  · rfl
  · split <;> rfl

theorem packets_gatherLoop : ∀ (queue : List RxMsg) (w : SoftirqWork),
    (gatherLoop w queue).packets ≤ w.packets + queue.length := by
  intro queue
  induction queue with
  | nil =>
      intro w
      exact le_rfl
  | cons m queue ih =>
      intro w
      rw [gatherLoop]
      by_cases hpos : 0 < w.timerBudget
      · rw [if_pos hpos]
        have hrest := ih ({ w with timerBudget := w.timerBudget - 1 }.add m)
        have hadd := SoftirqWork.packets_add { w with timerBudget := w.timerBudget - 1 } m
        have hsame : SoftirqWork.packets { w with timerBudget := w.timerBudget - 1 } = w.packets :=
          rfl
        rw [List.length_cons]
        omega
      · rw [if_neg hpos]
        exact Nat.le_add_right _ _

/-- The loop leaves through the empty queue, with what is left less one. -/
theorem timerBudget_of_lt : ∀ (queue : List RxMsg) (w : SoftirqWork),
    (queue.length : ℤ) < w.timerBudget →
    (gatherLoop w queue).timerBudget = w.timerBudget - queue.length - 1 := by
  intro queue
  induction queue with
  | nil =>
      intro w _
      simp [gatherLoop]
  | cons m queue ih =>
      intro w hlt
      rw [List.length_cons, Int.natCast_succ] at hlt
      rw [gatherLoop, if_pos (by omega), ih, SoftirqWork.timerBudget_add]
      · simp only [List.length_cons, Int.natCast_succ]
        omega
      · rw [SoftirqWork.timerBudget_add]
        simp only
        omega

/-- The loop leaves through the budget, and has counted one below zero. -/
theorem timerBudget_of_le : ∀ (queue : List RxMsg) (w : SoftirqWork), 0 ≤ w.timerBudget →
    w.timerBudget ≤ queue.length → (gatherLoop w queue).timerBudget = -1 := by
  intro queue
  induction queue with
  | nil =>
      intro w hpos hle
      have hzero : w.timerBudget = 0 := le_antisymm hle hpos
      simp [gatherLoop, hzero]
  | cons m queue ih =>
      intro w hpos hle
      rw [List.length_cons, Int.natCast_succ] at hle
      rw [gatherLoop]
      by_cases hzero : w.timerBudget = 0
      · rw [if_neg (by omega)]
        simp [hzero]
      · rw [if_pos (by omega)]
        apply ih
        · rw [SoftirqWork.timerBudget_add]
          simp only
          omega
        · rw [SoftirqWork.timerBudget_add]
          simp only
          omega

/-! ## Within the budget -/

section

variable {E K : Type} [DecidableEq E] [DecidableEq K] [Fintype K]
  {env : SoftirqEnv E K} {s : TimerSys E K} {k : K}

/-- Timers are run up to the budget that is left for them. -/
theorem softirqFn_le (env : SoftirqEnv E K) (dpdk : Bool) (w : SoftirqWork) (h : TimerInv s) :
    softirqFn dpdk k env w s ≤
      (if dpdk then w.packets else 0) + (BitVec.ofInt 32 w.timerBudget).toNat := by
  have hnet : ∀ s', (if dpdk then exec handlerStep s env.net else .ok s) = .ok s' →
      TimerInv s' := by
    intro s' hs'
    cases dpdk with
    | false =>
        cases hs'
        exact h
    | true =>
        rcases handler_inv env.net h with ⟨u, hu, hi⟩ | hfull
        · cases hu.symm.trans hs'
          exact hi
        · cases hfull.symm.trans hs'
  rw [softirqFn]
  cases hs' : (if dpdk then exec handlerStep s env.net else .ok s) with
  | error f => exact Nat.le_add_right _ _
  | ok s' =>
      have hlen := (timerSoftirq_expires (k := k) env.clock env.handler
        (BitVec.ofInt 32 w.timerBudget) (hnet s' hs')).length_le
      dsimp only
      split
      · exact Nat.add_le_add_left hlen _
      · exact Nat.le_add_right _ _

theorem toNat_timerBudget {b : ℤ} (hpos : 0 ≤ b) (hle : b ≤ softirqMaxBudget) :
    ((BitVec.ofInt 32 b).toNat : ℤ) = b := by
  rw [softirqMaxBudget] at hle
  rw [BitVec.toNat_ofInt, Int.toNat_of_nonneg (by omega)]
  exact Int.emod_eq_of_lt hpos (by omega)

/-- When the queue is left empty, packets and timers share the budget. -/
theorem softirqFn_gathered (queue : List RxMsg) (budget : ℤ)
    (hlt : (queue.length : ℤ) < min budget softirqMaxBudget) (h : TimerInv s) :
    (softirqFn true k env (softirqGatherWork true queue budget) s : ℤ) ≤
      min budget softirqMaxBudget := by
  let w : SoftirqWork :=
    { recvReqs := [], complReqs := [], timerBudget := min budget softirqMaxBudget }
  have hpackets : (gatherLoop w queue).packets ≤ 0 + queue.length := packets_gatherLoop queue w
  have hleft : (gatherLoop w queue).timerBudget =
      min budget softirqMaxBudget - queue.length - 1 := timerBudget_of_lt queue w hlt
  have hmax : min budget softirqMaxBudget ≤ softirqMaxBudget := min_le_right _ _
  have hfn := softirqFn_le (k := k) env true (gatherLoop w queue) h
  have hnat := toNat_timerBudget (b := (gatherLoop w queue).timerBudget) (by omega) (by omega)
  have hgather : softirqGatherWork true queue budget = gatherLoop w queue := rfl
  rw [hgather]
  simp only [if_true] at hfn
  omega

/-- Without packets the timers have the whole budget. -/
theorem softirqFn_whole (budget : ℤ) (hpos : 0 ≤ budget) (h : TimerInv s) :
    (softirqFn false k env
      { recvReqs := [], complReqs := [], timerBudget := min budget softirqMaxBudget } s : ℤ) ≤
      min budget softirqMaxBudget := by
  have hmin : 0 ≤ min budget softirqMaxBudget := le_min hpos (by decide)
  have hfn := softirqFn_le (k := k) env false
    { recvReqs := [], complReqs := [], timerBudget := min budget softirqMaxBudget } h
  have hnat := toNat_timerBudget hmin (min_le_right _ _)
  simp only [Bool.false_eq_true, if_false] at hfn
  omega

end

/-! ## Beyond the budget -/

section

variable {K : Type} [DecidableEq K] [Fintype K] {s : TimerSys ℕ K} {k : K}

/-- One timer is in the heap and due, and the entries after it are not armed. -/
structure Refilled (k : K) (j : ℕ) (s : TimerSys ℕ K) : Prop where
  nr : s.nrTimers k = 1
  due : (s.timers k 0).deadlineUs = 0#64
  off : ∀ i, j < i → (s.entry i).armed = false

/-- Every handler starts the next timer, which is due at once. -/
def refill (k : K) (j : ℕ) : List (TimerEvent ℕ K) := [.start k (j + 1) 0#64]

/-- The clock stands still. -/
def refillEnv (k : K) : SoftirqEnv ℕ K where
  pending := 0#64
  net := []
  needed := 0#64
  clock _ := 0#64
  handler := refill k

omit [DecidableEq K] [Fintype K] in
theorem Refilled.expired {j : ℕ} (h : Refilled k j s) (now : BitVec 64) : s.Expired k now := by
  constructor
  · rw [h.nr]
    exact Nat.one_pos
  · rw [h.due]
    exact BitVec.le_def.mpr (Nat.zero_le _)

omit [Fintype K] in
/-- A timer is started in an empty heap. -/
theorem start_empty {e : ℕ} {d : BitVec 64} (hnr : s.nrTimers k = 0)
    (hoff : (s.entry e).armed = false) : ∃ s', timerStep s (.start k e d) = .ok s' ∧
      s'.nrTimers k = 1 ∧ (s'.timers k 0).deadlineUs = d ∧
      ∀ i, i ≠ e → (s'.entry i).armed = (s.entry i).armed := by
  have hroom : ¬ maxTimers ≤ 0 + 1 := by decide
  simp only [timerStep, timerStartLocked, hoff, hnr, hroom, Bool.false_eq_true, if_false, Except.map]
  refine ⟨_, rfl, ?_, ?_, ?_⟩
  · simp [recordStart, append, setMem, setArmed, setNr, hnr]
  · simp [recordStart, append, setMem, setArmed, setNr, mem, HeapMem.siftUp, HeapMem.siftUpLoop, hnr]
  · intro i hi
    simp [recordStart, append, setMem, setArmed, setNr, mem, HeapMem.siftUp, HeapMem.siftUpLoop, hnr,
      hi]

omit [Fintype K] in
/-- The only timer is popped. -/
theorem Refilled.popped {j : ℕ} (h : Refilled k j s) :
    s.softirqTurn k 0#64 = (some (s.timers k 0).e, s.setNr k 0) := by
  simp only [softirqTurn, if_pos (h.expired 0#64), h.nr]
  rfl

theorem Refilled.turn {j : ℕ} (h : Refilled k j s) :
    ∃ s', exec handlerStep (recordPop (some (s.timers k 0).e, s.setNr k 0)) (refill k j) = .ok s' ∧
      Refilled k (j + 1) s' := by
  let u := recordPop (some (s.timers k 0).e, s.setNr k 0)
  have hempty : u.nrTimers k = 0 := by simp [u, recordPop, setNr]
  have hoff : (u.entry (j + 1)).armed = false := h.off (j + 1) (Nat.lt_succ_self j)
  obtain ⟨s', hs', hnr, hdue, harmed⟩ := start_empty (d := 0#64) hempty hoff
  refine ⟨s', ?_, hnr, hdue, ?_⟩
  · have hcall : u.HandlerCall (.start k (j + 1) 0#64) := hoff
    refine exec_cons_ok.mpr ⟨s', ?_, rfl⟩
    rw [handlerStep, if_pos hcall]
    exact hs'
  · intro i hi
    rw [harmed i (by omega)]
    exact h.off i (by omega)

theorem length_softirqLoop_refill : ∀ (budget j : ℕ) {s : TimerSys ℕ K}, Refilled k j s →
    (softirqLoop k (fun _ => 0#64) (refill k) budget j s).1.length = budget := by
  intro budget
  induction budget with
  | zero =>
      intro j s _
      rfl
  | succ budget ih =>
      intro j s h
      obtain ⟨s', hs', h'⟩ := h.turn
      rw [softirqLoop]
      simp only [h.popped, hs']
      exact congrArg Nat.succ (ih (j + 1) h')

theorem timerSoftirq_refill (h : Refilled k 0 s) (hi : TimerInv s) (budget : BitVec 32) :
    (timerSoftirq k (fun _ => 0#64) (refill k) budget s).1.length = budget.toNat := by
  rw [timerSoftirq, if_pos (isValidHeap_of_heapFrom (hi.order k))]
  exact length_softirqLoop_refill budget.toNat 0 h

/-- There is such a heap. -/
theorem exists_refilled (k : K) : ∃ s : TimerSys ℕ K, TimerInv s ∧ Refilled k 0 s := by
  have hboot : TimerInv (boot fun _ _ => { deadlineUs := 0#64, e := 0 } : TimerSys ℕ K) :=
    timerInv_boot _
  obtain ⟨s, hs, hnr, hdue, harmed⟩ := start_empty (k := k) (e := 0) (d := 0#64)
    (s := boot fun _ _ => { deadlineUs := 0#64, e := 0 }) rfl rfl
  have hproper : Proper (boot fun _ _ => { deadlineUs := 0#64, e := 0 } : TimerSys ℕ K)
      (.start k 0 0#64) := ⟨rfl, (by decide : 0 + 1 < maxTimers)⟩
  obtain ⟨u, hu, hinv⟩ := timerStep_inv hboot hproper
  cases hs.symm.trans hu
  refine ⟨s, hinv, hnr, hdue, ?_⟩
  intro i hi
  exact harmed i (Nat.ne_of_gt hi)

theorem softirqFn_refill (h : Refilled k 0 s) (hi : TimerInv s) (dpdk : Bool)
    (w : SoftirqWork) : softirqFn dpdk k (refillEnv k) w s =
      (if dpdk then w.packets else 0) + (BitVec.ofInt 32 w.timerBudget).toNat := by
  have hnet : (if dpdk then exec handlerStep s (refillEnv k).net else .ok s) =
      (.ok s : Except TimerFault _) := by
    cases dpdk <;> rfl
  rw [softirqFn, hnet]
  simp only [refillEnv, if_pos (h.expired _), timerSoftirq_refill h hi]

/-- With as many messages as the budget, the timers get a budget that is as good as none. -/
theorem lt_softirqFn_refill (h : Refilled k 0 s) (hi : TimerInv s) {queue : List RxMsg} {budget : ℤ}
    (hle : min budget softirqMaxBudget ≤ queue.length) :
    min budget softirqMaxBudget <
      softirqFn true k (refillEnv k) (softirqGatherWork true queue budget) s := by
  by_cases hpos : 0 ≤ min budget softirqMaxBudget
  · have hleft : (softirqGatherWork true queue budget).timerBudget = -1 :=
      timerBudget_of_le queue _ hpos hle
    have hmax : min budget softirqMaxBudget ≤ 16 := min_le_right _ _
    have hunsigned : (BitVec.ofInt 32 (-1)).toNat = 4294967295 := by decide
    rw [softirqFn_refill h hi, hleft, hunsigned]
    generalize (if true then _ else 0) = packets
    omega
  · omega

end

/-! ## The budget -/

section

variable {K : Type} [DecidableEq K] [Fintype K]

/-- `softirq_run` handles no more events than its budget. -/
def RunWithin (dpdk : Bool) (k : K) (queue : List RxMsg) (budget : ℤ) : Prop :=
  ∀ (env : SoftirqEnv ℕ K) (s : TimerSys ℕ K), TimerInv s →
    (softirqRun dpdk k env queue budget s : ℤ) ≤ min budget softirqMaxBudget

/-- The closure of `softirq_task` handles no more events than its budget, whatever the timers are
when it runs. -/
def TaskWithin (dpdk : Bool) (k : K) (queue : List RxMsg) (budget : ℤ) : Prop :=
  ∀ (env : SoftirqEnv ℕ K) (created : Bool) (s s' : TimerSys ℕ K) (w : SoftirqWork), TimerInv s' →
    softirqTask dpdk k env queue budget created s = some w →
    (softirqFn dpdk k env w s' : ℤ) ≤ min budget softirqMaxBudget

/-- The queue has fewer messages than the budget; without DPDK, the budget is not negative. -/
def BudgetKept (dpdk : Bool) (queue : List RxMsg) (budget : ℤ) : Prop :=
  if dpdk then (queue.length : ℤ) < min budget softirqMaxBudget else 0 ≤ budget

theorem BudgetKept.nonneg {dpdk : Bool} {queue : List RxMsg} {budget : ℤ}
    (h : BudgetKept dpdk queue budget) : 0 ≤ min budget softirqMaxBudget := by
  cases dpdk with
  | true => exact (Int.natCast_nonneg _).trans (le_of_lt h)
  | false => exact le_min h (by decide)

theorem softirqFn_within {dpdk : Bool} {k : K} {queue : List RxMsg} {budget : ℤ}
    (hkept : BudgetKept dpdk queue budget) (env : SoftirqEnv ℕ K) {s : TimerSys ℕ K}
    (h : TimerInv s) :
    (softirqFn dpdk k env (softirqGatherWork dpdk queue budget) s : ℤ) ≤
      min budget softirqMaxBudget := by
  cases dpdk with
  | true => exact softirqFn_gathered queue budget hkept h
  | false => exact softirqFn_whole budget hkept h

theorem lt_softirqFn {dpdk : Bool} {k : K} {queue : List RxMsg} {budget : ℤ}
    (hnot : ¬ BudgetKept dpdk queue budget) {s : TimerSys ℕ K} (h : Refilled k 0 s)
    (hi : TimerInv s) :
    min budget softirqMaxBudget <
      softirqFn dpdk k (refillEnv k) (softirqGatherWork dpdk queue budget) s := by
  cases dpdk with
  | true => exact lt_softirqFn_refill h hi (not_lt.mp hnot)
  | false =>
      have hneg : budget < 0 := not_le.mp hnot
      have hmin : min budget softirqMaxBudget ≤ budget := min_le_left _ _
      omega

theorem softirqRun_pending {dpdk : Bool} {k : K} {env : SoftirqEnv ℕ K} {queue : List RxMsg}
    {budget : ℤ} {s : TimerSys ℕ K} (hp : SoftirqPending dpdk queue k env.pending s) :
    softirqRun dpdk k env queue budget s =
      softirqFn dpdk k env (softirqGatherWork dpdk queue budget) s := by
  rw [softirqRun, if_pos hp]
  cases dpdk <;> rfl

/-- **The budget of softirq.**  Whatever the timers are and whatever their handlers do, no more
events are handled than `MIN(budget, SOFTIRQ_MAX_BUDGET)`, exactly when the receive queue has fewer
messages than that; and in a build without DPDK exactly when the budget is not negative. -/
theorem softirq_budget_iff (dpdk : Bool) (k : K) (queue : List RxMsg) (budget : ℤ) :
    (RunWithin dpdk k queue budget ↔ BudgetKept dpdk queue budget) ∧
    (TaskWithin dpdk k queue budget ↔ BudgetKept dpdk queue budget) := by
  obtain ⟨s, hi, hrefilled⟩ := exists_refilled k
  have hpending : SoftirqPending dpdk queue k (refillEnv k).pending s := .inr (hrefilled.expired _)
  refine ⟨⟨fun hrun => ?_, fun hkept env s hs => ?_⟩, ⟨fun htask => ?_, ?_⟩⟩
  · by_contra hnot
    have hle := hrun (refillEnv k) s hi
    rw [softirqRun_pending hpending] at hle
    exact absurd hle (not_le.mpr (lt_softirqFn hnot hrefilled hi))
  · by_cases hp : SoftirqPending dpdk queue k env.pending s
    · rw [softirqRun_pending hp]
      exact softirqFn_within hkept env hs
    · rw [softirqRun, if_neg hp]
      exact hkept.nonneg
  · by_contra hnot
    have hsome : softirqTask dpdk k (refillEnv k) queue budget true s =
        some (softirqGatherWork dpdk queue budget) := by
      rw [softirqTask, if_pos hpending, if_pos rfl]
    have hle := htask (refillEnv k) true s s _ hi hsome
    exact absurd hle (not_le.mpr (lt_softirqFn hnot hrefilled hi))
  · intro hkept env created s₁ s' w hs' hw
    rw [softirqTask] at hw
    split at hw
    · split at hw
      · cases hw
        exact softirqFn_within hkept env hs'
      · cases hw
    · cases hw

/-- A full batch of packets, and one timer that is due. -/
theorem full_batch_overrun : ∃ s : TimerSys ℕ Bool,
    exec timerStep (boot fun _ _ => { deadlineUs := 0#64, e := 0 }) [.start true 1 10#64] = .ok s ∧
    softirqRun true true
      { pending := 20#64, net := [], needed := 20#64, clock := fun _ => 20#64,
        handler := fun _ => [] }
      (List.replicate 16 { cmd := rxNetRecv, payload := 0#64 }) 16 s = 17 := by
  refine ⟨_, rfl, ?_⟩
  decide

end

end Skyloft
