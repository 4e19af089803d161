import Skyloft.Sync.TimerHeap

/-!
# Timer expiry

`timer_softirq` pops the first timer of the heap, drops the lock to run its handler, and reads the
clock again, until the budget is used up or the first timer is not due.  While the lock is dropped
the handler may start timers that are not armed and cancel timers that are in a heap, so the heap
it comes back to is another one; what it finds there is still in order.

The budget is an unsigned counter that is decremented by the test of the loop, also by the test that
ends the loop, where it may wrap and is not read again.

* `timerSoftirq` — the loop, with its clock readings and its handlers.
* `Turn.Earliest`, `Chained` — what a turn does to the heap, and how the turns follow each other.
* `timer_expiry` — which handlers it runs, and what is left when it returns.
-/

namespace Skyloft

open Run Heap

namespace TimerSys

/-! ## The loop -/

/-- A turn of the loop that runs a handler: the timers before it, the clock reading, the entry whose
handler is called, and the timers that the handler finds. -/
structure Turn (E K : Type) where
  before : TimerSys E K
  now : BitVec 64
  entry : E
  after : TimerSys E K

variable {E K : Type} [DecidableEq E] [DecidableEq K] [Fintype K]

/-- What handlers call: an entry that is in no heap is set up, one that is not armed is started,
one that is in a heap is cancelled. -/
def HandlerCall (s : TimerSys E K) : TimerEvent E K → Prop
  | .init e => ∀ k, ¬ s.InHeap k e
  | .start _ e _ => (s.entry e).armed = false
  | .cancel e => ∃ k, s.InHeap k e
  | .merge _ _ | .softirq _ | .expire _ _ => False

instance (s : TimerSys E K) : (ev : TimerEvent E K) → Decidable (s.HandlerCall ev)
  | .init e => inferInstanceAs (Decidable (∀ k, ¬ s.InHeap k e))
  | .start _ e _ => inferInstanceAs (Decidable ((s.entry e).armed = false))
  | .cancel e => inferInstanceAs (Decidable (∃ k, s.InHeap k e))
  | .merge _ _ | .softirq _ | .expire _ _ => inferInstanceAs (Decidable False)

/-- A call of a handler.  One that handlers do not make changes nothing. -/
def handlerStep (s : TimerSys E K) (ev : TimerEvent E K) : Except TimerFault (TimerSys E K) :=
  if s.HandlerCall ev then timerStep s ev else .ok s

/-- The loop of `timer_softirq` from turn `j` on: the turns that run a handler, and the timers when
it returns.  Turn `j` reads `clock j`, and its handler calls `handler j`. -/
def softirqLoop (k : K) (clock : ℕ → BitVec 64) (handler : ℕ → List (TimerEvent E K)) :
    ℕ → ℕ → TimerSys E K → List (Turn E K) × Except TimerFault (TimerSys E K)
  -- the counter wraps here, and is not read again
  | 0, _, s => ([], .ok s)
  | budget + 1, j, s =>
      let popped := s.softirqTurn k (clock j)
      match popped.1 with
      | none => ([], .ok s)
      | some e =>
          let t : Turn E K :=
            { before := s, now := clock j, entry := e, after := recordPop popped }
          match exec handlerStep t.after (handler j) with
          | .error f => ([t], .error f)
          | .ok s' =>
              let r := softirqLoop k clock handler budget (j + 1) s'
              (t :: r.1, r.2)

/-- `timer_softirq` -/
def timerSoftirq (k : K) (clock : ℕ → BitVec 64) (handler : ℕ → List (TimerEvent E K))
    (budget : BitVec 32) (s : TimerSys E K) :
    List (Turn E K) × Except TimerFault (TimerSys E K) :=
  if isValidHeap (s.timers k) (s.nrTimers k) then softirqLoop k clock handler budget.toNat 0 s
  else ([], .error .invalidHeap)

variable {s s' : TimerSys E K} {k : K}

/-! ## Handlers -/

/-- A handler keeps the heaps in order; the only fault it meets is a full heap. -/
theorem handlerStep_inv (h : TimerInv s) (ev : TimerEvent E K) :
    (∃ s', handlerStep s ev = .ok s' ∧ TimerInv s') ∨ handlerStep s ev = .error .full := by
  by_cases hev : s.HandlerCall ev
  · rw [handlerStep, if_pos hev]
    by_cases hp : s.Proper ev
    · exact .inl (timerStep_inv h hp)
    · cases ev with
      | start k e d =>
          have harm : (s.entry e).armed = false := hev
          have hfull : maxTimers ≤ s.nrTimers k + 1 := by
            by_contra hroom
            exact hp ⟨harm, Nat.not_le.mp hroom⟩
          right
          simp [timerStep, timerStartLocked, harm, hfull, Except.map]
      | init e => exact absurd hev hp
      | cancel e => exact absurd hev hp
      | merge _ _ => exact hev.elim
      | softirq _ => exact hev.elim
      | expire _ _ => exact hev.elim
  · rw [handlerStep, if_neg hev]
    exact .inl ⟨s, rfl, h⟩

theorem handler_inv (evs : List (TimerEvent E K)) : ∀ {s : TimerSys E K}, TimerInv s →
    (∃ s', exec handlerStep s evs = .ok s' ∧ TimerInv s') ∨
      exec handlerStep s evs = .error .full := by
  induction evs with
  | nil =>
      intro s h
      exact .inl ⟨s, rfl, h⟩
  | cons ev evs ih =>
      intro s h
      rcases handlerStep_inv h ev with ⟨s', hs', h'⟩ | hfull
      · rw [exec, hs']
        exact ih h'
      · rw [exec, hfull]
        exact .inr rfl

/-! ## Expiry -/

omit [DecidableEq E] [DecidableEq K] in
/-- The first timer is the earliest. -/
theorem TimerInv.first_le (h : TimerInv s) {i : ℕ} (hi : i < s.nrTimers k) :
    (s.timers k 0).deadlineUs ≤ (s.timers k i).deadlineUs :=
  BitVec.le_def.mpr ((h.order k).root_le i hi)

/-- A turn calls the handler of the first timer in the heap, which is due by the clock reading of
the turn and not later than any other; this timer and no other leaves the heaps. -/
structure Turn.Earliest (k : K) (reading : BitVec 64) (t : Turn E K) : Prop where
  now : t.now = reading
  pending : 0 < t.before.nrTimers k
  first : t.entry = (t.before.timers k 0).e
  due : (t.before.timers k 0).deadlineUs ≤ t.now
  least : ∀ i < t.before.nrTimers k,
    (t.before.timers k 0).deadlineUs ≤ (t.before.timers k i).deadlineUs
  gone : ∀ r, ¬ t.after.InHeap r t.entry
  others : t.before.timers k 0 ::ₘ contents (t.after.timers k) (t.after.nrTimers k) =
    contents (t.before.timers k) (t.before.nrTimers k)
  elsewhere : ∀ r, r ≠ k →
    t.after.timers r = t.before.timers r ∧ t.after.nrTimers r = t.before.nrTimers r

/-- The turn that pops the first timer. -/
theorem TimerInv.turn (h : TimerInv s) {now : BitVec 64} (hexp : s.Expired k now) :
    ∃ t : Turn E K, t.before = s ∧ t.Earliest k now ∧ TimerInv t.after ∧
      s.softirqTurn k now = (some t.entry, (s.softirqTurn k now).2) ∧
      t.after = recordPop (s.softirqTurn k now) := by
  obtain ⟨s', hs', hrem, -, helse, -⟩ := softirqTurn_removed h hexp
  have hinv := softirqTurn_inv h k now
  rw [hs'] at hinv ⊢
  refine ⟨⟨s, now, (s.timers k 0).e, recordPop (some (s.timers k 0).e, s')⟩, rfl, ?_, hinv, rfl, rfl⟩
  refine ⟨rfl, hexp.1, rfl, hexp.2, fun i hi => h.first_le hi, hrem.gone, ?_, helse⟩
  -- the other heaps are the same, so what all of them lose is lost by this one
  have hsum := total_update (s := s) (u := s') k fun r hr => by rw [(helse r hr).1, (helse r hr).2]
  rw [← hrem.total, Multiset.cons_add, ← Multiset.add_cons] at hsum
  exact (add_left_cancel hsum).symm

/-- No timer in the heap is due. -/
def NoneDue (k : K) (now : BitVec 64) (s : TimerSys E K) : Prop :=
  ∀ i < s.nrTimers k, now < (s.timers k i).deadlineUs

omit [DecidableEq E] [DecidableEq K] in
theorem noneDue_of_not_expired (h : TimerInv s) {now : BitVec 64} (hexp : ¬ s.Expired k now) :
    NoneDue k now s := by
  intro i hi
  rw [← BitVec.not_le]
  intro hle
  exact hexp ⟨Nat.zero_lt_of_lt hi, BitVec.le_trans (h.first_le hi) hle⟩

/-- The turns from turn `j` on lead from `s` to the result: each handler starts with what its turn
left, and the next turn with what the handler left. -/
def Chained (handler : ℕ → List (TimerEvent E K)) : ℕ → TimerSys E K → List (Turn E K) →
    Except TimerFault (TimerSys E K) → Prop
  | _, s, [], r => r = .ok s
  | j, s, t :: ts, r =>
      t.before = s ∧
        match exec handlerStep t.after (handler j) with
        | .error f => ts = [] ∧ r = .error f
        | .ok s' => Chained handler (j + 1) s' ts r

/-- What the loop does from turn `j` on. -/
structure Expires (k : K) (clock : ℕ → BitVec 64) (handler : ℕ → List (TimerEvent E K))
    (budget j : ℕ) (s : TimerSys E K) (r : List (Turn E K) × Except TimerFault (TimerSys E K)) :
    Prop where
  chained : Chained handler j s r.1 r.2
  earliest : ∀ (i : ℕ) (t : Turn E K), r.1[i]? = some t → t.Earliest k (clock (j + i))
  length_le : r.1.length ≤ budget
  noneDue : ∀ s, r.2 = .ok s → r.1.length < budget → NoneDue k (clock (j + r.1.length)) s
  fault : ∀ f, r.2 = .error f → f = .full

variable {clock : ℕ → BitVec 64} {handler : ℕ → List (TimerEvent E K)}

theorem Expires.stop (h : TimerInv s) {budget j : ℕ}
    (hexp : 0 < budget → ¬ s.Expired k (clock j)) :
    Expires k clock handler budget j s (([], .ok s) : List (Turn E K) × _) where
  chained := rfl
  earliest i t ht := by simp at ht
  length_le := Nat.zero_le _
  noneDue s' hs' hlt := by
    cases hs'
    exact noneDue_of_not_expired h (hexp hlt)
  fault f hf := by cases hf

/-- A turn before the others. -/
theorem Expires.cons {t : Turn E K} {budget j : ℕ} (ht : t.Earliest k (clock j))
    (hs : exec handlerStep t.after (handler j) = .ok s')
    {r : List (Turn E K) × Except TimerFault (TimerSys E K)}
    (hr : Expires k clock handler budget (j + 1) s' r) :
    Expires k clock handler (budget + 1) j t.before (t :: r.1, r.2) := by
  constructor
  · refine ⟨rfl, ?_⟩
    rw [hs]
    exact hr.chained
  · intro i t' ht'
    cases i with
    | zero =>
        cases ht'
        exact ht
    | succ i =>
        have hturn := hr.earliest i t' ht'
        rwa [Nat.add_right_comm] at hturn
  · exact Nat.succ_le_succ hr.length_le
  · intro u hu hlt
    have hnone := hr.noneDue u hu (Nat.lt_of_succ_lt_succ hlt)
    rwa [Nat.add_right_comm] at hnone
  · exact hr.fault

/-- A turn whose handler meets a full heap. -/
theorem Expires.full {t : Turn E K} {budget j : ℕ} (ht : t.Earliest k (clock j))
    (hs : exec handlerStep t.after (handler j) = .error .full) :
    Expires k clock handler (budget + 1) j t.before ([t], .error .full) := by
  constructor
  · refine ⟨rfl, ?_⟩
    rw [hs]
    exact ⟨rfl, rfl⟩
  · intro i t' ht'
    cases i with
    | zero =>
        cases ht'
        exact ht
    | succ i => simp at ht'
  · exact Nat.succ_le_succ (Nat.zero_le _)
  · intro u hu
    cases hu
  · intro f hf
    cases hf
    rfl

theorem softirqLoop_expires : ∀ (budget j : ℕ) {s : TimerSys E K}, TimerInv s →
    Expires k clock handler budget j s (softirqLoop k clock handler budget j s) := by
  intro budget
  induction budget with
  | zero =>
      intro j s h
      exact .stop h fun hlt => absurd hlt (lt_irrefl 0)
  | succ budget ih =>
      intro j s h
      by_cases hexp : s.Expired k (clock j)
      · obtain ⟨t, rfl, ht, hafter, hturn, hrec⟩ := h.turn hexp
        have hsome : (t.before.softirqTurn k (clock j)).1 = some t.entry := by rw [hturn]
        have heq : (⟨t.before, clock j, t.entry, t.after⟩ : Turn E K) = t := by rw [← ht.now]
        rw [softirqLoop]
        simp only [hsome, ← hrec, heq]
        rcases handler_inv (handler j) hafter with ⟨s', hs', h'⟩ | hfull
        · simp only [hs']
          exact .cons ht hs' (ih (j + 1) h')
        · simp only [hfull]
          exact .full ht hfull
      · have hnone : s.softirqTurn k (clock j) = (none, s) := if_neg hexp
        rw [softirqLoop]
        simp only [hnone]
        exact .stop h fun _ => hexp

theorem timerSoftirq_expires (clock : ℕ → BitVec 64) (handler : ℕ → List (TimerEvent E K))
    (budget : BitVec 32) (h : TimerInv s) :
    Expires k clock handler budget.toNat 0 s (timerSoftirq k clock handler budget s) := by
  rw [timerSoftirq, if_pos (isValidHeap_of_heapFrom (h.order k))]
  exact softirqLoop_expires budget.toNat 0 h

/-- **Timer expiry.**  With heaps in order, whatever the budget, the clock readings and the calls
of the handlers are: the turns lead from the timers at the call to those at the return; every handler
that runs is that of the earliest timer in the heap, due by the clock reading before it, and this
timer has left the heap; there are no more of them than the budget; when there are fewer, no timer
in the heap is due by the last clock reading; and nothing faults but a handler that starts a timer
in a full heap. -/
theorem timer_expiry (k : K) (clock : ℕ → BitVec 64) (handler : ℕ → List (TimerEvent E K))
    (budget : BitVec 32) {s : TimerSys E K} (h : TimerInv s) :
    Chained handler 0 s (timerSoftirq k clock handler budget s).1
      (timerSoftirq k clock handler budget s).2 ∧
    (∀ (i : ℕ) (t : Turn E K), (timerSoftirq k clock handler budget s).1[i]? = some t →
      t.Earliest k (clock i)) ∧
    (timerSoftirq k clock handler budget s).1.length ≤ budget.toNat ∧
    (∀ s', (timerSoftirq k clock handler budget s).2 = .ok s' →
      (timerSoftirq k clock handler budget s).1.length < budget.toNat →
        NoneDue k (clock (timerSoftirq k clock handler budget s).1.length) s') ∧
    ∀ f, (timerSoftirq k clock handler budget s).2 = .error f → f = .full := by
  have hloop := timerSoftirq_expires (k := k) clock handler budget h
  refine ⟨hloop.chained, ?_, hloop.length_le, ?_, hloop.fault⟩
  · simpa only [Nat.zero_add] using hloop.earliest
  · simpa only [Nat.zero_add] using hloop.noneDue

/-- Four timers, in the order in which they are started. -/
def expiryStart : List (TimerEvent ℕ Bool) :=
  [.start true 1 50, .start true 2 10, .start true 3 15, .start true 4 18]

/-- The timers after that. -/
def expirySys : TimerSys ℕ Bool :=
  final timerStep (boot fun _ _ => { deadlineUs := 0, e := 0 }) expiryStart

/-- The clock is at 11, and at 20 after the first handler. -/
def expiryClock (j : ℕ) : BitVec 64 := if j = 0 then 11 else 20

/-- The first handler cancels one timer and starts another one. -/
def expiryHandler (j : ℕ) : List (TimerEvent ℕ Bool) :=
  if j = 0 then [.cancel 3, .start true 5 12] else []

/-- Timer 2 is popped first; its handler cancels timer 3 and starts timer 5, which is next. -/
theorem timer_expiry_two :
    Chained expiryHandler 0 expirySys (timerSoftirq true expiryClock expiryHandler 16 expirySys).1
      (timerSoftirq true expiryClock expiryHandler 16 expirySys).2 ∧
    (∀ (i : ℕ) (t : Turn ℕ Bool),
      (timerSoftirq true expiryClock expiryHandler 16 expirySys).1[i]? = some t →
        t.Earliest true (expiryClock i)) ∧
    (timerSoftirq true expiryClock expiryHandler 16 expirySys).1.map (fun t =>
      (t.entry, t.before.timers true 0, t.now, t.after.nrTimers true)) =
        [(2, ⟨10, 2⟩, 11, 3), (5, ⟨12, 5⟩, 20, 2), (4, ⟨18, 4⟩, 20, 1)] ∧
    (timerSoftirq true expiryClock expiryHandler 16 expirySys).2.toOption.map (fun s =>
      (s.nrTimers true, s.timers true 0)) = some (1, ⟨50, 1⟩) := by
  have hproper : Along timerStep Proper
      (boot fun _ _ => { deadlineUs := 0, e := 0 } : TimerSys ℕ Bool) expiryStart := by decide
  obtain ⟨s, hs, h⟩ := exec_ok (fun s ev hi hev => timerStep_inv hi hev) (timerInv_boot _) hproper
  have heq : s = expirySys := by simp only [expirySys, final, hs, Except.toOption, Option.getD_some]
  have hexp := timer_expiry true expiryClock expiryHandler 16#32 (heq ▸ h)
  exact ⟨hexp.1, hexp.2.1, by decide, by decide⟩

end TimerSys

end Skyloft
