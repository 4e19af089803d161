import Skyloft.Lib.Ledger
import Skyloft.Lib.Run
import Skyloft.Sync.TimerSift

/-!
# The timer heaps of the kthreads

The heaps of all kthreads, and the entries they share.  `timer_cancel` finds its timer by what
its entry points to, and `timer_merge` moves all timers of one kthread to another.

Every function runs under the lock of the heap it changes, `timer_merge` under both locks, and
`timer_cancel` looks at the kthread of its entry again when it has the lock.  `timer_softirq`
releases the lock to run a handler, so each turn of its loop is a step of its own, with the
time of that turn.

* `TimerSys`, `timerStep` — the kthreads, and one critical section, with the records of what was
  asked and answered.
* `timerStartLocked_listed`, `softirqTurn_listed` — on one heap they are the functions of
  `Skyloft.Sync.Timer`.
* `TimerInv` — the heaps are ordered, the entries point back.
* `timers_exact` — the heaps hold what was started and neither cancelled nor popped.
* `armed_iff` — when the flag `armed` says that a timer is in a heap.
-/

namespace Skyloft

open Run Heap Ledger

/-! ## The kthreads -/

/-- The heaps of the kthreads, and the entries; the rest are records, which no function reads. -/
structure TimerSys (E K : Type) where
  timers : K → ℕ → TimerIdx E
  nrTimers : K → ℕ
  entry : E → TimerEntry K
  /-- the deadline an entry was last started with -/
  due : E → BitVec 64
  /-- the timers of the calls that started one, cancelled one and popped one -/
  started : Multiset (TimerIdx E)
  cancelled : Multiset (TimerIdx E)
  popped : Multiset (TimerIdx E)

inductive TimerFault
  /-- `BUG_ON(e->armed)` -/
  | bugOn
  /-- `BUG()` at `MAX_TIMERS` -/
  | full
  /-- the lock of the kthread is taken twice -/
  | deadlock
  /-- the entry was never started, its kthread is not set -/
  | noKthread
  /-- the count went below zero -/
  | outOfBounds
  /-- `assert_timer_heap_is_valid` -/
  | invalidHeap
  deriving DecidableEq

inductive TimerEvent (E K : Type)
  | init (e : E)
  /-- `timer_start` on a kthread -/
  | start (k : K) (e : E) (deadlineUs : BitVec 64)
  | cancel (e : E)
  /-- `timer_merge(r)` on a kthread -/
  | merge (k r : K)
  /-- `timer_softirq` up to its loop -/
  | softirq (k : K)
  /-- one turn of the loop -/
  | expire (k : K) (now : BitVec 64)

/-- `MAX_TIMERS` -/
def maxTimers : ℕ := 4096

/-- The loop of `is_valid_heap`. -/
def isValidHeap {E : Type} (heap : ℕ → TimerIdx E) (n : ℕ) : Bool :=
  (List.range n).all fun i =>
    i ≤ 1 || (heap ((i - 1) / arity)).deadlineUs ≤ (heap i).deadlineUs

namespace TimerSys

variable {E K : Type} [DecidableEq E] [DecidableEq K]

/-- No timer was started; the slots are not initialised. -/
def boot (timers : K → ℕ → TimerIdx E) : TimerSys E K where
  timers := timers
  nrTimers _ := 0
  entry _ := { armed := false, idx := 0, k := none }
  due _ := 0
  started := 0
  cancelled := 0
  popped := 0

/-- The heap of a kthread, with the entries. -/
def mem (s : TimerSys E K) (k : K) : HeapMem E K where
  heap := s.timers k
  entry := s.entry

def setMem (s : TimerSys E K) (k : K) (m : HeapMem E K) : TimerSys E K :=
  { s with timers := Function.update s.timers k m.heap, entry := m.entry }

def setNr (s : TimerSys E K) (k : K) (n : ℕ) : TimerSys E K :=
  { s with nrTimers := Function.update s.nrTimers k n }

def setArmed (s : TimerSys E K) (e : E) (b : Bool) : TimerSys E K :=
  { s with entry := Function.update s.entry e { s.entry e with armed := b } }

/-- `timer_init` -/
def timerInit (s : TimerSys E K) (e : E) : TimerSys E K := s.setArmed e false

/-- A timer is written behind the last one of a kthread, and its entry points to it. -/
def append (s : TimerSys E K) (k : K) (t : TimerIdx E) : TimerSys E K :=
  let i := s.nrTimers k
  { s.setNr k (i + 1) with
    timers := Function.update s.timers k (Function.update (s.timers k) i t)
    entry := Function.update s.entry t.e { s.entry t.e with idx := i, k := some k } }

/-- `timer_start_locked` -/
def timerStartLocked (s : TimerSys E K) (k : K) (e : E) (deadlineUs : BitVec 64) :
    Except TimerFault (TimerSys E K) :=
  if (s.entry e).armed then .error .bugOn
  else
    let i := s.nrTimers k
    if maxTimers ≤ i + 1 then .error .full
    else
      let s := s.append k { deadlineUs, e }
      .ok ((s.setMem k ((s.mem k).siftUp i)).setArmed e true)

/-- `timer_cancel`, and what it returns. -/
def timerCancel (s : TimerSys E K) (e : E) : Except TimerFault (Bool × TimerSys E K) :=
  match (s.entry e).k with
  | none => .error .noKthread
  | some k =>
      if (s.entry e).armed = false then .ok (false, s)
      else if s.nrTimers k = 0 then .error .outOfBounds
      else
        let last := s.nrTimers k - 1
        let s := (s.setArmed e false).setNr k last
        if (s.entry e).idx = last then .ok (true, s)
        else
          let m := (s.mem k).place (s.entry e).idx (s.timers k last)
          .ok (true, s.setMem k (m.resift e last))

/-- One turn of the first loop of `timer_merge`. -/
def absorb (k r : K) (s : TimerSys E K) (i : ℕ) : Except TimerFault (TimerSys E K) :=
  if maxTimers ≤ s.nrTimers k + 1 then .error .full else .ok (s.append k (s.timers r i))

/-- The first loop of `timer_merge`. -/
def absorbAll (k r : K) : List ℕ → TimerSys E K → Except TimerFault (TimerSys E K)
  | [], s => .ok s
  | i :: is, s =>
      match absorb k r s i with
      | .error f => .error f
      | .ok s => absorbAll k r is s

/-- `timer_merge` -/
def timerMerge (s : TimerSys E K) (k r : K) : Except TimerFault (TimerSys E K) :=
  if k = r then .error .deadlock
  else if s.nrTimers r = 0 then .ok s
  else
    match absorbAll k r (List.range (s.nrTimers r)) s with
    | .error f => .error f
    | .ok s =>
        let s := s.setNr r 0
        let n := s.nrTimers k
        .ok (s.setMem k ((s.mem k).restore n (n / arity)))

/-- `timer_softirq` finds an expired timer. -/
def Expired (s : TimerSys E K) (k : K) (now : BitVec 64) : Prop :=
  0 < s.nrTimers k ∧ (s.timers k 0).deadlineUs ≤ now

instance (s : TimerSys E K) (k : K) (now : BitVec 64) : Decidable (s.Expired k now) :=
  inferInstanceAs (Decidable (_ ∧ _))

/-- One turn of the loop of `timer_softirq`, up to the handler: the entry whose handler is called,
if there is one. -/
def softirqTurn (s : TimerSys E K) (k : K) (now : BitVec 64) : Option E × TimerSys E K :=
  if s.Expired k now then
    let i := s.nrTimers k - 1
    let e := (s.timers k 0).e
    let s := s.setNr k i
    if 0 < i then (some e, s.setMem k (((s.mem k).place 0 (s.timers k i)).siftDown 0 i))
    else (some e, s)
  else (none, s)

/-! ### The heap as a list -/

/-- The heap of a kthread as `Skyloft.Sync.Timer` has it. -/
def listed {E K : Type} (wakes : E → List ℕ) (s : TimerSys E K) (k : K) : List Timer :=
  (s.mem k).listed wakes (s.nrTimers k)

section Listed

variable {E K : Type} [DecidableEq E] [DecidableEq K] (wakes : E → List ℕ) {s s' : TimerSys E K} {k : K}

omit [DecidableEq E] [DecidableEq K] in
/-- `timer_needed` is the test of the loop of `timer_softirq`. -/
theorem timerNeeded_listed (now : BitVec 64) :
    timerNeeded (s.listed wakes k) now.toNat = decide (s.Expired k now) := by
  rw [Bool.eq_iff_iff, decide_eq_true_iff]
  unfold Expired listed
  cases s.nrTimers k with
  | zero => simp [HeapMem.listed, timerNeeded]
  | succ n =>
      simp [HeapMem.listed, List.range_succ_eq_map, timerNeeded, mem, TimerIdx.toTimer,
        BitVec.le_def]

/-- A call that starts a timer does so on the list. -/
theorem timerStartLocked_listed {e : E} {d : BitVec 64} (h : s.timerStartLocked k e d = .ok s') :
    s'.listed wakes k =
      timerStart (s.listed wakes k) { deadlineUs := d.toNat, wakes := wakes e } := by
  simp only [timerStartLocked] at h
  split at h
  · cases h
  split at h
  · cases h
  cases h
  let s₁ := s.append k { deadlineUs := d, e }
  have hbelow : ∀ i, i < s.nrTimers k → (s₁.mem k).heap i = (s.mem k).heap i := by
    intro i hi
    simp [s₁, mem, append, Nat.ne_of_lt hi]
  have hstart : ((s₁.mem k).siftUp (s.nrTimers k)).listed wakes (s.nrTimers k + 1) =
      timerStart ((s.mem k).listed wakes (s.nrTimers k))
        (((s₁.mem k).heap (s.nrTimers k)).toTimer wakes) :=
    HeapMem.timerStart_listed hbelow
  simpa [listed, s₁, mem, setMem, setArmed, append, setNr, HeapMem.listed, TimerIdx.toTimer]
    using hstart

/-- A turn that finds an expired timer pops it from the list. -/
theorem softirqTurn_listed {now : BitVec 64} (hexp : s.Expired k now) :
    timerPop (s.listed wakes k) =
      some ((s.timers k 0).toTimer wakes, (s.softirqTurn k now).2.listed wakes k) := by
  obtain ⟨n, hn⟩ : ∃ n, s.nrTimers k = n + 1 := Nat.exists_eq_succ_of_ne_zero (Nat.ne_of_gt hexp.1)
  have hpop := HeapMem.timerPop_listed wakes (s.mem k) n
  simp only [softirqTurn, if_pos hexp, hn, Nat.add_sub_cancel]
  rw [listed, hn, hpop]
  split
  · simp [listed, mem, setMem, setNr, HeapMem.listed]
  · rename_i h0
    simp [listed, mem, setNr, HeapMem.listed, Nat.eq_zero_of_not_pos h0]

end Listed

/-! ### The records -/

omit [DecidableEq K]

/-- A call started the timer of an entry. -/
def recordStart (e : E) (deadlineUs : BitVec 64) (s : TimerSys E K) : TimerSys E K :=
  { s with
    due := Function.update s.due e deadlineUs
    started := { deadlineUs, e } ::ₘ s.started }

omit [DecidableEq E]

/-- A call cancelled the timer of an entry, if it returned true. -/
def recordCancel (e : E) (r : Bool × TimerSys E K) : TimerSys E K :=
  if r.1 then { r.2 with cancelled := { deadlineUs := r.2.due e, e } ::ₘ r.2.cancelled } else r.2

/-- A turn popped the timer of the entry that it returned. -/
def recordPop (r : Option E × TimerSys E K) : TimerSys E K :=
  match r.1 with
  | none => r.2
  | some e => { r.2 with popped := { deadlineUs := r.2.due e, e } ::ₘ r.2.popped }

end TimerSys

/-- One critical section, with the record of it. -/
def timerStep {E K : Type} [DecidableEq E] [DecidableEq K] (s : TimerSys E K) :
    TimerEvent E K → Except TimerFault (TimerSys E K)
  | .init e => .ok (s.timerInit e)
  | .start k e deadlineUs =>
      (s.timerStartLocked k e deadlineUs).map (TimerSys.recordStart e deadlineUs)
  | .cancel e => (s.timerCancel e).map (TimerSys.recordCancel e)
  | .merge k r => s.timerMerge k r
  | .softirq k =>
      if isValidHeap (s.timers k) (s.nrTimers k) then .ok s else .error .invalidHeap
  | .expire k now => .ok (TimerSys.recordPop (s.softirqTurn k now))

/-! ## The entries -/

namespace TimerSys

variable {E K : Type}

/-- The entry is in the heap of a kthread. -/
def InHeap (s : TimerSys E K) (k : K) (e : E) : Prop := ∃ i, i < s.nrTimers k ∧ (s.timers k i).e = e

/-- The slots from `lo` on and their entries agree; only the entry `x` may not be armed. -/
structure Held (lo : K → ℕ) (x : Option E) (s : TimerSys E K) : Prop where
  idx : ∀ k i, lo k ≤ i → i < s.nrTimers k → (s.entry (s.timers k i).e).idx = i
  owner : ∀ k i, lo k ≤ i → i < s.nrTimers k → (s.entry (s.timers k i).e).k = some k
  due : ∀ k i, lo k ≤ i → i < s.nrTimers k → (s.timers k i).deadlineUs = s.due (s.timers k i).e
  armed : ∀ k i, lo k ≤ i → i < s.nrTimers k → some (s.timers k i).e ≠ x →
    (s.entry (s.timers k i).e).armed = true

namespace Held

variable {lo : K → ℕ} {x : Option E} {s : TimerSys E K}

/-- An entry is in one slot. -/
theorem slot_unique (h : Held lo x s) {k r : K} {i j : ℕ} (hi : lo k ≤ i ∧ i < s.nrTimers k)
    (hj : lo r ≤ j ∧ j < s.nrTimers r) (he : (s.timers k i).e = (s.timers r j).e) :
    k = r ∧ i = j := by
  have hidx := h.idx k i hi.1 hi.2
  have hown := h.owner k i hi.1 hi.2
  rw [he, h.idx r j hj.1 hj.2] at hidx
  rw [he, h.owner r j hj.1 hj.2] at hown
  exact ⟨(Option.some.inj hown).symm, hidx.symm⟩

theorem armed_of_inHeap (h : Held (fun _ => 0) none s) {k : K} {e : E} (he : s.InHeap k e) :
    (s.entry e).armed = true := by
  obtain ⟨i, hi, rfl⟩ := he
  exact h.armed k i (Nat.zero_le _) hi (by simp)

/-- The slot of an entry that is in the heap is the one it points to. -/
theorem slot_of_inHeap (h : Held (fun _ => 0) none s) {k : K} {e : E} (he : s.InHeap k e) :
    (s.entry e).k = some k ∧ (s.entry e).idx < s.nrTimers k ∧
      s.timers k (s.entry e).idx = { deadlineUs := s.due e, e } := by
  obtain ⟨i, hi, rfl⟩ := he
  have hidx := h.idx k i (Nat.zero_le _) hi
  have hdue := h.due k i (Nat.zero_le _) hi
  refine ⟨h.owner k i (Nat.zero_le _) hi, by omega, ?_⟩
  rw [hidx, ← hdue]

variable [DecidableEq E] [DecidableEq K]

omit [DecidableEq E] in
/-- A sift keeps the slots and the entries in agreement. -/
theorem setMem (h : Held (fun _ => 0) x s) {k : K} {m : HeapMem E K}
    (hm : HeapMem.Rearranged (s.nrTimers k) (s.mem k) m) : Held (fun _ => 0) x (s.setMem k m) := by
  have hother : ∀ k' i, k' ≠ k → i < s.nrTimers k' →
      m.entry (s.timers k' i).e = s.entry (s.timers k' i).e := by
    intro k' i hk hi
    apply hm.outside
    intro j hj he
    exact hk (h.slot_unique ⟨Nat.zero_le _, hj⟩ ⟨Nat.zero_le _, hi⟩ he).1.symm
  have htracks : m.Tracks (s.nrTimers k) := hm.tracks fun i hi => h.idx k i (Nat.zero_le _) hi
  constructor
  · intro k' i _ hi
    by_cases hk : k' = k
    · subst hk
      simpa [TimerSys.setMem] using htracks i hi
    · simpa [TimerSys.setMem, hk, hother k' i hk hi] using h.idx k' i (Nat.zero_le _) hi
  · intro k' i _ hi
    by_cases hk : k' = k
    · subst hk
      obtain ⟨j, hj, hji⟩ := hm.mem hi
      have hold := h.owner k' j (Nat.zero_le _) hj
      simp only [mem] at hji
      simp [TimerSys.setMem, (hm.flags _).2, ← hji, mem, hold]
    · simpa [TimerSys.setMem, hk, hother k' i hk hi] using h.owner k' i (Nat.zero_le _) hi
  · intro k' i _ hi
    by_cases hk : k' = k
    · subst hk
      obtain ⟨j, hj, hji⟩ := hm.mem hi
      have hold := h.due k' j (Nat.zero_le _) hj
      simp only [mem] at hji
      simp [TimerSys.setMem, ← hji, hold]
    · simpa [TimerSys.setMem, hk] using h.due k' i (Nat.zero_le _) hi
  · intro k' i _ hi
    by_cases hk : k' = k
    · subst hk
      obtain ⟨j, hj, hji⟩ := hm.mem hi
      have hold := h.armed k' j (Nat.zero_le _) hj
      simp only [mem] at hji
      simpa [TimerSys.setMem, (hm.flags _).1, ← hji, mem] using hold
    · simpa [TimerSys.setMem, hk, hother k' i hk hi] using h.armed k' i (Nat.zero_le _) hi

/-- A timer whose entry is in no slot is appended. -/
theorem append (h : Held lo x s) {k : K} {t : TimerIdx E}
    (hout : ∀ k i, lo k ≤ i → i < s.nrTimers k → (s.timers k i).e ≠ t.e)
    (hdue : t.deadlineUs = s.due t.e) (harmed : some t.e ≠ x → (s.entry t.e).armed = true) :
    Held lo x (s.append k t) := by
  constructor <;> intro k' i hlo' hi
  all_goals
    have hout' := hout k' i hlo'
    have hidx := h.idx k' i hlo'
    have howner := h.owner k' i hlo'
    have hdue' := h.due k' i hlo'
    have harmed' := h.armed k' i hlo'
    simp only [TimerSys.append, setNr, Function.update_apply] at hi ⊢
    grind

omit [DecidableEq E] in
/-- The last slot is given up. -/
theorem removeLast (h : Held lo x s) (k : K) : Held lo x (s.setNr k (s.nrTimers k - 1)) := by
  have hlt : ∀ k' i, i < (s.setNr k (s.nrTimers k - 1)).nrTimers k' → i < s.nrTimers k' := by
    intro k' i hi
    simp only [setNr, Function.update_apply] at hi
    grind
  constructor
  · exact fun k' i hlo hi => h.idx k' i hlo (hlt k' i hi)
  · exact fun k' i hlo hi => h.owner k' i hlo (hlt k' i hi)
  · exact fun k' i hlo hi => h.due k' i hlo (hlt k' i hi)
  · exact fun k' i hlo hi => h.armed k' i hlo (hlt k' i hi)

/-- A slot is given up to the last one. -/
theorem remove (h : Held (fun _ => 0) x s) {k : K} {i : ℕ} (hi : i < s.nrTimers k - 1) :
    Held (fun _ => 0) x ((s.setNr k (s.nrTimers k - 1)).setMem k
      ((s.mem k).place i (s.timers k (s.nrTimers k - 1)))) := by
  constructor <;> intro k' j hlo hj
  all_goals
    have hlast := h.slot_unique (k := k') (i := j) (r := k) (j := s.nrTimers k - 1)
    have hidx := h.idx k' j (Nat.zero_le _)
    have howner := h.owner k' j (Nat.zero_le _)
    have howner' := h.owner k (s.nrTimers k - 1) (Nat.zero_le _)
    have hdue := h.due k' j (Nat.zero_le _)
    have hdue' := h.due k (s.nrTimers k - 1) (Nat.zero_le _)
    have harmed := h.armed k' j (Nat.zero_le _)
    have harmed' := h.armed k (s.nrTimers k - 1) (Nat.zero_le _)
    simp only [TimerSys.setMem, setNr, mem, HeapMem.place, Function.update_apply] at hj ⊢
    grind

/-- A slot is given up to the last one, and the heap is sifted. -/
theorem sifted (h : Held (fun _ => 0) x s) {k : K} {i : ℕ} {m : HeapMem E K}
    (hi : i < s.nrTimers k - 1) (hm : HeapMem.Rearranged (s.nrTimers k - 1)
      ((s.mem k).place i (s.timers k (s.nrTimers k - 1))) m) :
    Held (fun _ => 0) x ((s.setNr k (s.nrTimers k - 1)).setMem k m) ∧
      ∀ k', ¬ ((s.setNr k (s.nrTimers k - 1)).setMem k m).InHeap k' (s.timers k i).e := by
  constructor
  · have hrem := h.remove hi
    have hn : ((s.setNr k (s.nrTimers k - 1)).setMem k
        ((s.mem k).place i (s.timers k (s.nrTimers k - 1)))).nrTimers k = s.nrTimers k - 1 := by
      simp [TimerSys.setMem, setNr]
    have hset := hrem.setMem (k := k) (m := m) (by
      rw [hn]
      simpa [TimerSys.setMem, mem] using hm)
    simpa [TimerSys.setMem] using hset
  · intro k' hin
    obtain ⟨j, hj, hje⟩ := hin
    by_cases hk : k' = k
    · subst hk
      have hj' : j < s.nrTimers k' - 1 := by simpa [TimerSys.setMem, setNr] using hj
      obtain ⟨j', hlt, hslot⟩ := hm.mem hj'
      simp only [TimerSys.setMem, Function.update_self] at hje
      rw [← hslot] at hje
      simp only [HeapMem.place, mem, Function.update_apply] at hje
      have huniq := h.slot_unique (k := k') (i := j') (r := k') (j := i)
      have hlast := h.slot_unique (k := k') (i := s.nrTimers k' - 1) (r := k') (j := i)
      grind
    · have hlt : j < s.nrTimers k' := by simpa [TimerSys.setMem, setNr, hk] using hj
      simp only [TimerSys.setMem, Function.update_of_ne hk, setNr] at hje
      exact hk (h.slot_unique ⟨Nat.zero_le _, hlt⟩ ⟨Nat.zero_le _, by omega⟩ hje).1

omit [DecidableEq E] in
theorem not_inHeap_last (h : Held (fun _ => 0) x s) {k : K} (hn : 0 < s.nrTimers k) (r : K) :
    ¬ (s.setNr k (s.nrTimers k - 1)).InHeap r (s.timers k (s.nrTimers k - 1)).e := by
  intro hin
  obtain ⟨j, hj, hje⟩ := hin
  simp only [setNr, Function.update_apply] at hj hje
  have huniq := h.slot_unique (k := r) (i := j) (r := k) (j := s.nrTimers k - 1)
  grind

omit [DecidableEq K] in
theorem disarm (h : Held lo none s) (e : E) : Held lo (some e) (s.setArmed e false) := by
  constructor <;> intro k i hlo hi
  all_goals
    have hidx := h.idx k i hlo hi
    have howner := h.owner k i hlo hi
    have hdue := h.due k i hlo hi
    have harmed := h.armed k i hlo hi (by simp)
    simp only [setArmed, Function.update_apply] at hi ⊢
    grind

omit [DecidableEq K] in
theorem arm {e : E} (h : Held lo (some e) s) : Held lo none (s.setArmed e true) := by
  constructor <;> intro k i hlo hi
  all_goals
    have hidx := h.idx k i hlo hi
    have howner := h.owner k i hlo hi
    have hdue := h.due k i hlo hi
    have harmed := h.armed k i hlo hi
    simp only [setArmed, Function.update_apply] at hi ⊢
    grind

omit [DecidableEq E] [DecidableEq K] in
/-- An entry that is in no slot is no exception. -/
theorem of_not_mem {e : E} (h : Held lo (some e) s) (he : ∀ k, ¬ s.InHeap k e) : Held lo none s where
  idx := h.idx
  owner := h.owner
  due := h.due
  armed k i hlo hi _ := h.armed k i hlo hi fun hx => he k ⟨i, hi, Option.some.inj hx⟩

omit [DecidableEq E] in
/-- A heap is emptied; no other one has slots that are left out. -/
theorem clear {r : K} {l : ℕ} (h : Held (Function.update (fun _ => 0) r l) x s) :
    Held (fun _ => 0) x (s.setNr r 0) := by
  have hlo : ∀ k i, i < (s.setNr r 0).nrTimers k →
      Function.update (fun _ => 0) r l k ≤ i ∧ i < s.nrTimers k := by
    intro k i hi
    simp only [setNr, Function.update_apply] at hi ⊢
    grind
  constructor
  · exact fun k i _ hi => h.idx k i (hlo k i hi).1 (hlo k i hi).2
  · exact fun k i _ hi => h.owner k i (hlo k i hi).1 (hlo k i hi).2
  · exact fun k i _ hi => h.due k i (hlo k i hi).1 (hlo k i hi).2
  · exact fun k i _ hi => h.armed k i (hlo k i hi).1 (hlo k i hi).2

omit [DecidableEq E] [DecidableEq K] in
theorem mono (h : Held lo x s) {up : K → ℕ} (hle : ∀ k, lo k ≤ up k) : Held up x s where
  idx k i hlo := h.idx k i ((hle k).trans hlo)
  owner k i hlo := h.owner k i ((hle k).trans hlo)
  due k i hlo := h.due k i ((hle k).trans hlo)
  armed k i hlo := h.armed k i ((hle k).trans hlo)

omit [DecidableEq E] [DecidableEq K] in
theorem weaken (h : Held lo none s) (x : Option E) : Held lo x s where
  idx := h.idx
  owner := h.owner
  due := h.due
  armed k i hlo hi _ := h.armed k i hlo hi (by simp)

end Held

/-! ## The contents -/

section

variable [Fintype K]

/-- What the heaps hold. -/
def total (s : TimerSys E K) : Multiset (TimerIdx E) :=
  ∑ k, contents (s.timers k) (s.nrTimers k)

theorem mem_total {s : TimerSys E K} {t : TimerIdx E} :
    t ∈ s.total ↔ ∃ k i, i < s.nrTimers k ∧ s.timers k i = t := by
  simp [total, Multiset.mem_sum, mem_contents]

theorem inHeap_iff_total {s : TimerSys E K} {e : E} :
    (∃ k, s.InHeap k e) ↔ ∃ t ∈ s.total, t.e = e := by
  constructor
  · intro h
    obtain ⟨k, i, hi, he⟩ := h
    exact ⟨s.timers k i, mem_total.mpr ⟨k, i, hi, rfl⟩, he⟩
  · intro h
    obtain ⟨t, ht, he⟩ := h
    obtain ⟨k, i, hi, rfl⟩ := mem_total.mp ht
    exact ⟨k, i, hi, he⟩

variable [DecidableEq K]

/-- One heap changes. -/
theorem total_update {s u : TimerSys E K} (k : K)
    (hother : ∀ k', k' ≠ k → contents (u.timers k') (u.nrTimers k') =
      contents (s.timers k') (s.nrTimers k')) :
    u.total + contents (s.timers k) (s.nrTimers k) =
      s.total + contents (u.timers k) (u.nrTimers k) :=
  sum_add_comm_of_eq_off k hother

theorem total_setMem {s : TimerSys E K} {k : K} {m : HeapMem E K}
    (hm : HeapMem.Rearranged (s.nrTimers k) (s.mem k) m) : (s.setMem k m).total = s.total := by
  apply Finset.sum_congr rfl
  intro k' _
  by_cases hk : k' = k
  · subst hk
    simpa [setMem, mem] using hm.contents
  · simp [setMem, hk]

variable [DecidableEq E]

omit [Fintype K] in
theorem contents_append (s : TimerSys E K) (k : K) (t : TimerIdx E) :
    contents ((s.append k t).timers k) (s.nrTimers k + 1) =
      t ::ₘ contents (s.timers k) (s.nrTimers k) := by
  simp only [append, Function.update_self, contents_succ]
  congr 1
  apply contents_congr
  intro x hx
  exact Function.update_of_ne (by omega) _ _

theorem total_append (s : TimerSys E K) (k : K) (t : TimerIdx E) :
    (s.append k t).total = t ::ₘ s.total := by
  have hk : contents ((s.append k t).timers k) ((s.append k t).nrTimers k) =
      t ::ₘ contents (s.timers k) (s.nrTimers k) := by
    simpa [append, setNr] using contents_append s k t
  have hsum := total_update (s := s) (u := s.append k t) k fun k' hk' => by
    simp [append, setNr, hk']
  rw [hk, Multiset.add_cons, ← Multiset.cons_add] at hsum
  exact add_right_cancel hsum

theorem total_sifted {s : TimerSys E K} {k : K} {i : ℕ} {m : HeapMem E K}
    (hi : i < s.nrTimers k - 1) (hm : HeapMem.Rearranged (s.nrTimers k - 1)
      ((s.mem k).place i (s.timers k (s.nrTimers k - 1))) m) :
    s.timers k i ::ₘ ((s.setNr k (s.nrTimers k - 1)).setMem k m).total = s.total := by
  have hn : s.nrTimers k = s.nrTimers k - 1 + 1 := by omega
  have hrep := contents_replace (t := s.timers k) (show i ≤ s.nrTimers k - 1 by omega)
  have hcon : contents m.heap (s.nrTimers k - 1) =
      contents (Function.update (s.timers k) i (s.timers k (s.nrTimers k - 1)))
        (s.nrTimers k - 1) := hm.contents
  have hsum := total_update (s := s) (u := (s.setNr k (s.nrTimers k - 1)).setMem k m) k
    fun k' hk' => by simp [setMem, setNr, hk']
  rw [← hn] at hrep
  rw [← hrep] at hsum
  simp only [setMem, setNr, Function.update_self, hcon] at hsum ⊢
  rw [Multiset.add_cons, ← Multiset.cons_add] at hsum
  exact add_right_cancel hsum

omit [DecidableEq E] in
theorem total_removeLast {s : TimerSys E K} {k : K} (hn : 0 < s.nrTimers k) :
    s.timers k (s.nrTimers k - 1) ::ₘ (s.setNr k (s.nrTimers k - 1)).total = s.total := by
  have hsucc := contents_succ (s.timers k) (s.nrTimers k - 1)
  have hsum := total_update (s := s) (u := s.setNr k (s.nrTimers k - 1)) k fun k' hk' => by
    simp [setNr, hk']
  rw [Nat.sub_add_cancel hn] at hsucc
  rw [hsucc] at hsum
  simp only [setNr, Function.update_self] at hsum ⊢
  rw [Multiset.add_cons, ← Multiset.cons_add] at hsum
  exact add_right_cancel hsum

end

/-! ## The invariant -/

section

variable [Fintype K]

structure TimerInv (s : TimerSys E K) : Prop where
  held : Held (fun _ => 0) none s
  order : ∀ k, HeapFrom arity TimerIdx.key (s.timers k) (s.nrTimers k) 0
  ledger : s.total + s.cancelled + s.popped = s.started

/-- An armed entry is in a heap. -/
def Truthful (s : TimerSys E K) : Prop := ∀ e, (s.entry e).armed = true → ∃ k, s.InHeap k e

variable [DecidableEq E] [DecidableEq K] {s : TimerSys E K}

omit [DecidableEq E] [DecidableEq K] in
theorem timerInv_boot (timers : K → ℕ → TimerIdx E) : TimerInv (boot timers) := by
  constructor
  · constructor <;> intro k i _ hi <;> simp [boot] at hi
  · intro k j _ hj
    simp [boot] at hj
  · simp [total, boot]

omit [DecidableEq K] in
/-- `timer_init` is for an entry that is in no heap. -/
theorem timerInit_inv (h : TimerInv s) {e : E} (he : ∀ k, ¬ s.InHeap k e) :
    TimerInv (s.timerInit e) ∧ (s.Truthful → (s.timerInit e).Truthful) := by
  refine ⟨⟨(h.held.disarm e).of_not_mem he, h.order, h.ledger⟩, ?_⟩
  intro ht e' he'
  apply ht e'
  simp only [timerInit, setArmed, Function.update_apply] at he'
  grind

theorem timerStart_inv (h : TimerInv s) {k : K} {e : E} (d : BitVec 64)
    (he : (s.entry e).armed = false) (hroom : s.nrTimers k + 1 < maxTimers) :
    ∃ s', timerStep s (.start k e d) = .ok s' ∧ TimerInv s' ∧ (s.Truthful → s'.Truthful) := by
  have hout : ∀ k, ¬ s.InHeap k e := by
    intro k hin
    simp [h.held.armed_of_inHeap hin] at he
  let t : TimerIdx E := { deadlineUs := d, e }
  -- the record can be made before the call as well
  let s₁ := s.recordStart e d
  let s₂ := s₁.append k t
  have h₁ : Held (fun _ => 0) (some e) s₁ := by
    constructor
    · exact h.held.idx
    · exact h.held.owner
    · intro k' i _ hi
      have hne : (s.timers k' i).e ≠ e := fun heq => hout k' ⟨i, hi, heq⟩
      simpa [s₁, recordStart, hne] using h.held.due k' i (Nat.zero_le _) hi
    · exact (h.held.weaken (some e)).armed
  have h₂ : Held (fun _ => 0) (some e) s₂ := by
    apply h₁.append
    · exact fun k' i _ hi heq => hout k' ⟨i, hi, heq⟩
    · simp [s₁, recordStart, t]
    · simp [t]
  have hn : s₂.nrTimers k = s.nrTimers k + 1 := by simp [s₂, s₁, recordStart, append, setNr]
  have hm : HeapMem.Rearranged (s₂.nrTimers k) (s₂.mem k) ((s₂.mem k).siftUp (s.nrTimers k)) :=
    HeapMem.siftUp_rearranged (by omega)
  refine ⟨(s₂.setMem k ((s₂.mem k).siftUp (s.nrTimers k))).setArmed e true, ?_, ⟨?_, ?_, ?_⟩, ?_⟩
  · simp only [timerStep, timerStartLocked, he, Bool.false_eq_true, if_false,
      if_neg (Nat.not_le.mpr hroom)]
    rfl
  · exact (h₂.setMem hm).arm
  · intro k'
    by_cases hk : k' = k
    · subst hk
      have hup : UpHeap arity TimerIdx.key (s₂.mem k').heap (s.nrTimers k' + 1) (s.nrTimers k') := by
        simpa [s₂, s₁, recordStart, append, mem] using (h.order k').push t
      have hheap := HeapMem.siftUp_heap (by omega) hup
      simpa [setArmed, setMem, hn] using hheap
    · have hsame := h.order k'
      simpa [setArmed, setMem, s₂, s₁, recordStart, append, setNr, hk] using hsame
  · have htotal := (total_setMem hm).trans (total_append s₁ k t)
    have hledger := h.ledger
    simp only [total, setArmed, setMem, s₂, s₁, recordStart, append, setNr] at htotal hledger ⊢
    rw [htotal, ← hledger, Multiset.cons_add, Multiset.cons_add]
  · intro ht e' he'
    have htotal := (total_setMem hm).trans (total_append s₁ k t)
    apply inHeap_iff_total.mpr
    change ∃ t' ∈ (s₂.setMem k ((s₂.mem k).siftUp (s.nrTimers k))).total, t'.e = e'
    rw [htotal]
    by_cases hee : e' = e
    · exact ⟨t, Multiset.mem_cons_self _ _, hee.symm⟩
    · have hflag : (s.entry e').armed = true := by
        have hf := (hm.flags e').1
        simp only [setArmed, setMem, Function.update_of_ne hee, hf] at he'
        simpa [mem, s₂, s₁, recordStart, append, t, hee] using he'
      obtain ⟨t', ht', hte⟩ := inHeap_iff_total.mp (ht e' hflag)
      exact ⟨t', Multiset.mem_cons_of_mem ht', hte⟩

/-- One timer is gone from the heaps. -/
structure Removed (t : TimerIdx E) (x : Option E) (s s' : TimerSys E K) : Prop where
  held : Held (fun _ => 0) x s'
  gone : ∀ k, ¬ s'.InHeap k t.e
  total : t ::ₘ s'.total = s.total
  order : ∀ k, HeapFrom arity TimerIdx.key (s'.timers k) (s'.nrTimers k) 0

omit [DecidableEq E] in
theorem removed_last {x : Option E} (h : Held (fun _ => 0) x s)
    (horder : ∀ k, HeapFrom arity TimerIdx.key (s.timers k) (s.nrTimers k) 0) {k : K}
    (hn : 0 < s.nrTimers k) :
    Removed (s.timers k (s.nrTimers k - 1)) x s (s.setNr k (s.nrTimers k - 1)) where
  held := h.removeLast k
  gone := h.not_inHeap_last hn
  total := total_removeLast hn
  order r := by
    by_cases hr : r = k
    · subst hr
      simpa [setNr] using (horder r).mono (Nat.sub_le _ 1) le_rfl
    · simpa [setNr, hr] using horder r

theorem removed_sifted {x : Option E} (h : Held (fun _ => 0) x s)
    (horder : ∀ k, HeapFrom arity TimerIdx.key (s.timers k) (s.nrTimers k) 0) {k : K} {i : ℕ}
    {m : HeapMem E K} (hi : i < s.nrTimers k - 1)
    (hm : HeapMem.Rearranged (s.nrTimers k - 1)
      ((s.mem k).place i (s.timers k (s.nrTimers k - 1))) m)
    (hheap : HeapFrom arity TimerIdx.key m.heap (s.nrTimers k - 1) 0) :
    Removed (s.timers k i) x s ((s.setNr k (s.nrTimers k - 1)).setMem k m) where
  held := (h.sifted hi hm).1
  gone := (h.sifted hi hm).2
  total := total_sifted hi hm
  order r := by
    by_cases hr : r = k
    · subst hr
      simpa [setMem, setNr] using hheap
    · simpa [setMem, setNr, hr] using horder r

omit [DecidableEq E] [DecidableEq K] in
/-- What is left in the heaps. -/
theorem Removed.mem_of_ne {t : TimerIdx E} {x : Option E} {u : TimerSys E K} (h : Removed t x s u)
    {e : E} (he : e ≠ t.e) (hin : ∃ k, s.InHeap k e) : ∃ k, u.InHeap k e := by
  obtain ⟨t', ht', hte⟩ := inHeap_iff_total.mp hin
  rw [← h.total] at ht'
  apply inHeap_iff_total.mpr
  rcases Multiset.mem_cons.mp ht' with heq | hmem
  · rw [heq] at hte
    exact absurd hte.symm he
  · exact ⟨t', hmem, hte⟩

/-- `timer_cancel` removes the timer of an entry that is in a heap. -/
theorem timerCancel_removed (h : TimerInv s) {k : K} {e : E} (he : s.InHeap k e) :
    ∃ s', s.timerCancel e = .ok (true, s') ∧
      Removed { deadlineUs := s.due e, e } (some e) s s' ∧
      (∀ e', (s'.entry e').armed = if e' = e then false else (s.entry e').armed) ∧
      s'.due = s.due ∧ s'.started = s.started ∧ s'.cancelled = s.cancelled ∧
      s'.popped = s.popped := by
  obtain ⟨hown, hidx, hslot⟩ := h.held.slot_of_inHeap he
  have harmed := h.held.armed_of_inHeap he
  let s₂ := s.setArmed e false
  have h₂ : Held (fun _ => 0) (some e) s₂ := h.held.disarm e
  have hentry : (s₂.entry e).idx = (s.entry e).idx := by simp [s₂, setArmed]
  by_cases hlast : (s.entry e).idx = s.nrTimers k - 1
  · refine ⟨s₂.setNr k (s.nrTimers k - 1), ?_, ?_, ?_, rfl, rfl, rfl, rfl⟩
    · simp only [timerCancel, hown, harmed, Bool.true_eq_false, if_false,
        if_neg (show s.nrTimers k ≠ 0 by omega)]
      exact if_pos (hentry.trans hlast)
    · have hrem := removed_last h₂ h.order (k := k) (by change 0 < s.nrTimers k; omega)
      rw [← hslot, hlast]
      exact ⟨hrem.held, hrem.gone, hrem.total, hrem.order⟩
    · intro e'
      simp only [s₂, setNr, setArmed, Function.update_apply]
      grind
  · -- the last timer takes the place, and goes up or down from there
    let m := (s₂.mem k).place (s.entry e).idx (s.timers k (s.nrTimers k - 1))
    have hlt : (s.entry e).idx < s.nrTimers k - 1 := by omega
    have hup : HeapMem.Rearranged (s.nrTimers k - 1) m (m.siftUp (s.entry e).idx) :=
      HeapMem.siftUp_rearranged hlt
    have hdown := hup.trans (HeapMem.siftDown_rearranged (i := (s.entry e).idx) hlt)
    have hne : ∀ i, i < s.nrTimers k → i ≠ (s.entry e).idx → (s.timers k i).e ≠ e := by
      intro i hi hii hie
      have hslot' : (s.timers k (s.entry e).idx).e = e := by rw [hslot]
      exact hii (h.held.slot_unique ⟨Nat.zero_le _, hi⟩ ⟨Nat.zero_le _, hidx⟩
        (hie.trans hslot'.symm)).2
    have hmoved := hne (s.nrTimers k - 1) (by omega) (fun heq => hlast heq.symm)
    have hm : (m.entry e).idx = (s.entry e).idx := by
      simpa [m, HeapMem.place, mem, hmoved.symm] using hentry
    have hresift : m.resift e (s.nrTimers k - 1) =
        (m.siftUp (s.entry e).idx).siftDown (s.entry e).idx (s.nrTimers k - 1) := by
      apply HeapMem.resift_eq hm hlt
      intro i hi
      by_cases hii : i = (s.entry e).idx
      · simpa [m, HeapMem.place, hii] using hmoved
      · simpa [m, HeapMem.place, hii, mem, s₂, setArmed] using hne i (by omega) hii
    have hheap := HeapMem.sift_replaced hlt ((h.order k).mono (Nat.sub_le _ 1) le_rfl)
      (s.timers k (s.nrTimers k - 1)) (m := s₂.mem k)
    refine ⟨(s₂.setNr k (s.nrTimers k - 1)).setMem k
      ((m.siftUp (s.entry e).idx).siftDown (s.entry e).idx (s.nrTimers k - 1)), ?_, ?_, ?_, rfl,
      rfl, rfl, rfl⟩
    · simp only [timerCancel, hown, harmed, Bool.true_eq_false, if_false,
        if_neg (show s.nrTimers k ≠ 0 by omega)]
      refine (if_neg fun heq => hlast (hentry.symm.trans heq)).trans ?_
      change Except.ok (true, (s₂.setNr k (s.nrTimers k - 1)).setMem k
        (((s₂.mem k).place (s₂.entry e).idx (s.timers k (s.nrTimers k - 1))).resift e _)) = _
      rw [hentry, hresift]
    · have hrem := removed_sifted h₂ h.order hlt hdown hheap
      rw [← hslot]
      exact ⟨hrem.held, hrem.gone, hrem.total, hrem.order⟩
    · intro e'
      have hflag := (hdown.flags e').1
      simp only [setMem, hflag]
      simp only [m, s₂, HeapMem.place, mem, setArmed, Function.update_apply]
      grind

theorem timerCancel_inv (h : TimerInv s) {k : K} {e : E} (he : s.InHeap k e) :
    ∃ s', timerStep s (.cancel e) = .ok s' ∧ TimerInv s' ∧ (s.Truthful → s'.Truthful) := by
  obtain ⟨s', hs', hrem, hflags, hdue, hst, hca, hpo⟩ := timerCancel_removed h he
  have hheld := hrem.held.of_not_mem hrem.gone
  refine ⟨recordCancel e (true, s'), by simp only [timerStep, hs', Except.map],
    ⟨⟨hheld.idx, hheld.owner, hheld.due, hheld.armed⟩, hrem.order, ?_⟩, ?_⟩
  · change s'.total + ({ deadlineUs := s'.due e, e } ::ₘ s'.cancelled) + s'.popped = s'.started
    rw [hdue, hst, hca, hpo, ← h.ledger, ← hrem.total, Multiset.add_cons, Multiset.cons_add,
      Multiset.cons_add, Multiset.cons_add]
  · intro ht e' he'
    change (s'.entry e').armed = true at he'
    rw [hflags e'] at he'
    split at he'
    · cases he'
    · rename_i hee
      exact hrem.mem_of_ne hee (ht e' he')

/-- A turn of `timer_softirq` that finds an expired timer removes the first one, and leaves its flag. -/
theorem softirqTurn_removed (h : TimerInv s) {k : K} {now : BitVec 64} (hexp : s.Expired k now) :
    ∃ s', s.softirqTurn k now = (some (s.timers k 0).e, s') ∧ Removed (s.timers k 0) none s s' ∧
      (∀ e, (s'.entry e).armed = (s.entry e).armed) ∧
      (∀ r, r ≠ k → s'.timers r = s.timers r ∧ s'.nrTimers r = s.nrTimers r) ∧
      s'.due = s.due ∧ s'.started = s.started ∧ s'.cancelled = s.cancelled ∧ s'.popped = s.popped := by
  have hn := hexp.1
  simp only [softirqTurn, if_pos hexp]
  split
  · rename_i hi
    have hm : HeapMem.Rearranged (s.nrTimers k - 1)
        ((s.mem k).place 0 (s.timers k (s.nrTimers k - 1))) _ :=
      HeapMem.siftDown_rearranged hi
    have hheap := HeapMem.siftDown_heap (m := (s.mem k).place 0 (s.timers k (s.nrTimers k - 1))) hi
      (((h.order k).mono (Nat.sub_le _ 1) le_rfl).replace_down hi (by omega))
    refine ⟨_, rfl, removed_sifted h.held h.order hi hm hheap, ?_, ?_, rfl, rfl, rfl, rfl⟩
    · intro e
      exact (hm.flags e).1.trans (by
        simp only [HeapMem.place, mem, Function.update_apply]
        grind)
    · intro r hr
      simp [setMem, setNr, hr]
  · rename_i hi
    have h0 : s.nrTimers k - 1 = 0 := by omega
    have hrem := removed_last h.held h.order hn
    rw [h0] at hrem ⊢
    refine ⟨_, rfl, hrem, fun _ => rfl, ?_, rfl, rfl, rfl, rfl⟩
    intro r hr
    simp [setNr, hr]

theorem softirqTurn_inv (h : TimerInv s) (k : K) (now : BitVec 64) :
    TimerInv (recordPop (s.softirqTurn k now)) := by
  by_cases hexp : s.Expired k now
  · obtain ⟨s', hs', hrem, -, -, hdue, hst, hca, hpo⟩ := softirqTurn_removed h hexp
    have hfirst : { deadlineUs := s'.due (s.timers k 0).e, e := (s.timers k 0).e } = s.timers k 0 := by
      rw [hdue, ← h.held.due k 0 (Nat.zero_le _) hexp.1]
    rw [hs']
    refine ⟨⟨hrem.held.idx, hrem.held.owner, hrem.held.due, hrem.held.armed⟩, hrem.order, ?_⟩
    change s'.total + s'.cancelled + (_ ::ₘ s'.popped) = s'.started
    rw [hfirst, hst, hca, hpo, ← h.ledger, ← hrem.total, Multiset.add_cons, Multiset.cons_add,
      Multiset.cons_add]
  · have hnone : s.softirqTurn k now = (none, s) := if_neg hexp
    rw [hnone]
    exact h

/-- The popped entry is armed and in no heap. -/
theorem softirqTurn_not_truthful (h : TimerInv s) {k : K} {now : BitVec 64}
    (hexp : s.Expired k now) : ¬ (recordPop (s.softirqTurn k now)).Truthful := by
  intro ht
  obtain ⟨s', hs', hrem, hflags, -⟩ := softirqTurn_removed h hexp
  rw [hs'] at ht
  have harmed := h.held.armed k 0 (Nat.zero_le _) hexp.1 (by simp)
  obtain ⟨r, hin⟩ := ht (s.timers k 0).e ((hflags _).trans harmed)
  exact hrem.gone r hin

/-! ## Merging -/

omit [Fintype K] in
/-- The first loop of `timer_merge`, from slot `j` of the other heap on. -/
theorem absorbAll_held {k r : K} (hkr : k ≠ r) : ∀ (l j : ℕ) (s : TimerSys E K),
    Held (Function.update (fun _ => 0) r j) none s → s.nrTimers r = j + l →
    s.nrTimers k + l < maxTimers →
    ∃ s', absorbAll k r (List.range' j l) s = .ok s' ∧
      Held (Function.update (fun _ => 0) r (j + l)) none s' ∧
      s'.nrTimers = Function.update s.nrTimers k (s.nrTimers k + l) ∧
      (∀ k', k' ≠ k → s'.timers k' = s.timers k') ∧
      contents (s'.timers k) (s.nrTimers k + l) =
        contents (s.timers k) (s.nrTimers k) + ((List.range' j l).map (s.timers r) : List _) ∧
      (∀ e, (s'.entry e).armed = (s.entry e).armed) ∧ s'.due = s.due ∧
      s'.started = s.started ∧ s'.cancelled = s.cancelled ∧ s'.popped = s.popped := by
  intro l
  induction l with
  | zero =>
      intro j s h hr hroom
      exact ⟨s, rfl, h, by simp, fun _ _ => rfl, by simp, fun _ => rfl, rfl, rfl, rfl, rfl⟩
  | succ l ih =>
      intro j s h hr hroom
      let s₁ := s.append k (s.timers r j)
      have hlo : ∀ k', Function.update (fun _ => 0) r j k' ≤
          Function.update (fun _ => 0) r (j + 1) k' := by
        intro k'
        simp only [Function.update_apply]
        grind
      have h₁ : Held (Function.update (fun _ => 0) r (j + 1)) none s₁ := by
        apply (h.mono hlo).append
        · intro k' i hi hn heq
          obtain ⟨rfl, rfl⟩ := h.slot_unique ⟨(hlo k').trans hi, hn⟩ ⟨by simp, by omega⟩ heq
          simp only [Function.update_self] at hi
          omega
        · exact h.due r j (by simp) (by omega)
        · intro _
          exact h.armed r j (by simp) (by omega) (by simp)
      have hk : s₁.nrTimers k = s.nrTimers k + 1 := by simp [s₁, append, setNr]
      have hr₁ : s₁.nrTimers r = s.nrTimers r := by simp [s₁, append, setNr, hkr.symm]
      have htr : s₁.timers r = s.timers r := by simp [s₁, append, setNr, hkr.symm]
      obtain ⟨s', hs', hheld, hnr, hother, hcon, harmed, hdue, hst, hca, hpo⟩ :=
        ih (j + 1) s₁ h₁ (by omega) (by omega)
      refine ⟨s', ?_, ?_, ?_, ?_, ?_, ?_, hdue, hst, hca, hpo⟩
      · have hab : absorb k r s j = .ok s₁ := if_neg (by omega)
        simpa only [List.range'_succ, absorbAll, hab] using hs'
      · simpa only [Nat.add_right_comm j 1 l, Nat.add_assoc] using hheld
      · rw [hnr, hk]
        simp [s₁, append, setNr, Nat.add_right_comm, Nat.add_assoc]
      · intro k' hk'
        rw [hother k' hk']
        simp [s₁, append, setNr, hk']
      · rw [hk, htr, contents_append] at hcon
        rw [List.range'_succ, List.map_cons, ← Multiset.cons_coe, Multiset.add_cons,
          ← Multiset.cons_add, ← hcon, Nat.add_right_comm, Nat.add_assoc]
      · intro e
        rw [harmed]
        simp only [s₁, append, Function.update_apply]
        grind

theorem timerMerge_inv (h : TimerInv s) {k r : K} (hkr : k ≠ r)
    (hroom : s.nrTimers k + s.nrTimers r < maxTimers) :
    ∃ s', s.timerMerge k r = .ok s' ∧ TimerInv s' ∧ (s.Truthful → s'.Truthful) := by
  by_cases hr : s.nrTimers r = 0
  · exact ⟨s, by simp [timerMerge, hkr, hr], h, id⟩
  · have hstart : Held (Function.update (fun _ => 0) r 0) none s :=
      h.held.mono fun _ => Nat.zero_le _
    obtain ⟨s₁, hs₁, hheld, hnr, hother, hcon, harmed, hdue, hst, hca, hpo⟩ :=
      absorbAll_held hkr (s.nrTimers r) 0 s hstart (by omega) hroom
    rw [← List.range_eq_range'] at hs₁ hcon
    let s₂ := s₁.setNr r 0
    have hk : s₂.nrTimers k = s.nrTimers k + s.nrTimers r := by simp [s₂, setNr, hkr, hnr]
    have hr₁ : s₁.nrTimers r = s.nrTimers r := by simp [hnr, hkr.symm]
    have h₂ : Held (fun _ => 0) none s₂ := hheld.clear
    have htotal : s₂.total = s.total := by
      have hk₁ := total_update (s := s) (u := s₁) k fun k' hk' => by simp [hother k' hk', hnr, hk']
      have hk₂ := total_update (s := s₁) (u := s₂) r fun k' hk' => by simp [s₂, setNr, hk']
      have hcon' : contents (s₁.timers k) (s₁.nrTimers k) = contents (s.timers k) (s.nrTimers k) +
          contents (s.timers r) (s.nrTimers r) := by
        rw [hnr, Function.update_self]
        exact hcon
      rw [hcon', add_comm (contents _ _), ← add_assoc] at hk₁
      rw [add_right_cancel hk₁, hother r hkr.symm, hr₁] at hk₂
      simpa [s₂, setNr] using hk₂
    have hlt : s₂.nrTimers k / arity < s₂.nrTimers k := Nat.div_lt_self (by omega) (by decide)
    have hm := HeapMem.restore_rearranged (s₂.nrTimers k / arity) (s₂.mem k) hlt
    refine ⟨s₂.setMem k ((s₂.mem k).restore (s₂.nrTimers k) (s₂.nrTimers k / arity)), ?_,
      ⟨h₂.setMem hm, ?_, ?_⟩, ?_⟩
    · simp only [timerMerge, if_neg hkr, if_neg hr, hs₁]
      rfl
    · intro k'
      by_cases hkk : k' = k
      · subst hkk
        have hleaves : HeapFrom arity TimerIdx.key (s₂.mem k').heap (s₂.nrTimers k')
            (s₂.nrTimers k' / arity + 1) := by
          apply HeapFrom.leaves (by decide)
          have hdiv := Nat.div_add_mod (s₂.nrTimers k') arity
          have hmod : s₂.nrTimers k' % arity < arity := Nat.mod_lt _ (by decide)
          rw [Nat.mul_add]
          omega
        simpa [setMem] using HeapMem.restore_heap _ _ hlt hleaves
      · have hsame := h.order k'
        by_cases hkr' : k' = r
        · subst hkr'
          intro j _ hj
          simp [setMem, s₂, setNr] at hj
        · simpa [setMem, s₂, setNr, hkk, hkr', hnr, hother k' hkk] using hsame
    · rw [total_setMem hm, htotal]
      change s.total + s₁.cancelled + s₁.popped = s₁.started
      rw [hca, hpo, hst, h.ledger]
    · intro ht e he
      apply inHeap_iff_total.mpr
      rw [total_setMem hm, htotal]
      apply inHeap_iff_total.mp
      apply ht e
      rw [← harmed e]
      exact (hm.flags e).1.symm.trans he

end

/-! ## Runs -/

section

variable [DecidableEq E]

instance (s : TimerSys E K) (k : K) (e : E) : Decidable (s.InHeap k e) :=
  decidable_of_iff (∃ i : Fin (s.nrTimers k), (s.timers k i).e = e)
    ⟨fun ⟨i, hi⟩ => ⟨i, i.2, hi⟩, fun ⟨i, hi, he⟩ => ⟨⟨i, hi⟩, he⟩⟩

/-- The calls that are made of the timers: an entry is set up when it is in no heap, started
when it is not armed and there is room, cancelled when it is in a heap. -/
def Proper (s : TimerSys E K) : TimerEvent E K → Prop
  | .init e => ∀ k, ¬ s.InHeap k e
  | .start k e _ => (s.entry e).armed = false ∧ s.nrTimers k + 1 < maxTimers
  | .cancel e => ∃ k, s.InHeap k e
  | .merge k r => k ≠ r ∧ s.nrTimers k + s.nrTimers r < maxTimers
  | .softirq _ | .expire _ _ => True

variable [Fintype K] [DecidableEq K]

instance (s : TimerSys E K) : (ev : TimerEvent E K) → Decidable (s.Proper ev)
  | .init e => inferInstanceAs (Decidable (∀ k, ¬ s.InHeap k e))
  | .start k e _ =>
      inferInstanceAs (Decidable ((s.entry e).armed = false ∧ s.nrTimers k + 1 < maxTimers))
  | .cancel e => inferInstanceAs (Decidable (∃ k, s.InHeap k e))
  | .merge k r => inferInstanceAs (Decidable (k ≠ r ∧ s.nrTimers k + s.nrTimers r < maxTimers))
  | .softirq _ | .expire _ _ => inferInstanceAs (Decidable True)

/-- The heaps are ordered, the entries point back, and no timer is lost or made up. -/
structure Exact (s : TimerSys E K) : Prop where
  order : ∀ k i, 0 < i → i < s.nrTimers k →
    (s.timers k ((i - 1) / 4)).deadlineUs ≤ (s.timers k i).deadlineUs
  back : ∀ k i, i < s.nrTimers k →
    (s.entry (s.timers k i).e).idx = i ∧ (s.entry (s.timers k i).e).k = some k
  ledger : (∑ k, contents (s.timers k) (s.nrTimers k)) + s.cancelled + s.popped = s.started

omit [DecidableEq E] [DecidableEq K] in
theorem TimerInv.exact {s : TimerSys E K} (h : TimerInv s) : s.Exact where
  order k i hpos hi := BitVec.le_def.mpr (h.order k i hpos hi (Nat.zero_le _))
  back k i hi := ⟨h.held.idx k i (Nat.zero_le _) hi, h.held.owner k i (Nat.zero_le _) hi⟩
  ledger := h.ledger

omit [Fintype K] [DecidableEq E] [DecidableEq K] in
theorem isValidHeap_of_heapFrom {heap : ℕ → TimerIdx E} {n : ℕ}
    (h : HeapFrom arity TimerIdx.key heap n 0) : isValidHeap heap n = true := by
  simp only [isValidHeap, List.all_eq_true, List.mem_range, Bool.or_eq_true, decide_eq_true_eq]
  intro i hi
  by_cases h1 : i ≤ 1
  · exact .inl h1
  · exact .inr (BitVec.le_def.mpr (h i (by omega) hi (Nat.zero_le _)))

theorem timerStep_inv {s : TimerSys E K} (h : TimerInv s) {ev : TimerEvent E K}
    (hev : s.Proper ev) : ∃ s', timerStep s ev = .ok s' ∧ TimerInv s' := by
  cases ev with
  | init e => exact ⟨_, rfl, (timerInit_inv h hev).1⟩
  | start k e d =>
      obtain ⟨s', hs', hi, -⟩ := timerStart_inv h d hev.1 hev.2
      exact ⟨s', hs', hi⟩
  | cancel e =>
      obtain ⟨k, hin⟩ := hev
      obtain ⟨s', hs', hi, -⟩ := timerCancel_inv h hin
      exact ⟨s', hs', hi⟩
  | merge k r =>
      obtain ⟨s', hs', hi, -⟩ := timerMerge_inv h hev.1 hev.2
      exact ⟨s', hs', hi⟩
  | softirq k => exact ⟨s, if_pos (isValidHeap_of_heapFrom (h.order k)), h⟩
  | expire k now => exact ⟨_, rfl, softirqTurn_inv h k now⟩

/-- `timer_init` is called for entries that are in no heap. -/
def Calls (s : TimerSys E K) : TimerEvent E K → Prop
  | .init e => ∀ k, ¬ s.InHeap k e
  | .start _ _ _ | .cancel _ | .merge _ _ | .softirq _ | .expire _ _ => True

/-- `timer_softirq` finds no expired timer. -/
def NoExpiry (s : TimerSys E K) : TimerEvent E K → Prop
  | .expire k now => ¬ s.Expired k now
  | .init _ | .start _ _ _ | .cancel _ | .merge _ _ | .softirq _ => True

instance (s : TimerSys E K) : (ev : TimerEvent E K) → Decidable (s.Calls ev)
  | .init e => inferInstanceAs (Decidable (∀ k, ¬ s.InHeap k e))
  | .start _ _ _ | .cancel _ | .merge _ _ | .softirq _ | .expire _ _ =>
      inferInstanceAs (Decidable True)

instance (s : TimerSys E K) : (ev : TimerEvent E K) → Decidable (s.NoExpiry ev)
  | .expire k now => inferInstanceAs (Decidable (¬ s.Expired k now))
  | .init _ | .start _ _ _ | .cancel _ | .merge _ _ | .softirq _ => inferInstanceAs (Decidable True)

/-- The flag says whether the entry is in a heap, in one heap only; so an entry that is in none
is not cancelled, and can be started. -/
structure Honest (s : TimerSys E K) : Prop where
  armed : ∀ e, (s.entry e).armed = true ↔ ∃! k, s.InHeap k e
  cancel : ∀ e, (∀ k, ¬ s.InHeap k e) → (s.entry e).k ≠ none → s.timerCancel e = .ok (false, s)
  restart : ∀ k e d, (∀ k, ¬ s.InHeap k e) → s.timerStartLocked k e d ≠ .error .bugOn

theorem TimerInv.honest_iff {s : TimerSys E K} (h : TimerInv s) : s.Honest ↔ s.Truthful := by
  constructor
  · intro hh e he
    exact ((hh.armed e).mp he).exists
  · intro ht
    have hout : ∀ e, (∀ k, ¬ s.InHeap k e) → (s.entry e).armed = false := by
      intro e he
      by_contra harm
      obtain ⟨k, hin⟩ := ht e (by simpa using harm)
      exact he k hin
    constructor
    · intro e
      constructor
      · intro he
        obtain ⟨k, hin⟩ := ht e he
        refine ⟨k, hin, ?_⟩
        intro r hr
        have hk := (h.held.slot_of_inHeap hin).1
        rw [(h.held.slot_of_inHeap hr).1] at hk
        exact Option.some.inj hk
      · intro hin
        obtain ⟨k, hin⟩ := hin.exists
        exact h.held.armed_of_inHeap hin
    · intro e he hk
      obtain ⟨k, hk⟩ := Option.ne_none_iff_exists'.mp hk
      simp [timerCancel, hk, hout e he]
    · intro k e d he
      simp only [timerStartLocked, hout e he, Bool.false_eq_true, if_false]
      split
      · simp
      · simp

omit [Fintype K] in
/-- The first loop of `timer_merge` finds room, or hits `BUG()`. -/
theorem absorbAll_room {k r : K} : ∀ (js : List ℕ) {s s' : TimerSys E K}, js ≠ [] →
    absorbAll k r js s = .ok s' → s.nrTimers k + js.length < maxTimers := by
  intro js
  induction js with
  | nil => intro s s' hne; exact absurd rfl hne
  | cons j js ih =>
      intro s s' _ h
      simp only [absorbAll, absorb] at h
      by_cases hroom : maxTimers ≤ s.nrTimers k + 1
      · simp [hroom] at h
      · simp only [if_neg hroom] at h
        cases js with
        | nil =>
            simp only [List.length_singleton]
            omega
        | cons j' js =>
            have hrest := ih (by simp) h
            simp only [append, setNr, Function.update_self, List.length_cons] at hrest ⊢
            omega

/-- As long as the flags are right, every step but an expiry keeps them so. -/
theorem timerStep_truthful {s s' : TimerSys E K} (h : TimerInv s) (ht : s.Truthful)
    {ev : TimerEvent E K} (hev : s.Calls ev) (hs : timerStep s ev = .ok s') (hno : s.NoExpiry ev) :
    TimerInv s' ∧ s'.Truthful := by
  cases ev with
  | init e =>
      cases hs
      exact ⟨(timerInit_inv h hev).1, (timerInit_inv h hev).2 ht⟩
  | start k e d =>
      have harm : (s.entry e).armed = false := by
        by_contra harm
        have harm' : (s.entry e).armed = true := by simpa using harm
        simp [timerStep, timerStartLocked, harm', Except.map] at hs
      have hroom : s.nrTimers k + 1 < maxTimers := by
        by_contra hroom
        simp [timerStep, timerStartLocked, harm, Nat.not_lt.mp hroom, Except.map] at hs
      obtain ⟨u, hu, hi, htu⟩ := timerStart_inv h d harm hroom
      cases hu.symm.trans hs
      exact ⟨hi, htu ht⟩
  | cancel e =>
      by_cases harm : (s.entry e).armed = true
      · obtain ⟨k, hin⟩ := ht e harm
        obtain ⟨u, hu, hi, htu⟩ := timerCancel_inv h hin
        cases hu.symm.trans hs
        exact ⟨hi, htu ht⟩
      · cases hk : (s.entry e).k with
        | none => simp [timerStep, timerCancel, hk, Except.map] at hs
        | some k =>
            simp only [timerStep, timerCancel, hk, Except.map, harm, if_true, recordCancel] at hs
            cases hs
            exact ⟨h, ht⟩
  | merge k r =>
      have hkr : k ≠ r := by
        intro hkr
        simp [timerStep, timerMerge, hkr] at hs
      by_cases hr : s.nrTimers r = 0
      · simp only [timerStep, timerMerge, if_neg hkr, if_pos hr] at hs
        cases hs
        exact ⟨h, ht⟩
      · simp only [timerStep, timerMerge, if_neg hkr, if_neg hr] at hs
        cases hab : absorbAll k r (List.range (s.nrTimers r)) s with
        | error f => simp [hab] at hs
        | ok u =>
            have hroom := absorbAll_room _ (by simpa using hr) hab
            rw [List.length_range] at hroom
            obtain ⟨v, hv, hi, htv⟩ := timerMerge_inv h hkr hroom
            simp only [timerMerge, if_neg hkr, if_neg hr] at hv
            cases hv.symm.trans hs
            exact ⟨hi, htv ht⟩
  | softirq k =>
      simp only [timerStep, if_pos (isValidHeap_of_heapFrom (h.order k))] at hs
      cases hs
      exact ⟨h, ht⟩
  | expire k now =>
      have hsame : s.softirqTurn k now = (none, s) := if_neg hno
      simp only [timerStep, hsame, recordPop] at hs
      cases hs
      exact ⟨h, ht⟩

/-- The flags are right in every state of a run exactly when no timer expires: the loop of
`timer_softirq` does not clear the flag of the entry it pops. -/
theorem armed_iff (timers : K → ℕ → TimerIdx E) (es : List (TimerEvent E K))
    (hes : Along timerStep Calls (boot timers) es) :
    Throughout timerStep Honest (boot timers) es ↔ Along timerStep NoExpiry (boot timers) es := by
  apply throughout_iff_along (I := TimerInv) (H := Calls) _ _ (timerInv_boot timers) _ hes
  · intro s ev s' h hh hev hno hs
    have hnext := timerStep_truthful h (h.honest_iff.mp hh) hev hs hno
    exact ⟨hnext.1, hnext.1.honest_iff.mpr hnext.2⟩
  · intro s ev h hh hev hexp
    cases ev with
    | expire k now =>
        have hexp' : s.Expired k now := not_not.mp hexp
        refine ⟨recordPop (s.softirqTurn k now), rfl, ?_⟩
        intro hnot
        exact softirqTurn_not_truthful h hexp' ((softirqTurn_inv h k now).honest_iff.mp hnot)
    | _ => exact absurd trivial hexp
  · apply (timerInv_boot timers).honest_iff.mpr
    intro e he
    simp [boot] at he

/-- Two timers, the second of which is due first. -/
def firedRun : List (TimerEvent ℕ Bool) := [.start true 1 50, .start true 2 10, .expire true 20]

theorem armed_iff_firedRun :
    Along timerStep Calls (boot fun _ _ => { deadlineUs := 0, e := 0 }) firedRun ∧
    ¬ Throughout timerStep Honest (boot fun _ _ => { deadlineUs := 0, e := 0 }) firedRun := by
  have hes : Along timerStep Calls (boot fun _ _ => { deadlineUs := 0, e := 0 }) firedRun := by
    decide
  refine ⟨hes, fun ht => ?_⟩
  have hno := (armed_iff _ _ hes).mp ht
  revert hno
  decide

/-- A timer that has fired is armed but in no heap; to cancel it removes the other timer, and to
start it again is a `BUG_ON`. -/
theorem fired_still_armed :
    ∃ s : TimerSys ℕ Bool,
      exec timerStep (boot fun _ _ => { deadlineUs := 0, e := 0 }) firedRun = .ok s ∧
      (s.entry 2).armed = true ∧ (∀ k, ¬ s.InHeap k 2) ∧ s.InHeap true 1 ∧
      (s.timerCancel 2).map Prod.fst = .ok true ∧
      (∀ k, ¬ (final timerStep s [.cancel 2]).InHeap k 1) ∧
      s.timerStartLocked true 2 60 = .error .bugOn := by
  refine ⟨final timerStep (boot fun _ _ => { deadlineUs := 0, e := 0 }) firedRun, ?_, ?_, ?_, ?_,
    ?_, ?_, ?_⟩
  · exact exec_final (by decide)
  · decide
  · decide
  · decide
  · decide
  · decide
  · exact if_pos (by decide)

end

end TimerSys

end Skyloft
