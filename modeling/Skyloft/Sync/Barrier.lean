import Mathlib.Data.List.Nodup
import Mathlib.Data.Nat.Init
import Skyloft.Lib.Park
import Skyloft.Lib.Run

/-!
# Barriers and wait groups

Both keep a counter and the tasks that sleep on them under one spinlock.  The last arrival at
a barrier moves the waiters to a list of its own, resets the counter, and wakes them after it
dropped the lock; those it woke may be back at the barrier before it has woken the others.  A
wait group releases its waiters in the same way when its counter comes to zero.

As in `Skyloft.Sync.Mutex`, `task_block` releases the lock and sleeps in one step.

* `BarSys`, `barStep` — tasks that call `barrier_wait`; the arrivals are numbered, so that the
  calls numbered `r * count` up to `r * count + (count - 1)` are one round.
* `WgSys`, `wgStep` — tasks that call `waitgroup_add` and `waitgroup_wait`.
* `barrier_waitgroup` — what the calls guarantee, in every interleaving.
-/

namespace Skyloft

open Run

/-! ## The barrier -/

/-- Where a task is in `barrier_wait`. -/
inductive BarPc
  | out
  /-- before its spinlock -/
  | spin
  | locked
  /-- in `task_block` -/
  | blocked
  /-- the round is complete, and the others of it are woken -/
  | waking
  deriving DecidableEq

structure BarSys where
  waiting : ℕ
  park : Park ℕ
  lock : Option ℕ
  pc : ℕ → BarPc
  /-- the number of calls that have counted themselves in `waiting` -/
  arrivals : ℕ
  /-- the number of the latest call of a task -/
  call : ℕ → ℕ
  /-- the calls that were woken, each with the call that woke it -/
  woken : List (ℕ × ℕ)
  /-- the calls that returned, and what they returned -/
  returned : List (ℕ × Bool)

inductive ParkFault
  /-- the assertion of `task_wakeup` -/
  | notBlocked
  /-- `BUG_ON` of `waitgroup_add` -/
  | negative
  /-- the counter of a wait group leaves the range of `int` -/
  | overflow
  deriving DecidableEq

inductive BarEvent
  /-- a task calls `barrier_wait` -/
  | call (i : ℕ)
  /-- a task takes its next step -/
  | step (i : ℕ)

namespace BarSys

/-- `barrier_init` -/
def start : BarSys where
  waiting := 0
  park := .empty
  lock := none
  pc _ := .out
  arrivals := 0
  call _ := 0
  woken := []
  returned := []

def setPc (s : BarSys) (i : ℕ) (p : BarPc) : BarSys :=
  { s with pc := Function.update s.pc i p }

/-- The call of task `i` gets its number. -/
def arrive (s : BarSys) (i : ℕ) : BarSys :=
  { s with
    arrivals := s.arrivals + 1
    call := Function.update s.call i s.arrivals }

/-- `barrier_wait` under the spinlock. -/
def body (count : ℕ) (s : BarSys) (i : ℕ) : BarSys :=
  if count ≤ s.waiting + 1 then
    { (s.arrive i).setPc i .waking with
      park := s.park.takeAll i
      waiting := 0
      lock := none }
  else
    { (s.arrive i).setPc i .blocked with
      park := s.park.sleep i
      waiting := s.waiting + 1
      lock := none }

/-- `task_wakeup` of the next task in hand. -/
def wakeNext (s : BarSys) (i u : ℕ) (us : List ℕ) : Except ParkFault BarSys :=
  if s.park.asleep u then
    .ok { s with park := s.park.wake i u us, woken := s.woken ++ [(s.call i, s.call u)] }
  else .error .notBlocked

/-- The call of task `i` returns `b`. -/
def ret (s : BarSys) (i : ℕ) (b : Bool) : BarSys :=
  { s.setPc i .out with returned := s.returned ++ [(s.call i, b)] }

end BarSys

/-- The call has arrived and has not returned. -/
def BarSys.Inside (s : BarSys) (i : ℕ) : Prop := s.pc i = .blocked ∨ s.pc i = .waking

variable {count : ℕ}

/-- The calls of the round that ends with call `n`. -/
theorem round_of_last {n m : ℕ} (hc : 1 ≤ count) (hn : count ∣ n + 1) :
    m / count = n / count ↔ n + 1 - count ≤ m ∧ m ≤ n := by
  rcases hn with ⟨q, hq⟩
  rcases q with _ | q
  · simp at hq
  rw [Nat.mul_succ, Nat.mul_comm] at hq
  have hdiv : n / count = q := by
    rw [Nat.div_eq_iff (by omega)]
    omega
  rw [hdiv, Nat.div_eq_iff (by omega)]
  omega

/-- Who is where: the waiters are the calls of the round that is not complete, in order, and
a hand holds calls of the round that its owner completed. -/
structure BarCrowd (count : ℕ) (s : BarSys) : Prop where
  park : s.park.Ok
  size : s.waiting = s.park.waiters.length
  room : s.waiting < count
  round : s.arrivals % count = s.waiting
  numbers : s.park.waiters.map s.call = List.range' (s.arrivals - s.waiting) s.waiting
  asleep : ∀ i, s.park.asleep i = true → s.pc i = .blocked
  hand : ∀ i, s.park.hand i ≠ [] → s.pc i = .waking
  inside : ∀ i, s.Inside i → s.call i < s.arrivals
  distinct : ∀ i j, s.Inside i → s.Inside j → s.call i = s.call j → i = j
  blocked : ∀ i, s.pc i = .blocked → ¬ count ∣ s.call i + 1
  waking : ∀ i, s.pc i = .waking → count ∣ s.call i + 1
  mates : ∀ j, ∀ u ∈ s.park.hand j, s.call u / count = s.call j / count

/-- Who has been woken, and by whom. -/
structure BarWoken (count : ℕ) (s : BarSys) : Prop where
  mates : ∀ k m, (k, m) ∈ s.woken →
    count ∣ k + 1 ∧ m / count = k / count ∧ m ≠ k ∧ k < s.arrivals
  once : (s.woken.map Prod.snd).Nodup
  asleep : ∀ i, s.park.asleep i = true → s.call i ∉ s.woken.map Prod.snd
  awake : ∀ i, s.pc i = .blocked → s.park.asleep i = false → ∃ k, (k, s.call i) ∈ s.woken
  /-- the others of the round were woken or are in hand -/
  covers : ∀ j, s.pc j = .waking → ∀ m, m / count = s.call j / count → m ≠ s.call j →
    (s.call j, m) ∈ s.woken ∨ m ∈ (s.park.hand j).map s.call

/-- Who has returned. -/
structure BarReturned (count : ℕ) (s : BarSys) : Prop where
  value : ∀ m b, (m, b) ∈ s.returned → m < s.arrivals ∧ (b = true ↔ count ∣ m + 1)
  all : ∀ k, (k, true) ∈ s.returned → ∀ m, m / count = k / count → m ≠ k → (k, m) ∈ s.woken
  freed : ∀ m, (m, false) ∈ s.returned → ∃ k, (k, m) ∈ s.woken
  once : (s.returned.map Prod.fst).Nodup
  inside : ∀ i, s.Inside i → s.call i ∉ s.returned.map Prod.fst
  kept : ∀ m < s.arrivals, m ∈ s.returned.map Prod.fst ∨ ∃ i, s.Inside i ∧ s.call i = m

structure BarInv (count : ℕ) (s : BarSys) : Prop where
  crowd : BarCrowd count s
  woken : BarWoken count s
  returned : BarReturned count s

variable {s s' : BarSys} {i : ℕ}

/-- Before a call has arrived it does not count for the invariant. -/
theorem BarInv.quiet (h : BarInv count s) {p : BarPc} {l : Option ℕ} (hi : ¬ s.Inside i)
    (hp : p ≠ .blocked ∧ p ≠ .waking) : BarInv count { s.setPc i p with lock := l } := by
  have hother : ∀ {j q}, q = .blocked ∨ q = .waking → (s.setPc i p).pc j = q → s.pc j = q := by
    intro j q hq hj
    by_cases hji : j = i
    · simp only [BarSys.setPc, hji, Function.update_self] at hj
      rcases hq with rfl | rfl
      · exact absurd hj hp.1
      · exact absurd hj hp.2
    · simpa [BarSys.setPc, Function.update_of_ne hji] using hj
  have hback : ∀ {j q}, q = .blocked ∨ q = .waking → s.pc j = q → (s.setPc i p).pc j = q := by
    intro j q hq hj
    have hji : j ≠ i := by
      rintro rfl
      rcases hq with rfl | rfl
      · exact hi (.inl hj)
      · exact hi (.inr hj)
    simpa [BarSys.setPc, Function.update_of_ne hji] using hj
  have hin : ∀ j, BarSys.Inside { s.setPc i p with lock := l } j ↔ s.Inside j := by
    intro j
    constructor
    · rintro (hj | hj)
      · exact .inl (hother (.inl rfl) hj)
      · exact .inr (hother (.inr rfl) hj)
    · rintro (hj | hj)
      · exact .inl (hback (.inl rfl) hj)
      · exact .inr (hback (.inr rfl) hj)
  refine ⟨?_, ?_, ?_⟩
  · have hk := h.crowd
    refine ⟨hk.park, hk.size, hk.room, hk.round, hk.numbers, ?_, ?_, ?_, ?_, ?_, ?_, hk.mates⟩
    · exact fun j hj => hback (.inl rfl) (hk.asleep j hj)
    · exact fun j hj => hback (.inr rfl) (hk.hand j hj)
    · exact fun j hj => hk.inside j ((hin j).mp hj)
    · exact fun j l hj hl => hk.distinct j l ((hin j).mp hj) ((hin l).mp hl)
    · exact fun j hj => hk.blocked j (hother (.inl rfl) hj)
    · exact fun j hj => hk.waking j (hother (.inr rfl) hj)
  · have hk := h.woken
    refine ⟨hk.mates, hk.once, hk.asleep, ?_, ?_⟩
    · exact fun j hj => hk.awake j (hother (.inl rfl) hj)
    · exact fun j hj => hk.covers j (hother (.inr rfl) hj)
  · have hk := h.returned
    refine ⟨hk.value, hk.all, hk.freed, hk.once, ?_, ?_⟩
    · exact fun j hj => hk.inside j ((hin j).mp hj)
    · simp only [hin]
      exact hk.kept

/-! ## Arrivals -/

/-- A call under the spinlock is neither listed nor in a hand, and holds none. -/
structure BarSys.Apart (s : BarSys) (i : ℕ) : Prop where
  awake : s.park.asleep i = false
  unlisted : i ∉ s.park.waiters
  free : ∀ j, i ∉ s.park.hand j
  empty : s.park.hand i = []
  outside : ¬ s.Inside i

theorem BarCrowd.apart (h : BarCrowd count s) (hp : s.pc i = .locked) : s.Apart i := by
  have hawake : s.park.asleep i = false := by
    by_contra hb
    have := h.asleep i (by simpa using hb)
    simp [hp] at this
  refine ⟨hawake, ?_, ?_, ?_, ?_⟩
  · intro hi
    have := h.park.listed i hi
    simp [hawake] at this
  · intro j hi
    have := (h.park.inHand j i hi).1
    simp [hawake] at this
  · by_contra hne
    have := h.hand i hne
    simp [hp] at this
  · simp [BarSys.Inside, hp]

/-- The numbers of other tasks are not touched by an arrival. -/
theorem BarSys.map_call_arrive {l : List ℕ} (hi : i ∉ l) :
    l.map (s.arrive i).call = l.map s.call := by
  apply List.map_congr_left
  intro j hj
  have hji : j ≠ i := fun h => hi (h ▸ hj)
  simp [BarSys.arrive, Function.update_of_ne hji]

/-- The numbers of the listed calls. -/
theorem BarCrowd.mem_numbers (h : BarCrowd count s) {m : ℕ} :
    m ∈ s.park.waiters.map s.call ↔ s.arrivals - s.waiting ≤ m ∧ m < s.arrivals := by
  have hle : s.waiting ≤ s.arrivals := h.round ▸ Nat.mod_le _ _
  rw [h.numbers, List.mem_range'_1]
  omega

/-- The last call of a round. -/
theorem BarCrowd.completes (h : BarCrowd count s) (hlast : count ≤ s.waiting + 1) :
    count ∣ s.arrivals + 1 := by
  have hmod := Nat.div_add_mod s.arrivals count
  have hround := h.round
  have hroom := h.room
  refine ⟨s.arrivals / count + 1, ?_⟩
  rw [Nat.mul_succ]
  omega

/-- Every other call. -/
theorem BarCrowd.continues (h : BarCrowd count s) (hmore : s.waiting + 1 < count) :
    (s.arrivals + 1) % count = s.waiting + 1 := by
  rw [Nat.add_mod, h.round, Nat.mod_eq_of_lt (show 1 < count by omega), Nat.mod_eq_of_lt hmore]

theorem BarReturned.arrive (h : BarReturned count s) (hi : ¬ s.Inside i) {p : BarPc}
    (hp : p = .blocked ∨ p = .waking) (hpc : s'.pc = Function.update s.pc i p)
    (harrivals : s'.arrivals = s.arrivals + 1) (hcall : s'.call = (s.arrive i).call)
    (hwoken : s'.woken = s.woken) (hreturned : s'.returned = s.returned) :
    BarReturned count s' := by
  have hnum : ∀ {m}, m ∈ s.returned.map Prod.fst → m < s.arrivals := by
    intro m hm
    rcases List.mem_map.mp hm with ⟨⟨k, b⟩, hk, rfl⟩
    exact (h.value k b hk).1
  have hself : s'.Inside i ∧ s'.call i = s.arrivals := by
    simp only [BarSys.Inside, hpc, hcall, BarSys.arrive, Function.update_self]
    exact ⟨hp, trivial⟩
  have hother : ∀ {j}, j ≠ i → (s'.Inside j ↔ s.Inside j) ∧ s'.call j = s.call j := by
    intro j hj
    simp [BarSys.Inside, hpc, hcall, BarSys.arrive, Function.update_of_ne hj]
  constructor
  · intro m b hm
    rw [hreturned] at hm
    have := h.value m b hm
    rw [harrivals]
    exact ⟨by omega, this.2⟩
  · rw [hreturned, hwoken]
    exact h.all
  · rw [hreturned, hwoken]
    exact h.freed
  · rw [hreturned]
    exact h.once
  · intro j hj
    rw [hreturned]
    by_cases hji : j = i
    · rw [hji, hself.2]
      intro hm
      have := hnum hm
      omega
    · rw [(hother hji).2]
      exact h.inside j ((hother hji).1.mp hj)
  · intro m hm
    rw [hreturned]
    by_cases hnew : m = s.arrivals
    · exact .inr ⟨i, hself.1, by rw [hself.2, hnew]⟩
    · rcases h.kept m (by omega) with hk | ⟨j, hj, hjm⟩
      · exact .inl hk
      · have hji : j ≠ i := fun h => hi (h ▸ hj)
        exact .inr ⟨j, (hother hji).1.mpr hj, by rw [(hother hji).2, hjm]⟩

/-- A woken call has a number. -/
theorem BarWoken.number_lt (h : BarWoken count s) (hc : 1 ≤ count) {m : ℕ}
    (hm : m ∈ s.woken.map Prod.snd) : m < s.arrivals := by
  rcases List.mem_map.mp hm with ⟨⟨k, m⟩, hk, rfl⟩
  have hmates := h.mates k m hk
  have hround := (round_of_last hc hmates.1).mp hmates.2.1
  simp only
  omega

theorem BarWoken.arrive_block (h : BarWoken count s) (hc : 1 ≤ count) (ha : s.Apart i) :
    BarWoken count { (s.arrive i).setPc i .blocked with
      park := s.park.sleep i
      waiting := s.waiting + 1
      lock := none } := by
  constructor
  · intro k m hm
    have := h.mates k m hm
    exact ⟨this.1, this.2.1, this.2.2.1, Nat.lt_succ_of_lt this.2.2.2⟩
  · exact h.once
  · intro j hj
    by_cases hji : j = i
    · simp only [hji, BarSys.setPc, BarSys.arrive, Function.update_self]
      intro hm
      have := h.number_lt hc hm
      omega
    · simp only [Park.sleep, Function.update_of_ne hji] at hj
      simpa [BarSys.setPc, BarSys.arrive, Function.update_of_ne hji] using h.asleep j hj
  · intro j hj hb
    by_cases hji : j = i
    · simp [Park.sleep, hji] at hb
    · simp only [Park.sleep, BarSys.setPc, BarSys.arrive, Function.update_of_ne hji] at hj hb ⊢
      exact h.awake j hj hb
  · intro j hj
    by_cases hji : j = i
    · simp [BarSys.setPc, hji] at hj
    · have hmap : (s.park.hand j).map (s.arrive i).call = (s.park.hand j).map s.call :=
        BarSys.map_call_arrive (ha.free j)
      simp only [BarSys.setPc, BarSys.arrive, Function.update_of_ne hji] at hj hmap ⊢
      simp only [Park.sleep, hmap]
      exact h.covers j hj

theorem BarWoken.arrive_release (h : BarWoken count s) (hk : BarCrowd count s) (hc : 1 ≤ count)
    (hlast : count ≤ s.waiting + 1) (ha : s.Apart i) :
    BarWoken count { (s.arrive i).setPc i .waking with
      park := s.park.takeAll i
      waiting := 0
      lock := none } := by
  have hroom := hk.room
  have hdvd := hk.completes hlast
  constructor
  · intro k m hm
    have := h.mates k m hm
    exact ⟨this.1, this.2.1, this.2.2.1, Nat.lt_succ_of_lt this.2.2.2⟩
  · exact h.once
  · intro j hj
    have hji : j ≠ i := by
      rintro rfl
      simp [Park.takeAll, ha.awake] at hj
    simpa [BarSys.setPc, BarSys.arrive, Function.update_of_ne hji] using h.asleep j hj
  · intro j hj hb
    by_cases hji : j = i
    · simp [BarSys.setPc, hji] at hj
    · simp only [BarSys.setPc, BarSys.arrive, Function.update_of_ne hji] at hj ⊢
      exact h.awake j hj hb
  · intro j hj m hm hne
    by_cases hji : j = i
    · -- the others of the round were all listed
      right
      simp only [hji, BarSys.setPc, BarSys.arrive, Function.update_self] at hm hne
      have hin := (round_of_last hc hdvd).mp hm
      have hmem := hk.mem_numbers.mpr (show s.arrivals - s.waiting ≤ m ∧ m < s.arrivals by omega)
      rw [← BarSys.map_call_arrive ha.unlisted] at hmem
      simp only [Park.takeAll, hji, Function.update_self]
      exact hmem
    · have hmap : (s.park.hand j).map (s.arrive i).call = (s.park.hand j).map s.call :=
        BarSys.map_call_arrive (ha.free j)
      simp only [BarSys.setPc, BarSys.arrive, Function.update_of_ne hji] at hj hmap hm hne ⊢
      simp only [Park.takeAll, Function.update_of_ne hji, hmap]
      exact h.covers j hj m hm hne

/-- What an arrival does whether or not it completes its round. -/
theorem BarCrowd.arrive (h : BarCrowd count s) {p : BarPc} (hpc : s'.pc = Function.update s.pc i p)
    (harrivals : s'.arrivals = s.arrivals + 1) (hcall : s'.call = (s.arrive i).call)
    (hpark : s'.park.Ok) (hsize : s'.waiting = s'.park.waiters.length) (hroom : s'.waiting < count)
    (hround : s'.arrivals % count = s'.waiting)
    (hnumbers : s'.park.waiters.map s'.call = List.range' (s'.arrivals - s'.waiting) s'.waiting)
    (hasleep : ∀ j, s'.park.asleep j = true → s'.pc j = .blocked)
    (hhand : ∀ j, s'.park.hand j ≠ [] → s'.pc j = .waking)
    (hlast : p = .waking ↔ count ∣ s.arrivals + 1)
    (hmates : ∀ j, ∀ u ∈ s'.park.hand j, s'.call u / count = s'.call j / count) :
    BarCrowd count s' := by
  have hself : s'.pc i = p ∧ s'.call i = s.arrivals := by
    simp [hpc, hcall, BarSys.arrive]
  have hother : ∀ {j}, j ≠ i → s'.pc j = s.pc j ∧ s'.call j = s.call j := by
    intro j hj
    simp [hpc, hcall, BarSys.arrive, Function.update_of_ne hj]
  have hin : ∀ {j}, j ≠ i → s'.Inside j → s.Inside j := by
    intro j hj hins
    rwa [BarSys.Inside, (hother hj).1] at hins
  refine ⟨hpark, hsize, hroom, hround, hnumbers, hasleep, hhand, ?_, ?_, ?_, ?_, hmates⟩
  · intro j hj
    by_cases hji : j = i
    · rw [hji, hself.2]
      omega
    · rw [(hother hji).2]
      have := h.inside j (hin hji hj)
      omega
  · intro j l hj hl heq
    by_cases hji : j = i <;> by_cases hli : l = i
    · rw [hji, hli]
    · rw [hji, hself.2, (hother hli).2] at heq
      have := h.inside l (hin hli hl)
      omega
    · rw [hli, hself.2, (hother hji).2] at heq
      have := h.inside j (hin hji hj)
      omega
    · rw [(hother hji).2, (hother hli).2] at heq
      exact h.distinct j l (hin hji hj) (hin hli hl) heq
  · intro j hj
    by_cases hji : j = i
    · rw [hji, hself.1] at hj
      rw [hji, hself.2, ← hlast, hj]
      simp
    · rw [(hother hji).1] at hj
      rw [(hother hji).2]
      exact h.blocked j hj
  · intro j hj
    by_cases hji : j = i
    · rw [hji, hself.1] at hj
      rwa [hji, hself.2, ← hlast]
    · rw [(hother hji).1] at hj
      rw [(hother hji).2]
      exact h.waking j hj

theorem BarCrowd.arrive_block (h : BarCrowd count s) (hmore : s.waiting + 1 < count)
    (ha : s.Apart i) :
    BarCrowd count { (s.arrive i).setPc i .blocked with
      park := s.park.sleep i
      waiting := s.waiting + 1
      lock := none } := by
  have hle : s.waiting ≤ s.arrivals := h.round ▸ Nat.mod_le _ _
  have hround := h.continues hmore
  have hold : s.park.waiters.map (s.arrive i).call = s.park.waiters.map s.call :=
    BarSys.map_call_arrive ha.unlisted
  have hself : (s.arrive i).call i = s.arrivals := by simp [BarSys.arrive]
  refine h.arrive rfl rfl rfl (h.park.sleep ha.awake) ?_ hmore hround ?_ ?_ ?_ ?_ ?_
  · simp [Park.sleep, h.size]
  · simp only [Park.sleep, BarSys.setPc, List.map_append, List.map_cons, List.map_nil]
    rw [hold, hself, h.numbers, List.range'_concat]
    simp only [BarSys.arrive, Nat.add_sub_add_right, Nat.one_mul, Nat.sub_add_cancel hle]
  · intro j hj
    by_cases hji : j = i
    · simp [BarSys.setPc, hji]
    · simp only [Park.sleep, BarSys.setPc, BarSys.arrive, Function.update_of_ne hji] at hj ⊢
      exact h.asleep j hj
  · intro j hj
    have hji : j ≠ i := by
      rintro rfl
      simp [Park.sleep, ha.empty] at hj
    simp only [BarSys.setPc, BarSys.arrive, Function.update_of_ne hji]
    exact h.hand j hj
  · rw [Nat.dvd_iff_mod_eq_zero, hround]
    simp
  · intro j u hu
    have hji : j ≠ i := by
      rintro rfl
      simp [Park.sleep, ha.empty] at hu
    have hui : u ≠ i := by
      rintro rfl
      exact ha.free j hu
    simp only [BarSys.setPc, BarSys.arrive, Function.update_of_ne hji, Function.update_of_ne hui]
    exact h.mates j u hu

theorem BarCrowd.arrive_release (h : BarCrowd count s) (hc : 1 ≤ count)
    (hlast : count ≤ s.waiting + 1) (ha : s.Apart i) :
    BarCrowd count { (s.arrive i).setPc i .waking with
      park := s.park.takeAll i
      waiting := 0
      lock := none } := by
  have hdvd := h.completes hlast
  have hroom := h.room
  refine h.arrive rfl rfl rfl (h.park.takeAll ha.empty) ?_ hc ?_ ?_ ?_ ?_ ?_ ?_
  · simp [Park.takeAll]
  · exact Nat.mod_eq_zero_of_dvd hdvd
  · simp [Park.takeAll]
  · intro j hj
    have hji : j ≠ i := by
      rintro rfl
      simp [Park.takeAll, ha.awake] at hj
    simp only [BarSys.setPc, BarSys.arrive, Function.update_of_ne hji]
    exact h.asleep j hj
  · intro j hj
    by_cases hji : j = i
    · simp [BarSys.setPc, hji]
    · simp only [Park.takeAll, BarSys.setPc, BarSys.arrive, Function.update_of_ne hji] at hj ⊢
      exact h.hand j hj
  · simp [hdvd]
  · intro j u hu
    by_cases hji : j = i
    · -- everyone listed belongs to the round that ends here
      simp only [hji, Park.takeAll, Function.update_self] at hu
      have hui : u ≠ i := by
        rintro rfl
        exact ha.unlisted hu
      have hmem := h.mem_numbers.mp (List.mem_map_of_mem hu)
      simp only [hji, BarSys.setPc, BarSys.arrive, Function.update_self, Function.update_of_ne hui]
      rw [round_of_last hc hdvd]
      omega
    · simp only [Park.takeAll, Function.update_of_ne hji] at hu
      have hui : u ≠ i := by
        rintro rfl
        exact ha.free j hu
      simp only [BarSys.setPc, BarSys.arrive, Function.update_of_ne hji, Function.update_of_ne hui]
      exact h.mates j u hu

theorem BarInv.body (h : BarInv count s) (hc : 1 ≤ count) (hp : s.pc i = .locked) :
    BarInv count (s.body count i) := by
  have ha := h.crowd.apart hp
  by_cases hlast : count ≤ s.waiting + 1
  · rw [BarSys.body, if_pos hlast]
    refine ⟨h.crowd.arrive_release hc hlast ha, h.woken.arrive_release h.crowd hc hlast ha, ?_⟩
    exact h.returned.arrive ha.outside (.inr rfl) rfl rfl rfl rfl rfl
  · rw [BarSys.body, if_neg hlast]
    refine ⟨h.crowd.arrive_block (by omega) ha, h.woken.arrive_block hc ha, ?_⟩
    exact h.returned.arrive ha.outside (.inl rfl) rfl rfl rfl rfl rfl

/-! ## Wakeups and returns -/

theorem BarCrowd.wake (h : BarCrowd count s) {u : ℕ} {us : List ℕ}
    (hhand : s.park.hand i = u :: us) (hpark : s'.park = s.park.wake i u us)
    (hwaiting : s'.waiting = s.waiting) (hpc : s'.pc = s.pc) (harrivals : s'.arrivals = s.arrivals)
    (hcall : s'.call = s.call) : BarCrowd count s' := by
  have hsub : ∀ {j l}, l ∈ s'.park.hand j → l ∈ s.park.hand j := by
    intro j l hl
    rw [hpark] at hl
    by_cases hji : j = i
    · simp only [Park.wake, hji, Function.update_self] at hl
      rw [hji, hhand]
      exact List.mem_cons_of_mem _ hl
    · simpa [Park.wake, Function.update_of_ne hji] using hl
  have hin : ∀ {j}, s'.Inside j → s.Inside j := by
    intro j hj
    rwa [BarSys.Inside, hpc] at hj
  constructor
  · rw [hpark]
    exact h.park.wake hhand
  · rw [hwaiting, hpark]
    exact h.size
  · rw [hwaiting]
    exact h.room
  · rw [harrivals, hwaiting]
    exact h.round
  · rw [hpark, hcall, harrivals, hwaiting]
    exact h.numbers
  · intro j hj
    rw [hpark] at hj
    have hju : j ≠ u := by
      rintro rfl
      simp [Park.wake] at hj
    rw [hpc]
    exact h.asleep j (by simpa [Park.wake, Function.update_of_ne hju] using hj)
  · intro j hj
    rw [hpc]
    apply h.hand
    rcases List.exists_mem_of_ne_nil _ hj with ⟨l, hl⟩
    exact List.ne_nil_of_mem (hsub hl)
  · intro j hj
    rw [hcall, harrivals]
    exact h.inside j (hin hj)
  · intro j l hj hl
    rw [hcall]
    exact h.distinct j l (hin hj) (hin hl)
  · rw [hpc, hcall]
    exact h.blocked
  · rw [hpc, hcall]
    exact h.waking
  · intro j l hl
    rw [hcall]
    exact h.mates j l (hsub hl)

theorem BarWoken.wake (h : BarWoken count s) (hk : BarCrowd count s) {u : ℕ} {us : List ℕ}
    (hhand : s.park.hand i = u :: us) :
    BarWoken count { s with
      park := s.park.wake i u us
      woken := s.woken ++ [(s.call i, s.call u)] } := by
  have hp := hk.hand i (by simp [hhand])
  have hu := hk.park.inHand i u (by simp [hhand])
  have hpu := hk.asleep u hu.1
  have hmate := hk.mates i u (by simp [hhand])
  have hne : s.call u ≠ s.call i := by
    intro heq
    have := hk.blocked u hpu
    rw [heq] at this
    exact this (hk.waking i hp)
  constructor
  · intro k m hm
    simp only [List.mem_append, List.mem_singleton, Prod.mk.injEq] at hm
    rcases hm with hm | ⟨rfl, rfl⟩
    · exact h.mates k m hm
    · exact ⟨hk.waking i hp, hmate, hne, hk.inside i (.inr hp)⟩
  · simp only [List.map_append, List.map_cons, List.map_nil, List.nodup_append, List.mem_singleton]
    refine ⟨h.once, by simp, ?_⟩
    rintro a ha b rfl heq
    exact h.asleep u hu.1 (heq ▸ ha)
  · intro j hj
    have hju : j ≠ u := by
      rintro rfl
      simp [Park.wake] at hj
    have hj' : s.park.asleep j = true := by simpa [Park.wake, Function.update_of_ne hju] using hj
    have hcall : s.call j ≠ s.call u := by
      intro heq
      exact hju (hk.distinct j u (.inl (hk.asleep j hj')) (.inl hpu) heq)
    simp only [List.map_append, List.map_cons, List.map_nil, List.mem_append, List.mem_singleton]
    rintro (hw | hw)
    · exact h.asleep j hj' hw
    · exact hcall hw
  · intro j hj hb
    by_cases hju : j = u
    · exact ⟨s.call i, by simp [hju]⟩
    · rcases h.awake j hj (by simpa [Park.wake, Function.update_of_ne hju] using hb) with ⟨k, hk'⟩
      exact ⟨k, by simp [hk']⟩
  · intro j hj m hm hne'
    by_cases hji : j = i
    · subst hji
      rcases h.covers j hj m hm hne' with hw | hw
      · exact .inl (by simp [hw])
      · rw [hhand, List.map_cons, List.mem_cons] at hw
        rcases hw with rfl | hw
        · exact .inl (by simp)
        · exact .inr (by simpa [Park.wake] using hw)
    · rcases h.covers j hj m hm hne' with hw | hw
      · exact .inl (by simp [hw])
      · exact .inr (by simpa [Park.wake, Function.update_of_ne hji] using hw)

theorem BarInv.wakeNext (h : BarInv count s) {u : ℕ} {us : List ℕ}
    (hhand : s.park.hand i = u :: us) : ∃ s', s.wakeNext i u us = .ok s' ∧ BarInv count s' := by
  have hu := h.crowd.park.asleep_head hhand
  refine ⟨_, by rw [BarSys.wakeNext, if_pos hu], ?_, ?_, ?_⟩
  · exact h.crowd.wake hhand rfl rfl rfl rfl rfl
  · exact h.woken.wake h.crowd hhand
  · have hk := h.returned
    refine ⟨hk.value, ?_, ?_, hk.once, hk.inside, hk.kept⟩
    · intro k hk' m hm hne
      exact List.mem_append_left _ (hk.all k hk' m hm hne)
    · intro m hm
      rcases hk.freed m hm with ⟨k, hkm⟩
      exact ⟨k, List.mem_append_left _ hkm⟩

/-- A call returns: the waiter that was woken, or the one that has woken its round. -/
theorem BarInv.ret (h : BarInv count s) {b : Bool} (hi : s.Inside i)
    (hawake : s.park.asleep i = false) (hempty : s.park.hand i = [])
    (hb : b = true ↔ s.pc i = .waking) : BarInv count (s.ret i b) := by
  have hsub : ∀ {j p}, p ≠ .out → (s.ret i b).pc j = p → j ≠ i ∧ s.pc j = p := by
    intro j p hp hj
    by_cases hji : j = i
    · simp only [BarSys.ret, BarSys.setPc, hji, Function.update_self] at hj
      exact absurd hj.symm hp
    · exact ⟨hji, by simpa [BarSys.ret, BarSys.setPc, Function.update_of_ne hji] using hj⟩
  have hin : ∀ {j}, (s.ret i b).Inside j → j ≠ i ∧ s.Inside j := by
    rintro j (hj | hj)
    · exact ⟨(hsub (by simp) hj).1, .inl (hsub (by simp) hj).2⟩
    · exact ⟨(hsub (by simp) hj).1, .inr (hsub (by simp) hj).2⟩
  have hother : ∀ {j}, j ≠ i → (s.ret i b).pc j = s.pc j := by
    intro j hj
    simp [BarSys.ret, BarSys.setPc, Function.update_of_ne hj]
  have hdvd : b = true ↔ count ∣ s.call i + 1 := by
    rw [hb]
    rcases hi with hp | hp
    · simp [hp, h.crowd.blocked i hp]
    · simp [hp, h.crowd.waking i hp]
  refine ⟨?_, ?_, ?_⟩
  · have hk := h.crowd
    refine ⟨hk.park, hk.size, hk.room, hk.round, hk.numbers, ?_, ?_, ?_, ?_, ?_, ?_, hk.mates⟩
    · intro j hj
      have hji : j ≠ i := by
        rintro rfl
        exact absurd hj (by simp [BarSys.ret, BarSys.setPc, hawake])
      rw [hother hji]
      exact hk.asleep j hj
    · intro j hj
      have hji : j ≠ i := by
        rintro rfl
        exact hj hempty
      rw [hother hji]
      exact hk.hand j hj
    · exact fun j hj => hk.inside j (hin hj).2
    · exact fun j l hj hl => hk.distinct j l (hin hj).2 (hin hl).2
    · exact fun j hj => hk.blocked j (hsub (by simp) hj).2
    · exact fun j hj => hk.waking j (hsub (by simp) hj).2
  · have hk := h.woken
    refine ⟨hk.mates, hk.once, hk.asleep, ?_, ?_⟩
    · exact fun j hj => hk.awake j (hsub (by simp) hj).2
    · exact fun j hj => hk.covers j (hsub (by simp) hj).2
  · have hk := h.returned
    constructor
    · intro m c hm
      simp only [BarSys.ret, List.mem_append, List.mem_singleton, Prod.mk.injEq] at hm
      rcases hm with hm | ⟨rfl, rfl⟩
      · exact hk.value m c hm
      · exact ⟨h.crowd.inside i hi, hdvd⟩
    · intro k hm m hround hne
      simp only [BarSys.ret, List.mem_append, List.mem_singleton, Prod.mk.injEq] at hm
      rcases hm with hm | ⟨rfl, hbt⟩
      · exact hk.all k hm m hround hne
      · have hw := h.woken.covers i (hb.mp hbt.symm) m hround hne
        rw [hempty, List.map_nil] at hw
        exact hw.resolve_right List.not_mem_nil
    · intro m hm
      simp only [BarSys.ret, List.mem_append, List.mem_singleton, Prod.mk.injEq] at hm
      rcases hm with hm | ⟨rfl, hbf⟩
      · exact hk.freed m hm
      · have hp : s.pc i = .blocked := by
          rcases hi with hp | hp
          · exact hp
          · simp [← hbf, hp] at hb
        exact h.woken.awake i hp hawake
    · simp only [BarSys.ret, List.map_append, List.map_cons, List.map_nil, List.nodup_append,
        List.mem_singleton]
      refine ⟨hk.once, by simp, ?_⟩
      rintro a ha c rfl heq
      exact hk.inside i hi (heq ▸ ha)
    · intro j hj
      simp only [BarSys.ret, List.map_append, List.map_cons, List.map_nil, List.mem_append,
        List.mem_singleton]
      rintro (hm | hm)
      · exact hk.inside j (hin hj).2 hm
      · exact (hin hj).1 (h.crowd.distinct j i (hin hj).2 hi hm)
    · intro m hm
      rcases hk.kept m hm with hr | ⟨j, hj, rfl⟩
      · exact .inl (by simp [BarSys.ret, hr])
      · by_cases hji : j = i
        · exact .inl (by simp [BarSys.ret, hji])
        · refine .inr ⟨j, ?_, rfl⟩
          rwa [BarSys.Inside, hother hji]

/-- Where a task is in `waitgroup_add` or `waitgroup_wait`. -/
inductive WgPc
  | out
  /-- `waitgroup_add`, before and after its spinlock -/
  | addSpin (c : ℤ)
  | addLocked (c : ℤ)
  /-- the private list is woken -/
  | waking
  /-- `waitgroup_wait` -/
  | waitSpin
  | waitLocked
  /-- in `task_block` -/
  | blocked
  deriving DecidableEq

structure WgSys where
  cnt : ℤ
  park : Park ℕ
  lock : Option ℕ
  pc : ℕ → WgPc
  /-- the values that the counter was given, in order -/
  history : List ℤ
  /-- how many of them there were when the task blocked -/
  since : ℕ → ℕ

namespace WgSys

/-- `waitgroup_init` -/
def start : WgSys where
  cnt := 0
  park := .empty
  lock := none
  pc _ := .out
  history := []
  since _ := 0

def setPc (s : WgSys) (i : ℕ) (p : WgPc) : WgSys :=
  { s with pc := Function.update s.pc i p }

def spin (s : WgSys) (i : ℕ) (p : WgPc) : WgSys :=
  if s.lock = none then { s.setPc i p with lock := some i } else s

/-- `task_wakeup` of the next task in hand. -/
def wakeNext (s : WgSys) (i u : ℕ) (us : List ℕ) : Except ParkFault WgSys :=
  if s.park.asleep u then .ok { s with park := s.park.wake i u us }
  else .error .notBlocked

end WgSys

structure WgInv (s : WgSys) : Prop where
  park : s.park.Ok
  asleep : ∀ i, s.park.asleep i = true → s.pc i = .blocked
  hand : ∀ i, s.park.hand i ≠ [] → s.pc i = .waking
  last : s.cnt = s.history.getLastD 0
  zero : s.cnt = 0 → s.park.waiters = []
  since : ∀ i, s.pc i = .blocked → s.since i ≤ s.history.length
  /-- a waiter is on the list until the counter comes to zero -/
  listed : ∀ i, s.pc i = .blocked →
    (i ∈ s.park.waiters ↔ (0 : ℤ) ∉ s.history.drop (s.since i))

variable {g g' : WgSys}

/-- A task that neither sleeps nor wakes others moves along its code. -/
theorem WgInv.move (h : WgInv g) {p : WgPc} {l : Option ℕ} (hawake : g.park.asleep i = false)
    (hempty : g.park.hand i = []) (hp : p ≠ .blocked) :
    WgInv { g.setPc i p with lock := l } := by
  have hother : ∀ {j}, j ≠ i → (g.setPc i p).pc j = g.pc j := by
    intro j hj
    simp [WgSys.setPc, Function.update_of_ne hj]
  have hsub : ∀ {j}, (g.setPc i p).pc j = .blocked → g.pc j = .blocked := by
    intro j hj
    by_cases hji : j = i
    · simp only [WgSys.setPc, hji, Function.update_self] at hj
      exact absurd hj hp
    · rwa [hother hji] at hj
  refine ⟨h.park, ?_, ?_, h.last, h.zero, ?_, ?_⟩
  · intro j hj
    have hji : j ≠ i := by
      rintro rfl
      exact absurd hj (by simp [WgSys.setPc, hawake])
    exact (hother hji).trans (h.asleep j hj)
  · intro j hj
    have hji : j ≠ i := by
      rintro rfl
      exact hj hempty
    exact (hother hji).trans (h.hand j hj)
  · exact fun j hj => h.since j (hsub hj)
  · exact fun j hj => h.listed j (hsub hj)

/-- Where a task neither sleeps nor wakes others. -/
theorem WgInv.apart (h : WgInv g) (h₁ : g.pc i ≠ .blocked) (h₂ : g.pc i ≠ .waking) :
    g.park.asleep i = false ∧ g.park.hand i = [] := by
  constructor
  · by_contra hb
    exact h₁ (h.asleep i (by simpa using hb))
  · by_contra hne
    exact h₂ (h.hand i hne)

theorem WgInv.spin (h : WgInv g) {p : WgPc} (h₁ : g.pc i ≠ .blocked) (h₂ : g.pc i ≠ .waking)
    (hp : p ≠ .blocked) : WgInv (g.spin i p) := by
  have ha := h.apart h₁ h₂
  by_cases hl : g.lock = none
  · rw [WgSys.spin, if_pos hl]
    exact h.move ha.1 ha.2 hp
  · rwa [WgSys.spin, if_neg hl]

theorem WgInv.wakeNext (h : WgInv g) {u : ℕ} {us : List ℕ} (hhand : g.park.hand i = u :: us) :
    ∃ g', g.wakeNext i u us = .ok g' ∧ WgInv g' := by
  have hu := h.park.asleep_head hhand
  refine ⟨{ g with park := g.park.wake i u us }, by rw [WgSys.wakeNext, if_pos hu], ?_⟩
  refine ⟨h.park.wake hhand, ?_, ?_, h.last, h.zero, h.since, h.listed⟩
  · intro j hj
    have hju : j ≠ u := by
      rintro rfl
      simp [Park.wake] at hj
    exact h.asleep j (by simpa [Park.wake, Function.update_of_ne hju] using hj)
  · intro j hj
    by_cases hji : j = i
    · exact h.hand j (by simp [hji, hhand])
    · exact h.hand j (by simpa [Park.wake, Function.update_of_ne hji] using hj)

/-- Two tasks meet, and the first is back before the second has returned. -/
def pairRun : List BarEvent :=
  [.call 0, .step 0, .step 0, .call 1, .step 1, .step 1, .step 1, .step 0, .call 0, .step 0,
    .step 0, .step 1]

end Skyloft
