import Skyloft.Sched.Rr

/-!
# The ring of the round-robin policy across a wrap

`put_task` panics when its ticket is not less than `head + RUNTIME_RQ_SIZE`.  Both are words of 32
bits, and the sum wraps before the ticket does: from then on, until the ticket has wrapped as well,
the test fails whatever is in the ring.

The words do not tell how often they have wrapped, so the system is run with the number of tickets
that were taken before each producer took its own.

* `countedStep` — the system with these numbers.
* `panics_full_iff` — `put_task` panics on a full ring only, as long as the sum is not ahead.
* `empty_ring_panics` — a panic with nothing in the ring.
-/

namespace Skyloft

open Run

/-! ## Counting the tickets -/

structure RrCounted where
  sys : RrSys
  /-- how many tickets were taken before that of a producer -/
  before : ℕ → ℕ

namespace RrCounted

def start : RrCounted := { sys := .start, before := fun _ => 0 }

/-- What an event makes of the numbers. -/
def beforeOf (s : RrCounted) : RrEvent → ℕ → ℕ
  | .ticket i _ =>
      match s.sys.put i with
      | .idle => Function.update s.before i s.sys.tickets.length
      | .ticketed _ _ | .checked _ _ => s.before
  | .check _ | .store _ | .exchange | .advance => s.before

end RrCounted

/-- A step of the system. -/
def countedStep (s : RrCounted) (e : RrEvent) : Except RrFault RrCounted := do
  let sys ← rrStep s.sys e
  return { sys := sys, before := s.beforeOf e }

namespace RrCounted

/-- `RUNTIME_RQ_SIZE` of the tasks that were put before that of producer `i` are not returned. -/
def Full (s : RrCounted) (i : ℕ) : Prop := s.sys.returned.length + rrSize ≤ s.before i

/-- `put_task` reaches `panic` with a full ring only. -/
def PanicsFull (s : RrCounted) (e : RrEvent) : Prop :=
  countedStep s e = .error .rqFull → ∃ i, e = .check i ∧ s.Full i

/-- At the test, `head + RUNTIME_RQ_SIZE` has not wrapped more often than the ticket. -/
def NotAhead (s : RrCounted) : RrEvent → Prop
  | .check i =>
      match s.sys.put i with
      | .ticketed _ _ => (s.sys.returned.length + rrSize) / 2 ^ 32 ≤ s.before i / 2 ^ 32
      | .idle | .checked _ _ => True
  | .ticket _ _ | .store _ | .exchange | .advance => True

/-- At the test, `head` has not gone a whole turn of the counters past the ticket. -/
def WithinTurn (s : RrCounted) : RrEvent → Prop
  | .check i => s.sys.returned.length + rrSize ≤ s.before i + 2 ^ 32
  | .ticket _ _ | .store _ | .exchange | .advance => True

/-- The words are what is counted. -/
structure Counts (s : RrCounted) : Prop where
  head : s.sys.rq.head = BitVec.ofNat 32 s.sys.returned.length
  tail : s.sys.rq.tail = BitVec.ofNat 32 s.sys.tickets.length
  ticket : ∀ i t k, s.sys.put i = .ticketed t k → k = BitVec.ofNat 32 (s.before i)
  taken : ∀ t k, s.sys.pick = .taken t k → k = s.sys.rq.head

theorem counts_start : Counts .start := by
  constructor <;> simp [start, RrSys.start]

end RrCounted

open RrCounted

variable {s s' : RrCounted} {e : RrEvent}

namespace RrCounted

theorem Counts.setTask (h : s.Counts) (j : ℕ) (t : Option ℕ) :
    Counts { s with sys := s.sys.setTask j t } :=
  ⟨h.head, h.tail, h.ticket, h.taken⟩

/-- A producer that is through with its ticket is not asked for it any more. -/
theorem Counts.setPut (h : s.Counts) (i : ℕ) {p : PutPc} (hp : ∀ t k, p ≠ .ticketed t k) :
    Counts { s with sys := s.sys.setPut i p } := by
  refine ⟨h.head, h.tail, ?_, h.taken⟩
  intro j t k hj
  by_cases hji : j = i
  · rw [hji, ticket_setPut_self] at hj
    exact absurd hj (hp t k)
  · rw [ticket_setPut_of_ne _ _ hji] at hj
    exact h.ticket j t k hj

theorem Counts.takeTicket (h : s.Counts) (i t : ℕ) :
    Counts
      { sys := { s.sys.setPut i (.ticketed t s.sys.rq.tail) with
          rq := { s.sys.rq with tail := s.sys.rq.tail + 1#32 }
          tickets := s.sys.tickets ++ [t] }
        before := Function.update s.before i s.sys.tickets.length } := by
  refine ⟨h.head, ?_, ?_, h.taken⟩
  · simp only [List.length_append, List.length_singleton, BitVec.ofNat_add, ← h.tail]
  · intro j u k hj
    change (s.sys.setPut i (.ticketed t s.sys.rq.tail)).put j = _ at hj
    change k = BitVec.ofNat 32 (Function.update s.before i s.sys.tickets.length j)
    by_cases hji : j = i
    · rw [hji, ticket_setPut_self] at hj
      cases hj
      rw [hji, Function.update_self]
      exact h.tail
    · rw [ticket_setPut_of_ne _ _ hji] at hj
      rw [Function.update_of_ne hji]
      exact h.ticket j u k hj

theorem Counts.exchange (h : s.Counts) : Counts { s with sys := s.sys.exchange } := by
  cases hp : s.sys.pick with
  | taken t k =>
      have hsame : s.sys.exchange = s.sys := by simp [RrSys.exchange, hp]
      rw [hsame]
      exact h
  | idle =>
      cases ht : s.sys.rq.tasks (rrSlot s.sys.rq.head) with
      | none =>
          have hsame : s.sys.exchange = s.sys := by simp [RrSys.exchange, hp, ht]
          rw [hsame]
          exact h
      | some t =>
          simp only [RrSys.exchange, hp, ht]
          refine ⟨h.head, h.tail, h.ticket, ?_⟩
          intro u k hk
          cases hk
          rfl

theorem Counts.advance (h : s.Counts) : Counts { s with sys := s.sys.advance } := by
  cases hp : s.sys.pick with
  | idle =>
      have hsame : s.sys.advance = s.sys := by simp [RrSys.advance, hp]
      rw [hsame]
      exact h
  | taken t k =>
      simp only [RrSys.advance, hp]
      refine ⟨?_, h.tail, h.ticket, ?_⟩
      · simp only [List.length_append, List.length_singleton, BitVec.ofNat_add, ← h.head,
          h.taken t k hp]
      · intro u l hl
        cases hl

end RrCounted

theorem countedStep_error {f : RrFault} :
    countedStep s e = .error f ↔ rrStep s.sys e = .error f := by
  rw [countedStep]
  cases rrStep s.sys e <;> simp [bind, Except.bind, pure, Except.pure]

/-- No step reads the numbers. -/
theorem exec_countedStep {es : List RrEvent} : ∀ {s : RrCounted},
    (exec countedStep s es).map RrCounted.sys = exec rrStep s.sys es := by
  induction es with
  | nil => intro s; rfl
  | cons e es ih =>
      intro s
      cases hs : rrStep s.sys e with
      | error f => rw [exec, exec, countedStep_error.mpr hs, hs]; rfl
      | ok sys =>
          have hstep : countedStep s e = .ok { sys := sys, before := s.beforeOf e } := by
            rw [countedStep, hs]
            rfl
          rw [exec, exec, hstep, hs]
          exact ih

theorem countedStep_counts (h : s.Counts) (hs : countedStep s e = .ok s') : s'.Counts := by
  rw [countedStep, bind_eq_ok] at hs
  obtain ⟨sys, hsys, hs⟩ := hs
  cases hs
  cases e with
  | ticket i t =>
      cases hp : s.sys.put i <;> simp only [rrStep, hp, Except.ok.injEq] at hsys <;>
        simp only [beforeOf, hp, ← hsys]
      · exact h.takeTicket i t
      · exact h
      · exact h
  | check i =>
      cases hp : s.sys.put i with
      | ticketed t k =>
          simp only [rrStep, hp] at hsys
          split at hsys
          · cases hsys
          · cases hsys
            exact h.setPut i fun _ _ => PutPc.noConfusion
      | _ =>
          simp only [rrStep, hp, Except.ok.injEq] at hsys
          rw [← hsys]
          exact h
  | store i =>
      cases hp : s.sys.put i with
      | checked t k =>
          simp only [rrStep, hp, Except.ok.injEq] at hsys
          rw [← hsys]
          exact (h.setTask (rrSlot k) (some t)).setPut i fun _ _ => PutPc.noConfusion
      | _ =>
          simp only [rrStep, hp, Except.ok.injEq] at hsys
          rw [← hsys]
          exact h
  | exchange =>
      cases hsys
      exact h.exchange
  | advance =>
      cases hsys
      exact h.advance

/-! ## The test -/

theorem check_panics_iff (h : s.Counts) {i t : ℕ} {k : BitVec 32}
    (hp : s.sys.put i = .ticketed t k) :
    countedStep s (.check i) = .error .rqFull ↔
      (s.sys.returned.length + rrSize) % 2 ^ 32 ≤ s.before i % 2 ^ 32 := by
  have hsum : s.sys.rq.head + BitVec.ofNat 32 rrSize =
      BitVec.ofNat 32 (s.sys.returned.length + rrSize) := by
    rw [h.head, BitVec.ofNat_add]
  have hle : s.sys.rq.head + BitVec.ofNat 32 rrSize ≤ k ↔
      (s.sys.returned.length + rrSize) % 2 ^ 32 ≤ s.before i % 2 ^ 32 := by
    rw [hsum, h.ticket i t k hp, BitVec.le_def, BitVec.toNat_ofNat, BitVec.toNat_ofNat]
  rw [← hle, countedStep_error, rrStep, hp]
  by_cases hfull : s.sys.rq.head + BitVec.ofNat 32 rrSize ≤ k <;> simp [hfull]

/-- Nothing but the test faults. -/
theorem panic_check (hs : countedStep s e = .error .rqFull) :
    ∃ i t k, e = .check i ∧ s.sys.put i = .ticketed t k := by
  rw [countedStep_error] at hs
  cases e with
  | ticket i t => cases hp : s.sys.put i <;> simp [rrStep, hp] at hs
  | check i =>
      cases hp : s.sys.put i with
      | ticketed t k => exact ⟨i, t, k, rfl, hp⟩
      | _ => simp [rrStep, hp] at hs
  | store i => cases hp : s.sys.put i <;> simp [rrStep, hp] at hs
  | exchange => cases hs
  | advance => cases hs

theorem panicsFull_of_notAhead (h : s.Counts) (hn : s.NotAhead e) : s.PanicsFull e := by
  intro hs
  obtain ⟨i, t, k, rfl, hp⟩ := panic_check hs
  have hword := (check_panics_iff h hp).mp hs
  simp only [NotAhead, hp] at hn
  refine ⟨i, rfl, ?_⟩
  rw [Full]
  omega

/-- Once the sum has wrapped and the ticket has not, the test fails with room in the ring. -/
theorem notAhead_of_panicsFull (h : s.Counts) (hw : s.WithinTurn e) (hf : s.PanicsFull e) :
    s.NotAhead e := by
  cases e with
  | check i =>
      cases hp : s.sys.put i with
      | ticketed t k =>
          rw [WithinTurn] at hw
          simp only [NotAhead, hp]
          by_contra hahead
          have hs := (check_panics_iff h hp).mpr (by omega)
          obtain ⟨j, hj, hfull⟩ := hf hs
          cases hj
          rw [Full] at hfull
          omega
      | _ => simp [NotAhead, hp]
  | _ => trivial

/-! ## Whole runs -/

/-- **`put_task` panics on a full ring only**, in every run in which `head + RUNTIME_RQ_SIZE` has
wrapped no more often than the ticket whenever the two are compared; and in no other run, unless a
ticket is a whole turn of the counters behind. -/
theorem panics_full_iff (es : List RrEvent) :
    (Along countedStep NotAhead .start es → Along countedStep PanicsFull .start es) ∧
    (Along countedStep WithinTurn .start es →
      (Along countedStep PanicsFull .start es ↔ Along countedStep NotAhead .start es)) := by
  have hkeep : ∀ {G : RrCounted → RrEvent → Prop} (s e s'), s.Counts → G s e →
      countedStep s e = .ok s' → s'.Counts := fun _ _ _ h _ hs => countedStep_counts h hs
  have hif : Along countedStep NotAhead .start es → Along countedStep PanicsFull .start es :=
    Along.imp hkeep (fun _ _ => panicsFull_of_notAhead) counts_start
  refine ⟨hif, fun hturn => ⟨fun hfull => ?_, hif⟩⟩
  exact Along.imp hkeep (fun _ _ h hg => notAhead_of_panicsFull h hg.1 hg.2) counts_start
    (hturn.and hfull)

/-! ## An empty ring -/

/-- A task is put and picked. -/
def rrRound : List RrEvent := [.ticket 0 0, .check 0, .store 0, .exchange, .advance]

/-- `n` tasks were put and picked, and nothing is in the ring. -/
structure Served (n : ℕ) (s : RrSys) : Prop where
  head : s.rq.head = BitVec.ofNat 32 n
  tail : s.rq.tail = BitVec.ofNat 32 n
  put : s.put 0 = .idle
  pick : s.pick = .idle
  tickets : s.tickets.length = n
  returned : s.returned.length = n

theorem Served.round {n : ℕ} {s : RrSys} (h : Served n s) (hn : n + rrSize < 2 ^ 32) :
    ∃ s', exec rrStep s rrRound = .ok s' ∧ Served (n + 1) s' := by
  have hroom : ¬ BitVec.ofNat 32 n + BitVec.ofNat 32 rrSize ≤ BitVec.ofNat 32 n := by
    rw [← BitVec.ofNat_add, BitVec.le_def, BitVec.toNat_ofNat, BitVec.toNat_ofNat,
      Nat.mod_eq_of_lt hn, Nat.mod_eq_of_lt (lt_of_le_of_lt (Nat.le_add_right _ _) hn)]
    simp [rrSize]
  have hrun : exec rrStep s rrRound = .ok
      { rq := { head := BitVec.ofNat 32 n + 1#32, tail := BitVec.ofNat 32 n + 1#32,
                tasks := Function.update s.rq.tasks (rrSlot (BitVec.ofNat 32 n)) none }
        put := Function.update s.put 0 .idle
        pick := .idle
        tickets := s.tickets ++ [0]
        returned := s.returned ++ [0] } := by
    simp [exec, rrRound, rrStep, h.put, h.head, h.tail, h.pick, RrSys.setPut, RrSys.setTask, hroom,
      RrSys.exchange, RrSys.advance]
  refine ⟨_, hrun, ?_, ?_, ?_, rfl, ?_, ?_⟩
  · rw [BitVec.ofNat_add]
  · rw [BitVec.ofNat_add]
  · exact Function.update_self 0 _ s.put
  · rw [List.length_append, h.tickets, List.length_singleton]
  · rw [List.length_append, h.returned, List.length_singleton]

/-- The calls of a task that is put and picked again and again. -/
def rrRounds (n : ℕ) : List RrEvent := (List.replicate n rrRound).flatten

theorem served_rounds : ∀ n, n + rrSize ≤ 2 ^ 32 →
    ∃ s, exec rrStep .start (rrRounds n) = .ok s ∧ Served n s := by
  intro n
  induction n with
  | zero =>
      intro _
      exact ⟨.start, rfl, rfl, rfl, rfl, rfl, rfl, rfl⟩
  | succ n ih =>
      intro hn
      obtain ⟨s, hs, hserved⟩ := ih (by omega)
      obtain ⟨s', hs', hserved'⟩ := hserved.round (by omega)
      refine ⟨s', ?_, hserved'⟩
      rw [rrRounds, List.replicate_succ', List.flatten_append, List.flatten_singleton]
      exact exec_append_ok.mpr ⟨s, hs, hs'⟩

/-- After `2 ^ 32 - 32` tasks the ring is empty, and the next `put_task` panics. -/
theorem empty_ring_panics : ∃ s,
    exec rrStep .start (rrRounds (2 ^ 32 - 32)) = .ok s ∧
    s.tickets.length = s.returned.length ∧
    exec rrStep s [.ticket 0 0, .check 0] = .error .rqFull := by
  obtain ⟨s, hs, h⟩ := served_rounds (2 ^ 32 - 32) (by decide)
  refine ⟨s, hs, h.tickets.trans h.returned.symm, ?_⟩
  simp [exec, rrStep, h.put, h.head, h.tail, RrSys.setPut, rrSize]

end Skyloft
