import Mathlib.Algebra.Order.Group.Int

/-!
# Computations that nest a counter

A counter that is raised at the start of a section and lowered at its end tells how deeply sections
are nested.  A computation runs beside such a counter and may stop in the middle; the lowest value
the counter ever had is kept, also when it stops.

* `Counter`, `Counting` — the counter beside a state, and the computations.
* `Counts` — where the counter ends up when it starts at a given value, and how low it gets.
* `Level` — computations that leave the counter where it was and never take it lower.
* `Raises`, `Drops` — the start and the end of a section.
* `Balanced` — the same of one run.
-/

namespace Nesting

/-- A state with a counter. -/
structure Counter (σ : Type) where
  count : ℤ
  /-- the lowest value of the counter so far -/
  low : ℤ
  rest : σ

/-- The counter before it moved. -/
def Counter.at {σ : Type} (n : ℤ) (rest : σ) : Counter σ := { count := n, low := n, rest }

/-- Computations that may stop. -/
abbrev Counting (σ φ : Type) := ExceptT φ (StateM (Counter σ))

namespace Counting

variable {σ φ α β : Type}

/-- The result of a computation, or why it stopped, and what it leaves. -/
def exec (x : Counting σ φ α) (s : Counter σ) : Except φ α × Counter σ :=
  Id.run (StateT.run (ExceptT.run x) s)

/-- The counter moves by `d`. -/
def move (d : ℤ) : Counting σ φ Unit :=
  modify fun s => { s with count := s.count + d, low := min s.low (s.count + d) }

/-- A change beside the counter. -/
def change (f : σ → σ) : Counting σ φ Unit := modify fun s => { s with rest := f s.rest }

/-- What is beside the counter. -/
def look : Counting σ φ σ := do
  let s ← get
  return s.rest

/-- The counter. -/
def depth : Counting σ φ ℤ := do
  let s ← get
  return s.count

/-- An assertion. -/
def ensure (c : Prop) [Decidable c] (e : φ) : Counting σ φ Unit := if c then pure () else throw e

@[simp] theorem exec_pure (a : α) (s : Counter σ) :
    (pure a : Counting σ φ α).exec s = (.ok a, s) := rfl

@[simp] theorem exec_throw (e : φ) (s : Counter σ) :
    (throw e : Counting σ φ α).exec s = (.error e, s) := rfl

@[simp] theorem exec_move (d : ℤ) (s : Counter σ) :
    (move d : Counting σ φ Unit).exec s =
      (.ok (), { s with count := s.count + d, low := min s.low (s.count + d) }) := rfl

@[simp] theorem exec_change (f : σ → σ) (s : Counter σ) :
    (change f : Counting σ φ Unit).exec s = (.ok (), { s with rest := f s.rest }) := rfl

@[simp] theorem exec_depth (s : Counter σ) :
    (depth : Counting σ φ ℤ).exec s = (.ok s.count, s) := rfl

@[simp] theorem exec_look (s : Counter σ) : (look : Counting σ φ σ).exec s = (.ok s.rest, s) := rfl

theorem exec_bind (x : Counting σ φ α) (f : α → Counting σ φ β) (s : Counter σ) :
    (x >>= f).exec s =
      match (x.exec s).1 with
      | .ok a => (f a).exec (x.exec s).2
      | .error e => (.error e, (x.exec s).2) := by
  rw [exec, ExceptT.run_bind, StateT.run_bind, Id.run_bind]
  unfold exec
  cases (Id.run (StateT.run (ExceptT.run x) s)).1 with
  | ok a => rfl
  | error e => rfl

end Counting

open Counting

variable {σ φ α β : Type} {lo n m : ℤ} {Q : ℤ → Prop} {x : Counting σ φ α}

/-! ## Where the counter ends up -/

/-- Started at `n`, the counter never gets below `lo`; when the computation returns, `Q` holds of
it. -/
def Counts (lo n : ℤ) (Q : ℤ → Prop) (x : Counting σ φ α) : Prop :=
  ∀ s : Counter σ, s.count = n → lo ≤ s.low →
    lo ≤ (x.exec s).2.low ∧ ∀ a, (x.exec s).1 = .ok a → Q (x.exec s).2.count

namespace Counts

theorem pure (a : α) (h : Q n) : Counts lo n Q (pure a : Counting σ φ α) := by
  intro s hn hlow
  rw [exec_pure, hn]
  exact ⟨hlow, fun _ _ => h⟩

theorem throw (e : φ) : Counts lo n Q (throw e : Counting σ φ α) := by
  intro s _ hlow
  rw [exec_throw]
  exact ⟨hlow, fun _ h => by cases h⟩

/-- One computation after another. -/
theorem seq {P : ℤ → Prop} {f : α → Counting σ φ β} (hx : Counts lo n P x)
    (hf : ∀ a m, P m → Counts lo m Q (f a)) : Counts lo n Q (x >>= f) := by
  intro s hn hlow
  obtain ⟨hlow', hp⟩ := hx s hn hlow
  rw [exec_bind]
  cases h : (x.exec s).1 with
  | error e => exact ⟨hlow', fun _ ha => by simp at ha⟩
  | ok a => exact hf a _ (hp a h) (x.exec s).2 rfl hlow'

/-- The first computation leaves the counter at one value. -/
theorem bind {f : α → Counting σ φ β} (hx : Counts lo n (· = m) x)
    (hf : ∀ a, Counts lo m Q (f a)) : Counts lo n Q (x >>= f) := by
  apply hx.seq
  intro a k hk
  subst hk
  exact hf a

theorem mono {Q' : ℤ → Prop} (hx : Counts lo n Q x) (h : ∀ k, Q k → Q' k) : Counts lo n Q' x := by
  intro s hn hlow
  obtain ⟨hlow', hq⟩ := hx s hn hlow
  exact ⟨hlow', fun a ha => h _ (hq a ha)⟩

theorem move {d : ℤ} (hlo : lo ≤ n + d) (h : Q (n + d)) :
    Counts lo n Q (move d : Counting σ φ Unit) := by
  intro s hn hlow
  rw [exec_move, hn]
  exact ⟨le_min hlow hlo, fun _ _ => h⟩

end Counts

/-! ## Computations that leave the counter where it was -/

/-- The counter is back where it started, and never was lower. -/
def Level (x : Counting σ φ α) : Prop := ∀ ⦃lo n : ℤ⦄, lo ≤ n → Counts lo n (· = n) x

namespace Level

theorem pure (a : α) : Level (pure a : Counting σ φ α) := by
  intro lo n _
  exact .pure a rfl

theorem throw (e : φ) : Level (throw e : Counting σ φ α) := by
  intro lo n _
  exact .throw e

theorem change (f : σ → σ) : Level (change f : Counting σ φ Unit) := by
  intro lo n _ s hn hlow
  rw [exec_change]
  exact ⟨hlow, fun _ _ => hn⟩

theorem look : Level (look : Counting σ φ σ) := by
  intro lo n _ s hn hlow
  rw [exec_look]
  exact ⟨hlow, fun _ _ => hn⟩

theorem depth : Level (depth : Counting σ φ ℤ) := by
  intro lo n _ s hn hlow
  rw [exec_depth]
  exact ⟨hlow, fun _ _ => hn⟩

theorem ensure (c : Prop) [Decidable c] (e : φ) : Level (ensure c e : Counting σ φ Unit) := by
  unfold Counting.ensure
  split
  · exact .pure ()
  · exact .throw e

theorem bind {f : α → Counting σ φ β} (hx : Level x) (hf : ∀ a, Level (f a)) :
    Level (x >>= f) := by
  intro lo n h
  exact (hx h).bind fun a => hf a h

/-- A level computation before another one. -/
theorem counts_bind {f : α → Counting σ φ β} (hx : Level x) (h : lo ≤ n)
    (hf : ∀ a, Counts lo n Q (f a)) : Counts lo n Q (x >>= f) := (hx h).bind hf

end Level

/-! ## Sections -/

/-- The start of a section: the counter is one higher. -/
def Raises (x : Counting σ φ α) : Prop := ∀ ⦃lo n : ℤ⦄, lo ≤ n → Counts lo n (· = n + 1) x

/-- The end of a section that was started before: the counter is back below it. -/
def Drops (x : Counting σ φ α) : Prop := ∀ ⦃lo n : ℤ⦄, lo ≤ n → Counts lo (n + 1) (· = n) x

theorem raises_move : Raises (move 1 : Counting σ φ Unit) := by
  intro lo n h
  exact .move (by omega) rfl

theorem drops_move : Drops (move (-1) : Counting σ φ Unit) := by
  intro lo n h
  exact .move (by omega) (by omega)

theorem Raises.bind {f : α → Counting σ φ β} (hx : Raises x) (hf : ∀ a, Level (f a)) :
    Raises (x >>= f) := by
  intro lo n h
  exact (hx h).bind fun a => hf a (by omega)

/-- A section from its start to its end is level. -/
theorem Raises.level {f : α → Counting σ φ β} (hx : Raises x) (hf : ∀ a, Drops (f a)) :
    Level (x >>= f) := by
  intro lo n h
  exact (hx h).bind fun a => hf a h

/-- What is level inside a section, before its end. -/
theorem Level.drops {f : α → Counting σ φ β} (hx : Level x) (hf : ∀ a, Drops (f a)) :
    Drops (x >>= f) := by
  intro lo n h
  exact hx.counts_bind (by omega) fun a => hf a h

theorem Drops.bind {f : α → Counting σ φ β} (hx : Drops x) (hf : ∀ a, Level (f a)) :
    Drops (x >>= f) := by
  intro lo n h
  exact (hx h).bind fun a => hf a h

/-! ## One run -/

/-- The run started at `n`: the counter is `n` again if it returned, and never was below zero. -/
structure Balanced (n : ℤ) (r : Except φ α × Counter σ) : Prop where
  restored : ∀ a, r.1 = .ok a → r.2.count = n
  nonneg : 0 ≤ r.2.low

theorem Level.balanced (hx : Level x) (h : 0 ≤ n) (rest : σ) :
    Balanced n (x.exec (.at n rest)) := by
  have hrun := hx h (.at n rest) rfl h
  exact ⟨hrun.2, hrun.1⟩

/-- A run that returns with another count is not balanced. -/
theorem Counts.not_balanced (hx : Counts lo n Q x) (hlo : lo ≤ n) (hQ : ¬ Q n) {rest : σ} {a : α}
    (hret : (x.exec (.at n rest)).1 = .ok a) : ¬ Balanced n (x.exec (.at n rest)) := by
  intro hbal
  have hq := (hx (.at n rest) rfl hlo).2 a hret
  rw [hbal.restored a hret] at hq
  exact hQ hq

end Nesting
