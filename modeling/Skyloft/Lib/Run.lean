import Mathlib.Tactic.TypeStar

/-!
# Runs of a step function

A system is a step function that takes a state and an event and either faults or
returns the next state; a run is a list of events.  `exec` folds the step
function along a run, `Along` says that a guard holds of every step taken, and
the rules below turn a one-step obligation into a statement about every run.

A state is reached by a run of its own, so a property of `exec` over all event
lists is a property of every reachable state.

## Main definitions

* `Run.exec` — the state a run ends in.
* `Run.Along` — a guard met by every step of a run.
* `Run.Throughout` — a property of every state of a run.
* `Run.exec_invariant`, `Run.exec_ok` — the invariant rule and its companion for
  faults.
-/

namespace Run

/-! ## Fallible computations -/

theorem bind_eq_ok {φ α β : Type} {x : Except φ α} {f : α → Except φ β} {r : β} :
    x >>= f = .ok r ↔ ∃ a, x = .ok a ∧ f a = .ok r := by
  cases x <;> simp [bind, Except.bind]

theorem map_eq_ok {φ α β : Type} {x : Except φ α} {f : α → β} {r : β} :
    x.map f = .ok r ↔ ∃ a, x = .ok a ∧ f a = r := by
  cases x <;> simp [Except.map]

/-! ## Runs -/

variable {σ ε φ : Type*} (step : σ → ε → Except φ σ)

/-- The state at the end of a run, or the first fault on the way. -/
def exec : σ → List ε → Except φ σ
  | s, [] => .ok s
  | s, e :: es =>
      match step s e with
      | .error f => .error f
      | .ok s' => exec s' es

/-- The state at the end of a run that does not fault. -/
def final (s : σ) (es : List ε) : σ := (exec step s es).toOption.getD s

/-- Every step of the run is taken from a state that meets the guard. -/
def Along (G : σ → ε → Prop) : σ → List ε → Prop
  | _, [] => True
  | s, e :: es => G s e ∧ ∀ s', step s e = .ok s' → Along G s' es

/-- Every state of the run has the property. -/
def Throughout (P : σ → Prop) : σ → List ε → Prop
  | s, [] => P s
  | s, e :: es => P s ∧ ∀ s', step s e = .ok s' → Throughout P s' es

variable {step} {I : σ → Prop} {G H : σ → ε → Prop}

@[simp] theorem exec_nil (s : σ) : exec step s [] = .ok s := rfl

theorem exec_final {s : σ} {es : List ε} (h : (exec step s es).isOk = true) :
    exec step s es = .ok (final step s es) := by
  cases he : exec step s es with
  | error f => simp [he, Except.isOk, Except.toBool] at h
  | ok t => simp [final, he, Except.toOption]

theorem step_final {s : σ} {e : ε} (h : (step s e).isOk = true) :
    step s e = .ok (final step s [e]) := by
  cases he : step s e with
  | error f => simp [he, Except.isOk, Except.toBool] at h
  | ok t => simp [final, exec, he, Except.toOption]

theorem exec_cons_ok {s : σ} {e : ε} {es : List ε} {t : σ} :
    exec step s (e :: es) = .ok t ↔ ∃ s', step s e = .ok s' ∧ exec step s' es = .ok t := by
  cases h : step s e <;> simp [exec, h]

theorem exec_append_ok {es : List ε} : ∀ {s t : σ} {fs : List ε},
    exec step s (es ++ fs) = .ok t ↔ ∃ u, exec step s es = .ok u ∧ exec step u fs = .ok t := by
  induction es with
  | nil => intro s t fs; simp
  | cons e es ih =>
      intro s t fs
      simp only [List.cons_append, exec_cons_ok, ih]
      constructor
      · rintro ⟨s', h, u, h₁, h₂⟩
        exact ⟨u, ⟨s', h, h₁⟩, h₂⟩
      · rintro ⟨u, ⟨s', h, h₁⟩, h₂⟩
        exact ⟨s', h, u, h₁, h₂⟩

/-- **The invariant rule.**  What holds at the start and is kept by every guarded
step holds at the end of every run whose steps all meet the guard. -/
theorem exec_invariant (hstep : ∀ s e s', I s → G s e → step s e = .ok s' → I s') :
    ∀ {es : List ε} {s t : σ}, I s → Along step G s es → exec step s es = .ok t → I t := by
  intro es
  induction es with
  | nil =>
      intro s t hs _ h
      cases h
      exact hs
  | cons e es ih =>
      intro s t hs hg h
      obtain ⟨s', h₁, h₂⟩ := exec_cons_ok.mp h
      exact ih (hstep s e s' hs hg.1 h₁) (hg.2 s' h₁) h₂

/-- **No fault along a run.**  If guarded steps from invariant states neither
fault nor leave the invariant, a guarded run ends in an invariant state. -/
theorem exec_ok (hstep : ∀ s e, I s → G s e → ∃ s', step s e = .ok s' ∧ I s') :
    ∀ {es : List ε} {s : σ}, I s → Along step G s es → ∃ t, exec step s es = .ok t ∧ I t := by
  intro es
  induction es with
  | nil => intro s hs _; exact ⟨s, rfl, hs⟩
  | cons e es ih =>
      intro s hs hg
      obtain ⟨s', h₁, hI⟩ := hstep s e hs hg.1
      obtain ⟨t, h₂, ht⟩ := ih hI (hg.2 s' h₁)
      exact ⟨t, exec_cons_ok.mpr ⟨s', h₁, h₂⟩, ht⟩

/-- Whether a guard holds along a run can be computed. -/
instance Along.decidable [∀ s e, Decidable (G s e)] :
    ∀ (s : σ) (es : List ε), Decidable (Along step G s es)
  | _, [] => .isTrue True.intro
  | s, e :: es =>
      match h : step s e with
      | .error f => decidable_of_iff (G s e) (by simp [Along, h])
      | .ok s' =>
          have := Along.decidable s' es
          decidable_of_iff (G s e ∧ Along step G s' es) (by simp [Along, h])

theorem Along.trivial : ∀ (es : List ε) (s : σ), Along step (fun _ _ => True) s es
  | [], _ => True.intro
  | _ :: es, _ => ⟨True.intro, fun s' _ => Along.trivial es s'⟩

theorem Along.and : ∀ {es : List ε} {s : σ}, Along step G s es → Along step H s es →
    Along step (fun s e => G s e ∧ H s e) s es
  | [], _, _, _ => True.intro
  | _ :: _, _, hg, hh => ⟨⟨hg.1, hh.1⟩, fun s' h => (hg.2 s' h).and (hh.2 s' h)⟩

/-- A guard that follows from another one along the states of an invariant. -/
theorem Along.imp (hstep : ∀ s e s', I s → G s e → step s e = .ok s' → I s')
    (himp : ∀ s e, I s → G s e → H s e) :
    ∀ {es : List ε} {s : σ}, I s → Along step G s es → Along step H s es := by
  intro es
  induction es with
  | nil => intro s _ _; trivial
  | cons e es ih =>
      intro s hs hg
      refine ⟨himp s e hs hg.1, fun s' h => ?_⟩
      exact ih (hstep s e s' hs hg.1 h) (hg.2 s' h)

/-- The guard of the step after a run. -/
theorem Along.last : ∀ {es : List ε} {s t : σ} {e : ε}, Along step G s (es ++ [e]) →
    exec step s es = .ok t → G t e
  | [], _, _, _, hg, h => by cases h; exact hg.1
  | _ :: _, _, _, _, hg, h => by
      obtain ⟨s', h₁, h₂⟩ := exec_cons_ok.mp h
      exact (hg.2 s' h₁).last h₂

theorem Throughout.imp {P Q : σ → Prop} (himp : ∀ s, P s → Q s) :
    ∀ {es : List ε} {s : σ}, Throughout step P s es → Throughout step Q s es := by
  intro es
  induction es with
  | nil => intro s h; exact himp s h
  | cons e es ih => intro s h; exact ⟨himp s h.1, fun s' hs => ih (h.2 s' hs)⟩

/-- What follows from an invariant holds in every state of a guarded run. -/
theorem throughout_of_along {P : σ → Prop}
    (hstep : ∀ s e s', I s → G s e → step s e = .ok s' → I s') (himp : ∀ s, I s → P s) :
    ∀ {es : List ε} {s : σ}, I s → Along step G s es → Throughout step P s es := by
  intro es
  induction es with
  | nil => intro s hs _; exact himp s hs
  | cons e es ih =>
      intro s hs hg
      exact ⟨himp s hs, fun s' h => ih (hstep s e s' hs hg.1 h) (hg.2 s' h)⟩

/-- **When a property lasts.**  If a step that meets `G` keeps a property and any other step
breaks it, then it lasts along a run exactly when all steps meet `G`. -/
theorem throughout_iff_along {P : σ → Prop}
    (hkeep : ∀ s e s', I s → P s → H s e → G s e → step s e = .ok s' → I s' ∧ P s')
    (hbreak : ∀ s e, I s → P s → H s e → ¬ G s e → ∃ s', step s e = .ok s' ∧ ¬ P s') :
    ∀ {es : List ε} {s : σ}, I s → P s → Along step H s es →
      (Throughout step P s es ↔ Along step G s es) := by
  intro es
  induction es with
  | nil => intro s _ hp _; exact iff_of_true hp trivial
  | cons e es ih =>
      intro s hs hp hh
      constructor
      · intro ht
        have hg : G s e := by
          apply Classical.byContradiction
          intro hg
          obtain ⟨s', h, hnot⟩ := hbreak s e hs hp hh.1 hg
          cases es with
          | nil => exact hnot (ht.2 s' h)
          | cons f es => exact hnot (ht.2 s' h).1
        refine ⟨hg, fun s' h => ?_⟩
        obtain ⟨hs', hp'⟩ := hkeep s e s' hs hp hh.1 hg h
        exact (ih hs' hp' (hh.2 s' h)).mp (ht.2 s' h)
      · intro hg
        refine ⟨hp, fun s' h => ?_⟩
        obtain ⟨hs', hp'⟩ := hkeep s e s' hs hp hh.1 hg.1 h
        exact (ih hs' hp' (hh.2 s' h)).mpr (hg.2 s' h)

end Run
