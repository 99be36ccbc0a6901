import Mathlib.Data.List.Basic

/-!
# Runs of a machine that may end

A machine takes events, one after the other. A step is partial: an event after which there is no
state ends the machine. `events.foldlM step s` is then the state after a run, unless the machine
ended in it.

Three things are said of a run: what holds of each state it passes (`Throughout`), what holds of
each step it takes, as a condition on the state before and the event (`EachStep`), and what holds of
each step after one of a kind (`EachStepAfter`). All are recursive along the run, and proved from an
invariant.
-/

namespace Runs

variable {σ ε : Type} (step : σ → ε → Option σ)

/-- Every state of a run has `P`, as far as the run goes. -/
def Throughout (P : σ → Prop) : σ → List ε → Prop
  | s, [] => P s
  | s, e :: events => P s ∧ ∀ s', step s e = some s' → Throughout P s' events

/-- Every step of a run has `C`, as far as the run goes. -/
def EachStep (C : σ → ε → Prop) : σ → List ε → Prop
  | _, [] => True
  | s, e :: events => C s e ∧ ∀ s', step s e = some s' → EachStep C s' events

/-- Every step of a run that comes after a step with `M` has `C`. `marked` says whether there was
one before the run. -/
def EachStepAfter (M C : σ → ε → Prop) (marked : Prop) : σ → List ε → Prop
  | _, [] => True
  | s, e :: events => (marked → C s e) ∧
    ∀ s', step s e = some s' → EachStepAfter M C (marked ∨ M s e) s' events

variable {step}

theorem EachStep.cons {C : σ → ε → Prop} {s s₁ : σ} {e : ε} {events : List ε} (first : C s e)
    (hs : step s e = some s₁) (rest : EachStep step C s₁ events) :
    EachStep step C s (e :: events) := by
  refine ⟨first, fun s' hs' => ?_⟩
  cases hs.symm.trans hs'
  exact rest

theorem EachStep.imp {C D : σ → ε → Prop} (hCD : ∀ s e, C s e → D s e) {events : List ε} {s : σ}
    (h : EachStep step C s events) : EachStep step D s events := by
  induction events generalizing s with
  | nil => trivial
  | cons e events ih => exact ⟨hCD s e h.1, fun s' hs' => ih (h.2 s' hs')⟩

theorem EachStepAfter.cons {M C : σ → ε → Prop} {marked : Prop} {s s₁ : σ} {e : ε} {events : List ε}
    (first : marked → C s e) (hs : step s e = some s₁)
    (rest : EachStepAfter step M C (marked ∨ M s e) s₁ events) :
    EachStepAfter step M C marked s (e :: events) := by
  refine ⟨first, fun s' hs' => ?_⟩
  cases hs.symm.trans hs'
  exact rest

/-- A state that only a step with `M` leads to shows that there was one. -/
theorem EachStepAfter.eachStep {I J : σ → Prop} {M C : σ → ε → Prop}
    (hI : ∀ s e s', I s → step s e = some s' → I s' ∧ (J s' → J s ∨ M s e)) {events : List ε}
    {marked : Prop} {s : σ} (h : EachStepAfter step M C marked s events) (hs : I s)
    (hJ : J s → marked) : EachStep step (fun s e => J s → C s e) s events := by
  induction events generalizing s marked with
  | nil => trivial
  | cons e events ih =>
    refine ⟨fun hj => h.1 (hJ hj), fun s' hs' => ?_⟩
    obtain ⟨hI', hJ'⟩ := hI s e s' hs hs'
    exact ih (h.2 s' hs') hI' fun hj => (hJ' hj).imp_left hJ

theorem throughout_of_inv {I P : σ → Prop} (hI : ∀ s e s', I s → step s e = some s' → I s')
    (hP : ∀ s, I s → P s) (events : List ε) {s : σ} (hs : I s) : Throughout step P s events := by
  induction events generalizing s with
  | nil => exact hP s hs
  | cons e events ih => exact ⟨hP s hs, fun s' h => ih (hI s e s' hs h)⟩

theorem throughout_of_steps {I P : σ → Prop} {C : σ → ε → Prop}
    (hI : ∀ s e s', I s → C s e → step s e = some s' → I s') (hP : ∀ s, I s → P s)
    (events : List ε) {s : σ} (hs : I s) (h : EachStep step C s events) :
    Throughout step P s events := by
  induction events generalizing s with
  | nil => exact hP s hs
  | cons e events ih => exact ⟨hP s hs, fun s' h' => ih (hI s e s' hs h.1 h') (h.2 s' h')⟩

theorem Throughout.result {P : σ → Prop} {events : List ε} {s s' : σ}
    (h : Throughout step P s events) (hs : events.foldlM step s = some s') : P s' := by
  induction events generalizing s with
  | nil =>
    cases hs
    exact h
  | cons e events ih =>
    rw [List.foldlM_cons] at hs
    obtain ⟨s₁, hs₁, hrest⟩ := Option.bind_eq_some_iff.mp hs
    exact ih (h.2 s₁ hs₁) hrest

theorem eachStep_congr {I : σ → Prop} {C D : σ → ε → Prop}
    (hI : ∀ s e s', I s → step s e = some s' → I s') (hCD : ∀ s e, I s → (C s e ↔ D s e))
    (events : List ε) {s : σ} (hs : I s) : EachStep step C s events ↔ EachStep step D s events := by
  induction events generalizing s with
  | nil => exact Iff.rfl
  | cons e events ih =>
    exact and_congr (hCD s e hs) (forall₂_congr fun s' h => ih (hI s e s' hs h))

theorem foldlM_ne_none_iff (events : List ε) (s : σ) :
    events.foldlM step s ≠ none ↔ EachStep step (fun s e => step s e ≠ none) s events := by
  induction events generalizing s with
  | nil => exact ⟨fun _ => trivial, fun _ => Option.some_ne_none s⟩
  | cons e events ih =>
    rw [List.foldlM_cons, EachStep]
    cases h : step s e with
    | none => exact ⟨fun hn => absurd rfl hn, fun hn => absurd rfl hn.1⟩
    | some s₁ =>
      refine (ih s₁).trans ⟨fun hn => ⟨Option.some_ne_none s₁, ?_⟩, fun hn => hn.2 s₁ rfl⟩
      rintro s' ⟨⟩
      exact hn

/-- **What holds throughout is what each step keeps**: `P` holds of every state of a run if and only
if each step has `C`, where steps with `C` keep an invariant that gives `P`, and any other step has
a result without `P`. -/
theorem throughout_iff_eachStep {I P : σ → Prop} {C : σ → ε → Prop} (hP : ∀ s, I s → P s)
    (keeps : ∀ s e s', I s → C s e → step s e = some s' → I s')
    (breaks : ∀ s e, I s → ¬ C s e → ∃ s', step s e = some s' ∧ ¬ P s')
    (events : List ε) {s : σ} (hs : I s) :
    Throughout step P s events ↔ EachStep step C s events := by
  have hfirst : ∀ (s : σ) (events : List ε), Throughout step P s events → P s := by
    intro s events h
    cases events with
    | nil => exact h
    | cons e events => exact h.1
  induction events generalizing s with
  | nil => exact ⟨fun _ => trivial, fun _ => hP s hs⟩
  | cons e events ih =>
    constructor
    · rintro ⟨_, h⟩
      have hC : C s e := by
        by_contra hC
        obtain ⟨s', hs', hbad⟩ := breaks s e hs hC
        exact hbad (hfirst s' events (h s' hs'))
      exact ⟨hC, fun s' hs' => (ih (keeps s e s' hs hC hs')).mp (h s' hs')⟩
    · rintro ⟨hC, h⟩
      exact ⟨hP s hs, fun s' hs' => (ih (keeps s e s' hs hC hs')).mpr (h s' hs')⟩

end Runs
