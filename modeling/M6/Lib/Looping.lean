import Mathlib.Logic.Relation

/-!
# Loops

A loop whose turns may fail: a turn gives the next state, or the answer, and every turn that gives
a next state leaves less to do. `run_unique` says that the equation of a loop has one solution, and
`run_eq_error_iff` that a loop fails where a state is reached whose turn does.
-/

namespace Looping

open Relation

variable {E S A : Type}

/-- **A loop**: what a turn does, and what it makes smaller. -/
structure Loop (E S A : Type) where
  turn : S → Except E (S ⊕ A)
  /-- how much is left to do -/
  left : S → Nat
  shrinks : ∀ {s s'}, turn s = .ok (.inl s') → left s' < left s

namespace Loop

def run (l : Loop E S A) (s : S) : Except E A :=
  match _h : l.turn s with
  | .error e => .error e
  | .ok (.inl s') => l.run s'
  | .ok (.inr a) => .ok a
termination_by l.left s
decreasing_by exact l.shrinks _h

/-- One turn, and then `f`. -/
def after (l : Loop E S A) (f : S → Except E A) (s : S) : Except E A :=
  match l.turn s with
  | .error e => .error e
  | .ok (.inl s') => f s'
  | .ok (.inr a) => .ok a

variable {l : Loop E S A} {s s' : S} {e : E} {a : A}

theorem run_of_error (h : l.turn s = .error e) : l.run s = .error e := by
  rw [run]
  split <;> simp_all

theorem run_of_next (h : l.turn s = .ok (.inl s')) : l.run s = l.run s' := by
  rw [run]
  split <;> simp_all

theorem run_of_answer (h : l.turn s = .ok (.inr a)) : l.run s = .ok a := by
  rw [run]
  split <;> simp_all

/-- **The equation of a loop has one solution**, where an invariant is kept. -/
theorem run_unique {P : S → Prop} {f : S → Except E A}
    (keeps : ∀ s s', P s → l.turn s = .ok (.inl s') → P s')
    (same : ∀ s, P s → f s = l.after f s) (s : S) (hs : P s) : l.run s = f s := by
  induction hn : l.left s using Nat.strongRecOn generalizing s with
  | _ n ih =>
    have hsame := same s hs
    rw [after] at hsame
    cases hturn : l.turn s with
    | error e => rw [run_of_error hturn, hsame, hturn]
    | ok r =>
      cases r with
      | inl s' =>
        rw [run_of_next hturn, hsame, hturn]
        exact ih _ (hn ▸ l.shrinks hturn) s' (keeps s s' hs hturn) rfl
      | inr a => rw [run_of_answer hturn, hsame, hturn]

/-! ## Reached states -/

def Next (l : Loop E S A) (s s' : S) : Prop := l.turn s = .ok (.inl s')

abbrev Reaches (l : Loop E S A) : S → S → Prop := ReflTransGen l.Next

theorem Reaches.run_eq (h : l.Reaches s s') : l.run s = l.run s' := by
  induction h with
  | refl => rfl
  | tail _ hnext ih => rw [ih, run_of_next hnext]

theorem Reaches.keeps {P : S → Prop} (hP : ∀ s s', P s → l.turn s = .ok (.inl s') → P s')
    (h : l.Reaches s s') (hs : P s) : P s' := by
  induction h with
  | refl => exact hs
  | tail _ hnext ih => exact hP _ _ ih hnext

theorem exists_last (l : Loop E S A) (s : S) :
    ∃ s', l.Reaches s s' ∧ ((∃ e, l.turn s' = .error e) ∨ ∃ a, l.turn s' = .ok (.inr a)) := by
  induction hn : l.left s using Nat.strongRecOn generalizing s with
  | _ n ih =>
    cases hturn : l.turn s with
    | error e => exact ⟨s, .refl, .inl ⟨e, hturn⟩⟩
    | ok r =>
      cases r with
      | inl t =>
        obtain ⟨s', hreach, hs'⟩ := ih _ (hn ▸ l.shrinks hturn) t rfl
        exact ⟨s', .head hturn hreach, hs'⟩
      | inr a => exact ⟨s, .refl, .inr ⟨a, hturn⟩⟩

/-- **A loop fails if a state is reached whose turn fails**, and only then. -/
theorem run_eq_error_iff : l.run s = .error e ↔ ∃ s', l.Reaches s s' ∧ l.turn s' = .error e := by
  constructor
  · intro h
    obtain ⟨s', hreach, ⟨e', hturn⟩ | ⟨a, hturn⟩⟩ := l.exists_last s
    · rw [hreach.run_eq, run_of_error hturn] at h
      exact ⟨s', hreach, hturn.trans (congrArg Except.error (Except.error.inj h))⟩
    · rw [hreach.run_eq, run_of_answer hturn] at h
      cases h
  · rintro ⟨s', hreach, hturn⟩
    rw [hreach.run_eq, run_of_error hturn]

theorem exists_of_run (h : l.run s = .ok a) : ∃ s', l.Reaches s s' ∧ l.turn s' = .ok (.inr a) := by
  obtain ⟨s', hreach, ⟨e, hturn⟩ | ⟨b, hturn⟩⟩ := l.exists_last s
  · rw [hreach.run_eq, run_of_error hturn] at h
    cases h
  · rw [hreach.run_eq, run_of_answer hturn] at h
    cases h
    exact ⟨s', hreach, hturn⟩

end Loop

end Looping
