import Mathlib.Data.List.Basic

/-!
# What holds of each entry of a history

A history is a list that grows at its end. A property of an entry may speak of what was there before
it: `Each P l` says that every entry of `l` has `P`, with the entries before it. What is added keeps
it if each of the new entries has `P` with all that is before it (`each_append`).
-/

namespace History

open List

variable {α : Type} {P Q : List α → α → Prop} {l l' : List α} {a : α}

/-- Every entry has `P`, with those before it. -/
def Each (P : List α → α → Prop) (l : List α) : Prop := ∀ l₁ a l₂, l = l₁ ++ a :: l₂ → P l₁ a

theorem each_nil : Each P [] := fun l₁ a l₂ h => by
  have hlen := congrArg List.length h
  rw [length_append, length_cons, length_nil] at hlen
  omega

theorem split_append {l₁ l₂ : List α} (h : l ++ l' = l₁ ++ a :: l₂) :
    (∃ t, l = l₁ ++ a :: t) ∨ ∃ t, l₁ = l ++ t ∧ l' = t ++ a :: l₂ := by
  rcases append_eq_append_iff.mp h with ⟨t, ht, ht'⟩ | ⟨t, ht, ht'⟩
  · exact Or.inr ⟨t, ht, ht'⟩
  · cases t with
    | nil =>
      rw [append_nil] at ht
      exact Or.inr ⟨[], by rw [ht, append_nil], ht'.symm⟩
    | cons b t =>
      obtain ⟨rfl, -⟩ := List.cons.inj ht'
      exact Or.inl ⟨t, ht⟩

/-- **What is added** keeps the property if each new entry has it, with all that is before. -/
theorem each_append (h : Each P l) (h' : Each (fun t a => P (l ++ t) a) l') : Each P (l ++ l') := by
  intro l₁ a l₂ heq
  rcases split_append heq with ⟨t, ht⟩ | ⟨t, rfl, ht⟩
  · exact h l₁ a t ht
  · exact h' t a l₂ ht

theorem each_concat (h : Each P l) (ha : P l a) : Each P (l ++ [a]) := by
  refine each_append h fun l₁ b l₂ heq => ?_
  cases l₁ with
  | nil =>
    obtain ⟨rfl, -⟩ := List.cons.inj heq
    rw [append_nil]
    exact ha
  | cons c l₁ =>
    have hlen := congrArg List.length heq
    simp only [length_append, length_cons, length_nil] at hlen
    omega

theorem each_append_of_forall (h : Each P l) (h' : ∀ a ∈ l', ∀ t, P t a) : Each P (l ++ l') :=
  each_append h fun _ a _ heq => h' a (heq ▸ mem_append_right _ mem_cons_self) _

theorem each_filter {p : α → Bool} (h : Each P l) (hPQ : ∀ t a, p a → P t a → Q (t.filter p) a) :
    Each Q (l.filter p) := by
  intro l₁ a l₂ heq
  obtain ⟨k₁, k₂, rfl, rfl, hk₂⟩ := filter_eq_append_iff.mp heq
  obtain ⟨m₁, m₂, rfl, hm₁, ha, rfl⟩ := filter_eq_cons_iff.mp hk₂
  have hfilter : (k₁ ++ m₁).filter p = k₁.filter p := by
    rw [filter_append, filter_eq_nil_iff.mpr hm₁, append_nil]
  rw [← hfilter]
  exact hPQ _ _ ha (h (k₁ ++ m₁) a m₂ (append_assoc ..).symm)

end History
