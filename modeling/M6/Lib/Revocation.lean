import Mathlib.Data.List.Infix

/-!
# Revocation in a log

A log of what happened, entry by entry. An entry may revoke an earlier one, and an entry may use
an earlier one. A log is respected if nothing in it uses what was revoked by then.

Logs grow at their end, so the results here say what one more entry does: `revoked_concat` and
`respected_concat`.
-/

namespace Revocation

variable {α : Type*} {revokes uses : α → α → Prop}

def Revoked (revokes : α → α → Prop) (log : List α) (d : α) : Prop :=
  ∃ x, [d, x].Sublist log ∧ revokes d x

def Respected (revokes uses : α → α → Prop) (log : List α) : Prop :=
  ∀ d x y, [d, x, y].Sublist log → revokes d x → ¬ uses d y

theorem concat_sublist_concat {l log : List α} {x y : α} :
    (l ++ [x]).Sublist (log ++ [y]) ↔ (l ++ [x]).Sublist log ∨ l.Sublist log ∧ x = y := by
  have hlog : (x :: l.reverse).Sublist log.reverse ↔ (l ++ [x]).Sublist log := by
    rw [← List.reverse_concat, List.reverse_sublist]
  rw [← List.reverse_sublist, List.reverse_concat, List.reverse_concat, List.sublist_cons_iff, hlog]
  constructor
  · rintro (h | ⟨r, hr, h⟩)
    · exact .inl h
    · obtain ⟨rfl, rfl⟩ := List.cons.inj hr
      exact .inr ⟨List.reverse_sublist.mp h, rfl⟩
  · rintro (h | ⟨h, rfl⟩)
    · exact .inl h
    · exact .inr ⟨_, rfl, List.reverse_sublist.mpr h⟩

theorem revoked_concat {log : List α} {d y : α} :
    Revoked revokes (log ++ [y]) d ↔ Revoked revokes log d ∨ d ∈ log ∧ revokes d y := by
  constructor
  · rintro ⟨x, hsub, hx⟩
    obtain h | ⟨h, rfl⟩ := (concat_sublist_concat (l := [d])).mp hsub
    · exact .inl ⟨x, h, hx⟩
    · exact .inr ⟨List.singleton_sublist.mp h, hx⟩
  · rintro (⟨x, hsub, hx⟩ | ⟨hmem, hy⟩)
    · exact ⟨x, hsub.trans (List.sublist_append_left log [y]), hx⟩
    · exact ⟨y, (concat_sublist_concat (l := [d])).mpr
        (.inr ⟨List.singleton_sublist.mpr hmem, rfl⟩), hy⟩

theorem respected_concat {log : List α} {y : α} :
    Respected revokes uses (log ++ [y]) ↔
      Respected revokes uses log ∧ ∀ d, uses d y → ¬ Revoked revokes log d := by
  constructor
  · intro h
    refine ⟨fun d x z hsub => h d x z (hsub.trans (List.sublist_append_left log [y])), ?_⟩
    rintro d huses ⟨x, hsub, hx⟩
    exact h d x y ((concat_sublist_concat (l := [d, x])).mpr (.inr ⟨hsub, rfl⟩)) hx huses
  · rintro ⟨hlog, hnew⟩ d x z hsub hx huses
    obtain h | ⟨h, rfl⟩ := (concat_sublist_concat (l := [d, x])).mp hsub
    · exact hlog d x z h hx huses
    · exact hnew d huses ⟨x, h, hx⟩

theorem Respected.of_prefix {log log' : List α} (h : Respected revokes uses log')
    (hlog : log.IsPrefix log') : Respected revokes uses log :=
  fun d x y hsub => h d x y (hsub.trans hlog.sublist)

theorem respected_nil : Respected revokes uses [] := by
  intro d x y hsub
  cases hsub

theorem not_revoked_of_notMem {log : List α} {d : α} (h : d ∉ log) : ¬ Revoked revokes log d := by
  rintro ⟨x, hsub, -⟩
  exact h (hsub.subset List.mem_cons_self)

end Revocation
