import Mathlib.Data.List.Basic

/-!
# Lists without repetitions

What a list keeps when of the items with one key only the first stays (`distinctBy`). A loop that
adds an item only if none has its key computes it (`foldl_addBy`), and a list in which no key comes
twice is left as it is (`distinctBy_eq_self`).
-/

namespace Distinct

open List

universe u v

variable {α : Type u} {β : Type v} [DecidableEq β] (key : α → β)

def distinctBy : List α → List α
  | [] => []
  | x :: xs => x :: (distinctBy xs).filter fun y => key y ≠ key x

def addBy (xs : List α) (x : α) : List α := if key x ∈ xs.map key then xs else xs ++ [x]

theorem distinctBy_sublist (xs : List α) : (distinctBy key xs).Sublist xs := by
  induction xs with
  | nil => exact List.Sublist.slnil
  | cons x xs ih => exact (filter_sublist.trans ih).cons_cons x

theorem mem_map_distinctBy {k : β} {xs : List α} :
    k ∈ (distinctBy key xs).map key ↔ k ∈ xs.map key := by
  refine ⟨fun h => ((distinctBy_sublist key xs).map key).subset h, fun h => ?_⟩
  induction xs with
  | nil => exact h
  | cons x xs ih =>
    by_cases hk : k = key x
    · rw [hk]
      exact mem_cons_self
    · obtain h | h := mem_cons.mp h
      · exact absurd h hk
      · obtain ⟨y, hy, rfl⟩ := mem_map.mp (ih h)
        have hkept : y ∈ (distinctBy key xs).filter fun y => key y ≠ key x :=
          mem_filter.mpr ⟨hy, decide_eq_true hk⟩
        exact mem_cons_of_mem _ (mem_map_of_mem hkept)

theorem nodup_map_distinctBy (xs : List α) : ((distinctBy key xs).map key).Nodup := by
  induction xs with
  | nil => exact nodup_nil
  | cons x xs ih =>
    refine nodup_cons.mpr ⟨fun h => ?_, (filter_sublist.map key).nodup ih⟩
    obtain ⟨y, hy, hkey⟩ := mem_map.mp h
    exact of_decide_eq_true (mem_filter.mp hy).2 hkey

theorem distinctBy_eq_self {xs : List α} (h : (xs.map key).Nodup) : distinctBy key xs = xs := by
  induction xs with
  | nil => rfl
  | cons x xs ih =>
    obtain ⟨hx, hxs⟩ := nodup_cons.mp h
    have hkept : (xs.filter fun y => key y ≠ key x) = xs :=
      filter_eq_self.mpr fun y hy => decide_eq_true fun hkey =>
        hx (hkey ▸ mem_map_of_mem hy)
    rw [distinctBy, ih hxs, hkept]

/-- **The loop keeps first occurrences**, of the keys that it did not have. -/
theorem foldl_addBy_append (xs acc : List α) : xs.foldl (addBy key) acc =
      acc ++ (distinctBy key xs).filter fun y => key y ∉ acc.map key := by
  induction xs generalizing acc with
  | nil => simp [distinctBy]
  | cons x xs ih =>
    rw [foldl_cons, ih, addBy, distinctBy]
    split_ifs with hx
    · -- what has the key of `x` is left out on both sides
      rw [filter_cons_of_neg (by simpa using hx), filter_filter]
      congr 1
      refine filter_congr fun y _ => ?_
      by_cases hkey : key y = key x
      · simp only [hkey, hx, not_true_eq_false, decide_false, Bool.false_and]
      · simp only [hkey, ne_eq, not_false_eq_true, decide_true, Bool.and_true]
    · rw [filter_cons_of_pos (by simpa using hx), filter_filter, append_assoc, singleton_append]
      congr 2
      refine filter_congr fun y _ => ?_
      simp [not_or]

theorem foldl_addBy (xs : List α) : xs.foldl (addBy key) [] = distinctBy key xs := by
  rw [foldl_addBy_append, nil_append]
  exact filter_eq_self.mpr fun y _ => decide_eq_true not_mem_nil

theorem distinctBy_concat (xs : List α) (x : α) :
    distinctBy key (xs ++ [x]) = addBy key (distinctBy key xs) x := by
  rw [← foldl_addBy, ← foldl_addBy, foldl_append]
  rfl

theorem distinctBy_again (xs : List α) (x : α) :
    distinctBy key (distinctBy key (xs ++ [x]) ++ [x]) = distinctBy key (xs ++ [x]) := by
  have hmem : key x ∈ (distinctBy key (xs ++ [x])).map key := (mem_map_distinctBy key).mpr
      (mem_map_of_mem (mem_append_right xs mem_cons_self))
  rw [distinctBy_concat key (distinctBy key (xs ++ [x])),
    distinctBy_eq_self key (nodup_map_distinctBy key _), addBy, if_pos hmem]

theorem all_distinctBy (p : β → Bool) (xs : List α) :
    ((distinctBy key xs).all fun x => p (key x)) = xs.all fun x => p (key x) := by
  have hkeys : ∀ ys : List α, (ys.all fun x => p (key x)) = (ys.map key).all p := fun ys =>
    all_map.symm
  rw [hkeys, hkeys, Bool.eq_iff_iff, all_eq_true, all_eq_true]
  exact ⟨fun h k hk => h k ((mem_map_distinctBy key).mpr hk),
    fun h k hk => h k ((mem_map_distinctBy key).mp hk)⟩

end Distinct
