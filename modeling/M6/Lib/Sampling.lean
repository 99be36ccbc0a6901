import Mathlib.Order.Basic
import Mathlib.Data.Nat.Init

/-!
# Looking at a growing thing now and then

Something grows, one unit at a time, to a size `N`. It is looked at now and then: at some sizes that
increase, where nobody says which, but that no two are more than `w` apart, and that the last is
`N`. A look decides the matter (`v` has a value there) or leaves it open, and what was not decided
by a look at `N` comes out as `fin`.

`Comes i x` says that `x` may come of it, from an open look at `i` on. What may come of it is
decided in the first window of `w` sizes in which a look can decide anything (`comes_iff`).
-/

universe u

namespace Sampling

variable {α : Type u} (v : Nat → Option α) (w N : Nat) (fin : α)

/-- What may come of it, when the look at a size left the matter open. -/
inductive Comes : Nat → α → Prop where
  | decided {i k : Nat} {x : α} (lt : i < k) (near : k ≤ i + w) (le : k ≤ N) (here : v k = some x) :
      Comes i x
  | onwards {i k : Nat} {x : α} (lt : i < k) (near : k ≤ i + w) (le : k ≤ N) (here : v k = none)
      (rest : Comes k x) : Comes i x
  | ended : Comes N fin

variable {v w N fin}

theorem Comes.earlier {i k : Nat} {x : α} (h : Comes v w N fin k x) (hw : 0 < w) (hik : i ≤ k)
    (hk : k ≤ N) (hopen : ∀ m, i < m → m ≤ k → v m = none) : Comes v w N fin i x := by
  induction hik using Nat.decreasingInduction with
  | self => exact h
  | of_succ m hmk ih =>
    exact .onwards (Nat.lt_succ_self m) (by omega) (by omega) (hopen _ (Nat.lt_succ_self m) hmk)
      (ih fun m' hm' => hopen m' (by omega))

theorem exists_comes (hw : 0 < w) {i : Nat} (hi : i ≤ N) : ∃ x, Comes v w N fin i x := by
  induction hi using Nat.decreasingInduction with
  | self => exact ⟨fin, .ended⟩
  | of_succ m hmN ih =>
    cases hv : v (m + 1) with
    | some x => exact ⟨x, .decided (Nat.lt_succ_self m) (by omega) hmN hv⟩
    | none =>
      obtain ⟨x, hx⟩ := ih
      exact ⟨x, .onwards (Nat.lt_succ_self m) (by omega) hmN hv hx⟩

/-- **The first window decides.** If nothing before `j` is decided, what may come of it is what a
look at one of the `w` sizes from `j` on decides, or what comes of it after one that does not. -/
theorem comes_iff (hw : 0 < w) {i j : Nat} {x : α} (hij : i < j) (hj : j ≤ N)
    (hopen : ∀ k, i < k → k < j → v k = none) :
    Comes v w N fin i x ↔ ∃ k, j ≤ k ∧ k < j + w ∧ k ≤ N ∧
      (v k = some x ∨ v k = none ∧ Comes v w N fin k x) := by
  constructor
  · intro h
    induction h with
    | decided lt near le here =>
      rename_i i k x
      obtain hlt | hge := Nat.lt_or_ge k j
      · exact nomatch here.symm.trans (hopen k lt hlt)
      · exact ⟨k, hge, by omega, le, .inl here⟩
    | onwards lt near le here rest ih =>
      rename_i i k x
      obtain hlt | hge := Nat.lt_or_ge k j
      · exact ih hlt fun m hkm hmj => hopen m (Nat.lt_trans lt hkm) hmj
      · exact ⟨k, hge, by omega, le, .inr ⟨here, rest⟩⟩
    | ended => omega
  · rintro ⟨k, hjk, hkw, hkN, hk⟩
    -- the look before is the last one that may be open and near enough
    have hnear : Comes v w N fin (max i (k - w)) x := by
      rcases hk with here | ⟨here, rest⟩
      · exact .decided (by omega) (by omega) hkN here
      · exact .onwards (by omega) (by omega) hkN here rest
    exact hnear.earlier hw (by omega) (by omega) fun m hm hmk => hopen m hm (by omega)

theorem comes_const {i : Nat} {x a : α} (h : Comes v w N fin i x)
    (hv : ∀ k y, i < k → k ≤ N → v k = some y → y = a) (hfin : v N = none ∨ i = N → fin = a) :
    x = a := by
  induction h with
  | decided lt near le here => exact hv _ _ lt le here
  | onwards lt near le here rest ih =>
    refine ih (fun k y hk => hv k y (Nat.lt_trans lt hk)) fun hN => hfin (.inl ?_)
    obtain hN | rfl := hN
    · exact hN
    · exact here
  | ended => exact hfin (.inr rfl)

end Sampling
