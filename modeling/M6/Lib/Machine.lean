import Mathlib.Algebra.Ring.Nat
import M6.Lib.Failing

/-!
# Checked operations

A sum that must stay below a limit, and a part of a buffer that must lie within it. Where that is
not so the operation ends the process. `add_yields` and `slice_ok` say when it does not, and a
computation made of such operations is followed with the rules for computations that fail in one
way.
-/

namespace Machine

open Failing

universe u

variable {α : Type u}

/-- What a `usize` stays below. -/
def usize : Nat := 2 ^ 64

/-- **A slice**: the language keeps its length below half of that. -/
structure Buffer (α : Type u) where
  items : List α
  length_lt : items.length < 2 ^ 63

/-- How an operation ends the process. -/
inductive Panic where
  | overflow
  | outOfRange
  deriving DecidableEq

def add (limit a b : Nat) : Except Panic Nat :=
  if a + b < limit then .ok (a + b) else .error .overflow

theorem add_yields (limit a b : Nat) :
    Yields Panic.overflow (add limit a b) (a + b < limit) (a + b) :=
  ⟨fun h => if_pos h, fun h => if_neg h⟩

theorem add_ok {limit a b : Nat} (h : a + b < limit) : add limit a b = .ok (a + b) := if_pos h

theorem add_overflow {limit a b : Nat} (h : limit ≤ a + b) : add limit a b = .error .overflow :=
  if_neg (Nat.not_lt.mpr h)

theorem add_eq_ok {limit a b c : Nat} (h : add limit a b = .ok c) : c = a + b := by
  rw [add] at h
  split_ifs at h
  exact (Except.ok.inj h).symm

/-- The part of a buffer between two positions. -/
def slice (buf : List α) (i j : Nat) : Except Panic (List α) :=
  if i ≤ j ∧ j ≤ buf.length then .ok ((buf.drop i).take (j - i)) else .error .outOfRange

theorem slice_ok {buf : List α} {i j : Nat} (hij : i ≤ j) (hj : j ≤ buf.length) :
    slice buf i j = .ok ((buf.drop i).take (j - i)) :=
  if_pos ⟨hij, hj⟩

theorem slice_eq_ok {buf part : List α} {i j : Nat} (h : slice buf i j = .ok part) :
    i ≤ j ∧ j ≤ buf.length ∧ part.length = j - i := by
  rw [slice] at h
  split_ifs at h with hbounds
  cases h
  exact ⟨hbounds.1, hbounds.2, List.length_take_of_le (by rw [List.length_drop]; omega)⟩

theorem slice_length {buf : List α} {i : Nat} (h : i ≤ buf.length) :
    slice buf i buf.length = .ok (buf.drop i) := by
  have hlen : (buf.drop i).length ≤ buf.length - i := Nat.le_of_eq List.length_drop
  rw [slice_ok h (Nat.le_refl _), List.take_of_length_le hlen]

end Machine
