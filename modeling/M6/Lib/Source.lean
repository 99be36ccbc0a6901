import Mathlib.Data.List.Basic

/-!
# Sources

What a reader reads from: pieces, as they arrive, and then an end or a failure. A read gives at
most so much of the next piece. What reads on, until it has enough or until the end, does not
depend on how the pieces are cut.
-/

universe u

/-- **A source**: what arrives, and whether it ends then or fails. -/
structure Source (α : Type u) where
  pieces : List (List α)
  arrives : ∀ p ∈ pieces, p ≠ []
  closes : Bool

namespace Source

open List Option

variable {α : Type u}

def items (s : Source α) : List α := s.pieces.flatten

/-- What comes behind the first `n` items. -/
def dropPieces : Nat → List (List α) → List (List α)
  | _, [] => []
  | n, p :: ps => if p.length ≤ n then dropPieces (n - p.length) ps else p.drop n :: ps

theorem flatten_dropPieces (n : Nat) (ps : List (List α)) :
    (dropPieces n ps).flatten = ps.flatten.drop n := by
  induction ps generalizing n with
  | nil => simp [dropPieces]
  | cons p ps ih =>
    rw [dropPieces, flatten_cons, drop_append]
    split_ifs with hlen
    · rw [ih, drop_eq_nil_of_le hlen, nil_append]
    · rw [flatten_cons, Nat.sub_eq_zero_of_le (by omega), drop_zero]

theorem dropPieces_arrives (n : Nat) {ps : List (List α)} (h : ∀ p ∈ ps, p ≠ []) :
    ∀ p ∈ dropPieces n ps, p ≠ [] := by
  induction ps generalizing n with
  | nil => exact h
  | cons p ps ih =>
    obtain ⟨-, hps⟩ := forall_mem_cons.mp h
    rw [dropPieces]
    split_ifs with hlen
    · exact ih (n - p.length) hps
    · refine forall_mem_cons.mpr ⟨?_, hps⟩
      intro hnil
      have := drop_eq_nil_iff.mp hnil
      omega

def skip (s : Source α) (n : Nat) : Source α :=
  ⟨dropPieces n s.pieces, dropPieces_arrives n s.arrives, s.closes⟩

@[simp] theorem items_skip (s : Source α) (n : Nat) : (s.skip n).items = s.items.drop n :=
  flatten_dropPieces n s.pieces

def read (room : Nat) (s : Source α) : Option (List α × Source α) :=
  match s.pieces with
  | [] => if s.closes then some ([], s) else none
  | p :: _ => some (p.take room, s.skip (min room p.length))

def readExact (n : Nat) (s : Source α) : Option (List α × Source α) :=
  if n ≤ s.items.length then some (s.items.take n, s.skip n) else none

def readToEnd (limit : Nat) (s : Source α) : Option (List α × Source α) :=
  if limit ≤ s.items.length then some (s.items.take limit, s.skip limit)
  else if s.closes then some (s.items, s.skip s.items.length)
  else none

theorem read_of_cons {s : Source α} {p : List α} {ps : List (List α)} (h : s.pieces = p :: ps)
    (room : Nat) :
    s.read room = some (s.items.take (min room p.length), s.skip (min room p.length)) := by
  have hitems : s.items.take (min room p.length) = p.take room := by
    rw [items, h, flatten_cons, take_append_of_le_length (Nat.min_le_right _ _)]
    rcases Nat.le_total room p.length with hle | hle
    · rw [Nat.min_eq_left hle]
    · rw [Nat.min_eq_right hle, take_length, take_of_length_le hle]
  rw [hitems, read, h]

theorem items_of_read {room : Nat} {s rest : Source α} {piece : List α}
    (h : s.read room = some (piece, rest)) : piece ++ rest.items = s.items := by
  cases hpieces : s.pieces with
  | nil =>
    rw [read, hpieces] at h
    dsimp only at h
    split_ifs at h
    cases h
    exact nil_append _
  | cons p ps =>
    rw [read_of_cons hpieces] at h
    cases h
    rw [items_skip, take_append_drop]

theorem le_of_read {room : Nat} {s rest : Source α} {piece : List α}
    (h : s.read room = some (piece, rest)) : piece.length ≤ room ∧ rest.closes = s.closes := by
  rw [read] at h
  split at h
  · split_ifs at h
    cases h
    exact ⟨Nat.zero_le _, rfl⟩
  · cases h
    refine ⟨?_, rfl⟩
    rw [length_take]
    exact Nat.min_le_left _ _

theorem read_cases (s : Source α) {room : Nat} (hroom : 0 < room) :
    (s.items = [] ∧ s.read room = if s.closes then some ([], s) else none) ∨
      ∃ a piece rest, s.read room = some (a :: piece, rest) := by
  cases hpieces : s.pieces with
  | nil =>
    left
    rw [items, read, hpieces]
    exact ⟨rfl, rfl⟩
  | cons p ps =>
    right
    cases p with
    | nil => exact absurd rfl (s.arrives [] (hpieces ▸ mem_cons_self))
    | cons a p =>
      obtain ⟨k, rfl⟩ := Nat.exists_eq_succ_of_ne_zero (Nat.ne_of_gt hroom)
      rw [read, hpieces]
      exact ⟨a, p.take k, _, rfl⟩

theorem readExact_behind (first : List α) (n : Nat) (s : Source α) :
    (s.readExact (n - min first.length n)).map (fun got =>
        (first.take (min first.length n) ++ got.1,
          first.drop (min first.length n) ++ got.2.items)) =
      if n ≤ (first ++ s.items).length then
        some ((first ++ s.items).take n, (first ++ s.items).drop n)
      else none := by
  have hiff : n - min first.length n ≤ s.items.length ↔ n ≤ (first ++ s.items).length := by
    rw [length_append]
    omega
  by_cases hle : n ≤ (first ++ s.items).length
  · have hmin : n - min first.length n = n - first.length := by omega
    have htake : first.take (min first.length n) = first.take n := by
      rcases Nat.le_total first.length n with h | h
      · rw [Nat.min_eq_left h, take_length, take_of_length_le h]
      · rw [Nat.min_eq_right h]
    have hdrop : first.drop (min first.length n) = first.drop n := by
      rcases Nat.le_total first.length n with h | h
      · rw [Nat.min_eq_left h, drop_length, drop_of_length_le h]
      · rw [Nat.min_eq_right h]
    rw [if_pos hle, readExact, if_pos (hiff.mpr hle), map_some, items_skip, htake, hdrop,
      hmin, take_append, drop_append]
  · rw [if_neg hle, readExact, if_neg (mt hiff.mp hle), map_none]

theorem readToEnd_behind {first : List α} {limit : Nat} (h : first.length ≤ limit) (s : Source α) :
    (s.readToEnd (limit - first.length + 1)).map (fun got => (first ++ got.1, got.2.items)) =
      if limit + 1 ≤ (first ++ s.items).length then
        some ((first ++ s.items).take (limit + 1), (first ++ s.items).drop (limit + 1))
      else if s.closes then some (first ++ s.items, []) else none := by
  have hiff : limit - first.length + 1 ≤ s.items.length ↔
      limit + 1 ≤ (first ++ s.items).length := by
    rw [length_append]
    omega
  have hsub : limit + 1 - first.length = limit - first.length + 1 := by omega
  have htake : first.take (limit + 1) = first := take_of_length_le (Nat.le_succ_of_le h)
  have hdrop : first.drop (limit + 1) = [] := drop_of_length_le (Nat.le_succ_of_le h)
  rw [readToEnd]
  by_cases hle : limit + 1 ≤ (first ++ s.items).length
  · rw [if_pos hle, if_pos (hiff.mpr hle), map_some, items_skip, take_append,
      drop_append, hsub, htake, hdrop, nil_append]
  · rw [if_neg hle, if_neg (mt hiff.mp hle)]
    split_ifs
    · rw [map_some, items_skip, drop_length]
    · rfl

theorem items_of_readExact {n : Nat} {s rest : Source α} {more : List α}
    (h : s.readExact n = some (more, rest)) : more ++ rest.items = s.items := by
  rw [readExact] at h
  split_ifs at h
  cases h
  rw [items_skip, take_append_drop]

theorem items_of_readToEnd {limit : Nat} {s rest : Source α} {more : List α}
    (h : s.readToEnd limit = some (more, rest)) : more ++ rest.items = s.items := by
  rw [readToEnd] at h
  split_ifs at h
  · cases h
    rw [items_skip, take_append_drop]
  · cases h
    rw [items_skip, drop_length, append_nil]

end Source
