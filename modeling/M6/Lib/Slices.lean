import M6.Lib.Utf8

/-!
# Slicing a text by bytes

A text is measured and cut in bytes of UTF-8 (`byteLen`, `sliceTo`). A cut that is not between two
characters fails: `sliceTo_isSome` says where it does not. `floorBoundary` goes back to the last
place where it does not, which there always is (`truncate_spec`).
-/

namespace Text

/-- `str::len` -/
def byteLen (s : Str) : Nat := (s.map Char.utf8Size).sum

@[simp] theorem byteLen_nil : byteLen [] = 0 := rfl

@[simp] theorem byteLen_cons (c : Char) (s : Str) : byteLen (c :: s) = c.utf8Size + byteLen s :=
  rfl

/-- `str::is_char_boundary`: whether a place is between two characters, or at an end. -/
def isCharBoundary : Str → Nat → Bool
  | _, 0 => true
  | [], _ + 1 => false
  | c :: s, n + 1 => c.utf8Size ≤ n + 1 && isCharBoundary s (n + 1 - c.utf8Size)

/-- `&s[..n]` -/
def sliceTo : Str → Nat → Option Str
  | _, 0 => some []
  | [], _ + 1 => none
  | c :: s, n + 1 =>
    if c.utf8Size ≤ n + 1 then (sliceTo s (n + 1 - c.utf8Size)).map (c :: ·) else none

/-- `s.get(a..b)` -/
def slice (s : Str) (a b : Nat) : Option Str :=
  if a ≤ b then do
    let upTo ← sliceTo s b
    let before ← sliceTo s a
    some (upTo.drop before.length)
  else none

@[simp] theorem isCharBoundary_zero (s : Str) : isCharBoundary s 0 = true := by cases s <;> rfl

@[simp] theorem sliceTo_zero (s : Str) : sliceTo s 0 = some [] := by cases s <;> rfl

/-- **A text can be cut at its boundaries**, and nowhere else. -/
theorem sliceTo_isSome (s : Str) (n : Nat) : (sliceTo s n).isSome = isCharBoundary s n := by
  induction s generalizing n with
  | nil => cases n <;> rfl
  | cons c s ih =>
    cases n with
    | zero => rfl
    | succ n =>
      rw [sliceTo, isCharBoundary]
      by_cases h : c.utf8Size ≤ n + 1
      · rw [if_pos h, Option.isSome_map, ih, decide_eq_true h, Bool.true_and]
      · rw [if_neg h, decide_eq_false h, Bool.false_and]
        rfl

theorem sliceTo_eq_some {s p : Str} {n : Nat} (h : sliceTo s n = some p) :
    p <+: s ∧ byteLen p = n := by
  induction s generalizing n p with
  | nil =>
    cases n with
    | zero =>
      cases h
      exact ⟨List.nil_prefix, rfl⟩
    | succ n => cases h
  | cons c s ih =>
    cases n with
    | zero =>
      cases h
      exact ⟨List.nil_prefix, rfl⟩
    | succ n =>
      rw [sliceTo] at h
      split_ifs at h with hc
      obtain ⟨q, hq, rfl⟩ := Option.map_eq_some_iff.mp h
      obtain ⟨hpre, hlen⟩ := ih hq
      refine ⟨List.cons_prefix_cons.mpr ⟨rfl, hpre⟩, ?_⟩
      rw [byteLen_cons, hlen]
      omega

/-! ## The last boundary -/

/-- `while !s.is_char_boundary(n) { n -= 1 }`, and none if that underflows. -/
def floorBoundary (s : Str) : Nat → Option Nat
  | 0 => if isCharBoundary s 0 then some 0 else none
  | n + 1 => if isCharBoundary s (n + 1) then some (n + 1) else floorBoundary s n

/-- The longest beginning of at most so many bytes that ends on a character. -/
def truncate (s : Str) (max : Nat) : Option Str := do
  let n ← floorBoundary s (min max (byteLen s))
  sliceTo s n

theorem floorBoundary_spec (s : Str) (n : Nat) :
    ∃ m ≤ n, floorBoundary s n = some m ∧ isCharBoundary s m = true := by
  induction n with
  | zero => exact ⟨0, le_refl 0, by simp [floorBoundary], isCharBoundary_zero s⟩
  | succ n ih =>
    rw [floorBoundary]
    by_cases h : isCharBoundary s (n + 1) = true
    · exact ⟨n + 1, le_refl _, if_pos h, h⟩
    · obtain ⟨m, hm, hfloor, hboundary⟩ := ih
      exact ⟨m, Nat.le_succ_of_le hm, (if_neg h).trans hfloor, hboundary⟩

/-- **A text can be cut to any length**, to a beginning of at most that length. -/
theorem truncate_spec (s : Str) (max : Nat) :
    ∃ p, truncate s max = some p ∧ p <+: s ∧ byteLen p ≤ max := by
  obtain ⟨m, hm, hfloor, hboundary⟩ := floorBoundary_spec s (min max (byteLen s))
  rw [← sliceTo_isSome] at hboundary
  obtain ⟨p, hp⟩ := Option.isSome_iff_exists.mp hboundary
  obtain ⟨hpre, hlen⟩ := sliceTo_eq_some hp
  refine ⟨p, ?_, hpre, ?_⟩
  · rw [truncate, hfloor]
    exact hp
  · omega

end Text
