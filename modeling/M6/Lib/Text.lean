import Mathlib.Data.List.Infix
import Mathlib.Data.List.TakeWhile
import Mathlib.Data.Char
import Mathlib.Algebra.Ring.Nat

/-!
# Text as character lists

A string is the list of its characters. Three groups of operations, each with
the lemmas that later proofs use in place of its definition:

* **cutting** — `cutAt` (everything before and after the first separator) and
  Mathlib's `List.splitOn`;
* **replacing** — `replace`, the left-to-right replacement of every
  non-overlapping occurrence of a non-empty pattern;
* **normalising** — white space trimming and ASCII case folding.

Nothing here is about a particular program.
-/

abbrev Str : Type := List Char

instance Str.lawfulBEq : LawfulBEq Str := inferInstance

namespace Text

open List

/-! ## Cutting -/

/-- The text before the first separator and, when there is one, the text after
it. -/
def cutAt (sep : Char) : Str → Str × Option Str
  | [] => ([], none)
  | c :: s =>
    if c = sep then ([], some s) else
      let r := cutAt sep s
      (c :: r.1, r.2)

variable {s : Str} {sep : Char}

theorem cutAt_append (t : Str) (h : sep ∉ s) : cutAt sep (s ++ sep :: t) = (s, some t) := by
  induction s with
  | nil => simp [cutAt]
  | cons c s ih =>
    have hc : c ≠ sep := fun hc => h (hc ▸ mem_cons_self ..)
    have hs : sep ∉ s := fun hs => h (mem_cons_of_mem _ hs)
    simp only [cons_append, cutAt, if_neg hc, ih hs]

theorem cutAt_of_absent (h : sep ∉ s) : cutAt sep s = (s, none) := by
  induction s with
  | nil => rfl
  | cons c s ih =>
    obtain ⟨hc, hs⟩ := not_or.mp (mt mem_cons.mpr h)
    rw [cutAt, if_neg (Ne.symm hc), ih hs]

theorem not_mem_cutAt (sep : Char) (s : Str) : sep ∉ (cutAt sep s).1 := by
  induction s with
  | nil => exact not_mem_nil
  | cons c s ih =>
    rw [cutAt]
    split_ifs with hc
    · exact not_mem_nil
    · exact fun hmem => (mem_cons.mp hmem).elim (fun h => hc h.symm) ih

theorem cutAt_cases (sep : Char) (s : Str) :
    (sep ∉ s ∧ cutAt sep s = (s, none)) ∨
      ∃ t, s = (cutAt sep s).1 ++ sep :: t ∧ cutAt sep s = ((cutAt sep s).1, some t) := by
  by_cases h : sep ∈ s
  · obtain ⟨a, t, rfl, ha⟩ := eq_append_cons_of_mem h
    rw [cutAt_append t ha]
    exact Or.inr ⟨t, rfl, rfl⟩
  · exact Or.inl ⟨h, cutAt_of_absent h⟩

theorem infix_of_mem_splitOn {s t : Str} (h : t ∈ s.splitOn sep) : t <:+: s := by
  have hjoin : ∀ l : List Str, t ∈ l → t <:+: [sep].intercalate l := by
    intro l
    induction l with
    | nil => intro hm; cases hm
    | cons a l ih =>
      intro hm
      rcases l with _ | ⟨b, l⟩
      · rw [mem_singleton.mp hm]
        exact ⟨[], [], by simp [intercalate]⟩
      · have hcons : [sep].intercalate (a :: b :: l) = a ++ [sep] ++ [sep].intercalate
          (b :: l) := by
          simp [intercalate]
        rw [hcons]
        rcases mem_cons.mp hm with rfl | hm
        · rw [append_assoc]
          exact (prefix_append _ _).isInfix
        · exact (ih hm).trans (suffix_append _ _).isInfix
  have := hjoin _ h
  rwa [intercalate_splitOn] at this

theorem not_mem_of_mem_splitOn {s t : Str} (h : t ∈ s.splitOn sep) : sep ∉ t := by
  induction s generalizing t with
  | nil =>
    rw [splitOn_nil, mem_singleton] at h
    rw [h]
    exact not_mem_nil
  | cons c s ih =>
    rw [splitOn_cons_eq_if_modifyHead] at h
    split_ifs at h with hc
    · obtain rfl | h := mem_cons.mp h
      · exact not_mem_nil
      · exact ih h
    · cases hpieces : s.splitOn sep with
      | nil => exact absurd hpieces (splitOn_ne_nil _ _)
      | cons u us =>
        rw [hpieces] at h ih
        obtain rfl | h := mem_cons.mp h
        · have hne : sep ≠ c := fun heq => hc (by rw [heq]; exact beq_self_eq_true c)
          exact not_mem_cons_of_ne_of_not_mem hne (ih mem_cons_self)
        · exact ih (mem_cons_of_mem u h)

theorem getLastD_splitOn (h : (s.splitOn sep).length ≤ 1) : (s.splitOn sep).getLastD [] = s := by
  have hjoin : [sep].intercalate (s.splitOn sep) = s := intercalate_splitOn ..
  match s.splitOn sep, h, hjoin with
  | [], _, hjoin => exact hjoin
  | [t], _, hjoin => simpa [intercalate] using hjoin

/-- The text after a leading `p`, when it starts with `p`. -/
def stripPrefix (p s : Str) : Option Str := if p <+: s then some (s.drop p.length) else none

/-- Drop every leading copy of `p`, as long as there is one. The fuel is the
length of the text: each copy of a non-empty `p` uses up at least one
character. -/
def trimStartMatches (p s : Str) : Str := go s.length s
where
  /-- One leading copy at a time. -/
  go : Nat → Str → Str
    | 0, s => s
    | n + 1, s => if p ≠ [] ∧ p <+: s then go n (s.drop p.length) else s

theorem trimStartMatches_of_absent {p s : Str} (h : ¬ p <+: s) : trimStartMatches p s = s := by
  rw [trimStartMatches]
  cases s with
  | nil => rfl
  | cons c s =>
    simp only [length_cons, trimStartMatches.go]
    rw [if_neg (fun hp => h hp.2)]

theorem trimStartMatches_append {p s : Str} (hp : p ≠ []) (h : ¬ p <+: s) :
    trimStartMatches p (p ++ s) = s := by
  rw [trimStartMatches]
  obtain ⟨c, p', rfl⟩ := exists_cons_of_ne_nil hp
  simp only [cons_append, length_cons, trimStartMatches.go]
  rw [if_pos ⟨cons_ne_nil _ _, by rw [← cons_append]; exact prefix_append _ _⟩]
  have hdrop : (c :: (p' ++ s)).drop (p'.length + 1) = s := by simp
  rw [hdrop]
  cases hlen : (p' ++ s).length with
  | zero => rfl
  | succ n =>
    simp only [trimStartMatches.go]
    rw [if_neg (fun hp => h hp.2)]

/-! ## Replacing -/

/-- `replaceFrom pat rep k s`: skip `k` characters (the rest of a match), then
replace every non-overlapping occurrence of `pat` from the left. -/
def replaceFrom (pat rep : Str) : Nat → Str → Str
  | _, [] => []
  | k + 1, _ :: s => replaceFrom pat rep k s
  | 0, c :: s =>
    if pat <+: c :: s then rep ++ replaceFrom pat rep (pat.length - 1) s
    else c :: replaceFrom pat rep 0 s

/-- Replace every occurrence of the non-empty `pat` in `s` by `rep`. -/
def replace (s pat rep : Str) : Str := replaceFrom pat rep 0 s

theorem replaceFrom_eq_drop (pat rep : Str) (k : Nat) (s : Str) :
    replaceFrom pat rep k s = replace (s.drop k) pat rep := by
  induction s generalizing k with
  | nil => cases k <;> rfl
  | cons c s ih =>
    cases k with
    | zero => rfl
    | succ k => simpa [replaceFrom] using ih k

variable {c : Char}

theorem replace_cons_of_no_match {pat : Str} (rep : Str)
    (h : ¬ pat <+: c :: s) : replace (c :: s) pat rep = c :: replace s pat rep := by
  simp only [replace, replaceFrom, if_neg h]

theorem replace_append {pat : Str} (rep s : Str) (hp : pat ≠ []) :
    replace (pat ++ s) pat rep = rep ++ replace s pat rep := by
  obtain ⟨c, p, rfl⟩ := exists_cons_of_ne_nil hp
  have hpre : c :: p <+: c :: (p ++ s) := ⟨s, rfl⟩
  simp only [replace, cons_append, replaceFrom, if_pos hpre]
  rw [replaceFrom_eq_drop]
  simp [replace]

theorem replace_of_absent {s pat : Str} (rep : Str) (h : ¬ pat <:+: s) : replace s pat rep = s := by
  induction s with
  | nil => rfl
  | cons c s ih =>
    have hpre : ¬ pat <+: c :: s := fun hp => h hp.isInfix
    have hs : ¬ pat <:+: s := fun hs => h (hs.trans (suffix_cons c s).isInfix)
    rw [replace_cons_of_no_match rep hpre, ih hs]

theorem infix_replace {s pat : Str} (rep : Str) (hp : pat ≠ []) (h : pat <:+: s) :
    rep <:+: replace s pat rep := by
  induction s with
  | nil => exact absurd (infix_nil.mp h) hp
  | cons c s ih =>
    by_cases hpre : pat <+: c :: s
    · obtain ⟨t, ht⟩ := hpre
      rw [← ht, replace_append rep t hp]
      exact (prefix_append _ _).isInfix
    · rw [replace_cons_of_no_match rep hpre]
      rcases infix_cons_iff.mp h with h | h
      · exact absurd h hpre
      · exact (ih h).trans (suffix_cons c _).isInfix

/-- A block `v` that a pattern `a ⋯ b` can neither start in, end in, nor span
survives the replacement: it is untouched wherever it stands. -/
theorem infix_replace_of_block {a b : Char} {k v s : Str} (rep : Str)
    (ha : a ∉ v) (hb : b ∉ v) (hlen : k.length < v.length) (h : v <:+: s) :
    v <:+: replace s (a :: k ++ [b]) rep := by
  obtain ⟨x, y, rfl⟩ := h
  -- induction on the length of the text before the block
  induction hx : x.length using Nat.strong_induction_on generalizing x with
  | _ n ih =>
    cases x with
    | nil =>
      -- inside the block no match starts: every character is copied
      have hcopy : ∀ w : Str, a ∉ w → ∀ t : Str,
          replace (w ++ t) (a :: k ++ [b]) rep = w ++ replace t (a :: k ++ [b]) rep := by
        intro w
        induction w with
        | nil => intro _ t; rfl
        | cons c w ihw =>
          intro hw t
          have hc : ¬ a :: k ++ [b] <+: c :: (w ++ t) := by
            intro hp
            have : a = c := by simpa using (cons_prefix_cons.mp (by simpa using hp)).1
            exact hw (this ▸ mem_cons_self ..)
          rw [cons_append, replace_cons_of_no_match rep hc,
            ihw (fun hm => hw (mem_cons_of_mem _ hm)) t]
          rfl
      rw [nil_append, hcopy v ha y]
      exact (prefix_append _ _).isInfix
    | cons c x =>
      by_cases hpre : a :: k ++ [b] <+: c :: x ++ v ++ y
      · -- a match: it ends before the block, since its last character is `b`
        obtain ⟨t, ht⟩ := hpre
        have hshort : (a :: k ++ [b]).length ≤ (c :: x).length := by
          by_contra hlong
          have hlast : (c :: x ++ v ++ y)[k.length + 1]? = some b := by
            rw [← ht]
            simp
          rw [append_assoc, getElem?_append_right (by simp at hlong ⊢; omega),
            getElem?_append_left (by simp at hlong ⊢; omega)] at hlast
          exact hb (mem_of_getElem? hlast)
        have hpx : a :: k ++ [b] <+: c :: x := by
          have h1 : a :: k ++ [b] <+: c :: x ++ (v ++ y) := ⟨t, by rw [ht, append_assoc]⟩
          exact prefix_of_prefix_length_le h1 (prefix_append _ _) hshort
        obtain ⟨x', hx'⟩ := hpx
        rw [← hx', append_assoc, append_assoc, replace_append rep _ (by simp)]
        have hlt : x'.length < n := by
          rw [← hx, ← hx']
          simp only [length_append, length_cons]
          omega
        have := ih x'.length hlt x' rfl
        rw [append_assoc] at this
        exact this.trans (suffix_append _ _).isInfix
      · have hstep : replace (c :: x ++ v ++ y) (a :: k ++ [b]) rep =
            c :: replace (x ++ v ++ y) (a :: k ++ [b]) rep :=
          replace_cons_of_no_match rep hpre
        rw [hstep]
        exact (ih x.length (by rw [← hx]; simp) x rfl).trans (suffix_cons c _).isInfix

/-! ## Normalising -/

theorem isAlphanum_lt (h : c.isAlphanum = true) : c.toNat < 128 := by
  have hcases : ((c.isUpper || c.isLower) || c.isDigit) = true := h
  have hbound {last : UInt32} (hle : c.val ≤ last) (hlast : last.toNat < 128) : c.toNat < 128 :=
    lt_of_le_of_lt (UInt32.le_iff_toNat_le.mp hle) hlast
  rw [Bool.or_eq_true, Bool.or_eq_true] at hcases
  rcases hcases with (h | h) | h
  · exact hbound (of_decide_eq_true h).2 (by decide)
  all_goals exact hbound (of_decide_eq_true (Bool.and_eq_true_iff.mp h).2) (by decide)

/-- The characters with the Unicode property `White_Space`. -/
def isWhitespace (c : Char) : Bool :=
  let n := c.toNat
  (9 ≤ n && n ≤ 13) || n == 0x20 || n == 0x85 || n == 0xa0 || n == 0x1680 ||
    (0x2000 ≤ n && n ≤ 0x200a) || n == 0x2028 || n == 0x2029 || n == 0x202f ||
    n == 0x205f || n == 0x3000

/-- The text without leading and trailing white space. -/
def trim (s : Str) : Str := ((s.dropWhile isWhitespace).reverse.dropWhile isWhitespace).reverse

theorem dropWhile_isWhitespace (h : ∀ c ∈ s, isWhitespace c = false) :
    s.dropWhile isWhitespace = s := by
  cases s with
  | nil => rfl
  | cons c s => rw [dropWhile_cons_of_neg (by rw [h c mem_cons_self]; exact Bool.false_ne_true)]

theorem trim_eq_self (h : ∀ c ∈ s, isWhitespace c = false) : trim s = s := by
  rw [trim, dropWhile_isWhitespace h,
    dropWhile_isWhitespace fun c hc => h c (mem_reverse.mp hc), reverse_reverse]

theorem trim_cons (hc : isWhitespace c = true) (s : Str) : trim (c :: s) = trim s := by
  rw [trim, trim, dropWhile_cons_of_pos hc]

theorem trim_concat (hc : isWhitespace c = true) (s : Str) : trim (s ++ [c]) = trim s := by
  rw [trim, trim, dropWhile_append]
  split_ifs with h
  · rw [dropWhile_cons_of_pos hc, isEmpty_iff.mp h]
    rfl
  · rw [reverse_append, reverse_singleton, singleton_append, dropWhile_cons_of_pos hc]

theorem exists_trim (s : Str) :
    ∃ a b, s = a ++ trim s ++ b ∧ (∀ c ∈ a, isWhitespace c = true) ∧
      ∀ c ∈ b, isWhitespace c = true := by
  let t := s.dropWhile isWhitespace
  refine ⟨s.takeWhile isWhitespace, (t.reverse.takeWhile isWhitespace).reverse, ?_, ?_, ?_⟩
  · have ht : trim s ++ (t.reverse.takeWhile isWhitespace).reverse = t := by
      rw [trim, ← reverse_append, takeWhile_append_dropWhile, reverse_reverse]
    rw [append_assoc, ht, takeWhile_append_dropWhile]
  · exact fun c hc => mem_takeWhile_imp hc
  · exact fun c hc => mem_takeWhile_imp (mem_reverse.mp hc)

theorem mem_of_mem_trim (h : c ∈ trim s) : c ∈ s := by
  rw [trim, mem_reverse] at h
  have h := (dropWhile_suffix _).subset h
  rw [mem_reverse] at h
  exact (dropWhile_suffix _).subset h

theorem mem_trim (hc : isWhitespace c = false) : c ∈ trim s ↔ c ∈ s := by
  refine ⟨mem_of_mem_trim, fun h => ?_⟩
  obtain ⟨a, b, hs, ha, hb⟩ := exists_trim s
  rw [hs, mem_append, mem_append] at h
  obtain (h | h) | h := h
  · exact absurd (ha c h) (by rw [hc]; exact Bool.false_ne_true)
  · exact h
  · exact absurd (hb c h) (by rw [hc]; exact Bool.false_ne_true)

theorem trim_append {a s b : Str} (ha : ∀ c ∈ a, isWhitespace c = true)
    (hb : ∀ c ∈ b, isWhitespace c = true) : trim (a ++ s ++ b) = trim s := by
  have hleft : trim (a ++ s) = trim s := by
    induction a with
    | nil => rfl
    | cons c a ih =>
      rw [cons_append, trim_cons (ha c mem_cons_self)]
      exact ih fun d hd => ha d (mem_cons_of_mem _ hd)
  rw [← hleft]
  induction b using reverseRecOn with
  | nil => rw [append_nil]
  | append_singleton b c ih =>
    rw [← append_assoc, trim_concat (hb c (mem_append_right _ mem_cons_self))]
    exact ih fun d hd => hb d (mem_append_left _ hd)

@[simp] theorem trim_trim (s : Str) : trim (trim s) = trim s := by
  obtain ⟨a, b, hs, ha, hb⟩ := exists_trim s
  conv_rhs => rw [hs, trim_append ha hb]

/-- The text before a separator is the same, white space aside, if white space is trimmed first. -/
theorem trim_cutAt_trim (hsep : isWhitespace sep = false) (s : Str) :
    trim (cutAt sep (trim s)).1 = trim (cutAt sep s).1 := by
  obtain ⟨a, b, hs, ha, hb⟩ := exists_trim s
  have habsent : ∀ {w : Str}, (∀ c ∈ w, isWhitespace c = true) → sep ∉ w := by
    intro w hw hmem
    rw [hw sep hmem] at hsep
    exact nomatch hsep
  obtain ⟨hnot, hcut⟩ | ⟨t, ht, hcut⟩ := cutAt_cases sep (trim s)
  · have hs' : sep ∉ s := fun hmem => hnot ((mem_trim hsep).mpr hmem)
    rw [hcut, cutAt_of_absent hs', trim_trim]
  · have hname : sep ∉ a ++ (cutAt sep (trim s)).1 := by
      rw [mem_append, not_or]
      exact ⟨habsent ha, not_mem_cutAt sep _⟩
    have hsplit : s = (a ++ (cutAt sep (trim s)).1) ++ sep :: (t ++ b) := by
      conv_lhs => rw [hs, ht]
      simp
    conv_rhs => rw [hsplit, cutAt_append _ hname]
    have htrim := trim_append ha (fun c (hc : c ∈ []) => absurd hc not_mem_nil)
      (s := (cutAt sep (trim s)).1)
    rw [append_nil] at htrim
    exact htrim.symm

def toAsciiLowercase (s : Str) : Str := s.map Char.toLower

def eqIgnoreAsciiCase (s t : Str) : Bool := toAsciiLowercase s == toAsciiLowercase t

end Text
