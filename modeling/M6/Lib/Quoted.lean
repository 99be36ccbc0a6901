import M6.Lib.Text

/-!
# Lists with quoted strings

A list of text is cut at a separator, but not inside a quoted string, where a backslash takes the
character behind it along. `QuoteState` says where a position of a text is: outside quotes, inside,
or behind such a backslash.

A text is balanced if it ends outside. Behind a balanced text and a separator a list begins anew
(`pieces_append`), so that lists may be joined; and a piece always stands behind such a text
(`mem_pieces`), so that nothing inside quotes is one.

Nothing here is about a particular program.
-/

/-- Where a position of a text is. -/
inductive QuoteState where
  | outside
  | inside
  /-- behind a backslash inside quotes -/
  | escaped
  deriving DecidableEq

namespace Quoted

open List

def next : QuoteState → Char → QuoteState
  | .outside, c => if c = '"' then .inside else .outside
  | .inside, c => if c = '\\' then .escaped else if c = '"' then .outside else .inside
  | .escaped, _ => .inside

def ends (q : QuoteState) (s : Str) : QuoteState := s.foldl next q

def Balanced (s : Str) : Prop := ends .outside s = .outside

instance (s : Str) : Decidable (Balanced s) := inferInstanceAs (Decidable (_ = _))

@[simp] theorem ends_nil (q : QuoteState) : ends q [] = q := rfl

@[simp] theorem ends_cons (q : QuoteState) (c : Char) (s : Str) :
    ends q (c :: s) = ends (next q c) s := rfl

/-! ## Pieces -/

variable (sep : Char)

/-- The pieces of a text, from a position on, where the first piece began before it. -/
def piecesFrom : QuoteState → Str → Str → List Str
  | _, cur, [] => [cur]
  | q, cur, c :: s =>
    if q = .outside ∧ c = sep then cur :: piecesFrom .outside [] s
    else piecesFrom (next q c) (cur ++ [c]) s

def pieces (s : Str) : List Str := piecesFrom sep .outside [] s

variable {sep}

@[simp] theorem pieces_nil : pieces sep [] = [[]] := rfl

section

variable (hsep : sep ≠ '"')

include hsep

theorem next_sep : next .outside sep = .outside := if_neg hsep

theorem piecesFrom_append {q : QuoteState} {a : Str} (h : ends q a = .outside) (cur b : Str) :
    piecesFrom sep q cur (a ++ sep :: b) = piecesFrom sep q cur a ++ pieces sep b := by
  induction a generalizing q cur with
  | nil =>
    obtain rfl : q = .outside := h
    simp [piecesFrom, pieces]
  | cons c a ih =>
    rw [cons_append, piecesFrom, piecesFrom]
    split_ifs with hcut
    · obtain ⟨rfl, rfl⟩ := hcut
      rw [ends_cons, next_sep hsep] at h
      rw [ih h [], cons_append]
    · exact ih h (cur ++ [c])

/-- **Lists may be joined.** -/
theorem pieces_append {a : Str} (h : Balanced a) (b : Str) :
    pieces sep (a ++ sep :: b) = pieces sep a ++ pieces sep b :=
  piecesFrom_append hsep h [] b

theorem pieces_intercalate {lines : List Str} (hlines : ∀ l ∈ lines, Balanced l)
    (hne : lines ≠ []) : pieces sep ([sep].intercalate lines) = lines.flatMap (pieces sep) := by
  induction lines with
  | nil => exact absurd rfl hne
  | cons a lines ih =>
    cases lines with
    | nil => simp [intercalate]
    | cons b lines =>
      have hjoin : [sep].intercalate (a :: b :: lines) =
        a ++ sep :: [sep].intercalate (b :: lines) := by
        simp [intercalate]
      rw [hjoin, pieces_append hsep (hlines a mem_cons_self),
        ih (fun l hl => hlines l (mem_cons_of_mem _ hl)) (cons_ne_nil _ _)]
      rfl

end

/-! ## Where a piece stands -/

variable (sep) in
def Begins (before : Str) : Prop := before = [] ∨ ∃ b, Balanced b ∧ before = b ++ [sep]

variable (sep) in
/-- What is behind a piece: nothing, or a separator and more. -/
def Ends (after : Str) : Prop := after = [] ∨ after.head? = some sep

section

variable (hsep : sep ≠ '"')

include hsep

theorem mem_piecesFrom {q : QuoteState} {cur s p : Str} (h : p ∈ piecesFrom sep q cur s) :
    (∃ t after, p = cur ++ t ∧ s = t ++ after ∧ Ends sep after) ∨
      ∃ b after, s = b ++ sep :: (p ++ after) ∧ ends q b = .outside ∧ Ends sep after := by
  induction s generalizing q cur with
  | nil =>
    obtain rfl := mem_singleton.mp h
    exact .inl ⟨[], [], (append_nil _).symm, rfl, .inl rfl⟩
  | cons c s ih =>
    rw [piecesFrom] at h
    split_ifs at h with hcut
    · obtain ⟨rfl, rfl⟩ := hcut
      rcases mem_cons.mp h with rfl | h
      · exact .inl ⟨[], c :: s, (append_nil _).symm, rfl, .inr rfl⟩
      · obtain ⟨t, after, rfl, rfl, hend⟩ | ⟨b, after, rfl, hb, hend⟩ := ih h
        · exact .inr ⟨[], after, rfl, rfl, hend⟩
        · refine .inr ⟨c :: b, after, rfl, ?_, hend⟩
          rwa [ends_cons, next_sep hsep]
    · obtain ⟨t, after, rfl, rfl, hend⟩ | ⟨b, after, rfl, hb, hend⟩ := ih h
      · exact .inl ⟨c :: t, after, by simp, rfl, hend⟩
      · exact .inr ⟨c :: b, after, rfl, hb, hend⟩

/-- **A piece stands outside quotes**: behind a balanced text. -/
theorem mem_pieces {s p : Str} (h : p ∈ pieces sep s) :
    ∃ before after, s = before ++ p ++ after ∧ Begins sep before ∧ Ends sep after := by
  obtain ⟨t, after, rfl, rfl, hend⟩ | ⟨b, after, rfl, hb, hend⟩ := mem_piecesFrom hsep h
  · exact ⟨[], after, rfl, .inl rfl, hend⟩
  · exact ⟨b ++ [sep], after, by simp, .inr ⟨b, hb, rfl⟩, hend⟩

theorem mem_pieces_append {before s p : Str} (hbefore : Begins sep before)
    (h : p ∈ pieces sep s) : p ∈ pieces sep (before ++ s) := by
  obtain rfl | ⟨b, hb, rfl⟩ := hbefore
  · exact h
  · have hjoin : b ++ [sep] ++ s = b ++ sep :: s := by simp
    rw [hjoin, pieces_append hsep hb]
    exact mem_append_right _ h

end

theorem exists_piece (q : QuoteState) (cur s : Str) : ∃ t, cur ++ t ∈ piecesFrom sep q cur s := by
  induction s generalizing q cur with
  | nil => exact ⟨[], by simp [piecesFrom]⟩
  | cons c s ih =>
    rw [piecesFrom]
    split_ifs
    · exact ⟨[], by simp⟩
    · obtain ⟨t, ht⟩ := ih (next q c) (cur ++ [c])
      exact ⟨c :: t, by simpa using ht⟩

theorem piecesFrom_of_plain {a : Str} (hquote : '"' ∉ a) (hsep : sep ∉ a) (cur s : Str) :
    piecesFrom sep .outside cur (a ++ s) = piecesFrom sep .outside (cur ++ a) s := by
  induction a generalizing cur with
  | nil => simp
  | cons c a ih =>
    obtain ⟨hc, ha⟩ := not_or.mp (mt mem_cons.mpr hquote)
    obtain ⟨hc', ha'⟩ := not_or.mp (mt mem_cons.mpr hsep)
    rw [cons_append, piecesFrom, if_neg fun h => hc' h.2.symm, next, if_neg (Ne.symm hc),
      ih ha ha', append_assoc]
    rfl

theorem mem_piecesFrom_of_ends {cur s : Str} (h : Ends sep s) :
    cur ∈ piecesFrom sep .outside cur s := by
  obtain rfl | h := h
  · exact mem_singleton_self cur
  · obtain ⟨c, s, rfl⟩ : ∃ c t, s = c :: t := by
      cases s with
      | nil => exact nomatch h
      | cons c t => exact ⟨c, t, rfl⟩
    cases h
    rw [piecesFrom, if_pos ⟨rfl, rfl⟩]
    exact mem_cons_self

end Quoted
