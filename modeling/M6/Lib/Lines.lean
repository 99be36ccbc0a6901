import Mathlib.Data.List.Basic

/-!
# Lines

A list is cut behind each terminator (`splitInclusive`), so the last line may have none. A place
behind a terminator, or at the start, is a boundary (`Ends` of what is before it), and at a
boundary the lines come apart: `splitInclusive_append`. `lastLines n` is the last `n` lines, or all
when there are fewer; a shorter end of the list that still has them all has the same last lines
(`lastLines_of_suffix`).
-/

universe u

namespace Lines

open List

variable {α : Type u} {t : α}

/-- What is before a boundary: nothing, or lines that are complete. -/
def Ends (t : α) (l : List α) : Prop := l = [] ∨ l.getLast? = some t

theorem Ends.of_suffix {a b : List α} (hb : Ends t b) (h : a <:+ b) : Ends t a := by
  obtain ⟨c, rfl⟩ := h
  rcases hb with hnil | hlast
  · exact .inl (append_eq_nil_iff.mp hnil).2
  · cases ha : a.getLast? with
    | none => exact .inl (getLast?_eq_none_iff.mp ha)
    | some b =>
      rw [getLast?_append, ha] at hlast
      exact .inr (by simpa [ha] using hlast)

theorem boundary_cases {p rest a b : List α} (hp : t ∉ p) (h : p ++ t :: rest = a ++ b)
    (ha : Ends t a) : a = [] ∨ ∃ a', a = p ++ t :: a' ∧ rest = a' ++ b ∧ Ends t a' := by
  rcases ha with hnil | hlast
  · exact .inl hnil
  have hmem : t ∈ a := mem_of_getLast? hlast
  rcases append_eq_append_iff.mp h with ⟨c, rfl, hc⟩ | ⟨c, rfl, -⟩
  · cases c with
    | nil => exact absurd (by simpa using hmem) hp
    | cons x c =>
      obtain ⟨rfl, rfl⟩ := List.cons.inj hc
      refine .inr ⟨c, rfl, rfl, ?_⟩
      exact Ends.of_suffix (.inr hlast) ⟨p ++ [t], by simp⟩
  · exact absurd (mem_append_left c hmem) hp

variable [DecidableEq α]

def splitInclusive (t : α) : List α → List (List α)
  | [] => []
  | a :: l =>
    if a = t then [a] :: splitInclusive t l
    else
      match splitInclusive t l with
      | [] => [[a]]
      | p :: ps => (a :: p) :: ps

/-- The last `n` lines, or all of them. -/
def lastLines (t : α) (n : Nat) (l : List α) : List α :=
  ((splitInclusive t l).drop ((splitInclusive t l).length - n)).flatten

@[simp] theorem splitInclusive_nil : splitInclusive t [] = [] := rfl

theorem splitInclusive_cons_self (l : List α) :
    splitInclusive t (t :: l) = [t] :: splitInclusive t l := if_pos rfl

theorem splitInclusive_of_absent {p : List α} (hne : p ≠ []) (h : t ∉ p) :
    splitInclusive t p = [p] := by
  induction p with
  | nil => exact absurd rfl hne
  | cons a p ih =>
    obtain ⟨ha, hp⟩ := not_or.mp (mt mem_cons.mpr h)
    rw [splitInclusive, if_neg (Ne.symm ha)]
    cases p with
    | nil => rfl
    | cons b p => rw [ih (cons_ne_nil b p) hp]

theorem splitInclusive_line {p : List α} (h : t ∉ p) (rest : List α) :
    splitInclusive t (p ++ t :: rest) = (p ++ [t]) :: splitInclusive t rest := by
  induction p with
  | nil => exact splitInclusive_cons_self rest
  | cons a p ih =>
    obtain ⟨ha, hp⟩ := not_or.mp (mt mem_cons.mpr h)
    rw [cons_append, splitInclusive, if_neg (Ne.symm ha), ih hp]
    rfl

/-- **Line by line.** What holds of nothing, of one line without a terminator, and of a line
before a list of which it holds, holds of every list. -/
theorem by_lines {P : List α → Prop} (nil : P []) (last : ∀ p, p ≠ [] → t ∉ p → P p)
    (line : ∀ p rest, t ∉ p → P rest → P (p ++ t :: rest)) (l : List α) : P l := by
  induction hn : l.length using Nat.strongRecOn generalizing l with
  | _ n ih =>
    subst hn
    by_cases hmem : t ∈ l
    · obtain ⟨p, rest, rfl, hp⟩ := eq_append_cons_of_mem hmem
      refine line p rest hp (ih rest.length ?_ rest rfl)
      simp only [length_append, length_cons]
      omega
    · cases l with
      | nil => exact nil
      | cons a l => exact last _ (cons_ne_nil a l) hmem

@[simp] theorem flatten_splitInclusive (l : List α) : (splitInclusive t l).flatten = l := by
  induction l using by_lines (t := t) with
  | nil => rfl
  | last p hne hp => simp [splitInclusive_of_absent hne hp]
  | line p rest hp ih => simp [splitInclusive_line hp, ih]

theorem ne_nil_of_mem {l p : List α} (h : p ∈ splitInclusive t l) : p ≠ [] := by
  induction l using by_lines (t := t) with
  | nil => cases h
  | last q hne hq =>
    rw [splitInclusive_of_absent hne hq] at h
    exact mem_singleton.mp h ▸ hne
  | line q rest hq ih =>
    rw [splitInclusive_line hq] at h
    rcases mem_cons.mp h with rfl | h
    · simp
    · exact ih h

@[simp] theorem splitInclusive_eq_nil {l : List α} : splitInclusive t l = [] ↔ l = [] := by
  constructor
  · intro h
    rw [← flatten_splitInclusive (t := t) l, h]
    rfl
  · rintro rfl
    rfl

/-- `read_until`: the first line, and what is behind it. -/
def readUntil (t : α) : List α → List α × List α
  | [] => ([], [])
  | a :: l => if a = t then ([a], l) else (a :: (readUntil t l).1, (readUntil t l).2)

theorem splitInclusive_readUntil {l : List α} (hne : l ≠ []) :
    splitInclusive t l = (readUntil t l).1 :: splitInclusive t (readUntil t l).2 := by
  induction l with
  | nil => exact absurd rfl hne
  | cons a l ih =>
    rw [splitInclusive, readUntil]
    split_ifs with h
    · rfl
    · cases l with
      | nil => rfl
      | cons b l => rw [ih (cons_ne_nil b l)]

theorem readUntil_append (t : α) (l : List α) : (readUntil t l).1 ++ (readUntil t l).2 = l := by
  induction l with
  | nil => rfl
  | cons a l ih =>
    rw [readUntil]
    split_ifs
    · rfl
    · rw [cons_append, ih]

theorem length_readUntil_lt {l : List α} (hne : l ≠ []) : (readUntil t l).2.length < l.length := by
  cases l with
  | nil => exact absurd rfl hne
  | cons a l =>
    have h := congrArg List.length (readUntil_append t l)
    rw [length_append] at h
    rw [readUntil]
    split_ifs
    · exact Nat.lt_succ_self _
    · rw [length_cons]
      dsimp only
      omega

/-! ## Boundaries -/

/-- **At a boundary the lines come apart.** -/
theorem splitInclusive_append {a : List α} (ha : Ends t a) (b : List α) :
    splitInclusive t (a ++ b) = splitInclusive t a ++ splitInclusive t b := by
  induction a using by_lines (t := t) with
  | nil => rfl
  | last p hne hp =>
    rcases ha with rfl | hlast
    · exact absurd rfl hne
    · exact absurd (mem_of_getLast? hlast) hp
  | line p rest hp ih =>
    have hrest : Ends t rest := ha.of_suffix ⟨p ++ [t], by simp⟩
    rw [append_assoc, cons_append, splitInclusive_line hp, splitInclusive_line hp,
      ih hrest, cons_append]

theorem length_splitInclusive {l : List α} (hne : l ≠ []) :
    (splitInclusive t l).length = l.dropLast.count t + 1 := by
  induction l using by_lines (t := t) with
  | nil => exact absurd rfl hne
  | last p hne hp =>
    rw [splitInclusive_of_absent hne hp, count_eq_zero_of_not_mem, length_singleton]
    exact fun h => hp (dropLast_subset p h)
  | line p rest hp ih =>
    rw [splitInclusive_line hp, length_cons]
    by_cases hrest : rest = []
    · subst hrest
      rw [dropLast_concat, count_eq_zero_of_not_mem hp]
      rfl
    · obtain ⟨b, rest, rfl⟩ := exists_cons_of_ne_nil hrest
      rw [ih hrest, dropLast_append_of_ne_nil (cons_ne_nil _ _), dropLast_cons_cons,
        count_append, count_eq_zero_of_not_mem hp, count_cons_self]
      omega

/-! ## The last lines -/

theorem splitInclusive_drop (k : Nat) (l : List α) :
    splitInclusive t ((splitInclusive t l).drop k).flatten = (splitInclusive t l).drop k ∧
      (k < (splitInclusive t l).length → Ends t ((splitInclusive t l).take k).flatten) := by
  induction k generalizing l with
  | zero => exact ⟨by simp, fun _ => .inl rfl⟩
  | succ k ih =>
    by_cases hmem : t ∈ l
    · obtain ⟨p, rest, rfl, hp⟩ := eq_append_cons_of_mem hmem
      obtain ⟨hdrop, hends⟩ := ih rest
      rw [splitInclusive_line hp]
      refine ⟨hdrop, fun hlt => .inr ?_⟩
      rw [take_succ_cons, flatten_cons, getLast?_append]
      rcases hends (Nat.lt_of_succ_lt_succ hlt) with h | h
      · rw [h]
        simp
      · rw [h]
        rfl
    · by_cases hne : l = []
      · subst hne
        exact ⟨rfl, fun h => absurd h (Nat.not_lt_zero _)⟩
      · rw [splitInclusive_of_absent hne hmem]
        exact ⟨by simp, fun h => absurd h (by simp)⟩

/-- **The last lines** are an end of the list that starts at a boundary and has so many lines, or
all there are. -/
theorem exists_lastLines {n : Nat} (hn : 0 < n) (l : List α) :
    ∃ a, l = a ++ lastLines t n l ∧ Ends t a ∧
      (splitInclusive t (lastLines t n l)).length = min n (splitInclusive t l).length := by
  by_cases hne : l = []
  · subst hne
    exact ⟨[], by simp [lastLines], .inl rfl, by simp [lastLines]⟩
  have hpos : 0 < (splitInclusive t l).length :=
    length_pos_of_ne_nil fun h => hne (splitInclusive_eq_nil.mp h)
  obtain ⟨hdrop, hends⟩ := splitInclusive_drop (t := t) ((splitInclusive t l).length - n) l
  refine ⟨((splitInclusive t l).take ((splitInclusive t l).length - n)).flatten, ?_,
    hends (by omega), ?_⟩
  · rw [lastLines, ← flatten_append, take_append_drop, flatten_splitInclusive]
  · rw [lastLines, hdrop, length_drop]
    omega

theorem lastLines_eq {n : Nat} {a b : List α} (ha : Ends t a)
    (hb : (splitInclusive t b).length = n ∨ (a = [] ∧ (splitInclusive t b).length ≤ n)) :
    lastLines t n (a ++ b) = b := by
  rw [lastLines, splitInclusive_append ha]
  rcases hb with rfl | ⟨rfl, hle⟩
  · rw [length_append, Nat.add_sub_cancel, drop_left, flatten_splitInclusive]
  · rw [splitInclusive_nil, nil_append, Nat.sub_eq_zero_of_le hle, drop_zero,
      flatten_splitInclusive]

theorem lastLines_of_suffix {n : Nat} (hn : 0 < n) {w l : List α} (hw : w <:+ l)
    (h : lastLines t n l <:+ w) : lastLines t n w = lastLines t n l := by
  obtain ⟨a, hl, ha, hcount⟩ := exists_lastLines (t := t) hn l
  obtain ⟨a', hw'⟩ := h
  have hsuffix : a' <:+ a := by
    rw [← hw'] at hw
    nth_rewrite 2 [hl] at hw
    exact suffix_append_self_iff.mp hw
  rw [← hw']
  refine lastLines_eq (ha.of_suffix hsuffix) ?_
  rcases Nat.lt_or_ge (splitInclusive t l).length n with hlt | hge
  · -- fewer lines than asked for: the last lines are all of the list
    have hparts : (splitInclusive t l).length =
        (splitInclusive t a).length + (splitInclusive t (lastLines t n l)).length := by
      conv_lhs => rw [hl, splitInclusive_append ha, length_append]
    have hnil : a = [] := (splitInclusive_eq_nil (t := t)).mp (eq_nil_of_length_eq_zero (by omega))
    subst hnil
    exact .inr ⟨suffix_nil.mp hsuffix, by omega⟩
  · exact .inl (by rw [hcount, Nat.min_eq_left hge])

theorem min_le_length_lastLines (t : α) (n : Nat) (l : List α) :
    min n l.length ≤ (lastLines t n l).length := by
  rcases Nat.le_total (splitInclusive t l).length n with hle | hge
  · rw [lastLines, Nat.sub_eq_zero_of_le hle, drop_zero, flatten_splitInclusive]
    exact Nat.min_le_right _ _
  · have hcount : ∀ ps : List (List α), (∀ p ∈ ps, p ≠ []) → ps.length ≤ ps.flatten.length := by
      intro ps hps
      induction ps with
      | nil => exact Nat.zero_le _
      | cons p ps ih =>
        have hp := length_pos_of_ne_nil (hps p mem_cons_self)
        have hrest := ih fun q hq => hps q (mem_cons_of_mem _ hq)
        rw [flatten_cons, length_cons, length_append]
        omega
    have h := hcount ((splitInclusive t l).drop ((splitInclusive t l).length - n))
      fun p hp => ne_nil_of_mem (mem_of_mem_drop hp)
    rw [length_drop] at h
    rw [lastLines]
    omega

/-! ## Complete lines

The last line of a file that is still written may have no terminator yet. `complete` is the lines
that have one. They are all that is there before a boundary, and a list that grows keeps them
(`complete_mono`); where the list is cut somewhere, at most one line is what was left of one, and
the others are its lines behind a boundary (`complete_drop`).
-/

def complete (t : α) (l : List α) : List (List α) := (splitInclusive t l).filter (t ∈ ·)

def partLine (t : α) (l : List α) : List (List α) := (splitInclusive t l).filter (t ∉ ·)

@[simp] theorem complete_nil : complete t [] = [] := rfl

theorem complete_of_absent {p : List α} (h : t ∉ p) : complete t p = [] := by
  by_cases hne : p = []
  · subst hne
    rfl
  · rw [complete, splitInclusive_of_absent hne h, filter_cons_of_neg (by simpa using h), filter_nil]

theorem complete_line {p : List α} (h : t ∉ p) (rest : List α) :
    complete t (p ++ t :: rest) = (p ++ [t]) :: complete t rest := by
  rw [complete, splitInclusive_line h, filter_cons_of_pos (by simp)]
  rfl

theorem partLine_line {p : List α} (h : t ∉ p) (rest : List α) :
    partLine t (p ++ t :: rest) = partLine t rest := by
  rw [partLine, splitInclusive_line h, filter_cons_of_neg (by simp)]
  rfl

theorem splitInclusive_eq_complete (t : α) (l : List α) :
    splitInclusive t l = complete t l ++ partLine t l := by
  induction l using by_lines (t := t) with
  | nil => rfl
  | last p hne hp =>
    rw [complete_of_absent hp, partLine, splitInclusive_of_absent hne hp,
      filter_cons_of_pos (by simpa using hp)]
    rfl
  | line p rest hp ih =>
    rw [splitInclusive_line hp, complete_line hp, partLine_line hp, ih]
    rfl

theorem not_mem_of_partLine {l p : List α} (h : p ∈ partLine t l) : t ∉ p := by
  simpa using (mem_filter.mp h).2

theorem length_partLine_le (t : α) (l : List α) : (partLine t l).length ≤ 1 := by
  induction l using by_lines (t := t) with
  | nil => exact Nat.zero_le _
  | last p hne hp =>
    rw [partLine, splitInclusive_of_absent hne hp]
    exact length_filter_le _ _
  | line p rest hp ih => rwa [partLine_line hp]

theorem partLine_of_ends {l : List α} (h : Ends t l) : partLine t l = [] := by
  induction l using by_lines (t := t) with
  | nil => rfl
  | last p hne hp =>
    rcases h with rfl | hlast
    · exact absurd rfl hne
    · exact absurd (mem_of_getLast? hlast) hp
  | line p rest hp ih =>
    rw [partLine_line hp]
    exact ih (h.of_suffix ⟨p ++ [t], by simp⟩)

theorem complete_append {a : List α} (ha : Ends t a) (b : List α) :
    complete t (a ++ b) = complete t a ++ complete t b := by
  rw [complete, splitInclusive_append ha, filter_append]
  rfl

/-- **A list that grows** keeps its complete lines. -/
theorem complete_mono {a b : List α} (h : a <+: b) : complete t a <+: complete t b := by
  induction a using by_lines (t := t) generalizing b with
  | nil => exact nil_prefix
  | last p hne hp =>
    rw [complete_of_absent hp]
    exact nil_prefix
  | line p rest hp ih =>
    obtain ⟨more, rfl⟩ := h
    rw [append_assoc, cons_append, complete_line hp, complete_line hp, prefix_cons_inj]
    exact ih (prefix_append rest more)

theorem complete_terminated {l : List α} (h : ¬ Ends t l) :
    ∃ p, splitInclusive t (l ++ [t]) = complete t l ++ [p ++ [t]] ∧ p <:+ l ∧ p ≠ [] ∧ t ∉ p := by
  induction l using by_lines (t := t) with
  | nil => exact absurd (.inl rfl) h
  | last p hne hp =>
    refine ⟨p, ?_, suffix_refl p, hne, hp⟩
    rw [splitInclusive_line hp, complete_of_absent hp]
    rfl
  | line p rest hp ih =>
    have hrest : ¬ Ends t rest := by
      rintro (rfl | hlast)
      · exact h (.inr (by simp))
      · refine h (.inr ?_)
        rw [getLast?_append, getLast?_cons, hlast]
        rfl
    obtain ⟨q, hq, hsuffix, hpart⟩ := ih hrest
    refine ⟨q, ?_, hsuffix.trans ⟨p ++ [t], by simp⟩, hpart⟩
    rw [append_assoc, cons_append, splitInclusive_line hp, hq, complete_line hp]
    rfl

/-- **A cut somewhere.** The complete lines behind it are at most one that is what was left of a
line, and the lines behind a boundary `a`, which is the first behind the cut. -/
theorem complete_drop (t : α) (k : Nat) (l : List α) :
    ∃ cut a b, l = a ++ b ∧ Ends t a ∧ complete t (l.drop k) = cut ++ complete t b ∧
      cut.length ≤ 1 ∧ (∀ c ∈ cut, ∃ x, x ≠ [] ∧ x ++ c ∈ complete t l) ∧
      (k = 0 → a = [] ∧ cut = []) ∧
      ∀ a' b', l = a' ++ b' → Ends t a' → k ≤ a'.length → complete t b' <:+ complete t b := by
  induction l using by_lines (t := t) generalizing k with
  | nil =>
    refine ⟨[], [], [], rfl, .inl rfl, by simp, Nat.zero_le _, by simp, fun _ => ⟨rfl, rfl⟩, ?_⟩
    intro a' b' h _ _
    obtain rfl := (append_eq_nil_iff.mp h.symm).2
    exact suffix_refl _
  | last p hne hp =>
    have hsub : ∀ b', b' <:+ p → complete t b' = [] := fun b' hb' =>
      complete_of_absent fun hmem => hp (hb'.subset hmem)
    refine ⟨[], [], p, rfl, .inl rfl, ?_, Nat.zero_le _, by simp, fun _ => ⟨rfl, rfl⟩, ?_⟩
    · rw [hsub _ (drop_suffix k p), hsub p (suffix_refl p)]
      rfl
    · intro a' b' h _ _
      rw [hsub b' ⟨a', h.symm⟩]
      exact nil_suffix
  | line p rest hp ih =>
    rcases Nat.eq_zero_or_pos k with rfl | hpos
    · refine ⟨[], [], p ++ t :: rest, rfl, .inl rfl, rfl, Nat.zero_le _, by simp,
        fun _ => ⟨rfl, rfl⟩, ?_⟩
      intro a' b' h ha' _
      rw [h, complete_append ha']
      exact suffix_append _ _
    have hend : Ends t (p ++ [t]) := .inr (by simp)
    rcases Nat.lt_or_ge p.length k with hlt | hle
    · -- the cut is behind the first line
      obtain ⟨cut, a, b, hsplit, ha, hlines, hcut, hpart, -, hfirst⟩ := ih (k - (p.length + 1))
      have hdrop : (p ++ t :: rest).drop k = rest.drop (k - (p.length + 1)) := by
        rw [drop_append, drop_eq_nil_of_le (Nat.le_of_lt hlt), nil_append,
          show k - p.length = (k - (p.length + 1)) + 1 by omega, drop_succ_cons]
      refine ⟨cut, p ++ t :: a, b, by rw [hsplit]; simp, ?_, hdrop ▸ hlines, hcut, ?_,
        fun h => absurd h (Nat.ne_of_gt hpos), ?_⟩
      · rcases ha with rfl | hlast
        · exact hend
        · refine .inr ?_
          rw [getLast?_append, getLast?_cons, hlast]
          rfl
      · intro c hc
        obtain ⟨x, hne, hmem⟩ := hpart c hc
        refine ⟨x, hne, ?_⟩
        rw [complete_line hp]
        exact mem_cons_of_mem _ hmem
      · intro a' b' h ha' hk
        rcases boundary_cases hp h ha' with rfl | ⟨a'', rfl, hrest, ha''⟩
        · exact absurd (Nat.le_zero.mp hk) (Nat.ne_of_gt hpos)
        · refine hfirst a'' b' hrest ha'' ?_
          rw [length_append, length_cons] at hk
          omega
    · -- the cut is in the first line, and leaves its end
      have hdrop : (p ++ t :: rest).drop k = p.drop k ++ t :: rest := drop_append_of_le_length hle
      refine ⟨[p.drop k ++ [t]], p ++ [t], rest, by simp, hend, ?_, Nat.le_refl 1, ?_,
        fun h => absurd h (Nat.ne_of_gt hpos), ?_⟩
      · rw [hdrop, complete_line fun hmem => hp (mem_of_mem_drop hmem)]
        rfl
      · intro c hc
        rw [mem_singleton.mp hc, complete_line hp]
        refine ⟨p.take k, ?_, ?_⟩
        · exact ne_nil_of_length_pos (by rw [length_take]; omega)
        · rw [← append_assoc, take_append_drop]
          exact mem_cons_self
      · intro a' b' h ha' hk
        rcases boundary_cases hp h ha' with rfl | ⟨a'', rfl, hrest, ha''⟩
        · exact absurd (Nat.le_zero.mp hk) (Nat.ne_of_gt hpos)
        · rw [hrest, complete_append ha'']
          exact suffix_append _ _

end Lines
