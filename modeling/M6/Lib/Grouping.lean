import Mathlib.Data.List.Destutter
import Mathlib.Data.List.MinMax
import M6.Lib.Select
import M6.Lib.SortedMap

/-!
# Values that are the same

Two ways to find out whether values are the same. `distinct` sorts them and drops repetitions: more
than one is left if two of them differ (`one_lt_length_distinct`). `groupBy` puts rows of one key
together: there is more than one group if two keys differ, and a group of more than one row if two
rows share their key (`one_lt_largest`).
-/

namespace Grouping

open List Select

universe u v w

variable {R : Type u} {K : Type v} {V : Type w} [LinearOrder K]

/-! ## Dropping repetitions -/

def distinct (l : List K) : List K := (orderBy id l).destutter (· ≠ ·)

theorem destutter'_eq_singleton {a : K} {l : List K} :
    l.destutter' (· ≠ ·) a = [a] ↔ ∀ b ∈ l, b = a := by
  induction l with
  | nil => simp
  | cons b l ih =>
    by_cases h : a = b
    · subst h
      rw [destutter'_cons_neg _ (not_not_intro rfl), ih]
      simp
    · rw [destutter'_cons_pos _ h]
      constructor
      · intro hl
        exact absurd (List.cons.inj hl).2 (destutter'_ne_nil _ _)
      · intro hall
        exact absurd (hall b (mem_cons_self ..)).symm h

theorem mem_distinct {a : K} {l : List K} (h : a ∈ distinct l) : a ∈ l :=
  mem_orderBy.mp ((destutter_sublist _ _).subset h)

theorem distinct_eq_nil {l : List K} : distinct l = [] ↔ l = [] := by
  rw [distinct, destutter_eq_nil]
  constructor
  · intro h
    have hperm : (orderBy id l).Perm l := orderBy_perm l
    exact perm_nil.mp (h ▸ hperm.symm)
  · rintro rfl
    rfl

/-- **More than one value is left if two of them differ.** -/
theorem one_lt_length_distinct {l : List K} :
    1 < (distinct l).length ↔ ∃ a ∈ l, ∃ b ∈ l, a ≠ b := by
  constructor
  · intro h
    have hchain : (distinct l).IsChain (· ≠ ·) := isChain_destutter _ _
    rcases hd : distinct l with _ | ⟨a, _ | ⟨b, rest⟩⟩
    · simp [hd] at h
    · simp [hd] at h
    · rw [hd] at hchain
      have ha : a ∈ distinct l := by simp [hd]
      have hb : b ∈ distinct l := by simp [hd]
      exact ⟨a, mem_distinct ha, b, mem_distinct hb, (isChain_cons_cons.mp hchain).1⟩
  · rintro ⟨a, ha, b, hb, hne⟩
    rcases hs : orderBy id l with _ | ⟨c, rest⟩
    · have ha' : a ∈ orderBy id l := mem_orderBy.mpr ha
      rw [hs] at ha'
      exact absurd ha' not_mem_nil
    · rw [distinct, hs, destutter_cons']
      rcases hd : rest.destutter' (· ≠ ·) c with _ | ⟨d, _ | ⟨e, more⟩⟩
      · exact absurd hd (destutter'_ne_nil _ _)
      · -- one value only: then all of them are that value
        exfalso
        have hc : c ∈ rest.destutter' (· ≠ ·) c := mem_destutter' _ _ _
        rw [hd, mem_singleton] at hc
        rw [← hc] at hd
        have hall := destutter'_eq_singleton.mp hd
        have hsame : ∀ x ∈ l, x = c := by
          intro x hx
          have hx' : x ∈ orderBy id l := mem_orderBy.mpr hx
          rw [hs] at hx'
          rcases mem_cons.mp hx' with rfl | hx'
          · rfl
          · exact hall x hx'
        exact hne ((hsame a ha).trans (hsame b hb).symm)
      · simp

theorem length_distinct_eq_one {l : List K} :
    (distinct l).length = 1 ↔ l ≠ [] ∧ ∀ a ∈ l, ∀ b ∈ l, a = b := by
  have hmany := not_congr (one_lt_length_distinct (l := l))
  have hsome := not_congr (distinct_eq_nil (l := l))
  rw [← length_eq_zero_iff] at hsome
  push Not at hmany
  rw [ne_eq, ← hsome, ← hmany]
  omega

/-! ## Rows of one key -/

section Groups

variable (key : R → K) (val : R → V)

def push (m : SortedMap K (List V)) (r : R) : SortedMap K (List V) :=
  m.insert (key r) ((m.get? (key r)).getD [] ++ [val r])

def groupBy (rows : List R) : SortedMap K (List V) := rows.foldl (push key val) .empty

variable {key val}

theorem groupBy_concat (rows : List R) (r : R) :
    groupBy key val (rows ++ [r]) = push key val (groupBy key val rows) r :=
  foldl_concat ..

/-- **A group is the rows of its key**, and there is one for each key. -/
theorem get?_groupBy (rows : List R) (k : K) : (groupBy key val rows).get? k =
      if ∃ r ∈ rows, key r = k then some ((rows.filter fun r => key r = k).map val) else none := by
  induction rows using reverseRecOn with
  | nil => simp [groupBy]
  | append_singleton rows r ih =>
    rw [groupBy_concat, push, SortedMap.get?_insert]
    by_cases hk : k = key r
    · subst hk
      have hnone : ¬ (∃ r' ∈ rows, key r' = key r) →
          (rows.filter fun r' => key r' = key r).map val = [] := by
        intro h
        push Not at h
        simpa using h
      rw [if_pos rfl, if_pos ⟨r, by simp, rfl⟩, ih]
      split_ifs with h
      · simp
      · simp [hnone h]
    · rw [if_neg hk, ih]
      simp [Ne.symm hk]

theorem mem_keys_groupBy {rows : List R} {k : K} :
    k ∈ (groupBy key val rows).entries.map Prod.fst ↔ ∃ r ∈ rows, key r = k := by
  rw [SortedMap.mem_keys, get?_groupBy]
  split_ifs with h <;> simp [h]

theorem one_lt_length_groupBy {rows : List R} :
    1 < (groupBy key val rows).entries.length ↔ ∃ a ∈ rows, ∃ b ∈ rows, key a ≠ key b := by
  have hnodup := (groupBy key val rows).nodup_keys
  rw [← length_map (f := Prod.fst)]
  constructor
  · intro h
    rcases hl : (groupBy key val rows).entries.map Prod.fst with _ | ⟨a, _ | ⟨b, rest⟩⟩
    · simp [hl] at h
    · simp [hl] at h
    · rw [hl] at hnodup
      have ha : a ∈ (groupBy key val rows).entries.map Prod.fst := by simp [hl]
      have hb : b ∈ (groupBy key val rows).entries.map Prod.fst := by simp [hl]
      obtain ⟨x, hx, rfl⟩ := mem_keys_groupBy.mp ha
      obtain ⟨y, hy, rfl⟩ := mem_keys_groupBy.mp hb
      refine ⟨x, hx, y, hy, fun he => ?_⟩
      simp [he] at hnodup
  · rintro ⟨a, ha, b, hb, hne⟩
    have ha' : key a ∈ (groupBy key val rows).entries.map Prod.fst :=
      mem_keys_groupBy.mpr ⟨a, ha, rfl⟩
    have hb' : key b ∈ (groupBy key val rows).entries.map Prod.fst :=
      mem_keys_groupBy.mpr ⟨b, hb, rfl⟩
    by_contra hle
    rcases hl : (groupBy key val rows).entries.map Prod.fst with _ | ⟨c, _ | ⟨d, rest⟩⟩
    · rw [hl] at ha'
      exact not_mem_nil ha'
    · rw [hl, mem_singleton] at ha' hb'
      exact hne (ha'.trans hb'.symm)
    · simp [hl] at hle

def largest (m : SortedMap K (List V)) : Nat :=
  ((m.entries.map fun e => e.2.length).max?).getD 0

theorem one_lt_max? {l : List Nat} : 1 < l.max?.getD 0 ↔ ∃ n ∈ l, 1 < n := by
  cases h : l.max? with
  | none =>
    rw [max?_eq_none_iff] at h
    simp [h]
  | some m =>
    obtain ⟨hm, hmax⟩ := max?_eq_some_iff.mp h
    constructor
    · exact fun hlt => ⟨m, hm, hlt⟩
    · rintro ⟨n, hn, hlt⟩
      exact lt_of_lt_of_le hlt (hmax n hn)

/-- **A group has more than one row if two rows share their key.** -/
theorem one_lt_largest {rows : List R} :
    1 < largest (groupBy key val rows) ↔ ¬ (rows.map key).Nodup := by
  rw [largest, one_lt_max?, nodup_iff_count_le_one]
  push Not
  have hcount : ∀ k, (rows.map key).count k = (rows.filter fun r => key r = k).length := by
    intro k
    rw [count_eq_countP, countP_map, countP_eq_length_filter]
    rfl
  constructor
  · rintro ⟨n, hn, hlt⟩
    obtain ⟨⟨k, group⟩, he, rfl⟩ := mem_map.mp hn
    have hget := SortedMap.mem_entries.mp he
    rw [get?_groupBy] at hget
    split_ifs at hget with h
    refine ⟨k, ?_⟩
    rw [hcount]
    simpa [← Option.some.inj hget] using hlt
  · rintro ⟨k, hk⟩
    rw [hcount] at hk
    have hex : ∃ r ∈ rows, key r = k := by
      have hpos : 0 < (rows.filter fun r => key r = k).length := by omega
      obtain ⟨r, hr⟩ := exists_mem_of_length_pos hpos
      obtain ⟨hr, hrk⟩ := mem_filter.mp hr
      exact ⟨r, hr, of_decide_eq_true hrk⟩
    refine ⟨_, mem_map.mpr ⟨(k, (rows.filter fun r => key r = k).map val), ?_, rfl⟩, ?_⟩
    · rw [SortedMap.mem_entries, get?_groupBy, if_pos hex]
    · simpa using hk

end Groups

end Grouping
