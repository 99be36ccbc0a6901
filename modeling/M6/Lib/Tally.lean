import Mathlib.Data.List.Dedup
import Mathlib.Data.List.Induction
import Mathlib.Data.Prod.Lex
import M6.Lib.Select
import M6.Lib.SortedMap

/-!
# Tallies and rankings

Rows that are folded into one value for each key (`groupFold`). What a key has is folded from the
rows of that key alone (`get?_groupFold`), and if the rows of a key may come in any order, all rows
may (`groupFold_perm`). A `tally` counts keys.

A ranking is the keys of a tally by their counts, the greatest first. Some of the rows may be left
out of a tally: `top_eq_iff` says when its first `n` keys and their counts stay what they are.
-/

universe u v w

namespace Tally

open SortedMap Option

variable {R : Type u} {K : Type v} {A : Type w} [LinearOrder K]

/-! ## Folding by keys -/

/-- Change the value of a key, from an initial one if it has none. -/
def touch (m : SortedMap K A) (k : K) (init : A) (upd : A → A) : SortedMap K A :=
  m.insert k (upd ((m.get? k).getD init))

theorem get?_touch (m : SortedMap K A) (k k' : K) (init : A) (upd : A → A) :
    (touch m k init upd).get? k' =
      if k' = k then some (upd ((m.get? k).getD init)) else m.get? k' :=
  get?_insert _ _ _ _

/-- Two changes may come in either order: of two keys, or of one if its value does not depend on
the order. -/
theorem touch_comm {k k' : K} {init init' : A} {upd upd' : A → A}
    (h : k = k' → upd' (upd init) = upd (upd' init') ∧ ∀ a, upd' (upd a) = upd (upd' a))
    (m : SortedMap K A) :
    touch (touch m k init upd) k' init' upd' = touch (touch m k' init' upd') k init upd := by
  refine ext_get? fun x => ?_
  simp only [get?_touch]
  by_cases hkk : k = k'
  · obtain ⟨hinit, hupd⟩ := h hkk
    subst hkk
    rw [if_pos rfl, if_pos rfl]
    by_cases hx : x = k
    · rw [if_pos hx, if_pos hx, getD_some, getD_some]
      cases m.get? k with
      | none => exact congrArg some hinit
      | some a => exact congrArg some (hupd a)
    · rw [if_neg hx, if_neg hx, if_neg hx, if_neg hx]
  · rw [if_neg hkk, if_neg (Ne.symm hkk)]
    by_cases hx : x = k
    · rw [if_pos hx, if_pos hx, if_neg (hx ▸ hkk)]
    · rw [if_neg hx, if_neg hx]

variable (key : R → K) (init : R → A) (upd : A → R → A)

def joinRow (m : SortedMap K A) (r : R) : SortedMap K A :=
  touch m (key r) (init r) fun a => upd a r

def groupFold (rows : List R) : SortedMap K A := rows.foldl (joinRow key init upd) .empty

def collect : List R → Option A
  | [] => none
  | r :: rows => some ((r :: rows).foldl upd (init r))

variable {key init upd}

theorem collect_concat (rows : List R) (r : R) :
    collect init upd (rows ++ [r]) = some (upd ((collect init upd rows).getD (init r)) r) := by
  cases rows with
  | nil => rfl
  | cons r' rows =>
    rw [List.cons_append, collect, collect, ← List.cons_append, List.foldl_append]
    rfl

/-- **What a key has is folded from its rows.** -/
theorem get?_groupFold [DecidableEq K] (rows : List R) (k : K) :
    (groupFold key init upd rows).get? k =
      collect init upd (rows.filter fun r => key r = k) := by
  induction rows using List.reverseRecOn with
  | nil => rfl
  | append_singleton rows r ih =>
    rw [groupFold, List.foldl_append, ← groupFold, List.foldl_cons, List.foldl_nil, joinRow,
      get?_touch, List.filter_append]
    by_cases hk : k = key r
    · have hone : [r].filter (fun r => key r = k) = [r] := by simp [hk]
      rw [if_pos hk, hone, collect_concat, ← hk, ih]
    · have hnone : [r].filter (fun r => key r = k) = [] := by simp [Ne.symm hk]
      rw [if_neg hk, hnone, List.append_nil, ih]

theorem groupFold_concat (rows : List R) (r : R) : groupFold key init upd (rows ++ [r]) =
      joinRow key init upd (groupFold key init upd rows) r :=
  List.foldl_concat ..

/-! ## Counting -/

def tally (keys : List K) : SortedMap K Nat := groupFold id (fun _ => 0) (fun n _ => n + 1) keys

theorem tally_concat (keys : List K) (k : K) :
    tally (keys ++ [k]) = touch (tally keys) k 0 (· + 1) :=
  groupFold_concat ..

omit [LinearOrder K] in
theorem foldl_count (keys : List K) (n : Nat) :
    keys.foldl (fun n _ => n + 1) n = n + keys.length := by
  induction keys generalizing n with
  | nil => rfl
  | cons k keys ih =>
    rw [List.foldl_cons, ih, List.length_cons]
    omega

section

variable [DecidableEq K]

theorem get?_tally (keys : List K) (k : K) : (tally keys).get? k =
      if k ∈ keys then some (keys.countP fun k' => k' = k) else none := by
  have hcount := (List.countP_eq_length_filter (p := fun k' => decide (k' = k)) (l := keys)).symm
  rw [tally, get?_groupFold]
  cases hrows : keys.filter (fun k' => id k' = k) with
  | nil =>
    have hmem : k ∉ keys := by
      intro hk
      have hfilter := List.filter_eq_nil_iff.mp hrows k hk
      exact hfilter (decide_eq_true rfl)
    rw [if_neg hmem]
    rfl
  | cons k' rows =>
    have hmem : k ∈ keys := by
      have hfilter := hrows ▸ List.mem_cons_self (a := k') (l := rows)
      obtain ⟨hk', heq⟩ := List.mem_filter.mp hfilter
      exact of_decide_eq_true heq ▸ hk'
    have hlength : (k' :: rows).length = keys.countP (fun k' => k' = k) := by
      rw [← hrows]
      exact hcount
    rw [if_pos hmem, collect, foldl_count, hlength, Nat.zero_add]

theorem mem_tally {keys : List K} {e : K × Nat} :
    e ∈ (tally keys).entries ↔ e.1 ∈ keys ∧ e.2 = keys.countP fun k => k = e.1 := by
  obtain ⟨k, n⟩ := e
  rw [mem_entries, get?_tally]
  constructor
  · intro h
    split_ifs at h with hk
    exact ⟨hk, (some.inj h).symm⟩
  · rintro ⟨hk, hn⟩
    rw [if_pos hk]
    exact congrArg some hn.symm

end

theorem mem_keys_tally {keys : List K} {k : K} :
    k ∈ (tally keys).entries.map Prod.fst ↔ k ∈ keys := by
  rw [mem_keys, get?_tally]
  by_cases hk : k ∈ keys
  · simp [hk]
  · simp [hk]

theorem filter_tally (keys : List K) (p : K → Bool) :
    (tally keys).filter (fun e => p e.1) = tally (keys.filter p) := by
  refine ext_get? fun k => ext fun n => ?_
  rw [get?_filter, get?_tally, get?_tally]
  by_cases hp : p k = true
  · have hmem : k ∈ keys.filter p ↔ k ∈ keys := by
      rw [List.mem_filter]
      exact and_iff_left hp
    have hcount : (keys.filter p).countP (fun k' => k' = k) = keys.countP fun k' => k' = k := by
      rw [List.countP_filter]
      refine List.countP_congr fun k' _ => ?_
      rw [Bool.and_eq_true, decide_eq_true_eq]
      exact ⟨fun h => h.1, fun h => ⟨h, h ▸ hp⟩⟩
    rw [hcount, and_iff_left hp]
    simp only [hmem]
  · have hmem : k ∉ keys.filter p := fun h => hp (List.mem_filter.mp h).2
    rw [if_neg hmem]
    exact ⟨fun h => absurd h.2 hp, fun h => by cases h⟩

/-! ## Sums -/

def total {E : Type*} (f : E → Nat) (entries : List E) : Nat :=
  entries.foldl (fun n e => n + f e) 0

variable {E : Type*}

theorem total_cons (f : E → Nat) (e : E) (entries : List E) :
    total f (e :: entries) = f e + total f entries := by
  have hfrom : ∀ (l : List E) (n : Nat), l.foldl (fun n e => n + f e) n = n + total f l := by
    intro l
    induction l with
    | nil => exact fun n => rfl
    | cons e' l ih =>
      intro n
      rw [List.foldl_cons, total, List.foldl_cons, ih, ih (0 + f e')]
      omega
  rw [total, List.foldl_cons, hfrom]
  omega

theorem total_append (f : E → Nat) (l l' : List E) :
    total f (l ++ l') = total f l + total f l' := by
  induction l with
  | nil => rw [List.nil_append]; exact (Nat.zero_add _).symm
  | cons e l ih => rw [List.cons_append, total_cons, total_cons, ih, Nat.add_assoc]

theorem total_perm (f : E → Nat) {l l' : List E} (h : l.Perm l') : total f l = total f l' := by
  induction h with
  | nil => rfl
  | cons e _ ih => rw [total_cons, total_cons, ih]
  | swap e e' l =>
    rw [total_cons, total_cons, total_cons, total_cons]
    omega
  | trans _ _ ih ih' => exact ih.trans ih'

theorem total_insert (f : K × A → Nat) (m : SortedMap K A) (k : K) (v : A) :
    total f (m.insert k v).entries + (((m.get? k).map fun a => f (k, a)).getD 0) =
      total f m.entries + f (k, v) := by
  have hentries : ∀ l : List (K × A), l.Pairwise (fun a b => a.1 < b.1) →
      total f (insertEntry k v l) + (((lookup k l).map fun a => f (k, a)).getD 0) =
        total f l + f (k, v) := by
    intro l hl
    induction l with
    | nil =>
      rw [insertEntry, total_cons, Nat.add_comm]
      rfl
    | cons e l ih =>
      obtain ⟨he, hl⟩ := List.pairwise_cons.mp hl
      rw [insertEntry, lookup]
      by_cases hlt : k < e.1
      · have hnone : lookup k l = none := by
          cases hlookup : lookup k l with
          | none => rfl
          | some a => exact absurd (hlt.trans (he _ (mem_of_lookup hlookup))) (lt_irrefl _)
        rw [if_pos hlt, if_neg hlt.ne, hnone, total_cons]
        simp only [map_none, getD_none]
        omega
      · rw [if_neg hlt]
        by_cases hk : k = e.1
        · rw [if_pos hk, if_pos hk, total_cons, total_cons, map_some, getD_some]
          have he : f (k, e.2) = f e := by rw [hk]
          omega
        · have hrest := ih hl
          rw [if_neg hk, if_neg hk, total_cons, total_cons]
          omega
  exact hentries m.entries m.sorted

/-- **What the groups count for is what their rows do.** -/
theorem total_groupFold {f : K × A → Nat} {g : R → Nat}
    (hfirst : ∀ r, f (key r, upd (init r) r) = g r)
    (hnext : ∀ a r, f (key r, upd a r) = f (key r, a) + g r) (rows : List R) :
    total f (groupFold key init upd rows).entries = total g rows := by
  induction rows using List.reverseRecOn with
  | nil => rfl
  | append_singleton rows r ih =>
    have hinsert := total_insert f (groupFold key init upd rows) (key r)
      (upd (((groupFold key init upd rows).get? (key r)).getD (init r)) r)
    rw [groupFold_concat, joinRow, touch, total_append, ← ih]
    cases hget : (groupFold key init upd rows).get? (key r) with
    | none =>
      rw [hget, map_none, getD_none, getD_none, hfirst] at hinsert
      rw [getD_none, ← Nat.add_zero (total f _), hinsert, total_cons]
      rfl
    | some a =>
      rw [hget, map_some, getD_some, getD_some, hnext] at hinsert
      have hone : total g [r] = g r := total_cons g r []
      rw [getD_some, hone]
      omega

theorem total_congr {f g : E → Nat} {l : List E} (h : ∀ e ∈ l, f e = g e) :
    total f l = total g l := by
  induction l with
  | nil => rfl
  | cons e l ih =>
    rw [total_cons, total_cons, h e (List.mem_cons_self ..),
      ih fun e' he' => h e' (List.mem_cons_of_mem _ he')]

theorem total_add (f g : E → Nat) (l : List E) :
    total (fun e => f e + g e) l = total f l + total g l := by
  induction l with
  | nil => rfl
  | cons e l ih =>
    rw [total_cons, total_cons, total_cons, ih]
    omega

theorem total_zero (l : List E) : total (fun _ => 0) l = 0 := by
  induction l with
  | nil => rfl
  | cons e l ih => rw [total_cons, ih]

theorem total_filterMap {E F : Type*} (f : F → Nat) (g : E → Option F) (l : List E) :
    total f (l.filterMap g) = total (fun e => ((g e).map f).getD 0) l := by
  induction l with
  | nil => rfl
  | cons e l ih =>
    rw [List.filterMap_cons, total_cons]
    cases hg : g e with
    | none => rw [ih, map_none, getD_none, Nat.zero_add]
    | some v => rw [total_cons, ih, map_some, getD_some]

theorem total_indicator [DecidableEq E] {keys : List E} (h : keys.Nodup) {k : E}
    (hk : k ∈ keys) : total (fun k' => if k = k' then 1 else 0) keys = 1 := by
  induction keys with
  | nil => cases hk
  | cons k' keys ih =>
    obtain ⟨hnot, hnodup⟩ := List.nodup_cons.mp h
    rw [total_cons]
    obtain rfl | hk := List.mem_cons.mp hk
    · have hrest : total (fun k' => if k = k' then 1 else 0) keys = total (fun _ => 0) keys :=
        total_congr fun e he => if_neg (ne_of_mem_of_not_mem he hnot).symm
      rw [if_pos rfl, hrest, total_zero]
    · have hne : k ≠ k' := fun heq => hnot (heq ▸ hk)
      rw [if_neg hne, ih hnodup hk]

theorem total_countP {E F : Type*} [DecidableEq E] (key : F → E) {keys : List E}
    (hkeys : keys.Nodup) (p : F → Bool) {rows : List F} (h : ∀ r ∈ rows, key r ∈ keys) :
    total (fun k => (rows.filter fun r => key r = k).countP p) keys = rows.countP p := by
  induction rows with
  | nil => exact total_zero keys
  | cons r rows ih =>
    have hstep : ∀ k ∈ keys, ((r :: rows).filter fun r => key r = k).countP p =
        (rows.filter fun r => key r = k).countP p +
          if p r then (if key r = k then 1 else 0) else 0 := by
      intro k _
      rw [List.filter_cons]
      by_cases hk : key r = k
      · rw [if_pos (decide_eq_true hk), List.countP_cons, if_pos hk]
      · rw [if_neg (by simpa using hk), if_neg hk, ite_self, Nat.add_zero]
    rw [total_congr hstep, total_add, ih fun r' hr' => h r' (List.mem_cons_of_mem _ hr'),
      List.countP_cons]
    split_ifs
    · rw [total_indicator hkeys (h r (List.mem_cons_self ..))]
    · rw [total_zero]

theorem total_one (l : List E) : total (fun _ => 1) l = l.length := by
  induction l with
  | nil => rfl
  | cons e l ih => rw [total_cons, ih, List.length_cons, Nat.add_comm]

theorem total_tally (keys : List K) : total Prod.snd (tally keys).entries = keys.length := by
  rw [tally, total_groupFold (g := fun _ => 1) (fun _ => rfl) (fun _ _ => rfl), total_one]

/-! ## Order -/

section Order

variable {E : Type u} {P : Type v} [LinearOrder P] {place : E → P}

/-- **The first of an ordered list**: those that fewer are before. -/
theorem mem_take_iff {l : List E} (h : l.Pairwise fun a b => place a < place b) {n : Nat} {e : E} :
    e ∈ l.take n ↔ e ∈ l ∧ l.countP (fun x => place x < place e) < n := by
  induction l generalizing n with
  | nil => simp
  | cons a l ih =>
    obtain ⟨ha, hl⟩ := List.pairwise_cons.mp h
    cases n with
    | zero => simp
    | succ n =>
      rw [List.take_succ_cons, List.mem_cons, List.mem_cons, ih hl]
      have hself : l.countP (fun x => place x < place a) = 0 :=
        List.countP_eq_zero.mpr fun x hx => by simpa using (ha x hx).le
      constructor
      · rintro (rfl | ⟨hmem, hcount⟩)
        · refine ⟨.inl rfl, ?_⟩
          rw [List.countP_cons, hself, decide_eq_false (lt_irrefl _)]
          exact Nat.succ_pos _
        · refine ⟨.inr hmem, ?_⟩
          rw [List.countP_cons, decide_eq_true (ha e hmem), if_pos rfl]
          omega
      · rintro ⟨rfl | hmem, hcount⟩
        · exact .inl rfl
        · rw [List.countP_cons, decide_eq_true (ha e hmem), if_pos rfl] at hcount
          exact .inr ⟨hmem, by omega⟩

theorem eq_of_mem_iff {l l' : List E} (h : l.Pairwise fun a b => place a < place b)
    (h' : l'.Pairwise fun a b => place a < place b) (hmem : ∀ e, e ∈ l ↔ e ∈ l') : l = l' := by
  have hnodup : ∀ {t : List E}, (t.Pairwise fun a b => place a < place b) → t.Nodup := by
    intro t ht
    refine List.Pairwise.imp ?_ ht
    intro a b hab heq
    rw [heq] at hab
    exact lt_irrefl _ hab
  have hperm : l.Perm l' := (List.perm_ext_iff_of_nodup (hnodup h) (hnodup h')).mpr hmem
  exact hperm.eq_of_pairwise (fun a b _ _ hab hba => absurd (hab.trans hba) (lt_irrefl _)) h h'

/-- **The order does not depend on where it starts from**, if the places are all different. -/
theorem orderBy_perm_eq {l l' : List E} (hperm : l.Perm l') (h : (l.map place).Nodup) :
    Select.orderBy place l = Select.orderBy place l' := by
  have h' : (l'.map place).Nodup := (hperm.map place).nodup_iff.mp h
  refine eq_of_mem_iff (Select.orderBy_lt h) (Select.orderBy_lt h') fun e => ?_
  rw [Select.mem_orderBy, Select.mem_orderBy]
  exact hperm.mem_iff

end Order

/-! ## Rankings -/

def place (e : K × Nat) : Natᵒᵈ ×ₗ K := toLex (OrderDual.toDual e.2, e.1)

def top (n : Nat) (entries : List (K × Nat)) : List (K × Nat) :=
  (Select.orderBy place entries).take n

theorem place_lt {e e' : K × Nat} : place e < place e' ↔ e'.2 < e.2 ∨ e.2 = e'.2 ∧ e.1 < e'.1 := by
  rw [place, place, Prod.Lex.toLex_lt_toLex]
  exact Iff.rfl

omit [LinearOrder K] in
theorem nodup_place {entries : List (K × Nat)} (h : (entries.map Prod.fst).Nodup) :
    (entries.map place).Nodup := by
  have hmap : entries.map Prod.fst = (entries.map place).map fun x => (ofLex x).2 := by
    rw [List.map_map]
    rfl
  rw [hmap] at h
  exact h.of_map _

theorem mem_top {entries : List (K × Nat)} (h : (entries.map Prod.fst).Nodup) {n : Nat}
    {e : K × Nat} :
    e ∈ top n entries ↔ e ∈ entries ∧ entries.countP (fun x => place x < place e) < n := by
  rw [top, mem_take_iff (Select.orderBy_lt (nodup_place h)), Select.mem_orderBy,
    (Select.orderBy_perm entries).countP_eq]

omit [LinearOrder K] in
theorem countP_le_of_keys {l l' : List (K × Nat)} (h : (l.map Prod.fst).Nodup)
    {p q : K × Nat → Bool}
    (hkeys : ∀ k a, (k, a) ∈ l → p (k, a) = true → ∃ b, (k, b) ∈ l' ∧ q (k, b) = true) :
    l.countP p ≤ l'.countP q := by
  have hlength : ∀ t : List (K × Nat), t.length = (t.map Prod.fst).length :=
    fun t => (List.length_map _).symm
  rw [List.countP_eq_length_filter, List.countP_eq_length_filter, hlength, hlength]
  have hnodup : ((l.filter p).map Prod.fst).Nodup := h.sublist (List.filter_sublist.map _)
  refine (hnodup.subperm fun k hk => ?_).length_le
  obtain ⟨⟨k', a⟩, he, rfl⟩ := List.mem_map.mp hk
  obtain ⟨hmem, hp⟩ := List.mem_filter.mp he
  obtain ⟨b, hb, hq⟩ := hkeys k' a hmem hp
  exact List.mem_map.mpr ⟨(k', b), List.mem_filter.mpr ⟨hb, hq⟩, rfl⟩

section Less

variable {more less : List (K × Nat)} {lost : K → Bool}

/-- **A ranking of less**: the keys that lose some of their count, or all of it, are known, and the
others keep theirs. -/
structure Less (more less : List (K × Nat)) (lost : K → Bool) : Prop where
  nodup_more : (more.map Prod.fst).Nodup
  nodup_less : (less.map Prod.fst).Nodup
  keeps : ∀ k n, lost k = false → ((k, n) ∈ more ↔ (k, n) ∈ less)
  loses : ∀ k n, lost k = true → (k, n) ∈ less → ∃ m, (k, m) ∈ more ∧ n < m

omit [LinearOrder K] in
theorem Less.not_mem (h : Less more less lost) {k : K} {n : Nat} (hlost : lost k = true)
    (hmem : (k, n) ∈ more) : (k, n) ∉ less := by
  intro hless
  obtain ⟨m, hm, hlt⟩ := h.loses k n hlost hless
  have heq := List.inj_on_of_nodup_map h.nodup_more hmem hm rfl
  exact absurd (Prod.mk.inj heq).2 hlt.ne

theorem Less.countP_le (h : Less more less lost) (e : K × Nat) :
    less.countP (fun x => place x < place e) ≤ more.countP (fun x => place x < place e) := by
  refine countP_le_of_keys h.nodup_less fun k n hmem hlt => ?_
  cases hlost : lost k with
  | false => exact ⟨n, (h.keeps k n hlost).mpr hmem, hlt⟩
  | true =>
    obtain ⟨m, hm, hnm⟩ := h.loses k n hlost hmem
    refine ⟨m, hm, decide_eq_true ?_⟩
    exact (place_lt.mpr (.inl hnm)).trans (of_decide_eq_true hlt)

/-- **When the first `n` stay what they are**: when `n` keys that lose nothing stand before each
key that loses. -/
theorem Less.top_eq_iff (h : Less more less lost) (n : Nat) :
    top n more = top n less ↔ ∀ k c, lost k = true → (k, c) ∈ more →
      n ≤ more.countP fun x => lost x.1 = false ∧ place x < place (k, c) := by
  constructor
  · intro heq k c hlost hmem
    have hnot : (k, c) ∉ top n more := by
      intro htop
      rw [heq, mem_top h.nodup_less] at htop
      exact h.not_mem hlost hmem htop.1
    have hmany : n ≤ more.countP (fun x => place x < place (k, c)) := by
      rw [mem_top h.nodup_more, not_and] at hnot
      exact Nat.le_of_not_lt (hnot hmem)
    have hlength : (top n more).length = n := by
      rw [top, List.length_take, (Select.orderBy_perm more).length_eq]
      exact Nat.min_eq_left (hmany.trans List.countP_le_length)
    have hall : ∀ x ∈ top n more, decide (lost x.1 = false ∧ place x < place (k, c)) = true := by
      rintro ⟨k', c'⟩ hx
      have hless : (k', c') ∈ less := by
        rw [heq, mem_top h.nodup_less] at hx
        exact hx.1
      rw [mem_top h.nodup_more] at hx
      refine decide_eq_true ⟨?_, ?_⟩
      · cases hlost' : lost k' with
        | false => rfl
        | true => exact absurd hless (h.not_mem hlost' hx.1)
      · -- otherwise all that stands before `(k, c)` would stand before it
        by_contra hge
        have hmono : more.countP (fun x => place x < place (k, c)) ≤
            more.countP (fun x => place x < place (k', c')) :=
          List.countP_mono_left fun x _ hlt =>
            decide_eq_true ((of_decide_eq_true hlt).trans_le (not_lt.mp hge))
        omega
    have hsub : (top n more).Sublist (Select.orderBy place more) := List.take_sublist _ _
    calc n = (top n more).countP fun x => lost x.1 = false ∧ place x < place (k, c) := by
          rw [List.countP_eq_length.mpr hall, hlength]
      _ ≤ (Select.orderBy place more).countP _ := hsub.countP_le
      _ = _ := (Select.orderBy_perm more).countP_eq _
  · intro hcond
    -- a key that loses, at or before an entry, keeps the entry out of both
    have hbehind : ∀ {k : K} {c : Nat} {e : K × Nat}, lost k = true → (k, c) ∈ more →
        place (k, c) ≤ place e → n ≤ less.countP (fun x => place x < place e) := by
      intro k c e hlost hmem hle
      refine (hcond k c hlost hmem).trans (countP_le_of_keys h.nodup_more fun k' a ha hx => ?_)
      obtain ⟨hkeeps, hlt⟩ := of_decide_eq_true hx
      exact ⟨a, (h.keeps k' a hkeeps).mp ha, decide_eq_true (hlt.trans_le hle)⟩
    have hplaces : ∀ (entries : List (K × Nat)), (entries.map Prod.fst).Nodup →
        (top n entries).Pairwise fun a b => place a < place b := fun entries hentries =>
      (Select.orderBy_lt (nodup_place hentries)).sublist (List.take_sublist _ _)
    refine eq_of_mem_iff (hplaces more h.nodup_more) (hplaces less h.nodup_less) ?_
    rintro ⟨k, c⟩
    rw [mem_top h.nodup_more, mem_top h.nodup_less]
    constructor
    · rintro ⟨hmem, hcount⟩
      have hle := h.countP_le (k, c)
      cases hlost : lost k with
      | false => exact ⟨(h.keeps k c hlost).mp hmem, by omega⟩
      | true =>
        have := hbehind hlost hmem le_rfl
        omega
    · rintro ⟨hmem, hcount⟩
      cases hlost : lost k with
      | true =>
        obtain ⟨m, hm, hlt⟩ := h.loses k c hlost hmem
        have hbefore : place (k, m) < place (k, c) := place_lt.mpr (.inl hlt)
        have := hbehind hlost hm hbefore.le
        omega
      | false =>
        refine ⟨(h.keeps k c hlost).mpr hmem, lt_of_le_of_lt ?_ hcount⟩
        refine countP_le_of_keys h.nodup_more fun k' a ha hx => ?_
        cases hlost' : lost k' with
        | false => exact ⟨a, (h.keeps k' a hlost').mp ha, hx⟩
        | true =>
          have := hbehind hlost' ha (of_decide_eq_true hx).le
          omega

end Less

end Tally
