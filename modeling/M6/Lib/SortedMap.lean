import Mathlib.Data.List.Lex
import Mathlib.Data.List.Perm.Subperm
import Mathlib.Data.List.Sort
import Mathlib.Algebra.Ring.Nat

/-!
# Ordered maps

A map whose entries are kept in strictly increasing key order. The order is a
field, so no other list of entries can be a map, and two maps with the same
lookups are equal (`ext_get?`). The two facts later proofs use are the lookup
after an insertion (`get?_insert`) and the link between lookups and entries
(`mem_entries`).
-/

universe u v

/-- A map from `K` to `V` with its entries in increasing key order. -/
structure SortedMap (K : Type u) (V : Type v) [LinearOrder K] where
  entries : List (K × V)
  /-- the keys increase strictly -/
  sorted : entries.Pairwise fun a b => a.1 < b.1

namespace SortedMap

open List

variable {K : Type u} {V : Type v} [LinearOrder K]

instance [DecidableEq V] : DecidableEq (SortedMap K V) := fun a b =>
  decidable_of_iff (a.entries = b.entries)
    ⟨fun h => by cases a; cases b; cases h; rfl, fun h => by rw [h]⟩

def empty : SortedMap K V := ⟨[], List.Pairwise.nil⟩

instance : Inhabited (SortedMap K V) := ⟨empty⟩

def insertEntry (k : K) (v : V) : List (K × V) → List (K × V)
  | [] => [(k, v)]
  | e :: l =>
    if k < e.1 then (k, v) :: e :: l
    else if k = e.1 then (k, v) :: l
    else e :: insertEntry k v l

variable {l : List (K × V)} {k : K} {v : V} {e : K × V}

theorem mem_insertEntry (h : e ∈ insertEntry k v l) : e = (k, v) ∨ e ∈ l := by
  induction l with
  | nil => simpa [insertEntry] using h
  | cons a l ih =>
    simp only [insertEntry] at h
    split_ifs at h with h1 h2
    · simpa using h
    · rcases mem_cons.mp h with h | h
      · exact Or.inl h
      · exact Or.inr (mem_cons_of_mem _ h)
    · rcases mem_cons.mp h with h | h
      · exact Or.inr (h ▸ mem_cons_self ..)
      · exact (ih h).imp id (mem_cons_of_mem _)

theorem sorted_insertEntry (k : K) (v : V)
    (h : l.Pairwise fun a b => a.1 < b.1) :
    (insertEntry k v l).Pairwise fun a b => a.1 < b.1 := by
  induction l with
  | nil => simp [insertEntry]
  | cons a l ih =>
    obtain ⟨ha, hl⟩ := pairwise_cons.mp h
    simp only [insertEntry]
    split_ifs with h1 h2
    · refine pairwise_cons.mpr ⟨fun b hb => ?_, h⟩
      rcases mem_cons.mp hb with rfl | hb
      · exact h1
      · exact h1.trans (ha b hb)
    · exact pairwise_cons.mpr ⟨fun b hb => h2 ▸ ha b hb, hl⟩
    · refine pairwise_cons.mpr ⟨fun b hb => ?_, ih hl⟩
      rcases mem_insertEntry hb with rfl | hb
      · exact lt_of_le_of_ne (not_lt.mp h1) (Ne.symm h2)
      · exact ha b hb

def insert (m : SortedMap K V) (k : K) (v : V) : SortedMap K V :=
  ⟨insertEntry k v m.entries, sorted_insertEntry k v m.sorted⟩

/-- The value stored under a key in an entry list. -/
def lookup (k : K) : List (K × V) → Option V
  | [] => none
  | e :: l => if k = e.1 then some e.2 else lookup k l

def get? (m : SortedMap K V) (k : K) : Option V := lookup k m.entries

@[simp] theorem get?_empty (k : K) : (empty : SortedMap K V).get? k = none := rfl

theorem lookup_insertEntry (k : K) (v : V) (l : List (K × V)) (k' : K) :
    lookup k' (insertEntry k v l) = if k' = k then some v else lookup k' l := by
  induction l with
  | nil => simp [insertEntry, lookup]
  | cons a l ih =>
    simp only [insertEntry]
    split_ifs with h1 h2 h3 h4 h5 <;> simp_all [lookup]

@[simp] theorem get?_insert (m : SortedMap K V) (k k' : K) (v : V) :
    (m.insert k v).get? k' = if k' = k then some v else m.get? k' :=
  lookup_insertEntry k v m.entries k'

theorem mem_of_lookup (h : lookup k l = some v) : (k, v) ∈ l := by
  induction l with
  | nil => cases h
  | cons a l ih =>
    simp only [lookup] at h
    split_ifs at h with hk
    · cases h
      exact hk ▸ mem_cons_self ..
    · exact mem_cons_of_mem _ (ih h)

theorem lookup_of_mem
    (hs : l.Pairwise fun a b => a.1 < b.1) (h : (k, v) ∈ l) : lookup k l = some v := by
  induction l with
  | nil => cases h
  | cons a l ih =>
    obtain ⟨ha, hl⟩ := pairwise_cons.mp hs
    simp only [lookup]
    rcases mem_cons.mp h with h | h
    · rw [← h, if_pos rfl]
    · rw [if_neg (ha _ h).ne', ih hl h]

variable {m : SortedMap K V}

theorem mem_entries : (k, v) ∈ m.entries ↔ m.get? k = some v :=
  ⟨lookup_of_mem m.sorted, mem_of_lookup⟩

def filter (m : SortedMap K V) (p : K × V → Bool) : SortedMap K V :=
  ⟨m.entries.filter p, m.sorted.filter p⟩

theorem get?_filter {p : K × V → Bool} :
    (m.filter p).get? k = some v ↔ m.get? k = some v ∧ p (k, v) = true := by
  rw [← mem_entries, ← mem_entries]
  exact mem_filter

def erase (m : SortedMap K V) (k : K) : SortedMap K V := m.filter fun e => e.1 ≠ k

@[simp] theorem get?_erase (m : SortedMap K V) (k k' : K) :
    (m.erase k).get? k' = if k' = k then none else m.get? k' := by
  refine Option.ext fun v => ?_
  rw [erase, get?_filter]
  split_ifs with h
  · simp [h]
  · simp [h]

def map (m : SortedMap K V) (f : V → V) : SortedMap K V :=
  ⟨m.entries.map fun e => (e.1, f e.2), List.pairwise_map.mpr m.sorted⟩

theorem lookup_map (f : V → V) (l : List (K × V)) (k : K) :
    lookup k (l.map fun e => (e.1, f e.2)) = (lookup k l).map f := by
  induction l with
  | nil => rfl
  | cons e l ih =>
    simp only [map_cons, lookup, ih]
    split_ifs <;> rfl

@[simp] theorem get?_map (m : SortedMap K V) (f : V → V) (k : K) :
    (m.map f).get? k = (m.get? k).map f := lookup_map f m.entries k

def mapWith (m : SortedMap K V) (f : K → V → V) : SortedMap K V :=
  ⟨m.entries.map fun e => (e.1, f e.1 e.2), List.pairwise_map.mpr m.sorted⟩

@[simp] theorem get?_mapWith (m : SortedMap K V) (f : K → V → V) (k : K) :
    (m.mapWith f).get? k = (m.get? k).map (f k) := by
  change lookup k (m.entries.map _) = (lookup k m.entries).map (f k)
  induction m.entries with
  | nil => rfl
  | cons e l ih =>
    rw [map_cons, lookup, lookup, ih]
    split_ifs with h
    · rw [h]
      rfl
    · rfl

theorem keys_mapWith (m : SortedMap K V) (f : K → V → V) :
    (m.mapWith f).entries.map Prod.fst = m.entries.map Prod.fst :=
  map_map

theorem entries_unique {l l' : List (K × V)} (hl : l.Pairwise fun a b => a.1 < b.1)
    (hl' : l'.Pairwise fun a b => a.1 < b.1) (h : ∀ e, e ∈ l ↔ e ∈ l') : l = l' := by
  have hnodup : ∀ {t : List (K × V)}, (t.Pairwise fun a b => a.1 < b.1) → t.Nodup := by
    intro t ht
    refine List.Pairwise.imp ?_ ht
    intro a b hab he
    rw [he] at hab
    exact lt_irrefl _ hab
  have hperm : l.Perm l' := (perm_ext_iff_of_nodup (hnodup hl) (hnodup hl')).mpr h
  exact hperm.eq_of_pairwise (fun a b _ _ hab hba => absurd (hab.trans hba) (lt_irrefl _)) hl hl'

theorem nodup_keys (m : SortedMap K V) : (m.entries.map Prod.fst).Nodup := by
  refine pairwise_map.mpr (List.Pairwise.imp ?_ m.sorted)
  intro a b hab he
  rw [he] at hab
  exact lt_irrefl _ hab

theorem mem_keys : k ∈ m.entries.map Prod.fst ↔ ∃ v, m.get? k = some v := by
  constructor
  · intro h
    obtain ⟨e, he, rfl⟩ := mem_map.mp h
    exact ⟨e.2, mem_entries.mp he⟩
  · rintro ⟨v, hv⟩
    exact mem_map.mpr ⟨(k, v), mem_entries.mpr hv, rfl⟩

theorem length_le_of_keys {W : Type*} {m' : SortedMap K W}
    (h : ∀ k v, m.get? k = some v → ∃ w, m'.get? k = some w) :
    m.entries.length ≤ m'.entries.length := by
  have hsub : m.entries.map Prod.fst ⊆ m'.entries.map Prod.fst := fun k hk => by
    obtain ⟨v, hv⟩ := mem_keys.mp hk
    exact mem_keys.mpr (h k v hv)
  have hle := (m.nodup_keys.subperm hsub).length_le
  rwa [length_map, length_map] at hle

theorem length_insert_le (m : SortedMap K V) (k : K) (v : V) :
    (m.insert k v).entries.length ≤ m.entries.length + 1 := by
  change (insertEntry k v m.entries).length ≤ _
  induction m.entries with
  | nil => exact le_refl _
  | cons e l ih =>
    rw [insertEntry]
    split_ifs
    · exact le_refl _
    · exact Nat.le_succ _
    · exact Nat.succ_le_succ ih

theorem length_insert_of_get? (h : m.get? k = some v) (v' : V) :
    (m.insert k v').entries.length ≤ m.entries.length := by
  refine length_le_of_keys fun k' w hw => ?_
  rw [get?_insert] at hw
  split_ifs at hw with hk
  · exact ⟨v, hk ▸ h⟩
  · exact ⟨w, hw⟩

theorem ext_get? {m m' : SortedMap K V} (h : ∀ k, m.get? k = m'.get? k) : m = m' := by
  have he : m.entries = m'.entries := by
    refine entries_unique m.sorted m'.sorted fun e => ?_
    obtain ⟨k, v⟩ := e
    rw [mem_entries, mem_entries, h]
  cases m
  cases m'
  cases he
  rfl

def insertAll (m : SortedMap K V) (l : List (K × V)) : SortedMap K V :=
  l.foldl (fun m e => m.insert e.1 e.2) m

/-- The value that the last entry of a list with key `k` carries. -/
def lastValue (l : List (K × V)) (k : K) : Option V :=
  l.foldl (fun acc e => if k = e.1 then some e.2 else acc) none

@[simp] theorem lastValue_nil (k : K) : lastValue ([] : List (K × V)) k = none := rfl

theorem foldl_last (l : List (K × V)) (k : K) (acc : Option V) :
    l.foldl (fun acc e => if k = e.1 then some e.2 else acc) acc = (lastValue l k).or acc := by
  induction l generalizing acc with
  | nil => rfl
  | cons e l ih =>
    simp only [lastValue, foldl_cons]
    rw [ih, ih (if k = e.1 then some e.2 else none)]
    split_ifs
    all_goals cases lastValue l k <;> rfl

theorem lastValue_cons (e : K × V) (l : List (K × V)) (k : K) :
    lastValue (e :: l) k = (lastValue l k).or (if k = e.1 then some e.2 else none) := by
  rw [lastValue, foldl_cons, foldl_last]

theorem lastValue_append (l l' : List (K × V)) (k : K) :
    lastValue (l ++ l') k = (lastValue l' k).or (lastValue l k) := by
  rw [lastValue, foldl_append, foldl_last]
  rfl

theorem lastValue_eq_none : lastValue l k = none ↔ ∀ e ∈ l, e.1 ≠ k := by
  induction l with
  | nil => simp
  | cons e l ih =>
    rw [lastValue_cons, Option.or_eq_none_iff, ih]
    simp only [mem_cons, forall_eq_or_imp, ite_eq_right_iff, reduceCtorEq, imp_false]
    constructor
    · rintro ⟨hl, he⟩
      exact ⟨fun h => he h.symm, hl⟩
    · rintro ⟨he, hl⟩
      exact ⟨hl, fun h => he h.symm⟩

theorem mem_of_lastValue (h : lastValue l k = some v) : (k, v) ∈ l := by
  induction l with
  | nil => cases h
  | cons e l ih =>
    rw [lastValue_cons, Option.or_eq_some_iff] at h
    rcases h with h | ⟨-, h⟩
    · exact mem_cons_of_mem _ (ih h)
    · split_ifs at h with hk
      cases h
      exact hk ▸ mem_cons_self ..

theorem lastValue_entries (m : SortedMap K V) (k : K) : lastValue m.entries k = m.get? k := by
  rcases h : lastValue m.entries k with _ | v
  · rcases hg : m.get? k with _ | v
    · rfl
    · exact absurd rfl (lastValue_eq_none.mp h _ (mem_entries.mpr hg))
  · exact (mem_entries.mp (mem_of_lastValue h)).symm

@[simp] theorem get?_insertAll (m : SortedMap K V) (l : List (K × V)) (k : K) :
    (m.insertAll l).get? k = (lastValue l k).or (m.get? k) := by
  induction l generalizing m with
  | nil => rfl
  | cons e l ih =>
    rw [insertAll, foldl_cons, ← insertAll, ih, get?_insert, lastValue_cons, Option.or_assoc]
    split_ifs <;> simp

/-! ## Folding along two ordered lists -/

theorem split_of_mem (hl : l.Pairwise fun a b => a.1 < b.1)
    (he : e ∈ l) : ∃ l₁ l₂, l = l₁ ++ e :: l₂ ∧ (∀ a ∈ l₁, a.1 < e.1) ∧ ∀ a ∈ l₂, e.1 < a.1 := by
  obtain ⟨l₁, l₂, rfl⟩ := append_of_mem he
  obtain ⟨-, h₂, h₁⟩ := pairwise_append.mp hl
  exact ⟨l₁, l₂, rfl, fun a ha => h₁ a ha e (mem_cons_self ..),
    (pairwise_cons.mp h₂).1⟩

def below (k : K) (l : List (K × V)) : List (K × V) := l.filter fun e => e.1 < k

theorem mem_below : e ∈ below k l ↔ e ∈ l ∧ e.1 < k := by
  simp [below]

theorem below_cons_of_lt (l : List (K × V)) (h : e.1 < k) :
    below k (e :: l) = e :: below k l := filter_cons_of_pos (by simpa using h)

theorem below_eq_nil (h : ∀ e ∈ l, ¬ e.1 < k) : below k l = [] :=
  filter_eq_nil_iff.mpr fun e he => by simpa using h e he

theorem below_below {k k' : K} (l : List (K × V)) (h : k' ≤ k) :
    below k' (below k l) = below k' l := by
  unfold below
  rw [filter_filter]
  refine filter_congr fun e _ => ?_
  by_cases he : e.1 < k'
  · simp [he, he.trans_le h]
  · simp [he]

theorem sorted_below (k : K) (h : l.Pairwise fun a b => a.1 < b.1) :
    (below k l).Pairwise fun a b => a.1 < b.1 := h.filter _

/-- **Two folds agree** when one runs over an ordered list and the other over an
ordered list of some of its keys, and at each key the first does what the second
does there: the same step where the second has the key, nothing where it has
not. -/
theorem foldl_along {S : Type*} {W : Type*} {f : S → K × V → S} {g : S → K × W → S}
    {c : List (K × W)} {s : S} (hl : l.Pairwise fun a b => a.1 < b.1)
    (hc : c.Pairwise fun a b => a.1 < b.1) (hsub : ∀ e ∈ c, ∃ v, (e.1, v) ∈ l)
    (hhit : ∀ k v w, (k, v) ∈ l → (k, w) ∈ c → f ((below k c).foldl g s) (k, v) =
        g ((below k c).foldl g s) (k, w)) (hmiss : ∀ k v, (k, v) ∈ l → (∀ w, (k, w) ∉ c) →
      f ((below k c).foldl g s) (k, v) = (below k c).foldl g s) : l.foldl f s = c.foldl g s := by
  induction l generalizing c s with
  | nil =>
    rcases c with _ | ⟨e, c⟩
    · rfl
    · obtain ⟨v, hv⟩ := hsub e (mem_cons_self ..)
      cases hv
  | cons a l ih =>
    obtain ⟨k, v⟩ := a
    obtain ⟨hk, hl'⟩ := pairwise_cons.mp hl
    -- no key of `c` is below the first key of the list
    have hmin : ∀ e ∈ c, ¬ e.1 < k := by
      intro e he hlt
      obtain ⟨v', hv'⟩ := hsub e he
      rcases mem_cons.mp hv' with hv' | hv'
      · exact absurd (Prod.mk.inj hv').1 hlt.ne
      · exact lt_asymm hlt (hk _ hv')
    have hempty : below k c = [] := below_eq_nil hmin
    rw [foldl_cons]
    by_cases hmem : ∃ w, (k, w) ∈ c
    · -- the first key is one of `c`, hence its first
      obtain ⟨w, hw⟩ := hmem
      rcases c with _ | ⟨e, c⟩
      · cases hw
      obtain ⟨he, hc'⟩ := pairwise_cons.mp hc
      have hek : e = (k, w) := by
        rcases mem_cons.mp hw with hw | hw
        · exact hw.symm
        · exact absurd (he _ hw) (hmin e (mem_cons_self ..))
      subst hek
      have hhead := hhit k v w (mem_cons_self ..) (mem_cons_self ..)
      rw [hempty] at hhead
      simp only [foldl_nil] at hhead
      rw [foldl_cons, hhead]
      refine ih hl' hc' (fun e' he' => ?_) (fun k' v' w' hl₁ hc₁ => ?_) (fun k' v' hl₁ hc₁ => ?_)
      · obtain ⟨v', hv'⟩ := hsub e' (mem_cons_of_mem _ he')
        rcases mem_cons.mp hv' with hv' | hv'
        · exact absurd (Prod.mk.inj hv').1 (he e' he').ne'
        · exact ⟨v', hv'⟩
      · have := hhit k' v' w' (mem_cons_of_mem _ hl₁) (mem_cons_of_mem _ hc₁)
        rwa [below_cons_of_lt c (hk _ hl₁), foldl_cons] at this
      · have := hmiss k' v' (mem_cons_of_mem _ hl₁) fun w' hw' => by
          rcases mem_cons.mp hw' with hw' | hw'
          · exact absurd (Prod.mk.inj hw').1 (hk _ hl₁).ne'
          · exact hc₁ w' hw'
        rwa [below_cons_of_lt c (hk _ hl₁), foldl_cons] at this
    · -- the first key is not one of `c`: nothing happens
      have hhead := hmiss k v (mem_cons_self ..) fun w hw => hmem ⟨w, hw⟩
      rw [hempty] at hhead
      simp only [foldl_nil] at hhead
      rw [hhead]
      refine ih hl' hc (fun e' he' => ?_) (fun k' v' w' hl₁ hc₁ => ?_) (fun k' v' hl₁ hc₁ => ?_)
      · obtain ⟨v', hv'⟩ := hsub e' he'
        rcases mem_cons.mp hv' with hv' | hv'
        · exact absurd ⟨e'.2, by rw [← (Prod.mk.inj hv').1]; exact he'⟩ hmem
        · exact ⟨v', hv'⟩
      · exact hhit k' v' w' (mem_cons_of_mem _ hl₁) hc₁
      · exact hmiss k' v' (mem_cons_of_mem _ hl₁) hc₁

end SortedMap
