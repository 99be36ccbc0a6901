import M6.Edge.CacheRuns

/-!
# Which responses a key reaches

`CacheKey::new`, `make_lookup_key` and `evict_path` of `cache.rs`. A key is a path, a query and an
encoding, with the character `\x01` behind each of the first two; nothing keeps that character out
of the three texts. So two variants may have one key: the path `/a` with the query `x\x01`, and the
path `/a\x01x` without a query.

`isolation_iff` says for which requests and which paths that makes no difference.
-/

namespace M6

open List Option SortedMap Text

namespace Cache

/-! ## Variants -/

/-- A variant: the path, the query and the encoding that a response is stored under. -/
structure Variant where
  path : Str
  query : Option Str
  encoding : Str
  deriving DecidableEq

namespace Variant

def separator : Char := '\x01'

/-- `CacheKey::new`. -/
def key (v : Variant) : Str := cacheKey v.path v.query v.encoding

/-- `make_lookup_key`. -/
def lookupKey (v : Variant) : Str := makeLookupKey v.path v.query v.encoding

def Same (v v' : Variant) : Prop :=
  barePath v.path = barePath v'.path ∧ v.query.getD [] = v'.query.getD [] ∧
    v.encoding = v'.encoding

def Flat (v : Variant) : Prop :=
  separator ∉ barePath v.path ∧ separator ∉ v.query.getD [] ∧ separator ∉ v.encoding

/-- The key does not fit in the buffer of a lookup. -/
def Overlong (v : Variant) : Prop :=
  512 < (Utf8.encode (barePath v.path)).length + (Utf8.encode (v.query.getD [])).length +
    (Utf8.encode v.encoding).length + 2

instance (v : Variant) : Decidable v.Flat :=
  inferInstanceAs (Decidable (_ ∧ _ ∧ _))

instance (v : Variant) : Decidable v.Overlong :=
  inferInstanceAs (Decidable (_ < _))

theorem key_eq (v : Variant) :
    v.key = barePath v.path ++ separator :: (v.query.getD [] ++ separator :: v.encoding) := by
  simp [key, cacheKey, pathPrefix, separator]

theorem key_ne_nil (v : Variant) : v.key ≠ [] := by
  rw [key_eq]
  exact append_ne_nil_of_right_ne_nil _ (cons_ne_nil _ _)

theorem lookupKey_of_overlong {v : Variant} (h : v.Overlong) : v.lookupKey = [] :=
  if_neg (not_le.mpr h)

theorem lookupKey_of_fits {v : Variant} (h : ¬ v.Overlong) : v.lookupKey = v.key :=
  if_pos (not_lt.mp h)

theorem count_key (v : Variant) : v.key.count separator = (barePath v.path).count separator +
      (v.query.getD []).count separator + v.encoding.count separator + 2 := by
  simp only [key_eq, count_append, count_cons_self]
  omega

theorem flat_iff_count (v : Variant) : v.Flat ↔ v.key.count separator = 2 := by
  simp only [Flat, count_key, ← count_eq_zero]
  omega

theorem same_of_key {v v' : Variant} (h : v.Flat) (hkey : v'.key = v.key) : v'.Same v := by
  have h' : v'.Flat := by
    rw [flat_iff_count, hkey]
    exact v.flat_iff_count.mp h
  rw [key_eq, key_eq] at hkey
  have hpath := congrArg (cutAt separator) hkey
  rw [cutAt_append _ h'.1, cutAt_append _ h.1, Prod.mk.injEq, some.injEq] at hpath
  have hquery := congrArg (cutAt separator) hpath.2
  rw [cutAt_append _ h'.2.1, cutAt_append _ h.2.1, Prod.mk.injEq, some.injEq] at hquery
  exact ⟨hpath.1, hquery.1, hquery.2⟩

theorem not_mem_barePath (path : Str) : '?' ∉ barePath path := not_mem_cutAt '?' path

theorem barePath_of_not_mem {path : Str} (h : '?' ∉ path) : barePath path = path := by
  rw [barePath, cutAt_of_absent h]

theorem exists_other {v : Variant} (h : ¬ v.Flat) :
    ∃ v' : Variant, v'.key = v.key ∧ ¬ v'.Same v := by
  by_cases hpath : separator ∈ barePath v.path
  · obtain ⟨a, b, hab⟩ := append_of_mem hpath
    have ha : barePath a = a := by
      refine barePath_of_not_mem fun hmem => not_mem_barePath v.path ?_
      rw [hab]
      exact mem_append_left _ hmem
    refine ⟨⟨a, some (b ++ separator :: v.query.getD []), v.encoding⟩, ?_, fun hsame => ?_⟩
    · simp [key_eq, ha, hab]
    · have hlen : (barePath v.path).length = a.length :=
        congrArg List.length (hsame.1.symm.trans ha)
      rw [hab, length_append, length_cons] at hlen
      omega
  by_cases hquery : separator ∈ v.query.getD []
  · obtain ⟨a, b, hab⟩ := append_of_mem hquery
    refine ⟨⟨v.path, some a, b ++ separator :: v.encoding⟩, ?_, fun hsame => ?_⟩
    · simp [key_eq, hab]
    · have hlen : a.length = (v.query.getD []).length := congrArg List.length hsame.2.1
      rw [hab, length_append, length_cons] at hlen
      omega
  · have hencoding : separator ∈ v.encoding := by
      by_contra hno
      exact h ⟨hpath, hquery, hno⟩
    obtain ⟨a, b, hab⟩ := append_of_mem hencoding
    refine ⟨⟨v.path, some (v.query.getD [] ++ separator :: a), b⟩, ?_, fun hsame => ?_⟩
    · simp [key_eq, hab]
    · have hlen : b.length = v.encoding.length := congrArg List.length hsame.2.2
      rw [hab, length_append, length_cons] at hlen
      omega

end Variant

open Variant

/-! ## Runs -/

inductive VariantOp where
  | insert (now : ClockReading) (v : Variant) (r : CachedResponse)
  | lookup (now : Nat) (v : Variant)
  | evictPath (path : Str)
  | evictPaths (paths : List Str)
  | clear
  | elsewhere

def VariantOp.op : VariantOp → Op
  | .insert now v r => .insert now v.key r
  | .lookup now v => .lookup now v.lookupKey
  | .evictPath path => .evictPath path
  | .evictPaths paths => .evictPaths paths
  | .clear => .clear
  | .elsewhere => .elsewhere

def VariantOp.inserted? : VariantOp → Option (Str × Variant × CachedResponse)
  | .insert _ v r => some (v.key, v, r)
  | _ => none

def inserted (ops : List VariantOp) : List (Str × Variant × CachedResponse) :=
  ops.filterMap VariantOp.inserted?

theorem inserted_concat (ops : List VariantOp) (op : VariantOp) :
    inserted (ops ++ [op]) = inserted ops ++ op.inserted?.toList := by
  rw [inserted, filterMap_append, ← inserted]
  cases hop : op.inserted? with
  | none => rw [filterMap_cons_none hop]; rfl
  | some e => rw [filterMap_cons_some hop]; rfl

def runVariants (date : HttpDate) (maxBytes entrySize : Nat) (ops : List VariantOp) : Cache :=
  (new maxBytes entrySize).run date (ops.map VariantOp.op)

def Attributed (ops : List VariantOp) (c : Cache) : Prop :=
  ∀ k r, c.Holds k r → ∃ v, SortedMap.lastValue (inserted ops) k = some (v, r)

variable {c : Cache}

theorem holds_insert_self {date : HttpDate} {now : ClockReading} {key : Str}
    {r r' : CachedResponse} (h : (c.insert date now key r).Holds key r') : r' = r := by
  obtain ⟨e, he, rfl⟩ := h
  obtain ⟨tick, rfl⟩ := stored_insert date now c key r e he
  rfl

variable {r : CachedResponse}

theorem holds_evictPaths {paths : List Str} {k : Str}
    (h : (c.evictPaths paths).Holds k r) : c.Holds k r := by
  induction paths generalizing c with
  | nil => exact h
  | cons path paths ih => exact (holds_evictPath (ih h)).1

theorem holds_of_apply {date : HttpDate} {op : VariantOp} {k : Str}
    (hop : op.inserted? = none) (h : (c.apply date op.op).Holds k r) : c.Holds k r := by
  cases op with
  | insert now v r => exact nomatch hop
  | lookup now v => exact (lookup_cases now c v.lookupKey).1 k r h
  | evictPath path => exact (holds_evictPath h).1
  | evictPaths paths => exact holds_evictPaths h
  | clear => exact absurd h not_holds_clear
  | elsewhere => exact h

variable {ops : List VariantOp}

theorem Attributed.insert (h : Attributed ops c)
    (date : HttpDate) (now : ClockReading) (v : Variant) (r : CachedResponse) :
    Attributed (ops ++ [.insert now v r]) (c.insert date now v.key r) := by
  intro k r' hholds
  have hlast : lastValue (inserted (ops ++ [.insert now v r])) k =
      if k = v.key then some (v, r) else lastValue (inserted ops) k := by
    rw [inserted_concat, lastValue_append]
    simp only [VariantOp.inserted?, toList_some, lastValue_cons, lastValue_nil, none_or]
    split_ifs <;> rfl
  rw [hlast]
  by_cases hk : k = v.key
  · subst hk
    rw [if_pos rfl, holds_insert_self hholds]
    exact ⟨v, rfl⟩
  · rw [if_neg hk]
    exact h k r' ((holds_insert hholds).resolve_left fun h => hk h.1)

theorem Attributed.apply (h : Attributed ops c) (date : HttpDate)
    (op : VariantOp) : Attributed (ops ++ [op]) (c.apply date op.op) := by
  cases hop : op.inserted? with
  | none =>
    intro k r hholds
    obtain ⟨v, hv⟩ := h k r (holds_of_apply hop hholds)
    exact ⟨v, by rw [inserted_concat, hop, toList_none, append_nil, hv]⟩
  | some e =>
    cases op with
    | insert now v r => exact h.insert date now v r
    | lookup now v | evictPath path | evictPaths paths | clear | elsewhere => exact nomatch hop

theorem attributed_run (date : HttpDate) (maxBytes entrySize : Nat) (ops : List VariantOp) :
    Attributed ops (runVariants date maxBytes entrySize ops) := by
  induction ops using reverseRecOn with
  | nil => exact fun k r h => absurd h not_holds_new
  | append_singleton ops op ih =>
    have hstep : runVariants date maxBytes entrySize (ops ++ [op]) =
        (runVariants date maxBytes entrySize ops).apply date op.op := by
      rw [runVariants, map_append, run, foldl_append]
      rfl
    rw [hstep]
    exact ih.apply date op

/-! ## Lookups -/

/-- Whatever was done before, a lookup of a variant returns only what was inserted for it. -/
def Isolated (v : Variant) : Prop :=
  ∀ (date : HttpDate) (maxBytes entrySize : Nat) (ops : List VariantOp) (now : Nat)
    (req : RequestDirectives) (r : CachedResponse) (age : Nat),
    (lookupWith now (runVariants date maxBytes entrySize ops) v.lookupKey req).1 = .fresh r age ∨
      (lookupWith now (runVariants date maxBytes entrySize ops) v.lookupKey req).1 =
        .stale r age →
    ∃ stored v', .insert stored v' r ∈ ops ∧ v'.Same v

variable {v : Variant}

theorem exists_insert {k : Str} (h : SortedMap.lastValue (inserted ops) k = some (v, r)) :
    v.key = k ∧ ∃ now, .insert now v r ∈ ops := by
  obtain ⟨op, hop, hins⟩ := mem_filterMap.mp (mem_of_lastValue h)
  cases op with
  | insert now v' r' =>
    obtain ⟨hkey, hv⟩ := Prod.mk.inj (some.inj hins)
    cases hv
    exact ⟨hkey, now, hop⟩
  | lookup now v' | evictPath path | evictPaths paths | clear | elsewhere => exact nomatch hins

theorem isolated_of_flat (h : v.Flat ∨ v.Overlong) : Isolated v := by
  intro date maxBytes entrySize ops now req r age hfound
  have hholds := (holds_lookupWith now _ v.lookupKey req).2 r age hfound
  obtain ⟨v', hv'⟩ := attributed_run date maxBytes entrySize ops _ _ hholds
  obtain ⟨hkey, stored, hmem⟩ := exists_insert hv'
  by_cases hlong : v.Overlong
  · rw [lookupKey_of_overlong hlong] at hkey
    exact absurd hkey v'.key_ne_nil
  · rw [lookupKey_of_fits hlong] at hkey
    exact ⟨stored, v', hmem, same_of_key (h.resolve_right hlong) hkey⟩

def bareResponse : CachedResponse := ⟨0, 200, [], []⟩

def noDates : HttpDate := ⟨fun _ => none, fun _ => []⟩

/-- A client that asks for nothing in particular. -/
def noDirectives : RequestDirectives := ⟨false, none, none, none, false⟩

theorem lookupWith_noDirectives (now : Nat) (c : Cache) (key : Str) :
    (lookupWith now c key noDirectives).1 = (Cache.lookup now c key).1 := by
  rw [lookupWith, if_neg (by decide)]
  cases hl : Cache.lookup now c key with
  | mk found c' =>
    cases found with
    | fresh r age | stale r age | miss => rfl

theorem lookup_bareResponse (key : Str) :
    (lookupWith 0 ((roomFor key bareResponse).insert noDates ⟨0, 0⟩ key bareResponse) key
      noDirectives).1 = .fresh bareResponse 0 := by
  have hget : ((roomFor key bareResponse).insert noDates ⟨0, 0⟩ key bareResponse).map.get? key =
      some { entryOf noDates ⟨0, 0⟩ (roomFor key bareResponse) key bareResponse with
        lastRead := (roomFor key bareResponse).readTick } :=
    get?_roomFor noDates ⟨0, 0⟩ key bareResponse
  have hlookup := lookup_entry hget 0
  rw [if_pos (by decide)] at hlookup
  rw [lookupWith_noDirectives, hlookup]
  rfl

theorem not_isolated_of_key {v v' : Variant} (hfits : ¬ v.Overlong) (hkey : v'.key = v.key)
    (hother : ¬ v'.Same v) : ¬ Isolated v := by
  intro h
  have hfound := lookup_bareResponse v'.key
  obtain ⟨stored, v'', hmem, hsame⟩ := h noDates ((new 0 0).entryFootprint v'.key bareResponse) 0
    [.insert ⟨0, 0⟩ v' bareResponse] 0 noDirectives bareResponse 0
    (Or.inl (by rw [lookupKey_of_fits hfits, ← hkey]; exact hfound))
  cases mem_singleton.mp hmem
  exact hother hsame

/-- **A variant is isolated** if and only if the separator is in none of its texts, or they are too
long to be looked up at all. -/
theorem isolated_iff_flat (v : Variant) : Isolated v ↔ v.Flat ∨ v.Overlong := by
  refine ⟨fun h => ?_, isolated_of_flat⟩
  by_contra hno
  obtain ⟨hflat, hfits⟩ := not_or.mp hno
  obtain ⟨v', hkey, hother⟩ := exists_other hflat
  exact not_isolated_of_key hfits hkey hother h

/-! ## Evictions -/

/-- Whatever was done before, an eviction of a path removes what is there for another path exactly
if that is the same one. -/
def EvictsApart (path other : Str) : Prop :=
  ∀ (date : HttpDate) (maxBytes entrySize : Nat) (ops : List VariantOp) (v : Variant)
    (r : CachedResponse), SortedMap.lastValue (inserted ops) v.key = some (v, r) →
    barePath v.path = barePath other → (runVariants date maxBytes entrySize ops).Holds v.key r →
    (¬ ((runVariants date maxBytes entrySize ops).evictPath path).Holds v.key r ↔
      barePath other = barePath path)

def Continued (path other : Str) : Prop :=
  pathPrefix path <+: barePath other ∨ pathPrefix other <+: barePath path

instance (path other : Str) : Decidable (Continued path other) :=
  inferInstanceAs (Decidable (_ ∨ _))

theorem holds_evictPath_iff {path k : Str} (h : c.Holds k r) :
    (c.evictPath path).Holds k r ↔ ¬ pathPrefix path <+: k := by
  refine ⟨fun hleft => (holds_evictPath hleft).2, fun hnot => ?_⟩
  obtain ⟨e, he, hr⟩ := h
  exact ⟨e, get?_filter.mpr ⟨he, by simpa using hnot⟩, hr⟩

theorem prefix_key_iff {path : Str} (h : ¬ Continued path v.path) :
    pathPrefix path <+: v.key ↔ barePath v.path = barePath path := by
  constructor
  · intro hpre
    have hown : pathPrefix v.path <+: v.key := pathPrefix_cacheKey _ _ _
    rcases prefix_or_prefix_of_prefix hpre hown with hle | hle
    · rcases prefix_concat_iff.mp hle with heq | hlt
      · exact (append_inj_left' heq rfl).symm
      · exact absurd (Or.inl hlt) h
    · rcases prefix_concat_iff.mp hle with heq | hlt
      · exact append_inj_left' heq rfl
      · exact absurd (Or.inr hlt) h
  · intro heq
    rw [pathPrefix, ← heq]
    exact pathPrefix_cacheKey _ _ _

theorem exists_evicted {path other : Str} (h : Continued path other) :
    ∃ v : Variant, barePath v.path = barePath other ∧ pathPrefix path <+: v.key := by
  obtain hlonger | ⟨w, hw⟩ := h
  · refine ⟨⟨other, none, []⟩, rfl, hlonger.trans ?_⟩
    exact (prefix_append _ _).trans (pathPrefix_cacheKey other none [])
  · refine ⟨⟨other, some w, []⟩, rfl, ?_⟩
    simp [pathPrefix, key_eq, ← hw, separator]

theorem not_evictsApart_of_prefix {path other : Str}
    (hv : barePath v.path = barePath other) (hpre : pathPrefix path <+: v.key)
    (hother : barePath other ≠ barePath path) : ¬ EvictsApart path other := by
  intro h
  have hholds : (runVariants noDates ((new 0 0).entryFootprint v.key bareResponse) 0
      [.insert ⟨0, 0⟩ v bareResponse]).Holds v.key bareResponse :=
    ⟨_, get?_roomFor noDates ⟨0, 0⟩ v.key bareResponse, rfl⟩
  have hlast : lastValue (inserted [.insert ⟨0, 0⟩ v bareResponse]) v.key =
      some (v, bareResponse) := by
    simp [inserted, VariantOp.inserted?, lastValue]
  have hgone := h noDates _ 0 _ v bareResponse hlast hv hholds
  rw [holds_evictPath_iff hholds, not_not] at hgone
  exact hother (hgone.mp hpre)

theorem evictsApart_iff (path other : Str) :
    EvictsApart path other ↔ barePath other = barePath path ∨ ¬ Continued path other := by
  constructor
  · intro h
    by_contra hno
    obtain ⟨hother, hcont⟩ := not_or.mp hno
    obtain ⟨v, hv, hpre⟩ := exists_evicted (not_not.mp hcont)
    exact not_evictsApart_of_prefix hv hpre hother h
  · intro h date maxBytes entrySize ops v r _ hv hholds
    rw [holds_evictPath_iff hholds, not_not, ← hv]
    by_cases hcont : Continued path v.path
    · have hsame : barePath v.path = barePath path := by
        rw [hv]
        refine h.resolve_right (not_not.mpr ?_)
        rwa [Continued, pathPrefix, pathPrefix, hv] at hcont
      refine ⟨fun _ => hsame, fun _ => ?_⟩
      rw [pathPrefix, ← hsame]
      exact pathPrefix_cacheKey _ _ _
    · exact prefix_key_iff hcont

/-- **Keys keep variants apart** where no text holds the separator. What a lookup returns was
inserted for the same path, query and encoding if and only if the separator is in none of these, or
they are too long to be looked up; and an eviction of a path removes what is there for another one
exactly if they are the same, if and only if they are, or neither goes on with the separator where
the other one ends. -/
theorem isolation_iff (v : Variant) (path other : Str) :
    (Isolated v ↔ v.Flat ∨ v.Overlong) ∧
      (EvictsApart path other ↔ barePath other = barePath path ∨ ¬ Continued path other) :=
  ⟨isolated_iff_flat v, evictsApart_iff path other⟩

/-- The path `/a` with the query `x\x01`. -/
def queried : Variant := ⟨"/a".toList, some "x\x01".toList, "gzip".toList⟩

/-- The path `/a\x01x` without a query. -/
def continuedPath : Variant := ⟨"/a\x01x".toList, none, "gzip".toList⟩

/-- Either of the two is answered with the other, and an eviction of `/a` takes both. -/
theorem variants_collide :
    ¬ Isolated continuedPath ∧ ¬ EvictsApart queried.path continuedPath.path := by
  have hkey : queried.key = continuedPath.key := by decide
  refine ⟨not_isolated_of_key (by decide) hkey fun hsame => ?_, ?_⟩
  · exact nomatch hsame.1
  · have hpre : pathPrefix queried.path <+: continuedPath.key := by decide
    exact not_evictsApart_of_prefix rfl hpre (by decide)

end Cache

end M6
