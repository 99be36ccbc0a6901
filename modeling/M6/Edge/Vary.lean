import M6.Edge.Replay
import M6.Lib.Distinct

/-!
# One `Vary` field

`set_vary_accept_encoding` collapses the `Vary` fields of a response to one that lists
`Accept-Encoding` besides what the backend listed. It runs on a miss, and again on a hit over what
was stored, and `should_cache` decides by the same fields.

`setVary_safe` says that it may be run again, and changes neither another field nor what may be
stored.
-/

namespace M6

open List Distinct Text
open Text (toAsciiLowercase trim)

/-! ## Lists of names -/

/-- A name that a list holds as it is. -/
structure IsMember (n : Str) : Prop where
  noComma : ',' ∉ n
  trimmed : trim n = n
  nonempty : n ≠ []

theorem isMember_of_mem {value n : Str} (h : n ∈ fieldNames value) : IsMember n := by
  obtain ⟨hmem, hne⟩ := mem_filter.mp h
  obtain ⟨t, ht, rfl⟩ := mem_map.mp hmem
  exact ⟨fun hc => Text.not_mem_of_mem_splitOn ht (mem_of_mem_trim hc), trim_trim t,
    of_decide_eq_true hne⟩

theorem fieldNames_single {value : Str} (h : ',' ∉ value) :
    fieldNames value = if trim value = [] then [] else [trim value] := by
  rw [fieldNames, splitOn_eq_singleton h, map_singleton]
  split_ifs with hnil
  · simp [hnil]
  · simp [hnil]

theorem fieldNames_comma (s t : Str) : fieldNames (s ++ ',' :: t) =
    fieldNames s ++ fieldNames t := by
  rw [fieldNames, splitOn_append_cons_self, map_append, filter_append]
  rfl

theorem fieldNames_space (s : Str) : fieldNames (' ' :: s) = fieldNames s := by
  rw [fieldNames, fieldNames, splitOn_cons_eq_if_modifyHead, if_neg (by decide)]
  cases hpieces : s.splitOn ',' with
  | nil => exact absurd hpieces (splitOn_ne_nil _ _)
  | cons t ts =>
    rw [modifyHead_cons, map_cons, map_cons, trim_cons (by decide)]

/-- **Names that are joined are read back.** -/
theorem fieldNames_join {ns : List Str} (h : ∀ n ∈ ns, IsMember n) :
    fieldNames (", ".toList.intercalate ns) = ns := by
  induction ns with
  | nil => rfl
  | cons n ns ih =>
    have hn := h n mem_cons_self
    have hone : fieldNames n = [n] := by
      rw [fieldNames_single hn.noComma, hn.trimmed, if_neg hn.nonempty]
    cases ns with
    | nil =>
      rw [show ", ".toList.intercalate [n] = n by simp [intercalate]]
      exact hone
    | cons m ns =>
      have hjoin : ", ".toList.intercalate (n :: m :: ns) =
          n ++ ',' :: ' ' :: ", ".toList.intercalate (m :: ns) := by
        simp [intercalate]
      rw [hjoin, fieldNames_comma, fieldNames_space, hone,
        ih fun k hk => h k (mem_cons_of_mem _ hk)]
      rfl

/-! ## The members -/

def acceptEncoding : Str := "Accept-Encoding".toList

/-- The names that the `Vary` fields list, in order. -/
def varyMembers (headers : List (Str × Str)) : List Str :=
  (headers.filter (isNamed "vary")).flatMap fun f => fieldNames f.2

theorem addFieldName_eq (ns : List Str) (n : Str) :
    addFieldName ns n = addBy toAsciiLowercase ns n := by
  have hany : (ns.any fun e => eqIgnoreAsciiCase e n) = true ↔
      toAsciiLowercase n ∈ ns.map toAsciiLowercase := by
    rw [any_eq_true, mem_map]
    simp only [eqIgnoreAsciiCase, beq_iff_eq]
  rw [addFieldName, addBy]
  by_cases hmem : toAsciiLowercase n ∈ ns.map toAsciiLowercase
  · rw [if_pos (hany.mpr hmem), if_pos hmem]
  · rw [if_neg (mt hany.mp hmem), if_neg hmem]

/-- **The names of the new field**: each name that was listed once, and the encoding. -/
theorem varyNames_eq (headers : List (Str × Str)) :
    varyNames headers = distinctBy toAsciiLowercase (varyMembers headers ++ [acceptEncoding]) := by
  have hadd : addFieldName = addBy toAsciiLowercase := funext₂ addFieldName_eq
  rw [← foldl_addBy, foldl_append, varyNames, hadd]
  rfl

theorem isMember_of_mem_varyNames {headers : List (Str × Str)} {n : Str}
    (h : n ∈ varyNames headers) : IsMember n := by
  rw [varyNames_eq] at h
  obtain h | h := mem_append.mp ((distinctBy_sublist _ _).subset h)
  · obtain ⟨f, -, hf⟩ := mem_flatMap.mp h
    exact isMember_of_mem hf
  · rw [mem_singleton.mp h]
    exact ⟨by decide, by decide, by decide⟩

def varyField (headers : List (Str × Str)) : Str × Str :=
  ("vary".toList, ", ".toList.intercalate (varyNames headers))

/-- The response with one `Vary` field. -/
def collapsed (headers : List (Str × Str)) : List (Str × Str) :=
  (headers.filter fun f => !isNamed "vary" f) ++ [varyField headers]

theorem filter_vary_collapsed (headers : List (Str × Str)) :
    (collapsed headers).filter (isNamed "vary") = [varyField headers] := by
  rw [collapsed, filter_append, filter_filter]
  have hnone : headers.filter (fun f => isNamed "vary" f && !isNamed "vary" f) = [] :=
    filter_eq_nil_iff.mpr fun f _ => by simp
  rw [hnone]
  rfl

theorem filter_others_collapsed (headers : List (Str × Str)) :
    ((collapsed headers).filter fun f => !isNamed "vary" f) =
      headers.filter fun f => !isNamed "vary" f :=
  filter_replace (fun f hf => by rw [hf]; rfl) rfl headers

theorem varyMembers_collapsed (headers : List (Str × Str)) :
    varyMembers (collapsed headers) = varyNames headers := by
  rw [varyMembers, filter_vary_collapsed, flatMap_singleton]
  exact fieldNames_join fun n hn => isMember_of_mem_varyNames hn

variable (compresses : Bool) (headers : List (Str × Str))

/-- Whether a `Vary` field is a star. -/
def HasStar : Prop := ∃ f ∈ headers, isNamed "vary" f = true ∧ trim f.2 = ['*']

theorem any_star_iff :
    ((headers.filter (isNamed "vary")).any fun f => trim f.2 == ['*']) = true ↔
      HasStar headers := by
  simp only [any_eq_true, mem_filter, beq_iff_eq, and_assoc, HasStar]

theorem setVary_cases :
    setVaryAcceptEncoding compresses headers = headers ∧
        ((compresses = false ∧ headers.filter (isNamed "vary") = []) ∨ HasStar headers) ∨
      setVaryAcceptEncoding compresses headers = collapsed headers ∧ ¬ HasStar headers := by
  rw [setVaryAcceptEncoding]
  split_ifs with hskip hstar
  · rw [Bool.and_eq_true, Bool.not_eq_true', Bool.not_eq_true', any_eq_false] at hskip
    exact .inl ⟨rfl, .inl ⟨hskip.1, filter_eq_nil_iff.mpr hskip.2⟩⟩
  · exact .inl ⟨rfl, .inr ((any_star_iff headers).mp hstar)⟩
  · exact .inr ⟨rfl, fun h => hstar ((any_star_iff headers).mpr h)⟩

theorem setVary_collapsed :
    setVaryAcceptEncoding compresses (collapsed headers) = collapsed headers := by
  have hvary := filter_vary_collapsed headers
  obtain ⟨hsame, -⟩ | ⟨hcollapsed, -⟩ := setVary_cases compresses (collapsed headers)
  · exact hsame
  · -- the names that are read back have the encoding already
    have hnames : varyNames (collapsed headers) = varyNames headers := by
      rw [varyNames_eq, varyMembers_collapsed, varyNames_eq, distinctBy_again]
    rw [hcollapsed, collapsed, filter_others_collapsed, varyField, hnames]
    rfl

/-! ## Storage -/

def isEncodingName (lower : Str) : Bool := lower == toAsciiLowercase "accept-encoding".toList

theorem all_variesOnly : (headers.filter (isNamed "vary")).all variesOnlyOnEncoding =
      (varyMembers headers).all fun n => isEncodingName (toAsciiLowercase n) := by
  rw [varyMembers, all_flatMap]
  rfl

theorem all_varyNames :
    ((varyNames headers).all fun n => isEncodingName (toAsciiLowercase n)) =
      (varyMembers headers).all fun n => isEncodingName (toAsciiLowercase n) := by
  have hadded : isEncodingName (toAsciiLowercase acceptEncoding) = true := by decide
  rw [varyNames_eq, all_distinctBy, all_append, all_cons, all_nil, hadded,
    Bool.and_true, Bool.and_true]

theorem shouldCache_collapsed (status : Nat) :
    shouldCache status (collapsed headers) = shouldCache status headers := by
  have hcontrol : (collapsed headers).filter (isNamed "cache-control") =
      headers.filter (isNamed "cache-control") :=
    filter_replace (fun f hf => isNamed_eq_false hf (by decide)) rfl headers
  have hparse : CacheControl.parse (collapsed headers) = CacheControl.parse headers := by
    rw [CacheControl.parse, cacheDirectives, hcontrol]
    rfl
  rw [shouldCache, shouldCache, hparse, all_variesOnly, varyMembers_collapsed, all_varyNames,
    all_variesOnly]

/-! ## The result -/

/-- **The rewriting is safe to repeat, and never widens caching.** -/
structure VarySafe : Prop where
  idempotent : setVaryAcceptEncoding compresses (setVaryAcceptEncoding compresses headers) =
    setVaryAcceptEncoding compresses headers
  atMostOne : ¬ HasStar headers →
    ((setVaryAcceptEncoding compresses headers).filter (isNamed "vary")).length ≤ 1
  /-- the members are those there were, each at its first occurrence, and possibly the encoding -/
  members : ¬ HasStar headers → ∃ added, (added = [] ∨ added = [acceptEncoding]) ∧
    varyMembers (setVaryAcceptEncoding compresses headers) =
      distinctBy toAsciiLowercase (varyMembers headers ++ added)
  others : ((setVaryAcceptEncoding compresses headers).filter fun f => !isNamed "vary" f) =
    headers.filter fun f => !isNamed "vary" f
  verdict : ∀ status, shouldCache status (setVaryAcceptEncoding compresses headers) =
    shouldCache status headers

/-- **Vary rewriting is safe** for every response. -/
theorem setVary_safe : VarySafe compresses headers := by
  obtain ⟨hsame, hwhy⟩ | ⟨hcollapsed, -⟩ := setVary_cases compresses headers
  · have hnone : ¬ HasStar headers → headers.filter (isNamed "vary") = [] := fun hstar =>
      (hwhy.resolve_right hstar).2
    refine ⟨?_, fun hstar => ?_, fun hstar => ⟨[], .inl rfl, ?_⟩, ?_, fun status => ?_⟩
    · rw [hsame, hsame]
    · rw [hsame, hnone hstar]
      exact Nat.zero_le 1
    · rw [hsame, varyMembers, hnone hstar]
      rfl
    · rw [hsame]
    · rw [hsame]
  · refine ⟨?_, fun _ => ?_, fun _ => ⟨[acceptEncoding], .inr rfl, ?_⟩, ?_, fun status => ?_⟩
    · rw [hcollapsed, setVary_collapsed]
    · rw [hcollapsed, filter_vary_collapsed]
      exact Nat.le_refl 1
    · rw [hcollapsed, varyMembers_collapsed, varyNames_eq]
    · rw [hcollapsed, filter_others_collapsed]
    · rw [hcollapsed, shouldCache_collapsed]

end M6
