import M6.Edge.Cache
import M6.Lib.Quoted

/-!
# `Cache-Control` over several field lines

`CacheControl::parse`, `split_directives` and `should_cache` of `cache.rs`. The splitter cuts a
value as the library cuts a list with quoted strings (`splitDirectives_eq`), so that several field
lines are one joined line (`cacheDirectives_joined`), and a directive is recognised exactly where it
stands at the beginning of a piece (`mem_names_iff`), never inside quotes.
-/

namespace M6

open List Quoted Text

/-! ## The splitter -/

def Splitter.At (s : Splitter) : QuoteState → Prop
  | .outside => s.inQuotes = false ∧ s.escaped = false
  | .inside => s.inQuotes = true ∧ s.escaped = false
  | .escaped => s.inQuotes = true ∧ s.escaped = true

theorem Splitter.At.push {s : Splitter} {q : QuoteState} (h : s.At q) {c : Char}
    (hcut : ¬ (q = .outside ∧ c = ',')) :
    (s.push c).At (next q c) ∧ (s.push c).out = s.out ∧ (s.push c).cur = s.cur ++ [c] := by
  obtain ⟨out, cur, inQuotes, escaped⟩ := s
  cases q with
  | outside =>
    obtain ⟨rfl, rfl⟩ : inQuotes = false ∧ escaped = false := h
    have hc : c ≠ ',' := fun hc => hcut ⟨rfl, hc⟩
    by_cases hquote : c = '"'
    · simp [Splitter.push, Splitter.At, Quoted.next, hquote]
    · simp [Splitter.push, Splitter.At, Quoted.next, hquote, hc]
  | inside =>
    obtain ⟨rfl, rfl⟩ : inQuotes = true ∧ escaped = false := h
    by_cases hslash : c = '\\'
    · simp [Splitter.push, Splitter.At, Quoted.next, hslash]
    by_cases hquote : c = '"'
    · simp [Splitter.push, Splitter.At, Quoted.next, hquote]
    · simp [Splitter.push, Splitter.At, Quoted.next, hslash, hquote]
  | escaped =>
    obtain ⟨rfl, rfl⟩ : inQuotes = true ∧ escaped = true := h
    simp [Splitter.push, Splitter.At, Quoted.next]

theorem Splitter.At.push_comma {s : Splitter} (h : s.At .outside) : s.push ',' = s.cut := by
  have hquotes : s.inQuotes = false := h.1
  simp [Splitter.push, hquotes]

theorem foldl_push {s : Splitter} {q : QuoteState} (h : s.At q) (t : Str) :
    (t.foldl Splitter.push s).cut.out =
      s.out ++ (piecesFrom ',' q s.cur t).filterMap directive := by
  induction t generalizing s q with
  | nil =>
    rw [foldl_nil, piecesFrom, filterMap_cons, filterMap_nil, Splitter.cut]
    cases directive s.cur <;> rfl
  | cons c t ih =>
    rw [foldl_cons, piecesFrom]
    split_ifs with hcut
    · obtain ⟨rfl, rfl⟩ := hcut
      have hat : s.cut.At .outside := h
      rw [h.push_comma, ih hat, Splitter.cut, filterMap_cons]
      cases directive s.cur <;> simp
    · obtain ⟨hat, hout, hcur⟩ := h.push hcut
      rw [ih hat, hout, hcur]

/-- **The splitter cuts at the commas outside quotes.** -/
theorem splitDirectives_eq (value : Str) :
    splitDirectives value = (pieces ',' value).filterMap directive := by
  have hat : Splitter.At ⟨[], [], false, false⟩ .outside := ⟨rfl, rfl⟩
  rw [splitDirectives, foldl_push hat]
  rfl

/-- The field lines of `Cache-Control`, joined with commas. -/
def joinedCacheControl (headers : List (Str × Str)) : Str :=
  [','].intercalate ((headers.filter (isNamed "cache-control")).map Prod.snd)

variable {headers : List (Str × Str)}

theorem cacheDirectives_joined
    (h : ∀ f ∈ headers, isNamed "cache-control" f = true → Balanced f.2) :
    cacheDirectives [("Cache-Control".toList, joinedCacheControl headers)] =
      cacheDirectives headers := by
  have hname : isNamed "cache-control" ("Cache-Control".toList, joinedCacheControl headers) =
      true := rfl
  rw [cacheDirectives, filter_cons_of_pos hname, filter_nil, flatMap_singleton,
    splitDirectives_eq, joinedCacheControl, cacheDirectives]
  cases hlines : headers.filter (isNamed "cache-control") with
  | nil => rfl
  | cons f lines =>
    rw [pieces_intercalate (by decide) ?_ (by simp), filterMap_flatMap, flatMap_map]
    · simp only [splitDirectives_eq]
    · intro l hl
      obtain ⟨g, hg, rfl⟩ := mem_map.mp hl
      rw [← hlines] at hg
      obtain ⟨hmem, hnamed⟩ := mem_filter.mp hg
      exact h g hmem hnamed

/-! ## Names -/

def directiveName (raw : Str) : Str := toAsciiLowercase (Text.trim (cutAt '=' raw).1)

theorem directiveName_eq (raw : Str) :
    directiveName raw = toAsciiLowercase (Text.trim (cutAt '=' (Text.trim raw)).1) := by
  rw [directiveName, trim_cutAt_trim (by decide)]

theorem directive_name {raw : Str} {d : Str × Option Str} (h : directive raw = some d) :
    d.1 = directiveName raw := by
  rw [directiveName_eq]
  rw [directive] at h
  cases htrim : Text.trim raw with
  | nil =>
    rw [htrim] at h
    exact nomatch h
  | cons c s =>
    have hself : Text.trim (c :: s) = c :: s := by rw [← htrim, trim_trim]
    rw [htrim] at h
    dsimp only at h
    obtain ⟨-, hcut⟩ | ⟨t, -, hcut⟩ := cutAt_cases '=' (c :: s)
    · rw [hcut] at h ⊢
      rw [hself]
      exact congrArg Prod.fst (Option.some.inj h).symm
    · rw [hcut] at h
      exact congrArg Prod.fst (Option.some.inj h).symm

theorem directive_of_name {raw : Str} (h : directiveName raw ≠ []) :
    ∃ d, directive raw = some d := by
  rw [directiveName_eq] at h
  rw [directive]
  cases htrim : Text.trim raw with
  | nil =>
    rw [htrim] at h
    exact absurd rfl h
  | cons c s =>
    dsimp only
    obtain ⟨-, hcut⟩ | ⟨t, -, hcut⟩ := cutAt_cases '=' (c :: s)
    all_goals exact ⟨_, by rw [hcut]⟩

/-- A name that may be looked for: nothing in it ends a name or a piece. -/
def IsName (name : Str) : Prop := name ≠ [] ∧ '"' ∉ name ∧ ',' ∉ name ∧ '=' ∉ name

instance (name : Str) : Decidable (IsName name) := inferInstanceAs (Decidable (_ ∧ _ ∧ _ ∧ _))

/-- A directive occurs in a line: at its beginning or behind a comma outside quotes its name
stands, and then a value, a comma or nothing. -/
def Occurs (name line : Str) : Prop :=
  ∃ before raw after, line = before ++ raw ++ after ∧ Begins ',' before ∧
    toAsciiLowercase (Text.trim raw) = name ∧ (Ends ',' after ∨ after.head? = some '=')

theorem not_mem_of_name {c : Char} {raw name : Str}
    (hraw : toAsciiLowercase (Text.trim raw) = name) (hwhite : isWhitespace c = false)
    (hlower : c.toLower = c) (h : c ∉ name) : c ∉ raw := by
  intro hmem
  apply h
  rw [← hraw, ← hlower]
  exact mem_map_of_mem ((mem_trim hwhite).mpr hmem)

theorem exists_piece_of_occurs {name line : Str} (hname : IsName name) (h : Occurs name line) :
    ∃ p ∈ pieces ',' line, directiveName p = name := by
  obtain ⟨before, raw, after, rfl, hbefore, hraw, hafter⟩ := h
  obtain ⟨-, hquote, hcomma, heq⟩ := hname
  have hquote' := not_mem_of_name (c := '"') hraw (by decide) (by decide) hquote
  have hcomma' := not_mem_of_name (c := ',') hraw (by decide) (by decide) hcomma
  have heq' := not_mem_of_name (c := '=') hraw (by decide) (by decide) heq
  have hpieces : ∀ p, p ∈ piecesFrom ',' .outside raw after →
      p ∈ pieces ',' (before ++ raw ++ after) := by
    intro p hp
    rw [append_assoc]
    refine mem_pieces_append (by decide) hbefore ?_
    rw [pieces, piecesFrom_of_plain hquote' hcomma']
    exact hp
  rcases hafter with hend | hvalue
  · refine ⟨raw, hpieces raw (mem_piecesFrom_of_ends hend), ?_⟩
    rw [directiveName, cutAt_of_absent heq', hraw]
  · obtain ⟨t, rfl⟩ : ∃ t, after = '=' :: t := by
      cases after with
      | nil => cases hvalue
      | cons c t => exact ⟨t, by rw [Option.some.inj hvalue]⟩
    obtain ⟨v, hv⟩ : ∃ v, raw ++ ['='] ++ v ∈ piecesFrom ',' (next .outside '=') (raw ++ ['=']) t :=
      exists_piece _ _ t
    refine ⟨raw ++ '=' :: v, hpieces _ ?_, ?_⟩
    · rw [piecesFrom, if_neg (by decide)]
      simpa using hv
    · rw [directiveName, cutAt_append v heq', hraw]

/-- **A directive is recognised exactly where it occurs** outside quotes. -/
theorem mem_names_iff {name : Str} (hname : IsName name) (line : Str) :
    name ∈ (splitDirectives line).map Prod.fst ↔ Occurs name line := by
  rw [splitDirectives_eq, mem_map]
  constructor
  · rintro ⟨d, hd, rfl⟩
    obtain ⟨p, hp, hdir⟩ := mem_filterMap.mp hd
    obtain ⟨before, after, rfl, hbefore, hafter⟩ := mem_pieces (by decide) hp
    have hraw := directive_name hdir
    obtain ⟨-, hcut⟩ | ⟨t, ht, -⟩ := cutAt_cases '=' p
    · refine ⟨before, p, after, rfl, hbefore, ?_, .inl hafter⟩
      rw [hraw, directiveName, hcut]
    · refine ⟨before, (cutAt '=' p).1, '=' :: t ++ after, ?_, hbefore, hraw.symm, .inr rfl⟩
      conv_lhs => rw [ht]
      simp
  · intro h
    obtain ⟨p, hp, hpname⟩ := exists_piece_of_occurs hname h
    obtain ⟨d, hd⟩ := directive_of_name (by rw [hpname]; exact hname.1)
    exact ⟨d, mem_filterMap.mpr ⟨p, hp, hd⟩, (directive_name hd).trans hpname⟩

/-! ## What a directive does -/

def OccursOn (name : String) (headers : List (Str × Str)) : Prop :=
  ∃ f ∈ headers, isNamed "cache-control" f = true ∧ Occurs name.toList f.2

theorem mem_cacheDirectives_iff {name : String} (hname : IsName name.toList)
    (headers : List (Str × Str)) :
    name.toList ∈ (cacheDirectives headers).map Prod.fst ↔ OccursOn name headers := by
  rw [cacheDirectives, map_flatMap, mem_flatMap]
  constructor
  · rintro ⟨f, hf, hmem⟩
    obtain ⟨hf, hnamed⟩ := mem_filter.mp hf
    exact ⟨f, hf, hnamed, (mem_names_iff hname f.2).mp hmem⟩
  · rintro ⟨f, hf, hnamed, hoccurs⟩
    exact ⟨f, mem_filter.mpr ⟨hf, hnamed⟩, (mem_names_iff hname f.2).mpr hoccurs⟩

theorem foldl_add (flag : CacheControl → Bool) {name : Str}
    (hset : ∀ (cc : CacheControl) d, d.1 = name → flag (cc.add d) = true)
    (hkeep : ∀ (cc : CacheControl) d, flag cc = true → flag (cc.add d) = true)
      {ds : List (Str × Option Str)}
    {cc : CacheControl} (h : flag cc = true ∨ name ∈ ds.map Prod.fst) :
    flag (ds.foldl CacheControl.add cc) = true := by
  induction ds generalizing cc with
  | nil => exact h.resolve_right not_mem_nil
  | cons d ds ih =>
    refine ih ?_
    obtain h | h := h
    · exact .inl (hkeep cc d h)
    · obtain h | h := mem_cons.mp h
      · exact .inl (hset cc d h.symm)
      · exact .inr h

def knownDirectives : List String :=
  ["no-store", "no-cache", "private", "public", "must-revalidate", "max-age", "s-maxage",
    "stale-while-revalidate"]

theorem isName_known {name : String} (h : name ∈ knownDirectives) : IsName name.toList := by
  have hall : (knownDirectives.all fun name => decide (IsName name.toList)) = true := by decide
  exact of_decide_eq_true (all_eq_true.mp hall name h)

theorem noStore_parse (h : OccursOn "no-store" headers) :
    (CacheControl.parse headers).noStore = true := by
  have hmem := (mem_cacheDirectives_iff (by decide) headers).mpr h
  refine foldl_add CacheControl.noStore (fun cc d hd => ?_) (fun cc d hset => ?_)
    (.inr hmem)
  · rw [CacheControl.add, if_pos hd]
  · rw [CacheControl.add]
    split_ifs <;> first | rfl | exact hset

theorem isPrivate_parse (h : OccursOn "private" headers) :
    (CacheControl.parse headers).isPrivate = true := by
  have hmem := (mem_cacheDirectives_iff (by decide) headers).mpr h
  refine foldl_add CacheControl.isPrivate (fun cc d hd => ?_) (fun cc d hset => ?_)
    (.inr hmem)
  · rw [CacheControl.add, hd, if_neg (by decide), if_neg (by decide), if_pos rfl]
  · rw [CacheControl.add]
    split_ifs <;> first | rfl | exact hset

theorem shouldCache_of_occurs
    (h : OccursOn "no-store" headers ∨ OccursOn "private" headers) (status : Nat) :
    shouldCache status headers = false := by
  rw [shouldCache]
  rcases h with h | h
  · simp [noStore_parse h]
  · simp [isPrivate_parse h]

/-- **Field lines combine.** Lines with balanced quotes say what one line says that joins them with
commas. A directive is recognised exactly where it occurs outside quotes on one of the lines; and a
response is not kept if `no-store` or `private` occurs on any. -/
theorem field_lines_combine {headers : List (Str × Str)}
    (h : ∀ f ∈ headers, isNamed "cache-control" f = true → Balanced f.2) :
    CacheControl.parse headers =
        CacheControl.parse [("Cache-Control".toList, joinedCacheControl headers)] ∧
      (∀ name ∈ knownDirectives, name.toList ∈ (cacheDirectives headers).map Prod.fst ↔
        OccursOn name headers) ∧ (OccursOn "no-store" headers ∨ OccursOn "private" headers →
        ∀ status, shouldCache status headers = false) := by
  refine ⟨?_, fun name hname => mem_cacheDirectives_iff (isName_known hname) headers,
    shouldCache_of_occurs⟩
  rw [CacheControl.parse, CacheControl.parse, cacheDirectives_joined h]

def quotedLines : List (Str × Str) :=
  [("Cache-Control".toList, "public, no-cache=\"Set-Cookie, \\\"no-store\\\", private\"".toList),
    ("ETag".toList, "\"1\"".toList), ("cache-control".toList, "Max-Age = 60, max-age=5".toList)]

theorem quotedLines_combine :
    CacheControl.parse [("Cache-Control".toList, joinedCacheControl quotedLines)] =
        ⟨false, true, false, true, false, some 5, none, none⟩ ∧
      ¬ OccursOn "no-store" quotedLines := by
  obtain ⟨hjoin, hnames, -⟩ := field_lines_combine
    (show ∀ f ∈ quotedLines, isNamed "cache-control" f = true → Balanced f.2 by decide)
  refine ⟨?_, fun hoccurs => ?_⟩
  · rw [← hjoin]
    decide
  · have hmem := (hnames "no-store" (by decide)).mpr hoccurs
    revert hmem
    decide

end M6
