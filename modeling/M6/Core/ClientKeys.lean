import M6.Core.BuildDict

/-!
# What the dictionary says about the client

A handler reads identity, flash and CSRF entries out of the merged dictionary
under fixed names, and a query string or a form may carry any name. Two results
say when that is safe:

* `identity_iff` — the identity keys and the flash entry are the framework's own
  **exactly when** no lower layer carries one of those names that the framework
  leaves unwritten for this request;
* `csrf_iff` — a passed CSRF check means a submitted token **exactly when** the
  default of the last step, or an entry of the site's own, cannot pass in its
  place.
-/

namespace M6

open Option SortedMap

section

variable {fw : FrameworkState} {now : Moment} {raw : RawRequest} {route : CompiledRoute}
  {params : PathParams} {dict : Dict}

/-! ## Lookups by layer -/

def paramsEntries (fw : FrameworkState) (now : Moment) (route : CompiledRoute)
    (params : PathParams) : List (Str × Value) :=
  match paramsWrites fw now params route.paramsFiles with
  | .ok files => files
  | .error _ => []

/-- What the site's own layers give a name: base, params files and path
parameters, the later winning. -/
def siteValue (fw : FrameworkState) (now : Moment) (route : CompiledRoute) (params : PathParams)
    (k : Str) : Option Value :=
  (SortedMap.lastValue (paramsEntries fw now route params ++ strings params) k).or
    (route.baseDict.get? k)

def submitted (raw : RawRequest) : List (Str × Str) :=
  parseQueryString raw.queryText ++ formFields raw

def GivenBelow (fw : FrameworkState) (now : Moment) (route : CompiledRoute) (params : PathParams)
    (raw : RawRequest) (k : Str) : Prop :=
  (∃ v, siteValue fw now route params k = some v) ∨ ∃ v, (k, v) ∈ submitted raw

def belowValue (fw : FrameworkState) (now : Moment) (route : CompiledRoute) (params : PathParams)
    (raw : RawRequest) (k : Str) : Option Value :=
  ((SortedMap.lastValue (submitted raw) k).map Value.string).or (siteValue fw now route params k)

variable {k : Str}

theorem belowValue_eq_none :
    belowValue fw now route params raw k = none ↔ ¬ GivenBelow fw now route params raw k := by
  rw [belowValue, GivenBelow]
  rw [or_eq_none_iff, map_eq_none_iff, lastValue_eq_none, not_or]
  constructor
  · rintro ⟨hsub, hsite⟩
    refine ⟨?_, ?_⟩
    · rintro ⟨v, hv⟩
      rw [hsite] at hv
      cases hv
    · rintro ⟨v, hv⟩
      exact hsub _ hv rfl
  · rintro ⟨hsite, hsub⟩
    refine ⟨fun e he hk => hsub ⟨e.2, hk ▸ he⟩, ?_⟩
    exact eq_none_iff_forall_ne_some.mpr fun v hv => hsite ⟨v, hv⟩

variable {files : List (Str × Value)}

/-- A name that is neither `query` nor the framework's has what the layers below
give it. -/
theorem get_mergedDict (hf : paramsWrites fw now params route.paramsFiles = .ok files)
    (hk : k ≠ "query".toList) : (mergedDict fw now raw route params files).get k =
      (SortedMap.lastValue (frameworkWrites fw now raw) k).or
        (belowValue fw now route params raw k) := by
  have hentries : paramsEntries fw now route params = files := by
    rw [paramsEntries]
    rw [hf]
  have hquery : ∀ v : Value, lastValue [("query".toList, v)] k = none := by
    intro v
    rw [lastValue_eq_none]
    intro e he
    rw [List.mem_singleton.mp he]
    exact Ne.symm hk
  rw [mergedDict, belowValue, siteValue, lowerWrites, submitted]
  rw [Dict.get_insertAll, Dict.get_withBase, hentries]
  simp only [lastValue_append, lastValue_strings, hquery, none_or, Option.or_assoc, map_or]

theorem get_withCsrfDefault_of_ne (hk : k ≠ "csrf_token".toList) (d : Dict) :
    (withCsrfDefault fw now d).get k = d.get k := by
  rw [withCsrfDefault]
  split_ifs
  · rw [Dict.get_insert, if_neg hk]
  · rfl

theorem lastValue_frameworkWrites
    (hk : k ∉ ["cookies".toList, "request_path".toList, "datetime".toList, "year".toList]) :
    SortedMap.lastValue (frameworkWrites fw now raw) k =
      (if k = "flash".toList then (flashMessage fw raw).map Value.string else none).or
        ((authClaims fw raw).get? k) := by
  have hbuiltin : ∀ a b c d : Value, lastValue [("cookies".toList, a),
      ("request_path".toList, b), ("datetime".toList, c), ("year".toList, d)] k = none := by
    intro a b c d
    rw [lastValue_eq_none]
    intro e he hek
    have hname : e.1 ∈ ["cookies".toList, "request_path".toList, "datetime".toList,
      "year".toList] :=
      List.mem_map_of_mem (f := Prod.fst) he
    exact hk (hek ▸ hname)
  have hflash : lastValue
      ((flashMessage fw raw).map fun msg => ("flash".toList, Value.string msg)).toList k =
      if k = "flash".toList then (flashMessage fw raw).map Value.string else none := by
    cases flashMessage fw raw with
    | none => exact (ite_self none).symm
    | some msg =>
      rw [map_some, toList_some, lastValue_cons, lastValue_nil, none_or, map_some]
      by_cases hflash : k = "flash".toList
      · rw [if_pos hflash, if_pos hflash]
      · rw [if_neg hflash, if_neg hflash]
  rw [frameworkWrites]
  rw [lastValue_append, lastValue_append, hbuiltin, hflash, lastValue_entries, or_none]

theorem mem_authKeys_of_authClaims {v : Value} (h : (authClaims fw raw).get? k = some v) :
    k ∈ authKeys := by
  rw [authClaims] at h
  split at h
  · exact mem_authKeys_of_parseAuthClaims h
  · cases h

/-! ## Identity -/

theorem authClaims_get?_eq_none (hk : k ∉ authKeys) : (authClaims fw raw).get? k = none := by
  rcases hc : (authClaims fw raw).get? k with _ | v
  · rfl
  · exact absurd (mem_authKeys_of_authClaims hc) hk

theorem get_authKey (h : buildDict fw now raw route params = .ok dict) (hk : k ∈ authKeys) :
    dict.get k = ((authClaims fw raw).get? k).or (belowValue fw now route params raw k) := by
  have hnames : ∀ k ∈ authKeys, k ≠ "csrf_token".toList ∧ k ≠ "query".toList ∧
      k ∉ ["cookies".toList, "request_path".toList, "datetime".toList, "year".toList] ∧
      k ≠ "flash".toList := by
    decide
  obtain ⟨files, hf, -, rfl⟩ := buildDict_ok.mp h
  obtain ⟨hcsrf, hquery, hbuiltin, hflash⟩ := hnames k hk
  rw [get_withCsrfDefault_of_ne hcsrf, get_mergedDict hf hquery,
    lastValue_frameworkWrites hbuiltin, if_neg hflash, none_or]

theorem get_flash (h : buildDict fw now raw route params = .ok dict) :
    dict.get "flash".toList = ((flashMessage fw raw).map Value.string).or
      (belowValue fw now route params raw "flash".toList) := by
  obtain ⟨files, hf, -, rfl⟩ := buildDict_ok.mp h
  rw [get_withCsrfDefault_of_ne (by decide), get_mergedDict hf (by decide),
    lastValue_frameworkWrites (by decide), if_pos rfl, authClaims_get?_eq_none (by decide), or_none]

/-- **Who decides the identity keys.** The identity keys are exactly what the
claims header gives, and `flash` exactly what a verified cookie gives, if and only
if no name of these that the framework leaves unwritten for this request is
carried by a layer below: base, params file, path parameter, query or form. -/
theorem identity_iff (h : buildDict fw now raw route params = .ok dict) :
    ((∀ k ∈ authKeys, dict.get k = (authClaims fw raw).get? k) ∧
        dict.get "flash".toList = (flashMessage fw raw).map Value.string) ↔
      (∀ k ∈ authKeys, (authClaims fw raw).get? k = none → ¬ GivenBelow fw now route params raw k) ∧
      (flashMessage fw raw = none → ¬ GivenBelow fw now route params raw "flash".toList) := by
  refine and_congr ?_ ?_
  · refine forall₂_congr fun k hk => ?_
    rw [get_authKey h hk, ← belowValue_eq_none]
    rcases (authClaims fw raw).get? k with _ | v
    · simp
    · simp
  · rw [get_flash h, ← belowValue_eq_none]
    rcases flashMessage fw raw with _ | msg
    · simp
    · simp

/-! ## The double-submitted token -/

/-- The `_csrf` cookie of the request, empty when there is none. -/
def csrfCookie (raw : RawRequest) : Str :=
  (((cookiesMap raw).get? "_csrf".toList).bind Value.asStr).getD []

/-- The `cookies` entry is the cookies of the request. -/
theorem get_cookies (files : List (Str × Value)) :
    (mergedDict fw now raw route params files).get "cookies".toList =
      some (cookiesMap raw).toValue := by
  have hflash : lastValue
      ((flashMessage fw raw).map fun msg => ("flash".toList, Value.string msg)).toList
      "cookies".toList = none := by
    cases flashMessage fw raw <;> rfl
  rw [mergedDict, frameworkWrites]
  rw [Dict.get_insertAll, lastValue_append, lastValue_append, lastValue_append, lastValue_entries,
    authClaims_get?_eq_none (by decide), hflash]
  rfl

/-- What the check finds under `csrf_token`: what a layer below gives, else the
default token. -/
theorem get_csrf_token (hcsrf : fw.csrf = true)
    (hf : paramsWrites fw now params route.paramsFiles = .ok files) :
    (withCsrfDefault fw now (mergedDict fw now raw route params files)).get "csrf_token".toList =
      some ((belowValue fw now route params raw "csrf_token".toList).getD
        (.string (defaultCsrfToken now (mergedDict fw now raw route params files)))) := by
  have hmerged : (mergedDict fw now raw route params files).get "csrf_token".toList =
      belowValue fw now route params raw "csrf_token".toList := by
    rw [get_mergedDict hf (by decide), lastValue_frameworkWrites (by decide),
      authClaims_get?_eq_none (by decide)]
    rfl
  rw [withCsrfDefault, Dict.containsKey]
  rw [hcsrf, hmerged]
  rcases hbelow : belowValue fw now route params raw "csrf_token".toList with _ | v
  · exact (Dict.get_insert _ _ _ _).trans (if_pos rfl)
  · exact hmerged.trans hbelow

theorem defaultCsrfToken_eq (hne : csrfCookie raw ≠ []) :
    defaultCsrfToken now (mergedDict fw now raw route params files) = csrfCookie raw := by
  rw [defaultCsrfToken]
  simp only [get_cookies, bind_some, DictMap.toValue_get?]
  rw [csrfCookie] at hne ⊢
  rcases ht : ((cookiesMap raw).get? "_csrf".toList).bind Value.asStr with _ | t
  · rw [ht] at hne
    exact absurd rfl hne
  · rw [ht, getD_some] at hne
    simp only [getD_some]
    rw [if_neg hne]

theorem verifyCsrf_ok (hcsrf : fw.csrf = true) (h : buildDict fw now raw route params = .ok dict) :
    verifyCsrf dict = .ok () ↔ csrfCookie raw ≠ [] ∧
      ∀ v, belowValue fw now route params raw "csrf_token".toList = some v →
        v.asStr = some (csrfCookie raw) := by
  obtain ⟨files, hf, -, rfl⟩ := buildDict_ok.mp h
  have hcookie : (((cookiesMap raw).get? "_csrf".toList).bind Value.asStr).getD [] =
      csrfCookie raw := rfl
  rw [verifyCsrf]
  rw [get_withCsrfDefault_of_ne (by decide), get_cookies, get_csrf_token hcsrf hf]
  simp only [bind_some, DictMap.toValue_get?, hcookie]
  by_cases hne : csrfCookie raw = []
  · rw [if_pos (Or.inl hne)]
    exact ⟨fun h => (nomatch h), fun h => absurd hne h.1⟩
  have hpass : ∀ t : Option Str, (if csrfCookie raw = [] ∨ t.getD [] = [] ∨
      csrfCookie raw ≠ t.getD [] then Except.error Error.forbidden else .ok ()) = .ok () ↔
      t = some (csrfCookie raw) := by
    intro t
    rcases t with _ | t
    · simp
    · simp only [getD_some, some.injEq]
      by_cases hbad : csrfCookie raw = [] ∨ t = [] ∨ csrfCookie raw ≠ t
      · rw [if_pos hbad]
        refine ⟨fun h => (nomatch h), ?_⟩
        rintro rfl
        simp [hne] at hbad
      · rw [if_neg hbad]
        simp only [not_or, not_not] at hbad
        exact ⟨fun _ => hbad.2.2.symm, fun _ => rfl⟩
  rw [hpass]
  rcases belowValue fw now route params raw "csrf_token".toList with _ | v
  · simp [defaultCsrfToken_eq hne, hne]
  · simp [hne]

/-- **What a passed CSRF check means.** That the client submitted a token equal
to its non-empty `_csrf` cookie follows from a passed check if and only if the
client submitted some token, or sent no such cookie, or the site's own layers
carry a token that is not the cookie's value. Otherwise the default of the last
step, or the site's own entry, passes the check for a client that submitted
nothing. -/
theorem csrf_iff (hcsrf : fw.csrf = true) (h : buildDict fw now raw route params = .ok dict) :
    (verifyCsrf dict = .ok () →
        ∃ v, ("csrf_token".toList, v) ∈ submitted raw ∧ v ≠ [] ∧ csrfCookie raw = v) ↔
      (∃ v, ("csrf_token".toList, v) ∈ submitted raw) ∨ csrfCookie raw = [] ∨
        ∃ v, siteValue fw now route params "csrf_token".toList = some v ∧
          v.asStr ≠ some (csrfCookie raw) := by
  rw [verifyCsrf_ok hcsrf h]
  rw [belowValue]
  rcases hsub : lastValue (submitted raw) "csrf_token".toList with _ | t
  · -- nothing submitted: only the site's entry or the default can pass
    have hnone : ¬ ∃ v, ("csrf_token".toList, v) ∈ submitted raw := by
      rintro ⟨v, hv⟩
      exact lastValue_eq_none.mp hsub _ hv rfl
    simp only [map_none, none_or]
    constructor
    · intro hP
      by_contra hC
      simp only [not_or, not_exists, not_and, not_not] at hC
      obtain ⟨v, hv, -⟩ := hP ⟨hC.2.1, hC.2.2⟩
      exact hnone ⟨v, hv⟩
    · rintro (hC | hC | ⟨v, hv, hC⟩) hpass
      · exact absurd hC hnone
      · exact absurd hC hpass.1
      · exact absurd (hpass.2 v hv) hC
  · -- a submitted token is the one compared
    have hmem := mem_of_lastValue hsub
    refine ⟨fun _ => Or.inl ⟨t, hmem⟩, fun _ hpass => ⟨t, hmem, ?_⟩⟩
    have heq : t = csrfCookie raw := some.inj (hpass.2 (.string t) rfl)
    exact ⟨heq ▸ hpass.1, heq.symm⟩

end

/-! ## Runs -/

/-- A service without base64, JSON or Unicode tables, built with both features. -/
def plainService (siteDir : Str) : FrameworkState where
  siteDir := siteDir
  routes := []
  flashSecret := []
  csrf := true
  flash := true
  codec := ⟨fun _ => none, fun _ => none, fun _ => none, fun _ _ => []⟩
  unicode := .asciiOnly

def plainMoment : Moment where
  paramsCache _ := none
  disk _ := .missing
  datetime := "2026-01-01T00:00:00Z".toList
  year := "2026".toList
  csrfToken := "fresh".toList

def plainRequest (method path query : String) (headers : List (String × String)) : RawRequest where
  method := method.toList
  path := path.toList
  query := some query.toList
  version := "HTTP/1.1".toList
  headers := headers.map fun h => (h.1.toList, h.2.toList)
  body := []

def plainRoute (pattern : String) : CompiledRoute :=
  .compile pattern.toList .any [] .empty .empty

theorem buildDict_plain (raw : RawRequest) (pattern : String) :
    ∃ dict, buildDict (plainService []) plainMoment raw (plainRoute pattern) [] = .ok dict :=
  ⟨_, buildDict_ok.mpr ⟨[], rfl, fun _ hp => (nomatch hp), rfl⟩⟩

def annClaims : Str := "\x7b\"sub\":\"7\",\"username\":\"ann\"\x7d".toList

/-- A service that can read one header of claims. -/
def annService : FrameworkState :=
  { plainService [] with
    codec :=
      ⟨fun s => if s = "eyJzdWIiOiI3IiwidXNlcm5hbWUiOiJhbm4ifQ==".toList then
          some (Utf8.encode annClaims) else none,
        fun _ => none, fun bytes => if bytes = Utf8.encode annClaims then some (.object
          [("sub".toList, .string "7".toList), ("username".toList, .string "ann".toList)]) else none,
        fun _ _ => []⟩ }

def annRequest : RawRequest :=
  plainRequest "GET" "/" "page=2"
    [("X-Auth-Claims", "eyJzdWIiOiI3IiwidXNlcm5hbWUiOiJhbm4ifQ==")]

theorem identity_of_claims : ∃ dict,
    buildDict annService plainMoment annRequest (plainRoute "/") [] = .ok dict ∧
      dict.get "auth_username".toList = some (.string "ann".toList) ∧
      dict.get "auth_sub".toList = some (.string "7".toList) ∧
      dict.get "auth_roles".toList = none := by
  have hbuilt : ∃ dict,
      buildDict annService plainMoment annRequest (plainRoute "/") [] = .ok dict :=
    ⟨_, buildDict_ok.mpr ⟨[], rfl, fun _ hp => (nomatch hp), rfl⟩⟩
  obtain ⟨dict, hbuilt⟩ := hbuilt
  have hsubmitted : submitted annRequest = [("page".toList, "2".toList)] := by decide +kernel
  have hnone : ∀ k ∈ "flash".toList :: authKeys, ¬ GivenBelow annService plainMoment
      (plainRoute "/") [] annRequest k := by
    rintro k hk (⟨v, hv⟩ | ⟨v, hv⟩)
    · cases hv
    · rw [hsubmitted] at hv
      cases List.mem_singleton.mp hv
      exact absurd hk (by decide)
  have hkeys := ((identity_iff hbuilt).mpr
    ⟨fun k hk _ => hnone k (.tail _ hk), fun _ => hnone _ (.head _)⟩).1
  refine ⟨dict, hbuilt, (hkeys _ (by decide)).trans ?_, (hkeys _ (by decide)).trans ?_,
    (hkeys _ (by decide)).trans ?_⟩
  all_goals rfl

/-- A query pair named `auth_roles` is a role, without any claims header. -/
theorem identity_forged_by_query : ∃ dict,
    buildDict (plainService []) plainMoment (plainRequest "GET" "/" "auth_roles=admin" [])
      (plainRoute "/") [] = .ok dict ∧
    (authClaims (plainService []) (plainRequest "GET" "/" "auth_roles=admin" [])).get?
      "auth_roles".toList = none ∧
    dict.get "auth_roles".toList = some (.string "admin".toList) := by
  obtain ⟨dict, hbuilt⟩ := buildDict_plain (plainRequest "GET" "/" "auth_roles=admin" []) "/"
  have hquery : lastValue (submitted (plainRequest "GET" "/" "auth_roles=admin" []))
      "auth_roles".toList = some "admin".toList := by
    decide +kernel
  refine ⟨dict, hbuilt, rfl, ?_⟩
  rw [get_authKey hbuilt (by decide)]
  rw [belowValue]
  rw [hquery]
  rfl

theorem csrf_of_submitted_token :
    let raw := plainRequest "POST" "/" "csrf_token=abc" [("Cookie", "_csrf=abc")]
    ∃ dict, buildDict (plainService []) plainMoment raw (plainRoute "/") [] = .ok dict ∧
      verifyCsrf dict = .ok () ∧
      ∃ v, ("csrf_token".toList, v) ∈ submitted raw ∧ v ≠ [] ∧ csrfCookie raw = v := by
  intro raw
  obtain ⟨dict, hbuilt⟩ := buildDict_plain raw "/"
  have hquery : lastValue (submitted raw) "csrf_token".toList = some "abc".toList := by
    decide +kernel
  have hcookie : csrfCookie raw = "abc".toList := by decide
  have hpass : verifyCsrf dict = .ok () := by
    rw [verifyCsrf_ok rfl hbuilt, hcookie]
    rw [belowValue]
    rw [hquery]
    refine ⟨by decide, ?_⟩
    rintro v ⟨⟩
    rfl
  exact ⟨dict, hbuilt, hpass, (csrf_iff rfl hbuilt).mpr (Or.inl ⟨_, mem_of_lastValue hquery⟩) hpass⟩

theorem csrf_passes_without_token :
    let raw := plainRequest "POST" "/" "" [("Cookie", "_csrf=abc")]
    ∃ dict, buildDict (plainService []) plainMoment raw (plainRoute "/") [] = .ok dict ∧
      submitted raw = [] ∧ verifyCsrf dict = .ok () := by
  intro raw
  obtain ⟨dict, hbuilt⟩ := buildDict_plain raw "/"
  have hcookie : csrfCookie raw = "abc".toList := by decide
  refine ⟨dict, hbuilt, rfl, ?_⟩
  rw [verifyCsrf_ok rfl hbuilt, hcookie]
  refine ⟨by decide, ?_⟩
  rintro v ⟨⟩

end M6
