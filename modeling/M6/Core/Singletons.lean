import M6.Core.CsrfCookie

/-!
# Fields that a response has once

`handle_request` and `Response::send` add fields to what a handler or a template gives, each stage
with its own test, or with none. `writtenFields` is what they come to, and `codingOf` is the coding
that was applied to the body.

The stages that test are safe. Those that do not are three: rendering sets a `Content-Type`, the
route its `Last-Modified`, and compression a `Content-Encoding`. `singletons_iff` says that a field
is written once exactly if none of the three meets one that is there.
-/

namespace M6.App

open Text

/-! ## Counting fields -/

def occurrences (name : Str) (fields : List (Str × Str)) : Nat :=
  fields.countP fun f => eqIgnoreAsciiCase f.1 name

/-- The fields that a response is to have once at most. -/
def singletonNames : List Str :=
  ["content-type".toList, "cache-control".toList, "last-modified".toList, "etag".toList,
    "content-encoding".toList]

def AtMostOnce (fields : List (Str × Str)) : Prop :=
  ∀ name ∈ singletonNames, occurrences name fields ≤ 1

def NamesNone (fields : List (Str × Str)) : Prop :=
  ∀ name ∈ singletonNames, occurrences name fields = 0

instance AtMostOnce.decidable (fields : List (Str × Str)) : Decidable (AtMostOnce fields) :=
  inferInstanceAs (Decidable (∀ name ∈ singletonNames, occurrences name fields ≤ 1))

def count (field name : Str) : Nat := if eqIgnoreAsciiCase field name then 1 else 0

@[simp] theorem occurrences_nil (name : Str) : occurrences name [] = 0 := rfl

@[simp] theorem occurrences_append (name : Str) (fields more : List (Str × Str)) :
    occurrences name (fields ++ more) = occurrences name fields + occurrences name more :=
  List.countP_append

@[simp] theorem occurrences_singleton (name : Str) (f : Str × Str) :
    occurrences name [f] = count f.1 name := List.countP_singleton

theorem containsHeader_eq_false {fields : List (Str × Str)} {name : Str} :
    containsHeader fields name = false ↔ occurrences name fields = 0 := by
  rw [containsHeader, occurrences, List.any_eq_false, List.countP_eq_zero]

theorem containsHeader_eq_true {fields : List (Str × Str)} {name : Str} :
    containsHeader fields name = true ↔ 0 < occurrences name fields := by
  rw [containsHeader, occurrences, List.any_eq_true, List.countP_pos_iff]

def IsField (field name : Str) : Prop :=
  ∀ other ∈ singletonNames, count field other = if other = name then 1 else 0

theorem isField_contentType : IsField "Content-Type".toList "content-type".toList := by
  rw [IsField]
  decide

theorem isField_cacheControl : IsField "Cache-Control".toList "cache-control".toList := by
  rw [IsField]
  decide

theorem isField_lastModified : IsField "Last-Modified".toList "last-modified".toList := by
  rw [IsField]
  decide

theorem isField_etag : IsField "ETag".toList "etag".toList := by
  rw [IsField]
  decide

theorem isField_contentEncoding : IsField "Content-Encoding".toList "content-encoding".toList := by
  rw [IsField]
  decide

theorem occurrences_default {field value name other : Str} (hfield : IsField field name)
    (hother : other ∈ singletonNames) (fields : List (Str × Str)) (given : Bool) :
    occurrences other (if !containsHeader fields name && given then [(field, value)] else []) =
      if other = name ∧ occurrences name fields = 0 ∧ given = true then 1 else 0 := by
  cases h : containsHeader fields name with
  | true =>
    have hcond : ¬ (other = name ∧ occurrences name fields = 0 ∧ given = true) := by
      rintro ⟨-, hzero, -⟩
      exact (containsHeader_eq_true.mp h).ne' hzero
    rw [if_neg hcond]
    simp
  | false =>
    have hzero := containsHeader_eq_false.mp h
    cases given with
    | false => simp
    | true => simp [hfield other hother, hzero]

/-! ## What is written -/

/-- The fields that `Response::send` hands to the writer. -/
def writtenFields (hash : Bytes → Nat) (resp : Response) : List (Str × Str) :=
  resp.headers ++
    (if !containsHeader resp.headers "content-type".toList && !resp.body.isEmpty then
      [("Content-Type".toList, "text/html; charset=utf-8".toList)]
    else []) ++
    match resp.body with
    | .stream _ _ => []
    | .bytes b =>
      if !containsHeader resp.headers "etag".toList && !b.isEmpty then
        [("ETag".toList, '"' :: Nat.toDigits 16 (hash b) ++ ['"'])]
      else []

theorem occurrences_written (hash : Bytes → Nat) (resp : Response) {name : Str}
    (hname : name ∈ singletonNames) :
    occurrences name (writtenFields hash resp) ≤ 1 ↔ occurrences name resp.headers ≤ 1 := by
  have hne : "content-type".toList ≠ "etag".toList := by decide
  rw [writtenFields, occurrences_append, occurrences_append,
    occurrences_default isField_contentType hname]
  cases resp.body with
  | stream len reader =>
    rw [occurrences_nil]
    split_ifs with h
    · obtain ⟨rfl, hzero, -⟩ := h
      omega
    · rfl
  | bytes b =>
    dsimp only
    rw [occurrences_default isField_etag hname]
    split_ifs with h h' h'
    · exact absurd (h.1.symm.trans h'.1) hne
    · obtain ⟨rfl, hzero, -⟩ := h
      omega
    · obtain ⟨rfl, hzero, -⟩ := h'
      omega
    · rfl

theorem mem_headers_of_written {hash : Bytes → Nat} {resp : Response} {f : Str × Str} {name : Str}
    (hf : f ∈ writtenFields hash resp) (hnamed : eqIgnoreAsciiCase f.1 name = true)
    (hcontentType : eqIgnoreAsciiCase "Content-Type".toList name = false)
    (hetag : eqIgnoreAsciiCase "ETag".toList name = false) : f ∈ resp.headers := by
  have hdefault : ∀ {cond : Bool} {field value : Str},
      eqIgnoreAsciiCase field name = false → f ∉ if cond then [(field, value)] else [] := by
    intro cond field value hfield hmem
    cases cond with
    | false => cases hmem
    | true =>
      rw [List.mem_singleton.mp hmem] at hnamed
      exact Bool.false_ne_true (hfield.symm.trans hnamed)
  rw [writtenFields, List.mem_append, List.mem_append] at hf
  rcases hf with (hf | hf) | hf
  · exact hf
  · exact absurd hf (hdefault hcontentType)
  · cases hbody : resp.body with
    | stream len reader =>
      rw [hbody] at hf
      cases hf
    | bytes b =>
      rw [hbody] at hf
      exact absurd hf (hdefault hetag)

/-! ## The stages -/

section

variable (lib : Transforms)

/-- The coding that `handle_request` applies to a response, and the bytes that it makes. -/
def codingOf (levels : SortedMap Str CompressionLevel) (raw : RawRequest) (resp : AppResponse) :
    Option (Str × Bytes) :=
  match resp.body, levels.get? (mimeOf resp) with
  | .bytes bytes, some level =>
    if resp.verbatim ∨ bytes = [] then none
    else
      let candidates := (if 0 < level.brotli then ["br".toList] else []) ++
        (if 0 < level.gzip then ["gzip".toList] else [])
      let coding := lib.preferredCoding ((raw.header "accept-encoding".toList).getD []) candidates
      if coding = some "br".toList then
        (lib.brotliCompress bytes level.brotli).map fun b => ("br".toList, b)
      else if coding = some "gzip".toList then
        (lib.gzipCompress bytes level.gzip).map fun b => ("gzip".toList, b)
      else none
  | _, _ => none

theorem compress_eq (levels : SortedMap Str CompressionLevel) (raw : RawRequest)
    (resp : AppResponse) : compress lib levels raw resp =
      match codingOf lib levels raw resp with
      | none => resp
      | some (coding, bytes) => { resp with
          body := .bytes bytes
          headers := resp.headers ++ [("Content-Encoding".toList, coding)] } := by
  rw [compress, codingOf]
  cases resp.body with
  | stream _ _ => rfl
  | bytes bytes =>
    cases levels.get? (mimeOf resp) with
    | none => rfl
    | some level =>
      dsimp only
      generalize lib.preferredCoding _ _ = coding
      split_ifs
      · rfl
      · cases lib.brotliCompress bytes level.brotli <;> rfl
      · cases lib.gzipCompress bytes level.gzip <;> rfl
      · rfl

theorem occurrences_compress (levels : SortedMap Str CompressionLevel) (raw : RawRequest)
    (resp : AppResponse) {name : Str} (hname : name ∈ singletonNames) :
    occurrences name (compress lib levels raw resp).headers = occurrences name resp.headers +
        if name = "content-encoding".toList ∧
          (codingOf lib levels raw resp).isSome then 1 else 0 := by
  rw [compress_eq]
  cases codingOf lib levels raw resp with
  | none => simp
  | some made =>
    obtain ⟨coding, bytes⟩ := made
    dsimp only
    rw [occurrences_append, occurrences_singleton, isField_contentEncoding name hname]
    simp only [Option.isSome_some, and_true]

theorem occurrences_cookieHeaders (svc : Service) (now : Moment) (raw : RawRequest)
    (token : Option Str) (resp : AppResponse) {name : Str} (hname : name ∈ singletonNames) :
    occurrences name (cookieHeaders svc now raw token resp).headers =
      occurrences name resp.headers := by
  have hcookie : count "Set-Cookie".toList name = 0 := by
    revert name
    decide
  rw [cookieHeaders]
  dsimp only
  rw [occurrences_append, occurrences_append]
  split_ifs <;> simp only [occurrences_singleton, occurrences_nil, hcookie, Nat.add_zero]

theorem occurrences_routeHeaders {route : AppRoute} (hroute : NamesNone route.headers)
    (resp : AppResponse) {name : Str} (hname : name ∈ singletonNames) :
    occurrences name (routeHeaders lib route resp).headers = occurrences name resp.headers +
        (if name = "cache-control".toList ∧ occurrences "cache-control".toList
          resp.headers = 0 then 1
          else 0) +
        if name = "last-modified".toList ∧ resp.status < 300 ∧ route.lastModified.isSome then 1
        else 0 := by
  have hcache : (if containsHeader resp.headers "cache-control".toList then []
      else [("Cache-Control".toList, route.cache)]) =
        if !containsHeader resp.headers "cache-control".toList && true then
          [("Cache-Control".toList, route.cache)] else [] := by
    cases containsHeader resp.headers "cache-control".toList <;> rfl
  have hdate : occurrences name (if resp.status < 300 then
      (route.lastModified.map fun lm => ("Last-Modified".toList, lib.fmtHttpDate lm)).toList
      else []) =
        if name = "last-modified".toList ∧ resp.status < 300 ∧ route.lastModified.isSome then 1
        else 0 := by
    by_cases hstatus : resp.status < 300
    · cases route.lastModified with
      | none => simp [hstatus, -String.reduceToList]
      | some lm =>
        rw [if_pos hstatus, Option.map_some, Option.toList_some, occurrences_singleton,
          isField_lastModified name hname]
        simp only [hstatus, Option.isSome_some, and_true]
    · rw [if_neg hstatus, if_neg fun h => hstatus h.2.1]
      rfl
  rw [routeHeaders]
  dsimp only
  rw [hcache, occurrences_append, occurrences_append, occurrences_append, hroute name hname,
    occurrences_default isField_cacheControl hname, hdate]
  simp only [and_true, Nat.add_zero]

end

/-! ## A request that a route matches -/

/-- A request, and a matched route that configures none of the fields. What its handler or template
answers has each of them once at most. -/
structure MatchedRequest where
  os : Platform
  svc : Service
  lib : Transforms
  shared : Shared
  inner : Inner
  now : Surroundings
  raw : RawRequest
  route : AppRoute
  params : PathParams
  route_eq : shared.route raw = some (route, params)
  namesNone : NamesNone route.headers
  atMostOnce : ∀ dict, requestDict os svc shared inner now raw route params = .ok dict →
    AtMostOnce (handlerAnswer shared now raw route dict).headers

namespace MatchedRequest

variable (m : MatchedRequest)

def dict : Except Error Dict := requestDict m.os m.svc m.shared m.inner m.now m.raw m.route m.params

/-- The response, as it is handed to `Response::send`. -/
def response : Response := handleRequest m.os m.svc m.lib m.shared m.inner m.now m.raw

def answer (dict : Dict) : AppResponse := handlerAnswer m.shared m.now m.raw m.route dict

def page (dict : Dict) : AppResponse := renderResponse m.inner.renderer dict (m.answer dict)

def prepared (dict : Dict) : AppResponse :=
  minify m.lib m.shared.config.minification
    (cookieHeaders m.svc m.now.moment m.raw (if m.svc.csrf then tokenOf dict else none)
      (routeHeaders m.lib m.route (m.page dict)))

def coding (dict : Dict) : Option (Str × Bytes) :=
  codingOf m.lib m.shared.config.compression m.raw (m.prepared dict)

/-- **The fields are singletons**: each is written once at most, and the `Content-Encoding` of bytes
that were coded names their coding. -/
structure Singletons (hash : Bytes → Nat) : Prop where
  once : AtMostOnce (writtenFields hash m.response)
  names : ∀ dict, m.dict = .ok dict → ∀ coding bytes, m.coding dict = some (coding, bytes) →
    m.response.body = .bytes bytes ∧
      ∀ f ∈ writtenFields hash m.response,
        eqIgnoreAsciiCase f.1 "content-encoding".toList = true → f.2 = coding

/-- What is added without a test is absent: a `Content-Type` when a template is rendered, a
`Last-Modified` when the route has a date, a `Content-Encoding` when the body is coded. -/
structure AddsAbsent (dict : Dict) : Prop where
  contentType : ∀ template html, (m.answer dict).templateName = some template →
    m.inner.renderer template ((m.answer dict).templateDict.getD dict) = .ok html →
      containsHeader (m.answer dict).headers "content-type".toList = false
  lastModified : (m.page dict).status < 300 → m.route.lastModified.isSome →
    containsHeader (m.page dict).headers "last-modified".toList = false
  contentEncoding : (m.coding dict).isSome →
    containsHeader (m.page dict).headers "content-encoding".toList = false

variable {m}

theorem response_eq {dict : Dict} (h : m.dict = .ok dict) :
    m.response =
      (compress m.lib m.shared.config.compression m.raw (m.prepared dict)).toResponse := by
  have hbuild : buildDict (m.inner.framework m.os m.svc m.shared)
      { m.now.moment with paramsCache := fun path => m.inner.paramsCache.get? path } m.raw
      m.route.toCompiledRoute m.params = .ok dict := h
  rw [response, handleRequest, m.route_eq]
  dsimp only
  rw [handleMatched, hbuild]
  rfl

theorem response_of_error {e : Error} (h : m.dict = .error e) (hash : Bytes → Nat) :
    writtenFields hash m.response = [] := by
  have hbuild : buildDict (m.inner.framework m.os m.svc m.shared)
      { m.now.moment with paramsCache := fun path => m.inner.paramsCache.get? path } m.raw
      m.route.toCompiledRoute m.params = .error e := h
  rw [response, handleRequest, m.route_eq]
  dsimp only
  rw [handleMatched, hbuild]
  cases e <;> rfl

/-- Rendering gives a field twice if the answer has a `Content-Type` of its own. -/
theorem occurrences_page {dict : Dict} (h : m.dict = .ok dict) {name : Str}
    (hname : name ∈ singletonNames) :
    occurrences name (m.page dict).headers ≤ 1 ↔
      (name = "content-type".toList → ∀ template html, (m.answer dict).templateName =
        some template →
        m.inner.renderer template ((m.answer dict).templateDict.getD dict) = .ok html →
          containsHeader (m.answer dict).headers "content-type".toList = false) := by
  have honce : occurrences name (m.answer dict).headers ≤ 1 := m.atMostOnce dict h name hname
  rw [page, renderResponse]
  cases htemplate : (m.answer dict).templateName with
  | none => exact iff_of_true honce fun _ template _ h => by cases h
  | some template =>
    dsimp only
    cases hrender : m.inner.renderer template ((m.answer dict).templateDict.getD dict) with
    | error e =>
      refine iff_of_true ?_ ?_
      · cases e <;> exact Nat.zero_le _
      · rintro - _ html ⟨⟩ hok
        rw [hrender] at hok
        cases hok
    | ok html =>
      dsimp only
      rw [occurrences_append, occurrences_singleton, isField_contentType name hname]
      constructor
      · rintro htwice rfl _ _ - -
        rw [containsHeader_eq_false]
        rw [if_pos rfl] at htwice
        omega
      · intro habsent
        split_ifs with hct
        · subst hct
          have hzero := containsHeader_eq_false.mp (habsent rfl _ _ rfl hrender)
          omega
        · exact honce

theorem occurrences_response {dict : Dict} (h : m.dict = .ok dict) {name : Str}
    (hname : name ∈ singletonNames) : occurrences name m.response.headers =
      occurrences name (m.page dict).headers +
        (if name = "cache-control".toList ∧
          occurrences "cache-control".toList (m.page dict).headers = 0 then 1 else 0) +
        (if name = "last-modified".toList ∧ (m.page dict).status < 300 ∧
          m.route.lastModified.isSome then 1 else 0) +
        if name = "content-encoding".toList ∧ (m.coding dict).isSome then 1 else 0 := by
  rw [response_eq h, occurrences_compress _ _ _ _ hname, prepared, minify_headers,
    occurrences_cookieHeaders _ _ _ _ _ hname, occurrences_routeHeaders _ m.namesNone _ hname]
  rfl

theorem names_of_atMostOnce {hash : Bytes → Nat}
    (honce : AtMostOnce (writtenFields hash m.response))
    {dict : Dict} (h : m.dict = .ok dict) {coding : Str} {bytes : Bytes}
    (hcoding : m.coding dict = some (coding, bytes)) :
    m.response.body = .bytes bytes ∧ ∀ f ∈ writtenFields hash m.response,
        eqIgnoreAsciiCase f.1 "content-encoding".toList = true → f.2 = coding := by
  have hname : "content-encoding".toList ∈ singletonNames := by decide
  have hresponse : m.response.body = .bytes bytes ∧ m.response.headers =
      (m.prepared dict).headers ++ [("Content-Encoding".toList, coding)] := by
    rw [response_eq h, compress_eq]
    rw [MatchedRequest.coding] at hcoding
    rw [hcoding]
    exact ⟨rfl, rfl⟩
  refine ⟨hresponse.1, fun f hf hnamed => ?_⟩
  have htotal := (occurrences_written hash m.response hname).mp (honce _ hname)
  have hmem := mem_headers_of_written hf hnamed (by decide) (by decide)
  rw [hresponse.2] at htotal hmem
  rw [occurrences_append, occurrences_singleton, isField_contentEncoding _ hname,
    if_pos rfl] at htotal
  rcases List.mem_append.mp hmem with hmem | hmem
  · have hpos : 0 < occurrences "content-encoding".toList (m.prepared dict).headers :=
      List.countP_pos_iff.mpr ⟨f, hmem, hnamed⟩
    omega
  · rw [List.mem_singleton.mp hmem]

variable (m)

/-- **When the fields are singletons**: exactly if what is added without a test is absent. -/
theorem singletons_iff (hash : Bytes → Nat) :
    m.Singletons hash ↔ ∀ dict, m.dict = .ok dict → m.AddsAbsent dict := by
  cases hdict : m.dict with
  | error e =>
    refine iff_of_true ⟨?_, ?_⟩ ?_
    · rw [response_of_error hdict]
      intro name _
      exact Nat.zero_le _
    · intro dict hok
      rw [hdict] at hok
      cases hok
    · intro dict hok
      cases hok
  | ok dict =>
    have hwritten : ∀ name ∈ singletonNames, occurrences name (writtenFields hash m.response) ≤ 1 ↔
        occurrences name (m.page dict).headers +
          (if name = "cache-control".toList ∧
            occurrences "cache-control".toList (m.page dict).headers = 0 then 1 else 0) +
          (if name = "last-modified".toList ∧ (m.page dict).status < 300 ∧
            m.route.lastModified.isSome then 1 else 0) +
          (if name = "content-encoding".toList ∧ (m.coding dict).isSome then 1 else 0) ≤ 1 := by
      intro name hname
      rw [occurrences_written hash _ hname, occurrences_response hdict hname]
    constructor
    · rintro hs _ ⟨⟩
      have hname : ∀ name ∈ singletonNames, _ := fun name hname =>
        (hwritten name hname).mp (hs.once name hname)
      constructor
      · refine (occurrences_page hdict (by decide)).mp ?_ rfl
        have h := hname "content-type".toList (by decide)
        omega
      · intro hstatus hdate
        have h := hname "last-modified".toList (by decide)
        rw [if_pos (c := "last-modified".toList = "last-modified".toList ∧ _)
          ⟨rfl, hstatus, hdate⟩] at h
        exact containsHeader_eq_false.mpr (by omega)
      · intro hcoded
        have h := hname "content-encoding".toList (by decide)
        rw [if_pos (c := "content-encoding".toList = "content-encoding".toList ∧ _)
          ⟨rfl, hcoded⟩] at h
        exact containsHeader_eq_false.mpr (by omega)
    · intro h
      obtain ⟨hcontentType, hlastModified, hcontentEncoding⟩ := h dict rfl
      have honce : AtMostOnce (writtenFields hash m.response) := by
        intro name hname
        rw [hwritten name hname]
        have hpage := (occurrences_page hdict hname).mpr fun _ => hcontentType
        -- each stage adds a field of its own name
        split_ifs with hcache hdate hcoded hcoded hdate hcoded hcoded
        · exact absurd (hcache.1.symm.trans hdate.1) (by decide)
        · exact absurd (hcache.1.symm.trans hdate.1) (by decide)
        · exact absurd (hcache.1.symm.trans hcoded.1) (by decide)
        · obtain ⟨rfl, hzero⟩ := hcache
          omega
        · exact absurd (hdate.1.symm.trans hcoded.1) (by decide)
        · obtain ⟨rfl, hstatus, hsome⟩ := hdate
          have hzero := containsHeader_eq_false.mp (hlastModified hstatus hsome)
          omega
        · obtain ⟨rfl, hsome⟩ := hcoded
          have hzero := containsHeader_eq_false.mp (hcontentEncoding hsome)
          omega
        · exact hpage
      refine ⟨honce, ?_⟩
      intro dict' hok coding bytes hcoding
      exact names_of_atMostOnce honce hok hcoding

end MatchedRequest

/-! ## A page with a type of its own -/

/-- A route to the handler `page`. -/
def xhtmlRoute : AppRoute where
  toCompiledRoute := plainRoute "/"
  template := none
  status := 200
  cache := "no-store".toList
  headers := []
  lastModified := none
  handler := some "page".toList

def xhtmlHandler : Handler := fun _ =>
  .ok ⟨⟨200, [("Content-Type".toList, "application/xhtml+xml".toList)], .bytes []⟩, false,
    some "page.html".toList, none⟩

def xhtmlRequest : MatchedRequest where
  os := fourCores []
  svc := plainService
  lib := noTransforms
  shared := ⟨[xhtmlRoute], [], plainConfig⟩
  inner := ⟨[], .empty, [], fun _ _ => .ok "<p>".toList⟩
  now := { pageSurroundings with named := fun _ => some xhtmlHandler }
  raw := pageRequest
  route := xhtmlRoute
  params := []
  route_eq := rfl
  namesNone _ _ := rfl
  atMostOnce := by
    intro dict _
    exact show AtMostOnce [("Content-Type".toList, "application/xhtml+xml".toList)] by decide

theorem two_types : ¬ xhtmlRequest.Singletons fun _ => 0 := by
  intro h
  have honce := h.once "content-type".toList (by decide)
  revert honce
  decide

end M6.App
