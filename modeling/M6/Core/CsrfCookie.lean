import M6.Core.ClientKeys
import M6.Core.Generation

/-!
# The cookie of the CSRF token

With the `csrf` feature, `handle_request` of `app.rs` sets a `_csrf` cookie on the response to a
request that brings none. Its token is what the request's dictionary has under `csrf_token`, where
`build_dict` puts a generated one only if nothing else has written that name.

`issuedToken` is the token of the cookie, and `handleRequest_headers` finds it on the response.
`csrfIssued_iff` says of which requests it is issued as it should be: when its name in the `Cookie`
line is what it looks like, and no layer below the framework's own, which the client writes too,
has a token of its own.
-/

namespace M6.App

open Option

/-! ## The generator -/

/-- `random_hex_token`, of the bytes that are drawn. -/
def randomHexToken (raw : Bytes) : Str :=
  raw.flatMap fun b => [(b.toNat / 16).digitChar, (b.toNat % 16).digitChar]

def CleanToken (token : Str) : Prop := '\r' ∉ token ∧ '\n' ∉ token ∧ ';' ∉ token

theorem cleanToken_randomHexToken (raw : Bytes) : CleanToken (randomHexToken raw) := by
  have hdigit : ∀ n : Fin 16, n.val.digitChar ∉ ['\r', '\n', ';'] := by decide
  have hmem : ∀ c ∈ randomHexToken raw, c ∉ ['\r', '\n', ';'] := by
    intro c hc
    obtain ⟨b, -, hb⟩ := List.mem_flatMap.mp hc
    have hlt : b.toNat < 256 := b.toNat_lt
    rcases List.mem_pair.mp hb with rfl | rfl
    · exact hdigit ⟨b.toNat / 16, by omega⟩
    · exact hdigit ⟨b.toNat % 16, by omega⟩
  exact ⟨fun h => hmem _ h (by simp), fun h => hmem _ h (by simp), fun h => hmem _ h (by simp)⟩

def Surroundings.drawing (now : Surroundings) (drawn : Bytes) : Surroundings :=
  { now with moment := { now.moment with csrfToken := randomHexToken drawn } }

/-! ## The cookie -/

section

variable (os : Platform) (svc : Service) (lib : Transforms) (shared : Shared) (inner : Inner)
  (now : Surroundings) (raw : RawRequest)

/-- A cookie of the name is in one of the `Cookie` lines. -/
def carriesCookie (name : Str) : Bool :=
  raw.headers.any fun h => Text.eqIgnoreAsciiCase h.1 "cookie".toList &&
    (cookiePairs h.2).any fun p => p.1 == name

def Inner.moment (inner : Inner) (now : Surroundings) : Moment :=
  { now.moment with paramsCache := fun path => inner.paramsCache.get? path }

def requestDict (route : AppRoute) (params : PathParams) : Except Error Dict :=
  buildDict (inner.framework os svc shared) (inner.moment now) raw route.toCompiledRoute params

def tokenOf (dict : Dict) : Option Str := (dict.get "csrf_token".toList).bind Value.asStr

/-- The token of the `_csrf` cookie that the framework sets, if it sets one. -/
def issuedToken : Option Str :=
  match shared.route raw with
  | none => if bringsCookie raw "_csrf=".toList then none else some now.moment.csrfToken
  | some (route, params) =>
    match requestDict os svc shared inner now raw route params with
    | .error _ => none
    | .ok dict =>
      if bringsCookie raw "_csrf=".toList then none
      else some ((tokenOf dict).getD now.moment.csrfToken)

def csrfField (token : Str) : Str × Str :=
  ("Set-Cookie".toList, "_csrf=".toList ++ token ++ "; Path=/; Secure; SameSite=Strict".toList)

def handlerAnswer (route : AppRoute) (dict : Dict) : AppResponse :=
  dispatch now ⟨raw, dict, shared.siteDir, route, shared.config⟩

def pageContext : Option Dict :=
  match shared.route raw with
  | none => none
  | some (route, params) =>
    match requestDict os svc shared inner now raw route params with
    | .error _ => none
    | .ok dict =>
      let resp := handlerAnswer shared now raw route dict
      resp.templateName.map fun _ => resp.templateDict.getD dict

end

/-- The fields that follow the `_csrf` cookie have none. -/
def FollowingFields (fields : List (Str × Str)) : Prop :=
  ∀ f ∈ fields, ¬ "_csrf=".toList <+: f.2

/-! ## On the response -/

theorem minify_headers (lib : Transforms) (config : MinificationConfig) (resp : AppResponse) :
    (minify lib config resp).headers = resp.headers := by
  rw [minify]
  cases resp.body with
  | stream _ _ => rfl
  | bytes bytes =>
    dsimp only
    split_ifs <;> rfl

theorem compressed_headers (resp : AppResponse) (coding : Str) (bytes : Option Bytes)
    (hcoding : ¬ "_csrf=".toList <+: coding) :
    ∃ added, FollowingFields added ∧
      (compressed resp coding bytes).headers = resp.headers ++ added := by
  cases bytes with
  | none =>
    refine ⟨[], ?_, (List.append_nil _).symm⟩
    intro f hf
    cases hf
  | some bytes =>
    refine ⟨[("Content-Encoding".toList, coding)], ?_, rfl⟩
    intro f hf
    rw [List.mem_singleton.mp hf]
    exact hcoding

theorem compress_headers (lib : Transforms) (levels : SortedMap Str CompressionLevel)
    (raw : RawRequest) (resp : AppResponse) :
    ∃ added, FollowingFields added ∧
      (compress lib levels raw resp).headers = resp.headers ++ added := by
  have hsame : ∃ added, FollowingFields added ∧ resp.headers = resp.headers ++ added := by
    refine ⟨[], ?_, (List.append_nil _).symm⟩
    intro f hf
    cases hf
  rw [compress]
  cases resp.body with
  | stream _ _ => exact hsame
  | bytes bytes =>
    cases levels.get? (mimeOf resp) with
    | none => exact hsame
    | some level =>
      dsimp only
      generalize lib.preferredCoding _ _ = coding
      split_ifs
      · exact hsame
      · exact compressed_headers resp _ (lib.brotliCompress bytes level.brotli) (by decide)
      · exact compressed_headers resp _ (lib.gzipCompress bytes level.gzip) (by decide)
      · exact hsame

theorem transform_headers (svc : Service) (lib : Transforms) (config : RendererConfig)
    (now : Moment) (raw : RawRequest) (token : Option Str) (resp : AppResponse) :
    ∃ rest, FollowingFields rest ∧
      (transform svc lib config now raw token resp).headers = resp.headers ++
        ((if svc.csrf ∧ ¬ bringsCookie raw "_csrf=".toList then
          some (token.getD now.csrfToken) else none).map csrfField).toList ++ rest := by
  obtain ⟨added, hadded, h⟩ := compress_headers lib config.compression raw
    (minify lib config.minification (cookieHeaders svc now raw token resp))
  have hheaders : (transform svc lib config now raw token resp).headers =
      (cookieHeaders svc now raw token resp).headers ++ added :=
    h.trans (congrArg (· ++ added) (minify_headers ..))
  refine ⟨(if svc.flash ∧ bringsCookie raw "_flash=".toList then
    [("Set-Cookie".toList, "_flash=; Max-Age=0; Path=/; HttpOnly".toList)] else []) ++
      added, ?_, ?_⟩
  · intro f hf
    rcases List.mem_append.mp hf with hf | hf
    · split_ifs at hf with hbrings
      · rw [List.mem_singleton.mp hf]
        decide
      · cases hf
    · exact hadded f hf
  · rw [hheaders, cookieHeaders]
    by_cases hset : svc.csrf ∧ ¬ bringsCookie raw "_csrf=".toList
    · rw [if_pos hset, if_pos hset]
      simp only [List.append_assoc]
      rfl
    · rw [if_neg hset, if_neg hset]
      simp only [List.append_assoc]
      rfl

variable {os : Platform} {svc : Service} {lib : Transforms} {shared : Shared} {inner : Inner}
  {now : Surroundings} {raw : RawRequest}

/-- The response has the cookie of the issued token, behind what the page and the route give it,
and no other of the framework's. -/
theorem handleRequest_headers (hcsrf : svc.csrf = true) :
    ∃ page rest, FollowingFields rest ∧ (handleRequest os svc lib shared inner now raw).headers =
        page ++ ((issuedToken os svc shared inner now raw).map csrfField).toList ++ rest := by
  have hset : ∀ token : Str, (if svc.csrf ∧ ¬ bringsCookie raw "_csrf=".toList then
      some token else none) = if bringsCookie raw "_csrf=".toList then none else some token := by
    intro token
    generalize bringsCookie raw _ = brings
    cases brings
    · simp [hcsrf]
    · simp
  rw [handleRequest, issuedToken]
  cases shared.route raw with
  | none =>
    obtain ⟨rest, hrest, h⟩ := transform_headers svc lib shared.config now.moment raw none
      (.ofStatus 404)
    rw [hset] at h
    exact ⟨_, rest, hrest, h⟩
  | some found =>
    obtain ⟨route, params⟩ := found
    have hmatched : handleMatched os svc lib shared inner now raw route params =
        match requestDict os svc shared inner now raw route params with
        | .error e => (errorToResponse e).toResponse
        | .ok dict => transform svc lib shared.config now.moment raw
            (if svc.csrf then tokenOf dict else none)
            (routeHeaders lib route (renderResponse inner.renderer dict
              (handlerAnswer shared now raw route dict))) := rfl
    simp only [hcsrf, if_true] at hmatched
    dsimp only
    rw [hmatched]
    cases requestDict os svc shared inner now raw route params with
    | error e =>
      refine ⟨[], [], ?_, ?_⟩
      · intro f hf
        cases hf
      · cases e <;> rfl
    | ok dict =>
      obtain ⟨rest, hrest, h⟩ := transform_headers svc lib shared.config now.moment raw
        (tokenOf dict) (routeHeaders lib route (renderResponse inner.renderer dict
          (handlerAnswer shared now raw route dict)))
      rw [hset] at h
      exact ⟨_, rest, hrest, h⟩

/-! ## When it is as it should be -/

section

variable (os : Platform) (svc : Service) (shared : Shared) (inner : Inner) (now : Surroundings)
  (raw : RawRequest)

/-- **The cookie is issued as it should be**: exactly to a request without one, with the generated
token, which is also that of the page. -/
structure CsrfIssued : Prop where
  exactly : (issuedToken os svc shared inner now raw).isSome = !carriesCookie raw "_csrf".toList
  generated : ∀ token, issuedToken os svc shared inner now raw = some token →
    token = now.moment.csrfToken
  rendered : ∀ token, issuedToken os svc shared inner now raw = some token →
    ∀ ctx, pageContext os svc shared inner now raw = some ctx →
      ctx.get "csrf_token".toList = some (.string token)
  clean : ∀ token, issuedToken os svc shared inner now raw = some token → CleanToken token

def tokenBelow (route : AppRoute) (params : PathParams) : Option Value :=
  belowValue (inner.framework os svc shared) (inner.moment now) route.toCompiledRoute params raw
    "csrf_token".toList

/-- A page's context has the generated token: its own, if the handler brings one, or the request's
dictionary, where no other token stands below. -/
def PageKeepsToken (route : AppRoute) (params : PathParams) (dict : Dict) : Prop :=
  let resp := handlerAnswer shared now raw route dict
  resp.templateName.isSome →
    match resp.templateDict with
    | some own => own.get "csrf_token".toList = some (.string now.moment.csrfToken)
    | none => tokenBelow os svc shared inner now raw route params = none ∨
        tokenBelow os svc shared inner now raw route params =
          some (.string now.moment.csrfToken)

/-- The text `_csrf=` is in the first `Cookie` line exactly if a line has the cookie. A request
that cannot be given a dictionary has the cookie. And if there is none, no layer below has
a text of its own for the token, and the page keeps the generated one. -/
def CsrfUnspoilt : Prop :=
  match shared.route raw with
  | none => bringsCookie raw "_csrf=".toList = carriesCookie raw "_csrf".toList
  | some (route, params) =>
    match requestDict os svc shared inner now raw route params with
    | .error _ => carriesCookie raw "_csrf".toList = true
    | .ok dict =>
      bringsCookie raw "_csrf=".toList = carriesCookie raw "_csrf".toList ∧
        (carriesCookie raw "_csrf".toList = false →
          (∀ text, (tokenBelow os svc shared inner now raw route params).bind Value.asStr =
            some text → text = now.moment.csrfToken) ∧
          PageKeepsToken os svc shared inner now raw route params dict)

end

theorem defaultCsrfToken_of_absent {fw : FrameworkState} {moment : Moment} {route : CompiledRoute}
    {params : PathParams} {files : List (Str × Value)}
    (hcarries : carriesCookie raw "_csrf".toList = false) :
    defaultCsrfToken moment (mergedDict fw moment raw route params files) = moment.csrfToken := by
  have hnone : (cookiesMap raw).get? "_csrf".toList = none := by
    rw [cookiesMap]
    cases hline : raw.header "cookie".toList with
    | none => rfl
    | some line =>
      obtain ⟨h, hmem, hname, rfl⟩ : ∃ h ∈ raw.headers,
          Text.eqIgnoreAsciiCase h.1 "cookie".toList = true ∧ h.2 = line := by
        rw [RawRequest.header, header] at hline
        obtain ⟨h, hfound, hvalue⟩ := map_eq_some_iff.mp hline
        have hname := List.find?_some hfound
        exact ⟨h, List.mem_of_find?_eq_some hfound, hname, hvalue⟩
      have hno : (cookiePairs h.2).any (fun p => p.1 == "_csrf".toList) = false := by
        rw [carriesCookie, List.any_eq_false] at hcarries
        have hthis := hcarries h hmem
        rw [hname, Bool.true_and, Bool.not_eq_true] at hthis
        exact hthis
      change (parseCookies h.2).get? "_csrf".toList = none
      rw [parseCookies, SortedMap.get?_insertAll, lastValue_strings, SortedMap.get?_empty,
        or_none, map_eq_none_iff, SortedMap.lastValue_eq_none]
      intro p hp hpname
      rw [List.any_eq_false] at hno
      exact hno p hp (by simp [hpname])
  rw [defaultCsrfToken]
  simp only [get_cookies, bind_some, DictMap.toValue_get?, hnone, bind_none]

theorem requestDict_token (hcsrf : svc.csrf = true) {route : AppRoute} {params : PathParams}
    {dict : Dict} (h : requestDict os svc shared inner now raw route params = .ok dict)
    (hcarries : carriesCookie raw "_csrf".toList = false) : dict.get "csrf_token".toList = some
      ((tokenBelow os svc shared inner now raw route params).getD
        (.string now.moment.csrfToken)) := by
  rw [requestDict, buildDict_ok] at h
  obtain ⟨files, hf, -, rfl⟩ := h
  rw [get_csrf_token hcsrf hf, defaultCsrfToken_of_absent hcarries]
  rfl

theorem isSome_issued_iff {brings carries : Bool} (token : Str) :
    (if brings then none else some token).isSome = !carries ↔ brings = carries := by
  cases brings <;> cases carries <;> simp

/-- Without a route the token is a fresh one, and there is no page. -/
theorem csrfIssued_unrouted (hroute : shared.route raw = none)
    (hclean : CleanToken now.moment.csrfToken) : CsrfIssued os svc shared inner now raw ↔
      bringsCookie raw "_csrf=".toList = carriesCookie raw "_csrf".toList := by
  have hissued : issuedToken os svc shared inner now raw =
      if bringsCookie raw "_csrf=".toList then none else some now.moment.csrfToken := by
    rw [issuedToken, hroute]
  rw [← isSome_issued_iff now.moment.csrfToken, ← hissued]
  refine ⟨fun h => h.exactly, fun h => ?_⟩
  have hfresh : ∀ token, issuedToken os svc shared inner now raw = some token →
      token = now.moment.csrfToken := by
    intro token htoken
    rw [hissued] at htoken
    split_ifs at htoken
    exact (some.inj htoken).symm
  refine ⟨h, hfresh, fun token _ ctx hctx => ?_, fun token htoken => hfresh token htoken ▸ hclean⟩
  rw [pageContext, hroute] at hctx
  cases hctx

section

variable {route : AppRoute} {params : PathParams} (hroute : shared.route raw = some (route, params))

include hroute

/-- A request without a dictionary is given no cookie. -/
theorem csrfIssued_error {e : Error}
    (hdict : requestDict os svc shared inner now raw route params = .error e) :
    CsrfIssued os svc shared inner now raw ↔ carriesCookie raw "_csrf".toList = true := by
  have hissued : issuedToken os svc shared inner now raw = none := by
    simp only [issuedToken, hroute, hdict]
  have hno : ∀ token, issuedToken os svc shared inner now raw ≠ some token := by
    intro token htoken
    rw [hissued] at htoken
    cases htoken
  constructor
  · intro h
    have hexactly := h.exactly
    rw [hissued] at hexactly
    simpa using hexactly
  · exact fun h => ⟨by rw [hissued, h]; rfl, fun token h => absurd h (hno token),
      fun token h => absurd h (hno token), fun token h => absurd h (hno token)⟩

variable {dict : Dict} (hdict : requestDict os svc shared inner now raw route params = .ok dict)
  (htoken : dict.get "csrf_token".toList = some
    ((tokenBelow os svc shared inner now raw route params).getD (.string now.moment.csrfToken)))

include hdict htoken

theorem rendered_iff : (∀ ctx, pageContext os svc shared inner now raw = some ctx →
      ctx.get "csrf_token".toList = some (.string now.moment.csrfToken)) ↔
    PageKeepsToken os svc shared inner now raw route params dict := by
  have hpage : pageContext os svc shared inner now raw =
      (handlerAnswer shared now raw route dict).templateName.map fun _ =>
        (handlerAnswer shared now raw route dict).templateDict.getD dict := by
    simp only [pageContext, hroute, hdict]
  rw [hpage, PageKeepsToken]
  cases (handlerAnswer shared now raw route dict).templateName with
  | none => simp
  | some name =>
    cases (handlerAnswer shared now raw route dict).templateDict with
    | some own => simp
    | none =>
      refine ⟨fun h _ => ?_, fun h ctx hctx => ?_⟩
      · have hget := h dict rfl
        rw [htoken, some.injEq] at hget
        cases hbelow : tokenBelow os svc shared inner now raw route params with
        | none => exact Or.inl rfl
        | some v =>
          rw [hbelow, getD_some] at hget
          exact Or.inr (congrArg some hget)
      · cases hctx
        rw [getD_none, htoken]
        rcases h rfl with hbelow | hbelow <;> rw [hbelow] <;> rfl

omit hroute hdict in
theorem tokenOf_fresh_iff : (tokenOf dict).getD now.moment.csrfToken = now.moment.csrfToken ↔
    ∀ text, (tokenBelow os svc shared inner now raw route params).bind Value.asStr = some text →
      text = now.moment.csrfToken := by
  rw [tokenOf, htoken]
  cases tokenBelow os svc shared inner now raw route params with
  | none => simp [Value.asStr]
  | some v => cases hstr : v.asStr <;> simp [hstr]

end

/-- **When the cookie of the CSRF token is issued as it should be.** To any request of a service
with the feature, in any state and with any handlers, and whatever the generator draws: exactly if
the request and the layers below leave the token unspoilt. -/
theorem csrfIssued_iff (os : Platform) (svc : Service) (shared : Shared) (inner : Inner)
    (now : Surroundings) (drawn : Bytes) (raw : RawRequest) :
    (svc.csrf = true → CsrfIssued os svc shared inner (now.drawing drawn) raw) ↔
      (svc.csrf = true → CsrfUnspoilt os svc shared inner (now.drawing drawn) raw) := by
  refine imp_congr_right fun hcsrf => ?_
  have hclean : CleanToken (now.drawing drawn).moment.csrfToken := cleanToken_randomHexToken drawn
  generalize now.drawing drawn = now at hclean ⊢
  cases hroute : shared.route raw with
  | none =>
    simp only [CsrfUnspoilt, hroute]
    exact csrfIssued_unrouted hroute hclean
  | some found =>
    obtain ⟨route, params⟩ := found
    cases hdict : requestDict os svc shared inner now raw route params with
    | error e =>
      simp only [CsrfUnspoilt, hroute, hdict]
      exact csrfIssued_error hroute hdict
    | ok dict =>
      have hissued : issuedToken os svc shared inner now raw =
          if bringsCookie raw "_csrf=".toList then none
          else some ((tokenOf dict).getD now.moment.csrfToken) := by
        simp only [issuedToken, hroute, hdict]
      have htoken := requestDict_token hcsrf hdict
      simp only [CsrfUnspoilt, hroute, hdict]
      constructor
      · intro h
        have hbrings := (isSome_issued_iff _).mp (hissued ▸ h.exactly)
        refine ⟨hbrings, fun hcarries => ?_⟩
        rw [hbrings, hcarries, if_neg Bool.false_ne_true] at hissued
        have hfresh := h.generated _ hissued
        have hrendered := h.rendered _ hissued
        rw [hfresh] at hrendered
        exact ⟨(tokenOf_fresh_iff (htoken hcarries)).mp hfresh,
          (rendered_iff hroute hdict (htoken hcarries)).mp hrendered⟩
      · rintro ⟨hbrings, hunspoilt⟩
        have hone : ∀ token, issuedToken os svc shared inner now raw = some token →
            carriesCookie raw "_csrf".toList = false ∧ token = now.moment.csrfToken := by
          intro token h
          rw [hissued, hbrings] at h
          cases hcarries : carriesCookie raw "_csrf".toList with
          | true =>
            rw [hcarries] at h
            cases h
          | false =>
            rw [hcarries] at h
            exact ⟨rfl, (some.inj h).symm.trans
              ((tokenOf_fresh_iff (htoken hcarries)).mpr (hunspoilt hcarries).1)⟩
        refine ⟨hissued ▸ (isSome_issued_iff _).mpr hbrings, fun token h => (hone token h).2, ?_,
          fun token h => (hone token h).2 ▸ hclean⟩
        intro token h
        obtain ⟨hcarries, rfl⟩ := hone token h
        exact (rendered_iff hroute hdict (htoken hcarries)).mpr (hunspoilt hcarries).2

/-- A form at `/`, in a service with the feature. -/
def formRoute : AppRoute where
  toCompiledRoute := plainRoute "/"
  template := none
  status := 200
  cache := "no-store".toList
  headers := []
  lastModified := none
  handler := none

def formService : Service := { plainService with csrf := true }

def formShared : Shared := ⟨[formRoute], plainService.siteDir, plainConfig⟩

def formInner : Inner := ⟨plainService.siteDir, .empty, [], fun _ _ => .error .notFound⟩

def forgedLink : RawRequest := plainRequest "GET" "/" "csrf_token=x%0D%0AY:z" []

theorem forged_token : issuedToken (fourCores []) formService formShared formInner
      (pageSurroundings.drawing [1, 2]) forgedLink = some "x\r\nY:z".toList ∧
    csrfField "x\r\nY:z".toList ∈ (handleRequest (fourCores []) formService noTransforms formShared
      formInner (pageSurroundings.drawing [1, 2]) forgedLink).headers ∧
    ¬ CsrfIssued (fourCores []) formService formShared formInner
      (pageSurroundings.drawing [1, 2]) forgedLink := by
  have htoken : issuedToken (fourCores []) formService formShared formInner
      (pageSurroundings.drawing [1, 2]) forgedLink = some "x\r\nY:z".toList := by decide +kernel
  obtain ⟨page, rest, -, hheaders⟩ := @handleRequest_headers (fourCores []) formService noTransforms
    formShared formInner (pageSurroundings.drawing [1, 2]) forgedLink rfl
  refine ⟨htoken, ?_, fun h => absurd (h.generated _ htoken) (by decide)⟩
  rw [hheaders, htoken]
  exact List.mem_append_left _ (List.mem_append_right _ List.mem_cons_self)

end M6.App
