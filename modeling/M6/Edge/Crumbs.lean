import M6.Core.ClientKeys
import M6.Auth.Session
import M6.Edge.Ingress

/-!
# Cookie crumbs

An HTTP/2 or HTTP/3 client may send its cookies in several `cookie` fields. The edge
joins them for its own session check (`combinedCookieHeader`) and forwards the fields
as they came. A core backend looks up one field, and of several finds the first.

`forwardedFields` are the fields of the request that `forward_request_timeout` writes,
and `backendRequest` is what a core backend reads. `crumbs_survive_iff` compares a
request with the same request whose crumbs are joined.
-/

namespace M6

open List Option SortedMap Text Utf8

/-! ## Forwarding -/

def hopByHop : List Str :=
  ["connection".toList, "upgrade".toList, "keep-alive".toList, "transfer-encoding".toList,
    "te".toList, "trailer".toList, "proxy-authorization".toList, "proxy-connection".toList]

def proxyOwned : List Str :=
  ["content-length".toList, "x-forwarded-for".toList, "x-forwarded-proto".toList,
    "x-forwarded-host".toList, "x-real-ip".toList]

def skipWhenForwarding (name : Str) : Bool :=
  (hopByHop.any fun h => Text.eqIgnoreAsciiCase name h) ||
    proxyOwned.any fun h => Text.eqIgnoreAsciiCase name h

/-- The fields that `Connection` names. -/
def connectionNominated (headers : List (Str × Str)) : List Str :=
  (headers.filter fun f => Text.eqIgnoreAsciiCase f.1 "connection".toList).flatMap fun f =>
    ((f.2.splitOn ',').map Text.trim).filterMap fun token =>
      if token = [] ∨ Text.eqIgnoreAsciiCase token "close".toList ∨
          Text.eqIgnoreAsciiCase token "keep-alive".toList ∨
          Text.eqIgnoreAsciiCase token "upgrade".toList then none
      else some (Text.toAsciiLowercase token)

/-- The value of `Via`, with this hop appended. -/
def viaValue (existing : Option Str) (receivedVersion : Str) : Str :=
  let proto :=
    if Text.eqIgnoreAsciiCase receivedVersion "HTTP/2".toList ∨ receivedVersion = "2".toList then
      "2".toList
    else if Text.eqIgnoreAsciiCase receivedVersion "HTTP/3".toList ∨
        receivedVersion = "3".toList then "3".toList
    else if Text.eqIgnoreAsciiCase receivedVersion "HTTP/1.0".toList then "1.0".toList
    else "1.1".toList
  let mine := proto ++ " m6".toList
  match existing with
  | some prev =>
    if Text.trim prev ≠ [] then Text.trim prev ++ ", ".toList ++ mine else mine
  | none => mine

def h1FieldValueIsSafe (v : Str) : Bool := !v.any fun c => c == '\r' || c == '\n' || c == '\x00'

def h1FieldNameIsSafe (name : Str) : Bool :=
  name ≠ [] && name.all fun c => c.isAlphanum || "!#$%&'*+-.^_`|~".toList.contains c

/-- Whether a request can be written as HTTP/1.1. -/
def checkForwardable (req : RawRequest) (clientIp originalHost : Str) : Bool :=
  (req.method ≠ [] && req.method.all fun c => 0x21 ≤ c.toNat && c.toNat ≤ 0x7e && c ≠ '/') &&
  ([req.path, req.query.getD []].all fun s =>
    !s.any fun c => c == '\r' || c == '\n' || c == '\x00' || c == ' ') &&
  ([clientIp, originalHost].all h1FieldValueIsSafe) &&
  req.headers.all fun f =>
    skipWhenForwarding f.1 || (h1FieldNameIsSafe f.1 && h1FieldValueIsSafe f.2)

def isCopied (nominated : List Str) (f : Str × Str) : Bool :=
  !(Text.eqIgnoreAsciiCase f.1 "via".toList) && !(skipWhenForwarding f.1) &&
    !(nominated.any fun n => Text.eqIgnoreAsciiCase f.1 n)

def proxyFields (req : RawRequest) (clientIp originalHost : Str) : List (Str × Str) :=
  let vias := (req.headers.filter fun f => Text.eqIgnoreAsciiCase f.1 "via".toList).map Prod.snd
  [("Via".toList, viaValue vias.getLast? req.version)] ++
  (if originalHost = [] ∨ containsHeader req.headers "host".toList then []
    else [("Host".toList, originalHost)]) ++
  [("X-Forwarded-For".toList, clientIp), ("X-Forwarded-Proto".toList, "https".toList),
    ("X-Forwarded-Host".toList, originalHost)] ++
  (if req.body = [] then [] else [("Content-Length".toList, decimal req.body.length)]) ++
  [("Connection".toList, "close".toList)]

def forwardedFields (req : RawRequest) (clientIp originalHost : Str) : List (Str × Str) :=
  req.headers.filter (isCopied (connectionNominated req.headers)) ++
    proxyFields req clientIp originalHost

/-- The request that a core backend reads, if the request can be written and its parser
takes a head with these fields (no more than 64 of them, in no more bytes than its cap
lets through). -/
def backendRequest (takes : List (Str × Str) → Bool) (req : RawRequest)
    (clientIp originalHost : Str) : Option RawRequest :=
  if checkForwardable req clientIp originalHost &&
      takes (forwardedFields req clientIp originalHost) then
    some
      { method := req.method
        path := req.path
        query := req.query.filter (· ≠ [])
        version := "HTTP/1.1".toList
        headers := (forwardedFields req clientIp originalHost).map asRead
        body := req.body }
  else none

/-! ## Crumbs -/

inductive Protocol where
  | h2
  | h3

namespace Protocol

def text : Protocol → Bytes → Option Str
  | .h2, v => some (Utf8.decodeLossy v)
  | .h3, v => Utf8.fromUtf8? v

def request : Protocol → List RawField → Bytes → RawRequest
  | .h2, headers, body => (buildRequest (decodeHpack headers) body).1
  | .h3, headers, body => h3Request headers body

end Protocol

def isCookieField (f : RawField) : Bool :=
  Text.eqIgnoreAsciiCase (Utf8.decodeLossy f.1) "cookie".toList

def crumbs (headers : List RawField) : List Bytes := (headers.filter isCookieField).map Prod.snd

def joinCrumbs (headers : List RawField) : List RawField :=
  match crumbs headers with
  | [] => headers
  | cs => headers.filter (fun f => !isCookieField f) ++ [(lit "cookie", (lit "; ").intercalate cs)]

section

variable (p : Protocol) (takes : List (Str × Str) → Bool) (headers : List RawField) (body : Bytes)
  (clientIp originalHost : Str)

def seen : Option RawRequest := backendRequest takes (p.request headers body) clientIp originalHost

def Alike {α : Type} (read : RawRequest → α) : Prop :=
  (seen p takes headers body clientIp originalHost).map read =
    (seen p takes (joinCrumbs headers) body clientIp originalHost).map read

/-- The crumbs survive: a core backend sees the cookies it sees when they are joined, and
the edge's session check reads the joined field. -/
structure CrumbsSurvive : Prop where
  cookies : Alike p takes headers body clientIp originalHost cookiesMap
  csrf : Alike p takes headers body clientIp originalHost csrfCookie
  flash : Alike p takes headers body clientIp originalHost fun raw =>
    ((cookiesMap raw).get? "_flash".toList).bind Value.asStr
  refresh : Alike p takes headers body clientIp originalHost fun raw =>
    requestCookie raw "refresh".toList
  session : combinedCookieHeader (p.request headers body).headers =
    combinedCookieHeader (p.request (joinCrumbs headers) body).headers

end

/-! ## Cookies of a joined field -/

theorem cookiePairs_append {c : Char} (hc : Text.isWhitespace c = true) (s : Str) :
    cookiePairs (s ++ [c]) = cookiePairs s := by
  have hne : c ≠ ';' := fun h => absurd (h ▸ hc) (by decide)
  have hsingle : ∀ s : Str, ';' ∉ s → cookiePairs (s ++ [c]) = cookiePairs s := by
    intro s hs
    rw [cookiePairs_single hs, cookiePairs_single (by simp [hne.symm, hs]), trim_concat hc]
  rcases semicolon_cases s with hs | ⟨a, b, rfl, hb⟩
  · exact hsingle s hs
  · rw [append_assoc, cons_append, cookiePairs_semicolon, cookiePairs_semicolon, hsingle b hb]

theorem cookiePairs_trimOws (s : Str) : cookiePairs (trimOws s) = cookiePairs s := by
  have hows : ∀ c, isOws c = true → isWhitespace c = true := by
    intro c hc
    rcases (by simpa [isOws] using hc : c = ' ' ∨ c = '\t') with rfl | rfl <;> decide
  have hleft : ∀ s, cookiePairs (s.dropWhile isOws) = cookiePairs s := by
    intro s
    induction s with
    | nil => rfl
    | cons c s ih =>
      rw [dropWhile_cons]
      split_ifs with hc
      · rw [ih, cookiePairs_cons (hows c hc)]
      · rfl
  have hright : ∀ s, cookiePairs (s.rdropWhile isOws) = cookiePairs s := by
    intro s
    induction s using reverseRecOn with
    | nil => rfl
    | append_singleton s c ih =>
      rw [rdropWhile_concat]
      split_ifs with hc
      · rw [ih, cookiePairs_append (hows c hc)]
      · rfl
  rw [trimOws, hright, hleft]

theorem Protocol.text_semicolon (p : Protocol) (a b : Bytes) :
    p.text (a ++ lit "; " ++ b) = (p.text a).bind fun s => (p.text b).map fun s' =>
      s ++ "; ".toList ++ s' := by
  have hlit : a ++ lit "; " ++ b = a ++ 0x3b :: 0x20 :: b := by
    rw [show lit "; " = [0x3b, 0x20] by decide]
    simp
  have hspace : (0x20 :: b : Bytes) = [] ++ 0x20 :: b := rfl
  rw [hlit]
  cases p with
  | h2 =>
    simp only [Protocol.text, bind_some, map_some, some.injEq]
    rw [decodeLossy_append_ascii (by decide), hspace, decodeLossy_append_ascii (by decide)]
    simp [decodeLossy, decodeFrom]
  | h3 =>
    simp only [Protocol.text]
    rw [fromUtf8?_append_ascii (by decide), hspace, fromUtf8?_append_ascii (by decide)]
    rcases Utf8.fromUtf8? a with _ | s
    · rfl
    · rcases Utf8.fromUtf8? b with _ | s'
      · rfl
      · simp [Utf8.fromUtf8?, fromUtf8From]

theorem Protocol.text_intercalate (p : Protocol) (cs : List Bytes) :
    p.text ((lit "; ").intercalate cs) = (cs.mapM p.text).map ("; ".toList.intercalate ·) := by
  induction cs with
  | nil => cases p <;> rfl
  | cons c cs ih =>
    cases cs with
    | nil =>
      have hone : (lit "; ").intercalate [c] = c := by simp [intercalate]
      rw [hone]
      simp only [mapM_cons, mapM_nil]
      rcases p.text c with _ | s
      · rfl
      · simp [intercalate]
    | cons d cs =>
      have hjoin : (lit "; ").intercalate (c :: d :: cs) =
          c ++ lit "; " ++ (lit "; ").intercalate (d :: cs) := by
        simp [intercalate]
      rw [hjoin, Protocol.text_semicolon, ih]
      simp only [mapM_cons]
      rcases p.text c with _ | s
      · rfl
      rcases p.text d with _ | s'
      · rfl
      rcases cs.mapM p.text with _ | texts
      · rfl
      · simp [intercalate]

/-! ## The two requests -/

def isCookie (f : Str × Str) : Bool := Text.eqIgnoreAsciiCase f.1 "cookie".toList

theorem eqIgnoreAsciiCase_congr {a b : Str} (h : Text.eqIgnoreAsciiCase a b = true) (n : Str) :
    Text.eqIgnoreAsciiCase a n = Text.eqIgnoreAsciiCase b n := by
  have h : toAsciiLowercase a = toAsciiLowercase b := by
    simpa [eqIgnoreAsciiCase] using h
  rw [eqIgnoreAsciiCase, eqIgnoreAsciiCase, h]

/-- Two requests that differ in their cookie fields only. -/
structure SameButCookies (r r' : RawRequest) : Prop where
  method : r'.method = r.method
  path : r'.path = r.path
  query : r'.query = r.query
  version : r'.version = r.version
  body : r'.body = r.body
  others : r'.headers.filter (fun f => !isCookie f) = r.headers.filter fun f => !isCookie f

def cookieValues (r : RawRequest) : List Str := (r.headers.filter isCookie).map Prod.snd

theorem isRegular_of_cookie {f : Str × Str} (h : isCookie f = true) : isRegular f = true := by
  have huntrusted : isUntrustedInbound f.1 = isUntrustedInbound "cookie".toList := by
    simp only [isUntrustedInbound, eqIgnoreAsciiCase_congr h]
  have hhead : f.1.head? ≠ some ':' := by
    intro hhead
    rw [isCookie, eqIgnoreAsciiCase, beq_iff_eq] at h
    rcases hf : f.1 with _ | ⟨c, rest⟩
    · rw [hf] at hhead
      cases hhead
    · rw [hf] at hhead h
      cases hhead
      exact absurd (List.cons.inj h).1 (by decide)
  rw [isRegular, huntrusted, decide_eq_true hhead]
  decide

def Building.core (b : Building) : Str × Str × Option Str × Option Str :=
  (b.method, b.path, b.query, b.authority)

theorem buildStep_core_congr {b b' : Building} (h : b.core = b'.core) (f : Str × Str) :
    (buildStep b f).core = (buildStep b' f).core := by
  obtain ⟨m, p, q, fwd, a, x⟩ := b
  obtain ⟨m', p', q', fwd', a', x'⟩ := b'
  simp only [Building.core, Prod.mk.injEq] at h
  obtain ⟨rfl, rfl, rfl, rfl⟩ := h
  simp only [buildStep]
  split_ifs
  · rfl
  · rcases cutAt '?' f.2 with ⟨path, _ | query⟩ <;> rfl
  all_goals rfl

theorem buildStep_core_cookie (b : Building) {f : Str × Str} (h : isCookie f = true) :
    (buildStep b f).core = b.core := by
  rw [buildStep_regular b (isRegular_of_cookie h)]
  rfl

theorem core_foldl (l : List (Str × Str)) {b b' : Building} (h : b.core = b'.core) :
    (l.foldl buildStep b).core = ((l.filter fun f => !isCookie f).foldl buildStep b').core := by
  induction l generalizing b b' with
  | nil => exact h
  | cons f l ih =>
    rw [foldl_cons]
    by_cases hf : isCookie f = true
    · rw [filter_cons_of_neg (by simp [hf])]
      exact ih ((buildStep_core_cookie b hf).trans h)
    · rw [filter_cons_of_pos (by simpa using hf), foldl_cons]
      exact ih (buildStep_core_congr h f)

theorem filter_withHost (authority : Option Str) (fwd : List (Str × Str)) :
    (withHost authority fwd).filter (fun f => !isCookie f) =
      withHost authority (fwd.filter fun f => !isCookie f) := by
  have hhost : containsHeader (fwd.filter fun f => !isCookie f) "host".toList =
      containsHeader fwd "host".toList := by
    rw [Bool.eq_iff_iff, containsHeader, containsHeader, List.any_eq_true, List.any_eq_true]
    constructor
    · rintro ⟨f, hf, hname⟩
      exact ⟨f, (mem_filter.mp hf).1, hname⟩
    · rintro ⟨f, hf, hname⟩
      refine ⟨f, mem_filter.mpr ⟨hf, ?_⟩, hname⟩
      rw [isCookie, eqIgnoreAsciiCase_congr hname]
      decide
  cases authority with
  | none => rfl
  | some a =>
    simp only [withHost, hhost]
    split_ifs
    · rw [filter_append]
      rfl
    · rfl

theorem filter_cookie_withHost (authority : Option Str) (fwd : List (Str × Str)) :
    (withHost authority fwd).filter isCookie = fwd.filter isCookie := by
  cases authority with
  | none => rfl
  | some a =>
    simp only [withHost]
    split_ifs
    · rw [filter_append, show [("Host".toList, a)].filter isCookie = [] from rfl, append_nil]
    · rfl

theorem filter_regular_not_cookie (l : List (Str × Str)) :
    (l.filter isRegular).filter (fun f => !isCookie f) =
      (l.filter fun f => !isCookie f).filter isRegular := by
  rw [List.filter_filter, List.filter_filter]
  exact filter_congr fun f _ => Bool.and_comm ..

theorem filter_regular_cookie (l : List (Str × Str)) :
    (l.filter isRegular).filter isCookie = l.filter isCookie := by
  rw [List.filter_filter]
  refine filter_congr fun f _ => ?_
  by_cases h : isCookie f = true
  · rw [h, isRegular_of_cookie h]
    rfl
  · rw [Bool.not_eq_true] at h
    rw [h, Bool.false_and]

theorem buildRequest_sameButCookies {l l' : List (Str × Str)} (body : Bytes)
    (h : l'.filter (fun f => !isCookie f) = l.filter fun f => !isCookie f) :
    SameButCookies (buildRequest l body).1 (buildRequest l' body).1 := by
  have hcore : ∀ b : Building, (l'.foldl buildStep b).core = (l.foldl buildStep b).core := by
    intro b
    rw [core_foldl l' rfl, core_foldl l rfl, h]
  obtain ⟨hmethod, hpath, hquery, hauthority⟩ : _ ∧ _ ∧ _ ∧ _ := by
    simpa only [Building.core, Prod.mk.injEq] using hcore ⟨[], [], none, [], none, none⟩
  refine ⟨hmethod, hpath, hquery, rfl, rfl, ?_⟩
  simp only [buildRequest, filter_withHost, fwd_foldl, nil_append, filter_regular_not_cookie,
    h, hauthority]

theorem cookieValues_buildRequest (l : List (Str × Str)) (body : Bytes) :
    cookieValues (buildRequest l body).1 = (l.filter isCookie).map Prod.snd := by
  simp only [cookieValues, buildRequest, filter_cookie_withHost, fwd_foldl, nil_append,
    filter_regular_cookie]

theorem h3Field_cookie {f : RawField} (h : isCookieField f = true) :
    h3Field f = (Utf8.fromUtf8? f.2).map fun v => (Utf8.decodeLossy f.1, v) := by
  have hregular := isRegular_of_cookie (f := (decodeLossy f.1, [])) h
  obtain ⟨hhead, huntrusted⟩ : (decodeLossy f.1).head? ≠ some ':' ∧
      isUntrustedInbound (decodeLossy f.1) = false := by
    simpa [isRegular] using hregular
  have hcolon : f.1.head? ≠ some 0x3a := fun hcolon =>
    hhead ((head?_decodeLossy (by decide) f.1).mpr hcolon)
  have hname : Utf8.fromUtf8? f.1 = some (decodeLossy f.1) := by
    rcases decodeLossy_cases f.1 with hsome | ⟨-, hmem⟩
    · exact hsome
    · have hlower : toAsciiLowercase (decodeLossy f.1) = "cookie".toList := beq_iff_eq.mp h
      have hmem := mem_map_of_mem (f := Char.toLower) hmem
      rw [← toAsciiLowercase, hlower] at hmem
      exact absurd hmem (by decide)
  rw [h3Field, if_neg hcolon, hname, bind_some, huntrusted]
  rcases Utf8.fromUtf8? f.2 with _ | v
  · rfl
  · rfl

theorem isCookie_of_h3Field {f : RawField} {g : Str × Str} (h : h3Field f = some g) :
    isCookie g = isCookieField f := by
  rw [h3Field] at h
  split_ifs at h
  obtain ⟨k, hk, h⟩ := bind_eq_some_iff.mp h
  obtain ⟨v, hv, h⟩ := bind_eq_some_iff.mp h
  split_ifs at h
  cases h
  rcases decodeLossy_cases f.1 with hsome | ⟨hnone, -⟩
  · rw [hk] at hsome
    rw [isCookie, isCookieField, ← some.inj hsome]
  · rw [hk] at hnone
    cases hnone

theorem filter_filterMap_h3Field (headers : List RawField) (b : Bool) :
    (headers.filterMap h3Field).filter (fun g => isCookie g == b) =
      (headers.filter fun f => isCookieField f == b).filterMap h3Field := by
  induction headers with
  | nil => rfl
  | cons f headers ih =>
    rw [filterMap_cons, filter_cons]
    rcases hf : h3Field f with _ | g
    · split_ifs
      · rw [filterMap_cons, hf]
        exact ih
      · exact ih
    · simp only [filter_cons, isCookie_of_h3Field hf]
      split_ifs
      · rw [filterMap_cons, hf, ih]
      · exact ih

theorem h3Scan_filter (headers : List RawField) (s : H3Scan) : headers.foldl h3ScanStep s =
      (headers.filter fun f => !isCookieField f).foldl h3ScanStep s := by
  induction headers generalizing s with
  | nil => rfl
  | cons f headers ih =>
    by_cases hf : isCookieField f = true
    · have hstep : h3ScanStep s f = s := by
        have hne : ∀ name : Bytes, isCookieField (name, []) = false → f.1 ≠ name := by
          rintro name hname rfl
          rw [show isCookieField f = false from hname] at hf
          cases hf
        rw [h3ScanStep, if_neg (hne _ (by decide)), if_neg (hne _ (by decide +kernel))]
      rw [filter_cons_of_neg (by simp [hf]), foldl_cons, hstep, ih]
    · rw [filter_cons_of_pos (by simpa using hf), foldl_cons, foldl_cons, ih]

theorem cookieValues_request (p : Protocol) (headers : List RawField) (body : Bytes) :
    cookieValues (p.request headers body) = (crumbs headers).filterMap p.text := by
  cases p with
  | h2 =>
    have hfilter : (decodeHpack headers).filter isCookie =
      decodeHpack (headers.filter isCookieField) := filter_map
    rw [Protocol.request, cookieValues_buildRequest, hfilter, decodeHpack, crumbs, List.map_map,
      filterMap_map, ← filterMap_eq_map]
    rfl
  | h3 =>
    have hfilter := filter_filterMap_h3Field headers true
    simp only [beq_true] at hfilter
    simp only [Protocol.request, h3Request, cookieValues, hfilter, crumbs]
    rw [map_filterMap, filterMap_map]
    refine filterMap_congr fun f hf => ?_
    rw [h3Field_cookie (mem_filter.mp hf).2, Function.comp_apply, Protocol.text]
    cases Utf8.fromUtf8? f.2 <;> rfl

theorem request_sameButCookies (p : Protocol) {headers headers' : List RawField} (body : Bytes)
    (h : headers'.filter (fun f => !isCookieField f) = headers.filter fun f => !isCookieField f) :
    SameButCookies (p.request headers body) (p.request headers' body) := by
  cases p with
  | h2 =>
    have hfilter : ∀ headers : List RawField, (decodeHpack headers).filter (fun f => !isCookie f) =
        decodeHpack (headers.filter fun f => !isCookieField f) := fun headers => filter_map
    refine buildRequest_sameButCookies body ?_
    rw [hfilter, hfilter, h]
  | h3 =>
    have hscan : h3Scan headers' = h3Scan headers := by
      rw [h3Scan, h3Scan, h3Scan_filter, h3Scan_filter headers, h]
    have hfields : ∀ headers : List RawField,
      (headers.filterMap h3Field).filter (fun g => !isCookie g) =
        (headers.filter fun f => !isCookieField f).filterMap h3Field := by
      intro headers
      simpa only [beq_false] using filter_filterMap_h3Field headers false
    refine ⟨?_, ?_, ?_, rfl, rfl, ?_⟩
    · simp only [Protocol.request, h3Request, hscan]
    · simp only [Protocol.request, h3Request, hscan]
    · simp only [Protocol.request, h3Request, hscan]
    · simp only [Protocol.request, h3Request, hfields, h]

theorem joinCrumbs_spec {headers : List RawField} (h : crumbs headers ≠ []) :
    crumbs (joinCrumbs headers) = [(lit "; ").intercalate (crumbs headers)] ∧
      (joinCrumbs headers).filter (fun f => !isCookieField f) =
        headers.filter fun f => !isCookieField f := by
  have hcookie : ∀ v, isCookieField (lit "cookie", v) = true := fun v => by
    rw [isCookieField, show decodeLossy (lit "cookie") = "cookie".toList from decodeLossy_encode _]
    decide
  have hjoin : joinCrumbs headers = headers.filter (fun f => !isCookieField f) ++
      [(lit "cookie", (lit "; ").intercalate (crumbs headers))] := by
    rw [joinCrumbs]
    split
    · contradiction
    · rfl
  rw [hjoin]
  constructor
  · rw [crumbs, filter_append, List.filter_filter]
    simp [hcookie]
  · rw [filter_append, List.filter_filter]
    simp [hcookie]

/-! ## What the backend sees -/

theorem header_eq_head? (headers : List (Str × Str)) (name : Str) : header headers name =
      ((headers.filter fun f => Text.eqIgnoreAsciiCase f.1 name).map Prod.snd).head? := by
  rw [header, head?_map, head?_filter]

/-- Whether `Connection` names the cookies. -/
def cookieNominated (headers : List (Str × Str)) : Bool :=
  (connectionNominated headers).any fun n => Text.eqIgnoreAsciiCase "cookie".toList n

theorem isCopied_cookie (headers : List (Str × Str)) {f : Str × Str} (h : isCookie f = true) :
    isCopied (connectionNominated headers) f = !cookieNominated headers := by
  have hvia : eqIgnoreAsciiCase f.1 "via".toList = false := by
    rw [eqIgnoreAsciiCase_congr h]
    decide
  have hskip : skipWhenForwarding f.1 = false := by
    simp only [skipWhenForwarding, eqIgnoreAsciiCase_congr h]
    decide
  simp only [isCopied, hvia, hskip, eqIgnoreAsciiCase_congr h, cookieNominated, Bool.not_false,
    Bool.true_and]

theorem filter_cookie_proxyFields (req : RawRequest) (clientIp originalHost : Str) :
    (proxyFields req clientIp originalHost).filter isCookie = [] := by
  simp only [proxyFields]
  split_ifs <;> rfl

theorem header_backend (req : RawRequest) (clientIp originalHost : Str) :
    header ((forwardedFields req clientIp originalHost).map asRead) "cookie".toList =
      if cookieNominated req.headers then none else (cookieValues req).head?.map trimOws := by
  have hmap : ((forwardedFields req clientIp originalHost).map asRead).filter isCookie =
      ((forwardedFields req clientIp originalHost).filter isCookie).map asRead := filter_map
  have hcopied : (req.headers.filter (isCopied (connectionNominated req.headers))).filter isCookie =
      if cookieNominated req.headers then [] else req.headers.filter isCookie := by
    rw [List.filter_filter]
    split_ifs with hnominated
    · refine filter_eq_nil_iff.mpr fun f _ hf => ?_
      obtain ⟨hcookie, hcopied⟩ := Bool.and_eq_true_iff.mp hf
      rw [isCopied_cookie _ hcookie, hnominated] at hcopied
      cases hcopied
    · refine filter_congr fun f _ => ?_
      by_cases hcookie : isCookie f = true
      · rw [isCopied_cookie _ hcookie, hcookie]
        simpa using hnominated
      · rw [Bool.not_eq_true] at hcookie
        rw [hcookie, Bool.false_and]
  have hvalues : ((((forwardedFields req clientIp originalHost).map asRead).filter isCookie).map
      Prod.snd) =
      if cookieNominated req.headers then [] else (cookieValues req).map trimOws := by
    rw [hmap, forwardedFields, filter_append, hcopied, filter_cookie_proxyFields, append_nil]
    split_ifs
    · rfl
    · simp [cookieValues, asRead]
  rw [header_eq_head?]
  refine (congrArg head? hvalues).trans ?_
  split_ifs
  · rfl
  · exact head?_map

section

variable {r r' : RawRequest}

theorem SameButCookies.filter_eq (h : SameButCookies r r') {q : Str × Str → Bool}
    (hq : ∀ f, q f = true → isCookie f = false) : r'.headers.filter q = r.headers.filter q := by
  have hfilter : ∀ l : List (Str × Str), l.filter q = (l.filter fun f => !isCookie f).filter q := by
    intro l
    rw [List.filter_filter]
    refine filter_congr fun f _ => ?_
    by_cases hf : q f = true
    · rw [hf, hq f hf]
      rfl
    · rw [Bool.not_eq_true] at hf
      rw [hf, Bool.false_and]
  rw [hfilter, hfilter r.headers, h.others]

theorem not_cookie_of_name {name : Str} (hname : Text.eqIgnoreAsciiCase name
    "cookie".toList = false)
    (f : Str × Str) (hf : Text.eqIgnoreAsciiCase f.1 name = true) : isCookie f = false := by
  rw [isCookie, eqIgnoreAsciiCase_congr hf, hname]

theorem SameButCookies.cookieNominated_eq (h : SameButCookies r r') :
    cookieNominated r'.headers = cookieNominated r.headers := by
  rw [cookieNominated, cookieNominated, connectionNominated, connectionNominated,
    h.filter_eq (not_cookie_of_name (by decide))]

theorem nameIsSafe_of_cookie {f : Str × Str} (h : isCookie f = true) :
    h1FieldNameIsSafe f.1 = true := by
  have hlower : toAsciiLowercase f.1 = "cookie".toList := beq_iff_eq.mp h
  have halnum : ∀ c : Char, c.toLower ∈ "cookie".toList → c.isAlphanum = true := by
    intro c hc
    by_cases hupper : c.isUpper = true
    · change (c.isUpper || c.isLower || c.isDigit) = true
      rw [hupper]
      rfl
    · have hbounds : ¬ (c.val ≥ 'A'.val ∧ c.val ≤ 'Z'.val) := fun h => hupper (decide_eq_true h)
      have hsame : c.toLower = c := dif_neg hbounds
      rw [hsame] at hc
      have hall : ("cookie".toList.all Char.isAlphanum) = true := by decide
      exact List.all_eq_true.mp hall c hc
  have hne : f.1 ≠ [] := by
    intro hnil
    rw [hnil] at hlower
    cases hlower
  rw [h1FieldNameIsSafe, decide_eq_true hne, Bool.true_and, List.all_eq_true]
  intro c hc
  rw [halnum c (hlower ▸ mem_map_of_mem hc), Bool.true_or]

theorem all_headers_eq (l : List (Str × Str)) :
    (l.all fun f => skipWhenForwarding f.1 || (h1FieldNameIsSafe f.1 && h1FieldValueIsSafe f.2)) =
      (((l.filter fun f => !isCookie f).all fun f =>
        skipWhenForwarding f.1 || (h1FieldNameIsSafe f.1 && h1FieldValueIsSafe f.2)) &&
      ((l.filter isCookie).map Prod.snd).all h1FieldValueIsSafe) := by
  induction l with
  | nil => rfl
  | cons f l ih =>
    rw [all_cons, ih]
    by_cases hf : isCookie f = true
    · have hskip : skipWhenForwarding f.1 = false := by
        simp only [skipWhenForwarding, eqIgnoreAsciiCase_congr hf]
        decide
      rw [filter_cons_of_neg (by simp [hf]), filter_cons_of_pos hf, map_cons,
        all_cons, hskip, nameIsSafe_of_cookie hf, Bool.false_or, Bool.true_and]
      exact Bool.and_left_comm ..
    · rw [filter_cons_of_pos (by simpa using hf), filter_cons_of_neg hf, all_cons, Bool.and_assoc]

theorem SameButCookies.checkForwardable_eq (h : SameButCookies r r') (clientIp originalHost : Str)
    (hvalues : (cookieValues r').all h1FieldValueIsSafe = (cookieValues r).all h1FieldValueIsSafe) :
    checkForwardable r' clientIp originalHost = checkForwardable r clientIp originalHost := by
  rw [checkForwardable, checkForwardable, h.method, h.path, h.query, all_headers_eq,
    all_headers_eq r.headers, h.others, ← cookieValues, ← cookieValues, hvalues]

end

/-! ## Readers -/

def headerPairs (raw : RawRequest) : List (Str × Str) :=
  ((raw.header "cookie".toList).map cookiePairs).getD []

theorem cookiesMap_eq (raw : RawRequest) :
    cookiesMap raw = SortedMap.empty.insertAll (strings (headerPairs raw)) := by
  rw [cookiesMap, headerPairs]
  cases raw.header "cookie".toList <;> rfl

theorem requestCookie_eq (raw : RawRequest) (name : Str) :
    requestCookie raw name = ((headerPairs raw).find? fun p => p.1 = name).map Prod.snd := by
  rw [requestCookie, headerPairs]
  cases raw.header "cookie".toList <;> rfl

/-- The cookies that are forwarded to where a backend looks. -/
def firstPairs (r : RawRequest) : List (Str × Str) :=
  if cookieNominated r.headers then [] else ((cookieValues r).head?.map cookiePairs).getD []

theorem headerPairs_backend {takes : List (Str × Str) → Bool} {r b : RawRequest}
    {clientIp originalHost : Str} (h : backendRequest takes r clientIp originalHost = some b) :
    headerPairs b = firstPairs r := by
  rw [backendRequest] at h
  split_ifs at h
  cases h
  simp only [headerPairs, RawRequest.header, header_backend, firstPairs]
  split_ifs
  · rfl
  · cases (cookieValues r).head? with
    | none => rfl
    | some v => exact cookiePairs_trimOws v

theorem map_backendRequest {α : Type} {read : RawRequest → α} {g : List (Str × Str) → α}
    (hread : ∀ raw, read raw = g (headerPairs raw)) (takes : List (Str × Str) → Bool)
    (r : RawRequest) (clientIp originalHost : Str) :
    (backendRequest takes r clientIp originalHost).map read =
      if checkForwardable r clientIp originalHost &&
          takes (forwardedFields r clientIp originalHost) then some
            (g (firstPairs r)) else none := by
  rcases hb : backendRequest takes r clientIp originalHost with _ | b
  · rw [backendRequest] at hb
    split_ifs at hb ⊢
    rfl
  · rw [map_some, hread, headerPairs_backend hb]
    rw [backendRequest] at hb
    split_ifs at hb ⊢
    rfl

def LaterAddNothing (values : List Str) : Prop :=
  ∀ k v, SortedMap.lastValue (values.tail.flatMap cookiePairs) k = some v →
    SortedMap.lastValue ((values.head?.map cookiePairs).getD []) k = some v

theorem flatMap_head_tail (values : List Str) : values.flatMap cookiePairs =
      (values.head?.map cookiePairs).getD [] ++ values.tail.flatMap cookiePairs := by
  cases values <;> rfl

theorem insertAll_eq_iff (values : List Str) :
    SortedMap.empty.insertAll (strings ((values.head?.map cookiePairs).getD [])) =
        (SortedMap.empty.insertAll (strings (values.flatMap cookiePairs)) : DictMap) ↔
      LaterAddNothing values := by
  have hget : ∀ (l : List (Str × Str)) (k : Str),
      (SortedMap.empty.insertAll (strings l) : DictMap).get? k =
        (lastValue l k).map Value.string := by
    intro l k
    rw [get?_insertAll, get?_empty, or_none, lastValue_strings]
  have hinj : ∀ o o' : Option Str, o.map Value.string = o'.map Value.string → o = o' :=
    map_injective fun _ _ h => Value.string.inj h
  constructor
  · intro heq k v hv
    have hk := congrArg (fun m : DictMap => m.get? k) heq
    simp only [hget] at hk
    rw [hinj _ _ hk, flatMap_head_tail, lastValue_append, hv]
    rfl
  · intro hlater
    refine ext_get? fun k => ?_
    rw [hget, hget, flatMap_head_tail, lastValue_append]
    rcases hv : lastValue (values.tail.flatMap cookiePairs) k with _ | v
    · rfl
    · rw [hlater k v hv]
      rfl

theorem find?_eq_of_later {values : List Str} (h : LaterAddNothing values) (name : Str) :
    ((values.head?.map cookiePairs).getD []).find? (fun p => p.1 = name) =
      (values.flatMap cookiePairs).find? fun p => p.1 = name := by
  rw [flatMap_head_tail, find?_append]
  rcases hfirst : ((values.head?.map cookiePairs).getD []).find? (fun p => p.1 = name) with _ | e
  · rw [hfirst, none_or]
    rcases hrest : (values.tail.flatMap cookiePairs).find? (fun p => p.1 = name) with _ | e
    · rw [hrest]
    · -- a cookie of the later fields would be one of the first
      have hname : e.1 = name := by simpa using find?_some hrest
      rcases hv : lastValue (values.tail.flatMap cookiePairs) name with _ | v
      · exact absurd hname (lastValue_eq_none.mp hv e (mem_of_find?_eq_some hrest))
      · have hmem := mem_of_lastValue (h name v hv)
        have hno := find?_eq_none.mp hfirst _ hmem
        simp at hno
  · rw [hfirst, some_or]

/-! ## The two runs -/

theorem valueIsSafe_append (a b : Str) :
    h1FieldValueIsSafe (a ++ b) = (h1FieldValueIsSafe a && h1FieldValueIsSafe b) := by
  simp [h1FieldValueIsSafe]

theorem valueIsSafe_intercalate (values : List Str) :
    h1FieldValueIsSafe ("; ".toList.intercalate values) = values.all h1FieldValueIsSafe := by
  induction values with
  | nil => rfl
  | cons v values ih =>
    cases values with
    | nil => simp [intercalate]
    | cons w values =>
      have hjoin : "; ".toList.intercalate (v :: w :: values) =
          v ++ ("; ".toList ++ "; ".toList.intercalate (w :: values)) := by
        simp [intercalate]
      rw [hjoin, valueIsSafe_append, valueIsSafe_append, ih, all_cons]
      rfl

theorem mapM_eq_some {α β : Type} {f : α → Option β} {l : List α} {out : List β}
    (h : l.mapM f = some out) : l.filterMap f = out := by
  induction l generalizing out with
  | nil => exact some.inj h
  | cons a l ih =>
    rw [mapM_cons] at h
    obtain ⟨b, hb, h⟩ := bind_eq_some_iff.mp h
    obtain ⟨rest, hrest, h⟩ := bind_eq_some_iff.mp h
    rw [filterMap_cons, hb, ih hrest]
    exact some.inj h

theorem combinedCookieHeader_eq (r : RawRequest) : combinedCookieHeader r.headers =
      if cookieValues r = [] then none else some ("; ".toList.intercalate (cookieValues r)) := by
  have hmap : cookieValues r = (r.headers.filter isCookie).map Prod.snd := rfl
  have hfields : (r.headers.filter fun h => eqIgnoreAsciiCase h.1 "cookie".toList) =
      r.headers.filter isCookie := rfl
  rw [combinedCookieHeader, hfields, hmap]
  rcases r.headers.filter isCookie with _ | ⟨f, fields⟩
  · rfl
  · rfl

theorem SameButCookies.eq_of_none {r r' : RawRequest} (h : SameButCookies r r')
    (hr : cookieValues r = []) (hr' : cookieValues r' = []) : r' = r := by
  have hall : ∀ r : RawRequest, cookieValues r = [] →
      r.headers.filter (fun f => !isCookie f) = r.headers := by
    intro r hr
    refine filter_eq_self.mpr fun f hf => ?_
    by_contra hcookie
    have hmem : f ∈ r.headers.filter isCookie :=
      mem_filter.mpr ⟨hf, by simpa using hcookie⟩
    rw [map_eq_nil_iff.mp hr] at hmem
    cases hmem
  have hheaders := h.others
  rw [hall r hr, hall r' hr'] at hheaders
  obtain ⟨method, path, query, version, headers, body⟩ := r
  obtain ⟨method', path', query', version', headers', body'⟩ := r'
  obtain ⟨rfl, rfl, rfl, rfl, rfl, -⟩ := h
  cases hheaders
  rfl

section

variable (p : Protocol) (takes : List (Str × Str) → Bool) (headers : List RawField) (body : Bytes)
  (clientIp originalHost : Str)

/-- When the crumbs survive. If a crumb cannot be read as text then none can. Otherwise, if the
request can be forwarded at all, the backend takes both heads or neither, and of heads
that it takes, unless `Connection` strips the cookies, the first field has what the
later ones have. -/
def Survivable : Prop :=
  match (crumbs headers).mapM p.text with
  | none => (crumbs headers).filterMap p.text = []
  | some values =>
    checkForwardable (p.request headers body) clientIp originalHost = true →
      takes (forwardedFields (p.request headers body) clientIp originalHost) =
          takes (forwardedFields (p.request (joinCrumbs headers) body) clientIp originalHost) ∧
        (takes (forwardedFields (p.request headers body) clientIp originalHost) = true →
          cookieNominated (p.request headers body).headers = false → LaterAddNothing values)

variable {p takes headers body clientIp originalHost}

theorem Alike.comp {α β : Type} {read : RawRequest → α}
    (h : Alike p takes headers body clientIp originalHost read) (f : α → β) :
    Alike p takes headers body clientIp originalHost fun raw => f (read raw) := by
  have hmap := congrArg (Option.map f) h
  rw [Option.map_map, Option.map_map] at hmap
  exact hmap

theorem alike_iff {α : Type} (read : RawRequest → α) (g : List (Str × Str) → α)
    (hread : ∀ raw, read raw = g (headerPairs raw))
    (hforward : checkForwardable (p.request (joinCrumbs headers) body) clientIp originalHost =
      checkForwardable (p.request headers body) clientIp originalHost) :
    Alike p takes headers body clientIp originalHost read ↔
      (checkForwardable (p.request headers body) clientIp originalHost = true →
        takes (forwardedFields (p.request headers body) clientIp originalHost) =
            takes (forwardedFields (p.request (joinCrumbs headers) body) clientIp originalHost) ∧
          (takes (forwardedFields (p.request headers body) clientIp originalHost) = true →
            g (firstPairs (p.request headers body)) =
              g (firstPairs (p.request (joinCrumbs headers) body)))) := by
  rw [Alike, seen, seen, map_backendRequest hread, map_backendRequest hread, hforward]
  rcases checkForwardable (p.request headers body) clientIp originalHost with _ | _
  · simp
  rcases takes (forwardedFields (p.request headers body) clientIp originalHost) with _ | _ <;>
  rcases takes (forwardedFields (p.request (joinCrumbs headers) body) clientIp originalHost)
    with _ | _ <;> simp

theorem crumbsSurvive_of_text {values : List Str}
    (hvalues : (crumbs headers).mapM p.text = some values) :
    CrumbsSurvive p takes headers body clientIp originalHost ↔
      (checkForwardable (p.request headers body) clientIp originalHost = true →
        takes (forwardedFields (p.request headers body) clientIp originalHost) =
            takes (forwardedFields (p.request (joinCrumbs headers) body) clientIp originalHost) ∧
          (takes (forwardedFields (p.request headers body) clientIp originalHost) = true →
            cookieNominated (p.request headers body).headers = false →
              LaterAddNothing values)) := by
  have hsplit : cookieValues (p.request headers body) = values := by
    rw [cookieValues_request, mapM_eq_some hvalues]
  by_cases hcrumbs : crumbs headers = []
  · -- there is nothing to join
    have hjoin : joinCrumbs headers = headers := by rw [joinCrumbs, hcrumbs]
    have hnil : values = [] := by
      rw [hcrumbs] at hvalues
      exact (some.inj hvalues).symm
    rw [hjoin, hnil]
    refine ⟨fun _ _ => ⟨rfl, fun _ _ k v hv => (nomatch hv)⟩, fun _ => ?_⟩
    exact ⟨by rw [Alike, hjoin], by rw [Alike, hjoin], by rw [Alike, hjoin], by rw [Alike, hjoin],
      by rw [hjoin]⟩
  obtain ⟨hone, hothers⟩ := joinCrumbs_spec hcrumbs
  have hsame := request_sameButCookies p body hothers
  have hjoined : cookieValues (p.request (joinCrumbs headers) body) =
      ["; ".toList.intercalate values] := by
    rw [cookieValues_request, hone, filterMap_cons, Protocol.text_intercalate, hvalues]
    rfl
  have hne : values ≠ [] := by
    rintro rfl
    rcases hc : crumbs headers with _ | ⟨c, cs⟩
    · exact hcrumbs hc
    · rw [hc, mapM_cons] at hvalues
      obtain ⟨b, -, hvalues⟩ := bind_eq_some_iff.mp hvalues
      obtain ⟨rest, -, hvalues⟩ := bind_eq_some_iff.mp hvalues
      cases hvalues
  have hforward := hsame.checkForwardable_eq clientIp originalHost
    (by rw [hjoined, hsplit, all_cons, all_nil, Bool.and_true, valueIsSafe_intercalate])
  have hfirst : firstPairs (p.request headers body) =
      if cookieNominated (p.request headers body).headers then []
      else (values.head?.map cookiePairs).getD [] := by
    rw [firstPairs, hsplit]
  have hall : firstPairs (p.request (joinCrumbs headers) body) =
      if cookieNominated (p.request headers body).headers then []
      else values.flatMap cookiePairs := by
    rw [firstPairs, hjoined, hsame.cookieNominated_eq, ← cookiePairs_intercalate]
    rfl
  have hcookies : Alike p takes headers body clientIp originalHost cookiesMap ↔ _ :=
    alike_iff cookiesMap (fun l => SortedMap.empty.insertAll (strings l)) cookiesMap_eq hforward
  have hiff : SortedMap.empty.insertAll (strings (firstPairs (p.request headers body))) =
      (SortedMap.empty.insertAll (strings (firstPairs (p.request (joinCrumbs headers) body))) :
        DictMap) ↔
      (cookieNominated (p.request headers body).headers = false → LaterAddNothing values) := by
    rw [hfirst, hall]
    rcases cookieNominated (p.request headers body).headers with _ | _
    · simpa using insertAll_eq_iff values
    · simp
  rw [hiff] at hcookies
  constructor
  · intro h
    exact hcookies.mp h.cookies
  · intro h
    have hmaps := hcookies.mpr h
    refine ⟨hmaps, ?_, ?_, ?_, ?_⟩
    · exact hmaps.comp fun m => ((m.get? "_csrf".toList).bind Value.asStr).getD []
    · exact hmaps.comp fun m => (m.get? "_flash".toList).bind Value.asStr
    · refine (alike_iff _ (fun l => (l.find? fun p => p.1 = "refresh".toList).map Prod.snd)
        (fun raw => requestCookie_eq raw _) hforward).mpr fun hok => ?_
      refine ⟨(h hok).1, fun htakes => ?_⟩
      rw [hfirst, hall]
      rcases hnominated : cookieNominated (p.request headers body).headers with _ | _
      · simp only [Bool.false_eq_true, if_false]
        rw [find?_eq_of_later ((h hok).2 htakes hnominated)]
      · rfl
    · rw [combinedCookieHeader_eq, combinedCookieHeader_eq, hjoined, hsplit, if_neg hne,
        if_neg (cons_ne_nil _ _), intercalate_singleton]

theorem crumbsSurvive_of_not_text (hnone : (crumbs headers).mapM p.text = none) :
    CrumbsSurvive p takes headers body clientIp originalHost ↔
      (crumbs headers).filterMap p.text = [] := by
  have hcrumbs : crumbs headers ≠ [] := by
    intro hcrumbs
    rw [hcrumbs] at hnone
    cases hnone
  obtain ⟨hone, hothers⟩ := joinCrumbs_spec hcrumbs
  have hsame := request_sameButCookies p body hothers
  have hjoined : cookieValues (p.request (joinCrumbs headers) body) = [] := by
    rw [cookieValues_request, hone, filterMap_cons, Protocol.text_intercalate, hnone]
    rfl
  rw [← cookieValues_request p headers body]
  constructor
  · intro h
    have hsession := h.session
    rw [combinedCookieHeader_eq, combinedCookieHeader_eq, hjoined, if_pos rfl] at hsession
    by_contra hkept
    rw [if_neg hkept] at hsession
    cases hsession
  · intro hkept
    have heq := hsame.eq_of_none hkept hjoined
    have halike : ∀ {α : Type} (read : RawRequest → α),
        Alike p takes headers body clientIp originalHost read := by
      intro α read
      rw [Alike, seen, seen, heq]
    exact ⟨halike _, halike _, halike _, halike _, by rw [heq]⟩

/-- **When cookie crumbs survive the hop.** For every field list of either protocol, the
cookies that a core backend sees are those of the joined field, and the edge's session check
reads that field, if and only if the crumbs are survivable: the backend looks at the first
cookie field alone, so the later ones must bring nothing of their own. -/
theorem crumbs_survive_iff (p : Protocol) (takes : List (Str × Str) → Bool)
    (headers : List RawField) (body : Bytes) (clientIp originalHost : Str) :
    CrumbsSurvive p takes headers body clientIp originalHost ↔
      Survivable p takes headers body clientIp originalHost := by
  rw [Survivable]
  split
  · next hnone => exact crumbsSurvive_of_not_text hnone
  · next values hvalues => exact crumbsSurvive_of_text hvalues

def crumbRequest (cookies : List String) : List RawField :=
  [(lit ":method", lit "POST"), (lit ":scheme", lit "https"), (lit ":authority", lit "example.org"),
    (lit ":path", lit "/auth/refresh")] ++ cookies.map fun c => (lit "cookie", lit c)

theorem second_crumb_lost :
    ¬ CrumbsSurvive .h2 (fun fields => fields.length ≤ 64)
      (crumbRequest ["session=s", "refresh=t"]) [] "192.0.2.1".toList "example.org".toList := by
  intro h
  have hsplit : ((seen .h2 (fun fields => fields.length ≤ 64)
      (crumbRequest ["session=s", "refresh=t"]) [] "192.0.2.1".toList "example.org".toList).map
        fun raw => requestCookie raw "refresh".toList) = some none := by
    decide +kernel
  have hjoined : ((seen .h2 (fun fields => fields.length ≤ 64)
      (joinCrumbs (crumbRequest ["session=s", "refresh=t"])) [] "192.0.2.1".toList
      "example.org".toList).map fun raw => requestCookie raw "refresh".toList) =
        some (some "t".toList) := by
    decide +kernel
  have halike := h.refresh
  rw [Alike, hsplit, hjoined] at halike
  cases halike

end

end M6
