import M6.Edge.Cache

/-!
# A cache hit and the miss that filled it

The request paths of `main.rs` of `m6-http`, for a request that goes to a backend and for one
that the cache answers. A backend's response is stored as it came, and is then rewritten for
the client that asked: an error of a socket backend is replaced by the error page, and `Vary`,
`Date`, `Link`, `alt-svc` and the session cookie are set. A hit applies its own rewrites to
what was stored.

`replay_iff` says when a hit answers what the miss had answered.
-/

namespace M6

open List Option Text

/-! ## Rewrites -/

def addFieldName (names : List Str) (n : Str) : List Str :=
  if names.any fun e => eqIgnoreAsciiCase e n then names else names ++ [n]

/-- All names that the `Vary` fields list, and the encoding. -/
def varyNames (headers : List (Str × Str)) : List Str :=
  addFieldName (((headers.filter (isNamed "vary")).flatMap fun f => fieldNames f.2).foldl
    addFieldName []) "Accept-Encoding".toList

/-- Have `Accept-Encoding` in a single `Vary` field, beside the other names the backend gave. A
backend that does not compress has one representation, and no `Vary` is added to it. -/
def setVaryAcceptEncoding (compresses : Bool) (headers : List (Str × Str)) : List (Str × Str) :=
  if !compresses && !headers.any (isNamed "vary") then headers
  else if (headers.filter (isNamed "vary")).any fun f => Text.trim f.2 == ['*'] then headers
  else (headers.filter fun f => !isNamed "vary" f) ++
    [("vary".toList, ", ".toList.intercalate (varyNames headers))]

/-- Add `Date` where there is none. -/
def setDate (date : HttpDate) (now : ClockReading) (headers : List (Str × Str)) : List
    (Str × Str) :=
  if containsHeader headers "date".toList then headers
  else headers ++ [("date".toList, date.fmt (now.wall / second))]

/-- Replace `Age`. -/
def setAge (age : Nat) (headers : List (Str × Str)) : List (Str × Str) :=
  (headers.filter fun f => !isNamed "age" f) ++ [("age".toList, decimal (age / second))]

def isHtmlResponse (headers : List (Str × Str)) : Bool :=
  (header headers "content-type".toList).any fun v =>
    decide ("text/html".toList <+: toAsciiLowercase v)

/-- A `Link` field to what describes the site. -/
def isDescribedby (f : Str × Str) : Bool :=
  isNamed "link" f && decide ("rel=\"describedby\"".toList <:+: toAsciiLowercase f.2)

def setDescribedbyLink (target : Str) (headers : List (Str × Str)) : List (Str × Str) :=
  if target = [] ∨ !isHtmlResponse headers then headers
  else (headers.filter fun f => !isDescribedby f) ++
    [("link".toList, "<".toList ++ target ++ ">; rel=\"describedby\"".toList)]

def setAltSvc (quicPort : Nat) (headers : List (Str × Str)) : List (Str × Str) :=
  (headers.filter fun f => !isNamed "alt-svc" f) ++
    [("alt-svc".toList, "h3=\":".toList ++ decimal quicPort ++ "\"; ma=86400".toList)]

/-- Set the session cookie that was made for this request, if one was, on HTML. -/
def finishResponse (minted : Option Str) (headers : List (Str × Str)) : List (Str × Str) :=
  match minted with
  | some cookie =>
    if isHtmlResponse headers then headers ++ [("Set-Cookie".toList, cookie)] else headers
  | none => headers

/-- Whether a `Set-Cookie` value sets a session. -/
def setsSession (value : Str) : Bool :=
  match cutAt '=' (Text.trim (cutAt ';' value).1) with
  | (name, some v) => name == "_m6sid".toList && v != []
  | _ => false

def finishProxiedResponse (minted : Option Str) (headers : List (Str × Str)) : List (Str × Str) :=
  if (headers.filter (isNamed "set-cookie")).any fun f => setsSession f.2 then headers
  else finishResponse minted headers

/-- The fields of a backend's error that the page in its place keeps. -/
def preservedErrorHeaders : List String :=
  ["retry-after", "www-authenticate", "proxy-authenticate", "allow"]

def preserveHeader (backend page : List (Str × Str)) (name : String) : List (Str × Str) :=
  if page.any (isNamed name) then page else page ++ (backend.find? (isNamed name)).toList

def preserveActionableHeaders (backend page : List (Str × Str)) : List (Str × Str) :=
  preservedErrorHeaders.foldl (preserveHeader backend) page

/-! ## Answers -/

/-- An answer, under the name of what gave it, before a protocol writes it out: to a HEAD it then
leaves out the body. -/
structure Answer where
  status : Nat
  headers : List (Str × Str)
  body : Bytes
  backend : Str
  deriving DecidableEq

/-- What an answer depends on besides the request and the backend. -/
structure Site where
  date : HttpDate
  errorMode : ErrorMode
  /-- whether a backend compresses what it sends -/
  compresses : Str → Bool
  describedby : Str
  quicPort : Nat
  /-- the page that the server makes itself for a status and a request -/
  internalErrorHtml : Nat → RawRequest → Bytes

def internalPage (site : Site) (req : RawRequest) (status : Nat) : Answer :=
  ⟨status, [("Content-Type".toList, "text/html; charset=utf-8".toList)],
    site.internalErrorHtml status req, "error".toList⟩

/-- Answer a status by the error mode. `page` is what the error backend sent, if there is a
route to it and it answered. -/
def applyErrorMode (site : Site) (req : RawRequest) (page : Option HttpResponse) (status : Nat) :
    Answer :=
  match site.errorMode with
  | .status => ⟨status, [("Content-Type".toList, "text/plain".toList)], [], "error".toList⟩
  | .internal => internalPage site req status
  | .custom errorPath =>
    if req.path = errorPath then internalPage site req status
    else
      match page with
      | some p => ⟨status, p.headers, p.body, "error".toList⟩
      | none => internalPage site req status

structure Forward where
  req : RawRequest
  enc : Str
  backend : Str
  /-- the route asks for no authentication, and the method is GET -/
  cacheable : Bool
  now : ClockReading
  /-- what the error backend sent, where it was asked -/
  page : Option HttpResponse
  /-- the session cookie that was made for this request -/
  minted : Option Str

def Forward.key (x : Forward) : Str := cacheKey x.req.path x.req.query x.enc

def Forward.dated (site : Site) (x : Forward) (resp : HttpResponse) : HttpResponse :=
  { resp with headers := setDate site.date x.now resp.headers }

def Forward.storable (x : Forward) (resp : HttpResponse) : Bool :=
  x.cacheable && requestPermitsStorage x.req.headers && shouldCache resp.status resp.headers

def HttpResponse.cached (origin : Nat) (resp : HttpResponse) : CachedResponse :=
  ⟨origin, resp.status, stripSetCookie resp.headers, resp.body⟩

/-- The entry that the exchange `origin` leaves in the cache, from a socket or a URL backend. -/
def Forward.stores (site : Site) (x : Forward) (origin : Nat) (resp : HttpResponse) :
    Option CachedResponse :=
  if x.storable (x.dated site resp) then some ((x.dated site resp).cached origin) else none

def Forward.socketAnswer (site : Site) (x : Forward) (reply : Option HttpResponse) : Answer :=
  match reply.map (x.dated site) with
  | some resp =>
    -- the entry, if there is one, has been stored before this
    if 400 ≤ resp.status then
      let p := applyErrorMode site x.req x.page resp.status
      { p with
        headers := finishResponse x.minted (preserveActionableHeaders resp.headers p.headers) }
    else ⟨resp.status, finishResponse x.minted resp.headers, resp.body, x.backend⟩
  | none =>
    let p := applyErrorMode site x.req x.page 502
    { p with headers := finishResponse x.minted (preserveActionableHeaders [] p.headers) }

/-- The answer to a request that a URL backend had: what it sent, even an error; a failure to
reach it becomes the error page. -/
def Forward.urlAnswer (site : Site) (x : Forward) (reply : Option HttpResponse) : Answer :=
  match reply.map (x.dated site) with
  | some resp =>
    ⟨resp.status, finishProxiedResponse x.minted (setAltSvc site.quicPort resp.headers), resp.body,
      x.backend⟩
  | none =>
    let p := applyErrorMode site x.req x.page 502
    { p with headers := finishResponse x.minted p.headers }

/-- What is set on every answer that is not a hit (`handle_request`, `finalize_url_response`). -/
def finish (site : Site) (now : ClockReading) (a : Answer) : Answer :=
  { a with headers := setDescribedbyLink site.describedby (setDate site.date now
      (setVaryAcceptEncoding (site.compresses a.backend) a.headers)) }

inductive Reach where
  | socket
  | url
  deriving DecidableEq

def Forward.answer (site : Site) (x : Forward) (reach : Reach) (reply : Option HttpResponse) :
    Answer :=
  match reach with
  | .socket =>
    let a := finish site x.now (x.socketAnswer site reply)
    { a with headers := setAltSvc site.quicPort a.headers }
  | .url => finish site x.now (x.urlAnswer site reply)

/-! ## Hits -/

/-- What a conditional request comes to. -/
inductive Precondition where
  | proceed
  | notModified
  | failed
  deriving DecidableEq

def etagListContains (list tag : Str) (strong : Bool) : Bool :=
  (list.splitOn ',').any fun candidate =>
    let a := Text.trim candidate
    let b := Text.trim tag
    let weak := "W/".toList
    if strong then !decide (weak <+: a) && !decide (weak <+: b) && a == b
    else (stripPrefix weak a).getD a == (stripPrefix weak b).getD b

/-- Whether `If-Match` or `If-None-Match` finds the stored response. -/
def etagMatches (cached : List (Str × Str)) (value : Str) (strong : Bool) : Bool :=
  if Text.trim value = ['*'] then
    containsHeader cached "etag".toList || containsHeader cached "last-modified".toList
  else (header cached "etag".toList).any fun e => etagListContains (Text.trim value) e strong

/-- Whether the stored response is newer than a date that the request names; `none` where one of
the two cannot be read. -/
def modifiedSince (date : HttpDate) (cached : List (Str × Str)) (value : Str) : Option Bool :=
  match date.parse value, (header cached "last-modified".toList).bind date.parse with
  | some req, some lm => some (req < lm)
  | _, _ => none

def evaluatePreconditions (date : HttpDate) (cached headers : List (Str × Str)) (method : Str) :
    Precondition :=
  let isGetOrHead := eqIgnoreAsciiCase method "GET".toList ||
    eqIgnoreAsciiCase method "HEAD".toList
  let failed := match header headers "if-match".toList with
    | some v => !etagMatches cached v true
    | none =>
      (header headers "if-unmodified-since".toList).any fun v =>
        modifiedSince date cached v == some true
  if failed then .failed
  else
    match header headers "if-none-match".toList with
    | some v =>
      if etagMatches cached v false then (if isGetOrHead then .notModified else .failed)
      else .proceed
    | none =>
      if isGetOrHead && (header headers "if-modified-since".toList).any fun v =>
          modifiedSince date cached v == some false then .notModified
      else .proceed

/-- The fields of a stored response that a 304 repeats. -/
def notModifiedHeaders (cached : List (Str × Str)) : List (Str × Str) :=
  cached.filter fun f => ["etag".toList, "last-modified".toList, "cache-control".toList,
    "vary".toList, "date".toList, "expires".toList, "content-location".toList].contains
    (toAsciiLowercase f.1)

structure CacheRequest where
  req : RawRequest
  enc : Str
  /-- over HTTP/3, which sets the fields of a hit in another order -/
  isH3 : Bool
  /-- the path asks for no authentication -/
  unprotected : Bool
  now : ClockReading
  minted : Option Str

def CacheRequest.key (h : CacheRequest) : Str := makeLookupKey h.req.path h.req.query h.enc

def CacheRequest.headers (site : Site) (h : CacheRequest) (r : CachedResponse) (age : Nat) :
    List (Str × Str) :=
  if h.isH3 then
    finishResponse h.minted (setAltSvc site.quicPort (setDescribedbyLink site.describedby
      (setAge age (setVaryAcceptEncoding true r.headers))))
  else
    finishResponse h.minted (setDescribedbyLink site.describedby (setAge age
      (setVaryAcceptEncoding true (setAltSvc site.quicPort r.headers))))

/-- The answer from a stored response: itself, or that it was not modified, or that the
request's condition failed. -/
def CacheRequest.answer (site : Site) (h : CacheRequest) (r : CachedResponse)
    (age : Nat) : Answer :=
  match evaluatePreconditions site.date r.headers h.req.headers h.req.method with
  | .failed => ⟨412, finishResponse h.minted (setDate site.date h.now []), [], "cache".toList⟩
  | .notModified =>
    let headers := setDate site.date h.now (setAge age
      (setVaryAcceptEncoding true (notModifiedHeaders r.headers)))
    -- over HTTP/3 the stored response decides whether it is HTML
    let cookie := if h.isH3 && isHtmlResponse r.headers then
      (h.minted.map fun v => ("Set-Cookie".toList, v)).toList else []
    ⟨304, if h.isH3 then headers ++ cookie else finishResponse h.minted headers, [],
      "cache".toList⟩
  | .proceed => ⟨r.status, h.headers site r age, r.body, "cache".toList⟩

/-- Look a request up. Only GET and HEAD, and only where no authentication is asked for. -/
def CacheRequest.lookup (h : CacheRequest) (c : Cache) : CacheLookup × Cache :=
  if h.unprotected && methodMayReadCache h.req.method then
    c.lookupWith h.now.instant h.key (RequestDirectives.parse h.req.headers)
  else (.miss, c)

def CacheRequest.freshHit (site : Site) (h : CacheRequest) (c : Cache) : Option Answer :=
  match (h.lookup c).1 with
  | .fresh r age => some (h.answer site r age)
  | _ => none

/-! ## Comparing the two -/

/-- A field that may differ between a miss and a hit: the age, the date, the advertisement of
HTTP/3, the link to the description and the cookies of a client. -/
def exempt (f : Str × Str) : Bool :=
  isNamed "age" f || isNamed "date" f || isNamed "alt-svc" f || isDescribedby f ||
    isNamed "set-cookie" f

def compared (headers : List (Str × Str)) : List (Str × Str) := headers.filter fun f => !exempt f

def Replays (miss hit : Answer) : Prop :=
  hit.status = miss.status ∧ hit.body = miss.body ∧ compared hit.headers = compared miss.headers

def PageRepeats (site : Site) (x : Forward) (resp : HttpResponse) : Prop :=
  ∃ errorPath page, site.errorMode = .custom errorPath ∧ x.req.path ≠ errorPath ∧
    x.page = some page ∧ page.body = resp.body ∧
    setVaryAcceptEncoding (site.compresses "error".toList)
        (compared (preserveActionableHeaders (x.dated site resp).headers page.headers)) =
      setVaryAcceptEncoding true (compared (x.dated site resp).headers)

/-- When the client of a miss gets what is stored: its backend's response is not replaced by an
error page, but for one that repeats it, and `Vary` is set on both or on neither. -/
def Replayable (site : Site) (x : Forward) (reach : Reach) (resp : HttpResponse) : Prop :=
  if reach = .socket ∧ 400 ≤ resp.status then PageRepeats site x resp
  else site.compresses x.backend = true ∨ resp.headers.any (isNamed "vary") = true

/-! ## What the rewrites leave alone -/

variable {f : Str × Str}

theorem isNamed_eq_false {a b : String} (h : isNamed a f = true)
    (hne : toAsciiLowercase a.toList ≠ toAsciiLowercase b.toList) : isNamed b f = false := by
  simp only [isNamed, eqIgnoreAsciiCase, beq_iff_eq, beq_eq_false_iff_ne] at h ⊢
  rw [h]
  exact hne

theorem exempt_eq_false {name : String} (h : isNamed name f = true)
    (hage : toAsciiLowercase name.toList ≠ toAsciiLowercase "age".toList)
    (hdate : toAsciiLowercase name.toList ≠ toAsciiLowercase "date".toList)
    (halt : toAsciiLowercase name.toList ≠ toAsciiLowercase "alt-svc".toList)
    (hlink : toAsciiLowercase name.toList ≠ toAsciiLowercase "link".toList)
    (hcookie : toAsciiLowercase name.toList ≠ toAsciiLowercase "set-cookie".toList) :
    exempt f = false := by
  simp only [exempt, isDescribedby, isNamed_eq_false h hage, isNamed_eq_false h hdate,
    isNamed_eq_false h halt, isNamed_eq_false h hlink, isNamed_eq_false h hcookie, Bool.or_self,
    Bool.false_and]

theorem exempt_vary (h : isNamed "vary" f = true) : exempt f = false :=
  exempt_eq_false h (by decide) (by decide) (by decide)
    (by decide) (by decide)

theorem exempt_cacheControl (h : isNamed "cache-control" f = true) : exempt f = false :=
  exempt_eq_false h (by decide) (by decide) (by decide)
    (by decide) (by decide)

section

variable {p q : Str × Str → Bool} {f : Str × Str}

theorem filter_append_singleton (hf : q f = false) (l : List (Str × Str)) :
    (l ++ [f]).filter q = l.filter q := by
  rw [filter_append, filter_cons_of_neg (by rw [hf]; exact Bool.false_ne_true),
    filter_nil, append_nil]

theorem filter_replace (hp : ∀ f, p f = true → q f = false) (hf : q f = false)
    (l : List (Str × Str)) : (l.filter (fun f => !p f) ++ [f]).filter q = l.filter q := by
  rw [filter_append_singleton hf, List.filter_filter]
  refine filter_congr fun f _ => ?_
  cases hpf : p f with
  | false => simp
  | true => simp [hp f hpf]

theorem filter_setDate (hq : ∀ f, isNamed "date" f = true → q f = false) (date : HttpDate)
    (now : ClockReading) (l : List (Str × Str)) : (setDate date now l).filter q = l.filter q := by
  rw [setDate]
  split_ifs
  · rfl
  · exact filter_append_singleton (hq _ rfl) l

theorem filter_setAge (hq : ∀ f, isNamed "age" f = true → q f = false) (age : Nat)
    (l : List (Str × Str)) : (setAge age l).filter q = l.filter q := filter_replace hq (hq _ rfl) l

theorem filter_setAltSvc (hq : ∀ f, isNamed "alt-svc" f = true → q f = false) (port : Nat)
    (l : List (Str × Str)) : (setAltSvc port l).filter q = l.filter q :=
  filter_replace hq (hq _ rfl) l

theorem isDescribedby_target (target : Str) : isDescribedby ("link".toList,
    "<".toList ++ target ++ ">; rel=\"describedby\"".toList) = true := by
  have hinfix : "rel=\"describedby\"".toList <:+: toAsciiLowercase
      ("<".toList ++ target ++ ">; rel=\"describedby\"".toList) := by
    have hlower : toAsciiLowercase ">; rel=\"describedby\"".toList =
        ">; ".toList ++ "rel=\"describedby\"".toList := by decide
    refine ⟨toAsciiLowercase ("<".toList ++ target) ++ ">; ".toList, [], ?_⟩
    rw [append_nil, append_assoc, ← hlower]
    exact (map_append).symm
  have hlink : isNamed "link" ("link".toList,
      "<".toList ++ target ++ ">; rel=\"describedby\"".toList) = true := rfl
  rw [isDescribedby, hlink, decide_eq_true hinfix]
  rfl

theorem filter_setDescribedbyLink (hq : ∀ f, isDescribedby f = true → q f = false) (target : Str)
    (l : List (Str × Str)) : (setDescribedbyLink target l).filter q = l.filter q := by
  rw [setDescribedbyLink]
  split_ifs
  · rfl
  · exact filter_replace hq (hq _ (isDescribedby_target target)) l

theorem filter_setVaryAcceptEncoding (hq : ∀ f, isNamed "vary" f = true → q f = false)
    (compresses : Bool) (l : List (Str × Str)) :
    (setVaryAcceptEncoding compresses l).filter q = l.filter q := by
  rw [setVaryAcceptEncoding]
  split_ifs
  · rfl
  · rfl
  · exact filter_replace hq (hq _ rfl) l

theorem filter_finishResponse (hq : ∀ f, isNamed "set-cookie" f = true → q f = false)
    (minted : Option Str) (l : List (Str × Str)) :
    (finishResponse minted l).filter q = l.filter q := by
  cases minted with
  | none => rfl
  | some cookie =>
    rw [finishResponse]
    split_ifs
    · exact filter_append_singleton (hq _ rfl) l
    · rfl

end

theorem compared_append (l l' : List (Str × Str)) : compared (l ++ l') =
    compared l ++ compared l' :=
  filter_append l l'

theorem compared_setDate (date : HttpDate) (now : ClockReading) (l : List (Str × Str)) :
    compared (setDate date now l) = compared l :=
  filter_setDate (fun f h => by simp [exempt, h]) date now l

theorem compared_setAge (age : Nat) (l : List (Str × Str)) : compared (setAge age l) = compared l :=
  filter_setAge (fun f h => by simp [exempt, h]) age l

theorem compared_setAltSvc (port : Nat) (l : List (Str × Str)) :
    compared (setAltSvc port l) = compared l :=
  filter_setAltSvc (fun f h => by simp [exempt, h]) port l

theorem compared_setDescribedbyLink (target : Str) (l : List (Str × Str)) :
    compared (setDescribedbyLink target l) = compared l :=
  filter_setDescribedbyLink (fun f h => by simp [exempt, h]) target l

theorem compared_finishResponse (minted : Option Str) (l : List (Str × Str)) :
    compared (finishResponse minted l) = compared l :=
  filter_finishResponse (fun f h => by simp [exempt, h]) minted l

theorem compared_finishProxiedResponse (minted : Option Str) (l : List (Str × Str)) :
    compared (finishProxiedResponse minted l) = compared l := by
  rw [finishProxiedResponse]
  split_ifs
  · rfl
  · exact compared_finishResponse minted l

variable (l : List (Str × Str))

theorem compared_stripSetCookie : compared (stripSetCookie l) = compared l := by
  rw [compared, stripSetCookie, List.filter_filter, compared]
  refine filter_congr fun f _ => ?_
  cases h : isNamed "set-cookie" f with
  | false => simp
  | true => simp [exempt, h]

/-! ## Vary -/

theorem filter_vary_compared :
    (compared l).filter (isNamed "vary") = l.filter (isNamed "vary") := by
  rw [compared, List.filter_filter]
  refine filter_congr fun f _ => ?_
  cases h : isNamed "vary" f with
  | false => simp
  | true => simp [exempt_vary h]

theorem any_eq_filter : l.any (isNamed "vary") = !(l.filter (isNamed "vary")).isEmpty := by
  rw [Bool.eq_iff_iff]
  simp

theorem any_vary_compared : (compared l).any (isNamed "vary") = l.any (isNamed "vary") := by
  rw [any_eq_filter, filter_vary_compared, ← any_eq_filter]

theorem compared_setVaryAcceptEncoding (compresses : Bool) (l : List (Str × Str)) :
    compared (setVaryAcceptEncoding compresses l) =
      setVaryAcceptEncoding compresses (compared l) := by
  have hrest : compared (l.filter fun f => !isNamed "vary" f) =
      (compared l).filter fun f => !isNamed "vary" f := by
    simp only [compared, List.filter_filter, Bool.and_comm]
  have hnew : ∀ v, compared [("vary".toList, v)] = [("vary".toList, v)] := by
    intro v
    have hf : exempt ("vary".toList, v) = false := exempt_vary rfl
    exact filter_cons_of_pos (by rw [hf]; rfl)
  simp only [setVaryAcceptEncoding, any_vary_compared, filter_vary_compared, varyNames]
  split_ifs
  · rfl
  · rfl
  · rw [compared_append, hrest, hnew]

/-- `Vary` is set alike where the backend compresses, or had set it. -/
theorem setVaryAcceptEncoding_eq_iff (compresses : Bool) (l : List (Str × Str)) :
    setVaryAcceptEncoding true l = setVaryAcceptEncoding compresses l ↔
      compresses = true ∨ l.any (isNamed "vary") = true := by
  cases compresses with
  | true => simp
  | false =>
    cases hany : l.any (isNamed "vary") with
    | true => simp [setVaryAcceptEncoding, hany]
    | false =>
      have hnone : l.filter (isNamed "vary") = [] := by
        simpa [any_eq_filter] using hany
      have hall : l.filter (fun f => !isNamed "vary" f) = l := by
        rw [filter_eq_self]
        intro f hf
        have := any_eq_false.mp hany f hf
        simpa using this
      simp [setVaryAcceptEncoding, hany, hnone, hall]

/-- A field of another name is there after `Vary` is set where it was there before. -/
theorem mem_setVaryAcceptEncoding (hf : isNamed "vary" f = false)
    (compresses : Bool) (l : List (Str × Str)) :
    f ∈ setVaryAcceptEncoding compresses l ↔ f ∈ l := by
  rw [setVaryAcceptEncoding]
  split_ifs
  · rfl
  · rfl
  · rw [mem_append, mem_filter, hf]
    constructor
    · rintro (h | h)
      · exact h.1
      · obtain rfl := mem_singleton.mp h
        cases hf
    · intro h
      exact .inl ⟨h, rfl⟩

theorem any_vary_setDate (date : HttpDate) (now : ClockReading) (l : List (Str × Str)) :
    (setDate date now l).any (isNamed "vary") = l.any (isNamed "vary") := by
  rw [any_eq_filter, any_eq_filter,
    filter_setDate (fun f h => isNamed_eq_false h (by decide)) date now l]

/-! ## Error pages -/

variable (site : Site)

theorem applyErrorMode_status (req : RawRequest) (page : Option HttpResponse)
    (status : Nat) : (applyErrorMode site req page status).status = status := by
  unfold applyErrorMode
  split
  · rfl
  · rfl
  · split_ifs
    · rfl
    · split <;> rfl

variable {backend page : List (Str × Str)}

theorem mem_preserveHeader {name : String}
    (h : f ∈ preserveHeader backend page name) : f ∈ page ∨ isNamed name f = true := by
  rw [preserveHeader] at h
  split_ifs at h
  · exact .inl h
  · obtain h | h := mem_append.mp h
    · exact .inl h
    · exact .inr (find?_some (mem_toList.mp h))

theorem mem_preserveActionableHeaders (h : f ∈ preserveActionableHeaders backend page) :
    f ∈ page ∨ ∃ name ∈ preservedErrorHeaders, isNamed name f = true := by
  rw [preserveActionableHeaders] at h
  generalize preservedErrorHeaders = names at h ⊢
  induction names generalizing page with
  | nil => exact .inl h
  | cons name names ih =>
    obtain h | ⟨name', hmem, hname'⟩ := ih h
    · obtain h | hname := mem_preserveHeader h
      · exact .inl h
      · exact .inr ⟨name, mem_cons_self, hname⟩
    · exact .inr ⟨name', mem_cons_of_mem name hmem, hname'⟩

/-- `Cache-Control` is not one of the fields that a page keeps of an error. -/
theorem mem_of_cacheControl
    (hf : isNamed "cache-control" f = true) (h : f ∈ preserveActionableHeaders backend page) :
    f ∈ page := by
  obtain h | ⟨name, hmem, hname⟩ := mem_preserveActionableHeaders h
  · exact h
  · have hother : ∀ name ∈ preservedErrorHeaders, toAsciiLowercase "cache-control".toList ≠
        toAsciiLowercase name.toList := by decide
    rw [isNamed_eq_false hf (hother name hmem)] at hname
    cases hname

/-- A response that may be stored has a `Cache-Control` field: nothing else makes it public. -/
theorem exists_cacheControl {status : Nat} {headers : List (Str × Str)}
    (h : shouldCache status headers = true) : ∃ f ∈ headers, isNamed "cache-control" f = true := by
  by_contra hnone
  have hfilter : headers.filter (isNamed "cache-control") = [] := by
    rw [filter_eq_nil_iff]
    exact fun f hf hname => hnone ⟨f, hf, hname⟩
  simp [shouldCache, CacheControl.parse, cacheDirectives, hfilter] at h

theorem status_ne_of_shouldCache {status : Nat} {headers : List (Str × Str)}
    (h : shouldCache status headers = true) : status ≠ 304 ∧ status ≠ 412 := by
  have hstatus : statusIsStorable status = true := by
    simp only [shouldCache, Bool.and_eq_true] at h
    exact h.1.1.1.1
  constructor
  all_goals
    rintro rfl
    cases hstatus

/-- A page that the server makes itself has no `Cache-Control`. -/
theorem not_cacheControl_own {v : Str} (hf : isNamed "cache-control" f = true) :
    f ∉ [("Content-Type".toList, v)] := by
  intro h
  obtain rfl := mem_singleton.mp h
  have hname : isNamed "cache-control" ("Content-Type".toList, v) = false := rfl
  rw [hname] at hf
  cases hf

/-! ## A hit -/

theorem Cache.Holds.unique {c : Cache} {key : Str} {r r' : CachedResponse} (h : c.Holds key r)
    (h' : c.Holds key r') : r = r' := by
  obtain ⟨e, he, rfl⟩ := h
  obtain ⟨e', he', rfl⟩ := h'
  rw [he] at he'
  rw [some.inj he']

theorem CacheRequest.freshHit_cases {site : Site} {h : CacheRequest} {c : Cache} {a : Answer}
    (hhit : h.freshHit site c = some a) : ∃ r age, c.Holds h.key r ∧ a = h.answer site r age := by
  rw [CacheRequest.freshHit] at hhit
  cases hlook : (h.lookup c).1 with
  | fresh r age =>
    rw [hlook] at hhit
    cases hhit
    rw [CacheRequest.lookup] at hlook
    split_ifs at hlook
    obtain ⟨-, hfound⟩ := Cache.holds_lookupWith h.now.instant c h.key
      (RequestDirectives.parse h.req.headers)
    exact ⟨r, age, hfound r age (.inl hlook), rfl⟩
  | stale r age | miss =>
    rw [hlook] at hhit
    cases hhit

theorem CacheRequest.compared_headers (h : CacheRequest) (r : CachedResponse)
    (age : Nat) : compared (h.headers site r age) =
      setVaryAcceptEncoding true (compared r.headers) := by
  rw [CacheRequest.headers]
  split_ifs
  · rw [compared_finishResponse, compared_setAltSvc, compared_setDescribedbyLink, compared_setAge,
      compared_setVaryAcceptEncoding]
  · rw [compared_finishResponse, compared_setDescribedbyLink, compared_setAge,
      compared_setVaryAcceptEncoding, compared_setAltSvc]

/-! ## A miss -/

theorem compared_finish (now : ClockReading) (a : Answer) : compared (finish site now a).headers =
      setVaryAcceptEncoding (site.compresses a.backend) (compared a.headers) := by
  rw [finish, compared_setDescribedbyLink, compared_setDate, compared_setVaryAcceptEncoding]

variable {resp : HttpResponse}

theorem Forward.answer_kept (x : Forward) {reach : Reach}
    (h : ¬ (reach = .socket ∧ 400 ≤ resp.status)) :
    (x.answer site reach (some resp)).status = resp.status ∧
      (x.answer site reach (some resp)).body = resp.body ∧
      compared (x.answer site reach (some resp)).headers =
        setVaryAcceptEncoding (site.compresses x.backend)
          (compared (x.dated site resp).headers) := by
  cases reach with
  | socket =>
    have hok : ¬ 400 ≤ (x.dated site resp).status := fun herr => h ⟨rfl, herr⟩
    have hsocket : x.socketAnswer site (some resp) = ⟨resp.status,
        finishResponse x.minted (x.dated site resp).headers, resp.body, x.backend⟩ := by
      rw [Forward.socketAnswer, map_some]
      exact if_neg hok
    refine ⟨?_, ?_, ?_⟩
    · rw [Forward.answer, hsocket]
      rfl
    · rw [Forward.answer, hsocket]
      rfl
    · rw [Forward.answer, hsocket]
      rw [compared_setAltSvc, compared_finish, compared_finishResponse]
  | url =>
    refine ⟨rfl, rfl, ?_⟩
    rw [Forward.answer, compared_finish, Forward.urlAnswer, map_some,
      compared_finishProxiedResponse, compared_setAltSvc]

theorem Forward.answer_replaced (x : Forward) (h : 400 ≤ resp.status) :
    (x.answer site .socket (some resp)).status =
        (applyErrorMode site x.req x.page resp.status).status ∧
      (x.answer site .socket (some resp)).body =
        (applyErrorMode site x.req x.page resp.status).body ∧
      compared (x.answer site .socket (some resp)).headers = setVaryAcceptEncoding
          (site.compresses (applyErrorMode site x.req x.page resp.status).backend)
          (compared (preserveActionableHeaders (x.dated site resp).headers
            (applyErrorMode site x.req x.page resp.status).headers)) := by
  have herr : 400 ≤ (x.dated site resp).status := h
  have hsocket : x.socketAnswer site (some resp) =
      { applyErrorMode site x.req x.page resp.status with
        headers := finishResponse x.minted (preserveActionableHeaders (x.dated site resp).headers
          (applyErrorMode site x.req x.page resp.status).headers) } := by
    rw [Forward.socketAnswer, map_some]
    exact if_pos herr
  refine ⟨?_, ?_, ?_⟩
  · rw [Forward.answer, hsocket]
    rfl
  · rw [Forward.answer, hsocket]
    rfl
  · rw [Forward.answer, hsocket]
    rw [compared_setAltSvc, compared_finish, compared_finishResponse]

/-! ## Hit and miss -/

/-- A page that the server makes itself cannot be what a hit repeats: the stored response says
`Cache-Control`, and the page does not. -/
theorem not_replayed_by_own_page {site : Site} {x : Forward} {v : Str}
    (hstored : shouldCache resp.status (x.dated site resp).headers = true) (compresses : Bool) :
    setVaryAcceptEncoding true (compared (x.dated site resp).headers) ≠
      setVaryAcceptEncoding compresses (compared
        (preserveActionableHeaders (x.dated site resp).headers [("Content-Type".toList, v)])) := by
  intro heq
  obtain ⟨f, hmem, hf⟩ := exists_cacheControl hstored
  have hvary : isNamed "vary" f = false := isNamed_eq_false hf (by decide)
  have hcompared : f ∈ compared (x.dated site resp).headers :=
    mem_filter.mpr ⟨hmem, by rw [exempt_cacheControl hf]; rfl⟩
  have hpage := (mem_setVaryAcceptEncoding hvary true _).mpr hcompared
  rw [heq, mem_setVaryAcceptEncoding hvary] at hpage
  exact not_cacheControl_own hf (mem_of_cacheControl hf (mem_of_mem_filter hpage))

theorem page_replays_iff {site : Site} {x : Forward}
    (hstored : shouldCache resp.status (x.dated site resp).headers = true) :
    (resp.status = (applyErrorMode site x.req x.page resp.status).status ∧
      resp.body = (applyErrorMode site x.req x.page resp.status).body ∧
      setVaryAcceptEncoding true (compared (x.dated site resp).headers) = setVaryAcceptEncoding
          (site.compresses (applyErrorMode site x.req x.page resp.status).backend)
          (compared (preserveActionableHeaders (x.dated site resp).headers
            (applyErrorMode site x.req x.page resp.status).headers))) ↔
      PageRepeats site x resp := by
  have hown := not_replayed_by_own_page (v := "text/html; charset=utf-8".toList) hstored
    (site.compresses "error".toList)
  cases hmode : site.errorMode with
  | status =>
    simp only [applyErrorMode, hmode, PageRepeats, reduceCtorEq, false_and, exists_false, iff_false]
    rintro ⟨-, -, heq⟩
    exact not_replayed_by_own_page hstored _ heq
  | «internal» =>
    simp only [applyErrorMode, hmode, PageRepeats, reduceCtorEq, false_and, exists_false, iff_false]
    rintro ⟨-, -, heq⟩
    exact hown heq
  | custom errorPath =>
    simp only [applyErrorMode, hmode, PageRepeats, ErrorMode.custom.injEq]
    by_cases hpath : x.req.path = errorPath
    · simp only [hpath, if_true]
      constructor
      · rintro ⟨-, -, heq⟩
        exact absurd heq hown
      · rintro ⟨_, _, rfl, hne, -⟩
        exact absurd rfl hne
    · simp only [hpath, if_false]
      cases hpage : x.page with
      | none =>
        constructor
        · rintro ⟨-, -, heq⟩
          exact absurd heq hown
        · rintro ⟨_, _, -, -, hsome, -⟩
          cases hsome
      | some page =>
        constructor
        · rintro ⟨-, hbody, heq⟩
          exact ⟨errorPath, page, rfl, hpath, rfl, hbody.symm, heq.symm⟩
        · rintro ⟨_, _, rfl, -, hsome, hbody, heq⟩
          cases hsome
          exact ⟨rfl, hbody.symm, heq.symm⟩

/-- **When a hit answers what the miss answered.** A miss stores `r`, which a later request with
the same key finds fresh, whatever became of the site's configuration. It gets what the first
client got exactly where that client's response was not replaced by an error page, `Vary` was set
on it or not needed, and the later request's own conditions let the entry through. -/
theorem replay_iff {site site' : Site} {x : Forward} {reach : Reach} {origin : Nat}
    {resp : HttpResponse} {r : CachedResponse} {c : Cache} {h : CacheRequest} {a : Answer}
    (hstores : x.stores site origin resp = some r) (hheld : c.Holds x.key r)
    (hkey : h.key = x.key) (hhit : h.freshHit site' c = some a) :
    Replays (x.answer site reach (some resp)) a ↔ Replayable site x reach resp ∧
        evaluatePreconditions site'.date r.headers h.req.headers h.req.method = .proceed := by
  obtain ⟨r', age, hr', rfl⟩ := h.freshHit_cases hhit
  obtain rfl : r = r' := hheld.unique (hkey ▸ hr')
  rw [Forward.stores] at hstores
  split_ifs at hstores with hstorable
  cases hstores
  have hstored : shouldCache resp.status (x.dated site resp).headers = true := by
    rw [Forward.storable, Bool.and_eq_true] at hstorable
    exact hstorable.2
  obtain ⟨h304, h412⟩ := status_ne_of_shouldCache hstored
  have hmiss : (x.answer site reach (some resp)).status = resp.status := by
    by_cases hreplaced : reach = .socket ∧ 400 ≤ resp.status
    · obtain ⟨rfl, herr⟩ := hreplaced
      rw [(Forward.answer_replaced site x herr).1, applyErrorMode_status]
    · exact (Forward.answer_kept site x hreplaced).1
  -- a conditional hit answers 304 or 412, which no stored response has
  cases hpre : evaluatePreconditions site'.date ((x.dated site resp).cached origin).headers
      h.req.headers h.req.method with
  | failed =>
    simp only [CacheRequest.answer, hpre, reduceCtorEq, and_false, iff_false]
    rintro ⟨hstatus, -⟩
    exact h412 (hmiss.symm.trans hstatus.symm)
  | notModified =>
    simp only [CacheRequest.answer, hpre, reduceCtorEq, and_false, iff_false]
    rintro ⟨hstatus, -⟩
    exact h304 (hmiss.symm.trans hstatus.symm)
  | proceed =>
    have hhit : compared (h.headers site' ((x.dated site resp).cached origin) age) =
        setVaryAcceptEncoding true (compared (x.dated site resp).headers) := by
      rw [CacheRequest.compared_headers, HttpResponse.cached, compared_stripSetCookie]
    simp only [CacheRequest.answer, hpre, Replays, hhit, and_true]
    -- otherwise the hit is the stored response, and the miss may have been a page in its place
    by_cases hreplaced : reach = .socket ∧ 400 ≤ resp.status
    · rw [Replayable, if_pos hreplaced, ← page_replays_iff hstored]
      obtain ⟨rfl, herr⟩ := hreplaced
      obtain ⟨hstatus, hbody, hheaders⟩ := Forward.answer_replaced site x herr
      rw [hstatus, hbody, hheaders]
      rfl
    · rw [Replayable, if_neg hreplaced]
      obtain ⟨hstatus, hbody, hheaders⟩ := Forward.answer_kept site x hreplaced
      rw [hstatus, hbody, hheaders, setVaryAcceptEncoding_eq_iff, any_vary_compared, Forward.dated,
        any_vary_setDate]
      exact ⟨fun h => h.2.2, fun h => ⟨rfl, rfl, h⟩⟩

def epochDate : HttpDate where
  parse v := if v = "Thu, 01 Jan 1970 00:00:00 GMT".toList then some 0 else none
  fmt _ := "Thu, 01 Jan 1970 00:00:00 GMT".toList

def plainSite (errorMode : ErrorMode) : Site where
  date := epochDate
  errorMode := errorMode
  compresses _ := true
  describedby := []
  quicPort := 443
  internalErrorHtml _ _ := []

def pageRequest : RawRequest :=
  ⟨"GET".toList, "/page".toList, none, "HTTP/1.1".toList, [], []⟩

def pageForward : Forward := ⟨pageRequest, [], "site".toList, true, ⟨0, 0⟩, none, none⟩

def pageAgain : CacheRequest := ⟨pageRequest, [], false, true, ⟨0, 0⟩, none⟩

def publicReply (status : Nat) : HttpResponse :=
  ⟨status, [("Cache-Control".toList, "public".toList)], [42]⟩

def pageCache (status : Nat) : Cache :=
  ((pageForward.stores (plainSite .status) 0 (publicReply status)).map fun r =>
    (Cache.new 65536 0).insert epochDate ⟨0, 0⟩ pageForward.key r).getD (Cache.new 65536 0)

theorem replay_page : ∃ r a, pageForward.stores (plainSite .status) 0 (publicReply 200) = some r ∧
      (pageCache 200).Holds pageForward.key r ∧
      pageAgain.freshHit (plainSite .status) (pageCache 200) = some a ∧
      Replays (pageForward.answer (plainSite .status) .socket (some (publicReply 200))) a := by
  have hstores : (pageForward.stores (plainSite .status) 0 (publicReply 200)).isSome := by
    decide
  have hheld : ((pageCache 200).map.get? pageForward.key).map CacheEntry.response =
      pageForward.stores (plainSite .status) 0 (publicReply 200) := by decide
  have hhit : (pageAgain.freshHit (plainSite .status) (pageCache 200)).isSome := by decide
  have hkey : pageAgain.key = pageForward.key := by decide
  obtain ⟨r, hr⟩ := isSome_iff_exists.mp hstores
  obtain ⟨a, ha⟩ := isSome_iff_exists.mp hhit
  have hholds : (pageCache 200).Holds pageForward.key r := map_eq_some_iff.mp (hheld.trans hr)
  exact ⟨r, a, hr, hholds, ha, (replay_iff hr hholds hkey ha).mpr ⟨.inl rfl, rfl⟩⟩

theorem not_replay_missing_page : ∃ r a,
    pageForward.stores (plainSite .status) 0 (publicReply 404) = some r ∧
      (pageCache 404).Holds pageForward.key r ∧ pageAgain.key = pageForward.key ∧
      pageAgain.freshHit (plainSite .status) (pageCache 404) = some a ∧
      ¬ Replays (pageForward.answer (plainSite .status) .socket (some (publicReply 404))) a := by
  have hstores : (pageForward.stores (plainSite .status) 0 (publicReply 404)).isSome := by
    decide
  have hheld : ((pageCache 404).map.get? pageForward.key).map CacheEntry.response =
      pageForward.stores (plainSite .status) 0 (publicReply 404) := by decide +kernel
  have hhit : (pageAgain.freshHit (plainSite .status) (pageCache 404)).map Answer.body =
      some [42] := by decide +kernel
  have hmiss : (pageForward.answer (plainSite .status) .socket (some (publicReply 404))).body =
      [] := by decide +kernel
  obtain ⟨r, hr⟩ := isSome_iff_exists.mp hstores
  obtain ⟨a, ha, hbody⟩ := map_eq_some_iff.mp hhit
  refine ⟨r, a, hr, map_eq_some_iff.mp (hheld.trans hr), by decide, ha, ?_⟩
  rintro ⟨-, hsame, -⟩
  rw [hbody, hmiss] at hsame
  cases hsame

end M6
