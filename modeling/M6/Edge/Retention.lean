import M6.Lib.Revocation
import M6.Edge.Replay

/-!
# What the edge keeps, over whole runs

The request, completion and reload paths of `main.rs` of `m6-http`, as steps of one state. Two
things keep responses: the cache and the held error pages. A URL backend answers long after it
was asked, so requests, completions, evictions and reloads come in any order.

A step is made of a few moves (`Move`, `step_moves`), and each result is about the moves:

* **eviction** — nothing that was asked for before its path was evicted is stored or served
  after that, as long as no completion and no held page does so itself (`noResurrection_iff`);
* **cookies** — a kept response is served without the cookies it came with, as long as no error
  page is held with them (`no_cookie_replayed`).

`serveClient_passage` says that a visit here is what the gate's `serveClient` makes of it.
-/

namespace M6

open List Option

/-! ## The state -/

/-- What a configuration sets besides the state of the gate. -/
structure Settings extends Site where
  domain : Str
  /-- the backends that are reached by a URL -/
  isUrl : Str → Bool

/-- A request that a URL backend has. `origin` is the number of the exchange. -/
structure PendingUrlContext where
  origin : Nat
  req : RawRequest
  enc : Str
  backend : Str
  cacheable : Bool
  isPrefetch : Bool
  /-- the status whose page is fetched, where this is a custom error page -/
  errorStatusOverride : Option Nat

structure CachedErrorPage where
  origin : Nat
  fetched : Nat
  headers : List (Str × Str)
  body : Bytes

/-- What is logged of a run. It is not part of the source. -/
inductive LogEntry where
  /-- a request was sent to a backend -/
  | dispatched (origin : Nat) (path : Str)
  | evicted (path : Str)
  | cleared
  /-- the response of an exchange was put in the cache or in the held pages -/
  | stored (origin : Nat)
  /-- it was served from there, with these headers, to a request for which these cookies were
  made -/
  | served (origin : Nat) (headers own : List (Str × Str))
  deriving DecidableEq

structure EdgeServer (m : RouteMatcher RouteEntry) where
  server : ServerState m
  settings : Settings
  cache : Cache
  errorPages : SortedMap Nat CachedErrorPage
  pending : List PendingUrlContext
  /-- the clears that a reload has still to come -/
  laterClears : Nat
  /-- the number of the next exchange -/
  sent : Nat
  log : List LogEntry

/-- What comes from outside while a request is handled. -/
structure Surroundings where
  now : ClockReading
  /-- the session cookie that is made for the request -/
  minted : Option Str
  /-- what a socket backend answers -/
  reply : Option HttpResponse
  /-- what a socket backend answers when it is asked for the error page -/
  page : Option HttpResponse
  /-- whether a request to a URL backend can be sent off -/
  dispatches : Bool
  /-- the status of the health, metrics and traffic paths -/
  monitorStatus : Nat

def Surroundings.own (o : Surroundings) : List (Str × Str) :=
  (o.minted.map fun cookie => ("Set-Cookie".toList, cookie)).toList

structure Visit extends EdgeRequest where
  enc : Str
  isH3 : Bool
  rateLimited : Bool
  /-- where a request for the `www` host is sent -/
  wwwRedirect : Option Str
  inEarlyData : Bool

/-- What happens to the server. -/
inductive EdgeEvent where
  | client (v : Visit) (o : Surroundings)
  /-- a fetch in the background, for an entry that is stale or a route that is warmed -/
  | refresh (path : Str) (query : Option Str) (enc : Str) (o : Surroundings)
  /-- a URL backend answers, or fails to -/
  | complete (origin : Nat) (result : Option HttpResponse) (o : Surroundings)
  | reload (change : Change) (settings : Settings)
  /-- one of the clears that follow a reload -/
  | laterClear

/-! ## Invalidation -/

def afterFirst (pat : Str) : Str → Option Str
  | [] => none
  | c :: s => (Text.stripPrefix pat (c :: s)).or (afterFirst pat s)

def sameOriginPath (domain v : Str) : Option Str :=
  if v.head? = some '/' then some v
  else
    (afterFirst "://".toList v).bind fun rest =>
      match Text.cutAt '/' rest with
      | (host, some p) =>
        let host := (Text.cutAt ':' host).1
        if host = domain ∨ host = "www.".toList ++ domain then
          some (if p.head? = some '/' then p else '/' :: p)
        else none
      | (_, none) => none

/-- The paths that are evicted after a request (`invalidate_after_unsafe_method`): its own and
the locations that the response names, if the method is not a safe one and it succeeded. -/
def invalidatedPaths (domain : Str) (req : RawRequest) (status : Nat)
    (headers : List (Str × Str)) : List Str :=
  if ["GET".toList, "HEAD".toList, "OPTIONS".toList, "TRACE".toList].contains req.method ∨
      400 ≤ status then []
  else req.path :: ["location", "content-location"].filterMap fun name =>
    (header headers name.toList).bind (sameOriginPath domain)

/-! ## Operations -/

def errorPageTtl : Nat := 60 * second

namespace EdgeServer

variable {m : RouteMatcher RouteEntry}

def site (e : EdgeServer m) : Site := { e.settings.toSite with errorMode := e.server.errorMode }

def logged (e : EdgeServer m) (x : LogEntry) : EdgeServer m := { e with log := e.log ++ [x] }

def send (e : EdgeServer m) (path : Str) : EdgeServer m :=
  { e.logged (.dispatched e.sent path) with sent := e.sent + 1 }

def dispatch (e : EdgeServer m) (path : Str) (ctx : PendingUrlContext) : EdgeServer m :=
  { e.send path with pending := e.pending ++ [ctx] }

def store (e : EdgeServer m) (now : ClockReading) (key : Str) (r : CachedResponse) : EdgeServer m :=
  { e.logged (.stored r.origin) with cache := e.cache.insert e.settings.date now key r }

def hold (e : EdgeServer m) (status : Nat) (page : CachedErrorPage) : EdgeServer m :=
  { e.logged (.stored page.origin) with errorPages := e.errorPages.insert status page }

def evict (e : EdgeServer m) (path : Str) : EdgeServer m :=
  { e.logged (.evicted path) with cache := e.cache.evictPath path }

def clearCache (e : EdgeServer m) : EdgeServer m :=
  { e.logged .cleared with cache := e.cache.clear }

def conclude (e : EdgeServer m) (req : RawRequest) (now : ClockReading) (a : Answer) :
    EdgeServer m :=
  let a := finish e.site now a
  (invalidatedPaths e.settings.domain req a.status a.headers).foldl evict e

/-! ### A request -/

def heldPage (e : EdgeServer m) (status : Nat) (now : ClockReading) : Option CachedErrorPage :=
  (e.errorPages.get? status).filter fun page => now.instant - page.fetched < errorPageTtl

def serveHeld (e : EdgeServer m) (req : RawRequest) (isPrefetch : Bool) (o : Surroundings)
    (status : Nat) (page : CachedErrorPage) : EdgeServer m :=
  let a : Answer :=
    ⟨status, finishResponse o.minted page.headers, page.body, "error-local".toList⟩
  let e' := if isPrefetch then e
    else e.logged (.served page.origin (finish e.site o.now a).headers o.own)
  e'.conclude req o.now a

def dispatchCustomErrorAsync (e : EdgeServer m) (req : RawRequest) (isPrefetch : Bool)
    (o : Surroundings) (status : Nat) : Option (EdgeServer m) :=
  match e.server.errorMode with
  | .custom errorPath =>
    if req.path = errorPath then none
    else
      match e.heldPage status o.now with
      | some page => some (e.serveHeld req isPrefetch o status page)
      | none =>
        (e.server.routeTable.routeAt errorPath).bind fun route =>
          if e.settings.isUrl route.backend && o.dispatches then
            -- the page is fetched for a client, and never put in the cache
            some (e.dispatch errorPath ⟨e.sent, req, [], route.backend, false, false, some status⟩)
          else none
  | _ => none

/-- Ask a socket backend, which answers at once. -/
def exchange (e : EdgeServer m) (x : Forward) (reply : Option HttpResponse) : EdgeServer m :=
  match reply.bind (x.stores e.site e.sent) with
  | some r => (e.send x.req.path).store x.now x.key r
  | none => e.send x.req.path

def forward (e : EdgeServer m) (req : RawRequest) (enc : Str) (isPrefetch : Bool)
    (o : Surroundings) (route : RouteEntry) : EdgeServer m :=
  let cacheable := route.require.isNone && methodMayWriteCache req.method
  if e.settings.isUrl route.backend then
    if o.dispatches then
      e.dispatch req.path ⟨e.sent, req, enc, route.backend, cacheable, isPrefetch, none⟩
    else e.conclude req o.now (applyErrorMode e.site req o.page 502)
  else
    let x : Forward := ⟨req, enc, route.backend, cacheable, o.now, o.page,
      if isPrefetch then none else o.minted⟩
    (e.exchange x o.reply).conclude req o.now (x.socketAnswer e.site o.reply)

def handle (e : EdgeServer m) (a : EdgeRequest) (enc : Str) (isPrefetch : Bool)
    (o : Surroundings) : EdgeServer m :=
  let req := a.request
  match handleRequest e.server a with
  | .ready status backend => e.conclude req o.now ⟨status, [], [], backend⟩
  | .redirect status location =>
    e.conclude req o.now ⟨status, [("Location".toList, location),
      ("Content-Type".toList, "text/html".toList)], [], "redirect".toList⟩
  | .monitor backend => e.conclude req o.now ⟨o.monitorStatus, [], [], backend⟩
  | .error status _ =>
    -- only a missing route asks for the page over a URL; a refusal does not
    ((if status = 404 then e.dispatchCustomErrorAsync req isPrefetch o status else none).getD
      (e.conclude req o.now (applyErrorMode e.site req o.page status)))
  | .cached => e
  | .forwarded route _ => e.forward req enc isPrefetch o route

/-- What a client's request comes to before it is handled. -/
inductive Passage where
  /-- answered without the cache or a backend -/
  | turnedAway
  | found (r : CachedResponse) (age : Nat)
  | missed

def cacheRequest (e : EdgeServer m) (v : Visit) (o : Surroundings) : CacheRequest :=
  ⟨v.request, v.enc, v.isH3, !e.server.routeTable.requiresAuth v.request.path, o.now, o.minted⟩

def passage (e : EdgeServer m) (v : Visit) (o : Surroundings) : Passage × Cache :=
  if v.rateLimited || v.wwwRedirect.isSome then (.turnedAway, e.cache)
  else
    match (e.cacheRequest v o).lookup e.cache with
    | (.fresh r age, c) => (.found r age, c)
    | (.stale r age, c) => (if v.inEarlyData then .turnedAway else .found r age, c)
    | (.miss, c) =>
      (if (RequestDirectives.parse v.request.headers).onlyIfCached || v.inEarlyData
        then .turnedAway else .missed, c)

def clientRequest (e : EdgeServer m) (v : Visit) (o : Surroundings) : ClientRequest where
  toEdgeRequest := v.toEdgeRequest
  rateLimited := v.rateLimited
  wwwRedirect := v.wwwRedirect
  lookup := match ((e.cacheRequest v o).lookup e.cache).1 with
    | .fresh _ _ => .fresh
    | .stale _ _ => .stale
    | .miss => .miss
  onlyIfCached := (RequestDirectives.parse v.request.headers).onlyIfCached
  inEarlyData := v.inEarlyData

def visit (e : EdgeServer m) (v : Visit) (o : Surroundings) : EdgeServer m :=
  match e.passage v o with
  | (.turnedAway, c) => { e with cache := c }
  | (.found r age, c) =>
    { e with cache := c }.logged
      (.served r.origin ((e.cacheRequest v o).answer e.site r age).headers o.own)
  -- only here a backend may be asked
  | (.missed, c) => { e with cache := c }.handle v.toEdgeRequest v.enc false o

def synthRefreshRequest (path : Str) (query : Option Str) (enc : Str) : RawRequest where
  method := "GET".toList
  path := path
  query := query
  version := "HTTP/1.1".toList
  headers := if enc = [] then [] else [("Accept-Encoding".toList, enc)]
  body := []

/-- Fetch in the background what is not fresh. -/
def refresh (e : EdgeServer m) (path : Str) (query : Option Str) (enc : Str) (o : Surroundings) :
    EdgeServer m :=
  match e.cache.lookup o.now.instant (makeLookupKey path query enc) with
  | (.fresh _ _, c) => { e with cache := c }
  | (_, c) =>
    { e with cache := c }.handle
      ⟨synthRefreshRequest path query enc, o.now.wall / second, false⟩ enc true o

/-! ### A completion -/

def forwardOf (ctx : PendingUrlContext) (o : Surroundings) : Forward :=
  ⟨ctx.req, ctx.enc, ctx.backend, ctx.cacheable, o.now, o.page,
    if ctx.isPrefetch then none else o.minted⟩

/-- A URL backend's answer (`finalize_url_response`). -/
def finalizeUrlResponse (e : EdgeServer m) (ctx : PendingUrlContext)
    (result : Option HttpResponse) (o : Surroundings) : EdgeServer m :=
  let x := forwardOf ctx o
  match ctx.errorStatusOverride, result with
  | some status, some resp =>
    -- held before this client's session cookie is set, but with the backend's own cookies
    (e.hold status ⟨ctx.origin, o.now.instant, resp.headers, resp.body⟩).conclude ctx.req o.now
      ⟨status, finishProxiedResponse x.minted resp.headers, resp.body, "error".toList⟩
  | some status, none =>
    let page := internalPage e.site ctx.req status
    e.conclude ctx.req o.now { page with headers := finishResponse x.minted page.headers }
  | none, result =>
    -- stored whatever was evicted since the request was sent
    let e' := match result.bind (x.stores e.site ctx.origin) with
      | some r => e.store o.now x.key r
      | none => e
    e'.conclude ctx.req o.now (x.urlAnswer e.site result)

def complete (e : EdgeServer m) (origin : Nat) (result : Option HttpResponse) (o : Surroundings) :
    EdgeServer m :=
  match e.pending.find? fun ctx => ctx.origin == origin with
  | some ctx =>
    { e with pending := e.pending.filter fun ctx => ctx.origin != origin }.finalizeUrlResponse ctx
      result o
  | none => e

/-! ### A reload -/

def takesSite (state : ServerState m) (change : Change) : Bool :=
  change.site && (load change.disk state.config.siteDir).toOption.any fun loaded =>
    (RouteTable.fromConfig m change.disk.glob loaded.toConfig).isSome

/-- A change of the configuration. A site's file that is taken clears the cache, now and twice
more; the held error pages stay. -/
def handleChange (e : EdgeServer m) (change : Change) (settings : Settings) : EdgeServer m :=
  let server := handleConfigChange e.server change
  if takesSite e.server change then
    { e with server := server, settings := settings, laterClears := 2 }.clearCache
  else { e with server := server }

def clearLater (e : EdgeServer m) : EdgeServer m :=
  if e.laterClears = 0 then e else { e with laterClears := e.laterClears - 1 }.clearCache

/-! ### Runs -/

def step (e : EdgeServer m) : EdgeEvent → EdgeServer m
  | .client v o => e.visit v o
  | .refresh path query enc o => e.refresh path query enc o
  | .complete origin result o => e.complete origin result o
  | .reload change settings => e.handleChange change settings
  | .laterClear => e.clearLater

def run (e : EdgeServer m) (events : List EdgeEvent) : EdgeServer m := events.foldl step e

def start (server : ServerState m) (settings : Settings) (maxBytes entrySize : Nat) :
    EdgeServer m :=
  ⟨server, settings, .new maxBytes entrySize, .empty, [], 0, 0, []⟩

end EdgeServer

/-! ## Eviction -/

def LogEntry.Evicts : LogEntry → Str → Prop
  | .evicted p, path => barePath p = barePath path
  | .cleared, _ => True
  | _, _ => False

def LogEntry.retained : LogEntry → Option Nat
  | .stored origin => some origin
  | .served origin _ _ => some origin
  | _ => none

def Revokes : LogEntry → LogEntry → Prop
  | .dispatched _ path, x => x.Evicts path
  | _, _ => False

/-- Whether an entry is about the response to a request that was sent. -/
def Retains : LogEntry → LogEntry → Prop
  | .dispatched origin _, x => x.retained = some origin
  | _, _ => False

def NoResurrection (log : List LogEntry) : Prop := Revocation.Respected Revokes Retains log

/-- The path of an exchange was evicted since its request was sent. -/
def Overtaken (log : List LogEntry) (origin : Nat) : Prop :=
  ∃ path, Revocation.Revoked Revokes log (.dispatched origin path)

variable {log : List LogEntry}

theorem overtaken_concat {x : LogEntry} {origin : Nat} :
    Overtaken (log ++ [x]) origin ↔
      Overtaken log origin ∨ ∃ path, .dispatched origin path ∈ log ∧ x.Evicts path := by
  simp only [Overtaken, Revocation.revoked_concat, exists_or, Revokes]

theorem noResurrection_concat {x : LogEntry} :
    NoResurrection (log ++ [x]) ↔
      NoResurrection log ∧ ∀ origin, x.retained = some origin → ¬ Overtaken log origin := by
  rw [NoResurrection, Revocation.respected_concat]
  refine and_congr_right fun _ => ⟨fun h origin hx => ?_, fun h d hd => ?_⟩
  · rintro ⟨path, hrevoked⟩
    exact h (.dispatched origin path) hx hrevoked
  · cases d with
    | dispatched origin path => exact fun hrevoked => h origin hd ⟨path, hrevoked⟩
    | evicted path | cleared | stored origin | served origin headers own => exact hd.elim

theorem not_overtaken_of_notMem {origin : Nat}
    (h : ∀ path, LogEntry.dispatched origin path ∉ log) : ¬ Overtaken log origin := by
  rintro ⟨path, hrevoked⟩
  exact Revocation.not_revoked_of_notMem (h path) hrevoked

/-! ## Cookies -/

def cookies (headers : List (Str × Str)) : List (Str × Str) := headers.filter (isNamed "set-cookie")

theorem cookies_append (l l' : List (Str × Str)) : cookies (l ++ l') = cookies l ++ cookies l' :=
  filter_append l l'

theorem cookies_setDate (date : HttpDate) (now : ClockReading) (l : List (Str × Str)) :
    cookies (setDate date now l) = cookies l :=
  filter_setDate (fun _ h => isNamed_eq_false h (by decide)) date now l

theorem cookies_setAge (age : Nat) (l : List (Str × Str)) : cookies (setAge age l) = cookies l :=
  filter_setAge (fun _ h => isNamed_eq_false h (by decide +kernel)) age l

theorem cookies_setAltSvc (port : Nat) (l : List (Str × Str)) :
    cookies (setAltSvc port l) = cookies l :=
  filter_setAltSvc (fun _ h => isNamed_eq_false h (by decide)) port l

theorem cookies_setDescribedbyLink (target : Str) (l : List (Str × Str)) :
    cookies (setDescribedbyLink target l) = cookies l := by
  refine filter_setDescribedbyLink (fun f h => ?_) target l
  rw [isDescribedby, Bool.and_eq_true] at h
  exact isNamed_eq_false h.1 (by decide)

theorem cookies_setVaryAcceptEncoding (compresses : Bool) (l : List (Str × Str)) :
    cookies (setVaryAcceptEncoding compresses l) = cookies l :=
  filter_setVaryAcceptEncoding (fun _ h => isNamed_eq_false h (by decide)) compresses l

theorem cookies_finish (site : Site) (now : ClockReading) (a : Answer) :
    cookies (finish site now a).headers = cookies a.headers := by
  rw [finish, cookies_setDescribedbyLink, cookies_setDate, cookies_setVaryAcceptEncoding]

theorem cookies_stripSetCookie (l : List (Str × Str)) : cookies (stripSetCookie l) = [] := by
  rw [cookies, stripSetCookie, List.filter_filter, filter_eq_nil_iff]
  intro f _
  simp

theorem cookies_notModifiedHeaders {l : List (Str × Str)} (h : cookies l = []) :
    cookies (notModifiedHeaders l) = [] := by
  rw [cookies, filter_eq_nil_iff] at h ⊢
  exact fun f hf => h f (mem_of_mem_filter hf)

/-- The cookie that is made for a request is the only one that `finish_response` adds. -/
theorem cookies_finishResponse {minted : Option Str} {l : List (Str × Str)} (h : cookies l = []) :
    (cookies (finishResponse minted l)).Sublist
      (minted.map fun cookie => ("Set-Cookie".toList, cookie)).toList := by
  cases minted with
  | none =>
    rw [finishResponse, h]
    exact nil_sublist _
  | some cookie =>
    rw [finishResponse]
    split_ifs
    · rw [cookies_append, h]
      exact filter_sublist
    · rw [h]
      exact nil_sublist _

theorem CacheRequest.cookies_answer (site : Site) (h : CacheRequest)
    {r : CachedResponse} (age : Nat)
    (hr : cookies r.headers = []) : (cookies (h.answer site r age).headers).Sublist
      (h.minted.map fun cookie => ("Set-Cookie".toList, cookie)).toList := by
  rw [CacheRequest.answer]
  split
  · refine cookies_finishResponse ?_
    rw [cookies_setDate]
    rfl
  · have hclean : cookies (setDate site.date h.now (setAge age
        (setVaryAcceptEncoding true (notModifiedHeaders r.headers)))) = [] := by
      rw [cookies_setDate, cookies_setAge, cookies_setVaryAcceptEncoding,
        cookies_notModifiedHeaders hr]
    dsimp only
    split_ifs
    · rw [cookies_append, hclean]
      exact filter_sublist
    · rw [append_nil, hclean]
      exact nil_sublist _
    · exact cookies_finishResponse hclean
  · rw [CacheRequest.headers]
    split_ifs
    · refine cookies_finishResponse ?_
      rw [cookies_setAltSvc, cookies_setDescribedbyLink, cookies_setAge,
        cookies_setVaryAcceptEncoding, hr]
    · refine cookies_finishResponse ?_
      rw [cookies_setDescribedbyLink, cookies_setAge, cookies_setVaryAcceptEncoding,
        cookies_setAltSvc, hr]

/-! ## What a step is made of -/

namespace EdgeServer

variable {m : RouteMatcher RouteEntry}

def heldFor (e : EdgeServer m) (a : EdgeRequest) (o : Surroundings) : Option CachedErrorPage :=
  match e.server.errorMode, handleRequest e.server a with
  | .custom errorPath, .error status _ =>
    if status = 404 ∧ a.request.path ≠ errorPath then e.heldPage status o.now else none
  | _, _ => none

def keeps (e : EdgeServer m) (ctx : PendingUrlContext) (resp : HttpResponse) (o : Surroundings) :
    Bool :=
  ctx.errorStatusOverride.isSome || ((forwardOf ctx o).stores e.site ctx.origin resp).isSome

/-- The exchange whose response a step keeps long after it was asked for, or serves from the held
pages: the one that completes, or the one that the page came from. -/
def atRisk (e : EdgeServer m) : EdgeEvent → Option Nat
  | .client v o =>
    match (e.passage v o).1 with
    | .missed => (e.heldFor v.toEdgeRequest o).map CachedErrorPage.origin
    | _ => none
  | .complete origin result o =>
    (e.pending.find? fun ctx => ctx.origin == origin).bind fun ctx =>
      if result.any fun resp => e.keeps ctx resp o then some origin else none
  | _ => none

/-- Whether a step is about to hold an error page that sets cookies. -/
def bringsCookies (e : EdgeServer m) : EdgeEvent → Bool
  | .complete origin (some resp) _ =>
    (e.pending.find? fun ctx => ctx.origin == origin).any fun ctx =>
      ctx.errorStatusOverride.isSome && resp.headers.any (isNamed "set-cookie")
  | _ => false

/-- The moves that the step `ev` from the state `s` is made of. -/
inductive Move (s : EdgeServer m) (ev : EdgeEvent) : EdgeServer m → EdgeServer m → Prop
  /-- the cache is looked at, and has no more than before -/
  | look {e : EdgeServer m} {c : Cache} (hc : ∀ k r, c.Holds k r → e.cache.Holds k r) :
      Move s ev e { e with cache := c }
  | configure (e : EdgeServer m) (server : ServerState m) (settings : Settings) (n : Nat) :
      Move s ev e { e with server := server, settings := settings, laterClears := n }
  | dispatch {e : EdgeServer m} {path : Str} {ctx : PendingUrlContext}
      (horigin : ctx.origin = e.sent) (hpath : ctx.errorStatusOverride = none → path =
        ctx.req.path) :
      Move s ev e (e.dispatch path ctx)
  | exchange (e : EdgeServer m) (x : Forward) (reply : Option HttpResponse) :
      Move s ev e (e.exchange x reply)
  | evict (e : EdgeServer m) (path : Str) : Move s ev e (e.evict path)
  | clear (e : EdgeServer m) : Move s ev e e.clearCache
  /-- a pending request is taken from the others -/
  | close (e : EdgeServer m) (p : PendingUrlContext → Bool) :
      Move s ev e { e with pending := e.pending.filter p }
  | replay {e : EdgeServer m} {k : Str} {r : CachedResponse} {headers own : List (Str × Str)}
      (hheld : e.cache.Holds k r)
      (hcookies : cookies r.headers = [] → (cookies headers).Sublist own) :
      Move s ev e (e.logged (.served r.origin headers own))
  /-- the answer to a pending request is stored -/
  | store {e : EdgeServer m} {ctx : PendingUrlContext} {resp : HttpResponse} {o : Surroundings}
      {r : CachedResponse} (hctx : ctx ∈ s.pending) (hoverride : ctx.errorStatusOverride = none)
      (hlog : e.log = s.log) (hsent : e.sent = s.sent) (hrisk : s.atRisk ev = some ctx.origin)
      (hr : (forwardOf ctx o).stores e.site ctx.origin resp = some r) :
      Move s ev e (e.store o.now (forwardOf ctx o).key r)
  | hold {e : EdgeServer m} (status : Nat) {page : CachedErrorPage} (hlog : e.log = s.log)
      (hrisk : s.atRisk ev = some page.origin)
      (hcookies : s.bringsCookies ev = false → cookies page.headers = []) :
      Move s ev e (e.hold status page)
  | serveHeld {e : EdgeServer m} {status : Nat} {page : CachedErrorPage}
      {headers own : List (Str × Str)} (hheld : e.errorPages.get? status = some page)
      (hlog : e.log = s.log) (hrisk : s.atRisk ev = some page.origin)
      (hcookies : cookies page.headers = [] → (cookies headers).Sublist own) :
      Move s ev e (e.logged (.served page.origin headers own))

def Moves (s : EdgeServer m) (ev : EdgeEvent) : EdgeServer m → EdgeServer m → Prop :=
  Relation.ReflTransGen (Move s ev)

variable {s e : EdgeServer m} {ev : EdgeEvent}

theorem Move.single {e' : EdgeServer m} (h : Move s ev e e') : Moves s ev e e' :=
  Relation.ReflTransGen.single h

theorem conclude_moves (e : EdgeServer m) (req : RawRequest) (now : ClockReading) (a : Answer) :
    Moves s ev e (e.conclude req now a) := by
  rw [conclude]
  generalize invalidatedPaths e.settings.domain req (finish e.site now a).status
    (finish e.site now a).headers = paths
  induction paths generalizing e with
  | nil => exact Relation.ReflTransGen.refl
  | cons path paths ih => exact (Move.evict e path).single.trans (ih (e.evict path))

variable {o : Surroundings} {page : CachedErrorPage} {isPrefetch : Bool}

theorem serveHeld_moves {req : RawRequest} {status : Nat}
    (hheld : e.errorPages.get? status = some page) (hlog : e.log = s.log)
    (hrisk : isPrefetch = false → s.atRisk ev = some page.origin) :
    Moves s ev e (e.serveHeld req isPrefetch o status page) := by
  rw [serveHeld]
  cases isPrefetch with
  | true => exact conclude_moves e req o.now _
  | false =>
    refine (Move.serveHeld hheld hlog (hrisk rfl) fun hclean => ?_).single.trans
      (conclude_moves _ req o.now _)
    rw [cookies_finish]
    exact cookies_finishResponse hclean

theorem get?_of_heldPage {status : Nat} {now : ClockReading}
    (h : e.heldPage status now = some page) : e.errorPages.get? status = some page := by
  rw [heldPage, filter_eq_some_iff] at h
  exact h.1

theorem forward_moves (req : RawRequest) (enc : Str) (isPrefetch : Bool) (o : Surroundings)
    (route : RouteEntry) : Moves s ev e (e.forward req enc isPrefetch o route) := by
  rw [forward]
  dsimp only
  split
  · split
    · exact (Move.dispatch rfl fun _ => rfl).single
    · exact conclude_moves e req o.now _
  · exact (Move.exchange e _ o.reply).single.trans (conclude_moves _ req o.now _)

variable {a : EdgeRequest}

/-- A missing route: the held page is the one that `heldFor` tells. -/
theorem dispatchCustomErrorAsync_moves
    {status : Nat} {page : Option RouteEntry} {e' : EdgeServer m} (hstatus : status = 404)
    (houtcome : handleRequest e.server a = .error status page)
    (h : e.dispatchCustomErrorAsync a.request isPrefetch o status = some e') (hlog : e.log = s.log)
    (hrisk : ∀ page, isPrefetch = false → e.heldFor a o = some page →
      s.atRisk ev = some page.origin) : Moves s ev e e' := by
  unfold dispatchCustomErrorAsync at h
  cases hmode : e.server.errorMode with
  | status =>
    rw [hmode] at h
    cases h
  | «internal» =>
    rw [hmode] at h
    cases h
  | custom errorPath =>
    simp only [hmode] at h
    split_ifs at h with hpath
    cases hheld : e.heldPage status o.now with
    | some page =>
      rw [hheld] at h
      cases h
      refine serveHeld_moves (get?_of_heldPage hheld) hlog fun hprefetch =>
        hrisk page hprefetch ?_
      simp only [heldFor, hmode, houtcome]
      rw [if_pos ⟨hstatus, hpath⟩, hheld]
    | none =>
      rw [hheld] at h
      obtain ⟨route, -, h⟩ := bind_eq_some_iff.mp h
      split_ifs at h
      cases h
      exact (Move.dispatch rfl fun hnone => by cases hnone).single

theorem handle_moves {enc : Str} (hlog : e.log = s.log)
    (hrisk : ∀ page, isPrefetch = false → e.heldFor a o = some page →
      s.atRisk ev = some page.origin) : Moves s ev e (e.handle a enc isPrefetch o) := by
  unfold handle
  cases houtcome : handleRequest e.server a with
  | ready status backend | redirect status location | monitor backend =>
    exact conclude_moves e a.request o.now _
  | cached => exact Relation.ReflTransGen.refl
  | forwarded route claims => exact forward_moves a.request enc isPrefetch o route
  | error status page =>
    dsimp only
    split_ifs with hstatus
    · cases h : e.dispatchCustomErrorAsync a.request isPrefetch o status with
      | some e' => exact dispatchCustomErrorAsync_moves hstatus houtcome h hlog hrisk
      | none => exact conclude_moves e a.request o.now _
    · exact conclude_moves e a.request o.now _

theorem passage_cases (e : EdgeServer m) (v : Visit) (o : Surroundings) :
    (∀ k r, (e.passage v o).2.Holds k r → e.cache.Holds k r) ∧
      ∀ r age, (e.passage v o).1 = .found r age → ∃ k, e.cache.Holds k r := by
  have hlookup : (∀ k r, ((e.cacheRequest v o).lookup e.cache).2.Holds k r → e.cache.Holds k r) ∧
      ∀ r age, ((e.cacheRequest v o).lookup e.cache).1 = .fresh r age ∨
        ((e.cacheRequest v o).lookup e.cache).1 = .stale r age →
          e.cache.Holds (e.cacheRequest v o).key r := by
    rw [CacheRequest.lookup]
    split_ifs
    · exact Cache.holds_lookupWith _ _ _ _
    · refine ⟨fun k r h => h, fun r age h => ?_⟩
      rcases h with h | h <;> cases h
  obtain ⟨hkeep, hfound⟩ := hlookup
  rw [passage]
  split
  · exact ⟨fun k r h => h, fun r age h => by cases h⟩
  · split <;> rename_i heq <;> rw [heq] at hkeep hfound
    · refine ⟨hkeep, fun r age h => ?_⟩
      cases h
      exact ⟨_, hfound _ _ (.inl rfl)⟩
    · refine ⟨hkeep, fun r age h => ?_⟩
      simp only at h
      split_ifs at h
      cases h
      exact ⟨_, hfound _ _ (.inr rfl)⟩
    · refine ⟨hkeep, fun r age h => ?_⟩
      simp only at h
      split_ifs at h

theorem serveClient_passage (e : EdgeServer m) (v : Visit) (o : Surroundings) :
    match (e.passage v o).1 with
    | .turnedAway => ¬ (serveClient e.server (e.clientRequest v o)).Reaches
    | .found _ _ => serveClient e.server (e.clientRequest v o) = .cached
    | .missed => serveClient e.server (e.clientRequest v o) =
        handleRequest e.server v.toEdgeRequest := by
  -- the gate looks up only what the cache may answer, and so does the cache
  have hgate : (if (!e.server.routeTable.requiresAuth (e.clientRequest v o).request.path &&
      methodMayReadCache (e.clientRequest v o).request.method) = true
        then (e.clientRequest v o).lookup else .miss) = (e.clientRequest v o).lookup := by
    split_ifs with hread
    · rfl
    · have hmiss : (e.cacheRequest v o).lookup e.cache = (.miss, e.cache) := if_neg hread
      rw [clientRequest, hmiss]
  have hlimited : (e.clientRequest v o).rateLimited = v.rateLimited := rfl
  have hwww : (e.clientRequest v o).wwwRedirect = v.wwwRedirect := rfl
  have hearly : (e.clientRequest v o).inEarlyData = v.inEarlyData := rfl
  have honly : (e.clientRequest v o).onlyIfCached =
      (RequestDirectives.parse v.request.headers).onlyIfCached := rfl
  have hrest : (e.clientRequest v o).toEdgeRequest = v.toEdgeRequest := rfl
  rw [passage, serveClient]
  simp only [hgate]
  simp only [hlimited, hwww, hearly, honly, hrest]
  cases v.rateLimited with
  | true => exact id
  | false =>
    cases v.wwwRedirect with
    | some location => exact id
    | none =>
      rcases hlook : (e.cacheRequest v o).lookup e.cache with ⟨found, c⟩
      cases found with
      | fresh r age =>
        have hfresh : (e.clientRequest v o).lookup = .fresh := by rw [clientRequest, hlook]
        simp [hfresh]
      | stale r age =>
        have hstale : (e.clientRequest v o).lookup = .stale := by rw [clientRequest, hlook]
        cases v.inEarlyData <;> simp [hstale, Outcome.Reaches]
      | miss =>
        have hmiss : (e.clientRequest v o).lookup = .miss := by rw [clientRequest, hlook]
        cases v.inEarlyData <;>
          cases (RequestDirectives.parse v.request.headers).onlyIfCached <;>
            simp [hmiss, Outcome.Reaches]

theorem visit_moves (s : EdgeServer m) (v : Visit) (o : Surroundings) :
    Moves s (.client v o) s (s.visit v o) := by
  obtain ⟨hkeep, hfound⟩ := s.passage_cases v o
  have hlook : ∀ {c}, (s.passage v o).2 = c → Move s (.client v o) s { s with cache := c } :=
    fun hc => Move.look (hc ▸ hkeep)
  rw [visit]
  split <;> rename_i heq
  · exact (hlook (by rw [heq])).single
  · obtain ⟨k, hheld⟩ := hfound _ _ (congrArg Prod.fst heq)
    -- the entry is held in the cache before the lookup, so it is logged first
    refine Relation.ReflTransGen.head (Move.replay hheld
      ((s.cacheRequest v o).cookies_answer s.site _)) (Move.look fun k r hr => ?_).single
    exact hkeep k r (by rwa [heq])
  · refine (hlook (by rw [heq])).single.trans (handle_moves rfl fun page _ hpage => ?_)
    have hmissed : (s.passage v o).1 = .missed := congrArg Prod.fst heq
    simp only [atRisk, hmissed]
    exact congrArg (Option.map CachedErrorPage.origin) hpage

theorem refresh_moves (s : EdgeServer m) (path : Str) (query : Option Str) (enc : Str)
    (o : Surroundings) : Moves s (.refresh path query enc o) s (s.refresh path query enc o) := by
  obtain ⟨hkeep, -⟩ := Cache.lookup_cases o.now.instant s.cache (makeLookupKey path query enc)
  rw [refresh]
  split <;> rename_i heq <;> rw [heq] at hkeep
  · exact (Move.look hkeep).single
  · exact (Move.look hkeep).single.trans (handle_moves rfl fun page hprefetch => by cases hprefetch)

theorem finalizeUrlResponse_moves {ctx : PendingUrlContext} {result : Option HttpResponse}
    (hctx : ctx ∈ s.pending) (hlog : e.log = s.log) (hsent : e.sent = s.sent)
    (hrisk : ∀ resp, result = some resp → e.keeps ctx resp o = true → s.atRisk ev = some ctx.origin)
    (hclean : ∀ resp, result = some resp → ctx.errorStatusOverride.isSome = true →
      s.bringsCookies ev = false → cookies resp.headers = []) :
    Moves s ev e (e.finalizeUrlResponse ctx result o) := by
  unfold finalizeUrlResponse
  cases hoverride : ctx.errorStatusOverride with
  | some status =>
    cases result with
    | some resp =>
      have hhold : Move s ev e
          (e.hold status ⟨ctx.origin, o.now.instant, resp.headers, resp.body⟩) :=
        Move.hold status hlog (hrisk resp rfl (by rw [keeps, hoverride]; rfl))
          (hclean resp rfl (by rw [hoverride]; rfl))
      exact hhold.single.trans (conclude_moves _ ctx.req o.now _)
    | none => exact conclude_moves _ ctx.req o.now _
  | none =>
    dsimp only
    split
    · rename_i r hr
      obtain ⟨resp, rfl, hstores⟩ := bind_eq_some_iff.mp hr
      have hkeeps : e.keeps ctx resp o = true := by
        rw [keeps, hstores, isSome_some, Bool.or_true]
      exact (Move.store hctx hoverride hlog hsent (hrisk resp rfl hkeeps) hstores).single.trans
        (conclude_moves _ ctx.req o.now _)
    · exact conclude_moves _ ctx.req o.now _

theorem complete_moves (s : EdgeServer m) (origin : Nat) (result : Option HttpResponse)
    (o : Surroundings) : Moves s (.complete origin result o) s (s.complete origin result o) := by
  rw [complete]
  split
  · rename_i ctx hfind
    have horigin : ctx.origin = origin := by simpa using find?_some hfind
    refine Relation.ReflTransGen.head (Move.close s fun ctx => ctx.origin != origin)
      (finalizeUrlResponse_moves (mem_of_find?_eq_some hfind) rfl rfl ?_ ?_)
    · rintro resp rfl hkeeps
      rw [atRisk, hfind, horigin]
      exact if_pos hkeeps
    · rintro resp rfl hoverride hclean
      rw [bringsCookies, hfind, any_some, hoverride, Bool.true_and] at hclean
      rw [cookies, filter_eq_nil_iff]
      exact fun f hf => any_eq_false.mp hclean f hf
  · exact Relation.ReflTransGen.refl

/-- **Every step is made of moves.** -/
theorem step_moves (s : EdgeServer m) (ev : EdgeEvent) : Moves s ev s (s.step ev) := by
  cases ev with
  | client v o => exact visit_moves s v o
  | refresh path query enc o => exact refresh_moves s path query enc o
  | complete origin result o => exact complete_moves s origin result o
  | reload change settings =>
    rw [step, handleChange]
    split
    · exact Relation.ReflTransGen.head (Move.configure s _ settings 2) (Move.clear _).single
    · exact (Move.configure s _ s.settings s.laterClears).single
  | laterClear =>
    rw [step, clearLater]
    split
    · exact Relation.ReflTransGen.refl
    · exact Relation.ReflTransGen.head (Move.configure s s.server s.settings _)
        (Move.clear _).single

/-! ## Eviction, over whole runs -/

/-- What keeps a run from serving what was evicted. Nothing in the cache was overtaken, and every
number is that of one request, for the path of its key. -/
structure Tracked (e : EdgeServer m) : Prop where
  sent_lt : ∀ origin path, .dispatched origin path ∈ e.log → origin < e.sent
  pending : ∀ ctx ∈ e.pending, ctx.errorStatusOverride = none →
    ctx.origin < e.sent ∧ ∀ path, .dispatched ctx.origin path ∈ e.log → path = ctx.req.path
  cached : ∀ k r, e.cache.Holds k r → r.origin < e.sent ∧
    (∀ path, .dispatched r.origin path ∈ e.log → pathPrefix path <+: k) ∧ ¬ Overtaken e.log r.origin
  respected : NoResurrection e.log

theorem Tracked.start (server : ServerState m) (settings : Settings) (maxBytes entrySize : Nat) :
    Tracked (start server settings maxBytes entrySize) where
  sent_lt _ _ h := by cases h
  pending _ h := by cases h
  cached _ _ h := (Cache.not_holds_new h).elim
  respected := Revocation.respected_nil

theorem Tracked.frame {e e' : EdgeServer m} (h : Tracked e) (hlog : e'.log = e.log)
    (hsent : e'.sent = e.sent) (hpending : ∀ ctx ∈ e'.pending, ctx ∈ e.pending)
    (hcache : ∀ k r, e'.cache.Holds k r → e.cache.Holds k r) : Tracked e' where
  sent_lt := by
    rw [hlog, hsent]
    exact h.sent_lt
  pending ctx hctx := by
    rw [hlog, hsent]
    exact h.pending ctx (hpending ctx hctx)
  cached k r hr := by
    rw [hlog, hsent]
    exact h.cached k r (hcache k r hr)
  respected := by
    rw [hlog]
    exact h.respected

theorem Tracked.extend {e : EdgeServer m} (h : Tracked e) {x : LogEntry} {c : Cache}
    (hx : ∀ origin path, x ≠ .dispatched origin path)
    (hretained : ∀ origin, x.retained = some origin → ¬ Overtaken e.log origin)
    (hc : ∀ k r, c.Holds k r →
      e.cache.Holds k r ∧ ∀ path, x.Evicts path → ¬ pathPrefix path <+: k) :
    Tracked { e.logged x with cache := c } := by
  have hdispatched : ∀ origin path, LogEntry.dispatched origin path ∈ e.log ++ [x] →
      LogEntry.dispatched origin path ∈ e.log := by
    intro origin path hmem
    obtain hmem | hmem := mem_append.mp hmem
    · exact hmem
    · exact absurd (mem_singleton.mp hmem).symm (hx origin path)
  refine ⟨fun origin path hmem => h.sent_lt origin path (hdispatched origin path hmem),
    fun ctx hctx hnone => ?_, fun k r hr => ?_,
    noResurrection_concat.mpr ⟨h.respected, hretained⟩⟩
  · obtain ⟨hlt, hpath⟩ := h.pending ctx hctx hnone
    exact ⟨hlt, fun path hmem => hpath path (hdispatched _ path hmem)⟩
  · obtain ⟨hr, hkey⟩ := hc k r hr
    obtain ⟨hlt, hpath, hfresh⟩ := h.cached k r hr
    refine ⟨hlt, fun path hmem => hpath path (hdispatched _ path hmem), fun hover => ?_⟩
    obtain hover | ⟨path, hmem, hevict⟩ := overtaken_concat.mp hover
    · exact hfresh hover
    · exact hkey path hevict (hpath path hmem)

theorem Tracked.logged {e : EdgeServer m} (h : Tracked e) {x : LogEntry} {origin : Nat}
    (hx : x.retained = some origin) (hnot : ¬ Overtaken e.log origin) : Tracked (e.logged x) := by
  have hevicts : ∀ path, ¬ x.Evicts path := by
    cases x with
    | dispatched n path | evicted path | cleared => cases hx
    | stored n | served n headers own => exact fun _ => id
  refine h.extend (fun n path heq => ?_) (fun n hn => ?_)
    fun k r hr => ⟨hr, fun path hevict => (hevicts path hevict).elim⟩
  · rw [heq] at hx
    cases hx
  · rw [hx] at hn
    cases hn
    exact hnot

theorem Tracked.evict {e : EdgeServer m} (h : Tracked e) (path : Str) : Tracked (e.evict path) := by
  refine h.extend (fun _ _ heq => by cases heq) (fun _ hn => by cases hn) fun k r hr => ?_
  obtain ⟨hr, hkey⟩ := Cache.holds_evictPath hr
  refine ⟨hr, fun path' hevict => ?_⟩
  have heq : pathPrefix path = pathPrefix path' := by rw [pathPrefix, pathPrefix, hevict]
  rwa [← heq]

theorem Tracked.clearCache {e : EdgeServer m} (h : Tracked e) : Tracked e.clearCache :=
  h.extend (fun _ _ heq => by cases heq) (fun _ hn => by cases hn)
    fun _ _ hr => (Cache.not_holds_clear hr).elim

theorem Tracked.send {e : EdgeServer m} (h : Tracked e) (path : Str) : Tracked (e.send path) := by
  have hlater : ∀ n path', LogEntry.dispatched n path' ∈ e.log ++ [.dispatched e.sent path] →
      LogEntry.dispatched n path' ∈ e.log ∨ n = e.sent ∧ path' = path := by
    intro n path' hmem
    obtain hmem | hmem := mem_append.mp hmem
    · exact .inl hmem
    · cases mem_singleton.mp hmem
      exact .inr ⟨rfl, rfl⟩
  refine ⟨fun n path' hmem => ?_, fun ctx hctx hnone => ?_, fun k r hr => ?_, ?_⟩
  · obtain hmem | ⟨rfl, -⟩ := hlater n path' hmem
    · exact Nat.lt_succ_of_lt (h.sent_lt n path' hmem)
    · exact Nat.lt_succ_self e.sent
  · obtain ⟨hlt, hpath⟩ := h.pending ctx hctx hnone
    refine ⟨Nat.lt_succ_of_lt hlt, fun path' hmem => ?_⟩
    obtain hmem | ⟨heq, -⟩ := hlater _ path' hmem
    · exact hpath path' hmem
    · exact absurd heq hlt.ne
  · obtain ⟨hlt, hpath, hfresh⟩ := h.cached k r hr
    refine ⟨Nat.lt_succ_of_lt hlt, fun path' hmem => ?_, fun hover => ?_⟩
    · obtain hmem | ⟨heq, -⟩ := hlater _ path' hmem
      · exact hpath path' hmem
      · exact absurd heq hlt.ne
    · obtain hover | ⟨path', -, hevict⟩ := overtaken_concat.mp hover
      · exact hfresh hover
      · exact hevict
  · exact noResurrection_concat.mpr ⟨h.respected, fun n hn => by cases hn⟩

theorem Tracked.store {e : EdgeServer m} (h : Tracked e) {now : ClockReading} {key : Str}
    {r : CachedResponse} (hlt : r.origin < e.sent)
    (hpath : ∀ path, LogEntry.dispatched r.origin path ∈ e.log → pathPrefix path <+: key)
    (hnot : ¬ Overtaken e.log r.origin) : Tracked (e.store now key r) := by
  have hlogged : Tracked (e.logged (.stored r.origin)) := h.logged rfl hnot
  have hnew : r.origin < e.sent ∧ (∀ path, LogEntry.dispatched r.origin path ∈
      e.log ++ [.stored r.origin] → pathPrefix path <+: key) ∧
      ¬ Overtaken (e.log ++ [.stored r.origin]) r.origin := by
    refine ⟨hlt, fun path hmem => ?_, fun hover => ?_⟩
    · obtain hmem | hmem := mem_append.mp hmem
      · exact hpath path hmem
      · cases mem_singleton.mp hmem
    · obtain hover | ⟨path, -, hevict⟩ := overtaken_concat.mp hover
      · exact hnot hover
      · exact hevict
  refine ⟨hlogged.sent_lt, hlogged.pending, fun k r' hr' => ?_, hlogged.respected⟩
  obtain ⟨rfl, rfl⟩ | hr' := Cache.holds_insert hr'
  · exact hnew
  · exact hlogged.cached k r' hr'

theorem pathPrefix_key (x : Forward) : pathPrefix x.req.path <+: x.key := pathPrefix_cacheKey _ _ _

theorem origin_of_stores {site : Site} {x : Forward} {origin : Nat} {resp : HttpResponse}
    {r : CachedResponse} (h : x.stores site origin resp = some r) :
    r.origin = origin ∧ cookies r.headers = [] := by
  rw [Forward.stores] at h
  split_ifs at h
  cases h
  exact ⟨rfl, cookies_stripSetCookie _⟩

theorem Move.tracked {e e' : EdgeServer m} (hmove : Move s ev e e')
    (htimely : ∀ origin, s.atRisk ev = some origin → ¬ Overtaken s.log origin)
    (hpending : ∀ ctx ∈ s.pending, ctx.errorStatusOverride = none → ctx.origin < s.sent ∧
      ∀ path, .dispatched ctx.origin path ∈ s.log → path = ctx.req.path)
    (h : Tracked e) : Tracked e' := by
  cases hmove with
  | look hc => exact h.frame rfl rfl (fun _ hctx => hctx) hc
  | configure => exact h.frame rfl rfl (fun _ hctx => hctx) fun _ _ hr => hr
  | evict path => exact h.evict path
  | clear => exact h.clearCache
  | close p => exact h.frame rfl rfl (fun _ hctx => mem_of_mem_filter hctx) fun _ _ hr => hr
  -- a hit is what the invariant is for
  | replay hheld hcookies => exact h.logged rfl (h.cached _ _ hheld).2.2
  | serveHeld hheld hlog hrisk hcookies => exact h.logged rfl (hlog ▸ htimely _ hrisk)
  | hold status hlog hrisk hcookies =>
    exact (h.logged rfl (hlog ▸ htimely _ hrisk)).frame rfl rfl (fun _ hctx => hctx)
      fun _ _ hr => hr
  | store hctx hoverride hlog hsent hrisk hr =>
    obtain ⟨horigin, -⟩ := origin_of_stores hr
    obtain ⟨hlt, hpath⟩ := hpending _ hctx hoverride
    rw [← horigin] at hlt hpath hrisk
    rw [← hlog] at hpath
    -- the number is that of one request, so the key is that of its path
    refine h.store (hsent ▸ hlt) (fun path hmem => ?_) (hlog ▸ htimely _ hrisk)
    rw [hpath path hmem]
    exact pathPrefix_key (forwardOf _ _)
  | @dispatch path ctx horigin hpath =>
    have hsend : Tracked (e.send path) := h.send path
    refine ⟨hsend.sent_lt, fun ctx' hctx' hnone => ?_, hsend.cached, hsend.respected⟩
    obtain hctx' | hctx' := mem_append.mp hctx'
    · exact hsend.pending ctx' hctx' hnone
    · obtain rfl := mem_singleton.mp hctx'
      refine ⟨horigin.trans_lt (Nat.lt_succ_self e.sent), fun path' hmem => ?_⟩
      obtain hmem | hmem := mem_append.mp hmem
      · exact absurd horigin (h.sent_lt _ path' hmem).ne
      · obtain ⟨-, rfl⟩ := LogEntry.dispatched.inj (mem_singleton.mp hmem)
        exact hpath hnone
  | exchange x reply =>
    have hsend : Tracked (e.send x.req.path) := h.send x.req.path
    have hfirst : ∀ path, LogEntry.dispatched e.sent path ∉ e.log :=
      fun path hmem => (h.sent_lt _ path hmem).false
    rw [EdgeServer.exchange]
    split
    · rename_i r hr
      obtain ⟨resp, -, hstores⟩ := bind_eq_some_iff.mp hr
      obtain ⟨horigin, -⟩ := origin_of_stores hstores
      refine hsend.store (horigin.trans_lt (Nat.lt_succ_self e.sent)) (fun path hmem => ?_) ?_
      · rw [horigin] at hmem
        obtain hmem | hmem := mem_append.mp hmem
        · exact absurd hmem (hfirst path)
        · cases mem_singleton.mp hmem
          exact pathPrefix_key x
      · rw [horigin]
        intro hover
        obtain hover | ⟨path, hmem, -⟩ := overtaken_concat.mp hover
        · exact not_overtaken_of_notMem hfirst hover
        · exact hfirst path hmem
    · exact hsend

theorem Move.log_grows {e e' : EdgeServer m} (hmove : Move s ev e e') : e.log <+: e'.log := by
  cases hmove with
  | look hc | configure | close p => exact prefix_rfl
  | dispatch horigin hpath | evict path | clear | replay hheld hcookies
  | store hctx hoverride hlog hsent hrisk hr | hold status hlog hrisk hcookies
  | serveHeld hheld hlog hrisk hcookies => exact prefix_append _ _
  | exchange x reply =>
    rw [EdgeServer.exchange]
    split
    · exact (prefix_append _ _).trans (prefix_append _ _)
    · exact prefix_append _ _

theorem Moves.log_grows {e e' : EdgeServer m} (h : Moves s ev e e') : e.log <+: e'.log := by
  induction h with
  | refl => exact prefix_rfl
  | tail _ hmove ih => exact ih.trans hmove.log_grows

theorem Tracked.step {e : EdgeServer m} (h : Tracked e) {ev : EdgeEvent}
    (htimely : ∀ origin, e.atRisk ev = some origin → ¬ Overtaken e.log origin) :
    Tracked (e.step ev) := by
  -- along the moves of the step; what they risk is judged by the log that the step found
  have hmoves : ∀ {e'}, Moves e ev e e' → Tracked e' := by
    intro e' hmoves
    induction hmoves with
    | refl => exact h
    | tail _ hmove ih => exact hmove.tracked htimely h.pending ih
  exact hmoves (step_moves e ev)

theorem conclude_log (e : EdgeServer m) (req : RawRequest) (now : ClockReading) (a : Answer) :
    e.log <+: (e.conclude req now a).log := by
  have hmoves : Moves e .laterClear e (e.conclude req now a) := conclude_moves e req now a
  exact hmoves.log_grows

theorem handle_heldFor {e : EdgeServer m} (enc : Str) (h : e.heldFor a o = some page) :
    ∃ headers, e.log ++ [.served page.origin headers o.own] <+: (e.handle a enc false o).log := by
  unfold heldFor at h
  split at h
  · rename_i errorPath status route hmode houtcome
    split_ifs at h with hmissing
    obtain ⟨rfl, hpath⟩ := hmissing
    have hserved : e.handle a enc false o = e.serveHeld a.request false o 404 page := by
      unfold handle
      simp only [houtcome, if_true, dispatchCustomErrorAsync, hmode, if_neg hpath, h,
        getD_some]
    rw [hserved, serveHeld]
    exact ⟨_, conclude_log (e.logged _) a.request o.now _⟩
  · cases h

theorem finalizeUrlResponse_keeps {e : EdgeServer m} {ctx : PendingUrlContext}
    {resp : HttpResponse} (h : e.keeps ctx resp o = true) :
    e.log ++ [.stored ctx.origin] <+: (e.finalizeUrlResponse ctx (some resp) o).log := by
  unfold finalizeUrlResponse
  cases hoverride : ctx.errorStatusOverride with
  | some status =>
    exact conclude_log (e.hold status ⟨ctx.origin, o.now.instant, resp.headers, resp.body⟩) ctx.req
      o.now _
  | none =>
    rw [keeps, hoverride, isSome_none, Bool.false_or] at h
    obtain ⟨r, hr⟩ := isSome_iff_exists.mp h
    simp only [bind_some, hr]
    have hlog : (e.store o.now (forwardOf ctx o).key r).log = e.log ++ [.stored ctx.origin] := by
      rw [← (origin_of_stores hr).1]
      rfl
    rw [← hlog]
    exact conclude_log _ ctx.req o.now _

theorem step_atRisk {e : EdgeServer m} {ev : EdgeEvent} {origin : Nat}
    (h : e.atRisk ev = some origin) :
    ∃ x, x.retained = some origin ∧ e.log ++ [x] <+: (e.step ev).log := by
  cases ev with
  | client v o =>
    simp only [atRisk] at h
    split at h
    · rename_i hmissed
      obtain ⟨page, hpage, rfl⟩ := map_eq_some_iff.mp h
      have hstep : e.step (.client v o) =
          { e with cache := (e.passage v o).2 }.handle v.toEdgeRequest v.enc false o := by
        rw [step, visit, ← Prod.mk.eta (p := e.passage v o), hmissed]
      have hheld : heldFor { e with cache := (e.passage v o).2 } v.toEdgeRequest o = some page :=
        hpage
      obtain ⟨headers, hlog⟩ := handle_heldFor v.enc hheld
      exact ⟨_, rfl, hstep ▸ hlog⟩
    · cases h
  | complete n result o =>
    simp only [atRisk] at h
    obtain ⟨ctx, hfind, h⟩ := bind_eq_some_iff.mp h
    split_ifs at h with hkeeps
    obtain rfl := some.inj h
    have horigin : ctx.origin = n := by simpa using find?_some hfind
    cases result with
    | none => cases hkeeps
    | some resp =>
      refine ⟨.stored n, rfl, ?_⟩
      rw [step, complete, hfind, ← horigin]
      have hclosed : ∀ rest, keeps { e with pending := rest } ctx resp o = true := fun _ => hkeeps
      exact finalizeUrlResponse_keeps
        (hclosed (e.pending.filter fun other => other.origin != ctx.origin))
  | refresh path query enc o | reload change settings | laterClear => cases h

theorem run_concat (e : EdgeServer m) (events : List EdgeEvent) (ev : EdgeEvent) :
    e.run (events ++ [ev]) = (e.run events).step ev := by
  rw [run, foldl_append]
  rfl

def Timely (e : EdgeServer m) (events : List EdgeEvent) : Prop :=
  ∀ before ev after, events = before ++ ev :: after →
    ∀ origin, (e.run before).atRisk ev = some origin → ¬ Overtaken (e.run before).log origin

theorem Timely.of_concat {e : EdgeServer m} {events : List EdgeEvent} {ev : EdgeEvent}
    (h : Timely e (events ++ [ev])) :
    Timely e events ∧
      ∀ origin, (e.run events).atRisk ev = some origin → ¬ Overtaken (e.run events).log origin := by
  refine ⟨fun before ev' after hsplit => h before ev' (after ++ [ev]) ?_, h events ev [] rfl⟩
  rw [hsplit, append_assoc, cons_append]

theorem Tracked.run {e : EdgeServer m} (h : Tracked e) {events : List EdgeEvent}
    (htimely : Timely e events) : Tracked (e.run events) := by
  induction events using reverseRecOn with
  | nil => exact h
  | append_singleton events ev ih =>
    obtain ⟨hbefore, hlast⟩ := htimely.of_concat
    rw [run_concat]
    exact (ih hbefore).step hlast

theorem run_log (e : EdgeServer m) (before after : List EdgeEvent) :
    (e.run before).log <+: (e.run (before ++ after)).log := by
  induction after using reverseRecOn with
  | nil => rw [append_nil]
  | append_singleton after ev ih =>
    rw [← append_assoc, run_concat]
    exact ih.trans (step_moves _ ev).log_grows

/-- **No stale resurrection.** In every run from the start, nothing that was asked for before its
path was evicted is stored or served after that, exactly if two things never happen: that a URL
backend's response is stored, or its error page held, though the path was evicted while it was
pending; and that a held page is served though its path was evicted since it was asked for. The
cache itself, and the backends that answer at once, never do it. -/
theorem noResurrection_iff (server : ServerState m) (settings : Settings)
    (maxBytes entrySize : Nat) (events : List EdgeEvent) :
    NoResurrection ((start server settings maxBytes entrySize).run events).log ↔
      Timely (start server settings maxBytes entrySize) events := by
  constructor
  · -- what is at risk is the first thing that the step logs
    rintro h before ev after rfl origin hrisk
    obtain ⟨x, hx, hlog⟩ := step_atRisk hrisk
    have hwhole := run_log (start server settings maxBytes entrySize) (before ++ [ev]) after
    rw [run_concat, append_assoc] at hwhole
    have hstep : NoResurrection
      (((start server settings maxBytes entrySize).run before).log ++ [x]) :=
      Revocation.Respected.of_prefix h (hlog.trans hwhole)
    exact (noResurrection_concat.mp hstep).2 origin hx
  · intro h
    exact ((Tracked.start server settings maxBytes entrySize).run h).respected

/-! ## Cookies, over whole runs -/

end EdgeServer

/-- Every response that is served from the cache or from the held pages sets no other cookie than
the one that was made for its own request. -/
def NoCookieReplayed (log : List LogEntry) : Prop :=
  ∀ origin headers own, .served origin headers own ∈ log → (cookies headers).Sublist own

namespace EdgeServer

/-- What keeps it so: no cookie is kept. -/
structure Clean (e : EdgeServer m) : Prop where
  cached : ∀ k r, e.cache.Holds k r → cookies r.headers = []
  held : ∀ status page, e.errorPages.get? status = some page → cookies page.headers = []
  served : NoCookieReplayed e.log

theorem Clean.start (server : ServerState m) (settings : Settings) (maxBytes entrySize : Nat) :
    Clean (start server settings maxBytes entrySize) where
  cached _ _ h := (Cache.not_holds_new h).elim
  held _ _ h := by cases h
  served _ _ _ h := by cases h

variable {e : EdgeServer m}

theorem Clean.logged (h : Clean e) {x : LogEntry}
    (hx : ∀ origin headers own, x = .served origin headers own → (cookies headers).Sublist own) :
    Clean (e.logged x) := by
  refine ⟨h.cached, h.held, fun origin headers own hmem => ?_⟩
  obtain hmem | hmem := mem_append.mp hmem
  · exact h.served origin headers own hmem
  · exact hx origin headers own (mem_singleton.mp hmem).symm

theorem Clean.frame {e e' : EdgeServer m} (h : Clean e)
    (hcache : ∀ k r, e'.cache.Holds k r → e.cache.Holds k r) (hpages : e'.errorPages = e.errorPages)
    (hlog : e'.log = e.log) : Clean e' := by
  refine ⟨fun k r hr => h.cached k r (hcache k r hr), ?_, ?_⟩
  · rw [hpages]
    exact h.held
  · rw [hlog]
    exact h.served

theorem Clean.store (h : Clean e) {now : ClockReading} {key : Str}
    {r : CachedResponse} (hr : cookies r.headers = []) : Clean (e.store now key r) := by
  have hlogged : Clean (e.logged (.stored r.origin)) := h.logged fun _ _ _ hx => by cases hx
  refine ⟨fun k r' hr' => ?_, hlogged.held, hlogged.served⟩
  obtain ⟨-, rfl⟩ | hr' := Cache.holds_insert hr'
  · exact hr
  · exact h.cached k r' hr'

theorem Clean.send (h : Clean e) (path : Str) : Clean (e.send path) :=
  (h.logged fun _ _ _ hx => by cases hx).frame (fun _ _ hr => hr) rfl rfl

theorem Move.clean {e e' : EdgeServer m} (hmove : Move s ev e e')
    (hnone : s.bringsCookies ev = false) (h : Clean e) : Clean e' := by
  cases hmove with
  | look hc => exact h.frame hc rfl rfl
  | configure | close p => exact h.frame (fun _ _ hr => hr) rfl rfl
  | @dispatch path ctx horigin hpath => exact (h.send path).frame (fun _ _ hr => hr) rfl rfl
  | evict path =>
    exact (h.logged fun _ _ _ hx => by cases hx).frame
      (fun _ _ hr => (Cache.holds_evictPath hr).1) rfl rfl
  | clear =>
    exact (h.logged fun _ _ _ hx => by cases hx).frame
      (fun _ _ hr => (Cache.not_holds_clear hr).elim) rfl rfl
  | replay hheld hcookies =>
    refine h.logged fun origin headers own hx => ?_
    obtain ⟨-, rfl, rfl⟩ := LogEntry.served.inj hx
    exact hcookies (h.cached _ _ hheld)
  | serveHeld hheld hlog hrisk hcookies =>
    refine h.logged fun origin headers own hx => ?_
    obtain ⟨-, rfl, rfl⟩ := LogEntry.served.inj hx
    exact hcookies (h.held _ _ hheld)
  | store hctx hoverride hlog hsent hrisk hr => exact h.store (origin_of_stores hr).2
  | @hold status page hlog hrisk hcookies =>
    have hlogged : Clean (e.logged (.stored page.origin)) := h.logged fun _ _ _ hx => by cases hx
    refine ⟨h.cached, fun status' page' hpage' => ?_, hlogged.served⟩
    have hget : (e.errorPages.insert status page).get? status' = some page' := hpage'
    rw [SortedMap.get?_insert] at hget
    split_ifs at hget
    · cases hget
      exact hcookies hnone
    · exact h.held status' page' hget
  | exchange x reply =>
    rw [EdgeServer.exchange]
    split
    · rename_i r hr
      obtain ⟨resp, -, hstores⟩ := bind_eq_some_iff.mp hr
      exact (h.send x.req.path).store (origin_of_stores hstores).2
    · exact h.send x.req.path

theorem Clean.step (h : Clean e) {ev : EdgeEvent}
    (hnone : e.bringsCookies ev = false) : Clean (e.step ev) := by
  have hmoves : ∀ {e'}, Moves e ev e e' → Clean e' := by
    intro e' hmoves
    induction hmoves with
    | refl => exact h
    | tail _ hmove ih => exact hmove.clean hnone ih
  exact hmoves (step_moves e ev)

def PagesClean (e : EdgeServer m) (events : List EdgeEvent) : Prop :=
  ∀ before ev after, events = before ++ ev :: after → (e.run before).bringsCookies ev = false

theorem pagesClean_nil : PagesClean e [] := by
  intro before ev after hsplit
  cases (append_eq_nil_iff.mp hsplit.symm).2

theorem pagesClean_cons {ev : EdgeEvent} {events : List EdgeEvent}
    (hfirst : e.bringsCookies ev = false) (hrest : PagesClean (e.step ev) events) :
    PagesClean e (ev :: events) := by
  intro before ev' after hsplit
  obtain ⟨rfl, hcons⟩ | ⟨rest, rfl, hcons⟩ := cons_eq_append_iff.mp hsplit
  · obtain ⟨rfl, -⟩ := List.cons.inj hcons
    exact hfirst
  · exact hrest rest ev' after hcons

theorem Clean.run (h : Clean e) {events : List EdgeEvent}
    (hpages : PagesClean e events) : Clean (e.run events) := by
  induction events using reverseRecOn with
  | nil => exact h
  | append_singleton events ev ih =>
    rw [run_concat]
    refine (ih fun before ev' after hsplit => hpages before ev' (after ++ [ev]) ?_).step
      (hpages events ev [] rfl)
    rw [hsplit, append_assoc, cons_append]

/-- **No cookie of one client for another.** In every run from the start in which no custom error
page comes with a `Set-Cookie` field, every response that is served from the cache or from the
held pages sets no other cookie than the one made for its own request. -/
theorem no_cookie_replayed (server : ServerState m) (settings : Settings)
    (maxBytes entrySize : Nat) (events : List EdgeEvent)
    (hpages : PagesClean (start server settings maxBytes entrySize) events) :
    NoCookieReplayed ((start server settings maxBytes entrySize).run events).log :=
  ((Clean.start server settings maxBytes entrySize).run hpages).served

end EdgeServer

/-! ## A node in front of another -/

/-- The files of a node whose one backend is another node, with a page and an error page. -/
def nodeDisk : Disk where
  parsed := .ok (
    { allowedMethods := none
      backends := ["origin".toList]
      routes := [⟨"/page".toList, "origin".toList, none⟩, ⟨"/oops".toList, "origin".toList, none⟩]
      routeGroups := []
      auth := none
      health := ⟨true, "/health".toList, "/perf".toList, "/traffic".toList, none⟩
      errors := ⟨"custom".toList, some "/oops".toList⟩ },
    { allowedMethods := none
      auth := none
      metricsRequire := none })
  fileExists _ := true
  readKey _ := none
  glob _ := some []

def nodeSettings : Settings where
  toSite := plainSite (.custom "/oops".toList)
  domain := "example.org".toList
  isUrl _ := true

/-- Nothing fails at the node, and no session cookie is made. -/
def atRest : Surroundings := ⟨⟨0, 0⟩, none, none, none, true, 200⟩

def clientAsks (method path : String) : EdgeEvent :=
  .client
    { request := ⟨method.toList, path.toList, none, "HTTP/1.1".toList, [], []⟩
      now := 0
      fromInternal := false
      enc := []
      isH3 := false
      rateLimited := false
      wwwRedirect := none
      inEarlyData := false } atRest

def originAnswers (origin : Nat) (headers : List (Str × Str)) : EdgeEvent :=
  .complete origin (some ⟨200, headers, [42]⟩) atRest

/-- A page is asked for; then it is changed, and evicted with that; then the answer to the first
request comes, and is stored. -/
def staleStore : List EdgeEvent :=
  [clientAsks "GET" "/page", clientAsks "POST" "/page", originAnswers 1 [],
    originAnswers 0 [("Cache-Control".toList, "public".toList)]]

/-- An error page is held and served after the site's file has changed. -/
def staleServe : List EdgeEvent :=
  [clientAsks "GET" "/nothing", originAnswers 0 [], .reload ⟨true, nodeDisk⟩ nodeSettings,
    clientAsks "GET" "/nothing"]

def pageHeaders (headers : List (Str × Str)) : List (Str × Str) :=
  headers ++ [("vary".toList, "Accept-Encoding".toList),
    ("date".toList, "Thu, 01 Jan 1970 00:00:00 GMT".toList)]

def nodeRun (server : ServerState (RouteMatcher.listMatcher RouteEntry)) (events : List EdgeEvent) :
    List LogEntry :=
  ((EdgeServer.start server nodeSettings 65536 0).run events).log

theorem resurrected : ∃ server,
    ServerState.start (RouteMatcher.listMatcher RouteEntry) nodeDisk "/site".toList = some server ∧
      ¬ NoResurrection (nodeRun server staleStore) ∧
      ¬ NoResurrection (nodeRun server staleServe) := by
  have hrun : (ServerState.start (RouteMatcher.listMatcher RouteEntry) nodeDisk
      "/site".toList).map (fun server => (nodeRun server staleStore, nodeRun server staleServe)) =
      some ([.dispatched 0 "/page".toList, .dispatched 1 "/page".toList, .evicted "/page".toList,
          .stored 0],
        [.dispatched 0 "/oops".toList, .stored 0, .cleared, .served 0 (pageHeaders []) []]) := by
    decide
  obtain ⟨server, hstart, hlogs⟩ := map_eq_some_iff.mp hrun
  obtain ⟨hstore, hserve⟩ := Prod.mk.inj hlogs
  refine ⟨server, hstart, fun h => ?_, fun h => ?_⟩
  · rw [hstore] at h
    exact h (.dispatched 0 "/page".toList) (.evicted "/page".toList) (.stored 0)
      (.cons_cons _ (.cons _ (.cons_cons _ (.cons_cons _ .slnil)))) rfl rfl
  · rw [hserve] at h
    exact h (.dispatched 0 "/oops".toList) .cleared (.served 0 (pageHeaders []) [])
      (.cons_cons _ (.cons _ (.cons_cons _ (.cons_cons _ .slnil)))) trivial rfl

/-- An error page is fetched for one client and served to the next. -/
def heldServe (headers : List (Str × Str)) : List EdgeEvent :=
  [clientAsks "GET" "/nothing", originAnswers 0 headers, clientAsks "GET" "/nowhere"]

theorem held_page_served : ∃ server,
    ServerState.start (RouteMatcher.listMatcher RouteEntry) nodeDisk "/site".toList = some server ∧
      .served 0 (pageHeaders []) [] ∈ nodeRun server (heldServe []) ∧
      NoCookieReplayed (nodeRun server (heldServe [])) := by
  have hrun : (ServerState.start (RouteMatcher.listMatcher RouteEntry) nodeDisk
      "/site".toList).map (fun server => (nodeRun server (heldServe []),
        [(EdgeServer.start server nodeSettings 65536 0).bringsCookies (clientAsks "GET" "/nothing"),
          ((EdgeServer.start server nodeSettings 65536 0).run
            [clientAsks "GET" "/nothing"]).bringsCookies (originAnswers 0 []),
          ((EdgeServer.start server nodeSettings 65536 0).run
            [clientAsks "GET" "/nothing", originAnswers 0 []]).bringsCookies
              (clientAsks "GET" "/nowhere")])) =
      some ([.dispatched 0 "/oops".toList, .stored 0, .served 0 (pageHeaders []) []],
        [false, false, false]) := by
    decide +kernel
  obtain ⟨server, hstart, hlogs⟩ := map_eq_some_iff.mp hrun
  obtain ⟨hlog, hclean⟩ := Prod.mk.inj hlogs
  simp only [List.cons.injEq, and_true] at hclean
  obtain ⟨hasks, hanswers, hagain⟩ := hclean
  refine ⟨server, hstart, ?_, EdgeServer.no_cookie_replayed server nodeSettings 65536 0 _ ?_⟩
  · rw [hlog]
    exact mem_cons_of_mem _ (mem_cons_of_mem _ mem_cons_self)
  · exact EdgeServer.pagesClean_cons hasks (EdgeServer.pagesClean_cons hanswers
      (EdgeServer.pagesClean_cons hagain EdgeServer.pagesClean_nil))

theorem cookie_replayed : ∃ server,
    ServerState.start (RouteMatcher.listMatcher RouteEntry) nodeDisk "/site".toList = some server ∧
      ¬ NoCookieReplayed (nodeRun server (heldServe
        [("Set-Cookie".toList, "_m6sid=1".toList)])) := by
  have hrun : (ServerState.start (RouteMatcher.listMatcher RouteEntry) nodeDisk
      "/site".toList).map (fun server => nodeRun server (heldServe
        [("Set-Cookie".toList, "_m6sid=1".toList)])) =
      some [.dispatched 0 "/oops".toList, .stored 0,
        .served 0 (pageHeaders [("Set-Cookie".toList, "_m6sid=1".toList)]) []] := by
    decide +kernel
  obtain ⟨server, hstart, hlog⟩ := map_eq_some_iff.mp hrun
  refine ⟨server, hstart, fun h => ?_⟩
  have hserved := h 0 (pageHeaders [("Set-Cookie".toList, "_m6sid=1".toList)]) [] (by
    rw [hlog]
    exact mem_cons_of_mem _ (mem_cons_of_mem _ mem_cons_self))
  rw [sublist_nil] at hserved
  cases hserved

end M6
