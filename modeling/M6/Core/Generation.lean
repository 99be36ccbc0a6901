import M6.Core.Reload
import M6.Core.Responder

/-!
# One configuration generation per request

`handle_request` of `app.rs` among reloads. A request takes the read lock twice: once to share the
route table, the site directory and the config, and, if a route matches, once more to build the
dictionary and render. A reload may replace the state in between.

Requests are two steps of one state here, and reloads come between them as they like. A response
is of one generation if some state that was in force while it was handled would have given it
alone. `one_generation` says when a run keeps to that, and `reload_between` is a run that does not.
-/

namespace M6.App

open Option

/-! ## The request pipeline -/

/-- What a handler is given. -/
structure AppRequest where
  raw : RawRequest
  dict : Dict
  siteDir : Str
  route : AppRoute
  config : RendererConfig

structure AppResponse extends Response where
  /-- the representation is the handler's, to be sent as it is -/
  verbatim : Bool
  templateName : Option Str
  templateDict : Option Dict

abbrev Handler : Type := AppRequest → Except Error AppResponse

/-- `Response::status`. -/
def AppResponse.ofStatus (code : Nat) : AppResponse := ⟨⟨code, [], .bytes []⟩, false, none, none⟩

def AppResponse.renderRequestDict (template : Str) (status : Nat) : AppResponse :=
  ⟨⟨status, [], .bytes []⟩, false, some template, none⟩

def errorToResponse : Error → AppResponse
  | .notFound => .ofStatus 404
  | .forbidden => .ofStatus 403
  | .badRequest _ => .ofStatus 400
  | .other _ => .ofStatus 500

/-- The libraries of the pipeline, which keep no state. -/
structure Transforms where
  minifyHtml : Bytes → Bool → Bytes
  minifyCss : Bytes → Bytes
  minifyJson : Bytes → Bytes
  minifyJs : Bytes → Bytes
  brotliCompress : Bytes → Nat → Option Bytes
  gzipCompress : Bytes → Nat → Option Bytes
  preferredCoding : Str → List Str → Option Str
  fmtHttpDate : Nat → Str

/-- What the request meets at the second lock: the disk and the clock, and what the handlers
answer then. -/
structure Surroundings where
  moment : Moment
  named : Str → Option Handler
  code : Str → Option Handler

def findAppStep (method : Str) (pathSegs : List Str) (best : Option (AppRoute × PathParams))
    (route : AppRoute) : Option (AppRoute × PathParams) :=
  if route.method.matches method then
    match matchRoute pathSegs route.segments with
    | some params =>
      match best with
      | some (bestRoute, bestParams) =>
        if route.specificity ≤ bestRoute.specificity then some (bestRoute, bestParams)
        else some (route, params)
      | none => some (route, params)
    | none => best
  else best

/-- `find_route`, of routes with what their responses are made of. -/
def findAppRoute (path method : Str) (routes : List AppRoute) : Option (AppRoute × PathParams) :=
  routes.foldl (findAppStep method (pathSegments path)) none

theorem findAppRoute_map (path method : Str) (routes : List AppRoute) :
    (findAppRoute path method routes).map (fun r => (r.1.toCompiledRoute, r.2)) =
      findRoute path method (routes.map AppRoute.toCompiledRoute) := by
  have hstep : ∀ (best : Option (AppRoute × PathParams)) (route : AppRoute),
      (findAppStep method (pathSegments path) best route).map
          (fun r => (r.1.toCompiledRoute, r.2)) =
        findStep method (pathSegments path) (best.map fun r => (r.1.toCompiledRoute, r.2))
          route.toCompiledRoute := by
    intro best route
    rw [findAppStep, findStep]
    split_ifs
    · cases matchRoute (pathSegments path) route.segments with
      | none => rfl
      | some params =>
        cases best with
        | none => rfl
        | some b =>
          simp only [map_some]
          split_ifs <;> rfl
    · rfl
  have hfold : ∀ (best : Option (AppRoute × PathParams)),
      (routes.foldl (findAppStep method (pathSegments path)) best).map
          (fun r => (r.1.toCompiledRoute, r.2)) =
        (routes.map AppRoute.toCompiledRoute).foldl (findStep method (pathSegments path))
          (best.map fun r => (r.1.toCompiledRoute, r.2)) := by
    induction routes with
    | nil => exact fun _ => rfl
    | cons route rest ih =>
      intro best
      rw [List.foldl_cons, ih, hstep]
      rfl
  exact hfold none

def routeMethodKey : RouteMethod → Str
  | .any => "ANY".toList
  | .get => "GET".toList
  | .post => "POST".toList
  | .put => "PUT".toList
  | .patch => "PATCH".toList
  | .delete => "DELETE".toList

def call (handler : Handler) (req : AppRequest) : AppResponse :=
  match handler req with
  | .ok resp => resp
  | .error e => errorToResponse e

def dispatch (now : Surroundings) (req : AppRequest) : AppResponse :=
  match req.route.handler, req.route.template with
  | some name, _ =>
    match now.named name with
    | some handler => call handler req
    | none => .ofStatus 500
  | none, none =>
    match now.code (req.route.pattern ++ ':' :: routeMethodKey req.route.method) with
    | some handler => call handler req
    | none => .ofStatus 404
  | none, some template => .renderRequestDict template req.route.status

def renderResponse (renderer : Renderer) (dict : Dict) (resp : AppResponse) : AppResponse :=
  match resp.templateName with
  | none => resp
  | some template =>
    match renderer template (resp.templateDict.getD dict) with
    | .ok html => { resp with
        body := .bytes (Utf8.encode html)
        headers := resp.headers ++ [("Content-Type".toList, "text/html; charset=utf-8".toList)]
        templateName := none
        templateDict := none }
    | .error .notFound => .ofStatus 404
    | .error .failed => .ofStatus 500

def routeHeaders (lib : Transforms) (route : AppRoute) (resp : AppResponse) : AppResponse :=
  { resp with
    headers := resp.headers ++
      (if containsHeader resp.headers "cache-control".toList then []
        else [("Cache-Control".toList, route.cache)]) ++
      (if resp.status < 300 then
        (route.lastModified.map fun lm => ("Last-Modified".toList, lib.fmtHttpDate lm)).toList
        else []) ++
      route.headers }

def bringsCookie (raw : RawRequest) (name : Str) : Bool :=
  match raw.header "cookie".toList with
  | some hdr => name <:+: hdr
  | none => false

/-- The CSRF cookie of a first visit, and the removal of a flash message. -/
def cookieHeaders (svc : Service) (now : Moment) (raw : RawRequest) (token : Option Str)
    (resp : AppResponse) : AppResponse :=
  { resp with
    headers := resp.headers ++
      (if svc.csrf ∧ ¬ bringsCookie raw "_csrf=".toList then
        [("Set-Cookie".toList, "_csrf=".toList ++ token.getD now.csrfToken ++
          "; Path=/; Secure; SameSite=Strict".toList)]
        else []) ++
      (if svc.flash ∧ bringsCookie raw "_flash=".toList then
        [("Set-Cookie".toList, "_flash=; Max-Age=0; Path=/; HttpOnly".toList)]
        else []) }

def mimeOf (resp : AppResponse) : Str :=
  Text.trim ((((header resp.headers "content-type".toList).getD []).splitOn ';').headD [])

def minify (lib : Transforms) (config : MinificationConfig) (resp : AppResponse) : AppResponse :=
  match resp.body with
  | .stream _ _ => resp
  | .bytes bytes =>
    let mime := mimeOf resp
    if resp.verbatim ∨ bytes = [] ∨ ¬ (config.enabled.get? mime).getD false then resp
    else if mime = "text/html".toList then
      { resp with body := .bytes (lib.minifyHtml bytes config.inlineJs) }
    else if mime = "text/css".toList then { resp with body := .bytes (lib.minifyCss bytes) }
    else if mime = "application/json".toList then
      { resp with body := .bytes (lib.minifyJson bytes) }
    else if mime = "application/javascript".toList ∨ mime = "text/javascript".toList then
      { resp with body := .bytes (lib.minifyJs bytes) }
    else resp

def compressed (resp : AppResponse) (coding : Str) : Option Bytes → AppResponse
  | none => resp
  | some bytes => { resp with
      body := .bytes bytes
      headers := resp.headers ++ [("Content-Encoding".toList, coding)] }

/-- Compress, with the coding that the client prefers among those the config permits. -/
def compress (lib : Transforms) (levels : SortedMap Str CompressionLevel) (raw : RawRequest)
    (resp : AppResponse) : AppResponse :=
  match resp.body, levels.get? (mimeOf resp) with
  | .bytes bytes, some level =>
    if resp.verbatim ∨ bytes = [] then resp
    else
      let candidates := (if 0 < level.brotli then ["br".toList] else []) ++
        (if 0 < level.gzip then ["gzip".toList] else [])
      let coding := lib.preferredCoding ((raw.header "accept-encoding".toList).getD []) candidates
      if coding = some "br".toList then
        compressed resp "br".toList (lib.brotliCompress bytes level.brotli)
      else if coding = some "gzip".toList then
        compressed resp "gzip".toList (lib.gzipCompress bytes level.gzip)
      else resp
  | _, _ => resp

/-- The tail of the pipeline, outside the lock. -/
def transform (svc : Service) (lib : Transforms) (config : RendererConfig) (now : Moment)
    (raw : RawRequest) (token : Option Str) (resp : AppResponse) : Response :=
  (compress lib config.compression raw
    (minify lib config.minification (cookieHeaders svc now raw token resp))).toResponse

/-! ## The two locks -/

structure Generation where
  state : AppState
  paramsCache : SortedMap Str DictMap

structure Shared where
  routes : List AppRoute
  siteDir : Str
  config : RendererConfig

/-- What is read under the second. -/
structure Inner where
  siteDir : Str
  paramsCache : SortedMap Str DictMap
  flashSecret : Bytes
  renderer : Renderer

def Generation.shared (g : Generation) : Shared := ⟨g.state.routes, g.state.siteDir, g.state.config⟩

def Generation.inner (g : Generation) : Inner :=
  ⟨g.state.siteDir, g.paramsCache, g.state.flashSecret, g.state.renderer⟩

def Shared.route (shared : Shared) (raw : RawRequest) : Option (AppRoute × PathParams) :=
  findAppRoute raw.path raw.method shared.routes

def Inner.framework (os : Platform) (svc : Service) (inner : Inner) (shared : Shared) :
    FrameworkState where
  siteDir := inner.siteDir
  routes := shared.routes.map AppRoute.toCompiledRoute
  flashSecret := inner.flashSecret
  csrf := svc.csrf
  flash := svc.flash
  codec := os.codec
  unicode := svc.unicode

def handleMatched (os : Platform) (svc : Service) (lib : Transforms) (shared : Shared)
    (inner : Inner) (now : Surroundings) (raw : RawRequest) (route : AppRoute)
    (params : PathParams) : Response :=
  let moment := { now.moment with paramsCache := fun path => inner.paramsCache.get? path }
  match buildDict (inner.framework os svc shared) moment raw route.toCompiledRoute params with
  -- sent as it is, without the rest of the pipeline
  | .error e => (errorToResponse e).toResponse
  | .ok dict =>
    let token := if svc.csrf then (dict.get "csrf_token".toList).bind Value.asStr else none
    let resp := dispatch now ⟨raw, dict, shared.siteDir, route, shared.config⟩
    let resp := renderResponse inner.renderer dict resp
    transform svc lib shared.config now.moment raw token (routeHeaders lib route resp)

/-- The response to a request that shared one state out of the first lock, and found another at
the second. -/
def handleRequest (os : Platform) (svc : Service) (lib : Transforms) (shared : Shared)
    (inner : Inner) (now : Surroundings) (raw : RawRequest) : Response :=
  match shared.route raw with
  | none => transform svc lib shared.config now.moment raw none (.ofStatus 404)
  | some (route, params) => handleMatched os svc lib shared inner now raw route params

/-! ## Requests among reloads -/

/-- A request between its locks. `seen` is not part of the source: the states that were in force
since the first. -/
structure Pending where
  raw : RawRequest
  shared : Shared
  seen : List Generation

/-- A response, with what it was made of. It is not part of the source. -/
structure Served where
  raw : RawRequest
  now : Surroundings
  seen : List Generation
  response : Response

/-- The service as it runs. -/
structure Running where
  live : Live
  paramsCache : SortedMap Str DictMap
  pending : List Pending
  served : List Served

/-- What happens. -/
inductive AppEvent where
  /-- a request takes the first lock -/
  | begin (raw : RawRequest)
  /-- a request takes the second lock, and is answered -/
  | finish (k : Nat) (now : Surroundings)
  /-- a params file is put in the cache -/
  | remember (path : Str) (m : DictMap)
  /-- and falls out of it again -/
  | evict (path : Str)
  | reload (disk : Disk) (changed : Changed)

namespace Running

def current (r : Running) : Generation := ⟨r.live.state, r.paramsCache⟩

/-- Requests in flight see the state in force. -/
def observed (r : Running) : Running :=
  { r with pending := r.pending.map fun p => { p with seen := r.current :: p.seen } }

/-- One step. There is none where the process ends, or where no such request is pending. -/
def step (os : Platform) (svc : Service) (lib : Transforms) (r : Running) :
    AppEvent → Option Running
  | .begin raw =>
    some { r with pending := r.pending ++ [⟨raw, r.current.shared, [r.current]⟩] }
  | .finish k now =>
    r.pending[k]?.map fun p => { r with
      pending := r.pending.eraseIdx k
      served := r.served ++ [⟨p.raw, now, p.seen,
        handleRequest os svc lib p.shared r.current.inner now p.raw⟩] }
  | .remember path m => some { r with paramsCache := r.paramsCache.insert path m }.observed
  | .evict path => some { r with paramsCache := r.paramsCache.erase path }.observed
  | .reload disk changed =>
    match reload os disk svc changed r.live with
    | none => none
    -- a new state has a cache of its own, which is empty
    | some (after, .ok _) => some { r with live := after, paramsCache := .empty }.observed
    | some (after, .error _) => some { r with live := after }.observed

def run (os : Platform) (svc : Service) (lib : Transforms) : Running → List AppEvent →
    Option Running
  | r, [] => some r
  | r, e :: es => (r.step os svc lib e).bind fun r' => r'.run os svc lib es

end Running

/-- A state that was in force would have given the response alone. -/
def Served.OfOne (os : Platform) (svc : Service) (lib : Transforms) (s : Served) : Prop :=
  ∃ g ∈ s.seen, s.response = handleRequest os svc lib g.shared g.inner s.now s.raw

/-- A request that takes the second lock finds no route to render; or the state in force shares
what the first lock shared; or what it is asked for is as it was in a state that the request has
seen, and that shares what the first lock shared. -/
def Settled (r : Running) (p : Pending) : Prop :=
  p.shared.route p.raw = none ∨ r.current.shared = p.shared ∨
    ∃ g ∈ p.seen, g.shared = p.shared ∧ g.inner = r.current.inner

def SettledRun (os : Platform) (svc : Service) (lib : Transforms) : Running → List AppEvent → Prop
  | _, [] => True
  | r, e :: es =>
    (∀ k now, e = .finish k now → ∀ p, r.pending[k]? = some p → Settled r p) ∧
      ∀ r', r.step os svc lib e = some r' → SettledRun os svc lib r' es

/-! ## One generation -/

section

variable {os : Platform} {svc : Service} {lib : Transforms}

theorem handleRequest_of_unmatched {shared : Shared} {raw : RawRequest}
    (h : shared.route raw = none) (inner inner' : Inner) (now : Surroundings) :
    handleRequest os svc lib shared inner now raw =
      handleRequest os svc lib shared inner' now raw := by
  rw [handleRequest, handleRequest, h]

def Witnessed (r : Running) : Prop :=
  ∀ p ∈ r.pending, r.current ∈ p.seen ∧ ∃ g ∈ p.seen, g.shared = p.shared

theorem Witnessed.observed {r r' : Running} (h : Witnessed r) (hpending : r'.pending = r.pending) :
    Witnessed r'.observed := by
  intro p hp
  obtain ⟨q, hq, rfl⟩ := List.mem_map.mp hp
  rw [hpending] at hq
  obtain ⟨-, g, hg, hshared⟩ := h q hq
  exact ⟨List.mem_cons_self, g, List.mem_cons_of_mem _ hg, hshared⟩

theorem Witnessed.step {r r' : Running} (h : Witnessed r) {e : AppEvent}
    (hstep : r.step os svc lib e = some r') : Witnessed r' := by
  cases e with
  | begin raw =>
    cases hstep
    intro p hp
    obtain hp | hp := List.mem_append.mp hp
    · exact h p hp
    · obtain rfl := List.mem_singleton.mp hp
      exact ⟨List.mem_singleton_self _, _, List.mem_singleton_self _, rfl⟩
  | finish k now =>
    obtain ⟨p, -, rfl⟩ := map_eq_some_iff.mp hstep
    exact fun q hq => h q (List.mem_of_mem_eraseIdx hq)
  | remember path m | evict path =>
    cases hstep
    exact h.observed rfl
  | reload disk changed =>
    rw [Running.step] at hstep
    split at hstep
    next => cases hstep
    all_goals
      cases hstep
      exact h.observed rfl

/-- **One response**: a settled request is answered by one generation. -/
theorem ofOne_of_settled {r : Running} (h : Witnessed r) {p : Pending} (hp : p ∈ r.pending)
    (hsettled : Settled r p) (now : Surroundings) : Served.OfOne os svc lib ⟨p.raw, now, p.seen,
      handleRequest os svc lib p.shared r.current.inner now p.raw⟩ := by
  obtain ⟨hcurrent, g, hg, hshared⟩ := h p hp
  obtain hnone | hsame | ⟨g', hg', hshared', hinner⟩ := hsettled
  · refine ⟨g, hg, ?_⟩
    rw [hshared]
    exact handleRequest_of_unmatched hnone _ _ now
  · refine ⟨r.current, hcurrent, ?_⟩
    rw [hsame]
  · refine ⟨g', hg', ?_⟩
    rw [hshared', hinner]

theorem SettledRun.cons {r r' : Running} {e : AppEvent} {es : List AppEvent}
    (hstep : r.step os svc lib e = some r')
    (hfinish : ∀ k now, e = .finish k now → ∀ p, r.pending[k]? = some p → Settled r p)
    (h : SettledRun os svc lib r' es) : SettledRun os svc lib r (e :: es) := by
  refine ⟨hfinish, fun r'' hr => ?_⟩
  cases hstep.symm.trans hr
  exact h

theorem served_step {r r' : Running} (h : Witnessed r) {e : AppEvent}
    (hsettled : ∀ k now, e = .finish k now → ∀ p, r.pending[k]? = some p → Settled r p)
    (hstep : r.step os svc lib e = some r') (hserved : ∀ s ∈ r.served, s.OfOne os svc lib) :
    ∀ s ∈ r'.served, s.OfOne os svc lib := by
  cases e with
  | finish k now =>
    obtain ⟨p, hp, rfl⟩ := map_eq_some_iff.mp hstep
    intro s hs
    obtain hs | hs := List.mem_append.mp hs
    · exact hserved s hs
    · obtain rfl := List.mem_singleton.mp hs
      exact ofOne_of_settled h (List.mem_of_getElem? hp) (hsettled k now rfl p hp) now
  | begin raw | remember path m | evict path =>
    cases hstep
    exact hserved
  | reload disk changed =>
    rw [Running.step] at hstep
    split at hstep
    next => cases hstep
    all_goals
      cases hstep
      exact hserved

end

def noTransforms : Transforms where
  minifyHtml bytes _ := bytes
  minifyCss bytes := bytes
  minifyJson bytes := bytes
  minifyJs bytes := bytes
  brotliCompress _ _ := none
  gzipCompress _ _ := none
  preferredCoding _ _ := none
  fmtHttpDate _ := []

/-- `GET /`. -/
def pageRequest : RawRequest where
  method := "GET".toList
  path := "/".toList
  query := none
  version := "HTTP/1.1".toList
  headers := []
  body := []

/-- No handlers, and a disk without params files. -/
def pageSurroundings : Surroundings where
  moment := ⟨fun _ => none, fun _ => .missing, [], [], []⟩
  named _ := none
  code _ := none

def Running.start (live : Live) : Running := ⟨live, .empty, [], []⟩

/-- **One configuration generation per request.** In every run of a service, in which requests,
cache and reloads come in any order: if every request is settled when it takes the second lock,
every response is that of one state that was in force while it was handled. -/
theorem one_generation (os : Platform) (svc : Service) (lib : Transforms) (live : Live)
    (es : List AppEvent) {final : Running}
    (hrun : (Running.start live).run os svc lib es = some final)
    (hsettled : SettledRun os svc lib (.start live) es) :
    ∀ s ∈ final.served, s.OfOne os svc lib := by
  have hall : ∀ (es : List AppEvent) (r : Running), Witnessed r →
      (∀ s ∈ r.served, s.OfOne os svc lib) → r.run os svc lib es = some final →
      SettledRun os svc lib r es → ∀ s ∈ final.served, s.OfOne os svc lib := by
    intro es
    induction es with
    | nil =>
      intro r _ hserved hrun _
      cases hrun
      exact hserved
    | cons e es ih =>
      intro r h hserved hrun hsettled
      obtain ⟨r', hstep, hrest⟩ := bind_eq_some_iff.mp hrun
      exact ih r' (h.step hstep) (served_step h hsettled.1 hstep hserved) hrest
        (hsettled.2 r' hstep)
  refine hall es _ (fun p hp => ?_) (fun s hs => ?_) hrun hsettled
  · cases hp
  · cases hs

/-! ## A reload between the locks -/

def pageService : Service :=
  { plainService with
    factory := fun files siteDir _ => some fun name _ =>
      match files.readToString (joinPath siteDir ("templates/".toList ++ name)) with
      | none => .error .failed
      | some text => .ok text }

def pageConfig (template : Str) : Str :=
  "[[route]]\npath = \"/\"\ntemplate = \"".toList ++ template ++ "\"\n".toList

def pageDocument (template : Str) : List (Str × Toml) :=
  [("route".toList, .array [.table [("path".toList, .string "/".toList),
    ("template".toList, .string template)]])]

def pageDisk (template : Str) : Disk where
  files path :=
    if path = pageService.configPath then .contents (Utf8.encode (pageConfig template))
    else if path = "/srv/site/templates/".toList ++ template then .contents (Utf8.encode template)
    else .missing
  fileMtime _ := none
  newestMtimeUnder _ := none

def pageMachine : Platform :=
  fourCores (["old.html".toList, "new.html".toList].map fun t => (pageConfig t, pageDocument t))

def editedDisk : Disk :=
  { pageDisk "old.html".toList with
    files := fun path =>
      if path = "/srv/site/templates/old.html".toList then .contents (Utf8.encode "edited".toList)
      else (pageDisk "old.html".toList).files path }

def editedBetween : List AppEvent :=
  [.reload (pageDisk "old.html".toList) ⟨false, true⟩, .begin pageRequest,
    .reload editedDisk ⟨false, true⟩, .finish 0 pageSurroundings]

set_option maxRecDepth 8000 in
theorem settled_editedBetween :
    SettledRun pageMachine pageService noTransforms (.start plainLive) editedBetween := by
  refine .cons rfl (fun k now h => ?_) (.cons rfl (fun k now h => ?_) (.cons rfl (fun k now h => ?_)
    (.cons rfl (fun k now h p hp => ?_) trivial)))
  · cases h
  · cases h
  · cases h
  · cases h
    cases hp
    exact Or.inr (Or.inl rfl)

set_option maxRecDepth 8000 in
/-- A template is edited and reloaded between the locks. Routes and config are as they were, so the
request is settled: it is answered by the new state. -/
theorem edited_page : ∃ final,
    (Running.start plainLive).run pageMachine pageService noTransforms editedBetween = some final ∧
    (final.served.map fun s => (s.response.status, s.response.body)) =
      [(200, .bytes (Utf8.encode "edited".toList))] ∧
    ∀ s ∈ final.served, s.OfOne pageMachine pageService noTransforms :=
  ⟨_, rfl, rfl, one_generation _ _ _ plainLive editedBetween rfl settled_editedBetween⟩

def renamedBetween : List AppEvent :=
  [.reload (pageDisk "old.html".toList) ⟨false, true⟩, .begin pageRequest,
    .reload (pageDisk "new.html".toList) ⟨false, true⟩, .finish 0 pageSurroundings]

/-- The statuses of a run's responses, and what each state that was in force would have given. -/
def statuses (r : Running) : List (Nat × List Nat) :=
  r.served.map fun s => (s.response.status, s.seen.map fun g =>
    (handleRequest pageMachine pageService noTransforms g.shared g.inner s.now s.raw).status)

/-- The old route is rendered with the new templates: a 500 that neither state gives. -/
theorem reload_between : ∃ final,
    (Running.start plainLive).run pageMachine pageService noTransforms renamedBetween = some final ∧
    ¬ ∀ s ∈ final.served, s.OfOne pageMachine pageService noTransforms := by
  have hstatuses : ((Running.start plainLive).run pageMachine pageService noTransforms
      renamedBetween).map statuses = some [(500, [200, 200])] := by decide +kernel
  obtain ⟨final, hrun, hfinal⟩ := map_eq_some_iff.mp hstatuses
  refine ⟨final, hrun, fun hall => ?_⟩
  obtain ⟨s, rest, hserved, hs, -⟩ := List.map_eq_cons_iff.mp hfinal
  obtain ⟨g, hg, hresponse⟩ := hall s (hserved ▸ List.mem_cons_self)
  obtain ⟨hstatus, hseen⟩ := Prod.mk.inj hs
  have hmem := List.mem_map_of_mem (f := fun g => (handleRequest pageMachine pageService
    noTransforms g.shared g.inner s.now s.raw).status) hg
  rw [hseen] at hmem
  rw [← hresponse, hstatus] at hmem
  exact absurd hmem (by decide)

end M6.App
