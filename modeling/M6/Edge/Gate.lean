import M6.Edge.Config

/-!
# The edge's access check, over reloads

`auth.rs` and the request and reload paths of `main.rs` of `m6-http`. A request on a
route with a requirement is forwarded only when its token is accepted, and is never
answered from the cache. But the check runs only where a key is loaded: the route table,
the configuration and the key are replaced by reloads, and a reload can leave a protected
table without a key.

`KeepsKey` says which reloads do not, from the state before and the files that are read.
`gate_holds` is the result about whole histories: as long as every reload is such a one,
no request passes the gate without being authorised.
-/

namespace M6

open List Option

/-! ## Authorisation -/

/-- Whether claims satisfy a requirement. A requirement of no known form denies. -/
def checkRequire (claims : Claims) (require : Str) : Bool :=
  match Require.parse require with
  | some (.group name) => (claims.groups.getD []).contains name
  | some (.role name) => (claims.roles.getD []).contains name
  | none => false

def combinedCookieHeader (headers : List (Str × Str)) : Option Str :=
  match headers.filter fun h => Text.eqIgnoreAsciiCase h.1 "cookie".toList with
  | [] => none
  | fields => some ("; ".toList.intercalate (fields.map Prod.snd))

def namedCookie (name cookies : Str) : Option Str :=
  (cookies.splitOn ';').findSome? fun cookie =>
    (Text.stripPrefix (name ++ "=".toList) (Text.trim cookie)).bind fun val =>
      if Text.trim val ≠ [] then some (Text.trim val) else none

def extractToken (auth cookies : Option Str) : Option Str :=
  match (auth.bind (Text.stripPrefix "Bearer ".toList)).map Text.trim with
  | some (c :: token) => some (c :: token)
  | _ => cookies.bind (namedCookie "session".toList)

def extractRefreshCookie (cookies : Option Str) : Option Str :=
  cookies.bind (namedCookie "refresh".toList)

/-- Why a request is refused. -/
inductive Refusal where
  | noToken
  | invalid
  | insufficient
  deriving DecidableEq

def authorise (key : PublicKey) (now : Nat) (headers : List (Str × Str)) (require : Str) :
    Except Refusal Claims :=
  match extractToken (header headers "authorization".toList) (combinedCookieHeader headers) with
  | none => .error .noToken
  | some token =>
    match key.verify now token with
    | none => .error .invalid
    | some claims => if checkRequire claims require then .ok claims else .error .insufficient

def isBrowserRequest (accept : Option Str) : Bool :=
  (accept.map fun a => decide ("text/html".toList <:+: a)).getD false

/-! ## The server -/

inductive ErrorMode where
  | status
  | internal
  | custom (path : Str)
  deriving DecidableEq

def ErrorMode.fromConfig (errors : ErrorsConfig) : ErrorMode :=
  if errors.mode = "status".toList then .status
  else if errors.mode = "custom".toList then (errors.path.map .custom).getD .internal
  else .internal

/-- What reloads replace. -/
structure ServerState (m : RouteMatcher RouteEntry) where
  config : ServerConfig
  routeTable : RouteTable m
  publicKey : Option PublicKey
  errorMode : ErrorMode

def loadKey (disk : Disk) (config : ServerConfig) : Option PublicKey :=
  config.auth.bind fun a => disk.readKey (joinPath config.siteDir a.publicKey)

def startKey (disk : Disk) (config : ServerConfig) : Option (Option PublicKey) :=
  if config.auth.isSome then (loadKey disk config).map some else some none

/-- Start the server. It does not start on a configuration that is refused, a key that
cannot be read, or a route table that cannot be built. -/
def ServerState.start (m : RouteMatcher RouteEntry) (disk : Disk) (siteDir : Str) :
    Option (ServerState m) := do
  let config ← (load disk siteDir).toOption
  let publicKey ← startKey disk config
  let routeTable ← RouteTable.fromConfig m disk.glob config.toConfig
  return ⟨config, routeTable, publicKey, .fromConfig config.errors⟩

structure Change where
  /-- whether the site's file is among them -/
  site : Bool
  disk : Disk

def takeProcessOwned (running loaded : ServerConfig) : ServerConfig :=
  { running with
    auth := loaded.auth
    allowedMethods := loaded.allowedMethods
    health := { running.health with metricsRequire := loaded.health.metricsRequire } }

def reloadPublicKey (disk : Disk) (running : Option PublicKey) (new : ServerConfig) :
    Option PublicKey :=
  if new.auth.isSome then (loadKey disk new).or running else none

section

variable {m : RouteMatcher RouteEntry}

def handleConfigChange (state : ServerState m) (change : Change) : ServerState m :=
  match load change.disk state.config.siteDir with
  | .error _ => state
  | .ok loaded =>
    if change.site then
      match RouteTable.fromConfig m change.disk.glob loaded.toConfig with
      | none => state
      | some routeTable =>
        { config := loaded
          routeTable := routeTable
          publicKey := reloadPublicKey change.disk state.publicKey loaded
          errorMode := .fromConfig loaded.errors }
    else
      let new := takeProcessOwned state.config loaded
      { state with
        config := new
        publicKey := reloadPublicKey change.disk state.publicKey new }

def runChanges (state : ServerState m) (changes : List Change) : ServerState m :=
  changes.foldl handleConfigChange state

end

/-! ## Requests -/

structure EdgeRequest where
  request : RawRequest
  now : Nat
  /-- over a listener that is declared internal -/
  fromInternal : Bool

/-- What the cache answers for a request's key. -/
inductive Lookup where
  | miss
  | fresh
  | stale
  deriving DecidableEq

/-- A client's request: what decides about it before it is handled. -/
structure ClientRequest extends EdgeRequest where
  rateLimited : Bool
  /-- where a request for the `www` host is sent -/
  wwwRedirect : Option Str
  lookup : Lookup
  onlyIfCached : Bool
  inEarlyData : Bool

/-- What becomes of a request. -/
inductive Outcome where
  /-- answered on the spot, under a name -/
  | ready (status : Nat) (backend : Str)
  | redirect (status : Nat) (location : Str)
  /-- answered by the health, metrics or traffic path -/
  | monitor (backend : Str)
  /-- answered with an error; a custom page comes over a request of the server's own -/
  | error (status : Nat) (page : Option RouteEntry)
  | cached
  /-- sent to the route's backend, with the claims that were verified -/
  | forwarded (route : RouteEntry) (claims : Option Claims)
  deriving DecidableEq

/-- Whether the request got to a backend or to a cached response. -/
def Outcome.Reaches : Outcome → Prop
  | cached => True
  | forwarded _ _ => True
  | _ => False

def isRegisteredMethod (method : Str) : Bool :=
  ["GET".toList, "HEAD".toList, "POST".toList, "PUT".toList, "DELETE".toList, "CONNECT".toList,
    "OPTIONS".toList, "TRACE".toList, "PATCH".toList].contains method

def methodMayReadCache (method : Str) : Bool := method == "GET".toList || method == "HEAD".toList

def refusesCustomErrorPath (mode : ErrorMode) (path : Str) (fromInternal : Bool) : Bool :=
  mode == .custom path && !fromInternal

section

variable {m : RouteMatcher RouteEntry} (state : ServerState m)

def trailingSlashRedirect (path : Str) : Option Str :=
  if path = "/".toList then none
  else
    let toggled := if path.getLast? = some '/' then path.dropLast else path ++ "/".toList
    if (state.routeTable.routeAt toggled).isSome then some toggled else none

def errorPage (path : Str) : Option RouteEntry :=
  match state.errorMode with
  | .custom errorPath => if path = errorPath then none else state.routeTable.routeAt errorPath
  | _ => none

def routeMissing (req : RawRequest) : Outcome :=
  match trailingSlashRedirect state req.path with
  | some canonical =>
    .redirect 301 (canonical ++ ((req.query.map fun q => '?' :: q).getD []))
  | none => .error 404 (errorPage state req.path)

def refuse (req : RawRequest) : Refusal → Outcome
  | .noToken =>
    if isBrowserRequest (req.header "accept".toList) then
      .redirect 302 (if (extractRefreshCookie (combinedCookieHeader req.headers)).isSome
        then "/auth/refresh".toList else "/login?next=".toList ++ urlEncodePath req.path)
    else .error 401 (errorPage state req.path)
  | .invalid => .error 401 (errorPage state req.path)
  | .insufficient => .error 403 (errorPage state req.path)

def routeFound (a : EdgeRequest) (route : RouteEntry) : Outcome :=
  match route.require with
  | none => .forwarded route none
  | some require =>
    match state.publicKey with
    | none => .forwarded route none
    | some key =>
      match authorise key a.now a.request.headers require with
      | .error refusal => refuse state a.request refusal
      | .ok claims => .forwarded route (some claims)

def handleRequest (a : EdgeRequest) : Outcome :=
  let path := a.request.path
  let health := state.config.health
  if !state.config.allowedMethods.contains a.request.method then
    .ready (if isRegisteredMethod a.request.method then 405 else 501) "method-check".toList
  else if health.enabled ∧ path = health.path then .monitor "health".toList
  else if health.enabled ∧ path = health.perfPath then .monitor "perf".toList
  else if health.enabled ∧ path = health.trafficPath then .monitor "perf".toList
  else if refusesCustomErrorPath state.errorMode path a.fromInternal then
    .error 404 (errorPage state path)
  else
    match state.routeTable.routeAt path with
    | none => routeMissing state a.request
    | some route => routeFound state a route

def serveClient (a : ClientRequest) : Outcome :=
  if a.rateLimited then .ready 429 "rate-limit".toList
  else
    match a.wwwRedirect with
    | some location => .redirect 301 location
    | none =>
      let cacheable :=
        !state.routeTable.requiresAuth a.request.path && methodMayReadCache a.request.method
      let lookedUp := if cacheable then a.lookup else .miss
      if a.onlyIfCached ∧ lookedUp = .miss then .ready 504 "cache".toList
      else if a.inEarlyData ∧ lookedUp ≠ .fresh then .ready 425 "cache".toList
      else if lookedUp ≠ .miss then .cached
      else handleRequest state a.toEdgeRequest

end

/-! ## One request -/

section

variable {m : RouteMatcher RouteEntry} {state : ServerState m}

theorem not_reaches_refuse (req : RawRequest) (refusal : Refusal) :
    ¬ (refuse state req refusal).Reaches := by
  cases refusal with
  | noToken =>
    rw [refuse]
    split_ifs <;> exact id
  | invalid | insufficient => exact id

theorem authorise_of_routeFound {a : EdgeRequest} {route : RouteEntry} {require : Str}
    {key : PublicKey} (hreq : route.require = some require) (hkey : state.publicKey = some key)
    (h : (routeFound state a route).Reaches) :
    ∃ claims, authorise key a.now a.request.headers require = .ok claims := by
  rw [routeFound, hreq, hkey] at h
  dsimp only at h
  cases hauth : authorise key a.now a.request.headers require with
  | error refusal =>
    rw [hauth] at h
    exact (not_reaches_refuse _ _ h).elim
  | ok claims => exact ⟨claims, rfl⟩

theorem reaches_handleRequest {a : EdgeRequest} {route : RouteEntry}
    (hroute : state.routeTable.routeAt a.request.path = some route)
    (h : (handleRequest state a).Reaches) : (routeFound state a route).Reaches := by
  rw [handleRequest, hroute] at h
  -- the local answers, in the order in which they are tried
  split at h
  · exact h.elim
  split at h
  · exact h.elim
  split at h
  · exact h.elim
  split at h
  · exact h.elim
  split at h
  · exact h.elim
  · exact h

theorem reaches_serve {a : ClientRequest}
    (hauth : state.routeTable.requiresAuth a.request.path = true)
    (h : (serveClient state a).Reaches) : (handleRequest state a.toEdgeRequest).Reaches := by
  have hmiss : (if (!state.routeTable.requiresAuth a.request.path &&
      methodMayReadCache a.request.method) = true then a.lookup else .miss) = Lookup.miss := by
    rw [hauth]
    exact if_neg Bool.false_ne_true
  rw [serveClient] at h
  cases hwww : a.wwwRedirect with
  | some location =>
    rw [hwww] at h
    split_ifs at h
    · exact h.elim
    · exact h.elim
  | none =>
    rw [hwww] at h
    simp only [hmiss] at h
    split_ifs at h with h₁ h₂ h₃ h₄
    · exact h.elim
    · exact h.elim
    · exact h.elim
    · exact absurd rfl h₄
    · exact h

end

/-! ## The gate -/

section

variable {m : RouteMatcher RouteEntry}

def ConfiguredKey (siteDir : Str) (disk : Disk) (key : PublicKey) : Prop :=
  ∃ config, load disk siteDir = .ok config ∧ loadKey disk config = some key

/-- The gate: a request on a route with a requirement reaches a backend or a cached
response only if it is authorised under one of some keys. The server's own refreshes are
requests that are handled without being served. -/
def Guarded (state : ServerState m) (keys : PublicKey → Prop) : Prop :=
  ∀ (a : ClientRequest) (route : RouteEntry) (require : Str),
    state.routeTable.routeAt a.request.path = some route → route.require = some require →
      (serveClient state a).Reaches ∨ (handleRequest state a.toEdgeRequest).Reaches →
        ∃ key, keys key ∧ ∃ claims, authorise key a.now a.request.headers require = .ok claims

/-- What keeps the gate closed. -/
structure Keyed (siteDir : Str) (state : ServerState m) (keys : PublicKey → Prop) : Prop where
  siteDir_eq : state.config.siteDir = siteDir
  key_of_protected : state.routeTable.hasProtectedRoutes = true → state.publicKey.isSome
  keys_publicKey : ∀ key, state.publicKey = some key → keys key

variable {state : ServerState m} {siteDir : Str}

theorem Keyed.guarded {keys : PublicKey → Prop}
    (h : Keyed siteDir state keys) : Guarded state keys := by
  intro a route require hroute hreq hreaches
  have hauth : state.routeTable.requiresAuth a.request.path = true :=
    requiresAuth_iff.mpr ⟨route, hroute, by rw [hreq]; rfl⟩
  have hprotected : state.routeTable.hasProtectedRoutes = true := by
    rw [RouteTable.requiresAuth, Bool.and_eq_true] at hauth
    exact hauth.1
  obtain ⟨key, hkey⟩ := isSome_iff_exists.mp (h.key_of_protected hprotected)
  have hhandled : (handleRequest state a.toEdgeRequest).Reaches :=
    hreaches.elim (reaches_serve hauth) id
  exact ⟨key, h.keys_publicKey key hkey,
    authorise_of_routeFound hreq hkey (reaches_handleRequest hroute hhandled)⟩

/-- The changes that keep it so. A change of the site's file that brings a protected table
finds a key that can be read, or one is loaded already. Any other change that takes effect
on a protected table finds files that still name a key. -/
def KeepsKey (state : ServerState m) (change : Change) : Prop :=
  ∀ loaded, load change.disk state.config.siteDir = .ok loaded →
    (change.site = true → ∀ table,
      RouteTable.fromConfig m change.disk.glob loaded.toConfig = some table →
        table.hasProtectedRoutes = true →
          (loadKey change.disk loaded).isSome ∨ state.publicKey.isSome) ∧
    (change.site = false → state.routeTable.hasProtectedRoutes = true → loaded.auth.isSome)

/-! ### Reloads -/

theorem handleConfigChange_cases (state : ServerState m) (change : Change) :
    handleConfigChange state change = state ∨
      ∃ loaded, load change.disk state.config.siteDir = .ok loaded ∧ ((change.site = true ∧ ∃ table,
            RouteTable.fromConfig m change.disk.glob loaded.toConfig = some table ∧
            handleConfigChange state change =
              ⟨loaded, table, reloadPublicKey change.disk state.publicKey loaded,
                .fromConfig loaded.errors⟩) ∨ (change.site = false ∧
            handleConfigChange state change =
              { state with
                config := takeProcessOwned state.config loaded
                publicKey := reloadPublicKey change.disk state.publicKey
                  (takeProcessOwned state.config loaded) })) := by
  rw [handleConfigChange]
  cases hload : load change.disk state.config.siteDir with
  | error e => exact .inl rfl
  | ok loaded =>
    dsimp only
    cases hsite : change.site with
    | false => exact .inr ⟨loaded, rfl, .inr ⟨rfl, rfl⟩⟩
    | true =>
      cases htable : RouteTable.fromConfig m change.disk.glob loaded.toConfig with
      | none => exact .inl rfl
      | some table => exact .inr ⟨loaded, rfl, .inl ⟨rfl, table, htable, rfl⟩⟩

variable {disk : Disk}

theorem reloadPublicKey_some {running : Option PublicKey} {new : ServerConfig}
    {key : PublicKey} (h : reloadPublicKey disk running new = some key) :
    loadKey disk new = some key ∨ running = some key := by
  rw [reloadPublicKey] at h
  split_ifs at h
  obtain h | ⟨-, h⟩ := or_eq_some_iff.mp h
  · exact .inl h
  · exact .inr h

theorem loadKey_takeProcessOwned {running loaded : ServerConfig}
    (h : running.siteDir = loaded.siteDir) :
    loadKey disk (takeProcessOwned running loaded) = loadKey disk loaded := by
  rw [loadKey, loadKey, takeProcessOwned, h]

theorem isSome_reloadPublicKey {running : Option PublicKey} {new : ServerConfig}
    (hauth : new.auth.isSome) (h : (loadKey disk new).isSome ∨ running.isSome) :
    (reloadPublicKey disk running new).isSome := by
  rw [reloadPublicKey, if_pos hauth, isSome_or, Bool.or_eq_true]
  exact h

theorem Keyed.step {keys : PublicKey → Prop}
    {change : Change} (h : Keyed siteDir state keys) (hkeeps : KeepsKey state change) :
    Keyed siteDir (handleConfigChange state change)
      (fun key => keys key ∨ ConfiguredKey siteDir change.disk key) := by
  obtain hsame | ⟨loaded, hload, ⟨hsite, table, htable, hnew⟩ | ⟨hsite, hnew⟩⟩ :=
    handleConfigChange_cases state change
  · rw [hsame]
    exact ⟨h.siteDir_eq, h.key_of_protected, fun key hkey => .inl (h.keys_publicKey key hkey)⟩
  · have hload' : load change.disk siteDir = .ok loaded := by rw [← h.siteDir_eq, hload]
    have haccepted := load_ok hload'
    rw [hnew]
    refine ⟨haccepted.siteDir_eq, fun hprotected => ?_, fun key hkey => ?_⟩
    · exact isSome_reloadPublicKey (auth_of_protected haccepted htable hprotected)
        ((hkeeps loaded hload).1 hsite table htable hprotected)
    · obtain hread | hrunning := reloadPublicKey_some hkey
      · exact .inr ⟨loaded, hload', hread⟩
      · exact .inl (h.keys_publicKey key hrunning)
  · have hload' : load change.disk siteDir = .ok loaded := by rw [← h.siteDir_eq, hload]
    have hdir : state.config.siteDir = loaded.siteDir := by
      rw [h.siteDir_eq, (load_ok hload').siteDir_eq]
    rw [hnew]
    refine ⟨h.siteDir_eq, fun hprotected => ?_, fun key hkey => ?_⟩
    · exact isSome_reloadPublicKey ((hkeeps loaded hload).2 hsite hprotected)
        (.inr (h.key_of_protected hprotected))
    · obtain hread | hrunning := reloadPublicKey_some hkey
      · rw [loadKey_takeProcessOwned hdir] at hread
        exact .inr ⟨loaded, hload', hread⟩
      · exact .inl (h.keys_publicKey key hrunning)

theorem Keyed.start (h : ServerState.start m disk siteDir = some state) :
    Keyed siteDir state (ConfiguredKey siteDir disk) := by
  obtain ⟨config, hload, h⟩ := bind_eq_some_iff.mp h
  obtain ⟨publicKey, hkey, h⟩ := bind_eq_some_iff.mp h
  obtain ⟨table, htable, h⟩ := bind_eq_some_iff.mp h
  cases h
  have hload' : load disk siteDir = .ok config := by
    cases hl : load disk siteDir with
    | error e =>
      rw [hl] at hload
      cases hload
    | ok c =>
      rw [hl] at hload
      rw [some.inj hload]
  have haccepted := load_ok hload'
  refine ⟨haccepted.siteDir_eq, fun hprotected => ?_, ?_⟩
  · rw [startKey, if_pos (auth_of_protected haccepted htable hprotected)] at hkey
    obtain ⟨key, -, rfl⟩ := map_eq_some_iff.mp hkey
    rfl
  · rintro key rfl
    rw [startKey] at hkey
    split_ifs at hkey
    · obtain ⟨key', hread, heq⟩ := map_eq_some_iff.mp hkey
      cases heq
      exact ⟨config, hload', hread⟩
    · cases hkey

/-! ### Histories -/

def KeepsKeys (state : ServerState m) (changes : List Change) : Prop :=
  ∀ before change after, changes = before ++ change :: after →
    KeepsKey (runChanges state before) change

def EverConfigured (siteDir : Str) (disk : Disk) (changes : List Change) (key : PublicKey) : Prop :=
  ∃ d ∈ disk :: changes.map Change.disk, ConfiguredKey siteDir d key

theorem Keyed.run (hstart : ServerState.start m disk siteDir = some state) {changes : List Change}
    (hkeeps : KeepsKeys state changes) :
    Keyed siteDir (runChanges state changes) (EverConfigured siteDir disk changes) := by
  -- by induction from the end: the last change is applied to what the others left
  induction changes using reverseRecOn with
  | nil =>
    have h := Keyed.start hstart
    exact ⟨h.siteDir_eq, h.key_of_protected, fun key hkey =>
      ⟨disk, mem_cons_self .., h.keys_publicKey key hkey⟩⟩
  | append_singleton changes change ih =>
    have hbefore : KeepsKeys state changes := by
      intro before c after hsplit
      refine hkeeps before c (after ++ [change]) ?_
      rw [hsplit, append_assoc, cons_append]
    have hstep := (ih hbefore).step (hkeeps changes change [] rfl)
    have hrun : runChanges state (changes ++ [change]) =
        handleConfigChange (runChanges state changes) change := by
      rw [runChanges, foldl_append]
      rfl
    rw [hrun]
    refine ⟨hstep.siteDir_eq, hstep.key_of_protected, fun key hkey => ?_⟩
    obtain ⟨d, hd, hkey⟩ | hkey := hstep.keys_publicKey key hkey
    · refine ⟨d, ?_, hkey⟩
      rw [map_append, ← cons_append]
      exact mem_append_left _ hd
    · refine ⟨change.disk, ?_, hkey⟩
      rw [map_append, ← cons_append]
      exact mem_append_right _ (mem_singleton.mpr rfl)

/-- **The gate fails closed.** From every start, along every history of changes that keep
the key, in every state that is reached, a request on a protected route reaches a backend
or a cached response only if it is authorised under a key that was configured by then. -/
theorem gate_holds {siteDir : Str} {disk : Disk} {state : ServerState m}
    (hstart : ServerState.start m disk siteDir = some state) {changes : List Change}
    (hkeeps : KeepsKeys state changes) (before after : List Change)
    (hsplit : changes = before ++ after) :
    Guarded (runChanges state before) (EverConfigured siteDir disk before) := by
  refine (Keyed.run hstart fun b c a hb => ?_).guarded
  refine hkeeps b c (a ++ after) ?_
  rw [hsplit, hb, append_assoc, cons_append]

end

/-! ## A site with a staff page -/

/-- The files of a site with one page for the staff, or for everyone, and the key that can
be read. With `clashing` the routes are such that no table can be built. -/
def adminDisk (isProtected : Bool) (key : Option PublicKey) (clashing : Bool) : Disk where
  parsed := .ok (
    { allowedMethods := none
      backends := ["web".toList]
      routes :=
        ⟨"/admin".toList, "web".toList, if isProtected then some "group:staff".toList else none⟩ ::
          if clashing then [⟨"/\x7ba\x7d".toList, "web".toList, none⟩,
            ⟨"/\x7bb\x7d".toList, "web".toList, none⟩] else []
      routeGroups := []
      auth := none
      health := ⟨true, "/health".toList, "/perf".toList, "/traffic".toList, none⟩
      errors := ⟨"internal".toList, none⟩ },
    { allowedMethods := none
      auth := if isProtected then some ⟨none, "key.pem".toList⟩ else none
      metricsRequire := none })
  fileExists _ := true
  readKey _ := key
  glob _ := some []

def adminRoute : RouteEntry := ⟨"/admin".toList, "web".toList, some "group:staff".toList⟩

def staffKey : PublicKey where
  verify _ token := if token = "staff".toList
    then some ⟨none, none, none, some ["staff".toList], none⟩ else none

def strangerRequest : ClientRequest where
  request := ⟨"GET".toList, "/admin".toList, none, "HTTP/1.1".toList, [], []⟩
  now := 0
  fromInternal := false
  rateLimited := false
  wwwRedirect := none
  lookup := .miss
  onlyIfCached := false
  inEarlyData := false

theorem gate_holds_admin :
    ∃ state, ServerState.start (RouteMatcher.listMatcher RouteEntry) (adminDisk false none false)
        "/site".toList = some state ∧
      Guarded (runChanges state [⟨true, adminDisk true (some staffKey) false⟩])
        (EverConfigured "/site".toList (adminDisk false none false)
          [⟨true, adminDisk true (some staffKey) false⟩]) := by
  have hsome : (ServerState.start (RouteMatcher.listMatcher RouteEntry)
      (adminDisk false none false) "/site".toList).isSome := by decide
  have hkey : (load (adminDisk true (some staffKey) false) "/site".toList).toOption.map
      (fun c => (loadKey (adminDisk true (some staffKey) false) c).isSome) = some true := by
    decide
  obtain ⟨state, hstart⟩ := isSome_iff_exists.mp hsome
  refine ⟨state, hstart, gate_holds hstart ?_ _ [] (append_nil _).symm⟩
  intro before change after hsplit loaded hload
  obtain ⟨rfl, hrest⟩ | ⟨rest, rfl, hrest⟩ := cons_eq_append_iff.mp hsplit
  · obtain ⟨rfl, rfl⟩ := List.cons.inj hrest
    refine ⟨fun _ table _ _ => .inl ?_, fun h => by cases h⟩
    have hload' : load (adminDisk true (some staffKey) false) "/site".toList = .ok loaded := by
      rw [← (Keyed.start hstart).siteDir_eq]
      exact hload
    rw [hload'] at hkey
    exact some.inj hkey
  · exact (cons_ne_nil _ _ (append_eq_nil_iff.mp hrest.symm).2).elim

theorem not_guarded_of_stranger {m : RouteMatcher RouteEntry} {state : ServerState m}
    {keys : PublicKey → Prop} (hroute : state.routeTable.routeAt "/admin".toList = some adminRoute)
    (h : serveClient state strangerRequest = .forwarded adminRoute none) :
    ¬ Guarded state keys := by
  intro hguarded
  obtain ⟨key, -, claims, hauth⟩ := hguarded strangerRequest adminRoute _ hroute rfl
    (.inl (by rw [h]; trivial))
  cases hauth

/-- Two histories that leave the page open. In the first, the site gets a protected page
and a key whose file is there but cannot be read as a key. In the second, a change of the
site's file takes the protection and the key away but is refused for its routes; then a
change of the system's file takes the key alone. -/
theorem gate_left_open :
    (∃ state, ServerState.start (RouteMatcher.listMatcher RouteEntry) (adminDisk false none false)
        "/site".toList = some state ∧
      ¬ Guarded (runChanges state [⟨true, adminDisk true none false⟩])
        (EverConfigured "/site".toList (adminDisk false none false)
          [⟨true, adminDisk true none false⟩])) ∧
    (∃ state, ServerState.start (RouteMatcher.listMatcher RouteEntry)
        (adminDisk true (some staffKey) false) "/site".toList = some state ∧
      ¬ Guarded (runChanges state
          [⟨true, adminDisk false none true⟩, ⟨false, adminDisk false none true⟩])
        (EverConfigured "/site".toList (adminDisk true (some staffKey) false)
          [⟨true, adminDisk false none true⟩, ⟨false, adminDisk false none true⟩])) := by
  have hfirst : (ServerState.start (RouteMatcher.listMatcher RouteEntry)
      (adminDisk false none false) "/site".toList).map (fun s =>
        let after := runChanges s [⟨true, adminDisk true none false⟩]
        (after.routeTable.routeAt "/admin".toList, serveClient after strangerRequest)) =
      some (some adminRoute, .forwarded adminRoute none) := by decide
  have hsecond : (ServerState.start (RouteMatcher.listMatcher RouteEntry)
      (adminDisk true (some staffKey) false) "/site".toList).map (fun s =>
        let after := runChanges s
          [⟨true, adminDisk false none true⟩, ⟨false, adminDisk false none true⟩]
        (after.routeTable.routeAt "/admin".toList, serveClient after strangerRequest)) =
      some (some adminRoute, .forwarded adminRoute none) := by decide
  obtain ⟨s₁, hs₁, h₁⟩ := map_eq_some_iff.mp hfirst
  obtain ⟨s₂, hs₂, h₂⟩ := map_eq_some_iff.mp hsecond
  obtain ⟨hroute₁, hserve₁⟩ := Prod.mk.inj h₁
  obtain ⟨hroute₂, hserve₂⟩ := Prod.mk.inj h₂
  exact ⟨⟨s₁, hs₁, not_guarded_of_stranger hroute₁ hserve₁⟩,
    ⟨s₂, hs₂, not_guarded_of_stranger hroute₂ hserve₂⟩⟩

end M6
