import M6.Edge.Router

/-!
# Loading the edge's configuration

`config.rs` of `m6-http`: the site's file and the system's file are read, merged and
checked. Only what routing, access and the order of a request's checks depend on is kept.
The sections that come before (binds, certificates, names) are checked as part of reading
the files, which is a function of the disk.

`load_ok` says what an accepted configuration promises: a requirement on a route or a
route group comes with a section that names the key.
-/

namespace M6

/-! ## The two files -/

structure HealthConfig where
  enabled : Bool
  path : Str
  perfPath : Str
  trafficPath : Str
  metricsRequire : Option Str
  deriving DecidableEq

structure ErrorsConfig where
  mode : Str
  path : Option Str
  deriving DecidableEq

/-- The site's file, with its defaults filled in. -/
structure RawSiteToml where
  allowedMethods : Option (List Str)
  backends : List Str
  routes : List RouteConfig
  routeGroups : List RouteGroupConfig
  auth : Option AuthConfig
  health : HealthConfig
  errors : ErrorsConfig

structure RawSystemToml where
  allowedMethods : Option (List Str)
  auth : Option AuthConfig
  metricsRequire : Option Str

/-- The configuration that the server runs with. -/
structure ServerConfig extends Config where
  allowedMethods : List Str
  health : HealthConfig
  errors : ErrorsConfig
  deriving DecidableEq

/-- A claim list and the name that must be in it. -/
inductive Require where
  | role (name : Str)
  | group (name : Str)
  deriving DecidableEq

def Require.parse (require : Str) : Option Require :=
  match Text.stripPrefix "group:".toList require with
  | some name => some (.group name)
  | none => (Text.stripPrefix "role:".toList require).map .role

def Require.name : Require → Str
  | role name => name
  | group name => name

/-! ## Checks -/

def ensure (condition : Prop) [Decidable condition] (message : Str) : Except Str Unit :=
  if condition then .ok () else .error ("config error: ".toList ++ message)

def checkRoutes (backends : List Str) : List Str → List RouteConfig → Except Str Unit
  | _, [] => .ok ()
  | seen, route :: rest => do
    ensure (route.path ≠ []) "route missing `path`".toList
    ensure (route.backend ≠ [])
      ("route at ".toList ++ route.path ++ " missing `backend`".toList)
    ensure (backends.contains route.backend) ("route ".toList ++ route.path ++
      " references unknown backend `".toList ++ route.backend ++ "`".toList)
    ensure (!seen.contains route.path) ("duplicate route path `".toList ++ route.path ++ "`".toList)
    checkRoutes backends (route.path :: seen) rest

def checkRouteGroup (backends : List Str) (rg : RouteGroupConfig) : Except Str Unit :=
  ensure (backends.contains rg.backend) ("route_group ".toList ++ rg.path ++
    " references unknown backend `".toList ++ rg.backend ++ "`".toList)

/-- The section that names the key, from the one file that has it. -/
def mergeAuth (site system : Option AuthConfig) : Except Str (Option AuthConfig) :=
  match site, system with
  | some _, some _ =>
      .error ("config error: [auth] is declared in both site.toml and the ".toList ++
      "system config; declare it in one".toList)
  | none, some a => .ok (some a)
  | site, none => .ok site

def checkRequireHasAuth (auth : Option AuthConfig) (kind path : Str) (require : Option Str) :
    Except Str Unit :=
  ensure (require.isSome → auth.isSome)
    (kind ++ ' ' :: path ++ " has `require` but no [auth] declared".toList)

def checkMetricsRequire (auth : Option AuthConfig) : Option Str → Except Str Unit
  | none => .ok ()
  | some r => do
    ensure auth.isSome "[health].metrics_require needs [auth] with a public_key".toList
    ensure (∃ parsed ∈ Require.parse r, parsed.name ≠ [])
      ("[health].metrics_require = \"".toList ++ r ++
        "\" must be \"role:<name>\" or \"group:<name>\"".toList)

def mergeMethods (site system : Option (List Str)) : List Str :=
  let methods := (system.or site).getD ["GET".toList, "HEAD".toList, "POST".toList]
  (methods.map fun m => (Text.trim m).map Char.toUpper).filter fun m => m ≠ []

/-! ## The disk -/

/-- The claims of a token that the edge looks at. -/
structure Claims where
  sub : Option Str
  iss : Option Str
  exp : Option Nat
  groups : Option (List Str)
  roles : Option (List Str)
  deriving DecidableEq

structure PublicKey where
  verify : Nat → Str → Option Claims

/-- What a load finds on the disk. The key's file may exist and not be readable as a key. -/
structure Disk where
  /-- both files, read and parsed; one file in both roles keeps its sections as the site's -/
  parsed : Except Str (RawSiteToml × RawSystemToml)
  fileExists : Str → Bool
  readKey : Str → Option PublicKey
  glob : Glob

/-- The section that names the key: its file is there, and its backend is known. -/
def checkAuth (disk : Disk) (siteDir : Str) (backends : List Str) :
    Option AuthConfig → Except Str Unit
  | none => .ok ()
  | some a => do
    ensure (disk.fileExists (joinPath siteDir a.publicKey))
      ("[auth].public_key file not found: ".toList ++ joinPath siteDir a.publicKey)
    match a.backend with
    | none => .ok ()
    | some b =>
      ensure (backends.contains b)
        ("[auth].backend `".toList ++ b ++ "` not in [[backend]]".toList)

def load (disk : Disk) (siteDir : Str) : Except Str ServerConfig := do
  let (site, system) ← disk.parsed
  checkRoutes site.backends [] site.routes
  site.routeGroups.forM (checkRouteGroup site.backends)
  let auth ← mergeAuth site.auth system.auth
  checkAuth disk siteDir site.backends auth
  site.routes.forM fun r => checkRequireHasAuth auth "route".toList r.path r.require
  site.routeGroups.forM fun rg => checkRequireHasAuth auth "route_group".toList rg.path rg.require
  let health :=
    { site.health with metricsRequire := system.metricsRequire.or site.health.metricsRequire }
  checkMetricsRequire auth health.metricsRequire
  ensure (¬ (site.errors.mode = "custom".toList ∧ site.errors.path = none))
    "[errors] mode = \"custom\" requires `path`".toList
  return {
    siteDir := siteDir
    backends := site.backends
    routes := site.routes
    routeGroups := site.routeGroups
    auth := auth
    allowedMethods := mergeMethods site.allowedMethods system.allowedMethods
    health := health
    errors := site.errors }

/-! ## What is accepted -/

theorem bind_ok {α β : Type} {x : Except Str α} {f : α → Except Str β} {b : β}
    (h : (x >>= f) = .ok b) : ∃ a, x = .ok a ∧ f a = .ok b := by
  cases x with
  | error e => cases h
  | ok a => exact ⟨a, rfl, h⟩

theorem forM_ok {α : Type} {f : α → Except Str Unit} {l : List α} (h : l.forM f = .ok ())
    {x : α} (hx : x ∈ l) : f x = .ok () := by
  induction l with
  | nil => cases hx
  | cons y l ih =>
    obtain ⟨_, hy, hrest⟩ := bind_ok h
    obtain rfl | hx := List.mem_cons.mp hx
    · exact hy
    · exact ih hrest hx

theorem ensure_ok {condition : Prop} [Decidable condition] {message : Str}
    (h : ensure condition message = .ok ()) : condition := by
  rw [ensure] at h
  split_ifs at h with hc
  exact hc

/-- An accepted configuration is one of its directory, and names a key where it has a
requirement. -/
structure Accepted (siteDir : Str) (config : ServerConfig) : Prop where
  siteDir_eq : config.siteDir = siteDir
  routes : ∀ r ∈ config.routes, r.require.isSome → config.auth.isSome
  routeGroups : ∀ rg ∈ config.routeGroups, rg.require.isSome → config.auth.isSome

theorem load_ok {disk : Disk} {siteDir : Str} {config : ServerConfig}
    (h : load disk siteDir = .ok config) : Accepted siteDir config := by
  unfold load at h
  obtain ⟨⟨site, system⟩, -, h⟩ := bind_ok h
  obtain ⟨-, -, h⟩ := bind_ok h
  obtain ⟨-, -, h⟩ := bind_ok h
  obtain ⟨auth, -, h⟩ := bind_ok h
  obtain ⟨-, -, h⟩ := bind_ok h
  obtain ⟨_, hroutes, h⟩ := bind_ok h
  obtain ⟨_, hgroups, h⟩ := bind_ok h
  obtain ⟨-, -, h⟩ := bind_ok h
  obtain ⟨-, -, h⟩ := bind_ok h
  cases h
  exact ⟨rfl, fun r hr => ensure_ok (forM_ok hroutes hr), fun rg hrg =>
    ensure_ok (forM_ok hgroups hrg)⟩

section

variable {m : RouteMatcher RouteEntry}

theorem auth_of_protected {glob : Glob} {siteDir : Str} {config : ServerConfig}
    (hconfig : Accepted siteDir config) {table : RouteTable m}
    (htable : RouteTable.fromConfig m glob config.toConfig = some table)
    (hprotected : table.hasProtectedRoutes = true) : config.auth.isSome := by
  rw [table.hasProtectedRoutes_eq] at hprotected
  obtain ⟨e, he, hreq⟩ := List.any_eq_true.mp hprotected
  obtain he | he := mem_entries_fromConfig htable he
  · obtain ⟨r, hr, rfl⟩ := List.mem_map.mp he
    exact hconfig.routes r hr hreq
  · obtain ⟨rg, hrg, he⟩ := List.mem_flatMap.mp he
    obtain ⟨file, -, hfile⟩ := List.mem_filterMap.mp he
    obtain ⟨name, -, rfl⟩ := Option.map_eq_some_iff.mp hfile
    exact hconfig.routeGroups rg hrg hreq

end

end M6
