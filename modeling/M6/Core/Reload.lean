import M6.Core.Config

/-!
# Reloading a service

`FrameworkState::build` and the `reload` closure of `app.rs`. A running service reads its config,
its secrets and `site.toml` again, and either installs a state built from them or keeps the one it
has.

`reload_iff`: a reload is all or nothing exactly if the configured numbers it comes to use fit.
The size of the thread pool is multiplied although a reload does not change the pool, and the size
of the params cache is allocated at once; neither is checked, and where it does not fit the process
ends.
-/

namespace M6.App

open Option

/-! ## The state -/

inductive RenderError where
  | notFound
  | failed
  deriving DecidableEq

/-- The templates of a site: what a template gives in a dictionary. -/
abbrev Renderer : Type := Str → Dict → Except RenderError Str

structure AppRoute extends CompiledRoute where
  template : Option Str
  status : Nat
  cache : Str
  headers : List (Str × Str)
  /-- when the inputs of the page last changed, in seconds -/
  lastModified : Option Nat
  handler : Option Str

/-- What requests are served under. -/
structure AppState where
  config : RendererConfig
  siteDir : Str
  routes : List AppRoute
  /-- how many params files the cache holds -/
  cacheCapacity : Nat
  renderer : Renderer
  flashSecret : Bytes

structure Service where
  siteDir : Str
  configPath : Str
  /-- the `site.toml` of the config it was started with -/
  siteToml : Str
  backendName : Str
  codeRoutes : List (Str × RouteMethod)
  /-- the names of the handlers registered in code -/
  named : List Str
  /-- read the templates of a site from the disk -/
  factory : Files → Str → List Str → Option Renderer
  /-- whether it is built with the `csrf` feature -/
  csrf : Bool
  /-- whether it is built with the `flash` feature -/
  flash : Bool
  unicode : Unicode
  cliLogLevel : Option Str
  /-- whether the hook takes a new config -/
  onReload : Option (DictMap → Bool)

structure Disk where
  files : Files
  /-- `file_mtime` -/
  fileMtime : Str → Option Nat
  /-- `newest_mtime_under` -/
  newestMtimeUnder : Str → Option Nat

/-! ## Building a state -/

/-- Why a state is not built. -/
inductive BuildError where
  | renderer
  | reading (path : Str)
  | parsing (path : Str)
  | flashSecret

def readParams (codec : Codec) (files : Files) (path : Str) : Except BuildError (Option DictMap) :=
  match files path with
  | .missing => .ok none
  | .unreadable => .error (.reading path)
  | .contents data =>
    match codec.jsonFromSlice data with
    | none => .error (.parsing path)
    | some (.object obj) => .ok (some (SortedMap.empty.insertAll obj))
    | some _ => .ok (some .empty)

def loadGlobalParams (codec : Codec) (files : Files) (siteDir : Str) :
    List Str → DictMap → Except BuildError DictMap
  | [], data => .ok data
  | path :: rest, data => do
    let m ← readParams codec files (joinPath siteDir path)
    loadGlobalParams codec files siteDir rest (data.insertAll ((m.map SortedMap.entries).getD []))

def loadStaticParams (codec : Codec) (files : Files) (siteDir : Str) :
    List Str → SortedMap Str DictMap → Except BuildError (SortedMap Str DictMap)
  | [], loaded => .ok loaded
  | pf :: rest, loaded =>
    if '{' ∈ pf ∨ (loaded.get? pf).isSome then loadStaticParams codec files siteDir rest loaded
    else do
      let m ← readParams codec files (joinPath siteDir pf)
      loadStaticParams codec files siteDir rest ((m.map (loaded.insert pf)).getD loaded)

/-- What is read before the cache is made. -/
structure Inputs where
  renderer : Renderer
  globalParams : DictMap
  staticParams : SortedMap Str DictMap

def readInputs (os : Platform) (disk : Disk) (svc : Service) (config : RendererConfig) :
    Except BuildError Inputs := do
  let renderer ←
    match svc.factory disk.files svc.siteDir (config.routes.filterMap RouteConfig.template) with
    | none => .error .renderer
    | some renderer => .ok renderer
  let globalParams ←
    loadGlobalParams os.codec disk.files svc.siteDir config.globalParams .empty
  let staticParams ← loadStaticParams os.codec disk.files svc.siteDir
    (config.routes.flatMap RouteConfig.params) .empty
  return ⟨renderer, globalParams, staticParams⟩

/-- The part of the dictionary that is the same for every request on a route: config keys, global
params, and the static params files that are not global. -/
def baseDict (config : RendererConfig) (inputs : Inputs) (paramsFiles : List Str) : DictMap :=
  let files := paramsFiles.filter fun pf => '{' ∉ pf ∧ pf ∉ config.globalParams
  ((SortedMap.empty.insertAll config.userConfig.entries).insertAll
    inputs.globalParams.entries).insertAll
      (files.flatMap fun pf => ((inputs.staticParams.get? pf).map SortedMap.entries).getD [])

/-- The date of a page: the newest of the templates and of its params files. A route without a
template has none, nor has one whose params files depend on the request. -/
def lastModified (disk : Disk) (siteDir : Str) (rc : RouteConfig) : Option Nat :=
  if rc.template = none ∨ ∃ pf ∈ rc.params, '{' ∈ pf then none
  else rc.params.foldl (fun newest pf =>
    match disk.fileMtime (joinPath siteDir pf) with
    | none => newest
    | some t => some (max (newest.getD t) t))
    (disk.newestMtimeUnder (joinPath siteDir "templates".toList))

def compileCodeRoute (config : RendererConfig) (inputs : Inputs) (r : Str × RouteMethod) :
    AppRoute where
  toCompiledRoute := .compile r.1 r.2 [] .empty (baseDict config inputs [])
  template := none
  status := 200
  cache := ((config.routes.find? fun rc => rc.path = r.1).map RouteConfig.cache).getD
    "no-store".toList
  headers := []
  lastModified := none
  handler := none

def routeMethod : Option (List Str) → RouteMethod
  | some [m] =>
    if m = "GET".toList then .get
    else if m = "POST".toList then .post
    else if m = "PUT".toList then .put
    else if m = "PATCH".toList then .patch
    else if m = "DELETE".toList then .delete
    else .any
  | _ => .any

def compileConfigRoute (disk : Disk) (siteDir : Str) (config : RendererConfig) (inputs : Inputs)
    (rc : RouteConfig) : AppRoute where
  toCompiledRoute := .compile rc.path (routeMethod rc.methods) rc.params rc.settings
    (baseDict config inputs rc.params)
  template := rc.template
  status := rc.status
  cache := rc.cache
  headers := rc.headers
  lastModified := lastModified disk siteDir rc
  handler := rc.handler

/-- The key of the flash cookies. `flash_secret` is a key of the framework, so that no config has
it under the user's keys. -/
def flashSecret (os : Platform) (svc : Service) (config : RendererConfig) :
    Except BuildError Bytes :=
  let raw := ((config.userConfig.get? "flash_secret".toList).bind Value.asStr).getD []
  if svc.flash ∧ raw ≠ [] then
    match (os.codec.base64Standard raw).or (os.codec.base64UrlNoPad raw) with
    | none => .error .flashSecret
    | some key => .ok key
  else .ok []

def build (os : Platform) (disk : Disk) (svc : Service) (config : RendererConfig) :
    Option (Except BuildError AppState) :=
  match readInputs os disk svc config with
  | .error e => some (.error e)
  | .ok inputs =>
    if os.makesCache (max config.paramsCacheSize 1) then
      some do
        let secret ← flashSecret os svc config
        return {
          config := config
          siteDir := svc.siteDir
          routes := svc.codeRoutes.map (compileCodeRoute config inputs) ++
            config.routes.map (compileConfigRoute disk svc.siteDir config inputs)
          cacheCapacity := max config.paramsCacheSize 1
          renderer := inputs.renderer
          flashSecret := secret }
    else none

/-! ## The checks of a reload -/

inductive ReloadError where
  /-- a file is being written -/
  | skipped (path : Str)
  | load (e : LoadError)
  | siteTomlMissing (path : Str)
  | siteTomlUnreadable (path : Str)
  | siteTomlInvalid (path : Str)
  /-- `site.toml` declares the other of what the service does -/
  | compressDeclared (declared : Bool)
  | build (e : BuildError)
  /-- routes, and the handlers they name, if they do -/
  | unknownHandlers (missing : List (Str × Option Str))
  | hook

structure Changed where
  site : Bool
  process : Bool

def emptied (files : Files) (svc : Service) (changed : Changed) : Option Str :=
  ([(changed.process, svc.configPath), (changed.site, svc.siteToml)].find? fun f =>
    f.1 && (match files f.2 with
      | .contents [] => true
      | _ => false)).map Prod.snd

/-- A `site.toml` that is named is there and can be read. -/
def checkSiteToml (os : Platform) (files : Files) (svc : Service) (config : RendererConfig) :
    Except ReloadError Unit :=
  let path := config.resolveSiteToml svc.siteDir
  if config.siteToml = none then .ok ()
  else
    match files path with
    | .missing => .error (.siteTomlMissing path)
    | _ =>
      match files.readToString path with
      | none => .error (.siteTomlUnreadable path)
      | some text =>
        if (os.parseToml text).isSome then .ok () else .error (.siteTomlInvalid path)

/-- The document of `site.toml`, if it can be read. -/
def siteDocument (os : Platform) (files : Files) (siteToml : Str) : Option Toml :=
  ((files.readToString siteToml).bind os.parseToml).map .table

/-- What `site.toml` says about this service; absent means true. -/
def declaredCompresses (os : Platform) (files : Files) (siteToml backendName : Str) :
    Option Bool := do
  let val ← siteDocument os files siteToml
  let backends ← (val.get? "backend".toList).bind Toml.asArray
  let entry ← backends.find? fun b =>
    decide ((b.get? "name".toList).bind Toml.asStr = some backendName)
  return ((entry.get? "compresses".toList).bind Toml.asBool).getD true

def RendererConfig.compresses (config : RendererConfig) : Bool :=
  config.compression.entries.any fun e => 0 < e.2.brotli || 0 < e.2.gzip

/-- `site.toml` declares the compression that the config does. -/
def checkCompressDeclared (os : Platform) (files : Files) (svc : Service)
    (config : RendererConfig) : Except ReloadError Unit :=
  match declaredCompresses os files svc.siteToml svc.backendName with
  | none => .ok ()
  | some declared =>
    if declared = config.compresses then .ok () else .error (.compressDeclared declared)

def checkConfig (os : Platform) (files : Files) (svc : Service) (config : RendererConfig) :
    Except ReloadError Unit := do
  checkSiteToml os files svc config
  checkCompressDeclared os files svc config
  match files.readToString svc.siteToml with
  | none => .ok ()
  | some text =>
    if (os.parseToml text).isSome then .ok () else .error (.siteTomlInvalid svc.siteToml)

def unknownHandlers (svc : Service) (routes : List AppRoute) : List (Str × Option Str) :=
  routes.filterMap fun route =>
    match route.handler with
    | some name => if name ∈ svc.named then none else some (route.pattern, some name)
    | none =>
      if route.template = none ∧ route.pattern ∉ svc.codeRoutes.map Prod.fst then
        some (route.pattern, none)
      else none

/-! ## The log level -/

inductive LogLevel where
  | trace | debug | info | warn | error
  deriving DecidableEq

def parseLevel (s : Str) : LogLevel :=
  let s := Text.toAsciiLowercase s
  if s = "trace".toList then .trace
  else if s = "debug".toList then .debug
  else if s = "warn".toList ∨ s = "warning".toList then .warn
  else if s = "error".toList then .error
  else .info

def resolveLevel (os : Platform) (files : Files) (svc : Service) (config : RendererConfig) :
    LogLevel :=
  let site := (siteDocument os files svc.siteToml).bind fun val => logText val "level".toList
  parseLevel (((svc.cliLogLevel.or config.log.level).or site).getD "info".toList)

/-! ## A reload -/

/-- What a reload can change. -/
structure Live where
  state : AppState
  level : LogLevel

/-- One reload: what is live after it, and the number of routes or why it did not happen. There is
no result where the process ends. -/
def reload (os : Platform) (disk : Disk) (svc : Service) (changed : Changed) (live : Live) :
    Option (Live × Except ReloadError Nat) :=
  match emptied disk.files svc changed with
  | some path => some (live, .error (.skipped path))
  | none =>
    match load os disk.files svc.configPath with
    | none => none
    | some (.error e) => some (live, .error (.load e))
    | some (.ok config) =>
      match checkConfig os disk.files svc config with
      | .error e => some (live, .error e)
      | .ok () =>
        match build os disk svc config with
        | none => none
        | some (.error e) => some (live, .error (.build e))
        | some (.ok state) =>
          match unknownHandlers svc state.routes with
          | [] =>
            -- the hook runs first; what it refuses is not installed
            if svc.onReload.all fun hook => hook config.userConfig then
              some (⟨state, resolveLevel os disk.files svc config⟩, .ok state.routes.length)
            else some (live, .error .hook)
          | missing => some (live, .error (.unknownHandlers missing))

def AllOrNothing (os : Platform) (disk : Disk) (svc : Service) (changed : Changed) (live : Live) :
    Prop :=
  match reload os disk svc changed live with
  | none => False
  | some (after, .error _) => after = live
  | some (after, .ok routes) =>
    ∃ config, load os disk.files svc.configPath = some (.ok config) ∧
      build os disk svc config = some (.ok after.state) ∧
      after.level = resolveLevel os disk.files svc config ∧ routes = after.state.routes.length

/-- The numbers of the new files fit, as far as the reload comes to use them: the threads if the
files can be read, and the cache if they pass the checks and their inputs can be read. -/
structure NumbersFit (os : Platform) (disk : Disk) (svc : Service) (changed : Changed) : Prop where
  threads : emptied disk.files svc changed = none →
    ∀ tv, document os disk.files svc.configPath = .ok tv → PoolFits os tv
  cache : emptied disk.files svc changed = none →
    ∀ config, load os disk.files svc.configPath = some (.ok config) →
      checkConfig os disk.files svc config = .ok () →
      ∀ inputs, readInputs os disk svc config = .ok inputs →
        os.makesCache (max config.paramsCacheSize 1) = true

theorem load_eq_none_iff {os : Platform} {files : Files} {configPath : Str} :
    load os files configPath = none ↔
      ∃ tv, document os files configPath = .ok tv ∧ ¬ PoolFits os tv := by
  rw [load]
  cases document os files configPath with
  | error e => exact iff_of_false (fun h => by cases h) fun ⟨_, h, _⟩ => by cases h
  | ok tv =>
    rw [map_eq_none_iff]
    simp only [Except.ok.injEq, exists_eq_left', ← parseConfig_isSome]
    exact not_isSome_iff_eq_none.symm

theorem build_eq_none_iff {os : Platform} {disk : Disk} {svc : Service} {config : RendererConfig} :
    build os disk svc config = none ↔ ∃ inputs, readInputs os disk svc config = .ok inputs ∧
        ¬ os.makesCache (max config.paramsCacheSize 1) = true := by
  rw [build]
  cases readInputs os disk svc config with
  | error e => exact iff_of_false (fun h => by cases h) fun ⟨_, h, _⟩ => by cases h
  | ok inputs =>
    simp only [Except.ok.injEq, exists_eq_left']
    split_ifs with hcache
    · exact iff_of_false (fun h => by cases h) fun h => h hcache
    · exact iff_of_true rfl hcache

section

variable {os : Platform} {disk : Disk} {svc : Service} {changed : Changed} {live : Live}

theorem allOrNothing_of_reload {r : Live × Except ReloadError Nat}
    (h : reload os disk svc changed live = some r) : AllOrNothing os disk svc changed live := by
  rw [AllOrNothing, h]
  rw [reload] at h
  split at h
  next => obtain rfl := some.inj h; rfl
  next =>
    split at h
    next => cases h
    next => obtain rfl := some.inj h; rfl
    next config hload =>
      split at h
      next => obtain rfl := some.inj h; rfl
      next =>
        split at h
        next => cases h
        next => obtain rfl := some.inj h; rfl
        next state hbuild =>
          split at h
          next =>
            split_ifs at h
            all_goals cases h
            · exact ⟨config, hload, hbuild, rfl, rfl⟩
            · rfl
          next => obtain rfl := some.inj h; rfl

theorem reload_eq_none :
    reload os disk svc changed live = none ↔ emptied disk.files svc changed = none ∧
      (load os disk.files svc.configPath = none ∨
        ∃ config, load os disk.files svc.configPath = some (.ok config) ∧
          checkConfig os disk.files svc config = .ok () ∧ build os disk svc config = none) := by
  rw [reload]
  cases emptied disk.files svc changed with
  | some path => exact iff_of_false (fun h => by cases h) fun h => by cases h.1
  | none =>
    simp only [true_and]
    cases load os disk.files svc.configPath with
    | none => exact iff_of_true rfl (.inl rfl)
    | some r =>
      cases r with
      | error e => simp
      | ok config =>
        simp only [reduceCtorEq, some.injEq, Except.ok.injEq, exists_eq_left', false_or]
        cases checkConfig os disk.files svc config with
        | error e => simp
        | ok u =>
          cases build os disk svc config with
          | none => simp
          | some b =>
            cases b with
            | error e => simp
            | ok state =>
              refine iff_of_false (fun h => ?_) (by simp)
              dsimp only at h
              split at h
              · split_ifs at h
              · cases h

theorem reload_eq_none_iff (live : Live) :
    reload os disk svc changed live = none ↔ ¬ NumbersFit os disk svc changed := by
  rw [reload_eq_none, load_eq_none_iff]
  constructor
  · rintro ⟨hempty, ⟨tv, hdoc, hpool⟩ | ⟨config, hload, hcheck, hbuild⟩⟩ hfit
    · exact hpool (hfit.threads hempty tv hdoc)
    · obtain ⟨inputs, hinputs, hcache⟩ := build_eq_none_iff.mp hbuild
      exact hcache (hfit.cache hempty config hload hcheck inputs hinputs)
  · intro hfit
    by_contra hne
    refine hfit ⟨fun hempty tv hdoc => ?_, fun hempty config hload hcheck inputs hinputs => ?_⟩
    · by_contra hpool
      exact hne ⟨hempty, .inl ⟨tv, hdoc, hpool⟩⟩
    · by_contra hcache
      have hbuild := build_eq_none_iff.mpr ⟨inputs, hinputs, hcache⟩
      exact hne ⟨hempty, .inr ⟨config, hload, hcheck, hbuild⟩⟩

/-- **Reload is all or nothing** exactly if the numbers it comes to use fit: for every content of
the disk, every service and whatever is live. -/
theorem reload_iff (os : Platform) (disk : Disk) (svc : Service) (changed : Changed)
    (live : Live) : AllOrNothing os disk svc changed live ↔ NumbersFit os disk svc changed := by
  rw [← not_iff_not, ← reload_eq_none_iff live]
  constructor
  · intro h
    by_contra hne
    obtain ⟨r, hr⟩ := ne_none_iff_exists'.mp hne
    exact h (allOrNothing_of_reload hr)
  · intro h hall
    rw [AllOrNothing, h] at hall
    exact hall

end

/-! ## A number that does not fit -/

/-- The edited config: `[thread_pool]` with `size = -1`. -/
def editedConfig : Str := "[thread_pool]\nsize = -1\n".toList

def fourCores (documents : List (Str × List (Str × Toml))) : Platform where
  cpus := 4
  parseToml text := SortedMap.lookup text documents
  toUppercase s := s.map Char.toUpper
  codec := ⟨fun _ => none, fun _ => none, fun _ => none, fun _ _ => []⟩
  makesCache _ := true

/-- A service without routes, started on `/srv/site`. -/
def plainService : Service where
  siteDir := "/srv/site".toList
  configPath := "/srv/site/configs/m6-html.conf".toList
  siteToml := "/srv/site/site.toml".toList
  backendName := "m6-html".toList
  codeRoutes := []
  named := []
  factory _ _ _ := some fun _ _ => .error .notFound
  csrf := false
  flash := false
  unicode := .asciiOnly
  cliLogLevel := none
  onReload := none

def configDisk (text : Str) : Disk where
  files path := if path = plainService.configPath then .contents (Utf8.encode text) else .missing
  fileMtime _ := none
  newestMtimeUnder _ := none

def plainConfig : RendererConfig where
  userConfig := .empty
  globalParams := []
  routes := []
  threadPool := ⟨4, 32⟩
  paramsCacheSize := 256
  server := ⟨some 30, 0o660⟩
  compression := defaultCompression
  minification := defaultMinification
  log := ⟨none, none⟩
  siteToml := none

example : parseConfig (fourCores []) (.table []) = some (.ok plainConfig) := rfl

def plainLive : Live where
  state := ⟨plainConfig, plainService.siteDir, [], 256, fun _ _ => .error .notFound, []⟩
  level := .info

def editedDocument : List (Str × Toml) :=
  [("thread_pool".toList, .table [("size".toList, .integer ⟨-1, by decide⟩)])]

/-- Saving `size = -1` ends the service. -/
theorem negative_size_ends :
    ¬ AllOrNothing (fourCores [(editedConfig, editedDocument)]) (configDisk editedConfig)
      plainService ⟨false, true⟩ plainLive := by
  have hread : (configDisk editedConfig).files.readToString plainService.configPath =
      some editedConfig := by
    decide
  have hdoc : document (fourCores [(editedConfig, editedDocument)])
      (configDisk editedConfig).files plainService.configPath = .ok (.table editedDocument) := by
    rw [document, hread]
    rfl
  have hempty : emptied (configDisk editedConfig).files plainService ⟨false, true⟩ = none := by
    decide
  have hnone : reload (fourCores [(editedConfig, editedDocument)]) (configDisk editedConfig)
      plainService ⟨false, true⟩ plainLive = none :=
    reload_eq_none.mpr ⟨hempty, .inl (load_eq_none_iff.mpr
      ⟨_, hdoc, fun hfits => absurd hfits.1 (by decide)⟩)⟩
  intro h
  rw [AllOrNothing, hnone] at h
  exact h

end M6.App
