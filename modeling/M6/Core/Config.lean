import Mathlib.Algebra.Ring.Int.Defs
import M6.Core.BuildDict

/-!
# A service's configuration

`config.rs` of `m6-core`: the process config, with its secrets file merged in, becomes a
`RendererConfig`. The parser of TOML is a parameter; everything after it is here.

A configured integer is an `i64` that is cast to the width the code wants, which never fails. The
one computation on such a number is the default of `queue_size`, and an overflow there ends the
process: `parseConfig` is `none` then. `parseConfig_isSome` says for which documents it is not.
-/

namespace M6.App

/-! ## TOML -/

abbrev I64 : Type := {i : Int // -2 ^ 63 ≤ i ∧ i < 2 ^ 63}

instance (a b : I64) : Decidable (a ≤ b) := Int.decLe a.1 b.1

instance (a b : I64) : Decidable (a < b) := Int.decLt a.1 b.1

instance I64.lawfulBEq : LawfulBEq I64 := inferInstance

theorem zero_fits : -2 ^ 63 ≤ (0 : Int) ∧ (0 : Int) < 2 ^ 63 := by decide

/-- A TOML value. A float is kept as the JSON number it converts to, if it does. -/
inductive Toml where
  | string (s : Str)
  | integer (i : I64)
  | float (json : Option Str)
  | boolean (b : Bool)
  | datetime (text : Str)
  | array (items : List Toml)
  | table (entries : List (Str × Toml))

namespace Toml

def get? (t : Toml) (k : Str) : Option Toml :=
  match t with
  | table entries => SortedMap.lookup k entries
  | _ => none

def asStr : Toml → Option Str
  | string s => some s
  | _ => none

def asInteger : Toml → Option I64
  | integer i => some i
  | _ => none

def asBool : Toml → Option Bool
  | boolean b => some b
  | _ => none

def asArray : Toml → Option (List Toml)
  | array items => some items
  | _ => none

def asTable : Toml → Option (List (Str × Toml))
  | table entries => some entries
  | _ => none

def strings (t : Toml) : List Str := (t.asArray.getD []).filterMap asStr

mutual

def toJson : Toml → Value
  | string s => .string s
  | integer i => .number (toString i.1).toList
  | float none => .null
  | float (some text) => .number text
  | boolean b => .bool b
  | datetime text => .string text
  | array items => .array (itemsToJson items)
  | table entries => .object (entriesToJson entries)

def itemsToJson : List Toml → List Value
  | [] => []
  | v :: rest => v.toJson :: itemsToJson rest

def entriesToJson : List (Str × Toml) → List (Str × Value)
  | [] => []
  | (k, v) :: rest => (k, v.toJson) :: entriesToJson rest

end

/-! ## The secrets file -/

def dotted (path k : Str) : Str := if path = [] then k else path ++ '.' :: k

mutual

def findKeyClashes (base : Toml) : Toml → Str → List Str
  | table secrets, path =>
    match base with
    | table b => entryClashes b secrets path
    | _ => []
  | _, _ => []

def entryClashes (base : List (Str × Toml)) : List (Str × Toml) → Str → List Str
  | [], _ => []
  | (k, sv) :: rest, path =>
    (match SortedMap.lookup k base with
      | none => []
      | some bv =>
        if bv.asTable.isSome && sv.asTable.isSome then findKeyClashes bv sv (dotted path k)
        else [dotted path k]) ++ entryClashes base rest path

end

mutual

/-- Merge a tree into another, which loses where both have a value. -/
def mergeToml (dst : Toml) : Toml → Toml
  | table src =>
    match dst with
    | table d => table (mergeEntries d src)
    | _ => table src
  | src => src

def mergeEntries (dst : List (Str × Toml)) : List (Str × Toml) → List (Str × Toml)
  | [] => dst
  | (k, v) :: rest =>
    mergeEntries (SortedMap.insertEntry k
      (mergeToml ((SortedMap.lookup k dst).getD (table [])) v) dst) rest

end

end Toml

/-! ## What a configuration is -/

/-- One `[[route]]`. -/
structure RouteConfig where
  path : Str
  template : Option Str
  params : List Str
  status : Nat
  cache : Str
  methods : Option (List Str)
  headers : List (Str × Str)
  handler : Option Str
  /-- the keys that core does not define -/
  settings : DictMap

structure ThreadPoolConfig where
  size : Nat
  queueSize : Nat

structure ServerConfig where
  /-- in seconds; none is no timeout -/
  readTimeout : Option Nat
  socketMode : Nat

structure CompressionLevel where
  brotli : Nat
  gzip : Nat

structure MinificationConfig where
  enabled : SortedMap Str Bool
  inlineJs : Bool

structure LogConfig where
  level : Option Str
  format : Option Str

structure RendererConfig where
  /-- the keys that are not the framework's -/
  userConfig : DictMap
  globalParams : List Str
  routes : List RouteConfig
  threadPool : ThreadPoolConfig
  paramsCacheSize : Nat
  server : ServerConfig
  compression : SortedMap Str CompressionLevel
  minification : MinificationConfig
  log : LogConfig
  siteToml : Option Str

/-- Where `site.toml` is, for a process started on a site. -/
def RendererConfig.resolveSiteToml (config : RendererConfig) (siteDir : Str) : Str :=
  match config.siteToml with
  | none => joinPath siteDir "site.toml".toList
  | some p => joinPath siteDir p

/-- Why a document is refused. -/
inductive ConfigError where
  | readTimeoutNotInteger (got : Toml)
  | readTimeoutNegative (got : I64)
  | socketModeNotString (got : Toml)
  | socketModeNotOctal (got : Str)
  | socketModeAbove (got : Str)
  | routeNotArray
  | routeWithoutPath
  | siteTomlEmpty
  | siteTomlNotString (got : Toml)

/-- What the machine and the libraries are. -/
structure Platform where
  /-- `available_parallelism` -/
  cpus : Nat
  /-- a TOML document, whose top level is a table -/
  parseToml : Str → Option (List (Str × Toml))
  /-- `str::to_uppercase` -/
  toUppercase : Str → Str
  codec : Codec
  /-- whether a cache of a capacity can be made; where it cannot, the process ends -/
  makesCache : Nat → Bool

/-! ## Casts -/

def asUsize (i : I64) : Nat := (i.1 % 2 ^ 64).toNat

def asU32 (i : I64) : Nat := (i.1 % 2 ^ 32).toNat

def asU16 (i : I64) : Nat := (i.1 % 2 ^ 16).toNat

/-- Multiply two `usize`. An overflow ends the process. -/
def mulUsize (a b : Nat) : Option Nat := if a * b < 2 ^ 64 then some (a * b) else none

/-! ## The sections -/

def sectionInteger (tv : Toml) (name key : Str) : Option I64 :=
  ((tv.get? name).bind fun t => t.get? key).bind Toml.asInteger

def poolSize (cpus : Nat) (tv : Toml) : Nat :=
  ((sectionInteger tv "thread_pool".toList "size".toList).map asUsize).getD cpus

/-- `[thread_pool]`. The default of the queue is computed whether or not it is used. -/
def parseThreadPool (cpus : Nat) (tv : Toml) : Option ThreadPoolConfig :=
  (mulUsize (poolSize cpus tv) 8).map fun default => {
    size := poolSize cpus tv
    queueSize :=
      ((sectionInteger tv "thread_pool".toList "queue_size".toList).map asUsize).getD default }

def octalDigits : Nat → Str → Option Nat
  | n, [] => some n
  | n, c :: cs =>
    if '0' ≤ c ∧ c ≤ '7' ∧ n * 8 + (c.toNat - '0'.toNat) < 2 ^ 32 then
      octalDigits (n * 8 + (c.toNat - '0'.toNat)) cs
    else none

/-- `u32::from_str_radix` of base eight. -/
def parseOctal : Str → Option Nat
  | [] => none
  | '+' :: digits => if digits = [] then none else octalDigits 0 digits
  | digits => octalDigits 0 digits

/-- `[server]`. -/
def parseServer (tv : Toml) : Except ConfigError ServerConfig := do
  let server := tv.get? "server".toList
  let readTimeout ←
    match server.bind fun t => t.get? "read_timeout_s".toList with
    | none => .ok 30
    | some v =>
      match v.asInteger with
      | none => .error (.readTimeoutNotInteger v)
      | some n => if n.1 < 0 then .error (.readTimeoutNegative n) else .ok n.1.toNat
  let socketMode ←
    match server.bind fun t => t.get? "socket_mode".toList with
    | none => .ok 0o660
    | some v =>
      match v.asStr with
      | none => .error (.socketModeNotString v)
      | some s =>
        match parseOctal (Text.trimStartMatches "0o".toList s) with
        | none => .error (.socketModeNotOctal s)
        | some mode => if 0o777 < mode then .error (.socketModeAbove s) else .ok mode
  return ⟨if readTimeout = 0 then none else some readTimeout, socketMode⟩

def knownRouteKeys : List Str :=
  ["path".toList, "template".toList, "params".toList, "status".toList, "cache".toList,
    "methods".toList, "headers".toList, "handler".toList]

def parseHeaderPair (pair : Toml) : Option (Str × Str) := do
  let a ← pair.asArray
  let k ← a[0]?.bind Toml.asStr
  let v ← a[1]?.bind Toml.asStr
  return (k, v)

/-- One `[[route]]`. -/
def parseRoute (toUppercase : Str → Str) (item : Toml) : Except ConfigError RouteConfig :=
  match (item.get? "path".toList).bind Toml.asStr with
  | none => .error .routeWithoutPath
  | some path =>
    let handler := (item.get? "handler".toList).bind Toml.asStr
    .ok {
      path := path
      template := (item.get? "template".toList).bind Toml.asStr
      params := ((item.get? "params".toList).map Toml.strings).getD []
      status := (((item.get? "status".toList).bind Toml.asInteger).map asU16).getD 200
      -- a handler computes an answer, a template renders a document
      cache := ((item.get? "cache".toList).bind Toml.asStr).getD
        (if handler.isSome then "no-store".toList else "public".toList)
      methods := ((item.get? "methods".toList).bind Toml.asArray).map fun a =>
        (a.filterMap Toml.asStr).map toUppercase
      headers := (((item.get? "headers".toList).bind Toml.asArray).getD []).filterMap
        parseHeaderPair
      handler := handler
      settings := SortedMap.empty.insertAll (Toml.entriesToJson
        ((item.asTable.getD []).filter fun e => e.1 ∉ knownRouteKeys)) }

def parseRoutes (toUppercase : Str → Str) : Option Toml → Except ConfigError (List RouteConfig)
  | none => .ok []
  | some (.array items) => items.mapM (parseRoute toUppercase)
  | some _ => .error .routeNotArray

def defaultCompression : SortedMap Str CompressionLevel :=
  SortedMap.empty.insertAll (["text/html".toList, "text/css".toList, "text/plain".toList,
    "application/javascript".toList, "application/json".toList, "image/svg+xml".toList].map
    fun mime => (mime, ⟨6, 6⟩))

/-- A level of `[compression]`; without one there is no compression. -/
def parseLevels (val : Toml) : CompressionLevel where
  brotli := (((val.get? "brotli".toList).bind Toml.asInteger).map asU32).getD 0
  gzip := (((val.get? "gzip".toList).bind Toml.asInteger).map asU32).getD 0

def parseCompression (tv : Toml) : SortedMap Str CompressionLevel :=
  defaultCompression.insertAll
    ((((tv.get? "compression".toList).bind Toml.asTable).getD []).map fun e =>
      (e.1, parseLevels e.2))

def defaultMinification : MinificationConfig where
  enabled := SortedMap.empty.insertAll (["text/html".toList, "text/css".toList,
    "application/json".toList, "application/javascript".toList, "text/javascript".toList].map
    fun mime => (mime, true))
  inlineJs := false

/-- One key of `[minification]`. -/
def minificationStep (m : MinificationConfig) (e : Str × Toml) : MinificationConfig :=
  if e.1 = "inline_js".toList then { m with inlineJs := e.2.asBool.getD false }
  else { m with enabled := m.enabled.insert e.1 (e.2.asBool.getD false) }

def parseMinification (tv : Toml) : MinificationConfig :=
  (((tv.get? "minification".toList).bind Toml.asTable).getD []).foldl minificationStep
    defaultMinification

def frameworkKeys : List Str :=
  ["global_params".toList, "route".toList, "secrets_file".toList, "thread_pool".toList,
    "params_cache".toList, "server".toList, "compression".toList, "minification".toList,
    "log".toList, "errors".toList, "multipart".toList, "flash_secret".toList, "site_toml".toList]

/-- A text of `[log]`. -/
def logText (tv : Toml) (key : Str) : Option Str :=
  ((tv.get? "log".toList).bind fun l => l.get? key).bind Toml.asStr

def parseSiteToml (tv : Toml) : Except ConfigError (Option Str) :=
  match tv.get? "site_toml".toList with
  | none => .ok none
  | some (.string s) => if s = [] then .error .siteTomlEmpty else .ok (some s)
  | some v => .error (.siteTomlNotString v)

/-- Read a document. There is no result where the process ends. -/
def parseConfig (os : Platform) (tv : Toml) : Option (Except ConfigError RendererConfig) := do
  let threadPool ← parseThreadPool os.cpus tv
  return do
    let server ← parseServer tv
    let routes ← parseRoutes os.toUppercase (tv.get? "route".toList)
    let siteToml ← parseSiteToml tv
    return {
      userConfig := SortedMap.empty.insertAll (Toml.entriesToJson
        ((tv.asTable.getD []).filter fun e => e.1 ∉ frameworkKeys))
      globalParams := ((tv.get? "global_params".toList).map Toml.strings).getD []
      routes := routes
      threadPool := threadPool
      paramsCacheSize :=
        ((sectionInteger tv "params_cache".toList "size".toList).map asUsize).getD 256
      server := server
      compression := parseCompression tv
      minification := parseMinification tv
      log := ⟨logText tv "level".toList, logText tv "format".toList⟩
      siteToml := siteToml }

/-! ## Loading -/

inductive LoadError where
  | reading (path : Str)
  | parsing (path : Str)
  | readingSecrets (path : Str)
  | parsingSecrets (path : Str)
  /-- keys that both files set -/
  | clashes (keys : List Str)
  | refused (e : ConfigError)

abbrev Files : Type := Str → ParamsFile

/-- `read_to_string`: bytes that are no text are not read. -/
def Files.readToString (files : Files) (path : Str) : Option Str :=
  match files path with
  | .contents data => Utf8.fromUtf8? data
  | _ => none

def Files.exists (files : Files) (path : Str) : Bool :=
  match files path with
  | .missing => false
  | _ => true

def document (os : Platform) (files : Files) (configPath : Str) : Except LoadError Toml :=
  match files.readToString configPath with
  | none => .error (.reading configPath)
  | some raw =>
    match os.parseToml raw with
    | none => .error (.parsing configPath)
    | some entries =>
      match ((Toml.table entries).get? "secrets_file".toList).bind Toml.asStr with
      | none => .ok (.table entries)
      | some secretsPath =>
        if files.exists secretsPath then
          match files.readToString secretsPath with
          | none => .error (.readingSecrets secretsPath)
          | some text =>
            match os.parseToml text with
            | none => .error (.parsingSecrets secretsPath)
            | some secrets =>
              match Toml.findKeyClashes (.table entries) (.table secrets) [] with
              | [] => .ok (Toml.mergeToml (.table entries) (.table secrets))
              | keys => .error (.clashes keys)
        else .ok (.table entries)

def load (os : Platform) (files : Files) (configPath : Str) :
    Option (Except LoadError RendererConfig) :=
  match document os files configPath with
  | .error e => some (.error e)
  | .ok tv => (parseConfig os tv).map fun r => r.mapError .refused

/-! ## Which numbers can be read -/

/-- The number of threads is one whose eightfold is a `usize`. -/
def PoolFits (os : Platform) (tv : Toml) : Prop :=
  match sectionInteger tv "thread_pool".toList "size".toList with
  | some i => 0 ≤ i.1 ∧ i.1 < 2 ^ 61
  | none => os.cpus < 2 ^ 61

theorem mulUsize_isSome_iff {n : Nat} : (mulUsize n 8).isSome ↔ n < 2 ^ 61 := by
  rw [mulUsize]
  split_ifs with h
  · exact iff_of_true rfl (by omega)
  · exact iff_of_false Bool.false_ne_true (by omega)

theorem asUsize_lt_iff (i : I64) : asUsize i < 2 ^ 61 ↔ 0 ≤ i.1 ∧ i.1 < 2 ^ 61 := by
  obtain ⟨i, hmin, hmax⟩ := i
  change (i % 2 ^ 64).toNat < 2 ^ 61 ↔ 0 ≤ i ∧ i < 2 ^ 61
  omega

/-- **A document is read**, or refused, exactly if its thread pool fits: of every other number
the parser makes what it can. -/
theorem parseConfig_isSome (os : Platform) (tv : Toml) :
    (parseConfig os tv).isSome ↔ PoolFits os tv := by
  have hparse : (parseConfig os tv).isSome = (parseThreadPool os.cpus tv).isSome := by
    rw [parseConfig]
    cases parseThreadPool os.cpus tv <;> rfl
  rw [hparse, parseThreadPool, Option.isSome_map, mulUsize_isSome_iff, poolSize, PoolFits]
  cases sectionInteger tv "thread_pool".toList "size".toList with
  | none => exact Iff.rfl
  | some i => exact asUsize_lt_iff i

end M6.App
