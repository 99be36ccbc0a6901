import M6.Core.ClientKeys
import M6.Core.Reload
import M6.Lib.Failing

/-!
# The shared base of a route's dictionary

`FrameworkState::build` of `app.rs` merges config keys, global params and the static params files of
a route once, in a base that the requests of the route share. Routes share a base as well, if their
lists of static files read the same when joined. A file that is a global one already is left out.

The dictionary of a request is meant to be what the plain merge gives: config, every global file,
every static file of the route, each over the one before, and then what the request writes.
`Dict.sameEntries_iff` says that lookups, `iter`, `len` and `to_map` tell the same about a
dictionary, and `plainMerge_iff` when a base that is built so gives the plain merge: wherever the
last file that has a key gives it the same value in both orders.
-/

namespace M6

open List SortedMap Option

namespace Dict

/-! ## What a dictionary shows -/

def len (d : Dict) : Nat :=
  (match d.base with
    | some b => (b.entries.filter fun e => (d.overlay.get? e.1).isNone).length
    | none => 0) + d.overlay.entries.length

def toMap (d : Dict) : DictMap := (d.base.getD .empty).insertAll d.overlay.entries

/-- A dictionary shows the entries of a map, each once, whichever way it is read. -/
structure SameEntries (d : Dict) (m : DictMap) : Prop where
  get : ∀ k, d.get k = m.get? k
  iter : d.iter.Perm m.entries
  len : d.len = m.entries.length
  toMap : d.toMap = m

theorem get?_toMap (d : Dict) (k : Str) : d.toMap.get? k = d.get k := by
  rw [toMap, get?_insertAll, lastValue_entries, get_eq_or]
  cases d.base <;> rfl

theorem mem_iter {d : Dict} {e : Str × Value} : e ∈ d.iter ↔ d.get e.1 = some e.2 := by
  rw [iter, mem_append, get_eq_or, ← Prod.eta e, mem_entries]
  cases hoverlay : d.overlay.get? e.1 with
  | some v =>
    cases d.base with
    | none => simp
    | some b => simp [mem_filter, hoverlay]
  | none =>
    cases d.base with
    | none => simp
    | some b =>
      have hbase : e ∈ b.entries ↔ b.get? e.1 = some e.2 := mem_entries
      simpa [mem_filter, hoverlay] using hbase

theorem nodup_iter (d : Dict) : d.iter.Nodup := by
  have hentries : ∀ m : DictMap, m.entries.Nodup := fun m => (nodup_keys m).of_map _
  rw [iter, nodup_append]
  refine ⟨hentries _, ?_, ?_⟩
  · cases d.base with
    | none => exact nodup_nil
    | some b => exact (hentries b).filter _
  · rintro e he e' he' rfl
    cases hbase : d.base with
    | none =>
      rw [hbase] at he'
      cases he'
    | some b =>
      rw [hbase] at he'
      have hnone := (mem_filter.mp he').2
      rw [← Prod.eta e, mem_entries] at he
      rw [he] at hnone
      cases hnone

theorem length_iter (d : Dict) : d.iter.length = d.len := by
  rw [iter, len, length_append, add_comm]
  cases d.base <;> rfl

/-- **All readings agree.** If the lookups are those of a map, so are the entries one by one, their
number, and the flat copy. -/
theorem sameEntries_iff {d : Dict} {m : DictMap} : d.SameEntries m ↔ ∀ k, d.get k = m.get? k := by
  refine ⟨SameEntries.get, fun h => ?_⟩
  have hperm : d.iter.Perm m.entries := by
    refine (perm_ext_iff_of_nodup (nodup_iter d) ((nodup_keys m).of_map _)).mpr fun e => ?_
    rw [mem_iter, h, ← Prod.eta e, mem_entries]
  refine ⟨h, hperm, ?_, ?_⟩
  · rw [← length_iter, hperm.length_eq]
  · refine ext_get? fun k => ?_
    rw [get?_toMap, h]

end Dict

namespace App

/-! ## The base as it is built -/

def staticFiles (paramsFiles : List Str) : List Str := paramsFiles.filter fun pf => '{' ∉ pf

def baseKey (paramsFiles : List Str) : Str := ['\x01'].intercalate (staticFiles paramsFiles)

def firstOfKey (table : List (List Str)) (paramsFiles : List Str) : List Str :=
  (table.find? fun files => baseKey files = baseKey paramsFiles).getD paramsFiles

def sharedBase (config : RendererConfig) (inputs : Inputs) (table : List (List Str))
    (paramsFiles : List Str) : DictMap :=
  baseDict config inputs (firstOfKey table paramsFiles)

/-- A config whose inputs were read. -/
structure Built where
  os : Platform
  disk : Disk
  svc : Service
  config : RendererConfig
  inputs : Inputs
  read : readInputs os disk svc config = .ok inputs

namespace Built

def table (b : Built) : List (List Str) :=
  b.svc.codeRoutes.map (fun _ => []) ++ b.config.routes.map RouteConfig.params

def contents (b : Built) (path : Str) : DictMap :=
  match readParams b.os.codec b.disk.files (joinPath b.svc.siteDir path) with
  | .ok (some m) => m
  | _ => .empty

def lastIn (b : Built) (files : List Str) (k : Str) : Option Value :=
  files.reverse.findSome? fun f => (b.contents f).get? k

def valueIn (b : Built) (files : List Str) (k : Str) : Option Value :=
  (b.lastIn files k).or (b.config.userConfig.get? k)

def plainFiles (b : Built) (paramsFiles : List Str) : List Str :=
  b.config.globalParams ++ staticFiles paramsFiles

def mergedFiles (b : Built) (paramsFiles : List Str) : List Str :=
  b.config.globalParams ++ (staticFiles (firstOfKey b.table paramsFiles)).filter fun pf =>
    pf ∉ b.config.globalParams

/-- **The plain merge**, without the request. -/
def plainBase (b : Built) (paramsFiles : List Str) : DictMap :=
  (b.plainFiles paramsFiles).foldl (fun m f => m.insertAll (b.contents f).entries)
    (SortedMap.empty.insertAll b.config.userConfig.entries)

end Built

/-! ## What the files give -/

section

variable (b : Built)

theorem get?_foldl_contents (files : List Str) (m : DictMap) (k : Str) :
    (files.foldl (fun m f => m.insertAll (b.contents f).entries) m).get? k =
      (b.lastIn files k).or (m.get? k) := by
  induction files generalizing m with
  | nil => rfl
  | cons f files ih =>
    rw [foldl_cons, ih, get?_insertAll, lastValue_entries, Built.lastIn, Built.lastIn,
      reverse_cons, findSome?_append, ← Option.or_assoc]
    congr 1
    rw [findSome?_singleton]

theorem get?_plainBase (paramsFiles : List Str) (k : Str) :
    (b.plainBase paramsFiles).get? k = b.valueIn (b.plainFiles paramsFiles) k := by
  rw [Built.plainBase, get?_foldl_contents, get?_insertAll, lastValue_entries, get?_empty,
    or_none, Built.valueIn]

theorem get?_loadGlobalParams {paths : List Str} {data m : DictMap}
    (h : loadGlobalParams b.os.codec b.disk.files b.svc.siteDir paths data = .ok m) (k : Str) :
    m.get? k = (b.lastIn paths k).or (data.get? k) := by
  rw [← get?_foldl_contents]
  induction paths generalizing data with
  | nil =>
    cases h
    rfl
  | cons path rest ih =>
    obtain ⟨read, hread, hrest⟩ := Failing.bind_eq_ok.mp h
    have hcontents : (read.map SortedMap.entries).getD [] = (b.contents path).entries := by
      rw [Built.contents, hread]
      cases read <;> rfl
    rw [foldl_cons, ← hcontents]
    exact ih hrest

def FromDisk (loaded : SortedMap Str DictMap) : Prop :=
  ∀ f m, loaded.get? f = some m →
    readParams b.os.codec b.disk.files (joinPath b.svc.siteDir f) = .ok (some m)

theorem loadStaticParams_fromDisk {files : List Str} {loaded result : SortedMap Str DictMap}
    (hloaded : FromDisk b loaded)
    (h : loadStaticParams b.os.codec b.disk.files b.svc.siteDir files loaded = .ok result) :
    FromDisk b result ∧ (∀ f, (loaded.get? f).isSome → (result.get? f).isSome) ∧
      ∀ f ∈ files, '{' ∉ f → result.get? f = none →
        readParams b.os.codec b.disk.files (joinPath b.svc.siteDir f) = .ok none := by
  induction files generalizing loaded with
  | nil =>
    cases h
    exact ⟨hloaded, fun _ h => h, fun f hf => absurd hf not_mem_nil⟩
  | cons pf rest ih =>
    rw [loadStaticParams] at h
    by_cases hskip : '{' ∈ pf ∨ (loaded.get? pf).isSome
    · rw [if_pos hskip] at h
      obtain ⟨hresult, hkeeps, hrest⟩ := ih hloaded h
      refine ⟨hresult, hkeeps, fun f hf hstatic hnone => ?_⟩
      rcases mem_cons.mp hf with rfl | hf
      · have hthere := hkeeps f (hskip.resolve_left hstatic)
        rw [hnone] at hthere
        cases hthere
      · exact hrest f hf hstatic hnone
    · rw [if_neg hskip] at h
      obtain ⟨read, hread, h⟩ := Failing.bind_eq_ok.mp h
      have hnext : FromDisk b ((read.map (loaded.insert pf)).getD loaded) := by
        cases read with
        | none => exact hloaded
        | some m =>
          intro f m' hf
          rw [map_some, getD_some, get?_insert] at hf
          split_ifs at hf with hname
          · cases hf
            rw [hname]
            exact hread
          · exact hloaded f m' hf
      have hgrows : ∀ f, (loaded.get? f).isSome →
          (((read.map (loaded.insert pf)).getD loaded).get? f).isSome := by
        intro f hf
        cases read with
        | none => exact hf
        | some m =>
          rw [map_some, getD_some, get?_insert]
          split_ifs
          · rfl
          · exact hf
      obtain ⟨hresult, hkeeps, hrest⟩ := ih hnext h
      refine ⟨hresult, fun f hf => hkeeps f (hgrows f hf), fun f hf hstatic hnone => ?_⟩
      rcases mem_cons.mp hf with rfl | hf
      · cases read with
        | none => exact hread
        | some m =>
          have hthere := hkeeps f (by simp)
          rw [hnone] at hthere
          cases hthere
      · exact hrest f hf hstatic hnone

variable {paramsFiles : List Str}

theorem mem_staticFiles {f : Str} : f ∈ staticFiles paramsFiles ↔ f ∈ paramsFiles ∧ '{' ∉ f := by
  simp [staticFiles]

theorem built_reads :
    loadGlobalParams b.os.codec b.disk.files b.svc.siteDir b.config.globalParams .empty =
        .ok b.inputs.globalParams ∧ loadStaticParams b.os.codec b.disk.files b.svc.siteDir
        (b.config.routes.flatMap RouteConfig.params) .empty = .ok b.inputs.staticParams := by
  have h := b.read
  rw [readInputs] at h
  cases hfactory : b.svc.factory b.disk.files b.svc.siteDir
    (b.config.routes.filterMap RouteConfig.template) with
  | none =>
    rw [hfactory] at h
    cases h
  | some renderer =>
  rw [hfactory] at h
  obtain ⟨_, -, h⟩ := Failing.bind_eq_ok.mp h
  obtain ⟨globals, hglobals, h⟩ := Failing.bind_eq_ok.mp h
  obtain ⟨statics, hstatics, h⟩ := Failing.bind_eq_ok.mp h
  rw [← Except.ok.inj h]
  exact ⟨hglobals, hstatics⟩

theorem staticParams_entries {f : Str} (hf : f ∈ b.config.routes.flatMap RouteConfig.params)
    (hstatic : '{' ∉ f) :
    ((b.inputs.staticParams.get? f).map SortedMap.entries).getD [] = (b.contents f).entries := by
  have hempty : FromDisk b .empty := fun f m hm => by
    rw [get?_empty] at hm
    cases hm
  obtain ⟨hdisk, -, hmissing⟩ := loadStaticParams_fromDisk b hempty (built_reads b).2
  rw [Built.contents]
  cases hget : b.inputs.staticParams.get? f with
  | none =>
    rw [hmissing f hf hstatic hget]
    rfl
  | some m =>
    rw [hdisk f m hget]
    rfl

theorem globalParams_get? (k : Str) :
    b.inputs.globalParams.get? k = b.lastIn b.config.globalParams k := by
  rw [get?_loadGlobalParams b (built_reads b).1, get?_empty, or_none]

theorem firstOfKey_mem {table : List (List Str)}
    (h : paramsFiles ∈ table) : firstOfKey table paramsFiles ∈ table := by
  rw [firstOfKey]
  cases hfind : table.find? fun files => baseKey files = baseKey paramsFiles with
  | none => exact h
  | some files => exact mem_of_find?_eq_some hfind

theorem mem_params_of_table (h : paramsFiles ∈ b.table) {f : Str}
    (hf : f ∈ paramsFiles) : f ∈ b.config.routes.flatMap RouteConfig.params := by
  rcases mem_append.mp h with h | h
  · obtain ⟨r, -, rfl⟩ := mem_map.mp h
    exact absurd hf not_mem_nil
  · obtain ⟨rc, hrc, rfl⟩ := mem_map.mp h
    exact mem_flatMap.mpr ⟨rc, hrc, hf⟩

theorem lastValue_flatMap {g : Str → List (Str × Value)} (files : List Str)
    (h : ∀ f ∈ files, g f = (b.contents f).entries) (k : Str) :
    lastValue (files.flatMap g) k = b.lastIn files k := by
  induction files with
  | nil => rfl
  | cons f files ih =>
    rw [flatMap_cons, lastValue_append, h f mem_cons_self,
      ih fun f' hf' => h f' (mem_cons_of_mem _ hf'), lastValue_entries, Built.lastIn,
      Built.lastIn, reverse_cons, findSome?_append, findSome?_singleton]

theorem lastIn_append (files files' : List Str) (k : Str) :
    b.lastIn (files ++ files') k = (b.lastIn files' k).or (b.lastIn files k) := by
  rw [Built.lastIn, reverse_append, findSome?_append]
  rfl

theorem get?_sharedBase (h : paramsFiles ∈ b.table) (k : Str) :
    (sharedBase b.config b.inputs b.table paramsFiles).get? k =
      b.valueIn (b.mergedFiles paramsFiles) k := by
  have hfilter : (firstOfKey b.table paramsFiles).filter
      (fun pf => '{' ∉ pf ∧ pf ∉ b.config.globalParams) =
      (staticFiles (firstOfKey b.table paramsFiles)).filter fun pf =>
        pf ∉ b.config.globalParams := by
    rw [staticFiles, List.filter_filter]
    congr 1
    funext pf
    simp [Bool.and_comm]
  have hfiles : ∀ f ∈ (staticFiles (firstOfKey b.table paramsFiles)).filter
      (fun pf => pf ∉ b.config.globalParams),
      ((b.inputs.staticParams.get? f).map SortedMap.entries).getD [] = (b.contents f).entries := by
    intro f hf
    obtain ⟨hmem, hstatic⟩ := mem_staticFiles.mp (mem_of_mem_filter hf)
    exact staticParams_entries b (mem_params_of_table b (firstOfKey_mem h) hmem) hstatic
  rw [sharedBase, baseDict]
  rw [hfilter, get?_insertAll, lastValue_flatMap b _ hfiles, get?_insertAll, lastValue_entries,
    globalParams_get?, get?_insertAll, lastValue_entries, get?_empty, or_none,
    Built.valueIn, Built.mergedFiles, lastIn_append, Option.or_assoc]

end

/-! ## The dictionary of a request -/

structure BuiltRoute extends Built where
  route : CompiledRoute
  listed : route.paramsFiles ∈ toBuilt.table

namespace BuiltRoute

def compiled (b : BuiltRoute) : CompiledRoute :=
  { b.route with baseDict := sharedBase b.config b.inputs b.table b.route.paramsFiles }

/-- **Every dictionary is the plain merge**: that of config and files, and over it what the request
writes. -/
def PlainMerge (b : BuiltRoute) (fw : FrameworkState) (now : Moment) (raw : RawRequest)
    (params : PathParams) : Prop :=
  ∀ dict, buildDict fw now raw b.compiled params = .ok dict →
    dict.SameEntries ((b.plainBase b.route.paramsFiles).insertAll dict.overlay.entries)

/-- What is under a name comes from the base: the request does not write it, nor does the default of
the token. -/
def FromBase (b : BuiltRoute) (fw : FrameworkState) (now : Moment) (raw : RawRequest)
    (params : PathParams) (files : List (Str × Value)) (k : Str) : Prop :=
  lastValue (lowerWrites files params raw ++ frameworkWrites fw now raw) k = none ∧
    (fw.csrf = true → k = "csrf_token".toList →
      b.valueIn (b.mergedFiles b.route.paramsFiles) k ≠ none)

/-- For a request that can be given a dictionary, every key that comes from the base has the same
value in both orders: of the global files and then those static files of the first route of its key
that are not global, and of the global files and then all of its own. -/
def SameInBothOrders (b : BuiltRoute) (fw : FrameworkState) (now : Moment) (raw : RawRequest)
    (params : PathParams) : Prop :=
  ∀ files, paramsWrites fw now params b.route.paramsFiles = .ok files →
    ParamsValid fw b.route params → ∀ k, b.FromBase fw now raw params files k →
      b.valueIn (b.mergedFiles b.route.paramsFiles) k =
        b.valueIn (b.plainFiles b.route.paramsFiles) k

theorem overlay_eq_none_iff (b : BuiltRoute) {fw : FrameworkState} {now : Moment}
    {raw : RawRequest} {params : PathParams} (files : List (Str × Value)) (k : Str) :
    (withCsrfDefault fw now (mergedDict fw now raw b.compiled params files)).overlay.get? k = none ↔
      b.FromBase fw now raw params files k := by
  have hmerged : mergedDict fw now raw b.compiled params files = ⟨some b.compiled.baseDict,
        SortedMap.empty.insertAll
          (lowerWrites files params raw ++ frameworkWrites fw now raw)⟩ := by
    rw [mergedDict, Dict.insertAll_eq]
    rfl
  have hbase : ∀ k, b.compiled.baseDict.get? k = b.valueIn (b.mergedFiles b.route.paramsFiles) k :=
    get?_sharedBase b.toBuilt b.listed
  rw [FromBase, withCsrfDefault, Dict.containsKey, Dict.get_eq_or, hmerged]
  simp only [get?_insertAll, get?_empty, or_none, bind_some, hbase]
  generalize lowerWrites files params raw ++ frameworkWrites fw now raw = writes
  by_cases hdefault : (fw.csrf && !((lastValue writes "csrf_token".toList).or
      (b.valueIn (b.mergedFiles b.route.paramsFiles) "csrf_token".toList)).isSome) = true
  · -- the default is written
    rw [if_pos hdefault]
    simp only [Bool.and_eq_true, Bool.not_eq_true', isSome_eq_false_iff,
      isNone_iff_eq_none, or_eq_none_iff] at hdefault
    obtain ⟨hcsrf, hwrites, habsent⟩ := hdefault
    simp only [Dict.insert, get?_insert, get?_insertAll, get?_empty, or_none]
    by_cases hk : k = "csrf_token".toList
    · rw [if_pos hk]
      constructor
      · intro h
        cases h
      · intro h
        rw [hk] at h
        exact absurd habsent (h.2 hcsrf rfl)
    · rw [if_neg hk]
      exact ⟨fun h => ⟨h, fun _ htoken => absurd htoken hk⟩, And.left⟩
  · -- it is not
    rw [if_neg hdefault]
    simp only [get?_insertAll, get?_empty, or_none]
    refine ⟨fun h => ⟨h, ?_⟩, And.left⟩
    rintro hcsrf rfl habsent
    rw [hcsrf, h, habsent] at hdefault
    exact hdefault rfl

theorem sameEntries_dict_iff (b : BuiltRoute) {fw : FrameworkState} {now : Moment}
    {raw : RawRequest} {params : PathParams} {files : List (Str × Value)} {dict : Dict}
    (hdict : dict = withCsrfDefault fw now (mergedDict fw now raw b.compiled params files)) :
    dict.SameEntries ((b.plainBase b.route.paramsFiles).insertAll dict.overlay.entries) ↔
      ∀ k, b.FromBase fw now raw params files k → b.valueIn (b.mergedFiles b.route.paramsFiles) k =
        b.valueIn (b.plainFiles b.route.paramsFiles) k := by
  have hbase : ∀ k, b.compiled.baseDict.get? k = b.valueIn (b.mergedFiles b.route.paramsFiles) k :=
    get?_sharedBase b.toBuilt b.listed
  have hshared : dict.base = some b.compiled.baseDict := by
    rw [hdict, withCsrfDefault, mergedDict, Dict.insertAll_eq]
    split_ifs <;> rfl
  rw [Dict.sameEntries_iff]
  refine forall_congr' fun k => ?_
  rw [← b.overlay_eq_none_iff, ← hdict, Dict.get_eq_or, hshared, get?_insertAll, lastValue_entries,
    get?_plainBase, bind_some, hbase]
  cases dict.overlay.get? k with
  | none | some v => simp

/-- **When the shared base is the plain merge.** For any config, files and table, any route of it
and any request: exactly if every key that comes from the base has the same value in both orders. -/
theorem plainMerge_iff (b : BuiltRoute) (fw : FrameworkState) (now : Moment) (raw : RawRequest)
    (params : PathParams) :
    b.PlainMerge fw now raw params ↔ b.SameInBothOrders fw now raw params := by
  constructor
  · intro h files hfiles hvalid
    exact (b.sameEntries_dict_iff rfl).mp (h _ (buildDict_ok.mpr ⟨files, hfiles, hvalid, rfl⟩))
  · intro h dict hdict
    obtain ⟨files, hfiles, hvalid, heq⟩ := buildDict_ok.mp hdict
    exact (b.sameEntries_dict_iff heq).mpr (h files hfiles hvalid)

end BuiltRoute

/-! ## A file that is global and a route's -/

def twoFiles : Files := fun path =>
  if path = "/srv/site/a.json".toList then .contents [97]
  else if path = "/srv/site/b.json".toList then .contents [98]
  else .missing

def titles : Platform := { fourCores [] with
  codec := { (fourCores []).codec with
    jsonFromSlice := fun bytes => some (.object [("title".toList, .string (bytes.map fun b =>
      Char.ofNat b.toNat))]) } }

def titledRoute : RouteConfig where
  path := "/".toList
  template := none
  params := ["a.json".toList]
  status := 200
  cache := "public".toList
  methods := none
  headers := []
  handler := none
  settings := .empty

def titledConfig : RendererConfig :=
  { plainConfig with globalParams := ["a.json".toList, "b.json".toList], routes := [titledRoute] }

def titledDisk : Disk := ⟨twoFiles, fun _ => none, fun _ => none⟩

def titledInputs : Inputs where
  renderer _ _ := .error .notFound
  globalParams := SortedMap.empty.insert "title".toList (.string "b".toList)
  staticParams := SortedMap.empty.insert "a.json".toList
    (SortedMap.empty.insert "title".toList (.string "a".toList))

theorem titled_read : readInputs titles titledDisk plainService titledConfig =
    .ok titledInputs := by
  rfl

def titledBuilt : BuiltRoute where
  os := titles
  disk := titledDisk
  svc := plainService
  config := titledConfig
  inputs := titledInputs
  read := titled_read
  route := .compile "/".toList .any ["a.json".toList] .empty .empty
  listed := List.mem_singleton_self _

theorem global_over_own : ¬ titledBuilt.PlainMerge (M6.plainService []) plainMoment
    (plainRequest "GET" "/" "" []) [] := by
  intro h
  have hdict := h _ (buildDict_ok.mpr ⟨[], rfl, fun p hp => absurd hp not_mem_nil, rfl⟩)
  have htitle := (titledBuilt.sameEntries_dict_iff rfl).mp hdict "title".toList
    ⟨by decide, fun _ h => absurd h (by decide)⟩
  exact absurd (congrArg (fun v => v.bind Value.asStr) htitle) (by decide)

end App

end M6
