import M6.Core.ClientKeys
import M6.Core.Specificity

/-!
# The params files of a request

A params file of a route may have the captures of the request in its name. `build_dict` of `app.rs`
fills them in, opens the file and caches it, and checks the captures only after all files are
loaded.

`openedParams` lists the files that are opened, and `mem_openedParams` says when one is.
`paramsInside_iff` says of which requests the check that comes too late is not missed: every capture
in the name of an opened file would have passed it, and the name has no `..` but the template's.
That a capture makes no name absolute holds in any case (`head?_resolvePathTemplate`).
-/

namespace M6

open List

/-! ## What is opened -/

/-- The params files that a request opens, each template with its name. What was loaded before it
in the same request is in the cache. -/
def openedParams (fw : FrameworkState) (now : Moment) (params : PathParams) :
    List Str → List Str → List (Str × Str)
  | _, [] => []
  | loaded, template :: rest =>
    if '{' ∉ template then openedParams fw now params loaded rest
    else
      let name := resolvePathTemplate template params
      if (now.paramsCache name).isSome ∨ name ∈ loaded then openedParams fw now params loaded rest
      else
        match now.disk (joinPath fw.siteDir name) with
        | .missing => openedParams fw now params loaded rest
        | _ => (template, name) ::
          match loadParams fw now name with
          | .error _ => []
          | .ok _ => openedParams fw now params (name :: loaded) rest

/-- The captures that are filled into a template, one after another. -/
def filledParams : Str → PathParams → PathParams
  | _, [] => []
  | text, p :: rest =>
    (if placeholder p.1 <:+: text then [p] else []) ++
      filledParams (Text.replace text (placeholder p.1) p.2) rest

/-- A name has the `..` of its template alone. -/
def NoNewDots (template name : Str) : Prop :=
  (name.splitOn '/').count "..".toList = (template.splitOn '/').count "..".toList

/-- The captures in the name of a file pass their checks. -/
def FilledValid (fw : FrameworkState) (route : CompiledRoute) (params : PathParams)
    (template : Str) : Prop :=
  ∀ p ∈ filledParams template params,
    ∃ v, validatePathParam fw.unicode p.2 (route.isWildcardParam p.1) = .ok v

/-- **Params files stay inside.** Whatever file is opened for a path, the captures in its name pass
their checks, and the name has neither `..` nor a root that its template does not have. -/
def ParamsInside (fw : FrameworkState) (now : Moment) (route : CompiledRoute) (path : Str) : Prop :=
  ∀ params, matchRoute (pathSegments path) route.segments = some params →
    ∀ file ∈ openedParams fw now params [] route.paramsFiles,
      FilledValid fw route params file.1 ∧ NoNewDots file.1 file.2 ∧
        (file.2.head? = some '/' → file.1.head? = some '/')

section

variable {fw : FrameworkState} {now : Moment} {params : PathParams}

/-- The files before one are loaded without an error. -/
def Reached (fw : FrameworkState) (now : Moment) (params : PathParams)
    (earlier : List Str) : Prop :=
  ∃ writes, paramsWrites fw now params earlier = .ok writes

theorem reached_nil : Reached fw now params [] := ⟨[], rfl⟩

theorem reached_cons {template : Str} {rest : List Str} :
    Reached fw now params (template :: rest) ↔
      ('{' ∈ template → ∃ m, loadParams fw now (resolvePathTemplate template params) = .ok m) ∧
        Reached fw now params rest := by
  rw [Reached, Reached, paramsWrites]
  by_cases hstatic : '{' ∉ template
  · rw [if_pos hstatic]
    simp [hstatic]
  · rw [if_neg hstatic]
    rw [not_not] at hstatic
    cases hload : loadParams fw now (resolvePathTemplate template params) with
    | error e => simp [hstatic]
    | ok m =>
      cases m with
      | none => simp
      | some m =>
        cases hrest : paramsWrites fw now params rest with
        | error e | ok writes => simp [Except.map]

/-- A file is opened behind others: its name has a placeholder, the others are loaded, it is not in
the cache nor loaded before, and something is on the disk. -/
structure OpenedAfter (fw : FrameworkState) (now : Moment) (params : PathParams)
    (loaded earlier : List Str) (file : Str × Str) : Prop where
  templated : '{' ∈ file.1
  named : file.2 = resolvePathTemplate file.1 params
  reached : Reached fw now params earlier
  uncached : now.paramsCache file.2 = none
  fresh : file.2 ∉ loaded
  first : ∀ e ∈ earlier, '{' ∈ e → resolvePathTemplate e params ≠ file.2
  found : now.disk (joinPath fw.siteDir file.2) ≠ .missing

theorem exists_split_cons {α : Type} {x y : α} {l : List α} {P : List α → Prop} :
    (∃ earlier later, x :: l = earlier ++ y :: later ∧ P earlier) ↔
      (x = y ∧ P []) ∨ ∃ earlier later, l = earlier ++ y :: later ∧ P (x :: earlier) := by
  constructor
  · rintro ⟨earlier, later, h, hP⟩
    cases earlier with
    | nil => exact Or.inl ⟨(List.cons.inj h).1, hP⟩
    | cons z earlier =>
      obtain ⟨rfl, hl⟩ := List.cons.inj h
      exact Or.inr ⟨earlier, later, hl, hP⟩
  · rintro (⟨rfl, hP⟩ | ⟨earlier, later, rfl, hP⟩)
    · exact ⟨[], l, rfl, hP⟩
    · exact ⟨x :: earlier, later, rfl, hP⟩

theorem openedAfter_skip {loaded earlier : List Str} {template : Str} {file : Str × Str}
    (hloads : '{' ∈ template → ∃ m, loadParams fw now (resolvePathTemplate template params) = .ok m)
    (hother : '{' ∈ template → now.paramsCache file.2 = none → file.2 ∉ loaded →
      now.disk (joinPath fw.siteDir file.2) ≠ .missing →
        resolvePathTemplate template params ≠ file.2) :
    OpenedAfter fw now params loaded (template :: earlier) file ↔
      OpenedAfter fw now params loaded earlier file := by
  constructor
  · intro h
    exact { h with
      reached := (reached_cons.mp h.reached).2
      first := fun e he => h.first e (mem_cons_of_mem _ he) }
  · intro h
    refine { h with reached := reached_cons.mpr ⟨hloads, h.reached⟩, first := fun e he => ?_ }
    rcases mem_cons.mp he with rfl | he
    · exact fun ht => hother ht h.uncached h.fresh h.found
    · exact h.first e he

theorem loadParams_of_cached {name : Str} (h : (now.paramsCache name).isSome) :
    ∃ m, loadParams fw now name = .ok m := by
  obtain ⟨m, hm⟩ := Option.isSome_iff_exists.mp h
  exact ⟨some m, by rw [loadParams, hm]⟩

theorem loadParams_of_missing {name : Str} (h : now.paramsCache name = none)
    (hdisk : now.disk (joinPath fw.siteDir name) = .missing) : loadParams fw now name =
      .ok none := by
  rw [loadParams, h]
  simp only [hdisk]

/-- Nothing is opened at a template, and the search goes on. -/
theorem exists_openedAfter_skip {template : Str} {rest loaded : List Str} {file : Str × Str}
    (hnot : template = file.1 → ¬ OpenedAfter fw now params loaded [] file)
    (hloads : '{' ∈ template → ∃ m, loadParams fw now (resolvePathTemplate template params) = .ok m)
    (hother : '{' ∈ template → now.paramsCache file.2 = none → file.2 ∉ loaded →
      now.disk (joinPath fw.siteDir file.2) ≠ .missing →
        resolvePathTemplate template params ≠ file.2) :
    (∃ earlier later, rest = earlier ++ file.1 :: later ∧
        OpenedAfter fw now params loaded earlier file) ↔
      (template = file.1 ∧ OpenedAfter fw now params loaded [] file) ∨
        ∃ earlier later, rest = earlier ++ file.1 :: later ∧
          OpenedAfter fw now params loaded (template :: earlier) file := by
  simp only [openedAfter_skip hloads hother]
  exact ⟨Or.inr, fun h => h.resolve_left fun h => hnot h.1 h.2⟩

/-- The file of a template that is loaded is one of those that were. -/
theorem openedAfter_load {loaded earlier : List Str} {template : Str} {file : Str × Str}
    {m : Option DictMap} (ht : '{' ∈ template)
    (hload : loadParams fw now (resolvePathTemplate template params) = .ok m) :
    OpenedAfter fw now params (resolvePathTemplate template params :: loaded) earlier file ↔
      OpenedAfter fw now params loaded (template :: earlier) file := by
  constructor
  · intro h
    obtain ⟨hne, hfresh⟩ := not_or.mp (mt mem_cons.mpr h.fresh)
    refine { h with fresh := hfresh, reached := ?_, first := fun e he => ?_ }
    · exact reached_cons.mpr ⟨fun _ => ⟨m, hload⟩, h.reached⟩
    · rcases mem_cons.mp he with rfl | he
      · exact fun _ heq => hne heq.symm
      · exact h.first e he
  · intro h
    refine { h with
      fresh := fun hmem => ?_
      reached := (reached_cons.mp h.reached).2
      first := fun e he => h.first e (mem_cons_of_mem _ he) }
    rcases mem_cons.mp hmem with heq | hmem
    · exact h.first template mem_cons_self ht heq.symm
    · exact h.fresh hmem

/-- **When a file is opened.** -/
theorem mem_openedParams {files loaded : List Str} {file : Str × Str}
    (hloaded : ∀ n ∈ loaded, ∃ m, loadParams fw now n = .ok m) :
    file ∈ openedParams fw now params loaded files ↔
      ∃ earlier later, files = earlier ++ file.1 :: later ∧
        OpenedAfter fw now params loaded earlier file := by
  induction files generalizing loaded with
  | nil => simp [openedParams]
  | cons template rest ih =>
    rw [openedParams, exists_split_cons]
    by_cases hstatic : '{' ∉ template
    · rw [if_pos hstatic, ih hloaded]
      refine exists_openedAfter_skip ?_ (fun h => absurd h hstatic) fun h => absurd h hstatic
      rintro rfl h
      exact hstatic h.templated
    rw [if_neg hstatic]
    rw [not_not] at hstatic
    dsimp only
    by_cases hknown : (now.paramsCache (resolvePathTemplate template params)).isSome ∨
        resolvePathTemplate template params ∈ loaded
    · rw [if_pos hknown, ih hloaded]
      refine exists_openedAfter_skip ?_ (fun _ => hknown.elim loadParams_of_cached (hloaded _)) ?_
      · rintro rfl h
        rw [← h.named] at hknown
        rcases hknown with hknown | hknown
        · rw [h.uncached] at hknown
          cases hknown
        · exact h.fresh hknown
      · rintro - hcache hfresh - heq
        rw [heq, hcache] at hknown
        exact hknown.elim (by simp) hfresh
    · rw [if_neg hknown]
      rw [not_or, Option.not_isSome_iff_eq_none] at hknown
      by_cases hdisk : now.disk (joinPath fw.siteDir
        (resolvePathTemplate template params)) = .missing
      · simp only [hdisk]
        rw [ih hloaded]
        refine exists_openedAfter_skip ?_ (fun _ => ⟨_, loadParams_of_missing hknown.1 hdisk⟩) ?_
        · rintro rfl h
          exact h.found (h.named ▸ hdisk)
        · rintro - - - hfound heq
          exact hfound (heq ▸ hdisk)
      · have hopened : file ∈ (template, resolvePathTemplate template params) ::
              (match loadParams fw now (resolvePathTemplate template params) with
                | .error _ => []
                | .ok _ => openedParams fw now params
                    (resolvePathTemplate template params :: loaded) rest) ↔
            (template = file.1 ∧ OpenedAfter fw now params loaded [] file) ∨
              ∃ earlier later, rest = earlier ++ file.1 :: later ∧
                OpenedAfter fw now params loaded (template :: earlier) file := by
          rw [mem_cons]
          refine or_congr ⟨?_, ?_⟩ ?_
          · rintro rfl
            exact ⟨rfl, hstatic, rfl, reached_nil, hknown.1, hknown.2,
              fun e he => absurd he not_mem_nil, hdisk⟩
          · rintro ⟨rfl, h⟩
            exact Prod.ext rfl h.named
          cases hload : loadParams fw now (resolvePathTemplate template params) with
          | error e =>
            refine ⟨fun h => absurd h not_mem_nil, ?_⟩
            rintro ⟨earlier, later, -, h⟩
            obtain ⟨m, hm⟩ := (reached_cons.mp h.reached).1 hstatic
            rw [hload] at hm
            cases hm
          | ok m =>
            dsimp only
            rw [ih (forall_mem_cons.mpr ⟨⟨m, hload⟩, hloaded⟩)]
            simp only [openedAfter_load hstatic hload]
        cases hd : now.disk (joinPath fw.siteDir (resolvePathTemplate template params)) with
        | missing => exact absurd hd hdisk
        | unreadable | contents data => exact hopened

/-! ## Names that the captures make -/

theorem head?_replace {s pat v : Str} (hpat : pat ≠ []) (hne : v ≠ []) (hv : v.head? ≠ some '/')
    (h : (Text.replace s pat v).head? = some '/') : s.head? = some '/' := by
  cases s with
  | nil => cases h
  | cons c s =>
    by_cases hmatch : pat <+: c :: s
    · obtain ⟨t, ht⟩ := hmatch
      rw [← ht, Text.replace_append v t hpat, head?_append_of_ne_nil _ hne] at h
      exact absurd h hv
    · rw [Text.replace_cons_of_no_match v hmatch] at h
      exact h

theorem capture_of_matchRoute {segs : List Segment} (hlast : WildcardLast segs) {ps : List Str}
    (hps : IsSegments ps) (h : matchRoute ps segs = some params) :
    ∀ p ∈ params, p.2 ≠ [] ∧ p.2.head? ≠ some '/' := by
  have hone : ∀ q ∈ ps, q ≠ [] ∧ q.head? ≠ some '/' := fun q hq =>
    ⟨(hps q hq).1, fun hhead => (hps q hq).2 (mem_of_mem_head? hhead)⟩
  induction segs generalizing ps params with
  | nil =>
    rw [matchRoute_nil] at h
    split_ifs at h
    cases h
    exact fun p hp => absurd hp not_mem_nil
  | cons seg segs ih =>
    cases ps with
    | nil =>
      rw [matchRoute_nil_cons] at h
      cases h
    | cons q ps =>
      obtain ⟨hq, hrest⟩ := forall_mem_cons.mp hone
      have hps' : IsSegments ps := fun r hr => hps r (mem_cons_of_mem _ hr)
      cases seg with
      | literal t =>
        rw [matchRoute_literal] at h
        split_ifs at h
        exact ih hlast hps' h hrest
      | param name =>
        rw [matchRoute_param] at h
        obtain ⟨rest, hmatch, rfl⟩ := Option.map_eq_some_iff.mp h
        exact forall_mem_cons.mpr ⟨hq, ih hlast hps' hmatch hrest⟩
      | wildcard name =>
        obtain rfl := hlast
        rw [matchRoute_wildcard] at h
        cases h
        intro p hp
        rw [mem_singleton.mp hp]
        cases ps with
        | nil => simpa using hq
        | cons r ps =>
          rw [intercalate_cons_cons]
          refine ⟨by simp [hq.1], ?_⟩
          rw [append_assoc, head?_append_of_ne_nil _ hq.1]
          exact hq.2

/-- **No capture makes a name absolute.** -/
theorem head?_resolvePathTemplate {template : Str}
    (h : ∀ p ∈ params, p.2 ≠ [] ∧ p.2.head? ≠ some '/')
    (hroot : (resolvePathTemplate template params).head? = some '/') : template.head? =
      some '/' := by
  induction params generalizing template with
  | nil => exact hroot
  | cons p params ih =>
    obtain ⟨hp, hrest⟩ := forall_mem_cons.mp h
    have hnext := ih hrest hroot
    exact head?_replace (by simp [placeholder]) hp.1 hp.2 hnext

end

/-- A templated file is harmless at its turn: a file before it does not load, or its name is in the
cache, or a file before it has that name, or nothing is on the disk there; or else the captures in
its name pass their checks, and make no `..`. -/
def OpenedSafely (fw : FrameworkState) (now : Moment) (route : CompiledRoute) (params : PathParams)
    (earlier : List Str) (template : Str) : Prop :=
  let name := resolvePathTemplate template params
  ¬ Reached fw now params earlier ∨ (now.paramsCache name).isSome ∨
    (∃ e ∈ earlier, '{' ∈ e ∧ resolvePathTemplate e params = name) ∨
    now.disk (joinPath fw.siteDir name) = .missing ∨
    (FilledValid fw route params template ∧ NoNewDots template name)

/-- **When the params files stay inside.** For any service, disk and cache, route and path: exactly
if every templated file of the route is guarded at its turn. -/
theorem paramsInside_iff (fw : FrameworkState) (now : Moment) (route : CompiledRoute) (path : Str) :
    ParamsInside fw now route path ↔
      ∀ params, matchRoute (pathSegments path) route.segments = some params →
        ∀ earlier template later, route.paramsFiles = earlier ++ template :: later →
          '{' ∈ template → OpenedSafely fw now route params earlier template := by
  refine forall_congr' fun params => imp_congr_right fun hmatch => ?_
  have hnone : ∀ n ∈ ([] : List Str), ∃ m, loadParams fw now n = .ok m :=
    fun n hn => absurd hn not_mem_nil
  constructor
  · intro h earlier template later hfiles htemplated
    by_contra hguard
    simp only [OpenedSafely, not_or, not_not, not_exists, not_and, Option.not_isSome_iff_eq_none]
      at hguard
    obtain ⟨hreached, hcache, hfirst, hdisk, hbad⟩ := hguard
    have hmem : (template, resolvePathTemplate template params) ∈
        openedParams fw now params [] route.paramsFiles :=
      (mem_openedParams hnone).mpr ⟨earlier, later, hfiles, htemplated, rfl, hreached, hcache,
        not_mem_nil, hfirst, hdisk⟩
    obtain ⟨hvalid, hdots, -⟩ := h _ hmem
    exact hbad hvalid hdots
  · intro h file hfile
    obtain ⟨earlier, later, hfiles, hopened⟩ := (mem_openedParams hnone).mp hfile
    have hroot : file.2.head? = some '/' → file.1.head? = some '/' := by
      rw [hopened.named]
      exact head?_resolvePathTemplate
        (capture_of_matchRoute route.wildcardLast (isSegments_pathSegments path) hmatch)
    have hguard := h earlier file.1 later hfiles hopened.templated
    rw [OpenedSafely, ← hopened.named] at hguard
    rcases hguard with hreached | hcache | ⟨e, he, htemplated, hname⟩ | hdisk | hinside
    · exact absurd hopened.reached hreached
    · rw [hopened.uncached] at hcache
      cases hcache
    · exact absurd hname (hopened.first e he htemplated)
    · exact absurd hdisk hopened.found
    · exact ⟨hinside.1, hinside.2, hroot⟩

def pagesRoute : CompiledRoute :=
  .compile "/pages/{name}".toList .any ["data/{name}/page.json".toList] .empty .empty

def crowdedMoment : Moment := { plainMoment with disk := fun _ => .contents [] }

theorem parent_opened : ¬ ParamsInside (plainService "/srv".toList) crowdedMoment pagesRoute
    "/pages/..".toList := by
  intro h
  have hopened : openedParams (plainService "/srv".toList) crowdedMoment
    [("name".toList, "..".toList)]
      [] pagesRoute.paramsFiles =
        [("data/{name}/page.json".toList, "data/../page.json".toList)] := by
    decide
  obtain ⟨-, hdots, -⟩ := h [("name".toList, "..".toList)] (by decide) _
    (hopened ▸ mem_singleton_self _)
  rw [NoNewDots] at hdots
  exact absurd hdots (by decide)

end M6
