import M6.Core.ClientKeys

/-!
# Which file the file server opens

`resolveFsPath` is `resolve_fs_path` of the file server's `handler.rs`. It takes
the captured path and the values of the placeholders in the route's `root` out of
the **merged** request dictionary, so a query pair of the same name takes the
place of the validated capture.

The intended file (`intendedFile`) depends on the route and the request path
alone. The main result, `confined_iff`, says which submitted names keep the two
equal: exactly those the resolver does not read (`Reads`).
-/

namespace M6

open List Option SortedMap Text

/-! ## The resolver -/

def routeStr (settings : DictMap) (key : Str) : Option Str := (settings.get? key).bind Value.asStr

def fillStep (root : Str) (entry : Str × Value) : Str :=
  match entry.2.asStr with
  | some s => Text.replace root (placeholder entry.1) s
  | none => root

/-- The captured path: `relpath`, else `filename`, else nothing. -/
def relOf (dict : Dict) : Str :=
  (((dict.get "relpath".toList).or (dict.get "filename".toList)).bind Value.asStr).getD []

def resolveFsPath (settings : DictMap) (dict : Dict) (siteDir : Str) : Str :=
  let root := (routeStr settings "root".toList).getD []
  let root := if '{' ∈ root then dict.iter.foldl fillStep root else root
  let rel := relOf dict
  if rel = [] then joinPath siteDir root else joinPath (joinPath siteDir root) rel

/-- The file that `serve` opens, and `serve_tail` for it: none for another method
than `GET` and `HEAD`, and none when core answers the request itself. -/
def servedFile (fw : FrameworkState) (now : Moment) (raw : RawRequest) : Option Str :=
  if raw.method ≠ "GET".toList ∧ raw.method ≠ "HEAD".toList then none
  else
    match findRoute raw.path raw.method fw.routes with
    | none => none
    | some (route, params) =>
      match buildDict fw now raw route params with
      | .error _ => none
      | .ok dict => some (resolveFsPath route.settings dict (joinPath fw.siteDir []))

/-! ## The intended file -/

def captures (params : PathParams) : SortedMap Str Str := SortedMap.empty.insertAll params

def fillCapture (root : Str) (c : Str × Str) : Str := Text.replace root (placeholder c.1) c.2

def filledRoot (root : Str) (caps : SortedMap Str Str) : Str := caps.entries.foldl fillCapture root

/-- The root with the captures of smaller names filled in: what it is at the turn
of `k`. -/
def rootAt (root : Str) (caps : SortedMap Str Str) (k : Str) : Str :=
  (SortedMap.below k caps.entries).foldl fillCapture root

def capture (caps : SortedMap Str Str) : Str :=
  ((caps.get? "relpath".toList).or (caps.get? "filename".toList)).getD []

def servedDir (siteDir root : Str) (caps : SortedMap Str Str) : Str :=
  joinPath siteDir (filledRoot root caps)

def intendedFile (siteDir root : Str) (caps : SortedMap Str Str) : Str :=
  if capture caps = [] then servedDir siteDir root caps
  else joinPath (servedDir siteDir root caps) (capture caps)

def Under (dir path : Str) : Prop :=
  path = dir ∨ ∃ rel, rel.head? ≠ some '/' ∧ "..".toList ∉ rel.splitOn '/' ∧
    path = joinPath dir rel

/-- Whether the resolver takes a value from the request layers under a name:
`relpath`; `filename` when no `relpath` was captured; and any name whose
placeholder stands in the root at its turn. -/
def Reads (root : Str) (caps : SortedMap Str Str) (k : Str) : Prop :=
  k = "relpath".toList ∨ (k = "filename".toList ∧ caps.get? "relpath".toList = none) ∨
    placeholder k <:+: rootAt root caps k

def frameworkKeys : List Str :=
  ["query".toList, "cookies".toList, "request_path".toList, "datetime".toList, "year".toList,
    "flash".toList, "csrf_token".toList] ++ authKeys

/-- The site's own layers do not compete with the captures: no params file, base
key or framework key carries a name the resolver reads, unless the path captures
it. Base keys come last in the dictionary, so their turn is after all captures. -/
structure Quiet (fw : FrameworkState) (now : Moment) (route : CompiledRoute) (params : PathParams)
    (root : Str) : Prop where
  files : ∀ e ∈ paramsEntries fw now route params, (captures params).get? e.1 = none →
    ¬ Reads root (captures params) e.1
  base : ∀ e ∈ route.baseDict.entries, (captures params).get? e.1 = none →
    e.1 ≠ "relpath".toList ∧
      (e.1 = "filename".toList → (captures params).get? "relpath".toList ≠ none) ∧
      ¬ placeholder e.1 <:+: filledRoot root (captures params)
  framework : ∀ k ∈ frameworkKeys, ¬ Reads root (captures params) k

/-! ## Replacing -/

theorem placeholder_ne_nil (k : Str) : placeholder k ≠ [] := by
  simp [placeholder]

variable {root : Str}

theorem foldl_fillStep_of_no_brace (l : List (Str × Value)) (h : '{' ∉ root) :
    l.foldl fillStep root = root := by
  induction l with
  | nil => rfl
  | cons e l ih =>
    have hstep : fillStep root e = root := by
      rw [fillStep]
      split
      · refine replace_of_absent _ fun hin => h (hin.subset ?_)
        simp [placeholder]
      · rfl
    rw [foldl_cons, hstep, ih]

theorem resolveFsPath_eq (settings : DictMap) (dict : Dict) (siteDir : Str) :
    resolveFsPath settings dict siteDir =
      let root := dict.iter.foldl fillStep ((routeStr settings "root".toList).getD [])
      if relOf dict = [] then joinPath siteDir root
      else joinPath (joinPath siteDir root) (relOf dict) := by
  rw [resolveFsPath]
  simp only
  by_cases h : '{' ∈ (routeStr settings "root".toList).getD []
  · rw [if_pos h]
  · rw [if_neg h, foldl_fillStep_of_no_brace _ h]

theorem fillStep_of_absent {e : Str × Value} (h : ¬ placeholder e.1 <:+: root) :
    fillStep root e = root := by
  rw [fillStep]
  split
  · exact replace_of_absent _ h
  · rfl

theorem fillCapture_of_absent {c : Str × Str} (h : ¬ placeholder c.1 <:+: root) :
    fillCapture root c = root := replace_of_absent _ h

theorem foldl_fillStep_of_absent {l : List (Str × Value)}
    (h : ∀ e ∈ l, ¬ placeholder e.1 <:+: root) : l.foldl fillStep root = root := by
  induction l with
  | nil => rfl
  | cons e l ih =>
    rw [foldl_cons, fillStep_of_absent (h e (mem_cons_self ..)),
      ih fun a ha => h a (mem_cons_of_mem _ ha)]

theorem block_infix_foldl_fillStep {v root : Str} (hopen : '{' ∉ v) (hclose : '}' ∉ v)
    {l : List (Str × Value)} (hlen : ∀ e ∈ l, e.1.length < v.length) (h : v <:+: root) :
    v <:+: l.foldl fillStep root := by
  induction l generalizing root with
  | nil => exact h
  | cons e l ih =>
    refine ih (fun a ha => hlen a (mem_cons_of_mem _ ha)) ?_
    rw [fillStep]
    split
    · exact infix_replace_of_block _ hopen hclose (hlen e (mem_cons_self ..)) h
    · exact h

/-! ## Joining -/

theorem infix_joinPath_right (dir path : Str) : path <:+: joinPath dir path := by
  rw [joinPath]
  split_ifs
  · exact infix_rfl
  · exact (suffix_append _ _).isInfix
  · exact ⟨dir ++ ['/'], [], by simp⟩

theorem infix_joinPath_left {dir path : Str} (h : path.head? ≠ some '/') :
    dir <:+: joinPath dir path := by
  rw [joinPath]
  rw [if_neg h]
  split_ifs
  all_goals exact (prefix_append _ _).isInfix

/-! ## What the overlay holds -/

section

variable {fw : FrameworkState} {now : Moment} {raw : RawRequest} {route : CompiledRoute}
  {params : PathParams} {dict : Dict} {root : Str}

theorem captures_get? (params : PathParams) (k : Str) :
    (captures params).get? k = SortedMap.lastValue params k := by
  rw [captures, get?_insertAll, get?_empty, or_none]

section

variable (h : buildDict fw now raw route params = .ok dict)

include h

theorem base_of_buildDict :
    dict.base = some route.baseDict := by
  obtain ⟨files, -, -, rfl⟩ := buildDict_ok.mp h
  rw [withCsrfDefault, mergedDict]
  rw [Dict.insertAll_eq]
  split_ifs <;> rfl

theorem overlay_get? {k : Str}
    (hk : k ∉ frameworkKeys) : dict.overlay.get? k =
      ((SortedMap.lastValue (submitted raw) k).map Value.string).or
        (((captures params).get? k).map Value.string |>.or
          (SortedMap.lastValue (paramsEntries fw now route params) k)) := by
  obtain ⟨files, hf, -, rfl⟩ := buildDict_ok.mp h
  have hentries : paramsEntries fw now route params = files := by
    rw [paramsEntries]
    rw [hf]
  have hnames : ∀ name ∈ frameworkKeys, k ≠ name := fun name hname hkn => hk (hkn ▸ hname)
  have hquery : ∀ v : Value, lastValue [("query".toList, v)] k = none := by
    intro v
    rw [lastValue_eq_none]
    intro e he
    rw [mem_singleton.mp he]
    exact (hnames "query".toList (by decide)).symm
  have hbuiltin : k ∉ ["cookies".toList, "request_path".toList, "datetime".toList,
      "year".toList] := by
    intro hmem
    have hsub : ∀ name ∈ ["cookies".toList, "request_path".toList, "datetime".toList,
        "year".toList], name ∈ frameworkKeys := by decide
    exact hk (hsub k hmem)
  have hframework : lastValue (frameworkWrites fw now raw) k = none := by
    rw [lastValue_frameworkWrites hbuiltin, if_neg (hnames _ (by decide)),
      authClaims_get?_eq_none fun hmem => hk (mem_append_right _ hmem)]
    rfl
  have hoverlay : (withCsrfDefault fw now (mergedDict fw now raw route params files)).overlay.get? k
      = (mergedDict fw now raw route params files).overlay.get? k := by
    rw [withCsrfDefault]
    split_ifs
    · exact (get?_insert _ _ _ _).trans (if_neg (hnames _ (by decide)))
    · rfl
  rw [hoverlay]
  rw [mergedDict, lowerWrites, submitted]
  rw [Dict.insertAll_eq]
  change (SortedMap.empty.insertAll _).get? k = _
  rw [get?_insertAll, get?_empty, hentries, captures_get?]
  simp only [lastValue_append, lastValue_strings, hquery, hframework, none_or,
    or_none, Option.or_assoc, map_or]

theorem overlay_of_captured {k c : Str}
    (hk : (captures params).get? k = some c) : ∃ v, dict.overlay.get? k = some v := by
  obtain ⟨files, hf, -, rfl⟩ := buildDict_ok.mp h
  have hmem : (k, Value.string c) ∈
      lowerWrites files params raw ++ frameworkWrites fw now raw := by
    rw [captures_get?] at hk
    have hp : (k, Value.string c) ∈ strings params := mem_map.mpr ⟨(k, c), mem_of_lastValue hk, rfl⟩
    rw [lowerWrites]
    simp only [mem_append]
    exact .inl (.inl (.inl (.inl (.inr hp))))
  have hmerged : ∃ v, (mergedDict fw now raw route params files).overlay.get? k = some v := by
    rw [mergedDict]
    rw [Dict.insertAll_eq]
    change ∃ v, (SortedMap.empty.insertAll _).get? k = some v
    rw [get?_insertAll]
    rcases hlast : lastValue
      (lowerWrites files params raw ++ frameworkWrites fw now raw) k with _ | v
    · exact absurd rfl (lastValue_eq_none.mp hlast _ hmem)
    · exact ⟨v, rfl⟩
  rw [withCsrfDefault]
  split_ifs
  · obtain ⟨v, hv⟩ := hmerged
    rw [show ((mergedDict fw now raw route params files).insert "csrf_token".toList
      _).overlay.get? k
      = _ from get?_insert _ _ _ _]
    split_ifs
    · exact ⟨_, rfl⟩
    · exact ⟨v, hv⟩
  · exact hmerged

theorem overlay_names {k : Str} {v : Value}
    (hv : dict.overlay.get? k = some v) :
    k ∈ frameworkKeys ∨ (∃ w, (k, w) ∈ submitted raw) ∨ (∃ c, (captures params).get? k = some c) ∨
      ∃ e ∈ paramsEntries fw now route params, e.1 = k := by
  by_cases hk : k ∈ frameworkKeys
  · exact .inl hk
  rw [overlay_get? h hk] at hv
  rcases hsub : lastValue (submitted raw) k with _ | w
  · rcases hcap : (captures params).get? k with _ | c
    · rw [hsub, hcap] at hv
      exact .inr (.inr (.inr ⟨_, mem_of_lastValue hv, rfl⟩))
    · exact .inr (.inr (.inl ⟨c, rfl⟩))
  · exact .inr (.inl ⟨w, mem_of_lastValue hsub⟩)

/-! ## The root and the capture, when nothing read is submitted -/

/-- **Filling along the overlay.** Over a stretch of the overlay none of whose
names is both submitted and read, filling from the dictionary is filling from the
captures of that stretch. -/
theorem foldl_fillStep_along
    (hquiet : Quiet fw now route params root) {l : List (Str × Value)} {c : List (Str × Str)}
    (hl : l.Pairwise fun a b => a.1 < b.1) (hc : c.Pairwise fun a b => a.1 < b.1)
    (hsub : ∀ e ∈ c, ∃ v, (e.1, v) ∈ l) (hmem : ∀ k v, (k, v) ∈ l → dict.overlay.get? k = some v)
    (hcap : ∀ k v, (k, v) ∈ l → ∀ w, (k, w) ∈ c ↔ (captures params).get? k = some w)
    (hturn : ∀ k v, (k, v) ∈ l →
      (SortedMap.below k c).foldl fillCapture root = rootAt root (captures params) k)
    (hfree : ∀ k v, (k, v) ∈ l → ∀ w, (k, w) ∈ submitted raw → ¬ Reads root (captures params) k) :
    l.foldl fillStep root = c.foldl fillCapture root := by
  refine foldl_along hl hc hsub (fun k v w hkl hkc => ?_) (fun k v hkl hkc => ?_)
  · rw [hturn k v hkl]
    by_cases hin : placeholder k <:+: rootAt root (captures params) k
    · -- the placeholder is there: the name is read, so the value is the capture
      have hreads : Reads root (captures params) k := .inr (.inr hin)
      have hfw : k ∉ frameworkKeys := fun hk => hquiet.framework k hk hreads
      have hlast : lastValue (submitted raw) k = none := by
        rw [lastValue_eq_none]
        rintro ⟨k', w'⟩ he rfl
        exact hfree _ v hkl w' he hreads
      have hval := hmem k v hkl
      rw [overlay_get? h hfw, hlast, (hcap k v hkl w).mp hkc] at hval
      cases hval
      rfl
    · rw [fillStep_of_absent hin, fillCapture_of_absent hin]
  · rw [hturn k v hkl]
    refine fillStep_of_absent fun hin => ?_
    have hreads : Reads root (captures params) k := .inr (.inr hin)
    rcases overlay_names h (hmem k v hkl) with hk | ⟨w, hw⟩ | ⟨w, hw⟩ | ⟨e, he, rfl⟩
    · exact hquiet.framework k hk hreads
    · exact hfree k v hkl w hw hreads
    · exact hkc w ((hcap k v hkl w).mpr hw)
    · refine hquiet.files e he ?_ hreads
      rcases hg : (captures params).get? e.1 with _ | w
      · rfl
      · exact absurd ((hcap _ v hkl w).mpr hg) (hkc w)

theorem base_absent
    (hquiet : Quiet fw now route params root) :
    ∀ e ∈ route.baseDict.entries.filter (fun e => (dict.overlay.get? e.1).isNone),
      ¬ placeholder e.1 <:+: filledRoot root (captures params) := by
  intro e he
  obtain ⟨hbase, hfree⟩ := mem_filter.mp he
  refine (hquiet.base e hbase ?_).2.2
  rcases hg : (captures params).get? e.1 with _ | c
  · rfl
  · obtain ⟨v, hv⟩ := overlay_of_captured h hg
    rw [hv] at hfree
    cases hfree

theorem foldl_iter_eq_filledRoot
    (hquiet : Quiet fw now route params root)
    (hfree : ∀ k w, (k, w) ∈ submitted raw → ¬ Reads root (captures params) k) :
    dict.iter.foldl fillStep root = filledRoot root (captures params) := by
  have hoverlay : dict.overlay.entries.foldl fillStep root = filledRoot root (captures params) := by
    refine foldl_fillStep_along h hquiet dict.overlay.sorted (captures params).sorted ?_ ?_ ?_ ?_ ?_
    · intro e he
      obtain ⟨v, hv⟩ := overlay_of_captured h (mem_entries.mp he)
      exact ⟨v, mem_entries.mpr hv⟩
    · exact fun k v hkv => mem_entries.mp hkv
    · exact fun k v _ w => mem_entries
    · exact fun k v _ => rfl
    · exact fun k v _ w hw => hfree k w hw
  rw [Dict.iter]
  rw [base_of_buildDict h, foldl_append, hoverlay]
  exact foldl_fillStep_of_absent (base_absent h hquiet)

theorem get_of_captured
    (hquiet : Quiet fw now route params root) {k : Str} (hk : k ∉ frameworkKeys)
    (hname : k = "relpath".toList ∨
      k = "filename".toList ∧ (captures params).get? "relpath".toList = none)
    (hsub : ∀ w, (k, w) ∉ submitted raw) :
    dict.get k = ((captures params).get? k).map Value.string := by
  have hlast : lastValue (submitted raw) k = none := by
    rw [lastValue_eq_none]
    rintro ⟨k', w⟩ he rfl
    exact hsub w he
  rw [Dict.get_eq_or, overlay_get? h hk, hlast, base_of_buildDict h]
  rcases hcap : (captures params).get? k with _ | c
  · have hreads : Reads root (captures params) k := by
      rcases hname with hname | hname
      · exact .inl hname
      · exact .inr (.inl hname)
    have hfiles : lastValue (paramsEntries fw now route params) k = none := by
      rw [lastValue_eq_none]
      rintro e he rfl
      exact hquiet.files e he hcap hreads
    have hbase : route.baseDict.get? k = none := by
      rcases hb : route.baseDict.get? k with _ | v
      · rfl
      · obtain ⟨hrel, hfile, -⟩ := hquiet.base (k, v) (mem_entries.mpr hb) hcap
        rcases hname with hname | ⟨hname, hnone⟩
        · exact absurd hname hrel
        · exact absurd hnone (hfile hname)
    simp [hfiles, hbase]
  · simp

theorem relOf_eq_capture
    (hquiet : Quiet fw now route params root) (hrel : ∀ w, ("relpath".toList, w) ∉ submitted raw)
    (hfile : (captures params).get? "relpath".toList = none →
      ∀ w, ("filename".toList, w) ∉ submitted raw) : relOf dict = capture (captures params) := by
  rw [relOf, capture]
  rw [get_of_captured h hquiet (by decide) (.inl rfl) hrel]
  rcases hcap : (captures params).get? "relpath".toList with _ | c
  · rw [get_of_captured h hquiet (by decide) (.inr ⟨rfl, hcap⟩) (hfile hcap)]
    rcases (captures params).get? "filename".toList with _ | c
    · rfl
    · rfl
  · rfl

end

theorem capture_relative (hvalid : ParamsValid fw route params) :
    (capture (captures params)).head? ≠ some '/' ∧
      "..".toList ∉ (capture (captures params)).splitOn '/' := by
  have hone : ∀ k c, (captures params).get? k = some c →
      c.head? ≠ some '/' ∧ "..".toList ∉ c.splitOn '/' := by
    intro k c hc
    rw [captures_get?] at hc
    obtain ⟨v, hv⟩ := hvalid (k, c) (mem_of_lastValue hc)
    obtain ⟨-, hdots, hhead⟩ := validatePathParam_ok hv
    exact ⟨hhead, fun hmem => hdots (infix_of_mem_splitOn hmem)⟩
  rw [capture]
  rcases hrel : (captures params).get? "relpath".toList with _ | c
  · rcases hfile : (captures params).get? "filename".toList with _ | c
    · exact ⟨by decide, by decide⟩
    · exact hone _ c hfile
  · exact hone _ c hrel

theorem intendedFile_under (hvalid : ParamsValid fw route params) (siteDir root : Str) :
    Under (servedDir siteDir root (captures params))
      (intendedFile siteDir root (captures params)) := by
  obtain ⟨hhead, hdots⟩ := capture_relative hvalid
  rw [intendedFile]
  split_ifs
  · exact .inl rfl
  · exact .inr ⟨_, hhead, hdots, rfl⟩

/-! ## A submitted name that is read -/

def pairRequest (method path k v : Str) : RawRequest where
  method := method
  path := path
  query := some (urlEncode k ++ '=' :: urlEncode v)
  version := "HTTP/1.1".toList
  headers := []
  body := []

/-- Only a `POST` submits a form. -/
theorem submitted_of_not_post (hpost : raw.method ≠ "POST".toList) :
    submitted raw = parseQueryString raw.queryText := by
  simp only [submitted, formFields, if_neg hpost, append_nil]

theorem submitted_pairRequest {method : Str} (path k v : Str) (hpost : method ≠ "POST".toList) :
    submitted (pairRequest method path k v) = [(k, v)] := by
  have hquery : submitted (pairRequest method path k v) =
      parseQueryString (urlEncode k ++ '=' :: urlEncode v) := submitted_of_not_post hpost
  rw [hquery, parseQueryString_pair]

def nameBound (fw : FrameworkState) (now : Moment) (route : CompiledRoute) (params : PathParams)
    (k : Str) : List Str :=
  k :: frameworkKeys ++ params.map Prod.fst ++ (paramsEntries fw now route params).map Prod.fst ++
    route.baseDict.entries.map Prod.fst

section

variable (h : buildDict fw now raw route params = .ok dict)

include h

theorem length_le_of_mem_iter {k v : Str}
    (hsub : submitted raw = [(k, v)]) :
    ∀ e ∈ dict.iter, e.1.length ≤ (nameBound fw now route params k).flatten.length := by
  intro e he
  have hmem : e.1 ∈ nameBound fw now route params k := by
    simp only [nameBound, cons_append, mem_cons, mem_append]
    rw [Dict.iter, base_of_buildDict h] at he
    rcases mem_append.mp he with he | he
    · rcases overlay_names h (mem_entries.mp he) with hk | ⟨w, hw⟩ | ⟨c, hc⟩ | ⟨f, hf, hfe⟩
      · exact .inr (.inl (.inl (.inl hk)))
      · rw [hsub, mem_singleton] at hw
        exact .inl (Prod.mk.inj hw).1
      · rw [captures_get?] at hc
        exact .inr (.inl (.inl (.inr (mem_map.mpr ⟨_, mem_of_lastValue hc, rfl⟩))))
      · exact .inr (.inl (.inr (mem_map.mpr ⟨f, hf, hfe⟩)))
    · exact .inr (.inr (mem_map.mpr ⟨e, (mem_filter.mp he).1, rfl⟩))
  exact (sublist_flatten_of_mem hmem).length_le

theorem infix_foldl_iter
    (hquiet : Quiet fw now route params root) {k v : Str} (hsub : submitted raw = [(k, v)])
    (hopen : '{' ∉ v) (hclose : '}' ∉ v)
    (hlen : (nameBound fw now route params k).flatten.length < v.length)
    (hin : placeholder k <:+: rootAt root (captures params) k) :
    v <:+: dict.iter.foldl fillStep root := by
  have hfw : k ∉ frameworkKeys := fun hk => hquiet.framework k hk (.inr (.inr hin))
  have hval : dict.overlay.get? k = some (.string v) := by
    rw [overlay_get? h hfw, hsub]
    simp [lastValue]
  have hshort : ∀ e ∈ dict.iter, e.1.length < v.length := fun e he =>
    lt_of_le_of_lt (length_le_of_mem_iter h hsub e he) hlen
  obtain ⟨l₁, l₂, hsplit, hlow, hhigh⟩ := split_of_mem dict.overlay.sorted (mem_entries.mpr hval)
  obtain ⟨hl₁, -, -⟩ := pairwise_append.mp (hsplit ▸ dict.overlay.sorted)
  -- the names before `k` are not submitted: they fill in the captures
  have hbefore : l₁.foldl fillStep root = rootAt root (captures params) k := by
    have hmem : ∀ k' v', (k', v') ∈ l₁ → dict.overlay.get? k' = some v' := fun k' v' hkv =>
      mem_entries.mp (hsplit ▸ mem_append_left _ hkv)
    refine foldl_fillStep_along h hquiet hl₁ (sorted_below k (captures params).sorted)
      (fun e he => ?_) hmem (fun k' v' hkv w => ?_) (fun k' v' hkv => ?_) (fun k' v' hkv w hw => ?_)
    · obtain ⟨hcap, hlt⟩ := mem_below.mp he
      obtain ⟨v', hv'⟩ := overlay_of_captured h (mem_entries.mp hcap)
      have hin' : (e.1, v') ∈ l₁ ++ (k, Value.string v) :: l₂ := hsplit ▸ mem_entries.mpr hv'
      rcases mem_append.mp hin' with hin' | hin'
      · exact ⟨v', hin'⟩
      · rcases mem_cons.mp hin' with hin' | hin'
        · exact absurd (Prod.mk.inj hin').1 hlt.ne
        · exact absurd (hhigh _ hin') (lt_asymm hlt)
    · rw [mem_below, mem_entries]
      exact and_iff_left (hlow _ hkv)
    · rw [below_below _ (hlow _ hkv).le]
      rfl
    · rw [hsub, mem_singleton] at hw
      exact absurd (Prod.mk.inj hw).1 (hlow _ hkv).ne
  rw [Dict.iter, hsplit, append_assoc, foldl_append, hbefore, cons_append, foldl_cons]
  refine block_infix_foldl_fillStep hopen hclose (fun e he => hshort e ?_)
    (infix_replace v (placeholder_ne_nil k) hin)
  rw [Dict.iter, hsplit, append_assoc, cons_append]
  exact mem_append_right _ (mem_cons_of_mem _ he)

/-- **A submitted name that is read moves the file.** A long enough value of it
stands in the path that is opened. -/
theorem infix_resolveFsPath
    (hquiet : Quiet fw now route params ((routeStr route.settings "root".toList).getD []))
    (siteDir : Str) {k v : Str} (hsub : submitted raw = [(k, v)]) (hne : v ≠ []) (hopen : '{' ∉ v)
    (hclose : '}' ∉ v) (hlen : (nameBound fw now route params k).flatten.length < v.length)
    (hreads : Reads ((routeStr route.settings "root".toList).getD []) (captures params) k) :
    v <:+: resolveFsPath route.settings dict siteDir := by
  have hvalid : ParamsValid fw route params := by
    obtain ⟨files, -, hvalid, -⟩ := buildDict_ok.mp h
    exact hvalid
  have hmem : ∀ {name w : Str}, (name, w) ∈ submitted raw ↔ name = k ∧ w = v := by
    intro name w
    rw [hsub, mem_singleton, Prod.mk.injEq]
  have hget : dict.get k = some (.string v) := by
    rw [Dict.get_eq_or, overlay_get? h fun hk => hquiet.framework k hk hreads, hsub]
    simp [lastValue]
  rw [resolveFsPath_eq]
  simp only
  -- the value is the captured path itself
  have hrel : relOf dict = v → v <:+: (if relOf dict = [] then joinPath siteDir
      (dict.iter.foldl fillStep ((routeStr route.settings "root".toList).getD [])) else
      joinPath (joinPath siteDir
        (dict.iter.foldl fillStep ((routeStr route.settings "root".toList).getD [])))
        (relOf dict)) := by
    intro hv
    rw [hv, if_neg hne]
    exact infix_joinPath_right _ _
  by_cases hk : k = "relpath".toList
  · refine hrel ?_
    simp only [relOf, ← hk, hget, some_or, bind_some, Value.asStr_string, getD_some]
  by_cases hfile : k = "filename".toList ∧ (captures params).get? "relpath".toList = none
  · refine hrel ?_
    have hnone : dict.get "relpath".toList = none := by
      rw [get_of_captured h hquiet (by decide) (.inl rfl)
        fun w hw => hk (hmem.mp hw).1.symm, hfile.2]
      rfl
    simp only [relOf, hnone, ← hfile.1, hget, none_or, bind_some, Value.asStr_string, getD_some]
  -- the value is filled into the root, and the capture is appended to it
  have hroot : v <:+: dict.iter.foldl fillStep
    ((routeStr route.settings "root".toList).getD []) := by
    refine infix_foldl_iter h hquiet hsub hopen hclose hlen ?_
    rcases hreads with hreads | hreads | hreads
    · exact absurd hreads hk
    · exact absurd hreads hfile
    · exact hreads
  have hcapture : relOf dict = capture (captures params) :=
    relOf_eq_capture h hquiet (fun w hw => hk (hmem.mp hw).1.symm)
      fun hnone w hw => hfile ⟨(hmem.mp hw).1.symm, hnone⟩
  have hdir := hroot.trans (infix_joinPath_right siteDir _)
  split_ifs
  · exact hdir
  · rw [hcapture]
    exact hdir.trans (infix_joinPath_left (capture_relative hvalid).1)

end

end

/-! ## Confinement -/

/-- A request of a method and path whose query names all lie in `K`. -/
def Presents (method path : Str) (K : Str → Prop) (raw : RawRequest) : Prop :=
  raw.method = method ∧ raw.path = path ∧ ∀ p ∈ parseQueryString raw.queryText, K p.1

section

variable {fw : FrameworkState} {now : Moment} {route : CompiledRoute} {params : PathParams}
  {method path : Str}

variable {raw : RawRequest}

theorem servedFile_eq (hroute : findRoute path method fw.routes = some (route, params))
    (hget : method = "GET".toList ∨ method = "HEAD".toList)
    (hmethod : raw.method = method) (hpath : raw.path = path) : servedFile fw now raw =
      match buildDict fw now raw route params with
      | .error _ => none
      | .ok dict => some (resolveFsPath route.settings dict (joinPath fw.siteDir [])) := by
  have hserved : ¬ (raw.method ≠ "GET".toList ∧ raw.method ≠ "HEAD".toList) := by
    rw [hmethod]
    rcases hget with hget | hget
    · exact fun hno => hno.1 hget
    · exact fun hno => hno.2 hget
  rw [servedFile, if_neg hserved, hmethod, hpath, hroute]

variable {K : Str → Prop}

theorem servedFile_of_unread (hroute : findRoute path method fw.routes = some (route, params))
    (hquiet : Quiet fw now route params ((routeStr route.settings "root".toList).getD []))
    (hget : method = "GET".toList ∨ method = "HEAD".toList)
    {files : List (Str × Value)} (hf : paramsWrites fw now params route.paramsFiles = .ok files)
    (hvalid : ParamsValid fw route params)
    (hK : ∀ k, K k → ¬ Reads ((routeStr route.settings "root".toList).getD []) (captures params) k)
    (hraw : Presents method path K raw) :
    servedFile fw now raw = some (intendedFile (joinPath fw.siteDir [])
      ((routeStr route.settings "root".toList).getD []) (captures params)) := by
  obtain ⟨hmethod, hpath, hnames⟩ := hraw
  have hpost : raw.method ≠ "POST".toList := by
    rw [hmethod]
    rcases hget with rfl | rfl
    · decide
    · decide
  have hunread : ∀ k w, (k, w) ∈ submitted raw →
      ¬ Reads ((routeStr route.settings "root".toList).getD []) (captures params) k := by
    intro k w hw
    rw [submitted_of_not_post hpost] at hw
    exact hK k (hnames _ hw)
  have hbuilt : buildDict fw now raw route params =
      .ok (withCsrfDefault fw now (mergedDict fw now raw route params files)) :=
    buildDict_ok.mpr ⟨files, hf, hvalid, rfl⟩
  rw [servedFile_eq hroute hget hmethod hpath, hbuilt]
  simp only [some.injEq]
  rw [resolveFsPath_eq, foldl_iter_eq_filledRoot hbuilt hquiet hunread,
    relOf_eq_capture hbuilt hquiet (fun w hw => hunread _ w hw (.inl rfl))
      fun hnone w hw => hunread _ w hw (.inr (.inl ⟨rfl, hnone⟩))]
  rfl

theorem servedFile_of_read (hroute : findRoute path method fw.routes = some (route, params))
    (hquiet : Quiet fw now route params ((routeStr route.settings "root".toList).getD []))
    (hget : method = "GET".toList ∨ method = "HEAD".toList)
    {files : List (Str × Value)} (hf : paramsWrites fw now params route.paramsFiles = .ok files)
    (hvalid : ParamsValid fw route params) {k : Str} (hk : K k)
    (hreads : Reads ((routeStr route.settings "root".toList).getD []) (captures params) k) :
    ∃ raw file, Presents method path K raw ∧ servedFile fw now raw = some file ∧
      file ≠ intendedFile (joinPath fw.siteDir [])
        ((routeStr route.settings "root".toList).getD []) (captures params) := by
  -- a value longer than every name and than the intended path
  obtain ⟨n, hn⟩ : ∃ n, n = (nameBound fw now route params k).flatten.length +
    (intendedFile (joinPath fw.siteDir []) ((routeStr route.settings "root".toList).getD [])
      (captures params)).length + 1 := ⟨_, rfl⟩
  have hplain : ∀ c : Char, c ≠ 'a' → c ∉ List.replicate n 'a' :=
    fun c hc hmem => hc (eq_of_mem_replicate hmem)
  have hpost : method ≠ "POST".toList := by
    obtain rfl | rfl := hget
    · decide
    · decide
  obtain ⟨raw, hraw⟩ : ∃ raw, raw = pairRequest method path k (List.replicate n 'a') := ⟨_, rfl⟩
  have hsub : submitted raw = [(k, List.replicate n 'a')] :=
    hraw ▸ submitted_pairRequest path k (List.replicate n 'a') hpost
  have hmethod : raw.method = method := by rw [hraw]; rfl
  have hpath : raw.path = path := by rw [hraw]; rfl
  have hbuilt : buildDict fw now raw route params =
      .ok (withCsrfDefault fw now (mergedDict fw now raw route params files)) :=
    buildDict_ok.mpr ⟨files, hf, hvalid, rfl⟩
  have hserved : servedFile fw now raw = _ := servedFile_eq hroute hget hmethod hpath
  rw [hbuilt] at hserved
  refine ⟨raw, _, ⟨hmethod, hpath, fun p hp => ?_⟩, hserved, fun heq => ?_⟩
  · rw [← submitted_of_not_post (hmethod ▸ hpost), hsub] at hp
    rw [mem_singleton.mp hp]
    exact hk
  · have hin := infix_resolveFsPath hbuilt hquiet (joinPath fw.siteDir []) hsub
      (by simp [hn]) (hplain _ (by decide)) (hplain _ (by decide))
      (by rw [length_replicate]; omega) hreads
    have hlen := hin.length_le
    rw [heq, length_replicate] at hlen
    omega

theorem servedFile_eq_none (hroute : findRoute path method fw.routes = some (route, params))
    (hraw : Presents method path K raw) (hno : (method = "GET".toList ∨ method = "HEAD".toList) →
      ¬ ((∃ files, paramsWrites fw now params route.paramsFiles = .ok files) ∧
        ParamsValid fw route params)) : servedFile fw now raw = none := by
  by_cases hget : method = "GET".toList ∨ method = "HEAD".toList
  · rw [servedFile_eq hroute hget hraw.1 hraw.2.1]
    cases hb : buildDict fw now raw route params with
    | error e => rfl
    | ok dict =>
      obtain ⟨files, hf, hvalid, -⟩ := buildDict_ok.mp hb
      exact absurd ⟨⟨files, hf⟩, hvalid⟩ (hno hget)
  · rw [servedFile, if_pos]
    rw [hraw.1]
    exact not_or.mp hget

/-- **Confinement.** On a route and path, for a set `K` of names: every request
whose query names lie in `K` gets the intended file, below the route's directory,
and any two such requests get the same file, if and only if — where the route is
served at all — `K` holds no name the resolver reads. -/
theorem confined_iff (hroute : findRoute path method fw.routes = some (route, params))
    (hquiet : Quiet fw now route params ((routeStr route.settings "root".toList).getD []))
    (K : Str → Prop) :
    ((∀ raw file, Presents method path K raw → servedFile fw now raw = some file →
        file = intendedFile (joinPath fw.siteDir [])
          ((routeStr route.settings "root".toList).getD []) (captures params) ∧
        Under (servedDir (joinPath fw.siteDir [])
          ((routeStr route.settings "root".toList).getD []) (captures params)) file) ∧
      ∀ raw raw', Presents method path K raw → Presents method path K raw' →
        servedFile fw now raw = servedFile fw now raw') ↔
    ((method = "GET".toList ∨ method = "HEAD".toList) →
      (∃ files, paramsWrites fw now params route.paramsFiles = .ok files) →
      ParamsValid fw route params → ∀ k, K k →
        ¬ Reads ((routeStr route.settings "root".toList).getD []) (captures params) k) := by
  constructor
  · rintro ⟨hfile, -⟩ hget ⟨files, hf⟩ hvalid k hk hreads
    obtain ⟨raw, file, hraw, hserved, hne⟩ :=
      servedFile_of_read hroute hquiet hget hf hvalid hk hreads
    exact hne (hfile raw file hraw hserved).1
  · intro hK
    by_cases hserves : (method = "GET".toList ∨ method = "HEAD".toList) ∧
      (∃ files, paramsWrites fw now params route.paramsFiles = .ok files) ∧
      ParamsValid fw route params
    · obtain ⟨hget, ⟨files, hf⟩, hvalid⟩ := hserves
      have hsome : ∀ raw, Presents method path K raw → servedFile fw now raw = _ :=
        fun raw hraw => servedFile_of_unread hroute hquiet hget hf hvalid
          (hK hget ⟨files, hf⟩ hvalid) hraw
      refine ⟨fun raw file hraw hserved => ?_, fun raw raw' hraw hraw' => ?_⟩
      · rw [hsome raw hraw] at hserved
        cases hserved
        exact ⟨rfl, intendedFile_under hvalid _ _⟩
      · rw [hsome raw hraw, hsome raw' hraw']
    · have hnone : ∀ raw, Presents method path K raw → servedFile fw now raw = none :=
        fun raw hraw => servedFile_eq_none hroute hraw fun hget hacc => hserves ⟨hget, hacc⟩
      refine ⟨fun raw file hraw hserved => ?_, fun raw raw' hraw hraw' => ?_⟩
      · rw [hnone raw hraw] at hserved
        cases hserved
      · rw [hnone raw hraw, hnone raw' hraw']

end

/-! ## Runs -/

/-- Whether a name is read can be decided. -/
instance (root : Str) (caps : SortedMap Str Str) (k : Str) : Decidable (Reads root caps k) :=
  inferInstanceAs (Decidable (_ ∨ _ ∨ _))

/-- A table of one route is searched by matching that route. -/
theorem findRoute_singleton (path method : Str) (route : CompiledRoute) :
    findRoute path method [route] =
      if route.method.matches method then
        (matchRoute (pathSegments path) route.segments).map fun params => (route, params)
      else none := by
  simp only [findRoute, foldl_cons, foldl_nil, findStep]
  split_ifs
  · cases matchRoute (pathSegments path) route.segments <;> rfl
  · rfl

/-- The route of a static file tree: everything below `/assets/` is served from
`assets/`. -/
def assetsRoute : CompiledRoute :=
  .compile "/assets/{*relpath}".toList .any []
    (SortedMap.empty.insert "root".toList (.string "assets/".toList)) .empty

def assetsService : FrameworkState :=
  { plainService "/srv/site".toList with routes := [assetsRoute], csrf := false, flash := false }

theorem confined_version_query : ∃ file,
    servedFile assetsService plainMoment (plainRequest "GET" "/assets/css/main.css" "v=1" []) =
      some file ∧ file = intendedFile "/srv/site/".toList "assets/".toList
      (captures [("relpath".toList, "css/main.css".toList)]) ∧
    Under (servedDir "/srv/site/".toList "assets/".toList
      (captures [("relpath".toList, "css/main.css".toList)])) file := by
  have hroute : findRoute "/assets/css/main.css".toList "GET".toList assetsService.routes =
      some (assetsRoute, [("relpath".toList, "css/main.css".toList)]) := by
    have hmatch : matchRoute (pathSegments "/assets/css/main.css".toList) assetsRoute.segments =
        some [("relpath".toList, "css/main.css".toList)] := by decide
    exact (findRoute_singleton _ _ _).trans (by rw [if_pos (by decide), hmatch]; rfl)
  have hquiet : Quiet assetsService plainMoment assetsRoute
      [("relpath".toList, "css/main.css".toList)]
      ((routeStr assetsRoute.settings "root".toList).getD []) := by
    refine ⟨fun e he => (nomatch he), fun e he => (nomatch he), ?_⟩
    decide
  have hserved : servedFile assetsService plainMoment
      (plainRequest "GET" "/assets/css/main.css" "v=1" []) =
        some "/srv/site/assets/css/main.css".toList := by
    decide
  have hpresents : Presents "GET".toList "/assets/css/main.css".toList (· = "v".toList)
      (plainRequest "GET" "/assets/css/main.css" "v=1" []) := by
    refine ⟨rfl, rfl, ?_⟩
    decide
  have hunread : ∀ k, k = "v".toList →
    ¬ Reads ((routeStr assetsRoute.settings "root".toList).getD [])
      (captures [("relpath".toList, "css/main.css".toList)]) k := by
    rintro k rfl
    decide
  exact ⟨_, hserved, ((confined_iff hroute hquiet (· = "v".toList)).mpr
    fun _ _ _ => hunread).1 _ _ hpresents hserved⟩

/-- A query pair named `relpath` takes the place of the validated capture, and an
absolute one leaves the site altogether. -/
theorem relpath_query_escapes :
    servedFile assetsService plainMoment (plainRequest "GET" "/assets/css/main.css" "" []) =
      some "/srv/site/assets/css/main.css".toList ∧ servedFile assetsService plainMoment
      (plainRequest "GET" "/assets/css/main.css" "relpath=/etc/passwd" []) =
        some "/etc/passwd".toList := by
  decide +kernel

end M6
