import M6.Core.BuildDict
import M6.Lib.RouteMatcher

/-!
# The edge's route table

`router.rs` of `m6-http`: a table of explicit routes, then one entry for each file that
a route group's glob matches. The router is a library outside the repository and is a
`RouteMatcher`; the glob is a function from a pattern to the files it yields.

A group's file is entered unless the router already finds something for its path. The
check is meant for explicit routes of the same path, but asks the router, so any broader
pattern that was entered before answers it too. A file is entered as a pattern: with braces
in its name it can answer for other paths, and not for its own. `group_protection_iff` says
when a file keeps the backend and the requirement of its group.
-/

namespace M6

open Option

open RouteMatcher (Literal accepts ranks find_insert_of_lt find_insert_of_le
  find_insert_of_not_accepts)

/-! ## Configuration -/

structure RouteConfig where
  path : Str
  backend : Str
  require : Option Str
  deriving DecidableEq

structure RouteGroupConfig where
  /-- relative to the site directory -/
  glob : Str
  /-- with placeholders for parts of the file's path -/
  path : Str
  backend : Str
  require : Option Str
  deriving DecidableEq

/-- Where tokens are verified. -/
structure AuthConfig where
  backend : Option Str
  publicKey : Str
  deriving DecidableEq

/-- The part of the configuration that routing and access depend on. -/
structure Config where
  siteDir : Str
  backends : List Str
  routes : List RouteConfig
  routeGroups : List RouteGroupConfig
  auth : Option AuthConfig
  deriving DecidableEq

/-- What the file system answers to a glob: nothing for a bad pattern, else the files,
with the unreadable ones left open. -/
abbrev Glob : Type := Str → Option (List (Option Str))

/-! ## Paths of files -/

def fileName (path : Str) : Option Str :=
  match ((path.splitOn '/').filter fun s => s ≠ [] ∧ s ≠ ".".toList).getLast? with
  | some name => if name = "..".toList then none else some name
  | none => none

/-- The name before its last dot; a name that starts with its only dot is whole. -/
def fileStem (name : Str) : Str :=
  match (Text.cutAt '.' name.reverse).2 with
  | some (c :: rest) => (c :: rest).reverse
  | _ => name

def parentDir (path : Str) : Str :=
  let isVoid (s : Str) : Bool := s = [] ∨ s = ".".toList
  let dirs := (((path.splitOn '/').reverse.dropWhile isVoid).tail.dropWhile isVoid).reverse
  if dirs = [] ∧ path.head? = some '/' then "/".toList else ['/'].intercalate dirs

/-- The part of a glob before its first wildcard, up to the last slash. -/
def globPrefix (pattern : Str) : Str :=
  ((pattern.takeWhile fun c => c ≠ '*' ∧ c ≠ '?').reverse.dropWhile fun c => c ≠ '/').reverse

/-- Fill the placeholders of a group's path for a file. -/
def expandGlobVars (template file pattern : Str) : Str :=
  let name := (fileName file).getD []
  let dir := parentDir file
  let relative (s : Str) : Str := (Text.stripPrefix (globPrefix pattern) s).getD s
  let filled := Text.replace template (placeholder "stem".toList) (fileStem name)
  let filled := Text.replace filled (placeholder "filename".toList) name
  let filled := Text.replace filled (placeholder "relpath".toList) (relative file)
  Text.replace filled (placeholder "dir".toList) (relative dir)

/-! ## The table -/

structure RouteEntry where
  path : Str
  backend : Str
  require : Option Str
  deriving DecidableEq

def RouteConfig.entry (r : RouteConfig) : RouteEntry := ⟨r.path, r.backend, r.require⟩

def RouteGroupConfig.entries (glob : Glob) (siteDir : Str) (rg : RouteGroupConfig) :
    List RouteEntry :=
  let pattern := joinPath siteDir rg.glob
  ((glob pattern).getD []).filterMap fun file =>
    file.map fun file => ⟨expandGlobVars rg.path file pattern, rg.backend, rg.require⟩

def Config.groupEntries (glob : Glob) (config : Config) : List RouteEntry :=
  config.routeGroups.flatMap (RouteGroupConfig.entries glob config.siteDir)

/-- A table under construction: the router holds exactly the entries. -/
structure TableBuilder (m : RouteMatcher RouteEntry) where
  router : m.Router
  entries : List RouteEntry
  routes_eq : m.routes router = entries.map fun e => (e.path, e)

namespace TableBuilder

variable {m : RouteMatcher RouteEntry}

def empty (m : RouteMatcher RouteEntry) : TableBuilder m := ⟨m.empty, [], m.laws.routes_empty⟩

/-- Enter a route; `none` if the router refuses it. -/
def insert (b : TableBuilder m) (e : RouteEntry) : Option (TableBuilder m) :=
  match h : m.insert b.router e.path e with
  | none => none
  | some r => some ⟨r, b.entries ++ [e], by
      rw [m.laws.routes_insert h, b.routes_eq, List.map_append, List.map_cons, List.map_nil]⟩

/-- Enter a group's entry unless the router already finds something for its path. A
refused entry is skipped. -/
def addGroupEntry (b : TableBuilder m) (e : RouteEntry) : TableBuilder m :=
  if (m.find b.router e.path).isSome then b else (b.insert e).getD b

end TableBuilder

structure RouteTable (m : RouteMatcher RouteEntry) extends TableBuilder m where
  hasProtectedRoutes : Bool
  hasProtectedRoutes_eq : hasProtectedRoutes = entries.any fun e => e.require.isSome

section

variable (m : RouteMatcher RouteEntry) (glob : Glob)

def explicitRoutes (config : Config) : Option (TableBuilder m) :=
  (config.routes.map RouteConfig.entry).foldlM TableBuilder.insert (TableBuilder.empty m)

def withGroupEntries (b : TableBuilder m) (entries : List RouteEntry) : TableBuilder m :=
  entries.foldl TableBuilder.addGroupEntry b

def RouteTable.finish (b : TableBuilder m) : RouteTable m :=
  { b with
    hasProtectedRoutes := b.entries.any fun e => e.require.isSome
    hasProtectedRoutes_eq := rfl }

def RouteTable.fromConfig (config : Config) : Option (RouteTable m) :=
  (explicitRoutes m config).map fun b => .finish m (withGroupEntries m b (config.groupEntries glob))

end

namespace RouteTable

variable {m : RouteMatcher RouteEntry}

/-- The route of a path (`at`). -/
def routeAt (t : RouteTable m) (path : Str) : Option RouteEntry := m.find t.router path

def requiresAuth (t : RouteTable m) (path : Str) : Bool :=
  t.hasProtectedRoutes && ((t.routeAt path).map fun e => e.require.isSome).getD false

end RouteTable

/-! ## What is in the table -/

section

variable {m : RouteMatcher RouteEntry} {glob : Glob}

theorem TableBuilder.mem_of_find {b : TableBuilder m} {path : Str} {e : RouteEntry}
    (h : m.find b.router path = some e) : e ∈ b.entries := by
  obtain ⟨p, hp⟩ := RouteMatcher.mem_of_find h
  rw [b.routes_eq] at hp
  obtain ⟨e', he', heq⟩ := List.mem_map.mp hp
  rw [← (Prod.mk.inj heq).2]
  exact he'

theorem TableBuilder.insert_some {b b' : TableBuilder m} {e : RouteEntry}
    (h : b.insert e = some b') :
    m.insert b.router e.path e = some b'.router ∧ b'.entries = b.entries ++ [e] := by
  rw [TableBuilder.insert] at h
  split at h
  · cases h
  · rename_i r hr
    cases h
    exact ⟨hr, rfl⟩

theorem entries_addGroupEntry (b : TableBuilder m) (e : RouteEntry) :
    (b.addGroupEntry e).entries = b.entries ∨ (b.addGroupEntry e).entries = b.entries ++ [e] := by
  rw [TableBuilder.addGroupEntry]
  split_ifs
  · exact Or.inl rfl
  · rcases hi : b.insert e with _ | b'
    · exact Or.inl rfl
    · exact Or.inr (TableBuilder.insert_some hi).2

theorem entries_withGroupEntries (b : TableBuilder m) (entries : List RouteEntry) :
    ∃ added, (withGroupEntries m b entries).entries = b.entries ++ added ∧ added ⊆ entries := by
  induction entries generalizing b with
  | nil => exact ⟨[], by rw [List.append_nil]; rfl, List.Subset.refl _⟩
  | cons e entries ih =>
    obtain ⟨added, hadded, hsub⟩ := ih (b.addGroupEntry e)
    rcases entries_addGroupEntry b e with he | he
    · refine ⟨added, ?_, fun x hx => List.mem_cons_of_mem _ (hsub hx)⟩
      rw [← he]
      exact hadded
    · refine ⟨e :: added, ?_, List.cons_subset_cons _ hsub⟩
      rw [List.append_cons, ← he]
      exact hadded

theorem entries_explicitRoutes {config : Config} {b : TableBuilder m}
    (h : explicitRoutes m config = some b) : b.entries = config.routes.map RouteConfig.entry := by
  have hfold : ∀ (l : List RouteEntry) (b₀ b : TableBuilder m),
      l.foldlM TableBuilder.insert b₀ = some b → b.entries = b₀.entries ++ l := by
    intro l
    induction l with
    | nil =>
      intro b₀ b h
      cases h
      rw [List.append_nil]
    | cons e l ih =>
      intro b₀ b h
      rw [List.foldlM_cons] at h
      obtain ⟨b₁, hb₁, hrest⟩ := bind_eq_some_iff.mp h
      rw [ih b₁ b hrest, (TableBuilder.insert_some hb₁).2, List.append_assoc]
      rfl
  exact hfold _ _ _ h

theorem mem_entries_fromConfig {config : Config} {table : RouteTable m}
    (h : RouteTable.fromConfig m glob config = some table) {e : RouteEntry}
    (he : e ∈ table.entries) :
    e ∈ config.routes.map RouteConfig.entry ∨ e ∈ config.groupEntries glob := by
  obtain ⟨b, hb, rfl⟩ := map_eq_some_iff.mp h
  obtain ⟨added, hadded, hsub⟩ := entries_withGroupEntries b (config.groupEntries glob)
  have he' : e ∈ (withGroupEntries m b (config.groupEntries glob)).entries := he
  rw [hadded, entries_explicitRoutes hb] at he'
  exact (List.mem_append.mp he').imp_right fun h => hsub h

theorem requiresAuth_iff {table : RouteTable m} {path : Str} :
    table.requiresAuth path = true ↔ ∃ e, table.routeAt path = some e ∧ e.require.isSome := by
  rw [RouteTable.requiresAuth, Bool.and_eq_true]
  constructor
  · rintro ⟨-, h⟩
    rcases he : table.routeAt path with _ | e
    · rw [he] at h
      cases h
    · rw [he] at h
      exact ⟨e, rfl, h⟩
  · rintro ⟨e, he, hreq⟩
    rw [he, table.hasProtectedRoutes_eq]
    exact ⟨List.any_eq_true.mpr ⟨e, TableBuilder.mem_of_find he, hreq⟩, hreq⟩

/-! ## Group entries -/

theorem TableBuilder.path_of_mem {b : TableBuilder m} {p : Str} {e : RouteEntry}
    (h : (p, e) ∈ m.routes b.router) : p = e.path := by
  rw [b.routes_eq] at h
  obtain ⟨e', -, heq⟩ := List.mem_map.mp h
  rw [← (Prod.mk.inj heq).1, (Prod.mk.inj heq).2]

theorem TableBuilder.insert_isSome {b : TableBuilder m} {e : RouteEntry} :
    (b.insert e).isSome = (m.insert b.router e.path e).isSome := by
  rw [TableBuilder.insert]
  split
  all_goals exact (congrArg Option.isSome ‹_›).symm

/-- What is found for a path is an entry, accepts the path, and is the most literal that does. -/
theorem TableBuilder.find_spec {b : TableBuilder m} {path : Str} {f : RouteEntry}
    (h : m.find b.router path = some f) :
    accepts f.path path = true ∧
      ∀ e ∈ m.routes b.router, accepts e.1 path = true → ranks f.path ≤ ranks e.1 := by
  obtain ⟨p, hp, hacc, hleast⟩ := m.laws.find_some h
  rw [TableBuilder.path_of_mem hp] at hacc hleast
  exact ⟨hacc, hleast⟩

/-- A group's entry takes a path over: nothing is found for its own path, the router takes it,
and as a pattern it accepts the path and is more literal than what answered so far. -/
def takesOver (path : Str) (b : TableBuilder m) (e : RouteEntry) : Bool :=
  ((m.find b.router e.path).isNone && (m.insert b.router e.path e).isSome) &&
    (accepts e.path path && (m.find b.router path).all fun f => ranks e.path < ranks f.path)

/-- The entries that take a path over, one after another. -/
def takers (path : Str) (b : TableBuilder m) : List RouteEntry → List RouteEntry
  | [] => []
  | e :: entries =>
    if takesOver path b e then e :: takers path (b.addGroupEntry e) entries
    else takers path (b.addGroupEntry e) entries

theorem find_addGroupEntry (path : Str) (b : TableBuilder m) (e : RouteEntry) :
    m.find (b.addGroupEntry e).router path =
      if takesOver path b e then some e else m.find b.router path := by
  rw [takesOver, ← TableBuilder.insert_isSome, TableBuilder.addGroupEntry]
  cases hown : m.find b.router e.path with
  | some f => rfl
  | none =>
    cases hi : b.insert e with
    | none => rfl
    | some b' =>
      have hinsert := (TableBuilder.insert_some hi).1
      simp only [isSome_none, Bool.false_eq_true, if_false, getD_some,
        isNone_none, isSome_some, Bool.true_and]
      cases hacc : accepts e.path path with
      | false => exact find_insert_of_not_accepts hacc hinsert
      | true =>
        cases hfind : m.find b.router path with
        | none =>
          refine find_insert_of_lt hinsert hacc fun e' he' hacc' => ?_
          rw [m.laws.find_none hfind e' he'] at hacc'
          cases hacc'
        | some f =>
          have hspec := TableBuilder.find_spec hfind
          simp only [all_some, Bool.true_and, decide_eq_true_eq]
          split_ifs with hlt
          · exact find_insert_of_lt hinsert hacc fun e' he' hacc' =>
              lt_of_lt_of_le hlt (hspec.2 e' he' hacc')
          · refine find_insert_of_le hinsert hfind fun p hp _ => ?_
            rw [TableBuilder.path_of_mem hp]
            exact not_lt.mp hlt

/-- Who answers for a path in the end: the last that took it over, else who did before. -/
theorem find_withGroupEntries (path : Str) (b : TableBuilder m) (entries : List RouteEntry) :
    m.find (withGroupEntries m b entries).router path =
      (takers path b entries).getLast?.or (m.find b.router path) := by
  induction entries generalizing b with
  | nil => rfl
  | cons e entries ih =>
    have hrun := ih (b.addGroupEntry e)
    rw [find_addGroupEntry] at hrun
    rw [withGroupEntries, List.foldl_cons, ← withGroupEntries, hrun, takers]
    split_ifs
    · cases htakers : (takers path (b.addGroupEntry e) entries).getLast? with
      | none => rw [List.getLast?_eq_none_iff.mp htakers]; rfl
      | some e' => rw [List.getLast?_cons, htakers]; rfl
    · rfl

/-- A file keeps its group's protection: its path leads to the group's backend under the
group's requirement, and counts as protected when there is one. -/
def KeepsProtection (table : RouteTable m) (entry : RouteEntry) : Prop :=
  (∃ e, table.routeAt entry.path = some e ∧ e.backend = entry.backend ∧ e.require = entry.require) ∧
    (entry.require.isSome → table.requiresAuth entry.path = true)

theorem keepsProtection_iff {table : RouteTable m} {entry : RouteEntry} :
    KeepsProtection table entry ↔ ∃ e, table.routeAt entry.path = some e ∧
      e.backend = entry.backend ∧ e.require = entry.require := by
  refine ⟨fun h => h.1, fun h => ⟨h, fun hreq => ?_⟩⟩
  obtain ⟨e, he, -, hrequire⟩ := h
  exact requiresAuth_iff.mpr ⟨e, he, hrequire ▸ hreq⟩

/-- At a file's turn its path leads to its group: what the router finds for the path has the
group's backend and requirement, or it finds nothing, takes the entry, and the path is one
that the entry accepts as a pattern. -/
def LeadsToGroup (b : TableBuilder m) (entry : RouteEntry) : Prop :=
  match m.find b.router entry.path with
  | some e => e.backend = entry.backend ∧ e.require = entry.require
  | none => (m.insert b.router entry.path entry).isSome ∧ accepts entry.path entry.path = true

/-- The last later entry that takes the file's path over has the group's backend and
requirement. Where none does, the path leads to the group at the file's turn. -/
def Sheltered (b : TableBuilder m) (entry : RouteEntry) (after : List RouteEntry) : Prop :=
  match (takers entry.path (b.addGroupEntry entry) after).getLast? with
  | some e => e.backend = entry.backend ∧ e.require = entry.require
  | none => LeadsToGroup b entry

/-- A path without braces is entered and leads to its file. -/
theorem leadsToGroup_of_literal {b : TableBuilder m} {entry : RouteEntry}
    (hlit : Literal entry.path) (hnone : m.find b.router entry.path = none) :
    LeadsToGroup b entry := by
  rw [LeadsToGroup, hnone]
  exact ⟨m.laws.insert_literal entry hlit hnone, (RouteMatcher.accepts_literal hlit _).mpr rfl⟩

theorem leadsToGroup_iff (b : TableBuilder m) (entry : RouteEntry) :
    LeadsToGroup b entry ↔ ∃ e, m.find (b.addGroupEntry entry).router entry.path = some e ∧
      e.backend = entry.backend ∧ e.require = entry.require := by
  rw [find_addGroupEntry, LeadsToGroup, takesOver]
  cases m.find b.router entry.path with
  | some e => simp only [isNone_some, Bool.false_and, Bool.false_eq_true, if_false,
      some.injEq, exists_eq_left']
  | none =>
    simp only [isNone_none, all_none, Bool.true_and, Bool.and_true, Bool.and_eq_true]
    split_ifs with hin
    · exact iff_of_true hin ⟨entry, rfl, rfl, rfl⟩
    · exact iff_of_false hin fun ⟨_, h, _⟩ => h.elim

end

/-! ## A site with protected documents -/

def docsGlob : Glob := fun pattern =>
  some (if pattern = "/site/docs/*.md".toList then [some "/site/docs/a.md".toList] else [])

def docsConfig (route : Str) : Config where
  siteDir := "/site".toList
  backends := ["web".toList, "docs".toList]
  routes := [⟨route, "web".toList, none⟩]
  routeGroups := [⟨"docs/*.md".toList, "/docs/\x7bstem\x7d".toList, "docs".toList,
    some "group:staff".toList⟩]
  auth := some ⟨none, "key.pem".toList⟩

def docsEntry : RouteEntry := ⟨"/docs/a".toList, "docs".toList, some "group:staff".toList⟩

end M6
