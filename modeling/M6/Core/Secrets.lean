import M6.Core.Reload

/-!
# A config and its secrets file

`load` of `config.rs` merges the secrets file into the config after it has looked for keys that both
have. Looking (`find_key_clashes`) and merging (`merge_toml`) are two recursions over nested tables.

`oneOwner` says that they agree: where nothing clashes the merge has the leaves of both and no
other,
and is the same in either order; and what both claim is named by the refusal. Tables are kept in the
order of their keys, as the parser's are (`Document`).
-/

namespace M6.App

open SortedMap Option

namespace Toml

/-! ## Paths -/

def atPath : Toml → List Str → Option Toml
  | t, [] => some t
  | t, k :: path => (t.get? k).bind fun v => atPath v path

def Leaf (t : Toml) (path : List Str) (v : Toml) : Prop := atPath t path = some v ∧ v.asTable = none

def Ordered (t : Toml) : Prop :=
  ∀ path entries, atPath t path = some (table entries) → entries.Pairwise fun a b => a.1 < b.1

theorem Ordered.entries {entries : List (Str × Toml)} (h : Ordered (table entries)) :
    entries.Pairwise fun a b => a.1 < b.1 := h [] entries rfl

theorem Ordered.of_lookup {entries : List (Str × Toml)} (h : Ordered (table entries)) {k : Str}
    {v : Toml} (hv : lookup k entries = some v) : Ordered v := by
  intro path es hes
  refine h (k :: path) es ?_
  rw [atPath, get?, hv]
  exact hes

theorem ordered_of_not_table {t : Toml} (h : t.asTable = none) : Ordered t := by
  intro path es hes
  cases path with
  | nil =>
    cases hes
    cases h
  | cons k path =>
    obtain ⟨v, hv, -⟩ := bind_eq_some_iff.mp hes
    cases t with
    | table entries => cases h
    | _ => cases hv

theorem atPath_table (entries : List (Str × Toml)) (k : Str) (path : List Str) :
    atPath (table entries) (k :: path) = (lookup k entries).bind fun v => atPath v path := rfl

theorem ordered_table {entries : List (Str × Toml)} (hkeys : entries.Pairwise fun a b => a.1 < b.1)
    (hall : ∀ e ∈ entries, Ordered e.2) : Ordered (table entries) := by
  intro path es hes
  cases path with
  | nil =>
    obtain rfl := (table.inj (some.inj hes))
    exact hkeys
  | cons k path =>
    rw [atPath_table] at hes
    obtain ⟨v, hv, hes⟩ := bind_eq_some_iff.mp hes
    exact hall (k, v) (mem_of_lookup hv) path es hes

theorem eq_table_of_asTable {t : Toml} (h : t.asTable.isSome = true) : ∃ es, t = table es := by
  cases t with
  | table es => exact ⟨es, rfl⟩
  | _ => cases h

theorem isTable_of_atPath {t : Toml} {k : Str} {path : List Str} {v : Toml}
    (h : atPath t (k :: path) = some v) : t.asTable.isSome = true := by
  cases t with
  | table es => rfl
  | _ => cases h

theorem tableInduction {P : Toml → Prop} (leaf : ∀ t : Toml, t.asTable = none → P t)
    (node : ∀ es : List (Str × Toml), (∀ e ∈ es, P e.2) → P (table es)) (t : Toml) : P t := by
  cases t with
  | table es => exact node es fun e he => tableInduction leaf node e.2
  | _ => exact leaf _ rfl
termination_by t
decreasing_by
  have hlt := List.sizeOf_lt_of_mem he
  cases e
  simp only [Prod.mk.sizeOf_spec, table.sizeOf_spec] at hlt ⊢
  omega

/-! ## Clashes -/

variable {b s : List (Str × Toml)}

theorem mem_entryClashes {path name : Str} :
    name ∈ entryClashes b s path ↔ ∃ k sv bv, (k, sv) ∈ s ∧ lookup k b = some bv ∧
      if bv.asTable.isSome && sv.asTable.isSome then name ∈ findKeyClashes bv sv (dotted path k)
      else name = dotted path k := by
  induction s with
  | nil => simp [entryClashes]
  | cons e rest ih =>
    obtain ⟨k, sv⟩ := e
    rw [entryClashes, List.mem_append, ih]
    constructor
    · rintro (h | ⟨k', sv', bv, hmem, hrest⟩)
      · cases hb : lookup k b with
        | none =>
          rw [hb] at h
          cases h
        | some bv =>
          rw [hb] at h
          refine ⟨k, sv, bv, List.mem_cons_self, hb, ?_⟩
          dsimp only at h
          split_ifs at h ⊢
          · exact h
          · exact List.mem_singleton.mp h
      · exact ⟨k', sv', bv, List.mem_cons_of_mem _ hmem, hrest⟩
    · rintro ⟨k', sv', bv, hmem, hb, hrest⟩
      rcases List.mem_cons.mp hmem with heq | hmem
      · cases heq
        left
        rw [hb]
        dsimp only
        split_ifs at hrest ⊢
        · exact hrest
        · exact List.mem_singleton.mpr hrest
      · exact Or.inr ⟨k', sv', bv, hmem, hb, hrest⟩

def dottedPath (path : List Str) : Str := path.foldl dotted []

def Contested (b s : Toml) (path : List Str) : Prop :=
  ∃ v w, atPath b path = some v ∧ atPath s path = some w ∧ (v.asTable = none ∨ w.asTable = none)

/-- **What is contested is named.** -/
theorem mem_findKeyClashes_of_contested {path : List Str}
    (h : Contested (table b) (table s) path) (above : Str) :
    path.foldl dotted above ∈ findKeyClashes (table b) (table s) above := by
  induction path generalizing b s above with
  | nil =>
    obtain ⟨v, w, hv, hw, hleaf⟩ := h
    cases hv
    cases hw
    rcases hleaf with hleaf | hleaf <;> cases hleaf
  | cons k path ih =>
    obtain ⟨v, w, hv, hw, hleaf⟩ := h
    rw [atPath_table] at hv hw
    obtain ⟨bv, hbv, hv⟩ := bind_eq_some_iff.mp hv
    obtain ⟨sv, hsv, hw⟩ := bind_eq_some_iff.mp hw
    rw [findKeyClashes, List.foldl_cons]
    refine mem_entryClashes.mpr ⟨k, sv, bv, mem_of_lookup hsv, hbv, ?_⟩
    by_cases hboth : (bv.asTable.isSome && sv.asTable.isSome) = true
    · rw [if_pos hboth]
      obtain ⟨hbt, hst⟩ := Bool.and_eq_true_iff.mp hboth
      obtain ⟨es, rfl⟩ := eq_table_of_asTable hbt
      obtain ⟨es', rfl⟩ := eq_table_of_asTable hst
      exact ih ⟨v, w, hv, hw, hleaf⟩ _
    · rw [if_neg hboth]
      -- one of them is no table, so that nothing is below it
      cases path with
      | nil => rfl
      | cons k' path =>
        rw [isTable_of_atPath hv, isTable_of_atPath hw] at hboth
        exact absurd rfl hboth

theorem clean_of_lookup {path k : Str} {bv sv : Toml}
    (h : entryClashes b s path = []) (hs : lookup k s = some sv) (hb : lookup k b = some bv) :
    ∃ es es', bv = table es ∧ sv = table es' ∧ entryClashes es es' (dotted path k) = [] := by
  have hno : ∀ name, name ∉ entryClashes b s path := fun name hname => by
    rw [h] at hname
    cases hname
  have hmem := mem_of_lookup hs
  by_cases hboth : (bv.asTable.isSome && sv.asTable.isSome) = true
  · obtain ⟨hbt, hst⟩ := Bool.and_eq_true_iff.mp hboth
    obtain ⟨es, rfl⟩ := eq_table_of_asTable hbt
    obtain ⟨es', rfl⟩ := eq_table_of_asTable hst
    refine ⟨es, es', rfl, rfl, List.eq_nil_iff_forall_not_mem.mpr fun name hname => ?_⟩
    refine hno name (mem_entryClashes.mpr ⟨k, _, _, hmem, hb, ?_⟩)
    rw [if_pos hboth]
    exact hname
  · refine absurd (mem_entryClashes.mpr ⟨k, _, _, hmem, hb, ?_⟩) (hno (dotted path k))
    rw [if_neg hboth]

/-! ## The merge -/

theorem lookup_mergeEntries (d : List (Str × Toml)) {s : List (Str × Toml)}
    (hs : s.Pairwise fun a b => a.1 < b.1) (k : Str) :
    lookup k (mergeEntries d s) =
      match lookup k s with
      | none => lookup k d
      | some v => some (mergeToml ((lookup k d).getD (table [])) v) := by
  induction s generalizing d with
  | nil => rfl
  | cons e rest ih =>
    obtain ⟨k', v⟩ := e
    obtain ⟨hfirst, hrest⟩ := List.pairwise_cons.mp hs
    rw [mergeEntries, ih _ hrest, lookup_insertEntry, lookup]
    dsimp only
    by_cases hk : k = k'
    · have hnone : lookup k rest = none := by
        rw [eq_none_iff_forall_ne_some]
        intro w hw
        exact absurd (hfirst _ (mem_of_lookup hw)) (by simp [hk])
      rw [hnone, if_pos hk, if_pos hk, hk]
    · rw [if_neg hk, if_neg hk]

theorem sorted_mergeEntries {d s : List (Str × Toml)} (hd : d.Pairwise fun a b => a.1 < b.1) :
    (mergeEntries d s).Pairwise fun a b => a.1 < b.1 := by
  induction s generalizing d with
  | nil => exact hd
  | cons e rest ih => exact ih (sorted_insertEntry _ _ hd)

theorem entries_ext {l l' : List (Str × Toml)} (hl : l.Pairwise fun a b => a.1 < b.1)
    (hl' : l'.Pairwise fun a b => a.1 < b.1) (h : ∀ k, lookup k l = lookup k l') : l = l' := by
  refine entries_unique hl hl' fun e => ?_
  have hone : ∀ {l : List (Str × Toml)}, (l.Pairwise fun a b => a.1 < b.1) →
      (e ∈ l ↔ lookup e.1 l = some e.2) := fun hl => ⟨lookup_of_mem hl, mem_of_lookup⟩
  rw [hone hl, hone hl', h]

theorem mergeToml_empty {t : Toml} (ht : Ordered t) : mergeToml (table []) t = t := by
  induction t using tableInduction with
  | leaf t hleaf =>
    cases t with
    | table es => cases hleaf
    | _ => rfl
  | node es ih =>
    rw [mergeToml]
    refine congrArg table (entries_ext (sorted_mergeEntries List.Pairwise.nil)
      ht.entries fun k => ?_)
    rw [lookup_mergeEntries _ ht.entries]
    cases hk : lookup k es with
    | none => rfl
    | some v => exact congrArg some (ih _ (mem_of_lookup hk) (ht.of_lookup hk))

/-- **Without clashes the order of a merge does not matter.** -/
theorem mergeToml_comm {path : Str} (hb : Ordered (table b))
    (hs : Ordered (table s)) (h : entryClashes b s path = []) :
    mergeToml (table b) (table s) = mergeToml (table s) (table b) := by
  have hall : ∀ s : Toml, ∀ (es es' : List (Str × Toml)) (path : Str), s = table es' →
      Ordered (table es) → Ordered (table es') → entryClashes es es' path = [] →
      mergeToml (table es) (table es') = mergeToml (table es') (table es) := by
    intro s
    induction s using tableInduction with
    | leaf t hleaf =>
      rintro es es' path rfl
      cases hleaf
    | node es₀ ih =>
      rintro es es' path heq hes hes' hclean
      obtain rfl := Toml.table.inj heq
      rw [mergeToml, mergeToml]
      refine congrArg table (entries_ext (sorted_mergeEntries hes.entries)
        (sorted_mergeEntries hes'.entries) fun k => ?_)
      rw [lookup_mergeEntries _ hes'.entries, lookup_mergeEntries _ hes.entries]
      cases hk' : lookup k es₀ with
      | none =>
        cases hk : lookup k es with
        | none => rfl
        | some v => exact congrArg some (mergeToml_empty (hes.of_lookup hk)).symm
      | some w =>
        cases hk : lookup k es with
        | none => exact congrArg some (mergeToml_empty (hes'.of_lookup hk'))
        | some v =>
          obtain ⟨vs, ws, rfl, rfl, hclean'⟩ := clean_of_lookup hclean hk' hk
          exact congrArg some (ih _ (mem_of_lookup hk') vs ws _ rfl (hes.of_lookup hk)
            (hes'.of_lookup hk') hclean')
  exact hall (table s) b s path rfl hb hs h

/-- **Without clashes a merge has the leaves of both, and no other.** -/
theorem leaf_mergeToml_iff {above : Str} (hb : Ordered (table b))
    (hs : Ordered (table s)) (h : entryClashes b s above = []) (path : List Str) (v : Toml) :
    Leaf (mergeToml (table b) (table s)) path v ↔
      Leaf (table b) path v ∨ Leaf (table s) path v := by
  induction path generalizing b s above with
  | nil =>
    have htable : ∀ es, ¬ Leaf (table es) [] v := by
      rintro es ⟨hat, hleaf⟩
      cases hat
      cases hleaf
    rw [mergeToml]
    exact ⟨fun hl => absurd hl (htable _), fun hl => hl.elim (fun hl => absurd hl (htable _))
      fun hl => absurd hl (htable _)⟩
  | cons k path ih =>
    rw [mergeToml]
    simp only [Leaf, atPath_table]
    rw [lookup_mergeEntries _ hs.entries]
    cases hk' : lookup k s with
    | none => simp
    | some w =>
      cases hk : lookup k b with
      | none => simp [mergeToml_empty (hs.of_lookup hk')]
      | some u =>
        obtain ⟨us, ws, rfl, rfl, hclean⟩ := clean_of_lookup h hk' hk
        exact ih (hb.of_lookup hk) (hs.of_lookup hk') hclean

end Toml

/-! ## Loading -/

structure Document where
  entries : List (Str × Toml)
  ordered : Toml.Ordered (.table entries)

def Document.tree (d : Document) : Toml := .table d.entries

/-- A config that names a secrets file, and both can be read. -/
structure WithSecrets where
  os : Platform
  files : Files
  configPath : Str
  secretsPath : Str
  configText : Str
  secretsText : Str
  config : Document
  secrets : Document
  readsConfig : files.readToString configPath = some configText
  parsesConfig : os.parseToml configText = some config.entries
  names : (config.tree.get? "secrets_file".toList).bind Toml.asStr = some secretsPath
  exist : files.exists secretsPath = true
  readsSecrets : files.readToString secretsPath = some secretsText
  parsesSecrets : os.parseToml secretsText = some secrets.entries

namespace WithSecrets

def clashes (l : WithSecrets) : List Str := Toml.findKeyClashes l.config.tree l.secrets.tree []

theorem document_eq (l : WithSecrets) : document l.os l.files l.configPath =
    match l.clashes with
    | [] => .ok (Toml.mergeToml l.config.tree l.secrets.tree)
    | keys => .error (.clashes keys) := by
  have hnames : ((Toml.table l.config.entries).get? "secrets_file".toList).bind Toml.asStr =
      some l.secretsPath := l.names
  rw [document, l.readsConfig]
  dsimp only
  rw [l.parsesConfig]
  dsimp only
  rw [hnames]
  dsimp only
  rw [if_pos l.exist, l.readsSecrets]
  dsimp only
  rw [l.parsesSecrets]
  rfl

/-- **One key, one owner.** Without clashes, what is loaded is a merge that has every leaf of either
file at its path, no other leaf, and no order. And what both files claim, at a path where one of
them has no table, is refused and named. -/
structure OneOwner (l : WithSecrets) : Prop where
  merged : l.clashes = [] →
    document l.os l.files l.configPath = .ok (Toml.mergeToml l.config.tree l.secrets.tree) ∧
      (∀ path v, Toml.Leaf (Toml.mergeToml l.config.tree l.secrets.tree) path v ↔
        Toml.Leaf l.config.tree path v ∨ Toml.Leaf l.secrets.tree path v) ∧
      Toml.mergeToml l.config.tree l.secrets.tree = Toml.mergeToml l.secrets.tree l.config.tree
  refused : ∀ path, Toml.Contested l.config.tree l.secrets.tree path →
    ∃ keys, load l.os l.files l.configPath = some (.error (.clashes keys)) ∧
      Toml.dottedPath path ∈ keys

/-- **Every config and secrets file are loaded so.** -/
theorem oneOwner (l : WithSecrets) : l.OneOwner := by
  have hclashes : l.clashes = Toml.entryClashes l.config.entries l.secrets.entries [] := by
    rw [clashes, Document.tree, Document.tree, Toml.findKeyClashes]
  refine ⟨fun h => ⟨?_, ?_, ?_⟩, fun path hpath => ?_⟩
  · rw [document_eq, h]
  · exact Toml.leaf_mergeToml_iff l.config.ordered l.secrets.ordered (hclashes ▸ h)
  · exact Toml.mergeToml_comm l.config.ordered l.secrets.ordered (hclashes ▸ h)
  · have hmem : Toml.dottedPath path ∈ l.clashes := Toml.mem_findKeyClashes_of_contested hpath []
    have hdocument := l.document_eq
    cases hkeys : l.clashes with
    | nil =>
      rw [hkeys] at hmem
      cases hmem
    | cons key rest =>
      rw [hkeys] at hdocument hmem
      refine ⟨key :: rest, ?_, hmem⟩
      rw [load, hdocument]

def databaseEntries : List (Str × Toml) :=
  [("db".toList, .table [("host".toList, .string "db.internal".toList)]),
    ("secrets_file".toList, .string "/srv/secrets.toml".toList)]

theorem ordered_single {k : Str} {t : Toml} (h : Toml.Ordered t) : Toml.Ordered (.table [(k, t)]) :=
  Toml.ordered_table (List.pairwise_singleton ..) (List.forall_mem_singleton.mpr h)

theorem ordered_databaseEntries : Toml.Ordered (.table databaseEntries) := by
  refine Toml.ordered_table (by decide) (List.forall_mem_cons.mpr ⟨?_, ?_⟩)
  · exact ordered_single (Toml.ordered_of_not_table rfl)
  · exact List.forall_mem_singleton.mpr (Toml.ordered_of_not_table rfl)

/-- Secrets that have a key of the database. -/
def databaseSecrets (key : String) : Document where
  entries := [("db".toList, .table [(key.toList, .string "hunter2".toList)])]
  ordered := ordered_single (ordered_single (Toml.ordered_of_not_table rfl))

def databaseFiles (path : Str) : ParamsFile :=
  if path = "/srv/m6.conf".toList then .contents (Utf8.encode "config".toList)
  else if path = "/srv/secrets.toml".toList then .contents (Utf8.encode "secrets".toList)
  else .missing

theorem reads_databaseFiles :
    Files.readToString databaseFiles "/srv/m6.conf".toList = some "config".toList ∧
      Files.readToString databaseFiles "/srv/secrets.toml".toList = some "secrets".toList := by
  decide

/-- A config that names a secrets file, and has the address of a database. -/
def database (key : String) : WithSecrets where
  os := fourCores [("config".toList, databaseEntries),
    ("secrets".toList, (databaseSecrets key).entries)]
  files := databaseFiles
  configPath := "/srv/m6.conf".toList
  secretsPath := "/srv/secrets.toml".toList
  configText := "config".toList
  secretsText := "secrets".toList
  config := ⟨databaseEntries, ordered_databaseEntries⟩
  secrets := databaseSecrets key
  readsConfig := reads_databaseFiles.1
  parsesConfig := rfl
  names := rfl
  exist := rfl
  readsSecrets := reads_databaseFiles.2
  parsesSecrets := rfl

theorem oneOwner_database :
    ((database "password").clashes = [] ∧ (database "password").OneOwner) ∧
      (database "host").clashes = ["db.host".toList] ∧ (database "host").OneOwner :=
  ⟨⟨rfl, (database "password").oneOwner⟩, rfl, (database "host").oneOwner⟩

end WithSecrets

end M6.App
