import M6.Core.Config

/-!
# A directory of Markdown as one file

`process` of `m6-md`: the Markdown files of a directory become the documents of one JSON text. What
it writes depends on the documents only (`process_congr`), that is on the files whose names end in
`.md` and do not begin with an underscore.

TOML, Markdown, JSON text and dates are of other crates and are parameters (`Formats`).
-/

namespace M6.Md

open App

/-! ## Names -/

/-- Bytes are ordered by value, as the system orders the bytes of names. -/
instance byteOrder : LinearOrder UInt8 where
  le_refl := UInt8.le_refl
  le_trans := fun _ _ _ => UInt8.le_trans
  le_antisymm := fun _ _ => UInt8.le_antisymm
  le_total := UInt8.le_total
  lt_iff_le_not_ge := fun a b => by
    rw [UInt8.lt_iff_toNat_lt, UInt8.le_iff_toNat_le, UInt8.le_iff_toNat_le]
    omega
  toDecidableLE := inferInstance

/-- The name of a directory entry, which need not be text. -/
abbrev Name : Type := Bytes

/-- The two sides of the last `sep`. -/
def cutLast (sep : UInt8) : Bytes → Option (Bytes × Bytes)
  | [] => none
  | b :: bytes =>
    match cutLast sep bytes with
    | some (before, after) => some (b :: before, after)
    | none => if b = sep then some ([], bytes) else none

def rsplitFileAtDot (name : Name) : Option Bytes × Option Bytes :=
  if name = Utf8.encode "..".toList then (some name, none)
  else
    match cutLast 46 name with
    | none => (none, some name)
    | some (before, after) => if before = [] then (some name, none) else (some before, some after)

def extension (name : Name) : Option Bytes :=
  (rsplitFileAtDot name).1.bind fun _ => (rsplitFileAtDot name).2

def fileStem (name : Name) : Option Bytes :=
  (rsplitFileAtDot name).1.or (rsplitFileAtDot name).2

/-- Whether the extension is `md`. -/
def hasMdExtension (name : Name) : Bool :=
  (extension name).bind Utf8.fromUtf8? = some "md".toList

/-- Whether a file of this name is a document: one whose name begins with an underscore is not. -/
def isDocument (name : Name) : Bool :=
  hasMdExtension name &&
    !((Utf8.fromUtf8? name).map fun n => "_".toList.isPrefixOf n).getD false

/-! ## The directory -/

inductive Entry where
  | file (contents : Bytes) (modified : Int)
  | other

def Entry.isFile : Entry → Bool
  | .file _ _ => true
  | .other => false

abbrev Dir : Type := SortedMap Name Entry

/-- The formats that `m6-md` reads and writes. A date is given in seconds. -/
structure Formats where
  tomlFromStr : Str → Option Toml
  markdownToHtml : Str → Str
  toStringPretty : Value → Str
  dateFromTimestamp : Nat → Option Str

/-- Why a pass fails. -/
inductive Fault where
  | reading (name : Name)
  | malformedFrontmatter (stem : Str)

variable (formats : Formats)

/-! ## One file -/

/-- The two sides of the first `p`. -/
def splitOnce (p : Str) : Str → Option (Str × Str)
  | [] => if p = [] then some ([], []) else none
  | c :: s =>
    if p <+: c :: s then some ([], (c :: s).drop p.length)
    else (splitOnce p s).map fun r => (c :: r.1, r.2)

/-- The front matter of a source, and its body. -/
def splitFrontmatter (src : Str) : Option Str × Str :=
  let src := src.dropWhile (· = Char.ofNat 0xfeff)
  if "+++".toList <+: src then
    match splitOnce "\n+++".toList (src.drop 3) with
    | some (fm, body) => (some fm, body.dropWhile (· = '\n'))
    | none => (none, src)
  else (none, src)

/-- The fields of the front matter. Those that are set from the file itself are ignored. -/
def parseFrontmatter (toml stem : Str) : Except Fault DictMap :=
  match formats.tomlFromStr toml with
  | none => .error (.malformedFrontmatter stem)
  | some (.table entries) =>
    .ok (entries.foldl (fun map e =>
      if e.1 = "stem".toList ∨ e.1 = "path".toList ∨ e.1 = "body".toList then map
      else map.insert e.1 e.2.toJson) .empty)
  | some _ => .ok .empty

/-- `iso_date_from`: a time before the epoch counts as the epoch, and so does one that is no
date. -/
def isoDateFrom (modified : Int) : Str :=
  (formats.dateFromTimestamp modified.toNat).getD "1970-01-01".toList

def processFile (dir : Dir) (name : Name) : Except Fault Value :=
  let stem := ((fileStem name).bind Utf8.fromUtf8?).getD "untitled".toList
  match dir.get? name with
  | some (.file contents modified) =>
    match Utf8.fromUtf8? contents with
    | none => .error (.reading name)
    | some src => do
      let (fm, body) := splitFrontmatter src
      let fields ← match fm with
        | some fm => parseFrontmatter formats fm stem
        | none => .ok .empty
      let title := ((fields.get? "title".toList).bind Value.asStr).getD
        (Text.replace stem "-".toList " ".toList)
      let fields := fields.erase "title".toList
      let date := ((fields.get? "date".toList).bind Value.asStr).getD (isoDateFrom formats modified)
      let fields := fields.erase "date".toList
      let fixed : DictMap := SortedMap.insertAll .empty
        [("stem".toList, .string stem), ("path".toList, .string ('/' :: stem)),
          ("title".toList, .string title), ("date".toList, .string date),
          ("body".toList, .string (formats.markdownToHtml body))]
      .ok (DictMap.toValue (fixed.insertAll fields.entries))
  -- the file went away after the listing, or a directory took its place
  | _ => .error (.reading name)

/-! ## One pass -/

def listing (dir : Dir) : List Name :=
  (dir.filter fun e => e.2.isFile && isDocument e.1).entries.map Prod.fst

def textOf (k : Str) (doc : Value) : Str := ((doc.get? k).bind Value.asStr).getD []

/-- The order of the documents: the newest first, and by stem among those of one date. -/
def Precedes (a b : Value) : Prop :=
  textOf "date".toList b < textOf "date".toList a ∨
    (textOf "date".toList b = textOf "date".toList a ∧
      textOf "stem".toList a ≤ textOf "stem".toList b)

instance : DecidableRel Precedes := fun _ _ => inferInstanceAs (Decidable (_ ∨ _))

def outputJson (documents : List Value) : Str :=
  formats.toStringPretty
    (.object [("documents".toList, .array (documents.insertionSort Precedes))])

def process (dir : Dir) : Except Fault Str := do
  let documents ← (listing dir).mapM (processFile formats dir)
  .ok (outputJson formats documents)

/-! ## What a pass depends on -/

def SameDocuments (dir dir' : Dir) : Prop :=
  ∀ name, isDocument name → dir'.get? name = dir.get? name

variable {formats}

theorem SameDocuments.listing {dir dir' : Dir} (h : SameDocuments dir dir') :
    listing dir' = listing dir := by
  have hsame : (dir'.filter fun e => e.2.isFile && isDocument e.1) =
      dir.filter fun e => e.2.isFile && isDocument e.1 := by
    refine SortedMap.ext_get? fun name => Option.ext fun entry => ?_
    simp only [SortedMap.get?_filter, Bool.and_eq_true]
    constructor
    · rintro ⟨hget, hfile, hdoc⟩
      exact ⟨(h name hdoc) ▸ hget, hfile, hdoc⟩
    · rintro ⟨hget, hfile, hdoc⟩
      exact ⟨(h name hdoc).trans hget, hfile, hdoc⟩
  rw [Md.listing, hsame, Md.listing]

theorem isDocument_of_mem_listing {dir : Dir} {name : Name} (h : name ∈ listing dir) :
    isDocument name = true := by
  obtain ⟨⟨_, entry⟩, hmem, rfl⟩ := List.mem_map.mp h
  have hp := (List.mem_filter.mp hmem).2
  exact (Bool.and_eq_true_iff.mp hp).2

theorem SameDocuments.processFile {dir dir' : Dir} (h : SameDocuments dir dir') {name : Name}
    (hname : isDocument name = true) :
    processFile formats dir' name = processFile formats dir name := by
  rw [Md.processFile, Md.processFile, h name hname]

theorem SameDocuments.mapM {dir dir' : Dir} (h : SameDocuments dir dir') {names : List Name}
    (hnames : ∀ name ∈ names, isDocument name = true) :
    names.mapM (Md.processFile formats dir') = names.mapM (Md.processFile formats dir) := by
  induction names with
  | nil => rfl
  | cons name names ih =>
    rw [List.mapM_cons, List.mapM_cons, h.processFile (hnames name (List.mem_cons_self ..)),
      ih fun n hn => hnames n (List.mem_cons_of_mem _ hn)]

/-- **A pass depends on the documents only.** -/
theorem process_congr {dir dir' : Dir} (h : SameDocuments dir dir') :
    process formats dir' = process formats dir := by
  rw [process, process, h.listing, h.mapM fun name hname => isDocument_of_mem_listing hname]

end M6.Md
