import M6.Lib.Utf8
import M6.Lib.Lines

/-!
# Reading lines of JSON

The two readers of `ndjson.rs`: `readStr` over a text, and `Reader` over a stream of bytes, which
counts the lines it skips. Both take the parser of a record as they find it (`JsonReader`).

`Reader.collect_spec` says what the streaming reader yields: the records of the lines before the
first one that is not UTF-8, each trimmed of all that Unicode calls white space.
`skipsOnlyBad_iff` says for which streams that is what the lines say: those that are UTF-8 and have
no other white space than that of JSON around a record.
-/

namespace M6

open List Lines Text Option

/-! ## The records of a type -/

def isJsonSpace (c : Char) : Bool := c ∈ [' ', '\t', '\n', '\r']

/-- **The parser of a record**, `serde_json::from_str` at its type. JSON allows its own white space
around a value and no other, and there is a value in every text. -/
structure JsonReader (T : Type) where
  parse : Str → Option T
  empty : parse [] = none
  spaced : ∀ a s b : Str, (∀ c ∈ a, isJsonSpace c = true) → (∀ c ∈ b, isJsonSpace c = true) →
    parse (a ++ s ++ b) = parse s
  opens : ∀ c s, isWhitespace c = true → isJsonSpace c = false → parse (c :: s) = none
  closes : ∀ c s, isWhitespace c = true → isJsonSpace c = false → parse (s ++ [c]) = none

/-! ## The readers -/

/-- A line as `str::lines` gives it, without its `\n` or `\r\n`. -/
def lineText (s : Str) : Str :=
  if s.getLast? = some '\n' then
    if s.dropLast.getLast? = some '\r' then s.dropLast.dropLast else s.dropLast
  else s

section

variable {T : Type} (json : JsonReader T)

def readStr (text : Str) : List T :=
  (((splitInclusive '\n' text).map lineText).filter fun l => trim l ≠ []).filterMap json.parse

/-- `read_line` into an empty buffer: what the buffer holds then, or an error for a line that is
not UTF-8, and what is left of the stream. The line is read either way. -/
def readLine (inner : Bytes) : Option Str × Bytes :=
  (Utf8.fromUtf8? (readUntil 0x0a inner).1, (readUntil 0x0a inner).2)

structure Reader where
  inner : Bytes
  skipped : Nat
  read : Nat

def Reader.new (inner : Bytes) : Reader := ⟨inner, 0, 0⟩

/-- `Reader::next`. Nothing is read at the end of the stream only. -/
def Reader.next (r : Reader) : Option T × Reader :=
  if _h : r.inner = [] then (none, r)
  else
    let rest := (readLine r.inner).2
    match (readLine r.inner).1 with
    | none => (none, { r with inner := rest })
    | some buf =>
      if trim buf = [] then next { r with inner := rest }
      else
        match json.parse (trim buf) with
        | some v => (some v, { r with inner := rest, read := r.read + 1 })
        | none => next { r with inner := rest, skipped := r.skipped + 1 }
termination_by r.inner.length
decreasing_by all_goals exact length_readUntil_lt _h

variable {json}

theorem Reader.length_next {r r' : Reader} {v : T} (h : r.next json = (some v, r')) :
    r'.inner.length < r.inner.length := by
  induction hn : r.inner.length using Nat.strongRecOn generalizing r with
  | _ n ih =>
    subst hn
    rw [next] at h
    split_ifs at h with hend
    · cases h
    · have hlt : (readLine r.inner).2.length < r.inner.length := length_readUntil_lt hend
      split at h
      · cases h
      · split_ifs at h
        · exact (ih _ hlt h rfl).trans hlt
        · split at h
          · cases h
            exact hlt
          · exact (ih _ hlt h rfl).trans hlt

variable (json)

/-- Take records until there is none, as `collect` does. -/
def Reader.collect (r : Reader) : List T × Reader :=
  match _h : r.next json with
  | (none, r') => ([], r')
  | (some v, r') => (v :: (collect r').1, (collect r').2)
termination_by r.inner.length
decreasing_by all_goals exact Reader.length_next _h

theorem Reader.collect_of_none {r r' : Reader} (h : r.next json = (none, r')) :
    r.collect json = ([], r') := by
  rw [collect]
  split <;> simp_all

theorem Reader.collect_of_some {r r' : Reader} {v : T} (h : r.next json = (some v, r')) :
    r.collect json = (v :: (r'.collect json).1, (r'.collect json).2) := by
  rw [collect]
  split <;> simp_all

theorem Reader.collect_congr {r r' : Reader} (h : r.next json = r'.next json) :
    r.collect json = r'.collect json := by
  rcases hnext : r'.next json with ⟨_ | v, r''⟩
  · rw [collect_of_none json hnext, collect_of_none json (h.trans hnext)]
  · rw [collect_of_some json hnext, collect_of_some json (h.trans hnext)]

theorem Reader.collect_nil {r : Reader} (h : r.inner = []) : r.collect json = ([], r) :=
  collect_of_none json (by rw [next, dif_pos h])

/-- **What one line comes to.** -/
theorem Reader.collect_line {r : Reader} (h : r.inner ≠ []) : r.collect json =
      let rest := (readLine r.inner).2
      match (readLine r.inner).1 with
      | none => ([], { r with inner := rest })
      | some buf =>
        if trim buf = [] then collect json { r with inner := rest }
        else
          match json.parse (trim buf) with
          | some v =>
            let r' := collect json { r with inner := rest, read := r.read + 1 }
            (v :: r'.1, r'.2)
          | none => collect json { r with inner := rest, skipped := r.skipped + 1 } := by
  have hnext := Reader.next.eq_def json r
  rw [dif_neg h] at hnext
  dsimp only at hnext ⊢
  cases hline : (readLine r.inner).1 with
  | none =>
    rw [hline] at hnext
    exact collect_of_none json hnext
  | some buf =>
    rw [hline] at hnext
    dsimp only at hnext ⊢
    split_ifs at hnext ⊢ with hblank
    · exact collect_congr json hnext
    · cases hparse : json.parse (trim buf) with
      | some v =>
        rw [hparse] at hnext
        exact collect_of_some json hnext
      | none =>
        rw [hparse] at hnext
        exact collect_congr json hnext

/-! ## What a line says -/

def nonBlank (line : Bytes) : Bool :=
  match Utf8.fromUtf8? line with
  | none => true
  | some s => trim s ≠ []

def lineRecord (line : Bytes) : Option T :=
  (Utf8.fromUtf8? line).bind fun s => json.parse (lineText s)

def trimmedRecord (line : Bytes) : Option T :=
  (Utf8.fromUtf8? line).bind fun s => json.parse (trim s)

def linesRead (stream : Bytes) : List Bytes :=
  (splitInclusive 0x0a stream).takeWhile fun line => (Utf8.fromUtf8? line).isSome

/-- **What the streaming reader yields**, and what it counts. -/
theorem Reader.collect_spec (r : Reader) :
    (r.collect json).1 = (linesRead r.inner).filterMap (trimmedRecord json) ∧
      (r.collect json).2.skipped = r.skipped + (linesRead r.inner).countP fun line =>
        nonBlank line && (trimmedRecord json line).isNone := by
  induction hn : r.inner.length using Nat.strongRecOn generalizing r with
  | _ n ih =>
    subst hn
    by_cases hend : r.inner = []
    · rw [collect_nil json hend, hend]
      exact ⟨rfl, rfl⟩
    · have hlt : (readLine r.inner).2.length < r.inner.length := length_readUntil_lt hend
      have hlines : linesRead r.inner =
          if (readLine r.inner).1.isSome then
            (readUntil 0x0a r.inner).1 :: linesRead (readLine r.inner).2
          else [] := by
        rw [linesRead, splitInclusive_readUntil hend, takeWhile_cons]
        rfl
      rw [collect_line json hend, hlines]
      cases hline : (readLine r.inner).1 with
      | none => exact ⟨rfl, rfl⟩
      | some buf =>
        have hrecord : trimmedRecord json (readUntil 0x0a r.inner).1 = json.parse (trim buf) := by
          rw [trimmedRecord, show Utf8.fromUtf8? (readUntil 0x0a r.inner).1 = some buf from hline]
          rfl
        have hblank : nonBlank (readUntil 0x0a r.inner).1 = decide (trim buf ≠ []) := by
          rw [nonBlank, show Utf8.fromUtf8? (readUntil 0x0a r.inner).1 = some buf from hline]
        rw [isSome_some, if_pos rfl, filterMap_cons, countP_cons, hrecord, hblank]
        dsimp only
        by_cases htrim : trim buf = []
        · obtain ⟨hyields, hskipped⟩ := ih _ hlt { r with inner := (readLine r.inner).2 } rfl
          rw [if_pos htrim, hyields, hskipped, htrim, json.empty]
          exact ⟨rfl, by simp⟩
        · rw [if_neg htrim]
          cases hparse : json.parse (trim buf) with
          | some v =>
            obtain ⟨hyields, hskipped⟩ :=
              ih _ hlt { r with inner := (readLine r.inner).2, read := r.read + 1 } rfl
            dsimp only
            rw [hyields, hskipped]
            exact ⟨rfl, by simp⟩
          | none =>
            obtain ⟨hyields, hskipped⟩ :=
              ih _ hlt { r with inner := (readLine r.inner).2, skipped := r.skipped + 1 } rfl
            dsimp only
            rw [hyields, hskipped, decide_eq_true htrim]
            refine ⟨rfl, ?_⟩
            simp only [isNone_none, Bool.and_true, if_true]
            omega

end

/-! ## White space around a record -/

def JsonSpaced (s : Str) : Prop :=
  ∃ a b, s = a ++ trim s ++ b ∧ (∀ c ∈ a, isJsonSpace c = true) ∧ ∀ c ∈ b, isJsonSpace c = true

theorem exists_first {p : Char → Bool} {l : Str} (h : ¬ ∀ c ∈ l, p c = true) :
    ∃ a c b, l = a ++ c :: b ∧ c ∈ l ∧ p c = false ∧ ∀ x ∈ a, p x = true := by
  induction l with
  | nil => exact absurd (fun c hc => absurd hc not_mem_nil) h
  | cons x l ih =>
    cases hx : p x with
    | false => exact ⟨[], x, l, rfl, mem_cons_self, hx, fun y hy => absurd hy not_mem_nil⟩
    | true =>
      have hl : ¬ ∀ c ∈ l, p c = true := fun hl => h (forall_mem_cons.mpr ⟨hx, hl⟩)
      obtain ⟨a, c, b, rfl, hmem, hc, ha⟩ := ih hl
      exact ⟨x :: a, c, b, rfl, mem_cons_of_mem x hmem, hc, forall_mem_cons.mpr ⟨hx, ha⟩⟩

theorem exists_last {p : Char → Bool} {l : Str} (h : ¬ ∀ c ∈ l, p c = true) :
    ∃ a c b, l = a ++ c :: b ∧ c ∈ l ∧ p c = false ∧ ∀ x ∈ b, p x = true := by
  have hreverse : ¬ ∀ c ∈ l.reverse, p c = true := by
    intro hall
    exact h fun c hc => hall c (mem_reverse.mpr hc)
  obtain ⟨b, c, a, hl, hmem, hc, hb⟩ := exists_first hreverse
  refine ⟨a.reverse, c, b.reverse, ?_, mem_reverse.mp hmem, hc, ?_⟩
  · rw [← l.reverse_reverse, hl]
    simp
  · exact fun x hx => hb x (mem_reverse.mp hx)

theorem exists_lineText (s : Str) : ∃ b, s = lineText s ++ b ∧ ∀ c ∈ b, isJsonSpace c = true := by
  rw [lineText]
  split_ifs with hnl hcr
  · refine ⟨['\r', '\n'], ?_, all_eq_true.mp (by decide)⟩
    conv_lhs => rw [← dropLast_append_getLast? _ hnl, ← dropLast_append_getLast? _ hcr]
    rw [append_assoc]
    rfl
  · exact ⟨['\n'], (dropLast_append_getLast? _ hnl).symm, all_eq_true.mp (by decide)⟩
  · exact ⟨[], (append_nil s).symm, all_eq_true.mp (by decide)⟩

namespace JsonReader

variable {T : Type} (json : JsonReader T)

theorem parse_lineText (s : Str) : json.parse (lineText s) = json.parse s := by
  obtain ⟨b, hs, hb⟩ := exists_lineText s
  have h := json.spaced [] (lineText s) b (fun c hc => absurd hc not_mem_nil) hb
  rw [nil_append, ← hs] at h
  exact h.symm

theorem parse_of_spaced {s : Str} (h : JsonSpaced s) : json.parse s = json.parse (trim s) := by
  obtain ⟨a, b, hs, ha, hb⟩ := h
  conv_lhs => rw [hs]
  exact json.spaced a (trim s) b ha hb

theorem parse_of_not_spaced {s : Str} (h : ¬ JsonSpaced s) : json.parse s = none := by
  obtain ⟨a, b, hs, ha, hb⟩ := exists_trim s
  have hnil : ∀ c ∈ ([] : Str), isJsonSpace c = true := fun c hc => absurd hc not_mem_nil
  by_cases haj : ∀ c ∈ a, isJsonSpace c = true
  · have hbj : ¬ ∀ c ∈ b, isJsonSpace c = true := fun hbj => h ⟨a, b, hs, haj, hbj⟩
    obtain ⟨b₁, c, b₂, rfl, hmem, hc, hb₂⟩ := exists_last hbj
    have hparse := json.spaced [] (a ++ trim s ++ b₁ ++ [c]) b₂ hnil hb₂
    rw [json.closes c _ (hb c hmem) hc] at hparse
    rw [hs, ← hparse]
    simp
  · obtain ⟨a₁, c, a₂, rfl, hmem, hc, ha₁⟩ := exists_first haj
    have hparse := json.spaced a₁ (c :: (a₂ ++ trim s ++ b)) [] ha₁ hnil
    rw [json.opens c _ (ha c hmem) hc] at hparse
    rw [hs, ← hparse]
    simp

theorem parse_of_blank {s : Str} (h : trim s = []) : json.parse s = none := by
  by_cases hs : JsonSpaced s
  · rw [json.parse_of_spaced hs, h, json.empty]
  · exact json.parse_of_not_spaced hs

end JsonReader

/-! ## Which streams are read as they say -/

section

variable {T : Type} (json : JsonReader T)

/-- **Only what is bad is skipped**: every record is yielded, in order, every other line that is not
blank is counted, and of a text both readers yield the same. -/
structure SkipsOnlyBad (stream : Bytes) : Prop where
  yields : ((Reader.new stream).collect json).1 =
    (splitInclusive 0x0a stream).filterMap (lineRecord json)
  skipped : ((Reader.new stream).collect json).2.skipped =
    (splitInclusive 0x0a stream).countP fun line => nonBlank line && (lineRecord json line).isNone
  same : ∀ text, Utf8.encode text = stream →
    ((Reader.new stream).collect json).1 = readStr json text

def PlainLine (line : Bytes) : Prop :=
  ∃ s, Utf8.fromUtf8? line = some s ∧ ((json.parse (trim s)).isSome = true → JsonSpaced s)

variable {json}

theorem trimmedRecord_of_lineRecord {line : Bytes} {v : T} (h : lineRecord json line = some v) :
    trimmedRecord json line = some v := by
  obtain ⟨s, hs, hv⟩ := bind_eq_some_iff.mp h
  rw [json.parse_lineText] at hv
  rw [trimmedRecord, hs, bind_some]
  by_cases hspaced : JsonSpaced s
  · rw [← json.parse_of_spaced hspaced, hv]
  · rw [json.parse_of_not_spaced hspaced] at hv
    cases hv

theorem record_eq_iff {line : Bytes} {s : Str} (hs : Utf8.fromUtf8? line = some s) :
    trimmedRecord json line = lineRecord json line ↔
      ((json.parse (trim s)).isSome = true → JsonSpaced s) := by
  rw [trimmedRecord, lineRecord, hs, bind_some, bind_some, json.parse_lineText]
  by_cases hspaced : JsonSpaced s
  · rw [json.parse_of_spaced hspaced]
    exact iff_of_true rfl fun _ => hspaced
  · rw [json.parse_of_not_spaced hspaced]
    cases json.parse (trim s) <;> simp [hspaced]

variable (json) in
theorem nonBlank_of_record {line : Bytes} (h : (trimmedRecord json line).isSome = true) :
    nonBlank line = true := by
  rw [trimmedRecord] at h
  rw [nonBlank]
  cases hs : Utf8.fromUtf8? line with
  | none => rfl
  | some s =>
    rw [hs, bind_some] at h
    refine decide_eq_true fun hblank => ?_
    rw [hblank, json.empty] at h
    cases h

theorem countP_nonBlank {record : Bytes → Option T}
    (h : ∀ line, (record line).isSome = true → nonBlank line = true) (lines : List Bytes) :
    lines.countP nonBlank = (lines.filterMap record).length +
      lines.countP fun line => nonBlank line && (record line).isNone := by
  induction lines with
  | nil => rfl
  | cons line lines ih =>
    rw [countP_cons, countP_cons, filterMap_cons, ih]
    cases hrecord : record line with
    | none =>
      simp
      omega
    | some v =>
      rw [h line (by rw [hrecord]; rfl)]
      simp
      omega

theorem eq_of_filterMap_eq {f g : Bytes → Option T} (hfg : ∀ line v, g line = some v →
    f line = some v)
    {lines : List Bytes} (h : lines.filterMap f = lines.filterMap g) :
    ∀ line ∈ lines, f line = g line := by
  have hle : ∀ lines : List Bytes, (lines.filterMap g).length ≤ (lines.filterMap f).length := by
    intro lines
    induction lines with
    | nil => exact Nat.le_refl _
    | cons line lines ih =>
      rw [filterMap_cons, filterMap_cons]
      cases hg : g line with
      | none =>
        cases f line with
        | none => exact ih
        | some v => exact ih.trans (Nat.le_succ _)
      | some v =>
        rw [hfg line v hg]
        exact Nat.succ_le_succ ih
  induction lines with
  | nil => exact fun line hline => absurd hline not_mem_nil
  | cons line lines ih =>
    rw [filterMap_cons, filterMap_cons] at h
    cases hg : g line with
    | none =>
      cases hf : f line with
      | none =>
        rw [hf, hg] at h
        exact forall_mem_cons.mpr ⟨hf.trans hg.symm, ih h⟩
      | some v =>
        rw [hf, hg] at h
        have hlen : (v :: lines.filterMap f).length = (lines.filterMap g).length :=
          congrArg List.length h
        rw [length_cons] at hlen
        have := hle lines
        omega
    | some v =>
      have hf := hfg line v hg
      rw [hf, hg] at h
      exact forall_mem_cons.mpr ⟨hf.trans hg.symm, ih (List.cons.inj h).2⟩

theorem takeWhile_eq_of_countP {p q : Bytes → Bool} (h : ∀ line, p line = false → q line = true)
    {lines : List Bytes} (hcount : (lines.takeWhile p).countP q = lines.countP q) :
    lines.takeWhile p = lines := by
  induction lines with
  | nil => rfl
  | cons line lines ih =>
    cases hp : p line with
    | true =>
      rw [takeWhile_cons_of_pos hp, countP_cons, countP_cons] at hcount
      rw [takeWhile_cons_of_pos hp, ih (Nat.add_right_cancel hcount)]
    | false =>
      rw [takeWhile_cons_of_neg (by rw [hp]; exact Bool.false_ne_true), countP_cons,
        h line hp] at hcount
      simp at hcount

theorem splitInclusive_encode (text : Str) :
    splitInclusive 0x0a (Utf8.encode text) = (splitInclusive '\n' text).map Utf8.encode := by
  have habsent : ∀ {p : Str}, '\n' ∉ p → (0x0a : UInt8) ∉ Utf8.encode p := fun hp =>
    Utf8.not_mem_encode (c := '\n') (by decide) hp
  induction text using by_lines (t := '\n') with
  | nil => rfl
  | last p hne hp =>
    rw [splitInclusive_of_absent hne hp,
      splitInclusive_of_absent (Utf8.encode_ne_nil hne) (habsent hp)]
    rfl
  | line p rest hp ih =>
    have hbytes : ∀ tail : Str, Utf8.encode (p ++ '\n' :: tail) =
        Utf8.encode p ++ 0x0a :: Utf8.encode tail := by
      intro tail
      rw [Utf8.encode_append]
      rfl
    rw [splitInclusive_line hp, hbytes, splitInclusive_line (habsent hp), ih, map_cons, hbytes]
    rfl

/-- What `read_str` yields are the records of the lines. -/
theorem readStr_eq (text : Str) :
    readStr json text = (splitInclusive 0x0a (Utf8.encode text)).filterMap (lineRecord json) := by
  rw [readStr, splitInclusive_encode]
  induction splitInclusive '\n' text with
  | nil => rfl
  | cons s lines ih =>
    have hrecord : lineRecord json (Utf8.encode s) = json.parse (lineText s) := by
      rw [lineRecord, Utf8.fromUtf8?_encode, bind_some]
    rw [map_cons, filter_cons, map_cons, filterMap_cons, hrecord, ← ih]
    by_cases hblank : trim (lineText s) = []
    · rw [if_neg (by simpa using hblank), json.parse_of_blank hblank]
    · rw [if_pos (by simpa using hblank), filterMap_cons]

variable (json)

/-- **When only what is bad is skipped**: exactly if every line is plain. -/
theorem skipsOnlyBad_iff (stream : Bytes) :
    SkipsOnlyBad json stream ↔ ∀ line ∈ splitInclusive 0x0a stream, PlainLine json line := by
  obtain ⟨hyields, hskipped⟩ := (Reader.new stream).collect_spec json
  rw [show (Reader.new stream).inner = stream from rfl] at hyields hskipped
  have hnonBlank : ∀ line, (lineRecord json line).isSome = true → nonBlank line = true := by
    intro line hline
    obtain ⟨v, hv⟩ := isSome_iff_exists.mp hline
    exact nonBlank_of_record json (by rw [trimmedRecord_of_lineRecord hv]; rfl)
  constructor
  · intro h
    -- as many lines are yielded or counted as are not blank, so none is left behind the last read
    have hcount : (linesRead stream).countP nonBlank =
        (splitInclusive 0x0a stream).countP nonBlank := by
      rw [countP_nonBlank (fun _ => nonBlank_of_record json), countP_nonBlank hnonBlank,
        ← hyields, ← h.yields, ← h.skipped, hskipped]
      simp [Reader.new]
    have hall : linesRead stream = splitInclusive 0x0a stream := by
      refine takeWhile_eq_of_countP (fun line hline => ?_) hcount
      rw [nonBlank, isSome_eq_false_iff.mp hline |> isNone_iff_eq_none.mp]
    have hrecords : (splitInclusive 0x0a stream).filterMap (trimmedRecord json) =
        (splitInclusive 0x0a stream).filterMap (lineRecord json) := by
      rw [← h.yields, hyields, hall]
    have hsame := eq_of_filterMap_eq (fun _ _ h => trimmedRecord_of_lineRecord h) hrecords
    intro line hline
    have hvalid : (Utf8.fromUtf8? line).isSome = true := by
      rw [← hall] at hline
      exact mem_takeWhile_imp (p := fun line => (Utf8.fromUtf8? line).isSome) hline
    obtain ⟨s, hs⟩ := isSome_iff_exists.mp hvalid
    exact ⟨s, hs, (record_eq_iff hs).mp (hsame line hline)⟩
  · intro h
    have hall : linesRead stream = splitInclusive 0x0a stream := by
      rw [linesRead, takeWhile_eq_self_iff]
      intro line hline
      obtain ⟨s, hs, -⟩ := h line hline
      rw [hs]
      rfl
    have hsame : ∀ line ∈ splitInclusive 0x0a stream,
        trimmedRecord json line = lineRecord json line := by
      intro line hline
      obtain ⟨s, hs, hspaced⟩ := h line hline
      exact (record_eq_iff hs).mpr hspaced
    have hrecords : ((Reader.new stream).collect json).1 =
        (splitInclusive 0x0a stream).filterMap (lineRecord json) := by
      rw [hyields, hall]
      exact filterMap_congr hsame
    refine ⟨hrecords, ?_, ?_⟩
    · rw [hskipped, hall, show (Reader.new stream).skipped = 0 from rfl, Nat.zero_add]
      refine countP_congr fun line hline => ?_
      rw [hsame line hline]
    · rintro text rfl
      rw [hrecords, readStr_eq]

end

/-! ## A line that costs those after it -/

def trimJson (s : Str) : Str :=
  ((s.dropWhile isJsonSpace).reverse.dropWhile isJsonSpace).reverse

theorem trimJson_append {a s b : Str} (ha : ∀ c ∈ a, isJsonSpace c = true)
    (hb : ∀ c ∈ b, isJsonSpace c = true) : trimJson (a ++ s ++ b) = trimJson s := by
  have hb' : ∀ c ∈ b.reverse, isJsonSpace c = true := fun c hc => hb c (mem_reverse.mp hc)
  rw [trimJson, trimJson, append_assoc, dropWhile_append_of_pos ha, dropWhile_append]
  split_ifs with hs
  · rw [dropWhile_eq_nil_iff.mpr hb, isEmpty_iff.mp hs]
  · rw [reverse_append, dropWhile_append_of_pos hb']

theorem mem_trimJson {c : Char} (hc : isJsonSpace c = false) {s : Str} (h : c ∈ s) :
    c ∈ trimJson s := by
  have hdrop : ∀ {l : Str}, c ∈ l → c ∈ l.dropWhile isJsonSpace := by
    intro l hl
    rw [← takeWhile_append_dropWhile (p := isJsonSpace) (l := l), mem_append] at hl
    rcases hl with hl | hl
    · rw [mem_takeWhile_imp hl] at hc
      cases hc
    · exact hl
  rw [trimJson, mem_reverse]
  exact hdrop (mem_reverse.mpr (hdrop h))

/-- The value of a JSON text that is a `bool`. -/
def parseBool (s : Str) : Option Bool :=
  if trimJson s = "true".toList then some true
  else if trimJson s = "false".toList then some false
  else none

theorem parseBool_of_mem {c : Char} {s : Str} (hmem : c ∈ s) (hc : isWhitespace c = true)
    (hc' : isJsonSpace c = false) : parseBool s = none := by
  have hplain : ∀ t ∈ ["true".toList, "false".toList], ∀ c ∈ t, isWhitespace c = false := by
    intro t ht c hc
    have hall : ["true".toList, "false".toList].all (·.all fun c => !isWhitespace c) := by decide
    simpa using all_eq_true.mp (all_eq_true.mp hall t ht) c hc
  have hne : ∀ t ∈ ["true".toList, "false".toList], trimJson s ≠ t := by
    intro t ht h
    have hin := mem_trimJson hc' hmem
    rw [h] at hin
    rw [hplain t ht c hin] at hc
    cases hc
  rw [parseBool, if_neg (hne _ mem_cons_self), if_neg (hne _ (mem_cons_of_mem _ mem_cons_self))]

/-- `from_str` at the type `bool`. -/
def boolReader : JsonReader Bool where
  parse := parseBool
  empty := by decide
  spaced := fun a s b ha hb => by rw [parseBool, parseBool, trimJson_append ha hb]
  opens := fun _ _ => parseBool_of_mem List.mem_cons_self
  closes := fun _ _ => parseBool_of_mem (List.mem_append_right _ List.mem_cons_self)

theorem record_lost : ¬ SkipsOnlyBad boolReader ([0xff, 0x0a] ++ Utf8.encode "true\n".toList) := by
  intro h
  have hread : ((Reader.new ([0xff, 0x0a] ++ Utf8.encode "true\n".toList)).collect boolReader).1 =
      [] := by
    rw [Reader.collect_line boolReader (by decide)]
    rfl
  have hsaid : (splitInclusive 0x0a ([0xff, 0x0a] ++ Utf8.encode "true\n".toList)).filterMap
      (lineRecord boolReader) = [true] := by
    decide
  have hyields := h.yields
  rw [hread, hsaid] at hyields
  cases hyields

end M6
