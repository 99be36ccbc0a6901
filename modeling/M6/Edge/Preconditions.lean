import M6.Edge.Forward
import M6.Edge.Replay

/-!
# Preconditions

`evaluate_preconditions` of `conditional.rs` takes the conditional fields of a request in four
steps.
A field may come in several lines, which are one list, and an entity tag in it may hold a comma; the
code reads the first line and cuts it at every comma.

`Verdicts.outcome` is the table of the four steps, over what the fields say, and
`evaluatePreconditions_eq` that the code follows it. A request is misled where its first lines do
not lead where its whole fields do: `Misled` lists the ways, `preconditions_iff` says that there are
no others, and `not_misled_of_plain` that a request is not misled whose fields have one line each,
with no comma within quotes.
-/

namespace M6

open Text (trim)

/-! ## The four steps -/

/-- What the conditional fields of a request say, those that are there. -/
structure Verdicts where
  /-- whether `If-Match` has the stored tag -/
  ifMatch : Option Bool
  /-- whether what is stored is newer than `If-Unmodified-Since` -/
  newer : Option Bool
  /-- whether `If-None-Match` has the stored tag -/
  ifNoneMatch : Option Bool
  /-- whether what is stored is no newer than `If-Modified-Since` -/
  unmodified : Option Bool
  isGetOrHead : Bool

namespace Verdicts

/-- Steps 1 and 2: the request is not to be applied. -/
def refuses (v : Verdicts) : Bool :=
  match v.ifMatch with
  | some found => !found
  | none => v.newer == some true

def answer (v : Verdicts) : Precondition :=
  match v.ifNoneMatch with
  | some found =>
    if found then (if v.isGetOrHead then .notModified else .failed) else .proceed
  | none => if v.isGetOrHead && v.unmodified == some true then .notModified else .proceed

/-- **The table of the four steps.** -/
def outcome (v : Verdicts) : Precondition := if v.refuses then .failed else v.answer

def refusesLate (v : Verdicts) : Bool := v.ifNoneMatch == some true && !v.isGetOrHead

/-- The field that decides in step 3 or 4 says the same. -/
def SameAnswer (v w : Verdicts) : Prop :=
  v.ifNoneMatch = w.ifNoneMatch ∧
    (v.ifNoneMatch = none → v.isGetOrHead = true →
      (v.unmodified = some true ↔ w.unmodified = some true))

/-- **Two readings of a request lead to the same**: both refuse it in the first two steps, or one
does and the other in the third, or neither does and the next field that counts says the same. -/
def Agree (v w : Verdicts) : Prop :=
  if v.refuses then w.refuses = true ∨ w.refusesLate = true
  else if w.refuses then v.refusesLate = true
  else v.SameAnswer w

theorem answer_eq_failed_iff (v : Verdicts) : v.answer = .failed ↔ v.refusesLate = true := by
  rw [answer, refusesLate]
  rcases v.ifNoneMatch with _ | _ | _ <;> cases v.isGetOrHead <;> simp
  split_ifs <;> simp

variable {v w : Verdicts}

theorem answer_eq_iff (hmethod : v.isGetOrHead = w.isGetOrHead)
    (hpresent : v.ifNoneMatch.isSome = w.ifNoneMatch.isSome) :
    v.answer = w.answer ↔ v.SameAnswer w := by
  rw [answer, answer, SameAnswer, ← hmethod]
  cases hv : v.ifNoneMatch with
  | none =>
    rw [hv, Option.isSome_none, eq_comm, Option.isSome_eq_false_iff, Option.isNone_iff_eq_none]
      at hpresent
    rw [hpresent]
    cases v.isGetOrHead with
    | false => simp
    | true =>
      simp only [Bool.true_and, beq_iff_eq, true_and, true_implies]
      by_cases hold : v.unmodified = some true
      all_goals
        by_cases hnew : w.unmodified = some true
        · simp [hold, hnew]
        · simp [hold, hnew]
  | some found =>
    rw [hv, Option.isSome_some, eq_comm, Option.isSome_iff_exists] at hpresent
    obtain ⟨found', hw⟩ := hpresent
    rw [hw]
    cases found <;> cases found' <;> cases v.isGetOrHead <;> simp

theorem outcome_eq_iff (hmethod : v.isGetOrHead = w.isGetOrHead)
    (hpresent : v.ifNoneMatch.isSome = w.ifNoneMatch.isSome) :
    v.outcome = w.outcome ↔ v.Agree w := by
  rw [outcome, outcome, Agree]
  cases v.refuses with
  | true =>
    cases w.refuses with
    | true => simp
    | false =>
      rw [← answer_eq_failed_iff w]
      simp [eq_comm]
  | false =>
    cases w.refuses with
    | true => simp [answer_eq_failed_iff]
    | false => simpa using answer_eq_iff hmethod hpresent

end Verdicts

/-! ## Two ways to read -/

def tagsMatch (strong : Bool) (tag candidate : Str) : Bool :=
  let a := trim candidate
  let b := trim tag
  let weak := "W/".toList
  if strong then !decide (weak <+: a) && !decide (weak <+: b) && a == b
  else (Text.stripPrefix weak a).getD a == (Text.stripPrefix weak b).getD b

/-- Cut a list of entity tags. A comma between quotes is part of a tag; a backslash there means
nothing. -/
def tagMembersFrom : Bool → Str → Str → List Str
  | _, cur, [] => [cur]
  | quoted, cur, c :: s =>
    if !quoted && c == ',' then cur :: tagMembersFrom false [] s
    else tagMembersFrom (if c = '"' then !quoted else quoted) (cur ++ [c]) s

def tagMembers (s : Str) : List Str := tagMembersFrom false [] s

def wholeField (headers : List (Str × Str)) (name : Str) : Option Str :=
  match fieldValues headers name with
  | [] => none
  | lines => some (", ".toList.intercalate lines)

def isGetOrHead (method : Str) : Bool :=
  Text.eqIgnoreAsciiCase method "GET".toList || Text.eqIgnoreAsciiCase method "HEAD".toList

structure FieldReading where
  value : List (Str × Str) → Str → Option Str
  members : Str → List Str

def firstLine : FieldReading := ⟨header, fun list => list.splitOn ','⟩

def wholeLines : FieldReading := ⟨wholeField, tagMembers⟩

namespace FieldReading

variable (r : FieldReading) (date : HttpDate) (cached headers : List (Str × Str)) (method : Str)

def matchesStored (strong : Bool) (value : Str) : Bool :=
  if trim value = ['*'] then
    containsHeader cached "etag".toList || containsHeader cached "last-modified".toList
  else (header cached "etag".toList).any fun tag =>
    (r.members (trim value)).any (tagsMatch strong tag)

/-- What the fields of a request say, so read. A date that cannot be read says nothing. -/
def verdicts : Verdicts where
  ifMatch := (r.value headers "if-match".toList).map (r.matchesStored cached true)
  newer := (r.value headers "if-unmodified-since".toList).bind (modifiedSince date cached)
  ifNoneMatch := (r.value headers "if-none-match".toList).map (r.matchesStored cached false)
  unmodified :=
    ((r.value headers "if-modified-since".toList).bind (modifiedSince date cached)).map not
  isGetOrHead := isGetOrHead method

end FieldReading

/-- **What a request's preconditions come to**: the four steps over its whole fields. -/
def prescribed (date : HttpDate) (cached headers : List (Str × Str)) (method : Str) :
    Precondition :=
  (wholeLines.verdicts date cached headers method).outcome

/-! ## The code follows the table -/

theorem etagMatches_eq (cached : List (Str × Str)) (value : Str) (strong : Bool) :
    etagMatches cached value strong = firstLine.matchesStored cached strong value := rfl

theorem evaluatePreconditions_eq (date : HttpDate) (cached headers : List (Str × Str))
    (method : Str) : evaluatePreconditions date cached headers method =
      (firstLine.verdicts date cached headers method).outcome := by
  simp only [evaluatePreconditions, Verdicts.outcome, Verdicts.refuses, Verdicts.answer,
    FieldReading.verdicts, isGetOrHead, etagMatches_eq, show firstLine.value = header from rfl]
  have hfirst : ∀ o : Option Str, (o.any fun v => modifiedSince date cached v == some true) =
      (o.bind (modifiedSince date cached) == some true) := by
    intro o
    cases o <;> rfl
  have hlast : ∀ o : Option Str, (o.any fun v => modifiedSince date cached v == some false) =
      ((o.bind (modifiedSince date cached)).map not == some true) := by
    intro o
    cases o with
    | none => rfl
    | some v => rcases hv : modifiedSince date cached v with _ | _ | _ <;> simp [hv]
  rw [hfirst, hlast]
  cases header headers "if-match".toList with
  | none | some m =>
    cases header headers "if-none-match".toList with
    | none | some v => rfl

theorem wholeField_eq_none {headers : List (Str × Str)} {name : Str} :
    wholeField headers name = none ↔ fieldValues headers name = [] := by
  rw [wholeField]
  cases fieldValues headers name with
  | nil => exact ⟨fun _ => rfl, fun _ => rfl⟩
  | cons line lines => exact ⟨nofun, nofun⟩

theorem header_eq_none {headers : List (Str × Str)} {name : Str} :
    header headers name = none ↔ fieldValues headers name = [] := by
  rw [show header headers name = (fieldValues headers name).head? from header_eq_head? headers name,
    List.head?_eq_none_iff]

/-! ## Who is misled -/

section

variable (r : FieldReading) (date : HttpDate) (cached headers : List (Str × Str)) (method : Str)

/-- What is stored is in a list of entity tags: the list is `*`, and something is stored to go by,
or one of its members is the stored tag. -/
def FieldReading.Lists (strong : Bool) (name : String) : Prop :=
  ∃ value, r.value headers name.toList = some value ∧
    (trim value = ['*'] ∧ (containsHeader cached "etag".toList = true ∨
        containsHeader cached "last-modified".toList = true) ∨
      trim value ≠ ['*'] ∧ ∃ tag, header cached "etag".toList = some tag ∧
        ∃ member ∈ r.members (trim value), tagsMatch strong tag member = true)

/-- What is stored is newer than the date in a field, or is not. -/
def FieldReading.Dates (newer : Bool) (name : String) : Prop :=
  ∃ value, r.value headers name.toList = some value ∧ modifiedSince date cached value = some newer

def HasField (name : String) : Prop := fieldValues headers name.toList ≠ []

/-- A tag that is listed again in `If-None-Match` refuses a request that would change something. -/
def FieldReading.RefusesLate : Prop :=
  r.Lists cached headers false "if-none-match" ∧
    isGetOrHead method = false

/-- Steps 1 and 2 let the request pass. -/
def FieldReading.Passes : Prop :=
  (HasField headers "if-match" → r.Lists cached headers true "if-match") ∧
    (¬ HasField headers "if-match" → ¬ r.Dates date cached headers true "if-unmodified-since")

/-- **A request whose first lines lead elsewhere than its whole fields.** -/
inductive Misled : Prop
  /-- the stored tag is listed in `If-Match`, but not between the commas of its first line -/
  | tagMissed (present : HasField headers "if-match")
      (listed : wholeLines.Lists cached headers true "if-match")
      (missed : ¬ firstLine.Lists cached headers true "if-match")
      (applied : ¬ wholeLines.RefusesLate cached headers method)
  /-- it is between the commas of the first line, but not listed: they are within a longer tag -/
  | tagMistaken (present : HasField headers "if-match")
      (found : firstLine.Lists cached headers true "if-match")
      (unlisted : ¬ wholeLines.Lists cached headers true "if-match")
      (applied : ¬ firstLine.RefusesLate cached headers method)
  /-- the first of several lines of `If-Unmodified-Since` is a date, before what is stored -/
  | dateHeeded (absent : ¬ HasField headers "if-match")
      (first : firstLine.Dates date cached headers true "if-unmodified-since")
      (whole : ¬ wholeLines.Dates date cached headers true "if-unmodified-since")
      (applied : ¬ wholeLines.RefusesLate cached headers method)
  /-- the lines of `If-Unmodified-Since` are such a date, but not the first alone -/
  | dateMissed (absent : ¬ HasField headers "if-match")
      (first : ¬ firstLine.Dates date cached headers true "if-unmodified-since")
      (whole : wholeLines.Dates date cached headers true "if-unmodified-since")
      (applied : ¬ firstLine.RefusesLate cached headers method)
  /-- the first line of `If-None-Match` has the stored tag and its lines have not, or they have and
  it has not -/
  | noneMatch (first : firstLine.Passes date cached headers)
      (whole : wholeLines.Passes date cached headers) (present : HasField headers "if-none-match")
      (differ : ¬ (firstLine.Lists cached headers false "if-none-match" ↔
        wholeLines.Lists cached headers false "if-none-match"))
  /-- the same of the dates of `If-Modified-Since` -/
  | modifiedSince (first : firstLine.Passes date cached headers)
      (whole : wholeLines.Passes date cached headers) (absent : ¬ HasField headers "if-none-match")
      (reads : isGetOrHead method = true)
      (differ : ¬ (firstLine.Dates date cached headers false "if-modified-since" ↔
        wholeLines.Dates date cached headers false "if-modified-since"))

end

section

variable {r : FieldReading} {date : HttpDate} {cached headers : List (Str × Str)} {method : Str}

/-- A field is read where there is one. -/
def FieldReading.Reads (r : FieldReading) : Prop :=
  ∀ headers name, r.value headers name = none ↔ fieldValues headers name = []

theorem firstLine_reads : firstLine.Reads := fun _ _ => header_eq_none

theorem wholeLines_reads : wholeLines.Reads := fun _ _ => wholeField_eq_none

theorem matchesStored_iff {strong : Bool} (value : Str) :
    r.matchesStored cached strong value = true ↔
      trim value = ['*'] ∧ (containsHeader cached "etag".toList = true ∨
          containsHeader cached "last-modified".toList = true) ∨
        trim value ≠ ['*'] ∧ ∃ tag, header cached "etag".toList = some tag ∧
          ∃ member ∈ r.members (trim value), tagsMatch strong tag member = true := by
  rw [FieldReading.matchesStored]
  by_cases hstar : trim value = ['*']
  · rw [if_pos hstar, Bool.or_eq_true]
    exact ⟨fun h => .inl ⟨hstar, h⟩, fun h => (h.resolve_right fun hno => hno.1 hstar).2⟩
  · rw [if_neg hstar, Option.any_eq_true]
    simp only [List.any_eq_true]
    exact ⟨fun h => .inr ⟨hstar, h⟩, fun h => (h.resolve_left fun hyes => hstar hyes.1).2⟩

theorem lists_iff {strong : Bool} {name : String} :
    r.Lists cached headers strong name ↔
      (r.value headers name.toList).map (r.matchesStored cached strong) = some true :=
  (exists_congr fun value => and_congr_right fun _ => (matchesStored_iff value).symm).trans
    Option.map_eq_some_iff.symm

theorem dates_iff {newer : Bool} {name : String} :
    r.Dates date cached headers newer name ↔
      (r.value headers name.toList).bind (modifiedSince date cached) = some newer :=
  Option.bind_eq_some_iff.symm

theorem not_has_iff (hr : r.Reads) (cached headers : List (Str × Str)) (name : String)
    (strong : Bool) :
    ¬ HasField headers name ↔
      (r.value headers name.toList).map (r.matchesStored cached strong) = none := by
  rw [HasField, not_not, Option.map_eq_none_iff, hr]

theorem Verdicts.refuses_iff (v : Verdicts) :
    v.refuses = true ↔ v.ifMatch = some false ∨ v.ifMatch = none ∧ v.newer = some true := by
  rw [refuses]
  cases v.ifMatch with
  | none | some found => simp

/-- The first two steps, of the fields as they are read. -/
theorem refuses_iff (hr : r.Reads) :
    (r.verdicts date cached headers method).refuses = true ↔ ¬ r.Passes date cached headers := by
  rw [Verdicts.refuses_iff, FieldReading.Passes, not_has_iff hr cached headers _ true,
    ← not_not (a := HasField headers "if-match"), not_has_iff hr cached headers _ true, lists_iff,
    dates_iff]
  change (r.verdicts date cached headers method).ifMatch = some false ∨ _ ↔
    ¬ ((¬ (r.verdicts date cached headers method).ifMatch = none →
      (r.verdicts date cached headers method).ifMatch = some true) ∧
      ((r.verdicts date cached headers method).ifMatch = none →
        ¬ (r.verdicts date cached headers method).newer = some true))
  rcases (r.verdicts date cached headers method).ifMatch with _ | _ | _ <;> simp

theorem refusesLate_iff :
    (r.verdicts date cached headers method).refusesLate = true ↔
      r.RefusesLate cached headers method := by
  rw [Verdicts.refusesLate, Bool.and_eq_true, beq_iff_eq, Bool.not_eq_true',
    FieldReading.RefusesLate, lists_iff]
  rfl

/-- The tags of `If-None-Match`, as the two readings find them. -/
theorem ifNoneMatch_eq_iff : (firstLine.verdicts date cached headers method).ifNoneMatch =
        (wholeLines.verdicts date cached headers method).ifNoneMatch ↔
      (HasField headers "if-none-match" → (firstLine.Lists cached headers false "if-none-match" ↔
        wholeLines.Lists cached headers false "if-none-match")) := by
  have hfirst := not_has_iff firstLine_reads cached headers "if-none-match" false
  have hwhole := not_has_iff wholeLines_reads cached headers "if-none-match" false
  rw [lists_iff, lists_iff]
  change ¬ HasField headers "if-none-match" ↔
    (firstLine.verdicts date cached headers method).ifNoneMatch = none at hfirst
  change ¬ HasField headers "if-none-match" ↔
    (wholeLines.verdicts date cached headers method).ifNoneMatch = none at hwhole
  change _ ↔ (HasField headers "if-none-match" →
    ((firstLine.verdicts date cached headers method).ifNoneMatch = some true ↔
      (wholeLines.verdicts date cached headers method).ifNoneMatch = some true))
  revert hfirst hwhole
  rcases (firstLine.verdicts date cached headers method).ifNoneMatch with _ | _ | _ <;>
    rcases (wholeLines.verdicts date cached headers method).ifNoneMatch with _ | _ | _ <;> simp

/-- The last of the four steps, as the two readings take it. -/
theorem sameAnswer_iff : (firstLine.verdicts date cached headers method).SameAnswer
        (wholeLines.verdicts date cached headers method) ↔
      (HasField headers "if-none-match" → (firstLine.Lists cached headers false "if-none-match" ↔
        wholeLines.Lists cached headers false "if-none-match")) ∧
      (¬ HasField headers "if-none-match" → isGetOrHead method = true →
        (firstLine.Dates date cached headers false "if-modified-since" ↔
          wholeLines.Dates date cached headers false "if-modified-since")) := by
  have hdates (r : FieldReading) : r.Dates date cached headers false "if-modified-since" ↔
      (r.verdicts date cached headers method).unmodified = some true := by
    rw [dates_iff, FieldReading.verdicts]
    dsimp only
    rcases (r.value headers "if-modified-since".toList).bind (modifiedSince date cached) with
      _ | _ | _ <;> simp
  rw [Verdicts.SameAnswer, ifNoneMatch_eq_iff, hdates, hdates,
    not_has_iff firstLine_reads cached headers _ false]
  rfl

theorem FieldReading.passes_of_has {r : FieldReading} (hhas : HasField headers "if-match") :
    r.Passes date cached headers ↔ r.Lists cached headers true "if-match" :=
  ⟨fun h => h.1 hhas, fun h => ⟨fun _ => h, fun hno => absurd hhas hno⟩⟩

theorem FieldReading.passes_of_not_has {r : FieldReading} (hno : ¬ HasField headers "if-match") :
    r.Passes date cached headers ↔ ¬ r.Dates date cached headers true "if-unmodified-since" :=
  ⟨fun h => h.2 hno, fun h => ⟨fun hhas => absurd hhas hno, fun _ => h⟩⟩

/-- Misled in the first two steps, or in the others. -/
theorem misled_iff :
    Misled date cached headers method ↔
      (¬ firstLine.Passes date cached headers ∧ wholeLines.Passes date cached headers ∧
        ¬ wholeLines.RefusesLate cached headers method) ∨
      (firstLine.Passes date cached headers ∧ ¬ wholeLines.Passes date cached headers ∧
        ¬ firstLine.RefusesLate cached headers method) ∨
      firstLine.Passes date cached headers ∧ wholeLines.Passes date cached headers ∧
        ¬ (firstLine.verdicts date cached headers method).SameAnswer
          (wholeLines.verdicts date cached headers method) := by
  rw [sameAnswer_iff]
  constructor
  · rintro (⟨hhas, hl, hm, ha⟩ | ⟨hhas, hf, hu, ha⟩ | ⟨hno, hf, hw, ha⟩ | ⟨hno, hf, hw, ha⟩ |
      ⟨hf, hw, hhas, hd⟩ | ⟨hf, hw, hno, hreads, hd⟩)
    · rw [FieldReading.passes_of_has hhas, FieldReading.passes_of_has hhas]
      exact .inl ⟨hm, hl, ha⟩
    · rw [FieldReading.passes_of_has hhas, FieldReading.passes_of_has hhas]
      exact .inr (.inl ⟨hf, hu, ha⟩)
    · rw [FieldReading.passes_of_not_has hno, FieldReading.passes_of_not_has hno]
      exact .inl ⟨not_not.mpr hf, hw, ha⟩
    · rw [FieldReading.passes_of_not_has hno, FieldReading.passes_of_not_has hno]
      exact .inr (.inl ⟨hf, not_not.mpr hw, ha⟩)
    · exact .inr (.inr ⟨hf, hw, fun h => hd (h.1 hhas)⟩)
    · exact .inr (.inr ⟨hf, hw, fun h => hd (h.2 hno hreads)⟩)
  · rintro (⟨hf, hw, ha⟩ | ⟨hf, hw, ha⟩ | ⟨hf, hw, hd⟩)
    · by_cases hhas : HasField headers "if-match"
      · rw [FieldReading.passes_of_has hhas] at hf hw
        exact .tagMissed hhas hw hf ha
      · rw [FieldReading.passes_of_not_has hhas] at hf hw
        exact .dateHeeded hhas (not_not.mp hf) hw ha
    · by_cases hhas : HasField headers "if-match"
      · rw [FieldReading.passes_of_has hhas] at hf hw
        exact .tagMistaken hhas hf hw ha
      · rw [FieldReading.passes_of_not_has hhas] at hf hw
        exact .dateMissed hhas hf (not_not.mp hw) ha
    · by_cases hhas : HasField headers "if-none-match"
      · exact .noneMatch hf hw hhas fun h => hd ⟨fun _ => h, fun hno => absurd hhas hno⟩
      · by_cases hreads : isGetOrHead method = true
        · exact .modifiedSince hf hw hhas hreads fun h =>
            hd ⟨fun hyes => absurd hyes hhas, fun _ _ => h⟩
        · exact absurd ⟨fun hyes => absurd hyes hhas, fun _ hyes => absurd hyes hreads⟩ hd


/-! ### Fields that are read alike -/

/-- No comma stands within quotes, from a place on that does or does not itself. -/
def commasOutside : Bool → Str → Bool
  | _, [] => true
  | quoted, c :: s => (c != ',' || !quoted) && commasOutside (if c = '"' then !quoted else quoted) s

theorem tagMembersFrom_eq {quoted : Bool} {s : Str} (h : commasOutside quoted s = true)
    (cur : Str) : tagMembersFrom quoted cur s = (s.splitOn ',').modifyHead (cur ++ ·) := by
  induction s generalizing quoted cur with
  | nil => simp [tagMembersFrom]
  | cons c s ih =>
    rw [commasOutside, Bool.and_eq_true] at h
    rw [tagMembersFrom, List.splitOn_cons_eq_if_modifyHead]
    by_cases hc : c = ','
    · subst hc
      obtain rfl : quoted = false := by simpa using h.1
      have hrest : tagMembersFrom false [] s = s.splitOn ',' := by
        rw [show tagMembersFrom false [] s = _ from ih h.2 []]
        cases s.splitOn ',' <;> rfl
      simp [hrest]
    · have hcomma : (c == ',') = false := beq_eq_false_iff_ne.mpr hc
      rw [hcomma, Bool.and_false, if_neg Bool.false_ne_true, if_neg Bool.false_ne_true, ih h.2,
        List.modifyHead_modifyHead]
      simp [Function.comp_def]

/-- One line at most, and no comma within quotes. -/
structure PlainField (headers : List (Str × Str)) (name : String) : Prop where
  once : (fieldValues headers name.toList).length ≤ 1
  outside : ∀ v ∈ fieldValues headers name.toList, commasOutside false (trim v) = true

theorem value_eq_of_once {name : Str} (h : (fieldValues headers name).length ≤ 1) :
    wholeLines.value headers name = firstLine.value headers name := by
  change wholeField headers name = header headers name
  rw [show header headers name = (fieldValues headers name).head? from header_eq_head? headers name,
    wholeField]
  match hlines : fieldValues headers name, h with
  | [], _ => rfl
  | [line], _ => exact congrArg some List.intercalate_singleton

theorem dates_of_once {newer : Bool} {name : String}
    (h : (fieldValues headers name.toList).length ≤ 1) :
    firstLine.Dates date cached headers newer name ↔
      wholeLines.Dates date cached headers newer name := by
  rw [FieldReading.Dates, FieldReading.Dates, value_eq_of_once h]

theorem lists_of_plain {strong : Bool} {name : String} (h : PlainField headers name) :
    firstLine.Lists cached headers strong name ↔ wholeLines.Lists cached headers strong name := by
  rw [FieldReading.Lists, FieldReading.Lists, value_eq_of_once h.once]
  refine exists_congr fun value => and_congr_right fun hvalue => ?_
  have hmem : value ∈ fieldValues headers name.toList := by
    rw [show firstLine.value headers name.toList = (fieldValues headers name.toList).head? from
      header_eq_head? headers _] at hvalue
    exact List.mem_of_head? hvalue
  have hmembers : wholeLines.members (trim value) = firstLine.members (trim value) := by
    change tagMembersFrom false [] (trim value) = (trim value).splitOn ','
    rw [tagMembersFrom_eq (h.outside value hmem)]
    cases (trim value).splitOn ',' <;> rfl
  rw [hmembers]

/-- **Fields of one line, with no comma within quotes, mislead nobody.** -/
theorem not_misled_of_plain (hmatch : PlainField headers "if-match")
    (hnone : PlainField headers "if-none-match")
    (hunmodified : (fieldValues headers "if-unmodified-since".toList).length ≤ 1)
    (hmodified : (fieldValues headers "if-modified-since".toList).length ≤ 1) :
    ¬ Misled date cached headers method := by
  rintro (⟨_, hl, hm, _⟩ | ⟨_, hf, hu, _⟩ | ⟨_, hf, hw, _⟩ | ⟨_, hf, hw, _⟩ | ⟨_, _, _, hd⟩ |
    ⟨_, _, _, _, hd⟩)
  · exact hm ((lists_of_plain hmatch).mpr hl)
  · exact hu ((lists_of_plain hmatch).mp hf)
  · exact hw ((dates_of_once hunmodified).mp hf)
  · exact hf ((dates_of_once hunmodified).mpr hw)
  · exact hd (lists_of_plain hnone)
  · exact hd (dates_of_once hmodified)

end

/-- **When the preconditions are evaluated as they are prescribed**: exactly if the request is not
misled, whatever is stored, and whatever its method and its fields. -/
theorem preconditions_iff (date : HttpDate) (cached headers : List (Str × Str)) (method : Str) :
    evaluatePreconditions date cached headers method = prescribed date cached headers method ↔
      ¬ Misled date cached headers method := by
  have hpresent : (firstLine.verdicts date cached headers method).ifNoneMatch.isSome =
      (wholeLines.verdicts date cached headers method).ifNoneMatch.isSome := by
    rw [Bool.eq_iff_iff, Option.isSome_iff_ne_none, Option.isSome_iff_ne_none]
    exact not_congr ((not_has_iff firstLine_reads cached headers _ false).symm.trans
      (not_has_iff wholeLines_reads cached headers _ false))
  have hagree := Verdicts.outcome_eq_iff (v := firstLine.verdicts date cached headers method)
    (w := wholeLines.verdicts date cached headers method) rfl hpresent
  rw [evaluatePreconditions_eq, prescribed, hagree, Verdicts.Agree, misled_iff]
  by_cases hfirst : firstLine.Passes date cached headers
  · have hv : (firstLine.verdicts date cached headers method).refuses = false := by
      rw [← Bool.not_eq_true, refuses_iff firstLine_reads, not_not]
      exact hfirst
    rw [hv, if_neg Bool.false_ne_true]
    by_cases hwhole : wholeLines.Passes date cached headers
    · have hw : (wholeLines.verdicts date cached headers method).refuses = false := by
        rw [← Bool.not_eq_true, refuses_iff wholeLines_reads, not_not]
        exact hwhole
      rw [hw, if_neg Bool.false_ne_true]
      simp [hfirst, hwhole]
    · rw [if_pos ((refuses_iff wholeLines_reads).mpr hwhole), refusesLate_iff]
      simp [hfirst, hwhole]
  · rw [if_pos ((refuses_iff firstLine_reads).mpr hfirst), refuses_iff wholeLines_reads,
      refusesLate_iff]
    by_cases hwhole : wholeLines.Passes date cached headers
    all_goals simp [hfirst, hwhole]

theorem tag_missed : (evaluatePreconditions epochDate [("etag".toList, "\"v1\"".toList)]
        [("if-match".toList, "\"v0\"".toList), ("if-match".toList, "\"v1\"".toList)]
        "PUT".toList = .failed ∧ prescribed epochDate [("etag".toList, "\"v1\"".toList)]
        [("if-match".toList, "\"v0\"".toList), ("if-match".toList, "\"v1\"".toList)]
        "PUT".toList = .proceed) ∧
    evaluatePreconditions epochDate [("etag".toList, "\"a,b\"".toList)]
        [("if-none-match".toList, "\"a,b\"".toList)] "PUT".toList = .proceed ∧
      prescribed epochDate [("etag".toList, "\"a,b\"".toList)]
        [("if-none-match".toList, "\"a,b\"".toList)] "PUT".toList = .failed := by
  refine ⟨⟨?_, ?_⟩, ?_, ?_⟩ <;> decide

end M6
