import M6.Core.Responder
import Mathlib.Data.List.DropRight

/-!
# Reading a response head back

What a recipient reads of the bytes `Responder` writes. Lines end at a line feed,
with or without a carriage return before it; the fields stand between the status
line and the first empty line; the white space around a value is not part of it.

The writer puts names and values on the wire as they are, so a value with a line
feed in it is read as something else. `readHead_headText_iff` says that this is the
only way: the fields read are the fields written if and only if none of them holds a
line feed.
-/

namespace M6

open List Text

/-! ## The reader -/

def dropCr (line : Str) : Str := if line.getLast? = some '\r' then line.dropLast else line

def lines (s : Str) : List Str := (s.splitOn '\n').map dropCr

def isOws (c : Char) : Bool := c == ' ' || c == '\t'

def trimOws (s : Str) : Str := (s.dropWhile isOws).rdropWhile isOws

def readField (line : Str) : Option (Str × Str) :=
  (cutAt ':' line).2.map fun v => ((cutAt ':' line).1, trimOws v)

/-- The fields of the lines up to the first empty one. A line that is no field makes
the head unreadable. -/
def readFields : List Str → Option (List (Str × Str))
  | [] => some []
  | line :: rest =>
    if line = [] then some []
    else (readField line).bind fun f => (readFields rest).map fun fs => f :: fs

def readHead (s : Str) : Option (List (Str × Str)) := readFields (lines s).tail

/-! ## The fields on the wire -/

/-- The fields of a head: those of the caller that the writer does not emit itself,
and the two that it does. -/
def wireFields (r : Responder) (headers : List (Str × Str)) (length : Nat) : List (Str × Str) :=
  (headers.filter fun h => !(eqIgnoreAsciiCase h.1 "content-length".toList ||
      eqIgnoreAsciiCase h.1 "connection".toList)) ++
    [("Content-Length".toList, decimal length),
      ("Connection".toList, (if r.keepAlive then "keep-alive" else "close").toList)]

def fieldLine (f : Str × Str) : Str := f.1 ++ ": ".toList ++ f.2 ++ crlf

def asRead (f : Str × Str) : Str × Str := (f.1, trimOws f.2)

def statusLine (status : Nat) : Str :=
  "HTTP/1.1 ".toList ++ decimal status ++ " ".toList ++ statusReason status

theorem headerLines_eq (headers : List (Str × Str)) :
    headerLines headers = (headers.filter fun h =>
      !(eqIgnoreAsciiCase h.1 "content-length".toList ||
        eqIgnoreAsciiCase h.1 "connection".toList)).flatMap fieldLine := by
  induction headers with
  | nil => rfl
  | cons h headers ih =>
    rw [headerLines, flatMap_cons, ← headerLines, ih, filter_cons]
    rcases hd : (eqIgnoreAsciiCase h.1 "content-length".toList ||
        eqIgnoreAsciiCase h.1 "connection".toList) with _ | _
    · simp only [Bool.false_eq_true, if_false, Bool.not_false, if_true, flatMap_cons]
      rfl
    · simp

theorem headText_eq (r : Responder) (status : Nat) (headers : List (Str × Str)) (length : Nat) :
    headText r status headers length =
      statusLine status ++ crlf ++ ((wireFields r headers length).flatMap fieldLine ++ crlf) := by
  have hlen : "Content-Length: ".toList = "Content-Length".toList ++ ": ".toList := by decide
  have hconn : "Connection: ".toList = "Connection".toList ++ ": ".toList := by decide
  unfold headText statusLine
  generalize statusReason status = reason
  simp only [hlen, hconn, wireFields, headerLines_eq, flatMap_append, flatMap_cons,
    flatMap_nil, fieldLine, append_assoc, append_nil]

/-! ## Reading what was written -/

theorem not_mem_of_mem_splitOn {s l : Str} (h : l ∈ s.splitOn '\n') : '\n' ∉ l := by
  induction s generalizing l with
  | nil =>
    rw [splitOn_nil, mem_singleton] at h
    rw [h]
    exact not_mem_nil
  | cons c s ih =>
    rw [splitOn_cons_eq_if_modifyHead] at h
    split_ifs at h with hc
    · rcases mem_cons.mp h with rfl | h
      · exact not_mem_nil
      · exact ih h
    · obtain ⟨a, as, hs⟩ := exists_cons_of_ne_nil (splitOn_ne_nil '\n' s)
      rw [hs, modifyHead_cons] at h
      rw [hs] at ih
      rcases mem_cons.mp h with rfl | h
      · intro hmem
        rcases mem_cons.mp hmem with hcn | hmem
        · exact hc (by simp [← hcn])
        · exact ih (mem_cons_self ..) hmem
      · exact ih (mem_cons_of_mem _ h)

theorem not_mem_of_mem_lines {s l : Str} (h : l ∈ lines s) : '\n' ∉ l := by
  obtain ⟨l', hl', rfl⟩ := mem_map.mp h
  intro hmem
  refine not_mem_of_mem_splitOn hl' ?_
  rw [dropCr] at hmem
  split_ifs at hmem
  · exact dropLast_subset _ hmem
  · exact hmem

theorem lines_append_crlf {l : Str} (t : Str) (h : '\n' ∉ l) : lines (l ++ crlf ++ t) =
    l :: lines t := by
  have hl : '\n' ∉ l ++ ['\r'] := by
    rw [mem_append, mem_singleton]
    exact fun hm => hm.elim h (by decide)
  have hsplit : l ++ crlf ++ t = (l ++ ['\r']) ++ '\n' :: t := by
    simp [crlf]
  rw [lines, hsplit, splitOn_append_cons_self_of_not_mem hl, map_cons, ← lines]
  simp [dropCr]

theorem mem_cutAt {sep c : Char} {s : Str} :
    (c ∈ (cutAt sep s).1 → c ∈ s) ∧ ∀ v, (cutAt sep s).2 = some v → c ∈ v → c ∈ s := by
  induction s with
  | nil => exact ⟨fun h => h, fun v h => by cases h⟩
  | cons a s ih =>
    simp only [cutAt]
    split_ifs with ha
    · refine ⟨fun h => (not_mem_nil h).elim, fun v hv hc => ?_⟩
      cases hv
      exact mem_cons_of_mem _ hc
    · refine ⟨fun h => ?_, fun v hv hc => mem_cons_of_mem _ (ih.2 v hv hc)⟩
      rcases mem_cons.mp h with rfl | h
      · exact mem_cons_self ..
      · exact mem_cons_of_mem _ (ih.1 h)

theorem mem_dropWhile {p : Char → Bool} {c : Char} {s : Str} (hc : p c = false) (h : c ∈ s) :
    c ∈ s.dropWhile p := by
  rw [← takeWhile_append_dropWhile (p := p) (l := s)] at h
  rcases mem_append.mp h with h | h
  · rw [mem_takeWhile_imp h] at hc
    cases hc
  · exact h

theorem mem_trimOws {c : Char} {s : Str} (hc : isOws c = false) : c ∈ trimOws s ↔ c ∈ s := by
  constructor
  · intro h
    exact (dropWhile_suffix _).subset ((List.rdropWhile_prefix _ _).subset h)
  · intro h
    rw [trimOws, rdropWhile, mem_reverse]
    exact mem_dropWhile hc (mem_reverse.mpr (mem_dropWhile hc h))

theorem not_mem_of_readFields {ls : List Str} (hls : ∀ l ∈ ls, '\n' ∉ l) {fs : List (Str × Str)}
    (h : readFields ls = some fs) : ∀ f ∈ fs, '\n' ∉ f.1 ∧ '\n' ∉ f.2 := by
  induction ls generalizing fs with
  | nil =>
    cases h
    exact fun f hf => (not_mem_nil hf).elim
  | cons l ls ih =>
    rw [readFields] at h
    split_ifs at h with hnil
    · cases h
      exact fun f hf => (not_mem_nil hf).elim
    · obtain ⟨f, hf, hrest⟩ := Option.bind_eq_some_iff.mp h
      obtain ⟨fs', hfs', rfl⟩ := Option.map_eq_some_iff.mp hrest
      obtain ⟨v, hv, rfl⟩ := Option.map_eq_some_iff.mp hf
      have hl := hls l (mem_cons_self ..)
      intro g hg
      rcases mem_cons.mp hg with rfl | hg
      · refine ⟨fun hm => hl (mem_cutAt.1 hm), fun hm => hl (mem_cutAt.2 v hv ?_)⟩
        exact (mem_trimOws (by decide)).mp hm
      · exact ih (fun l hl => hls l (mem_cons_of_mem _ hl)) hfs' g hg

theorem readField_fieldLine {f : Str × Str} (h : ':' ∉ f.1) :
    readField (f.1 ++ ": ".toList ++ f.2) = some (asRead f) := by
  have hline : f.1 ++ ": ".toList ++ f.2 = f.1 ++ ':' :: (' ' :: f.2) := by simp
  rw [readField, hline, cutAt_append _ h]
  rfl

theorem readFields_fieldLines {fs : List (Str × Str)}
    (h : ∀ f ∈ fs, ':' ∉ f.1 ∧ '\n' ∉ f.1 ∧ '\n' ∉ f.2) (body : Str) :
    readFields (lines (fs.flatMap fieldLine ++ crlf ++ body)) = some (fs.map asRead) := by
  induction fs with
  | nil =>
    rw [flatMap_nil, lines_append_crlf body not_mem_nil]
    rfl
  | cons f fs ih =>
    obtain ⟨hcolon, hname, hvalue⟩ := h f (mem_cons_self ..)
    have hline : '\n' ∉ f.1 ++ ": ".toList ++ f.2 := by
      simp only [mem_append, not_or]
      exact ⟨⟨hname, by decide⟩, hvalue⟩
    have hsplit : (f :: fs).flatMap fieldLine ++ crlf ++ body =
        (f.1 ++ ": ".toList ++ f.2) ++ crlf ++ (fs.flatMap fieldLine ++ crlf ++ body) := by
      simp [fieldLine]
    rw [hsplit, lines_append_crlf _ hline, readFields, if_neg (by simp),
      readField_fieldLine hcolon, ih fun g hg => h g (mem_cons_of_mem _ hg)]
    rfl

/-! ## Digits -/

theorem not_mem_toDigits (base n : Nat) : '\n' ∉ Nat.toDigits base n := by
  have hdigit : ∀ d, Nat.digitChar d ≠ '\n' := by
    intro d
    rcases Nat.lt_or_ge d 16 with h | h
    · have hsmall : ∀ d < 16, Nat.digitChar d ≠ '\n' := by decide
      exact hsmall d h
    · rw [Nat.digitChar_eq_star.mpr h]
      decide
  have hcore : ∀ fuel n acc, '\n' ∉ acc → '\n' ∉ Nat.toDigitsCore base fuel n acc := by
    intro fuel
    induction fuel with
    | zero => exact fun n acc hacc => hacc
    | succ fuel ih =>
      intro n acc hacc
      have hcons : '\n' ∉ (n % base).digitChar :: acc :=
        fun hmem => (mem_cons.mp hmem).elim (fun h => hdigit _ h.symm) hacc
      rw [Nat.toDigitsCore]
      split_ifs
      · exact hcons
      · exact ih _ _ hcons
  exact hcore _ _ _ not_mem_nil

theorem not_mem_decimal (n : Nat) : '\n' ∉ decimal n := not_mem_toDigits 10 n

theorem printable_statusReason (status : Nat) : ∀ c ∈ statusReason status, 0x20 ≤ c.toNat := by
  have hall : (["Continue", "OK", "Created", "No Content", "Partial Content",
      "Moved Permanently", "Found", "Not Modified", "Bad Request", "Unauthorized", "Forbidden",
      "Not Found", "Method Not Allowed", "Precondition Failed", "Payload Too Large",
      "Expectation Failed", "Too Many Requests", "Internal Server Error", "Not Implemented",
      "Bad Gateway", "Service Unavailable", "Gateway Timeout", "Unknown"].all
      fun s => s.toList.all fun c => 0x20 ≤ c.toNat) = true := by
    decide
  simp only [all_eq_true, decide_eq_true_eq] at hall
  refine hall _ ?_
  split <;> simp

theorem not_mem_statusReason {c : Char} (hc : c.toNat < 0x20) (status : Nat) :
    c ∉ statusReason status :=
  fun h => absurd (printable_statusReason status c h) (Nat.not_le.mpr hc)

theorem not_mem_statusLine (status : Nat) : '\n' ∉ statusLine status := by
  have hreason := not_mem_statusReason (c := '\n') (by decide) status
  unfold statusLine
  generalize statusReason status = reason at hreason ⊢
  simp only [mem_append, not_or]
  exact ⟨⟨⟨by decide, not_mem_decimal _⟩, by decide⟩, hreason⟩

theorem wireFields_forall {P : Str × Str → Prop} {r : Responder} {headers : List (Str × Str)}
    {length : Nat} (hown : ∀ (n : Nat) (b : Bool), P ("Content-Length".toList, decimal n) ∧
      P ("Connection".toList, (if b then "keep-alive" else "close").toList))
    (h : ∀ f ∈ headers, P f) : ∀ f ∈ wireFields r headers length, P f := by
  intro f hf
  rcases mem_append.mp hf with hf | hf
  · exact h f (mem_filter.mp hf).1
  · rcases mem_cons.mp hf with rfl | hf
    · exact (hown length r.keepAlive).1
    · rw [mem_singleton.mp hf]
      exact (hown length r.keepAlive).2

/-- **The fields read are the fields written** if and only if no value written holds a
line feed, for names without a colon or a line feed that the writer keeps. -/
theorem readHead_headText_iff {headers : List (Str × Str)}
    (hnames : ∀ f ∈ headers, ':' ∉ f.1 ∧ '\n' ∉ f.1 ∧
      eqIgnoreAsciiCase f.1 "content-length".toList = false ∧
      eqIgnoreAsciiCase f.1 "connection".toList = false)
    (r : Responder) (status length : Nat) (body : Str) :
    readHead (headText r status headers length ++ body) =
        some ((wireFields r headers length).map asRead) ↔ ∀ f ∈ headers, '\n' ∉ f.2 := by
  rw [headText_eq, append_assoc, readHead,
    lines_append_crlf _ (not_mem_statusLine status), tail_cons]
  constructor
  · intro h f hf hmem
    have hkept : f ∈ wireFields r headers length := by
      refine mem_append_left _ (mem_filter.mpr ⟨hf, ?_⟩)
      obtain ⟨-, -, hlen, hconn⟩ := hnames f hf
      rw [hlen, hconn]
      rfl
    have hread := not_mem_of_readFields (fun l hl => not_mem_of_mem_lines hl) h (asRead f)
      (mem_map_of_mem hkept)
    exact hread.2 ((mem_trimOws (by decide)).mpr hmem)
  · intro h
    refine readFields_fieldLines ?_ body
    have hname : ':' ∉ "Content-Length".toList ∧ '\n' ∉ "Content-Length".toList := by decide
    refine wireFields_forall (fun n b => ⟨⟨hname.1, hname.2, not_mem_decimal n⟩, ?_⟩) ?_
    · cases b <;> decide
    · intro f hf
      exact ⟨(hnames f hf).1, (hnames f hf).2.1, h f hf⟩

/-! ## Whole responses -/

theorem send_sent (r : Responder) (status : Nat) (headers : List (Str × Str)) (text : Str) :
    (r.send status headers (Utf8.encode text) ⟨[], none⟩).wire.sent =
      Utf8.encode (headText r status headers (Utf8.encode text).length ++
        if r.bodyless status then [] else text) := by
  simp only [Responder.send, Wire.write, nil_append, Bool.not_true, Bool.false_eq_true, if_false]
  split_ifs
  · rw [append_nil]
  · rw [Utf8.encode_append]

end M6
