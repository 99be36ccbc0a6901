import M6.Core.Generation
import M6.Edge.ResponseFraming
import M6.Lib.Lines
import Mathlib.Data.PNat.Basic

/-!
# The end of a log file

`serveTail` is `serve_tail` of the file server's `handler.rs`. A request for the last `n` lines
reads the last 64 KiB of the file and looks for the start of the lines backwards; any other request
reads on from its offset.

The file may grow while it is read. What one request meets is an `Access`: the calls of `read`, and
what was appended before each (`readToEnd`).

`lastLines_iff` says for which files a request for the last lines gets them: those whose last `n`
lines are not longer than what is read.
-/

namespace M6

open List M6.App Lines Option

/-! ## Reading a file that grows -/

/-- One call of `read`. -/
structure ReadCall where
  /-- what was appended to the file before it -/
  appended : Bytes
  /-- the bytes it can take -/
  room : ℕ+

def appendedIn (calls : List ReadCall) : Bytes := calls.flatMap ReadCall.appended

/-- `take(left).read_to_end` at a place of the file: calls until one gives nothing. Behind the
last call in the list the file grows no more. -/
def readToEnd : Bytes → Nat → Nat → List ReadCall → Bytes
  | content, pos, left, [] => (content.drop pos).take left
  | content, pos, left, call :: calls =>
    let content := content ++ call.appended
    let got := (content.drop pos).take (min call.room left)
    if got = [] then []
    else got ++ readToEnd content (pos + got.length) (left - got.length) calls

theorem got_prefix (content more : Bytes) (pos k : Nat) :
    (content.drop pos).take k <+: (content ++ more).drop pos := by
  refine (List.take_prefix _ _).trans ?_
  rw [drop_append]
  exact prefix_append _ _

/-- **What is read** is a piece of the file as it is at last, from the place on. -/
theorem prefix_readToEnd (content : Bytes) (pos left : Nat) (calls : List ReadCall) :
    readToEnd content pos left calls <+: (content ++ appendedIn calls).drop pos := by
  induction calls generalizing content pos left with
  | nil =>
    rw [readToEnd, appendedIn, flatMap_nil, append_nil]
    exact take_prefix _ _
  | cons call calls ih =>
    have hgrown : content ++ appendedIn (call :: calls) =
        content ++ call.appended ++ appendedIn calls := by
      rw [appendedIn, flatMap_cons, append_assoc]
      rfl
    rw [readToEnd, hgrown]
    split_ifs with hgot
    · exact nil_prefix
    · obtain ⟨rest, hrest⟩ := got_prefix (content ++ call.appended) (appendedIn calls) pos
        (min call.room left)
      have h := ih (content ++ call.appended)
        (pos + ((content ++ call.appended).drop pos |>.take (min call.room left)).length)
        (left - ((content ++ call.appended).drop pos |>.take (min call.room left)).length)
      rw [← drop_drop, ← hrest, drop_left] at h
      rw [← hrest]
      exact prefix_append_right_inj _ |>.mpr h

theorem length_readToEnd_le (content : Bytes) (pos left : Nat) (calls : List ReadCall) :
    (readToEnd content pos left calls).length ≤ left := by
  induction calls generalizing content pos left with
  | nil =>
    rw [readToEnd, length_take]
    exact Nat.min_le_left _ _
  | cons call calls ih =>
    rw [readToEnd]
    split_ifs with hgot
    · exact Nat.zero_le _
    · generalize hg : ((content ++ call.appended).drop pos).take (min call.room left) = got
      have hlen : got.length ≤ left := by
        rw [← hg, length_take]
        exact (Nat.min_le_left _ _).trans (Nat.min_le_right _ _)
      have h := ih (content ++ call.appended) (pos + got.length) (left - got.length)
      rw [length_append]
      omega

theorem le_length_readToEnd (content : Bytes) (pos left : Nat) (calls : List ReadCall) :
    min left (content.length - pos) ≤ (readToEnd content pos left calls).length := by
  induction calls generalizing content pos left with
  | nil => rw [readToEnd, length_take, length_drop]
  | cons call calls ih =>
    have hroom := call.room.pos
    rw [readToEnd]
    split_ifs with hgot
    · have hlen := congrArg List.length hgot
      rw [length_take, length_drop, length_append, length_nil] at hlen
      rw [length_nil]
      omega
    · generalize hg : ((content ++ call.appended).drop pos).take (min call.room left) = got
      have h := ih (content ++ call.appended) (pos + got.length) (left - got.length)
      rw [length_append] at h ⊢
      omega

theorem readToEnd_still (content : Bytes) (pos left : Nat) {calls : List ReadCall}
    (h : appendedIn calls = []) :
    readToEnd content pos left calls = (content.drop pos).take left := by
  have hprefix := prefix_readToEnd content pos left calls
  rw [h, append_nil] at hprefix
  have hle := length_readToEnd_le content pos left calls
  have hge := le_length_readToEnd content pos left calls
  have hmax := hprefix.length_le
  rw [length_drop] at hmax
  rw [prefix_iff_eq_take.mp hprefix, take_eq_take_iff, length_drop]
  omega

/-! ## The request -/

def tailLookback : Nat := 64 * 1024

def maxTailBytes : Nat := 512 * 1024

def queryNumber (name query : Str) : Nat :=
  (((query.splitOn '&').findSome? (Text.stripPrefix (name ++ ['=']))).bind parseUsize).getD 0

inductive Trouble where
  | noFile
  /-- an error behind the opening -/
  | failed (context : Str)
  deriving DecidableEq

/-- What one request meets at the file. -/
structure Access where
  calls : List ReadCall
  trouble : Option Trouble

/-- Where the search for the lines starts: before a final newline. -/
def scanEnd (buf : Bytes) : Nat :=
  if buf.getLast? = some 0x0a then buf.length - 1 else buf.length

/-- Walk backwards from a place until so many newlines are found; the place behind the last of
them, or 0. -/
def cutFrom (n : Nat) (buf : Bytes) : Nat → Nat → Nat
  | 0, _ => 0
  | i + 1, found =>
    if buf[i]? = some 0x0a then
      if n ≤ found + 1 then i + 1 else cutFrom n buf i (found + 1)
    else cutFrom n buf i found

/-- The body of the answer and the offset of its end, of a file that held `content` when its size
was taken. -/
def tailSlice (offset n : Nat) (content : Bytes) (calls : List ReadCall) : Bytes × Nat :=
  let fileSize := content.length
  if offset = 0 ∧ 0 < n then
    let lookback := min tailLookback fileSize
    let buf := readToEnd content (fileSize - lookback) lookback calls
    (buf.drop (cutFrom n buf (scanEnd buf) 0), fileSize)
  else
    let readFrom := min offset fileSize
    let body := readToEnd content readFrom maxTailBytes calls
    (body, readFrom + body.length)

def serveTail (mimeFromPath : Str → Str) (query fsPath : Str) (content : Bytes) (access : Access) :
    Except Error AppResponse :=
  match access.trouble with
  | some .noFile => .ok (.ofStatus 404)
  | some (.failed context) => .error (.other context)
  | none =>
    let (body, endOffset) := tailSlice (queryNumber "offset".toList query)
      (queryNumber "n".toList query) content access.calls
    .ok
      { status := 200
        headers :=
          [("Content-Type".toList, mimeFromPath fsPath),
            ("Cache-Control".toList, "no-store".toList),
            ("X-Log-End".toList, decimal endOffset)]
        body := .bytes body
        verbatim := true
        templateName := none
        templateDict := none }

/-! ## The last lines -/

/-- What the walk finds: the place behind the newline that is the `n`-th from the end, or the start
of the buffer when there are fewer. -/
theorem cutFrom_spec {n : Nat} {buf : Bytes} {i found : Nat} (hi : i ≤ scanEnd buf)
    (hfound : ((buf.take (scanEnd buf)).drop i).count 0x0a = found) (hlt : found < n) :
    (cutFrom n buf i found = 0 ∧ (buf.take (scanEnd buf)).count 0x0a < n) ∨
      ∃ c, cutFrom n buf i found = c + 1 ∧ c < scanEnd buf ∧ buf[c]? = some 0x0a ∧
        ((buf.take (scanEnd buf)).drop (c + 1)).count 0x0a + 1 = n := by
  induction i generalizing found with
  | zero => exact .inl ⟨rfl, by rwa [← hfound, drop_zero] at hlt⟩
  | succ i ih =>
    have hend : scanEnd buf ≤ buf.length := by
      rw [scanEnd]
      split_ifs <;> omega
    have hlt' : i < buf.length := by omega
    have hget : (buf.take (scanEnd buf)).drop i =
        buf[i] :: (buf.take (scanEnd buf)).drop (i + 1) := by
      rw [drop_eq_getElem_cons (by rw [length_take]; omega), getElem_take]
    rw [cutFrom, getElem?_eq_getElem (by omega)]
    split_ifs with hnl hn
    · exact .inr ⟨i, rfl, by omega, by rw [getElem?_eq_getElem (by omega), hnl], by omega⟩
    · refine ih (by omega) ?_ (by omega)
      rw [hget, some.inj hnl, count_cons_self, hfound]
    · refine ih (by omega) ?_ hlt
      rw [hget, count_cons_of_ne (fun h => hnl (congrArg some h)), hfound]

theorem count_walked {buf : Bytes} {c : Nat} (hc : c < buf.length) :
    ((buf.take (scanEnd buf)).drop c).count 0x0a = (buf.drop c).dropLast.count 0x0a := by
  rw [scanEnd]
  split_ifs with hlast
  · rw [← dropLast_eq_take, dropLast_eq_take, dropLast_eq_take, drop_take, length_drop]
    congr 2
    omega
  · have hne : buf.drop c ≠ [] := by
      rw [ne_eq, drop_eq_nil_iff]
      omega
    have hother : (buf.drop c).getLast hne ≠ 0x0a := by
      rw [getLast_drop]
      intro h
      exact hlast (h ▸ getLast?_eq_some_getLast _)
    rw [take_length]
    conv_lhs => rw [← dropLast_append_getLast hne]
    rw [count_append, count_singleton, if_neg (by simpa using hother), Nat.add_zero]

/-- **The walk finds the last lines** of what it walks over. -/
theorem drop_cutFrom {n : Nat} (hn : 0 < n) (buf : Bytes) :
    buf.drop (cutFrom n buf (scanEnd buf) 0) = lastLines 0x0a n buf := by
  by_cases hne : buf = []
  · subst hne
    simp [lastLines]
  have hpos := length_pos_of_ne_nil hne
  have hnone : ((buf.take (scanEnd buf)).drop (scanEnd buf)).count 0x0a = 0 := by
    rw [drop_eq_nil_of_le (by rw [length_take]; omega), count_nil]
  rcases cutFrom_spec (Nat.le_refl _) hnone hn with ⟨hcut, hfew⟩ | ⟨c, hcut, hc, hnl, hcount⟩
  · -- too few newlines: the buffer has no more lines than asked for
    have hlines : (splitInclusive 0x0a buf).length ≤ n := by
      have hcount := count_walked hpos
      rw [drop_zero, drop_zero] at hcount
      rw [length_splitInclusive hne, ← hcount]
      exact hfew
    rw [hcut, drop_zero]
    exact (lastLines_eq (.inl rfl) (.inr ⟨rfl, hlines⟩)).symm
  · have hlen : c + 1 < buf.length := by
      have hget := List.getElem?_eq_some_iff.mp hnl
      obtain ⟨hlt, hval⟩ := hget
      rw [scanEnd] at hc
      split_ifs at hc with hlast
      · omega
      · by_contra hge
        refine hlast ?_
        rw [getLast?_eq_getElem?, show buf.length - 1 = c by omega, hnl]
    have hends : Ends 0x0a (buf.take (c + 1)) := by
      refine .inr ?_
      rw [getLast?_take, if_neg (by omega), Nat.add_sub_cancel, hnl]
      rfl
    have hrest : buf.drop (c + 1) ≠ [] := by
      rw [ne_eq, drop_eq_nil_iff]
      omega
    have hlines : (splitInclusive 0x0a (buf.drop (c + 1))).length = n := by
      rw [length_splitInclusive hrest, ← count_walked hlen, hcount]
    rw [hcut]
    conv_rhs => rw [← take_append_drop (c + 1) buf]
    exact (lastLines_eq hends (.inl hlines)).symm

/-! ## Which files give their last lines -/

def offsetQuery (offset : Nat) (more : Option Str) : Str :=
  "offset=".toList ++ decimal offset ++ (more.map ('&' :: ·)).getD []

/-- The query of a request for the last lines, `offset=0&n=N`. -/
def linesQuery (n : Nat) : Str := offsetQuery 0 (some ("n=".toList ++ decimal n))

/-- The calls of `read` on a file that nobody appends to, by the room they have. -/
def stillCalls (rooms : List ℕ+) : List ReadCall := rooms.map fun room => ⟨[], room⟩

/-- The bytes a request for the last lines may get: the lookback, or where its number is too large
for the reader of the query, a chunk from the start of the file. -/
def linesRoom (n : Nat) : Nat := if n < 2 ^ 64 then tailLookback else maxTailBytes

def TailsLines (mimeFromPath : Str → Str) (fsPath : Str) (n : ℕ+) (content : Bytes)
    (rooms : List ℕ+) : Prop :=
  (serveTail mimeFromPath (linesQuery n) fsPath content ⟨stillCalls rooms, none⟩).map
    (fun resp => (resp.status, resp.body)) = .ok (200, .bytes (lastLines 0x0a n content))

theorem not_mem_number (name : Str) (n : Nat) (h : '&' ∉ name) : '&' ∉ name ++ decimal n := by
  rw [mem_append, not_or]
  exact ⟨h, ResponseFraming.not_mem_decimal_of rfl n⟩

theorem splitOn_parameters {first : Str} (hamp : '&' ∉ first) (more : Option Str) :
    (first ++ (more.map ('&' :: ·)).getD []).splitOn '&' =
      first :: (more.map (·.splitOn '&')).getD [] := by
  cases more with
  | none =>
    rw [map_none, getD_none, append_nil, splitOn_eq_singleton hamp, map_none, getD_none]
  | some m => exact splitOn_append_cons_self_of_not_mem hamp m

theorem splitOn_offsetQuery (offset : Nat) (more : Option Str) :
    (offsetQuery offset more).splitOn '&' =
      ("offset=".toList ++ decimal offset) :: (more.map (·.splitOn '&')).getD [] :=
  splitOn_parameters (not_mem_number _ offset (by decide)) more

theorem stripPrefix_parameter (name value : Str) :
    Text.stripPrefix (name ++ ['=']) (name ++ '=' :: value) = some value := by
  have happ : name ++ '=' :: value = (name ++ ['=']) ++ value := by simp
  rw [Text.stripPrefix, happ, if_pos (prefix_append _ _), drop_left]

theorem queryNumber_offset (offset : Nat) (more : Option Str) :
    queryNumber "offset".toList (offsetQuery offset more) =
      if offset < 2 ^ 64 then offset else 0 := by
  have hfirst := stripPrefix_parameter "offset".toList (decimal offset)
  rw [queryNumber, splitOn_offsetQuery, findSome?_cons]
  rw [show "offset=".toList ++ decimal offset = "offset".toList ++ '=' :: decimal offset from rfl,
    hfirst]
  dsimp only
  rw [bind_some, parseUsize_decimal]
  split_ifs <;> rfl

theorem queryNumber_lines (n : Nat) :
    queryNumber "n".toList (linesQuery n) = if n < 2 ^ 64 then n else 0 := by
  have hamp : '&' ∉ "n=".toList ++ decimal n := not_mem_number _ n (by decide)
  have hother : Text.stripPrefix ("n".toList ++ ['=']) ("offset=".toList ++ decimal 0) = none := by
    decide
  have hn := stripPrefix_parameter "n".toList (decimal n)
  rw [queryNumber, linesQuery, splitOn_offsetQuery, map_some, getD_some,
    splitOn_eq_singleton hamp, findSome?_cons, hother, findSome?_cons,
    show "n=".toList ++ decimal n = "n".toList ++ '=' :: decimal n from rfl, hn]
  dsimp only
  rw [bind_some, parseUsize_decimal]
  split_ifs <;> rfl

theorem tailSlice_lines {n : Nat} (hn : 0 < n) (content : Bytes) {calls : List ReadCall}
    (hstill : appendedIn calls = []) : (tailSlice 0 n content calls).1 =
      lastLines 0x0a n (content.drop (content.length - tailLookback)) := by
  rw [tailSlice]
  simp only [hn, and_self, if_true]
  generalize tailLookback = room
  rw [readToEnd_still _ _ _ hstill, drop_cutFrom hn,
    take_of_length_le (by rw [length_drop]; omega)]
  congr 2
  omega

theorem tailSlice_start (content : Bytes) {calls : List ReadCall} (hstill : appendedIn calls = []) :
    (tailSlice 0 0 content calls).1 = content.take maxTailBytes := by
  rw [tailSlice]
  simp only [Nat.lt_irrefl, and_false, if_false]
  rw [readToEnd_still _ _ _ hstill, Nat.zero_min, drop_zero]

theorem lastLines_lookback {n : Nat} (hn : 0 < n) (content : Bytes) (room : Nat) :
    lastLines 0x0a n (content.drop (content.length - room)) = lastLines 0x0a n content ↔
      (lastLines 0x0a n content).length ≤ room := by
  have hsuffix : ∀ l : Bytes, lastLines 0x0a n l <:+ l := by
    intro l
    obtain ⟨a, hl, -, -⟩ := exists_lastLines (t := 0x0a) hn l
    exact ⟨a, hl.symm⟩
  constructor
  · intro h
    rw [← h]
    refine (hsuffix _).length_le.trans ?_
    rw [length_drop]
    omega
  · intro h
    refine lastLines_of_suffix hn (drop_suffix _ _) ?_
    refine suffix_of_suffix_length_le (hsuffix content) (drop_suffix _ _) ?_
    have hlen := (hsuffix content).length_le
    rw [length_drop]
    omega

theorem take_eq_lastLines {n room : Nat} (hn : room < n) (content : Bytes) :
    content.take room = lastLines 0x0a n content ↔ (lastLines 0x0a n content).length ≤ room := by
  have hmin := min_le_length_lastLines 0x0a n content
  obtain ⟨a, hl, ha, -⟩ := exists_lastLines (t := (0x0a : UInt8)) (Nat.zero_lt_of_lt hn) content
  constructor
  · intro h
    rw [← h, length_take]
    exact Nat.min_le_left _ _
  · intro h
    have hall : a = [] := by
      have hlen := congrArg List.length hl
      rw [length_append] at hlen
      exact eq_nil_of_length_eq_zero (by omega)
    rw [hall, nil_append] at hl
    rw [← hl] at h ⊢
    exact take_of_length_le h

theorem tailsLines_iff_slice (mimeFromPath : Str → Str) (fsPath : Str) (n : ℕ+) (content : Bytes)
    (rooms : List ℕ+) :
    TailsLines mimeFromPath fsPath n content rooms ↔
      (tailSlice 0 (if (n : Nat) < 2 ^ 64 then n else 0) content (stillCalls rooms)).1 =
        lastLines 0x0a n content := by
  have hoffset : queryNumber "offset".toList (linesQuery n) = 0 := queryNumber_offset 0 _
  rw [← queryNumber_lines, ← hoffset]
  simp [TailsLines, serveTail, Except.map]

theorem appendedIn_still (rooms : List ℕ+) : appendedIn (stillCalls rooms) = [] := by
  simp [appendedIn, stillCalls]

/-- **When the last lines are what is sent**: exactly if they take no more bytes than are looked
through. -/
theorem tailsLines_iff (mimeFromPath : Str → Str) (fsPath : Str) (n : ℕ+) (content : Bytes)
    (rooms : List ℕ+) :
    TailsLines mimeFromPath fsPath n content rooms ↔
      (lastLines 0x0a n content).length ≤ linesRoom n := by
  have hstill := appendedIn_still rooms
  rw [tailsLines_iff_slice, linesRoom]
  by_cases hn : (n : Nat) < 2 ^ 64
  · rw [if_pos hn, if_pos hn, tailSlice_lines n.pos content hstill]
    exact lastLines_lookback n.pos content tailLookback
  · have hroom : maxTailBytes < n := Nat.lt_of_lt_of_le (by decide) (Nat.le_of_not_lt hn)
    rw [if_neg hn, if_neg hn, tailSlice_start content hstill]
    exact take_eq_lastLines hroom content

theorem long_line_cut :
    ¬ TailsLines (fun _ => "text/plain; charset=utf-8".toList) "app.log".toList 1
      (List.replicate (tailLookback + 1) 0x61) [] := by
  have hline : lastLines 0x0a 1 (List.replicate (tailLookback + 1) (0x61 : UInt8)) =
      List.replicate (tailLookback + 1) 0x61 := by
    have hne : List.replicate (tailLookback + 1) (0x61 : UInt8) ≠ [] := by
      simp [replicate_succ]
    have habsent : (0x0a : UInt8) ∉ List.replicate (tailLookback + 1) (0x61 : UInt8) := by
      intro h
      exact absurd (eq_of_mem_replicate h) (by decide)
    rw [lastLines, splitInclusive_of_absent hne habsent]
    simp
  rw [tailsLines_iff_slice, PNat.one_coe, if_pos (by decide),
    tailSlice_lines Nat.one_pos _ (appendedIn_still []),
    lastLines_lookback Nat.one_pos, hline, length_replicate]
  exact Nat.not_succ_le_self _

end M6
