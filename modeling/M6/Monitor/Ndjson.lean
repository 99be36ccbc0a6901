import M6.Core.Config
import M6.Core.Responder
import M6.Lib.Paging
import Mathlib.Data.Prod.Lex
import Mathlib.Algebra.Ring.Int.Defs

/-!
# Pages of rows, and cursors

The pages of `ndjson.rs` and `fill_page` of `history.rs`. A page takes rows until it is full. It is
filled from a table that is read in chunks, each of which asks for one row more than it uses, and
the row that comes next is where the next page begins.

`fillPage_fills` says what a page is, for any table: the rows from the cursor on that it has room
for, and the cursor of the row after them. It says when there is none: when a row cannot be read.
-/

namespace M6.Monitor

open List

open App (I64)
open Paging

/-! ## Cursors -/

def toI64 (i : Int) : Option I64 := if h : -2 ^ 63 ≤ i ∧ i < 2 ^ 63 then some ⟨i, h⟩ else none

abbrev Key : Type := I64 ×ₗ I64

def intText : Int → Str
  | .ofNat n => decimal n
  | .negSucc n => '-' :: decimal (n + 1)

def splitSign : Str → Bool × Str
  | '-' :: digits => (true, digits)
  | '+' :: digits => (false, digits)
  | digits => (false, digits)

/-- `i64::from_str` -/
def parseI64 (s : Str) : Option I64 :=
  let (negative, digits) := splitSign s
  if digits ≠ [] ∧ digits.all Char.isDigit then
    let n : Nat := digits.foldl (fun n c => 10 * n + (c.toNat - 48)) 0
    toI64 (if negative then -n else n)
  else none

def parseCursor (s : Str) : Option Key := do
  let (a, b) := Text.cutAt '-' s
  let b ← b
  some (toLex (← parseI64 a, ← parseI64 b))

def cursorText (k : Key) : Str := intText (ofLex k).1.1 ++ '-' :: intText (ofLex k).2.1

def maxCursorLen : Nat := 128

def isCursorChar (c : Char) : Bool := c.isAlphanum || c ∈ ['-', '.', '_', '~']

/-- A cursor, which needs no escape in a query. -/
structure Cursor where
  text : Str
  nonempty : text ≠ []
  short : text.length ≤ maxCursorLen
  plain : text.all isCursorChar

inductive CursorError where
  | repeated
  | empty
  | malformed

def Cursor.new (s : Str) : Except CursorError Cursor :=
  if hempty : s = [] then .error .empty
  else if hok : s.length ≤ maxCursorLen ∧ s.all isCursorChar then
    .ok ⟨s, hempty, hok.1, hok.2⟩
  else .error .malformed

/-! ## Pages -/

/-- Why there is no page. -/
inductive Halt where
  /-- arithmetic overflows, and the process aborts -/
  | panic
  /-- the database cannot be read -/
  | db
  /-- a row cannot be written into the page -/
  | build
  /-- the cursor is none of this service -/
  | cursor

def maxPageBytes : Nat := 64 * 1024 * 1024

structure PageLimits where
  maxBytes : Nat
  maxRows : Nat
  bytes_pos : 1 ≤ maxBytes
  bytes_le : maxBytes ≤ maxPageBytes
  rows_pos : 1 ≤ maxRows

def PageLimits.new (maxBytes maxRows : Nat) : PageLimits where
  maxBytes := max 1 (min maxBytes maxPageBytes)
  maxRows := max maxRows 1
  bytes_pos := le_max_left ..
  bytes_le := max_le (by decide) (min_le_right ..)
  rows_pos := le_max_right ..

def PageLimits.default : PageLimits := .new (4 * 1024 * 1024) 10000

inductive Pushed where
  | added
  | full

structure Page where
  buf : Bytes
  rows : Nat
  limits : PageLimits

def Page.new (limits : PageLimits) : Page := ⟨[], 0, limits⟩

def Page.push (page : Page) (row : Bytes) : Except Halt (Page × Pushed) :=
  if page.limits.maxRows ≤ page.rows then .ok (page, .full)
  else if row.head? ≠ some 123 then .error .build
  else
    let buf := page.buf ++ row ++ [10]
    let added : Page := { page with buf := buf, rows := page.rows + 1 }
    -- the first row is kept even when it is more than the page should hold
    if page.rows = 0 then
      if maxPageBytes < buf.length - page.buf.length then .error .build else .ok (added, .added)
    else if page.limits.maxBytes < buf.length then .ok (page, .full)
    else .ok (added, .added)

structure Serialize (T : Type) where
  json : T → Bytes
  object : ∀ r, (json r).head? = some 123

variable {T : Type} (ser : Serialize T) (keyOf : T → Key)

def Serialize.line (r : T) : Bytes := ser.json r ++ [10]

def pushRows (page : Page) : List T → Except Halt (Page × Option T)
  | [] => .ok (page, none)
  | r :: rows => do
    match ← page.push (ser.json r) with
    | (page, .full) => .ok (page, some r)
    | (page, .added) => pushRows page rows

def chunkRows : Nat := 256

/-- Fill the page chunk by chunk. A chunk that does not fill the page puts its rows into it, so
there are no more chunks than the page may hold rows. -/
def fillFrom (read : Option Key → Nat → Except Halt (List T)) :
    Nat → Page → Option Key → Except Halt (Page × Option Cursor)
  | 0, _, _ => .error .build
  | fuel + 1, page, after => do
    let rows ← read after (chunkRows + 1)
    match ← pushRows ser page (rows.take chunkRows) with
    | (page, some r) =>
      match Cursor.new (cursorText (keyOf r)) with
      | .ok next => .ok (page, some next)
      | .error _ => .error .build
    | (page, none) =>
      match rows[chunkRows]? with
      | some start => fillFrom read fuel page (some (keyOf start))
      | none => .ok (page, none)

def fillPage (read : Option Key → Nat → Except Halt (List T)) (after : Option Key)
    (limits : PageLimits) : Except Halt (Page × Option Cursor) :=
  fillFrom ser keyOf read (limits.maxRows + 1) (.new limits) after

/-! ## The trip of a cursor -/

theorem toI64_val (i : I64) : toI64 i.1 = some i := dif_pos i.2

theorem intText_of_nonneg {i : Int} (h : 0 ≤ i) : intText i = decimal i.toNat := by
  cases i with
  | ofNat n => rfl
  | negSucc n => exact absurd h (by omega)

theorem isDigit_of_mem_decimal {n : Nat} {c : Char} (h : c ∈ decimal n) : c.isDigit = true :=
  Nat.isDigit_of_mem_toDigits (by decide) (by decide) h

theorem splitSign_of_digits {s : Str} (h : ∀ c ∈ s, c.isDigit = true) :
    splitSign s = (false, s) := by
  rw [splitSign]
  · rintro digits rfl
    exact absurd (h '-' (mem_cons_self ..)) (by decide)
  · rintro digits rfl
    exact absurd (h '+' (mem_cons_self ..)) (by decide)

theorem parseI64_intText {i : I64} (h : 0 ≤ i.1) : parseI64 (intText i.1) = some i := by
  have hdigits : ∀ c ∈ decimal i.1.toNat, c.isDigit = true := fun _ => isDigit_of_mem_decimal
  have hok : decimal i.1.toNat ≠ [] ∧ (decimal i.1.toNat).all Char.isDigit = true :=
    ⟨Nat.toDigits_ne_nil, all_eq_true.mpr hdigits⟩
  have hvalue : (decimal i.1.toNat).foldl (fun n c => 10 * n + (c.toNat - 48)) 0 = i.1.toNat := by
    have hten : Nat.ofDigitChars 10 (decimal i.1.toNat) 0 = i.1.toNat :=
      Nat.ofDigitChars_ten_toDigits
    rwa [Nat.ofDigitChars_eq_foldl] at hten
  rw [intText_of_nonneg h, parseI64, splitSign_of_digits hdigits]
  simp only [if_pos hok, hvalue, Bool.false_eq_true, if_false, Int.toNat_of_nonneg h, toI64_val]

theorem parseCursor_cursorText {k : Key} (hat : 0 ≤ (ofLex k).1.1) (hid : 0 ≤ (ofLex k).2.1) :
    parseCursor (cursorText k) = some k := by
  have hnone : '-' ∉ intText (ofLex k).1.1 := by
    rw [intText_of_nonneg hat]
    exact fun hmem => absurd (isDigit_of_mem_decimal hmem) (by decide)
  rw [parseCursor, cursorText, Text.cutAt_append _ hnone]
  simp [parseI64_intText hat, parseI64_intText hid]

theorem intText_cursorChars {i : I64} (h : 0 ≤ i.1) :
    (intText i.1).length ≤ 19 ∧ ∀ c ∈ intText i.1, isCursorChar c = true := by
  rw [intText_of_nonneg h]
  refine ⟨(Nat.length_toDigits_le_iff (by decide) (by decide)).mpr ?_, fun c hc => ?_⟩
  · have hlt := i.2.2
    omega
  · have hdigit := isDigit_of_mem_decimal hc
    simp [isCursorChar, Char.isAlphanum, hdigit]

theorem cursor_new {k : Key} (hat : 0 ≤ (ofLex k).1.1) (hid : 0 ≤ (ofLex k).2.1) :
    ∃ cursor, Cursor.new (cursorText k) = .ok cursor ∧ cursor.text = cursorText k := by
  obtain ⟨hlenat, hcharsat⟩ := intText_cursorChars hat
  obtain ⟨hlenid, hcharsid⟩ := intText_cursorChars hid
  have hempty : cursorText k ≠ [] := by simp [cursorText]
  have hlen : (cursorText k).length ≤ maxCursorLen := by
    rw [cursorText, length_append, length_cons, maxCursorLen]
    omega
  have hchars : (cursorText k).all isCursorChar = true := by
    refine all_eq_true.mpr fun c hc => ?_
    rw [cursorText, mem_append, mem_cons] at hc
    obtain hc | rfl | hc := hc
    · exact hcharsat c hc
    · rfl
    · exact hcharsid c hc
  exact ⟨⟨cursorText k, hempty, hlen, hchars⟩,
    by rw [Cursor.new, dif_neg hempty, dif_pos ⟨hlen, hchars⟩], rfl⟩

/-! ## What a page takes -/

/-- A row that a page can take, alone if need be. -/
def Fits (r : T) : Prop := (ser.line r).length ≤ maxPageBytes

variable {ser keyOf}

theorem push_cases (page : Page) {r : T} (h : Fits ser r) :
    (page.push (ser.json r) = .ok (page, .full) ∧ page.rows ≠ 0) ∨ (page.push (ser.json r) =
          .ok ({ page with buf := page.buf ++ ser.line r, rows := page.rows + 1 }, .added) ∧
        page.rows < page.limits.maxRows) := by
  have hline : page.buf ++ ser.json r ++ [10] = page.buf ++ ser.line r := append_assoc ..
  have hfits : ¬ maxPageBytes < (ser.line r).length := not_lt.mpr h
  rw [Page.push, if_neg (not_not.mpr (ser.object r)), hline]
  have hpos := page.limits.rows_pos
  by_cases hrows : page.limits.maxRows ≤ page.rows
  · exact .inl ⟨if_pos hrows, by omega⟩
  · rw [if_neg hrows]
    by_cases hzero : page.rows = 0
    · refine .inr ⟨?_, by omega⟩
      simp [hzero, hfits]
    · by_cases hfull : page.limits.maxBytes < (page.buf ++ ser.line r).length
      · refine .inl ⟨?_, hzero⟩
        simp only [if_neg hzero, if_pos hfull]
      · refine .inr ⟨?_, by omega⟩
        simp only [if_neg hzero, if_neg hfull]

structure Page.Took (page page' : Page) (ser : Serialize T) (sent : List T) : Prop where
  buf : page'.buf = page.buf ++ sent.flatMap ser.line
  rows : page'.rows = page.rows + sent.length
  limits : page'.limits = page.limits
  room : page'.rows ≤ page'.limits.maxRows

theorem Page.Took.trans {page page' page'' : Page} {sent sent' : List T}
    (h : page.Took page' ser sent) (h' : page'.Took page'' ser sent') :
    page.Took page'' ser (sent ++ sent') where
  buf := by rw [h'.buf, h.buf, flatMap_append, append_assoc]
  rows := by rw [h'.rows, h.rows, length_append, Nat.add_assoc]
  limits := h'.limits.trans h.limits
  room := h'.room

theorem pushRows_takes {page : Page} (hroom : page.rows ≤ page.limits.maxRows) {rows : List T}
    (h : ∀ r ∈ rows, Fits ser r) :
    ∃ page' sent rest, pushRows ser page rows = .ok (page', rest.head?) ∧ rows = sent ++ rest ∧
      page.Took page' ser sent ∧ (page'.rows = 0 → rest = []) := by
  induction rows generalizing page with
  | nil => exact ⟨page, [], [], rfl, rfl, ⟨(append_nil _).symm, rfl, rfl, hroom⟩, fun _ => rfl⟩
  | cons r rows ih =>
    rw [pushRows]
    obtain ⟨hpush, hrows⟩ | ⟨hpush, hrows⟩ := push_cases page (h r (mem_cons_self ..))
    · refine ⟨page, [], r :: rows, ?_, rfl, ⟨(append_nil _).symm, rfl, rfl, hroom⟩, ?_⟩
      · rw [hpush]
        rfl
      · exact fun hzero => absurd hzero hrows
    · have hone : page.Took
          { page with buf := page.buf ++ ser.line r, rows := page.rows + 1 } ser [r] :=
        ⟨by simp, rfl, rfl, hrows⟩
      obtain ⟨page', sent, rest, hrest, hsplit, htook, hempty⟩ :=
        ih hone.room fun x hx => h x (mem_cons_of_mem _ hx)
      refine ⟨page', r :: sent, rest, ?_, congrArg (r :: ·) hsplit, hone.trans htook, hempty⟩
      rw [hpush]
      exact hrest

/-! ## What a table gives -/

abbrev Table (T : Type) : Type := List (Key × Except Halt T)

/-- **A table that is read in chunks**: the rows from a key on, as many as are asked for. -/
structure Reads (ser : Serialize T) (keyOf : T → Key)
    (read : Option Key → Nat → Except Halt (List T)) (table : Table T) : Prop where
  ordered : Ordered Prod.fst table
  read : ∀ after n, read after n = ((onward Prod.fst after table).take n).mapM Prod.snd
  keys : ∀ e ∈ table, ∀ r, e.2 = .ok r → keyOf r = e.1
  nonneg : ∀ e ∈ table, 0 ≤ (ofLex e.1).1.1 ∧ 0 ≤ (ofLex e.1).2.1
  fits : ∀ e ∈ table, ∀ r, e.2 = .ok r → Fits ser r

def Unreadable (rows : Table T) : Prop := ∃ e ∈ rows, ∃ halt, e.2 = .error halt

theorem mapM_snd_cases (rows : Table T) :
    (∃ out, rows.mapM Prod.snd = .ok out ∧ rows.map Prod.snd = out.map .ok) ∨
      ((∃ halt, rows.mapM Prod.snd = .error halt) ∧ Unreadable rows) := by
  induction rows with
  | nil => exact .inl ⟨[], rfl, rfl⟩
  | cons e rows ih =>
    rw [mapM_cons]
    cases he : e.2 with
    | error halt => exact .inr ⟨⟨halt, rfl⟩, e, mem_cons_self .., halt, he⟩
    | ok r =>
      obtain ⟨out, hout, hmap⟩ | ⟨⟨halt, hhalt⟩, e', he', hbad⟩ := ih
      · refine .inl ⟨r :: out, ?_, ?_⟩
        · rw [hout]
          rfl
        · rw [map_cons, he, hmap, map_cons]
      · refine .inr ⟨⟨halt, ?_⟩, e', mem_cons_of_mem _ he', hbad⟩
        rw [hhalt]
        rfl

/-- What a page has taken of what is left of a table, and the cursor of what comes next. -/
structure Fills (ser : Serialize T) (page page' : Page) (next : Option Cursor)
    (sent rest : Table T) : Prop where
  took : ∃ rows, sent.map Prod.snd = rows.map .ok ∧ page.Took page' ser rows
  cursor : next.map Cursor.text = (rest.head?.map Prod.fst).map cursorText
  progress : page'.rows = 0 → rest = []

theorem getElem?_of_take {α : Type} {l : List α} {m n : Nat} {a : α}
    (h : (l.take m)[n]? = some a) : l[n]? = some a := by
  rw [getElem?_take] at h
  split_ifs at h
  exact h

theorem entry_of_read {left : Table T} {out : List T} {m n : Nat} {r : T}
    (hmap : (left.take m).map Prod.snd = out.map .ok) (hr : out[n]? = some r) :
    ∃ e, left[n]? = some e ∧ e.2 = .ok r := by
  have hn : ((left.take m).map Prod.snd)[n]? = some (.ok r) := by
    rw [hmap, getElem?_map, hr]
    rfl
  rw [getElem?_map, Option.map_eq_some_iff] at hn
  obtain ⟨e, he, hsnd⟩ := hn
  exact ⟨e, getElem?_of_take he, hsnd⟩

/-- Behind the key of an entry is what follows the entry. -/
theorem Reads.onward_drop {read : Option Key → Nat → Except Halt (List T)} {table : Table T}
    (h : Reads ser keyOf read table) {after : Option Key} {n : Nat} {e : Key × Except Halt T}
    (he : (onward Prod.fst after table)[n]? = some e) :
    onward Prod.fst (some e.1) table = (onward Prod.fst after table).drop n := by
  have hcons : (onward Prod.fst after table).drop n =
      e :: (onward Prod.fst after table).drop (n + 1) := by
    obtain ⟨hlt, hget⟩ := List.getElem?_eq_some_iff.mp he
    rw [drop_eq_getElem_cons hlt, hget]
  rw [hcons]
  exact onward_of_split h.ordered (hcons ▸ (take_append_drop ..).symm)

/-- The entries of the rows of a chunk that go into a page. -/
theorem pushRows_chunk {left : Table T} {out : List T} {page : Page}
    (hroom : page.rows ≤ page.limits.maxRows)
    (hmap : (left.take (chunkRows + 1)).map Prod.snd = out.map .ok)
    (hfits : ∀ e ∈ left, ∀ r, e.2 = .ok r → Fits ser r) :
    ∃ page' sent rest, pushRows ser page (out.take chunkRows) = .ok (page', rest.head?) ∧
      out.take chunkRows = sent ++ rest ∧ page.Took page' ser sent ∧
      (page'.rows = 0 → rest = []) ∧ (left.take sent.length).map Prod.snd = sent.map .ok := by
  have hchunk : ∀ r ∈ out.take chunkRows, Fits ser r := by
    intro r hr
    obtain ⟨n, hn⟩ := mem_iff_getElem?.mp (mem_of_mem_take hr)
    obtain ⟨e, he, hsnd⟩ := entry_of_read hmap hn
    exact hfits e (mem_of_getElem? he) r hsnd
  obtain ⟨page', sent, rest, hpush, hsplit, htook, hprogress⟩ := pushRows_takes hroom hchunk
  refine ⟨page', sent, rest, hpush, hsplit, htook, hprogress, ?_⟩
  have hle : sent.length ≤ chunkRows := by
    have hlen := congrArg List.length hsplit
    rw [length_take, length_append] at hlen
    omega
  have htake : out.take sent.length = sent := by
    have hcut := congrArg (List.take sent.length) hsplit
    rwa [take_take, take_left, Nat.min_eq_left hle] at hcut
  have hcut := congrArg (List.take sent.length) hmap
  rw [← map_take, ← map_take, take_take, htake] at hcut
  rwa [Nat.min_eq_left (by omega)] at hcut

/-- **Filling a page** from what is left of a table: it takes the first rows, unless there is one
that cannot be read. The fuel lasts, since each chunk but the last adds `chunkRows` rows. -/
theorem fillFrom_fills {read : Option Key → Nat → Except Halt (List T)} {table : Table T}
    (h : Reads ser keyOf read table) {fuel : Nat} {page : Page} (after : Option Key)
    (hroom : page.rows ≤ page.limits.maxRows) (hfuel : page.limits.maxRows < fuel + page.rows) :
    (∃ page' next sent rest, fillFrom ser keyOf read fuel page after = .ok (page', next) ∧
        onward Prod.fst after table = sent ++ rest ∧ Fills ser page page' next sent rest) ∨
      ((∃ halt, fillFrom ser keyOf read fuel page after = .error halt) ∧
        Unreadable (onward Prod.fst after table)) := by
  induction fuel generalizing page after with
  | zero => omega
  | succ fuel ih =>
    set left := onward Prod.fst after table with hleft
    have hmem : ∀ e ∈ left, e ∈ table := fun e he => (mem_filter.mp he).1
    rw [fillFrom, h.read, ← hleft]
    obtain ⟨out, hout, hmap⟩ | ⟨⟨halt, hhalt⟩, e, he, hbad⟩ :=
      mapM_snd_cases (left.take (chunkRows + 1))
    swap
    · refine .inr ⟨⟨halt, ?_⟩, e, mem_of_mem_take he, hbad⟩
      rw [hhalt]
      rfl
    · have hlength : out.length = min (chunkRows + 1) left.length := by
        have hlen := congrArg List.length hmap
        rwa [length_map, length_map, length_take, eq_comm] at hlen
      obtain ⟨page', sent, rest, hpush, hsplit, htook, hprogress, hsent⟩ :=
        pushRows_chunk hroom hmap fun e he => h.fits e (hmem e he)
      have hdrop : left = left.take sent.length ++ left.drop sent.length :=
        (take_append_drop ..).symm
      rw [hout]
      simp only [bind, Except.bind, hpush]
      cases rest with
      | cons r rest =>
        -- the page is full, on a row that is where the next one begins
        have hr : out[sent.length]? = some r := by
          have hcut : (out.take chunkRows)[sent.length]? = some r := by
            rw [hsplit]
            simp
          exact getElem?_of_take hcut
        obtain ⟨e, he, hsnd⟩ := entry_of_read hmap hr
        have htable := hmem e (mem_of_getElem? he)
        obtain ⟨hat, hid⟩ := h.nonneg e htable
        obtain ⟨cursor, hnew, htext⟩ := cursor_new hat hid
        have hhead : (left.drop sent.length).head? = some e := by
          rw [head?_drop, he]
        refine .inl ⟨page', some cursor, left.take sent.length, left.drop sent.length, ?_, hdrop,
          ⟨sent, hsent, htook⟩, ?_, ?_⟩
        · simp only [head?_cons, h.keys e htable r hsnd, hnew]
        · rw [hhead, Option.map_some, htext]
          rfl
        · exact fun hzero => nomatch hprogress hzero
      | nil =>
        rw [append_nil] at hsplit
        cases hstart : out[chunkRows]? with
        | none =>
          -- that was all
          have hall : left.length ≤ sent.length := by
            have hlen := congrArg List.length hsplit
            rw [length_take] at hlen
            have hshort := getElem?_eq_none_iff.mp hstart
            omega
          have hnil : left.drop sent.length = [] := drop_eq_nil_of_le hall
          refine .inl ⟨page', none, left.take sent.length, left.drop sent.length, ?_, hdrop,
            ⟨sent, hsent, htook⟩, ?_, ?_⟩
          · simp only [head?_nil]
          · rw [hnil]
            rfl
          · exact fun _ => hnil
        | some start =>
          -- the row beyond the chunk is where the next chunk begins
          obtain ⟨e, he, hsnd⟩ := entry_of_read hmap hstart
          have htable := hmem e (mem_of_getElem? he)
          have hchunk : sent.length = chunkRows := by
            have hlen := congrArg List.length hsplit
            rw [length_take] at hlen
            have hlong := (List.getElem?_eq_some_iff.mp hstart).1
            omega
          have honward : onward Prod.fst (some e.1) table = left.drop sent.length :=
            hchunk ▸ h.onward_drop he
          have hnext : page'.limits.maxRows < fuel + page'.rows := by
            have hpos : 0 < chunkRows := by decide
            rw [htook.limits, htook.rows, hchunk]
            omega
          simp only [head?_nil, h.keys e htable start hsnd]
          obtain ⟨page'', next, sent', rest', hfill, hsplit', hfills⟩ | ⟨hhalt, e', he', hbad⟩ :=
            ih (some e.1) htook.room hnext
          · obtain ⟨rows, hrows, htook'⟩ := hfills.took
            rw [honward] at hsplit'
            refine .inl ⟨page'', next, left.take sent.length ++ sent', rest', hfill, ?_,
              ⟨sent ++ rows, ?_, htook.trans htook'⟩, hfills.cursor, hfills.progress⟩
            · rw [append_assoc, ← hsplit']
              exact hdrop
            · rw [map_append, hsent, hrows, map_append]
          · rw [honward] at he'
            exact .inr ⟨hhalt, e', mem_of_mem_drop he', hbad⟩

/-- **One page** of a table, from a key on, unless there is a row that cannot be read. -/
theorem fillPage_fills {read : Option Key → Nat → Except Halt (List T)} {table : Table T}
    (h : Reads ser keyOf read table) (after : Option Key) (limits : PageLimits) :
    (∃ page next sent nextKey, ∃ rows : List T,
        fillPage ser keyOf read after limits = .ok (page, next) ∧
        IsPage Prod.fst table after sent nextKey ∧ sent.map Prod.snd = rows.map .ok ∧
        page.buf = rows.flatMap ser.line ∧ next.map Cursor.text = nextKey.map cursorText) ∨
      ((∃ halt, fillPage ser keyOf read after limits = .error halt) ∧
        Unreadable (onward Prod.fst after table)) := by
  have hroom : (Page.new limits).rows ≤ (Page.new limits).limits.maxRows := Nat.zero_le _
  have hfuel : (Page.new limits).limits.maxRows < limits.maxRows + 1 + (Page.new limits).rows :=
    Nat.lt_succ_self _
  obtain ⟨page, next, sent, rest, hfill, hsplit, hfills⟩ | hbad :=
    fillFrom_fills h after hroom hfuel
  · obtain ⟨rows, hrows, htook⟩ := hfills.took
    refine .inl ⟨page, next, sent, rest.head?.map Prod.fst, rows, hfill, ?_, hrows, htook.buf,
      hfills.cursor⟩
    refine ⟨rest, hsplit, rfl, fun hnil => hfills.progress ?_⟩
    rw [hnil, map_nil, eq_comm, map_eq_nil_iff] at hrows
    rw [htook.rows, hrows]
    rfl
  · exact .inr hbad

end M6.Monitor
