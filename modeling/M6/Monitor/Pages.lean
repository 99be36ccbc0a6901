import M6.Monitor.Ndjson
import M6.Lib.Looping

/-!
# Pages of rows

`Page::push` of `ndjson.rs` as it is written: a row goes into the buffer before it is measured, and
is cut off again where it is refused or does not fit. `written_unchanged` says that nothing of such
a row stays. A service pushes its rows one after the other, and starts the next page at the row
that was answered `Full` (`building`). `pages_complete` says what comes of that: the rows are dealt
out to pages in order, each page with the rows that it may hold.
-/

namespace M6.Monitor

open List Looping

/-! ## The code -/

/-- What the serialiser makes of a row: the bytes that it writes, and whether it fails then. -/
structure Written where
  json : Bytes
  failed : Bool

/-- Why a row is refused. -/
inductive PushError where
  /-- `InvalidData`: the serialiser fails -/
  | serialize
  /-- `InvalidInput`: "a JSON Lines row must be an object" -/
  | notObject
  /-- `InvalidData`: "a row is larger than the maximum page" -/
  | tooLarge
  deriving DecidableEq

def Page.truncate (page : Page) (start : Nat) : Page := { page with buf := page.buf.take start }

/-- `Page::push` -/
def Page.pushWritten (page : Page) (row : Written) : Page × Except PushError Pushed :=
  if page.limits.maxRows ≤ page.rows then (page, .ok .full)
  else
    let start := page.buf.length
    let page := { page with buf := page.buf ++ row.json }
    if row.failed then (page.truncate start, .error .serialize)
    else if page.buf[start]? ≠ some 123 then (page.truncate start, .error .notObject)
    else
      let page := { page with buf := page.buf ++ [10] }
      if page.rows = 0 then
        if maxPageBytes < page.buf.length - start then (page.truncate start, .error .tooLarge)
        else ({ page with rows := page.rows + 1 }, .ok .added)
      else if page.limits.maxBytes < page.buf.length then (page.truncate start, .ok .full)
      else ({ page with rows := page.rows + 1 }, .ok .added)

structure Building where
  done : List Page
  page : Page
  rows : List Written

/-- A push that answers `Added` goes on with the next row, one that answers `Full` with a new page
and the same row. -/
def buildTurn (limits : PageLimits) : Building → Except PushError (Building ⊕ List Page)
  | ⟨done, page, []⟩ => .ok (.inr (done ++ [page]))
  | ⟨done, page, row :: rows⟩ =>
    match page.pushWritten row with
    | (_, .error e) => .error e
    | (page, .ok .added) => .ok (.inl ⟨done, page, rows⟩)
    | (page, .ok .full) => .ok (.inl ⟨done ++ [page], .new limits, row :: rows⟩)

/-! ## One push -/

def Written.line (row : Written) : Bytes := row.json ++ [10]

def linesOf (rows : List Written) : Bytes := rows.flatMap Written.line

theorem truncate_append (page : Page) (tail : Bytes) :
    ({ page with buf := page.buf ++ tail } : Page).truncate page.buf.length = page := by
  rw [Page.truncate, take_left]

theorem getElem?_append_start (buf json : Bytes) : (buf ++ json)[buf.length]? = json.head? := by
  rw [getElem?_append_right (Nat.le_refl _), Nat.sub_self, head?_eq_getElem?]

/-- **What a push does**, once nothing is left of what was cut off. -/
theorem pushWritten_eq (page : Page) (row : Written) : page.pushWritten row =
      if page.limits.maxRows ≤ page.rows then (page, .ok .full)
      else if row.failed then (page, .error .serialize)
      else if row.json.head? ≠ some 123 then (page, .error .notObject)
      else
        let added : Page := { page with buf := page.buf ++ row.line, rows := page.rows + 1 }
        if page.rows = 0 then
          if maxPageBytes < row.line.length then (page, .error .tooLarge) else (added, .ok .added)
        else if page.limits.maxBytes < page.buf.length + row.line.length then (page, .ok .full)
        else (added, .ok .added) := by
  have hline : page.buf ++ row.json ++ [10] = page.buf ++ row.line := append_assoc ..
  rw [Page.pushWritten]
  simp only [truncate_append, getElem?_append_start, hline, length_append, Nat.add_sub_cancel_left]

/-- The push of `Ndjson`, which keeps nothing of a row that is refused, is this one. -/
theorem push_eq_pushWritten (page : Page) (json : Bytes) :
    page.push json = match page.pushWritten ⟨json, false⟩ with
      | (page, .ok pushed) => .ok (page, pushed)
      | (_, .error _) => .error .build := by
  rw [pushWritten_eq, Page.push]
  simp only [Written.line, append_assoc, length_append, Nat.add_sub_cancel_left,
    Bool.false_eq_true, if_false]
  split_ifs <;> rfl

/-- **A push that does not add the row leaves the page as it was.** -/
theorem written_unchanged {page page' : Page} {row : Written} {r : Except PushError Pushed}
    (h : page.pushWritten row = (page', r)) (hr : r ≠ .ok .added) : page' = page := by
  rw [pushWritten_eq] at h
  dsimp only at h
  split_ifs at h <;> cases h
  all_goals first | rfl | exact absurd rfl hr

theorem full_rows {page page' : Page} {row : Written}
    (h : page.pushWritten row = (page', .ok .full)) : page' = page ∧ page.rows ≠ 0 := by
  have hrows := page.limits.rows_pos
  refine ⟨written_unchanged h (fun hadded => by cases hadded), fun hzero => ?_⟩
  rw [pushWritten_eq, if_neg (by omega)] at h
  dsimp only at h
  rw [if_pos hzero] at h
  split_ifs at h <;> cases h

/-! ## Pages out of rows -/

def building (limits : PageLimits) : Loop PushError Building (List Page) where
  turn := buildTurn limits
  left s := 2 * s.rows.length + if s.page.rows = 0 then 0 else 1
  shrinks := by
    rintro ⟨done, page, rows⟩ s h
    cases rows with
    | nil => cases h
    | cons row rows =>
      rw [buildTurn] at h
      cases hpush : page.pushWritten row with
      | mk page' r =>
        rw [hpush] at h
        cases r with
        | error e => cases h
        | ok pushed =>
          cases pushed with
          | added =>
            obtain rfl := Sum.inl.inj (Except.ok.inj h)
            simp only [List.length_cons]
            split_ifs <;> omega
          | full =>
            obtain rfl := Sum.inl.inj (Except.ok.inj h)
            have hfull := (full_rows hpush).2
            simp only [Page.new, if_true, if_neg hfull]
            omega

def pagesOf (limits : PageLimits) (rows : List Written) : Except PushError (List Page) :=
  (building limits).run ⟨[], .new limits, rows⟩

/-- **A row that a page can hold**: it serialises to an object, and its line is no longer than the
largest page. -/
structure HeldRow extends Written where
  serialises : failed = false
  object : json.head? = some 123
  fits : toWritten.line.length ≤ maxPageBytes

def HeldRow.lines (rows : List HeldRow) : Bytes := linesOf (rows.map HeldRow.toWritten)

theorem HeldRow.lines_append (a b : List HeldRow) :
    HeldRow.lines (a ++ b) = HeldRow.lines a ++ HeldRow.lines b := by
  rw [HeldRow.lines, map_append, linesOf, flatMap_append]
  rfl

theorem HeldRow.lines_singleton (r : HeldRow) : HeldRow.lines [r] = r.toWritten.line :=
  append_nil _

def pageOf (limits : PageLimits) (rows : List HeldRow) : Page :=
  ⟨HeldRow.lines rows, rows.length, limits⟩

/-- **Rows that one page may hold**: no more than the page should hold, except for the first. -/
structure PageHolds (limits : PageLimits) (rows : List HeldRow) : Prop where
  rows_le : rows.length ≤ limits.maxRows
  bytes_le : (HeldRow.lines rows).length ≤ max limits.maxBytes (HeldRow.lines (rows.take 1)).length

variable {limits : PageLimits}

theorem PageHolds.nil : PageHolds limits [] := ⟨Nat.zero_le _, Nat.zero_le _⟩

theorem PageHolds.concat {rows : List HeldRow} {r : HeldRow} (hrows : rows.length < limits.maxRows)
    (hbytes : rows = [] ∨ (HeldRow.lines (rows ++ [r])).length ≤ limits.maxBytes) :
    PageHolds limits (rows ++ [r]) where
  rows_le := by
    rw [length_append, length_singleton]
    omega
  bytes_le := by
    rcases hbytes with rfl | hbytes
    · exact Nat.le_max_right _ _
    · exact hbytes.trans (Nat.le_max_left _ _)

/-- A push of such a row adds it where it may be held, and answers `Full` where it may not. -/
theorem pushWritten_row (rows : List HeldRow) (r : HeldRow) :
    (pageOf limits rows).pushWritten r.toWritten = (pageOf limits rows, .ok .full) ∧ rows ≠ [] ∨
      (pageOf limits rows).pushWritten r.toWritten = (pageOf limits (rows ++ [r]), .ok .added) ∧
        PageHolds limits (rows ++ [r]) := by
  have hpos := limits.rows_pos
  have hadded : pageOf limits (rows ++ [r]) =
      ⟨HeldRow.lines rows ++ r.toWritten.line, rows.length + 1, limits⟩ := by
    rw [pageOf, HeldRow.lines_append, HeldRow.lines_singleton, length_append, length_singleton]
  have hbytes : (HeldRow.lines (rows ++ [r])).length =
      (HeldRow.lines rows).length + r.toWritten.line.length := by
    rw [HeldRow.lines_append, HeldRow.lines_singleton, length_append]
  have hpush : (pageOf limits rows).pushWritten r.toWritten =
      if limits.maxRows ≤ rows.length then (pageOf limits rows, .ok .full)
      else if rows.length = 0 then (pageOf limits (rows ++ [r]), .ok .added)
      else if limits.maxBytes < (HeldRow.lines rows).length + r.toWritten.line.length then
        (pageOf limits rows, .ok .full)
      else (pageOf limits (rows ++ [r]), .ok .added) := by
    rw [pushWritten_eq, hadded, r.serialises, r.object, if_neg Bool.false_ne_true,
      if_neg (not_not.mpr rfl)]
    dsimp only
    rw [if_neg (Nat.not_lt.mpr r.fits)]
    rfl
  rw [hpush]
  by_cases hmany : limits.maxRows ≤ rows.length
  · have hne : rows ≠ [] := ne_nil_of_length_pos (by omega)
    exact .inl ⟨if_pos hmany, hne⟩
  rw [if_neg hmany]
  have hless := Nat.lt_of_not_le hmany
  by_cases hempty : rows = []
  · rw [if_pos (length_eq_zero_iff.mpr hempty)]
    exact .inr ⟨rfl, .concat hless (.inl hempty)⟩
  rw [if_neg (mt length_eq_zero_iff.mp hempty)]
  by_cases hlong : limits.maxBytes < (HeldRow.lines rows).length + r.toWritten.line.length
  · exact .inl ⟨if_pos hlong, hempty⟩
  · rw [if_neg hlong]
    exact .inr ⟨rfl, .concat hless (.inr (hbytes ▸ Nat.le_of_not_lt hlong))⟩

/-- How far a service is: the rows are dealt out in order, to pages that may hold them. -/
structure Dealt (limits : PageLimits) (rows : List HeldRow) (s : Building)
    (groups : List (List HeldRow)) (current left : List HeldRow) : Prop where
  state : s = ⟨groups.map (pageOf limits), pageOf limits current, left.map HeldRow.toWritten⟩
  all : groups.flatten ++ current ++ left = rows
  full : ∀ g ∈ groups, PageHolds limits g ∧ g ≠ []
  page : PageHolds limits current
  started : current = [] → left = [] → rows = []

theorem Dealt.start (rows : List HeldRow) :
    Dealt limits rows ⟨[], .new limits, rows.map HeldRow.toWritten⟩ [] [] rows :=
  ⟨rfl, rfl, forall_mem_nil _, .nil, fun _ h => h⟩

/-- **What a turn keeps**: the rows are dealt out, and no row is refused. -/
theorem Dealt.turn {rows : List HeldRow} {s : Building} {groups : List (List HeldRow)}
    {current left : List HeldRow} (h : Dealt limits rows s groups current left) :
    (left = [] ∧ buildTurn limits s = .ok (.inr ((groups ++ [current]).map (pageOf limits)))) ∨
      ∃ s' groups' current' left', buildTurn limits s = .ok (.inl s') ∧
        Dealt limits rows s' groups' current' left' := by
  obtain ⟨rfl, hall, hfull, hpage, hstarted⟩ := h
  cases left with
  | nil =>
    refine .inl ⟨rfl, ?_⟩
    rw [map_append]
    rfl
  | cons r left =>
    right
    rcases @pushWritten_row limits current r with ⟨hpush, hne⟩ | ⟨hpush, hheld⟩
    · refine ⟨_, groups ++ [current], [], r :: left, by
        rw [map_cons, buildTurn, hpush], ?_, ?_, ?_, .nil, fun _ hnil => by cases hnil⟩
      · rw [map_append]
        rfl
      · rw [flatten_append, flatten_singleton, append_nil, hall]
      · intro g hg
        rcases mem_append.mp hg with hg | hg
        · exact hfull g hg
        · obtain rfl := mem_singleton.mp hg
          exact ⟨hpage, hne⟩
    · refine ⟨_, groups, current ++ [r], left, by rw [map_cons, buildTurn, hpush], rfl, ?_,
        hfull, hheld, fun hnil => absurd hnil (append_ne_nil_of_right_ne_nil _
          (cons_ne_nil _ _))⟩
      rw [← hall]
      simp only [append_assoc, singleton_append]

/-- **What comes of a list of rows.** -/
structure Paged (limits : PageLimits) (rows : List HeldRow) (pages : List Page) : Prop where
  bodies : pages.flatMap Page.buf = HeldRow.lines rows
  /-- each page holds rows that it may hold, and one at least unless there are none at all -/
  dealt : ∃ groups : List (List HeldRow), pages = groups.map (pageOf limits) ∧
    groups.flatten = rows ∧ ∀ g ∈ groups, PageHolds limits g ∧ (rows ≠ [] → g ≠ [])

theorem bodies_pageOf (groups : List (List HeldRow)) :
    (groups.map (pageOf limits)).flatMap Page.buf = HeldRow.lines groups.flatten := by
  induction groups with
  | nil => rfl
  | cons g groups ih =>
    rw [map_cons, flatMap_cons, ih, flatten_cons, HeldRow.lines_append]
    rfl

/-- **Paging is complete and bounded**, and a push that does not add its row changes nothing. -/
theorem pages_complete (limits : PageLimits) :
    (∀ rows : List HeldRow, ∃ pages, pagesOf limits (rows.map HeldRow.toWritten) = .ok pages ∧
      Paged limits rows pages) ∧
    ∀ (page page' : Page) (row : Written) (r : Except PushError Pushed),
      page.pushWritten row = (page', r) → r ≠ .ok .added → page' = page := by
  refine ⟨fun rows => ?_, fun page page' row r => written_unchanged⟩
  have hkeeps : ∀ s s', (∃ groups current left, Dealt limits rows s groups current left) →
      (building limits).turn s = .ok (.inl s') →
        ∃ groups current left, Dealt limits rows s' groups current left := by
    rintro s s' ⟨groups, current, left, hdealt⟩ hturn
    rcases hdealt.turn with ⟨-, hanswer⟩ | ⟨s'', groups', current', left', hnext, hdealt'⟩
    · exact absurd (hturn.symm.trans hanswer) (fun h => by cases Except.ok.inj h)
    · cases hnext.symm.trans hturn
      exact ⟨groups', current', left', hdealt'⟩
  obtain ⟨s, hreach, hlast⟩ :=
    (building limits).exists_last ⟨[], .new limits, rows.map HeldRow.toWritten⟩
  obtain ⟨groups, current, left, hdealt⟩ := hreach.keeps hkeeps ⟨[], [], rows, Dealt.start rows⟩
  rcases hdealt.turn with ⟨rfl, hanswer⟩ | ⟨s', groups', current', left', hnext, -⟩
  · refine ⟨_, hreach.run_eq.trans (Loop.run_of_answer hanswer), ?_, groups ++ [current], rfl, ?_,
      ?_⟩
    · rw [bodies_pageOf, flatten_append, flatten_singleton, ← append_nil (_ ++ _), hdealt.all]
    · rw [flatten_append, flatten_singleton, ← append_nil (_ ++ _), hdealt.all]
    · intro g hg
      rcases mem_append.mp hg with hg | hg
      · exact ⟨(hdealt.full g hg).1, fun _ => (hdealt.full g hg).2⟩
      · obtain rfl := mem_singleton.mp hg
        exact ⟨hdealt.page, fun hne hnil => hne (hdealt.started hnil rfl)⟩
  · -- a state where a turn goes on is not the last
    rcases hlast with ⟨e, herror⟩ | ⟨pages, hanswer⟩
    · exact absurd (herror.symm.trans hnext) (fun h => by cases h)
    · exact absurd (hanswer.symm.trans hnext) (fun h => by cases Except.ok.inj h)

/-- `{"a":…}`, with one byte. -/
def objectRow (digit : UInt8) : HeldRow where
  json := [123, 34, 97, 34, 58, digit, 125]
  failed := false
  serialises := rfl
  object := rfl
  fits := Nat.le_of_ble_eq_true rfl

def twoLines : PageLimits := .new 16 9

theorem pages_complete_objects :
    pagesOf twoLines ([objectRow 49, objectRow 50, objectRow 51].map HeldRow.toWritten) =
        .ok [pageOf twoLines [objectRow 49, objectRow 50], pageOf twoLines [objectRow 51]] ∧
      Paged twoLines [objectRow 49, objectRow 50, objectRow 51]
        [pageOf twoLines [objectRow 49, objectRow 50], pageOf twoLines [objectRow 51]] := by
  obtain ⟨pages, hpages, hpaged⟩ :=
    (pages_complete twoLines).1 [objectRow 49, objectRow 50, objectRow 51]
  -- two rows are added, the third is answered `Full` and begins a page
  have hrun : pagesOf twoLines ([objectRow 49, objectRow 50, objectRow 51].map HeldRow.toWritten) =
      .ok [pageOf twoLines [objectRow 49, objectRow 50], pageOf twoLines [objectRow 51]] :=
    (Loop.run_of_next rfl).trans ((Loop.run_of_next rfl).trans ((Loop.run_of_next rfl).trans
      ((Loop.run_of_next rfl).trans (Loop.run_of_answer rfl))))
  cases hpages.symm.trans hrun
  exact ⟨hrun, hpaged⟩

theorem pagesOf_tooLarge (limits : PageLimits) {row : Written} (hserialises : row.failed = false)
    (hhead : row.json.head? = some 123) (hline : maxPageBytes < row.line.length) :
    pagesOf limits [row] = .error .tooLarge := by
  have hrows : ¬ (Page.new limits).limits.maxRows ≤ (Page.new limits).rows :=
    Nat.not_le.mpr limits.rows_pos
  have hpush : (Page.new limits).pushWritten row = (Page.new limits, .error .tooLarge) := by
    rw [pushWritten_eq, if_neg hrows, hserialises, if_neg Bool.false_ne_true,
      if_neg (not_not.mpr hhead)]
    have hzero : (Page.new limits).rows = 0 := rfl
    dsimp only
    rw [if_pos hzero, if_pos hline]
  have hturn : (building limits).turn ⟨[], .new limits, [row]⟩ = .error .tooLarge := by
    rw [building]
    dsimp only
    rw [buildTurn, hpush]
  exact Loop.run_of_error hturn

def largestObject : Written where
  json := [0x7b, 0x22, 0x61, 0x22, 0x3a, 0x22] ++ List.replicate (maxPageBytes - 8) 0x78 ++
    [0x22, 0x7d]
  failed := false

theorem length_largestObject : largestObject.json.length = maxPageBytes := by
  have hsmall : 8 ≤ maxPageBytes := by decide
  rw [largestObject, length_append, length_append, length_replicate]
  simp only [length_cons, length_nil]
  omega

theorem largestObject_refused :
    largestObject.json.length ≤ maxPageBytes ∧ largestObject.json.head? = some 123 ∧
      pagesOf .default [largestObject] = .error .tooLarge ∧
      -- no row at all is a page without rows
      pagesOf .default [] = .ok [.new .default] := by
  have hhead : largestObject.json.head? = some 123 := by
    rw [largestObject, append_assoc, cons_append]
    exact head?_cons
  have hline : maxPageBytes < largestObject.line.length := by
    rw [Written.line, length_append, length_largestObject]
    exact Nat.lt_succ_self _
  exact ⟨Nat.le_of_eq length_largestObject, hhead, pagesOf_tooLarge _ rfl hhead hline,
    Loop.run_of_answer rfl⟩

end M6.Monitor
