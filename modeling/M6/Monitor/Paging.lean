import M6.Lib.Runs
import M6.Monitor.History

/-!
# Following the cursors

A reader asks for a page, and with the cursor that comes with it for the next one, until a page has
none. Each page is of the database as it is then, and polls are written and pruned in between.

`exhausts_iff` is about a database that stays as it is: the reader comes to the end of it, with
every row in order, if and only if every row can be read. `complete_of_readable` is about databases
that
change: no row comes twice, and what was there throughout has come. `paging_complete` says both of
`/history` and `/crawlers`, and what rows can be read there.
-/

namespace M6.Monitor

open List Option

open App (I64)
open Paging Select Runs

/-- What is read in pages: a page, and what a page is a piece of. -/
structure Feed (T : Type) where
  page : Tables → Query → Option Key → Nat → Except Halt (List T)
  key : T → Key
  table : Tables → Query → Table T

/-- `/history` -/
def history : Feed PageRow := ⟨healthPage, PageRow.key, healthTable⟩

/-- `/crawlers` -/
def crawlers (parseStrings : Str → Option (List Str)) : Feed CrawlOut :=
  ⟨crawlPage parseStrings, CrawlOut.key, crawlTable parseStrings⟩

/-! ## The reader -/

structure Reader where
  cursor : Option Cursor
  finished : Bool
  halted : Option Halt
  body : Bytes
  /-- what the pages were read from -/
  databases : List Database

def Reader.start : Reader := ⟨none, false, none, [], []⟩

/-- Where the next page is asked to begin. -/
def Reader.after (r : Reader) : Except Halt (Option Key) :=
  match r.cursor with
  | none => .ok none
  | some c =>
    match parseCursor c.text with
    | some k => .ok (some k)
    | none => .error .cursor

variable {T : Type} (feed : Feed T) (ser : Serialize T) (q : Query) (limits : PageLimits)

def Reader.ask (r : Reader) (db : Database) : Except Halt (Page × Option Cursor) := do
  let after ← r.after
  fillPage ser feed.key (feed.page db.toTables q) after limits

/-- One page. There is none after the last one, nor when a page could not be had. -/
def Reader.step (r : Reader) (db : Database) : Option Reader :=
  if r.finished || r.halted.isSome then none
  else
    match r.ask feed ser q limits db with
    | .ok (page, next) =>
      some ⟨next, next.isNone, none, r.body ++ page.buf, r.databases ++ [db]⟩
    | .error halt => some { r with halted := some halt, databases := r.databases ++ [db] }

/-! ## What a reader is to get -/

def Writable (db : Database) : Prop :=
  ∀ e ∈ feed.table db.toTables q, ∀ row, e.2 = .ok row → Fits ser row

/-- **All of a database that stays as it is**: the reader comes to an end, with every row in
order. -/
def Exhausts (db : Database) : Prop :=
  ∃ n r, (List.replicate n db).foldlM (Reader.step feed ser q limits) .start = some r ∧
    r.finished = true ∧ ∃ rows : List T, (feed.table db.toTables q).map Prod.snd = rows.map .ok ∧
      r.body = rows.flatMap ser.line

/-- **All of databases that change**: nothing has failed, each row that came is a row of one of them
with what is its own there, none came twice, and at the end each row has come that was in all. -/
def Complete (r : Reader) : Prop :=
  r.halted = none ∧ ∃ (sent : Table T) (rows : List T), sent.map Prod.snd = rows.map .ok ∧
    r.body = rows.flatMap ser.line ∧ Ordered Prod.fst sent ∧
    (∀ e ∈ sent, ∃ db ∈ r.databases, e ∈ feed.table db.toTables q) ∧
    (r.finished = true → ∀ k, (∀ db ∈ r.databases, ∃ e ∈ feed.table db.toTables q, e.1 = k) →
      ∃ e ∈ sent, e.1 = k)

/-! ## A feed that reads -/

def Feed.Reads : Prop :=
  ∀ db : Database, Writable feed ser q db →
    Monitor.Reads ser feed.key (feed.page db.toTables q) (feed.table db.toTables q)

def Reader.Readable (r : Reader) (db : Database) : Prop :=
  ∀ after, r.after = .ok after → ¬ Unreadable (onward Prod.fst after (feed.table db.toTables q))

def Reader.IsAt (r : Reader) (p : Position Key) : Prop :=
  (r.finished = true ∧ p = .finished) ∨
    (r.finished = false ∧ p ≠ .finished ∧ r.after = .ok p.after)

variable {feed ser q limits}

theorem Reader.start_isAt : Reader.start.IsAt .start := .inr ⟨rfl, (nomatch ·), rfl⟩

theorem isAt_of_next {r : Reader} {next : Option Cursor} {nextKey : Option Key}
    (hcursor : r.cursor = next) (hfinished : r.finished = next.isNone)
    (htext : next.map Cursor.text = nextKey.map cursorText)
    (hnonneg : ∀ k ∈ nextKey, 0 ≤ (ofLex k).1.1 ∧ 0 ≤ (ofLex k).2.1) :
    r.IsAt (.ofNext nextKey) := by
  cases next with
  | none =>
    cases nextKey with
    | none => exact .inl ⟨hfinished, rfl⟩
    | some k => exact nomatch htext
  | some c =>
    cases nextKey with
    | none => exact nomatch htext
    | some k =>
      obtain ⟨hat, hid⟩ := hnonneg k rfl
      have hc : c.text = cursorText k := some.inj htext
      refine .inr ⟨hfinished, (nomatch ·), ?_⟩
      rw [Reader.after, hcursor]
      simp only [hc, parseCursor_cursorText hat hid]
      rfl

variable {db : Database} {p : Position Key} {r r' : Reader}

/-- **One page**, unless a row is left that cannot be read. -/
theorem step_cases (hreads : feed.Reads ser q) (hdb : Writable feed ser q db) (hp : r.IsAt p)
    (hstep : r.step feed ser q limits db = some r') :
    (∃ sent nextKey, ∃ rows : List T, p ≠ .finished ∧
        IsPage Prod.fst (feed.table db.toTables q) p.after sent nextKey ∧
        sent.map Prod.snd = rows.map .ok ∧ r'.body = r.body ++ rows.flatMap ser.line ∧
        r'.IsAt (.ofNext nextKey) ∧ r'.halted = none) ∨ (r'.halted ≠ none ∧ r'.finished = false ∧
        Unreadable (onward Prod.fst p.after (feed.table db.toTables q))) := by
  rw [Reader.step] at hstep
  split_ifs at hstep with hover
  rw [Bool.or_eq_true, not_or, Bool.not_eq_true] at hover
  obtain ⟨hfin, -⟩ | ⟨-, hne, hafter⟩ := hp
  · rw [hover.1] at hfin
    exact absurd hfin Bool.false_ne_true
  have hr := hreads db hdb
  have hask : r.ask feed ser q limits db =
      fillPage ser feed.key (feed.page db.toTables q) p.after limits := by
    rw [Reader.ask, hafter]
    rfl
  rw [hask] at hstep
  obtain ⟨page, next, sent, nextKey, rows, hfill, hpage, hrows, hbuf, htext⟩ |
    ⟨⟨halt, hhalt⟩, hbad⟩ := fillPage_fills hr p.after limits
  · simp only [hfill] at hstep
    cases hstep
    refine .inl ⟨sent, nextKey, rows, hne, hpage, hrows, by rw [hbuf], ?_, rfl⟩
    refine isAt_of_next rfl rfl htext fun k hk => ?_
    obtain ⟨rest, hsplit, hnext, _⟩ := hpage
    rw [hnext] at hk
    obtain ⟨e, he, rfl⟩ := map_eq_some_iff.mp hk
    have hmem : e ∈ onward Prod.fst p.after (feed.table db.toTables q) := by
      rw [hsplit]
      exact mem_append_right _ (mem_of_head? he)
    exact hr.nonneg e (mem_filter.mp hmem).1
  · simp only [hhalt] at hstep
    cases hstep
    exact .inr ⟨some_ne_none _, hover.1, hbad⟩

/-! ## A database that stays as it is -/

/-- What has come, and what is left. -/
structure Halfway (feed : Feed T) (ser : Serialize T) (q : Query) (db : Database) (r : Reader)
    (p : Position Key) (sent : Table T) (rows : List T) : Prop where
  place : r.IsAt p
  split : p ≠ .finished → sent ++ onward Prod.fst p.after (feed.table db.toTables q) =
    feed.table db.toTables q
  all : p = .finished → sent = feed.table db.toTables q
  came : sent.map Prod.snd = rows.map .ok
  body : r.body = rows.flatMap ser.line
  running : r.halted = none

theorem Halfway.page {sent page : Table T} {rows more : List T} {nextKey : Option Key}
    (hrows : Ordered Prod.fst (feed.table db.toTables q)) (h : Halfway feed ser q db r p sent rows)
    (hp : p ≠ .finished) (hpage : IsPage Prod.fst (feed.table db.toTables q) p.after page nextKey)
    (hmore : page.map Prod.snd = more.map .ok) (hbody : r'.body = r.body ++ more.flatMap ser.line)
    (hplace : r'.IsAt (.ofNext nextKey)) (hrunning : r'.halted = none) :
    Halfway feed ser q db r' (.ofNext nextKey) (sent ++ page) (rows ++ more) := by
  obtain ⟨hsome, hnone⟩ := hpage.rest hrows (h.split hp)
  refine ⟨hplace, ?_, ?_, ?_, ?_, hrunning⟩
  · intro hne
    cases nextKey with
    | none => exact absurd rfl hne
    | some k => exact hsome k rfl
  · intro heq
    cases nextKey with
    | none => exact hnone rfl
    | some k => exact nomatch heq
  · rw [map_append, h.came, hmore, map_append]
  · rw [hbody, h.body, flatMap_append]

theorem not_finished_of_isAt {r : Reader} (h : r.IsAt p) (hp : p ≠ .finished) :
    r.finished = false := by
  obtain ⟨_, heq⟩ | ⟨hfin, _⟩ := h
  · exact absurd heq hp
  · exact hfin

theorem exists_step {r : Reader} (hfinished : r.finished = false) (hhalted : r.halted = none)
    (db : Database) : ∃ r', r.step feed ser q limits db = some r' := by
  rw [Reader.step, hfinished, hhalted]
  cases hask : r.ask feed ser q limits db with
  | error halt | ok page => exact ⟨_, rfl⟩

theorem Halfway.finish (hreads : feed.Reads ser q) (hdb : Writable feed ser q db)
    (hall : ¬ Unreadable (feed.table db.toTables q)) {r : Reader}
    {sent : Table T} {rows : List T} (h : Halfway feed ser q db r p sent rows)
    (hp : p ≠ .finished) :
    ∃ n r' sent' rows', (List.replicate n db).foldlM (Reader.step feed ser q limits) r = some r' ∧
      Halfway feed ser q db r' .finished sent' rows' := by
  have hrows : Ordered Prod.fst (feed.table db.toTables q) := (hreads db hdb).ordered
  induction hlen : (onward Prod.fst p.after (feed.table db.toTables q)).length
    using Nat.strong_induction_on generalizing r p sent rows with
  | _ m ih =>
    have hnext : ∃ r', r.step feed ser q limits db = some r' :=
      exists_step (not_finished_of_isAt h.place hp) h.running db
    obtain ⟨r', hstep⟩ := hnext
    obtain ⟨page, nextKey, more, _, hpage, hmore, hbody, hplace, hrunning⟩ | ⟨_, _, hbad⟩ :=
      step_cases hreads hdb h.place hstep
    · have h' := h.page hrows hp hpage hmore hbody hplace hrunning
      cases nextKey with
      | none =>
        refine ⟨1, r', _, _, ?_, h'⟩
        rw [replicate_one, foldlM_cons, hstep]
        rfl
      | some k =>
        have hshorter := hpage.shorter hrows
        rw [hlen] at hshorter
        obtain ⟨n, r'', sent', rows', hrun, hend⟩ := ih _ hshorter h' (nomatch ·) rfl
        refine ⟨n + 1, r'', sent', rows', ?_, hend⟩
        rw [replicate_succ, foldlM_cons, hstep]
        exact hrun
    · obtain ⟨e, he, hhalt⟩ := hbad
      exact absurd ⟨e, (mem_filter.mp he).1, hhalt⟩ hall

theorem run_halfway (hreads : feed.Reads ser q) (hdb : Writable feed ser q db) {n : Nat}
    (h : (∃ p sent rows, Halfway feed ser q db r p sent rows) ∨
      (r.halted ≠ none ∧ r.finished = false))
    (hrun : (List.replicate n db).foldlM (Reader.step feed ser q limits) r = some r') :
    (∃ p sent rows, Halfway feed ser q db r' p sent rows) ∨
      (r'.halted ≠ none ∧ r'.finished = false) := by
  induction n generalizing r with
  | zero =>
    cases hrun
    exact h
  | succ n ih =>
    rw [replicate_succ, foldlM_cons] at hrun
    obtain ⟨r₁, hstep, hrest⟩ := bind_eq_some_iff.mp hrun
    refine ih ?_ hrest
    obtain ⟨p, sent, rows, hhalf⟩ | ⟨hhalted, _⟩ := h
    · obtain ⟨page, nextKey, more, hp, hpage, hmore, hbody, hplace, hrunning⟩ |
        ⟨hhalted, hfinished, _⟩ := step_cases hreads hdb hhalf.place hstep
      · exact .inl ⟨_, _, _, hhalf.page (hreads db hdb).ordered hp hpage hmore hbody hplace
          hrunning⟩
      · exact .inr ⟨hhalted, hfinished⟩
    · -- there is no page after a halt
      rw [Reader.step, if_pos] at hstep
      · exact nomatch hstep
      · simp [isSome_iff_ne_none.mpr hhalted]

theorem halfway_start (feed : Feed T) (ser : Serialize T) (q : Query) (db : Database) :
    Halfway feed ser q db .start .start [] [] where
  place := Reader.start_isAt
  split := fun _ => by simp [Position.after]
  all := fun h => nomatch h
  came := rfl
  body := rfl
  running := rfl

/-- **The end of a database is reached**, with all that is in it, if and only if every row can be
read. -/
theorem exhausts_iff (hreads : feed.Reads ser q) (hdb : Writable feed ser q db) :
    Exhausts feed ser q limits db ↔ ¬ Unreadable (feed.table db.toTables q) := by
  constructor
  · rintro ⟨n, r, hrun, hfinished, -⟩ ⟨e, he, halt, hhalt⟩
    obtain ⟨p, sent, rows, hhalf⟩ | ⟨_, hnot⟩ :=
      run_halfway hreads hdb (.inl ⟨_, _, _, halfway_start feed ser q db⟩) hrun
    · -- what came has been read, and it is all
      have hp : p = .finished := by
        obtain ⟨_, hp⟩ | ⟨hnot, _⟩ := hhalf.place
        · exact hp
        · rw [hnot] at hfinished
          exact absurd hfinished Bool.false_ne_true
      have hmem : e.2 ∈ sent.map Prod.snd := mem_map_of_mem (hhalf.all hp ▸ he)
      rw [hhalf.came] at hmem
      obtain ⟨row, _, hrow⟩ := mem_map.mp hmem
      exact nomatch hrow.trans hhalt
    · rw [hnot] at hfinished
      exact absurd hfinished Bool.false_ne_true
  · intro hall
    have hends : ∃ n r sent rows,
        (List.replicate n db).foldlM (Reader.step feed ser q limits) .start = some r ∧
          Halfway feed ser q db r .finished sent rows :=
      (halfway_start feed ser q db).finish hreads hdb hall (nomatch ·)
    obtain ⟨n, r, sent, rows, hrun, hend⟩ := hends
    refine ⟨n, r, hrun, ?_, rows, hend.all rfl ▸ hend.came, hend.body⟩
    obtain ⟨hfin, _⟩ | ⟨_, hne, _⟩ := hend.place
    · exact hfin
    · exact absurd rfl hne

/-! ## Databases that change -/

/-- What has come of all that there was. -/
structure Gathered (feed : Feed T) (ser : Serialize T) (q : Query) (r : Reader) (p : Position Key)
    (sent : Table T) (rows : List T) : Prop where
  place : r.IsAt p
  covers : Covers Prod.fst (r.databases.map fun db => feed.table db.toTables q) sent p
  came : sent.map Prod.snd = rows.map .ok
  body : r.body = rows.flatMap ser.line
  own : ∀ e ∈ sent, ∃ db ∈ r.databases, e ∈ feed.table db.toTables q
  running : r.halted = none

theorem step_databases
    (hstep : r.step feed ser q limits db = some r') : r'.databases = r.databases ++ [db] := by
  rw [Reader.step] at hstep
  split_ifs at hstep
  split at hstep
  · cases hstep
    rfl
  · cases hstep
    rfl

theorem Gathered.page (hreads : feed.Reads ser q)
    (hdb : Writable feed ser q db) (hcan : r.Readable feed q db)
    {sent : Table T} {rows : List T} (h : Gathered feed ser q r p sent rows)
    (hstep : r.step feed ser q limits db = some r') :
    ∃ p' sent' rows', Gathered feed ser q r' p' sent' rows' := by
  obtain ⟨page, nextKey, more, hp, hpage, hmore, hbody, hplace, hrunning⟩ | ⟨_, _, hbad⟩ :=
    step_cases hreads hdb h.place hstep
  · have hdatabases := step_databases hstep
    refine ⟨.ofNext nextKey, sent ++ page, rows ++ more, hplace, ?_, ?_, ?_, ?_, hrunning⟩
    · rw [hdatabases, map_append]
      exact h.covers.page hp (hreads db hdb).ordered hpage
    · rw [map_append, h.came, hmore, map_append]
    · rw [hbody, h.body, flatMap_append]
    · intro e he
      rw [hdatabases]
      obtain he | he := mem_append.mp he
      · obtain ⟨db', hdb', hmem⟩ := h.own e he
        exact ⟨db', mem_append_left _ hdb', hmem⟩
      · obtain ⟨rest, hsplit, _⟩ := hpage
        have hmem : e ∈ onward Prod.fst p.after (feed.table db.toTables q) := by
          rw [hsplit]
          exact mem_append_left _ he
        exact ⟨db, mem_append_right _ (mem_singleton_self _), (mem_filter.mp hmem).1⟩
  · -- a row that cannot be read is not among those that are left
    obtain ⟨_, heq⟩ | ⟨_, _, hafter⟩ := h.place
    · have hover : r.finished = true := by
        obtain ⟨hfin, _⟩ | ⟨_, hne, _⟩ := h.place
        · exact hfin
        · exact absurd heq hne
      rw [Reader.step, hover] at hstep
      exact nomatch hstep
    · exact absurd hbad (hcan _ hafter)

theorem Gathered.complete {r : Reader} {sent : Table T} {rows : List T}
    (h : Gathered feed ser q r p sent rows) : Complete feed ser q r := by
  refine ⟨h.running, sent, rows, h.came, h.body, h.covers.ordered, h.own, fun hfin k hk => ?_⟩
  obtain ⟨_, rfl⟩ | ⟨hnot, _⟩ := h.place
  · refine h.covers.complete k trivial fun t ht => ?_
    obtain ⟨db, hdb, rfl⟩ := mem_map.mp ht
    exact hk db hdb
  · rw [hnot] at hfin
    exact absurd hfin Bool.false_ne_true

theorem gathered_start (feed : Feed T) (ser : Serialize T) (q : Query) :
    Gathered feed ser q .start .start [] [] where
  place := Reader.start_isAt
  covers := covers_start
  came := rfl
  body := rfl
  own := fun _ h => nomatch h
  running := rfl

/-- **Databases that change** are read completely, as far as the rows that are left at each page can
be read. -/
theorem complete_of_readable (hreads : feed.Reads ser q) (dbs : List Database)
    (h : EachStep (Reader.step feed ser q limits)
      (fun r db => Writable feed ser q db ∧ r.Readable feed q db) .start dbs) :
    Throughout (Reader.step feed ser q limits) (Complete feed ser q) .start dbs := by
  have hkeeps : ∀ r db r', (∃ p sent rows, Gathered feed ser q r p sent rows) →
      Writable feed ser q db ∧ r.Readable feed q db → r.step feed ser q limits db = some r' →
      ∃ p sent rows, Gathered feed ser q r' p sent rows := by
    rintro r db r' ⟨_, _, _, hgathered⟩ ⟨hdb, hcan⟩ hstep
    exact hgathered.page hreads hdb hcan hstep
  have hcomplete : ∀ r, (∃ p sent rows, Gathered feed ser q r p sent rows) →
      Complete feed ser q r := by
    rintro r ⟨_, _, _, hgathered⟩
    exact hgathered.complete
  exact throughout_of_steps hkeeps hcomplete dbs ⟨_, _, _, gathered_start feed ser q⟩ h

/-! ## The tables of a database -/

variable {t : Tables}

theorem joinHealth_eq_some {h : Health} {j : HealthJoin}
    (hj : t.joinHealth h = some j) : j.h = h := by
  obtain ⟨node, _, hj⟩ := bind_eq_some_iff.mp hj
  obtain ⟨poll, _, hj⟩ := bind_eq_some_iff.mp hj
  cases hj
  rfl

theorem exists_join (schema : Schema t) {h : Health} (hmem : h ∈ t.health) :
    ∃ j, t.joinHealth h = some j := by
  obtain ⟨node, hnode⟩ := isSome_iff_exists.mp (schema.health_node h hmem)
  obtain ⟨poll, hpoll⟩ := isSome_iff_exists.mp (schema.health_poll h hmem)
  exact ⟨_, by rw [Tables.joinHealth, hnode, bind_eq_bind, bind_some, hpoll]; rfl⟩

theorem mem_healthJoins {q : Query} {j : HealthJoin} :
    j ∈ healthJoins t q ↔
      (∃ h ∈ t.health, t.joinHealth h = some j) ∧ q.isIn j.key j.h.nodeId = true := by
  rw [healthJoins, mem_orderBy, mem_filter, mem_filterMap]

theorem mem_crawlJoins {q : Query} {w : CrawlWindow} {node : Str} :
    (w, node) ∈ crawlJoins t q ↔ (w ∈ t.crawlWindow ∧ named t.node w.nodeId = some node) ∧
      q.isIn (windowKey (w, node)) w.nodeId = true := by
  rw [crawlJoins, mem_orderBy, mem_filter, mem_joinOn]

theorem nodup_keys {J : Type} {js : List J} {keyOf : J → Key} {idOf : J → I64}
    (hkey : ∀ j, (ofLex (keyOf j)).2 = idOf j) (h : (js.map idOf).Nodup) :
    (js.map keyOf).Nodup := by
  have hmap : (js.map keyOf).map (fun k => (ofLex k).2) = js.map idOf := by
    rw [List.map_map]
    exact map_congr_left fun j _ => hkey j
  exact List.Nodup.of_map (fun k : Key => (ofLex k).2) (hmap ▸ h)

theorem ordered_healthTable (db : Database) (q : Query) :
    Ordered Prod.fst (healthTable db.toTables q) := by
  have hids : ((db.health.filterMap db.toTables.joinHealth).map fun j => j.h.id).Sublist
      (db.health.map Health.id) := by
    induction db.health with
    | nil => exact .slnil
    | cons h hs ih =>
      rw [filterMap_cons]
      cases hj : db.toTables.joinHealth h with
      | none => exact ih.cons _
      | some j =>
        rw [map_cons, map_cons, joinHealth_eq_some hj]
        exact ih.cons_cons _
  have hnodup : (((db.health.filterMap db.toTables.joinHealth).filter fun j =>
      q.isIn j.key j.h.nodeId).map fun j => j.h.id).Nodup :=
    ((filter_sublist.map _).trans hids).nodup db.schema.health_ids
  exact pairwise_map.mpr (orderBy_lt (nodup_keys (fun _ => rfl) hnodup))

theorem ordered_crawlTable {parseStrings : Str → Option (List Str)} (db : Database) (q : Query) :
    Ordered Prod.fst (crawlTable parseStrings db.toTables q) := by
  have hids : (((joinOn CrawlWindow.nodeId db.node db.crawlWindow).filter fun e =>
      q.isIn (windowKey e) e.1.nodeId).map fun e => e.1.id).Nodup := by
    have hall : (joinOn CrawlWindow.nodeId db.node db.crawlWindow).map (fun e => e.1.id) =
        db.crawlWindow.map CrawlWindow.id := by
      have hfst := congrArg (List.map CrawlWindow.id) (map_fst_joinOn db.schema.window_node)
      rw [List.map_map] at hfst
      exact hfst
    exact (filter_sublist.map _).nodup (hall ▸ db.schema.window_ids)
  exact pairwise_map.mpr (orderBy_lt (nodup_keys (fun _ => rfl) hids))

/-- What is read for `/history` are pieces of its lines. -/
theorem history_reads (ser : Serialize PageRow) (q : Query) : history.Reads ser q := by
  intro db hdb
  refine ⟨ordered_healthTable db q, healthPage_eq db.toTables q, ?_, ?_, hdb⟩
  · intro e he row hrow
    obtain ⟨j, -, rfl⟩ := mem_map.mp he
    classical
    rw [healthRow_eq] at hrow
    split_ifs at hrow
    cases hrow
    rfl
  · intro e he
    obtain ⟨j, hj, rfl⟩ := mem_map.mp he
    obtain ⟨⟨h, hmem, hjoin⟩, -⟩ := mem_healthJoins.mp hj
    rw [← joinHealth_eq_some hjoin] at hmem
    exact db.health_nonneg _ hmem

/-- What is read for `/crawlers` are pieces of its lines. -/
theorem crawlers_reads (parseStrings : Str → Option (List Str)) (ser : Serialize CrawlOut)
    (q : Query) : (crawlers parseStrings).Reads ser q := by
  intro db hdb
  refine ⟨ordered_crawlTable db q, crawlPage_eq db.toTables q, ?_, ?_, hdb⟩
  · intro e he row hrow
    obtain ⟨w, -, rfl⟩ := mem_map.mp he
    classical
    rw [crawlRow_eq] at hrow
    split_ifs at hrow
    cases hrow
    rfl
  · intro e he
    obtain ⟨⟨w, node⟩, hw, rfl⟩ := mem_map.mp he
    exact db.window_nonneg w (mem_crawlJoins.mp hw).1.1

/-! ## What can be read -/

def Health.key (h : Health) : Key := toLex (h.atMs, h.id)

def CrawlWindow.key (w : CrawlWindow) : Key := toLex (w.atMs, w.id)

/-- **Nothing overflows** in the health rows of a range, from a key on. -/
def RowsFit (q : Query) (after : Option Key) (db : Database) : Prop :=
  ∀ h ∈ db.health, q.isIn h.key h.nodeId = true → (∀ k ∈ after, k ≤ h.key) → RowFits db.toTables h

/-- **The status codes are status codes** in the windows of a range, from a key on. -/
def WindowsFit (q : Query) (after : Option Key) (db : Database) : Prop :=
  ∀ w ∈ db.crawlWindow, q.isIn w.key w.nodeId = true → (∀ k ∈ after, k ≤ w.key) →
    CodesFit db.toTables w

theorem channelsFit_singleton (schema : Schema t) (id : I64) :
    ChannelsFit t [id] ↔
      ∀ c ∈ t.healthChannel, c.healthId = id → InI64 (c.hits.1 + c.misses.1) := by
  constructor
  · intro h c hc hid
    obtain ⟨label, hlabel⟩ := isSome_iff_exists.mp (schema.channel_named c hc)
    exact h (c, label) (mem_channelRows.mpr ⟨hc, mem_singleton.mpr hid, hlabel⟩)
  · rintro h ⟨c, label⟩ hc
    obtain ⟨hc, hid, -⟩ := mem_channelRows.mp hc
    exact h c hc (mem_singleton.mp hid)

theorem rowFits_iff (schema : Schema t) (h : Health) :
    RowFits t h ↔ HeadFits h ∧ ChannelsFit t [h.id] := by
  rw [channelsFit_singleton schema]
  constructor
  · exact fun hfits => ⟨⟨hfits.cache, hfits.cert⟩, hfits.channels⟩
  · rintro ⟨⟨hcache, hcert⟩, hchannels⟩
    exact ⟨hcache, hcert, hchannels⟩

theorem codesFit_iff (t : Tables) (w : CrawlWindow) : CodesFit t w ↔ StatusFits t [w.id] := by
  constructor
  · intro h s hs
    obtain ⟨hs, hid⟩ := mem_statusRows.mp hs
    exact h s hs (mem_singleton.mp hid)
  · exact fun h s hs hid => h s (mem_statusRows.mpr ⟨hs, mem_singleton.mpr hid⟩)

theorem all_iff {after : Option Key} {k : Key} :
    after.all (fun a => a ≤ k) = true ↔ ∀ a ∈ after, a ≤ k := by
  cases after with
  | none | some a => simp

theorem not_unreadable_history (q : Query) (after : Option Key) (db : Database) :
    ¬ Unreadable (onward Prod.fst after (healthTable db.toTables q)) ↔ RowsFit q after db := by
  constructor
  · intro hread h hmem hin hafter
    by_contra hbad
    obtain ⟨j, hj⟩ := exists_join db.schema hmem
    have hjh : j.h = h := joinHealth_eq_some hj
    have hkey : j.key = h.key := by rw [HealthJoin.key, hjh, Health.key]
    rw [rowFits_iff db.schema, ← hjh] at hbad
    refine hread ⟨(j.key, healthRow db.toTables j), mem_filter.mpr ⟨?_, ?_⟩, .panic, ?_⟩
    · refine mem_map_of_mem (mem_healthJoins.mpr ⟨⟨h, hmem, hj⟩, ?_⟩)
      rw [hkey, hjh]
      exact hin
    · rw [hkey]
      exact all_iff.mpr hafter
    · classical
      rw [healthRow_eq, if_neg hbad]
  · rintro hfit ⟨e, he, halt, hhalt⟩
    obtain ⟨hmem, hafter⟩ := mem_filter.mp he
    obtain ⟨j, hj, rfl⟩ := mem_map.mp hmem
    obtain ⟨⟨h, hh, hjoin⟩, hin⟩ := mem_healthJoins.mp hj
    have hjh : j.h = h := joinHealth_eq_some hjoin
    have hkey : j.key = h.key := by rw [HealthJoin.key, hjh, Health.key]
    rw [hkey] at hin hafter
    rw [hjh] at hin
    have hrow := (rowFits_iff db.schema h).mp (hfit h hh hin (all_iff.mp hafter))
    classical
    rw [healthRow_eq, hjh, if_pos hrow] at hhalt
    exact nomatch hhalt

theorem not_unreadable_crawlers (parseStrings : Str → Option (List Str)) (q : Query)
    (after : Option Key) (db : Database) :
    ¬ Unreadable (onward Prod.fst after (crawlTable parseStrings db.toTables q)) ↔
      WindowsFit q after db := by
  constructor
  · intro hread w hmem hin hafter
    by_contra hbad
    obtain ⟨node, hnode⟩ := isSome_iff_exists.mp (db.schema.window_node w hmem)
    rw [codesFit_iff] at hbad
    refine hread ⟨(w.key, crawlRow parseStrings db.toTables (w, node)),
      mem_filter.mpr ⟨?_, all_iff.mpr hafter⟩, .db, ?_⟩
    · exact mem_map_of_mem (f := fun e => (windowKey e, crawlRow parseStrings db.toTables e))
        (mem_crawlJoins.mpr ⟨⟨hmem, hnode⟩, hin⟩)
    · classical
      rw [crawlRow_eq, if_neg hbad]
  · rintro hfit ⟨e, he, halt, hhalt⟩
    obtain ⟨hmem, hafter⟩ := mem_filter.mp he
    obtain ⟨⟨w, node⟩, hw, rfl⟩ := mem_map.mp hmem
    obtain ⟨⟨hw, -⟩, hin⟩ := mem_crawlJoins.mp hw
    have hrow := (codesFit_iff db.toTables w).mp (hfit w hw hin (all_iff.mp hafter))
    classical
    rw [crawlRow_eq, if_pos hrow] at hhalt
    exact nomatch hhalt

/-! ## Small databases -/

def i64 (n : Fin 1000) : I64 := ⟨n.val, by omega, by omega⟩

theorem i64_injective : Function.Injective i64 := fun m n h => by
  have hval : (m.val : Int) = n.val := congrArg Subtype.val h
  omega

theorem nonneg_i64 (n : Fin 1000) : 0 ≤ (i64 n).1 ∧ 0 ≤ (i64 n).1 :=
  ⟨Int.natCast_nonneg n.val, Int.natCast_nonneg n.val⟩

/-- A node at the poll of a number, which is also when it was. -/
def plainHealth (hits : I64) (n : Fin 1000) : Health where
  id := i64 n
  pollId := i64 n
  atMs := i64 n
  nodeId := i64 1
  level := i64 0
  reachable := true
  status := "ok".toList
  detail := none
  trafficError := none
  buildId := none
  toFigures := { noFigures with cacheHits := some hits, cacheMisses := some (i64 1) }
  tunnelRttMs := none
  tunnelRttN := none
  tunnelProbe := none
  tunnelProbeError := none
  tunnelHandshake := none
  tunnelHandshakeAgeS := none
  tunnelHandshakeDetail := none
  reopenState := none
  reopenAgeS := none
  reopenLastUnix := none
  reopenReopens := none
  reopenFailures := none
  reopenLastFailureAgeS := none
  reopenDetail := none

def plainChannel (n : Fin 1000) : HealthChannel where
  healthId := i64 n
  channelId := i64 1
  requests := i64 n
  hits := i64 n
  misses := i64 0
  backendErrors := i64 0
  hitSamples := i64 0
  hitP50Ns := none
  hitP99Ns := none
  missSamples := i64 0
  missP50Ns := none
  missP99Ns := none

def plainWindow (n : Fin 1000) : CrawlWindow where
  id := i64 n
  pollId := i64 n
  atMs := i64 n
  nodeId := i64 1
  windowMinutes := i64 5
  totalRequests := i64 n
  forgedBotRequests := i64 0
  forgers := "[]".toList
  sightingsDropped := i64 0

def plainPoll (n : Fin 1000) : Poll := ⟨i64 n, i64 n, i64 0, i64 0, i64 0⟩

/-- One node at some polls, with a channel and with a crawler at each. -/
def plainTables (hits : I64) (polls : List (Fin 1000)) : Tables where
  node := [(i64 1, "edge".toList)]
  channel := [(i64 1, "api".toList)]
  iface := []
  agent := [(i64 1, "bot".toList)]
  build := []
  poll := polls.map plainPoll
  pollFinding := []
  health := polls.map (plainHealth hits)
  healthChannel := polls.map plainChannel
  healthNet := []
  crawlWindow := polls.map plainWindow
  crawlSighting := polls.map fun n => ⟨i64 n, i64 1, i64 n, "[]".toList, "[]".toList⟩
  crawlStatus := polls.map fun n => ⟨i64 n, i64 200, i64 n⟩

theorem schema_plainTables (hits : I64) {polls : List (Fin 1000)} (hpolls : polls.Nodup) :
    Schema (plainTables hits polls) where
  health_ids := by
    rw [plainTables, List.map_map]
    exact hpolls.map i64_injective
  window_ids := by
    rw [plainTables, List.map_map]
    exact hpolls.map i64_injective
  health_node := forall_mem_map.mpr fun _ _ => rfl
  health_poll := forall_mem_map.mpr fun n hn => find?_isSome.mpr
    ⟨plainPoll n, mem_map_of_mem hn, decide_eq_true rfl⟩
  channel_named := forall_mem_map.mpr fun _ _ => rfl
  iface_named := forall_mem_nil _
  window_node := forall_mem_map.mpr fun _ _ => rfl
  agent_named := forall_mem_map.mpr fun _ _ => rfl

def plainDatabase (hits : I64) (polls : List (Fin 1000)) (hpolls : polls.Nodup) : Database where
  toTables := plainTables hits polls
  schema := schema_plainTables hits hpolls
  health_nonneg := List.forall_mem_map.mpr fun n _ => nonneg_i64 n
  window_nonneg := List.forall_mem_map.mpr fun n _ => nonneg_i64 n

def plainQuery : Query := ⟨i64 0, i64 999, none⟩

/-- The bytes of a text with numbers in it, from `{` on. -/
def plainText (parts : List (String ⊕ I64)) : Bytes :=
  123 :: parts.flatMap
    (Sum.elim (fun s => s.toByteArray.data.toList) fun i => Utf8.encode (decimal i.1.toNat))

theorem length_number (i : I64) : (Utf8.encode (decimal i.1.toNat)).length ≤ 76 := by
  have hdigits : (decimal i.1.toNat).length ≤ 19 := by
    refine (Nat.length_toDigits_le_iff (by decide) (by decide)).mpr ?_
    have := i.2.2
    omega
  have hbytes := Utf8.length_encode_le (decimal i.1.toNat)
  omega

theorem length_plainText (parts : List (String ⊕ I64)) :
    (plainText parts).length ≤ (parts.map (Sum.elim String.utf8ByteSize fun _ => 76)).sum + 1 := by
  rw [plainText, length_cons]
  refine Nat.add_le_add_right ?_ 1
  induction parts with
  | nil => exact Nat.le_refl _
  | cons p parts ih =>
    rw [flatMap_cons, length_append, map_cons, sum_cons]
    cases p with
    | inl s => exact Nat.add_le_add_left ih _
    | inr i => exact Nat.add_le_add (length_number i) ih

/-- The JSON text of a row of `plainHealth` at 100 ms or later, which has come with its channel. -/
def plainJson (id atMs : I64) (channel : Option (I64 × I64)) : Bytes :=
  plainText
    [.inl "\"id\":", .inr id, .inl ",\"at\":\"1970-01-01T00:00:00.", .inr atMs,
      .inl "Z\",\"at_unix_ms\":", .inr atMs,
      .inl ",\"node\":\"edge\",\"level\":\"Ok\",\"poll_level\":\"Ok\",\"reachable\":true",
      .inl ",\"status\":\"ok\",\"detail\":null,\"traffic_error\":null,\"rtt_ms\":null",
      .inl ",\"binary\":null,\"version\":null,\"hash\":null,\"uptime_s\":null",
      .inl ",\"host_uptime_s\":null,\"requests_total\":null,\"monitor_requests\":null",
      .inl ",\"cache_hits\":3,\"cache_misses\":1,\"hit_rate\":0.75,\"backend_errors\":null",
      .inl ",\"hit_samples\":null,\"hit_p50_ns\":null,\"hit_p99_ns\":null",
      .inl ",\"miss_samples\":null,\"miss_p50_ns\":null,\"miss_p99_ns\":null",
      .inl ",\"load_one\":null,\"cpus\":null,\"memory_used\":null,\"memory_total_bytes\":null",
      .inl ",\"disk_used\":null,\"disk_total_bytes\":null,\"thermal_max_c\":null",
      .inl ",\"cert_not_after_unix\":null,\"cert_expires_in_s\":null,\"tunnel\":null",
      .inl ",\"log_reopen\":null,\"net\":[],\"channels\":[\x7b\"channel\":\"api\",\"requests\":",
      .inr (channel.elim (i64 0) Prod.fst), .inl ",\"hits\":", .inr (channel.elim (i64 0) Prod.snd),
      .inl ",\"misses\":0,\"hit_rate\":1.0,\"backend_errors\":0,\"hit_samples\":0",
      .inl ",\"hit_p50_ns\":null,\"hit_p99_ns\":null,\"miss_samples\":0,\"miss_p50_ns\":null",
      .inl ",\"miss_p99_ns\":null\x7d],\"findings\":[],\"other_findings\":[]\x7d"]

def plainSerialize : Serialize PageRow where
  json r := plainJson r.id r.atUnixMs (r.channels.head?.map fun c => (c.requests, c.hits))
  object _ := rfl

/-- The JSON text of a row of `plainWindow`, which has come with its status and its crawler. -/
def plainCrawlJson (id atMs requests : I64) (status crawler : Option I64) : Bytes :=
  plainText
    [.inl "\"id\":", .inr id, .inl ",\"at\":\"1970-01-01T00:00:00.", .inr atMs,
      .inl "Z\",\"at_unix_ms\":", .inr atMs,
      .inl ",\"node\":\"edge\",\"window_minutes\":5,\"total_requests\":", .inr requests,
      .inl ",\"status\":\x7b\"200\":", .inr (status.getD (i64 0)),
      .inl "\x7d,\"forged_bot_requests\":0,\"forgers\":[],\"crawlers\":[",
      .inl "\x7b\"user_agent\":\"bot\",\"requests\":", .inr (crawler.getD (i64 0)),
      .inl ",\"client_ips\":[],\"paths\":[]\x7d],\"sightings_dropped\":0\x7d"]

def plainCrawlSerialize : Serialize CrawlOut where
  json r := plainCrawlJson r.id r.atUnixMs r.totalRequests (r.status.get? 200)
    (r.crawlers.head?.map SightingOut.requests)
  object _ := rfl

theorem plainJson_short (id atMs : I64) (channel : Option (I64 × I64)) :
    (plainJson id atMs channel ++ [10]).length ≤ maxPageBytes := by
  rw [length_append]
  refine (Nat.add_le_add_right (length_plainText _) 1).trans ?_
  simp only [map_cons, Sum.elim_inl, Sum.elim_inr]
  decide

theorem plainCrawlJson_short (id atMs requests : I64) (status crawler : Option I64) :
    (plainCrawlJson id atMs requests status crawler ++ [10]).length ≤ maxPageBytes := by
  rw [length_append]
  refine (Nat.add_le_add_right (length_plainText _) 1).trans ?_
  simp only [map_cons, Sum.elim_inl, Sum.elim_inr]
  decide

theorem plain_writable (db : Database) : Writable history plainSerialize plainQuery db :=
  fun _ _ _ _ => plainJson_short ..

theorem plain_windows_writable (db : Database) :
    Writable (crawlers fun _ => some []) plainCrawlSerialize plainQuery db :=
  fun _ _ _ _ => plainCrawlJson_short ..

theorem plain_rows_fit {polls : List (Fin 1000)} (hpolls : polls.Nodup) (after : Option Key) :
    RowsFit plainQuery after (plainDatabase (i64 3) polls hpolls) := by
  intro h hh _ _
  obtain ⟨n, _, rfl⟩ := mem_map.mp hh
  refine ⟨?_, ?_, ?_⟩
  · rintro _ ⟨⟩ _ ⟨⟩
    decide
  · intro c hc
    cases hc
  · intro c hc _
    obtain ⟨m, _, rfl⟩ := mem_map.mp hc
    have hm := m.isLt
    change InI64 ((m.val : Int) + 0)
    constructor <;> omega

theorem plain_windows_fit {polls : List (Fin 1000)} (hpolls : polls.Nodup) (after : Option Key) :
    WindowsFit plainQuery after (plainDatabase (i64 3) polls hpolls) := by
  intro w _ _ _ s hs _
  obtain ⟨n, _, rfl⟩ := mem_map.mp hs
  change (0 : Int) ≤ 200 ∧ (200 : Int) < 2 ^ 16
  decide

/-- Nine hundred polls. -/
def plainPolls : List (Fin 1000) := (List.finRange 1000).filter fun n => 100 ≤ n

theorem nodup_plainPolls : plainPolls.Nodup := (nodup_finRange 1000).filter _

/-- Between the pages polls are pruned, first with the row that the next page was to begin with, and
written. -/
def plainChanges : List Database :=
  [plainDatabase (i64 3) [101, 102, 103, 104] (by decide),
    plainDatabase (i64 3) [104, 105, 106] (by decide),
    plainDatabase (i64 3) [105, 106, 107] (by decide)]

def twoRows : PageLimits := .new 4194304 2

/-- More than a chunk. -/
def threeHundredRows : PageLimits := .new 4194304 300

def read (feed : Feed T) (ser : Serialize T) : Option Reader :=
  plainChanges.foldlM (Reader.step feed ser plainQuery twoRows) .start

theorem eachStep_changes {C : Reader → Database → Prop}
    (h : ∀ r polls hpolls, C r (plainDatabase (i64 3) polls hpolls)) :
    EachStep (Reader.step feed ser plainQuery twoRows) C .start plainChanges :=
  ⟨h .., fun _ _ => ⟨h .., fun _ _ => ⟨h .., fun _ _ => trivial⟩⟩⟩

/-- The lines of the polls that are read. -/
def plainLines (json : Fin 1000 → Bytes) : Bytes :=
  [101, 102, 104, 105, 106, 107].flatMap fun n => json n ++ [10]

/-- **Paging is complete.** A database that stays as it is is read to its end, with every row once
and in order, if and only if nothing overflows in its health rows and its status codes are status
codes. So far as this holds of what is left at each page, no row comes twice from databases that
change, and every row comes that is there throughout. -/
theorem paging_complete (parseStrings : Str → Option (List Str)) (ser : Serialize PageRow)
    (crawlSer : Serialize CrawlOut) (q : Query) (limits : PageLimits) :
    ((∀ db, Writable history ser q db → (Exhausts history ser q limits db ↔ RowsFit q none db)) ∧
      ∀ dbs, EachStep (Reader.step history ser q limits)
          (fun r db => Writable history ser q db ∧
            ∀ after, r.after = .ok after → RowsFit q after db) .start dbs →
        Throughout (Reader.step history ser q limits) (Complete history ser q) .start dbs) ∧
    ((∀ db, Writable (crawlers parseStrings) crawlSer q db →
        (Exhausts (crawlers parseStrings) crawlSer q limits db ↔ WindowsFit q none db)) ∧
      ∀ dbs, EachStep (Reader.step (crawlers parseStrings) crawlSer q limits)
          (fun r db => Writable (crawlers parseStrings) crawlSer q db ∧
            ∀ after, r.after = .ok after → WindowsFit q after db) .start dbs →
        Throughout (Reader.step (crawlers parseStrings) crawlSer q limits)
          (Complete (crawlers parseStrings) crawlSer q) .start dbs) := by
  refine ⟨⟨fun db hdb => ?_, fun dbs h => ?_⟩, fun db hdb => ?_, fun dbs h => ?_⟩
  · rw [exhausts_iff (history_reads ser q) hdb, ← not_unreadable_history, onward_none]
    rfl
  · refine complete_of_readable (history_reads ser q) dbs (h.imp fun r db hdb => ?_)
    exact ⟨hdb.1, fun after hafter => (not_unreadable_history q after db).mpr (hdb.2 after hafter)⟩
  · rw [exhausts_iff (crawlers_reads parseStrings crawlSer q) hdb,
      ← not_unreadable_crawlers parseStrings, onward_none]
    rfl
  · refine complete_of_readable (crawlers_reads parseStrings crawlSer q) dbs
      (h.imp fun r db hdb => ?_)
    exact ⟨hdb.1, fun after hafter =>
      (not_unreadable_crawlers parseStrings q after db).mpr (hdb.2 after hafter)⟩

set_option maxRecDepth 4000 in
theorem plain_paging_complete : (Exhausts history plainSerialize plainQuery threeHundredRows
        (plainDatabase (i64 3) plainPolls nodup_plainPolls) ∧
      ∃ r, read history plainSerialize = some r ∧ Complete history plainSerialize plainQuery r ∧
        (r.finished, r.body) =
          (true, plainLines fun n => plainJson (i64 n) (i64 n) (some (i64 n, i64 n)))) ∧
    (Exhausts (crawlers fun _ => some []) plainCrawlSerialize plainQuery threeHundredRows
        (plainDatabase (i64 3) plainPolls nodup_plainPolls) ∧
      ∃ r, read (crawlers fun _ => some []) plainCrawlSerialize = some r ∧
        Complete (crawlers fun _ => some []) plainCrawlSerialize plainQuery r ∧
        (r.finished, r.body) = (true, plainLines fun n =>
          plainCrawlJson (i64 n) (i64 n) (i64 n) (some (i64 n)) (some (i64 n)))) := by
  obtain ⟨⟨hall, _⟩, hcrawlAll, _⟩ := paging_complete (fun _ => some []) plainSerialize
    plainCrawlSerialize plainQuery threeHundredRows
  obtain ⟨⟨_, hruns⟩, _, hcrawlRuns⟩ := paging_complete (fun _ => some []) plainSerialize
    plainCrawlSerialize plainQuery twoRows
  refine ⟨⟨(hall _ (plain_writable _)).mpr (plain_rows_fit _ none), ?_⟩,
    (hcrawlAll _ (plain_windows_writable _)).mpr (plain_windows_fit _ none), ?_⟩
  · have hrun : (read history plainSerialize).map (fun r => (r.finished, r.body)) =
        some (true, plainLines fun n => plainJson (i64 n) (i64 n) (some (i64 n, i64 n))) := by
      decide +kernel
    obtain ⟨r, hr, hresult⟩ := map_eq_some_iff.mp hrun
    refine ⟨r, hr, (hruns plainChanges (eachStep_changes fun r polls hpolls =>
      ?_)).result hr, hresult⟩
    exact ⟨plain_writable _, fun after _ => plain_rows_fit hpolls after⟩
  · have hrun : (read (crawlers fun _ => some []) plainCrawlSerialize).map
        (fun r => (r.finished, r.body)) = some (true, plainLines fun n =>
          plainCrawlJson (i64 n) (i64 n) (i64 n) (some (i64 n)) (some (i64 n))) := by
      decide +kernel
    obtain ⟨r, hr, hresult⟩ := map_eq_some_iff.mp hrun
    refine ⟨r, hr, (hcrawlRuns plainChanges (eachStep_changes fun r polls hpolls => ?_)).result hr,
      hresult⟩
    exact ⟨plain_windows_writable _, fun after _ => plain_windows_fit hpolls after⟩

/-- **A row that overflows** is never read: its hits and misses are one more than a number of 64
bits holds, and the process ends. -/
theorem saturated_hits_never_read : ¬ Exhausts history plainSerialize plainQuery .default
      (plainDatabase ⟨2 ^ 63 - 1, by decide⟩ [105] (by decide)) := by
  intro h
  have hread := (exhausts_iff (history_reads plainSerialize plainQuery) (plain_writable _)).mp h
  have hall : onward Prod.fst none (history.table
      (plainDatabase ⟨2 ^ 63 - 1, by decide⟩ [105] (by decide)).toTables plainQuery) =
      history.table _ plainQuery := onward_none _
  rw [← hall] at hread
  have hfit := (not_unreadable_history plainQuery none _).mp hread
    (plainHealth ⟨2 ^ 63 - 1, by decide⟩ 105) (mem_singleton_self _)
    (by decide) (fun _ hk => nomatch hk)
  have hsum := hfit.cache _ rfl _ rfl
  exact absurd hsum (by decide)

end M6.Monitor
