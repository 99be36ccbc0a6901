import M6.Md.Documents
import M6.Lib.Runs

/-!
# Watching a directory

`run` of `m6-md` with `--watch`: a first pass, then a watcher on the directory, then a pass whenever
an event names a `.md` file. The directory changes meanwhile as it likes. Once the watcher is there
each change queues an event, and the events come to the loop in order.

The loop looks at the first of the events that are there and drops the rest. That is right where the
first one leads to a pass, since the pass comes after all of them. It is not where the first one
names no `.md` file, and neither is it noticed what changes between the first pass and the watcher.
Those two apart the loop is never stale (`never_stale`).
-/

namespace M6.Md

open Runs

/-! ## The machine -/

/-- The kinds of event of the `notify` crate. -/
inductive EventKind where
  | any
  | access
  | create
  | modify
  | remove
  | other

def EventKind.isChange : EventKind → Bool
  | .create | .modify | .remove => true
  | .any | .access | .other => false

structure Event where
  kind : EventKind
  paths : List Name

/-- Whether an event is of a `.md` file. -/
def eventAffectsMd (event : Event) : Bool := event.kind.isChange && event.paths.any hasMdExtension

def Event.ofDocument (event : Event) : Bool := event.kind.isChange && event.paths.any isDocument

/-- A pass on its way: what it has still to read, and what it has read. -/
structure Job where
  todo : List Name
  documents : List Value

/-- Where the program is. A pass is the first one or one of the loop. -/
inductive Phase where
  | listing (first : Bool)
  | reading (first : Bool) (job : Job)
  | arming
  | top
  | waiting
  | discarding
  | bursting
  | stopped

structure State where
  dir : Dir
  output : Option Str
  /-- whether the last pass failed -/
  failed : Bool
  /-- whether `watch` has returned -/
  watching : Bool
  /-- the events that are still to be delivered, in order -/
  pending : List Event
  channel : List Event
  shutdown : Bool
  phase : Phase

abbrev Edit : Type := Name × Option Entry

def Dir.edit (dir : Dir) (e : Edit) : Dir :=
  match e.2 with
  | some entry => dir.insert e.1 entry
  | none => dir.erase e.1

/-- What may happen next. -/
inductive Ev where
  /-- the directory changes, in one entry or, by a renaming, in two -/
  | change (edits : List Edit) (kind : EventKind)
  /-- the watcher has something else to tell -/
  | noise (event : Event)
  | deliver
  | signal
  /-- the program takes its next step -/
  | tick
  /-- what the program is at fails -/
  | fault

def State.passFailed (s : State) (first : Bool) : State :=
  { s with failed := true, phase := if first then .stopped else .top }

def State.passDone (s : State) (first : Bool) (text : Str) : State :=
  { s with output := some text, failed := false, phase := if first then .arming else .top }

variable (formats : Formats)

def State.read (s : State) (first : Bool) (job : Job) : State :=
  match job.todo with
  | [] => s.passDone first (outputJson formats job.documents)
  | name :: todo =>
    match processFile formats s.dir name with
    | .ok doc => { s with phase := .reading first ⟨todo, job.documents ++ [doc]⟩ }
    | .error _ => s.passFailed first

def State.tick (s : State) : Option State :=
  match s.phase with
  | .listing first => some { s with phase := .reading first ⟨listing s.dir, []⟩ }
  | .reading first job => some (s.read formats first job)
  | .arming => some { s with watching := true, phase := .top }
  | .top => some { s with phase := if s.shutdown then .stopped else .waiting }
  | .waiting =>
    match s.channel with
    -- the wait of 200 ms is over
    | [] => some { s with phase := .top }
    | event :: rest =>
      some { s with
        channel := rest
        phase := if eventAffectsMd event then .bursting else .discarding }
  | .discarding =>
    match s.channel with
    | [] => some { s with phase := .top }
    | _ :: rest => some { s with channel := rest }
  -- the drain after the sleep of 50 ms, during which anything may happen
  | .bursting =>
    match s.channel with
    | [] => some { s with phase := if s.shutdown then .stopped else .listing false }
    | _ :: rest => some { s with channel := rest }
  | .stopped => none

/-- What the program is at fails: a pass, as it reads the directory or writes its output, or the
watcher, as it is set up. -/
def State.fault (s : State) : Option State :=
  match s.phase with
  | .listing first => some (s.passFailed first)
  | .reading first _ => some (s.passFailed first)
  | .arming => some { s with phase := .stopped }
  | _ => none

def State.tell (s : State) (event : Event) : State :=
  { s with pending := if s.watching then s.pending ++ [event] else s.pending }

def step (s : State) : Ev → Option State
  | .change edits kind =>
    if kind.isChange then
      some ({ s with dir := edits.foldl Dir.edit s.dir }.tell ⟨kind, edits.map Prod.fst⟩)
    else none
  | .noise event => some (s.tell event)
  | .deliver =>
    match s.pending with
    | [] => none
    | event :: rest => some { s with pending := rest, channel := s.channel ++ [event] }
  | .signal => some { s with shutdown := true }
  | .tick => s.tick formats
  | .fault => s.fault

def start (dir : Dir) (output : Option Str) : State :=
  ⟨dir, output, false, false, [], [], false, .listing true⟩

/-! ## Staleness -/

def Fresh (s : State) : Prop :=
  s.failed = true ∨ ∃ text, process formats s.dir = .ok text ∧ s.output = some text

def AtRest (s : State) : Prop := s.pending = [] ∧ s.channel = [] ∧ s.phase = .waiting

/-- **Not stale**: whenever the loop is at rest the output is fresh. -/
def NotStale (s : State) : Prop := AtRest s → Fresh formats s

/-- The first pass has listed the directory, and there is no watcher yet. -/
def State.unwatched (s : State) : Prop :=
  s.watching = false ∧ s.phase ≠ .listing true

/-- **A step after which nothing is overlooked**: no document changes while none is watched, and no
event of one is dropped behind an event that is of no `.md` file. -/
def Noticed (s : State) : Ev → Prop
  | .change edits _ => s.unwatched → ∀ e ∈ edits, isDocument e.1 = false
  | .tick => s.phase = .discarding → ∀ event ∈ s.channel.head?, event.ofDocument = false
  | _ => True

/-! ## What holds in every run -/

def Announced (s : State) : Prop := ∃ event ∈ s.channel ++ s.pending, event.ofDocument = true

def Job.Current (dir : Dir) (job : Job) : Prop :=
  ∃ done, listing dir = done ++ job.todo ∧
    done.mapM (processFile formats dir) = .ok job.documents

def Settles (s : State) : Prop :=
  match s.phase with
  | .reading _ job => job.Current formats s.dir
  | .arming | .top | .waiting | .discarding => Fresh formats s
  -- a pass is about to begin
  | .listing _ | .bursting => True
  | .stopped => True

/-- **The invariant**: what is not fresh is announced. -/
def Inv (s : State) : Prop := Settles formats s ∨ Announced s

variable {formats}

theorem ofDocument_affects {event : Event} (h : event.ofDocument = true) :
    eventAffectsMd event = true := by
  obtain ⟨hkind, hpath⟩ := Bool.and_eq_true_iff.mp h
  obtain ⟨name, hmem, hdoc⟩ := List.any_eq_true.mp hpath
  have hmd : hasMdExtension name = true := (Bool.and_eq_true_iff.mp hdoc).1
  exact Bool.and_eq_true_iff.mpr ⟨hkind, List.any_eq_true.mpr ⟨name, hmem, hmd⟩⟩

theorem sameDocuments_edits (dir : Dir) {edits : List Edit}
    (h : ∀ e ∈ edits, isDocument e.1 = false) : SameDocuments dir (edits.foldl Dir.edit dir) := by
  induction edits generalizing dir with
  | nil => exact fun _ _ => rfl
  | cons e edits ih =>
    intro name hname
    have hne : name ≠ e.1 := by
      rintro rfl
      rw [h e (List.mem_cons_self ..)] at hname
      exact Bool.false_ne_true hname
    have hone : (dir.edit e).get? name = dir.get? name := by
      obtain ⟨n, entry⟩ := e
      cases entry with
      | some entry | none => simp [Dir.edit, hne]
    have hrest := ih (dir.edit e) fun e' he' => h e' (List.mem_cons_of_mem _ he')
    exact (hrest name hname).trans hone

/-- A pass that has read what is there has read what is there after a change of other entries. -/
theorem Job.Current.same {dir dir' : Dir} {job : Job} (h : job.Current formats dir)
    (hsame : SameDocuments dir dir') : job.Current formats dir' := by
  obtain ⟨done, hlist, hread⟩ := h
  have hnames : ∀ name ∈ done, isDocument name = true := fun name hname =>
    isDocument_of_mem_listing (hlist ▸ List.mem_append_left _ hname)
  exact ⟨done, hsame.listing.trans hlist, (hsame.mapM hnames).trans hread⟩

variable {s : State}

theorem Settles.same {dir : Dir} (h : Settles formats s)
    (hsame : SameDocuments s.dir dir) : Settles formats { s with dir := dir } := by
  obtain ⟨d, output, failed, watching, pending, channel, shutdown, phase⟩ := s
  have hfresh : Fresh formats ⟨d, output, failed, watching, pending, channel, shutdown, phase⟩ →
      Fresh formats ⟨dir, output, failed, watching, pending, channel, shutdown, phase⟩ := by
    intro hf
    rw [Fresh, process_congr hsame]
    exact hf
  cases phase with
  | reading first job => exact Job.Current.same h hsame
  | arming | top | waiting | discarding => exact hfresh h
  | listing first | bursting | stopped => trivial

/-! ## What one step keeps -/

theorem inv_tell (h : Inv formats s) (event : Event) : Inv formats (s.tell event) := by
  refine h.imp id ?_
  rintro ⟨e, hmem, hdoc⟩
  refine ⟨e, ?_, hdoc⟩
  simp only [State.tell, List.mem_append] at hmem ⊢
  split_ifs
  · exact hmem.imp id (List.mem_append_left _)
  · exact hmem

theorem inv_change (h : Inv formats s) {edits : List Edit} {kind : EventKind}
    (hkind : kind.isChange = true) (hnoticed : Noticed s (.change edits kind)) :
    Inv formats ({ s with dir := edits.foldl Dir.edit s.dir }.tell ⟨kind, edits.map Prod.fst⟩) := by
  by_cases hother : ∀ e ∈ edits, isDocument e.1 = false
  · -- no document changes
    have hsettles : Settles formats s →
        Settles formats { s with dir := edits.foldl Dir.edit s.dir } :=
      fun hs => hs.same (sameDocuments_edits s.dir hother)
    exact inv_tell (h.imp hsettles id) _
  · have hdoc : ∃ e ∈ edits, isDocument e.1 = true := by
      by_contra hnone
      refine hother fun e he => ?_
      rw [← Bool.not_eq_true]
      exact fun hd => hnone ⟨e, he, hd⟩
    obtain ⟨e, hmem, hd⟩ := hdoc
    by_cases hwatching : s.watching = true
    · refine .inr ⟨⟨kind, edits.map Prod.fst⟩, ?_, ?_⟩
      · simp [State.tell, hwatching]
      · exact Bool.and_eq_true_iff.mpr ⟨hkind,
          List.any_eq_true.mpr ⟨e.1, List.mem_map_of_mem hmem, hd⟩⟩
    · have hphase : s.phase = .listing true := by
        by_contra hphase
        exact hother (hnoticed ⟨Bool.eq_false_iff.mpr hwatching, hphase⟩)
      refine .inl ?_
      simp [Settles, State.tell, hphase]

theorem inv_deliver (h : Inv formats s) {event : Event} {rest : List Event}
    (hpending : s.pending = event :: rest) :
    Inv formats { s with pending := rest, channel := s.channel ++ [event] } := by
  refine h.imp id ?_
  rintro ⟨e, hmem, hdoc⟩
  refine ⟨e, ?_, hdoc⟩
  rw [hpending] at hmem
  simpa using hmem

theorem fresh_passDone {job : Job} (first : Bool) (h : job.Current formats s.dir)
    (htodo : job.todo = []) :
    Fresh formats (s.passDone first (outputJson formats job.documents)) := by
  obtain ⟨done, hlist, hread⟩ := h
  rw [htodo, List.append_nil] at hlist
  refine .inr ⟨outputJson formats job.documents, ?_, rfl⟩
  rw [process, show (s.passDone first _).dir = s.dir from rfl, hlist, hread]
  rfl

theorem inv_passFailed (s : State) (first : Bool) : Inv formats (s.passFailed first) := by
  refine .inl ?_
  cases first with
  | true => trivial
  | false => exact .inl rfl

theorem inv_read {first : Bool} {job : Job} (hphase : s.phase = .reading first job)
    (h : Inv formats s) : Inv formats (s.read formats first job) := by
  obtain ⟨todo, documents⟩ := job
  cases todo with
  | nil =>
    refine h.imp (fun hs => ?_) id
    rw [Settles, hphase] at hs
    have hfresh := fresh_passDone first hs rfl
    cases first with
    | true | false => exact hfresh
  | cons name todo =>
    rw [State.read]
    cases hdoc : processFile formats s.dir name with
    | error fault => simpa only [hdoc] using inv_passFailed s first
    | ok doc =>
      simp only [hdoc]
      refine h.imp (fun hs => ?_) id
      rw [Settles, hphase] at hs
      obtain ⟨done, hlist, hread⟩ := hs
      refine ⟨done ++ [name], ?_, ?_⟩
      · rw [hlist, List.append_assoc]
        rfl
      · rw [List.mapM_append, hread, List.mapM_cons, hdoc]
        rfl

theorem announced_tail {event : Event} {rest : List Event} (phase : Phase)
    (hchannel : s.channel = event :: rest) (hother : event.ofDocument = false)
    (h : Announced s) : Announced { s with channel := rest, phase := phase } := by
  obtain ⟨e, hmem, hdoc⟩ := h
  rw [hchannel, List.cons_append, List.mem_cons] at hmem
  obtain rfl | hmem := hmem
  · rw [hother] at hdoc
    exact absurd hdoc Bool.false_ne_true
  · exact ⟨e, hmem, hdoc⟩

theorem inv_tick {s s' : State} (h : Inv formats s) (hnoticed : Noticed s .tick)
    (hstep : s.tick formats = some s') : Inv formats s' := by
  rw [State.tick] at hstep
  cases hphase : s.phase with
  | listing first =>
    -- the pass has read nothing yet, so it has read what is there
    simp only [hphase] at hstep
    cases hstep
    exact .inl ⟨[], rfl, rfl⟩
  | reading first job =>
    simp only [hphase] at hstep
    cases hstep
    exact inv_read hphase h
  | arming =>
    simp only [hphase] at hstep
    cases hstep
    refine h.imp (fun hs => ?_) id
    rw [Settles, hphase] at hs
    exact hs
  | top =>
    simp only [hphase] at hstep
    cases hstep
    refine h.imp (fun hs => ?_) id
    rw [Settles, hphase] at hs
    cases hshutdown : s.shutdown with
    | true => simp [Settles]
    | false => exact hs
  | waiting =>
    simp only [hphase] at hstep
    cases hchannel : s.channel with
    | nil =>
      simp only [hchannel] at hstep
      cases hstep
      refine h.imp (fun hs => ?_) fun ha => ?_
      · rw [Settles, hphase] at hs
        exact hs
      · rw [Announced, hchannel] at ha
        exact ha
    | cons event rest =>
      simp only [hchannel] at hstep
      cases hstep
      cases haffects : eventAffectsMd event with
      | true => exact .inl trivial
      | false =>
        have hother : event.ofDocument = false := by
          rw [← Bool.not_eq_true]
          intro hdoc
          rw [ofDocument_affects hdoc] at haffects
          exact Bool.false_ne_true haffects.symm
        refine h.imp (fun hs => ?_) (announced_tail _ hchannel hother)
        rw [Settles, hphase] at hs
        exact hs
  | discarding =>
    simp only [hphase] at hstep
    cases hchannel : s.channel with
    | nil =>
      simp only [hchannel] at hstep
      cases hstep
      refine h.imp (fun hs => ?_) fun ha => ?_
      · rw [Settles, hphase] at hs
        exact hs
      · rw [Announced, hchannel] at ha
        exact ha
    | cons event rest =>
      simp only [hchannel] at hstep
      cases hstep
      have hother : event.ofDocument = false := hnoticed hphase event (by rw [hchannel]; rfl)
      refine h.imp (fun hs => ?_) fun ha => ?_
      · rw [Settles, hphase] at hs
        rw [Settles]
        exact hs
      · exact announced_tail s.phase hchannel hother ha
  | bursting =>
    simp only [hphase] at hstep
    cases hchannel : s.channel with
    | nil =>
      simp only [hchannel] at hstep
      cases hstep
      cases hshutdown : s.shutdown with
      | true | false => exact .inl trivial
    | cons event rest =>
      simp only [hchannel] at hstep
      cases hstep
      exact .inl trivial
  | stopped =>
    simp only [hphase] at hstep
    exact nomatch hstep

theorem inv_fault {s s' : State} (hstep : s.fault = some s') : Inv formats s' := by
  rw [State.fault] at hstep
  split at hstep
  · cases hstep
    exact inv_passFailed s _
  · cases hstep
    exact inv_passFailed s _
  · cases hstep
    exact .inl trivial
  · exact nomatch hstep

theorem inv_step (s : State) (ev : Ev) (s' : State) (h : Inv formats s) (hnoticed : Noticed s ev)
    (hstep : step formats s ev = some s') : Inv formats s' := by
  cases ev with
  | change edits kind =>
    rw [step] at hstep
    split_ifs at hstep with hkind
    cases hstep
    exact inv_change h hkind hnoticed
  | noise event =>
    cases hstep
    exact inv_tell h event
  | deliver =>
    rw [step] at hstep
    cases hpending : s.pending with
    | nil =>
      simp only [hpending] at hstep
      exact nomatch hstep
    | cons event rest =>
      simp only [hpending] at hstep
      cases hstep
      exact inv_deliver h hpending
  | signal =>
    cases hstep
    exact h
  | tick => exact inv_tick h hnoticed hstep
  | fault => exact inv_fault hstep

theorem notStale_of_inv (s : State) (h : Inv formats s) : NotStale formats s := by
  rintro ⟨hpending, hchannel, hphase⟩
  obtain hs | ⟨event, hmem, _⟩ := h
  · rw [Settles, hphase] at hs
    exact hs
  · rw [hpending, hchannel] at hmem
    exact nomatch hmem

/-! ## Plain sources -/

def quoted (s : Str) : Str :=
  '"' :: s.flatMap (fun c => if c = '\n' then "\\n".toList else [c]) ++ ['"']

def plainDocument : Value → Str
  | .object fields =>
    "    \x7b\n".toList ++ ",\n".toList.intercalate
        (fields.map fun f =>
          "      ".toList ++ quoted f.1 ++ ": ".toList ++ quoted (f.2.asStr.getD []))
      ++ "\n    \x7d".toList
  | _ => []

def plainFormats : Formats where
  tomlFromStr := fun _ => some (.table [])
  markdownToHtml := fun line => "<p>".toList ++ line ++ "</p>\n".toList
  toStringPretty
    | .object [(k, .array [])] => "\x7b\n  ".toList ++ quoted k ++ ": []\n\x7d".toList
    | .object [(k, .array documents)] =>
      "\x7b\n  ".toList ++ quoted k ++ ": [\n".toList ++
        ",\n".toList.intercalate (documents.map plainDocument) ++ "\n  ]\n\x7d".toList
    | _ => []
  dateFromTimestamp := fun _ => some "1970-01-01".toList

def lineFile (line : String) : Option Entry := some (.file (Utf8.encode line.toList) 0)

/-! ## Whole runs -/

/-- **Never stale**: in a run whose steps overlook nothing, the loop is at rest with a fresh output
only, whatever changes and whenever the events come. -/
theorem never_stale (formats : Formats) (dir : Dir) (output : Option Str) (events : List Ev)
    (h : EachStep (step formats) Noticed (start dir output) events) :
    Throughout (step formats) (NotStale formats) (start dir output) events :=
  throughout_of_steps inv_step notStale_of_inv events (.inl trivial) h

theorem post_never_stale :
    Throughout (step plainFormats) (NotStale plainFormats) (start .empty none)
      [.tick, .tick, .tick, .tick,
        .change [(Utf8.encode "post.md".toList, lineFile "Hello")] .create,
        .deliver, .tick, .tick, .tick, .tick, .tick, .tick] := by
  refine never_stale plainFormats .empty none _ ?_
  refine .cons Phase.noConfusion rfl (.cons Phase.noConfusion rfl
    (.cons Phase.noConfusion rfl (.cons Phase.noConfusion rfl ?_)))
  -- the watcher is there by now
  refine .cons (fun h => absurd h.1 (by decide)) rfl (.cons trivial rfl ?_)
  exact .cons Phase.noConfusion rfl (.cons Phase.noConfusion rfl
    (.cons Phase.noConfusion rfl (.cons Phase.noConfusion rfl
      (.cons Phase.noConfusion rfl (.cons Phase.noConfusion rfl trivial)))))

theorem not_throughout_of_run {s s' : State} {events : List Ev}
    (hrun : events.foldlM (step formats) s = some s') (hrest : AtRest s')
    (hfailed : s'.failed = false) (hdiff : (process formats s'.dir).toOption ≠ s'.output) :
    ¬ Throughout (step formats) (NotStale formats) s events := by
  intro h
  obtain hf | ⟨text, hprocess, houtput⟩ := h.result hrun hrest
  · rw [hfailed] at hf
    exact Bool.false_ne_true hf
  · rw [hprocess, houtput] at hdiff
    exact hdiff rfl

/-- **Two changes are overlooked**: one whose event comes right behind the event of a style sheet,
and one between the first pass and the watcher. -/
theorem changes_overlooked :
    ¬ Throughout (step plainFormats) (NotStale plainFormats) (start .empty none)
        [.tick, .tick, .tick, .tick,
          .change [(Utf8.encode "site.css".toList, lineFile "p {}")] .modify,
          .change [(Utf8.encode "post.md".toList, lineFile "Hello")] .modify,
          .deliver, .deliver, .tick, .tick, .tick, .tick] ∧
      ¬ Throughout (step plainFormats) (NotStale plainFormats) (start .empty none)
        [.tick, .tick, .change [(Utf8.encode "post.md".toList, lineFile "Hello")] .create,
          .tick, .tick] :=
  ⟨not_throughout_of_run rfl ⟨rfl, rfl, rfl⟩ rfl (by decide),
    not_throughout_of_run rfl ⟨rfl, rfl, rfl⟩ rfl (by decide)⟩

end M6.Md
