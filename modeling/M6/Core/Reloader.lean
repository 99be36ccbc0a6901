import M6.Core.Reload
import M6.Lib.Runs

/-!
# The config reloader

`ConfigReloader` of `watcher.rs` watches `site.toml` and the config of a process. `on_readable` and
`tick` compare the fingerprints of both files with those last seen; `tick` reports what has changed
when it is due; `retry` asks for a report again.

A change is reported at once after quiet, and else held until the burst settles, or a second after
the last report. `prompt_iff` says in which runs, whatever happens to the files and however the
calls come, a report is due exactly while something waits for it, has everything that came since the
last one, and is neither late nor too close to the one before: in those where no `retry` pushes a
change out that waits already, and none asks for nothing.
-/

namespace M6.App

open Runs Option Bool

/-! ## The reloader -/

/-- What a change of a file shows in. Times are in nanoseconds. -/
structure Fingerprint where
  dev : Nat
  ino : Nat
  len : Nat
  mtimeNs : Int
  ctimeNs : Int
  deriving DecidableEq

structure Seen where
  site : Option Fingerprint
  process : Option Fingerprint

def reloadDebounce : Nat := 20000000

def reloadPoll : Nat := 1000000000

def retryCap : Nat := 60 * reloadPoll

def Changed.any (c : Changed) : Bool := c.site || c.process

def Changed.union (c d : Changed) : Changed := ⟨c.site || d.site, c.process || d.process⟩

structure ConfigReloader where
  seen : Seen
  pending : Changed
  /-- when the pending change is to be reported -/
  due : Option Nat
  lastReport : Option Nat
  nextPoll : Nat
  /-- consecutive reloads that were asked to be retried -/
  failures : Nat
  /-- the report that is due is a retry, and no change -/
  retrying : Bool

namespace ConfigReloader

def new (seen : Seen) (now : Nat) : ConfigReloader :=
  ⟨seen, ⟨false, false⟩, none, none, now + reloadPoll, 0, false⟩

def deadline (r : ConfigReloader) (now : Nat) : Nat :=
  match r.lastReport with
  | some last =>
    if now < last + reloadDebounce ∨ (r.due.isSome && !r.retrying) then
      max (min (now + reloadDebounce) (last + reloadPoll)) now
    else now
  | none => now

/-- Compare the files with what was seen. `forced` are those that an event named. -/
def compare (r : ConfigReloader) (now : Nat) (forced : Changed) (files : Seen) : ConfigReloader :=
  let site := forced.site || files.site != r.seen.site
  let process := forced.process || files.process != r.seen.process
  if !(site || process) then r
  else { r with
    seen := ⟨if site then files.site else r.seen.site,
      if process then files.process else r.seen.process⟩
    pending :=
      -- one file that serves as both
      if files.site.isSome && files.site == files.process then ⟨true, true⟩
      else r.pending.union ⟨site, process⟩
    failures := 0
    retrying := false
    due := some (r.deadline now) }

def onReadable (r : ConfigReloader) (now : Nat) (forced : Changed)
    (files : Seen) : ConfigReloader :=
  r.compare now forced files

def retryDelay (r : ConfigReloader) : Nat := min (reloadPoll * 2 ^ min r.failures 6) retryCap

def retry (r : ConfigReloader) (changed : Changed) (now : Nat) : ConfigReloader :=
  { r with
    failures := min (r.failures + 1) (2 ^ 32 - 1)
    pending := r.pending.union changed
    due := some (now + r.retryDelay)
    retrying := true }

def poll (r : ConfigReloader) (now : Nat) (files : Seen) : ConfigReloader :=
  if r.nextPoll ≤ now then
    { r.compare now ⟨false, false⟩ files with nextPoll := now + reloadPoll }
  else r

def isDue (r : ConfigReloader) (now : Nat) : Bool := r.due.any fun due => decide (due ≤ now)

def tick (r : ConfigReloader) (now : Nat) (files : Seen) : ConfigReloader × Option Changed :=
  let r := r.poll now files
  if r.isDue now then
    ({ r with due := none, retrying := false, lastReport := some now, pending := ⟨false, false⟩ },
      some r.pending)
  else (r, none)

end ConfigReloader

/-! ## Runs -/

inductive ReloaderCall where
  | onReadable (now : Nat) (forced : Changed) (files : Seen)
  | tick (now : Nat) (files : Seen)
  | retry (changed : Changed) (now : Nat)

def ReloaderCall.now : ReloaderCall → Nat
  | onReadable now _ _ => now
  | tick now _ => now
  | retry _ now => now

structure Report where
  time : Nat
  changed : Changed
  waiting : Changed
  retried : Bool

/-- A reloader that is watched. Only the first field is part of the source: the others are the time,
what waits for the next report, when a change was last found that does, and the reports so far, the
last one first. -/
structure Watched where
  reloader : ConfigReloader
  clock : Nat
  waiting : Changed
  foundAt : Option Nat
  reports : List Report

namespace Watched

def start (seen : Seen) (now : Nat) : Watched :=
  ⟨.new seen now, now, ⟨false, false⟩, none, []⟩

/-- What a comparison finds: a file that an event named, or whose fingerprint is another. -/
def found (seen : Seen) (forced : Changed) (files : Seen) : Changed :=
  let site := forced.site || files.site != seen.site
  let process := forced.process || files.process != seen.process
  if (site || process) && (files.site.isSome && files.site == files.process) then ⟨true, true⟩
  else ⟨site, process⟩

def compared (w : Watched) (now : Nat) (forced : Changed) (files : Seen) : Watched :=
  let changed := found w.reloader.seen forced files
  { w with
    reloader := w.reloader.compare now forced files
    clock := now
    waiting := w.waiting.union changed
    foundAt := if changed.any then some now else w.foundAt }

def polled (w : Watched) (now : Nat) (files : Seen) : Watched :=
  if w.reloader.nextPoll ≤ now then
    let w := w.compared now ⟨false, false⟩ files
    { w with reloader := { w.reloader with nextPoll := now + reloadPoll } }
  else { w with clock := now }

def reported (w : Watched) (now : Nat) (files : Seen) : Watched :=
  match w.reloader.tick now files with
  | (r, none) => { w.polled now files with reloader := r }
  | (r, some changed) => {
      reloader := r
      clock := now
      waiting := ⟨false, false⟩
      foundAt := none
      reports := ⟨now, changed, (w.polled now files).waiting,
        (w.polled now files).reloader.retrying⟩ ::
        w.reports }

def step (w : Watched) (call : ReloaderCall) : Option Watched :=
  if call.now < w.clock then none
  else some (match call with
    | .onReadable now forced files => w.compared now forced files
    | .tick now files => w.reported now files
    | .retry changed now => { w with
        reloader := w.reloader.retry changed now
        clock := now
        waiting := w.waiting.union changed })

end Watched

/-! ## What a run keeps -/

def Changed.Le (c d : Changed) : Prop := (c.site = true → d.site = true) ∧
    (c.process = true → d.process = true)

theorem Changed.Le.refl (c : Changed) : c.Le c := ⟨id, id⟩

theorem Changed.Le.union {c d e : Changed} (hc : c.Le e) (hd : d.Le e) : (c.union d).Le e := by
  refine ⟨fun h => ?_, fun h => ?_⟩
  · exact (or_eq_true_iff.mp h).elim hc.1 hd.1
  · exact (or_eq_true_iff.mp h).elim hc.2 hd.2

theorem Changed.Le.trans {c d e : Changed} (h : c.Le d) (h' : d.Le e) : c.Le e :=
  ⟨fun hc => h'.1 (h.1 hc), fun hc => h'.2 (h.2 hc)⟩

theorem Changed.le_union_left (c d : Changed) : c.Le (c.union d) :=
  ⟨fun h => by simp [Changed.union, h], fun h => by simp [Changed.union, h]⟩

theorem Changed.le_union_right (c d : Changed) : d.Le (c.union d) :=
  ⟨fun h => by simp [Changed.union, h], fun h => by simp [Changed.union, h]⟩

theorem Changed.Le.any {c d : Changed} (h : c.Le d) (hc : c.any = true) : d.any = true := by
  rw [Changed.any, or_eq_true] at hc ⊢
  exact hc.imp h.1 h.2

/-- The latest time at which what was found at `found` is to be reported. -/
def latest (lastReport : Option Nat) (found : Nat) : Nat :=
  match lastReport with
  | some last => max found (last + reloadPoll)
  | none => found

/-- **Nothing is lost or late.** A report is due exactly while something is pending. What waits is
pending, and what waited for a report was in it. What was found last is due by the time it was
found,
or a second after the last report. A report that is no retry is not too close to any before it. -/
structure Prompt (w : Watched) : Prop where
  due_iff : w.reloader.due.isSome = w.reloader.pending.any
  kept : w.waiting.Le w.reloader.pending
  complete : ∀ report ∈ w.reports, report.waiting.Le report.changed
  timely : ∀ found, w.foundAt = some found →
    ∃ due, w.reloader.due = some due ∧ due ≤ latest w.reloader.lastReport found
  apart : w.reports.Pairwise fun later earlier =>
    later.retried = false → earlier.time + reloadDebounce ≤ later.time

/-- What is true of the times besides. -/
structure Sound (w : Watched) : Prop extends Prompt w where
  past : ∀ last, w.reloader.lastReport = some last → last ≤ w.clock
  settled : ∀ last due, w.reloader.lastReport = some last → w.reloader.due = some due →
    w.reloader.retrying = false → last + reloadDebounce ≤ due
  reported : ∀ report ∈ w.reports, ∃ last, w.reloader.lastReport = some last ∧ report.time ≤ last

theorem sound_start (seen : Seen) (now : Nat) : Sound (.start seen now) where
  due_iff := rfl
  kept := Changed.Le.refl _
  complete := fun report h => by cases h
  timely := fun found h => by cases h
  apart := List.Pairwise.nil
  past := fun last h => by cases h
  settled := fun last due h => by cases h
  reported := fun report h => by cases h

namespace ConfigReloader

theorem deadline_le (r : ConfigReloader) (now : Nat) :
    now ≤ r.deadline now ∧ r.deadline now ≤ latest r.lastReport now := by
  rw [deadline]
  cases r.lastReport with
  | none => exact ⟨le_refl _, le_refl _⟩
  | some last =>
    dsimp only [latest]
    split_ifs <;> omega

theorem le_deadline {r : ConfigReloader} {now last : Nat} (hlast : r.lastReport = some last)
    (hpast : last ≤ now) : last + reloadDebounce ≤ r.deadline now := by
  have hpoll : reloadDebounce ≤ reloadPoll := by decide
  rw [deadline, hlast]
  dsimp only
  split_ifs with h <;> omega

/-- **What a comparison does**: nothing if it finds nothing, else what it finds is pending and
due. -/
theorem compare_cases (r : ConfigReloader) (now : Nat) (forced : Changed) (files : Seen) :
    ((Watched.found r.seen forced files).any = false ∧ r.compare now forced files = r) ∨
      ((Watched.found r.seen forced files).any = true ∧
        r.pending.Le (r.compare now forced files).pending ∧
        (Watched.found r.seen forced files).Le (r.compare now forced files).pending ∧
        (r.compare now forced files).due = some (r.deadline now) ∧
        (r.compare now forced files).retrying = false ∧
        (r.compare now forced files).lastReport = r.lastReport) := by
  rw [Watched.found, compare]
  generalize (forced.site || files.site != r.seen.site) = site
  generalize (forced.process || files.process != r.seen.process) = process
  by_cases hhit : (site || process) = true
  · refine Or.inr ?_
    simp only [hhit, Bool.not_true, false_eq_true, if_false, Bool.true_and]
    split_ifs
    · exact ⟨rfl, ⟨fun _ => rfl, fun _ => rfl⟩, Changed.Le.refl _, trivial, trivial, trivial⟩
    · exact ⟨hhit, Changed.le_union_left _ _, Changed.le_union_right _ _, trivial, trivial, trivial⟩
  · rw [not_eq_true] at hhit
    refine Or.inl ?_
    simp [hhit, Changed.any]

end ConfigReloader

namespace Sound

variable {w : Watched}

theorem compared (h : Sound w) {now : Nat} (hnow : w.clock ≤ now) (forced : Changed)
    (files : Seen) :
    Sound (w.compared now forced files) := by
  have hpast : ∀ last, w.reloader.lastReport = some last → last ≤ now :=
    fun last hlast => (h.past last hlast).trans hnow
  rcases w.reloader.compare_cases now forced files with
    ⟨hnone, hsame⟩ | ⟨hany, hpending, hfound, hdue, hretrying, hlast⟩
  · have hwaiting : w.waiting.union (Watched.found w.reloader.seen forced files) = w.waiting := by
      rw [Changed.any, or_eq_false_iff] at hnone
      rw [Changed.union, hnone.1, hnone.2, Bool.or_false, Bool.or_false]
    rw [Watched.compared, hsame, hwaiting, hnone]
    exact { h with past := hpast }
  · rw [Watched.compared, hany]
    refine ⟨⟨?_, ?_, h.complete, ?_, h.apart⟩, ?_, ?_, ?_⟩
    · rw [hdue]
      exact (hfound.any hany).symm
    · exact (h.kept.trans hpending).union hfound
    · intro found hfoundAt
      cases hfoundAt
      rw [hlast]
      exact ⟨_, hdue, (w.reloader.deadline_le now).2⟩
    · intro last hl
      exact hpast last (hlast ▸ hl)
    · intro last due hl hd _
      rw [hlast] at hl
      cases hdue.symm.trans hd
      exact ConfigReloader.le_deadline hl (hpast last hl)
    · intro report hreport
      obtain ⟨last, hl, hle⟩ := h.reported report hreport
      exact ⟨last, hlast.trans hl, hle⟩

theorem polled (h : Sound w) {now : Nat} (hnow : w.clock ≤ now) (files : Seen) :
    Sound (w.polled now files) := by
  rw [Watched.polled]
  split_ifs
  · have hcompared := h.compared hnow ⟨false, false⟩ files
    exact { hcompared with }
  · exact { h with past := fun last hlast => (h.past last hlast).trans hnow }

end Sound

theorem reloader_polled (w : Watched) (now : Nat) (files : Seen) :
    (w.polled now files).reloader = w.reloader.poll now files := by
  rw [Watched.polled, ConfigReloader.poll]
  split_ifs <;> rfl

namespace Sound

variable {w : Watched}

theorem reported_tick (h : Sound w) {now : Nat} (hnow : w.clock ≤ now) (files : Seen) :
    Sound (w.reported now files) := by
  have hpolled := h.polled hnow files
  have hreloader := reloader_polled w now files
  have hreports : (w.polled now files).reports = w.reports := by
    rw [Watched.polled]
    split_ifs <;> rfl
  rw [Watched.reported, ConfigReloader.tick, ← hreloader]
  dsimp only
  by_cases hdue : (w.polled now files).reloader.isDue now = true
  · rw [if_pos hdue]
    dsimp only
    obtain ⟨due, hsome, hle⟩ : ∃ due, (w.polled now files).reloader.due = some due ∧ due ≤ now := by
      rw [ConfigReloader.isDue] at hdue
      cases hd : (w.polled now files).reloader.due with
      | none =>
        rw [hd] at hdue
        cases hdue
      | some due =>
        rw [hd] at hdue
        exact ⟨due, rfl, by simpa using hdue⟩
    refine ⟨⟨rfl, Changed.Le.refl _, ?_, ?_, ?_⟩, ?_, ?_, ?_⟩
    · intro report hreport
      rcases List.mem_cons.mp hreport with rfl | hreport
      · exact hpolled.kept
      · exact h.complete report hreport
    · intro found hfound
      cases hfound
    · refine List.pairwise_cons.mpr ⟨fun earlier hearlier hretried => ?_, h.apart⟩
      obtain ⟨last, hlast, hbefore⟩ := hpolled.reported earlier (hreports ▸ hearlier)
      have hafter := hpolled.settled last due hlast hsome hretried
      exact (Nat.add_le_add_right hbefore _).trans (hafter.trans hle)
    · intro last hlast
      cases hlast
      exact le_refl _
    · intro last due _ hd
      cases hd
    · intro report hreport
      refine ⟨now, rfl, ?_⟩
      rcases List.mem_cons.mp hreport with rfl | hreport
      · exact le_refl _
      · obtain ⟨last, hlast, hbefore⟩ := h.reported report hreport
        exact hbefore.trans ((h.past last hlast).trans hnow)
  · rw [if_neg hdue]
    exact hpolled

end Sound

/-- **A retry that is in order**: there is something to report, and what was found and waits stays
due in time. Its delay is at least a second, so that what waits is not found, or was found at the
very time of the last report. -/
def InOrder (w : Watched) (call : ReloaderCall) : Prop :=
  match call with
  | .retry changed now => w.clock ≤ now →
      (w.reloader.pending.union changed).any = true ∧
        ∀ found, w.foundAt = some found →
          now + w.reloader.retryDelay ≤ latest w.reloader.lastReport found
  | _ => True

namespace Sound

variable {w w' : Watched} {call : ReloaderCall}

theorem step (h : Sound w) (horder : InOrder w call) (hstep : w.step call = some w') :
    Sound w' := by
  unfold Watched.step at hstep
  split_ifs at hstep with htime
  cases hstep
  rw [not_lt] at htime
  cases call with
  | onReadable now forced files => exact h.compared htime forced files
  | tick now files => exact h.reported_tick htime files
  | retry changed now =>
    obtain ⟨hany, htimely⟩ := horder htime
    refine ⟨⟨hany.symm, ?_, h.complete, ?_, h.apart⟩, ?_, ?_, h.reported⟩
    · exact (h.kept.trans (Changed.le_union_left _ _)).union (Changed.le_union_right _ _)
    · exact fun found hfound => ⟨_, rfl, htimely found hfound⟩
    · exact fun last hlast => (h.past last hlast).trans htime
    · intro last due _ _ hretrying
      cases hretrying

theorem not_prompt (horder : ¬ InOrder w call) : ∃ w', w.step call = some w' ∧ ¬ Prompt w' := by
  cases call with
  | onReadable now forced files | tick now files => exact absurd trivial horder
  | retry changed now =>
    rw [InOrder, Classical.not_imp, not_and_or] at horder
    obtain ⟨htime, hbad⟩ := horder
    refine ⟨_, if_neg (not_lt.mpr htime), fun hprompt => ?_⟩
    rcases hbad with hempty | hlate
    · exact hempty hprompt.due_iff.symm
    · refine hlate fun found hfound => ?_
      obtain ⟨due, hdue, hle⟩ := hprompt.timely found hfound
      cases hdue
      exact hle

end Sound

/-- **In which runs nothing is lost or late.** However a reloader starts, whatever happens to the
files and however the calls come in time: every state of the run is prompt if and only if every
retry is in order. -/
theorem prompt_iff (seen : Seen) (start : Nat) (calls : List ReloaderCall) :
    Throughout Watched.step Prompt (.start seen start) calls ↔
      EachStep Watched.step InOrder (.start seen start) calls :=
  throughout_iff_eachStep (fun _ h => h.toPrompt) (fun _ _ _ h horder hstep => h.step horder hstep)
    (fun _ _ _ horder => Sound.not_prompt horder) calls (sound_start seen start)

def noFiles : Seen := ⟨none, none⟩

/-- A file that changes, is reported, changes again within the window, and then a retry. -/
def burstAndRetry : List ReloaderCall :=
  [.onReadable 0 ⟨true, false⟩ noFiles, .tick 0 noFiles, .onReadable 1000000 ⟨true, false⟩ noFiles,
    .retry ⟨true, false⟩ 2000000]

theorem retry_delays : ¬ Throughout Watched.step Prompt (.start noFiles 0) burstAndRetry := by
  intro h
  obtain ⟨due, hdue, hle⟩ := (h.result rfl).timely 1000000 rfl
  cases hdue
  exact absurd hle (by decide)

end M6.App
