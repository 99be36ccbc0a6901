import M6.Lib.Lines
import M6.Lib.Machine
import M6.Lib.Utf8
import Mathlib.Data.PNat.Basic

/-!
# The recent end of a log

`read_recent_counted` of m6-core's `log.rs` gives the end of a log for the counts that raise alarms.
It reads the end of the live file, and, when that was shorter than what was asked for, looks for
the newest file that was rotated away and puts its end in front.

Meanwhile others write to the files and rotate them: an `Event` appends to a file, renames the live
file to a name with a stamp, or makes a new live file. A `Schedule` says which happen before each
step of the reader, and which steps fail. `Intact` says that no record is lost or repeated.

`intact_of_same` is that this is so in every schedule in which the rotated file is the one it was
when the live file was opened, or is not read. `read_twice` is a rotation between the two reads:
both then read the same file.
-/

namespace M6.RecentLog

open List Lines Utf8 Option

/-! ## The directory -/

/-- A file. It keeps what it holds when it is renamed, for those who have it open. -/
structure LogFile where
  content : Bytes
  mtime : Int

/-- The names, in the order in which the directory lists them, and the files they stand for. -/
structure LogDir where
  entries : List (Str × Nat)
  files : List LogFile

namespace LogDir

def inode (d : LogDir) (name : Str) : Option Nat := d.entries.lookup name

def content (d : LogDir) (i : Nat) : Bytes := (d.files[i]?.map LogFile.content).getD []

def mtime (d : LogDir) (i : Nat) : Int := (d.files[i]?.map LogFile.mtime).getD 0

end LogDir

/-- What happens to the directory while it is read. -/
inductive Event where
  /-- a writer, who may hold a file that was renamed, appends to it -/
  | append (inode : Nat) (bytes : Bytes) (time : Int)
  /-- the live file gets a name with a stamp, if there is none of that name -/
  | rename (stamp : Str)
  /-- a new live file, if there is none -/
  | create (time : Int)

section

variable (live : Str)

def rotatedName (stamp : Str) : Str := live ++ '-' :: stamp

namespace LogDir

def happen (d : LogDir) : Event → LogDir
  | .append i bytes time =>
    { d with files := d.files.modify i fun f => ⟨f.content ++ bytes, time⟩ }
  | .rename stamp =>
    if (d.inode (rotatedName live stamp)).isSome then d
    else
      { d with
        entries := d.entries.map fun e => if e.1 = live then (rotatedName live stamp, e.2) else e }
  | .create time =>
    if (d.inode live).isSome then d
    else ⟨d.entries ++ [(live, d.files.length)], d.files ++ [⟨[], time⟩]⟩

def after (d : LogDir) (events : List Event) : LogDir := events.foldl (happen live) d

theorem after_append (d : LogDir) (a b : List Event) :
    d.after live (a ++ b) = (d.after live a).after live b := foldl_append

/-- What never changes: a file keeps what it holds, and a name that is not the live file's keeps
its file. -/
structure Grown (d d' : LogDir) : Prop where
  content : ∀ i, d.content i <+: d'.content i
  inode : ∀ n i, n ≠ live → d.inode n = some i → d'.inode n = some i

end LogDir

end

namespace LogDir.Grown

variable {live : Str} {d d' d'' : LogDir}

theorem refl (d : LogDir) : d.Grown live d :=
  ⟨fun _ => prefix_refl _, fun _ _ _ h => h⟩

theorem trans (h : d.Grown live d') (h' : d'.Grown live d'') : d.Grown live d'' :=
  ⟨fun i => (h.content i).trans (h'.content i),
    fun n i hn hi => h'.inode n i hn (h.inode n i hn hi)⟩

theorem lookup_rename {target n : Str} {i : Nat} (hn : n ≠ live) (entries : List (Str × Nat))
    (h : entries.lookup n = some i) :
    (entries.map fun e => if e.1 = live then (target, e.2) else e).lookup n = some i ∨
      n = target := by
  by_cases heq : n = target
  · exact .inr heq
  refine .inl ?_
  induction entries with
  | nil => cases h
  | cons e entries ih =>
    obtain ⟨m, j⟩ := e
    rw [map_cons]
    by_cases hm : m = live
    · subst hm
      rw [lookup_cons, beq_eq_false_iff_ne.mpr hn] at h
      rw [if_pos rfl, lookup_cons, beq_eq_false_iff_ne.mpr heq]
      exact ih h
    · rw [if_neg hm]
      rw [lookup_cons] at h ⊢
      by_cases hnm : n = m
      · simpa [hnm] using h
      · rw [beq_eq_false_iff_ne.mpr hnm] at h ⊢
        exact ih h

theorem of_happen (d : LogDir) (e : Event) : d.Grown live (d.happen live e) := by
  cases e with
  | append i bytes time =>
    refine ⟨fun j => ?_, fun _ _ _ h => h⟩
    simp only [LogDir.content, happen, getElem?_modify]
    by_cases hij : i = j
    · subst hij
      cases d.files[i]? with
      | none => exact prefix_refl _
      | some f => simp
    · simp [hij]
  | rename stamp =>
    simp only [happen]
    split_ifs with h
    · exact refl d
    · refine ⟨fun _ => prefix_refl _, fun n i hn hi => ?_⟩
      refine (lookup_rename hn d.entries hi).resolve_right ?_
      rintro rfl
      exact h (by rw [hi]; rfl)
  | create time =>
    simp only [happen]
    split_ifs with h
    · exact refl d
    · refine ⟨fun j => ?_, fun n i hn hi => ?_⟩
      · simp only [LogDir.content]
        cases hj : d.files[j]? with
        | none => exact nil_prefix
        | some f => rw [getElem?_append_left (List.getElem?_eq_some_iff.mp hj).1, hj]
      · simp only [LogDir.inode] at hi ⊢
        rw [lookup_append, hi]
        rfl

theorem of_after (d : LogDir) (events : List Event) : d.Grown live (d.after live events) := by
  induction events generalizing d with
  | nil => exact refl d
  | cons e events ih => exact (of_happen d e).trans (ih _)

end LogDir.Grown

/-! ## The names -/

/-- `Path::extension` of a file's name: what is behind the last dot, if there is something before
it. -/
def extension (name : Str) : Option Str :=
  let ext := (name.reverse.takeWhile (· ≠ '.')).reverse
  if ext.length + 1 < name.length then some ext else none

def isGz (name : Str) : Bool := extension name = some "gz".toList

structure Rotated where
  stamp : Str
  gz : Bool
  name : Str

/-- What a name of the directory says: behind the live file's name are ten digits. -/
def candidate (live name : Str) : Option Rotated :=
  match Text.stripPrefix (live ++ ['-']) name with
  | none => none
  | some rest =>
    let gz := decide (".gz".toList <:+ rest)
    let stamp := if gz then rest.take (rest.length - ".gz".toList.length) else rest
    if stamp.length ≠ 10 ∨ !stamp.all Char.isDigit then none else some ⟨stamp, gz, name⟩

/-- Whether a file is taken instead of the best so far. -/
def better : Option Rotated → Rotated → Bool
  | none, _ => true
  | some best, r => best.stamp < r.stamp || (r.stamp == best.stamp && best.gz && !r.gz)

def newestRotated (live : Str) (d : LogDir) : Option Str :=
  ((d.entries.filterMap fun e => candidate live e.1).foldl
    (fun best r => if better best r then some r else best) none).map Rotated.name

theorem mem_of_best {rs : List Rotated} {best : Option Rotated} {r : Rotated}
    (h : rs.foldl (fun best r => if better best r then some r else best) best = some r) :
    best = some r ∨ r ∈ rs := by
  induction rs generalizing best with
  | nil => exact .inl h
  | cons r' rs ih =>
    rcases ih h with hbest | hmem
    · dsimp only at hbest
      split_ifs at hbest
      · exact .inr (some.inj hbest ▸ mem_cons_self)
      · exact .inl hbest
    · exact .inr (mem_cons_of_mem _ hmem)

theorem candidate_some {live name : Str} {r : Rotated} (h : candidate live name = some r) :
    r.name = name ∧ name ≠ live := by
  rw [candidate] at h
  split at h
  · cases h
  · rename_i rest hrest
    dsimp only at h
    refine ⟨by split_ifs at h <;> rw [← some.inj h], ?_⟩
    rintro rfl
    rw [Text.stripPrefix] at hrest
    split_ifs at hrest with hprefix
    have := hprefix.length_le
    simp at this

theorem newestRotated_some {live : Str} {d : LogDir} {n : Str}
    (h : newestRotated live d = some n) : n ≠ live ∧ ∃ i, d.inode n = some i := by
  obtain ⟨r, hr, rfl⟩ := map_eq_some_iff.mp h
  obtain hr | hr := mem_of_best hr
  · cases hr
  obtain ⟨⟨name, i⟩, hmem, hcand⟩ := mem_filterMap.mp hr
  obtain ⟨hname, hne⟩ := candidate_some hcand
  rw [hname]
  refine ⟨hne, ?_⟩
  cases hlook : d.entries.lookup name with
  | some j => exact ⟨j, hlook⟩
  | none => exact absurd (lookup_eq_none_iff.mp hlook _ hmem) (by simp)

/-! ## Reading a file that grows -/

/-- One call of `read`. -/
structure Call where
  before : List Event
  /-- the bytes it can take -/
  room : ℕ+

def limited (left : Option Nat) (bytes : Bytes) : Bytes := left.elim bytes bytes.take

/-- `read_to_end`, with or without `take(left)`, from a place of the file: calls until one gives
nothing. It gives the directory as it is then, too. -/
def readToEnd (live : Str) (i : Nat) : LogDir → Nat → Option Nat → List Call → Bytes × LogDir
  | d, pos, left, [] => (limited left ((d.content i).drop pos), d)
  | d, pos, left, call :: calls =>
    let d := d.after live call.before
    let got := limited left (((d.content i).drop pos).take call.room)
    if got = [] then ([], d)
    else
      let rest := readToEnd live i d (pos + got.length) (left.map (· - got.length)) calls
      (got ++ rest.1, rest.2)

theorem limited_eq_take (left : Option Nat) (bytes : Bytes) :
    ∃ k, limited left bytes = bytes.take k := by
  cases left with
  | none => exact ⟨bytes.length, (take_length ..).symm⟩
  | some m => exact ⟨m, rfl⟩

variable {left : Option Nat}

theorem limited_append {got : Bytes} (h : ∀ m, left = some m → got.length ≤ m) (rest : Bytes) :
    limited left (got ++ rest) = got ++ limited (left.map (· - got.length)) rest := by
  cases left with
  | none => rfl
  | some m =>
    simp only [limited, elim_some, map_some]
    rw [take_append, take_of_length_le (h m rfl)]

theorem length_limited_le (bytes : Bytes) :
    ∀ m, left = some m → (limited left bytes).length ≤ m := by
  rintro m rfl
  exact length_take_le m bytes

theorem limited_of_nothing {bytes : Bytes} {room : ℕ+}
    (h : limited left (bytes.take room) = []) : limited left bytes = [] := by
  have hroom := room.pos
  cases left with
  | none =>
    rcases take_eq_nil_iff.mp h with h | h
    · omega
    · exact h
  | some m =>
    simp only [limited, elim_some, take_take, take_eq_nil_iff] at h ⊢
    exact h.imp_left fun hmin => by omega

/-- **What is read** is what the file holds from the place on, when the last call is made. -/
theorem readToEnd_eq (live : Str) (i : Nat) (d : LogDir) (pos : Nat) (left : Option Nat)
    (calls : List Call) :
    d.Grown live (readToEnd live i d pos left calls).2 ∧ (readToEnd live i d pos left calls).1 =
        limited left (((readToEnd live i d pos left calls).2.content i).drop pos) := by
  induction calls generalizing d pos left with
  | nil => exact ⟨.refl d, rfl⟩
  | cons call calls ih =>
    have hafter : d.Grown live (d.after live call.before) := .of_after d call.before
    rw [readToEnd]
    generalize d.after live call.before = d₁ at hafter ⊢
    dsimp only
    split_ifs with hgot
    · exact ⟨hafter, (limited_of_nothing hgot).symm⟩
    · generalize hg : limited left (((d₁.content i).drop pos).take call.room) = got
      obtain ⟨hgrown, hread⟩ := ih d₁ (pos + got.length) (left.map (· - got.length))
      refine ⟨hafter.trans hgrown, ?_⟩
      dsimp only
      rw [hread]
      generalize (readToEnd live i d₁ (pos + got.length) (left.map (· - got.length)) calls).2 = d₂
        at hgrown
      -- what the call gave is what the file holds there to the end
      have hprefix : got <+: (d₂.content i).drop pos := by
        obtain ⟨k, hk⟩ := limited_eq_take left (((d₁.content i).drop pos).take call.room)
        rw [← hg, hk]
        exact ((List.take_prefix _ _).trans (List.take_prefix _ _)).trans
          ((hgrown.content i).drop pos)
      obtain ⟨rest, hrest⟩ := hprefix
      have hbehind : (d₂.content i).drop (pos + got.length) = rest := by
        rw [← drop_drop, ← hrest, drop_left]
      rw [hbehind, ← hrest, limited_append]
      exact hg ▸ length_limited_le _

/-! ## Compressed files -/

/-- How a step fails. -/
inductive Failure where
  | io
  | panic (p : Machine.Panic)

/-- **A decoder.** What its reads give one after the other when the file holds such bytes, and
whether the last one fails: the file is cut short, or is no such file. -/
structure Gunzip where
  reads : Bytes → List Bytes × Bool
  /-- it decodes as it reads, so what comes later in the file changes nothing before -/
  grows : ∀ {a b}, a <+: b → (reads a).1.flatten <+: (reads b).1.flatten

namespace Gunzip

variable (g : Gunzip)

def fed (fails : Option Nat) (raw : Bytes) : List Bytes × Bool :=
  match fails with
  | none => g.reads raw
  | some n => ((g.reads (raw.take n)).1, true)

def seen (name : Str) (fails : Option Nat) (raw : Bytes) : Bytes :=
  if isGz name then (g.fed fails raw).1.flatten else raw

variable {g}

theorem seen_mono (name : Str) (fails : Option Nat) {a b : Bytes} (h : a <+: b) :
    g.seen name fails a <+: g.seen name none b := by
  rw [seen, seen]
  split_ifs
  · cases fails with
    | none => exact g.grows h
    | some n => exact g.grows ((List.take_prefix n a).trans h)
  · exact h

end Gunzip

def lastBytes (k : Nat) (bytes : Bytes) : Bytes := bytes.drop (bytes.length - k)

theorem lastBytes_append (k : Nat) (a b : Bytes) :
    lastBytes k (lastBytes k a ++ b) = lastBytes k (a ++ b) := by
  rw [lastBytes, lastBytes, lastBytes]
  rcases Nat.le_total a.length k with hle | hge
  · rw [Nat.sub_eq_zero_of_le hle, drop_zero]
  · have hlen : (a.drop (a.length - k)).length = k := by
      rw [length_drop]
      omega
    have hcut : (a ++ b).drop (a.length - k) = a.drop (a.length - k) ++ b :=
      drop_append_of_le_length (Nat.sub_le _ _)
    rw [← hcut, drop_drop, hcut, length_append, hlen, length_append]
    congr 1
    omega

/-- The loop of `append_tail` for a compressed file: at most twice as much is kept as is wanted. -/
def keepTail (maxBytes : Nat) : Bytes → List Bytes → Except Machine.Panic Bytes
  | kept, [] => .ok kept
  | kept, chunk :: chunks =>
    match Machine.add Machine.usize maxBytes maxBytes with
    | .error p => .error p
    | .ok twice =>
      let kept := kept ++ chunk
      keepTail maxBytes (if twice < kept.length then lastBytes maxBytes kept else kept) chunks

theorem lastBytes_keepTail {maxBytes : Nat} {kept : Bytes} {chunks : List Bytes} {kept' : Bytes}
    (h : keepTail maxBytes kept chunks = .ok kept') :
    lastBytes maxBytes kept' = lastBytes maxBytes (kept ++ chunks.flatten) := by
  induction chunks generalizing kept with
  | nil =>
    rw [← Except.ok.inj h, flatten_nil, append_nil]
  | cons chunk chunks ih =>
    rw [keepTail] at h
    split at h
    · cases h
    · have h := ih h
      rw [h, flatten_cons, ← append_assoc]
      split_ifs
      · exact lastBytes_append _ _ _
      · rfl

/-! ## The two reads -/

inductive Step where
  | list
  | stamp
  | openFile
  | size
  /-- a read, behind so many bytes -/
  | read (got : Nat)
  deriving DecidableEq

/-- What happens before each step, and what fails. -/
structure Schedule where
  toMeasure : List Event
  liveCalls : List Call
  /-- the reads of the live file fail behind so many bytes -/
  liveFails : Option Nat
  toLookup : List Event
  toStamp : List Event
  toOpen : List Event
  toSize : List Event
  calls : List Call
  trouble : Option Step

def Schedule.readFails (s : Schedule) : Option Nat :=
  match s.trouble with
  | some (.read got) => some got
  | _ => none

structure RecentStats where
  rotatedOpened : Bool
  rotatedBytes : Nat

section

variable (g : Gunzip) (live : Str) (maxBytes : Nat) (since : Int) (s : Schedule)

def liveRead (i : Nat) (d : LogDir) : Bytes × LogDir :=
  let d := d.after live s.toMeasure
  readToEnd live i d (if isGz live then 0 else (d.content i).length - maxBytes) none s.liveCalls

/-- `append_tail` of the live file. -/
def appendTail (d : LogDir) : Except Failure (Bytes × LogDir) :=
  match d.inode live with
  | none => .error .io
  | some i =>
    let read := liveRead live maxBytes s i d
    if isGz live then
      let fed := g.fed s.liveFails read.1
      match keepTail maxBytes [] fed.1 with
      | .error p => .error (.panic p)
      | .ok kept =>
        if kept = [] ∧ fed.2 then .error .io else .ok (lastBytes maxBytes kept, read.2)
    else if s.liveFails.isSome then .error .io
    else .ok read

def fromLeBytes (bytes : Bytes) : Nat := bytes.foldr (fun b n => b.toNat + 256 * n) 0

/-- The part of `append_rotated` that is for a compressed file, once its size is known. -/
def appendGz (i : Nat) (d : LogDir) : Except Failure Bytes × RecentStats :=
  let len := (d.content i).length
  if maxBytes < len ∨ len < 4 then (.ok [], ⟨true, 0⟩)
  else if maxBytes < fromLeBytes ((d.content i).drop (len - 4)) then (.ok [], ⟨true, 0⟩)
  else
    match Machine.add Machine.usize maxBytes 1 with
    | .error p => (.error (.panic p), ⟨true, 0⟩)
    | .ok most =>
      let fed := g.fed s.readFails (readToEnd live i d 0 none s.calls).1
      let decoded := fed.1.flatten.take most
      if maxBytes < decoded.length then (.ok [], ⟨true, decoded.length⟩)
      else if fed.2 ∧ decoded = [] then (.error .io, ⟨true, 0⟩)
      else (.ok decoded, ⟨true, decoded.length⟩)

def appendRotated (name : Str) (d : LogDir) : Except Failure Bytes × RecentStats :=
  let d := d.after live s.toOpen
  match d.inode name with
  | none => (.error .io, ⟨false, 0⟩)
  | some i =>
    if s.trouble = some .openFile then (.error .io, ⟨false, 0⟩)
    else
      let d := d.after live s.toSize
      if s.trouble = some .size then (.error .io, ⟨true, 0⟩)
      else if isGz name then appendGz g live maxBytes s i d
      else if s.readFails.isSome then (.error .io, ⟨true, 0⟩)
      else
        let bytes :=
          (readToEnd live i d ((d.content i).length - maxBytes) (some maxBytes) s.calls).1
        (.ok bytes, ⟨true, bytes.length⟩)

def terminated (out : Bytes) : Bytes := if out.getLast?.any (· ≠ 10) then out ++ [10] else out

def rotatedPart (tail : Bytes) (d : LogDir) : Except Failure (Bytes × RecentStats) :=
  if tail.length < maxBytes then
    let d := d.after live s.toLookup
    match if s.trouble = some .list then none else newestRotated live d with
    | none => .ok ([], ⟨false, 0⟩)
    | some name =>
      let d := d.after live s.toStamp
      if s.trouble ≠ some .stamp ∧ (d.inode name).any fun i => since ≤ d.mtime i then
        match appendRotated g live maxBytes s name d with
        | (.error (.panic p), _) => .error (.panic p)
        | (.error .io, stats) => .ok ([], stats)
        | (.ok out, stats) => .ok (terminated out, stats)
      else .ok ([], ⟨false, 0⟩)
  else .ok ([], ⟨false, 0⟩)

def intoText (bytes : Bytes) : Str := (fromUtf8? bytes).getD (decodeLossy bytes)

def readRecentCounted (d : LogDir) : Except Failure (Str × RecentStats) :=
  match appendTail g live maxBytes s d with
  | .error f => .error f
  | .ok (tail, d) =>
    match rotatedPart g live maxBytes since s tail d with
    | .error f => .error f
    | .ok (out, stats) => .ok (intoText (out ++ tail), stats)

end

/-! ## What the reads give -/

section

variable {g : Gunzip} {live : Str} {maxBytes : Nat} {since : Int} {s : Schedule} {d : LogDir}

/-- **The live file**: the end of what was seen in it, with its last `maxBytes` at least. -/
theorem appendTail_ok {tail : Bytes} {d' : LogDir}
    (h : appendTail g live maxBytes s d = .ok (tail, d')) :
    ∃ i p, d.inode live = some i ∧ d' = (liveRead live maxBytes s i d).2 ∧ d.Grown live d' ∧
      tail = (g.seen live s.liveFails (d'.content i)).drop p ∧
      p ≤ (g.seen live s.liveFails (d'.content i)).length - maxBytes := by
  rw [appendTail] at h
  split at h
  · cases h
  rename_i i hi
  have hafter : d.Grown live (d.after live s.toMeasure) := .of_after d s.toMeasure
  obtain ⟨hgrown, hread⟩ := readToEnd_eq live i (d.after live s.toMeasure)
    (if isGz live then 0 else ((d.after live s.toMeasure).content i).length - maxBytes) none
    s.liveCalls
  change (liveRead live maxBytes s i d).1 = _ at hread
  change LogDir.Grown live _ (liveRead live maxBytes s i d).2 at hgrown
  change _ = limited none (((liveRead live maxBytes s i d).2.content i).drop _) at hread
  dsimp only at h
  generalize hr : liveRead live maxBytes s i d = read at h hgrown hread
  rw [limited, elim_none] at hread
  by_cases hgz : isGz live
  · -- a compressed file is decoded from its start
    rw [if_pos hgz] at h hread
    split at h
    · cases h
    rename_i kept hkept
    split_ifs at h
    cases h
    refine ⟨i, _, hi, by rw [hr], hafter.trans hgrown, ?_, le_rfl⟩
    rw [lastBytes_keepTail hkept, hread, drop_zero, Gunzip.seen, if_pos hgz, nil_append]
    rfl
  · -- a plain file is read from where its last bytes began when it was measured
    rw [if_neg hgz] at h hread
    split_ifs at h
    cases h
    refine ⟨i, ((d.after live s.toMeasure).content i).length - maxBytes, hi, by rw [hr],
      hafter.trans hgrown, ?_, ?_⟩
    · rw [Gunzip.seen, if_neg hgz]
      exact hread
    · rw [Gunzip.seen, if_neg hgz]
      exact Nat.sub_le_sub_right (hgrown.content i).length_le _

theorem grown_readToEnd (live : Str) (i : Nat) (d : LogDir) (pos : Nat) (left : Option Nat)
    (calls : List Call) : (readToEnd live i d pos left calls).2.Grown live
      (d.after live (calls.flatMap Call.before)) := by
  induction calls generalizing d pos left with
  | nil => exact .refl d
  | cons call calls ih =>
    rw [readToEnd, flatMap_cons, LogDir.after_append]
    dsimp only
    split_ifs
    · exact .of_after _ _
    · exact ih _ _ _

variable (live s d)

/-- The directory when the rotated file is looked up, behind the reading of the live file. -/
def looked : LogDir := d.after live s.toLookup

def stamped : LogDir := (looked live s d).after live s.toStamp

def sized : LogDir := ((stamped live s d).after live s.toOpen).after live s.toSize

/-- The directory when the reading is over. -/
def done : LogDir := (sized live s d).after live (s.calls.flatMap Call.before)

theorem looked_grown_stamped : (looked live s d).Grown live (stamped live s d) := .of_after _ _

theorem stamped_grown_sized : (stamped live s d).Grown live (sized live s d) :=
  (LogDir.Grown.of_after _ _).trans (.of_after _ _)

theorem sized_grown_done : (sized live s d).Grown live (done live s d) := .of_after _ _

theorem grown_done : d.Grown live (done live s d) :=
  (LogDir.Grown.of_after d _).trans ((looked_grown_stamped live s d).trans
    ((stamped_grown_sized live s d).trans (sized_grown_done live s d)))

variable {live s d}

variable {stats : RecentStats}

/-- **A compressed file** is taken whole or not at all. -/
theorem appendGz_ok {i : Nat} {out : Bytes}
    (h : appendGz g live maxBytes s i (sized live s d) = (.ok out, stats)) :
    out = [] ∨ ∃ raw, raw <+: (done live s d).content i ∧
      out = (g.fed s.readFails raw).1.flatten := by
  obtain ⟨-, hread⟩ := readToEnd_eq live i (sized live s d) 0 none s.calls
  have hgrown := grown_readToEnd live i (sized live s d) 0 none s.calls
  rw [appendGz] at h
  dsimp only at h
  split_ifs at h
  · exact .inl (Except.ok.inj (Prod.mk.inj h).1).symm
  · exact .inl (Except.ok.inj (Prod.mk.inj h).1).symm
  split at h
  · cases (Prod.mk.inj h).1
  rename_i most hmost
  obtain rfl := Machine.add_eq_ok hmost
  split_ifs at h with hmore
  · exact .inl (Except.ok.inj (Prod.mk.inj h).1).symm
  · cases (Prod.mk.inj h).1
  · refine .inr ⟨(readToEnd live i (sized live s d) 0 none s.calls).1, ?_, ?_⟩
    · rw [hread]
      exact hgrown.content i
    · rw [← Except.ok.inj (Prod.mk.inj h).1, take_of_length_le]
      rw [length_take] at hmore
      omega

/-- What `append_rotated` gives of a file, none of whose steps failed, is the end of what it saw. -/
theorem appendRotated_ok {n : Str} {j : Nat} {out : Bytes} (hne : n ≠ live)
    (hj : (stamped live s d).inode n = some j)
    (h : appendRotated g live maxBytes s n (stamped live s d) = (.ok out, stats)) :
    out = [] ∨ ∃ seen p, out = seen.drop p ∧ (s.trouble ≠ some .openFile ∧ s.trouble ≠ some .size ∧
        (isGz n = false → s.readFails = none)) ∧
      seen <+: g.seen n none ((done live s d).content j) ∧
      (isGz n = false → (sized live s d).content j <+: seen) := by
  have hopened : ((stamped live s d).after live s.toOpen).inode n = some j :=
    (LogDir.Grown.of_after _ _).inode n j hne hj
  rw [appendRotated] at h
  dsimp only at h
  rw [hopened] at h
  have hdir : ((stamped live s d).after live s.toOpen).after live s.toSize = sized live s d := rfl
  dsimp only at h
  rw [hdir] at h
  by_cases hopen : s.trouble = some .openFile
  · rw [if_pos hopen] at h
    cases (Prod.mk.inj h).1
  rw [if_neg hopen] at h
  by_cases hsize : s.trouble = some .size
  · rw [if_pos hsize] at h
    cases (Prod.mk.inj h).1
  rw [if_neg hsize] at h
  by_cases hgz : isGz n
  · rw [if_pos hgz] at h
    refine (appendGz_ok h).imp_right ?_
    rintro ⟨raw, hraw, rfl⟩
    refine ⟨_, 0, rfl, ⟨hopen, hsize, fun hplain => ?_⟩, ?_, fun hplain => ?_⟩
    · rw [hgz] at hplain
      cases hplain
    · have hseen := g.seen_mono n s.readFails hraw
      rwa [Gunzip.seen, if_pos hgz] at hseen
    · rw [hgz] at hplain
      cases hplain
  · rw [if_neg hgz] at h
    by_cases hfails : s.readFails.isSome
    · rw [if_pos hfails] at h
      cases (Prod.mk.inj h).1
    rw [if_neg hfails] at h
    obtain ⟨hheld, hread⟩ := readToEnd_eq live j (sized live s d)
      (((sized live s d).content j).length - maxBytes) (some maxBytes) s.calls
    have hgrown := grown_readToEnd live j (sized live s d)
      (((sized live s d).content j).length - maxBytes) (some maxBytes) s.calls
    have hout := Except.ok.inj (Prod.mk.inj h).1
    rw [hread, limited, elim_some] at hout
    generalize (readToEnd live j (sized live s d)
      (((sized live s d).content j).length - maxBytes) (some maxBytes) s.calls).2 = d'
      at hheld hgrown hout
    refine .inr ⟨(d'.content j).take (((sized live s d).content j).length - maxBytes + maxBytes),
      ((sized live s d).content j).length - maxBytes, ?_, ⟨hopen, hsize, fun _ => ?_⟩, ?_,
      fun _ => ?_⟩
    · rw [← hout, drop_take]
      congr 1
      omega
    · simpa using hfails
    · rw [Gunzip.seen, if_neg hgz]
      exact (List.take_prefix _ _).trans (hgrown.content j)
    · rw [prefix_take_iff]
      exact ⟨hheld.content j, by omega⟩

theorem trouble_of_no_step {n : Str} (hlist : s.trouble ≠ some .list)
    (hstamp : s.trouble ≠ some .stamp) (hopen : s.trouble ≠ some .openFile)
    (hsize : s.trouble ≠ some .size) (hread : isGz n = false → s.readFails = none) :
    s.trouble = none ∨ isGz n ∧ ∃ got, s.trouble = some (.read got) := by
  rw [Schedule.readFails] at hread
  cases ht : s.trouble with
  | none => exact .inl rfl
  | some step =>
    rw [ht] at hlist hstamp hopen hsize hread
    cases step with
    | list => exact absurd rfl hlist
    | stamp => exact absurd rfl hstamp
    | openFile => exact absurd rfl hopen
    | size => exact absurd rfl hsize
    | read got =>
      refine .inr ⟨?_, got, rfl⟩
      by_contra hgz
      cases hread (Bool.not_eq_true _ ▸ hgz)

/-- **The rotated file**: nothing, or the end of what was seen in the newest file at the lookup; of
a plain one, all that it held when it was measured was seen. -/
theorem rotatedPart_ok {tail out : Bytes}
    (h : rotatedPart g live maxBytes since s tail d = .ok (out, stats)) :
    out = [] ∨ ∃ n j seen p, tail.length < maxBytes ∧
      newestRotated live (looked live s d) = some n ∧ (looked live s d).inode n = some j ∧
      since ≤ (stamped live s d).mtime j ∧
      (s.trouble = none ∨ isGz n ∧ ∃ got, s.trouble = some (.read got)) ∧
      out = terminated (seen.drop p) ∧ seen <+: g.seen n none ((done live s d).content j) ∧
      (isGz n = false → (sized live s d).content j <+: seen) := by
  rw [rotatedPart] at h
  by_cases hlen : tail.length < maxBytes
  swap
  · rw [if_neg hlen] at h
    exact .inl (Prod.mk.inj (Except.ok.inj h)).1.symm
  rw [if_pos hlen] at h
  dsimp only at h
  split at h
  · exact .inl (Prod.mk.inj (Except.ok.inj h)).1.symm
  rename_i n hn
  split_ifs at hn with hlist
  obtain ⟨hne, j, hj⟩ := newestRotated_some hn
  have hstamped : (stamped live s d).inode n = some j :=
    (looked_grown_stamped live s d).inode n j hne hj
  have hdir : (d.after live s.toLookup).after live s.toStamp = stamped live s d := rfl
  rw [hdir] at h
  split_ifs at h with hrecent
  swap
  · exact .inl (Prod.mk.inj (Except.ok.inj h)).1.symm
  rw [hstamped, any_some, decide_eq_true_iff] at hrecent
  split at h
  · cases h
  · exact .inl (Prod.mk.inj (Except.ok.inj h)).1.symm
  rename_i part stats' hpart
  cases h
  rcases appendRotated_ok hne hstamped hpart with rfl | ⟨seen, p, rfl, htrouble, hseen, hplain⟩
  · exact .inl rfl
  · refine .inr ⟨n, j, seen, p, hlen, hn, hj, hrecent.2, ?_, rfl, hseen, hplain⟩
    obtain ⟨hopen, hsize, hread⟩ := htrouble
    exact trouble_of_no_step hlist hrecent.1 hopen hsize hread

end

/-! ## The lines of the text -/

def records (bytes : Bytes) : List Str := (complete 10 bytes).map decodeLossy

theorem records_append {a : Bytes} (ha : Ends 10 a) (b : Bytes) :
    records (a ++ b) = records a ++ records b := by
  rw [records, complete_append ha, map_append]
  rfl

theorem records_mono {a b : Bytes} (h : a <+: b) : records a <+: records b :=
  (complete_mono h).map decodeLossy

theorem intoText_eq (bytes : Bytes) : intoText bytes = decodeLossy bytes := by
  rw [intoText]
  rcases decodeLossy_cases bytes with h | ⟨h, -⟩
  · rw [h]
    rfl
  · rw [h]
    rfl

theorem newline_mem_decodeLossy (bytes : Bytes) : '\n' ∈ decodeLossy bytes ↔ 10 ∈ bytes :=
  mem_decodeLossy_ascii (c := 10) rfl bytes

theorem splitInclusive_decodeLossy (bytes : Bytes) :
    splitInclusive '\n' (decodeLossy bytes) = (splitInclusive 10 bytes).map decodeLossy := by
  induction bytes using by_lines (t := (10 : UInt8)) with
  | nil => rfl
  | last p hne hp =>
    rw [splitInclusive_of_absent hne hp, splitInclusive_of_absent]
    · rfl
    · obtain ⟨b, p, rfl⟩ := exists_cons_of_ne_nil hne
      rw [decodeLossy_cons]
      exact cons_ne_nil _ _
    · exact mt (newline_mem_decodeLossy p).mp hp
  | line p rest hp ih =>
    have hline : ∀ t, decodeLossy (p ++ 10 :: t) = decodeLossy p ++ '\n' :: decodeLossy t :=
      decodeLossy_append_ascii (c := 10) rfl p
    rw [hline, splitInclusive_line (mt (newline_mem_decodeLossy p).mp hp), ih,
      splitInclusive_line hp, map_cons, hline]
    rfl

theorem terminated_lines (out : Bytes) :
    Ends 10 (terminated out) ∧ ∃ closed, splitInclusive 10 (terminated out) =
      complete 10 out ++ closed ∧ closed.length ≤ 1 ∧
      ∀ c ∈ closed, ∃ y, c = y ++ [10] ∧ y <:+ out ∧ y ≠ [] ∧ 10 ∉ y := by
  by_cases hends : Ends 10 out
  · have hsame : terminated out = out := by
      rw [terminated, if_neg]
      rcases hends with rfl | hlast
      · simp
      · simp [hlast]
    rw [hsame]
    refine ⟨hends, [], ?_, Nat.zero_le _, by simp⟩
    rw [splitInclusive_eq_complete, partLine_of_ends hends]
  · have hmore : terminated out = out ++ [10] := by
      rw [terminated, if_pos]
      obtain ⟨hne, hlast⟩ := not_or.mp hends
      rw [getLast?_eq_some_getLast hne] at hlast ⊢
      simpa using hlast
    rw [hmore]
    obtain ⟨y, hlines, hy⟩ := complete_terminated hends
    refine ⟨.inr (by simp), [y ++ [10]], hlines, le_rfl, ?_⟩
    rintro c hc
    exact ⟨y, mem_singleton.mp hc, hy⟩

/-! ## No record lost or repeated -/

/-- What a text is put together from. -/
structure Account where
  /-- what was seen in the rotated file -/
  rotated : Bytes
  /-- what was seen in the live file -/
  live : Bytes
  /-- a first line that starts in the middle of a record -/
  cut : List Str
  /-- the records of the rotated file -/
  older : List Str
  /-- the half record at the end of the rotated file -/
  closed : List Str
  /-- the records of the live file -/
  newer : List Str
  /-- the half record at the end of the live file -/
  rest : List Str

section

variable (g : Gunzip) (live : Str) (maxBytes : Nat) (since : Int) (s : Schedule)

def fileRecords (name : Str) (later : LogDir) (i : Option Nat) : List Str :=
  i.elim [] fun i => records (g.seen name none (later.content i))

/-- **The log**: the newest rotated file and the live file, as they were named when the live file
was opened, and the live file there is at last. -/
def logRecords (d later : LogDir) : List Str :=
  (newestRotated live d).elim [] (fun n => fileRecords g n later (d.inode n)) ++
    fileRecords g live later (d.inode live) ++
    if later.inode live = d.inode live then [] else fileRecords g live later (later.inode live)

/-- **Nothing lost, nothing repeated.** `d` is the directory when the live file `i` was opened, and
`d₁` when it was read. -/
structure Account.Covers (a : Account) (d d₁ : LogDir) (i : Nat) (text : Str) : Prop where
  lines : splitInclusive '\n' text = a.cut ++ a.older ++ a.closed ++ a.newer ++ a.rest
  live_seen : a.live = g.seen live s.liveFails (d₁.content i)
  rotated_seen : a.rotated = [] ∨ ∃ n j, newestRotated live (looked live s d₁) = some n ∧
    (looked live s d₁).inode n = some j ∧ a.rotated <+: g.seen n none ((done live s d₁).content j) ∧
    (isGz n = false → (sized live s d₁).content j <+: a.rotated)
  /-- no record of the log is there more often than in the log, and they are in its order -/
  once : (a.older ++ a.newer).Sublist (logRecords g live d (done live s d₁))
  /-- no record of the rotated file is missing behind the first -/
  older_eq : ∃ before behind, a.rotated = before ++ behind ∧ Ends 10 before ∧
    a.older = records behind
  /-- no record of the live file is missing behind the first, nor before it if there are lines of
  the rotated file -/
  newer_eq : ∃ before behind, a.live = before ++ behind ∧ Ends 10 before ∧
    a.newer = records behind ∧ (a.rotated ≠ [] → before = [])
  /-- the records in the last `maxBytes` of the live file are there -/
  live_kept : ∀ before behind, a.live = before ++ behind → Ends 10 before →
    behind.length ≤ maxBytes → records behind <:+ a.newer
  cut_part : a.cut.length ≤ 1 ∧ ∀ c ∈ a.cut, ∃ x y, c = decodeLossy y ∧ x ≠ [] ∧
    (x ++ y ∈ complete 10 a.rotated ∨ x ++ y ∈ complete 10 a.live)
  closed_part : a.closed.length ≤ 1 ∧ ∀ c ∈ a.closed, ∃ y, c = decodeLossy (y ++ [10]) ∧
    y <:+ a.rotated ∧ y ≠ [] ∧ 10 ∉ y
  rest_part : a.rest.length ≤ 1 ∧ ∀ c ∈ a.rest, '\n' ∉ c

def Intact (d : LogDir) : Prop :=
  ∀ i text stats, d.inode live = some i →
    readRecentCounted g live maxBytes since s d = .ok (text, stats) →
    ∃ a : Account, a.Covers g live maxBytes s d (liveRead live maxBytes s i d).2 i text

/-- The rotated file is not read: enough of the live file was seen, a step fails, or the rotated
file is too old. -/
def Unread (d₁ : LogDir) (i : Nat) : Prop :=
  maxBytes ≤ (g.seen live s.liveFails (d₁.content i)).length ∨
  (s.trouble ≠ none ∧ ∀ got, s.trouble ≠ some (.read got)) ∨
  ∀ n j, newestRotated live (looked live s d₁) = some n → (looked live s d₁).inode n = some j →
    (stamped live s d₁).mtime j < since ∨ isGz n = false ∧ s.trouble ≠ none

/-- The rotated file that is looked up behind the reading of the live file is the one there was
when the live file was opened, or is not read. -/
def SameOrUnread (d : LogDir) : Prop :=
  ∀ i, d.inode live = some i →
    newestRotated live (looked live s (liveRead live maxBytes s i d).2) = newestRotated live d ∨
    Unread g live maxBytes since s (liveRead live maxBytes s i d).2 i

end

section

variable {g : Gunzip} {live : Str} {maxBytes : Nat} {since : Int} {s : Schedule}

theorem tail_lines (seen : Bytes) {p : Nat} (hp : p ≤ seen.length - maxBytes) :
    ∃ cut before behind, seen = before ++ behind ∧ Ends 10 before ∧
      splitInclusive 10 (seen.drop p) = cut ++ complete 10 behind ++ partLine 10 (seen.drop p) ∧
      cut.length ≤ 1 ∧ (∀ c ∈ cut, ∃ x, x ≠ [] ∧ x ++ c ∈ complete 10 seen) ∧
      (p = 0 → before = [] ∧ cut = []) ∧
      ∀ before' behind', seen = before' ++ behind' → Ends 10 before' → behind'.length ≤ maxBytes →
        records behind' <:+ records behind := by
  obtain ⟨cut, before, behind, hseen, hbefore, hlines, hcut, hpart, hzero, hfirst⟩ :=
    complete_drop (10 : UInt8) p seen
  refine ⟨cut, before, behind, hseen, hbefore, ?_, hcut, hpart, hzero, ?_⟩
  · rw [splitInclusive_eq_complete, hlines]
  · intro before' behind' hsplit hends hlen
    refine (hfirst before' behind' hsplit hends ?_).map decodeLossy
    have := congrArg List.length hsplit
    rw [length_append] at this
    omega

theorem older_newer_sublist {d later : LogDir} {n : Str} {j i : Nat} {rotated seen older newer}
    (hn : newestRotated live d = some n) (hj : d.inode n = some j) (hi : d.inode live = some i)
    (hrotated : rotated <+: g.seen n none (later.content j))
    (hseen : seen <+: g.seen live none (later.content i))
    (holder : older <:+ records rotated) (hnewer : newer <:+ records seen) :
    (older ++ newer).Sublist (logRecords g live d later) := by
  rw [logRecords, hn, elim_some, hj, hi]
  refine List.Sublist.trans (List.Sublist.append ?_ ?_) (sublist_append_left _ _)
  · exact holder.sublist.trans (records_mono hrotated).sublist
  · exact hnewer.sublist.trans (records_mono hseen).sublist

theorem newer_sublist {d later : LogDir} {i : Nat} {seen : Bytes} {newer : List Str}
    (hi : d.inode live = some i) (hseen : seen <+: g.seen live none (later.content i))
    (hnewer : newer <:+ records seen) : newer.Sublist (logRecords g live d later) := by
  rw [logRecords, hi]
  refine List.Sublist.trans ?_ (sublist_append_left _ _)
  exact (hnewer.sublist.trans (records_mono hseen).sublist).trans (sublist_append_right _ _)

variable {d d₁ : LogDir}

theorem same_of_read {i : Nat} {n : Str} {j p : Nat}
    (h : newestRotated live (looked live s d₁) = newestRotated live d ∨
      Unread g live maxBytes since s d₁ i)
    (hp : p ≤ (g.seen live s.liveFails (d₁.content i)).length - maxBytes)
    (hlen : ((g.seen live s.liveFails (d₁.content i)).drop p).length < maxBytes)
    (hn : newestRotated live (looked live s d₁) = some n) (hj : (looked live s d₁).inode n = some j)
    (hsince : since ≤ (stamped live s d₁).mtime j)
    (htrouble : s.trouble = none ∨ isGz n ∧ ∃ got, s.trouble = some (.read got)) :
    newestRotated live d = some n := by
  rcases h with hsame | hfull | ⟨hsome, hstep⟩ | hold
  · rw [← hsame, hn]
  · rw [length_drop] at hlen
    omega
  · rcases htrouble with hnone | ⟨-, got, hread⟩
    · exact absurd hnone hsome
    · exact absurd hread (hstep got)
  · rcases hold n j hn hj with hlt | ⟨hplain, hsome⟩
    · omega
    · rcases htrouble with hnone | ⟨hgz, -⟩
      · exact absurd hnone hsome
      · rw [hgz] at hplain
        cases hplain

theorem covers_live {i p : Nat} (hi : d.inode live = some i)
    (hp : p ≤ (g.seen live s.liveFails (d₁.content i)).length - maxBytes) :
    ∃ a : Account, a.Covers g live maxBytes s d d₁ i
      (decodeLossy ((g.seen live s.liveFails (d₁.content i)).drop p)) := by
  have hseen : g.seen live s.liveFails (d₁.content i) <+:
      g.seen live none ((done live s d₁).content i) :=
    g.seen_mono _ _ ((grown_done live s d₁).content i)
  generalize hlive : g.seen live s.liveFails (d₁.content i) = seen at hp hseen
  obtain ⟨cut, before, behind, hsplit, hbefore, hlines, hcut, hpart, -, hkept⟩ := tail_lines seen hp
  have hnewer : records behind <:+ records seen := by
    rw [hsplit, records_append hbefore]
    exact suffix_append _ _
  refine ⟨⟨[], seen, cut.map decodeLossy, [], [], records behind,
    (partLine 10 (seen.drop p)).map decodeLossy⟩, ?_⟩
  exact
    { lines := by
        rw [splitInclusive_decodeLossy, hlines]
        simp [records]
      live_seen := hlive.symm
      rotated_seen := .inl rfl
      once := newer_sublist hi hseen hnewer
      older_eq := ⟨[], [], rfl, .inl rfl, rfl⟩
      newer_eq := ⟨before, behind, hsplit, hbefore, rfl, fun h => absurd rfl h⟩
      live_kept := hkept
      cut_part := by
        refine ⟨by rwa [length_map], fun c hc => ?_⟩
        obtain ⟨y, hy, rfl⟩ := mem_map.mp hc
        obtain ⟨x, hne, hmem⟩ := hpart y hy
        exact ⟨x, y, rfl, hne, .inr hmem⟩
      closed_part := ⟨Nat.zero_le _, fun c hc => absurd hc not_mem_nil⟩
      rest_part := by
        refine ⟨by rw [length_map]; exact length_partLine_le _ _, fun c hc => ?_⟩
        obtain ⟨y, hy, rfl⟩ := mem_map.mp hc
        exact mt (newline_mem_decodeLossy y).mp (not_mem_of_partLine hy) }

theorem covers_both {i : Nat} {n : Str} {j p : Nat} {rotated : Bytes}
    (hi : d.inode live = some i) (hgrown : d.Grown live d₁)
    (hold : newestRotated live d = some n) (hn : newestRotated live (looked live s d₁) = some n)
    (hj : (looked live s d₁).inode n = some j)
    (hrotated : rotated <+: g.seen n none ((done live s d₁).content j))
    (hplain : isGz n = false → (sized live s d₁).content j <+: rotated) :
    ∃ a : Account, a.Covers g live maxBytes s d d₁ i (decodeLossy (terminated (rotated.drop p) ++
        g.seen live s.liveFails (d₁.content i))) := by
  have hseen : g.seen live s.liveFails (d₁.content i) <+:
      g.seen live none ((done live s d₁).content i) :=
    g.seen_mono _ _ ((grown_done live s d₁).content i)
  generalize hlive : g.seen live s.liveFails (d₁.content i) = seen at hseen
  -- the name stood for the same file when the live file was opened
  have hfile : d.inode n = some j := by
    obtain ⟨hne, j', hj'⟩ := newestRotated_some hold
    have hlook := ((hgrown.trans (.of_after d₁ s.toLookup)).inode n j' hne hj')
    change (looked live s d₁).inode n = some j' at hlook
    rw [hj', ← hlook, hj]
  obtain ⟨cut, before, behind, hsplit, hbefore, hlines, hcut, hpart, -, -⟩ :=
    complete_drop (10 : UInt8) p rotated
  obtain ⟨hends, closed, hterm, hclosed, hhalf⟩ := terminated_lines (rotated.drop p)
  have holder : records behind <:+ records rotated := by
    rw [hsplit, records_append hbefore]
    exact suffix_append _ _
  refine ⟨⟨rotated, seen, cut.map decodeLossy, records behind, closed.map decodeLossy,
    records seen, (partLine 10 seen).map decodeLossy⟩, ?_⟩
  exact
    { lines := by
        rw [splitInclusive_decodeLossy, splitInclusive_append hends, hterm, hlines,
          splitInclusive_eq_complete 10 seen]
        simp [records]
      live_seen := hlive.symm
      rotated_seen := .inr ⟨n, j, hn, hj, hrotated, hplain⟩
      once := older_newer_sublist hold hfile hi hrotated hseen holder (suffix_refl _)
      older_eq := ⟨before, behind, hsplit, hbefore, rfl⟩
      newer_eq := ⟨[], seen, rfl, .inl rfl, rfl, fun _ => rfl⟩
      live_kept := by
        intro before' behind' hsplit' hends' _
        dsimp only at hsplit' ⊢
        rw [hsplit', records_append hends']
        exact suffix_append _ _
      cut_part := by
        refine ⟨by rwa [length_map], fun c hc => ?_⟩
        obtain ⟨y, hy, rfl⟩ := mem_map.mp hc
        obtain ⟨x, hne, hmem⟩ := hpart y hy
        exact ⟨x, y, rfl, hne, .inl hmem⟩
      closed_part := by
        refine ⟨by rwa [length_map], fun c hc => ?_⟩
        obtain ⟨y', hy', rfl⟩ := mem_map.mp hc
        obtain ⟨y, rfl, hsuffix, hne, habsent⟩ := hhalf y' hy'
        exact ⟨y, rfl, hsuffix.trans (drop_suffix _ _), hne, habsent⟩
      rest_part := by
        refine ⟨by rw [length_map]; exact length_partLine_le _ _, fun c hc => ?_⟩
        obtain ⟨y, hy, rfl⟩ := mem_map.mp hc
        exact mt (newline_mem_decodeLossy y).mp (not_mem_of_partLine hy) }

end

/-- **Nothing is lost or repeated** in a schedule in which the rotated file that is looked up is
the one there was when the live file was opened, or is not read. -/
theorem intact_of_same (g : Gunzip) (live : Str) (maxBytes : Nat) (since : Int) (s : Schedule)
    (d : LogDir) (h : SameOrUnread g live maxBytes since s d) :
    Intact g live maxBytes since s d := by
  intro i text stats hi hread
  rw [readRecentCounted] at hread
  split at hread
  · cases hread
  rename_i tail d₁ htail
  split at hread
  · cases hread
  rename_i out stats' hout
  obtain ⟨htext, -⟩ := Prod.mk.inj (Except.ok.inj hread)
  obtain ⟨i', p, hi', hd₁, hgrown, rfl, hp⟩ := appendTail_ok htail
  obtain rfl : i = i' := some.inj (hi.symm.trans hi')
  rw [← htext, intoText_eq, ← hd₁]
  have hcond := h i hi
  rw [← hd₁] at hcond
  rcases rotatedPart_ok hout with rfl |
    ⟨n, j, seen, q, hlen, hn, hj, hsince, htrouble, rfl, hseen, hplain⟩
  · exact covers_live hi hp
  · have hold := same_of_read hcond hp hlen hn hj hsince htrouble
    -- a live file that does not fill `maxBytes` was read from its start
    have hzero : p = 0 := by
      rw [length_drop] at hlen
      omega
    rw [hzero, drop_zero]
    exact covers_both hi hgrown hold hn hj hseen hplain

/-- A decoder of files none of which is compressed. -/
def noGunzip : Gunzip := ⟨fun _ => ([], true), fun _ => List.prefix_refl _⟩

def betweenReads (events : List Event) : Schedule :=
  ⟨[], [], none, events, [], [], [], [], none⟩

def fiveRecords : LogDir :=
  ⟨[("a".toList, 0), ("a-2024010100".toList, 1)],
    [⟨"1\n2\n3\n4\n5\n".toList.map Char.toUInt8, 7⟩, ⟨"0\n".toList.map Char.toUInt8, 3⟩]⟩

theorem intact_fiveRecords :
    SameOrUnread noGunzip "a".toList 64 0 (betweenReads [.append 0 [54, 10] 8]) fiveRecords ∧
      Intact noGunzip "a".toList 64 0 (betweenReads [.append 0 [54, 10] 8]) fiveRecords :=
  ⟨fun _ _ => .inl rfl, intact_of_same _ _ _ _ _ _ fun _ _ => .inl rfl⟩

/-- The live file is rotated away between the reads. -/
def rotation : List Event := [.rename "2024010101".toList, .create 8]

theorem read_rotation :
    readRecentCounted noGunzip "a".toList 64 0 (betweenReads rotation) fiveRecords =
      .ok ("1\n2\n3\n4\n5\n1\n2\n3\n4\n5\n".toList, ⟨true, 10⟩) := by
  rfl

/-- **Read twice.** The file that was just read has then the newest rotated name, and the log has
six records, not ten. -/
theorem read_twice : ¬ Intact noGunzip "a".toList 64 0 (betweenReads rotation) fiveRecords := by
  intro h
  obtain ⟨a, ha⟩ := h 0 _ _ rfl read_rotation
  have hlog : (logRecords noGunzip "a".toList fiveRecords (done "a".toList (betweenReads rotation)
        (liveRead "a".toList 64 (betweenReads rotation) 0 fiveRecords).2)).length = 6 := by rfl
  have honce := ha.once.length_le
  rw [hlog, length_append] at honce
  have hcut := ha.cut_part.1
  have hclosed := ha.closed_part.1
  have hrest := ha.rest_part.1
  have hlines : 10 = (a.cut ++ a.older ++ a.closed ++ a.newer ++ a.rest).length := by
    rw [← ha.lines]
    rfl
  simp only [length_append] at hlines
  omega

end M6.RecentLog
