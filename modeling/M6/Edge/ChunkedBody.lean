import M6.Core.Chunked
import M6.Edge.Crumbs
import M6.Lib.Source

/-!
# The chunked body of a response

`read_chunked_body` of `forward.rs`, the other decoder of chunked bodies: it reads all that comes
before it looks at any of it, and takes size lines and trailer fields as text. `returns_iff` says
when it returns, with a body or with an error, and `round_trip` that it and `decode_chunked` read
what a body is written as.
-/

namespace M6

open List Option Text Utf8

namespace BackendBody

open Machine Looping Failing Chunking H1

/-! ## The decoder -/

def maxBackendBody : Nat := 128 * 1024 * 1024

inductive ChunkError where
  | unread
  | tooLarge
  | noSizeLine
  | sizeNotText
  | badSize (size : Str)
  | sizeOutOfRange
  | shortData
  | noTerminator
  | noTrailerEnd
  | trailerNotText
  | badTrailer (line : Str)
  deriving DecidableEq

/-- How the decoder fails: with an error, or by ending the process. -/
inductive BodyFault where
  | refuses (e : ChunkError)
  | panics (p : Panic)
  deriving DecidableEq

/-- An operation that may end the process. -/
def checked {A : Type} (x : Except Panic A) : Except BodyFault A := x.mapError .panics

def readSize (line : Bytes) : Except ChunkError Nat :=
  match Utf8.fromUtf8? line with
  | none => .error .sizeNotText
  | some text =>
    let size := Text.trim (Text.cutAt ';' text).1
    let digits := Utf8.encode size
    if digits = [] ∨ ¬ IsHex digits then .error (.badSize size)
    else if 2 ^ 64 ≤ hexValue digits then .error .sizeOutOfRange
    else .ok (hexValue digits)

def chunkTurn (pending : Bytes) (p : Position) : Except BodyFault (Position ⊕ Position) := do
  let tail ← checked (slice pending p.i pending.length)
  match findCrlf tail with
  | none => .error (.refuses .noSizeLine)
  | some crlf =>
    let lineEnd ← checked (add usize p.i crlf)
    let line ← checked (slice pending p.i lineEnd)
    let size ← (readSize line).mapError .refuses
    let step ← checked (add usize crlf 2)
    let i ← checked (add usize p.i step)
    if size = 0 then .ok (.inr ⟨i, p.out⟩)
    else
      let dataEnd ← checked (add usize i size)
      if pending.length < dataEnd then .error (.refuses .shortData)
      else
        let data ← checked (slice pending i dataEnd)
        let chunkEnd ← checked (add usize dataEnd 2)
        if pending.length < chunkEnd then .error (.refuses .noTerminator)
        else
          let terminator ← checked (slice pending dataEnd chunkEnd)
          if terminator ≠ crlfBytes then .error (.refuses .noTerminator)
          else .ok (.inl ⟨chunkEnd, p.out ++ data⟩)

def isTrailer (line : Str) : Bool :=
  match Text.cutAt ':' line with
  | (name, some _) => h1FieldNameIsSafe (Text.trim name)
  | (_, none) => false

def fieldTurn (pending : Bytes) (i : Nat) : Except BodyFault (Nat ⊕ Unit) := do
  let tail ← checked (slice pending i pending.length)
  match findCrlf tail with
  | none => .error (.refuses .noTrailerEnd)
  | some crlf =>
    if crlf = 0 then .ok (.inr ())
    else
      let lineEnd ← checked (add usize i crlf)
      let line ← checked (slice pending i lineEnd)
      match Utf8.fromUtf8? line with
      | none => .error (.refuses .trailerNotText)
      | some line =>
        if isTrailer line then
          let step ← checked (add usize crlf 2)
          let i ← checked (add usize i step)
          .ok (.inl i)
        else .error (.refuses (.badTrailer line))

theorem checked_eq_ok {A : Type} {x : Except Panic A} {a : A} (h : checked x = .ok a) :
    x = .ok a := by
  cases x with
  | error p => cases h
  | ok b => exact congrArg Except.ok (Except.ok.inj h)

variable {pending : Bytes}

theorem chunkTurn_moves {p p' : Position}
    (h : chunkTurn pending p = .ok (.inl p')) : p.i < p'.i ∧ p'.i ≤ pending.length := by
  obtain ⟨tail, htail, h⟩ := bind_eq_ok.mp h
  cases heol : findCrlf tail with
  | none =>
    rw [heol] at h
    cases h
  | some crlf =>
    have hwithin := line_within (checked_eq_ok htail) heol
    rw [heol] at h
    obtain ⟨lineEnd, -, h⟩ := bind_eq_ok.mp h
    obtain ⟨line, -, h⟩ := bind_eq_ok.mp h
    obtain ⟨size, -, h⟩ := bind_eq_ok.mp h
    obtain ⟨step, hstep, h⟩ := bind_eq_ok.mp h
    obtain ⟨i, hi, h⟩ := bind_eq_ok.mp h
    split_ifs at h with hzero
    · cases h
    obtain ⟨dataEnd, hdata, h⟩ := bind_eq_ok.mp h
    split_ifs at h with hshort
    obtain ⟨data, -, h⟩ := bind_eq_ok.mp h
    obtain ⟨chunkEnd, hchunk, h⟩ := bind_eq_ok.mp h
    split_ifs at h with hlong
    obtain ⟨terminator, -, h⟩ := bind_eq_ok.mp h
    split_ifs at h with hend
    cases h
    have hstep := add_eq_ok (checked_eq_ok hstep)
    have hi := add_eq_ok (checked_eq_ok hi)
    have hdata := add_eq_ok (checked_eq_ok hdata)
    have hchunk := add_eq_ok (checked_eq_ok hchunk)
    dsimp only
    omega

theorem fieldTurn_moves {i i' : Nat}
    (h : fieldTurn pending i = .ok (.inl i')) : i < i' ∧ i' ≤ pending.length := by
  obtain ⟨tail, htail, h⟩ := bind_eq_ok.mp h
  cases heol : findCrlf tail with
  | none =>
    rw [heol] at h
    cases h
  | some crlf =>
    have hwithin := line_within (checked_eq_ok htail) heol
    rw [heol] at h
    dsimp only at h
    split_ifs at h with hzero
    · cases h
    obtain ⟨lineEnd, -, h⟩ := bind_eq_ok.mp h
    obtain ⟨line, -, h⟩ := bind_eq_ok.mp h
    cases htext : Utf8.fromUtf8? line with
    | none =>
      rw [htext] at h
      cases h
    | some text =>
      rw [htext] at h
      dsimp only at h
      split_ifs at h with hfield
      · obtain ⟨step, hstep, h⟩ := bind_eq_ok.mp h
        obtain ⟨next, hnext, h⟩ := bind_eq_ok.mp h
        have hstep := add_eq_ok (checked_eq_ok hstep)
        have hnext := add_eq_ok (checked_eq_ok hnext)
        cases h
        omega

theorem chunkTurn_shrinks {p p' : Position}
    (h : chunkTurn pending p = .ok (.inl p')) : pending.length - p'.i < pending.length - p.i := by
  have := chunkTurn_moves h
  omega

theorem fieldTurn_shrinks {i i' : Nat}
    (h : fieldTurn pending i = .ok (.inl i')) : pending.length - i' < pending.length - i := by
  have := fieldTurn_moves h
  omega

def chunkLoop (pending : Bytes) : Loop BodyFault Position Position where
  turn := chunkTurn pending
  left p := pending.length - p.i
  shrinks := chunkTurn_shrinks

def fieldLoop (pending : Bytes) : Loop BodyFault Nat Unit where
  turn := fieldTurn pending
  left i := pending.length - i
  shrinks := fieldTurn_shrinks

def decodePending (pending : Bytes) : Except BodyFault Bytes :=
  if maxBackendBody < pending.length then .error (.refuses .tooLarge)
  else do
    let p ← (chunkLoop pending).run ⟨0, []⟩
    (fieldLoop pending).run p.i
    .ok p.out

/-- `read_chunked_body`: what came with the head, and then what the reader gives. -/
def readChunkedBody (source : Source UInt8) (first : Bytes) : Except BodyFault Bytes :=
  match source.readToEnd (maxBackendBody - first.length + 1) with
  | none => .error (.refuses .unread)
  | some (rest, _) => decodePending (first ++ rest)

/-! ## What a turn does -/

variable {p : Position}

theorem chunkTurn_of_noLine (hp : p.i ≤ pending.length) (h : findCrlf (pending.drop p.i) = none) :
    chunkTurn pending p = .error (.refuses .noSizeLine) := by
  simp only [chunkTurn, slice_length hp, checked, Except.mapError, bind, Except.bind, h]

theorem chunkTurn_of_line {pending line rest : Bytes}
    (hlen : pending.length < 2 ^ 63) (hp : p.i ≤ pending.length)
    (h : pending.drop p.i = line ++ (crlfBytes ++ rest)) (hline : findCrlf line = none) :
    chunkTurn pending p =
      match readSize line with
      | .error e => .error (.refuses e)
      | .ok size =>
        if size = 0 then .ok (.inr ⟨p.i + (line.length + 2), p.out⟩)
        else if 2 ^ 64 ≤ p.i + (line.length + 2) + size then .error (.panics .overflow)
        else if rest.length < size then .error (.refuses .shortData)
        else if rest.length < size + 2 then .error (.refuses .noTerminator)
        else if (rest.drop size).take 2 ≠ crlfBytes then .error (.refuses .noTerminator)
        else .ok (.inl ⟨p.i + (line.length + 2) + size + 2, p.out ++ rest.take size⟩) := by
  have hparts := congrArg List.length h
  simp only [length_drop, length_append, length_crlfBytes] at hparts
  have hlineEnd : add usize p.i line.length = .ok _ := add_ok (by rw [usize]; omega)
  have hstep : add usize line.length 2 = .ok _ := add_ok (by rw [usize]; omega)
  have hnext : add usize p.i (line.length + 2) = .ok _ := add_ok (by rw [usize]; omega)
  have hrest := drop_line h
  simp only [chunkTurn, slice_length hp, bind, Except.bind, h, findCrlf_line hline, hlineEnd,
    slice_line hp h, hstep, hnext, checked, Except.mapError]
  cases hsize : readSize line with
  | error e => rfl
  | ok size =>
    dsimp only
    by_cases hzero : size = 0
    · rw [if_pos hzero, if_pos hzero]
    rw [if_neg hzero, if_neg hzero]
    by_cases hover : 2 ^ 64 ≤ p.i + (line.length + 2) + size
    · have hsum : add usize (p.i + (line.length + 2)) size = .error .overflow := add_overflow hover
      rw [if_pos hover, hsum]
    have hsum : add usize (p.i + (line.length + 2)) size = .ok _ := add_ok (Nat.lt_of_not_le hover)
    have hshort : pending.length < p.i + (line.length + 2) + size ↔ rest.length < size := by omega
    have hlong : pending.length < p.i + (line.length + 2) + size + 2 ↔ rest.length < size + 2 := by
      omega
    simp only [if_neg hover, hsum, hshort]
    by_cases hless : rest.length < size
    · rw [if_pos hless, if_pos hless]
    have hdata : slice pending (p.i + (line.length + 2)) (p.i + (line.length + 2) + size) =
        .ok (rest.take size) := by
      rw [slice_ok (Nat.le_add_right _ _) (by omega), hrest, Nat.add_sub_cancel_left]
    have hchunk : add usize (p.i + (line.length + 2) + size) 2 = .ok _ :=
      add_ok (by rw [usize]; omega)
    simp only [if_neg hless, hdata, hchunk, hlong]
    by_cases hcut : rest.length < size + 2
    · rw [if_pos hcut, if_pos hcut]
    have hend : slice pending (p.i + (line.length + 2) + size)
        (p.i + (line.length + 2) + size + 2) = .ok ((rest.drop size).take 2) := by
      rw [slice_ok (Nat.le_add_right _ _) (by omega), ← drop_drop, hrest, Nat.add_sub_cancel_left]
    simp only [if_neg hcut, hend]

theorem fieldTurn_of_noLine {i : Nat} (hi : i ≤ pending.length)
    (h : findCrlf (pending.drop i) = none) :
    fieldTurn pending i = .error (.refuses .noTrailerEnd) := by
  simp only [fieldTurn, slice_length hi, checked, Except.mapError, bind, Except.bind, h]

theorem fieldTurn_of_line {pending line rest : Bytes} {i : Nat} (hlen : pending.length < 2 ^ 63)
    (hi : i ≤ pending.length) (h : pending.drop i = line ++ (crlfBytes ++ rest))
    (hline : findCrlf line = none) : fieldTurn pending i =
      if line = [] then .ok (.inr ())
      else
        match Utf8.fromUtf8? line with
        | none => .error (.refuses .trailerNotText)
        | some text =>
          if isTrailer text then .ok (.inl (i + (line.length + 2)))
          else .error (.refuses (.badTrailer text)) := by
  have hparts := congrArg List.length h
  simp only [length_drop, length_append, length_crlfBytes] at hparts
  have hlineEnd : add usize i line.length = .ok _ := add_ok (by rw [usize]; omega)
  have hstep : add usize line.length 2 = .ok _ := add_ok (by rw [usize]; omega)
  have hnext : add usize i (line.length + 2) = .ok _ := add_ok (by rw [usize]; omega)
  simp only [fieldTurn, slice_length hi, bind, Except.bind, h, findCrlf_line hline, hlineEnd,
    slice_line hi h, hstep, hnext, checked, Except.mapError, length_eq_zero_iff]

/-! ## Where the process ends -/

/-- **The lines that name a size**: text that is, up to a semicolon and without the blanks around
it, hexadecimal digits, of a number that a `usize` can hold. -/
def NamesSize (line : Bytes) (n : Nat) : Prop :=
  findCrlf line = none ∧ ∃ text digits, Utf8.fromUtf8? line = some text ∧
    digits = Utf8.encode (Text.trim (Text.cutAt ';' text).1) ∧ digits ≠ [] ∧ IsHex digits ∧
      hexValue digits = n ∧ n < 2 ^ 64

theorem namesSize_iff {line : Bytes} {n : Nat} :
    NamesSize line n ↔ findCrlf line = none ∧ readSize line = .ok n := by
  refine and_congr_right fun _ => ?_
  rw [readSize]
  cases htext : Utf8.fromUtf8? line with
  | none => exact iff_of_false (by rintro ⟨_, _, h, -⟩; cases h) (by nofun)
  | some text =>
    dsimp only
    constructor
    · rintro ⟨_, _, ⟨⟩, rfl, hne, hhex, rfl, hlt⟩
      rw [if_neg (by simp [hne, hhex]), if_neg (by omega)]
    · intro h
      split_ifs at h with hbad hlarge
      obtain ⟨hne, hhex⟩ := not_or.mp hbad
      exact ⟨text, _, rfl, rfl, hne, not_not.mp hhex, Except.ok.inj h, by
        rw [← Except.ok.inj h]
        omega⟩

theorem NamesSize.read {line : Bytes} {n : Nat} (h : NamesSize line n) : readSize line = .ok n :=
  (namesSize_iff.mp h).2

/-- **What overruns**: behind chunks there is a line that names a size which is too large for the
sum with the place where its data begins. -/
def Overruns (pending : Bytes) : Prop :=
  ∃ (cs : List (Chunk NamesSize)) (line rest : Bytes) (size : Nat),
    pending = texts crlfBytes cs ++ (line ++ (crlfBytes ++ rest)) ∧ NamesSize line size ∧
      2 ^ 64 ≤ (texts crlfBytes cs).length + (line.length + 2) + size

def Decoded (pending : Bytes) (p : Position) : Prop :=
  ∃ (cs : List (Chunk NamesSize)) (rest : Bytes), pending = texts crlfBytes cs ++ rest ∧
    p = ⟨(texts crlfBytes cs).length, content cs⟩

/-- **A turn** refuses, or ends the process on what overruns, or decodes one more chunk, or finds
the last one. -/
theorem Decoded.turn_cases (hlen : pending.length < 2 ^ 63) (hp : Decoded pending p) :
    (∃ e, chunkTurn pending p = .error (.refuses e)) ∨
    (Overruns pending ∧ chunkTurn pending p = .error (.panics .overflow)) ∨
    (∃ p', chunkTurn pending p = .ok (.inl p') ∧ Decoded pending p') ∨
    (∃ p', chunkTurn pending p = .ok (.inr p') ∧ p'.i ≤ pending.length) := by
  obtain ⟨cs, tail, rfl, rfl⟩ := hp
  have hle : (texts crlfBytes cs).length ≤ (texts crlfBytes cs ++ tail).length := by simp
  rcases noLine_or_line tail with hnone | ⟨line, rest, rfl, hline⟩
  · exact .inl ⟨_, chunkTurn_of_noLine hle (by rwa [drop_left])⟩
  rw [chunkTurn_of_line hlen hle drop_left hline]
  cases hsize : readSize line with
  | error e => exact .inl ⟨e, rfl⟩
  | ok size =>
    have hnames : NamesSize line size := namesSize_iff.mpr ⟨hline, hsize⟩
    dsimp only
    split_ifs with hzero hover hshort hcut hend
    · refine .inr (.inr (.inr ⟨_, rfl, ?_⟩))
      simp only [length_append, length_crlfBytes]
      omega
    · exact .inr (.inl ⟨⟨cs, line, rest, size, rfl, hnames, hover⟩, rfl⟩)
    · exact .inl ⟨_, rfl⟩
    · exact .inl ⟨_, rfl⟩
    · exact .inl ⟨_, rfl⟩
    · refine .inr (.inr (.inl ⟨_, rfl, ?_⟩))
      obtain ⟨c, hcline, hcdata, htext⟩ := Chunk.exists_of_line crlfBytes hnames hzero (by omega)
        (not_not.mp hend)
      have hdata : c.data.length = size := by
        rw [hcdata, length_take_of_le (by omega)]
      refine ⟨cs ++ [c], rest.drop (size + 2), ?_, ?_⟩
      · rw [htext, texts_concat, append_assoc]
        rfl
      · rw [texts_concat, content_concat, length_append, Chunk.length_text, hcline, hdata,
          hcdata, length_crlfBytes]
        congr 1
        omega

theorem Decoded.turn (hlen : pending.length < 2 ^ 63) {p p' : Position}
    (hp : Decoded pending p) (h : chunkTurn pending p = .ok (.inl p')) : Decoded pending p' := by
  rcases hp.turn_cases hlen with ⟨e, hturn⟩ | ⟨-, hturn⟩ | ⟨p₁, hturn, hp₁⟩ | ⟨p₁, hturn, -⟩
  · cases hturn.symm.trans h
  · cases hturn.symm.trans h
  · cases hturn.symm.trans h
    exact hp₁
  · cases hturn.symm.trans h

theorem Decoded.start (pending : Bytes) : Decoded pending ⟨0, []⟩ := ⟨[], pending, rfl, rfl⟩

theorem chunkTurn_chunk (pre rest : Bytes) (c : Chunk NamesSize) (out : Bytes)
    (hlen : (pre ++ (c.text crlfBytes ++ rest)).length < 2 ^ 63) :
    chunkTurn (pre ++ (c.text crlfBytes ++ rest)) ⟨pre.length, out⟩ =
      .ok (.inl ⟨(pre ++ c.text crlfBytes).length, out ++ c.data⟩) := by
  have hpos := c.length_pos
  have htail : (pre ++ (c.text crlfBytes ++ rest)).drop pre.length =
      c.line ++ (crlfBytes ++ (c.data ++ (crlfBytes ++ rest))) := by
    rw [drop_left]
    simp [Chunk.text]
  have hend : ((c.data ++ (crlfBytes ++ rest)).drop c.data.length).take 2 = crlfBytes := by
    rw [drop_left]
    rfl
  simp only [length_append, Chunk.length_text, length_crlfBytes] at hlen
  rw [chunkTurn_of_line (by simp; omega) (by simp) htail c.names.1, c.names.read]
  simp only [length_append, length_crlfBytes, Chunk.length_text, take_left]
  rw [if_neg (by omega), if_neg (by omega), if_neg (by omega), if_neg (by omega),
    if_neg (not_not_intro hend)]
  congr 3
  omega

theorem reaches_texts (pre : Bytes) {rest : Bytes} (cs : List (Chunk NamesSize)) (out : Bytes)
    (hlen : (pre ++ (texts crlfBytes cs ++ rest)).length < 2 ^ 63) :
    (chunkLoop (pre ++ (texts crlfBytes cs ++ rest))).Reaches ⟨pre.length, out⟩
      ⟨(pre ++ texts crlfBytes cs).length, out ++ content cs⟩ := by
  induction cs generalizing pre out with
  | nil => simpa using Relation.ReflTransGen.refl
  | cons c cs ih =>
    have hsplit : pre ++ (texts crlfBytes (c :: cs) ++ rest) =
        (pre ++ c.text crlfBytes) ++ (texts crlfBytes cs ++ rest) := by
      simp
    have hturn := chunkTurn_chunk pre (texts crlfBytes cs ++ rest) c out
      (by rwa [← append_assoc, ← hsplit])
    have hnext := ih (pre ++ c.text crlfBytes) (out ++ c.data) (by rwa [← hsplit])
    rw [hsplit]
    refine .head (b := ⟨(pre ++ c.text crlfBytes).length, out ++ c.data⟩) ?_ ?_
    · rw [← append_assoc] at hturn
      exact hturn
    · simpa only [texts_cons, content_cons, append_assoc] using hnext

theorem run_of_texts (cs : List (Chunk NamesSize)) {rest : Bytes}
    (hlen : (texts crlfBytes cs ++ rest).length < 2 ^ 63) :
    (chunkLoop (texts crlfBytes cs ++ rest)).run ⟨0, []⟩ =
      (chunkLoop (texts crlfBytes cs ++ rest)).run ⟨(texts crlfBytes cs).length, content cs⟩ :=
  (reaches_texts [] cs [] hlen).run_eq

/-- **The loop over the chunks ends the process on what overruns**, and on nothing else. -/
theorem chunkLoop_panics_iff (hlen : pending.length < 2 ^ 63) (q : Panic) :
    (chunkLoop pending).run ⟨0, []⟩ = .error (.panics q) ↔ Overruns pending ∧ q = .overflow := by
  rw [Loop.run_eq_error_iff]
  constructor
  · rintro ⟨p, hreach, h⟩
    have hp := hreach.keeps (P := Decoded pending) (fun p p' hp => hp.turn hlen) (.start _)
    change chunkTurn _ _ = _ at h
    rcases hp.turn_cases hlen with ⟨e, hturn⟩ | ⟨hover, hturn⟩ | ⟨p', hturn, -⟩ | ⟨p', hturn, -⟩
    · cases hturn.symm.trans h
    · cases hturn.symm.trans h
      exact ⟨hover, rfl⟩
    all_goals cases hturn.symm.trans h
  · rintro ⟨⟨cs, line, rest, size, rfl, hsize, hover⟩, rfl⟩
    refine ⟨_, reaches_texts [] cs [] hlen, ?_⟩
    have hle : (texts crlfBytes cs).length ≤
        (texts crlfBytes cs ++ (line ++ (crlfBytes ++ rest))).length := by simp
    change chunkTurn _ ⟨(texts crlfBytes cs).length, content cs⟩ = _
    rw [chunkTurn_of_line hlen hle drop_left hsize.1, hsize.read]
    simp only [length_append, length_crlfBytes] at hlen
    dsimp only
    rw [if_neg (by omega), if_pos hover]

theorem fieldLoop_avoids (hlen : pending.length < 2 ^ 63) {i : Nat}
    (hi : i ≤ pending.length) (q : Panic) : Avoids (.panics q) ((fieldLoop pending).run i) := by
  intro h
  obtain ⟨i', hreach, hturn⟩ := Loop.run_eq_error_iff.mp h
  have hle := hreach.keeps (P := (· ≤ pending.length)) (fun i i' _ h => (fieldTurn_moves h).2) hi
  change fieldTurn _ _ = _ at hturn
  rcases noLine_or_line (pending.drop i') with hnone | ⟨line, rest, hrest, hline⟩
  · rw [fieldTurn_of_noLine hle hnone] at hturn
    cases hturn
  · rw [fieldTurn_of_line hlen hle hrest hline] at hturn
    split_ifs at hturn
    cases htext : Utf8.fromUtf8? line with
    | none =>
      rw [htext] at hturn
      cases hturn
    | some text =>
      rw [htext] at hturn
      dsimp only at hturn
      split_ifs at hturn
      cases hturn

theorem chunkLoop_within (hlen : pending.length < 2 ^ 63)
    (h : (chunkLoop pending).run ⟨0, []⟩ = .ok p) : p.i ≤ pending.length := by
  obtain ⟨p', hreach, h⟩ := Loop.exists_of_run h
  have hp := hreach.keeps (P := Decoded pending) (fun p p' hp => hp.turn hlen) (.start _)
  change chunkTurn _ _ = _ at h
  rcases hp.turn_cases hlen with ⟨e, hturn⟩ | ⟨-, hturn⟩ | ⟨p₁, hturn, -⟩ | ⟨p₁, hturn, hwithin⟩
  · cases hturn.symm.trans h
  · cases hturn.symm.trans h
  · cases hturn.symm.trans h
  · cases hturn.symm.trans h
    exact hwithin

theorem decodePending_panics_iff (pending : Bytes) (q : Panic) :
    decodePending pending = .error (.panics q) ↔
      pending.length ≤ maxBackendBody ∧ Overruns pending ∧ q = .overflow := by
  rw [decodePending]
  by_cases hlarge : maxBackendBody < pending.length
  · rw [if_pos hlarge]
    exact iff_of_false (by nofun) fun h => absurd h.1 (Nat.not_le.mpr hlarge)
  rw [if_neg hlarge]
  have hmax : maxBackendBody < 2 ^ 63 := by decide
  have hlen : pending.length < 2 ^ 63 := by omega
  refine Iff.trans ?_ (and_iff_right (Nat.le_of_not_lt hlarge)).symm
  rw [← chunkLoop_panics_iff hlen]
  cases hrun : (chunkLoop pending).run ⟨0, []⟩ with
  | error e =>
    exact ⟨fun h => congrArg Except.error (Except.error.inj h),
      fun h => congrArg Except.error (Except.error.inj h)⟩
  | ok p =>
    have hfields := fieldLoop_avoids hlen (chunkLoop_within hlen hrun) q
    refine iff_of_false (fun h => ?_) (by nofun)
    change ((fieldLoop pending).run p.i >>= fun _ => .ok p.out) = _ at h
    exact hfields.bind (fun _ => Avoids.of_ok p.out) h

def Returns (r : Except BodyFault Bytes) : Prop := ∀ q, r ≠ .error (.panics q)

/-- **The decoder returns unless a size overruns**: where the backend has sent no more than it may,
and has closed, and what it sent overruns, the process ends. -/
theorem returns_iff (source : Source UInt8) (first : Bytes) :
    Returns (readChunkedBody source first) ↔
      ¬ (source.closes ∧ (first ++ source.items).length ≤ maxBackendBody ∧
        Overruns (first ++ source.items)) := by
  have hpending : ∀ pending, Returns (decodePending pending) ↔
      ¬ (pending.length ≤ maxBackendBody ∧ Overruns pending) := by
    intro pending
    constructor
    · rintro h ⟨hlen, hover⟩
      exact h .overflow ((decodePending_panics_iff pending _).mpr ⟨hlen, hover, rfl⟩)
    · intro h q hq
      obtain ⟨hlen, hover, -⟩ := (decodePending_panics_iff pending q).mp hq
      exact h ⟨hlen, hover⟩
  rw [readChunkedBody, Source.readToEnd]
  split_ifs with hlimit hcloses
  · -- too much has come
    have htake : (source.items.take (maxBackendBody - first.length + 1)).length =
        maxBackendBody - first.length + 1 := length_take_of_le hlimit
    refine iff_of_true ((hpending _).mpr fun h => ?_) fun h => ?_
    · have := h.1
      rw [length_append, htake] at this
      omega
    · have := h.2.1
      rw [length_append] at this
      omega
  · exact (hpending _).trans (not_congr (and_iff_right hcloses).symm)
  · refine iff_of_true ?_ fun h => hcloses h.1
    intro p hp
    cases hp

def largestLine : Source UInt8 where
  pieces := [Utf8.encode "FFFFFFFFFFFFFFFF\r\n".toList]
  arrives := by decide
  closes := true

theorem largestLine_panics : ¬ Returns (readChunkedBody largestLine []) := by
  have hread : readChunkedBody largestLine [] = decodePending largestLine.items := rfl
  have hsize : NamesSize (List.replicate 16 0x46) (2 ^ 64 - 1) := namesSize_iff.mpr ⟨by decide, rfl⟩
  have hover : Overruns largestLine.items := ⟨[], _, [], _, rfl, hsize, by decide⟩
  intro h
  rw [hread] at h
  exact h .overflow ((decodePending_panics_iff _ _).mpr ⟨by decide, hover, rfl⟩)

/-! ## Both decoders -/

def IsFieldLine (line : Bytes) : Prop :=
  ∃ name value : Str, line = Utf8.encode (name ++ ':' :: value) ∧ h1FieldNameIsSafe name = true

def asciiText (bs : Bytes) : Str := bs.map fun b => Char.ofNat b.toNat

theorem fromUtf8?_ascii_append {bs : Bytes} (h : ∀ b ∈ bs, Utf8.isAscii b = true) (rest : Bytes) :
    Utf8.fromUtf8? (bs ++ rest) = (Utf8.fromUtf8? rest).map (asciiText bs ++ ·) := by
  induction bs with
  | nil =>
    rw [nil_append]
    exact Option.map_id'.symm ▸ rfl
  | cons b bs ih =>
    obtain ⟨hb, hbs⟩ := forall_mem_cons.mp h
    rw [cons_append, fromUtf8?_cons, scan_ascii hb, drop_zero, ih hbs, bind_some, Option.map_map]
    rfl

theorem isAscii_of_hex {b : UInt8} (h : (hexDigit b).isSome) : Utf8.isAscii b = true := by
  have hall : ∀ n : Fin 256, (hexDigit (UInt8.ofNat n)).isSome →
      isAscii (UInt8.ofNat n) = true := by decide +kernel
  simpa using hall ⟨b.toNat, b.toNat_lt⟩ (by simpa using h)

theorem hexText {digits : Bytes} (h : IsHex digits) :
    Utf8.encode (asciiText digits) = digits ∧ ';' ∉ asciiText digits ∧
      ∀ c ∈ asciiText digits, Text.isWhitespace c = false := by
  have hbyte : ∀ b : UInt8, (hexDigit b).isSome → Utf8.encode [Char.ofNat b.toNat] = [b] ∧
      ';' ≠ Char.ofNat b.toNat ∧ isWhitespace (Char.ofNat b.toNat) = false := by
    have hall : ∀ n : Fin 256, (hexDigit (UInt8.ofNat n)).isSome →
        Utf8.encode [Char.ofNat (UInt8.ofNat n).toNat] = [UInt8.ofNat n] ∧
          ';' ≠ Char.ofNat (UInt8.ofNat n).toNat ∧
            isWhitespace (Char.ofNat (UInt8.ofNat n).toNat) = false := by decide +kernel
    intro b hb
    simpa using hall ⟨b.toNat, b.toNat_lt⟩ (by simpa using hb)
  induction digits with
  | nil => exact ⟨rfl, not_mem_nil, fun c hc => absurd hc not_mem_nil⟩
  | cons b digits ih =>
    obtain ⟨hb, hdigits⟩ := forall_mem_cons.mp h
    obtain ⟨hencode, hsemi, hblank⟩ := hbyte b hb
    obtain ⟨ihencode, ihsemi, ihblank⟩ := ih hdigits
    have hcons : asciiText (b :: digits) = [Char.ofNat b.toNat] ++ asciiText digits := rfl
    refine ⟨?_, ?_, ?_⟩
    · rw [hcons, encode_append, hencode, ihencode]
      rfl
    · exact fun hmem => (mem_cons.mp hmem).elim hsemi ihsemi
    · exact forall_mem_cons.mpr ⟨hblank, ihblank⟩

theorem namesSize_of_sizeLine {line : Bytes} {n : Nat} (h : SizeLine line n)
    (htext : (Utf8.fromUtf8? line).isSome) : NamesSize line n := by
  refine ⟨h.noLine, ?_⟩
  obtain ⟨digits, ext, rfl, hne, hlen, hhex, rfl, hext⟩ := h
  obtain ⟨hencode, hsemi, hblank⟩ := hexText hhex
  obtain ⟨text, htext⟩ := isSome_iff_exists.mp htext
  have hascii : ∀ b ∈ digits, isAscii b = true := fun b hb => isAscii_of_hex (hhex b hb)
  have hcut : (cutAt ';' text).1 = asciiText digits := by
    rw [fromUtf8?_ascii_append hascii] at htext
    obtain ⟨after, hafter, rfl⟩ := map_eq_some_iff.mp htext
    rcases hext.semicolon with rfl | hhead
    · cases hafter
      rw [append_nil, cutAt_of_absent hsemi]
    · cases ext with
      | nil => cases hhead
      | cons c ext =>
        cases hhead
        rw [fromUtf8?_cons, scan_ascii (by decide), bind_some] at hafter
        obtain ⟨behind, -, rfl⟩ := map_eq_some_iff.mp hafter
        exact congrArg Prod.fst (cutAt_append behind hsemi)
  have hpow : 16 ^ digits.length ≤ 16 ^ 16 := Nat.pow_le_pow_right (by omega) hlen
  have hlt := hexValue_lt digits
  exact ⟨text, digits, htext, by rw [hcut, trim_eq_self hblank, hencode], hne, hhex, rfl, by
    omega⟩

/-! ### Trailers -/

theorem token_char {name : Str} (h : h1FieldNameIsSafe name = true) {c : Char} (hc : c ∈ name) :
    c ≠ ':' ∧ Text.isWhitespace c = false := by
  rw [h1FieldNameIsSafe, Bool.and_eq_true, List.all_eq_true] at h
  have hsafe := h.2 c hc
  rcases Bool.or_eq_true_iff.mp hsafe with hnum | hmark
  · have hall : ∀ n : Fin 128, (Char.ofNat n).isAlphanum = true →
        Char.ofNat n ≠ ':' ∧ isWhitespace (Char.ofNat n) = false := by decide
    have := hall ⟨c.toNat, isAlphanum_lt hnum⟩
    simp only [Char.ofNat_toNat] at this
    exact this hnum
  · have hall : ("!#$%&'*+-.^_`|~".toList.all fun c =>
        c ≠ ':' && !(isWhitespace c)) = true := by decide
    have := List.all_eq_true.mp hall c (by simpa using hmark)
    simpa using this

theorem isTrailer_field {name : Str} (value : Str) (h : h1FieldNameIsSafe name = true) :
    isTrailer (name ++ ':' :: value) = true := by
  have hcolon : ':' ∉ name := fun hmem => (token_char h hmem).1 rfl
  have htrim : Text.trim name = name := trim_eq_self fun c hc => (token_char h hc).2
  rw [isTrailer, cutAt_append value hcolon]
  dsimp only
  rw [htrim, h]

theorem fieldLoop_trailers (pre : Bytes) {trailers : List Bytes}
    (hfields : ∀ t ∈ trailers, IsFieldLine t) (hlines : ∀ t ∈ trailers, t ≠ [] ∧ findCrlf t = none)
    (hlen : (pre ++ ChunkedText.trailerText trailers).length < 2 ^ 63) :
    (fieldLoop (pre ++ ChunkedText.trailerText trailers)).run pre.length = .ok () := by
  induction trailers generalizing pre with
  | nil =>
    refine Loop.run_of_answer (?_ : fieldTurn _ _ = _)
    have htail : (pre ++ ChunkedText.trailerText []).drop pre.length = [] ++ (crlfBytes ++ []) :=
      drop_left
    rw [fieldTurn_of_line hlen (by simp) htail rfl]
    rfl
  | cons t trailers ih =>
    obtain ⟨⟨name, value, htext, hsafe⟩, hfields⟩ := forall_mem_cons.mp hfields
    obtain ⟨⟨hne, hline⟩, hlines⟩ := forall_mem_cons.mp hlines
    have hsplit : pre ++ ChunkedText.trailerText (t :: trailers) =
        (pre ++ (t ++ crlfBytes)) ++ ChunkedText.trailerText trailers := by
      simp [ChunkedText.trailerText]
    have htail : (pre ++ ChunkedText.trailerText (t :: trailers)).drop pre.length =
        t ++ (crlfBytes ++ ChunkedText.trailerText trailers) := by
      rw [drop_left]
      simp [ChunkedText.trailerText]
    have hread : Utf8.fromUtf8? t = some (name ++ ':' :: value) := by
      rw [htext, fromUtf8?_encode]
    have hturn := fieldTurn_of_line hlen (by simp) htail hline
    rw [if_neg hne, hread] at hturn
    simp only [isTrailer_field value hsafe, if_true] at hturn
    have hnext := ih (pre ++ (t ++ crlfBytes)) hfields hlines (by rwa [← hsplit])
    rw [Loop.run_of_next hturn, hsplit, ← hnext]
    congr 1
    simp

theorem decodePending_text {b : ChunkedText}
    (hchunks : ∀ c ∈ b.chunks, (Utf8.fromUtf8? c.line).isSome)
    (hlast : (Utf8.fromUtf8? b.last).isSome) (htrailers : ∀ t ∈ b.trailers, IsFieldLine t)
    (hlen : b.text.length ≤ maxBackendBody) : decodePending b.text = .ok b.body := by
  have hmax : maxBackendBody < 2 ^ 63 := by decide
  have hnames : ∀ c ∈ b.chunks, NamesSize c.line c.data.length :=
    fun c hc => namesSize_of_sizeLine c.names (hchunks c hc)
  obtain ⟨cs, htexts, hcontent⟩ := exists_chunks crlfBytes hnames
  have hsplit : b.text = texts crlfBytes cs ++
      (b.last ++ (crlfBytes ++ ChunkedText.trailerText b.trailers)) := by
    rw [htexts]
    simp [ChunkedText.text]
  have hpre : b.text = (texts crlfBytes cs ++ (b.last ++ crlfBytes)) ++
      ChunkedText.trailerText b.trailers := by
    rw [hsplit]
    simp
  have hzero := namesSize_of_sizeLine b.last_size hlast
  have hlt : b.text.length < 2 ^ 63 := by omega
  have hfields := fieldLoop_trailers (texts crlfBytes cs ++ (b.last ++ crlfBytes)) htrailers
    b.trailers_line (by rwa [← hpre])
  have hend : (chunkLoop b.text).run ⟨0, []⟩ =
      .ok ⟨(texts crlfBytes cs).length + (b.last.length + 2), content cs⟩ := by
    rw [hsplit] at hlt ⊢
    rw [run_of_texts cs hlt]
    refine Loop.run_of_answer (?_ : chunkTurn _ _ = _)
    rw [chunkTurn_of_line hlt (by simp) drop_left hzero.1, hzero.read]
    rfl
  rw [← hpre] at hfields
  have hplace : (texts crlfBytes cs).length + (b.last.length + 2) =
      (texts crlfBytes cs ++ (b.last ++ crlfBytes)).length := by simp
  rw [decodePending, if_neg (by omega), hend]
  simp only [bind, Except.bind, hplace, hfields]
  rw [hcontent]
  rfl

theorem readChunkedBody_of_closes {source : Source UInt8} {first : Bytes}
    (hcloses : source.closes = true) (hlen : (first ++ source.items).length ≤ maxBackendBody) :
    readChunkedBody source first = decodePending (first ++ source.items) := by
  rw [length_append] at hlen
  rw [readChunkedBody, Source.readToEnd, if_neg (by omega), if_pos hcloses]

/-- **Both decoders read what a body is written as.** The one for requests takes any bytes in
extensions and trailers and answers with the last byte of the body, neither earlier nor otherwise
if more follows; the one for responses needs text, and no more than a backend may send. -/
theorem round_trip (b : ChunkedText) (h : b.body.length ≤ maxChunkedBody) :
    (∀ suffix, decodeChunked (b.text ++ suffix) = .done b.body) ∧
    (∀ p, p <+: b.text → p ≠ b.text → decodeChunked p = .incomplete) ∧
    ((∀ c ∈ b.chunks, (Utf8.fromUtf8? c.line).isSome) → (Utf8.fromUtf8? b.last).isSome →
      (∀ t ∈ b.trailers, IsFieldLine t) → b.text.length ≤ maxBackendBody →
      ∀ (source : Source UInt8) (first : Bytes), source.closes → first ++ source.items = b.text →
        readChunkedBody source first = .ok b.body) := by
  refine ⟨decodeChunked_complete b h, fun p => decodeChunked_cut b h, ?_⟩
  intro hchunks hlast htrailers hlen source first hcloses htext
  rw [readChunkedBody_of_closes hcloses (htext ▸ hlen), htext, decodePending_text hchunks hlast
    htrailers hlen]

/-- Some bytes, which come at once, and then the end. -/
def whole (bytes : Bytes) (h : bytes ≠ []) : Source UInt8 where
  pieces := [bytes]
  arrives := by simpa using h
  closes := true

theorem noExtension : IsExtension [] := ⟨rfl, .inl rfl⟩

theorem lastChunk : SizeLine [0x30] 0 :=
  ⟨[0x30], [], rfl, by decide, by decide, by decide, by decide, noExtension⟩

theorem extension_of_notMem {ext : Bytes} (h : (0x0d : UInt8) ∉ ext) : IsExtension
    (0x3b :: ext) := by
  have hnot : (0x0d : UInt8) ∉ 0x3b :: ext := fun hmem =>
    (mem_cons.mp hmem).elim (by decide) h
  have hnone := findCrlf_append_of_notMem hnot []
  rw [append_nil] at hnone
  exact ⟨hnone, .inr rfl⟩

def greeting : ChunkedText where
  chunks := [⟨Utf8.encode "00A;x".toList, Utf8.encode "0\r\n\r\nhello".toList,
    ⟨Utf8.encode "00A".toList, Utf8.encode ";x".toList, by decide, by decide, by decide, by decide,
      by decide, ⟨by decide, by decide⟩⟩, by decide⟩]
  last := [0x30]
  last_size := lastChunk
  trailers := [Utf8.encode "A:b".toList]
  trailers_line := by decide

theorem greeting_round_trip :
    decodeChunked (greeting.text ++ greeting.text) = .done greeting.body ∧
    decodeChunked (greeting.text.take 28) = .incomplete ∧
    readChunkedBody (whole greeting.text (by decide)) [] = .ok greeting.body := by
  obtain ⟨hwhole, hcut, hread⟩ := round_trip greeting (by decide)
  refine ⟨hwhole _, hcut _ (List.take_prefix _ _) (by decide), ?_⟩
  exact hread (by decide) (by decide) (by simpa [greeting] using ⟨['A'], ['b'], rfl, by decide⟩)
    (by decide) _ [] rfl (by simp [Source.items, whole])

def bytesExtension : ChunkedText where
  chunks := [⟨[0x31, 0x3b, 0xff], [0x78],
    ⟨[0x31], [0x3b, 0xff], by decide, by decide, by decide, by decide, by decide,
      extension_of_notMem (by decide)⟩, by decide⟩]
  last := [0x30]
  last_size := lastChunk
  trailers := []
  trailers_line := by decide

def longExtension (n : Nat) : ChunkedText where
  chunks := []
  last := 0x30 :: 0x3b :: List.replicate n 0x61
  last_size := ⟨[0x30], 0x3b :: List.replicate n 0x61, rfl, by decide, by decide, by decide,
    by decide, extension_of_notMem fun h => absurd (List.eq_of_mem_replicate h) (by decide)⟩
  trailers := []
  trailers_line := by decide

theorem lt_length_longExtension (n : Nat) : n < (longExtension n).text.length := by
  simp only [ChunkedText.text, longExtension, length_append, length_cons, length_replicate]
  omega

theorem readChunkedBody_large {source : Source UInt8}
    (h : maxBackendBody + 1 ≤ source.items.length) :
    readChunkedBody source [] = .error (.refuses .tooLarge) := by
  have htake : (source.items.take (maxBackendBody + 1)).length = maxBackendBody + 1 :=
    length_take_of_le h
  rw [readChunkedBody, Source.readToEnd, length_nil, Nat.sub_zero, if_pos h]
  exact if_pos (by rw [nil_append, htake]; omega)

theorem items_whole {bytes : Bytes} (h : bytes ≠ []) : (whole bytes h).items = bytes := by
  simp [Source.items, whole]

/-- **The decoder of responses refuses bodies that the other one takes**: one with bytes in an
extension that are no text, and one that is too long for its extensions. -/
theorem extensions_refused :
    (∃ h, readChunkedBody (whole bytesExtension.text h) [] = .error (.refuses .sizeNotText)) ∧
    (∃ h, readChunkedBody (whole (longExtension maxBackendBody).text h) [] =
      .error (.refuses .tooLarge)) := by
  constructor
  · have hline : bytesExtension.text.drop 0 = [0x31, 0x3b, 0xff] ++
        (crlfBytes ++ Utf8.encode "x\r\n0\r\n\r\n".toList) := by decide
    have hturn := chunkTurn_of_line (p := ⟨0, []⟩) (by decide) (Nat.zero_le _) hline (by decide)
    have hread : readSize [0x31, 0x3b, 0xff] = .error .sizeNotText := rfl
    rw [hread] at hturn
    refine ⟨by decide, ?_⟩
    rw [readChunkedBody_of_closes rfl (by decide), items_whole, nil_append, decodePending,
      if_neg (by decide), Loop.run_of_error hturn]
    rfl
  · have hlong := lt_length_longExtension maxBackendBody
    refine ⟨ne_nil_of_length_pos (by omega), readChunkedBody_large ?_⟩
    rw [items_whole]
    exact hlong

end BackendBody

end M6
