import M6.Edge.ChunkedBody
import M6.Edge.H2Client

/-!
# Reading a response

`read_response_for` of `forward.rs`, by which the edge reads what a backend answers over a socket: a
head of at most 8 KiB, and then the body by what the head says of it. `readHead_of_headEnd` says
that the head is found however the bytes arrive, and `scan_eq_ok_iff` which fields frame a response.
-/

namespace M6

open List Option Utf8

namespace ResponseReader

open Looping Failing H1 BackendBody

/-! ## The head -/

inductive ReadError where
  | unread
  | closedInHead
  | headTooLarge
  | headNotText
  | badStatus
  | badLength (part : Str)
  | lengthOutOfRange (part : Str)
  | conflictingLengths (first next : Nat)
  | codedAndLength
  | unframed
  | bodyTooLarge
  | closedInBody
  | chunked (f : BodyFault)
  deriving DecidableEq

def headRoom : Nat := 8192

abbrev Reading : Type := Source UInt8 × Bytes

def headTurn (r : Reading) : Except ReadError (Reading ⊕ Nat × Reading) :=
  match r.1.read (headRoom - r.2.length) with
  | none => .error .unread
  | some ([], _) => .error .closedInHead
  | some (piece, source) =>
    match headEnd (r.2 ++ piece) with
    | some pos => .ok (.inr (pos, source, r.2 ++ piece))
    | none =>
      if headRoom ≤ (r.2 ++ piece).length then .error .headTooLarge
      else .ok (.inl (source, r.2 ++ piece))

theorem headTurn_next {r r' : Reading} (h : headTurn r = .ok (.inl r')) :
    r.2.length < r'.2.length ∧ r'.2.length < headRoom := by
  rw [headTurn] at h
  cases hread : r.1.read (headRoom - r.2.length) with
  | none =>
    rw [hread] at h
    cases h
  | some got =>
    obtain ⟨piece, source⟩ := got
    rw [hread] at h
    cases piece with
    | nil => cases h
    | cons b piece =>
      dsimp only at h
      cases hend : headEnd (r.2 ++ b :: piece) with
      | some pos =>
        rw [hend] at h
        cases h
      | none =>
        rw [hend] at h
        dsimp only at h
        split_ifs at h with hfull
        cases h
        refine ⟨?_, Nat.lt_of_not_le hfull⟩
        rw [length_append, length_cons]
        omega

def headLoop : Loop ReadError Reading (Nat × Reading) where
  turn := headTurn
  left r := headRoom - r.2.length
  shrinks := by
    intro r r' h
    have := headTurn_next h
    omega

/-- Cut a text at each `\r\n`. -/
def splitCrlf : Str → List Str
  | [] => [[]]
  | '\r' :: '\n' :: s => [] :: splitCrlf s
  | c :: s => (splitCrlf s).modifyHead (c :: ·)

/-- A `u16` in decimal. -/
def parseU16 (s : Str) : Option Nat := (parseUsize s).filter (· < 2 ^ 16)

/-- `parse_status_line`: the status and the reason. -/
def parseStatusLine (line : Str) : Except ReadError (Nat × Str) :=
  match Text.cutAt ' ' line with
  | (_, none) => .error .badStatus
  | (_, some rest) =>
    let (status, reason) := Text.cutAt ' ' rest
    match parseU16 status with
    | none => .error .badStatus
    | some status => .ok (status, reason.getD [])

/-! ## The fields -/

/-- What the loop over the fields has found. -/
structure Framing where
  length : Option Nat
  /-- a `Transfer-Encoding` is there -/
  coded : Bool
  chunked : Bool
  headers : List (Str × Str)

def isLength (name : Str) : Bool := Text.eqIgnoreAsciiCase name "content-length".toList

def isCoding (name : Str) : Bool := Text.eqIgnoreAsciiCase name "transfer-encoding".toList

/-- Whether the last coding is `chunked`. -/
def endsChunked (value : Str) : Bool :=
  Text.eqIgnoreAsciiCase (Text.trim ((value.splitOn ',').getLastD [])) "chunked".toList

def members (value : Str) : List Str := (value.splitOn ',').map Text.trim

def scanPart (length : Option Nat) (part : Str) : Except ReadError (Option Nat) :=
  if part = [] ∨ ¬ part.all Char.isDigit then .error (.badLength part)
  else
    match parseUsize part with
    | none => .error (.lengthOutOfRange part)
    | some n =>
      match length with
      | some first => if first ≠ n then .error (.conflictingLengths first n) else .ok (some n)
      | none => .ok (some n)

def fieldLength (length : Option Nat) (f : Str × Str) : Except ReadError (Option Nat) :=
  if isLength f.1 then (members f.2).foldlM scanPart length else .ok length

def scanField (s : Framing) (f : Str × Str) : Except ReadError Framing := do
  let length ← fieldLength s.length f
  .ok { length := length
        coded := s.coded || isCoding f.1
        chunked := s.chunked || isCoding f.1 && endsChunked f.2
        headers := s.headers ++ [f] }

def lineField (line : Str) : Option (Str × Str) :=
  match Text.cutAt ':' line with
  | (name, some value) => some (Text.trim name, Text.trim value)
  | (_, none) => none

/-- The lines behind the status line, up to a blank one. Lines without a colon are passed over. -/
def scanLines : Framing → List Str → Except ReadError Framing
  | s, [] => .ok s
  | s, line :: lines =>
    if line = [] then .ok s
    else
      match lineField line with
      | none => scanLines s lines
      | some f => do scanLines (← scanField s f) lines

def parseHead (head : Bytes) : Except ReadError (Nat × Str × Framing) :=
  match Utf8.fromUtf8? head with
  | none => .error .headNotText
  | some text =>
    match splitCrlf text with
    | [] => .error .badStatus
    | statusLine :: lines => do
      let (status, reason) ← parseStatusLine statusLine
      let s ← scanLines ⟨none, false, false, []⟩ lines
      if s.coded ∧ s.length.isSome then .error .codedAndLength
      else if s.coded ∧ ¬ s.chunked then .error .unframed
      else .ok (status, reason, s)

/-! ## The body -/

structure ReadResponse extends HttpResponse where
  reason : Str
  left : Bytes

def isBodyless (method : Str) (status : Nat) : Bool :=
  Text.eqIgnoreAsciiCase method "HEAD".toList || status == 204 || status == 304 ||
    (100 ≤ status && status < 200)

/-- The body, and what is left: `first` came with the head. -/
def readBody (s : Framing) (source : Source UInt8) (first : Bytes) :
    Except ReadError (Bytes × Bytes) :=
  if s.chunked then
    match readChunkedBody source first with
    | .error f => .error (.chunked f)
    | .ok body => .ok (body, (source.skip (maxBackendBody - first.length + 1)).items)
  else
    match s.length with
    | some n =>
      if maxBackendBody < n then .error .bodyTooLarge
      else
        -- what came with the head may be more than the body
        let already := min first.length n
        match source.readExact (n - already) with
        | none => .error .closedInBody
        | some (more, rest) => .ok (first.take already ++ more, first.drop already ++ rest.items)
    | none =>
      match source.readToEnd (maxBackendBody - first.length + 1) with
      | none => .error .unread
      | some (more, rest) =>
        if maxBackendBody < (first ++ more).length then .error .bodyTooLarge
        else .ok (first ++ more, rest.items)

def readResponseFor (source : Source UInt8) (method : Str) : Except ReadError ReadResponse := do
  let (pos, source, buf) ← headLoop.run (source, [])
  let (status, reason, s) ← parseHead (buf.take pos)
  let first := buf.drop (pos + 4)
  if isBodyless method status then
    .ok { status, reason, headers := s.headers, body := [], left := first ++ source.items }
  else do
    let (body, left) ← readBody s source first
    .ok { status, reason, headers := s.headers, body, left }

/-! ## Finding the head -/

theorem headEnd_within {buf : Bytes} {n : Nat} (h : headEnd buf = some n) : n + 4 ≤ buf.length := by
  induction buf generalizing n with
  | nil => cases h
  | cons b rest ih =>
    rw [headEnd] at h
    split_ifs at h with hend
    · have hlen := congrArg List.length hend
      simp only [length_take, length_cons, length_nil] at hlen ⊢
      cases h
      omega
    · obtain ⟨k, hk, rfl⟩ := map_eq_some_iff.mp h
      have := ih hk
      rw [length_cons]
      omega

theorem headEnd_of_append {a b : Bytes} {n : Nat} (h : headEnd (a ++ b) = some n)
    (hlen : n + 4 ≤ a.length) : headEnd a = some n := by
  induction a generalizing n with
  | nil => simp at hlen
  | cons c a ih =>
    rw [cons_append, headEnd] at h
    rw [headEnd]
    have htake : (c :: (a ++ b)).take 4 = (c :: a).take 4 := by
      rw [← cons_append, take_append_of_le_length (by omega)]
    rw [htake] at h
    split_ifs at h with hend
    · rw [if_pos hend, h]
    · obtain ⟨k, hk, rfl⟩ := map_eq_some_iff.mp h
      rw [length_cons] at hlen
      rw [if_neg hend, ih hk (by omega)]
      rfl

section

variable {items : Bytes} {pos : Nat}

structure Searching (items : Bytes) (r : Reading) : Prop where
  whole : r.2 ++ r.1.items = items
  room : r.2.length < headRoom
  unfinished : headEnd r.2 = none

theorem Searching.read {r : Reading} (hr : Searching items r) (hend : headEnd items = some pos) :
    ∃ b piece source, r.1.read (headRoom - r.2.length) = some (b :: piece, source) ∧
      r.2 ++ b :: piece ++ source.items = items ∧ (r.2 ++ b :: piece).length ≤ headRoom := by
  have hroom := hr.room
  obtain ⟨hitems, -⟩ | ⟨b, piece, source, hread⟩ := r.1.read_cases (Nat.sub_pos_of_lt hroom)
  · have hwhole := hr.whole
    rw [hitems, append_nil] at hwhole
    rw [← hwhole, hr.unfinished] at hend
    cases hend
  · have hlen := (Source.le_of_read hread).1
    refine ⟨b, piece, source, hread, ?_, ?_⟩
    · rw [append_assoc, Source.items_of_read hread, hr.whole]
    · rw [length_append]
      omega

/-- **A turn**: more of the head comes, or all of it, or it does not fit. -/
theorem Searching.turn {r : Reading} (hr : Searching items r) (hend : headEnd items = some pos) :
    (∃ r', headTurn r = .ok (.inl r') ∧ Searching items r') ∨
    (pos + 4 ≤ headRoom ∧ ∃ source buf, headTurn r = .ok (.inr (pos, source, buf)) ∧
      buf ++ source.items = items ∧ pos + 4 ≤ buf.length) ∨
    (headRoom < pos + 4 ∧ headTurn r = .error .headTooLarge) := by
  obtain ⟨b, piece, source, hread, hwhole, hfits⟩ := hr.read hend
  cases hfound : headEnd (r.2 ++ b :: piece) with
  | some n =>
    have hn : n = pos := by
      have happend := (headEnd_append hfound source.items).1
      rw [hwhole, hend] at happend
      exact (some.inj happend).symm
    have hwithin := headEnd_within hfound
    subst hn
    refine .inr (.inl ⟨by omega, source, _, ?_, hwhole, hwithin⟩)
    simp only [headTurn, hread, hfound]
  | none =>
    have hlong : (r.2 ++ b :: piece).length < pos + 4 := by
      by_contra hle
      rw [← hwhole] at hend
      rw [headEnd_of_append hend (by omega)] at hfound
      cases hfound
    by_cases hfull : headRoom ≤ (r.2 ++ b :: piece).length
    · refine .inr (.inr ⟨by omega, ?_⟩)
      simp only [headTurn, hread, hfound, if_pos hfull]
    · refine .inl ⟨(source, r.2 ++ b :: piece), ?_, hwhole, Nat.lt_of_not_le hfull, hfound⟩
      simp only [headTurn, hread, hfound, if_neg hfull]

/-- **The head is found, however the bytes arrive**, if there is room for it. -/
theorem readHead_of_headEnd {source : Source UInt8} (hend : headEnd source.items = some pos) :
    (pos + 4 ≤ headRoom ∧ ∃ rest buf, headLoop.run (source, []) = .ok (pos, rest, buf) ∧
      buf ++ rest.items = source.items ∧ pos + 4 ≤ buf.length) ∨
    (headRoom < pos + 4 ∧ headLoop.run (source, []) = .error .headTooLarge) := by
  have hstart : Searching source.items (source, []) := ⟨rfl, (by decide : 0 < headRoom), rfl⟩
  obtain ⟨r, hreach, hlast⟩ := headLoop.exists_last (source, [])
  have hr : Searching source.items r := by
    refine hreach.keeps (P := Searching source.items) (fun r r' hr h => ?_) hstart
    change headTurn r = _ at h
    rcases hr.turn hend with ⟨r₁, hturn, hr₁⟩ | ⟨-, rest, buf, hturn, -⟩ | ⟨-, hturn⟩
    · rw [hturn] at h
      cases h
      exact hr₁
    all_goals
      rw [hturn] at h
      cases h
  change (∃ e, headTurn r = .error e) ∨ ∃ a, headTurn r = .ok (.inr a) at hlast
  rw [hreach.run_eq]
  rcases hr.turn hend with ⟨r₁, hturn, -⟩ | ⟨hroom, rest, buf, hturn, hwhole, hlen⟩ | ⟨hroom, hturn⟩
  · rw [hturn] at hlast
    rcases hlast with ⟨e, he⟩ | ⟨a, ha⟩
    · cases he
    · cases ha
  · exact .inl ⟨hroom, rest, buf, Loop.run_of_answer hturn, hwhole, hlen⟩
  · exact .inr ⟨hroom, Loop.run_of_error hturn⟩

/-- **A turn** adds what was read, and looks for the end of the head. -/
theorem headTurn_ok {r : Reading} {x : Reading ⊕ Nat × Reading} (h : headTurn r = .ok x) :
    ∃ piece next, r.1.read (headRoom - r.2.length) = some (piece, next) ∧
      ((∃ n, headEnd (r.2 ++ piece) = some n ∧ x = .inr (n, next, r.2 ++ piece)) ∨
        headEnd (r.2 ++ piece) = none ∧ x = .inl (next, r.2 ++ piece)) := by
  rw [headTurn] at h
  cases hread : r.1.read (headRoom - r.2.length) with
  | none =>
    rw [hread] at h
    cases h
  | some got =>
    obtain ⟨piece, next⟩ := got
    rw [hread] at h
    cases piece with
    | nil => cases h
    | cons b piece =>
      refine ⟨b :: piece, next, rfl, ?_⟩
      dsimp only at h
      cases hend : headEnd (r.2 ++ b :: piece) with
      | some n =>
        rw [hend] at h
        exact .inl ⟨n, rfl, (Except.ok.inj h).symm⟩
      | none =>
        rw [hend] at h
        dsimp only at h
        split_ifs at h
        exact .inr ⟨rfl, (Except.ok.inj h).symm⟩

/-- **Where a head is found, there is one.** -/
theorem headEnd_of_readHead {source rest : Source UInt8} {buf : Bytes}
    (h : headLoop.run (source, []) = .ok (pos, rest, buf)) :
    headEnd source.items = some pos ∧ buf ++ rest.items = source.items ∧ pos + 4 ≤ buf.length := by
  have hturn : ∀ {r : Reading} {x}, r.2 ++ r.1.items = source.items → headTurn r = .ok x →
      ∃ piece next, r.2 ++ piece ++ next.items = source.items ∧
        ((∃ n, headEnd (r.2 ++ piece) = some n ∧ x = .inr (n, next, r.2 ++ piece)) ∨
          headEnd (r.2 ++ piece) = none ∧ x = .inl (next, r.2 ++ piece)) := by
    intro r x hwhole hx
    obtain ⟨piece, next, hread, hcases⟩ := headTurn_ok hx
    refine ⟨piece, next, ?_, hcases⟩
    rw [append_assoc, Source.items_of_read hread, hwhole]
  obtain ⟨r, hreach, hlast⟩ := Loop.exists_of_run h
  have hr : r.2 ++ r.1.items = source.items := by
    refine hreach.keeps (P := fun r => r.2 ++ r.1.items = source.items)
      (fun r r' hr hnext => ?_) rfl
    obtain ⟨piece, next, hwhole, ⟨n, -, hx⟩ | ⟨-, hx⟩⟩ := hturn hr hnext
    · cases hx
    · cases hx
      exact hwhole
  obtain ⟨piece, next, hwhole, ⟨n, hend, hx⟩ | ⟨-, hx⟩⟩ := hturn hr hlast
  · obtain ⟨rfl, rfl, rfl⟩ : pos = n ∧ rest = next ∧ buf = r.2 ++ piece := by simpa using hx
    refine ⟨?_, hwhole, headEnd_within hend⟩
    rw [← hwhole]
    exact (headEnd_append hend rest.items).1
  · cases hx

end

/-! ## What the fields say -/

def lengthParts (fs : List (Str × Str)) : List Str :=
  (fs.filter fun f => isLength f.1).flatMap fun f => members f.2

structure LengthIs (part : Str) (n : Nat) : Prop where
  ne : part ≠ []
  digits : part.all Char.isDigit = true
  parse : parseUsize part = some n

theorem LengthIs.unique {part : Str} {n k : Nat} (h : LengthIs part n) (h' : LengthIs part k) :
    n = k :=
  some.inj (h.parse.symm.trans h'.parse)

theorem foldlM_scanField (fs : List (Str × Str)) (s : Framing) :
    fs.foldlM scanField s = (lengthParts fs).foldlM scanPart s.length >>= fun length =>
      .ok { length := length
            coded := s.coded || fs.any fun f => isCoding f.1
            chunked := s.chunked || fs.any fun f => isCoding f.1 && endsChunked f.2
            headers := s.headers ++ fs } := by
  induction fs generalizing s with
  | nil => simp [lengthParts, pure, Except.pure, bind, Except.bind]
  | cons f fs ih =>
    have hparts : (lengthParts (f :: fs)).foldlM scanPart s.length =
        fieldLength s.length f >>= fun length => (lengthParts fs).foldlM scanPart length := by
      rw [lengthParts, filter_cons, fieldLength]
      split_ifs
      · rw [flatMap_cons, foldlM_append]
        rfl
      · rfl
    rw [foldlM_cons, scanField, hparts]
    cases fieldLength s.length f with
    | error e => rfl
    | ok length =>
      simp only [bind, Except.bind] at ih ⊢
      rw [ih]
      simp [Bool.or_assoc]

theorem scanPart_eq_ok {length r : Option Nat} {part : Str} :
    scanPart length part = .ok r ↔
      ∃ n, r = some n ∧ LengthIs part n ∧ ∀ first, length = some first → first = n := by
  rw [scanPart]
  split_ifs with hbad
  · refine iff_of_false (by nofun) ?_
    rintro ⟨n, -, hn, -⟩
    exact hbad.elim hn.ne fun h => h hn.digits
  obtain ⟨hne, hdigits⟩ := not_or.mp hbad
  cases hparse : parseUsize part with
  | none =>
    refine iff_of_false (fun h => nomatch h) ?_
    rintro ⟨n, -, hn, -⟩
    exact nomatch hparse.symm.trans hn.parse
  | some k =>
    have hk : LengthIs part k := ⟨hne, not_not.mp hdigits, hparse⟩
    cases length with
    | none =>
      dsimp only
      constructor
      · intro h
        exact ⟨k, (Except.ok.inj h).symm, hk, by nofun⟩
      · rintro ⟨n, rfl, hn, -⟩
        rw [hk.unique hn]
    | some first =>
      dsimp only
      by_cases hsame : first = k
      · rw [if_neg (not_not_intro hsame)]
        constructor
        · intro h
          exact ⟨k, (Except.ok.inj h).symm, hk, fun _ h => (some.inj h) ▸ hsame⟩
        · rintro ⟨n, rfl, hn, -⟩
          rw [hk.unique hn]
      · rw [if_pos hsame]
        refine iff_of_false (by nofun) ?_
        rintro ⟨n, -, hn, hfirst⟩
        exact hsame ((hfirst first rfl).trans (hn.unique hk))

theorem foldlM_scanPart_some (parts : List Str) (n : Nat) (r : Option Nat) :
    parts.foldlM scanPart (some n) = .ok r ↔ r = some n ∧ ∀ p ∈ parts, LengthIs p n := by
  induction parts with
  | nil => simp [pure, Except.pure, eq_comm]
  | cons p parts ih =>
    rw [foldlM_cons, bind_eq_ok, forall_mem_cons]
    constructor
    · rintro ⟨length, hpart, hrest⟩
      obtain ⟨k, rfl, hk, hfirst⟩ := scanPart_eq_ok.mp hpart
      obtain rfl := hfirst n rfl
      obtain ⟨rfl, hparts⟩ := ih.mp hrest
      exact ⟨rfl, hk, hparts⟩
    · rintro ⟨rfl, hp, hparts⟩
      refine ⟨some n, scanPart_eq_ok.mpr ⟨n, rfl, hp, fun _ h => (some.inj h).symm⟩, ?_⟩
      exact ih.mpr ⟨rfl, hparts⟩

theorem foldlM_scanPart_none (parts : List Str) (r : Option Nat) :
    parts.foldlM scanPart none = .ok r ↔
      (parts = [] ∧ r = none) ∨ parts ≠ [] ∧ ∃ n, r = some n ∧ ∀ p ∈ parts, LengthIs p n := by
  cases parts with
  | nil => simp [pure, Except.pure, eq_comm]
  | cons p parts =>
    simp only [cons_ne_nil, false_and, false_or, ne_eq, not_false_eq_true, true_and,
      forall_mem_cons]
    rw [foldlM_cons, bind_eq_ok]
    constructor
    · rintro ⟨length, hpart, hrest⟩
      obtain ⟨n, rfl, hn, -⟩ := scanPart_eq_ok.mp hpart
      obtain ⟨rfl, hparts⟩ := (foldlM_scanPart_some parts n r).mp hrest
      exact ⟨n, rfl, hn, hparts⟩
    · rintro ⟨n, rfl, hn, hparts⟩
      exact ⟨some n, scanPart_eq_ok.mpr ⟨n, rfl, hn, by nofun⟩,
        (foldlM_scanPart_some parts n _).mpr ⟨rfl, hparts⟩⟩

/-- **Fields that frame a response**: all lengths are one number, and where codings are named there
is no length, and some field ends with `chunked`. -/
structure Frames (fs : List (Str × Str)) : Prop where
  length : ∃ n, ∀ p ∈ lengthParts fs, LengthIs p n
  coding : (fs.any fun f => isCoding f.1) = true →
    lengthParts fs = [] ∧ (fs.any fun f => isCoding f.1 && endsChunked f.2) = true

/-! ## A head that is written in lines -/

/-- Lines, with `\r\n` between them. -/
def joinCrlf : List Str → Str
  | [] => []
  | [line] => line
  | line :: lines => line ++ crlf ++ joinCrlf lines

variable {lines : List Str}

theorem joinCrlf_cons (line : Str) (h : lines ≠ []) :
    joinCrlf (line :: lines) = line ++ crlf ++ joinCrlf lines := by
  cases lines with
  | nil => exact absurd rfl h
  | cons next lines => rfl

theorem length_le_joinCrlf {line : Str} (h : line ∈ lines) :
    line.length ≤ (joinCrlf lines).length := by
  induction lines with
  | nil => cases h
  | cons first lines ih =>
    cases lines with
    | nil => rw [mem_singleton.mp h, joinCrlf]
    | cons next lines =>
      rw [joinCrlf_cons first (cons_ne_nil _ _), length_append, length_append]
      rcases mem_cons.mp h with rfl | hmem
      · omega
      · have hle := ih hmem
        omega

theorem joinCrlf_starts (line : Str) (lines : List Str) :
    ∃ s, joinCrlf (line :: lines) = line ++ s := by
  cases lines with
  | nil => exact ⟨[], (append_nil line).symm⟩
  | cons next lines => exact ⟨_, append_assoc line crlf _⟩

/-- Lines that all end with `\r\n`. -/
theorem flatMap_crlf (h : lines ≠ []) : lines.flatMap (· ++ crlf) = joinCrlf lines ++ crlf := by
  induction lines with
  | nil => exact absurd rfl h
  | cons line lines ih =>
    by_cases hlast : lines = []
    · subst hlast
      simp [joinCrlf]
    · rw [flatMap_cons, ih hlast, joinCrlf_cons line hlast, append_assoc _ _ crlf]

theorem splitCrlf_line {line : Str} (h : '\r' ∉ line) : splitCrlf line = [line] := by
  induction line with
  | nil => rfl
  | cons c line ih =>
    obtain ⟨hc, hline⟩ := not_or.mp (mt mem_cons.mpr h)
    rw [splitCrlf.eq_3 c line (by rintro s rfl; exact fun _ => hc rfl), ih hline]
    rfl

theorem splitCrlf_append {line : Str} (h : '\r' ∉ line) (s : Str) :
    splitCrlf (line ++ crlf ++ s) = line :: splitCrlf s := by
  induction line with
  | nil => rfl
  | cons c line ih =>
    obtain ⟨hc, hline⟩ := not_or.mp (mt mem_cons.mpr h)
    rw [cons_append, cons_append,
      splitCrlf.eq_3 c _ (by rintro s rfl; exact fun _ => hc rfl), ih hline]
    rfl

theorem splitCrlf_join (hne : lines ≠ []) (h : ∀ l ∈ lines, '\r' ∉ l) :
    splitCrlf (joinCrlf lines) = lines := by
  induction lines with
  | nil => exact absurd rfl hne
  | cons line lines ih =>
    obtain ⟨hline, hlines⟩ := forall_mem_cons.mp h
    by_cases hlast : lines = []
    · subst hlast
      exact splitCrlf_line hline
    · rw [joinCrlf_cons line hlast, splitCrlf_append hline, ih hlast hlines]

/-! ### Where it ends -/

theorem headEnd_append_of_notMem {a : Bytes} (h : (0x0d : UInt8) ∉ a) (b : Bytes) :
    headEnd (a ++ b) = (headEnd b).map (· + a.length) := by
  induction a with
  | nil => simp
  | cons c a ih =>
    obtain ⟨hc, ha⟩ := not_or.mp (mt mem_cons.mpr h)
    have hhead : (c :: (a ++ b)).take 4 ≠ [0x0d, 0x0a, 0x0d, 0x0a] := by
      rw [take_succ_cons]
      exact fun heq => hc (List.cons.inj heq).1.symm
    rw [cons_append, headEnd, if_neg hhead, ih ha, Option.map_map]
    exact congrArg (Option.map · (headEnd b)) (funext fun n => Nat.add_assoc n _ 1)

theorem headEnd_crlf {b : UInt8} (hb : b ≠ 0x0d) (rest : Bytes) :
    headEnd (crlfBytes ++ b :: rest) = (headEnd (b :: rest)).map (· + 2) := by
  have hfirst : (0x0d :: 0x0a :: b :: rest : Bytes).take 4 ≠ [0x0d, 0x0a, 0x0d, 0x0a] := by
    simp only [take_succ_cons]
    intro heq
    simp [hb] at heq
  have hsecond : (0x0a :: b :: rest : Bytes).take 4 ≠ [0x0d, 0x0a, 0x0d, 0x0a] := by
    rw [take_succ_cons]
    exact fun heq => absurd (List.cons.inj heq).1 (by decide)
  change headEnd (0x0d :: 0x0a :: b :: rest) = _
  rw [headEnd, if_neg hfirst, headEnd, if_neg hsecond, Option.map_map]
  rfl

theorem encode_crlf : Utf8.encode crlf = crlfBytes := rfl

/-- **A head that is written in lines ends behind the last of them.** -/
theorem headEnd_join (hne : lines ≠ []) (h : ∀ l ∈ lines, l ≠ [] ∧ '\r' ∉ l) (rest : Bytes) :
    headEnd (Utf8.encode (joinCrlf lines) ++ (crlfBytes ++ (crlfBytes ++ rest))) =
      some (Utf8.encode (joinCrlf lines)).length := by
  have hcr : ∀ {l : Str}, '\r' ∉ l → (0x0d : UInt8) ∉ Utf8.encode l := fun hl =>
    not_mem_encode (c := '\r') (by decide) hl
  induction lines with
  | nil => exact absurd rfl hne
  | cons line lines ih =>
    obtain ⟨⟨-, hline⟩, hlines⟩ := forall_mem_cons.mp h
    by_cases hlast : lines = []
    · subst hlast
      rw [joinCrlf, headEnd_append_of_notMem (hcr hline)]
      simp [headEnd, crlfBytes]
    · obtain ⟨next, lines, rfl⟩ := exists_cons_of_ne_nil hlast
      obtain ⟨⟨hnext, hnextcr⟩, -⟩ := forall_mem_cons.mp hlines
      -- the next line begins with something else than a carriage return
      obtain ⟨s, hs⟩ := joinCrlf_starts next lines
      obtain ⟨c, next', rfl⟩ := exists_cons_of_ne_nil hnext
      obtain ⟨b, bs, hchar, -⟩ := scan_encodeChar c []
      have hbcr : b ≠ 0x0d := by
        rintro rfl
        exact hcr hnextcr (by rw [encode_cons, hchar]; exact mem_cons_self)
      obtain ⟨tail, hb⟩ : ∃ tail, Utf8.encode (joinCrlf ((c :: next') :: lines)) = b :: tail := by
        rw [hs, cons_append, encode_cons, hchar]
        exact ⟨_, rfl⟩
      have hih := ih (cons_ne_nil _ _) hlines
      rw [joinCrlf_cons line (cons_ne_nil _ _), encode_append, encode_append,
        encode_crlf, hb, append_assoc, append_assoc, headEnd_append_of_notMem (hcr hline)]
      rw [hb] at hih
      rw [cons_append, headEnd_crlf hbcr, ← cons_append, hih]
      simp
      omega

/-- **A head that is written in lines is found**, if there is room for it, and what follows it is
what is left. -/
theorem readHead_lines (hne : lines ≠ [])
    (hplain : ∀ l ∈ lines, l ≠ [] ∧ '\r' ∉ l) {rest : Bytes} {source : Source UInt8}
    (hsource : source.items = Utf8.encode (joinCrlf lines) ++ (crlfBytes ++ (crlfBytes ++ rest))) :
    ((Utf8.encode (joinCrlf lines)).length + 4 ≤ headRoom ∧ ∃ later buf, headLoop.run (source, []) =
          .ok ((Utf8.encode (joinCrlf lines)).length, later, buf) ∧
        buf.take (Utf8.encode (joinCrlf lines)).length = Utf8.encode (joinCrlf lines) ∧
        buf.drop ((Utf8.encode (joinCrlf lines)).length + 4) ++ later.items = rest) ∨
    (headRoom < (Utf8.encode (joinCrlf lines)).length + 4 ∧
      headLoop.run (source, []) = .error .headTooLarge) := by
  have hend := headEnd_join hne hplain rest
  rw [← hsource] at hend
  refine (readHead_of_headEnd hend).imp ?_ id
  rintro ⟨hroom, later, buf, hrun, hwhole, hlen⟩
  rw [hsource] at hwhole
  generalize Utf8.encode (joinCrlf lines) = head at hroom hrun hwhole hlen ⊢
  refine ⟨hroom, later, buf, hrun, ?_, ?_⟩
  · have htake := congrArg (List.take head.length) hwhole
    rwa [take_append_of_le_length (by omega), take_left] at htake
  · have hdrop := congrArg (List.drop (head.length + 4)) hwhole
    rw [drop_append_of_le_length hlen, ← append_assoc crlfBytes, ← append_assoc head,
      drop_left' (by simp)] at hdrop
    exact hdrop

/-! ### What is in it -/

def fieldText (f : Str × Str) : Str := f.1 ++ ": ".toList ++ f.2

/-- **A field as the reader sees it**: up to the first colon and behind it, without the blanks
around. -/
def asField (f : Str × Str) : Str × Str :=
  (Text.trim (Text.cutAt ':' (fieldText f)).1,
    Text.trim ((Text.cutAt ':' (fieldText f)).2.getD []))

theorem lineField_fieldText (f : Str × Str) : lineField (fieldText f) = some (asField f) := by
  have hcolon : ':' ∈ fieldText f := by simp [fieldText]
  obtain ⟨hnone, -⟩ | ⟨value, -, hcut⟩ := Text.cutAt_cases ':' (fieldText f)
  · exact absurd hcolon hnone
  · rw [lineField, asField, hcut]
    rfl

theorem fieldText_ne_nil (f : Str × Str) : fieldText f ≠ [] := by simp [fieldText]

theorem scanLines_fields (fs : List (Str × Str)) (s : Framing) :
    scanLines s (fs.map fieldText) = (fs.map asField).foldlM scanField s := by
  induction fs generalizing s with
  | nil => rfl
  | cons f fs ih =>
    rw [map_cons, map_cons, scanLines, if_neg (fieldText_ne_nil f), lineField_fieldText,
      foldlM_cons]
    exact congrArg (scanField s (asField f) >>= ·) (funext fun s => ih s)

section

variable {statusLine reason : Str} {status : Nat} {fs : List (Str × Str)}

def headLines (statusLine : Str) (fs : List (Str × Str)) : List Str :=
  statusLine :: fs.map fieldText

theorem parseHead_join (hcr : ∀ l ∈ headLines statusLine fs, '\r' ∉ l)
    (hstatus : parseStatusLine statusLine = .ok (status, reason)) :
    parseHead (Utf8.encode (joinCrlf (headLines statusLine fs))) =
      (fs.map asField).foldlM scanField ⟨none, false, false, []⟩ >>= fun s =>
        if s.coded ∧ s.length.isSome then .error .codedAndLength
        else if s.coded ∧ ¬ s.chunked then .error .unframed
        else .ok (status, reason, s) := by
  have hsplit : splitCrlf (joinCrlf (headLines statusLine fs)) = statusLine :: fs.map fieldText :=
    splitCrlf_join (cons_ne_nil _ _) hcr
  rw [parseHead, fromUtf8?_encode]
  dsimp only
  rw [hsplit]
  dsimp only
  rw [hstatus, scanLines_fields]
  rfl

/-- What the reader makes of fields that frame a response. -/
structure FramingOf (fs : List (Str × Str)) (s : Framing) : Prop where
  length : ∀ p ∈ lengthParts fs, ∀ n, LengthIs p n → s.length = some n
  chunked : lengthParts fs ≠ [] → s.chunked = false
  headers : s.headers = fs

/-- **A head is taken if its fields frame a response.** -/
theorem parseHead_of_frames (hcr : ∀ l ∈ headLines statusLine fs, '\r' ∉ l)
    (hstatus : parseStatusLine statusLine = .ok (status, reason)) (h : Frames (fs.map asField)) :
    ∃ s, parseHead (Utf8.encode (joinCrlf (headLines statusLine fs))) = .ok (status, reason, s) ∧
      FramingOf (fs.map asField) s := by
  rw [parseHead_join hcr hstatus, foldlM_scanField]
  generalize fs.map asField = fs at h
  have hchunked : (fs.any fun f => isCoding f.1) = false →
      (fs.any fun f => isCoding f.1 && endsChunked f.2) = false := by
    intro hnone
    rw [List.any_eq_false] at hnone ⊢
    intro f hf
    simp [hnone f hf]
  by_cases hparts : lengthParts fs = []
  · have hscan : (lengthParts fs).foldlM scanPart none = .ok none :=
      (foldlM_scanPart_none _ _).mpr (.inl ⟨hparts, rfl⟩)
    simp only [hscan, bind, Except.bind, Bool.false_or, nil_append, isSome_none,
      Bool.false_eq_true, and_false, if_false]
    have hframed : ¬ ((fs.any fun f => isCoding f.1) = true ∧
        ¬ (fs.any fun f => isCoding f.1 && endsChunked f.2) = true) :=
      fun hbad => hbad.2 (h.coding hbad.1).2
    rw [if_neg hframed]
    exact ⟨_, rfl, fun p hp => absurd (hparts ▸ hp) not_mem_nil, fun hne => absurd hparts hne,
      rfl⟩
  · obtain ⟨n, hn⟩ := h.length
    have hscan : (lengthParts fs).foldlM scanPart none = .ok (some n) :=
      (foldlM_scanPart_none _ _).mpr (.inr ⟨hparts, n, rfl, hn⟩)
    have hcoded : (fs.any fun f => isCoding f.1) = false := by
      by_contra hcoded
      exact hparts (h.coding (Bool.eq_true_of_not_eq_false hcoded)).1
    simp only [hscan, bind, Except.bind, Bool.false_or, nil_append, hcoded,
      Bool.false_eq_true, false_and, if_false, hchunked hcoded]
    refine ⟨_, rfl, fun p hp k hk => ?_, fun _ => rfl, rfl⟩
    rw [hk.unique (hn p hp)]

theorem parseHead_of_not_frames (hcr : ∀ l ∈ headLines statusLine fs, '\r' ∉ l)
    (hstatus : parseStatusLine statusLine = .ok (status, reason)) (h : ¬ Frames (fs.map asField)) :
    ∃ e, parseHead (Utf8.encode (joinCrlf (headLines statusLine fs))) = .error e := by
  rw [parseHead_join hcr hstatus, foldlM_scanField]
  generalize fs.map asField = fs at h
  cases hscan : (lengthParts fs).foldlM scanPart none with
  | error e => exact ⟨e, rfl⟩
  | ok length =>
    simp only [bind, Except.bind, Bool.false_or, nil_append]
    split_ifs with hboth hframed
    · exact ⟨_, rfl⟩
    · exact ⟨_, rfl⟩
    · refine absurd ⟨?_, fun hcoded => ⟨?_, ?_⟩⟩ h
      · rcases (foldlM_scanPart_none _ _).mp hscan with ⟨hnil, -⟩ | ⟨-, n, -, hn⟩
        · exact ⟨0, fun p hp => absurd (hnil ▸ hp) not_mem_nil⟩
        · exact ⟨n, hn⟩
      · rcases (foldlM_scanPart_none _ _).mp hscan with ⟨hnil, -⟩ | ⟨-, n, rfl, -⟩
        · exact hnil
        · exact absurd ⟨hcoded, rfl⟩ hboth
      · exact not_not.mp fun hnot => hframed ⟨hcoded, hnot⟩

end

end ResponseReader

end M6
