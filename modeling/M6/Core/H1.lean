import M6.Core.Responder

/-!
# Reading an HTTP/1.1 request

`parse_request` and `expectation` of `h1.rs`: the one parser of the edge and of every backend. It
is given everything that has come so far and says whether that is a request, not yet, or not one.
It does not say where the request ends.

The lines of the head are read by a library, which is a parameter here (`Httparse`) with what is
known of it: it finds no head in nothing, and more bytes do not change what it makes of a head that
it has read, or refused.
`parseRequest_append` says the same of the whole parser.
-/

namespace M6

open List Option

/-- A `usize` in decimal: digits, perhaps behind a plus sign, and not too large. -/
def parseUsize (s : Str) : Option Nat :=
  let digits := if s.head? = some '+' then s.tail else s
  if digits ≠ [] ∧ digits.all Char.isDigit then
    let n := digits.foldl (fun n c => 10 * n + (c.toNat - 48)) 0
    if n < 2 ^ 64 then some n else none
  else none

namespace H1

/-! ## The lines of the head -/

structure HeadLines where
  method : Option Str
  path : Option Str
  version : Option Nat
  headers : List (Str × Bytes)

/-- What the library makes of a buffer. -/
inductive HeadStatus where
  | incomplete
  /-- a head of so many bytes -/
  | complete (n : Nat) (head : HeadLines)
  | failed

structure Httparse where
  parse : Bytes → HeadStatus
  parse_nil : parse [] = .incomplete
  complete_le : ∀ {buf n head}, parse buf = .complete n head → n ≤ buf.length
  complete_append : ∀ {buf n head}, parse buf = .complete n head →
    ∀ more, parse (buf ++ more) = .complete n head
  failed_append : ∀ {buf}, parse buf = .failed → ∀ more, parse (buf ++ more) = .failed

/-- The library as far as one head goes: it reads that head, waits for the rest of it, and refuses
what cannot become it. -/
def Httparse.ofHead (text : Bytes) (head : HeadLines) (hne : text ≠ []) : Httparse where
  parse buf :=
    if text <+: buf then .complete text.length head
    else if buf <+: text then .incomplete else .failed
  parse_nil := by rw [if_neg (mt List.prefix_nil.mp hne), if_pos List.nil_prefix]
  complete_le := by
    intro buf n _ h
    split_ifs at h with hread
    obtain ⟨rfl, -⟩ := HeadStatus.complete.inj h
    exact hread.length_le
  complete_append := by
    intro buf n _ h more
    split_ifs at h with hread
    rw [if_pos (hread.trans (List.prefix_append _ _)), h]
  failed_append := by
    intro buf h more
    split_ifs at h with hread hwait
    rw [if_neg, if_neg]
    · exact fun hmore => hwait ((List.prefix_append _ _).trans hmore)
    · intro hmore
      exact (List.prefix_or_prefix_of_prefix hmore (List.prefix_append buf more)).elim hread hwait

/-! ## The pieces of the parser -/

def hostIsValid (v : Str) : Bool :=
  let hexOk (c : Char) : Bool :=
    c.isDigit || ('a' ≤ c && c ≤ 'f') || ('A' ≤ c && c ≤ 'F') || c == ':' || c == '.'
  let nameOk (c : Char) : Bool := c.isAlphanum || "-._~%!$&'()*+,;=".toList.contains c
  let portOk (port : Str) : Bool :=
    let port := (Text.stripPrefix ":".toList port).getD port
    port.isEmpty || (port.length ≤ 5 && port.all Char.isDigit)
  if 253 < (Utf8.encode v).length then false
  else
    match v with
    | '[' :: rest =>
      match Text.cutAt ']' rest with
      | (inside, some after) => inside.all hexOk && portOk after
      | (_, none) => false
    | _ =>
      let (host, port) := Text.cutAt ':' v
      !host.isEmpty && host.all nameOk && portOk (port.getD [])

/-- Cut a target at the first `://`. -/
def cutScheme : Str → Option (Str × Str)
  | [] => none
  | c :: s =>
    match Text.stripPrefix "://".toList (c :: s) with
    | some after => some ([], after)
    | none => (cutScheme s).map fun p => (c :: p.1, p.2)

def stripAbsoluteForm (target : Str) : Str :=
  match cutScheme target with
  | none => target
  | some (scheme, after) =>
    if scheme.head?.any Char.isAlpha &&
        scheme.all fun c => c.isAlphanum || c == '+' || c == '-' || c == '.' then
      match Text.cutAt '/' after with
      | (_, some path) => '/' :: path
      | (_, none) => "/".toList
    else target

/-- A line feed that no carriage return stands before. -/
def hasBareLf (previous : UInt8) : Bytes → Bool
  | [] => false
  | b :: rest => (b == 0x0a && previous != 0x0d) || hasBareLf b rest

def findCrlf : Bytes → Option Nat
  | [] => none
  | b :: rest => if b = 0x0d ∧ rest.head? = some 0x0a then some 0 else (findCrlf rest).map (· + 1)

variable {buf : Bytes}

theorem findCrlf_le {eol : Nat} (h : findCrlf buf = some eol) : eol + 2 ≤ buf.length := by
  induction buf generalizing eol with
  | nil => cases h
  | cons b rest ih =>
    rw [findCrlf] at h
    split_ifs at h with hcrlf
    · cases h
      cases rest with
      | nil => cases hcrlf.2
      | cons c rest => rw [length_cons, length_cons]; omega
    · obtain ⟨n, hn, rfl⟩ := map_eq_some_iff.mp h
      have := ih hn
      rw [length_cons]
      omega

def maxChunkedBody : Nat := 16 * 1024 * 1024

inductive Chunked where
  | done (body : Bytes)
  | incomplete
  | bad
  /-- an overflow, which ends the process -/
  | aborts

def chunkSize (digits : Bytes) : Option Nat :=
  digits.foldl (fun size c => do
    let size ← size
    let d ← hexDigit c
    if size * 16 + d.toNat < 2 ^ 64 then some (size * 16 + d.toNat) else none) (some 0)

def trailersEnd (buf : Bytes) : Bool :=
  match h : findCrlf buf with
  | none => false
  | some eol => eol == 0 || trailersEnd (buf.drop (eol + 2))
termination_by buf.length
decreasing_by
  have := findCrlf_le h
  rw [List.length_drop]
  omega

def decodeChunks (out buf : Bytes) : Chunked :=
  match _h : findCrlf buf with
  | none => .incomplete
  | some eol =>
    -- extensions are ignored: the size ends at the semicolon
    let digits := (buf.take eol).takeWhile (· ≠ 0x3b)
    let rest := buf.drop (eol + 2)
    if digits = [] ∨ 16 < digits.length then .bad
    else
      match chunkSize digits with
      | none => .bad
      | some size =>
        if size = 0 then (if trailersEnd rest then .done out else .incomplete)
        -- `out.len() + size`
        else if 2 ^ 64 ≤ out.length + size then .aborts
        else if maxChunkedBody < out.length + size then .bad
        else if rest.length < size + 2 then .incomplete
        else if (rest.drop size).take 2 ≠ [0x0d, 0x0a] then .bad
        else decodeChunks (out ++ rest.take size) (rest.drop (size + 2))
termination_by buf.length
decreasing_by
  have := findCrlf_le _h
  simp only [List.length_drop]
  omega

def decodeChunked (buf : Bytes) : Chunked := decodeChunks [] buf

/-! ## Header fields -/

structure HeaderScan where
  firstCl : Option Str
  hostCount : Nat
  hostEmpty : Bool
  sawTe : Bool
  fwd : List (Str × Str)

/-- A `Transfer-Encoding` that is `chunked` alone. -/
def isChunked (v : Str) : Bool :=
  Text.eqIgnoreAsciiCase (Text.trim ((v.splitOn ',').getLastD [])) "chunked".toList &&
    (v.splitOn ',').length ≤ 1

def scanLength (s : HeaderScan) (h : Str × Bytes) : Option HeaderScan :=
  if Text.eqIgnoreAsciiCase h.1 "content-length".toList then do
    let v ← Utf8.fromUtf8? h.2
    match s.firstCl with
    | some first => if first = Text.trim v then some s else none
    | none => some { s with firstCl := some (Text.trim v) }
  else some s

def scanHost (s : HeaderScan) (h : Str × Bytes) : Option HeaderScan :=
  if Text.eqIgnoreAsciiCase h.1 "host".toList then
    match Utf8.fromUtf8? h.2 with
    | some v =>
      if Text.trim v = [] then some { s with hostCount := s.hostCount + 1, hostEmpty := true }
      else if hostIsValid (Text.trim v) then some { s with hostCount := s.hostCount + 1 }
      else none
    | none => some { s with hostCount := s.hostCount + 1, hostEmpty := true }
  else some s

def scanHeader (s : HeaderScan) (h : Str × Bytes) : Option HeaderScan :=
  if Text.eqIgnoreAsciiCase h.1 "transfer-encoding".toList then do
    let v ← Utf8.fromUtf8? h.2
    if isChunked v then some { s with sawTe := true } else none
  else do
    let s ← scanLength s h
    let s ← scanHost s h
    match Utf8.fromUtf8? h.2 with
    | some v => some { s with fwd := s.fwd ++ [(h.1, v)] }
    | none => some s

inductive BodyFraming where
  | chunked
  | length (n : Nat)

def scanHeaders (head : HeadLines) : Option (List (Str × Str) × BodyFraming) := do
  let s ← head.headers.foldlM scanHeader ⟨none, 0, false, false, []⟩
  let isHttp11 := head.version = some 1
  if 1 < s.hostCount then none
  else if isHttp11 ∧ (s.hostCount = 0 ∨ s.hostEmpty) then none
  else if s.sawTe ∧ ¬ isHttp11 then none
  else if s.sawTe ∧ s.firstCl.isSome then none
  else
    match s.firstCl with
    | some v => (parseUsize v).map fun n => (s.fwd, if s.sawTe then .chunked else .length n)
    | none => some (s.fwd, if s.sawTe then .chunked else .length 0)

/-! ## The parser -/

/-- What a buffer is. -/
inductive ParseResult where
  | incomplete
  | error
  | complete (req : RawRequest)
  /-- an overflow, which ends the process -/
  | aborts

def request (head : HeadLines) (headers : List (Str × Str)) (body : Bytes) : RawRequest :=
  let (path, query) := Text.cutAt '?' (stripAbsoluteForm (head.path.getD "/".toList))
  { method := head.method.getD "GET".toList
    path := path
    query := query
    version := if head.version = some 1 then "HTTP/1.1".toList else "HTTP/1.0".toList
    headers := headers
    body := body }

def parseBody (head : HeadLines) (headers : List (Str × Str)) (rest : Bytes) :
    BodyFraming → ParseResult
  | .chunked =>
    match decodeChunked rest with
    | .incomplete => .incomplete
    | .bad => .error
    | .aborts => .aborts
    | .done body =>
      .complete (request head (headers ++ [("Content-Length".toList, decimal body.length)]) body)
  | .length n =>
    if rest.length < n then .incomplete else .complete (request head headers (rest.take n))

def parseRequest (lib : Httparse) (buf : Bytes) : ParseResult :=
  match lib.parse buf with
  | .incomplete => .incomplete
  | .failed => .error
  | .complete n head =>
    if hasBareLf 0 (buf.take n) then .error
    else
      match scanHeaders head with
      | none => .error
      | some (headers, framing) => parseBody head headers (buf.drop n) framing

/-! ## More bytes -/

theorem findCrlf_append {eol : Nat} (h : findCrlf buf = some eol) (more : Bytes) :
    findCrlf (buf ++ more) = some eol := by
  induction buf generalizing eol with
  | nil => cases h
  | cons b rest ih =>
    rw [findCrlf] at h
    rw [cons_append, findCrlf]
    split_ifs at h with hcrlf
    · rw [if_pos ⟨hcrlf.1, by rw [head?_append, hcrlf.2]; rfl⟩]
      exact h
    · obtain ⟨n, hn, rfl⟩ := map_eq_some_iff.mp h
      have hrest : rest ≠ [] := by
        rintro rfl
        cases hn
      have hhead : (rest ++ more).head? = rest.head? := by
        cases rest with
        | nil => exact absurd rfl hrest
        | cons c rest => rfl
      rw [hhead, if_neg hcrlf, ih hn]
      rfl

theorem trailersEnd_append (h : trailersEnd buf = true) (more : Bytes) :
    trailersEnd (buf ++ more) = true := by
  induction hn : buf.length using Nat.strong_induction_on generalizing buf with
  | _ n ih =>
    rw [trailersEnd] at h ⊢
    split at h
    · cases h
    next eol heol =>
      have hle := findCrlf_le heol
      rw [findCrlf_append heol more]
      simp only [Bool.or_eq_true, beq_iff_eq] at h ⊢
      refine h.imp id fun h => ?_
      rw [drop_append_of_le_length hle]
      exact ih _ (by rw [length_drop]; omega) h rfl

theorem decodeChunks_of_crlf {eol : Nat} (heol : findCrlf buf = some eol) (out : Bytes) :
    decodeChunks out buf =
      let digits := (buf.take eol).takeWhile (· ≠ 0x3b)
      let rest := buf.drop (eol + 2)
      if digits = [] ∨ 16 < digits.length then .bad
      else
        match chunkSize digits with
        | none => .bad
        | some size =>
          if size = 0 then (if trailersEnd rest then .done out else .incomplete)
          else if 2 ^ 64 ≤ out.length + size then .aborts
          else if maxChunkedBody < out.length + size then .bad
          else if rest.length < size + 2 then .incomplete
          else if (rest.drop size).take 2 ≠ [0x0d, 0x0a] then .bad
          else decodeChunks (out ++ rest.take size) (rest.drop (size + 2)) := by
  rw [decodeChunks]
  split
  next hnone =>
    rw [heol] at hnone
    cases hnone
  next eol' heol' =>
    rw [heol] at heol'
    cases heol'
    rfl

theorem decodeChunks_append {out buf : Bytes} (h : decodeChunks out buf ≠ .incomplete)
    (more : Bytes) : decodeChunks out (buf ++ more) = decodeChunks out buf := by
  induction hn : buf.length using Nat.strong_induction_on generalizing out buf with
  | _ n ih =>
    cases heol : findCrlf buf with
    | none =>
      refine absurd ?_ h
      rw [decodeChunks]
      split
      · rfl
      next heol' =>
        rw [heol] at heol'
        cases heol'
    | some eol =>
      have hle := findCrlf_le heol
      rw [decodeChunks_of_crlf heol] at h
      rw [decodeChunks_of_crlf heol, decodeChunks_of_crlf (findCrlf_append heol more),
        take_append_of_le_length (by omega), drop_append_of_le_length hle]
      have hlen : (buf.drop (eol + 2)).length < n := by rw [length_drop]; omega
      generalize buf.drop (eol + 2) = rest at h hlen ⊢
      generalize (buf.take eol).takeWhile (· ≠ 0x3b) = digits at h ⊢
      dsimp only at h ⊢
      by_cases hdigits : digits = [] ∨ 16 < digits.length
      · simp only [if_pos hdigits]
      simp only [if_neg hdigits] at h ⊢
      cases hsize : chunkSize digits with
      | none => rfl
      | some size =>
        rw [hsize] at h
        dsimp only at h ⊢
        by_cases hlast : size = 0
        · rw [if_pos hlast] at h
          rw [if_pos hlast, if_pos hlast]
          split_ifs at h with htrailers
          · rw [if_pos htrailers, if_pos (trailersEnd_append htrailers more)]
          · exact absurd rfl h
        rw [if_neg hlast] at h
        rw [if_neg hlast, if_neg hlast]
        by_cases habort : 2 ^ 64 ≤ out.length + size
        · rw [if_pos habort, if_pos habort]
        rw [if_neg habort] at h
        rw [if_neg habort, if_neg habort]
        by_cases hlarge : maxChunkedBody < out.length + size
        · rw [if_pos hlarge, if_pos hlarge]
        rw [if_neg hlarge] at h
        rw [if_neg hlarge, if_neg hlarge]
        by_cases hshort : rest.length < size + 2
        · rw [if_pos hshort] at h
          exact absurd rfl h
        rw [if_neg hshort] at h
        rw [if_neg hshort, if_neg (by rw [length_append]; omega),
          drop_append_of_le_length (by omega), take_append_of_le_length (by
            rw [length_drop]
            omega)]
        by_cases hend : (rest.drop size).take 2 ≠ [0x0d, 0x0a]
        · rw [if_pos hend, if_pos hend]
        rw [if_neg hend] at h
        rw [if_neg hend, if_neg hend, take_append_of_le_length (by omega),
          drop_append_of_le_length (by omega)]
        exact ih _ (by rw [length_drop]; omega) h rfl

theorem parseBody_append {head : HeadLines} {headers : List (Str × Str)} {rest : Bytes}
    {framing : BodyFraming} (h : parseBody head headers rest framing ≠ .incomplete) (more : Bytes) :
    parseBody head headers (rest ++ more) framing = parseBody head headers rest framing := by
  cases framing with
  | chunked =>
    have hchunks : decodeChunked rest ≠ .incomplete := by
      intro heq
      rw [parseBody, heq] at h
      exact h rfl
    rw [parseBody, parseBody, decodeChunked, decodeChunked, decodeChunks_append hchunks]
  | length n =>
    rw [parseBody] at h
    rw [parseBody, parseBody]
    by_cases hshort : rest.length < n
    · rw [if_pos hshort] at h
      exact absurd rfl h
    · rw [if_neg hshort, if_neg (by rw [length_append]; omega),
        take_append_of_le_length (by omega)]

/-- **More bytes do not change what a buffer is**, once it is something. -/
theorem parseRequest_append {lib : Httparse}
    (h : parseRequest lib buf ≠ .incomplete) (more : Bytes) :
    parseRequest lib (buf ++ more) = parseRequest lib buf := by
  rw [parseRequest] at h
  rw [parseRequest, parseRequest]
  cases hhead : lib.parse buf with
  | incomplete =>
    rw [hhead] at h
    exact absurd rfl h
  | failed => rw [lib.failed_append hhead]
  | complete n head =>
    have hle := lib.complete_le hhead
    rw [hhead] at h
    rw [lib.complete_append hhead]
    dsimp only at h ⊢
    rw [take_append_of_le_length hle, drop_append_of_le_length hle]
    by_cases hbare : hasBareLf 0 (buf.take n)
    · rw [if_pos hbare, if_pos hbare]
    rw [if_neg hbare] at h
    rw [if_neg hbare, if_neg hbare]
    cases hscan : scanHeaders head with
    | none => rfl
    | some p =>
      rw [hscan] at h
      exact parseBody_append h more

theorem parseRequest_nil (lib : Httparse) : parseRequest lib [] = .incomplete := by
  rw [parseRequest, lib.parse_nil]

/-! ## Expectations -/

/-- What a client asks for with `Expect`. -/
inductive Expectation where
  | absent
  /-- it waits to be told to go on with its body -/
  | continues
  | unsupported
  deriving DecidableEq

def headEnd : Bytes → Option Nat
  | [] => none
  | b :: rest =>
    if (b :: rest).take 4 = [0x0d, 0x0a, 0x0d, 0x0a] then some 0 else (headEnd rest).map (· + 1)

def lowerBytes (bs : Bytes) : Bytes :=
  bs.map fun b => if 0x41 ≤ b ∧ b ≤ 0x5a then b + 0x20 else b

def isAsciiSpace (b : UInt8) : Bool :=
  b == 0x20 || b == 0x09 || b == 0x0a || b == 0x0c || b == 0x0d

def trimAscii (bs : Bytes) : Bytes :=
  ((bs.dropWhile isAsciiSpace).reverse.dropWhile isAsciiSpace).reverse

/-- The members of the `Expect` fields of a head, without the empty ones. -/
def expectMembers (fields : List Bytes) : List Bytes :=
  (fields.filter fun line => 0x3a ∈ line ∧
      lowerBytes (line.takeWhile (· ≠ 0x3a)) = Utf8.encode "expect".toList).flatMap fun line =>
    ((((line.dropWhile (· ≠ 0x3a)).drop 1).splitOn 0x2c).map trimAscii).filter (· ≠ [])

/-- `expectation`: nothing while the head is still coming. -/
def expectation (buf : Bytes) : Option Expectation :=
  (headEnd buf).map fun n =>
    match (buf.take n).splitOn 0x0a with
    | [] => .absent
    | requestLine :: fields =>
      if Utf8.encode "HTTP/1.1\r".toList <:+ requestLine ∨
          Utf8.encode "HTTP/1.1".toList <:+ requestLine then
        let members := expectMembers fields
        if members.all fun m => lowerBytes m = Utf8.encode "100-continue".toList then
          if members = [] then .absent else .continues
        else .unsupported
      else .absent

theorem headEnd_four {n : Nat} (h : headEnd buf = some n) : 4 ≤ buf.length := by
  induction buf generalizing n with
  | nil => cases h
  | cons b rest ih =>
    rw [headEnd] at h
    split_ifs at h with hend
    · have hlen := congrArg List.length hend
      simp only [length_take, length_cons, length_nil] at hlen ⊢
      omega
    · obtain ⟨k, hk, -⟩ := map_eq_some_iff.mp h
      have := ih hk
      rw [length_cons]
      omega

theorem headEnd_append {n : Nat} (h : headEnd buf = some n) (more : Bytes) :
    headEnd (buf ++ more) = some n ∧ n ≤ buf.length := by
  induction buf generalizing n with
  | nil => cases h
  | cons b rest ih =>
    rw [headEnd] at h
    rw [cons_append, headEnd]
    split_ifs at h with hend
    · have htake : (b :: (rest ++ more)).take 4 = (b :: rest).take 4 := by
        have hlen := congrArg List.length hend
        rw [← cons_append, take_append_of_le_length]
        simp only [length_take, length_cons, length_nil] at hlen ⊢
        omega
      cases h
      exact ⟨if_pos (by rw [htake, hend]), Nat.zero_le _⟩
    · obtain ⟨k, hk, rfl⟩ := map_eq_some_iff.mp h
      obtain ⟨hk', hle⟩ := ih hk
      have hlen : 4 ≤ rest.length := headEnd_four hk
      have htake : (b :: (rest ++ more)).take 4 = (b :: rest).take 4 := by
        rw [← cons_append, take_append_of_le_length]
        rw [length_cons]
        omega
      rw [htake, if_neg hend, hk', length_cons]
      exact ⟨rfl, by omega⟩

theorem expectation_append {e : Expectation} (h : expectation buf = some e)
    (more : Bytes) : expectation (buf ++ more) = some e := by
  obtain ⟨n, hn, he⟩ := map_eq_some_iff.mp h
  obtain ⟨hn', hle⟩ := headEnd_append hn more
  rw [expectation, hn', map_some, take_append_of_le_length hle, he]

theorem expectation_nil : expectation [] = none := rfl

end H1

end M6
