import M6.Edge.BackendLeg
import M6.Edge.Persistence
import M6.Edge.ResponseReader

/-!
# Responses that are read back

`build_response` of `http11.rs` writes a response, and `read_response_for` of `forward.rs` reads
one. `reads_back` says of which responses the reader gets what was written, and no byte more or
less; `readable_of_readsBack` that it gets no others.
-/

namespace M6

open List Text

namespace ResponseFraming

open H1 ResponseReader BackendBody

/-! ## The head that is written -/

def saidLength (headers : List (Str × Str)) (body : Bytes) (method : Str) : Nat :=
  if eqIgnoreAsciiCase method "HEAD".toList && body.isEmpty then
    (((header headers "content-length".toList).map Text.trim).bind parseUsize).getD 0
  else body.length

def responseFields (security : List (Str × Str)) (status : Nat) (headers : List (Str × Str))
    (body : Bytes) (method : Str) (keepAlive : Bool) : List (Str × Str) :=
  (headers.filter fun h => !(eqIgnoreAsciiCase h.1 "content-length".toList ||
      eqIgnoreAsciiCase h.1 "connection".toList)) ++
    (security.filter fun h => !containsHeader headers h.1) ++
    (if statusMayHaveContentLength status then
      [("content-length".toList, decimal (saidLength headers body method))] else []) ++
    [("connection".toList, (connectionWord status keepAlive).toList)]

def edgeStatusLine (status : Nat) : Str :=
  "HTTP/1.1 ".toList ++ decimal status ++ " ".toList ++ edgeReason status

def responseLines (security : List (Str × Str)) (status : Nat) (headers : List (Str × Str))
    (body : Bytes) (method : Str) (keepAlive : Bool) : List Str :=
  headLines (edgeStatusLine status) (responseFields security status headers body method keepAlive)

theorem flatMap_fieldText (fs : List (Str × Str)) :
    (fs.map fieldText).flatMap (· ++ crlf) = fs.flatMap fieldLine := by
  rw [flatMap_map]
  rfl

theorem flatMap_responseFields (security : List (Str × Str)) (status : Nat)
    (headers : List (Str × Str)) (body : Bytes) (method : Str) (keepAlive : Bool) :
    (responseFields security status headers body method keepAlive).flatMap fieldLine =
      headerLines headers ++ writeH1Headers security headers ++
        (if statusMayHaveContentLength status then
          "content-length: ".toList ++ decimal (saidLength headers body method) ++ crlf else []) ++
        ("connection: ".toList ++ (connectionWord status keepAlive).toList ++ crlf) := by
  have hlength : "content-length: ".toList = "content-length".toList ++ ": ".toList := by decide
  have hconnection : "connection: ".toList = "connection".toList ++ ": ".toList := by decide
  have hsecurity : writeH1Headers security headers =
      (security.filter fun h => !containsHeader headers h.1).flatMap fieldLine := rfl
  rw [responseFields, flatMap_append, flatMap_append, flatMap_append,
    ← headerLines_eq, ← hsecurity, hlength, hconnection]
  congr 2
  · split_ifs
    · rw [flatMap_cons, flatMap_nil, append_nil, fieldLine]
    · rfl
  · rw [flatMap_cons, flatMap_nil, append_nil, fieldLine]

/-- **A response is its lines, a blank line, and its body.** -/
theorem buildResponse_lines (security : List (Str × Str)) (status : Nat)
    (headers : List (Str × Str)) (body : Bytes) (method : Str) (keepAlive : Bool) :
    buildResponse security status headers body method keepAlive =
      Utf8.encode (joinCrlf (responseLines security status headers body method keepAlive)) ++
        (crlfBytes ++ (crlfBytes ++ responseRest body method)) := by
  have hne : responseLines security status headers body method keepAlive ≠ [] := cons_ne_nil _ _
  have hfront : responseFront security status headers body method =
      edgeStatusLine status ++ crlf ++ headerLines headers ++ writeH1Headers security headers ++
        if statusMayHaveContentLength status then
          "content-length: ".toList ++ decimal (saidLength headers body method) ++ crlf else [] :=
    rfl
  have htext : joinCrlf (responseLines security status headers body method keepAlive) ++ crlf ++
      crlf = responseFront security status headers body method ++ "connection: ".toList ++
        (connectionWord status keepAlive).toList ++ crlf ++ crlf := by
    rw [← flatMap_crlf hne, responseLines, headLines, flatMap_cons, flatMap_fieldText,
      flatMap_responseFields, hfront]
    simp only [append_assoc]
  rw [buildResponse_eq, ← htext, Utf8.encode_append, Utf8.encode_append, encode_crlf,
    append_assoc, append_assoc]

/-! ## What the reader finds in it -/

theorem not_mem_decimal_of {c : Char} (hc : c.isDigit = false) (n : Nat) : c ∉ decimal n := by
  intro hmem
  rw [(isDigits_decimal n).digits c hmem] at hc
  cases hc

theorem statusLine_words (digits reason : Str) :
    "HTTP/1.1 ".toList ++ digits ++ " ".toList ++ reason =
      "HTTP/1.1".toList ++ ' ' :: (digits ++ ' ' :: reason) := by
  have hversion : "HTTP/1.1 ".toList = "HTTP/1.1".toList ++ [' '] := by decide
  rw [hversion]
  simp only [append_assoc, cons_append, nil_append]
  rfl

theorem parseStatusLine_digits {digits : Str} (h : ' ' ∉ digits) (reason : Str) :
    parseStatusLine ("HTTP/1.1 ".toList ++ digits ++ " ".toList ++ reason) =
      (parseU16 digits).elim (.error .badStatus) fun status => .ok (status, reason) := by
  rw [statusLine_words, parseStatusLine, cutAt_append _ (by decide)]
  dsimp only
  rw [cutAt_append _ h]
  dsimp only
  cases parseU16 digits <;> rfl

theorem parseStatusLine_decimal (status : Nat) (reason : Str) :
    parseStatusLine ("HTTP/1.1 ".toList ++ decimal status ++ " ".toList ++ reason) =
      if status < 2 ^ 16 then .ok (status, reason) else .error .badStatus := by
  rw [parseStatusLine_digits (not_mem_decimal_of (by decide) status), parseU16, parseUsize_decimal]
  by_cases hlt : status < 2 ^ 16
  · rw [if_pos hlt, if_pos (by omega), Option.filter_some, if_pos (decide_eq_true hlt)]
    rfl
  · rw [if_neg hlt]
    split_ifs
    · rw [Option.filter_some_neg (by simpa using hlt)]
      rfl
    · rfl

theorem parseStatusLine_written {status : Nat} (h : status < 2 ^ 16) (reason : Str) :
    parseStatusLine ("HTTP/1.1 ".toList ++ decimal status ++ " ".toList ++ reason) =
      .ok (status, reason) := by
  rw [parseStatusLine_decimal, if_pos h]

def OneLine (f : Str × Str) : Prop := ('\r' ∉ f.1 ∧ '\n' ∉ f.1) ∧ '\r' ∉ f.2 ∧ '\n' ∉ f.2

instance (f : Str × Str) : Decidable (OneLine f) :=
  inferInstanceAs (Decidable (('\r' ∉ f.1 ∧ '\n' ∉ f.1) ∧ '\r' ∉ f.2 ∧ '\n' ∉ f.2))

theorem not_mem_fieldText {f : Str × Str} (h : '\r' ∉ f.1 ∧ '\r' ∉ f.2) : '\r' ∉ fieldText f := by
  simp only [fieldText, mem_append, not_or]
  exact ⟨⟨h.1, by decide⟩, h.2⟩

theorem not_mem_edgeReason (status : Nat) : '\r' ∉ edgeReason status := by
  have hall : ∀ s ∈ ["OK", "Created", "No Content", "Partial Content", "Moved Permanently", "Found",
      "Not Modified", "Bad Request", "Unauthorized", "Forbidden", "Not Found",
      "Method Not Allowed", "Payload Too Large", "Too Many Requests", "Internal Server Error",
      "Not Implemented", "Bad Gateway", "Service Unavailable", "Gateway Timeout", "Unknown"],
      '\r' ∉ s.toList := by
    decide
  refine hall _ ?_
  split <;> simp

theorem statusText_plain {reason : Str} (h : '\r' ∉ reason) (status : Nat) :
    '\r' ∉ "HTTP/1.1 ".toList ++ decimal status ++ " ".toList ++ reason := by
  simp only [mem_append, not_or]
  exact ⟨⟨⟨by decide, not_mem_decimal_of (by decide) status⟩, by decide⟩, h⟩

theorem connectionWord_plain (status : Nat) (keepAlive : Bool) :
    '\r' ∉ (connectionWord status keepAlive).toList := by
  rw [connectionWord]
  split_ifs <;> decide

theorem responseLines_plain {security headers : List (Str × Str)}
    (h : ∀ f ∈ headers ++ security, OneLine f) (status : Nat) (body : Bytes) (method : Str)
    (keepAlive : Bool) :
    ∀ l ∈ responseLines security status headers body method keepAlive, l ≠ [] ∧ '\r' ∉ l := by
  have hplain : ∀ f ∈ headers ++ security, '\r' ∉ f.1 ∧ '\r' ∉ f.2 :=
    fun f hf => ⟨(h f hf).1.1, (h f hf).2.1⟩
  have hlength : '\r' ∉ "content-length".toList := by decide
  have hconnection : '\r' ∉ "connection".toList := by decide
  obtain ⟨hheaders, hsecurity⟩ := forall_mem_append.mp hplain
  refine forall_mem_cons.mpr ⟨⟨cons_ne_nil _ _,
    statusText_plain (not_mem_edgeReason status) status⟩, ?_⟩
  rw [forall_mem_map]
  suffices hfields : ∀ f ∈ responseFields security status headers body method keepAlive,
      '\r' ∉ f.1 ∧ '\r' ∉ f.2 from
    fun f hf => ⟨fieldText_ne_nil f, not_mem_fieldText (hfields f hf)⟩
  rw [responseFields, forall_mem_append, forall_mem_append, forall_mem_append]
  refine ⟨⟨⟨fun f hf => hheaders f (mem_of_mem_filter hf),
    fun f hf => hsecurity f (mem_of_mem_filter hf)⟩, ?_⟩, ?_⟩
  · split_ifs
    · exact forall_mem_singleton.mpr ⟨hlength, not_mem_decimal_of (by decide) _⟩
    · exact fun f hf => absurd hf not_mem_nil
  · exact forall_mem_singleton.mpr ⟨hconnection, connectionWord_plain status keepAlive⟩

theorem asField_eq {name value : Str} (h : ':' ∉ name) :
    asField (name, value) = (Text.trim name, Text.trim value) := by
  have htext : fieldText (name, value) = name ++ ':' :: (' ' :: value) := by simp [fieldText]
  rw [asField, htext, cutAt_append _ h]
  exact congrArg (Prod.mk _) (trim_cons (by decide) value)

theorem members_decimal (n : Nat) : members (decimal n) = [decimal n] := by
  have hcomma : ',' ∉ decimal n := not_mem_decimal_of (by decide) n
  rw [members, splitOn_eq_singleton hcomma, map_singleton, (isDigits_decimal n).plain.2]

theorem lengthIs_decimal {n k : Nat} : LengthIs (decimal n) k ↔ n < 2 ^ 64 ∧ n = k := by
  have hdigits := isDigits_decimal n
  have hparse := parseUsize_decimal n
  constructor
  · intro h
    have heq := hparse.symm.trans h.parse
    split_ifs at heq with hlt
    exact ⟨hlt, Option.some.inj heq⟩
  · rintro ⟨hlt, rfl⟩
    exact ⟨hdigits.nonempty, all_eq_true.mpr hdigits.digits, by rw [hparse, if_pos hlt]⟩

/-! ## Reading it back -/

section

variable (security : List (Str × Str)) (status : Nat) (headers : List (Str × Str)) (body : Bytes)
  (method : Str) (keepAlive : Bool)

def seenFields : List (Str × Str) :=
  (responseFields security status headers body method keepAlive).map asField

def headBytes : Bytes :=
  Utf8.encode (joinCrlf (responseLines security status headers body method keepAlive))

/-- **A response that can be read**: its head fits, its fields frame it, and its body is one that
the reader takes. -/
structure Readable : Prop where
  room : (headBytes security status headers body method keepAlive).length + 4 ≤ headRoom
  frames : Frames (seenFields security status headers body method keepAlive)
  /-- what has no body is written with none -/
  unsent : isBodyless method status = true → responseRest body method = []
  small : isBodyless method status = false → body.length ≤ maxBackendBody

variable {security status headers body method keepAlive}

theorem Readable.length_fieldText_le
    (h : Readable security status headers body method keepAlive) {f : Str × Str}
    (hf : f ∈ responseFields security status headers body method keepAlive) :
    (fieldText f).length ≤ headRoom := by
  have hline : fieldText f ∈ responseLines security status headers body method keepAlive :=
    mem_cons_of_mem _ (mem_map_of_mem hf)
  have hle := (length_le_joinCrlf hline).trans (Utf8.length_le_encode _)
  exact hle.trans ((Nat.le_add_right _ 4).trans h.room)

theorem mem_lengthParts (h : statusMayHaveContentLength status = true) :
    decimal (saidLength headers body method) ∈
      lengthParts (seenFields security status headers body method keepAlive) := by
  have hname : ':' ∉ "content-length".toList := by decide
  have htrim : Text.trim "content-length".toList = "content-length".toList := by decide
  refine mem_flatMap.mpr ⟨("content-length".toList, decimal (saidLength headers body method)),
    mem_filter.mpr ⟨mem_map.mpr ⟨("content-length".toList,
      decimal (saidLength headers body method)), ?_, ?_⟩, rfl⟩, ?_⟩
  · rw [responseFields, if_pos h]
    simp
  · rw [asField_eq hname, htrim, (isDigits_decimal _).plain.2]
  · rw [members_decimal]
    exact mem_singleton_self _

theorem bodyless_of_not_may (h : statusMayHaveContentLength status = false) :
    isBodyless method status = true := by
  rw [statusMayHaveContentLength, Bool.not_eq_false'] at h
  rw [isBodyless, Bool.or_assoc, Bool.or_assoc, ← Bool.or_assoc (status == 204), h, Bool.or_true]

theorem readHead_written (hclean : ∀ f ∈ headers ++ security, OneLine f) {next : Bytes}
    {source : Source UInt8} (hsource : source.items =
      buildResponse security status headers body method keepAlive ++ next) :
    ((headBytes security status headers body method keepAlive).length + 4 ≤ headRoom ∧
      ∃ rest buf, headLoop.run (source, []) =
          .ok ((headBytes security status headers body method keepAlive).length, rest, buf) ∧
        buf.take (headBytes security status headers body method keepAlive).length =
          headBytes security status headers body method keepAlive ∧
        buf.drop ((headBytes security status headers body method keepAlive).length + 4) ++
          rest.items = responseRest body method ++ next) ∨
    (headRoom < (headBytes security status headers body method keepAlive).length + 4 ∧
      headLoop.run (source, []) = .error .headTooLarge) := by
  have hne : responseLines security status headers body method keepAlive ≠ [] := cons_ne_nil _ _
  refine readHead_lines hne (responseLines_plain hclean status body method keepAlive) ?_
  rw [hsource, buildResponse_lines]
  simp only [append_assoc]

/-- **A response is read back**: its status, its body where it has one, and nothing of what
follows. -/
def ReadsBack (status : Nat) (body : Bytes) (method : Str) (next : Bytes)
    (r : Except ReadError ReadResponse) : Prop :=
  ∃ response, r = .ok response ∧ response.status = status ∧
    response.body = (if isBodyless method status then [] else body) ∧ response.left = next

theorem readBody_length {s : Framing} (hchunked : s.chunked = false) {body next : Bytes}
    (hlength : s.length = some body.length) (hsmall : body.length ≤ maxBackendBody)
    {source : Source UInt8} {first : Bytes} (hall : first ++ source.items = body ++ next) :
    readBody s source first = .ok (body, next) := by
  have hlens := congrArg List.length hall
  rw [length_append, length_append] at hlens
  have hfits : body.length - min first.length body.length ≤ source.items.length := by omega
  rw [readBody, hchunked, hlength]
  simp only [Bool.false_eq_true, if_false, if_neg (Nat.not_lt.mpr hsmall), Source.readExact,
    if_pos hfits, Source.items_skip]
  have htake := congrArg (List.take body.length) hall
  have hdrop := congrArg (List.drop body.length) hall
  rw [take_append, take_left] at htake
  rw [drop_append, drop_left] at hdrop
  have hmin : first.take (min first.length body.length) = first.take body.length := by
    rcases Nat.le_total first.length body.length with hle | hle
    · rw [Nat.min_eq_left hle, take_length, take_of_length_le hle]
    · rw [Nat.min_eq_right hle]
  have hmin' : first.drop (min first.length body.length) = first.drop body.length := by
    rcases Nat.le_total first.length body.length with hle | hle
    · rw [Nat.min_eq_left hle, drop_length, drop_eq_nil_of_le hle]
    · rw [Nat.min_eq_right hle]
  have hsub : body.length - min first.length body.length = body.length - first.length := by omega
  rw [hmin, hmin', hsub, htake, hdrop]

theorem saidLength_eq (h : isBodyless method status = false) :
    saidLength headers body method = body.length := by
  simp only [isBodyless, Bool.or_eq_false_iff] at h
  rw [saidLength, h.1.1.1]
  rfl

theorem responseRest_eq (h : isBodyless method status = false) :
    responseRest body method = body := by
  simp only [isBodyless, Bool.or_eq_false_iff] at h
  rw [responseRest, h.1.1.1]
  rfl

theorem may_of_not_bodyless (h : isBodyless method status = false) :
    statusMayHaveContentLength status = true := by
  by_contra hmay
  rw [bodyless_of_not_may (Bool.eq_false_of_not_eq_true hmay)] at h
  cases h

theorem parseHead_written (hstatus : status < 2 ^ 16)
    (hclean : ∀ f ∈ headers ++ security, OneLine f)
    (h : Frames (seenFields security status headers body method keepAlive)) :
    ∃ s, parseHead (headBytes security status headers body method keepAlive) =
        .ok (status, edgeReason status, s) ∧
      FramingOf (seenFields security status headers body method keepAlive) s := by
  have hlines := responseLines_plain hclean status body method keepAlive
  have hline : parseStatusLine (edgeStatusLine status) = .ok (status, edgeReason status) :=
    parseStatusLine_written hstatus (edgeReason status)
  exact parseHead_of_frames (fun l hl => (hlines l hl).2) hline h

theorem parseHead_refused (hstatus : status < 2 ^ 16)
    (hclean : ∀ f ∈ headers ++ security, OneLine f)
    (h : ¬ Frames (seenFields security status headers body method keepAlive)) :
    ∃ e, parseHead (headBytes security status headers body method keepAlive) = .error e := by
  have hlines := responseLines_plain hclean status body method keepAlive
  have hline : parseStatusLine (edgeStatusLine status) = .ok (status, edgeReason status) :=
    parseStatusLine_written hstatus (edgeReason status)
  exact parseHead_of_not_frames (fun l hl => (hlines l hl).2) hline h

theorem framing_written (hbodyless : isBodyless method status = false)
    (h : Frames (seenFields security status headers body method keepAlive)) {s : Framing}
    (hs : FramingOf (seenFields security status headers body method keepAlive) s) :
    s.chunked = false ∧ s.length = some body.length := by
  have hmem : decimal (saidLength headers body method) ∈
      lengthParts (seenFields security status headers body method keepAlive) :=
    mem_lengthParts (may_of_not_bodyless hbodyless)
  rw [saidLength_eq hbodyless] at hmem
  obtain ⟨n, hn⟩ := h.length
  obtain ⟨-, rfl⟩ := lengthIs_decimal.mp (hn _ hmem)
  exact ⟨hs.chunked (ne_nil_of_mem hmem), hs.length _ hmem _ (hn _ hmem)⟩

/-- **What can be read is read back**, however it arrives and whatever follows it. -/
theorem reads_back (hstatus : status < 2 ^ 16) (hclean : ∀ f ∈ headers ++ security, OneLine f)
    (h : Readable security status headers body method keepAlive) {next : Bytes}
    {source : Source UInt8} (hsource : source.items =
      buildResponse security status headers body method keepAlive ++ next) :
    ReadsBack status body method next (readResponseFor source method) := by
  obtain ⟨-, rest, buf, hrun, htake, hdrop⟩ | ⟨hlong, -⟩ := readHead_written hclean hsource
  · obtain ⟨s, hhead, hs⟩ := parseHead_written hstatus hclean h.frames
    simp only [readResponseFor, hrun, bind, Except.bind, htake, hhead]
    cases hbodyless : isBodyless method status with
    | true =>
      rw [if_pos rfl]
      refine ⟨_, rfl, rfl, ?_, ?_⟩
      · rw [hbodyless]
        rfl
      · rw [hdrop, h.unsent hbodyless]
        rfl
    | false =>
      obtain ⟨hchunked, hlength⟩ := framing_written hbodyless h.frames hs
      have hbody := readBody_length hchunked hlength (h.small hbodyless)
        (by rw [hdrop, responseRest_eq hbodyless])
      rw [if_neg Bool.false_ne_true, hbody]
      exact ⟨_, rfl, rfl, by rw [hbodyless]; rfl, rfl⟩
  · exact absurd h.room (by omega)

/-- **What is read back can be read**: no condition is too much. -/
theorem readable_of_readsBack (hstatus : status < 2 ^ 16)
    (hclean : ∀ f ∈ headers ++ security, OneLine f) {next : Bytes} {source : Source UInt8}
    (hsource : source.items = buildResponse security status headers body method keepAlive ++ next)
    (h : ReadsBack status body method next (readResponseFor source method)) :
    Readable security status headers body method keepAlive := by
  obtain ⟨response, hresponse, -, -, hleft⟩ := h
  obtain ⟨hroom, rest, buf, hrun, htake, hdrop⟩ | ⟨-, hrun⟩ := readHead_written hclean hsource
  · have hframes : Frames (seenFields security status headers body method keepAlive) := by
      by_contra hframes
      obtain ⟨e, hhead⟩ := parseHead_refused hstatus hclean hframes
      simp only [readResponseFor, hrun, bind, Except.bind, htake, hhead] at hresponse
      cases hresponse
    obtain ⟨s, hhead, hs⟩ := parseHead_written hstatus hclean hframes
    simp only [readResponseFor, hrun, bind, Except.bind, htake, hhead] at hresponse
    refine ⟨hroom, hframes, fun hbodyless => ?_, fun hbodyless => ?_⟩
    · rw [if_pos hbodyless] at hresponse
      cases hresponse
      rw [hdrop] at hleft
      simpa using hleft
    · by_contra hlarge
      obtain ⟨hchunked, hlength⟩ := framing_written hbodyless hframes hs
      have hrefused : readBody s rest (buf.drop
          ((headBytes security status headers body method keepAlive).length + 4)) =
          .error .bodyTooLarge := by
        rw [readBody, hchunked, hlength]
        exact if_pos (Nat.lt_of_not_le hlarge)
      rw [if_neg (by rw [hbodyless]; exact Bool.false_ne_true), hrefused] at hresponse
      cases hresponse
  · simp only [readResponseFor, hrun, bind, Except.bind] at hresponse
    cases hresponse

end

def sent (status : Nat) (headers : List (Str × Str)) (body : Bytes) : Source UInt8 :=
  whole (buildResponse [] status headers body "GET".toList true)
    (List.ne_nil_of_length_pos (buildResponse_ne_nil [] status headers body "GET".toList true))

theorem items_sent (status : Nat) (headers : List (Str × Str)) (body : Bytes) :
    (sent status headers body).items =
      buildResponse [] status headers body "GET".toList true ++ [] := by
  rw [sent, items_whole, append_nil]

theorem page_reads_back : ReadsBack 200 [0x68, 0x69] "GET".toList []
      (readResponseFor (sent 200 [("Server".toList, "m6".toList)] [0x68, 0x69]) "GET".toList) := by
  have hparts : lengthParts (seenFields [] 200 [("Server".toList, "m6".toList)] [0x68, 0x69]
      "GET".toList true) = [decimal 2] := by decide
  have hframes : Frames (seenFields [] 200 [("Server".toList, "m6".toList)] [0x68, 0x69]
      "GET".toList true) := by
    refine ⟨⟨2, ?_⟩, fun hcoded => absurd hcoded (by decide)⟩
    rw [hparts]
    exact forall_mem_singleton.mpr (lengthIs_decimal.mpr ⟨by decide, rfl⟩)
  exact reads_back (by decide) (by decide)
    ⟨by decide, hframes, fun h => absurd h (by decide), fun _ => by decide⟩
    (items_sent 200 _ _)

/-- **Responses that are not read back**: one whose head is too long, one with a second length in a
field whose name ends in a blank, and one with a body where its status has none. -/
theorem not_read_back : ¬ ReadsBack 200 [] "GET".toList []
      (readResponseFor (sent 200 [("a".toList, List.replicate 8192 'x')] []) "GET".toList) ∧
    ¬ ReadsBack 200 [] "GET".toList []
      (readResponseFor (sent 200 [("Content-Length ".toList, "5".toList)] []) "GET".toList) ∧
    ¬ ReadsBack 204 [0x78] "GET".toList [] (readResponseFor (sent 204 [] [0x78]) "GET".toList) := by
  refine ⟨fun h => ?_, fun h => ?_, fun h => ?_⟩
  · have hvalue : ∀ c ∈ List.replicate 8192 'x', c = 'x' := fun c => eq_of_mem_replicate
    have hlength : (List.replicate 8192 'x').length = 8192 := length_replicate
    generalize List.replicate 8192 'x' = v at h hvalue hlength
    have hclean : OneLine ("a".toList, v) :=
      ⟨show '\r' ∉ "a".toList ∧ '\n' ∉ "a".toList by decide,
        fun hmem => absurd (hvalue _ hmem) (by decide),
        fun hmem => absurd (hvalue _ hmem) (by decide)⟩
    have hread := readable_of_readsBack (by decide) (forall_mem_singleton.mpr hclean)
      (items_sent 200 _ _) h
    have hfield : ("a".toList, v) ∈ responseFields [] 200 [("a".toList, v)] [] "GET".toList true :=
      mem_append_left _ (mem_append_left _ (mem_append_left _
        (mem_filter.mpr ⟨mem_singleton_self _, rfl⟩)))
    have hroom : (fieldText ("a".toList, v)).length ≤ 8192 := hread.length_fieldText_le hfield
    rw [fieldText, length_append, hlength] at hroom
    have hname : 0 < ("a".toList ++ ": ".toList).length := by decide
    exact absurd hroom (Nat.not_le.mpr (Nat.lt_add_of_pos_left hname))
  · have hread := readable_of_readsBack (by decide) (by decide)
      (items_sent 200 [("Content-Length ".toList, "5".toList)] []) h
    have hparts : lengthParts (seenFields [] 200 [("Content-Length ".toList, "5".toList)] []
        "GET".toList true) = [decimal 5, decimal 0] := by decide
    obtain ⟨n, hn⟩ := hread.frames.length
    rw [hparts] at hn
    have hfive := (lengthIs_decimal.mp (hn (decimal 5) mem_cons_self)).2
    have hzero := (lengthIs_decimal.mp (hn (decimal 0) (mem_cons_of_mem _ mem_cons_self))).2
    omega
  · have hread := readable_of_readsBack (by decide) (by decide) (items_sent 204 [] [0x78]) h
    exact absurd (hread.unsent rfl) (by decide)

end ResponseFraming

end M6
