import M6.Edge.ResponseFraming

/-!
# What a backend writes and the edge reads

`Responder::send` and `send_stream` of core's `h1.rs` write a response on one side of a socket, and
`read_response_for` of `forward.rs` reads it on the other. The reader has room for a head of 8 KiB
and takes a body of 128 MiB at most. It sees a field up to its first colon and behind it, without
the white space around.

`BackendReply.roundTrip` says that a response is read back as it was written, and nothing of what
follows it, exactly if its head and body fit and no field is seen as one that frames it otherwise.
-/

namespace M6

open List

namespace RoundTrip

open H1 ResponseReader BackendBody ResponseFraming

/-- What a backend answers a request with, in fields that hold no line end. -/
structure BackendReply where
  status : Nat
  headers : List (Str × Str)
  body : Bytes
  method : Str
  keepAlive : Bool
  /-- a `u16` -/
  status_lt : status < 2 ^ 16
  /-- a `usize` -/
  length_lt : body.length < 2 ^ 64
  clean : ∀ f ∈ headers, OneLine f

def Gives (reader : List ReadResult) (body : Bytes) : Prop :=
  ∃ pieces : List Bytes, reader = pieces.map .data ∧ pieces.flatten = body ∧
    ∀ p ∈ pieces, p ≠ [] ∧ p.length ≤ bufferSize

namespace BackendReply

variable (a : BackendReply)

/-! ## What is written -/

def responder : Responder := .new a.method a.keepAlive

/-- The bytes of `Responder::send`. -/
def written : Bytes := (a.responder.send a.status a.headers a.body ⟨[], none⟩).wire.sent

/-- The bytes of `Responder::send_stream`. -/
def streamed (reader : List ReadResult) : Bytes :=
  (a.responder.sendStream a.status a.headers a.body.length reader ⟨[], none⟩).wire.sent

/-- The fields of the caller, but for those that the writer emits itself. -/
def kept : List (Str × Str) :=
  a.headers.filter fun h => !(Text.eqIgnoreAsciiCase h.1 "content-length".toList ||
    Text.eqIgnoreAsciiCase h.1 "connection".toList)

def framing : List (Str × Str) :=
  [("Content-Length".toList, decimal a.body.length),
    ("Connection".toList, (if a.keepAlive then "keep-alive" else "close").toList)]

def sentBody : Bytes := if isBodyless a.method a.status then [] else a.body

def lines : List Str := headLines (statusLine a.status) (a.kept ++ a.framing)

def headBytes : Bytes := Utf8.encode (joinCrlf a.lines)

theorem headText_lines :
    headText a.responder a.status a.headers a.body.length = joinCrlf a.lines ++ crlf ++ crlf := by
  have hfields : wireFields a.responder a.headers a.body.length = a.kept ++ a.framing := rfl
  have hne : a.lines ≠ [] := cons_ne_nil _ _
  rw [headText_eq, hfields, ← flatMap_crlf hne, lines, headLines, flatMap_cons, flatMap_fieldText]
  simp only [append_assoc]

theorem bodyless_eq : a.responder.bodyless a.status = isBodyless a.method a.status := rfl

/-- **A response is its head, a blank line, and its body.** -/
theorem written_eq : a.written = a.headBytes ++ (crlfBytes ++ (crlfBytes ++ a.sentBody)) := by
  have hhead : Utf8.encode (headText a.responder a.status a.headers a.body.length) =
      a.headBytes ++ (crlfBytes ++ crlfBytes) := by
    rw [headText_lines, Utf8.encode_append, Utf8.encode_append, encode_crlf, append_assoc]
    rfl
  rw [written, Responder.send, hhead, Wire.write_of_unlimited rfl, bodyless_eq, sentBody]
  cases isBodyless a.method a.status with
  | true => simp
  | false =>
    dsimp only
    rw [Wire.write_of_unlimited rfl]
    simp

theorem copyStream_pieces (pieces : List Bytes) (sent : Bytes)
    (h : ∀ p ∈ pieces, p ≠ [] ∧ p.length ≤ bufferSize) :
    (copyStream pieces.flatten.length (pieces.map .data) ⟨sent, none⟩).1.sent =
      sent ++ pieces.flatten := by
  induction pieces generalizing sent with
  | nil => simp [copyStream]
  | cons p pieces ih =>
    obtain ⟨⟨hne, hlen⟩, hrest⟩ := forall_mem_cons.mp h
    have hpos := length_pos_of_ne_nil hne
    obtain ⟨n, hn⟩ : ∃ n, (p :: pieces).flatten.length = n + 1 := by
      refine ⟨(p :: pieces).flatten.length - 1, ?_⟩
      rw [flatten_cons, length_append]
      omega
    have hall : p.length + pieces.flatten.length = n + 1 := by
      rw [← hn, flatten_cons, length_append]
    have hchunk : p.take (min bufferSize (n + 1)) = p := take_of_length_le (by omega)
    have hleft : n + 1 - p.length = pieces.flatten.length := by omega
    rw [hn, map_cons, copyStream]
    simp only [hchunk]
    rw [if_neg hne, Wire.write_of_unlimited rfl]
    simp only [if_true]
    rw [hleft, ih _ hrest, flatten_cons, append_assoc]

/-- **A stream is written as the same bytes.** -/
theorem streamed_eq {reader : List ReadResult} (h : Gives reader a.body) :
    a.streamed reader = a.written := by
  obtain ⟨pieces, rfl, hflat, hpieces⟩ := h
  rw [streamed, written, Responder.sendStream, Responder.send]
  generalize Utf8.encode (headText a.responder a.status a.headers a.body.length) = head
  rw [Wire.write_of_unlimited rfl]
  cases a.responder.bodyless a.status with
  | true => rfl
  | false =>
    have hcopy := copyStream_pieces pieces ([] ++ head) hpieces
    dsimp only
    rw [Wire.write_of_unlimited rfl]
    rw [hflat, nil_append] at hcopy
    simpa using hcopy

/-! ## What is read -/

def seen : List (Str × Str) := a.kept.map asField ++ a.framing

/-- **A response is read back**, with these fields: its status, its body where it has one, and
nothing of what follows it, however the bytes arrive. -/
def ReadAs (fields : List (Str × Str)) : Prop :=
  ∀ (next : Bytes) (source : Source UInt8), source.items = a.written ++ next →
    readResponseFor source a.method = .ok
      { status := a.status
        headers := fields
        body := a.sentBody
        reason := statusReason a.status
        left := next }

/-- **A response that the reader takes**: there is room for it, and no field is seen as one that
frames it otherwise. -/
structure Readable : Prop where
  room : a.headBytes.length + 4 ≤ headRoom
  small : isBodyless a.method a.status = false → a.body.length ≤ maxBackendBody
  coding : ∀ f ∈ a.kept, isCoding (asField f).1 = false
  /-- a length that the writer has not dropped, for the blanks around its name, is the right one -/
  length : ∀ f ∈ a.kept, isLength (asField f).1 = true →
    ∀ p ∈ members (asField f).2, LengthIs p a.body.length

variable {a}

theorem framing_asField : a.framing.map asField = a.framing := by
  have hlength : ':' ∉ "Content-Length".toList := by decide
  have hconnection : ':' ∉ "Connection".toList := by decide
  have hword : Text.trim (if a.keepAlive then "keep-alive" else "close").toList =
      (if a.keepAlive then "keep-alive" else "close").toList := by
    cases a.keepAlive <;> decide
  rw [framing, map_cons, map_cons, map_nil, asField_eq hlength,
    asField_eq hconnection, (isDigits_decimal _).plain.2, hword]
  rfl

theorem map_asField : (a.kept ++ a.framing).map asField = a.seen := by
  rw [map_append, framing_asField, seen]

theorem lengthParts_seen :
    lengthParts a.seen = lengthParts (a.kept.map asField) ++ [decimal a.body.length] := by
  have hframing : lengthParts a.framing = [decimal a.body.length] := by
    have hlength : isLength "Content-Length".toList = true := by decide
    have hconnection : isLength "Connection".toList = false := by decide
    simp only [framing, lengthParts, filter_cons, hlength, hconnection, if_true,
      Bool.false_eq_true, if_false, filter_nil, flatMap_singleton, members_decimal]
  rw [seen, ← hframing, lengthParts, lengthParts, lengthParts, filter_append, flatMap_append]

theorem any_isCoding_seen :
    (a.seen.any fun f => isCoding f.1) = false ↔ ∀ f ∈ a.kept, isCoding (asField f).1 = false := by
  have hframing : (a.framing.any fun f => isCoding f.1) = false := by
    have hlength : isCoding "Content-Length".toList = false := by decide
    have hconnection : isCoding "Connection".toList = false := by decide
    simp only [framing, any_cons, any_nil, hlength, hconnection, Bool.or_false]
  rw [seen, any_append, hframing, Bool.or_false, any_map, any_eq_false]
  simp only [Function.comp_apply, Bool.not_eq_true]

/-- **Fields frame the response** if none is seen as one that frames it otherwise. -/
theorem frames_iff : Frames a.seen ↔ (∀ f ∈ a.kept, isCoding (asField f).1 = false) ∧
      ∀ f ∈ a.kept, isLength (asField f).1 = true →
        ∀ p ∈ members (asField f).2, LengthIs p a.body.length := by
  have hown : decimal a.body.length ∈ lengthParts a.seen := by
    rw [lengthParts_seen]
    exact mem_append_right _ (mem_singleton_self _)
  have hparts : (∀ p ∈ lengthParts (a.kept.map asField), LengthIs p a.body.length) ↔
      ∀ f ∈ a.kept, isLength (asField f).1 = true →
        ∀ p ∈ members (asField f).2, LengthIs p a.body.length := by
    simp only [lengthParts, mem_flatMap, mem_filter, mem_map]
    constructor
    · intro h f hf hlength p hp
      exact h p ⟨asField f, ⟨⟨f, hf, rfl⟩, hlength⟩, hp⟩
    · rintro h p ⟨_, ⟨⟨f, hf, rfl⟩, hlength⟩, hp⟩
      exact h f hf hlength p hp
  constructor
  · intro h
    refine ⟨?_, ?_⟩
    · rw [← any_isCoding_seen, ← Bool.not_eq_true]
      intro hcoded
      have hnil := (h.coding hcoded).1
      rw [hnil] at hown
      cases hown
    · obtain ⟨n, hn⟩ := h.length
      obtain ⟨-, rfl⟩ := lengthIs_decimal.mp (hn _ hown)
      refine hparts.mp fun p hp => hn p ?_
      rw [lengthParts_seen]
      exact mem_append_left _ hp
  · rintro ⟨hcoding, hlength⟩
    refine ⟨⟨a.body.length, ?_⟩, fun hcoded => ?_⟩
    · rw [lengthParts_seen, forall_mem_append]
      exact ⟨hparts.mpr hlength, forall_mem_singleton.mpr (lengthIs_decimal.mpr ⟨a.length_lt, rfl⟩)⟩
    · rw [any_isCoding_seen.mpr hcoding] at hcoded
      cases hcoded

/-! ## Reading it back -/

theorem lines_plain : ∀ l ∈ a.lines, l ≠ [] ∧ '\r' ∉ l := by
  have hlength : '\r' ∉ "Content-Length".toList := by decide
  have hconnection : '\r' ∉ "Connection".toList := by decide
  have hword : '\r' ∉ (if a.keepAlive then "keep-alive" else "close").toList := by
    cases a.keepAlive <;> decide
  refine forall_mem_cons.mpr ⟨⟨cons_ne_nil _ _,
    statusText_plain (not_mem_statusReason (by decide) a.status) a.status⟩, ?_⟩
  rw [forall_mem_map]
  suffices hfields : ∀ f ∈ a.kept ++ a.framing, '\r' ∉ f.1 ∧ '\r' ∉ f.2 from
    fun f hf => ⟨fieldText_ne_nil f, not_mem_fieldText (hfields f hf)⟩
  rw [forall_mem_append]
  constructor
  · intro f hf
    have hclean := a.clean f (mem_of_mem_filter hf)
    exact ⟨hclean.1.1, hclean.2.1⟩
  · exact forall_mem_cons.mpr ⟨⟨hlength, not_mem_decimal_of (by decide) _⟩,
      forall_mem_singleton.mpr ⟨hconnection, hword⟩⟩

theorem readHead_written {next : Bytes} {source : Source UInt8}
    (hsource : source.items = a.written ++ next) : (a.headBytes.length + 4 ≤ headRoom ∧ ∃ rest buf,
      headLoop.run (source, []) = .ok (a.headBytes.length, rest, buf) ∧
      buf.take a.headBytes.length = a.headBytes ∧
      buf.drop (a.headBytes.length + 4) ++ rest.items = a.sentBody ++ next) ∨
    (headRoom < a.headBytes.length + 4 ∧ headLoop.run (source, []) = .error .headTooLarge) := by
  have hne : a.lines ≠ [] := cons_ne_nil _ _
  refine readHead_lines hne lines_plain ?_
  rw [hsource, written_eq, headBytes]
  simp only [append_assoc]

theorem parseStatusLine_eq :
    parseStatusLine (statusLine a.status) = .ok (a.status, statusReason a.status) :=
  parseStatusLine_written a.status_lt _

theorem parseHead_written (h : Frames a.seen) :
    ∃ s, parseHead a.headBytes = .ok (a.status, statusReason a.status, s) ∧ s.headers = a.seen ∧
      s.chunked = false ∧ s.length = some a.body.length := by
  obtain ⟨s, hhead, hs⟩ := parseHead_of_frames (fun l hl => (lines_plain l hl).2) parseStatusLine_eq
    (map_asField ▸ h)
  rw [map_asField] at hs
  have hown : decimal a.body.length ∈ lengthParts a.seen := by
    rw [lengthParts_seen]
    exact mem_append_right _ (mem_singleton_self _)
  exact ⟨s, hhead, hs.headers, hs.chunked (ne_nil_of_mem hown),
    hs.length _ hown _ (lengthIs_decimal.mpr ⟨a.length_lt, rfl⟩)⟩

theorem parseHead_refused (h : ¬ Frames a.seen) : ∃ e, parseHead a.headBytes = .error e :=
  parseHead_of_not_frames (fun l hl => (lines_plain l hl).2) parseStatusLine_eq (map_asField ▸ h)

/-- **What can be read is read back**, however it arrives and whatever follows it. -/
theorem readAs_of_readable (h : a.Readable) : a.ReadAs a.seen := by
  intro next source hsource
  obtain ⟨-, rest, buf, hrun, htake, hdrop⟩ | ⟨hlong, -⟩ := readHead_written hsource
  · obtain ⟨s, hhead, hheaders, hchunked, hlength⟩ :=
      parseHead_written (frames_iff.mpr ⟨h.coding, h.length⟩)
    simp only [readResponseFor, hrun, bind, Except.bind, htake, hhead, hheaders]
    rw [sentBody] at hdrop ⊢
    cases hbodyless : isBodyless a.method a.status with
    | true =>
      rw [hbodyless, if_pos rfl] at hdrop
      rw [if_pos rfl, hdrop]
      rfl
    | false =>
      rw [hbodyless, if_neg Bool.false_ne_true] at hdrop
      rw [if_neg Bool.false_ne_true, readBody_length hchunked hlength (h.small hbodyless) hdrop]
      rfl
  · exact absurd h.room (by omega)

/-- **What is read can be read**: no condition is too much. -/
theorem readable_of_ok {next : Bytes} {source : Source UInt8}
    (hsource : source.items = a.written ++ next) {response : ReadResponse}
    (h : readResponseFor source a.method = .ok response) : a.Readable := by
  obtain ⟨hroom, rest, buf, hrun, htake, hdrop⟩ | ⟨-, hrun⟩ := readHead_written hsource
  · have hframes : Frames a.seen := by
      by_contra hframes
      obtain ⟨e, hhead⟩ := parseHead_refused hframes
      simp only [readResponseFor, hrun, bind, Except.bind, htake, hhead] at h
      cases h
    obtain ⟨s, hhead, -, hchunked, hlength⟩ := parseHead_written hframes
    simp only [readResponseFor, hrun, bind, Except.bind, htake, hhead] at h
    obtain ⟨hcoding, hlengths⟩ := frames_iff.mp hframes
    refine ⟨hroom, fun hbodyless => ?_, hcoding, hlengths⟩
    by_contra hlarge
    have hrefused : readBody s rest (buf.drop (a.headBytes.length + 4)) = .error .bodyTooLarge := by
      rw [readBody, hchunked, hlength]
      exact if_pos (Nat.lt_of_not_le hlarge)
    rw [if_neg (by rw [hbodyless]; exact Bool.false_ne_true), hrefused] at h
    cases h
  · simp only [readResponseFor, hrun, bind, Except.bind] at h
    cases h

theorem written_ne_nil : a.written ≠ [] := by
  rw [written_eq]
  simp [crlfBytes]

/-- The response, which comes at once, with nothing behind it. -/
def source (a : BackendReply) : Source UInt8 := whole a.written written_ne_nil

theorem items_source : a.source.items = a.written ++ [] := by
  rw [source, items_whole, append_nil]

theorem Readable.length_fieldText_le (h : a.Readable) {f : Str × Str} (hf : f ∈ a.kept) :
    (fieldText f).length ≤ headRoom := by
  have hline : fieldText f ∈ a.lines := mem_cons_of_mem _ (mem_map_of_mem (mem_append_left _ hf))
  have hle := (length_le_joinCrlf hline).trans (Utf8.length_le_encode _)
  exact hle.trans ((Nat.le_add_right _ 4).trans h.room)

theorem readable_of_readAs {fields : List (Str × Str)} (h : a.ReadAs fields) : a.Readable :=
  readable_of_ok items_source (h [] a.source items_source)

variable (a)

structure ReadAsIs (f : Str × Str) : Prop where
  colon : ':' ∉ f.1
  name : Text.trim f.1 = f.1
  value : Text.trim f.2 = f.2

/-- **The round trip of the backend leg.** A response is read back, with its fields as the reader
sees them, exactly if the reader has room for it and sees no field that frames it otherwise. It is
the same from a stream; and fields without colons in their names and white space around are seen as
they are. -/
theorem roundTrip :
    (a.ReadAs a.seen ↔ a.Readable) ∧
      (∀ reader, Gives reader a.body → a.streamed reader = a.written) ∧
      ((∀ f ∈ a.kept, ReadAsIs f) → a.seen = a.kept ++ a.framing) := by
  refine ⟨⟨readable_of_readAs, readAs_of_readable⟩, fun reader h => a.streamed_eq h, fun h => ?_⟩
  have hsame : ∀ f ∈ a.kept, asField f = f := by
    intro f hf
    obtain ⟨hcolon, hname, hvalue⟩ := h f hf
    rw [← Prod.eta f, asField_eq hcolon, hname, hvalue]
  rw [seen, map_congr_left hsame, map_id']

end BackendReply

/-! ## Responses that are not read as they are written -/

theorem ok_lt : 200 < 2 ^ 16 := by decide

/-- A response to a `GET`. -/
def okReply (headers : List (Str × Str)) (body : Bytes) (clean : ∀ f ∈ headers, OneLine f)
    (length_lt : body.length < 2 ^ 64) : BackendReply :=
  ⟨200, headers, body, "GET".toList, true, ok_lt, length_lt, clean⟩

theorem hello_clean : ∀ f ∈ [("Content-Type".toList, "text/plain".toList)], OneLine f := by decide

theorem hello_lt : (Utf8.encode "hello".toList).length < 2 ^ 64 := by decide

def helloReply : BackendReply :=
  okReply [("Content-Type".toList, "text/plain".toList)] (Utf8.encode "hello".toList) hello_clean
    hello_lt

theorem hello_reads_back : helloReply.ReadAs (helloReply.kept ++ helloReply.framing) := by
  have hread := helloReply.roundTrip.1.mpr
    { room := by decide
      small := by decide
      coding := by decide
      length := fun f hf h => absurd h (by revert f; decide) }
  have hsame : ∀ f ∈ helloReply.kept, BackendReply.ReadAsIs f := by
    intro f hf
    cases List.mem_singleton.mp hf
    exact ⟨by decide, by decide, by decide⟩
  rwa [helloReply.roundTrip.2.2 hsame] at hread

theorem blank_clean : ∀ f ∈ [("X".toList, " a".toList)], OneLine f := by decide

theorem empty_lt : ([] : Bytes).length < 2 ^ 64 := by decide

def blankReply : BackendReply := okReply [("X".toList, " a".toList)] [] blank_clean empty_lt

theorem long_clean (n : Nat) : ∀ f ∈ [("X".toList, List.replicate n 'x')], OneLine f := by
  rw [forall_mem_singleton]
  have hvalue : ∀ c ∈ List.replicate n 'x', c = 'x' := fun c => eq_of_mem_replicate
  refine ⟨show '\r' ∉ "X".toList ∧ '\n' ∉ "X".toList by decide, ?_, ?_⟩
  all_goals exact fun hmem => absurd (hvalue _ hmem) (by decide)

def longReply : BackendReply :=
  okReply [("X".toList, List.replicate headRoom 'x')] [] (long_clean headRoom) empty_lt

theorem none_clean : ∀ f ∈ ([] : List (Str × Str)), OneLine f := by decide

theorem large_lt : (List.replicate (maxBackendBody + 1) (0 : UInt8)).length < 2 ^ 64 := by
  rw [length_replicate]
  decide

def largeReply : BackendReply :=
  okReply [] (List.replicate (maxBackendBody + 1) 0) none_clean large_lt

/-- **A blank is lost, and a long head and a large body are refused.** -/
theorem not_as_written :
    ¬ blankReply.ReadAs (blankReply.kept ++ blankReply.framing) ∧
      ¬ longReply.ReadAs (longReply.kept ++ longReply.framing) ∧
      ¬ largeReply.ReadAs (largeReply.kept ++ largeReply.framing) := by
  refine ⟨fun h => ?_, fun h => ?_, fun h => ?_⟩
  · have hread := BackendReply.readAs_of_readable (BackendReply.readable_of_readAs h) []
      blankReply.source BackendReply.items_source
    rw [h [] blankReply.source BackendReply.items_source] at hread
    have hsame : blankReply.kept ++ blankReply.framing = blankReply.seen :=
      congrArg (fun r => r.headers) (Except.ok.inj hread)
    exact absurd hsame (by decide)
  · have hkept : (!(Text.eqIgnoreAsciiCase "X".toList "content-length".toList ||
        Text.eqIgnoreAsciiCase "X".toList "connection".toList)) = true := by decide
    have hfield : ("X".toList, List.replicate headRoom 'x') ∈ longReply.kept :=
      mem_filter.mpr ⟨mem_singleton_self _, hkept⟩
    have hroom := (BackendReply.readable_of_readAs h).length_fieldText_le hfield
    have hlength : (List.replicate headRoom 'x').length = headRoom := length_replicate
    generalize List.replicate headRoom 'x' = v at hroom hlength
    rw [fieldText, length_append, hlength] at hroom
    have hname : 0 < ("X".toList ++ ": ".toList).length := by decide
    exact absurd hroom (Nat.not_le.mpr (Nat.lt_add_of_pos_left hname))
  · have hsmall := (BackendReply.readable_of_readAs h).small (by decide)
    rw [largeReply, okReply] at hsmall
    dsimp only at hsmall
    rw [length_replicate] at hsmall
    omega

end RoundTrip

end M6
