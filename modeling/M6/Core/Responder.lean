import M6.Core.Request

/-!
# Writing a response

The one HTTP/1.1 response writer (`Responder` of `h1.rs`) and the response a
handler returns (`Response::send` of `response.rs`), down to the bytes.

A body is either bytes in memory or a reader with a promised length. The reader
is a script of what its `read` calls return; the wire accepts bytes up to a
limit, the point where the peer is gone, and from then on every write fails.
`Sent` keeps what a response announced and how much body it put on the wire;
`Sent.short` is the case where the two differ.
-/

namespace M6

open Text

/-! ## The wire -/

/-- The writing side of a connection. -/
structure Wire where
  /-- the bytes the peer has been given -/
  sent : Bytes
  /-- how many the peer takes before it is gone -/
  limit : Option Nat
  deriving DecidableEq

namespace Wire

def write (w : Wire) (bytes : Bytes) : Wire × Bool :=
  match w.limit with
  | none => ({ w with sent := w.sent ++ bytes }, true)
  | some n =>
    ({ w with sent := w.sent ++ bytes.take (n - w.sent.length) },
      bytes.length ≤ n - w.sent.length)

def Exhausted (w : Wire) : Prop := ∃ n, w.limit = some n ∧ n ≤ w.sent.length

@[simp] theorem write_limit (w : Wire) (bytes : Bytes) : (w.write bytes).1.limit = w.limit := by
  rcases h : w.limit with _ | n <;> simp [write, h]

theorem sent_of_write {w : Wire} {bytes : Bytes} (h : (w.write bytes).2 = true) :
    (w.write bytes).1.sent = w.sent ++ bytes := by
  rcases hl : w.limit with _ | n
  · simp only [write, hl]
  · simp only [write, hl, decide_eq_true_eq] at h ⊢
    rw [List.take_of_length_le h]

theorem exhausted_of_write {w : Wire} {bytes : Bytes} (h : (w.write bytes).2 = false) :
    (w.write bytes).1.Exhausted := by
  rcases hl : w.limit with _ | n
  · simp only [write, hl] at h
    cases h
  · refine ⟨n, by simp [hl], ?_⟩
    simp only [write, hl, decide_eq_false_iff_not, not_le] at h ⊢
    rw [List.length_append, List.length_take]
    omega

theorem write_of_exhausted {w : Wire} (h : w.Exhausted) (bytes : Bytes) :
    (w.write bytes).1 = w := by
  obtain ⟨n, hl, hn⟩ := h
  simp only [write, hl]
  rw [Nat.sub_eq_zero_of_le hn, List.take_zero, List.append_nil, ← hl]

theorem write_of_unlimited {w : Wire} (h : w.limit = none) (bytes : Bytes) :
    w.write bytes = (⟨w.sent ++ bytes, none⟩, true) := by
  simp only [write, h]

theorem length_le_write (w : Wire) (bytes : Bytes) :
    w.sent.length ≤ (w.write bytes).1.sent.length := by
  rcases hl : w.limit with _ | n <;> simp [write, hl]

end Wire

/-! ## The responder -/

def decimal (n : Nat) : Str := Nat.toDigits 10 n

def statusReason (status : Nat) : Str :=
  (match status with
    | 100 => "Continue"
    | 200 => "OK"
    | 201 => "Created"
    | 204 => "No Content"
    | 206 => "Partial Content"
    | 301 => "Moved Permanently"
    | 302 => "Found"
    | 304 => "Not Modified"
    | 400 => "Bad Request"
    | 401 => "Unauthorized"
    | 403 => "Forbidden"
    | 404 => "Not Found"
    | 405 => "Method Not Allowed"
    | 412 => "Precondition Failed"
    | 413 => "Payload Too Large"
    | 417 => "Expectation Failed"
    | 429 => "Too Many Requests"
    | 500 => "Internal Server Error"
    | 501 => "Not Implemented"
    | 502 => "Bad Gateway"
    | 503 => "Service Unavailable"
    | 504 => "Gateway Timeout"
    | _ => "Unknown").toList

/-- Whether a request leaves the connection open: HTTP/1.1 unless it asks to
close, HTTP/1.0 only if it asks to stay. Every `Connection` line counts. -/
def keepAlive (raw : RawRequest) : Bool :=
  let has (token : Str) : Bool :=
    ((raw.headers.filter fun h => eqIgnoreAsciiCase h.1 "connection".toList).flatMap
      fun h => h.2.splitOn ',').any fun t => eqIgnoreAsciiCase (Text.trim t) token
  if eqIgnoreAsciiCase raw.version "HTTP/1.1".toList then !has "close".toList
  else if eqIgnoreAsciiCase raw.version "HTTP/1.0".toList then has "keep-alive".toList
  else false

/-- How a response is framed, decided before the handler runs. -/
structure Responder where
  isHead : Bool
  keepAlive : Bool

def Responder.new (method : Str) (keepAlive : Bool) : Responder :=
  ⟨eqIgnoreAsciiCase method "HEAD".toList, keepAlive⟩

def crlf : Str := ['\r', '\n']

/-- The header lines a caller's fields become: the two the writer emits itself
are dropped, and the rest is written as it is. -/
def headerLines (headers : List (Str × Str)) : Str :=
  headers.flatMap fun h =>
    if eqIgnoreAsciiCase h.1 "content-length".toList ||
        eqIgnoreAsciiCase h.1 "connection".toList then []
    else h.1 ++ ": ".toList ++ h.2 ++ crlf

def headText (r : Responder) (status : Nat) (headers : List (Str × Str)) (length : Nat) : Str :=
  "HTTP/1.1 ".toList ++ decimal status ++ " ".toList ++ statusReason status ++ crlf ++
    headerLines headers ++ "Content-Length: ".toList ++ decimal length ++ crlf ++
    "Connection: ".toList ++ (if r.keepAlive then "keep-alive" else "close").toList ++ crlf ++ crlf

/-- Whether a body follows the head: not on a `HEAD`, a 1xx, a 204 or a 304. -/
def Responder.bodyless (r : Responder) (status : Nat) : Bool :=
  r.isHead || status == 204 || status == 304 || (100 ≤ status && status < 200)

/-- What became of a response. -/
structure Sent where
  wire : Wire
  /-- whether the writer returned without an error -/
  ok : Bool
  /-- the body bytes that the head on the wire promises to follow -/
  announced : Nat
  /-- the body bytes that did -/
  body : Nat

def Sent.short (s : Sent) : Bool := s.body < s.announced

def Responder.send (r : Responder) (status : Nat) (headers : List (Str × Str)) (body : Bytes)
    (w : Wire) : Sent :=
  let (w₁, headOk) := w.write (Utf8.encode (headText r status headers body.length))
  if !headOk then ⟨w₁, false, 0, 0⟩
  else if r.bodyless status then ⟨w₁, true, 0, 0⟩
  else
    let (w₂, bodyOk) := w₁.write body
    ⟨w₂, bodyOk, body.length, w₂.sent.length - w₁.sent.length⟩

def Responder.error (r : Responder) (status : Nat) (w : Wire) : Sent :=
  r.send status [("Content-Type".toList, "text/plain".toList)]
    (Utf8.encode (decimal status ++ " ".toList ++ statusReason status)) w

/-- What one `read` of a body returns: some bytes, none of them at the end of the
body, or an error. -/
inductive ReadResult where
  | data (bytes : Bytes)
  | failed

def bufferSize : Nat := 64 * 1024

/-- Copy a reader to the wire until the promised length is reached. A read that
fails or returns nothing ends the copy early, as does a failed write. -/
def copyStream : Nat → List ReadResult → Wire → Wire × Bool
  | 0, _, w => (w, true)
  | _ + 1, [], w => (w, false)
  | _ + 1, .failed :: _, w => (w, false)
  | remaining + 1, .data bytes :: rest, w =>
    let chunk := bytes.take (min bufferSize (remaining + 1))
    if chunk = [] then (w, false)
    else
      let (w', ok) := w.write chunk
      if ok then copyStream (remaining + 1 - chunk.length) rest w' else (w', false)

def Responder.sendStream (r : Responder) (status : Nat) (headers : List (Str × Str)) (length : Nat)
    (reader : List ReadResult) (w : Wire) : Sent :=
  let (w₁, headOk) := w.write (Utf8.encode (headText r status headers length))
  if !headOk then ⟨w₁, false, 0, 0⟩
  else if r.bodyless status then ⟨w₁, true, 0, 0⟩
  else
    let (w₂, bodyOk) := copyStream length reader w₁
    ⟨w₂, bodyOk, length, w₂.sent.length - w₁.sent.length⟩

/-! ## Responses -/

inductive Body where
  | bytes (b : Bytes)
  | stream (len : Nat) (reader : List ReadResult)

def Body.isEmpty : Body → Bool
  | bytes b => b.isEmpty
  | stream _ _ => false

/-- The response of a handler, after the pipeline. -/
structure Response where
  status : Nat
  headers : List (Str × Str)
  body : Body

def containsHeader (headers : List (Str × Str)) (name : Str) : Bool :=
  headers.any fun h => eqIgnoreAsciiCase h.1 name

/-- Send a response through the writer, with the two defaults a handler may leave
out: the content type, and for bytes in memory an entity tag from their hash. -/
def Response.send (hash : Bytes → Nat) (resp : Response) (r : Responder) (w : Wire) : Sent :=
  let headers := resp.headers ++
    if !containsHeader resp.headers "content-type".toList && !resp.body.isEmpty then
      [("Content-Type".toList, "text/html; charset=utf-8".toList)]
    else []
  match resp.body with
  | .stream len reader => r.sendStream resp.status headers len reader w
  | .bytes b =>
    let headers := headers ++
      if !containsHeader resp.headers "etag".toList && !b.isEmpty then
        [("ETag".toList, '"' :: Nat.toDigits 16 (hash b) ++ ['"'])]
      else []
    r.send resp.status headers b w

/-! ## How much of a body arrives -/

/-- The bytes a reader gives before it ends or fails. -/
def delivered : List ReadResult → Nat
  | [] => 0
  | .failed :: _ => 0
  | .data bytes :: rest =>
    if bytes = [] then 0 else min bufferSize bytes.length + delivered rest

def Body.delivers : Body → Bool
  | bytes _ => true
  | stream len reader => len ≤ delivered reader

theorem headText_ne_nil (r : Responder) (status : Nat) (headers : List (Str × Str)) (length : Nat) :
    Utf8.encode (headText r status headers length) ≠ [] := by
  have h : ∃ t, headText r status headers length = 'H' :: t := ⟨_, rfl⟩
  obtain ⟨t, ht⟩ := h
  rw [ht]
  exact List.cons_ne_nil _ _

@[simp] theorem copyStream_limit (n : Nat) (reader : List ReadResult) (w : Wire) :
    (copyStream n reader w).1.limit = w.limit := by
  induction reader generalizing n w with
  | nil => cases n <;> rfl
  | cons a reader ih =>
    cases n with
    | zero => rfl
    | succ n =>
      cases a with
      | failed => rfl
      | data bytes =>
        simp only [copyStream]
        split_ifs
        · rfl
        · rw [ih, Wire.write_limit]
        · rw [Wire.write_limit]

theorem copyStream_cases (n : Nat) (reader : List ReadResult) (w : Wire) :
    (copyStream n reader w).1.sent.length = w.sent.length + n ∨ delivered reader < n ∨
      (copyStream n reader w).1.Exhausted := by
  induction reader generalizing n w with
  | nil => cases n with
    | zero => exact .inl rfl
    | succ n => exact .inr (.inl (Nat.succ_pos n))
  | cons a reader ih =>
    cases n with
    | zero => exact .inl rfl
    | succ n =>
      cases a with
      | failed => exact .inr (.inl (Nat.succ_pos n))
      | data bytes =>
        simp only [copyStream, delivered]
        by_cases hb : bytes = []
        · rw [if_pos hb]
          exact .inr (.inl (Nat.succ_pos n))
        rw [if_neg hb]
        have hlen : (bytes.take (min bufferSize (n + 1))).length =
            min (min bufferSize (n + 1)) bytes.length := List.length_take
        have hpos : 0 < bytes.length := List.length_pos_iff.mpr hb
        have hbuf : 0 < bufferSize := by decide
        have hne : bytes.take (min bufferSize (n + 1)) ≠ [] := by
          intro hnil
          rw [hnil, List.length_nil] at hlen
          omega
        rw [if_neg hne]
        rcases hok : (w.write (bytes.take (min bufferSize (n + 1)))).2 with _ | _
        · -- the peer is gone
          rw [if_neg (by simp)]
          exact .inr (.inr (Wire.exhausted_of_write hok))
        · rw [if_pos rfl]
          have hsent := congrArg List.length (Wire.sent_of_write hok)
          rw [List.length_append, hlen] at hsent
          rcases ih (n + 1 - (bytes.take (min bufferSize (n + 1))).length)
            (w.write (bytes.take (min bufferSize (n + 1)))).1 with hdone | hless | hgone
          · rw [hlen] at hdone
            left
            rw [hlen, hdone, hsent]
            omega
          · rw [hlen] at hless
            right
            left
            omega
          · exact .inr (.inr hgone)

theorem copyStream_short {n : Nat} {reader : List ReadResult} {w : Wire} (hw : w.limit = none)
    (h : delivered reader < n) : (copyStream n reader w).1.sent.length < w.sent.length + n := by
  induction reader generalizing n w with
  | nil => cases n with
    | zero => cases h
    | succ n => exact Nat.lt_add_of_pos_right (Nat.succ_pos n)
  | cons a reader ih =>
    cases n with
    | zero => cases h
    | succ n =>
      cases a with
      | failed => exact Nat.lt_add_of_pos_right (Nat.succ_pos n)
      | data bytes =>
        simp only [delivered] at h
        simp only [copyStream]
        by_cases hchunk : bytes.take (min bufferSize (n + 1)) = []
        · rw [if_pos hchunk]
          exact Nat.lt_add_of_pos_right (Nat.succ_pos n)
        rw [if_neg hchunk, Wire.write_of_unlimited hw]
        have hb : bytes ≠ [] := fun hb => hchunk (by rw [hb, List.take_nil])
        rw [if_neg hb] at h
        have hlen : (bytes.take (min bufferSize (n + 1))).length =
            min (min bufferSize (n + 1)) bytes.length := List.length_take
        simp only [if_true]
        have hrest : delivered reader <
            n + 1 - (bytes.take (min bufferSize (n + 1))).length := by omega
        have hless := ih (w := ⟨w.sent ++ bytes.take (min bufferSize (n + 1)), none⟩) rfl hrest
        simp only [List.length_append] at hless
        omega

end M6
