import M6.Core.Connection
import M6.Core.H1
import M6.Edge.Ingress

/-!
# HTTP/1.1 at the edge

`drive_h1` of `http11.rs`: one connection as a state machine, which reads a request, waits for its
backend and writes the answer. `drive` is one pass through the loop. What the outside gives to that
pass (bytes, an answer, room to write) is an event, and a run is a list of events that fit the
states they meet.

What cannot be framed is answered with a refusal that says `Connection: close`. The connection is
then closed or not by the flag of the request before: `refusal_closes_iff` says when it is.
-/

namespace M6

open H1 Option

/-! ## Responses -/

def statusMayHaveContentLength (status : Nat) : Bool :=
  !(status == 204 || status == 304 || (100 ≤ status && status < 200))

def edgeReason (status : Nat) : Str :=
  (match status with
    | 200 => "OK"
    | 201 => "Created"
    | 204 => "No Content"
    | 206 => "Partial Content"
    | 301 => "Moved Permanently"
    | 302 => "Found"
    | 304 => "Not Modified"
    | 400 => "Bad Request"
    | 401 => "Unauthorized"
    | 403 => "Forbidden"
    | 404 => "Not Found"
    | 405 => "Method Not Allowed"
    | 413 => "Payload Too Large"
    | 429 => "Too Many Requests"
    | 500 => "Internal Server Error"
    | 501 => "Not Implemented"
    | 502 => "Bad Gateway"
    | 503 => "Service Unavailable"
    | 504 => "Gateway Timeout"
    | _ => "Unknown").toList

/-- `write_h1_headers`: the configured headers that a response does not set itself. -/
def writeH1Headers (security existing : List (Str × Str)) : Str :=
  (security.filter fun h => !containsHeader existing h.1).flatMap fun h =>
    h.1 ++ ": ".toList ++ h.2 ++ crlf

def buildResponse (security : List (Str × Str)) (status : Nat) (headers : List (Str × Str))
    (body : Bytes) (method : Str) (keepAlive : Bool) : Bytes :=
  let isHead := Text.eqIgnoreAsciiCase method "HEAD".toList
  -- a `HEAD` that the backend framed itself has its length in the header only
  let length := if isHead && body.isEmpty then
      (((header headers "content-length".toList).map Text.trim).bind parseUsize).getD 0
    else body.length
  let framed := statusMayHaveContentLength status
  Utf8.encode ("HTTP/1.1 ".toList ++ decimal status ++ " ".toList ++ edgeReason status ++ crlf ++
      headerLines headers ++ writeH1Headers security headers ++
      (if framed then "content-length: ".toList ++ decimal length ++ crlf else []) ++
      "connection: ".toList ++ (if keepAlive && framed then "keep-alive" else "close").toList ++
      crlf ++ crlf) ++
    if isHead then [] else body

def refusal (status : Nat) : Bytes :=
  let reason := match status with
    | 413 => "Payload Too Large"
    | 417 => "Expectation Failed"
    | _ => "Bad Request"
  Utf8.encode ("HTTP/1.1 ".toList ++ decimal status ++ " ".toList ++ reason.toList ++ crlf ++
    "Content-Length: 0".toList ++ crlf ++ "Connection: close".toList ++ crlf ++ crlf)

/-! ## The state machine -/

inductive H1State where
  | reading (buf : Bytes)
  | waitingBackend (method : Str)
  | writing (buf : Bytes) (pos : Nat)
  | done
  deriving DecidableEq

structure H1Conn where
  state : H1State
  /-- whether the response being written leaves the connection open -/
  keepAlive : Bool
  /-- how many requests were answered -/
  served : Nat
  /-- whether the `Expect` of the current request was dealt with -/
  expectHandled : Bool

def H1Conn.new : H1Conn := ⟨.reading [], false, 0, false⟩

def maxRequestBytes : Nat := 20 * 1024 * 1024

/-- What a handler answers. -/
inductive RequestOutcome where
  | ready (status : Nat) (headers : List (Str × Str)) (body : Bytes)
  | pending

/-- What one pass through the loop meets. -/
inductive H1Event where
  /-- the request has been too long in coming, or the transport is gone -/
  | dropped
  /-- bytes, and what the handler says if they complete a request -/
  | read (bytes : Bytes) (outcome : RequestOutcome)
  /-- the client will send no more, which only a plaintext connection sees as a read -/
  | readEof
  | readNothing
  | readFailed
  /-- the backend has not answered -/
  | backendSilent
  /-- an answer for the client, and whether the transport is still there -/
  | backend (status : Nat) (headers : List (Str × Str)) (body : Bytes) (advanced : Bool)
  /-- so many bytes were taken, and whether the transport is still there -/
  | wrote (n : Nat) (advanced : Bool)
  | writeBlocked
  | writeFailed

def H1Event.bytes? : H1Event → Option Bytes
  | .read bytes _ => some bytes
  | _ => none

/-- What is met if every request is answered at once and nothing goes wrong. -/
def H1Event.Steady : H1Event → Prop
  | .read _ (.ready _ _ _) => True
  | .readNothing => True
  | .wrote n advanced => 0 < n ∧ advanced = true
  | .writeBlocked => True
  | _ => False

/-- What a connection does that can be told from outside. -/
inductive H1Entry where
  /-- a buffer was given to the parser -/
  | parsed
  /-- a request was given to the handler, out of a buffer of so many bytes -/
  | dispatched (req : RawRequest) (taken : Nat)
  /-- a buffer of so many bytes is answered with a refusal -/
  | refused (status taken : Nat)
  /-- a response is out, and whether the connection is closed with it -/
  | finished (closed : Bool)
  /-- an overflow ended the process -/
  | aborted

def stripUntrustedInbound (req : RawRequest) : RawRequest :=
  { req with headers := req.headers.filter fun h => !isUntrustedInbound h.1 }

def H1Conn.refuse (c : H1Conn) (status : Nat) : H1Conn :=
  { c with state := .writing (refusal status) 0 }

def H1Conn.finishResponse (c : H1Conn) : H1Conn :=
  let served := min (c.served + 1) (2 ^ 32 - 1)
  if c.keepAlive ∧ served < maxRequestsPerConn then ⟨.reading [], c.keepAlive, served, false⟩
  else { c with state := .done, served := served }

def H1Conn.finish (c : H1Conn) : H1Conn × List H1Entry :=
  (c.finishResponse, [.finished (decide (c.finishResponse.state = .done))])

section

variable (security : List (Str × Str)) (lib : Httparse)

def onComplete (c : H1Conn) (buf : Bytes) (req : RawRequest) (outcome : RequestOutcome) :
    H1Conn × List H1Entry :=
  let req := stripUntrustedInbound req
  let c := { c with keepAlive := keepsConnection c.served req }
  match outcome with
  | .ready status headers body =>
    let response := buildResponse security status headers body req.method c.keepAlive
    ({ c with state := .writing response 0 }, [.parsed, .dispatched req buf.length])
  | .pending =>
    ({ c with state := .waitingBackend req.method }, [.parsed, .dispatched req buf.length])

def onIncomplete (c : H1Conn) (buf : Bytes) : H1Conn × List H1Entry :=
  let c := { c with state := .reading buf }
  if c.expectHandled then (c, [.parsed])
  else
    match expectation buf with
    | none => (c, [.parsed])
    | some .absent => ({ c with expectHandled := true }, [.parsed])
    -- the client is told to go on
    | some .continues => ({ c with expectHandled := true }, [.parsed])
    | some .unsupported =>
      ({ c with expectHandled := true }.refuse 417, [.parsed, .refused 417 buf.length])

def onRead (c : H1Conn) (buf : Bytes) (outcome : RequestOutcome) : H1Conn × List H1Entry :=
  if maxRequestBytes < buf.length then (c.refuse 413, [.refused 413 buf.length])
  else
    match parseRequest lib buf with
    | .incomplete => onIncomplete c buf
    | .error => (c.refuse 400, [.parsed, .refused 400 buf.length])
    | .complete req => onComplete security c buf req outcome
    | .aborts => ({ c with state := .done }, [.parsed, .aborted])

def onWrote (c : H1Conn) (buf : Bytes) (pos n : Nat) (advanced : Bool) : H1Conn × List H1Entry :=
  if n = 0 ∨ advanced = false then ({ c with state := .done }, [])
  else if buf.length ≤ pos + n then { c with state := .writing buf (pos + n) }.finish
  else ({ c with state := .writing buf (pos + n) }, [])

/-- One pass through the loop of `drive_h1`, if the event fits the state. -/
def H1Conn.drive (c : H1Conn) (e : H1Event) : Option (H1Conn × List H1Entry) :=
  match c.state, e with
  | .done, _ => none
  | _, .dropped => some ({ c with state := .done }, [])
  | .reading buf, .read bytes outcome =>
    if bytes = [] then none else some (onRead security lib c (buf ++ bytes) outcome)
  | .reading buf, .readEof => some (if buf = [] then { c with state := .done } else c, [])
  | .reading _, .readNothing => some (c, [])
  | .reading _, .readFailed => some ({ c with state := .done }, [])
  | .waitingBackend _, .backendSilent => some (c, [])
  | .waitingBackend method, .backend status headers body advanced =>
    let response := buildResponse security status headers body method c.keepAlive
    some ({ c with state := if advanced then .writing response 0 else .done }, [])
  | .writing buf pos, .wrote n advanced =>
    -- nothing is left to write
    if buf.length ≤ pos then some c.finish else some (onWrote c buf pos n advanced)
  | .writing _ _, .writeBlocked => some (c, [])
  | .writing _ _, .writeFailed => some ({ c with state := .done }, [])
  | _, _ => none

def H1Conn.run (c : H1Conn) : List H1Event → Option (H1Conn × List H1Entry)
  | [] => some (c, [])
  | e :: events =>
    (c.drive security lib e).bind fun (c, log) => (c.run events).map fun (c, log') =>
      (c, log ++ log')

end

/-! ## After a refusal -/

def Closing (log : List H1Entry) : Prop := ∀ e ∈ log, e = .finished true

/-- What is being written is the last of a connection. -/
def H1Conn.Doomed (c : H1Conn) : Prop :=
  c.state = .done ∨ (∃ buf pos, c.state = .writing buf pos) ∧ c.finishResponse.state = .done

def H1Conn.Fresh (c : H1Conn) : Prop :=
  ∀ buf, c.state = .reading buf →
    (c.keepAlive = true ↔ c.served ≠ 0) ∧ c.served < maxRequestsPerConn

section

variable {security : List (Str × Str)} {lib : Httparse}

theorem finishResponse_cases (c : H1Conn) :
    (c.keepAlive = true ∧ c.served + 1 < maxRequestsPerConn ∧
        c.finishResponse = ⟨.reading [], true, c.served + 1, false⟩) ∨
      (¬ (c.keepAlive = true ∧ c.served + 1 < maxRequestsPerConn) ∧
        c.finishResponse.state = .done) := by
  have hserved : min (c.served + 1) (2 ^ 32 - 1) < maxRequestsPerConn ↔
      c.served + 1 < maxRequestsPerConn := by
    rw [maxRequestsPerConn]
    omega
  rw [H1Conn.finishResponse]
  by_cases hkeep : c.keepAlive = true ∧ c.served + 1 < maxRequestsPerConn
  · refine .inl ⟨hkeep.1, hkeep.2, ?_⟩
    rw [if_pos ⟨hkeep.1, hserved.mpr hkeep.2⟩, hkeep.1]
    have := hkeep.2
    rw [maxRequestsPerConn] at this
    rw [Nat.min_eq_left (by omega)]
  · exact .inr ⟨hkeep, by rw [if_neg fun h => hkeep ⟨h.1, hserved.mp h.2⟩]⟩

theorem fresh_new : H1Conn.new.Fresh := by
  intro buf _
  exact ⟨by decide, by decide⟩

theorem fresh_of_state {c : H1Conn} (h : ∀ buf, c.state ≠ .reading buf) : c.Fresh :=
  fun buf hbuf => absurd hbuf (h buf)

theorem fresh_finish (c : H1Conn) : c.finishResponse.Fresh := by
  obtain ⟨-, hserved, heq⟩ | ⟨-, hdone⟩ := finishResponse_cases c
  · rw [heq]
    intro buf _
    exact ⟨by simp, hserved⟩
  · exact fresh_of_state (by rw [hdone]; simp)

variable (security lib) in
theorem onRead_cases (c : H1Conn) (buf : Bytes) (outcome : RequestOutcome) :
    (∃ handled, onRead security lib c buf outcome =
        ({ c with state := .reading buf, expectHandled := handled }, [.parsed])) ∨
      (∃ status handled log, onRead security lib c buf outcome =
        ({ c with state := .writing (refusal status) 0, expectHandled := handled },
          log ++ [.refused status buf.length])) ∨
      ((∀ buf', (onRead security lib c buf outcome).1.state ≠ .reading buf') ∧
        ∀ status taken, .refused status taken ∉ (onRead security lib c buf outcome).2) := by
  rw [onRead]
  by_cases hlarge : maxRequestBytes < buf.length
  · rw [if_pos hlarge]
    exact .inr (.inl ⟨413, c.expectHandled, [], rfl⟩)
  rw [if_neg hlarge]
  cases parseRequest lib buf with
  | incomplete =>
    dsimp only
    rw [onIncomplete]
    dsimp only
    by_cases hhandled : c.expectHandled = true
    · rw [if_pos hhandled]
      exact .inl ⟨_, rfl⟩
    rw [if_neg hhandled]
    cases expectation buf with
    | none => exact .inl ⟨_, rfl⟩
    | some e =>
      cases e with
      | absent | continues => exact .inl ⟨_, rfl⟩
      | unsupported => exact .inr (.inl ⟨417, true, [.parsed], rfl⟩)
  | error => exact .inr (.inl ⟨400, c.expectHandled, [.parsed], rfl⟩)
  | aborts => exact .inr (.inr ⟨by simp, by simp⟩)
  | complete req => cases outcome <;> exact .inr (.inr ⟨by simp [onComplete], by simp [onComplete]⟩)

variable {log : List H1Entry} {c c' : H1Conn} {e : H1Event}

theorem drive_cases (h : c.drive security lib e = some (c', log)) :
    (∃ bytes outcome buf, e = .read bytes outcome ∧ c.state = .reading buf ∧ bytes ≠ [] ∧
        onRead security lib c (buf ++ bytes) outcome = (c', log)) ∨ (e.bytes? = none ∧
        ((c' = { c with state := .done } ∧ log = [] ∧ ¬ e.Steady) ∨
          (c' = c ∧ log = []) ∨ (∃ method response, c.state = .waitingBackend method ∧
            c' = { c with state := .writing response 0 } ∧ log = []) ∨
          (∃ buf pos pos', c.state = .writing buf pos ∧
            c' = { c with state := .writing buf pos' } ∧ log = []) ∨
          (∃ buf pos, c.state = .writing buf pos ∧ (c', log) = c.finish))) := by
  obtain ⟨state, keepAlive, served, handled⟩ := c
  cases state with
  | done => cases h
  | reading buf =>
    cases e with
    | read bytes outcome =>
      change (if bytes = [] then none else some _) = _ at h
      by_cases hbytes : bytes = []
      · rw [if_pos hbytes] at h
        cases h
      · rw [if_neg hbytes] at h
        exact .inl ⟨bytes, outcome, buf, rfl, rfl, hbytes, some.inj h⟩
    | readEof =>
      obtain ⟨hc, rfl⟩ := Prod.mk.inj (some.inj h)
      by_cases hbuf : buf = []
      · rw [if_pos hbuf] at hc
        exact .inr ⟨rfl, .inl ⟨hc.symm, rfl, id⟩⟩
      · rw [if_neg hbuf] at hc
        exact .inr ⟨rfl, .inr (.inl ⟨hc.symm, rfl⟩)⟩
    | dropped | readFailed =>
      cases h
      exact .inr ⟨rfl, .inl ⟨rfl, rfl, id⟩⟩
    | readNothing =>
      cases h
      exact .inr ⟨rfl, .inr (.inl ⟨rfl, rfl⟩)⟩
    | _ => cases h
  | waitingBackend method =>
    cases e with
    | backend status headers body advanced =>
      cases h
      cases advanced with
      | true => exact .inr ⟨rfl, .inr (.inr (.inl ⟨method, _, rfl, rfl, rfl⟩))⟩
      | false => exact .inr ⟨rfl, .inl ⟨rfl, rfl, id⟩⟩
    | dropped =>
      cases h
      exact .inr ⟨rfl, .inl ⟨rfl, rfl, id⟩⟩
    | backendSilent =>
      cases h
      exact .inr ⟨rfl, .inr (.inl ⟨rfl, rfl⟩)⟩
    | _ => cases h
  | writing buf pos =>
    cases e with
    | wrote n advanced =>
      change (if buf.length ≤ pos then some _ else some _) = _ at h
      refine .inr ⟨rfl, ?_⟩
      by_cases hempty : buf.length ≤ pos
      · rw [if_pos hempty] at h
        exact .inr (.inr (.inr (.inr ⟨buf, pos, rfl, (some.inj h).symm⟩)))
      rw [if_neg hempty] at h
      replace h := some.inj h
      rw [onWrote] at h
      split_ifs at h with hfailed hout
      · cases h
        refine .inl ⟨rfl, rfl, ?_⟩
        rintro ⟨hpos, rfl⟩
        obtain rfl | hfailed := hfailed
        · exact absurd hpos (lt_irrefl 0)
        · cases hfailed
      · exact .inr (.inr (.inr (.inr ⟨buf, pos, rfl, h.symm⟩)))
      · cases h
        exact .inr (.inr (.inr (.inl ⟨buf, pos, _, rfl, rfl, rfl⟩)))
    | dropped | writeFailed =>
      cases h
      exact .inr ⟨rfl, .inl ⟨rfl, rfl, id⟩⟩
    | writeBlocked =>
      cases h
      exact .inr ⟨rfl, .inr (.inl ⟨rfl, rfl⟩)⟩
    | _ => cases h

theorem H1Conn.Fresh.drive (hc : c.Fresh)
    (h : c.drive security lib e = some (c', log)) : c'.Fresh := by
  obtain ⟨bytes, outcome, buf, -, hstate, -, hread⟩ | ⟨-, ⟨rfl, -⟩ | ⟨rfl, -⟩ |
    ⟨method, response, -, rfl, -⟩ | ⟨buf, pos, pos', -, rfl, -⟩ | ⟨buf, pos, -, hfinish⟩⟩ :=
    drive_cases h
  · obtain ⟨handled, heq⟩ | ⟨status, handled, log', heq⟩ | ⟨hnot, -⟩ :=
      onRead_cases security lib c (buf ++ bytes) outcome
    · cases heq.symm.trans hread
      intro _ _
      exact hc buf hstate
    · cases heq.symm.trans hread
      exact fresh_of_state (by simp)
    · rw [hread] at hnot
      exact fresh_of_state hnot
  · exact fresh_of_state (by simp)
  · exact hc
  · exact fresh_of_state (by simp)
  · exact fresh_of_state (by simp)
  · cases hfinish
    exact fresh_finish c

variable {events : List H1Event}

theorem run_cons (h : c.run security lib (e :: events) = some (c', log)) :
    ∃ mid first rest, c.drive security lib e = some (mid, first) ∧
      mid.run security lib events = some (c', rest) ∧ log = first ++ rest := by
  obtain ⟨⟨mid, first⟩, hstep, h⟩ := bind_eq_some_iff.mp h
  obtain ⟨⟨c'', rest⟩, hrest, h⟩ := map_eq_some_iff.mp h
  cases h
  exact ⟨mid, first, rest, hstep, hrest, rfl⟩

theorem H1Conn.Fresh.run
    (hc : c.Fresh) (h : c.run security lib events = some (c', log)) : c'.Fresh := by
  induction events generalizing c log with
  | nil =>
    cases h
    exact hc
  | cons e events ih =>
    obtain ⟨mid, first, rest, hstep, hrest, -⟩ := run_cons h
    exact ih (hc.drive hstep) hrest

theorem H1Conn.Doomed.drive (hc : c.Doomed)
    (h : c.drive security lib e = some (c', log)) : c'.Doomed ∧ Closing log := by
  have hnil : Closing [] := fun _ h => nomatch h
  have hwriting : ∀ {s : H1State}, c.state = s → s ≠ .done →
      (∃ buf pos, c.state = .writing buf pos) ∧ c.finishResponse.state = .done := by
    rintro s hs hne
    obtain hdone | hc := hc
    · exact absurd (hs.symm.trans hdone) hne
    · exact hc
  obtain ⟨bytes, outcome, buf, -, hstate, -, hread⟩ | ⟨-, ⟨rfl, rfl, -⟩ | ⟨rfl, rfl⟩ |
    ⟨method, response, hstate, -, -⟩ | ⟨buf, pos, pos', hstate, rfl, rfl⟩ |
    ⟨buf, pos, hstate, hfinish⟩⟩ := drive_cases h
  · obtain ⟨⟨_, _, hw⟩, -⟩ := hwriting hstate (by simp)
    rw [hstate] at hw
    cases hw
  · exact ⟨.inl rfl, hnil⟩
  · exact ⟨hc, hnil⟩
  · obtain ⟨⟨_, _, hw⟩, -⟩ := hwriting hstate (by simp)
    rw [hstate] at hw
    cases hw
  · exact ⟨.inr ⟨⟨buf, pos', rfl⟩, (hwriting hstate (by simp)).2⟩, hnil⟩
  · cases hfinish
    have hdone := (hwriting hstate (by simp)).2
    refine ⟨.inl hdone, ?_⟩
    intro e he
    rw [List.mem_singleton.mp he, hdone]
    rfl

theorem H1Conn.Doomed.run
    (hc : c.Doomed) (h : c.run security lib events = some (c', log)) : Closing log := by
  induction events generalizing c log with
  | nil =>
    cases h
    exact fun _ h => nomatch h
  | cons e events ih =>
    obtain ⟨mid, first, rest, hstep, hrest, rfl⟩ := run_cons h
    obtain ⟨hmid, hfirst⟩ := hc.drive hstep
    exact List.forall_mem_append.mpr ⟨hfirst, ih hmid hrest⟩

theorem refusal_length_pos (status : Nat) : 0 < (refusal status).length := by
  obtain ⟨t, ht⟩ : ∃ t, refusal status = 0x48 :: t := ⟨_, rfl⟩
  rw [ht]
  exact Nat.succ_pos _

theorem drive_read {c : H1Conn} {buf bytes : Bytes} (hc : c.state = .reading buf)
    (hbytes : bytes ≠ []) (outcome : RequestOutcome) : c.drive security lib (.read bytes outcome) =
      some (onRead security lib c (buf ++ bytes) outcome) := by
  obtain ⟨state, keepAlive, served, handled⟩ := c
  obtain rfl : state = .reading buf := hc
  exact if_neg hbytes

theorem drive_wrote {c : H1Conn} {buf : Bytes} (hc : c.state = .writing buf 0)
    (hpos : 0 < buf.length) : c.drive security lib (.wrote buf.length true) = some c.finish := by
  obtain ⟨state, keepAlive, served, handled⟩ := c
  obtain rfl : state = .writing buf 0 := hc
  change (if buf.length ≤ 0 then _ else some (onWrote _ buf 0 buf.length true)) = _
  rw [if_neg (by omega), onWrote, if_neg (by rintro (h | ⟨⟨⟩⟩); omega), if_pos (by omega)]
  rfl

theorem run_of_drive {c mid c' : H1Conn}
    {first rest : List H1Entry} (h : c.drive security lib e = some (mid, first))
    (hrest : mid.run security lib events = some (c', rest)) :
    c.run security lib (e :: events) = some (c', first ++ rest) := by
  rw [H1Conn.run, h]
  exact congrArg (Option.map fun r => (r.1, first ++ r.2)) hrest

theorem run_append {c mid c' : H1Conn} {events more : List H1Event} {log rest : List H1Entry}
    (h : c.run security lib events = some (mid, log))
    (hrest : mid.run security lib more = some (c', rest)) :
    c.run security lib (events ++ more) = some (c', log ++ rest) := by
  induction events generalizing c log with
  | nil =>
    cases h
    exact hrest
  | cons e events ih =>
    obtain ⟨next, first, log, hstep, htail, rfl⟩ := run_cons h
    rw [List.cons_append, List.append_assoc]
    exact run_of_drive hstep (ih htail)

theorem refused_cases {status taken : Nat}
    (h : c.drive security lib e = some (c', log)) (hrefused : .refused status taken ∈ log) :
    ∃ buf handled status', c.state = .reading buf ∧
      c' = { c with state := .writing (refusal status') 0, expectHandled := handled } := by
  obtain ⟨bytes, outcome, buf, -, hstate, -, hread⟩ | ⟨-, ⟨-, rfl, -⟩ | ⟨-, rfl⟩ |
    ⟨_, _, -, -, rfl⟩ | ⟨_, _, _, -, -, rfl⟩ | ⟨_, _, -, hfinish⟩⟩ := drive_cases h
  · obtain ⟨handled, heq⟩ | ⟨status', handled, log', heq⟩ | ⟨-, hnot⟩ :=
      onRead_cases security lib c (buf ++ bytes) outcome
    · cases heq.symm.trans hread
      simp at hrefused
    · cases heq.symm.trans hread
      exact ⟨buf, handled, status', hstate, rfl⟩
    · rw [hread] at hnot
      exact absurd hrefused (hnot status taken)
  · cases hrefused
  · cases hrefused
  · cases hrefused
  · cases hrefused
  · cases hfinish
    simp at hrefused

end

/-- **A refusal ends its connection** if and only if no request of the connection was answered
before, or so many that there can be no other. Whatever came before on the connection, and
whatever comes after the refusal, nothing is then read, and the connection is closed when the
refusal is out. -/
theorem refusal_closes_iff (security : List (Str × Str)) (lib : Httparse) {events : List H1Event}
    {c c' : H1Conn} {log entries : List H1Entry} {e : H1Event} {status taken : Nat}
    (hrun : H1Conn.new.run security lib events = some (c, log))
    (hdrive : c.drive security lib e = some (c', entries))
    (hrefused : .refused status taken ∈ entries) :
    (∀ more c'' log', c'.run security lib more = some (c'', log') → Closing log') ↔
      c.served = 0 ∨ maxRequestsPerConn ≤ c.served + 1 := by
  obtain ⟨buf, handled, status', hstate, rfl⟩ := refused_cases hdrive hrefused
  obtain ⟨hkeep, hserved⟩ := fresh_new.run hrun buf hstate
  obtain ⟨hkept, hless, hfinish⟩ | ⟨hnot, hdone⟩ := finishResponse_cases
    { c with state := .writing (refusal status') 0, expectHandled := handled }
  · -- the refusal is out, and the next request is read
    refine iff_of_false (fun h => ?_) ?_
    · have hquiet := h [_] _ _ (run_of_drive (drive_wrote rfl (refusal_length_pos status')) rfl)
      have hclosed := hquiet _ List.mem_cons_self
      rw [hfinish] at hclosed
      cases hclosed
    · have hne := hkeep.mp hkept
      change c.served + 1 < maxRequestsPerConn at hless
      omega
  · refine iff_of_true (fun more c'' log' h => H1Conn.Doomed.run (.inr ⟨⟨_, _, rfl⟩, hdone⟩) h) ?_
    by_contra hcond
    rw [not_or, Nat.not_le] at hcond
    exact hnot ⟨hkeep.mpr hcond.1, hcond.2⟩

/-- `GET /` on a host. -/
def getHead : Bytes := Utf8.encode "GET / HTTP/1.1\r\nHost: a\r\n\r\n".toList

def getLines : HeadLines :=
  ⟨some "GET".toList, some "/".toList, some 1, [("Host".toList, Utf8.encode "a".toList)]⟩

def getRequest : RawRequest :=
  ⟨"GET".toList, "/".toList, none, "HTTP/1.1".toList, [("Host".toList, "a".toList)], []⟩

def getHttparse : Httparse := .ofHead getHead getLines (Utf8.encode_ne_nil (by simp))

theorem first_refusal_closes : (∀ more c'' log',
      ({ H1Conn.new with state := .writing (refusal 400) 0 }).run [] getHttparse more =
        some (c'', log') → Closing log') ↔
      H1Conn.new.served = 0 ∨ maxRequestsPerConn ≤ H1Conn.new.served + 1 :=
  refusal_closes_iff [] getHttparse
    (show H1Conn.new.run [] getHttparse [] = some (H1Conn.new, []) from rfl)
    (show H1Conn.new.drive [] getHttparse (.read [0] .pending) =
      some (_, [.parsed, .refused 400 1]) from rfl)
    (List.mem_cons_of_mem _ List.mem_cons_self)

theorem refusal_keeps_connection : ∃ c c' c'' log log', H1Conn.new.run [] getHttparse
          [.read getHead (.ready 200 [] []),
            .wrote (buildResponse [] 200 [] [] "GET".toList true).length true] = some (c, log) ∧
        c.drive [] getHttparse (.read [0] .pending) = some (c', [.parsed, .refused 400 1]) ∧
        c'.run [] getHttparse
          [.wrote (refusal 400).length true, .read getHead (.ready 200 [] [])] = some (c'', log') ∧
        log' = [.finished false, .parsed, .dispatched getRequest getHead.length] ∧
          ¬ Closing log' := by
  refine ⟨_, _, _, _, _, rfl, rfl, rfl, rfl, ?_⟩
  intro h
  cases h _ List.mem_cons_self

end M6
