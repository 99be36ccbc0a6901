import M6.Core.Connection
import M6.Core.H1
import M6.Lib.Framing

/-!
# Reading the requests of a connection

`parse_request` of `parse.rs`, which reads a blocking stream until the parser of `h1.rs` has a
request, and the reading side of `serve_connection`: what arrives on a connection whose reads come
out in a given way, and which requests go to the handler. `Core/Connection` has the writing side.
-/

namespace M6

open H1

inductive StreamRead where
  | data (bytes : Bytes)
  | eof
  | timedOut
  | failed

inductive Incoming where
  /-- something arrived, out of so many bytes, and this is still to be read -/
  | arrived (a : Arrival) (taken : Nat) (rest : List StreamRead)
  /-- no read has come out yet -/
  | waiting
  /-- the process ends -/
  | aborts

def maxHeaderBytes : Nat := 8 * 1024

def maxBodyBytes : Nat := 16 * 1024 * 1024

/-- The most bytes that may wait to become a request. -/
def readCap (buf : Bytes) : Nat :=
  if (headEnd buf).isSome then maxHeaderBytes + maxBodyBytes else maxHeaderBytes

/-- What one pass through the loop finds before it reads. -/
inductive Pass where
  | done (a : Arrival)
  | aborts
  /-- it reads on: whether an expectation was dealt with, and whether the client was told to go
  on -/
  | read (answered continued : Bool)

variable (lib : Httparse)

def pass (buf : Bytes) (answered continued : Bool) : Pass :=
  match parseRequest lib buf with
  | .complete req => .done (.request continued req)
  | .error => .done (.refused continued .invalidHeader)
  | .aborts => .aborts
  | .incomplete =>
    if readCap buf < buf.length then .done (.refused continued .requestTooLarge)
    else if answered then .read true continued
    else
      match expectation buf with
      | none => .read false continued
      | some .absent => .read true continued
      | some .continues => .read true true
      | some .unsupported => .done (.refused continued .expectationFailed)

def readFrom : Bytes → Bool → Bool → List StreamRead → Incoming
  | _, _, _, [] => .waiting
  | buf, _, continued, .eof :: rest =>
    .arrived (if buf = [] then .closed else .refused continued .invalidRequestLine) buf.length rest
  | buf, _, continued, .timedOut :: rest =>
    .arrived (if buf = [] then .closed else .refused continued .requestTimeout) buf.length rest
  | buf, _, continued, .failed :: rest => .arrived (.refused continued .io) buf.length rest
  | buf, answered, continued, .data bytes :: rest =>
    match pass lib (buf ++ bytes) answered continued with
    | .done a => .arrived a (buf ++ bytes).length rest
    | .aborts => .aborts
    | .read answered continued => readFrom (buf ++ bytes) answered continued rest

/-- `parse_request` of `parse.rs`. -/
def readRequest (reads : List StreamRead) : Incoming :=
  match pass lib [] false false with
  | .done a => .arrived a 0 reads
  | .aborts => .aborts
  | .read answered continued => readFrom lib [] answered continued reads

def Incoming.arrivals (next : Nat → List StreamRead → List (Nat × Arrival)) (start : Nat) :
    Incoming → List (Nat × Arrival)
  | .arrived a taken rest => (start, a) :: next (start + taken) rest
  | .waiting => []
  | .aborts => []

/-- What arrives on a connection if it is read up to so many times. -/
def arrivals : Nat → Nat → List StreamRead → List (Nat × Arrival)
  | 0, _, _ => []
  | n + 1, start, reads => (readRequest lib reads).arrivals (arrivals n) start

/-- The requests that `serve_connection` hands to the handler. -/
def handled : Nat → List (Nat × Arrival) → List (Nat × RawRequest)
  | served, (start, .request _ raw) :: rest =>
    (start, raw) :: if keepsConnection served raw then handled (served + 1) rest else []
  | _, _ => []

/-- The requests of a stream that the handler gets. A connection reads no more than
`maxRequestsPerConn` of them. -/
def served (reads : List StreamRead) : List (Nat × RawRequest) :=
  handled 0 (arrivals lib maxRequestsPerConn 0 reads)

variable {lib}

/-! ## As a reader of messages -/

variable (lib) in
/-- The loop as a reader of messages, whose state is whether an expectation was dealt with, and how
many requests came before. -/
def backendRead (s : Bool × Nat) (buf : Bytes) : Framing.Verdict (Bool × Nat) RawRequest :=
  match pass lib buf s.1 false with
  | .done (.request _ raw) =>
    .message raw (if keepsConnection s.2 raw then some (false, s.2 + 1) else none)
  | .done _ => .refused none
  | .aborts => .refused none
  | .read answered _ => .more (answered, s.2)

theorem pass_nil : pass lib [] false false = .read false false := by
  rw [pass, parseRequest_nil]
  rfl

theorem handled_readFrom {n k : Nat}
    (hnext : ∀ (rest : List Bytes) (start : Nat), n + 1 < maxRequestsPerConn →
      handled (n + 1) (arrivals lib k start (rest.map .data)) =
        Framing.messages (backendRead lib) (some (false, n + 1)) start [] rest)
    (cuts : List Bytes) (start : Nat) (buf : Bytes) (answered continued : Bool) :
    handled n ((readFrom lib buf answered continued (cuts.map .data)).arrivals (arrivals lib k)
        start) = Framing.messages (backendRead lib) (some (answered, n)) start buf cuts := by
  induction cuts generalizing buf answered continued with
  | nil => rfl
  | cons chunk rest ih =>
    rw [List.map_cons, readFrom, Framing.messages, backendRead, pass, pass]
    cases parseRequest lib (buf ++ chunk) with
    | complete req =>
      simp only [Incoming.arrivals, handled]
      by_cases hkeep : keepsConnection n req = true
      · rw [if_pos hkeep, if_pos hkeep,
          hnext _ _ (by simpa using (Bool.and_eq_true_iff.mp hkeep).2)]
      · rw [if_neg hkeep, if_neg hkeep, Framing.messages_none]
    | error | aborts => exact (Framing.messages_none _ _ _).symm
    | incomplete =>
      dsimp only
      by_cases hcap : readCap (buf ++ chunk) < (buf ++ chunk).length
      · rw [if_pos hcap, if_pos hcap]
        exact (Framing.messages_none _ _ _).symm
      rw [if_neg hcap, if_neg hcap]
      cases answered with
      | true => exact ih _ _ _
      | false =>
        simp only [Bool.false_eq_true, if_false]
        cases expectation (buf ++ chunk) with
        | none => exact ih _ _ _
        | some e =>
          cases e with
          | absent | continues => exact ih _ _ _
          | unsupported => exact (Framing.messages_none _ _ _).symm

theorem handled_arrivals (cuts : List Bytes) {n k : Nat} (h : n + (k + 1) = maxRequestsPerConn)
    (start : Nat) : handled n (arrivals lib (k + 1) start (cuts.map .data)) =
      Framing.messages (backendRead lib) (some (false, n)) start [] cuts := by
  induction k generalizing n start cuts with
  | zero =>
    rw [arrivals, readRequest, pass_nil]
    exact handled_readFrom (fun _ _ hlt => by omega) _ _ _ _ _
  | succ k ih =>
    rw [arrivals, readRequest, pass_nil]
    exact handled_readFrom (fun rest start _ => ih rest (by omega) start) _ _ _ _ _

/-- **A backend reads its requests as a reader of messages.** -/
theorem served_eq_messages (cuts : List Bytes) : served lib (cuts.map .data) =
      Framing.messages (backendRead lib) (some (false, 0)) 0 [] cuts :=
  handled_arrivals cuts (by rfl) 0

end M6
