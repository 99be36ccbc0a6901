import M6.Edge.H1

/-!
# What a response says of its connection

`build_response` of `http11.rs` writes a `connection:` field from the status and a flag, and
`finish_response` closes the connection or not by the flag and the number of responses.
`announced_iff` says for which responses the two agree.
-/

namespace M6

open H1

/-! ## The field -/

/-- What the `connection:` field of a response says. -/
def connectionWord (status : Nat) (keepAlive : Bool) : String :=
  if keepAlive && statusMayHaveContentLength status then "keep-alive" else "close"

/-- What `build_response` writes before that field. -/
def responseFront (security : List (Str × Str)) (status : Nat) (headers : List (Str × Str))
    (body : Bytes) (method : Str) : Str :=
  let length := if Text.eqIgnoreAsciiCase method "HEAD".toList && body.isEmpty then
      (((header headers "content-length".toList).map Text.trim).bind parseUsize).getD 0
    else body.length
  "HTTP/1.1 ".toList ++ decimal status ++ " ".toList ++ edgeReason status ++ crlf ++
    headerLines headers ++ writeH1Headers security headers ++
    if statusMayHaveContentLength status then "content-length: ".toList ++ decimal length ++ crlf
    else []

def responseRest (body : Bytes) (method : Str) : Bytes :=
  if Text.eqIgnoreAsciiCase method "HEAD".toList then [] else body

theorem buildResponse_eq (security : List (Str × Str)) (status : Nat) (headers : List (Str × Str))
    (body : Bytes) (method : Str) (keepAlive : Bool) :
    buildResponse security status headers body method keepAlive =
      Utf8.encode (responseFront security status headers body method ++ "connection: ".toList ++
        (connectionWord status keepAlive).toList ++ crlf ++ crlf) ++ responseRest body method := by
  rfl

theorem buildResponse_ne_nil (security : List (Str × Str)) (status : Nat)
    (headers : List (Str × Str)) (body : Bytes) (method : Str) (keepAlive : Bool) :
    0 < (buildResponse security status headers body method keepAlive).length := by
  obtain ⟨t, ht⟩ : ∃ t, buildResponse security status headers body method keepAlive = 0x48 :: t :=
    ⟨_, rfl⟩
  rw [ht]
  exact Nat.succ_pos _

theorem connectionWord_eq (status : Nat) (keepAlive : Bool) :
    (connectionWord status keepAlive = "keep-alive" ↔
        keepAlive = true ∧ statusMayHaveContentLength status = true) ∧
      (connectionWord status keepAlive = "close" ↔
        ¬ (keepAlive = true ∧ statusMayHaveContentLength status = true)) := by
  rw [connectionWord, ← Bool.and_eq_true]
  cases keepAlive && statusMayHaveContentLength status <;> decide

/-! ## The connection -/

/-- A pass begins to write the answer of a handler, of this status: to a request it has read, or to
one that waited. The flag is whether that request leaves the connection open. -/
inductive Responds (c : H1Conn) : H1Event → List H1Entry → Nat → Bool → Prop where
  | ready {bytes : Bytes} {status : Nat} {headers : List (Str × Str)} {body : Bytes}
      {req : RawRequest} {taken : Nat} {log : List H1Entry} (h : .dispatched req taken ∈ log) :
      Responds c (.read bytes (.ready status headers body)) log status
        (keepsConnection c.served req)
  | pending {method : Str} {status : Nat} {headers : List (Str × Str)} {body : Bytes}
      {log : List H1Entry} (h : c.state = .waitingBackend method) :
      Responds c (.backend status headers body true) log status c.keepAlive

def H1Conn.Counted (c : H1Conn) : Prop :=
  ∀ method, c.state = .waitingBackend method → c.keepAlive = true →
    c.served + 1 < maxRequestsPerConn

section

variable {security : List (Str × Str)} {lib : Httparse}

theorem lt_of_keepsConnection {served : Nat} {req : RawRequest}
    (h : keepsConnection served req = true) : served + 1 < maxRequestsPerConn :=
  of_decide_eq_true (Bool.and_eq_true_iff.mp h).2

variable (security lib) in
theorem counted_onRead (c : H1Conn) (buf : Bytes) (outcome : RequestOutcome) :
    (onRead security lib c buf outcome).1.Counted := by
  intro method hstate hkeep
  rw [onRead] at hstate hkeep ⊢
  by_cases hlarge : maxRequestBytes < buf.length
  · simp [if_pos hlarge, H1Conn.refuse] at hstate
  rw [if_neg hlarge] at hstate hkeep ⊢
  cases hparse : parseRequest lib buf with
  | incomplete =>
    simp only [hparse, onIncomplete] at hstate
    split_ifs at hstate
    cases hexpect : expectation buf with
    | none => simp [hexpect] at hstate
    | some e => cases e <;> simp [hexpect, H1Conn.refuse] at hstate
  | error => simp [hparse, H1Conn.refuse] at hstate
  | aborts => simp [hparse] at hstate
  | complete req =>
    simp only [hparse] at hstate hkeep ⊢
    cases outcome with
    | ready status headers body => cases hstate
    | pending => exact lt_of_keepsConnection hkeep

theorem counted_of_state {c : H1Conn} (h : ∀ method, c.state ≠ .waitingBackend method) :
    c.Counted :=
  fun method hstate => absurd hstate (h method)

variable {c c' : H1Conn} {log : List H1Entry}

theorem H1Conn.Counted.drive {e : H1Event} (hc : c.Counted)
    (h : c.drive security lib e = some (c', log)) : c'.Counted := by
  obtain ⟨bytes, outcome, buf, -, -, -, hread⟩ | ⟨-, ⟨rfl, -⟩ | ⟨rfl, -⟩ |
    ⟨method, response, -, rfl, -⟩ | ⟨buf, pos, pos', -, rfl, -⟩ | ⟨buf, pos, -, hfinish⟩⟩ :=
    drive_cases h
  · have hcounted := counted_onRead security lib c (buf ++ bytes) outcome
    rwa [hread] at hcounted
  · exact counted_of_state (by simp)
  · exact hc
  · exact counted_of_state (by simp)
  · exact counted_of_state (by simp)
  · cases hfinish
    obtain ⟨-, -, heq⟩ | ⟨-, hdone⟩ := finishResponse_cases c
    · exact counted_of_state (by simp [heq])
    · exact counted_of_state (by simp [hdone])

variable {events : List H1Event}

theorem H1Conn.Counted.run
    (hc : c.Counted) (h : c.run security lib events = some (c', log)) : c'.Counted := by
  induction events generalizing c log with
  | nil =>
    cases h
    exact hc
  | cons e events ih =>
    obtain ⟨mid, first, rest, hstep, hrest, -⟩ := run_cons h
    exact ih (hc.drive hstep) hrest

theorem counted_new : H1Conn.new.Counted := counted_of_state (by simp [H1Conn.new])

theorem run_of_done
    (hstate : c.state = .done) (h : c.run security lib events = some (c', log)) : log = [] := by
  cases events with
  | nil => exact (Prod.mk.inj (Option.some.inj h)).2.symm
  | cons e events =>
    obtain ⟨mid, first, rest, hstep, -, -⟩ := run_cons h
    obtain ⟨state, keepAlive, served, handled⟩ := c
    obtain rfl : state = .done := hstate
    exact nomatch hstep

theorem finishResponse_state (c : H1Conn) (s : H1State) :
    ({ c with state := s }).finishResponse.state = c.finishResponse.state := by
  rw [H1Conn.finishResponse, H1Conn.finishResponse]

theorem first_finished {entry : H1Entry}
    {rest : List H1Entry} {buf : Bytes} {pos : Nat} (hstate : c.state = .writing buf pos)
    (h : c.run security lib events = some (c', entry :: rest)) :
    entry = .finished (decide (c.finishResponse.state = .done)) := by
  induction events generalizing c pos with
  | nil => exact nomatch (Prod.mk.inj (Option.some.inj h)).2
  | cons e events ih =>
    obtain ⟨mid, first, log, hstep, hrest, hlog⟩ := run_cons h
    obtain ⟨_, _, _, -, hreading, -⟩ | ⟨-, ⟨rfl, rfl, -⟩ | ⟨rfl, rfl⟩ | ⟨_, _, hwaiting, -⟩ |
      ⟨buf', pos', pos'', hwriting, rfl, rfl⟩ | ⟨_, _, -, hfinish⟩⟩ := drive_cases hstep
    · exact nomatch hstate.symm.trans hreading
    · rw [run_of_done rfl hrest] at hlog
      exact nomatch hlog
    · rw [List.nil_append] at hlog
      exact ih hstate (hlog ▸ hrest)
    · exact nomatch hstate.symm.trans hwaiting
    · rw [List.nil_append] at hlog
      obtain ⟨rfl, rfl⟩ := H1State.writing.inj (hstate.symm.trans hwriting)
      rw [← finishResponse_state c (.writing buf pos'')]
      exact ih rfl (hlog ▸ hrest)
    · cases hfinish
      exact (List.cons.inj hlog).1

theorem onRead_dispatched {c : H1Conn} {buf : Bytes} {status : Nat} {headers : List (Str × Str)}
    {body : Bytes} {req : RawRequest} {taken : Nat}
    (h : .dispatched req taken ∈ (onRead security lib c buf (.ready status headers body)).2) :
    (onRead security lib c buf (.ready status headers body)).1 = { c with
      state := .writing (buildResponse security status headers body req.method
        (keepsConnection c.served req)) 0
      keepAlive := keepsConnection c.served req } := by
  rw [onRead] at h ⊢
  by_cases hlarge : maxRequestBytes < buf.length
  · simp [if_pos hlarge] at h
  rw [if_neg hlarge] at h ⊢
  cases hparse : parseRequest lib buf with
  | incomplete =>
    simp only [hparse, onIncomplete] at h
    split_ifs at h
    · simp at h
    cases hexpect : expectation buf with
    | none => simp [hexpect] at h
    | some e => cases e <;> simp [hexpect] at h
  | error | aborts => simp [hparse] at h
  | complete req' =>
    have hreq : req = stripUntrustedInbound req' := by
      simpa [hparse, onComplete] using And.left (by simpa [hparse, onComplete] using h)
    rw [hreq]
    rfl

theorem state_of_responds {e : H1Event} {entries : List H1Entry} {status : Nat}
    {kept : Bool} (hc : c.Counted) (hdrive : c.drive security lib e = some (c', entries))
    (h : Responds c e entries status kept) : (∃ headers body method,
      c'.state = .writing (buildResponse security status headers body method kept) 0) ∧
      c'.keepAlive = kept ∧ (kept = true → c'.served + 1 < maxRequestsPerConn) := by
  cases h with
  | @ready bytes _ headers body req taken _ hmem =>
    obtain ⟨_, _, buf, he, -, -, hread⟩ | ⟨hbytes, -⟩ := drive_cases hdrive
    · obtain ⟨rfl, rfl⟩ := H1Event.read.inj he
      have hlog : (onRead security lib c (buf ++ bytes) (.ready status headers body)).2 = entries :=
        congrArg Prod.snd hread
      rw [← hlog] at hmem
      obtain rfl := (onRead_dispatched hmem).symm.trans (congrArg Prod.fst hread)
      exact ⟨⟨headers, body, req.method, rfl⟩, rfl, lt_of_keepsConnection⟩
    · exact nomatch hbytes
  | @pending method _ headers body _ hstate =>
    obtain ⟨state, keepAlive, served, handled⟩ := c
    obtain rfl : state = .waitingBackend method := hstate
    cases hdrive
    exact ⟨⟨headers, body, method, rfl⟩, rfl, hc method rfl⟩

end

/-- **A response says what becomes of its connection** if and only if its request does not leave the
connection open, or its status is one that may have a `Content-Length`. Otherwise the response says
that the connection closes, and the connection goes on. -/
theorem announced_iff (security : List (Str × Str)) (lib : Httparse) {events : List H1Event}
    {c c' : H1Conn} {log entries : List H1Entry} {e : H1Event} {status : Nat} {kept : Bool}
    (hrun : H1Conn.new.run security lib events = some (c, log))
    (hdrive : c.drive security lib e = some (c', entries))
    (hresponds : Responds c e entries status kept) : (∃ headers body method,
      c'.state = .writing (buildResponse security status headers body method kept) 0) ∧
    ((∀ more c'' closed rest, c'.run security lib more = some (c'', .finished closed :: rest) →
        (connectionWord status kept = "keep-alive" ↔ closed = false) ∧
          (connectionWord status kept = "close" ↔ closed = true)) ↔
      (kept = true → statusMayHaveContentLength status = true)) := by
  obtain ⟨⟨headers, body, method, hstate⟩, hkept, hserved⟩ :=
    state_of_responds (counted_new.run hrun) hdrive hresponds
  refine ⟨⟨headers, body, method, hstate⟩, ?_⟩
  have hcloses : (decide (c'.finishResponse.state = .done)) = !kept := by
    obtain ⟨hopen, -, heq⟩ | ⟨hnot, hdone⟩ := finishResponse_cases c'
    · rw [heq, ← hkept, hopen]
      rfl
    · have hclosed : kept = false := by
        refine Bool.eq_false_iff.mpr fun hopen => hnot ⟨?_, hserved hopen⟩
        rw [hkept, hopen]
      rw [hdone, hclosed]
      rfl
  obtain ⟨hkeeps, hclose⟩ := connectionWord_eq status kept
  constructor
  · intro h hopen
    have hout := run_of_drive (drive_wrote hstate (buildResponse_ne_nil ..))
      (show H1Conn.run security lib c'.finishResponse [] = some (c'.finishResponse, []) from rfl)
    have hsaid := (h _ _ _ _ hout).1
    rw [hcloses, hopen] at hsaid
    exact ((connectionWord_eq status true).1.mp (hopen ▸ hsaid.mpr rfl)).2
  · intro hframed more c'' closed rest hmore
    obtain rfl := H1Entry.finished.inj (first_finished hstate hmore)
    rw [hcloses, hkeeps, hclose]
    cases kept with
    | false => simp
    | true => simp [hframed rfl]

/-- A page for `GET /`. -/
theorem page_announced :
    (∃ headers body method, (H1State.writing (buildResponse [] 200 [] [] "GET".toList true) 0) =
        .writing (buildResponse [] 200 headers body method true) 0) ∧ ((∀ more c'' closed rest,
        (H1Conn.mk (.writing (buildResponse [] 200 [] [] "GET".toList true) 0) true 0 false).run []
          getHttparse more = some (c'', .finished closed :: rest) →
        (connectionWord 200 true = "keep-alive" ↔ closed = false) ∧
          (connectionWord 200 true = "close" ↔ closed = true)) ↔
      (true = true → statusMayHaveContentLength 200 = true)) :=
  announced_iff [] getHttparse
    (show H1Conn.new.run [] getHttparse [] = some (H1Conn.new, []) from rfl)
    (show H1Conn.new.drive [] getHttparse (.read getHead (.ready 200 [] [])) =
      some (_, [.parsed, .dispatched getRequest getHead.length]) from rfl)
    (.ready (List.mem_cons_of_mem _ List.mem_cons_self))

/-- A `304` for `GET /` says that the connection closes; the next request is read all the same. -/
theorem not_modified_keeps_connection : ∃ c c' log log',
      H1Conn.new.drive [] getHttparse (.read getHead (.ready 304 [] [])) = some (c, log) ∧
        Responds H1Conn.new (.read getHead (.ready 304 [] [])) log 304 true ∧
        connectionWord 304 true = "close" ∧
        c.run [] getHttparse [.wrote (buildResponse [] 304 [] [] "GET".toList true).length true,
          .read getHead (.ready 200 [] [])] = some (c', log') ∧
        log' = [.finished false, .parsed, .dispatched getRequest getHead.length] := by
  refine ⟨_, _, _, _, rfl, ?_, rfl, rfl, rfl⟩
  exact .ready (show H1Entry.dispatched getRequest getHead.length ∈ _ from
    List.mem_cons_of_mem _ List.mem_cons_self)

end M6
