import M6.Core.Parse
import M6.Edge.H1

/-!
# Requests on one connection

What becomes of a list of requests that a client writes one behind the other, however its bytes are
cut into reads. Both the edge and a backend start each request with an empty buffer, so what was
read behind a request is lost with the buffer of that request (`Framing.messages`).

`pipelining_iff` says for which cuts every request is dispatched, from its own bytes: those where
every request begins with a read.
-/

namespace M6

open List H1 Framing Text

/-! ## What a client writes -/

/-- A request that asks for the connection to be kept, with all of its bytes and no others. -/
structure WellFormed (lib : Httparse) (m : Bytes × RawRequest) : Prop where
  complete : parseRequest lib m.1 = .complete m.2
  whole : ∀ p, p <+: m.1 → p ≠ m.1 → parseRequest lib p = .incomplete
  stays : keepAlive m.2 = true

/-- After every read but the last, what has come is as required. -/
def Calm (Ok : Bytes → Prop) (group : List Bytes) : Prop :=
  ∀ k < group.length, 0 < k → Ok (group.take k).flatten

def BackendReads (group : List Bytes) : Prop :=
  Calm (fun p => p.length ≤ readCap p ∧ expectation p ≠ some .unsupported) group

def EdgeReads (group : List Bytes) : Prop :=
  group.flatten.length ≤ maxRequestBytes ∧ Calm (fun p => expectation p ≠ some .unsupported) group

variable {lib : Httparse}

variable {m : Bytes × RawRequest}

theorem WellFormed.ne_nil (h : WellFormed lib m) : m.1 ≠ [] := by
  intro hnil
  have := h.complete
  rw [hnil, parseRequest_nil] at this
  cases this

/-- What is known of the flag in the middle of a request: an expectation is dealt with as soon as
it can be seen, unless it ended the request. -/
def Handled (handled : Bool) (p : Bytes) : Prop :=
  handled = (expectation p).isSome ∧ expectation p ≠ some .unsupported

theorem handled_nil : Handled false [] := ⟨rfl, by rw [expectation_nil]; simp⟩

theorem Handled.append {p : Bytes} (h : Handled true p) (q : Bytes) : Handled true (p ++ q) := by
  obtain ⟨e, he⟩ := Option.isSome_iff_exists.mp h.1.symm
  have hq := expectation_append he q
  exact ⟨by rw [hq]; rfl, by rw [hq, ← he]; exact h.2⟩

/-! ## A backend -/

def backendFresh (i : Nat) : Bool × Nat := (false, i)

variable {buf : Bytes}

theorem backendRead_large {s : Bool × Nat} (h : parseRequest lib buf = .incomplete)
    (hcap : readCap buf < buf.length) : backendRead lib s buf = .refused none := by
  rw [backendRead, pass, h]
  dsimp only
  rw [if_pos hcap]

theorem backendRead_handled {n : Nat} (h : parseRequest lib buf = .incomplete)
    (hcap : buf.length ≤ readCap buf) : backendRead lib (true, n) buf = .more (true, n) := by
  rw [backendRead, pass, h]
  dsimp only
  rw [if_neg hcap.not_gt, if_pos rfl]

theorem backendRead_unhandled {n : Nat} (h : parseRequest lib buf = .incomplete)
    (hcap : buf.length ≤ readCap buf) : backendRead lib (false, n) buf =
      if expectation buf = some .unsupported then .refused none
      else .more ((expectation buf).isSome, n) := by
  rw [backendRead, pass, h]
  dsimp only
  rw [if_neg hcap.not_gt, if_neg Bool.false_ne_true]
  cases expectation buf with
  | none => rfl
  | some e => cases e <;> rfl

theorem backend_reads_iff (hm : WellFormed lib m) {i : Nat}
    {group : List Bytes} {next : Option (Bool × Nat)} (hi : i + 1 < maxRequestsPerConn)
    (hw : group.flatten = m.1) (hne : ∀ c ∈ group, c ≠ []) :
    Reads (backendRead lib) (backendFresh i) [] group m.2 next ↔
      BackendReads group ∧ next = some (backendFresh (i + 1)) := by
  have hkeep : keepsConnection i m.2 = true := by
    rw [keepsConnection, hm.stays, Bool.true_and, decide_eq_true hi]
  have hgroup : group ≠ [] := by
    rintro rfl
    exact hm.ne_nil hw.symm
  rw [reads_iff True (fun p => p.length ≤ readCap p ∧ expectation p ≠ some .unsupported)
    (fun s p => s.2 = i ∧ Handled s.1 p) (w := m.1) (some (backendFresh (i + 1))) ?_ ?_ ?_ ?_
    ⟨rfl, handled_nil⟩ hw hne hgroup, true_and]
  · exact Iff.rfl
  · rintro ⟨handled, n⟩ p q ⟨rfl, hinv⟩ hprefix hproper ⟨hcap, hexp⟩
    have hparse := hm.whole _ hprefix hproper
    cases handled with
    | true => exact ⟨_, backendRead_handled hparse hcap, rfl, hinv.append q⟩
    | false =>
      refine ⟨_, (backendRead_unhandled hparse hcap).trans (if_neg hexp), rfl, rfl, hexp⟩
  · rintro ⟨handled, n⟩ p q ⟨rfl, hinv⟩ hprefix hproper hbad
    have hparse := hm.whole _ hprefix hproper
    by_cases hcap : (p ++ q).length ≤ readCap (p ++ q)
    · have hexp : expectation (p ++ q) = some .unsupported := by
        by_contra hexp
        exact hbad ⟨hcap, hexp⟩
      cases handled with
      | true => exact absurd hexp (hinv.append q).2
      | false => exact ⟨none, (backendRead_unhandled hparse hcap).trans (if_pos hexp)⟩
    · exact ⟨none, backendRead_large hparse (Nat.not_le.mp hcap)⟩
  · rintro ⟨handled, n⟩ p q ⟨rfl, hinv⟩ hpq -
    rw [backendRead, pass, hm.complete]
    dsimp only
    rw [if_pos hkeep]
    rfl
  · exact fun _ _ h => absurd trivial h

theorem backend_free (hm : WellFormed lib m) {p : Bytes} {s : Bool × Nat}
    {req : RawRequest} {next : Option (Bool × Nat)} (hp : p <+: m.1)
    (h : backendRead lib s p = .message req next) : p = m.1 := by
  by_contra hne
  have hparse := hm.whole p hp hne
  by_cases hcap : p.length ≤ readCap p
  · obtain ⟨handled, n⟩ := s
    cases handled with
    | true =>
      rw [backendRead_handled hparse hcap] at h
      cases h
    | false =>
      rw [backendRead_unhandled hparse hcap] at h
      split_ifs at h
  · rw [backendRead_large hparse (Nat.not_le.mp hcap)] at h
    cases h

variable {cuts : List Bytes}

/-- **A backend gets the requests of a client**, each from its own bytes, if and only if every
request has reads of its own. -/
theorem backend_iff {msgs : List (Bytes × RawRequest)} (hmsgs : ∀ m ∈ msgs, WellFormed lib m)
    (hlen : msgs.length < maxRequestsPerConn) (hne : ∀ c ∈ cuts, c ≠ [])
    (hall : cuts.flatten = (msgs.map Prod.fst).flatten) :
    served lib (cuts.map .data) = numbered 0 msgs ↔ Split BackendReads msgs cuts := by
  rw [served_eq_messages, messages_eq_iff
    (fun m hm p s req next hp h => backend_free (hmsgs m hm) hp h) hne hall]
  exact served_iff backendFresh _ _ 0
    (fun m hm i group next hi hw hne => backend_reads_iff (hmsgs m hm) hi hw hne) (by omega) hne

/-! ## The edge as a reader -/

def resume (c : H1Conn) : Option H1Conn :=
  if c.keepAlive ∧ c.served + 1 < maxRequestsPerConn then
    some ⟨.reading [], true, c.served + 1, false⟩
  else none

def edgeFresh (i : Nat) : H1Conn := ⟨.reading [], decide (i ≠ 0), i, false⟩

variable (lib) in
/-- What the edge makes of a buffer, if every request is answered and every response goes out. Its
state here is all of a connection but the buffer. -/
def edgeRead (c : H1Conn) (buf : Bytes) : Verdict H1Conn RawRequest :=
  if maxRequestBytes < buf.length then .refused (resume c)
  else
    match parseRequest lib buf with
    | .incomplete =>
      if c.expectHandled then .more c
      else if expectation buf = some .unsupported then .refused (resume c)
      else .more { c with expectHandled := (expectation buf).isSome }
    | .error => .refused (resume c)
    | .aborts => .refused none
    | .complete req =>
      .message (stripUntrustedInbound req)
        (resume { c with keepAlive := keepsConnection c.served (stripUntrustedInbound req) })

theorem keepAlive_strip (req : RawRequest) :
    keepAlive (stripUntrustedInbound req) = keepAlive req := by
  have hfilter : ((req.headers.filter fun h => !isUntrustedInbound h.1).filter
      fun h => eqIgnoreAsciiCase h.1 "connection".toList) =
      req.headers.filter fun h => eqIgnoreAsciiCase h.1 "connection".toList := by
    rw [filter_filter]
    refine filter_congr fun h _ => ?_
    by_cases hname : eqIgnoreAsciiCase h.1 "connection".toList = true
    · -- the name is none of those that are stripped
      have hlower : toAsciiLowercase h.1 = toAsciiLowercase "connection".toList :=
        beq_iff_eq.mp hname
      have hkeep : isUntrustedInbound h.1 = isUntrustedInbound "connection".toList := by
        simp only [isUntrustedInbound, eqIgnoreAsciiCase, hlower]
      rw [hname, hkeep]
      decide
    · rw [Bool.not_eq_true] at hname
      rw [hname, Bool.false_and]
  rw [keepAlive, keepAlive, stripUntrustedInbound]
  simp only [hfilter]

theorem edgeRead_incomplete {c : H1Conn} (h : parseRequest lib buf = .incomplete)
    (hcap : buf.length ≤ maxRequestBytes) : edgeRead lib c buf =
      if c.expectHandled then .more c
      else if expectation buf = some .unsupported then .refused (resume c)
      else .more { c with expectHandled := (expectation buf).isSome } := by
  rw [edgeRead, if_neg hcap.not_gt, h]

theorem edge_reads_iff (hm : WellFormed lib m) {i : Nat}
    {group : List Bytes} {next : Option H1Conn} (hi : i + 1 < maxRequestsPerConn)
    (hw : group.flatten = m.1) (hne : ∀ c ∈ group, c ≠ []) :
    Reads (edgeRead lib) (edgeFresh i) [] group (stripUntrustedInbound m.2) next ↔
      EdgeReads group ∧ next = some (edgeFresh (i + 1)) := by
  have hkeep : keepsConnection i (stripUntrustedInbound m.2) = true := by
    rw [keepsConnection, keepAlive_strip, hm.stays, Bool.true_and, decide_eq_true hi]
  have hgroup : group ≠ [] := by
    rintro rfl
    exact hm.ne_nil hw.symm
  have hpart : ∀ k, (group.take k).flatten.length ≤ m.1.length := by
    intro k
    rw [← hw]
    conv_rhs => rw [← take_append_drop k group, flatten_append, length_append]
    omega
  rw [reads_iff (m.1.length ≤ maxRequestBytes)
    (fun p => p.length ≤ maxRequestBytes ∧ expectation p ≠ some .unsupported)
    (fun c p => c.served = i ∧ Handled c.expectHandled p) (w := m.1) (some (edgeFresh (i + 1)))
    ?_ ?_ ?_ ?_ ⟨rfl, handled_nil⟩ hw hne hgroup]
  · refine and_congr_left' ?_
    rw [EdgeReads, hw]
    exact and_congr_right fun hlen =>
      ⟨fun h k hk hpos => (h k hk hpos).2, fun h k hk hpos => ⟨(hpart k).trans hlen, h k hk hpos⟩⟩
  · rintro ⟨state, keep, n, handled⟩ p q ⟨rfl, hinv⟩ hprefix hproper ⟨hcap, hexp⟩
    have hread := edgeRead_incomplete (c := ⟨state, keep, n, handled⟩)
      (hm.whole _ hprefix hproper) hcap
    cases handled with
    | true => exact ⟨_, hread.trans (if_pos rfl), rfl, hinv.append q⟩
    | false =>
      exact ⟨_, hread.trans ((if_neg Bool.false_ne_true).trans (if_neg hexp)), rfl, rfl, hexp⟩
  · rintro ⟨state, keep, n, handled⟩ p q ⟨rfl, hinv⟩ hprefix hproper hbad
    by_cases hcap : (p ++ q).length ≤ maxRequestBytes
    · have hread := edgeRead_incomplete (c := ⟨state, keep, n, handled⟩)
        (hm.whole _ hprefix hproper) hcap
      have hexp : expectation (p ++ q) = some .unsupported := by
        by_contra hexp
        exact hbad ⟨hcap, hexp⟩
      cases handled with
      | true => exact absurd hexp (hinv.append q).2
      | false => exact ⟨_, hread.trans ((if_neg Bool.false_ne_true).trans (if_pos hexp))⟩
    · exact ⟨_, if_pos (Nat.not_le.mp hcap)⟩
  · rintro ⟨state, keep, n, handled⟩ p q ⟨rfl, hinv⟩ hpq hlen
    rw [edgeRead, if_neg hlen.not_gt, hm.complete]
    dsimp only
    rw [hkeep, resume, if_pos ⟨rfl, hi⟩, edgeFresh, decide_eq_true (Nat.succ_ne_zero n)]
  · exact fun _ _ hlen => ⟨_, if_pos (Nat.not_le.mp hlen)⟩

theorem edge_free (hm : WellFormed lib m) {p : Bytes} {c : H1Conn}
    {req : RawRequest} {next : Option H1Conn} (hp : p <+: m.1)
    (h : edgeRead lib c p = .message req next) : p = m.1 := by
  by_contra hne
  rw [edgeRead, hm.whole p hp hne] at h
  dsimp only at h
  split_ifs at h

/-! ## The edge as it runs -/

def reads (events : List H1Event) : List Bytes := events.filterMap H1Event.bytes?

/-- The requests that were dispatched, each with the place in the stream where the bytes it was
read from begin. A buffer ends with what is made of it. -/
def dispatched : Nat → List H1Entry → List (Nat × RawRequest)
  | _, [] => []
  | start, .dispatched req taken :: log => (start, req) :: dispatched (start + taken) log
  | start, .refused _ taken :: log => dispatched (start + taken) log
  | start, _ :: log => dispatched start log

def pending (c : H1Conn) : Option H1Conn × Bytes :=
  match c.state with
  | .reading buf => (some { c with state := .reading [] }, buf)
  | .writing _ _ => (resume c, [])
  | _ => (none, [])

variable {security : List (Str × Str)}

theorem pending_finishResponse (c : H1Conn) : pending c.finishResponse = (resume c, []) := by
  obtain ⟨hkeep, hless, heq⟩ | ⟨hnot, hdone⟩ := finishResponse_cases c
  · rw [heq, resume, if_pos ⟨hkeep, hless⟩]
    rfl
  · have hnone : resume c = none := if_neg hnot
    rw [hnone, pending, hdone]

theorem buildResponse_length_pos (status : Nat) (headers : List (Str × Str)) (body : Bytes)
    (method : Str) (keep : Bool) :
    0 < (buildResponse security status headers body method keep).length := by
  obtain ⟨t, ht⟩ : ∃ t, buildResponse security status headers body method keep = 0x48 :: t :=
    ⟨_, rfl⟩
  rw [ht]
  exact Nat.succ_pos _

variable (lib security) in
theorem onRead_ready (c : H1Conn) (buf : Bytes) (status : Nat) (headers : List (Str × Str))
    (body : Bytes) :
    (∃ handled, edgeRead lib { c with state := .reading [] } buf =
          .more { c with state := .reading [], expectHandled := handled } ∧
        onRead security lib c buf (.ready status headers body) =
          ({ c with state := .reading buf, expectHandled := handled }, [.parsed])) ∨
      (∃ req c' out, edgeRead lib { c with state := .reading [] } buf = .message req (resume c') ∧
        onRead security lib c buf (.ready status headers body) =
          ({ c' with state := .writing out 0 }, [.parsed, .dispatched req buf.length]) ∧
        0 < out.length) ∨
      (∃ c' out log, edgeRead lib { c with state := .reading [] } buf = .refused (resume c') ∧
        onRead security lib c buf (.ready status headers body) =
          ({ c' with state := .writing out 0 }, log) ∧
        0 < out.length ∧ (∀ start tail, dispatched start (log ++ tail) =
          dispatched (start + buf.length) tail)) ∨
      (edgeRead lib { c with state := .reading [] } buf = .refused none ∧
        onRead security lib c buf (.ready status headers body) =
          ({ c with state := .done }, [.parsed, .aborted])) := by
  rw [onRead, edgeRead]
  by_cases hlarge : maxRequestBytes < buf.length
  · rw [if_pos hlarge, if_pos hlarge]
    exact .inr (.inr (.inl ⟨c, _, _, rfl, rfl, refusal_length_pos 413, fun _ _ => rfl⟩))
  rw [if_neg hlarge, if_neg hlarge]
  cases parseRequest lib buf with
  | incomplete =>
    obtain ⟨state, keep, served, handled⟩ := c
    dsimp only
    rw [onIncomplete]
    dsimp only
    cases handled with
    | true => exact .inl ⟨true, rfl, rfl⟩
    | false =>
      rw [if_neg Bool.false_ne_true, if_neg Bool.false_ne_true]
      cases expectation buf with
      | none => exact .inl ⟨false, rfl, rfl⟩
      | some e =>
        cases e with
        | absent | continues => exact .inl ⟨true, rfl, rfl⟩
        | unsupported =>
          exact .inr (.inr (.inl ⟨⟨state, keep, served, true⟩, _, _, rfl, rfl,
            refusal_length_pos 417, fun _ _ => rfl⟩))
  | error =>
    exact .inr (.inr (.inl ⟨c, _, _, rfl, rfl, refusal_length_pos 400, fun _ _ => rfl⟩))
  | aborts => exact .inr (.inr (.inr ⟨rfl, rfl⟩))
  | complete req =>
    exact .inr (.inl ⟨_, _, _, rfl, rfl, buildResponse_length_pos ..⟩)

variable {log : List H1Entry} {c c' : H1Conn}

theorem pending_of_unread {e : H1Event} (hsteady : e.Steady)
    (hwait : ∀ method, c.state ≠ .waitingBackend method) (hread : e.bytes? = none)
    (h : c.drive security lib e = some (c', log)) :
    pending c' = pending c ∧ (∀ method, c'.state ≠ .waitingBackend method) ∧
      ∀ start tail, dispatched start (log ++ tail) = dispatched start tail := by
  obtain ⟨bytes, outcome, buf, rfl, -, -, -⟩ | ⟨-, ⟨-, -, hfault⟩ | ⟨rfl, rfl⟩ |
    ⟨method, response, hstate, -, -⟩ | ⟨buf, pos, pos', hstate, rfl, rfl⟩ |
    ⟨buf, pos, hstate, hfinish⟩⟩ := drive_cases h
  · cases hread
  · exact absurd hsteady hfault
  · exact ⟨rfl, hwait, fun _ _ => rfl⟩
  · exact absurd hstate (hwait method)
  · refine ⟨?_, by simp, fun _ _ => rfl⟩
    rw [pending, pending, hstate]
    rfl
  · cases hfinish
    refine ⟨?_, ?_, fun _ _ => rfl⟩
    · rw [pending_finishResponse, pending, hstate]
    · obtain ⟨-, -, heq⟩ | ⟨-, hdone⟩ := finishResponse_cases c
      · rw [heq]
        simp
      · rw [hdone]
        simp

variable {events : List H1Event}

theorem messages_run
    (hsteady : ∀ e ∈ events, e.Steady) (hwait : ∀ method, c.state ≠ .waitingBackend method)
    (h : c.run security lib events = some (c', log)) (start : Nat) (more : List Bytes) :
    ∃ stop, messages (edgeRead lib) (pending c).1 start (pending c).2 (reads events ++ more) =
      dispatched start log ++ messages (edgeRead lib) (pending c').1 stop (pending c').2 more := by
  induction events generalizing c start log with
  | nil =>
    obtain ⟨rfl, rfl⟩ := Prod.mk.inj (Option.some.inj h)
    exact ⟨start, rfl⟩
  | cons e events ih =>
    obtain ⟨mid, first, rest, hstep, hrest, rfl⟩ := run_cons h
    obtain ⟨hfirst, hlater⟩ := forall_mem_cons.mp hsteady
    cases hread : e.bytes? with
    | none =>
      obtain ⟨hpending, hmid, hdispatched⟩ := pending_of_unread hfirst hwait hread hstep
      obtain ⟨stop, hstop⟩ := ih hlater hmid hrest start
      refine ⟨stop, ?_⟩
      rw [reads, filterMap_cons_none hread, ← hpending, hdispatched]
      exact hstop
    | some bytes =>
      obtain ⟨chunk, outcome, buf, rfl, hstate, -, honRead⟩ | ⟨hnone, -⟩ := drive_cases hstep
      · obtain rfl := Option.some.inj hread
        cases outcome with
        | pending => exact hfirst.elim
        | ready status headers body =>
          have hpending : pending c = (some { c with state := .reading [] }, buf) := by
            rw [pending, hstate]
          rw [hpending, reads, filterMap_cons_some hread, cons_append, messages]
          obtain ⟨handled, hverdict, heq⟩ | ⟨req, c₁, out, hverdict, heq, -⟩ |
            ⟨c₁, out, log₁, hverdict, heq, -, hdispatched⟩ | ⟨hverdict, heq⟩ :=
            onRead_ready lib security c (buf ++ chunk) status headers body
          · obtain ⟨rfl, rfl⟩ := Prod.mk.inj (heq.symm.trans honRead)
            rw [hverdict]
            exact ih hlater (by simp) hrest start
          · obtain ⟨rfl, rfl⟩ := Prod.mk.inj (heq.symm.trans honRead)
            rw [hverdict]
            obtain ⟨stop, hstop⟩ := ih hlater (by simp) hrest (start + (buf ++ chunk).length)
            exact ⟨stop, congrArg (_ :: ·) hstop⟩
          · obtain ⟨rfl, rfl⟩ := Prod.mk.inj (heq.symm.trans honRead)
            rw [hverdict, hdispatched]
            exact ih hlater (by simp) hrest (start + (buf ++ chunk).length)
          · obtain ⟨rfl, rfl⟩ := Prod.mk.inj (heq.symm.trans honRead)
            rw [hverdict]
            obtain ⟨stop, hstop⟩ := ih hlater (by simp) hrest start
            exact ⟨stop, (messages_none _ _ _).trans ((messages_none _ _ _).symm.trans hstop)⟩
      · rw [hnone] at hread
        cases hread

variable (lib security) in
/-- The edge reads what a client has written, as far as it reads anything. -/
structure Serves (cuts : List Bytes) (events : List H1Event) (log : List H1Entry) : Prop where
  steady : ∀ e ∈ events, e.Steady
  ends : ∃ c, H1Conn.new.run security lib events = some (c, log) ∧
    (reads events = cuts ∨ reads events <+: cuts ∧ c.state = .done)

theorem Serves.dispatched_eq (h : Serves lib security cuts events log) :
    dispatched 0 log = messages (edgeRead lib) (some (edgeFresh 0)) 0 [] cuts := by
  obtain ⟨hsteady, c, hrun, hread | ⟨⟨more, hmore⟩, hdone⟩⟩ := h
  · obtain ⟨stop, hstop⟩ := messages_run hsteady (by simp [H1Conn.new]) hrun 0 []
    rw [append_nil, hread] at hstop
    have hnil : messages (edgeRead lib) (pending c).1 stop (pending c).2 [] = [] := by
      cases (pending c).1 <;> rfl
    rw [hnil, append_nil] at hstop
    exact hstop.symm
  · obtain ⟨stop, hstop⟩ := messages_run hsteady (by simp [H1Conn.new]) hrun 0 more
    have hnone : (pending c).1 = none := by rw [pending, hdone]
    rw [hmore, hnone, messages_none, append_nil] at hstop
    exact hstop.symm

variable (lib security) in
/-- A read can be taken up to where nothing is left to write. -/
def Takes (c : H1Conn) (chunk : Bytes) : Prop :=
  ∃ events c' log, (∀ e ∈ events, e.Steady) ∧ c.run security lib events = some (c', log) ∧
    reads events = [chunk] ∧ (c'.state = .done ∨ ∃ buf, c'.state = .reading buf)

theorem takes_of_writing {chunk out : Bytes}
    (h : c.drive security lib (.read chunk (.ready 200 [] [])) =
      some ({ c' with state := .writing out 0 }, log)) (hout : 0 < out.length) :
    Takes lib security c chunk := by
  refine ⟨[.read chunk (.ready 200 [] []), .wrote out.length true], _, _, ?_, run_of_drive h
    (run_of_drive (drive_wrote rfl hout) rfl), rfl, ?_⟩
  · exact forall_mem_cons.mpr ⟨trivial, forall_mem_singleton.mpr ⟨hout, rfl⟩⟩
  · obtain ⟨-, -, heq⟩ | ⟨-, hdone⟩ := finishResponse_cases { c' with state := .writing out 0 }
    · exact .inr ⟨[], congrArg H1Conn.state heq⟩
    · exact .inl hdone

theorem takes_of_quiet {chunk : Bytes}
    (h : c.drive security lib (.read chunk (.ready 200 [] [])) = some (c', log))
    (hc' : c'.state = .done ∨ ∃ buf, c'.state = .reading buf) : Takes lib security c chunk :=
  ⟨[.read chunk (.ready 200 [] [])], c', _, forall_mem_singleton.mpr trivial,
    run_of_drive h rfl, rfl, hc'⟩

theorem exists_read {chunk : Bytes} (hne : chunk ≠ []) {c : H1Conn}
    (hc : c.state = .reading buf) : Takes lib security c chunk := by
  have hread : c.drive security lib (.read chunk (.ready 200 [] [])) = some _ := drive_read hc hne _
  obtain ⟨handled, -, heq⟩ | ⟨req, c', out, -, heq, hout⟩ | ⟨c', out, log, -, heq, hout, -⟩ |
    ⟨-, heq⟩ := onRead_ready lib security c (buf ++ chunk) 200 [] []
  · exact takes_of_quiet (hread.trans (congrArg some heq)) (.inr ⟨_, rfl⟩)
  · exact takes_of_writing (hread.trans (congrArg some heq)) hout
  · exact takes_of_writing (hread.trans (congrArg some heq)) hout
  · exact takes_of_quiet (hread.trans (congrArg some heq)) (.inl rfl)

variable (lib security) in
theorem exists_run (hne : ∀ x ∈ cuts, x ≠ []) {c : H1Conn}
    (hc : c.state = .done ∨ ∃ buf, c.state = .reading buf) :
    ∃ events c' log, (∀ e ∈ events, e.Steady) ∧ c.run security lib events = some (c', log) ∧
      (reads events = cuts ∨ reads events <+: cuts ∧ c'.state = .done) := by
  induction cuts generalizing c with
  | nil => exact ⟨[], c, [], fun _ h => (nomatch h), rfl, .inl rfl⟩
  | cons chunk cuts ih =>
    obtain hdone | ⟨buf, hbuf⟩ := hc
    · exact ⟨[], c, [], fun _ h => (nomatch h), rfl, .inr ⟨List.nil_prefix, hdone⟩⟩
    obtain ⟨hchunk, hne⟩ := forall_mem_cons.mp hne
    obtain ⟨events, mid, first, hsteady, hrun, hread, hmid⟩ := exists_read hchunk hbuf
    obtain ⟨more, c', rest, hsteady', hrun', hend⟩ := ih hne hmid
    have hreads : reads (events ++ more) = chunk :: reads more := by
      rw [reads, filterMap_append, ← reads, ← reads, hread]
      rfl
    refine ⟨events ++ more, c', first ++ rest, forall_mem_append.mpr ⟨hsteady, hsteady'⟩,
      run_append hrun hrun', ?_⟩
    rw [hreads]
    exact hend.imp (congrArg _) (And.imp_left (prefix_cons_inj _).mpr)

/-- **The edge gets the requests of a client**, each from its own bytes, if and only if every
request has reads of its own. -/
theorem edge_iff {msgs : List (Bytes × RawRequest)} (hmsgs : ∀ m ∈ msgs, WellFormed lib m)
    (hlen : msgs.length < maxRequestsPerConn) (hne : ∀ c ∈ cuts, c ≠ [])
    (hall : cuts.flatten = (msgs.map Prod.fst).flatten)
    (hserves : Serves lib security cuts events log) :
    dispatched 0 log = numbered 0 (msgs.map fun m => (m.1, stripUntrustedInbound m.2)) ↔
      Split EdgeReads msgs cuts := by
  have hfst : (msgs.map fun m => (m.1, stripUntrustedInbound m.2)).map Prod.fst =
      msgs.map Prod.fst := by
    rw [map_map]
    rfl
  rw [hserves.dispatched_eq, messages_eq_iff ?_ hne (by rw [hfst]; exact hall),
    served_iff edgeFresh maxRequestsPerConn EdgeReads 0 ?_ (by rw [length_map]; omega) hne]
  · rw [Split, Split, hfst]
  · rintro x hx i group next hi hw hne
    obtain ⟨m, hm, rfl⟩ := mem_map.mp hx
    exact edge_reads_iff (hmsgs m hm) hi hw hne
  · rintro x hx p c req next hp h
    obtain ⟨m, hm, rfl⟩ := mem_map.mp hx
    exact edge_free (hmsgs m hm) hp h

/-- **Requests behind one another** get through, each from its own bytes, if and only if every
request begins with a read: at the edge, for each of its runs over these reads, and there is such a
run, and at a backend. The conditions on the reads of one request only keep out what is refused as
too large, or with an expectation that is not met. -/
theorem pipelining_iff (lib : Httparse) (security : List (Str × Str))
    {msgs : List (Bytes × RawRequest)} (hmsgs : ∀ m ∈ msgs, WellFormed lib m)
    (hlen : msgs.length < maxRequestsPerConn) {cuts : List Bytes} (hne : ∀ c ∈ cuts, c ≠ [])
    (hall : cuts.flatten = (msgs.map Prod.fst).flatten) :
    ((∃ events log, Serves lib security cuts events log) ∧
        ∀ events log, Serves lib security cuts events log →
          (dispatched 0 log = numbered 0 (msgs.map fun m => (m.1, stripUntrustedInbound m.2)) ↔
            Split EdgeReads msgs cuts)) ∧
      (served lib (cuts.map .data) = numbered 0 msgs ↔ Split BackendReads msgs cuts) := by
  refine ⟨⟨?_, fun events log h => edge_iff hmsgs hlen hne hall h⟩, backend_iff hmsgs hlen hne hall⟩
  obtain ⟨events, c, log, hsteady, hrun, hend⟩ :=
    exists_run lib security hne (c := H1Conn.new) (.inr ⟨_, rfl⟩)
  exact ⟨events, log, hsteady, c, hrun, hend⟩

theorem wellFormed_get : WellFormed getHttparse (getHead, getRequest) := by
  refine ⟨rfl, fun p hp hne => ?_, by decide⟩
  have hread : getHttparse.parse p = .incomplete := by
    have hlong : ¬ getHead <+: p := fun h => hne (hp.eq_of_length_le h.length_le)
    exact (if_neg hlong).trans (if_pos hp)
  rw [parseRequest, hread]

theorem pipelining_two :
    ((∃ events log, Serves getHttparse [] [getHead, getHead] events log) ∧
        ∀ events log, Serves getHttparse [] [getHead, getHead] events log →
          (dispatched 0 log = numbered 0 ([(getHead, getRequest), (getHead, getRequest)].map
              fun m => (m.1, stripUntrustedInbound m.2)) ↔
            Split EdgeReads [(getHead, getRequest), (getHead, getRequest)] [getHead, getHead])) ∧
      (served getHttparse ([getHead, getHead].map .data) =
          numbered 0 [(getHead, getRequest), (getHead, getRequest)] ↔
        Split BackendReads [(getHead, getRequest), (getHead, getRequest)] [getHead, getHead]) :=
  pipelining_iff getHttparse [] (by simp [wellFormed_get]) (by decide) (by decide) rfl

theorem second_request_lost :
    (∃ events log, Serves getHttparse [] [getHead ++ getHead] events log ∧
        dispatched 0 log = [(0, getRequest)]) ∧
      served getHttparse [.data (getHead ++ getHead)] = [(0, getRequest)] ∧
      numbered 0 [(getHead, getRequest), (getHead, getRequest)] ≠ [(0, getRequest)] := by
  refine ⟨⟨[.read (getHead ++ getHead) (.ready 200 [] [])], _, ⟨?_, _, rfl, .inl rfl⟩, rfl⟩, rfl,
    ?_⟩
  · exact forall_mem_singleton.mpr trivial
  · intro h
    cases h

end M6
