import M6.Core.Segments
import M6.Edge.ResponseFraming

/-!
# Interim responses

A backend tells a client that waits with its body to go on: `parse_request` of `parse.rs` writes
`100 Continue` when it has seen the head of such a request, and not yet all of it. The edge passes
the `Expect` of a request on and sends the body at once, and `read_response_for` takes the first
response that comes.

`final_taken_iff` says when what it takes is the answer.
-/

namespace M6

open List Option Utf8

namespace Interim

open H1 ResponseReader ResponseFraming

/-! ## What is written stays -/

section

variable {hash : Bytes → Nat} {app : Service}

theorem prefix_write (w : Wire) (bytes : Bytes) : w.sent <+: (w.write bytes).1.sent := by
  rcases hl : w.limit with _ | n <;> simp [Wire.write, hl]

theorem prefix_copyStream (n : Nat) (reader : List ReadResult) (w : Wire) :
    w.sent <+: (copyStream n reader w).1.sent := by
  induction reader generalizing n w with
  | nil => cases n <;> exact prefix_refl _
  | cons a reader ih =>
    cases n with
    | zero => exact prefix_refl _
    | succ n =>
      cases a with
      | failed => exact prefix_refl _
      | data bytes =>
        simp only [copyStream]
        split_ifs
        · exact prefix_refl _
        · exact (prefix_write _ _).trans (ih _ _)
        · exact prefix_write _ _

def opening (status : Nat) : Bytes := Utf8.encode (statusLine status ++ crlf)

theorem headText_opens (r : Responder) (status : Nat) (headers : List (Str × Str))
    (length : Nat) : opening status <+: Utf8.encode (headText r status headers length) := by
  rw [headText_eq, encode_append]
  exact prefix_append _ _

theorem prefix_send (r : Responder) (status : Nat) (headers : List (Str × Str)) (body : Bytes)
    {w : Wire} (hw : w.limit = none) :
    w.sent ++ opening status <+: (r.send status headers body w).wire.sent := by
  have hhead := prefix_append_right_inj w.sent |>.mpr (headText_opens r status headers body.length)
  simp only [Responder.send, Wire.write_of_unlimited hw]
  split_ifs
  · exact hhead
  · exact hhead
  · exact hhead.trans (prefix_write ⟨_, none⟩ body)

theorem prefix_sendStream (r : Responder) (status : Nat) (headers : List (Str × Str)) (len : Nat)
    (reader : List ReadResult) {w : Wire} (hw : w.limit = none) :
    w.sent ++ opening status <+: (r.sendStream status headers len reader w).wire.sent := by
  have hhead := prefix_append_right_inj w.sent |>.mpr (headText_opens r status headers len)
  simp only [Responder.sendStream, Wire.write_of_unlimited hw]
  split_ifs
  · exact hhead
  · exact hhead
  · exact hhead.trans (prefix_copyStream len reader ⟨_, none⟩)

theorem prefix_answer (served : Nat) (raw : RawRequest) {w : Wire} (hw : w.limit = none) :
    w.sent ++ opening (app served raw).status <+: (answer hash app served raw w).wire.sent := by
  simp only [answer, Response.send]
  split
  · exact prefix_sendStream _ _ _ _ _ hw
  · exact prefix_send _ _ _ _ hw

end

/-! ## What the backend writes -/

def toldFrom (lib : Httparse) : Bytes → Bool → Bool → List StreamRead → Bool
  | _, _, continued, [] => continued
  | _, _, continued, .eof :: _ => continued
  | _, _, continued, .timedOut :: _ => continued
  | _, _, continued, .failed :: _ => continued
  | buf, answered, continued, .data bytes :: rest =>
    match pass lib (buf ++ bytes) answered continued with
    | .done _ => continued
    | .aborts => continued
    | .read answered continued => toldFrom lib (buf ++ bytes) answered continued rest

/-- Whether `parse_request` writes `100 Continue`. -/
def told (lib : Httparse) (reads : List StreamRead) : Bool := toldFrom lib [] false false reads

/-- What `parse_request` writes. -/
def interim (lib : Httparse) (reads : List StreamRead) : Bytes :=
  (sendContinue (told lib reads) ⟨[], none⟩).1.sent

def staysOpen (served : Nat) : Arrival → Bool
  | .request _ raw => keepsConnection served raw
  | _ => false

/-- `serve_connection` over a stream, for a peer that takes everything. -/
def serveReads (lib : Httparse) (hash : Bytes → Nat) (app : Service) :
    Nat → Nat → List StreamRead → Wire → Wire
  | 0, _, _, w => w
  | n + 1, served, reads, w =>
    match readRequest lib reads with
    | .arrived a _ rest =>
      let w := (serveConnection hash app served [a] w).1
      if staysOpen served a then serveReads lib hash app n (served + 1) rest w else w
    -- the service is still reading, or has ended while it read
    | .waiting => (sendContinue (told lib reads) w).1
    | .aborts => (sendContinue (told lib reads) w).1

def backendWrites (lib : Httparse) (hash : Bytes → Nat) (app : Service)
    (reads : List StreamRead) : Bytes :=
  (serveReads lib hash app maxRequestsPerConn 0 reads ⟨[], none⟩).sent

def answerStatus (app : Service) (served : Nat) : Arrival → Option Nat
  | .closed => none
  | .refused _ e => some e.status
  | .request _ raw => some (app served raw).status

def finalStatus (lib : Httparse) (app : Service) (reads : List StreamRead) : Option Nat :=
  match readRequest lib reads with
  | .arrived a _ _ => answerStatus app 0 a
  | .waiting => none
  | .aborts => none

/-- Whether the client was told to go on before this arrived. -/
def wasTold : Arrival → Bool
  | .closed => false
  | .refused continued _ => continued
  | .request continued _ => continued

section

variable {lib : Httparse} {hash : Bytes → Nat} {app : Service}

theorem wasTold_of_done {buf : Bytes} {answered continued : Bool} {a : Arrival}
    (h : pass lib buf answered continued = .done a) : wasTold a = continued := by
  rw [pass] at h
  cases hparse : parseRequest lib buf with
  | complete req | error =>
    rw [hparse] at h
    exact Pass.done.inj h ▸ rfl
  | aborts =>
    rw [hparse] at h
    cases h
  | incomplete =>
    rw [hparse] at h
    dsimp only at h
    split_ifs at h with hcap
    · exact Pass.done.inj h ▸ rfl
    · cases hexpect : expectation buf with
      | none =>
        rw [hexpect] at h
        cases h
      | some e =>
        rw [hexpect] at h
        cases e with
        | absent | continues => cases h
        | unsupported => exact Pass.done.inj h ▸ rfl

theorem continued_of_nil {answered continued answered' continued' : Bool}
    (h : pass lib [] answered continued = .read answered' continued') : continued' = continued := by
  rw [pass, parseRequest_nil] at h
  cases answered with
  | false | true => exact (Pass.read.inj h).2.symm

theorem wasTold_of_readFrom {reads rest : List StreamRead} {buf : Bytes}
    {answered continued : Bool} {a : Arrival} {n : Nat}
    (h : readFrom lib buf answered continued reads = .arrived a n rest)
    (hbuf : buf = [] → continued = false) :
    wasTold a = toldFrom lib buf answered continued reads := by
  induction reads generalizing buf answered continued with
  | nil => cases h
  | cons r reads ih =>
    cases r with
    | eof | timedOut =>
      obtain ⟨rfl, -, -⟩ := Incoming.arrived.inj h
      rw [toldFrom]
      split_ifs with hnil
      · exact (hbuf hnil).symm
      · rfl
    | failed =>
      obtain ⟨rfl, -, -⟩ := Incoming.arrived.inj h
      rfl
    | data bytes =>
      rw [readFrom] at h
      rw [toldFrom]
      cases hpass : pass lib (buf ++ bytes) answered continued with
      | done b =>
        rw [hpass] at h
        obtain ⟨rfl, -, -⟩ := Incoming.arrived.inj h
        exact wasTold_of_done hpass
      | aborts =>
        rw [hpass] at h
        cases h
      | read answered' continued' =>
        rw [hpass] at h
        refine ih h fun hnil => ?_
        rw [hnil] at hpass
        exact (continued_of_nil hpass).trans (hbuf (append_eq_nil_iff.mp hnil).1)

theorem wasTold_of_readRequest {reads rest : List StreamRead} {a : Arrival} {n : Nat}
    (h : readRequest lib reads = .arrived a n rest) : wasTold a = told lib reads := by
  rw [readRequest, pass_nil] at h
  exact wasTold_of_readFrom h fun _ => rfl

def openingOf (status : Option Nat) : Bytes := (status.map opening).getD []

/-- **One arrival**: what was told, and then a response with its status. -/
theorem serveConnection_single (hash : Bytes → Nat) (app : Service) (served : Nat) (a : Arrival)
    {w : Wire} (hw : w.limit = none) :
    (serveConnection hash app served [a] w).1.limit = none ∧
      (sendContinue (wasTold a) w).1.sent ++ openingOf (answerStatus app served a) <+:
        (serveConnection hash app served [a] w).1.sent ∧
      (answerStatus app served a = none → staysOpen served a = false ∧
        (serveConnection hash app served [a] w).1 = (sendContinue (wasTold a) w).1) := by
  cases a with
  | closed =>
    refine ⟨hw, ?_, fun _ => ⟨rfl, rfl⟩⟩
    exact (append_nil w.sent).symm ▸ prefix_refl _
  | refused continued e =>
    obtain ⟨hok, hlimit, -⟩ := sendContinue_unlimited hw continued
    refine ⟨?_, ?_, fun h => absurd h (some_ne_none _)⟩
    · simp only [serveConnection, hok, if_true]
      exact (send_limit ..).trans hlimit
    · simp only [serveConnection, hok, if_true]
      exact prefix_send _ _ _ _ hlimit
  | request continued raw =>
    obtain ⟨hok, hlimit, -⟩ := sendContinue_unlimited hw continued
    refine ⟨?_, ?_, fun h => absurd h (some_ne_none _)⟩
    · simp only [serveConnection, hok, Bool.not_true, Bool.false_eq_true, if_false, ite_self]
      exact (answer_limit ..).trans hlimit
    · simp only [serveConnection, hok, Bool.not_true, Bool.false_eq_true, if_false, ite_self]
      exact prefix_answer served raw hlimit

theorem prefix_sendContinue (continued : Bool) (w : Wire) :
    w.sent <+: (sendContinue continued w).1.sent := by
  cases continued with
  | false => exact prefix_refl _
  | true => exact prefix_write _ _

theorem prefix_serveReads (n served : Nat) (reads : List StreamRead) {w : Wire}
    (hw : w.limit = none) : w.sent <+: (serveReads lib hash app n served reads w).sent := by
  induction n generalizing served reads w with
  | zero => exact prefix_refl _
  | succ n ih =>
    rw [serveReads]
    cases readRequest lib reads with
    | waiting | aborts => exact prefix_sendContinue _ _
    | arrived a taken rest =>
      obtain ⟨hlimit, hprefix, -⟩ := serveConnection_single hash app served a hw
      have hfirst := ((prefix_sendContinue (wasTold a) w).trans (prefix_append _ _)).trans hprefix
      dsimp only
      split_ifs
      · exact hfirst.trans (ih _ _ hlimit)
      · exact hfirst

/-- **What a backend writes**: what it told while it read, and then a response with the status of
the answer, or nothing. -/
theorem backendWrites_begins (lib : Httparse) (hash : Bytes → Nat) (app : Service)
    (reads : List StreamRead) : interim lib reads ++ openingOf (finalStatus lib app reads) <+:
        backendWrites lib hash app reads ∧
      (finalStatus lib app reads = none → backendWrites lib hash app reads =
        interim lib reads) := by
  rw [backendWrites, maxRequestsPerConn, serveReads, finalStatus, interim]
  cases hread : readRequest lib reads with
  | waiting | aborts => exact ⟨(append_nil _).symm ▸ prefix_refl _, fun _ => rfl⟩
  | arrived a taken rest =>
    obtain ⟨hlimit, hprefix, hnone⟩ :=
      serveConnection_single hash app 0 a (w := ⟨[], none⟩) rfl
    rw [wasTold_of_readRequest hread] at hprefix hnone
    dsimp only
    refine ⟨?_, fun h => ?_⟩
    · split_ifs
      · exact hprefix.trans (prefix_serveReads _ _ _ hlimit)
      · exact hprefix
    · obtain ⟨hstays, hsame⟩ := hnone h
      rw [hstays, hsame]
      rfl

end

/-! ## When the client is told to go on -/

section

variable (lib : Httparse)

def ReadsOn (buf : Bytes) : Prop := parseRequest lib buf = .incomplete ∧ buf.length ≤ readCap buf

/-- Behind these bytes, a read ends where the head has come with an expectation that is met, and
the request has not. -/
def PausesFrom (buf : Bytes) (cuts : List Bytes) : Prop :=
  ∃ seen, seen <+: cuts ∧ expectation (buf ++ seen.flatten) = some .continues ∧
    ∀ p, p <+: seen → ReadsOn lib (buf ++ p.flatten)

/-- **A backend that pauses**: some read ends where the head has come, with an expectation of
`100-continue`, and where the request is not complete; and it has not refused the request
before. -/
def Pauses (cuts : List Bytes) : Prop :=
  ∃ seen, seen <+: cuts ∧ expectation seen.flatten = some .continues ∧
    ∀ p, p <+: seen → ReadsOn lib p.flatten

variable {lib}

theorem not_pausesFrom {buf : Bytes} {e : Expectation} (h : expectation buf = some e)
    (hne : e ≠ .continues) (cuts : List Bytes) : ¬ PausesFrom lib buf cuts := by
  rintro ⟨seen, -, hseen, -⟩
  rw [expectation_append h] at hseen
  exact hne (some.inj hseen)

theorem pausesFrom_cons {buf : Bytes} (hon : ReadsOn lib buf) (hnone : expectation buf = none)
    (piece : Bytes) (cuts : List Bytes) :
    PausesFrom lib buf (piece :: cuts) ↔ PausesFrom lib (buf ++ piece) cuts := by
  constructor
  · rintro ⟨seen, hprefix, hexpect, hreads⟩
    cases seen with
    | nil =>
      rw [flatten_nil, append_nil, hnone] at hexpect
      cases hexpect
    | cons p seen =>
      obtain ⟨rfl, hseen⟩ := cons_prefix_cons.mp hprefix
      rw [flatten_cons, ← append_assoc] at hexpect
      refine ⟨seen, hseen, hexpect, fun q hq => ?_⟩
      have hon' := hreads (p :: q) (cons_prefix_cons.mpr ⟨rfl, hq⟩)
      rwa [flatten_cons, ← append_assoc] at hon'
  · rintro ⟨seen, hprefix, hexpect, hreads⟩
    refine ⟨piece :: seen, cons_prefix_cons.mpr ⟨rfl, hprefix⟩, ?_, fun q hq => ?_⟩
    · rwa [flatten_cons, ← append_assoc]
    · rcases prefix_cons_iff.mp hq with rfl | ⟨rest, rfl, hrest⟩
      · rwa [flatten_nil, append_nil]
      · rw [flatten_cons, ← append_assoc]
        exact hreads rest hrest

theorem toldFrom_of_answered (buf : Bytes) (continued : Bool) (reads : List StreamRead) :
    toldFrom lib buf true continued reads = continued := by
  induction reads generalizing buf with
  | nil => rfl
  | cons r reads ih =>
    cases r with
    | eof | timedOut | failed => rfl
    | data bytes =>
      rw [toldFrom, pass]
      cases parseRequest lib (buf ++ bytes) with
      | complete req | error | aborts => rfl
      | incomplete =>
        dsimp only
        by_cases hcap : readCap (buf ++ bytes) < (buf ++ bytes).length
        · rw [if_pos hcap]
        · rw [if_neg hcap, if_pos rfl]
          exact ih _

theorem pass_of_not_readsOn {buf : Bytes} (h : ¬ ReadsOn lib buf) (answered continued : Bool) :
    (∃ a, pass lib buf answered continued = .done a) ∨
      pass lib buf answered continued = .aborts := by
  rw [pass]
  cases hparse : parseRequest lib buf with
  | complete req | error => exact .inl ⟨_, rfl⟩
  | aborts => exact .inr rfl
  | incomplete =>
    have hcap : readCap buf < buf.length := by
      by_contra hle
      exact h ⟨hparse, Nat.le_of_not_lt hle⟩
    exact .inl ⟨_, if_pos hcap⟩

/-- **The client is told to go on if the backend pauses**, and only then. -/
theorem toldFrom_iff {buf : Bytes} (hon : ReadsOn lib buf) (hnone : expectation buf = none)
    (cuts : List Bytes) (fin : StreamEnd) :
    toldFrom lib buf false false (cuts.map .data ++ [fin.read]) = true ↔
      PausesFrom lib buf cuts := by
  induction cuts generalizing buf with
  | nil =>
    refine iff_of_false (by cases fin <;> exact Bool.false_ne_true) ?_
    rintro ⟨seen, hprefix, hexpect, -⟩
    obtain rfl := prefix_nil.mp hprefix
    rw [flatten_nil, append_nil, hnone] at hexpect
    cases hexpect
  | cons piece cuts ih =>
    rw [pausesFrom_cons hon hnone, map_cons, cons_append, toldFrom]
    by_cases hhere : ReadsOn lib (buf ++ piece)
    · rw [pass, hhere.1]
      dsimp only
      rw [if_neg (Nat.not_lt.mpr hhere.2), if_neg Bool.false_ne_true]
      cases hexpect : expectation (buf ++ piece) with
      | none => exact ih hhere hexpect
      | some e =>
        cases e with
        | absent =>
          dsimp only
          rw [toldFrom_of_answered]
          exact iff_of_false Bool.false_ne_true (not_pausesFrom hexpect Expectation.noConfusion _)
        | continues =>
          dsimp only
          rw [toldFrom_of_answered]
          refine iff_of_true rfl ⟨[], nil_prefix, ?_, fun p hp => ?_⟩
          · rwa [flatten_nil, append_nil]
          · rwa [prefix_nil.mp hp, flatten_nil, append_nil]
        | unsupported =>
          exact iff_of_false Bool.false_ne_true (not_pausesFrom hexpect Expectation.noConfusion _)
    · refine iff_of_false ?_ ?_
      · rcases pass_of_not_readsOn hhere false false with ⟨a, hpass⟩ | hpass
        all_goals
          rw [hpass]
          exact Bool.false_ne_true
      · rintro ⟨seen, -, -, hreads⟩
        have hfirst := hreads [] nil_prefix
        rw [flatten_nil, append_nil] at hfirst
        exact hhere hfirst

theorem told_iff (cuts : List Bytes) (fin : StreamEnd) :
    told lib (cuts.map .data ++ [fin.read]) = true ↔ Pauses lib cuts :=
  toldFrom_iff ⟨parseRequest_nil lib, Nat.zero_le _⟩ expectation_nil cuts fin

end

theorem backendWrites_ne_nil {lib : Httparse} {hash : Bytes → Nat} {app : Service}
    {cuts : List Bytes} (h : Pauses lib cuts) (fin : StreamEnd) :
    backendWrites lib hash app (cuts.map .data ++ [fin.read]) ≠ [] := by
  intro hnil
  have hbegins := (backendWrites_begins lib hash app (cuts.map .data ++ [fin.read])).1
  rw [hnil, interim, (told_iff cuts fin).mpr h] at hbegins
  have hempty := (append_eq_nil_iff.mp (prefix_nil.mp hbegins)).1
  exact absurd hempty (by decide)

/-! ## What is read -/

section

variable {source : Source UInt8} {method : Str} {r : ReadResponse}

theorem left_of_readBody {s : Framing} {first body left : Bytes}
    (h : readBody s source first = .ok (body, left)) :
    left.length ≤ (first ++ source.items).length := by
  rw [length_append]
  rw [readBody] at h
  split_ifs at h with hchunked
  · cases hread : BackendBody.readChunkedBody source first with
    | error f =>
      rw [hread] at h
      cases h
    | ok b =>
      rw [hread] at h
      cases h
      rw [Source.items_skip, length_drop]
      omega
  · cases hlength : s.length with
    | some n =>
      rw [hlength] at h
      dsimp only at h
      split_ifs at h with hlarge
      cases hread : source.readExact (n - min first.length n) with
      | none =>
        rw [hread] at h
        cases h
      | some got =>
        obtain ⟨more, rest⟩ := got
        have hlen := congrArg List.length (Source.items_of_readExact hread)
        rw [hread] at h
        cases h
        rw [length_append] at hlen ⊢
        rw [length_drop]
        omega
    | none =>
      rw [hlength] at h
      dsimp only at h
      cases hread : source.readToEnd (BackendBody.maxBackendBody - first.length + 1) with
      | none =>
        rw [hread] at h
        cases h
      | some got =>
        obtain ⟨more, rest⟩ := got
        have hlen := congrArg List.length (Source.items_of_readToEnd hread)
        rw [hread] at h
        dsimp only at h
        split_ifs at h with hlarge
        cases h
        rw [length_append] at hlen
        omega

theorem exists_of_read (h : readResponseFor source method = .ok r) :
    ∃ pos s, headEnd source.items = some pos ∧
      parseHead (source.items.take pos) = .ok (r.status, r.reason, s) ∧
      r.left.length + 4 ≤ source.items.length := by
  rw [readResponseFor, Failing.bind_eq_ok] at h
  obtain ⟨⟨pos, rest, buf⟩, hrun, h⟩ := h
  obtain ⟨hend, hwhole, hlen⟩ := headEnd_of_readHead hrun
  have htake : buf.take pos = source.items.take pos := by
    rw [← hwhole, take_append_of_le_length (by omega)]
  have hdrop : (buf.drop (pos + 4) ++ rest.items).length + 4 ≤ source.items.length := by
    rw [← hwhole, length_append, length_append, length_drop]
    omega
  dsimp only at h
  rw [htake, Failing.bind_eq_ok] at h
  obtain ⟨⟨status, reason, s⟩, hhead, h⟩ := h
  refine ⟨pos, s, hend, ?_⟩
  dsimp only at h
  split_ifs at h with hbodyless
  · cases h
    exact ⟨hhead, hdrop⟩
  · rw [Failing.bind_eq_ok] at h
    obtain ⟨⟨body, left⟩, hbody, h⟩ := h
    cases h
    exact ⟨hhead, (Nat.add_le_add_right (left_of_readBody hbody) 4).trans hdrop⟩

theorem parseHead_status {head : Bytes} {text line reason : Str} {lines : List Str} {status : Nat}
    {s : Framing} (h : parseHead head = .ok (status, reason, s))
    (htext : Utf8.fromUtf8? head = some text) (hsplit : splitCrlf text = line :: lines) :
    parseStatusLine line = .ok (status, reason) := by
  rw [parseHead, htext] at h
  dsimp only at h
  rw [hsplit] at h
  dsimp only at h
  rw [Failing.bind_eq_ok] at h
  obtain ⟨⟨status', reason'⟩, hline, h⟩ := h
  rw [Failing.bind_eq_ok] at h
  obtain ⟨s', -, h⟩ := h
  split_ifs at h
  obtain ⟨rfl, rest⟩ := Prod.mk.inj (Except.ok.inj h)
  obtain ⟨rfl, -⟩ := Prod.mk.inj rest
  exact hline

theorem headEnd_crlf_cases {more : Bytes} {k : Nat} (h : headEnd (crlfBytes ++ more) = some k) :
    k = 0 ∨ ∃ j, k = j + 2 := by
  have hsecond : (0x0a :: more : Bytes).take 4 ≠ [0x0d, 0x0a, 0x0d, 0x0a] := by
    rw [take_succ_cons]
    exact fun heq => absurd (List.cons.inj heq).1 (by decide)
  change headEnd (0x0d :: 0x0a :: more) = some k at h
  rw [headEnd] at h
  split_ifs at h with hend
  · exact .inl (some.inj h).symm
  · rw [headEnd, if_neg hsecond, Option.map_map] at h
    obtain ⟨j, -, rfl⟩ := map_eq_some_iff.mp h
    exact .inr ⟨j, rfl⟩

/-- **The status that is read is that of the first line**, whatever follows it. -/
theorem status_of_read {line : Str} (hcr : '\r' ∉ line) {more : Bytes}
    (hitems : source.items = Utf8.encode (line ++ crlf) ++ more)
    (h : readResponseFor source method = .ok r) :
    parseStatusLine line = .ok (r.status, r.reason) := by
  obtain ⟨pos, s, hend, hhead, -⟩ := exists_of_read h
  rw [hitems, encode_append, append_assoc] at hend hhead
  have hnot : (0x0d : UInt8) ∉ Utf8.encode line := not_mem_encode (c := '\r') (by decide) hcr
  rw [headEnd_append_of_notMem hnot] at hend
  obtain ⟨k, hk, rfl⟩ := map_eq_some_iff.mp hend
  rw [Nat.add_comm, take_length_add_append] at hhead
  rcases headEnd_crlf_cases hk with rfl | ⟨j, rfl⟩
  · rw [take_zero, append_nil] at hhead
    exact parseHead_status hhead (fromUtf8?_encode line) (splitCrlf_line hcr)
  · have hbytes : Utf8.encode line ++ (Utf8.encode crlf ++ more).take (j + 2) =
        Utf8.encode line ++ 0x0d :: ([] ++ 0x0a :: more.take j) := rfl
    rw [hbytes] at hhead
    -- the bytes behind the line have to be text for the head to be read
    cases hmore : Utf8.fromUtf8? (more.take j) with
    | none =>
      rw [parseHead, fromUtf8?_append_ascii (by decide),
        fromUtf8?_append_ascii (by decide), hmore, fromUtf8?_encode] at hhead
      cases hhead
    | some text =>
      have htext : Utf8.fromUtf8? (Utf8.encode line ++ 0x0d :: ([] ++ 0x0a :: more.take j)) =
          some (line ++ crlf ++ text) := by
        rw [fromUtf8?_append_ascii (by decide), fromUtf8?_append_ascii (by decide), hmore,
          fromUtf8?_encode, append_assoc]
        rfl
      exact parseHead_status hhead htext (splitCrlf_append hcr text)

theorem read_of_head {head more : Bytes} {pos status : Nat} {reason : Str} {s : Framing}
    (hend : headEnd head = some pos) (hlen : pos + 4 = head.length) (hroom : head.length ≤ headRoom)
    (hparse : parseHead (head.take pos) = .ok (status, reason, s))
    (hbodyless : isBodyless method status = true) (hitems : source.items = head ++ more) :
    readResponseFor source method =
      .ok { status, reason, headers := s.headers, body := [], left := more } := by
  have hsource : headEnd source.items = some pos := by
    rw [hitems]
    exact (headEnd_append hend more).1
  rcases readHead_of_headEnd hsource with ⟨-, rest, buf, hrun, hwhole, hbuf⟩ | ⟨hlong, -⟩
  · rw [hitems] at hwhole
    have htake : buf.take pos = head.take pos := by
      have hbytes := congrArg (List.take pos) hwhole
      rwa [take_append_of_le_length (by omega),
        take_append_of_le_length (by omega)] at hbytes
    have hdrop : buf.drop (pos + 4) ++ rest.items = more := by
      rw [← drop_append_of_le_length hbuf, hwhole, hlen, drop_left]
    simp only [readResponseFor, hrun, bind, Except.bind, htake, hparse, hdrop]
    exact if_pos hbodyless
  · omega

end

/-! ## The answer -/

def IsInterim (status : Nat) : Prop := 100 ≤ status ∧ status < 200

instance (status : Nat) : Decidable (IsInterim status) :=
  inferInstanceAs (Decidable (100 ≤ status ∧ status < 200))

theorem bodyless_of_isInterim {status : Nat} (h : IsInterim status) (method : Str) :
    isBodyless method status = true := by
  rw [isBodyless, decide_eq_true h.1, decide_eq_true h.2]
  exact Bool.or_true _

theorem read_continueResponse {source : Source UInt8} {more : Bytes} (method : Str)
    (h : source.items = continueResponse ++ more) : readResponseFor source method =
      .ok { status := 100, reason := "Continue".toList, headers := [], body := [], left := more } :=
  read_of_head (show headEnd continueResponse = some 21 by decide) (by decide) (by decide) rfl
    (bodyless_of_isInterim (by decide) method) h

/-- **A forwarded request and what comes back**: the backend reads some or all of its bytes, in
pieces, and what it writes arrives in others. -/
structure Exchange (lib : Httparse) (hash : Bytes → Nat) where
  app : Service
  req : RawRequest
  clientIp : Str
  originalHost : Str
  cuts : List Bytes
  part : cuts.flatten <+: requestBytes none req clientIp originalHost
  pieces : IsCut cuts.flatten cuts
  fin : StreamEnd
  source : Source UInt8
  arrives : source.items = backendWrites lib hash app (cuts.map .data ++ [fin.read])

namespace Exchange

variable {lib : Httparse} {hash : Bytes → Nat} (x : Exchange lib hash)

def reads : List StreamRead := x.cuts.map .data ++ [x.fin.read]

def got : Except ReadError ReadResponse := readResponseFor x.source x.req.method

def final : Bytes := x.source.items.drop (interim lib x.reads).length

/-- **The answer is what the edge gets**: it reads what it would read if only the final response had
come, the status is that of the handler, or of the refusal, and a handler that gives final responses
is never taken to have given another. -/
structure Answered : Prop where
  alone : ∃ source : Source UInt8, source.items = x.final ∧
    x.got = readResponseFor source x.req.method
  status : ∀ r, x.got = .ok r → finalStatus lib x.app x.reads = some r.status
  notInterim : (∀ n raw, ¬ IsInterim (x.app n raw).status) →
    ∀ r, x.got = .ok r → ¬ IsInterim r.status

variable {x}

theorem told_iff : told lib x.reads = true ↔ Pauses lib x.cuts := Interim.told_iff x.cuts x.fin

theorem got_of_pauses (h : Pauses lib x.cuts) :
    x.got = .ok { status := 100
                  reason := "Continue".toList
                  headers := []
                  body := []
                  left := x.final } ∧ x.source.items = continueResponse ++ x.final := by
  have hinterim : interim lib x.reads = continueResponse := by
    rw [interim, told_iff.mpr h]
    rfl
  have hitems : x.source.items = continueResponse ++ x.final := by
    obtain ⟨more, hmore⟩ := (prefix_append _ _).trans
      (backendWrites_begins lib hash x.app x.reads).1
    rw [hinterim] at hmore
    have harrives : x.source.items = continueResponse ++ more := x.arrives.trans hmore.symm
    rw [final, hinterim, harrives, drop_left]
  exact ⟨read_continueResponse _ hitems, hitems⟩

theorem not_answered_of_pauses (h : Pauses lib x.cuts) : ¬ x.Answered := by
  intro hanswered
  obtain ⟨hgot, -⟩ := got_of_pauses h
  obtain ⟨source, hitems, hsame⟩ := hanswered.alone
  obtain ⟨pos, s, -, -, hleft⟩ := exists_of_read (hsame.symm.trans hgot)
  rw [hitems] at hleft
  exact absurd hleft (by simp)

theorem status_of_final (h : ¬ Pauses lib x.cuts) {r : ReadResponse} (hgot : x.got = .ok r) :
    finalStatus lib x.app x.reads = some r.status := by
  have hinterim : interim lib x.reads = [] := by
    rw [interim, Bool.eq_false_of_not_eq_true (mt told_iff.mp h)]
    rfl
  obtain ⟨⟨more, hmore⟩, hnone⟩ := backendWrites_begins lib hash x.app x.reads
  rw [hinterim, nil_append] at hmore
  rw [hinterim] at hnone
  cases hstatus : finalStatus lib x.app x.reads with
  | none =>
    obtain ⟨pos, s, -, -, hleft⟩ := exists_of_read hgot
    have hitems : x.source.items = [] := x.arrives.trans (hnone hstatus)
    rw [hitems] at hleft
    exact absurd hleft (by simp)
  | some status =>
    rw [hstatus] at hmore
    have hline := status_of_read
      (statusText_plain (not_mem_statusReason (c := '\r') (by decide) status) status)
      (x.arrives.trans hmore.symm) hgot
    rw [parseStatusLine_decimal] at hline
    split_ifs at hline
    rw [(Prod.mk.inj (Except.ok.inj hline)).1]

theorem not_isInterim_finalStatus {reads : List StreamRead} {app : Service} {status : Nat}
    (happ : ∀ n raw, ¬ IsInterim (app n raw).status)
    (h : finalStatus lib app reads = some status) : ¬ IsInterim status := by
  rw [finalStatus] at h
  cases hread : readRequest lib reads with
  | waiting | aborts =>
    rw [hread] at h
    cases h
  | arrived a taken rest =>
    rw [hread] at h
    cases a with
    | closed => cases h
    | refused continued e =>
      cases h
      cases e <;> decide
    | request continued raw =>
      cases h
      exact happ 0 raw

/-- **An exchange is answered if the backend does not pause.** -/
theorem answered_of_not_pauses (h : ¬ Pauses lib x.cuts) : x.Answered where
  alone := by
    refine ⟨x.source, ?_, rfl⟩
    rw [final, interim, Bool.eq_false_of_not_eq_true (mt told_iff.mp h)]
    rfl
  status _ hgot := status_of_final h hgot
  notInterim happ _ hgot := not_isInterim_finalStatus happ (status_of_final h hgot)

end Exchange

/-- **A complete interim response**: a line with its status, and fields. -/
structure InterimResponse where
  line : Str
  fields : List (Str × Str)
  status : Nat
  reason : Str
  plain : '\r' ∉ line
  oneLine : ∀ f ∈ fields, OneLine f
  parses : parseStatusLine line = .ok (status, reason)
  isInterim : IsInterim status

def InterimResponse.bytes (i : InterimResponse) : Bytes :=
  Utf8.encode (i.line ++ crlf ++ (i.fields.flatMap fieldLine ++ crlf))

/-- **Responses that come one after another**: interim ones, and one that is read as a final one,
however it comes. -/
structure Responses where
  method : Str
  interims : List InterimResponse
  final : Bytes
  source : Source UInt8
  arrives : source.items = interims.flatMap InterimResponse.bytes ++ final
  answer : ReadResponse
  reads : ∀ alone : Source UInt8, alone.items = final → alone.closes = source.closes →
    readResponseFor alone method = .ok answer
  isFinal : ¬ IsInterim answer.status

theorem Responses.read_iff (s : Responses) :
    readResponseFor s.source s.method = .ok s.answer ↔ s.interims = [] := by
  constructor
  · intro h
    cases hinterims : s.interims with
    | nil => rfl
    | cons i rest =>
      have hitems : s.source.items = Utf8.encode (i.line ++ crlf) ++
          (Utf8.encode (i.fields.flatMap fieldLine ++ crlf) ++
            (rest.flatMap InterimResponse.bytes ++ s.final)) := by
        rw [s.arrives, hinterims, flatMap_cons, InterimResponse.bytes, encode_append,
          append_assoc, append_assoc]
      have hline := status_of_read i.plain hitems h
      rw [i.parses] at hline
      have hstatus : i.status = s.answer.status := (Prod.mk.inj (Except.ok.inj hline)).1
      exact absurd (hstatus ▸ i.isInterim) s.isFinal
  · intro h
    refine s.reads s.source ?_ rfl
    rw [s.arrives, h]
    rfl

/-- **The answer of a backend is what the edge gets** if the backend does not pause, and only then;
and of responses that come one after another the reader returns the final one if there is none
before it, and only then. -/
theorem final_taken_iff (lib : Httparse) (hash : Bytes → Nat) :
    (∀ x : Exchange lib hash, x.Answered ↔ ¬ Pauses lib x.cuts) ∧
      ∀ s : Responses, readResponseFor s.source s.method = .ok s.answer ↔ s.interims = [] :=
  ⟨fun _ => ⟨fun h hpauses => Exchange.not_answered_of_pauses hpauses h,
    Exchange.answered_of_not_pauses⟩, Responses.read_iff⟩

/-! ## A request that waits -/

def isIncomplete : ParseResult → Bool
  | .incomplete => true
  | _ => false

instance (lib : Httparse) (buf : Bytes) : Decidable (ReadsOn lib buf) :=
  decidable_of_iff (isIncomplete (parseRequest lib buf) = true ∧ buf.length ≤ readCap buf) <| by
    refine and_congr_left' ?_
    cases parseRequest lib buf <;> simp [isIncomplete]

def waitingRequest : RawRequest :=
  ⟨"POST".toList, "/".toList, none, "HTTP/1.1".toList,
    [("Host".toList, "a".toList), ("Expect".toList, "100-continue".toList)],
    List.replicate readSize 0x78⟩

def waitingFields : List (Str × Str) :=
  leavingFields none waitingRequest "203.0.113.7".toList "a".toList

def waitingHttparse : Httparse :=
  .ofHead (Utf8.encode (requestHead waitingRequest waitingFields))
    ⟨some "POST".toList, some "/".toList, some 1, waitingFields.map rawField⟩
    (requestHead_ne_nil _ _)

def waitingBytes : Bytes := requestBytes none waitingRequest "203.0.113.7".toList "a".toList

def waitingCuts : List Bytes := [waitingBytes.take readSize, waitingBytes.drop readSize]

theorem flatten_waitingCuts : waitingCuts.flatten = waitingBytes := by
  rw [waitingCuts, flatten_cons, flatten_cons, flatten_nil, append_nil, take_append_drop]

theorem waiting_pauses : Pauses waitingHttparse waitingCuts := by
  refine ⟨[waitingBytes.take readSize], ⟨_, rfl⟩, by decide +kernel, fun p hp => ?_⟩
  rcases prefix_cons_iff.mp hp with rfl | ⟨rest, rfl, hrest⟩
  · decide
  · rw [prefix_nil.mp hrest]
    decide +kernel

def waitingExchange : Exchange waitingHttparse fun _ => 0 where
  app _ _ := ⟨200, [], .bytes []⟩
  req := waitingRequest
  clientIp := "203.0.113.7".toList
  originalHost := "a".toList
  cuts := waitingCuts
  part := flatten_waitingCuts ▸ List.prefix_refl _
  pieces := ⟨rfl, by decide +kernel⟩
  fin := .eof
  source := BackendBody.whole _ (backendWrites_ne_nil waiting_pauses .eof)
  arrives := BackendBody.items_whole _

/-- `100 Continue`, and then a response without a body. -/
def continued : Responses where
  method := "GET".toList
  interims := [⟨"HTTP/1.1 100 Continue".toList, [], 100, "Continue".toList, by decide, nofun, rfl,
    by decide⟩]
  final := Utf8.encode ("HTTP/1.1 204 No Content".toList ++ crlf ++ crlf)
  source := BackendBody.whole (continueResponse ++
    Utf8.encode ("HTTP/1.1 204 No Content".toList ++ crlf ++ crlf)) (by decide)
  arrives := by
    rw [BackendBody.items_whole]
    rfl
  answer := ⟨⟨204, [], []⟩, "No Content".toList, []⟩
  reads _ hitems _ :=
    have hend : headEnd (Utf8.encode ("HTTP/1.1 204 No Content".toList ++ crlf ++ crlf)) =
        some 23 := by decide
    read_of_head hend (by decide) (by decide) rfl (by decide)
      (hitems.trans (List.append_nil _).symm)
  isFinal := by decide

/-- **The edge takes `100 Continue` for the answer**: that of a request whose body does not fit in
the first read, and in front of a final response. -/
theorem interim_taken :
    (¬ ∀ x : Exchange waitingHttparse fun _ => 0, x.Answered) ∧
      ¬ ∀ s : Responses, readResponseFor s.source s.method = .ok s.answer :=
  ⟨fun h => Exchange.not_answered_of_pauses waiting_pauses (h waitingExchange),
    fun h => cons_ne_nil _ _ (continued.read_iff.mp (h continued))⟩

end Interim

end M6
