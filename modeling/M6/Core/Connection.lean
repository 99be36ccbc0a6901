import M6.Core.Responder

/-!
# Serving one connection

`serve_connection` of `server.rs` as `handle_connection` of `app.rs` uses it: the
request loop of a backend service. `handle_request` writes one response for each
request and throws the writer's error away (`write_response(..).ok()`), so the
loop goes on whatever became of the response, as long as the request asked to
keep the connection.

A response that comes out shorter than announced leaves the framing of a kept
connection off by the missing bytes. `ShortIsLast` says that no byte follows such
a response, and `shortIsLast_iff` says for which connections that holds.
-/

namespace M6

inductive ParseError where
  | invalidRequestLine
  | invalidHeader
  | requestTooLarge
  | requestTimeout
  | expectationFailed
  | io
  deriving DecidableEq

def ParseError.status : ParseError → Nat
  | requestTooLarge => 413
  | expectationFailed => 417
  | requestTimeout => 408
  | _ => 400

/-- What reading from the connection comes to. While reading, a waiting client
may be told to go on with its body. -/
inductive Arrival where
  /-- closed, or idle for too long, between requests -/
  | closed
  /-- a request that cannot be read -/
  | refused (continued : Bool) (e : ParseError)
  | request (continued : Bool) (raw : RawRequest)

def continueResponse : Bytes := Utf8.encode ("HTTP/1.1 100 Continue".toList ++ crlf ++ crlf)

def sendContinue (continued : Bool) (w : Wire) : Wire × Bool :=
  if continued then w.write continueResponse else (w, true)

def maxRequestsPerConn : Nat := 100

/-- A response on the wire: whether it came out short, and where it ended. -/
structure Mark where
  short : Bool
  endsAt : Nat
  deriving DecidableEq

def Sent.mark (s : Sent) : Mark := ⟨s.short, s.wire.sent.length⟩

/-- A service: what it answers to the `n`-th request of a connection. -/
abbrev Service : Type := Nat → RawRequest → Response

section

variable (hash : Bytes → Nat) (app : Service)

/-- Whether the connection stays open after the request that follows `served`
others. -/
def keepsConnection (served : Nat) (raw : RawRequest) : Bool :=
  keepAlive raw && served + 1 < maxRequestsPerConn

def answer (served : Nat) (raw : RawRequest) (w : Wire) : Sent :=
  (app served raw).send hash (.new raw.method (keepsConnection served raw)) w

def serveConnection : Nat → List Arrival → Wire → Wire × List Mark
  | _, [], w => (w, [])
  | _, .closed :: _, w => (w, [])
  | _, .refused continued e :: _, w =>
    let (w, ok) := sendContinue continued w
    -- a failed interim response is itself an error of reading
    let s := (Responder.new [] false).error (if ok then e.status else ParseError.io.status) w
    (s.wire, [s.mark])
  | served, .request continued raw :: rest, w =>
    let (w, ok) := sendContinue continued w
    if !ok then
      let s := (Responder.new [] false).error ParseError.io.status w
      (s.wire, [s.mark])
    else
      -- the outcome of the response is not looked at
      let s := answer hash app served raw w
      if keepsConnection served raw then
        let (final, marks) := serveConnection (served + 1) rest s.wire
        (final, s.mark :: marks)
      else (s.wire, [s.mark])

def ShortIsLast (run : Wire × List Mark) : Prop :=
  ∀ m ∈ run.2, m.short = true → run.1.sent.length = m.endsAt

/-- The peer sends nothing more that would be answered. -/
def Silent : List Arrival → Prop
  | [] => True
  | .closed :: _ => True
  | _ => False

def framesBody (served : Nat) (raw : RawRequest) : Bool :=
  !(Responder.new raw.method (keepsConnection served raw)).bodyless (app served raw).status

/-- Every answer after which the connection is kept, and the peer goes on,
frames no body or has a body with all the bytes it promises. -/
def BodiesComplete : Nat → List Arrival → Prop
  | served, .request _ raw :: rest =>
    keepsConnection served raw = true →
      (Silent rest ∨ framesBody app served raw = false ∨ (app served raw).body.delivers = true) ∧
        BodiesComplete (served + 1) rest
  | _, _ => True

end

/-! ## One response -/

section

variable {hash : Bytes → Nat} {app : Service}

theorem send_limit (r : Responder) (status : Nat) (headers : List (Str × Str)) (body : Bytes)
    (w : Wire) : (r.send status headers body w).wire.limit = w.limit := by
  simp only [Responder.send]
  split_ifs <;> simp

theorem sendStream_limit (r : Responder) (status : Nat) (headers : List (Str × Str)) (len : Nat)
    (reader : List ReadResult) (w : Wire) :
    (r.sendStream status headers len reader w).wire.limit = w.limit := by
  simp only [Responder.sendStream]
  split_ifs <;> simp

theorem answer_limit (served : Nat) (raw : RawRequest) (w : Wire) :
    (answer hash app served raw w).wire.limit = w.limit := by
  simp only [answer, Response.send]
  split
  · exact sendStream_limit ..
  · exact send_limit ..

variable {w : Wire}

theorem send_short {r : Responder} {status : Nat} {headers : List (Str × Str)} {body : Bytes}
    (h : (r.send status headers body w).short = true) :
    (r.send status headers body w).wire.Exhausted := by
  simp only [Responder.send, Sent.short] at h ⊢
  split_ifs at h ⊢ with hhead hbodyless
  · simp at h
  · simp at h
  · generalize (w.write (Utf8.encode (headText r status headers body.length))).1 = w₁ at h ⊢
    rcases hok : (w₁.write body).2 with _ | _
    · exact Wire.exhausted_of_write hok
    · simp [Wire.sent_of_write hok] at h

theorem sendStream_short {r : Responder} {status : Nat} {headers : List (Str × Str)} {len : Nat}
    {reader : List ReadResult} (h : (r.sendStream status headers len reader w).short = true) :
    (r.bodyless status = false ∧ delivered reader < len) ∨
      (r.sendStream status headers len reader w).wire.Exhausted := by
  simp only [Responder.sendStream, Sent.short] at h ⊢
  split_ifs at h ⊢ with hhead hbodyless
  · simp at h
  · simp at h
  · generalize (w.write (Utf8.encode (headText r status headers len))).1 = w₁ at h ⊢
    rcases copyStream_cases len reader w₁ with hdone | hless | hgone
    · simp [hdone] at h
    · exact .inl ⟨by simpa using hbodyless, hless⟩
    · exact .inr hgone

variable {served : Nat}

theorem answer_short {raw : RawRequest} (h : (answer hash app served raw w).short = true) :
    (framesBody app served raw = true ∧ (app served raw).body.delivers = false) ∨
      (answer hash app served raw w).wire.Exhausted := by
  simp only [answer, Response.send, framesBody] at h ⊢
  rcases hbody : (app served raw).body with b | ⟨len, reader⟩
  · rw [hbody] at h
    exact .inr (send_short h)
  · rw [hbody] at h
    rcases sendStream_short h with ⟨hframed, hless⟩ | hgone
    · exact .inl ⟨by rw [hframed]; rfl, by simpa [Body.delivers] using hless⟩
    · exact .inr hgone

theorem sendStream_short_of_less {r : Responder} {status : Nat} (headers : List (Str × Str))
    {len : Nat} {reader : List ReadResult} (hw : w.limit = none)
    (hframed : r.bodyless status = false) (hless : delivered reader < len) :
    (r.sendStream status headers len reader w).short = true := by
  simp only [Responder.sendStream, Sent.short, Wire.write_of_unlimited hw, hframed, Bool.not_true,
    Bool.false_eq_true, if_false, decide_eq_true_eq]
  have hcopy := copyStream_short
    (w := ⟨w.sent ++ Utf8.encode (headText r status headers len), none⟩) rfl hless
  simp only at hcopy
  omega

theorem short_of_incomplete {raw : RawRequest} (hw : w.limit = none)
    (hframed : framesBody app served raw = true) (hbody : (app served raw).body.delivers = false) :
    (answer hash app served raw w).short = true := by
  simp only [framesBody, Bool.not_eq_true'] at hframed
  simp only [answer, Response.send]
  rcases hb : (app served raw).body with b | ⟨len, reader⟩
  · rw [hb] at hbody
    cases hbody
  · rw [hb] at hbody
    exact sendStream_short_of_less _ hw hframed (by simpa [Body.delivers] using hbody)

/-! ## What a run writes -/

theorem send_of_exhausted (h : w.Exhausted) (r : Responder) (status : Nat)
    (headers : List (Str × Str)) (body : Bytes) : (r.send status headers body w).wire = w := by
  simp only [Responder.send, Wire.write_of_exhausted h]
  split_ifs <;> rfl

theorem copyStream_of_exhausted (h : w.Exhausted) (n : Nat) (reader : List ReadResult) :
    (copyStream n reader w).1 = w := by
  induction reader generalizing n with
  | nil => cases n <;> rfl
  | cons a reader ih =>
    cases n with
    | zero => rfl
    | succ n =>
      cases a with
      | failed => rfl
      | data bytes =>
        simp only [copyStream, Wire.write_of_exhausted h]
        split_ifs
        · rfl
        · exact ih _
        · rfl

theorem sendStream_of_exhausted (h : w.Exhausted) (r : Responder) (status : Nat)
    (headers : List (Str × Str)) (len : Nat) (reader : List ReadResult) :
    (r.sendStream status headers len reader w).wire = w := by
  simp only [Responder.sendStream, Wire.write_of_exhausted h]
  split_ifs
  · rfl
  · rfl
  · exact copyStream_of_exhausted h _ _

theorem answer_of_exhausted (h : w.Exhausted) (served : Nat) (raw : RawRequest) :
    (answer hash app served raw w).wire = w := by
  simp only [answer, Response.send]
  split
  · exact sendStream_of_exhausted h ..
  · exact send_of_exhausted h ..

theorem sendContinue_of_exhausted (h : w.Exhausted) (continued : Bool) :
    (sendContinue continued w).1 = w := by
  cases continued with
  | false => rfl
  | true => exact Wire.write_of_exhausted h _

theorem serveConnection_of_exhausted (h : w.Exhausted) (served : Nat)
    (arrivals : List Arrival) : (serveConnection hash app served arrivals w).1 = w := by
  induction arrivals generalizing served with
  | nil => rfl
  | cons a rest ih =>
    cases a with
    | closed => rfl
    | refused continued e =>
      simp only [serveConnection, sendContinue_of_exhausted h]
      exact send_of_exhausted h ..
    | request continued raw =>
      simp only [serveConnection, sendContinue_of_exhausted h]
      split_ifs
      · exact send_of_exhausted h ..
      · simp only [answer_of_exhausted h]
        exact ih _
      · exact answer_of_exhausted h ..

theorem sent_lt_send (r : Responder) (status : Nat) (headers : List (Str × Str)) (body : Bytes)
    (hw : w.limit = none) : w.sent.length < (r.send status headers body w).wire.sent.length := by
  have hhead := List.length_pos_iff.mpr (headText_ne_nil r status headers body.length)
  simp only [Responder.send, Wire.write_of_unlimited hw]
  split_ifs
  · rw [List.length_append]
    omega
  · rw [List.length_append]
    omega
  · refine lt_of_lt_of_le ?_ (Wire.length_le_write _ _)
    rw [List.length_append]
    omega

theorem length_le_copyStream (n : Nat) (reader : List ReadResult) (w : Wire) :
    w.sent.length ≤ (copyStream n reader w).1.sent.length := by
  induction reader generalizing n w with
  | nil => cases n <;> exact Nat.le_refl _
  | cons a reader ih =>
    cases n with
    | zero => exact Nat.le_refl _
    | succ n =>
      cases a with
      | failed => exact Nat.le_refl _
      | data bytes =>
        simp only [copyStream]
        split_ifs
        · exact Nat.le_refl _
        · exact (Wire.length_le_write _ _).trans (ih _ _)
        · exact Wire.length_le_write _ _

theorem sent_lt_sendStream (r : Responder) (status : Nat) (headers : List (Str × Str)) (len : Nat)
    (reader : List ReadResult) (hw : w.limit = none) :
    w.sent.length < (r.sendStream status headers len reader w).wire.sent.length := by
  have hhead := List.length_pos_iff.mpr (headText_ne_nil r status headers len)
  simp only [Responder.sendStream, Wire.write_of_unlimited hw]
  split_ifs
  · rw [List.length_append]
    omega
  · rw [List.length_append]
    omega
  · refine lt_of_lt_of_le ?_ (length_le_copyStream _ _ _)
    rw [List.length_append]
    omega

theorem sent_lt_answer (hw : w.limit = none) (served : Nat) (raw : RawRequest) :
    w.sent.length < (answer hash app served raw w).wire.sent.length := by
  simp only [answer, Response.send]
  split
  · exact sent_lt_sendStream _ _ _ _ _ hw
  · exact sent_lt_send _ _ _ _ hw

theorem sendContinue_unlimited (hw : w.limit = none) (continued : Bool) :
    (sendContinue continued w).2 = true ∧ (sendContinue continued w).1.limit = none ∧
      w.sent.length ≤ (sendContinue continued w).1.sent.length := by
  cases continued with
  | false => exact ⟨rfl, hw, Nat.le_refl _⟩
  | true =>
    simp only [sendContinue, Wire.write_of_unlimited hw, if_true, true_and, List.length_append]
    omega

theorem sent_le_serveConnection (hw : w.limit = none) (served : Nat) (arrivals : List Arrival) :
    w.sent.length ≤ (serveConnection hash app served arrivals w).1.sent.length := by
  induction arrivals generalizing served w with
  | nil => exact Nat.le_refl _
  | cons a rest ih =>
    cases a with
    | closed => exact Nat.le_refl _
    | refused continued e =>
      obtain ⟨hok, hlimit, hle⟩ := sendContinue_unlimited hw continued
      simp only [serveConnection, hok, if_true]
      exact hle.trans (sent_lt_send _ _ _ _ hlimit).le
    | request continued raw =>
      obtain ⟨hok, hlimit, hle⟩ := sendContinue_unlimited hw continued
      simp only [serveConnection, hok, Bool.not_true, Bool.false_eq_true, if_false]
      have hanswer : _ ≤ (answer hash app served raw _).wire.sent.length :=
        (sent_lt_answer hlimit served raw).le
      split_ifs
      · refine (hle.trans hanswer).trans (ih ?_ _)
        rw [answer_limit, hlimit]
      · exact hle.trans hanswer

variable {arrivals : List Arrival}

theorem sent_lt_serveConnection (hw : w.limit = none) (served : Nat) (h : ¬ Silent arrivals) :
    w.sent.length < (serveConnection hash app served arrivals w).1.sent.length := by
  rcases arrivals with _ | ⟨a, rest⟩
  · exact absurd trivial h
  cases a with
  | closed => exact absurd trivial h
  | refused continued e =>
    obtain ⟨hok, hlimit, hle⟩ := sendContinue_unlimited hw continued
    simp only [serveConnection, hok, if_true]
    exact lt_of_le_of_lt hle (sent_lt_send _ _ _ _ hlimit)
  | request continued raw =>
    obtain ⟨hok, hlimit, hle⟩ := sendContinue_unlimited hw continued
    simp only [serveConnection, hok, Bool.not_true, Bool.false_eq_true, if_false]
    have hanswer : _ < (answer hash app served raw _).wire.sent.length :=
      sent_lt_answer hlimit served raw
    split_ifs
    · refine lt_of_le_of_lt hle (lt_of_lt_of_le hanswer (sent_le_serveConnection ?_ _ _))
      rw [answer_limit, hlimit]
    · exact lt_of_le_of_lt hle hanswer

theorem serveConnection_of_silent (h : Silent arrivals) (served : Nat)
    (w : Wire) : serveConnection hash app served arrivals w = (w, []) := by
  rcases arrivals with _ | ⟨a, rest⟩
  · rfl
  cases a with
  | closed => rfl
  | refused continued e | request continued raw => exact h.elim

/-! ## Whole connections -/

theorem shortIsLast_single (s : Sent) : ShortIsLast (s.wire, [s.mark]) := by
  intro m hm _
  rw [List.mem_singleton.mp hm]
  rfl

theorem shortIsLast_of_complete (h : BodiesComplete app served arrivals) (w : Wire) :
    ShortIsLast (serveConnection hash app served arrivals w) := by
  induction arrivals generalizing served w with
  | nil => exact fun m hm => (nomatch hm)
  | cons a rest ih =>
    cases a with
    | closed => exact fun m hm => (nomatch hm)
    | refused continued e => exact shortIsLast_single _
    | request continued raw =>
      simp only [serveConnection]
      split_ifs with hok hkeep
      · exact shortIsLast_single _
      · obtain ⟨hbody, hrest⟩ := h hkeep
        intro m hm hshort
        rcases List.mem_cons.mp hm with rfl | hm
        · -- short: the reader had too little and the peer is silent, or the peer is gone
          rcases answer_short hshort with ⟨hframed, hless⟩ | hgone
          · rcases hbody with hsilent | hno | hfull
            · rw [serveConnection_of_silent hsilent]
              rfl
            · rw [hframed] at hno
              cases hno
            · rw [hless] at hfull
              cases hfull
          · rw [serveConnection_of_exhausted hgone]
            rfl
        · exact ih hrest _ m hm hshort
      · exact shortIsLast_single _

theorem complete_of_shortIsLast
    (hw : w.limit = none) (h : ShortIsLast (serveConnection hash app served arrivals w)) :
    BodiesComplete app served arrivals := by
  induction arrivals generalizing served w with
  | nil => trivial
  | cons a rest ih =>
    cases a with
    | closed | refused continued e => trivial
    | request continued raw =>
      intro hkeep
      obtain ⟨hok, hlimit, -⟩ := sendContinue_unlimited hw continued
      simp only [serveConnection, hok, Bool.not_true, Bool.false_eq_true, if_false, hkeep,
        if_true] at h
      have hwire : (answer hash app served raw (sendContinue continued w).1).wire.limit = none := by
        rw [answer_limit, hlimit]
      refine ⟨?_, ih hwire fun m hm => h m (List.mem_cons_of_mem _ hm)⟩
      by_contra hno
      simp only [not_or, Bool.not_eq_false, Bool.not_eq_true] at hno
      obtain ⟨hloud, hframed, hless⟩ := hno
      have hend := h _ (List.mem_cons_self ..) (short_of_incomplete hlimit hframed hless)
      exact absurd hend (sent_lt_serveConnection hwire _ hloud).ne'

/-- **A short response is the last one** on its connection, whatever the peer
takes, if and only if every answer after which the connection is kept and the
peer goes on frames no body or has all the bytes it promises. -/
theorem shortIsLast_iff (hash : Bytes → Nat) (app : Service) (arrivals : List Arrival) :
    (∀ limit, ShortIsLast (serveConnection hash app 0 arrivals ⟨[], limit⟩)) ↔
      BodiesComplete app 0 arrivals :=
  ⟨fun h => complete_of_shortIsLast rfl (h none), fun h _ => shortIsLast_of_complete h _⟩

end

instance (run : Wire × List Mark) : Decidable (ShortIsLast run) :=
  inferInstanceAs (Decidable (∀ m ∈ run.2, m.short = true → run.1.sent.length = m.endsAt))

theorem response_after_short :
    ¬ ShortIsLast (serveConnection (fun _ => 0)
      (fun n _ => if n = 0 then ⟨200, [], .stream 5 [.data [1, 2]]⟩ else ⟨404, [], .bytes []⟩) 0
      [.request false ⟨"GET".toList, "/a".toList, none, "HTTP/1.1".toList, [], []⟩,
        .request false ⟨"GET".toList, "/b".toList, none, "HTTP/1.1".toList, [], []⟩]
      ⟨[], none⟩) := by
  decide +kernel

end M6
