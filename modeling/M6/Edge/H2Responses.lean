import M6.Edge.H2Streams

/-!
# The responses that the HTTP/2 server sends

A response is HEADERS, and then DATA that carries its body up to END_STREAM. What is written for a
stream is a response so far (`Delivered`): nothing before it was answered, what fits the windows
then, and nothing after END_STREAM. A stream whose client has not sent END_STREAM stays when its
response is at its end (`Spent`), and whatever sends what can be sent then ends it again. So each
response is delivered as long as that does not happen (`Resends`).
-/

namespace M6.Http2

open List Runs

def responseFrames (id : Nat) (log : List Entry) : List Frame :=
  log.filterMap fun
    | .wrote f => if f.stream = id ∧ (f.ftype = .headers ∨ f.ftype = .data) then some f else none
    | _ => none

def answers (id : Nat) (log : List Entry) : List Bytes :=
  log.filterMap fun
    | .answered stream body => if stream = id then some body else none
    | _ => none

/-- A response that is not at its end: HEADERS, and DATA that carries `sent`. -/
def Going (fs : List Frame) (sent : Bytes) : Prop :=
  ∃ head datas, fs = head :: datas ∧ head.ftype = .headers ∧ (∀ d ∈ datas, d.ftype = .data) ∧
    datas.flatMap Frame.payload = sent ∧ ∀ f ∈ fs, has f.flags flagEndStream = false

def Finished (fs : List Frame) (body : Bytes) : Prop :=
  ∃ fs' sent last, fs = fs' ++ [last] ∧ Going fs' sent ∧ last.ftype = .data ∧
    has last.flags flagEndStream = true ∧ sent ++ last.payload = body

/-- **What was written for a stream is its response**, as far as it goes. -/
def Delivered (log : List Entry) (id : Nat) : Prop :=
  (answers id log = [] ∧ responseFrames id log = []) ∨
    ∃ body, answers id log = [body] ∧
      ((∃ sent, sent <+: body ∧ Going (responseFrames id log) sent) ∨
        Finished (responseFrames id log) body)

theorem responseFrames_append (id : Nat) (l l' : List Entry) :
    responseFrames id (l ++ l') = responseFrames id l ++ responseFrames id l' :=
  filterMap_append ..

theorem answers_append (id : Nat) (l l' : List Entry) :
    answers id (l ++ l') = answers id l ++ answers id l' :=
  filterMap_append ..

theorem has_endStream : has flagEndStream flagEndStream = true := by decide

theorem going_head {head : Frame} (hf : head.ftype = .headers)
    (hend : has head.flags flagEndStream = false) : Going [head] [] :=
  ⟨head, [], rfl, hf, nofun, rfl, fun f hf => by rw [mem_singleton.mp hf]; exact hend⟩

theorem Going.data {fs : List Frame} {sent : Bytes} (h : Going fs sent) {d : Frame}
    (hd : d.ftype = .data) (hend : has d.flags flagEndStream = false) :
    Going (fs ++ [d]) (sent ++ d.payload) := by
  obtain ⟨head, datas, rfl, hhead, hdatas, rfl, hopen⟩ := h
  refine ⟨head, datas ++ [d], rfl, hhead, fun d' hd' => ?_, ?_, fun f hf => ?_⟩
  · rcases mem_append.mp hd' with hd' | hd'
    · exact hdatas d' hd'
    · rw [mem_singleton.mp hd']
      exact hd
  · rw [flatMap_append, flatMap_singleton]
  · rcases mem_append.mp hf with hf | hf
    · exact hopen f hf
    · rw [mem_singleton.mp hf]
      exact hend

theorem Going.last {fs : List Frame} {sent : Bytes} (h : Going fs sent) {d : Frame}
    (hd : d.ftype = .data) (hend : has d.flags flagEndStream = true) {body : Bytes}
    (hbody : sent ++ d.payload = body) : Finished (fs ++ [d]) body :=
  ⟨fs, sent, d, rfl, h, hd, hend, hbody⟩

theorem Going.countP {fs : List Frame} {sent : Bytes} (h : Going fs sent) :
    fs.countP (fun f => has f.flags flagEndStream) = 0 := by
  obtain ⟨head, datas, rfl, -, -, -, hopen⟩ := h
  exact countP_eq_zero.mpr fun f hf => Bool.eq_false_iff.mp (hopen f hf)

/-- **There is one END_STREAM** at most. -/
theorem Delivered.countP {log : List Entry} {id : Nat} (h : Delivered log id) :
    (responseFrames id log).countP (fun f => has f.flags flagEndStream) ≤ 1 := by
  rcases h with ⟨-, hnone⟩ | ⟨body, -, ⟨sent, -, hgo⟩ | ⟨fs, sent, last, hfs, hgo, -⟩⟩
  · rw [hnone]
    exact Nat.zero_le _
  · rw [hgo.countP]
    exact Nat.zero_le _
  · rw [hfs, countP_append, hgo.countP, Nat.zero_add]
    exact countP_le_length

namespace Conn

/-- A stream whose response is at its end. The response of a stream that is not there any more does
not count, nor one without a body, which is sent as soon as it is given. -/
def Spent (s : Stream) : Prop :=
  ∃ body, s.respBody = some body ∧ body ≠ [] ∧ s.respSent = body.length

/-- A WINDOW_UPDATE frame whose increment is added, or is for a stream that is gone. -/
structure Credits (c : Conn) (f : Frame) : Prop extends Allowed c f where
  ftype : f.ftype = .windowUpdate
  nonzero : low31 (bigEndian (f.payload.take 4)) ≠ 0
  connection : f.stream = 0 → c.connSendWindow + low31 (bigEndian (f.payload.take 4)) ≤ maxWindow
  stream : f.stream ≠ 0 → ∀ s, c.streams.get? f.stream = some s →
    s.sendWindow + low31 (bigEndian (f.payload.take 4)) ≤ maxWindow
  closed : f.stream ≠ 0 → c.streams.get? f.stream = none → ∀ w, c.closedWindow f.stream = some w →
    w + low31 (bigEndian (f.payload.take 4)) ≤ maxWindow

def CompletesAnswered (libs : Libs) (env : Env) (c : Conn) (f : Frame) : Prop :=
  ∃ s, Completes libs env c f s ∧ ready s = true ∧ ¬ Invalid s ∧
    ∃ status headers body, outcomeOf env s = .ready status headers body

/-- An event after which what can be sent is sent: what became unblocked goes out, a backend has
answered, credit comes, or a request is answered at once. -/
def Flushing (libs : Libs) (c : Conn) : Event → Prop
  | .flush _ => True
  | .answer _ stream _ _ _ =>
    c.phase ≠ .done ∧ ∃ s, c.streams.get? stream = some s ∧ s.pending ≠ none
  | .frame env => ∃ f rest, c.nextFrame = some (f, rest) ∧
      ((c.enter.take f rest).Credits f ∨ CompletesAnswered libs env (c.enter.take f rest) f)
  | _ => False

/-- What can be sent is sent while there is a stream whose response is at its end. -/
def Resends (libs : Libs) (c : Conn) (e : Event) : Prop :=
  (∃ id s, c.streams.get? id = some s ∧ Spent s) ∧ c.Flushing libs e

/-- **What a connection owes on a stream**: an answer, the rest of one, or nothing more. -/
structure Owes (c : Conn) (id : Nat) (s : Stream) : Prop where
  before : s.respBody = none → answers id c.log = [] ∧ responseFrames id c.log = []
  pending : s.pending ≠ none → s.respBody = none
  after : ∀ body, s.respBody = some body → answers id c.log = [body] ∧
    (Spent s ∧ Finished (responseFrames id c.log) body ∨
      ¬ Spent s ∧ Going (responseFrames id c.log) (body.take s.respSent))

/-- What a connection keeps of the responses. -/
structure Delivers (c : Conn) : Prop where
  fresh : ∀ id, c.lastStreamId < id → answers id c.log = [] ∧ responseFrames id c.log = []
  all : ∀ id, Delivered c.log id
  live : ∀ id s, c.streams.get? id = some s → c.Owes id s

def SameResponse (id : Nat) (c c' : Conn) : Prop :=
  responseFrames id c'.log = responseFrames id c.log ∧ answers id c'.log = answers id c.log

def SameOwed (s s' : Stream) : Prop :=
  s'.respBody = s.respBody ∧ s'.respSent = s.respSent ∧ s'.pending = s.pending

variable {libs : Libs} {env : Env} {c c' : Conn} {f : Frame}

theorem Delivers.new : Conn.new.Delivers where
  fresh := fun _ _ => ⟨rfl, rfl⟩
  all := fun _ => .inl ⟨rfl, rfl⟩
  live := nofun

/-! ## What is no response -/

variable {id : Nat}

theorem sameResponse_of_appends {P : Entry → Prop}
    (hP : ∀ e, P e → responseFrames id [e] = [] ∧ answers id [e] = []) (h : Appends P c c') :
    SameResponse id c c' := by
  obtain ⟨es, hes, hall⟩ := h
  have hnone : responseFrames id es = [] ∧ answers id es = [] := by
    clear hes
    induction es with
    | nil => exact ⟨rfl, rfl⟩
    | cons e es ih =>
      obtain ⟨hf, ha⟩ := hP e (hall e mem_cons_self)
      obtain ⟨hf', ha'⟩ := ih fun e he => hall e (mem_cons_of_mem _ he)
      rw [← singleton_append, responseFrames_append, answers_append, hf, hf', ha, ha']
      exact ⟨rfl, rfl⟩
  rw [SameResponse, hes, responseFrames_append, answers_append, hnone.1, hnone.2,
    append_nil, append_nil]
  exact ⟨rfl, rfl⟩

theorem responseFrames_other {f : Frame}
    (h : f.stream ≠ id ∨ f.ftype ≠ .headers ∧ f.ftype ≠ .data) :
    responseFrames id [.wrote f] = [] := by
  have hno : ¬ (f.stream = id ∧ (f.ftype = .headers ∨ f.ftype = .data)) := by
    rintro ⟨hid, hf⟩
    rcases h with h | ⟨h₁, h₂⟩
    · exact h hid
    · exact hf.elim h₁ h₂
  rw [responseFrames, filterMap_cons]
  dsimp only
  rw [if_neg hno]
  rfl

theorem responseFrames_own {f : Frame} (hid : f.stream = id)
    (hf : f.ftype = .headers ∨ f.ftype = .data) : responseFrames id [.wrote f] = [f] := by
  rw [responseFrames, filterMap_cons]
  dsimp only
  rw [if_pos ⟨hid, hf⟩]
  rfl

theorem sameResponse_handler (h : Appends ofHandler c c') : SameResponse id c c' := by
  refine sameResponse_of_appends (fun e he => ?_) h
  cases e with
  | wrote f =>
    refine ⟨responseFrames_other (.inr ?_), rfl⟩
    rcases he with he | he
    · constructor
      all_goals
        intro hf
        rw [hf] at he
        exact absurd he (by decide)
    · rw [he]
      exact ⟨nofun, nofun⟩
  | _ => exact False.elim he

theorem sameOwed_refl (s : Stream) : SameOwed s s := ⟨rfl, rfl, rfl⟩

theorem Owes.same {s s' : Stream} (h : c.Owes id s) (hlog : SameResponse id c c')
    (hs : SameOwed s s') : c'.Owes id s' := by
  obtain ⟨hbody, hsent, hpending⟩ := hs
  have hspent : Spent s' ↔ Spent s := by
    unfold Spent
    rw [hbody, hsent]
  constructor
  · rw [hbody, hlog.1, hlog.2]
    exact h.before
  · rw [hbody, hpending]
    exact h.pending
  · rw [hbody, hlog.1, hlog.2, hspent, hsent]
    exact h.after

theorem Delivers.same (h : c.Delivers) (hlog : ∀ id, SameResponse id c c')
    (hlast : c.lastStreamId ≤ c'.lastStreamId) (hstreams : ∀ id s', c'.streams.get? id = some s' →
      (∃ s, c.streams.get? id = some s ∧ SameOwed s s') ∨
        c.lastStreamId < id ∧ s'.respBody = none ∧ s'.pending = none) : c'.Delivers where
  fresh := fun id hid => by
    obtain ⟨ha, hf⟩ := h.fresh id (hlast.trans_lt hid)
    exact ⟨(hlog id).2.trans ha, (hlog id).1.trans hf⟩
  all := fun id => by
    unfold Delivered
    rw [(hlog id).1, (hlog id).2]
    exact h.all id
  live := fun id s' hs' => by
    rcases hstreams id s' hs' with ⟨s, hs, hsame⟩ | ⟨hnew, hbody, hpending⟩
    · exact (h.live id s hs).same (hlog id) hsame
    · obtain ⟨ha, hf⟩ := h.fresh id hnew
      refine ⟨fun _ => ⟨(hlog id).2.trans ha, (hlog id).1.trans hf⟩,
        fun hno => absurd hpending hno, fun body hno => ?_⟩
      exact nomatch hbody.symm.trans hno

theorem Delivers.handles {c₁ : Conn} {tail : Tail} (h : c.Delivers)
    (hh : Handles libs env c f c₁ tail) : c₁.Delivers := by
  refine h.same (fun id => sameResponse_handler hh.ofHandler) hh.last fun id s' hs' => ?_
  rcases hh.streams hs' with ⟨s, w, hs, rfl⟩ | ⟨rfl, hch, -⟩
  · exact .inl ⟨s, hs, rfl, rfl, rfl⟩
  · rcases hch.origin with ⟨s, hs, hbody, hsent, hpending, -⟩ | ⟨-, hnew, -, hbody, hpending, -⟩
    · exact .inl ⟨s, hs, hbody, hsent, hpending⟩
    · exact .inr ⟨hnew, hbody, hpending⟩

/-! ## Sending -/

variable {stream : Nat} {s : Stream}

theorem Delivers.wrote (h : c.Delivers) {body : Bytes} {d : Frame}
    (hs : c.streams.get? stream = some s) (hbody : s.respBody = some body)
    (hid : d.stream = stream) (hlog : c'.log = c.log ++ [.wrote d])
    (hlast : c.lastStreamId ≤ c'.lastStreamId)
    (hother : ∀ id, id ≠ stream → c'.streams.get? id = c.streams.get? id)
    (hall : Delivered c'.log stream)
    (hlive : ∀ s', c'.streams.get? stream = some s' → c'.Owes stream s') : c'.Delivers := by
  have hsame (id : Nat) (hne : id ≠ stream) : SameResponse id c c' := by
    rw [SameResponse, hlog, responseFrames_append, answers_append,
      responseFrames_other (.inl fun heq => hne (heq.symm.trans hid)), append_nil]
    exact ⟨rfl, append_nil _⟩
  refine ⟨fun id hnew => ?_, fun id => ?_, fun id s' hs' => ?_⟩
  · have hne : id ≠ stream := by
      rintro rfl
      have hnone := (h.fresh id (hlast.trans_lt hnew)).1
      have hsome := ((h.live id s hs).after body hbody).1
      exact nomatch hnone.symm.trans hsome
    obtain ⟨ha, hf⟩ := h.fresh id (hlast.trans_lt hnew)
    exact ⟨(hsame id hne).2.trans ha, (hsame id hne).1.trans hf⟩
  · by_cases hne : id = stream
    · exact hne ▸ hall
    · unfold Delivered
      rw [(hsame id hne).1, (hsame id hne).2]
      exact h.all id
  · by_cases hne : id = stream
    · subst hne
      exact hlive s' hs'
    · rw [hother id hne] at hs'
      exact (h.live id s' hs').same (hsame id hne) (sameOwed_refl s')

theorem responseFrames_wrote {d : Frame} (hd : d.ftype = .data)
    (hid : d.stream = stream) (hlog : c'.log = c.log ++ [.wrote d]) :
    responseFrames stream c'.log = responseFrames stream c.log ++ [d] ∧
      answers stream c'.log = answers stream c.log := by
  rw [hlog, responseFrames_append, answers_append, responseFrames_own hid (.inr hd)]
  exact ⟨rfl, append_nil _⟩

theorem take_append_chunk (body : Bytes) (i n : Nat) :
    body.take i ++ (body.take (i + n)).drop i = body.take (i + n) := by
  rw [drop_take, Nat.add_sub_cancel_left, ← take_add]

theorem Delivers.chunkSent (h : c.Delivers) (hid : stream < 2 ^ 31)
    {body : Bytes} {n : Nat} (hs : c.streams.get? stream = some s) (hbody : s.respBody = some body)
    (hgo : Going (responseFrames stream c.log) (body.take s.respSent))
    (hpart : s.respSent + n ≠ body.length) : (c.chunkSent stream s body n).Delivers := by
  have hlog : (c.chunkSent stream s body n).log = c.log ++ [.wrote ⟨.data, 0, low31 stream,
      (body.take (s.respSent + n)).drop s.respSent⟩] := by
    change c.log ++ [.wrote ⟨.data, if _ then _ else _, _, _⟩] = _
    rw [if_neg hpart]
  have howes := h.live stream s hs
  obtain ⟨hframes, hans⟩ := responseFrames_wrote rfl (low31_of_lt hid) hlog
  have hmore :=
    hgo.data (d := ⟨.data, 0, low31 stream, (body.take (s.respSent + n)).drop s.respSent⟩)
    rfl (show has 0 flagEndStream = false by decide)
  rw [take_append_chunk, ← hframes] at hmore
  rw [(howes.after body hbody).1] at hans
  refine h.wrote hs hbody (low31_of_lt hid) hlog (le_refl _) (fun id hne => ?_)
    (.inr ⟨body, hans, .inl ⟨_, take_prefix .., hmore⟩⟩) fun s' hs' => ?_
  · rw [get?_chunkSent, if_neg hne]
  · rw [get?_chunkSent, if_pos rfl] at hs'
    cases hs'
    refine ⟨fun hno => (nomatch hbody.symm.trans hno), howes.pending, fun b hb => ?_⟩
    cases hbody.symm.trans hb
    refine ⟨hans, .inr ⟨?_, hmore⟩⟩
    rintro ⟨b, hb, -, hall⟩
    cases hbody.symm.trans hb
    exact hpart hall

theorem Delivers.endStream (h : c.Delivers) (hid : stream < 2 ^ 31)
    {body : Bytes} {n : Nat} (hs : c.streams.get? stream = some s) (hbody : s.respBody = some body)
    (hgo : Going (responseFrames stream c.log) (body.take s.respSent)) (hpos : 0 < n)
    (hall : s.respSent + n = body.length) :
    ((c.chunkSent stream s body n).endStream stream s.state).Delivers := by
  have hlog : ((c.chunkSent stream s body n).endStream stream s.state).log = c.log ++ [.wrote
      ⟨.data, flagEndStream, low31 stream, (body.take (s.respSent + n)).drop s.respSent⟩] := by
    rw [log_endStream]
    change c.log ++ [.wrote ⟨.data, if _ then _ else _, _, _⟩] = _
    rw [if_pos hall]
  have howes := h.live stream s hs
  have hsent := get?_chunkSent c stream s body n stream
  rw [if_pos rfl] at hsent
  obtain ⟨hframes, hans⟩ := responseFrames_wrote rfl (low31_of_lt hid) hlog
  have hdone := hgo.last (d := ⟨.data, flagEndStream, low31 stream,
    (body.take (s.respSent + n)).drop s.respSent⟩) rfl has_endStream (show _ = body by
      rw [take_append_chunk, hall, take_length])
  rw [← hframes] at hdone
  rw [(howes.after body hbody).1] at hans
  have hlast : c.lastStreamId ≤
    ((c.chunkSent stream s body n).endStream stream s.state).lastStreamId :=
    (Follows.endStream (c.chunkSent stream s body n) stream hsent).last
  refine h.wrote hs hbody (low31_of_lt hid) hlog hlast (fun id hne => ?_)
    (.inr ⟨body, hans, .inr hdone⟩) fun s' hs' => ?_
  · rw [get?_endStream _ _ _ hne, get?_chunkSent, if_neg hne]
  · -- the stream is still there, as its client has not ended it
    have hkept : s'.respBody = some body ∧ s'.respSent = body.length ∧ s'.pending = s.pending := by
      unfold Conn.endStream at hs'
      split_ifs at hs' with hstate hodd
      · exact nomatch ((get?_closeStream ..).trans (if_pos rfl)).symm.trans hs'
      · exact nomatch ((get?_closeStream ..).trans (if_pos rfl)).symm.trans hs'
      · obtain ⟨m, hm, hget⟩ := updateStream_eq (c.chunkSent stream s body n) stream
          fun s => { s with state := .halfClosedLocal }
        rw [hm] at hs'
        have hs₁ := (hget stream).symm.trans hs'
        rw [if_pos rfl, hsent] at hs₁
        cases hs₁
        exact ⟨hbody, hall, rfl⟩
    obtain ⟨hbody', hsent', hpending'⟩ := hkept
    refine ⟨fun hno => (nomatch hbody'.symm.trans hno), fun hno => ?_, fun b hb => ?_⟩
    · rw [hpending'] at hno
      exact nomatch (howes.pending hno).symm.trans hbody
    · cases hbody'.symm.trans hb
      refine ⟨hans, .inl ⟨⟨body, hbody', ?_, hsent'⟩, hdone⟩⟩
      rintro rfl
      rw [length_nil] at hall
      omega

theorem Delivers.drained (h : c.Delivers) {stream : Nat} (hid : stream < 2 ^ 31) {s : Stream}
    {body : Bytes} (hs : c.streams.get? stream = some s) (hbody : s.respBody = some body)
    (hgo : Going (responseFrames stream c.log) (body.take s.respSent))
    (hall : s.respSent = body.length) :
    ((c.pushFrame .data flagEndStream stream []).closeStreamRememberingWindow stream).Delivers := by
  have hlog := log_closeStream (c.pushFrame .data flagEndStream stream []) stream
  have hclose := get?_closeStream (c.pushFrame .data flagEndStream stream []) stream
  obtain ⟨hframes, hans⟩ := responseFrames_wrote rfl (low31_of_lt hid) hlog
  have hdone := hgo.last (d := ⟨.data, flagEndStream, low31 stream, []⟩) rfl has_endStream
    (show _ = body by rw [hall, take_length, append_nil])
  rw [← hframes] at hdone
  rw [((h.live stream s hs).after body hbody).1] at hans
  have hlast := (Follows.closeStream (c.pushFrame .data flagEndStream stream []) stream).last
  refine h.wrote hs hbody (low31_of_lt hid) hlog hlast (fun id hne => ?_)
    (.inr ⟨body, hans, .inr hdone⟩) fun s' hs' => ?_
  · exact (hclose id).trans (if_neg hne)
  · exact nomatch ((hclose stream).trans (if_pos rfl)).symm.trans hs'

/-- **What is sent on a stream** goes on with its response, unless that is at its end. -/
theorem Sends.delivers (hsends : Sends stream c c') (h : c.Delivers)
    (hid : stream < 2 ^ 31) (hnot : ∀ s, c.streams.get? stream = some s → ¬ Spent s) :
    c'.Delivers := by
  have going {c : Conn} (h : c.Delivers) {s : Stream} {body : Bytes}
      (hs : c.streams.get? stream = some s) (hbody : s.respBody = some body) (hns : ¬ Spent s) :
      Going (responseFrames stream c.log) (body.take s.respSent) := by
    obtain ⟨-, ⟨hspent, -⟩ | ⟨-, hgo⟩⟩ := (h.live stream s hs).after body hbody
    · exact absurd hspent hns
    · exact hgo
  induction hsends with
  | nothing c => exact h
  | drained hs hbody hall => exact h.drained hid hs hbody (going h hs hbody (hnot _ hs)) hall
  | last hs hbody ha hall =>
    exact h.endStream hid hs hbody (going h hs hbody (hnot _ hs)) ha.pos hall
  | @chunk c c' s body n hs hbody ha hpart rest ih =>
    have hgo := going h hs hbody (hnot _ hs)
    refine ih (h.chunkSent hid hs hbody hgo hpart) fun s' hs' => ?_
    rw [get?_chunkSent, if_pos rfl] at hs'
    cases hs'
    rintro ⟨b, hb, -, hall⟩
    cases hbody.symm.trans hb
    exact hpart hall

theorem Flushes.delivers {ids : List Nat} (hf : Flushes ids c c') (h : c.Delivers)
    (hnodup : ids.Nodup) (hid : ∀ id ∈ ids, id < 2 ^ 31)
    (hnot : ∀ id ∈ ids, ∀ s, c.streams.get? id = some s → ¬ Spent s) : c'.Delivers := by
  induction hf with
  | nil c => exact h
  | @cons stream ids c c₁ c' first rest ih =>
    obtain ⟨hnew, hnodup⟩ := nodup_cons.mp hnodup
    have hc₁ := first.delivers h (hid stream mem_cons_self) (hnot stream mem_cons_self)
    refine ih hc₁ hnodup (fun id hin => hid id (mem_cons_of_mem _ hin)) fun id hin s hs => ?_
    have hne : id ≠ stream := fun heq => hnew (heq ▸ hin)
    rw [first.other hne] at hs
    exact hnot id (mem_cons_of_mem _ hin) s hs

/-- **What can be sent is sent**, while no response is at its end. -/
theorem Delivers.flushes (h : c.Delivers) (hf : Flushes (c.flushOrder env) c c')
    (hid : ∀ id s, c.streams.get? id = some s → id < 2 ^ 31)
    (hnot : ∀ id s, c.streams.get? id = some s → ¬ Spent s) : c'.Delivers := by
  have hperm := env.order_perm (c.streams.entries.map Prod.fst)
  refine hf.delivers h (hperm.nodup_iff.mpr (SortedMap.nodup_keys _)) (fun id hin => ?_)
    fun id _ s hs => hnot id s hs
  obtain ⟨s, hs⟩ := SortedMap.mem_keys.mp (hperm.mem_iff.mp hin)
  exact hid id s hs

/-! ## Answers -/

theorem Delivers.respond (h : c.Delivers) (hknown : stream ≤ c.lastStreamId)
    (hid : stream < 2 ^ 31) (hs : c.streams.get? stream = some s) (hbody : s.respBody = none)
      (hpending : s.pending = none)
    (libs : Libs) (status : Nat) (headers : List (Str × Str)) (body : Bytes) (method : Str) :
    (c.respond libs stream status headers body method).Delivers := by
  have hlog := log_respond libs c stream status headers body method
  generalize hhead : (⟨.headers, flagEndHeaders, low31 stream,
    libs.encode c.hpackEnc (responseFields libs status headers body.length)⟩ : Frame) = head at hlog
  have hlow : head.stream = stream := by
    rw [← hhead]
    exact low31_of_lt hid
  have hgo : Going [head] [] := by
    rw [← hhead]
    exact going_head rfl (show has flagEndHeaders flagEndStream = false by decide)
  have hlast := (Follows.respond libs c stream status headers body method).last
  have hget := get?_respond libs c stream status headers body method
  obtain ⟨hans, hframes⟩ := (h.live stream s hs).before hbody
  have hsame (id : Nat) (hne : id ≠ stream) :
      SameResponse id c (c.respond libs stream status headers body method) := by
    rw [SameResponse, hlog, ← singleton_append, responseFrames_append, responseFrames_append,
      answers_append, answers_append,
      responseFrames_other (.inl fun heq => hne (heq.symm.trans hlow))]
    refine ⟨append_nil _, ?_⟩
    change _ ++ (filterMap _ [_] ++ []) = _
    rw [filterMap_cons]
    dsimp only
    rw [if_neg (Ne.symm hne)]
    exact append_nil _
  have hans' : answers stream (c.respond libs stream status headers body method).log =
      [sentBody method body] := by
    rw [hlog, answers_append, hans, nil_append]
    change filterMap _ [_, _] = _
    rw [filterMap_cons]
    dsimp only
    rw [if_pos rfl]
    rfl
  have hframes' : responseFrames stream (c.respond libs stream status headers body method).log =
      [head] := by
    rw [hlog, responseFrames_append, hframes, nil_append, ← singleton_append,
      responseFrames_append, responseFrames_own hlow (.inl (by rw [← hhead]))]
    rfl
  refine ⟨fun id hnew => ?_, fun id => ?_, fun id s' hs' => ?_⟩
  · have hne : id ≠ stream := by
      rintro rfl
      exact absurd hnew (not_lt.mpr (hknown.trans hlast))
    obtain ⟨ha, hf⟩ := h.fresh id (hlast.trans_lt hnew)
    exact ⟨(hsame id hne).2.trans ha, (hsame id hne).1.trans hf⟩
  · by_cases hne : id = stream
    · subst hne
      refine .inr ⟨_, hans', .inl ⟨[], nil_prefix, ?_⟩⟩
      rw [hframes']
      exact hgo
    · unfold Delivered
      rw [(hsame id hne).1, (hsame id hne).2]
      exact h.all id
  · rw [hget] at hs'
    split_ifs at hs' with hne
    · subst hne
      rw [hs] at hs'
      cases hs'
      refine ⟨nofun, fun hno => absurd hpending hno, fun b hb => ?_⟩
      cases hb
      refine ⟨hans', .inr ⟨?_, ?_⟩⟩
      · rintro ⟨b, hb, hne, hall⟩
        cases hb
        exact hne (length_eq_zero_iff.mp hall.symm)
      · rw [hframes']
        exact hgo
    · exact (h.live id s' hs').same (hsame id hne) (sameOwed_refl s')

theorem not_spent_setBody (s : Stream) (body : Bytes) : ¬ Spent (setBody s body) := by
  rintro ⟨b, hb, hne, hall⟩
  cases hb
  exact hne (length_eq_zero_iff.mp hall.symm)

theorem ready_new (h : ready s = true) : s.respBody = none ∧ s.pending = none := by
  have hno := not_asked_of_ready h
  unfold Asked at hno
  rwa [not_or, not_not, not_not] at hno

theorem Delivers.setPending (h : c.Delivers) (stream : Nat) {c' : Conn}
    (hlog : ∀ id, SameResponse id c c') (hlast : c.lastStreamId ≤ c'.lastStreamId)
    (hbody : ∀ s, c.streams.get? stream = some s → s.respBody = none)
    (hstreams : ∀ id s', c'.streams.get? id = some s' → ∃ s, c.streams.get? id = some s ∧
      (SameOwed s s' ∨ id = stream ∧ s'.respBody = s.respBody)) : c'.Delivers where
  fresh := fun id hid => by
    obtain ⟨ha, hf⟩ := h.fresh id (hlast.trans_lt hid)
    exact ⟨(hlog id).2.trans ha, (hlog id).1.trans hf⟩
  all := fun id => by
    unfold Delivered
    rw [(hlog id).1, (hlog id).2]
    exact h.all id
  live := fun id s' hs' => by
    obtain ⟨s, hs, hsame | ⟨rfl, heq⟩⟩ := hstreams id s' hs'
    · exact (h.live id s hs).same (hlog id) hsame
    · have hnone : s'.respBody = none := heq.trans (hbody s hs)
      obtain ⟨ha, hf⟩ := (h.live id s hs).before (hbody s hs)
      refine ⟨fun _ => ⟨(hlog id).2.trans ha, (hlog id).1.trans hf⟩, fun _ => hnone, fun b hb => ?_⟩
      exact nomatch hnone.symm.trans hb

theorem sameResponse_handOver (c : Conn) (stream : Nat) (req : RawRequest) (id : Nat) :
    SameResponse id c (c.handOver stream req) :=
  sameResponse_of_appends (P := fun e => ∃ req, e = .handed stream req)
    (by rintro e ⟨req, rfl⟩; exact ⟨rfl, rfl⟩) (.single ⟨req, rfl⟩ rfl)

/-- **A request that is handed over** is answered once, then or later. -/
theorem Dispatches.delivers (hd : Dispatches libs env stream c c') (h : c.Delivers) (ho : c.Ordered)
    (hnot : ∀ s status headers body, c.streams.get? stream = some s → ready s = true →
      ¬ Invalid s → outcomeOf env s = .ready status headers body →
      ∀ id s, c.streams.get? id = some s → ¬ Spent s) : c'.Delivers := by
  have hgiven (req : RawRequest) : (c.handOver stream req).Delivers :=
    h.same (sameResponse_handOver c stream req) (le_refl _)
      fun id s hs => .inl ⟨s, hs, sameOwed_refl s⟩
  cases hd with
  | notReady => exact h
  | rejected =>
    refine h.same (fun id => sameResponse_handler (.single (.inl mem_cons_self) rfl))
      (le_refl _) fun id s' hs' => ?_
    change (c.streams.erase stream).get? id = some s' at hs'
    rw [SortedMap.get?_erase] at hs'
    split_ifs at hs'
    exact .inl ⟨s', hs', sameOwed_refl s'⟩
  | @pending s hs hr hgood hout =>
    obtain ⟨m, hm, hget⟩ := updateStream_eq (c.handOver stream (requestOf s)) stream
      fun s' => { s' with pending := some (requestOf s).method }
    rw [hm]
    refine h.setPending stream (sameResponse_handOver c stream (requestOf s))
      (le_refl _) (fun s₀ hs₀ => ?_) fun id s' hs' => ?_
    · cases hs.symm.trans hs₀
      exact (ready_new hr).1
    · change m.get? id = some s' at hs'
      rw [hget] at hs'
      split_ifs at hs' with hid
      · obtain ⟨s₀, hs₀, rfl⟩ := Option.map_eq_some_iff.mp hs'
        exact ⟨s₀, hs₀, .inr ⟨hid, rfl⟩⟩
      · exact ⟨s', hs', .inl (sameOwed_refl s')⟩
  | @answered s status headers body c' hs hr hgood hout hf =>
    obtain ⟨hknown, -, hid⟩ := ho.known stream s hs
    obtain ⟨hbody, hpending⟩ := ready_new hr
    have hresp := (hgiven (requestOf s)).respond (s := s) hknown hid hs hbody hpending libs status
      headers body (requestOf s).method
    have hstreams (id : Nat) (s' : Stream) (hs' : ((c.handOver stream (requestOf s)).respond libs
        stream status headers body (requestOf s).method).streams.get? id = some s') :
        (∃ s, c.streams.get? id = some s) ∧ ¬ Spent s' := by
      rw [get?_respond] at hs'
      split_ifs at hs'
      · obtain ⟨s₀, hs₀, rfl⟩ := Option.map_eq_some_iff.mp hs'
        exact ⟨⟨s₀, hs₀⟩, not_spent_setBody s₀ _⟩
      · exact ⟨⟨s', hs'⟩, hnot s status headers body hs hr hgood hout id s' hs'⟩
    refine hresp.flushes hf (fun id s' hs' => ?_) fun id s' hs' => (hstreams id s' hs').2
    obtain ⟨s₀, hs₀⟩ := (hstreams id s' hs').1
    exact (ho.known id s₀ hs₀).2.2

/-! ## Steps -/

theorem Delivers.quiet (h : c.Delivers) (happ : Appends ofHandler c c')
    (hlast : c'.lastStreamId = c.lastStreamId) (hstreams : c'.streams = c.streams) : c'.Delivers :=
  h.same (fun _ => sameResponse_handler happ) hlast.ge fun _ s hs =>
    .inl ⟨s, hstreams ▸ hs, sameOwed_refl s⟩

theorem Delivers.enter (h : c.Delivers) : c.enter.Delivers :=
  h.quiet (ofHandler_enter c) (streams_enter c).2 (streams_enter c).1

theorem Delivers.take (h : c.Delivers) (f : Frame) (rest : Bytes) : (c.take f rest).Delivers := by
  have happ : Appends (fun e => e = .took f) c (c.take f rest) :=
    .single (P := fun e => e = .took f) rfl rfl
  refine h.same (fun id => sameResponse_of_appends ?_ happ) (le_refl _) fun id s hs =>
    .inl ⟨s, hs, sameOwed_refl s⟩
  rintro e rfl
  exact ⟨rfl, rfl⟩

theorem Delivers.giveUp (h : c.Delivers) : c.giveUp.Delivers :=
  h.quiet (ofHandler_giveUp c) (streams_giveUp c).2 (streams_giveUp c).1

theorem Handles.credits {c₁ : Conn} (hh : Handles libs env c f c₁ .flush) : c.Credits f := by
  generalize ht : Tail.flush = tail at hh
  cases hh with
  | connCredit ha hf hinc hpos hid hfit =>
    subst hinc
    exact ⟨ha, hf, hpos, fun _ => hfit, fun hno => absurd hid hno, fun hno => absurd hid hno⟩
  | streamCredit ha hf hinc hpos hid hs hfit =>
    subst hinc
    refine ⟨ha, hf, hpos, fun hno => absurd hno hid, fun _ s' hs' => ?_, fun _ hno => ?_⟩
    · cases hs.symm.trans hs'
      exact hfit
    · exact nomatch hs.symm.trans hno
  | closedCredit ha hf hinc hpos hid hs hw hfit =>
    subst hinc
    refine ⟨ha, hf, hpos, fun hno => absurd hno hid, fun _ s' hs' => ?_, fun _ _ w' hw' => ?_⟩
    · exact nomatch hs.symm.trans hs'
    · cases hw.symm.trans hw'
      exact hfit
  | uncredited ha hf hpos hid hs hw =>
    refine ⟨ha, hf, hpos, fun hno => absurd hno hid, fun _ s' hs' => ?_, fun _ _ w' hw' => ?_⟩
    · exact nomatch hs.symm.trans hs'
    · exact nomatch hw.symm.trans hw'
  | data =>
    next htail =>
    rw [htail] at ht
    split_ifs at ht
  | _ => cases ht

theorem Handles.not_spent {c₁ : Conn} {tail : Tail} (hh : Handles libs env c f c₁ tail)
    (hnot : ∀ id s, c.streams.get? id = some s → ¬ Spent s) :
    ∀ id s, c₁.streams.get? id = some s → ¬ Spent s := by
  rintro id s' hs' ⟨body, hbody', hne, hall⟩
  rcases hh.streams hs' with ⟨s, w, hs, rfl⟩ | ⟨rfl, hch, -⟩
  · exact hnot id s hs ⟨body, hbody', hne, hall⟩
  · rcases hch.origin with ⟨s, hs, hbody, hsent, -⟩ | ⟨-, -, -, hnone, -⟩
    · exact hnot _ s hs ⟨body, hbody.symm.trans hbody', hne, hsent.symm.trans hall⟩
    · exact nomatch hnone.symm.trans hbody'

/-- **One step** delivers what it sends, unless a response is at its end. -/
theorem Steps.delivers {e : Event} (hs : Steps libs c e c') (h : c.Delivers) (ho : c.Ordered)
    (hok : ¬ c.Resends libs e) : c'.Delivers := by
  have quiet (hflush : c.Flushing libs e) : ∀ id s, c.streams.get? id = some s → ¬ Spent s :=
    fun id s hs hspent => hok ⟨⟨id, s, hs, hspent⟩, hflush⟩
  cases hs with
  | still => exact h
  | arrive | ioFailed | settled => exact h.quiet (.same rfl) rfl rfl
  | waits => exact h.enter
  | badPreface => exact h.giveUp
  | tooLarge =>
    have herr : (c.enter.connectionError errFrameSize).Delivers :=
      h.enter.quiet (.single (.inr rfl) rfl) rfl rfl
    exact herr.giveUp
  | @frame env f rest c₁ _ tail hp hf hh hl =>
    have hc₁ := (h.enter.take f rest).handles hh
    have ho₁ := (ho.take f rest).handles hh (nextFrame_bounds hf).2
    have hquiet (hflush : c.Flushing libs (.frame env)) :
        ∀ id s, c₁.streams.get? id = some s → ¬ Spent s := by
      refine hh.not_spent fun id s hs => quiet hflush id s ?_
      rwa [← (streams_enter c).1]
    cases hl with
    | ok => exact hc₁
    | flush hflush =>
      exact hc₁.flushes hflush (fun id s hs => (ho₁.known id s hs).2.2)
        (hquiet ⟨f, rest, hf, .inl hh.credits⟩)
    | dispatch hd =>
      refine hd.delivers hc₁ ho₁ fun s status headers body hs hr hgood hout => ?_
      obtain ⟨rfl, s', hcomp, hs'⟩ := hh.completes
      cases hs.symm.trans hs'
      exact hquiet ⟨f, rest, hf, .inr ⟨s, hcomp, hr, hgood, status, headers, body, hout⟩⟩
  | failed _ _ hh => exact ((h.enter.take _ _).handles (.failed [] hh)).giveUp
  | @answered env stream status headers body s method c' hp hs hm hf =>
    have hpending : s.pending ≠ none := fun hno => nomatch hm.symm.trans hno
    have hquiet := quiet ⟨hp, s, hs, hpending⟩
    have hbody := (h.live stream s hs).pending hpending
    obtain ⟨hknown, -, hid⟩ := ho.known stream s hs
    have hget (id : Nat) : (c.setStream stream { s with pending := none }).streams.get? id =
        if id = stream then some { s with pending := none } else c.streams.get? id :=
      SortedMap.get?_insert ..
    have hset : (c.setStream stream { s with pending := none }).Delivers := by
      refine h.setPending stream (fun id => ⟨rfl, rfl⟩) (le_refl _) (fun s₀ hs₀ => ?_)
        fun id s' hs' => ?_
      · cases hs.symm.trans hs₀
        exact hbody
      · rw [hget] at hs'
        split_ifs at hs' with hid'
        · cases hs'
          exact ⟨s, hid' ▸ hs, .inr ⟨hid', rfl⟩⟩
        · exact ⟨s', hs', .inl (sameOwed_refl s')⟩
    have hresp := hset.respond (s := { s with pending := none }) hknown hid
      ((hget stream).trans (if_pos rfl)) hbody rfl libs status headers body method
    refine hresp.flushes hf (fun id s' hs' => ?_) fun id s' hs' => ?_
    · obtain ⟨s₀, hs₀, -⟩ :=
        (Follows.answerWith libs hs status headers body method).streams id s' hs'
      exact (ho.known id s₀ hs₀).2.2
    · rw [← answerWith, get?_answerWith] at hs'
      split_ifs at hs'
      · cases hs'
        exact not_spent_setBody _ _
      · exact hquiet id s' hs'
  | flushed hf => exact h.flushes hf (fun id s hs => (ho.known id s hs).2.2) (quiet trivial)
  | idled => exact h.quiet (.single (.inr rfl) rfl) rfl rfl

end Conn

/-- **Every response is delivered**, in every state of a run, as long as nothing is sent while there
is a stream whose response is at its end. -/
theorem delivered_of_steps (libs : Libs) (events : List Event)
    (h : EachStep (Conn.step libs) (fun c e => ¬ c.Resends libs e) Conn.new events) :
    Throughout (Conn.step libs) (fun c => ∀ id, Delivered c.log id) Conn.new events :=
  Conn.throughout_kept_of libs (I := fun c => c.Delivers ∧ c.Ordered)
    (fun _ _ _ _ hc hok hs => ⟨hs.delivers hc.1 hc.2 hok, hs.ordered hc.2⟩) (fun _ _ hc => hc.1.all)
    ⟨.new, .new⟩ events h

/-- A handler that answers at once, with a body of one byte. -/
def readyEnv : Env :=
  { plainEnv with onRequest := fun _ _ => .ready 200 [] [0x78] }

theorem delivered_of_steps_slow :
    Throughout (Conn.step postLibs) (fun c => ∀ id, Delivered c.log id) Conn.new slowRun := by
  have hnone : ∀ {c : Conn} {e : Event}, c.streams.entries = [] → ¬ c.Resends postLibs e := by
    rintro c e hc ⟨⟨id, s, hs, -⟩, -⟩
    have hmem := SortedMap.mem_entries.mpr hs
    rw [hc] at hmem
    exact absurd hmem not_mem_nil
  have hone : ∀ {c : Conn} {e : Event} {s : Stream}, c.streams.entries = [(1, s)] →
      s.respBody.all (fun body => s.respSent ≠ body.length) = true → ¬ c.Resends postLibs e := by
    rintro c e s hc hs ⟨⟨id, s', hs', body, hbody, -, hsent⟩, -⟩
    have hmem := SortedMap.mem_entries.mpr hs'
    rw [hc] at hmem
    cases mem_singleton.mp hmem
    rw [hbody] at hs
    simp [hsent] at hs
  exact delivered_of_steps postLibs _ (.cons (hnone rfl) rfl (.cons (hnone rfl) rfl
    (.cons (hnone rfl) rfl (.cons (hone rfl rfl) rfl (.cons (hone rfl rfl) rfl
    ⟨hone rfl rfl, fun _ _ => trivial⟩)))))

/-- A decoder that knows one request, which is answered when its header block is complete. -/
def getLibs : Libs :=
  ⟨fun _ _ => some [(lit ":method", lit "GET"), (lit ":scheme", lit "http"),
    (lit ":path", lit "/"), (lit ":authority", lit "a")], fun _ _ => [], id, []⟩

theorem response_ended_twice :
    ¬ Throughout (Conn.step getLibs) (fun c => ∀ id, Delivered c.log id) Conn.new
      [.arrive (clientPreface ++ [0, 0, 6, 1, 4, 0, 0, 0, 1, 0x82, 0x86, 0x84, 0x41, 1, 0x61]),
        .frame readyEnv,
        .flush readyEnv] := by
  intro h
  have hlast := ((h.2 _ rfl).2 _ rfl).2 _ rfl
  exact absurd (hlast 1).countP (by decide)

end M6.Http2
