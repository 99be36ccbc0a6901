import M6.Edge.H2Client

/-!
# What the outbound HTTP/2 client writes

A run of a connection is a list of events: requests that are dispatched, frames of the peer,
and the loss of the socket. Its notes are what both sides did, in order, and `lawful_iff` says
when every frame that the client wrote respects what the peer had granted by then.

The proof follows the ledger of the notes along the run. The connection's own windows never
promise more than the ledger (`Tracks`): a change of the initial window is added with
saturation, which can only lose credit, since a stream is never overdrawn by more than the
largest initial window.
-/

namespace M6

open List FlowControl Option SortedMap

namespace ClientConn

variable {hp : Hpack}

/-! ## Runs -/

/-- What happens to a connection. -/
inductive ClientEvent where
  | dispatch (d : Dispatch)
  | receive (f : Frame)
  | lost (reason : Str)

section
variable (kind : ClientKind) (iter : Iter hp)

def step (c : ClientConn hp) : ClientEvent → ClientConn hp
  | .dispatch d => (dispatch kind c d).2
  | .receive f => c.receive kind iter f
  | .lost reason => if c.isDead then c else c.markDead reason

def run (c : ClientConn hp) (events : List ClientEvent) : ClientConn hp :=
  events.foldl (step kind iter) c

theorem step_of_dead {c : ClientConn hp} (h : c.isDead = true) (e : ClientEvent) :
    step kind iter c e = c := by
  cases e with
  | dispatch d => simp [step, dispatch, h]
  | receive f => simp [step, receive, h]
  | lost reason => simp [step, h]

theorem run_of_dead {c : ClientConn hp} (h : c.isDead = true) (events : List ClientEvent) :
    run kind iter c events = c := by
  induction events with
  | nil => rfl
  | cons e events ih =>
    rw [run, foldl_cons, step_of_dead kind iter h]
    exact ih

theorem run_append (c : ClientConn hp) (events more : List ClientEvent) :
    run kind iter c (events ++ more) = run kind iter (run kind iter c events) more :=
  foldl_append

end

/-! ## Notes -/

/-- What a setting tells the sender. A value out of range is not a setting. -/
def settingNote : Nat × Nat → List (Note UInt8)
  | (4, val) => if (val : Int) ≤ maxWindow then [.initialWindow val] else []
  | (5, val) => if 16384 ≤ val ∧ val ≤ 16777215 then [.maxFrame val] else []
  | _ => []

def grants (f : Frame) : List (Note UInt8) :=
  match f.ftype with
  | .settings => if f.has flagAck then [] else (settingsPairs f.payload).flatMap settingNote
  | .windowUpdate =>
    match increment f.payload with
    | none => []
    | some n => [if f.stream = 0 then .connCredit n else .streamCredit f.stream n]
  | _ => []

def written (f : Frame) : Note UInt8 :=
  match f.ftype with
  | .data => .data f.stream f.payload (f.has flagEndStream)
  | .headers => .head f.stream f.payload.length (f.has flagEndStream)
  | _ => .control f.payload.length

section
variable (kind : ClientKind) (iter : Iter hp)

/-- What an event says by itself. A request opens a stream, under the identifier that its
frames will have. -/
def heard (c : ClientConn hp) : ClientEvent → List (Note UInt8)
  | .dispatch d => if c.isDead then [] else [.opened (c.nextStreamId % 2 ^ 31) d.req.body]
  | .receive f => grants f
  | .lost _ => []

def stepNotes (c : ClientConn hp) (e : ClientEvent) : List (Note UInt8) :=
  heard c e ++ ((step kind iter c e).sendBuf.drop c.sendBuf.length).map written

def runNotes : ClientConn hp → List ClientEvent → List (Note UInt8)
  | _, [] => []
  | c, e :: events => stepNotes kind iter c e ++ runNotes (step kind iter c e) events

/-- All the notes of a connection, from its making. -/
def allNotes (events : List ClientEvent) : List (Note UInt8) :=
  (connect hp).sendBuf.map written ++ runNotes kind iter (connect hp) events

/-- The request can be sent: its header block is one frame of the peer's, and there is a stream
identifier left for it. -/
def Fits (c : ClientConn hp) (d : Dispatch) : Prop :=
  (c.headerBlock kind d).1.length ≤ c.peerMaxFrame ∧ c.nextStreamId < 2 ^ 31

/-- Every request of a run that a live connection takes can be sent. -/
def FitsRun : ClientConn hp → List ClientEvent → Prop
  | _, [] => True
  | c, e :: events =>
    (∀ d, e = .dispatch d → c.isDead = false → Fits kind c d) ∧ FitsRun (step kind iter c e) events

end

def opening : Ledger UInt8 := ⟨defaultMaxFrame, defaultWindow, defaultWindow, 0, fun _ => none⟩

/-! ## The invariant -/

structure StreamTracks (window : Int) (s : ClientStream) (a : Account UInt8) : Prop where
  /-- the body is underway, or it is done -/
  owed : (a.ended = false ∧ s.pendingBody = a.body ∧ s.bodyOff < a.body.length ∧
      a.sent = a.body.take s.bodyOff) ∨
    (a.ended = true ∧ s.pendingBody = [] ∧ s.bodyOff = 0)
  credit : s.sendWindow + a.sent.length ≤ a.granted
  /-- the stream is overdrawn by no more than an initial window -/
  low : -maxWindow ≤ s.sendWindow - window

/-- A live connection and the ledger of its notes. -/
structure Tracks (L : Ledger UInt8) (c : ClientConn hp) : Prop where
  alive : c.isDead = false
  maxFrame : L.maxFrame = c.peerMaxFrame
  frame_low : 16384 ≤ c.peerMaxFrame
  window : L.initialWindow = c.peerInitialWindow
  window_low : 0 ≤ c.peerInitialWindow
  window_high : c.peerInitialWindow ≤ maxWindow
  conn : c.connSendWindow + L.connSent ≤ L.connGranted
  next_odd : c.nextStreamId % 2 = 1
  next_high : c.nextStreamId ≤ 2 ^ 31 + 1
  opened : ∀ id, (L.accounts id).isSome = true ↔ id % 2 = 1 ∧ id < c.nextStreamId
  streams : ∀ id s, c.streams.get? id = some s →
    id < 2 ^ 31 ∧ ∃ a, L.accounts id = some a ∧ StreamTracks c.peerInitialWindow s a

/-- What was written on the way from `c` to `c'` is lawful, and the ledger still tracks. -/
def Keeps (L : Ledger UInt8) (c c' : ClientConn hp) : Prop :=
  ∃ w, c'.sendBuf = c.sendBuf ++ w ∧ L.Lawful (w.map written) ∧
    Tracks (L.recordAll (w.map written)) c'

variable {L : Ledger UInt8} {c : ClientConn hp}

theorem Keeps.refl (h : Tracks L c) : Keeps L c c :=
  ⟨[], (append_nil _).symm, trivial, h⟩

theorem Keeps.trans {c c' c'' : ClientConn hp} (h : Keeps L c c')
    (h' : ∀ L', Tracks L' c' → Keeps L' c' c'') : Keeps L c c'' := by
  obtain ⟨w, hbuf, hlaw, htr⟩ := h
  obtain ⟨w', hbuf', hlaw', htr'⟩ := h' _ htr
  refine ⟨w ++ w', by rw [hbuf', hbuf, append_assoc], ?_, ?_⟩
  · rw [map_append, Ledger.lawful_append]
    exact ⟨hlaw, hlaw'⟩
  · rw [map_append, Ledger.recordAll_append]
    exact htr'

/-! ## The pump -/

/-- A relation that a chunk of the pump has, and that several in a row have too. -/
structure ByChunks (R : ClientConn hp → ClientConn hp → Prop) : Prop where
  refl : ∀ c, R c c
  trans : ∀ {c c' c''}, R c c' → R c' c'' → R c c''
  chunk : ∀ {c : ClientConn hp} {id : Nat} {s : ClientStream}, c.streams.get? id = some s →
    ¬ s.remaining = 0 → ¬ c.credit s ≤ 0 → R c (c.sendChunk id s (c.chunkSize s))

section
variable {R : ClientConn hp → ClientConn hp → Prop} (h : ByChunks R)
include h

theorem ByChunks.pumpLoop (id rounds : Nat) (c : ClientConn hp) : R c (pumpLoop id rounds c) := by
  induction rounds generalizing c with
  | zero => exact h.refl c
  | succ rounds ih =>
    rw [ClientConn.pumpLoop]
    cases hs : c.streams.get? id with
    | none => exact h.refl c
    | some s =>
      dsimp only
      split_ifs with hrem hcredit
      · exact h.refl c
      · exact h.refl c
      · exact h.chunk hs hrem hcredit
      · exact h.trans (h.chunk hs hrem hcredit) (ih _)

theorem ByChunks.pumpStream (c : ClientConn hp) (id : Nat) : R c (c.pumpStream id) := by
  rw [ClientConn.pumpStream]
  split
  · exact h.refl c
  · exact h.pumpLoop id _ c

/-- **What the pump does** is made of chunks, in whatever order the streams come. -/
theorem ByChunks.pumpAll (iter : Iter hp) (c : ClientConn hp) : R c (pumpAll iter c) := by
  have hall : ∀ (ids : List Nat) (c : ClientConn hp), R c (ids.foldl ClientConn.pumpStream c) := by
    intro ids
    induction ids with
    | nil => exact h.refl
    | cons id ids ih => exact fun c => h.trans (h.pumpStream c id) (ih _)
  exact hall _ c

end

/-! ## The frames of a response -/

theorem foldl_addField_body (pairs : List RawField) (s : ClientStream) :
    (pairs.foldl addField s).pendingBody = s.pendingBody ∧
      (pairs.foldl addField s).bodyOff = s.bodyOff ∧
      (pairs.foldl addField s).sendWindow = s.sendWindow := by
  induction pairs generalizing s with
  | nil => exact ⟨rfl, rfl, rfl⟩
  | cons f pairs ih =>
    obtain ⟨hp, ho, hw⟩ := ih (addField s f)
    rw [foldl_cons, hp, ho, hw, addField]
    split_ifs <;> exact ⟨rfl, rfl, rfl⟩

def dataLength (f : Frame) : Nat :=
  match f.unpad "DATA".toList with
  | .error _ => 0
  | .ok (payload, pos) => (payload.drop pos).length

def credited (c : ClientConn hp) (f : Frame) : ClientConn hp :=
  if 0 < dataLength f then c.grant f.stream (dataLength f) else c

/-- A relation that has what the frames of a response are taken in with, several in a row too. -/
structure ByParts (kind : ClientKind) (R : ClientConn hp → ClientConn hp → Prop) : Prop where
  refl : ∀ c, R c c
  trans : ∀ {c c' c''}, R c c' → R c' c'' → R c c''
  dead : ∀ c reason, R c (c.markDead reason)
  addBlock : ∀ c part, R c (c.addBlock part)
  taken : ∀ c, R c c.takeBlock.2
  expect : ∀ c id, R c (c.expect id)
  /-- what is owed and may be sent is kept -/
  update : ∀ c id {f : ClientStream → ClientStream}, (∀ s, (f s).pendingBody = s.pendingBody ∧
    (f s).bodyOff = s.bodyOff ∧ (f s).sendWindow = s.sendWindow) → R c (c.updateStream id f)
  complete : ∀ c id, R c (c.completeStream kind id)

section
variable {kind : ClientKind} {R : ClientConn hp → ClientConn hp → Prop} (h : ByParts kind R)
include h

theorem ByParts.endHeaders (c : ClientConn hp) (id : Nat) : R c (c.endHeaders kind id) := by
  have htake := h.taken c
  rw [ClientConn.endHeaders]
  split <;> rename_i heq <;> rw [heq] at htake
  · exact h.trans htake (h.trans (h.update _ id (f := addFields _) (foldl_addField_body _))
      (h.expect _ none))
  · exact h.trans htake (h.dead _ _)

theorem ByParts.onHeaders (c : ClientConn hp) (f : Frame) : R c (c.onHeaders kind f) := by
  rw [ClientConn.onHeaders]
  split
  · exact h.dead _ _
  · have hblock : ∀ part, R c (if f.has flagEndHeaders then
        (c.addBlock part).endHeaders kind f.stream else (c.addBlock part).expect
          (some f.stream)) := by
      intro part
      refine h.trans (h.addBlock c part) ?_
      split_ifs
      · exact h.endHeaders _ _
      · exact h.expect _ _
    have hend : ∀ c' : ClientConn hp, R c' (if c'.isDead = true then c'
        else if f.has flagEndStream then c'.completeStream kind f.stream else c') := by
      intro c'
      split_ifs
      · exact h.refl c'
      · exact h.complete c' f.stream
      · exact h.refl c'
    exact h.trans (hblock _) (hend _)

theorem ByParts.onContinuation (c : ClientConn hp) (f : Frame) : R c (c.onContinuation kind f) := by
  refine h.trans (h.addBlock c f.payload) ?_
  rw [ClientConn.onContinuation]
  split_ifs
  · exact h.endHeaders _ _
  · exact h.refl _

/-- **A DATA frame**, once what it carries was granted. -/
theorem ByParts.onData (c : ClientConn hp) (f : Frame) : R (c.credited f) (c.onData kind f) := by
  rw [ClientConn.onData, credited, dataLength]
  cases f.unpad "DATA".toList with
  | error e => exact h.dead c _
  | ok unpadded =>
    obtain ⟨pl, pos⟩ := unpadded
    have hend : ∀ c' : ClientConn hp,
        R c' (if f.has flagEndStream then c'.completeStream kind f.stream else c') := by
      intro c'
      split_ifs
      · exact h.complete c' f.stream
      · exact h.refl c'
    have hbody : ∀ c' : ClientConn hp, R c' (c'.updateStream f.stream fun s =>
        { s with respBody := s.respBody ++ pl.drop pos }) :=
      fun c' => h.update c' f.stream fun _ => ⟨rfl, rfl, rfl⟩
    exact h.trans (hbody _) (hend _)

end

theorem has_endStream (ftype : FrameType) (last : Bool) (id : Nat) (payload : Bytes) :
    Frame.has ⟨ftype, if last then flagEndStream else 0, id, payload⟩ flagEndStream = last := by
  cases last <;> simp [Frame.has, flagEndStream]

theorem StreamTracks.chunk {window : Int} {s : ClientStream} {a : Account UInt8}
    (h : StreamTracks window s a) {n : Nat} (hrem : n ≤ s.remaining) (hpos : 0 < n) :
    a.ended = false ∧ (s.chunk n).length = n ∧ a.sent ++ s.chunk n <+: a.body ∧
      (s.drains n = true ↔ a.sent ++ s.chunk n = a.body) := by
  rw [ClientStream.remaining] at hrem
  obtain ⟨hend, hbody, hoff, hsent⟩ | ⟨-, hnil, hzero⟩ := h.owed
  · rw [hbody] at hrem
    have htake : a.sent ++ s.chunk n = a.body.take (s.bodyOff + n) := by
      rw [hsent, ClientStream.chunk, hbody, take_add]
    refine ⟨hend, ?_, ?_, ?_⟩
    · rw [ClientStream.chunk, hbody, length_take, length_drop]
      omega
    · rw [htake]
      exact take_prefix _ _
    · rw [htake, take_eq_self_iff, ClientStream.drains, beq_iff_eq, hbody]
      omega
  · rw [hnil, hzero] at hrem
    exact absurd hrem (by simp; omega)

variable {s : ClientStream}

theorem StreamTracks.advance {window : Int} {a : Account UInt8}
    (h : StreamTracks window s a) {n : Nat} (hrem : n ≤ s.remaining) (hpos : 0 < n)
    (hwin : (n : Int) ≤ s.sendWindow) (hwindow : window ≤ maxWindow) :
    StreamTracks window (s.advance n)
      { a with sent := a.sent ++ s.chunk n, ended := s.drains n } := by
  obtain ⟨-, hlen, -, -⟩ := h.chunk hrem hpos
  have hcredit := h.credit
  rw [ClientStream.remaining] at hrem
  obtain ⟨-, hbody, hoff, hsent⟩ | ⟨-, hnil, hzero⟩ := h.owed
  swap
  · rw [hnil, hzero] at hrem
    exact absurd hrem (by simp; omega)
  rw [hbody] at hrem
  have hlength : (a.sent ++ s.chunk n).length = a.sent.length + n := by
    rw [length_append, hlen]
  cases hd : s.drains n with
  | true =>
    simp only [ClientStream.advance, hd, if_true]
    refine ⟨.inr ⟨rfl, rfl, rfl⟩, ?_, ?_⟩
    · simp only [hlength]
      omega
    · simp only
      omega
  | false =>
    simp only [ClientStream.advance, hd, Bool.false_eq_true, if_false]
    have hne : s.bodyOff + n ≠ a.body.length := by
      rw [← hbody]
      simpa [ClientStream.drains] using hd
    refine ⟨.inl ⟨rfl, hbody, ?_, ?_⟩, ?_, ?_⟩
    · simp only
      omega
    · simp only [hsent, ClientStream.chunk, hbody, take_add]
    · simp only [hlength]
      omega
    · simp only
      omega

theorem sendChunk_keeps (h : Tracks L c) {id : Nat}
    (hs : c.streams.get? id = some s) {n : Nat} (hrem : n ≤ s.remaining)
    (hpos : 0 < n) (hmax : n ≤ c.peerMaxFrame) (hconn : (n : Int) ≤ c.connSendWindow)
    (hwin : (n : Int) ≤ s.sendWindow) : Keeps L c (c.sendChunk id s n) := by
  obtain ⟨hid, a, ha, hst⟩ := h.streams id s hs
  obtain ⟨hend, hlen, hpre, hlast⟩ := hst.chunk hrem hpos
  have hcredit := hst.credit
  have hcn := h.conn
  have hnote : written ⟨.data, if s.drains n then flagEndStream else 0, id % 2 ^ 31, s.chunk n⟩ =
      .data id (s.chunk n) (s.drains n) := by
    simp only [written, has_endStream, Nat.mod_eq_of_lt hid]
  refine ⟨[⟨.data, if s.drains n then flagEndStream else 0, id % 2 ^ 31, s.chunk n⟩], rfl, ?_, ?_⟩
  · rw [map_singleton, hnote]
    refine ⟨⟨?_, ?_, a, ha, hend, hpre, hlast, ?_⟩, trivial⟩
    · rw [hlen, h.maxFrame]
      exact hmax
    all_goals
      rw [hlen]
      omega
  · rw [map_singleton, hnote]
    refine ⟨h.alive, h.maxFrame, h.frame_low, h.window, h.window_low, h.window_high, ?_,
      h.next_odd, h.next_high, fun t => ?_, fun t u hu => ?_⟩
    · change c.connSendWindow - (s.chunk n).length + (L.connSent + (s.chunk n).length : Nat) ≤
        L.connGranted
      omega
    · refine Iff.trans ?_ (h.opened t)
      simp only [Ledger.recordAll_cons, Ledger.recordAll_nil, Ledger.record, Ledger.adjust]
      split_ifs
      · rw [isSome_map]
      · rfl
    · change (c.streams.insert id (s.advance n)).get? t = some u at hu
      simp only [Ledger.recordAll_cons, Ledger.recordAll_nil, Ledger.record, Ledger.adjust]
      rw [get?_insert] at hu
      by_cases ht : t = id
      · subst ht
        rw [if_pos rfl] at hu ⊢
        cases hu
        rw [ha]
        exact ⟨hid, _, rfl, hst.advance hrem hpos hwin h.window_high⟩
      · rw [if_neg ht] at hu ⊢
        exact h.streams t u hu

theorem chunkSize_spec (hrem : ¬ s.remaining = 0) (hcredit : ¬ c.credit s ≤ 0) :
    c.chunkSize s ≤ s.remaining ∧ 0 < c.chunkSize s ∧ c.chunkSize s ≤ max c.peerMaxFrame 1 ∧
      (c.chunkSize s : Int) ≤ c.connSendWindow ∧ (c.chunkSize s : Int) ≤ s.sendWindow := by
  rw [credit] at hcredit
  rw [chunkSize, credit]
  refine ⟨?_, ?_, ?_, ?_, ?_⟩ <;> omega

theorem keeps_byChunks :
    ByChunks fun c c' : ClientConn hp => ∀ L : Ledger UInt8, Tracks L c → Keeps L c c' where
  refl _ _ h := Keeps.refl h
  trans h h' L ht := (h L ht).trans h'
  chunk {c _ s} hs hrem hcredit L h := by
    have hlow := h.frame_low
    obtain ⟨hle, hpos, hmax, hconn, hwin⟩ := chunkSize_spec (c := c) hrem hcredit
    exact sendChunk_keeps h hs hle hpos (by omega) hconn hwin

theorem pumpStream_keeps (h : Tracks L c) (id : Nat) :
    Keeps L c (c.pumpStream id) := keeps_byChunks.pumpStream c id L h

theorem pumpAll_keeps (h : Tracks L c) (iter : Iter hp) :
    Keeps L c (pumpAll iter c) := keeps_byChunks.pumpAll iter c L h

theorem remaining_advance {n : Nat} (hrem : n ≤ s.remaining) (hpos : 0 < n) :
    (s.advance n).remaining < s.remaining := by
  rw [ClientStream.advance]
  split_ifs <;> simp only [ClientStream.remaining, length_nil] at hrem ⊢ <;> omega

theorem sendChunk_get? (c : ClientConn hp) (id : Nat) (s : ClientStream) (n : Nat) :
    (c.sendChunk id s n).streams.get? id = some (s.advance n) :=
  (get?_insert _ _ _ _).trans (if_pos rfl)

theorem pumpLoop_spends (id rounds : Nat) (c : ClientConn hp) (s : ClientStream)
    (hs : c.streams.get? id = some s) (hle : s.remaining ≤ rounds) :
    ∃ s', (pumpLoop id rounds c).streams.get? id = some s' ∧
      (s'.remaining = 0 ∨ (pumpLoop id rounds c).credit s' ≤ 0) := by
  induction rounds generalizing c s with
  | zero => exact ⟨s, hs, .inl (by omega)⟩
  | succ rounds ih =>
    simp only [pumpLoop, hs]
    split_ifs with hrem hcredit hd
    · exact ⟨s, hs, .inl hrem⟩
    · exact ⟨s, hs, .inr hcredit⟩
    · refine ⟨s.advance (c.chunkSize s), sendChunk_get? c id s _, .inl ?_⟩
      rw [ClientStream.advance, if_pos hd]
      rfl
    · obtain ⟨hle', hpos, -⟩ := chunkSize_spec (c := c) hrem hcredit
      have hlt := remaining_advance hle' hpos
      exact ih _ (s.advance (c.chunkSize s)) (sendChunk_get? c id s _) (by omega)

/-- The stream owes nothing, or a window that it needs is spent. -/
def Pumped (c : ClientConn hp) (id : Nat) : Prop :=
  ∀ s, c.streams.get? id = some s → s.remaining = 0 ∨ c.credit s ≤ 0

/-- **The pump does not stop early**, and whatever it is asked to send. -/
theorem pumpStream_pumped (c : ClientConn hp) (id : Nat) : (c.pumpStream id).Pumped id := by
  intro s' hs'
  cases hs : c.streams.get? id with
  | none =>
    have hsame : c.pumpStream id = c := by simp only [pumpStream, hs]
    rw [hsame, hs] at hs'
    cases hs'
  | some s =>
    have hpump : c.pumpStream id = pumpLoop id s.remaining c := by simp only [pumpStream, hs]
    obtain ⟨s₁, hs₁, hspent⟩ := pumpLoop_spends id s.remaining c s hs (Nat.le_refl _)
    rw [hpump, hs₁] at hs'
    cases hs'
    rwa [hpump]

/-! ## Frames that leave the bodies alone -/

/-- The part of a connection that the pump goes by is the same, but that streams may be gone. -/
structure Same (c c' : ClientConn hp) : Prop where
  alive : c'.isDead = c.isDead
  maxFrame : c'.peerMaxFrame = c.peerMaxFrame
  window : c'.peerInitialWindow = c.peerInitialWindow
  conn : c'.connSendWindow = c.connSendWindow
  next : c'.nextStreamId = c.nextStreamId
  streams : ∀ id s', c'.streams.get? id = some s' → ∃ s, c.streams.get? id = some s ∧
    s'.pendingBody = s.pendingBody ∧ s'.bodyOff = s.bodyOff ∧ s'.sendWindow = s.sendWindow

theorem Same.of_streams {c c' : ClientConn hp} (hd : c'.isDead = c.isDead)
    (hm : c'.peerMaxFrame = c.peerMaxFrame) (hw : c'.peerInitialWindow = c.peerInitialWindow)
    (hc : c'.connSendWindow = c.connSendWindow) (hn : c'.nextStreamId = c.nextStreamId)
    (hs : ∀ id s', c'.streams.get? id = some s' → c.streams.get? id = some s') : Same c c' :=
  ⟨hd, hm, hw, hc, hn, fun id s' h => ⟨s', hs id s' h, rfl, rfl, rfl⟩⟩

theorem Same.trans {c c' c'' : ClientConn hp} (h : Same c c') (h' : Same c' c'') : Same c c'' := by
  refine ⟨h'.alive.trans h.alive, h'.maxFrame.trans h.maxFrame, h'.window.trans h.window,
    h'.conn.trans h.conn, h'.next.trans h.next, fun id s'' hs'' => ?_⟩
  obtain ⟨s', hs', hp', ho', hw'⟩ := h'.streams id s'' hs''
  obtain ⟨s, hs, hp, ho, hw⟩ := h.streams id s' hs'
  exact ⟨s, hs, hp'.trans hp, ho'.trans ho, hw'.trans hw⟩

theorem Tracks.same {c c' : ClientConn hp} (h : Tracks L c) (hs : Same c c') : Tracks L c' := by
  refine ⟨hs.alive.trans h.alive, h.maxFrame.trans hs.maxFrame.symm,
    hs.maxFrame ▸ h.frame_low, h.window.trans hs.window.symm, hs.window ▸ h.window_low,
    hs.window ▸ h.window_high, hs.conn ▸ h.conn, hs.next ▸ h.next_odd, hs.next ▸ h.next_high,
    hs.next ▸ h.opened, fun id s' hs' => ?_⟩
  obtain ⟨s, hget, hp, ho, hw⟩ := hs.streams id s' hs'
  obtain ⟨hid, a, ha, hst⟩ := h.streams id s hget
  refine ⟨hid, a, ha, ?_, ?_, ?_⟩
  · rw [hp, ho]
    exact hst.owed
  · rw [hw]
    exact hst.credit
  · rw [hw, hs.window]
    exact hst.low

def Small (f : Frame) : Prop := written f = .control f.payload.length ∧ f.payload.length ≤ 16384

def Quiet (c c' : ClientConn hp) : Prop :=
  ∃ w, c'.sendBuf = c.sendBuf ++ w ∧ (∀ f ∈ w, Small f) ∧ (c'.isDead = true ∨ Same c c')

theorem Quiet.trans {c c' c'' : ClientConn hp} (h : Quiet c c') (h' : Quiet c' c'') :
    Quiet c c'' := by
  obtain ⟨w, hbuf, hsmall, hstate⟩ := h
  obtain ⟨w', hbuf', hsmall', hstate'⟩ := h'
  refine ⟨w ++ w', by rw [hbuf', hbuf, append_assoc], ?_, ?_⟩
  · intro f hf
    exact (mem_append.mp hf).elim (hsmall f) (hsmall' f)
  · obtain hdead' | hsame' := hstate'
    · exact .inl hdead'
    · obtain hdead | hsame := hstate
      · exact .inl (hsame'.alive.trans hdead)
      · exact .inr (hsame.trans hsame')

theorem Quiet.of_same {c c' : ClientConn hp} (hbuf : c'.sendBuf = c.sendBuf) (h : Same c c') :
    Quiet c c' :=
  ⟨[], by rw [hbuf, append_nil], by simp, .inr h⟩

theorem quiet_refl (c : ClientConn hp) : Quiet c c :=
  Quiet.of_same rfl (Same.of_streams rfl rfl rfl rfl rfl fun _ _ h => h)

theorem markDead_quiet (c : ClientConn hp) (reason : Str) : Quiet c (c.markDead reason) :=
  ⟨[], (append_nil _).symm, by simp, .inl rfl⟩

theorem pushFrame_quiet (c : ClientConn hp) {ftype : FrameType} (flags : UInt8) (id : Nat)
    {payload : Bytes} (h : Small ⟨ftype, flags, id % 2 ^ 31, payload⟩) :
    Quiet c (c.pushFrame ftype flags id payload) :=
  ⟨[⟨ftype, flags, id % 2 ^ 31, payload⟩], rfl, by simpa using h,
    .inr (Same.of_streams rfl rfl rfl rfl rfl fun _ _ h => h)⟩

theorem get?_of_erase {m : SortedMap Nat ClientStream} {id t : Nat}
    (h : (m.erase id).get? t = some s) : m.get? t = some s := by
  rw [get?_erase] at h
  split_ifs at h
  exact h

theorem updateStream_quiet (c : ClientConn hp) (id : Nat) {f : ClientStream → ClientStream}
    (h : ∀ s, (f s).pendingBody = s.pendingBody ∧ (f s).bodyOff = s.bodyOff ∧
      (f s).sendWindow = s.sendWindow) : Quiet c (c.updateStream id f) := by
  rw [updateStream]
  cases hs : c.streams.get? id with
  | none => exact quiet_refl c
  | some s =>
    refine Quiet.of_same rfl ⟨rfl, rfl, rfl, rfl, rfl, fun t s' hs' => ?_⟩
    change (c.streams.insert id (f s)).get? t = some s' at hs'
    rw [get?_insert] at hs'
    split_ifs at hs' with ht
    · cases hs'
      exact ⟨s, ht ▸ hs, h s⟩
    · exact ⟨s', hs', rfl, rfl, rfl⟩

theorem removeStream_quiet (c : ClientConn hp) (id : Nat) : Quiet c (c.removeStream id) :=
  Quiet.of_same rfl (Same.of_streams rfl rfl rfl rfl rfl fun _ _ h => get?_of_erase h)

theorem resolve_quiet (c : ClientConn hp) (id : Nat) (answer : Except Str HttpResponse) :
    Quiet c (c.resolve id answer) :=
  Quiet.of_same rfl (Same.of_streams rfl rfl rfl rfl rfl fun _ _ h => h)

theorem addBlock_quiet (c : ClientConn hp) (part : Bytes) : Quiet c (c.addBlock part) :=
  Quiet.of_same rfl (Same.of_streams rfl rfl rfl rfl rfl fun _ _ h => h)

theorem takeBlock_quiet (c : ClientConn hp) : Quiet c c.takeBlock.2 :=
  Quiet.of_same rfl (Same.of_streams rfl rfl rfl rfl rfl fun _ _ h => h)

theorem expect_quiet (c : ClientConn hp) (id : Option Nat) : Quiet c (c.expect id) :=
  Quiet.of_same rfl (Same.of_streams rfl rfl rfl rfl rfl fun _ _ h => h)

theorem grant_quiet (c : ClientConn hp) (id n : Nat) : Quiet c (c.grant id n) :=
  (pushFrame_quiet c 0 0 ⟨rfl, by simp [toBeBytes]⟩).trans
    (pushFrame_quiet _ 0 id ⟨rfl, by simp [toBeBytes]⟩)

variable (kind : ClientKind)

theorem completeStream_quiet (c : ClientConn hp) (id : Nat) :
    Quiet c (c.completeStream kind id) := by
  rw [completeStream]
  split
  · exact quiet_refl c
  · refine Quiet.trans ?_ (resolve_quiet _ id _)
    split_ifs
    · exact (removeStream_quiet c id).trans (pushFrame_quiet _ 0 id ⟨rfl, by simp⟩)
    · exact removeStream_quiet c id

theorem byParts_quiet : ByParts kind fun c c' : ClientConn hp => Quiet c c' where
  refl := quiet_refl
  trans := Quiet.trans
  dead := markDead_quiet
  addBlock := addBlock_quiet
  taken := takeBlock_quiet
  expect := expect_quiet
  update := updateStream_quiet
  complete := completeStream_quiet kind

theorem credited_quiet (c : ClientConn hp) (f : Frame) : Quiet c (c.credited f) := by
  rw [credited]
  split_ifs
  · exact grant_quiet c f.stream _
  · exact quiet_refl c

/-! ## Credit -/

theorem StreamTracks.shift {window window' : Int} {a : Account UInt8}
    (h : StreamTracks window s a) {w : Int} (g : Int)
    (hcredit : w - s.sendWindow ≤ g) (hlow : -maxWindow ≤ w - window') :
    StreamTracks window' { s with sendWindow := w } { a with granted := a.granted + g } := by
  have hc := h.credit
  exact ⟨h.owed, by simp only; omega, hlow⟩

/-- **Saturation only loses credit.** A change of the initial window leaves every stream with
no more than the peer granted it. -/
theorem saturatingAdd_low {window w : Int} {val : Nat} (hlow : -maxWindow ≤ w - window)
    (hval : (val : Int) ≤ maxWindow) :
    saturatingAdd w (val - window) - w ≤ val - window ∧
      -maxWindow ≤ saturatingAdd w (val - window) - val := by
  have hmax : maxWindow = 2147483647 := rfl
  rw [saturatingAdd]
  constructor <;> omega

theorem applySetting_tracks (h : Tracks L c) (p : Nat × Nat) :
    (applySetting kind c p).sendBuf = c.sendBuf ∧ ((applySetting kind c p).isDead = true ∨
      Tracks (L.recordAll (settingNote p)) (applySetting kind c p)) := by
  obtain ⟨id, val⟩ := p
  by_cases h4 : id = 4
  · subst h4
    simp only [applySetting, settingNote]
    split_ifs with hval
    · refine ⟨rfl, .inr ⟨h.alive, h.maxFrame, h.frame_low, rfl, Int.natCast_nonneg _, hval,
        h.conn, h.next_odd, h.next_high, fun id => ?_, fun id s hs => ?_⟩⟩
      · refine Iff.trans ?_ (h.opened id)
        simp only [Ledger.recordAll_cons, Ledger.recordAll_nil, Ledger.record, isSome_map]
      · rw [get?_map, map_eq_some_iff] at hs
        obtain ⟨s', hs', rfl⟩ := hs
        obtain ⟨hid, a, ha, hst⟩ := h.streams id s' hs'
        obtain ⟨hcredit, hlow⟩ := saturatingAdd_low hst.low hval
        simp only [Ledger.recordAll_cons, Ledger.recordAll_nil, Ledger.record, ha, h.window]
        exact ⟨hid, _, rfl, hst.shift _ hcredit hlow⟩
    · exact ⟨rfl, .inl rfl⟩
  by_cases h5 : id = 5
  · subst h5
    simp only [applySetting, settingNote]
    split_ifs with hval
    · exact ⟨rfl, .inr ⟨h.alive, rfl, hval.1, h.window, h.window_low, h.window_high, h.conn,
        h.next_odd, h.next_high, h.opened, h.streams⟩⟩
    · exact ⟨rfl, .inr h⟩
  · have hset : applySetting kind c (id, val) = c := by
      unfold applySetting
      split <;> simp_all
    have hnote : settingNote (id, val) = [] := by
      unfold settingNote
      split <;> simp_all
    rw [hset, hnote]
    exact ⟨rfl, .inr h⟩

theorem applySettings_tracks (h : Tracks L c) (pairs : List (Nat × Nat)) :
    (applySettings kind c pairs).sendBuf = c.sendBuf ∧ ((applySettings kind c pairs).isDead = true ∨
        Tracks (L.recordAll (pairs.flatMap settingNote)) (applySettings kind c pairs)) := by
  induction pairs generalizing L c with
  | nil => exact ⟨rfl, .inr h⟩
  | cons p pairs ih =>
    obtain ⟨hbuf, hstate⟩ := applySetting_tracks kind h p
    simp only [applySettings, flatMap_cons, Ledger.recordAll_append]
    obtain hdead | htr := hstate
    · rw [if_pos hdead]
      exact ⟨hbuf, .inl hdead⟩
    · rw [if_neg (by rw [htr.alive]; simp)]
      obtain ⟨hbuf', hstate'⟩ := ih htr
      exact ⟨hbuf'.trans hbuf, hstate'⟩

/-! ## Steps -/

/-- What was written on the way from `c` to `c'` is lawful, and the connection is dead or the
ledger still tracks. -/
def Ends (L : Ledger UInt8) (c c' : ClientConn hp) : Prop :=
  ∃ w, c'.sendBuf = c.sendBuf ++ w ∧ L.Lawful (w.map written) ∧
    (c'.isDead = true ∨ Tracks (L.recordAll (w.map written)) c')

theorem Keeps.ends {c c₀ c' : ClientConn hp} (h : Keeps L c₀ c')
    (hbuf₀ : c₀.sendBuf = c.sendBuf) : Ends L c c' := by
  obtain ⟨w, hbuf, hlaw, htr⟩ := h
  exact ⟨w, hbuf₀ ▸ hbuf, hlaw, .inr htr⟩

theorem small_lawful (hmax : 16384 ≤ L.maxFrame) {w : List Frame} (h : ∀ f ∈ w, Small f) :
    L.Lawful (w.map written) ∧ L.recordAll (w.map written) = L := by
  induction w with
  | nil => exact ⟨trivial, rfl⟩
  | cons f w ih =>
    obtain ⟨hnote, hsize⟩ := h f mem_cons_self
    obtain ⟨hlaw, hrec⟩ := ih fun g hg => h g (mem_cons_of_mem f hg)
    rw [map_cons, hnote]
    exact ⟨⟨Nat.le_trans hsize hmax, hlaw⟩, hrec⟩

theorem Quiet.ends {c c' : ClientConn hp} (h : Tracks L c) (hq : Quiet c c') : Ends L c c' := by
  obtain ⟨w, hbuf, hsmall, hstate⟩ := hq
  obtain ⟨hlaw, hrec⟩ := small_lawful (h.maxFrame ▸ h.frame_low) hsmall
  refine ⟨w, hbuf, hlaw, ?_⟩
  rw [hrec]
  exact hstate.imp id h.same

theorem Quiet.keeps {c c' : ClientConn hp} (h : Tracks L c) (hq : Quiet c c')
    (halive : c'.isDead = false) : Keeps L c c' := by
  obtain ⟨w, hbuf, hlaw, hdead | htr⟩ := hq.ends h
  · rw [hdead] at halive
    cases halive
  · exact ⟨w, hbuf, hlaw, htr⟩

theorem markDead_ends (L : Ledger UInt8) (c : ClientConn hp) (reason : Str) :
    Ends L c (c.markDead reason) := ⟨[], (append_nil _).symm, trivial, .inl rfl⟩

theorem onConnCredit_ends (iter : Iter hp) (h : Tracks L c) (n : Nat) :
    Ends (L.record (.connCredit n)) c (c.onConnCredit kind iter n) := by
  rw [onConnCredit]
  split_ifs
  · exact markDead_ends _ c _
  · have htr : Tracks (L.record (.connCredit n))
        { c with connSendWindow := c.connSendWindow + n } := by
      refine ⟨h.alive, h.maxFrame, h.frame_low, h.window, h.window_low, h.window_high, ?_,
        h.next_odd, h.next_high, h.opened, h.streams⟩
      have hconn := h.conn
      simp only [Ledger.record]
      omega
    exact (pumpAll_keeps htr iter).ends rfl
  · exact markDead_ends _ c _

theorem Tracks.streamCredit (h : Tracks L c) (id n : Nat) :
    Tracks (L.record (.streamCredit id n)) c := by
  refine ⟨h.alive, h.maxFrame, h.frame_low, h.window, h.window_low, h.window_high, h.conn,
    h.next_odd, h.next_high, fun t => ?_, fun t s hs => ?_⟩
  · refine Iff.trans ?_ (h.opened t)
    simp only [Ledger.record, Ledger.adjust]
    split_ifs
    · rw [isSome_map]
    · rfl
  · obtain ⟨ht, a, ha, hst⟩ := h.streams t s hs
    simp only [Ledger.record, Ledger.adjust, ha]
    split_ifs
    · exact ⟨ht, _, rfl, hst.shift (w := s.sendWindow) n (by omega) hst.low⟩
    · exact ⟨ht, a, rfl, hst⟩

theorem onStreamCredit_ends (h : Tracks L c) (id n : Nat) :
    Ends (L.record (.streamCredit id n)) c (c.onStreamCredit id n) := by
  have hreset : ∀ code, Ends (L.record (.streamCredit id n)) c
      ((c.pushFrame .rstStream 0 id [0, 0, 0, code]).removeStream id) := fun code =>
    ((pushFrame_quiet c 0 id ⟨rfl, by simp⟩).trans (removeStream_quiet _ id)).ends
      (h.streamCredit id n)
  rw [onStreamCredit]
  split_ifs with hzero
  · exact hreset 1
  cases hs : c.streams.get? id with
  | none => exact (quiet_refl c).ends (h.streamCredit id n)
  | some s =>
    simp only
    split_ifs
    · have htr : Tracks (L.record (.streamCredit id n)) { c with
          streams := c.streams.insert id { s with sendWindow := s.sendWindow + n } } := by
        have hmore := h.streamCredit id n
        refine ⟨hmore.alive, hmore.maxFrame, hmore.frame_low, hmore.window, hmore.window_low,
          hmore.window_high, hmore.conn, hmore.next_odd, hmore.next_high, hmore.opened,
          fun t u hu => ?_⟩
        rw [get?_insert] at hu
        split_ifs at hu with ht
        · subst ht
          cases hu
          obtain ⟨hid, a, ha, hst⟩ := h.streams t s hs
          have hlow := hst.low
          refine ⟨hid, { a with granted := a.granted + n }, ?_,
            hst.shift n (by omega) (by simp only; omega)⟩
          simp only [Ledger.record, Ledger.adjust, ha, if_true, map_some]
        · exact hmore.streams t u hu
      exact (pumpStream_keeps htr id).ends rfl
    · exact hreset 3

theorem onFrame_ends (iter : Iter hp)
    (h : Tracks L c) (f : Frame) : Ends (L.recordAll (grants f)) c (c.onFrame kind iter f) := by
  cases hf : f.ftype with
  | settings =>
    simp only [onFrame, grants, hf]
    split_ifs with hack hdead
    · exact (quiet_refl c).ends h
    all_goals obtain ⟨hbuf, hstate⟩ := applySettings_tracks kind h (settingsPairs f.payload)
    · exact ⟨[], by rw [hbuf, append_nil], trivial, .inl hdead⟩
    · have htr := hstate.resolve_left hdead
      have hsmall : Small ⟨.settings, flagAck, 0 % 2 ^ 31, []⟩ := ⟨rfl, by simp⟩
      have hpush := (pushFrame_quiet _ flagAck 0 hsmall).keeps htr htr.alive
      exact (hpush.trans fun _ h' => pumpAll_keeps h' iter).ends hbuf
  | windowUpdate =>
    simp only [onFrame, grants, hf]
    cases increment f.payload with
    | none => exact (quiet_refl c).ends h
    | some n =>
      simp only
      split_ifs
      · exact onConnCredit_ends kind iter h n
      · exact onStreamCredit_ends h f.stream n
  | headers =>
    simp only [onFrame, grants, hf]
    split_ifs
    · exact ((byParts_quiet kind).onHeaders c f).ends h
    · exact (quiet_refl c).ends h
  | continuation =>
    simp only [onFrame, grants, hf]
    split_ifs
    · exact ((byParts_quiet kind).onContinuation c f).ends h
    · exact (quiet_refl c).ends h
  | data =>
    simp only [onFrame, grants, hf]
    split_ifs
    · exact ((credited_quiet c f).trans ((byParts_quiet kind).onData c f)).ends h
    · exact (quiet_refl c).ends h
  | rstStream =>
    simp only [onFrame, grants, hf]
    split_ifs
    · split
      · exact (quiet_refl c).ends h
      · exact ((removeStream_quiet c f.stream).trans (resolve_quiet _ f.stream _)).ends h
    · exact (quiet_refl c).ends h
  | goaway =>
    simp only [onFrame, grants, hf]
    exact markDead_ends _ c _
  | ping =>
    simp only [onFrame, grants, hf]
    split_ifs with hping
    · have hlen : f.payload.length = 8 := by simp at hping; exact hping.2
      exact (pushFrame_quiet c flagAck 0 ⟨rfl, by simp only [hlen]; decide⟩).ends h
    · exact (quiet_refl c).ends h
  | other code =>
    simp only [onFrame, grants, hf]
    exact (quiet_refl c).ends h

theorem receive_ends (iter : Iter hp)
    (h : Tracks L c) (f : Frame) : Ends (L.recordAll (grants f)) c (c.receive kind iter f) := by
  unfold receive
  rw [if_neg (by rw [h.alive]; simp)]
  split
  · split_ifs
    · exact markDead_ends _ c _
    · exact onFrame_ends kind iter h f
  · exact onFrame_ends kind iter h f

def headersFrame (kind : ClientKind) (c : ClientConn hp) (d : Dispatch) : Frame :=
  ⟨.headers, flagEndHeaders ||| if !d.req.body.isEmpty then 0 else flagEndStream,
    c.nextStreamId % 2 ^ 31, (c.headerBlock kind d).1⟩

theorem written_headersFrame (c : ClientConn hp) (d : Dispatch) : written (headersFrame kind c d) =
      .head (c.nextStreamId % 2 ^ 31) (c.headerBlock kind d).1.length d.req.body.isEmpty := by
  have hflag : ∀ last : Bool,
      ((flagEndHeaders ||| if !last then 0 else flagEndStream) &&& flagEndStream != 0) = last := by
    decide
  rw [written, headersFrame, Frame.has, hflag]

theorem openStream_keeps (h : Tracks L c) {d : Dispatch} (hfit : Fits kind c d) :
    Keeps (L.record (.opened (c.nextStreamId % 2 ^ 31) d.req.body)) c (openStream kind c d) := by
  obtain ⟨hblock, hnext⟩ := hfit
  have hodd := h.next_odd
  refine ⟨[headersFrame kind c d], rfl, ?_, ?_⟩
  · rw [map_singleton, written_headersFrame]
    refine ⟨⟨h.maxFrame ▸ hblock, _, if_pos rfl, rfl, rfl, isEmpty_iff⟩, trivial⟩
  · rw [map_singleton, written_headersFrame, Nat.mod_eq_of_lt hnext]
    simp only [Ledger.recordAll_cons, Ledger.recordAll_nil, Ledger.record, Ledger.adjust]
    refine ⟨h.alive, h.maxFrame, h.frame_low, h.window, h.window_low, h.window_high, h.conn,
      ?_, ?_, fun t => ?_, fun t s hs => ?_⟩
    · change (c.nextStreamId + 2) % 2 = 1
      omega
    · change c.nextStreamId + 2 ≤ 2 ^ 31 + 1
      omega
    · change _ ↔ t % 2 = 1 ∧ t < c.nextStreamId + 2
      by_cases ht : t = c.nextStreamId
      · simp only [ht, if_true, map_some, isSome_some, true_iff]
        omega
      · simp only [ht, if_false]
        rw [h.opened t]
        omega
    · change (c.streams.insert c.nextStreamId _).get? t = some s at hs
      rw [get?_insert] at hs
      by_cases ht : t = c.nextStreamId
      · subst ht
        rw [if_pos rfl] at hs
        cases hs
        refine ⟨hnext, ⟨d.req.body, [], d.req.body.isEmpty, L.initialWindow⟩, by simp, ?_, ?_, ?_⟩
        · cases hbody : d.req.body with
          | nil => exact .inr ⟨rfl, rfl, rfl⟩
          | cons b body => exact .inl ⟨rfl, rfl, Nat.succ_pos _, rfl⟩
        · simp [h.window]
        · have hmax : maxWindow = 2147483647 := rfl
          change -maxWindow ≤ c.peerInitialWindow - c.peerInitialWindow
          omega
      · rw [if_neg ht] at hs
        simp only [ht, if_false]
        exact h.streams t s hs

theorem dispatch_ends (h : Tracks L c) {d : Dispatch} (hfit : Fits kind c d) :
    Ends (L.record (.opened (c.nextStreamId % 2 ^ 31) d.req.body)) c (dispatch kind c d).2 := by
  rw [dispatch, if_neg (by rw [h.alive]; simp)]
  refine ((openStream_keeps kind h hfit).trans fun _ h' => ?_).ends rfl
  exact pumpStream_keeps h' c.nextStreamId

theorem grows_byChunks :
    ByChunks fun c c' : ClientConn hp => ∃ w, c'.sendBuf = c.sendBuf ++ w where
  refl _ := ⟨[], (append_nil _).symm⟩
  trans := by
    rintro c c' c'' ⟨w, hw⟩ ⟨w', hw'⟩
    exact ⟨w ++ w', by rw [hw', hw, append_assoc]⟩
  chunk _ _ _ := ⟨_, rfl⟩

theorem dispatch_sendBuf (halive : c.isDead = false) (d : Dispatch) :
    ∃ w, (dispatch kind c d).2.sendBuf = c.sendBuf ++ headersFrame kind c d :: w := by
  rw [dispatch, if_neg (by rw [halive]; simp)]
  obtain ⟨w, hw⟩ := grows_byChunks.pumpStream (openStream kind c d) c.nextStreamId
  exact ⟨w, hw.trans (append_assoc _ _ _)⟩

/-! ## Runs -/

section
variable (kind : ClientKind) (iter : Iter hp)

theorem Ends.stepNotes {L : Ledger UInt8} {c : ClientConn hp} {e : ClientEvent}
    (hheard : L.Lawful (heard c e)) (h : Ends (L.recordAll (heard c e)) c (step kind iter c e)) :
    L.Lawful (stepNotes kind iter c e) ∧ ((step kind iter c e).isDead = true ∨
      Tracks (L.recordAll (stepNotes kind iter c e)) (step kind iter c e)) := by
  obtain ⟨w, hbuf, hlaw, hstate⟩ := h
  rw [ClientConn.stepNotes, hbuf, drop_left, Ledger.lawful_append, Ledger.recordAll_append]
  exact ⟨⟨hheard, hlaw⟩, hstate⟩

theorem grants_lawful (L : Ledger UInt8) (f : Frame) : L.Lawful (grants f) := by
  refine Ledger.lawful_of_free L fun n hn L => ?_
  unfold grants at hn
  split at hn
  · split_ifs at hn
    · cases hn
    · obtain ⟨p, -, hp⟩ := mem_flatMap.mp hn
      unfold settingNote at hp
      split at hp
      · split_ifs at hp
        · obtain rfl := mem_singleton.mp hp
          trivial
        · cases hp
      · split_ifs at hp
        · obtain rfl := mem_singleton.mp hp
          trivial
        · cases hp
      · cases hp
  · split at hn
    · cases hn
    · obtain rfl := mem_singleton.mp hn
      split_ifs <;> trivial
  · cases hn

theorem step_lawful {L : Ledger UInt8} {c : ClientConn hp} (h : Tracks L c) {e : ClientEvent}
    (hfit : ∀ d, e = .dispatch d → Fits kind c d) :
    L.Lawful (stepNotes kind iter c e) ∧ ((step kind iter c e).isDead = true ∨
      Tracks (L.recordAll (stepNotes kind iter c e)) (step kind iter c e)) := by
  cases e with
  | dispatch d =>
    have hfit := hfit d rfl
    have hheard : heard c (.dispatch d) = [.opened (c.nextStreamId % 2 ^ 31) d.req.body] := by
      rw [heard, if_neg (by rw [h.alive]; simp)]
    refine Ends.stepNotes kind iter ?_ ?_
    · rw [hheard]
      refine ⟨?_, trivial⟩
      -- the identifier is new, since all that were opened are smaller
      have hopened := h.opened (c.nextStreamId % 2 ^ 31)
      rw [Nat.mod_eq_of_lt hfit.2] at hopened ⊢
      exact not_isSome_iff_eq_none.mp fun hs => absurd (hopened.mp hs).2 (Nat.lt_irrefl _)
    · rw [hheard]
      exact dispatch_ends kind h hfit
  | receive f => exact Ends.stepNotes kind iter (grants_lawful L f) (receive_ends kind iter h f)
  | lost reason =>
    refine Ends.stepNotes kind iter trivial ?_
    rw [step, if_neg (by rw [h.alive]; simp)]
    exact markDead_ends _ c reason

theorem step_unlawful {L : Ledger UInt8} {c : ClientConn hp} (h : Tracks L c) {d : Dispatch}
    (hfit : ¬ Fits kind c d) : ¬ L.Lawful (stepNotes kind iter c (.dispatch d)) := by
  obtain ⟨w, hw⟩ := dispatch_sendBuf kind h.alive d
  have hnotes : stepNotes kind iter c (.dispatch d) =
      .opened (c.nextStreamId % 2 ^ 31) d.req.body :: written (headersFrame kind c d) ::
        w.map written := by
    rw [stepNotes, heard, if_neg (by rw [h.alive]; simp), step, hw, drop_left]
    rfl
  rw [hnotes, written_headersFrame]
  rintro ⟨hnew, ⟨hsize, -⟩, -⟩
  refine hfit ⟨h.maxFrame ▸ hsize, ?_⟩
  by_contra hge
  have hodd := h.next_odd
  have hhigh := h.next_high
  have hone : c.nextStreamId % 2 ^ 31 = 1 := by omega
  have hold := (h.opened 1).mpr (by omega)
  rw [hone] at hnew
  rw [show L.accounts 1 = none from hnew] at hold
  cases hold

theorem runNotes_of_dead {c : ClientConn hp} (h : c.isDead = true) (L : Ledger UInt8)
    (events : List ClientEvent) :
    L.Lawful (runNotes kind iter c events) ∧ FitsRun kind iter c events := by
  induction events generalizing L with
  | nil => exact ⟨trivial, trivial⟩
  | cons e events ih =>
    have hstep := step_of_dead kind iter h e
    have hnotes : stepNotes kind iter c e = heard c e := by simp [stepNotes, hstep]
    obtain ⟨hlaw, hfits⟩ := ih (L.recordAll (heard c e))
    rw [runNotes, FitsRun, hstep, hnotes, Ledger.lawful_append]
    refine ⟨⟨?_, hlaw⟩, fun d _ halive => ?_, hfits⟩
    · cases e with
      | dispatch d => simp [heard, h]
      | receive f => exact grants_lawful L f
      | lost reason => trivial
    · rw [h] at halive
      cases halive

theorem runNotes_lawful_iff {L : Ledger UInt8} {c : ClientConn hp} (h : Tracks L c)
    (events : List ClientEvent) :
    L.Lawful (runNotes kind iter c events) ↔ FitsRun kind iter c events := by
  induction events generalizing L c with
  | nil => exact Iff.rfl
  | cons e events ih =>
    rw [runNotes, FitsRun, Ledger.lawful_append]
    by_cases hfit : ∀ d, e = .dispatch d → c.isDead = false → Fits kind c d
    · obtain ⟨hlaw, hstate⟩ := step_lawful kind iter h fun d hd => hfit d hd h.alive
      rw [and_iff_right hlaw, and_iff_right hfit]
      obtain hdead | htr := hstate
      · obtain ⟨hl, hf⟩ := runNotes_of_dead kind iter hdead
          (L.recordAll (stepNotes kind iter c e)) events
        exact iff_of_true hl hf
      · exact ih htr
    · refine iff_of_false (fun hl => hfit fun d hd _ => ?_) (fun hf => hfit hf.1)
      by_contra hno
      subst hd
      exact step_unlawful kind iter h hno hl.1

end

theorem tracks_connect : Tracks opening (connect hp) :=
  ⟨rfl, rfl, Nat.le_refl _, rfl, (by decide : (0 : Int) ≤ defaultWindow),
    (by decide : defaultWindow ≤ maxWindow), Int.le_refl _, rfl, (by decide : 1 ≤ 2 ^ 31 + 1),
    fun id => by simp [opening, connect]; omega, fun id s hs => by cases hs⟩

/-- **What the outbound client writes.** On every run, of either client, with any iteration
order of the streams, everything that was written was lawful when it was written, exactly if
the header block of every request was one frame of the peer's, and the stream identifiers did
not run out. The bodies, the windows and `END_STREAM` are right on every run; HEADERS is
written in one frame whatever its size. -/
theorem lawful_iff (hp : Hpack) (kind : ClientKind) (iter : Iter hp) (events : List ClientEvent) :
    opening.Lawful (allNotes kind iter events) ↔ FitsRun kind iter (connect hp) events := by
  rw [allNotes, Ledger.lawful_append]
  have hfirst : opening.Lawful ((connect hp).sendBuf.map written) ∧
      opening.recordAll ((connect hp).sendBuf.map written) = opening :=
    small_lawful (Nat.le_refl _) fun f hf => by
      obtain rfl := mem_singleton.mp hf
      exact ⟨rfl, by decide⟩
  rw [hfirst.2, runNotes_lawful_iff kind iter tracks_connect]
  simp only [hfirst.1, true_and]

/-! ## A header block of more than one frame -/

/-- An encoder whose dynamic table is not consulted, for one request with distinct names. -/
def plainHpack : Hpack where
  Enc := Unit
  Dec := Unit
  newEnc := ()
  newDec := ()
  encode _ fields := (fields.flatMap hpackField, ())
  decode _ _ := (.error [], ())

def largeRequest : Dispatch where
  req := ⟨"GET".toList, "/".toList, none, "HTTP/2".toList,
    [("x-token".toList, List.replicate 16384 'a')], []⟩
  host := "origin".toList
  clientIp := "203.0.113.7".toList
  originalHost := "site.test".toList

theorem forwarded_token (v : Str) :
    forwarded [("x-token".toList, v)] = [(lit "x-token", Utf8.encode v)] := by
  have hkeep : (!(hopByHop.any fun n => Text.eqIgnoreAsciiCase "x-token".toList n) &&
      "x-token".toList.head? != some ':' && !isProxyEmittedHopHeader "x-token".toList) = true := by
    decide
  have hlower : Text.toAsciiLowercase "x-token".toList = "x-token".toList := by decide
  simp only [forwarded, filter_cons, hkeep, if_true, filter_nil, map_singleton, hlower]
  rfl

theorem not_fits_largeRequest : ¬ Fits kind (connect plainHpack) largeRequest := by
  rintro ⟨hblock, -⟩
  have hlarge := length_hpackField (f := (lit "x-token", Utf8.encode (List.replicate 16384 'a')))
    (by decide)
  have hvalue := Utf8.length_le_encode (List.replicate 16384 'a')
  rw [length_replicate] at hvalue
  dsimp only at hlarge
  simp only [headerBlock, plainHpack, headerList, largeRequest, forwarded_token,
    flatMap_append, flatMap_singleton, length_append] at hblock
  change _ ≤ 16384 at hblock
  omega

theorem headers_overrun :
    ¬ opening.Lawful (allNotes .h2cClientConn (fun (_ : ClientConn plainHpack) ids => ids)
      [.dispatch largeRequest]) ∧
    ¬ opening.Lawful (allNotes .h2sTlsClientConn (fun (_ : ClientConn plainHpack) ids => ids)
      [.dispatch largeRequest]) := by
  have hno : ∀ kind, ¬ opening.Lawful (allNotes kind (fun (_ : ClientConn plainHpack) ids => ids)
      [.dispatch largeRequest]) := by
    intro kind h
    rw [allNotes, Ledger.lawful_append, runNotes, Ledger.lawful_append] at h
    exact step_unlawful kind _ tracks_connect (not_fits_largeRequest kind) h.2.1
  exact ⟨hno _, hno _⟩

end ClientConn

end M6
