import M6.Edge.H2Handlers

/-!
# The steps of the HTTP/2 server

What a frame does (`Handles`) keeps the windows sound, and so does what comes then. So the process
ends with a step only if a SETTINGS frame raises the window of a stream too far (`Overflows`), and
any other step is one of `Steps`.
-/

namespace M6.Http2

open List Runs Option SortedMap

namespace Conn

variable {libs : Libs} {env : Env} {c : Conn} {f : Frame}

/-! ## Sound windows -/

theorem Sound.enterStream (h : c.Sound) (stream : Nat) (flags : UInt8) :
    (c.enterStream stream flags).Sound := by
  have ok : StreamOk c.peerInitialWindow
      ((c.streams.get? stream).getD (.new c.peerInitialWindow)) := by
    cases hs : c.streams.get? stream with
    | none => exact h.newStream
    | some s => exact h.streams stream s hs
  refine h.setStream stream ?_
  split_ifs
  · exact { ok with }
  · exact ok

theorem Sound.entered (h : c.Sound) (f : Frame) : (c.entered f).Sound :=
  Sound.enterStream (c := c.letIn f.stream) h f.stream f.flags

theorem Sound.addFields (h : c.Sound) (stream : Nat) (fields : List (Str × Str)) :
    (c.addFields stream fields).Sound :=
  h.updateStream stream fun _ ok => { ok with }

theorem Sound.resetStream (h : c.Sound) (stream code : Nat) : (c.resetStream stream code).Sound :=
  Sound.removeStream (c := c.pushReset stream code) h stream

theorem Sound.decoded (h : c.Sound) (libs : Libs) (block : Bytes) :
    (c.blockDone.decoded libs block).Sound := h

theorem Sound.grant (h : c.Sound) (stream : Nat) (inc : Int) : (c.grant stream inc).Sound := by
  unfold Conn.grant
  split_ifs
  · exact h
  · exact h

theorem Sound.charged (h : c.Sound) {n : Nat} {w inc : Int}
    (hw : replenish (c.connRecvWindow - n) = some (w, inc)) : (c.charged w inc).Sound := by
  have high := h.connRecv_le
  obtain ⟨-, -, hlow, hhigh⟩ := replenish_some hw (by omega)
  have hs : (c.setConnRecvWindow w).Sound := { h with connRecv_ge := hlow, connRecv_le := hhigh }
  exact hs.grant 0 inc

theorem peerInitialWindow_charged (c : Conn) (w inc : Int) :
    (c.charged w inc).peerInitialWindow = c.peerInitialWindow := by
  unfold Conn.charged Conn.grant
  split_ifs
  · rfl
  · rfl

theorem Sound.takeData (h : c.Sound) {s : Stream} {stream n : Nat}
    (hs : c.streams.get? stream = some s) {w inc : Int}
    (hw : replenish (s.recvWindow - n) = some (w, inc)) (flags : UInt8) (data : Bytes) :
    StreamOk c.peerInitialWindow (takeData s flags data w) := by
  have ok := h.streams stream s hs
  have high := ok.recv_le
  obtain ⟨-, -, hlow, hhigh⟩ := replenish_some hw (by omega)
  exact { ok with recv_ge := hlow, recv_le := hhigh }

theorem Sound.setClosedWindow (h : c.Sound) {stream inc : Nat} {w : Int}
    (hw : c.closedWindow stream = some w) (hfit : w + inc ≤ maxWindow) :
    (c.setClosedWindow stream (w + inc)).Sound := by
  obtain ⟨e, he, rfl⟩ := map_eq_some_iff.mp hw
  have low := (h.closed e (mem_of_find?_eq_some he)).1
  refine { h with closed := fun e' he' => ?_ }
  rcases mem_replaceF he' with he' | ⟨b, -, hb⟩
  · exact h.closed e' he'
  · split_ifs at hb
    cases hb
    exact ⟨by dsimp only; omega, hfit⟩

variable {c₁ : Conn}

theorem Fails.sound (hf : Fails libs env c f c₁) (h : c.Sound) : c₁.Sound := by
  cases hf with
  | same | connection | flood | malformedHeaders | shortHeaders | invalidContinuation
  | undecodableContinuation => exact h
  | longHeaders | invalidHeaders | undecodableHeaders => exact h.entered f
  | settings _ hsound => exact hsound

variable {tail : Tail}

theorem Handles.sound (hh : Handles libs env c f c₁ tail) (h : c.Sound) : c₁.Sound := by
  cases hh with
  | failed why hf => exact hf.sound h
  | nothing | connectionError | ping | goaway | uncredited | refusedLate | refusedBusy
  | selfDependent | continuationPart | continuationGone => exact h
  | illegal | reset => exact h.resetStream ..
  | rstStream => exact h.removeStream f.stream
  | settings _ _ _ _ _ hsound => exact hsound
  | connCredit _ _ _ _ _ hfit =>
    have := h.connSend_ge
    exact { h with connSend_ge := by dsimp only [setConnSendWindow]; omega, connSend_le := hfit }
  | streamCredit _ _ _ _ _ hs hfit =>
    have ok := h.streams _ _ hs
    have low := ok.send_ge
    exact h.setStream f.stream (ok.withSend (by omega) hfit)
  | closedOverflow =>
    exact { h with closed := fun e he => h.closed e (mem_of_mem_eraseP he) }
  | closedCredit _ _ _ _ _ _ hw hfit => exact h.setClosedWindow hw hfit
  | overCap _ _ _ _ _ hw _ =>
    exact (h.charged hw).resetStream ..
  | data _ _ _ hs _ hw _ hw' =>
    have ok := h.takeData hs hw' f.flags
    refine Sound.grant ((h.charged hw).setStream f.stream ?_) f.stream _
    rw [peerInitialWindow_charged]
    exact ok _
  | headersPart => exact h.entered f
  | trailersRejected => exact ((h.entered f).decoded ..).resetStream ..
  | headers => exact ((h.entered f).decoded ..).addFields ..
  | continuation => exact (h.decoded ..).addFields ..

theorem Handles.fails {why : Str} (hh : Handles libs env c f c₁ (.error why)) :
    Fails libs env c f c₁ := by
  generalize ht : Tail.error why = tail at hh
  cases hh with
  | failed _ hf => exact hf
  | data _ _ _ _ _ _ _ _ htail =>
    rw [htail] at ht
    split_ifs at ht
  | _ => cases ht

/-! ## What handlers write -/

def granted (stream : Nat) (inc : Int) : List Entry :=
  if inc > 0 then [.wrote ⟨.windowUpdate, 0, low31 stream, be32 (low31 inc.toNat)⟩] else []

theorem grant_eq (c : Conn) (stream : Nat) (inc : Int) :
    c.grant stream inc = { c with log := c.log ++ granted stream inc } := by
  unfold grant granted
  split_ifs
  · rfl
  · rw [append_nil]

theorem charged_eq (c : Conn) (window inc : Int) : c.charged window inc =
      { c with connRecvWindow := window, log := c.log ++ granted 0 inc } :=
  grant_eq ..

theorem streams_charged (c : Conn) (window inc : Int) : (c.charged window inc).streams =
    c.streams := by
  rw [charged_eq]

theorem updateStream_eq (c : Conn) (stream : Nat) (g : Stream → Stream) :
    ∃ m, c.updateStream stream g = { c with streams := m } ∧
      ∀ id, m.get? id = if id = stream then (c.streams.get? id).map g else c.streams.get? id := by
  unfold updateStream
  cases hs : c.streams.get? stream with
  | none =>
    refine ⟨c.streams, rfl, fun id => ?_⟩
    split_ifs with hid
    · rw [hid, hs]
      rfl
    · rfl
  | some s =>
    refine ⟨c.streams.insert stream (g s), rfl, fun id => ?_⟩
    rw [get?_insert]
    split_ifs with hid
    · rw [hid, hs]
      rfl
    · rfl

def handlerFrames : List FrameType := [.rstStream, .settings, .ping, .windowUpdate]

def ofHandler : Entry → Prop
  | .wrote f => f.ftype ∈ handlerFrames ∨ f.ftype = .goaway
  | _ => False

def Appends (P : Entry → Prop) (c c' : Conn) : Prop :=
  ∃ es, c'.log = c.log ++ es ∧ ∀ e ∈ es, P e

variable {P : Entry → Prop}

theorem Appends.refl (c : Conn) : Appends P c c := ⟨[], (append_nil _).symm, nofun⟩

theorem Appends.trans {c₁ c₂ c₃ : Conn} (h : Appends P c₁ c₂) (h' : Appends P c₂ c₃) :
    Appends P c₁ c₃ := by
  obtain ⟨es, hes, hall⟩ := h
  obtain ⟨es', hes', hall'⟩ := h'
  refine ⟨es ++ es', by rw [hes', hes, append_assoc], fun e he => ?_⟩
  exact (mem_append.mp he).elim (hall e) (hall' e)

theorem Appends.imp {Q : Entry → Prop} (hPQ : ∀ e, P e → Q e) (h : Appends P c c') :
    Appends Q c c' := by
  obtain ⟨es, hes, hall⟩ := h
  exact ⟨es, hes, fun e he => hPQ e (hall e he)⟩

theorem Appends.single {e : Entry} (he : P e) {c' : Conn} (h : c'.log = c.log ++ [e]) :
    Appends P c c' :=
  ⟨[e], h, fun _ he' => by rw [mem_singleton.mp he']; exact he⟩

theorem Appends.same {c' : Conn} (h : c'.log = c.log) : Appends P c c' :=
  ⟨[], by rw [h, append_nil], nofun⟩

theorem Appends.wrote {c' : Conn} {f : Frame} (hf : P (.wrote f))
    (h : c'.log = c.log ++ [.wrote f]) :
    Appends P c c' :=
  .single hf h

theorem short_be32 (n : Nat) : (be32 n).length ≤ defaultMaxFrame := show 4 ≤ 16384 by decide

theorem short_goaway (n m : Nat) : (be32 n ++ be32 m).length ≤ defaultMaxFrame :=
  show 8 ≤ 16384 by decide

theorem short_ping (ha : Allowed c f) (hf : f.ftype = .ping) :
    f.payload.length ≤ defaultMaxFrame := by
  have hshape := hf ▸ ha.shape
  have hlen : f.payload.length = 8 := by
    by_contra hlen
    unfold frameShapeVerdict at hshape
    rw [if_pos (c := FrameType.ping = _ ∧ f.payload.length ≠ 8) ⟨rfl, hlen⟩] at hshape
    split_ifs at hshape
  rw [hlen]
  decide

variable {stream : Nat}

theorem appends_granted {c' : Conn} {inc : Int}
    (hP : ∀ t ∈ handlerFrames, ∀ flags stream payload, payload.length ≤ defaultMaxFrame →
      P (.wrote ⟨t, flags, stream, payload⟩))
    (h : c'.log = c.log ++ granted stream inc) : Appends P c c' := by
  unfold granted at h
  split_ifs at h
  · exact .wrote (hP _ (by decide) _ _ _ (short_be32 _)) h
  · exact .same (h.trans (append_nil _))

theorem log_updateStream (c : Conn) (stream : Nat) (g : Stream → Stream) :
    (c.updateStream stream g).log = c.log := by
  obtain ⟨m, hm, -⟩ := updateStream_eq c stream g
  rw [hm]

theorem log_closeStream (c : Conn) (stream : Nat) :
    (c.closeStreamRememberingWindow stream).log = c.log := by
  unfold closeStreamRememberingWindow
  cases c.streams.get? stream with
  | none | some s => rfl

theorem log_endStream (c : Conn) (stream : Nat) (state : StreamState) :
    (c.endStream stream state).log = c.log := by
  unfold endStream
  split_ifs
  · exact log_closeStream c stream
  · exact log_closeStream c stream
  · exact log_updateStream c stream _

theorem Fails.appends
    (hP : ∀ t ∈ handlerFrames, ∀ flags stream payload, payload.length ≤ defaultMaxFrame →
      P (.wrote ⟨t, flags, stream, payload⟩))
    (hgo : c₁.goawaySent = true → ∀ g : Frame, g.ftype = .goaway →
      g.payload.length ≤ defaultMaxFrame → P (.wrote g))
    (h : Fails libs env c f c₁) : Appends P c c₁ := by
  cases h with
  | connection | longHeaders | invalidHeaders | invalidContinuation =>
    exact .wrote (hgo rfl _ rfl (short_goaway _ _)) rfl
  | flood =>
    have hreset : Appends P c (c.refuseBusy env.now f.stream) :=
      .wrote (hP _ (by decide) _ _ _ (short_be32 _)) rfl
    exact hreset.trans (.wrote (hgo rfl _ rfl (short_goaway _ _)) rfl)
  | shortHeaders => exact .wrote (hP _ (by decide) _ _ _ (short_be32 _)) rfl
  | _ => exact .same rfl

theorem Handles.appends
    (hP : ∀ t ∈ handlerFrames, ∀ flags stream payload, payload.length ≤ defaultMaxFrame →
      P (.wrote ⟨t, flags, stream, payload⟩))
    (hgo : c₁.goawaySent = true → ∀ g : Frame, g.ftype = .goaway →
      g.payload.length ≤ defaultMaxFrame → P (.wrote g))
    (h : Handles libs env c f c₁ tail) : Appends P c c₁ := by
  cases h with
  | failed why hf => exact hf.appends hP hgo
  | connectionError => exact .wrote (hgo rfl _ rfl (short_goaway _ _)) rfl
  | illegal | reset | closedOverflow | refusedLate | refusedBusy | selfDependent
  | trailersRejected => exact .wrote (hP _ (by decide) _ _ _ (short_be32 _)) rfl
  | ping ha hf => exact .wrote (hP _ (by decide) _ _ _ (short_ping ha hf)) rfl
  | settings => exact .wrote (hP _ (by decide) _ _ _ (Nat.zero_le _)) rfl
  | @overCap s first last w inc =>
    have hcharged : Appends P c (c.charged w inc) := by
      rw [charged_eq]
      exact appends_granted hP rfl
    exact hcharged.trans (.wrote (hP _ (by decide) _ _ _ (short_be32 _)) rfl)
  | @data s first last w inc w' inc' =>
    have hcharged : Appends P c (c.charged w inc) := by
      rw [charged_eq]
      exact appends_granted hP rfl
    rw [grant_eq]
    exact hcharged.trans (appends_granted hP rfl)
  | headers | continuation => exact .same (log_updateStream ..)
  | _ => exact .same rfl

theorem Handles.ofHandler (h : Handles libs env c f c₁ tail) : Appends ofHandler c c₁ :=
  h.appends (fun _ hf _ _ _ _ => .inl hf) fun _ _ hf _ => .inr hf

theorem appends_enter
    (hP : ∀ t ∈ handlerFrames, ∀ flags stream payload, payload.length ≤ defaultMaxFrame →
      P (.wrote ⟨t, flags, stream, payload⟩)) (c : Conn) : Appends P c c.enter := by
  unfold enter
  split_ifs
  · exact .wrote
      (hP _ (by decide) _ _ (be16 0x3 ++ be32 maxConcurrent ++ be16 0x4 ++ be32 1048576 ++
      be16 0x5 ++ be32 maxFrameSize) (by decide)) rfl
  · exact .refl c

theorem ofHandler_enter (c : Conn) : Appends ofHandler c c.enter :=
  appends_enter (fun _ hf _ _ _ _ => .inl hf) c

theorem goawaySent_enter (c : Conn) : c.enter.goawaySent = c.goawaySent := by
  unfold enter
  split_ifs
  · rfl
  · rfl

theorem Fails.goawaySent (hf : Fails libs env c f c₁) (h : c.goawaySent = true) :
    c₁.goawaySent = true := by
  cases hf with
  | connection | flood | longHeaders | invalidHeaders | invalidContinuation => rfl
  | _ => exact h

/-- What a handler leaves if it does not fail: the phase as it was, unless the frame is a connection
error. -/
theorem Handles.remains (hh : Handles libs env c f c₁ tail) (htail : ∀ why, tail ≠ .error why) :
    (c₁.phase = c.phase ∧ c₁.goawaySent = c.goawaySent) ∨
      (tail = .ok ∧ ∃ code, Breaks c f code ∧ c₁ = c.connectionError code) := by
  cases hh with
  | failed why => exact absurd rfl (htail why)
  | connectionError hwhy => exact .inr ⟨rfl, _, hwhy, rfl⟩
  | overCap =>
    rw [charged_eq]
    exact .inl ⟨rfl, rfl⟩
  | data =>
    rw [charged_eq, grant_eq]
    exact .inl ⟨rfl, rfl⟩
  | headers =>
    obtain ⟨m, hm, -⟩ := updateStream_eq ((c.entered f).blockDone.decoded libs _) f.stream _
    rw [addFields, hm]
    exact .inl ⟨rfl, rfl⟩
  | continuation =>
    obtain ⟨m, hm, -⟩ := updateStream_eq (c.blockDone.decoded libs _) f.stream _
    rw [addFields, hm]
    exact .inl ⟨rfl, rfl⟩
  | _ => exact .inl ⟨rfl, rfl⟩

theorem Handles.goawaySent (hh : Handles libs env c f c₁ tail)
    (h : c.goawaySent = true) : c₁.goawaySent = true := by
  cases tail with
  | error why =>
    cases hh with
    | failed _ hf => exact hf.goawaySent h
    | data _ _ _ _ _ _ _ _ htail => split_ifs at htail
  | _ =>
    obtain ⟨-, hsame⟩ | ⟨-, code, -, rfl⟩ := hh.remains fun _ h => by cases h
    · exact hsame.trans h
    · rfl

/-! ## What comes of a handler -/

inductive Leads (libs : Libs) (env : Env) (c₁ : Conn) : Tail → Conn → Except Str Unit → Prop
  | ok : Leads libs env c₁ .ok c₁ (.ok ())
  | error (why : Str) : Leads libs env c₁ (.error why) c₁ (.error why)
  | flush {c' : Conn} (hf : Flushes (c₁.flushOrder env) c₁ c') : Leads libs env c₁
      .flush c' (.ok ())
  | dispatch {stream : Nat} {c' : Conn} (hd : Dispatches libs env stream c₁ c') :
      Leads libs env c₁ (.dispatch stream) c' (.ok ())

theorem Leads.sound {c₁ c' : Conn} {r : Except Str Unit}
    (hl : Leads libs env c₁ tail c' r) (h : c₁.Sound) : c'.Sound := by
  cases hl with
  | ok | error => exact h
  | flush hf => exact hf.sound h
  | dispatch hd => exact hd.sound _ _ h

variable (libs env) in
theorem finish_leads (tail : Tail) (h : c.Sound) :
    ∃ c' r, tail.finish libs env c = some (c', r) ∧ Leads libs env c tail c' r := by
  cases tail with
  | ok => exact ⟨c, .ok (), rfl, .ok⟩
  | error why => exact ⟨c, .error why, rfl, .error why⟩
  | flush =>
    obtain ⟨c', hc', hf⟩ := flushPendingStreams_flushes env h
    exact ⟨c', .ok (), congrArg Conn.done hc', .flush hf⟩
  | dispatch stream =>
    obtain ⟨c', hc', hd⟩ := maybeDispatch_dispatches libs env stream h
    exact ⟨c', .ok (), congrArg Conn.done hc', .dispatch hd⟩

/-! ## Requests that are complete -/

def opening (c : Conn) (f : Frame) : Stream :=
  let s := (c.streams.get? f.stream).getD (.new c.peerInitialWindow)
  if has f.flags flagEndStream then { s with state := .halfClosedRemote } else s

def withFields (s : Stream) (fields : List (Str × Str)) : Stream :=
  { s with headers := s.headers ++ fields, headersDone := true }

theorem addFields_eq (c : Conn) (stream : Nat) (fields : List (Str × Str)) :
    ∃ m, c.addFields stream fields = { c with streams := m } ∧
      ∀ id, m.get? id =
        if id = stream then (c.streams.get? id).map fun s => withFields s fields
        else c.streams.get? id :=
  updateStream_eq c stream fun s => withFields s fields

/-- **The stream that a frame leaves when its request may be complete**: the last DATA frame, a
HEADERS frame, or the last CONTINUATION frame. -/
inductive Completes (libs : Libs) (env : Env) (c : Conn) (f : Frame) : Stream → Prop
  | data {s : Stream} {first last : Nat} {w inc : Int} (ha : Allowed c f) (hf : f.ftype = .data)
      (hid : f.stream ≠ 0) (hs : c.streams.get? f.stream = some s)
      (hcut : cutData f.flags f.payload = .ok (first, last))
      (hcap : s.body.length + ((f.payload.take last).drop first).length ≤ maxH2Body)
      (hw : replenish (s.recvWindow - f.payload.length) = some (w, inc))
      (hend : has f.flags flagEndStream = true) (hdone : s.headersDone = true) :
      Completes libs env c f (takeData s f.flags ((f.payload.take last).drop first) w)
  | headersPart {first last : Nat} (ha : Admitted env c f)
      (hcut : cutHeaders f.stream f.flags f.payload = .block first last)
      (hend : has f.flags flagEndHeaders = false)
      (hlen : c.headerBlockBuf.length + ((f.payload.take last).drop first).length ≤
        maxHeaderBlock) : Completes libs env c f (c.opening f)
  | headers {first last : Nat} {block : Bytes} {fields : List RawField} (ha : Admitted env c f)
      (hcut : cutHeaders f.stream f.flags f.payload = .block first last)
      (hblock : block = c.headerBlockBuf ++ (f.payload.take last).drop first)
      (hend : has f.flags flagEndHeaders = true)
      (hvalid : validateHpackBlock block hpackMaxTableSize = .ok ())
      (hdec : libs.decode c.hpackDec block = some fields)
      (hgood : ∀ s, c.streams.get? f.stream = some s →
        badTrailers s f.flags (decodeHpack fields) = false) :
      Completes libs env c f (withFields (c.opening f) (decodeHpack fields))
  | continuation {fields : List RawField} {s : Stream} (ha : Continues c f)
      (hend : has f.flags flagEndHeaders = true)
      (hlen : c.headerBlockBuf.length + f.payload.length ≤ maxHeaderBlock)
      (hvalid : validateHpackBlock (c.headerBlockBuf ++ f.payload) hpackMaxTableSize = .ok ())
      (hs : c.streams.get? f.stream = some s)
      (hdec : libs.decode c.hpackDec (c.headerBlockBuf ++ f.payload) = some fields) :
      Completes libs env c f (withFields s (decodeHpack fields))

theorem get?_entered_opening (c : Conn) (f : Frame) (id : Nat) : (c.entered f).streams.get? id =
      if id = f.stream then some (c.opening f) else c.streams.get? id := by
  rw [entered, enterStream, Conn.setStream]
  dsimp only
  rw [get?_insert]
  rfl

theorem get?_addFields (c : Conn) (stream : Nat) (fields : List (Str × Str)) (id : Nat) :
    (c.addFields stream fields).streams.get? id =
      if id = stream then (c.streams.get? id).map fun s => withFields s fields
      else c.streams.get? id := by
  obtain ⟨m, hm, hget⟩ := addFields_eq c stream fields
  rw [hm]
  exact hget id

theorem Handles.completes (hh : Handles libs env c f c₁ (.dispatch stream)) :
    stream = f.stream ∧ ∃ s, Completes libs env c f s ∧ c₁.streams.get? f.stream = some s := by
  generalize ht : Tail.dispatch stream = tail at hh
  cases hh with
  | @data s first last w inc w' inc' tail ha hf hid hs hcut hw hcap hw' htail =>
    rw [htail] at ht
    split_ifs at ht with hboth
    cases ht
    obtain ⟨hend, hdone⟩ := Bool.and_eq_true_iff.mp hboth
    refine ⟨rfl, _, .data ha hf hid hs hcut hcap hw' hend hdone, ?_⟩
    rw [grant_eq, Conn.setStream]
    dsimp only
    rw [get?_insert, if_pos rfl]
  | headersPart ha hcut hblock hend hlen =>
    cases ht
    subst hblock
    refine ⟨rfl, _, .headersPart ha hcut hend hlen, ?_⟩
    exact (get?_entered_opening ..).trans (if_pos rfl)
  | @headers first last block fields ha hcut hblock hend hvalid hdec hgood =>
    cases ht
    refine ⟨rfl, _, .headers ha hcut hblock hend hvalid hdec hgood, ?_⟩
    have hopen : ((c.entered f).blockDone.decoded libs block).streams.get? f.stream =
        some (c.opening f) := (get?_entered_opening ..).trans (if_pos rfl)
    rw [get?_addFields, if_pos rfl, hopen]
    rfl
  | @continuation fields s ha hend hlen hvalid hs hdec =>
    cases ht
    refine ⟨rfl, _, .continuation ha hend hlen hvalid hs hdec, ?_⟩
    have hs' : (c.blockDone.decoded libs (c.headerBlockBuf ++ f.payload)).streams.get? f.stream =
        some s := hs
    rw [get?_addFields, if_pos rfl, hs']
    rfl
  | _ => cases ht

/-! ## What responses leave alone -/

def ofResponse : Entry → Prop
  | .took _ => False
  | .wrote f => f.ftype = .data ∨ f.ftype = .headers ∨ f.ftype = .rstStream
  | .handed _ _ => True
  | .answered _ _ => True

/-- What the sending of responses and the handing over of requests leave as it is. -/
structure Kept (c c' : Conn) : Prop where
  phase : c'.phase = c.phase
  goaway : c'.goawaySent = c.goawaySent
  decoder : c'.hpackDec = c.hpackDec
  continuation : c'.continuationStreamId = c.continuationStreamId
  block : c'.headerBlockBuf = c.headerBlockBuf
  reset : c'.recentlyReset = c.recentlyReset
  initial : c'.peerInitialWindow = c.peerInitialWindow
  maxFrame : c'.peerMaxFrame = c.peerMaxFrame
  connRecv : c'.connRecvWindow = c.connRecvWindow
  log : ∃ es, c'.log = c.log ++ es ∧ ∀ e ∈ es, ofResponse e

theorem Kept.refl (c : Conn) : Kept c c :=
  ⟨rfl, rfl, rfl, rfl, rfl, rfl, rfl, rfl, rfl, [], (append_nil _).symm, nofun⟩

theorem Kept.trans {c₁ c₂ c₃ : Conn} (h : Kept c₁ c₂) (h' : Kept c₂ c₃) : Kept c₁ c₃ := by
  obtain ⟨es, hes, hall⟩ := h.log
  obtain ⟨es', hes', hall'⟩ := h'.log
  refine ⟨h'.phase.trans h.phase, h'.goaway.trans h.goaway, h'.decoder.trans h.decoder,
    h'.continuation.trans h.continuation, h'.block.trans h.block, h'.reset.trans h.reset,
    h'.initial.trans h.initial, h'.maxFrame.trans h.maxFrame, h'.connRecv.trans h.connRecv,
    es ++ es', by rw [hes', hes, append_assoc], fun e he => ?_⟩
  rcases mem_append.mp he with he | he
  · exact hall e he
  · exact hall' e he

theorem Kept.pushFrame (c : Conn) {ftype : FrameType}
    (h : ftype = .data ∨ ftype = .headers ∨ ftype = .rstStream) (flags : UInt8) (stream : Nat)
    (payload : Bytes) : Kept c (c.pushFrame ftype flags stream payload) := by
  refine ⟨rfl, rfl, rfl, rfl, rfl, rfl, rfl, rfl, rfl, [.wrote _], rfl, fun e he => ?_⟩
  rw [mem_singleton.mp he]
  exact h

theorem Kept.setStream (c : Conn) (stream : Nat) (s : Stream) : Kept c (c.setStream stream s) :=
  { Kept.refl c with }

theorem Kept.removeStream (c : Conn) (stream : Nat) : Kept c (c.removeStream stream) :=
  { Kept.refl c with }

theorem Kept.updateStream (c : Conn) (stream : Nat) (g : Stream → Stream) :
    Kept c (c.updateStream stream g) := by
  unfold Conn.updateStream
  cases c.streams.get? stream with
  | none => exact .refl c
  | some s => exact .setStream c stream (g s)

theorem Kept.addFields (c : Conn) (stream : Nat) (fields : List (Str × Str)) :
    Kept c (c.addFields stream fields) :=
  .updateStream ..

theorem Kept.closeStream (c : Conn) (stream : Nat) :
    Kept c (c.closeStreamRememberingWindow stream) := by
  unfold closeStreamRememberingWindow
  cases c.streams.get? stream with
  | none => exact .removeStream c stream
  | some s => exact { Kept.refl c with }

theorem Kept.endStream (c : Conn) (stream : Nat) (state : StreamState) :
    Kept c (c.endStream stream state) := by
  unfold Conn.endStream
  split_ifs
  · exact { Kept.closeStream c stream with }
  · exact .closeStream c stream
  · exact .updateStream c stream _

theorem Kept.chunkSent (c : Conn) (stream : Nat) (s : Stream) (body : Bytes) (n : Nat) :
    Kept c (c.chunkSent stream s body n) :=
  { Kept.pushFrame c (.inl rfl) _ stream ((body.take (s.respSent + n)).drop s.respSent) with }

theorem Sends.kept {c c' : Conn} (h : Sends stream c c') : Kept c c' := by
  induction h with
  | nothing c => exact .refl c
  | drained => exact (Kept.pushFrame _ (.inl rfl) ..).trans (.closeStream ..)
  | last => exact (Kept.chunkSent ..).trans (.endStream ..)
  | chunk _ _ _ _ _ ih => exact (Kept.chunkSent ..).trans ih

theorem Flushes.kept {ids : List Nat} {c c' : Conn} (h : Flushes ids c c') : Kept c c' := by
  induction h with
  | nil c => exact .refl c
  | cons first _ ih => exact first.kept.trans ih

theorem Kept.handOver (c : Conn) (stream : Nat) (req : RawRequest) :
    Kept c (c.handOver stream req) :=
  { Kept.refl c with
    log := ⟨[.handed stream req], rfl, fun e he => by rw [mem_singleton.mp he]; trivial⟩ }

theorem Kept.respond (libs : Libs) (c : Conn) (stream status : Nat) (headers : List (Str × Str))
    (body : Bytes) (method : Str) : Kept c (c.respond libs stream status headers body method) := by
  have hnote : Kept c (c.noteAnswer stream (sentBody method body)) :=
    { Kept.refl c with
      log := ⟨[.answered stream (sentBody method body)], rfl, fun e he => by
        rw [mem_singleton.mp he]
        trivial⟩ }
  have hhead (c : Conn) : Kept c (c.writeHead libs stream status headers body.length) :=
    { Kept.pushFrame c (.inr (.inl rfl)) flagEndHeaders stream
        (libs.encode c.hpackEnc (responseFields libs status headers body.length)) with }
  exact hnote.trans ((hhead _).trans (.updateStream ..))

theorem Kept.resetStream (c : Conn) (stream code : Nat) : Kept c (c.resetStream stream code) :=
  (Kept.pushFrame c (.inr (.inr rfl)) 0 stream (be32 code)).trans (.removeStream ..)

theorem Dispatches.kept {c c' : Conn} (h : Dispatches libs env stream c c') : Kept c c' := by
  cases h with
  | notReady => exact .refl c
  | rejected => exact .resetStream ..
  | pending => exact (Kept.handOver ..).trans (.updateStream ..)
  | answered _ _ _ _ hf => exact (Kept.handOver ..).trans ((Kept.respond ..).trans hf.kept)

theorem Leads.kept {c₁ c' : Conn} {r : Except Str Unit}
    (hl : Leads libs env c₁ tail c' r) : Kept c₁ c' := by
  cases hl with
  | ok | error => exact .refl c₁
  | flush hf => exact hf.kept
  | dispatch hd => exact hd.kept

theorem Sends.appends {P : Entry → Prop} (hP : ∀ f : Frame, f.ftype = .data → P (.wrote f))
    {c c' : Conn} (h : Sends stream c c') : Appends P c c' := by
  induction h with
  | nothing c => exact .refl c
  | @drained c s body hs hbody hall =>
    have hclose := log_closeStream (c.pushFrame .data flagEndStream stream []) stream
    exact .single (hP _ rfl) hclose
  | @last c s body n hs hbody ha hall =>
    exact .single (hP _ rfl) (log_endStream (c.chunkSent stream s body n) stream s.state)
  | @chunk c c' s body n _ _ _ _ _ ih =>
    have hfirst : Appends P c (c.chunkSent stream s body n) := .single (hP _ rfl) rfl
    exact hfirst.trans ih

theorem Flushes.appends {P : Entry → Prop} (hP : ∀ f : Frame, f.ftype = .data → P (.wrote f))
    {ids : List Nat} {c c' : Conn} (h : Flushes ids c c') : Appends P c c' := by
  induction h with
  | nil c => exact .refl c
  | cons first _ ih => exact (first.appends hP).trans ih

/-! ## What responses do to streams -/

/-- What a stream is after its response was sent on, or its request handed over. -/
structure Inherits (s s' : Stream) : Prop where
  headers : s'.headers = s.headers
  body : s'.body = s.body
  headersDone : s'.headersDone = s.headersDone
  recvWindow : s'.recvWindow = s.recvWindow
  state : s'.state = s.state ∨ s.state ≠ .halfClosedRemote ∧ s'.state = .halfClosedLocal
  /-- a request that was handed over stays so -/
  asked : s.respBody ≠ none ∨ s.pending ≠ none → s'.respBody ≠ none ∨ s'.pending ≠ none

theorem Inherits.refl (s : Stream) : Inherits s s := ⟨rfl, rfl, rfl, rfl, .inl rfl, id⟩

theorem Inherits.trans {s₁ s₂ s₃ : Stream} (h : Inherits s₁ s₂) (h' : Inherits s₂ s₃) :
    Inherits s₁ s₃ where
  headers := h'.headers.trans h.headers
  body := h'.body.trans h.body
  headersDone := h'.headersDone.trans h.headersDone
  recvWindow := h'.recvWindow.trans h.recvWindow
  state := by
    rcases h.state with h₁ | ⟨h₁, h₂⟩
    · rw [← h₁]
      exact h'.state
    · refine .inr ⟨h₁, ?_⟩
      rcases h'.state with h₃ | ⟨-, h₃⟩
      · exact h₃.trans h₂
      · exact h₃
  asked := fun ha => h'.asked (h.asked ha)

/-- What responses leave of the streams and of what is remembered of them: no stream is new, and
each is what it was but for its response. -/
structure Follows (c c' : Conn) : Prop where
  peerGoaway : c'.peerGoaway = c.peerGoaway
  streak : c'.refusedStreak = c.refusedStreak
  last : c.lastStreamId ≤ c'.lastStreamId
  closed : c.closedWindows.length ≤ resetMemory → c'.closedWindows.length ≤ resetMemory
  streams : ∀ id s', c'.streams.get? id = some s' →
    ∃ s, c.streams.get? id = some s ∧ Inherits s s'

theorem Follows.refl (c : Conn) : Follows c c :=
  ⟨rfl, rfl, le_refl _, id, fun _ s hs => ⟨s, hs, .refl s⟩⟩

theorem Follows.trans {c₁ c₂ c₃ : Conn} (h : Follows c₁ c₂) (h' : Follows c₂ c₃) :
    Follows c₁ c₃ where
  peerGoaway := h'.peerGoaway.trans h.peerGoaway
  streak := h'.streak.trans h.streak
  last := h.last.trans h'.last
  closed := fun hc => h'.closed (h.closed hc)
  streams := fun id s₃ hs₃ => by
    obtain ⟨s₂, hs₂, h₂⟩ := h'.streams id s₃ hs₃
    obtain ⟨s₁, hs₁, h₁⟩ := h.streams id s₂ hs₂
    exact ⟨s₁, hs₁, h₁.trans h₂⟩

theorem length_remember {α : Type} {l : List α} (h : l.length ≤ resetMemory) (a : α) :
    (remember l a).length ≤ resetMemory := by
  rw [remember, length_append, length_singleton]
  split_ifs with hfull
  · rw [length_tail]
    simp only [resetMemory] at *
    omega
  · omega

theorem Follows.removeStream (c : Conn) (stream : Nat) : Follows c (c.removeStream stream) :=
  { Follows.refl c with
    streams := fun id s hs => by
      change (c.streams.erase stream).get? id = some s at hs
      rw [get?_erase] at hs
      split_ifs at hs
      exact ⟨s, hs, .refl s⟩ }

theorem Follows.updateStream (c : Conn) (stream : Nat) {g : Stream → Stream}
    (hg : ∀ s, c.streams.get? stream = some s → Inherits s (g s)) :
    Follows c (c.updateStream stream g) := by
  obtain ⟨m, hm, hget⟩ := updateStream_eq c stream g
  rw [hm]
  refine { Follows.refl c with streams := fun id s' hs' => ?_ }
  rw [hget] at hs'
  split_ifs at hs' with hid
  · subst hid
    obtain ⟨s, hs, rfl⟩ := map_eq_some_iff.mp hs'
    exact ⟨s, hs, hg s hs⟩
  · exact ⟨s', hs', .refl s'⟩

theorem Follows.closeStream (c : Conn) (stream : Nat) :
    Follows c (c.closeStreamRememberingWindow stream) := by
  unfold closeStreamRememberingWindow
  cases c.streams.get? stream with
  | none => exact .removeStream c stream
  | some s =>
    exact { Follows.removeStream c stream with closed := fun hc => length_remember hc _ }

theorem Follows.endStream (c : Conn) (stream : Nat) {s : Stream}
    (hs : c.streams.get? stream = some s) : Follows c (c.endStream stream s.state) := by
  have hclose := Follows.closeStream c stream
  unfold Conn.endStream
  split_ifs with hstate
  · exact { hclose with last := hclose.last.trans (le_max_left ..) }
  · exact hclose
  · refine .updateStream c stream fun s' hs' => ?_
    cases hs.symm.trans hs'
    exact { Inherits.refl s with state := .inr ⟨hstate, rfl⟩ }

theorem get?_chunkSent (c : Conn) (stream : Nat) (s : Stream) (body : Bytes) (n id : Nat) :
    (c.chunkSent stream s body n).streams.get? id =
      if id = stream then some { s with sendWindow := s.sendWindow - n, respSent := s.respSent + n }
      else c.streams.get? id := by
  rw [chunkSent, Conn.setStream, get?_insert]
  rfl

theorem get?_closeStream (c : Conn) (stream id : Nat) :
    (c.closeStreamRememberingWindow stream).streams.get? id =
      if id = stream then none else c.streams.get? id := by
  rw [← get?_erase]
  unfold closeStreamRememberingWindow
  cases c.streams.get? stream with
  | none | some s => rfl

theorem get?_endStream (c : Conn) (stream : Nat) (state : StreamState) {id : Nat}
    (h : id ≠ stream) : (c.endStream stream state).streams.get? id = c.streams.get? id := by
  have hclose := get?_closeStream c stream id
  rw [if_neg h] at hclose
  unfold endStream
  split_ifs
  · exact hclose
  · exact hclose
  · obtain ⟨m, hm, hget⟩ := updateStream_eq c stream fun s => { s with state := .halfClosedLocal }
    rw [hm]
    exact (hget id).trans (if_neg h)

theorem Sends.other (hs : Sends stream c c') {id : Nat} (h : id ≠ stream) :
    c'.streams.get? id = c.streams.get? id := by
  induction hs with
  | nothing c => rfl
  | drained => exact (get?_closeStream ..).trans (if_neg h)
  | last => exact (get?_endStream _ _ _ h).trans ((get?_chunkSent ..).trans (if_neg h))
  | chunk _ _ _ _ _ ih => exact ih.trans ((get?_chunkSent ..).trans (if_neg h))

theorem Follows.chunkSent {c : Conn} {s : Stream}
    (hs : c.streams.get? stream = some s) (body : Bytes) (n : Nat) :
    Follows c (c.chunkSent stream s body n) :=
  { Follows.refl c with
    streams := fun id s' hs' => by
      rw [get?_chunkSent] at hs'
      split_ifs at hs' with hid
      · cases hs'
        exact ⟨s, hid ▸ hs, { Inherits.refl s with }⟩
      · exact ⟨s', hs', .refl s'⟩ }

theorem Sends.follows {c c' : Conn} (h : Sends stream c c') : Follows c c' := by
  induction h with
  | nothing c => exact .refl c
  | drained => exact { Follows.closeStream (Conn.pushFrame ..) stream with }
  | @last c s body n hs hbody ha hall =>
    have hsent := get?_chunkSent c stream s body n stream
    rw [if_pos rfl] at hsent
    have hend := Follows.endStream (c.chunkSent stream s body n) stream hsent
    exact (Follows.chunkSent hs body n).trans hend
  | chunk hs _ _ _ _ ih => exact (Follows.chunkSent hs ..).trans ih

theorem Flushes.follows {ids : List Nat} {c c' : Conn} (h : Flushes ids c c') : Follows c c' := by
  induction h with
  | nil c => exact .refl c
  | cons first _ ih => exact first.follows.trans ih

theorem Follows.handOver (c : Conn) (stream : Nat) (req : RawRequest) :
    Follows c (c.handOver stream req) :=
  { Follows.refl c with }

theorem Follows.respond (libs : Libs) (c : Conn) (stream status : Nat) (headers : List (Str × Str))
    (body : Bytes) (method : Str) :
    Follows c (c.respond libs stream status headers body method) := by
  have hhead : Follows c ((c.noteAnswer stream (sentBody method body)).writeHead libs stream status
      headers body.length) := { Follows.refl c with }
  refine hhead.trans (.updateStream _ stream fun s _ => ?_)
  exact { Inherits.refl s with asked := fun _ => .inl (some_ne_none _) }

theorem Follows.resetStream (c : Conn) (stream code : Nat) : Follows c
    (c.resetStream stream code) :=
  { Follows.removeStream (c.pushReset stream code) stream with }

theorem Dispatches.follows {c c' : Conn} (h : Dispatches libs env stream c c') : Follows c c' := by
  cases h with
  | notReady => exact .refl c
  | rejected => exact .resetStream ..
  | pending =>
    refine (Follows.handOver c stream _).trans (.updateStream _ stream fun s _ => ?_)
    exact { Inherits.refl s with asked := fun _ => .inr (some_ne_none _) }
  | answered _ _ _ _ hf => exact (Follows.handOver ..).trans ((Follows.respond ..).trans hf.follows)

theorem Leads.follows {c₁ c' : Conn} {r : Except Str Unit}
    (hl : Leads libs env c₁ tail c' r) : Follows c₁ c' := by
  cases hl with
  | ok | error => exact .refl c₁
  | flush hf => exact hf.follows
  | dispatch hd => exact hd.follows

def answerWith (libs : Libs) (c : Conn) (stream : Nat) (s : Stream) (status : Nat)
    (headers : List (Str × Str)) (body : Bytes) (method : Str) : Conn :=
  (c.setStream stream { s with pending := none }).respond libs stream status headers body method

theorem Kept.answerWith (libs : Libs) (c : Conn) (stream : Nat) (s : Stream) (status : Nat)
    (headers : List (Str × Str)) (body : Bytes) (method : Str) :
    Kept c (c.answerWith libs stream s status headers body method) :=
  (Kept.setStream ..).trans (Kept.respond ..)

theorem get?_respond (libs : Libs) (c : Conn) (stream status : Nat) (headers : List (Str × Str))
    (body : Bytes) (method : Str) (id : Nat) :
    (c.respond libs stream status headers body method).streams.get? id =
      if id = stream then (c.streams.get? id).map fun s => setBody s (sentBody method body)
      else c.streams.get? id := by
  obtain ⟨m, hm, hget⟩ := updateStream_eq
    ((c.noteAnswer stream (sentBody method body)).writeHead libs stream status headers body.length)
    stream fun s => setBody s (sentBody method body)
  rw [Conn.respond, hm, hget]
  rfl

theorem get?_answerWith (libs : Libs) (c : Conn) (stream : Nat) (s : Stream) (status : Nat)
    (headers : List (Str × Str)) (body : Bytes) (method : Str) (id : Nat) :
    (c.answerWith libs stream s status headers body method).streams.get? id =
      if id = stream then some (setBody { s with pending := none } (sentBody method body))
      else c.streams.get? id := by
  rw [Conn.answerWith, get?_respond, Conn.setStream]
  dsimp only
  rw [get?_insert]
  split_ifs
  · rfl
  · rfl

theorem Follows.answerWith (libs : Libs) {c : Conn} {s : Stream}
    (hs : c.streams.get? stream = some s) (status : Nat) (headers : List (Str × Str)) (body : Bytes)
    (method : Str) : Follows c (c.answerWith libs stream s status headers body method) := by
  have hset := Follows.respond libs (c.setStream stream { s with pending := none }) stream status
    headers body method
  refine { hset with streams := fun id s' hs' => ?_ }
  rw [get?_answerWith] at hs'
  split_ifs at hs' with hid
  · cases hs'
    refine ⟨s, hid ▸ hs, { Inherits.refl s with asked := fun _ => .inl ?_ }⟩
    exact some_ne_none _
  · exact ⟨s', hs', .refl s'⟩

/-! ## Events -/

def nextFrame (c : Conn) : Option (Frame × Bytes) :=
  if c.phase = .done ∨ c.awaitsPreface ∨ c.badPreface then none
  else
    match takeFrame c.enter.recvBuf with
    | .frame f rest => some (f, rest)
    | _ => none

def Overflows (c : Conn) : Event → Prop
  | .frame _ => ∃ f rest, c.nextFrame = some (f, rest) ∧ c.RaisesWindow f
  | _ => False

/-- **What an event can do.** -/
inductive Steps (libs : Libs) (c : Conn) : Event → Conn → Prop
  | still (e : Event) : Steps libs c e c
  | arrive (bytes : Bytes) (hp : c.phase ≠ .done) :
      Steps libs c (.arrive bytes) { c with recvBuf := c.recvBuf ++ bytes }
  /-- there is no frame yet -/
  | waits (env : Env) (hp : c.phase ≠ .done) : Steps libs c (.frame env) c.enter
  | badPreface (env : Env) (hp : c.phase ≠ .done) : Steps libs c (.frame env) c.giveUp
  | tooLarge (env : Env) (hp : c.phase ≠ .done) :
      Steps libs c (.frame env) (c.enter.connectionError errFrameSize).giveUp
  | frame {env : Env} {f : Frame} {rest : Bytes} {c₁ c' : Conn} {tail : Tail}
      (hp : c.phase ≠ .done) (hf : c.nextFrame = some (f, rest))
      (hh : Handles libs env (c.enter.take f rest) f c₁ tail)
        (hl : Leads libs env c₁ tail c' (.ok ())) :
      Steps libs c (.frame env) c'
  | failed {env : Env} {f : Frame} {rest : Bytes} {c₁ : Conn}
      (hp : c.phase ≠ .done) (hf : c.nextFrame = some (f, rest))
      (hh : Fails libs env (c.enter.take f rest) f c₁) : Steps libs c (.frame env) c₁.giveUp
  | answered {env : Env} {stream status : Nat} {headers : List (Str × Str)} {body : Bytes}
      {s : Stream} {method : Str} {c' : Conn} (hp : c.phase ≠ .done)
      (hs : c.streams.get? stream = some s) (hm : s.pending = some method)
      (hf : Flushes ((c.answerWith libs stream s status headers body method).flushOrder env)
        (c.answerWith libs stream s status headers body method) c') :
      Steps libs c (.answer env stream status headers body) c'
  | flushed {env : Env} {c' : Conn} (hf : Flushes (c.flushOrder env) c c') :
      Steps libs c (.flush env) c'
  | idled (hp : c.phase ≠ .done) :
      Steps libs c .idle { c.sendGoaway errNoError with phase := .done }
  | ioFailed : Steps libs c .ioFailed { c with phase := .done }
  | settled (hp : c.phase = .goingAway) : Steps libs c .settle { c with phase := .done }

end Conn

theorem takeFrame_frame {buf : Bytes} {f : Frame} {rest : Bytes}
    (h : takeFrame buf = .frame f rest) : f.payload.length ≤ maxFrameSize ∧ f.stream < 2 ^ 31 := by
  unfold takeFrame at h
  split at h
  · dsimp only at h
    split_ifs at h with hlarge hshort
    cases h
    refine ⟨?_, Nat.mod_lt _ (by decide)⟩
    rw [length_take]
    omega
  · cases h

namespace Conn

variable {libs : Libs} {env : Env} {c : Conn} {f : Frame}

variable {rest : Bytes}

theorem nextFrame_some (h : c.nextFrame = some (f, rest)) :
    takeFrame c.enter.recvBuf = .frame f rest := by
  unfold nextFrame at h
  split_ifs at h
  split at h
  · next heq =>
    cases h
    exact heq
  · cases h

theorem step_frame (libs : Libs) (env : Env) (h : c.nextFrame = some (f, rest)) :
    c.step libs (.frame env) = (receive libs env (c.enter.take f rest) f).map fun r =>
      match r.2 with
      | .ok _ => r.1
      | .error _ => r.1.giveUp := by
  have htake := nextFrame_some h
  unfold nextFrame at h
  split_ifs at h with hno
  obtain ⟨hp, hno⟩ := not_or.mp hno
  obtain ⟨hwait, hbad⟩ := not_or.mp hno
  rw [step, if_neg hp, processFrame, if_neg hwait, if_neg hbad, htake]
  dsimp only
  cases receive libs env (c.enter.take f rest) f with
  | none => rfl
  | some r =>
    obtain ⟨c', r⟩ := r
    cases r with
    | ok | error => rfl

theorem Sound.enter (h : c.Sound) : c.enter.Sound := by
  unfold Conn.enter
  split_ifs
  · exact h
  · exact h

theorem raisesWindow_take {g : Frame} :
    (c.enter.take f rest).RaisesWindow g ↔ c.RaisesWindow g := by
  unfold enter
  split_ifs
  all_goals exact ⟨fun h => ⟨h.1, h.2, h.3, h.4, h.5, h.6⟩, fun h => ⟨h.1, h.2, h.3, h.4, h.5, h.6⟩⟩

theorem frame_cases (libs : Libs) (env : Env) (h : c.Sound) (hp : c.phase ≠ .done) :
    (c.step libs (.frame env) = none ∧ c.Overflows (.frame env)) ∨ (¬ c.Overflows (.frame env) ∧
        ∃ c', c.step libs (.frame env) = some c' ∧ Steps libs c (.frame env) c') := by
  have hstep : c.step libs (.frame env) = (c.processFrame libs env).map _ := if_neg hp
  have hno (hn : c.nextFrame = none) : ¬ c.Overflows (.frame env) := by
    rintro ⟨f, rest, hf, -⟩
    cases hn.symm.trans hf
  rw [hstep, processFrame]
  by_cases hwait : c.awaitsPreface = true
  · rw [if_pos hwait]
    exact .inr ⟨hno (if_pos (.inr (.inl hwait))), c, rfl, .still _⟩
  rw [if_neg hwait]
  by_cases hbad : c.badPreface = true
  · rw [if_pos hbad]
    exact .inr ⟨hno (if_pos (.inr (.inr hbad))), _, rfl, .badPreface env hp⟩
  rw [if_neg hbad]
  have hnext : c.nextFrame = _ := if_neg (not_or.mpr ⟨hp, not_or.mpr ⟨hwait, hbad⟩⟩)
  cases htake : takeFrame c.enter.recvBuf with
  | wait =>
    rw [htake] at hnext
    exact .inr ⟨hno hnext, _, rfl, .waits env hp⟩
  | tooLarge =>
    rw [htake] at hnext
    exact .inr ⟨hno hnext, _, rfl, .tooLarge env hp⟩
  | frame f rest =>
    rw [htake] at hnext
    have hs : (c.enter.take f rest).Sound := h.enter
    rcases receive_handles libs env hs (takeFrame_frame htake).1 with
      ⟨hnone, hr⟩ | ⟨hr, c₁, tail, hh, heq⟩
    · refine .inl ⟨?_, f, rest, hnext, raisesWindow_take.mp hr⟩
      dsimp only
      rw [hnone]
      rfl
    · refine .inr ⟨?_, ?_⟩
      · rintro ⟨f', rest', hf', hr'⟩
        obtain ⟨rfl, rfl⟩ := Prod.ext_iff.mp (some.inj (hnext.symm.trans hf'))
        exact hr (raisesWindow_take.mpr hr')
      · obtain ⟨c', r, hc', hl⟩ := finish_leads libs env tail (hh.sound hs)
        dsimp only
        rw [heq, hc']
        cases hl with
        | ok => exact ⟨_, rfl, .frame hp hnext hh .ok⟩
        | error why => exact ⟨_, rfl, .failed hp hnext hh.fails⟩
        | flush hf => exact ⟨c', rfl, .frame hp hnext hh (.flush hf)⟩
        | dispatch hd => exact ⟨c', rfl, .frame hp hnext hh (.dispatch hd)⟩

/-- **One event**: the process ends if it overflows, and else the event does what it can do. -/
theorem step_cases (libs : Libs) (h : c.Sound) (e : Event) :
    (c.step libs e = none ∧ c.Overflows e) ∨
      (¬ c.Overflows e ∧ ∃ c', c.step libs e = some c' ∧ Steps libs c e c') := by
  cases e with
  | arrive bytes =>
    refine .inr ⟨id, ?_⟩
    by_cases hp : c.phase = .done
    · exact ⟨c, congrArg some (if_pos hp), .still _⟩
    · exact ⟨_, congrArg some (if_neg hp), .arrive bytes hp⟩
  | frame env =>
    by_cases hp : c.phase = .done
    · refine .inr ⟨?_, c, if_pos hp, .still _⟩
      rintro ⟨f, rest, hf, -⟩
      rw [nextFrame, if_pos (.inl hp)] at hf
      cases hf
    · exact frame_cases libs env h hp
  | answer env stream status headers body =>
    refine .inr ⟨id, ?_⟩
    by_cases hp : c.phase = .done
    · exact ⟨c, if_pos hp, .still _⟩
    · have hstep : c.step libs (.answer env stream status headers body) =
          c.answer libs env stream status headers body := if_neg hp
      rw [hstep, Conn.answer]
      cases hs : c.streams.get? stream with
      | none => exact ⟨c, rfl, .still _⟩
      | some s =>
        dsimp only
        cases hm : s.pending with
        | none => exact ⟨c, rfl, .still _⟩
        | some method =>
          have ok := h.streams stream s hs
          have hs₁ : (c.setStream stream { s with pending := none }).Sound :=
            h.setStream stream { ok with }
          obtain ⟨c', hc', hf⟩ := flushPendingStreams_flushes env
            (hs₁.respond libs stream status headers body method)
          exact ⟨c', hc', .answered hp hs hm hf⟩
  | flush env =>
    obtain ⟨c', hc', hf⟩ := flushPendingStreams_flushes env h
    exact .inr ⟨id, c', hc', .flushed hf⟩
  | idle =>
    refine .inr ⟨id, ?_⟩
    by_cases hp : c.phase = .done
    · exact ⟨c, congrArg some (if_pos hp), .still _⟩
    · exact ⟨_, congrArg some (if_neg hp), .idled hp⟩
  | ioFailed => exact .inr ⟨id, _, rfl, .ioFailed⟩
  | settle =>
    refine .inr ⟨id, ?_⟩
    by_cases hp : c.phase = .goingAway ∧ c.streams.entries.all fun e => e.2.state == .closed
    · exact ⟨_, congrArg some (if_pos hp), .settled hp.1⟩
    · exact ⟨c, congrArg some (if_neg hp), .still _⟩

theorem ofHandler_giveUp (c : Conn) : Appends ofHandler c c.giveUp := by
  unfold Conn.giveUp
  split_ifs
  · exact .same rfl
  · exact .single (.inr rfl) rfl

theorem goawaySent_giveUp (c : Conn) : c.giveUp.goawaySent = true := by
  unfold Conn.giveUp
  split_ifs with h
  · exact h
  · rfl

theorem streams_giveUp (c : Conn) :
    c.giveUp.streams = c.streams ∧ c.giveUp.lastStreamId = c.lastStreamId := by
  unfold Conn.giveUp
  split_ifs
  · exact ⟨rfl, rfl⟩
  · exact ⟨rfl, rfl⟩

theorem goawaySent_take_enter (c : Conn) (f : Frame) (rest : Bytes) :
    (c.enter.take f rest).goawaySent = c.goawaySent :=
  goawaySent_enter c

theorem nextFrame_bounds (h : c.nextFrame = some (f, rest)) :
    f.payload.length ≤ maxFrameSize ∧ f.stream < 2 ^ 31 :=
  takeFrame_frame (nextFrame_some h)

theorem outside_take :
    (c.enter.take f rest).continuationStreamId = c.continuationStreamId ∧
      (c.enter.take f rest).frameVerdict f.ftype f.stream = c.frameVerdict f.ftype f.stream := by
  unfold enter
  split_ifs
  · exact ⟨rfl, rfl⟩
  · exact ⟨rfl, rfl⟩

theorem Sound.giveUp (h : c.Sound) : c.giveUp.Sound := by
  unfold Conn.giveUp
  split_ifs
  · exact h
  · exact h

theorem Steps.sound {e : Event} {c' : Conn} (hs : Steps libs c e c') (h : c.Sound) : c'.Sound := by
  cases hs with
  | still | arrive | idled | ioFailed | settled => exact h
  | waits => exact h.enter
  | badPreface => exact h.giveUp
  | tooLarge => exact Sound.giveUp (c := Conn.connectionError ..) h.enter
  | frame _ _ hh hl => exact hl.sound (hh.sound (c := c.enter.take _ _) h.enter)
  | failed _ _ hh => exact (hh.sound (c := c.enter.take _ _) h.enter).giveUp
  | @answered env stream status headers body s method c' hp hs hm hf =>
    have hs₁ := h.setStream stream (s := { s with pending := none }) { h.streams _ _ hs with }
    exact hf.sound (hs₁.respond libs ..)
  | flushed hf => exact hf.sound h

theorem step_steps {e : Event} {c' : Conn} (h : c.Sound) (hs : c.step libs e = some c') :
    Steps libs c e c' := by
  rcases step_cases libs h e with ⟨hnone, -⟩ | ⟨-, c'', hc'', hst⟩
  · exact nomatch hnone.symm.trans hs
  · cases hc''.symm.trans hs
    exact hst

theorem step_eq_none_iff (h : c.Sound) (e : Event) : c.step libs e = none ↔ c.Overflows e := by
  rcases step_cases libs h e with ⟨hnone, ho⟩ | ⟨hno, c', hc', -⟩
  · exact ⟨fun _ => ho, fun _ => hnone⟩
  · exact ⟨fun hnone => absurd (hnone.symm.trans hc') nofun, fun ho => absurd ho hno⟩

/-- **What every step keeps holds in every state of a run.** -/
theorem throughout_kept (libs : Libs) {I P : Conn → Prop}
    (hI : ∀ c e c', c.Sound → I c → Steps libs c e c' → I c') (hP : ∀ c, c.Sound → I c → P c)
    (hnew : I Conn.new) (events : List Event) : Throughout (Conn.step libs) P Conn.new events := by
  have keeps (c : Conn) (e : Event) (c' : Conn) (h : c.Sound ∧ I c)
      (hs : c.step libs e = some c') : c'.Sound ∧ I c' := by
    have hst := step_steps h.1 hs
    exact ⟨hst.sound h.1, hI c e c' h.1 h.2 hst⟩
  exact throughout_of_inv keeps (fun c h => hP c h.1 h.2) events ⟨Sound.new, hnew⟩

/-- **What every step with a condition keeps holds in every state of a run whose steps have it.** -/
theorem throughout_kept_of (libs : Libs) {I P : Conn → Prop} {C : Conn → Event → Prop}
    (hI : ∀ c e c', c.Sound → I c → C c e → Steps libs c e c' → I c')
    (hP : ∀ c, c.Sound → I c → P c) (hnew : I Conn.new) (events : List Event)
    (h : EachStep (Conn.step libs) C Conn.new events) :
    Throughout (Conn.step libs) P Conn.new events := by
  have keeps (c : Conn) (e : Event) (c' : Conn) (hc : c.Sound ∧ I c) (hC : C c e)
      (hs : c.step libs e = some c') : c'.Sound ∧ I c' := by
    have hst := step_steps hc.1 hs
    exact ⟨hst.sound hc.1, hI c e c' hc.1 hc.2 hC hst⟩
  exact throughout_of_steps keeps (fun c hc => hP c hc.1 hc.2) events ⟨Sound.new, hnew⟩ h

end Conn

/-! ## A server and a client -/

/-- A step of a server whose handler asks a backend. -/
def plainEnv : Env := ⟨0, fun _ => [], fun _ _ => .pending, id, fun _ => .refl _⟩

/-- A HEADERS frame: `POST` of `/` by `http` from `a`. -/
def postFrame (flags : UInt8) (stream : Nat) : Bytes :=
  [0, 0, 6, 1, flags] ++ be32 stream ++ [0x83, 0x86, 0x84, 0x41, 1, 0x61]

def postHeaders : Bytes := postFrame flagEndHeaders 1

/-- A request with its block in two frames and its body in two, the second one padded. -/
def postInParts : Bytes :=
  clientPreface ++ [0, 0, 1, 1, 0, 0, 0, 0, 1, 0x83] ++
    [0, 0, 5, 9, 4, 0, 0, 0, 1, 0x86, 0x84, 0x41, 1, 0x61] ++
    [0, 0, 2, 0, 0, 0, 0, 0, 1, 0x61, 0x62] ++ [0, 0, 3, 0, 9, 0, 0, 0, 1, 1, 0x63, 0]

def postLibs : Libs :=
  ⟨fun _ _ => some [(lit ":method", lit "POST"), (lit ":scheme", lit "http"),
    (lit ":path", lit "/"),
    (lit ":authority", lit "a")], fun _ _ => [], id, []⟩

/-- A client that lets the server send two bytes, a request whose body comes in two frames, and more
credit. -/
def slowReader : Bytes :=
  clientPreface ++ [0, 0, 6, 4, 0, 0, 0, 0, 0, 0, 4, 0, 0, 0, 2] ++ postHeaders ++
    [0, 0, 2, 0, 0, 0, 0, 0, 1, 0x61, 0x62] ++ [0, 0, 1, 0, 1, 0, 0, 0, 1, 0x63] ++
    [0, 0, 4, 8, 0, 0, 0, 0, 1, 0, 0, 0, 5]

/-- A handler that answers with a body of three bytes. -/
def threeEnv : Env := { plainEnv with onRequest := fun _ _ => .ready 200 [] [0x78, 0x79, 0x7a] }

/-- The body of the response is sent in two parts. -/
def slowRun : List Event := .arrive slowReader :: List.replicate 5 (.frame threeEnv)

end M6.Http2
