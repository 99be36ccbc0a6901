import M6.Edge.H2Sections
import M6.Edge.H2Bounds

/-!
# Header blocks in one frame and in several

A header block comes in a HEADERS frame, or in a HEADERS frame and CONTINUATION frames
(`fragments`). Two parts of the server complete it, `endHeaders` and `finishBlock`, and they do not
do the same: only the first one looks whether a second section of a stream is a trailer section, and
a request may be handed over when a HEADERS frame has begun a section that is not complete. Besides,
a HEADERS frame that is refused leaves its CONTINUATION frames without one.

The module says exactly when the difference can be seen (`fragments_transparent_iff`): in the
streams, the frames that were written, and the requests that were handed over (`SameEffect`).
-/

namespace M6.Http2

open List Runs Option SortedMap

namespace Conn

variable {libs : Libs} {env : Env} {c c' : Conn} {f : Frame}

/-! ## Frames, one after the other -/

/-- The connection after a frame was processed: the loop of `drive` gives up after an error. -/
def concluded (r : Conn × Except Str Unit) : Conn :=
  match r.2 with
  | .ok _ => r.1
  | .error _ => r.1.giveUp

/-- A frame that was taken, in the loop of `drive`. -/
def process (libs : Libs) (env : Env) (c : Conn) (f : Frame) : Option Conn :=
  if c.phase = .done then some c else (receive libs env c f).map concluded

/-- Frames that were taken, one after the other. -/
def processAll (libs : Libs) (env : Env) (c : Conn) (fs : List Frame) : Option Conn :=
  fs.foldlM (process libs env) c

def continuations (stream : Nat) : List Bytes → List Frame
  | [] => []
  | [part] => [⟨.continuation, flagEndHeaders, stream, part⟩]
  | part :: parts => ⟨.continuation, 0, stream, part⟩ :: continuations stream parts

def headersFrame (stream : Nat) (flags : UInt8) (before after part : Bytes) : Frame :=
  ⟨.headers, flags, stream, before ++ part ++ after⟩

/-- What is before and after the block of a HEADERS frame: the length of the padding and the
priority fields, and the padding. -/
structure Wraps (flags : UInt8) (before after : Bytes) : Prop where
  fields : before.length = blockStart flags
  padding : after.length = if has flags flagPadded then (before.headD 0).toNat else 0

def whole (stream : Nat) (flags : UInt8) (before after block : Bytes) : Frame :=
  headersFrame stream (flags ||| flagEndHeaders) before after block

def fragments (stream : Nat) (flags : UInt8) (before after first : Bytes) : List Bytes → List Frame
  | [] => [whole stream flags before after first]
  | more => headersFrame stream flags before after first :: continuations stream more

theorem has_endHeaders (flags : UInt8) : has (flags ||| flagEndHeaders) flagEndHeaders = true := by
  have h : ∀ n : Fin 256, has (UInt8.ofFin n ||| flagEndHeaders) flagEndHeaders = true := by
    decide +kernel
  exact h flags.toFin

theorem has_other (flags : UInt8) :
    has (flags ||| flagEndHeaders) flagEndStream = has flags flagEndStream ∧
      has (flags ||| flagEndHeaders) flagPadded = has flags flagPadded ∧
      has (flags ||| flagEndHeaders) flagPriority = has flags flagPriority := by
  have h : ∀ n : Fin 256,
      has (UInt8.ofFin n ||| flagEndHeaders) flagEndStream = has (UInt8.ofFin n) flagEndStream ∧
      has (UInt8.ofFin n ||| flagEndHeaders) flagPadded = has (UInt8.ofFin n) flagPadded ∧
      has (UInt8.ofFin n ||| flagEndHeaders) flagPriority = has (UInt8.ofFin n) flagPriority := by
    decide +kernel
  exact h flags.toFin

theorem Wraps.whole {flags : UInt8} {before after : Bytes} (h : Wraps flags before after) :
    Wraps (flags ||| flagEndHeaders) before after := by
  obtain ⟨-, hpadded, hpriority⟩ := has_other flags
  refine ⟨h.fields.trans ?_, h.padding.trans ?_⟩
  · rw [blockStart, blockStart, priorityStart, priorityStart, hpadded, hpriority]
  · rw [hpadded]

def SelfDependent (stream : Nat) (flags : UInt8) (before : Bytes) : Prop :=
  has flags flagPriority = true ∧
    low31 (bigEndian ((before.drop (priorityStart flags)).take 4)) = stream

theorem Wraps.cut {flags : UInt8} {before after : Bytes} (h : Wraps flags before after)
    (stream : Nat) (part : Bytes) :
    SelfDependent stream flags before ∧
        cutHeaders stream flags (before ++ part ++ after) = .selfDependent ∨
      ¬ SelfDependent stream flags before ∧ cutHeaders stream flags (before ++ part ++ after) =
          .block before.length (before.length + part.length) := by
  obtain ⟨hfields, hpadding⟩ := h
  have hempty : ¬ (has flags flagPadded = true ∧ before ++ part ++ after = []) := by
    rintro ⟨hpad, hnil⟩
    have hlen := congrArg List.length hnil
    rw [length_append, length_append, hfields, blockStart, priorityStart, if_pos hpad] at hlen
    rw [length_nil] at hlen
    omega
  have hshort : ¬ (has flags flagPriority = true ∧
      (before ++ part ++ after).length < priorityStart flags + 5) := by
    rintro ⟨hpri, hlen⟩
    rw [length_append, length_append, hfields, blockStart, if_pos hpri] at hlen
    omega
  have hdep (hpri : has flags flagPriority = true) :
      ((before ++ part ++ after).drop (priorityStart flags)).take 4 =
        (before.drop (priorityStart flags)).take 4 := by
    rw [blockStart, if_pos hpri] at hfields
    rw [append_assoc, drop_append_of_le_length (by omega),
      take_append_of_le_length (by rw [length_drop]; omega)]
  have hpad : padLength flags (before ++ part ++ after) = after.length := by
    rw [hpadding, padLength]
    split_ifs with hpad
    · cases before with
      | nil =>
        rw [blockStart, priorityStart, if_pos hpad, length_nil] at hfields
        omega
      | cons b before => rfl
    · rfl
  by_cases hself : SelfDependent stream flags before
  · refine .inl ⟨hself, ?_⟩
    rw [cutHeaders, if_neg hempty, if_neg hshort, if_pos ⟨hself.1, (hdep hself.1).symm ▸ hself.2⟩]
  · refine .inr ⟨hself, ?_⟩
    have hnot : ¬ (has flags flagPriority = true ∧ low31 (bigEndian
        (((before ++ part ++ after).drop (priorityStart flags)).take 4)) = stream) :=
      fun h => hself ⟨h.1, hdep h.1 ▸ h.2⟩
    have hlast : (before ++ part ++ after).length - after.length = before.length + part.length := by
      rw [length_append, length_append]
      omega
    have hfits : ¬ blockStart flags + after.length > (before ++ part ++ after).length := by
      rw [length_append, length_append]
      omega
    rw [cutHeaders, if_neg hempty, if_neg hshort, if_neg hnot, hpad, if_neg hfits, hlast, hfields]

theorem slice_part (before part after : Bytes) :
    slice? (before ++ part ++ after) before.length (before.length + part.length) = some part := by
  rw [slice?_eq_some (Nat.le_add_right ..) (by rw [length_append, length_append]; omega),
    ← length_append, take_left, drop_left]

/-! ## A HEADERS frame -/

theorem frameShapeVerdict_headers (flags : UInt8) (stream length : Nat) :
    frameShapeVerdict .headers flags stream length =
      if stream = 0 then .connectionError errProtocolError else .allow := by
  simp [frameShapeVerdict, FrameType.needsStream, FrameType.needsConnection]

/-- A HEADERS frame that is answered by RST_STREAM and ends nothing else: it must not come in the
state of its stream, or it opens a stream after the client's GOAWAY, or one too many. -/
inductive Refused (env : Env) (c : Conn) (f : Frame) : Prop
  | state {code : Nat} (hout : c.continuationStreamId = none)
      (h : c.frameVerdict .headers f.stream = .streamError code)
  | late (ha : Allowed c f) (hodd : f.stream % 2 = 1) (hnew : c.lastStreamId < f.stream)
      (hgo : c.peerGoaway = true) (hs : c.streams.get? f.stream = none)
  | busy (h : Busy env c f) (hstreak : c.refusedStreak + 1 < maxRefusedStreak)

/-- **A frame that is refused is settled**, and nothing else of the connection is. -/
structure Settled (c c₁ : Conn) : Prop where
  phase : c₁.phase = c.phase
  outside : c₁.continuationStreamId = none
  goaway : c₁.goawaySent = c.goawaySent

section

variable {g : Frame}

theorem receive_outside (libs : Libs) (env : Env) (hin : c.continuationStreamId = none)
    (hg : g.ftype = .headers) : receive libs env c g = ((c.refuse env g).map ok).getD
      (c.handleHeaders libs env g.stream g.flags g.payload) := by
  have hwait : ¬ ∃ cont ∈ c.continuationStreamId, g.ftype ≠ .continuation ∨ g.stream ≠ cont := by
    rw [hin]
    rintro ⟨cont, hcont, -⟩
    exact nomatch hcont
  have hcont : ¬ (c.continuationStreamId = none ∧ g.ftype = .continuation) := by
    rw [hg]
    exact fun h => nomatch h.2
  rw [receive, if_neg hwait, if_neg hcont, dispatchFrame, hg]
  cases c.refuse env g with
  | none | some c₁ => rfl

theorem refuse_headers (env : Env) (hin : c.continuationStreamId = none) (hg : g.ftype = .headers) :
    c.refuse env g = if g.stream = 0 then some (c.connectionError errProtocolError)
      else c.deny g (c.frameVerdict .headers g.stream) := by
  rw [refuse, hg, frameShapeVerdict_headers, hin]
  by_cases hzero : g.stream = 0
  · rw [if_pos hzero, if_pos hzero]
    rfl
  · rw [if_neg hzero, if_neg hzero]
    cases c.frameVerdict .headers g.stream with
    | allow | connectionError code | streamError code => rfl

theorem Refused.settled (h : Refused env c f) (libs : Libs) (hf : f.ftype = .headers) :
    ∃ c₁, Settled c c₁ ∧ ∀ g : Frame, g.ftype = .headers → g.stream = f.stream →
      receive libs env c g = some (c₁, .ok ()) := by
  have handled (ha : Allowed c f) (hodd : f.stream % 2 = 1) (g : Frame) (hg : g.ftype = .headers)
      (hid : g.stream = f.stream) :
      receive libs env c g = c.handleHeaders libs env f.stream g.flags g.payload := by
    have hstate := ha.state
    rw [hf] at hstate
    rw [receive_outside libs env ha.outside hg, refuse_headers env ha.outside hg, hid,
      if_neg (by omega), hstate]
    rfl
  cases h with
  | @state code hout h =>
    refine ⟨c.resetStream f.stream code, ⟨rfl, hout, rfl⟩, fun g hg hid => ?_⟩
    have hzero : ¬ f.stream = 0 := by
      intro hzero
      rw [frameVerdict, if_pos hzero] at h
      cases h
    rw [receive_outside libs env hout hg, refuse_headers env hout hg, hid,
      if_neg hzero, h, deny, hid]
    rfl
  | late ha hodd hnew hgo hs =>
    refine ⟨c.refuseStream f.stream, ⟨rfl, ha.outside, rfl⟩, fun g hg hid => ?_⟩
    rw [handled ha hodd g hg hid, handleHeaders, if_neg (by omega), if_neg (by omega),
      if_neg fun h => absurd h.1 (not_le.mpr hnew), if_pos ⟨hgo, hs⟩]
    rfl
  | busy h hstreak =>
    refine ⟨c.refuseBusy env.now f.stream, ⟨rfl, h.outside, rfl⟩, fun g hg hid => ?_⟩
    have hodd := h.odd
    rw [handled h.toAllowed h.odd g hg hid, handleHeaders, if_neg (by omega), if_neg (by omega),
      if_neg fun hback => h.known hback.1 hback.2, if_neg fun hlate => h.open_ hlate.1 hlate.2,
      if_pos h.busy, if_neg (not_le.mpr hstreak)]
    rfl

theorem Refused.not_admitted (h : Refused env c f) : ¬ Admitted env c f := by
  intro ha
  cases h with
  | state hout h =>
    have hstate := ha.state
    rw [ha.headers, h] at hstate
    exact nomatch hstate
  | late _ _ _ hgo hs => exact ha.open_ hgo hs
  | busy h => exact absurd ha.room (not_lt.mpr h.busy)

end

theorem Admitted.accepted (h : Admitted env c f) (libs : Libs) {g : Frame} (hg : g.ftype = .headers)
    (hid : g.stream = f.stream) : receive libs env c g =
      (c.letIn f.stream).acceptHeaders libs env f.stream g.flags g.payload := by
  have hstate := h.state
  rw [h.headers] at hstate
  have hodd := h.odd
  rw [receive_outside libs env h.outside hg, refuse_headers env h.outside hg, hid,
    if_neg (by omega), hstate]
  change c.handleHeaders libs env f.stream g.flags g.payload = _
  rw [handleHeaders, if_neg (by omega), if_neg (by omega),
    if_neg fun hback => h.known hback.1 hback.2, if_neg fun hlate => h.open_ hlate.1 hlate.2,
    if_neg (not_le.mpr h.room)]

/-- **A HEADERS frame before its block is looked at**: it fails, or it ends the connection, whatever
its block is; or it is refused, or let in. -/
theorem receive_headers (libs : Libs) (env : Env) (hf : f.ftype = .headers) :
    (∃ c₁ why, ∀ g : Frame, g.ftype = .headers → g.stream = f.stream →
        receive libs env c g = some (c₁, .error why)) ∨
      (∃ c₁ : Conn, c₁.continuationStreamId = none ∧ c₁.goawaySent = true ∧
        ∀ g : Frame, g.ftype = .headers → g.stream = f.stream →
          receive libs env c g = some (c₁, .ok ())) ∨ Refused env c f ∨ Admitted env c f := by
  by_cases hin : c.continuationStreamId = none
  swap
  · obtain ⟨cont, hcont⟩ := ne_none_iff_exists'.mp hin
    refine .inl ⟨c, "expected CONTINUATION".toList, fun g hg _ => ?_⟩
    rw [receive, if_pos ⟨cont, hcont, .inl (by rw [hg]; exact nofun)⟩]
    rfl
  have ended (code : Nat) : (c.connectionError code).continuationStreamId = none ∧
      (c.connectionError code).goawaySent = true := ⟨hin, rfl⟩
  by_cases hzero : f.stream = 0
  · refine .inr (.inl ⟨_, (ended errProtocolError).1, rfl, fun g hg hid => ?_⟩)
    rw [receive_outside libs env hin hg, refuse_headers env hin hg, hid, if_pos hzero]
    rfl
  cases hstate : c.frameVerdict .headers f.stream with
  | connectionError code =>
    refine .inr (.inl ⟨_, (ended code).1, rfl, fun g hg hid => ?_⟩)
    rw [receive_outside libs env hin hg, refuse_headers env hin hg, hid, if_neg hzero, hstate]
    rfl
  | streamError code => exact .inr (.inr (.inl (.state hin hstate)))
  | allow =>
    have ha : Allowed c f := by
      refine ⟨hin, ?_, ?_⟩
      · rw [hf, frameShapeVerdict_headers, if_neg hzero]
      · rw [hf, hstate]
    have hhandle (g : Frame) (hg : g.ftype = .headers) (hid : g.stream = f.stream) :
        receive libs env c g = c.handleHeaders libs env f.stream g.flags g.payload := by
      rw [receive_outside libs env hin hg, refuse_headers env hin hg, hid, if_neg hzero, hstate]
      rfl
    by_cases heven : f.stream % 2 = 0
    · refine .inl ⟨c, "client used even stream ID".toList, fun g hg hid => ?_⟩
      rw [hhandle g hg hid, handleHeaders, if_neg hzero, if_pos heven]
      rfl
    have hodd : f.stream % 2 = 1 := by omega
    by_cases hback : f.stream ≤ c.lastStreamId ∧ c.streams.get? f.stream = none
    · refine .inr (.inl ⟨_, (ended errProtocolError).1, rfl, fun g hg hid => ?_⟩)
      rw [hhandle g hg hid, handleHeaders, if_neg hzero, if_neg heven, if_pos hback]
      rfl
    by_cases hlate : c.peerGoaway = true ∧ c.streams.get? f.stream = none
    · have hnew : c.lastStreamId < f.stream := not_le.mp fun hle => hback ⟨hle, hlate.2⟩
      exact .inr (.inr (.inl (.late ha hodd hnew hlate.1 hlate.2)))
    have hknown : f.stream ≤ c.lastStreamId → c.streams.get? f.stream ≠ none :=
      fun hle hnone => hback ⟨hle, hnone⟩
    have hopen : c.peerGoaway = true → c.streams.get? f.stream ≠ none :=
      fun hgo hnone => hlate ⟨hgo, hnone⟩
    by_cases hbusy : c.activeStreams env.now ≥ maxConcurrent
    · by_cases hflood : c.refusedStreak + 1 ≥ maxRefusedStreak
      · refine .inl ⟨(c.refuseBusy env.now f.stream).connectionError errEnhanceYourCalm,
          "stream concurrency cap ignored: reset flood".toList, fun g hg hid => ?_⟩
        rw [hhandle g hg hid, handleHeaders, if_neg hzero, if_neg heven, if_neg hback, if_neg hlate,
          if_pos hbusy, if_pos hflood]
        rfl
      · exact .inr (.inr (.inl (.busy ⟨ha, hf, hodd, hknown, hopen, hbusy⟩ (not_le.mp hflood))))
    · exact .inr (.inr (.inr ⟨ha, hf, hodd, hknown, hopen, not_le.mp hbusy⟩))

/-! ## CONTINUATION frames -/

/-- What comes of a header block that is complete with a CONTINUATION frame. -/
def finishBlock (libs : Libs) (env : Env) (c : Conn) (stream : Nat) (block : Bytes) : Outcome :=
  match validateHpackBlock block hpackMaxTableSize with
  | .error why => some (c.blockDone.connectionError errCompression, .error why)
  | .ok _ =>
    match c.streams.get? stream with
    | none => ok c.blockDone
    | some _ =>
      match c.blockDone.decodeBlock libs block with
      | (c, .error why) => some (c, .error why)
      | (c, .ok fields) => done ((c.addFields stream fields).maybeDispatch libs env stream)

theorem receive_continuation (libs : Libs) (env : Env) {stream : Nat} (hid : stream ≠ 0)
    (hcont : c.continuationStreamId = some stream) (flags : UInt8) {part : Bytes}
    (hlen : (c.headerBlockBuf ++ part).length ≤ maxHeaderBlock) :
    receive libs env c ⟨.continuation, flags, stream, part⟩ =
      if has flags flagEndHeaders then finishBlock libs env c stream (c.headerBlockBuf ++ part)
      else ok (c.addBlock part) := by
  have hwait : ¬ ∃ cont ∈ c.continuationStreamId,
      FrameType.continuation ≠ .continuation ∨ stream ≠ cont := by
    rw [hcont]
    rintro ⟨cont, ⟨⟩, h | h⟩
    · exact h rfl
    · exact h rfl
  have hsome : ¬ (c.continuationStreamId = none ∧ FrameType.continuation = .continuation) := by
    rw [hcont]
    exact fun h => nomatch h.1
  have hshape : frameShapeVerdict .continuation flags stream part.length = .allow := by
    simp [frameShapeVerdict, FrameType.needsStream, FrameType.needsConnection, hid]
  have hfits : ¬ c.headerBlockBuf.length + part.length > maxHeaderBlock := by
    rw [length_append] at hlen
    exact not_lt.mpr hlen
  rw [receive, if_neg hwait, if_neg hsome, refuse, hshape]
  dsimp only
  rw [if_pos (by rw [hcont]; rfl), dispatchFrame]
  dsimp only
  rw [handleContinuation, if_neg hfits]
  cases hend : has flags flagEndHeaders with
  | false => rfl
  | true =>
    rw [if_neg (not_not.mpr rfl), if_pos rfl, finishBlock]
    dsimp only
    cases validateHpackBlock (c.headerBlockBuf ++ part) hpackMaxTableSize with
    | error why => rfl
    | ok =>
      cases hs : c.streams.get? stream with
      | none =>
        dsimp only
        rw [maybeDispatch, show c.blockDone.streams = c.streams from rfl, hs]
        rfl
      | some s => rfl

/-- **CONTINUATION frames complete the block that was begun.** -/
theorem processAll_continuations (libs : Libs) (env : Env) {stream : Nat} (hid : stream ≠ 0)
    {parts : List Bytes} (hne : parts ≠ []) (hp : c.phase ≠ .done)
    (hcont : c.continuationStreamId = some stream)
    (hlen : (c.headerBlockBuf ++ parts.flatten).length ≤ maxHeaderBlock) :
    c.processAll libs env (continuations stream parts) =
      (finishBlock libs env c stream (c.headerBlockBuf ++ parts.flatten)).map concluded := by
  induction parts generalizing c with
  | nil => exact absurd rfl hne
  | cons part parts ih =>
    have hpart : (c.headerBlockBuf ++ part).length ≤ maxHeaderBlock := by
      rw [flatten_cons, ← append_assoc, length_append] at hlen
      exact (Nat.le_add_right ..).trans hlen
    cases parts with
    | nil =>
      have hlast : c.processAll libs env (continuations stream [part]) =
          (c.process libs env ⟨.continuation, flagEndHeaders, stream, part⟩).bind some := rfl
      rw [hlast, bind_fun_some, process, if_neg hp,
        receive_continuation libs env hid hcont flagEndHeaders hpart, if_pos (by decide),
        flatten_singleton]
    | cons next rest =>
      have hnext := ih (c := c.addBlock part) nofun hp hcont (by
        rw [flatten_cons, ← append_assoc] at hlen
        exact hlen)
      have hfirst : c.processAll libs env (continuations stream (part :: next :: rest)) =
          (c.process libs env ⟨.continuation, 0, stream, part⟩).bind fun c =>
            c.processAll libs env (continuations stream (next :: rest)) := rfl
      rw [hfirst, process, if_neg hp, receive_continuation libs env hid hcont 0 hpart,
        if_neg (by decide)]
      refine hnext.trans ?_
      change (finishBlock libs env c stream ((c.headerBlockBuf ++ part) ++ _)).map _ = _
      rw [append_assoc]
      rfl

/-! ## What a block does when it is complete -/

def effect (c : Conn) : SortedMap Nat Stream × List Entry := (c.streams, c.log)

/-- **Two ways to the same**: the streams, the frames that were written, and the requests that were
handed over. -/
def SameEffect (o o' : Option Conn) : Prop := o.map effect = o'.map effect

def blockFields (libs : Libs) (c : Conn) (block : Bytes) : Option (List (Str × Str)) :=
  match validateHpackBlock block hpackMaxTableSize with
  | .error _ => none
  | .ok _ => (libs.decode c.hpackDec block).map decodeHpack

def failedBlock (libs : Libs) (c : Conn) (block : Bytes) : Conn :=
  match validateHpackBlock block hpackMaxTableSize with
  | .error _ => (c.blockDone.connectionError errCompression).giveUp
  | .ok _ => (c.blockDone.decoded libs block).giveUp

theorem concluded_done (o : Option Conn) : (done o).map concluded = o := by
  cases o with
  | none | some c => rfl

section

variable {stream : Nat} {s : Stream}

theorem finishBlock_there (libs : Libs) (env : Env) (hs : c.streams.get? stream = some s)
    (block : Bytes) : (finishBlock libs env c stream block).map concluded =
      match blockFields libs c block with
      | none => some (failedBlock libs c block)
      | some fields => (c.closeSection stream fields
          (c.hpackDec ++ [.decode block])).maybeDispatch libs env stream := by
  unfold finishBlock blockFields failedBlock
  cases validateHpackBlock block hpackMaxTableSize with
  | error why => rfl
  | ok =>
    rw [hs]
    dsimp only
    rw [decodeBlock_eq, show c.blockDone.hpackDec = c.hpackDec from rfl]
    cases libs.decode c.hpackDec block with
    | none => rfl
    | some fields =>
      dsimp only [map_some]
      rw [concluded_done, addFields_eq_closeSection]

theorem endHeaders_concluded (libs : Libs) (env : Env) (hs : c.streams.get? stream = some s)
    (hbuf : c.headerBlockBuf = []) (flags : UInt8) (block : Bytes) :
    (c.endHeaders libs env stream flags block).map concluded =
      match blockFields libs c block with
      | none => some (failedBlock libs c block)
      | some fields =>
        if badTrailers s flags fields then
          some ((c.blockDone.decoded libs block).rejectRequest stream)
        else (c.closeSection stream fields
          (c.hpackDec ++ [.decode block])).maybeDispatch libs env stream := by
  unfold endHeaders blockFields failedBlock
  rw [hbuf, nil_append]
  dsimp only
  cases validateHpackBlock block hpackMaxTableSize with
  | error why => rfl
  | ok =>
    dsimp only
    rw [decodeBlock_eq, show c.blockDone.hpackDec = c.hpackDec from rfl]
    cases libs.decode c.hpackDec block with
    | none => rfl
    | some fields =>
      dsimp only [map_some]
      rw [get?_decoded, show c.blockDone.streams = c.streams from rfl, hs]
      dsimp only [any_some]
      split_ifs
      · rfl
      · rw [concluded_done, addFields_eq_closeSection]

end

/-! ## One frame and several -/

theorem ready_of_asked {s : Stream} (h : Asked s) : ready s = false :=
  Bool.eq_false_iff.mpr fun hr => not_asked_of_ready hr h

def inOne (libs : Libs) (env : Env) (c : Conn) (stream : Nat) (flags : UInt8) (block : Bytes) :
    Option Conn :=
  (c.endHeaders libs env stream flags block).map concluded

def inSeveral (libs : Libs) (env : Env) (c : Conn) (stream : Nat) (first block : Bytes) :
    Option Conn :=
  (((c.addBlock first).awaitContinuation stream).maybeDispatch libs env stream).bind fun c =>
    (finishBlock libs env c stream block).map concluded

section

variable {stream : Nat} {s : Stream} {flags : UInt8} {first block : Bytes}

theorem effect_closeSection_gone (fields : List (Str × Str)) (ops : List DecoderOp)
    (hs : c.streams.get? stream = none) : effect (c.closeSection stream fields ops) = effect c := by
  have hstreams : (c.closeSection stream fields ops).streams = c.streams := by
    refine ext_get? fun id => ?_
    rw [get?_closeSection]
    unfold withSection
    split_ifs with hid
    · rw [hid, hs]
      rfl
    · exact Option.map_id'
  rw [effect, hstreams]
  rfl

theorem effect_rejectRequest (fields : List (Str × Str)) (ops : List DecoderOp) (c : Conn)
    (stream : Nat) : effect ((c.closeSection stream fields ops).rejectRequest stream) =
      effect (c.rejectRequest stream) := by
  have hstreams : (c.closeSection stream fields ops).streams.erase stream =
      c.streams.erase stream := by
    refine ext_get? fun id => ?_
    rw [get?_erase, get?_erase, get?_closeSection]
    unfold withSection
    split_ifs
    · rfl
    · exact Option.map_id'
  exact congrArg (·, c.log ++ [.wrote ⟨.rstStream, 0, low31 stream,
    be32 errProtocolError⟩]) hstreams

theorem rejectRequest_appends (c : Conn) (stream : Nat) :
    Appends ofHandler c (c.rejectRequest stream) :=
  .single (.inl mem_cons_self) rfl

theorem failedBlock_appends (libs : Libs) (c : Conn) (block : Bytes) :
    Appends ofHandler c (failedBlock libs c block) := by
  unfold failedBlock
  cases validateHpackBlock block hpackMaxTableSize with
  | error why =>
    have hgoaway : Appends ofHandler c (c.blockDone.connectionError errCompression) :=
      .single (.inr rfl) rfl
    exact hgoaway.trans (ofHandler_giveUp _)
  | ok =>
    have hsame : Appends ofHandler c (c.blockDone.decoded libs block) := .same rfl
    exact hsame.trans (ofHandler_giveUp _)

theorem effect_ne_of_handed {c₁ c₂ : Conn} {req : RawRequest} {es : List Entry}
    (h₁ : c₁.log = c.log ++ .handed stream req :: es) (h₂ : Appends ofHandler c c₂) :
    effect c₁ ≠ effect c₂ := by
  intro heq
  obtain ⟨es', hes', hall⟩ := h₂
  have hlog : c₁.log = c₂.log := congrArg Prod.snd heq
  rw [h₁, hes'] at hlog
  exact hall (.handed stream req) ((append_cancel_left hlog) ▸ mem_cons_self)

theorem finishBlock_asked (libs : Libs) (env : Env)
    (hasked : ∀ s, c.streams.get? stream = some s → Asked s) (block : Bytes) :
    ∃ c', (finishBlock libs env c stream block).map concluded = some c' ∧
      Appends ofHandler c c' ∧ (c.streams.get? stream = none → c'.streams = c.streams) ∧
      ∀ fields, blockFields libs c block = some fields →
        effect c' = effect (c.closeSection stream fields []) := by
  cases hs : c.streams.get? stream with
  | none =>
    cases hvalid : validateHpackBlock block hpackMaxTableSize with
    | error why =>
      have hgoaway : Appends ofHandler c (c.blockDone.connectionError errCompression) :=
        .single (.inr rfl) rfl
      refine ⟨(c.blockDone.connectionError errCompression).giveUp, ?_,
        hgoaway.trans (ofHandler_giveUp _), fun _ => rfl, fun fields hf => ?_⟩
      · rw [finishBlock, hvalid]
        rfl
      · rw [blockFields, hvalid] at hf
        exact nomatch hf
    | ok =>
      refine ⟨c.blockDone, ?_, .same rfl, fun _ => rfl, fun fields _ => ?_⟩
      · rw [finishBlock, hvalid, hs]
        rfl
      · rw [effect_closeSection_gone fields [] hs]
        rfl
  | some s =>
    rw [finishBlock_there libs env hs]
    cases hf : blockFields libs c block with
    | none => exact ⟨_, rfl, failedBlock_appends .., nofun, nofun⟩
    | some fields =>
      have hthere : (c.closeSection stream fields (c.hpackDec ++ [.decode block])).streams.get?
          stream = some (withFields s fields) := by
        rw [get?_closeSection, hs, map_some, withSection, if_pos rfl]
      have hready : ready (withFields s fields) = false := ready_of_asked (hasked s hs)
      refine ⟨_, maybeDispatch_waits libs env hthere hready, .same rfl, nofun, ?_⟩
      rintro fields' ⟨⟩
      rfl

theorem Sound.closeSection (h : c.Sound) (stream : Nat) (fields : List (Str × Str))
    (ops : List DecoderOp) : (c.closeSection stream fields ops).Sound := by
  refine { h with streams := fun id s' hs' => ?_ }
  obtain ⟨s, hs, rfl⟩ := map_eq_some_iff.mp ((get?_closeSection ..).symm.trans hs')
  have ok := h.streams id s hs
  unfold withSection
  split_ifs
  · exact { ok with }
  · exact ok

theorem get?_closeSection_there (hs : c.streams.get? stream = some s) (fields : List (Str × Str))
    (ops : List DecoderOp) :
    (c.closeSection stream fields ops).streams.get? stream = some (withFields s fields) := by
  rw [get?_closeSection, hs, map_some, withSection, if_pos rfl]

theorem streams_failedBlock (libs : Libs) (c : Conn) (block : Bytes) :
    (failedBlock libs c block).streams = c.streams := by
  unfold failedBlock
  cases validateHpackBlock block hpackMaxTableSize with
  | error why | ok => exact (streams_giveUp _).1

/-- **A section that hands over nothing when it begins** is what it is in one frame, unless it is a
trailer section that must be refused. -/
theorem waits_iff (h : c.Sound) (libs : Libs) (env : Env) (hs : c.streams.get? stream = some s)
    (hbuf : c.headerBlockBuf = []) (hr : ready s = false) :
    SameEffect (c.inSeveral libs env stream first block) (c.inOne libs env stream flags block) ↔
      ∀ fields, blockFields libs c block = some fields → badTrailers s flags fields = true →
        ready (withFields s fields) = true ∧ Invalid (withFields s fields) := by
  have hseveral : c.inSeveral libs env stream first block =
      match blockFields libs c block with
      | none => some (failedBlock libs c block)
      | some fields => (c.closeSection stream fields
          (c.hpackDec ++ [.decode block])).maybeDispatch libs env stream := by
    rw [inSeveral, maybeDispatch_waits libs env (c :=
      (c.addBlock first).awaitContinuation stream) hs hr,
      bind_some,
      finishBlock_there libs env (c := (c.addBlock first).awaitContinuation stream) hs]
    rfl
  rw [inOne, endHeaders_concluded libs env hs hbuf, hseveral]
  cases hf : blockFields libs c block with
  | none => exact ⟨fun _ _ hnone => (nomatch hnone), fun _ => rfl⟩
  | some fields =>
    have hp := get?_closeSection_there hs fields (c.hpackDec ++ [.decode block])
    dsimp only
    cases hbad : badTrailers s flags fields with
    | false =>
      refine ⟨?_, fun _ => rfl⟩
      rintro - _ ⟨⟩ hno
      exact nomatch hbad.symm.trans hno
    | true =>
      rw [if_pos rfl]
      cases hrp : ready (withFields s fields) with
      | false =>
        rw [maybeDispatch_waits libs env hp hrp]
        constructor
        · intro hsame
          have hstreams := congrArg (fun e => e.1.get? stream) (some.inj hsame)
          have hgone : ((c.blockDone.decoded libs block).rejectRequest stream).streams.get? stream =
              none := (get?_erase ..).trans (if_pos rfl)
          exact nomatch hp.symm.trans (hstreams.trans hgone)
        · intro hall
          exact nomatch hrp.symm.trans (hall fields rfl hbad).1
      | true =>
        by_cases hinv : Invalid (withFields s fields)
        · rw [maybeDispatch_rejects libs env hp hrp hinv]
          refine ⟨?_, fun _ => congrArg some (effect_rejectRequest ..)⟩
          rintro - _ ⟨⟩ -
          exact ⟨hrp, hinv⟩
        · obtain ⟨c', es, hc', hlog, -⟩ := handOn_spec libs env (h.closeSection stream fields
            (c.hpackDec ++ [.decode block])) stream (requestOf (withFields s fields))
            (clientOf env (withFields s fields))
          rw [maybeDispatch_handsOn libs env hp hrp hinv, hc']
          constructor
          · intro hsame
            exact absurd (some.inj hsame)
              (effect_ne_of_handed (c := c) hlog (.single (.inl mem_cons_self) rfl))
          · intro hall
            exact absurd (hall fields rfl hbad).2 hinv

/-- **A section of a request that is refused when it begins.** -/
theorem rejected_iff (h : c.Sound) (libs : Libs) (env : Env) (hs : c.streams.get? stream = some s)
    (hbuf : c.headerBlockBuf = []) (hr : ready s = true) (hinv : Invalid s) :
    SameEffect (c.inSeveral libs env stream first block) (c.inOne libs env stream flags block) ↔
      ∃ fields, blockFields libs c block = some fields ∧
        (badTrailers s flags fields = true ∨ Invalid (withFields s fields)) := by
  have hgone : (((c.addBlock first).awaitContinuation stream).rejectRequest stream).streams.get?
      stream = none := (get?_erase ..).trans (if_pos rfl)
  obtain ⟨c', hc', -, hstreams, heffect⟩ := finishBlock_asked libs env
    (c := ((c.addBlock first).awaitContinuation stream).rejectRequest stream)
    (fun s' hs' => nomatch hgone.symm.trans hs') block
  have hseveral : c.inSeveral libs env stream first block = some c' := by
    rw [inSeveral, maybeDispatch_rejects libs env (c := (c.addBlock first).awaitContinuation stream)
      hs hr hinv, bind_some, hc']
  rw [inOne, endHeaders_concluded libs env hs hbuf, hseveral]
  cases hf : blockFields libs c block with
  | none =>
    constructor
    · intro hsame
      have hsame : c'.streams.get? stream = (failedBlock libs c block).streams.get? stream :=
        congrArg (fun e => e.1.get? stream) (some.inj hsame)
      rw [hstreams hgone, streams_failedBlock, hgone, hs] at hsame
      exact nomatch hsame
    · rintro ⟨fields, hno, -⟩
      exact nomatch hno
  | some fields =>
    have hreset : effect c' = effect (c.rejectRequest stream) :=
      (heffect fields hf).trans (effect_closeSection_gone fields [] hgone)
    dsimp only
    cases hbad : badTrailers s flags fields with
    | true =>
      rw [if_pos rfl]
      exact ⟨fun _ => ⟨fields, rfl, .inl hbad⟩, fun _ => congrArg some hreset⟩
    | false =>
      have hp := get?_closeSection_there hs fields (c.hpackDec ++ [.decode block])
      have hrp := ready_withFields hr fields
      rw [if_neg Bool.false_ne_true]
      by_cases hinv' : Invalid (withFields s fields)
      · rw [maybeDispatch_rejects libs env hp hrp hinv']
        refine ⟨fun _ => ⟨fields, rfl, .inr hinv'⟩, fun _ => congrArg some ?_⟩
        exact hreset.trans (effect_rejectRequest ..).symm
      · obtain ⟨c'', es, hc'', hlog, -⟩ := handOn_spec libs env (h.closeSection stream fields
          (c.hpackDec ++ [.decode block])) stream (requestOf (withFields s fields))
          (clientOf env (withFields s fields))
        rw [maybeDispatch_handsOn libs env hp hrp hinv', hc'']
        constructor
        · intro hsame
          exact absurd ((some.inj hsame).symm.trans hreset)
            (effect_ne_of_handed (c := c) hlog (rejectRequest_appends c stream))
        · rintro ⟨_, ⟨⟩, hno | hno⟩
          · exact nomatch hbad.symm.trans hno
          · exact absurd hno hinv'

def withHandler (env : Env) (onRequest : RawRequest → Str → RequestOutcome) : Env :=
  { env with onRequest := onRequest }

theorem several_handed (h : c.Sound) (libs : Libs) (env : Env) (first block : Bytes)
    (hs : c.streams.get? stream = some s) (hr : ready s = true) (hgood : ¬ Invalid s) :
    ∃ c₁ c' es, ((c.addBlock first).awaitContinuation stream).handOn libs env stream (requestOf s)
        (clientOf env s) = some c₁ ∧ c.inSeveral libs env stream first block = some c' ∧
      c₁.log = c.log ++ .handed stream (requestOf s) :: es ∧
      (es = [] ↔ env.onRequest (requestOf s) (clientOf env s) = .pending) ∧
        Appends ofHandler c₁ c' ∧
      ∀ fields, blockFields libs c block = some fields →
        effect c' = effect (c₁.closeSection stream fields []) := by
  obtain ⟨c₁, es, hc₁, hlog, hkept, hasked, hes⟩ := handOn_spec libs env
    (c := (c.addBlock first).awaitContinuation stream) h stream (requestOf s) (clientOf env s)
  obtain ⟨c', hc', happ, -, heffect⟩ := finishBlock_asked libs env hasked block
  refine ⟨c₁, c', es, hc₁, ?_, hlog, hes, happ, fun fields hf => heffect fields ?_⟩
  · rw [inSeveral, maybeDispatch_handsOn libs env (c := (c.addBlock first).awaitContinuation stream)
      hs hr hgood, hc₁, bind_some, hc']
  · rw [← hf, blockFields, blockFields, hkept.decoder]
    rfl

theorem one_handed (libs : Libs) (env : Env) (hs : c.streams.get? stream = some s)
    (hbuf : c.headerBlockBuf = []) (hr : ready s = true) {fields : List (Str × Str)}
    (hf : blockFields libs c block = some fields) (hbad : badTrailers s flags fields = false)
    (hgood : ¬ Invalid (withFields s fields)) : c.inOne libs env stream flags block =
      (c.closeSection stream fields (c.hpackDec ++ [.decode block])).handOn libs env stream
        (requestOf (withFields s fields)) (clientOf env (withFields s fields)) := by
  rw [inOne, endHeaders_concluded libs env hs hbuf, hf]
  dsimp only
  rw [hbad, if_neg Bool.false_ne_true,
    maybeDispatch_handsOn libs env (get?_closeSection_there hs ..)
    (ready_withFields hr fields) hgood]

theorem requests_alike (h : c.Sound) (libs : Libs) (env : Env)
    (hs : c.streams.get? stream = some s) (hbuf : c.headerBlockBuf = []) (hr : ready s = true)
    (hgood : ¬ Invalid s) (hsame : SameEffect (c.inSeveral libs env stream first block)
      (c.inOne libs env stream flags block)) :
    ∃ fields, blockFields libs c block = some fields ∧ badTrailers s flags fields = false ∧
      ¬ Invalid (withFields s fields) ∧ requestOf (withFields s fields) = requestOf s := by
  obtain ⟨c₁, c', es, -, hc', hlog, -, ⟨es', hes', -⟩, -⟩ :=
    several_handed h libs env first block hs hr hgood
  rw [hlog, append_assoc] at hes'
  have handed {c₂ : Conn} (hone : c.inOne libs env stream flags block = some c₂)
      (happ : Appends ofHandler c c₂) : False := by
    rw [hc', hone] at hsame
    exact effect_ne_of_handed hes' happ (some.inj hsame)
  have hone : c.inOne libs env stream flags block = _ := endHeaders_concluded libs env hs hbuf ..
  cases hf : blockFields libs c block with
  | none =>
    rw [hf] at hone
    exact (handed hone (failedBlock_appends ..)).elim
  | some fields =>
    rw [hf] at hone
    dsimp only at hone
    cases hbad : badTrailers s flags fields with
    | true =>
      rw [hbad, if_pos rfl] at hone
      exact (handed hone (.single (.inl mem_cons_self) rfl)).elim
    | false =>
      by_cases hinv : Invalid (withFields s fields)
      · rw [hbad, if_neg Bool.false_ne_true, maybeDispatch_rejects libs env
          (get?_closeSection_there hs ..) (ready_withFields hr fields) hinv] at hone
        exact (handed hone (.single (.inl mem_cons_self) rfl)).elim
      · refine ⟨fields, rfl, hbad, hinv, ?_⟩
        obtain ⟨c₂, es₂, hc₂, hlog₂, -⟩ := handOn_spec libs env
          (h.closeSection stream fields (c.hpackDec ++ [.decode block])) stream
          (requestOf (withFields s fields)) (clientOf env (withFields s fields))
        rw [hc', one_handed libs env hs hbuf hr hf hbad hinv, hc₂] at hsame
        have hlogs : c'.log = c₂.log := congrArg Prod.snd (some.inj hsame)
        rw [hes', hlog₂] at hlogs
        injection append_cancel_left hlogs with hfirst
        injection hfirst with _ hreq
        exact hreq.symm

def askFor (client client' : Str) : RequestOutcome :=
  if client' = client then .pending else .ready 200 [] []

theorem clients_alike (h : c.Sound) (libs : Libs) (env : Env)
    (hs : c.streams.get? stream = some s) (hbuf : c.headerBlockBuf = []) (hr : ready s = true)
    (hgood : ¬ Invalid s) {fields : List (Str × Str)}
    (hf : blockFields libs c block = some fields) (hbad : badTrailers s flags fields = false)
    (hgood' : ¬ Invalid (withFields s fields)) (hsame : SameEffect
      (c.inSeveral libs (withHandler env fun _ => askFor (clientOf env s)) stream first block)
      (c.inOne libs (withHandler env fun _ => askFor (clientOf env s)) stream flags block)) :
    clientOf env (withFields s fields) = clientOf env s := by
  by_contra hne
  obtain ⟨c₁, c', es, -, hc', hlog, hes, -, heffect⟩ :=
    several_handed h libs (withHandler env fun _ => askFor (clientOf env s)) first block hs hr hgood
  obtain rfl := hes.mpr (if_pos rfl)
  obtain ⟨c₂, es₂, hc₂, hlog₂, -, -, hes₂⟩ := handOn_spec libs
    (withHandler env fun _ => askFor (clientOf env s))
    (h.closeSection stream fields (c.hpackDec ++ [.decode block])) stream
    (requestOf (withFields s fields)) (clientOf env (withFields s fields))
  have hanswered : askFor (clientOf env s) (clientOf env (withFields s fields)) ≠ .pending := by
    rw [askFor, if_neg hne]
    exact nofun
  rw [hc', one_handed libs _ hs hbuf hr hf hbad hgood'] at hsame
  have hlogs : c₁.log = c₂.log := (congrArg Prod.snd (heffect fields hf)).symm.trans
    (congrArg Prod.snd (some.inj (hsame.trans (congrArg (Option.map effect) hc₂))))
  rw [hlog, hlog₂] at hlogs
  injection append_cancel_left hlogs with _ hrest
  exact hanswered (hes₂.mp hrest.symm)

/-- **A section of a request that is handed over when it begins.** -/
theorem handed_iff (h : c.Sound) (libs : Libs) (env : Env) (hs : c.streams.get? stream = some s)
    (hbuf : c.headerBlockBuf = []) (hr : ready s = true) (hgood : ¬ Invalid s) :
    (∀ onRequest, SameEffect (c.inSeveral libs (withHandler env onRequest) stream first block)
        (c.inOne libs (withHandler env onRequest) stream flags block)) ↔
      ∃ fields, blockFields libs c block = some fields ∧ badTrailers s flags fields = false ∧
        ¬ Invalid (withFields s fields) ∧ requestOf (withFields s fields) = requestOf s ∧
        clientOf env (withFields s fields) = clientOf env s := by
  constructor
  · intro hall
    obtain ⟨fields, hf, hbad, hgood', hreq⟩ :=
      requests_alike h libs (withHandler env env.onRequest) hs hbuf hr hgood (hall env.onRequest)
    exact ⟨fields, hf, hbad, hgood', hreq,
      clients_alike h libs env hs hbuf hr hgood hf hbad hgood' (hall _)⟩
  · rintro ⟨fields, hf, hbad, hgood', hreq, hclient⟩ onRequest
    obtain ⟨c₁, c', es, hc₁, hc', -, -, -, heffect⟩ :=
      several_handed h libs (withHandler env onRequest) first block hs hr hgood
    have hclient' : clientOf (withHandler env onRequest) (withFields s fields) =
        clientOf (withHandler env onRequest) s := hclient
    have hcommutes := handOn_closeSection libs (withHandler env onRequest)
      ((c.addBlock first).awaitContinuation stream) stream (requestOf s)
      (clientOf (withHandler env onRequest) s) stream fields (c.hpackDec ++ [.decode block])
    have hone : c.inOne libs (withHandler env onRequest) stream flags block =
        some (c₁.closeSection stream fields (c.hpackDec ++ [.decode block])) := by
      rw [one_handed libs _ hs hbuf hr hf hbad hgood', hreq, hclient']
      refine Eq.trans hcommutes ?_
      rw [hc₁, map_some]
    rw [hc', hone]
    exact congrArg some (heffect fields hf)

/-- **When a section that was begun comes to the same** as in one frame. -/
structure SectionAlike (libs : Libs) (env : Env) (c : Conn) (s : Stream) (flags : UInt8)
    (block : Bytes) : Prop where
  /-- nothing is handed over when it begins: it is no trailer section that must be refused, unless
  the request is refused with it -/
  waits : ready s = false → ∀ fields, blockFields libs c block = some fields →
    badTrailers s flags fields = true →
      ready (withFields s fields) = true ∧ Invalid (withFields s fields)
  /-- a request is refused when it begins: so is the section, or the request with it -/
  rejected : ready s = true → Invalid s → ∃ fields, blockFields libs c block = some fields ∧
    (badTrailers s flags fields = true ∨ Invalid (withFields s fields))
  /-- a request is handed over when it begins: it is the same with it -/
  handed : ready s = true → ¬ Invalid s → ∃ fields, blockFields libs c block = some fields ∧
    badTrailers s flags fields = false ∧ ¬ Invalid (withFields s fields) ∧
    requestOf (withFields s fields) = requestOf s ∧
    clientOf env (withFields s fields) = clientOf env s

theorem sectionAlike_iff (h : c.Sound) (libs : Libs) (env : Env) (first block : Bytes)
    (flags : UInt8)     (hs : c.streams.get? stream = some s) (hbuf : c.headerBlockBuf = []) :
    (∀ onRequest, SameEffect (c.inSeveral libs (withHandler env onRequest) stream first block)
        (c.inOne libs (withHandler env onRequest) stream flags block)) ↔
      SectionAlike libs env c s flags block := by
  cases hr : ready s with
  | false =>
    have hready (hno : ready s = true) : False := nomatch hr.symm.trans hno
    constructor
    · intro hall
      exact ⟨fun _ => (waits_iff h libs _ hs hbuf hr).mp (hall env.onRequest),
        fun hno => (hready hno).elim, fun hno => (hready hno).elim⟩
    · intro halike onRequest
      exact (waits_iff h libs _ hs hbuf hr).mpr (halike.waits hr)
  | true =>
    have hwaits (hno : ready s = false) : False := nomatch hr.symm.trans hno
    by_cases hinv : Invalid s
    · constructor
      · intro hall
        exact ⟨fun hno => (hwaits hno).elim,
          fun _ _ => (rejected_iff h libs _ hs hbuf hr hinv).mp (hall env.onRequest),
          fun _ hno => absurd hinv hno⟩
      · intro halike onRequest
        exact (rejected_iff h libs _ hs hbuf hr hinv).mpr (halike.rejected hr hinv)
    · rw [handed_iff h libs env hs hbuf hr hinv]
      exact ⟨fun hfields => ⟨fun hno => (hwaits hno).elim, fun _ hno => absurd hno hinv,
        fun _ _ => hfields⟩, fun halike => halike.handed hr hinv⟩

/-! ## Letting a block in -/

variable {before after : Bytes} {more : List Bytes}

theorem enterStream_flags (c : Conn) (stream : Nat) (flags : UInt8) :
    c.enterStream stream (flags ||| flagEndHeaders) = c.enterStream stream flags := by
  rw [enterStream, enterStream, (has_other flags).1]

theorem endHeaders_flags (libs : Libs) (env : Env) (c : Conn) (stream : Nat) (flags : UInt8)
    (block : Bytes) : c.endHeaders libs env stream (flags ||| flagEndHeaders) block =
      c.endHeaders libs env stream flags block := by
  have hbad (s : Stream) (fields : List (Str × Str)) :
      badTrailers s (flags ||| flagEndHeaders) fields = badTrailers s flags fields := by
    rw [badTrailers, badTrailers, (has_other flags).1]
  unfold endHeaders
  simp only [hbad]

theorem acceptHeaders_self (libs : Libs) (env : Env) (hw : Wraps flags before after)
    (hself : SelfDependent stream flags before) (part : Bytes) :
    c.acceptHeaders libs env stream flags (before ++ part ++ after) =
      some (c.pushReset stream errProtocolError, .ok ()) := by
  rcases hw.cut stream part with ⟨-, hcut⟩ | ⟨hno, -⟩
  · rw [acceptHeaders, hcut]
    rfl
  · exact absurd hself hno

theorem acceptHeaders_block (libs : Libs) (env : Env) (hw : Wraps flags before after)
    (hself : ¬ SelfDependent stream flags before) (part : Bytes) :
    c.acceptHeaders libs env stream flags (before ++ part ++ after) =
      if has flags flagEndHeaders then
        (c.enterStream stream flags).endHeaders libs env stream flags part
      else if c.headerBlockBuf.length + part.length > maxHeaderBlock then
        ((c.enterStream stream flags).connectionError errEnhanceYourCalm).err
          "header block exceeds MAX_HEADER_BLOCK"
      else done ((((c.enterStream stream flags).addBlock part).awaitContinuation
        stream).maybeDispatch libs env stream) := by
  rcases hw.cut stream part with ⟨hyes, -⟩ | ⟨-, hcut⟩
  · exact absurd hyes hself
  · rw [acceptHeaders, hcut]
    dsimp only
    rw [slice_part]
    rfl

theorem whole_inOne (libs : Libs) (env : Env) (hw : Wraps flags before after)
    (hself : ¬ SelfDependent stream flags before) (first block : Bytes) :
    ((c.letIn stream).acceptHeaders libs env stream (whole stream flags before after block).flags
        (whole stream flags before after block).payload).map concluded =
      (c.entered (headersFrame stream flags before after first)).inOne libs env stream flags
        block := by
  have hself' : ¬ SelfDependent stream (flags ||| flagEndHeaders) before := by
    obtain ⟨-, hpadded, hpriority⟩ := has_other flags
    rw [SelfDependent, hpriority, priorityStart, hpadded]
    exact hself
  change ((c.letIn stream).acceptHeaders libs env stream (flags ||| flagEndHeaders)
    (before ++ block ++ after)).map concluded = _
  rw [acceptHeaders_block libs env hw.whole hself', if_pos (has_endHeaders flags),
    enterStream_flags,
    endHeaders_flags]
  rfl

theorem fragments_more (hne : more ≠ []) : fragments stream flags before after first more =
      headersFrame stream flags before after first :: continuations stream more := by
  cases more with
  | nil => exact absurd rfl hne
  | cons part parts => rfl

theorem processAll_cons (libs : Libs) (env : Env) (c : Conn) (f : Frame) (fs : List Frame) :
    c.processAll libs env (f :: fs) =
      (c.process libs env f).bind fun c => c.processAll libs env fs := rfl

theorem fragments_inSeveral (h : c.Sound) (libs : Libs) (env : Env) (hp : c.phase ≠ .done)
    (hbuf : c.headerBlockBuf = []) (hid : stream ≠ 0) (hflags : has flags flagEndHeaders = false)
    (hw : Wraps flags before after) (hself : ¬ SelfDependent stream flags before) (hne : more ≠ [])
    (hlen : (first ++ more.flatten).length ≤ maxHeaderBlock) :
    (((c.letIn stream).acceptHeaders libs env stream flags (before ++ first ++ after)).map
        concluded).bind (fun c => c.processAll libs env (continuations stream more)) =
      (c.entered (headersFrame stream flags before after first)).inSeveral libs env stream first
        (first ++ more.flatten) := by
  have hshort : ¬ (c.letIn stream).headerBlockBuf.length + first.length > maxHeaderBlock := by
    rw [show (c.letIn stream).headerBlockBuf = [] from hbuf, length_nil]
    rw [length_append] at hlen
    omega
  rw [acceptHeaders_block libs env hw hself, if_neg (by rw [hflags]; exact Bool.false_ne_true),
    if_neg hshort, concluded_done, inSeveral]
  obtain ⟨c₁, hc₁, hd⟩ := maybeDispatch_dispatches libs env
    (c := (((c.letIn stream).enterStream stream
    flags).addBlock first).awaitContinuation stream) stream
    (h.entered (headersFrame stream flags before after first))
  have hkept := hd.kept
  have hbuf₁ : c₁.headerBlockBuf = first := by
    refine hkept.block.trans ?_
    change c.headerBlockBuf ++ first = first
    rw [hbuf, nil_append]
  have hmore := processAll_continuations libs env (c := c₁) hid hne (hkept.phase.trans_ne hp)
    hkept.continuation (by rw [hbuf₁]; exact hlen)
  rw [hbuf₁] at hmore
  rw [hc₁, bind_some, hmore]
  refine Eq.symm (Eq.trans (congrArg (Option.bind · _) hc₁) ?_)
  rfl

/-! ## CONTINUATION frames that come too late -/

theorem processAll_done (libs : Libs) (env : Env) (hp : c.phase = .done) (fs : List Frame) :
    c.processAll libs env fs = some c := by
  induction fs with
  | nil => rfl
  | cons f fs ih =>
    rw [processAll_cons, process, if_pos hp]
    exact ih

theorem processAll_stray (libs : Libs) (env : Env) (hp : c.phase ≠ .done)
    (hout : c.continuationStreamId = none) (stream : Nat) (hne : more ≠ []) :
    c.processAll libs env (continuations stream more) = some c.giveUp := by
  obtain ⟨f, fs, hcut, hf⟩ : ∃ f fs, continuations stream more = f :: fs ∧
      f.ftype = .continuation := by
    cases more with
    | nil => exact absurd rfl hne
    | cons part parts =>
      cases parts with
      | nil | cons next rest => exact ⟨_, _, rfl, rfl⟩
  have hreceive : receive libs env c f =
      c.err "CONTINUATION without a preceding HEADERS" := by
    have hwait : ¬ ∃ cont ∈ c.continuationStreamId, f.ftype ≠ .continuation ∨ f.stream ≠ cont := by
      rw [hout]
      rintro ⟨cont, hcont, -⟩
      exact nomatch hcont
    rw [receive, if_neg hwait, if_pos ⟨hout, hf⟩]
  rw [hcut, processAll_cons, process, if_neg hp, hreceive]
  exact processAll_done libs env (c := c.giveUp) rfl fs

theorem effect_giveUp : effect c.giveUp = effect c ↔ c.goawaySent = true := by
  unfold giveUp
  split_ifs with h
  · exact ⟨fun _ => h, fun _ => rfl⟩
  · refine ⟨fun hsame => ?_, fun hno => absurd hno h⟩
    have hlog : c.log ++ [_] = c.log := congrArg Prod.snd hsame
    exact nomatch append_right_eq_self.mp hlog

theorem stray_iff {c₁ : Conn} (h : Settled c c₁) (hp : c.phase ≠ .done) (libs : Libs) (env : Env)
    (stream : Nat) (hne : more ≠ []) :
    SameEffect (c₁.processAll libs env (continuations stream more)) (some c₁) ↔
      c.goawaySent = true := by
  rw [processAll_stray libs env (h.phase.trans_ne hp) h.outside stream hne, ← h.goaway,
    ← effect_giveUp]
  exact ⟨some.inj, congrArg some⟩

/-! ## Fragments -/

theorem admitted_withHandler (onRequest : RawRequest → Str → RequestOutcome) :
    Admitted (withHandler env onRequest) c f ↔ Admitted env c f :=
  ⟨fun h => ⟨h.toAllowed, h.headers, h.odd, h.known, h.open_, h.room⟩,
    fun h => ⟨h.toAllowed, h.headers, h.odd, h.known, h.open_, h.room⟩⟩

theorem Refused.withHandler {env' : Env} (h : Refused env c f) (hnow : env'.now = env.now) :
    Refused env' c f := by
  cases h with
  | state hout h => exact .state hout h
  | late ha hodd hnew hgo hs => exact .late ha hodd hnew hgo hs
  | busy h hstreak =>
    exact .busy ⟨h.toAllowed, h.headers, h.odd, h.known, h.open_, hnow ▸ h.busy⟩ hstreak

/-- **Whether the frames of a header block do what one frame would do**, whatever the handler is. -/
def Transparent (libs : Libs) (env : Env) (c : Conn) (stream : Nat) (flags : UInt8)
    (before after first : Bytes) (more : List Bytes) : Prop :=
  ∀ onRequest, SameEffect
    (c.processAll libs (withHandler env onRequest) (fragments stream flags before after first more))
    (c.process libs (withHandler env onRequest)
      (whole stream flags before after (first ++ more.flatten)))

/-- **When they do**: what is not let in is followed by no error that is new, and a section that is
let in comes to the same. -/
structure FragmentsAlike (libs : Libs) (env : Env) (c : Conn) (stream : Nat) (flags : UInt8)
    (before after first : Bytes) (more : List Bytes) : Prop where
  refused : Refused env c (headersFrame stream flags before after first) → c.goawaySent = true
  selfDependent : Admitted env c (headersFrame stream flags before after first) →
    SelfDependent stream flags before → c.goawaySent = true
  alike : Admitted env c (headersFrame stream flags before after first) →
    ¬ SelfDependent stream flags before →
      SectionAlike libs env c (c.opening (headersFrame stream flags before after first)) flags
        (first ++ more.flatten)

/-- A frame and CONTINUATION frames do what another frame does. -/
def Agrees (libs : Libs) (env : Env) (c : Conn) (f g : Frame) (more : List Bytes) : Prop :=
  SameEffect
    (((receive libs env c f).map concluded).bind fun c =>
      c.processAll libs env (continuations f.stream more))
    ((receive libs env c g).map concluded)

variable {g : Frame}

theorem agrees_refused (h : Refused env c f) (libs : Libs) (hf : f.ftype = .headers)
    (hg : g.ftype = .headers) (hid : g.stream = f.stream) (hp : c.phase ≠ .done) (hne : more ≠ []) :
    Agrees libs env c f g more ↔ c.goawaySent = true := by
  obtain ⟨c₁, hsettled, hreceive⟩ := h.settled libs hf
  rw [Agrees, hreceive f hf rfl, hreceive g hg hid]
  exact stray_iff hsettled hp libs env f.stream hne

theorem agrees_failed (hr : ¬ Refused env c f) (ha : ¬ Admitted env c f) (libs : Libs)
    (hf : f.ftype = .headers) (hg : g.ftype = .headers) (hid : g.stream = f.stream)
    (hne : more ≠ []) : Agrees libs env c f g more := by
  rcases receive_headers (c := c) libs env hf with
    ⟨c₁, why, hreceive⟩ | ⟨c₁, hout, hgoaway, hreceive⟩ | hrefused | hadmitted
  · rw [Agrees, hreceive f hf rfl, hreceive g hg hid]
    exact congrArg (Option.map effect)
      (processAll_done libs env (c := c₁.giveUp) rfl (continuations f.stream more))
  · rw [Agrees, hreceive f hf rfl, hreceive g hg hid]
    change SameEffect (c₁.processAll libs env (continuations f.stream more)) (some c₁)
    by_cases hp₁ : c₁.phase = .done
    · rw [processAll_done libs env hp₁]
      rfl
    · rw [processAll_stray libs env hp₁ hout f.stream hne]
      exact congrArg some (effect_giveUp.mpr hgoaway)
  · exact absurd hrefused hr
  · exact absurd hadmitted ha

theorem agrees_self (h : Admitted env c (headersFrame stream flags before after first))
    (libs : Libs)
    (hw : Wraps flags before after) (hself : SelfDependent stream flags before)
    (hp : c.phase ≠ .done) (hne : more ≠ []) (block : Bytes) :
    Agrees libs env c (headersFrame stream flags before after first)
      (whole stream flags before after block) more ↔ c.goawaySent = true := by
  have hself' : SelfDependent stream (flags ||| flagEndHeaders) before := by
    obtain ⟨-, hpadded, hpriority⟩ := has_other flags
    rw [SelfDependent, hpriority, priorityStart, hpadded]
    exact hself
  have hpart : receive libs env c (headersFrame stream flags before after first) =
      some ((c.letIn stream).pushReset stream errProtocolError, .ok ()) :=
    (h.accepted libs rfl rfl).trans (acceptHeaders_self libs env hw hself first)
  have hwhole : receive libs env c (whole stream flags before after block) =
      some ((c.letIn stream).pushReset stream errProtocolError, .ok ()) :=
    (h.accepted libs (g := whole stream flags before after block) rfl rfl).trans
      (acceptHeaders_self libs env hw.whole hself' block)
  have hsettled : Settled c ((c.letIn stream).pushReset stream errProtocolError) :=
    ⟨rfl, h.outside, rfl⟩
  rw [Agrees, hpart, hwhole]
  exact stray_iff hsettled hp libs env stream hne

theorem agrees_block (h : c.Sound) (hbuf : c.headerBlockBuf = [])
    (ha : Admitted env c (headersFrame stream flags before after first)) (libs : Libs)
    (hflags : has flags flagEndHeaders = false) (hw : Wraps flags before after)
    (hself : ¬ SelfDependent stream flags before) (hp : c.phase ≠ .done) (hne : more ≠ [])
    (hlen : (first ++ more.flatten).length ≤ maxHeaderBlock) :
    Agrees libs env c (headersFrame stream flags before after first)
        (whole stream flags before after (first ++ more.flatten)) more ↔ SameEffect
        ((c.entered (headersFrame stream flags before after first)).inSeveral libs env stream first
          (first ++ more.flatten))
        ((c.entered (headersFrame stream flags before after first)).inOne libs env stream flags
          (first ++ more.flatten)) := by
  have hodd : stream % 2 = 1 := ha.odd
  have hpart := ha.accepted libs (g := headersFrame stream flags before after first) rfl rfl
  have hwhole := ha.accepted libs
    (g := whole stream flags before after (first ++ more.flatten)) rfl rfl
  have hseveral := fragments_inSeveral h libs env hp hbuf (by omega : stream ≠ 0)
    hflags hw hself hne hlen
  have hone := whole_inOne (c := c) libs env hw hself first (first ++ more.flatten)
  rw [Agrees, hpart, hwhole, ← hseveral, ← hone]
  rfl

/-- **Header blocks that are not cut and header blocks that are.** -/
theorem transparent_iff (h : c.Sound) (hbounds : c.WithinBounds) (libs : Libs) (env : Env)
    (hflags : has flags flagEndHeaders = false) (hw : Wraps flags before after)
    (hlen : (first ++ more.flatten).length ≤ maxHeaderBlock) (hp : c.phase ≠ .done)
    (hne : more ≠ []) :
    c.Transparent libs env stream flags before after first more ↔
      c.FragmentsAlike libs env stream flags before after first more := by
  have hagrees : c.Transparent libs env stream flags before after first more ↔
      ∀ onRequest, Agrees libs (withHandler env onRequest) c
        (headersFrame stream flags before after first)
        (whole stream flags before after (first ++ more.flatten)) more := by
    refine forall_congr' fun onRequest => ?_
    rw [fragments_more hne, processAll_cons, process, if_neg hp, process, if_neg hp]
    rfl
  rw [hagrees]
  by_cases href : Refused env c (headersFrame stream flags before after first)
  · have hadm := href.not_admitted
    have each (onRequest : RawRequest → Str → RequestOutcome) :
        Agrees libs (withHandler env onRequest) c (headersFrame stream flags before after first)
          (whole stream flags before after (first ++ more.flatten)) more ↔ c.goawaySent = true := by
      have href' : Refused (withHandler env onRequest) c
          (headersFrame stream flags before after first) := href.withHandler rfl
      exact agrees_refused href' libs rfl rfl rfl hp hne
    constructor
    · intro hall
      exact ⟨fun _ => (each env.onRequest).mp (hall env.onRequest), fun ha => absurd ha hadm,
        fun ha => absurd ha hadm⟩
    · intro halike onRequest
      exact (each onRequest).mpr (halike.refused href)
  by_cases hadm : Admitted env c (headersFrame stream flags before after first)
  swap
  · refine ⟨fun _ => ⟨fun hr => absurd hr href, fun ha => absurd ha hadm, fun ha => absurd ha hadm⟩,
      fun _ onRequest => ?_⟩
    have href' : ¬ Refused (withHandler env onRequest) c
        (headersFrame stream flags before after first) := fun hr => href (hr.withHandler rfl)
    exact agrees_failed href' (fun ha => hadm ((admitted_withHandler onRequest).mp ha)) libs
      rfl rfl rfl hne
  by_cases hself : SelfDependent stream flags before
  · have each (onRequest : RawRequest → Str → RequestOutcome) :
        Agrees libs (withHandler env onRequest) c (headersFrame stream flags before after first)
          (whole stream flags before after (first ++ more.flatten)) more ↔ c.goawaySent = true :=
      agrees_self ((admitted_withHandler onRequest).mpr hadm) libs hw hself hp hne _
    constructor
    · intro hall
      exact ⟨fun hr => absurd hr href, fun _ _ => (each env.onRequest).mp (hall env.onRequest),
        fun _ hno => absurd hself hno⟩
    · intro halike onRequest
      exact (each onRequest).mpr (halike.selfDependent hadm hself)
  · have hwait := hbounds.waiting hadm.outside
    have hthere :=
      (get?_entered_opening c (headersFrame stream flags before after first) stream).trans
      (if_pos rfl)
    have hsection := sectionAlike_iff (h.entered
      (headersFrame stream flags before after first)) libs
      env first (first ++ more.flatten) flags hthere hwait
    have each (onRequest : RawRequest → Str → RequestOutcome) :=
      agrees_block h hwait ((admitted_withHandler onRequest).mpr hadm) libs hflags hw
        hself hp hne hlen
    rw [forall_congr' each, hsection]
    constructor
    · intro halike
      exact ⟨fun hr => absurd hr href, fun _ hno => absurd hno hself,
        fun _ _ => ⟨halike.waits, halike.rejected, halike.handed⟩⟩
    · intro halike
      have hblock := halike.alike hadm hself
      exact ⟨hblock.waits, hblock.rejected, hblock.handed⟩

end

end Conn

open Conn

/-- **When a header block may be cut.** At any connection that has run, a block in one HEADERS frame
and a block in several frames leave the same streams, the same frames and the same request, exactly
if the connection is done, or the block is not cut, or this holds: a HEADERS frame that is answered
by RST_STREAM comes after a GOAWAY; and the stream of one that is let in has a request that the
section does not change, or none that is complete before it and no trailers that must be refused. -/
theorem fragments_transparent_iff (libs : Libs) (env : Env) {events : List Event} {c : Conn}
    (hc : Conn.new.run libs events = some c) {stream : Nat} {flags : UInt8}
    (hflags : has flags flagEndHeaders = false) {before after : Bytes}
    (hw : Wraps flags before after) {first : Bytes} {more : List Bytes}
    (hlen : (first ++ more.flatten).length ≤ maxHeaderBlock) :
    c.Transparent libs env stream flags before after first more ↔ c.phase = .done ∨ more = [] ∨
        c.FragmentsAlike libs env stream flags before after first more := by
  by_cases hp : c.phase = .done
  · refine ⟨fun _ => .inl hp, fun _ onRequest => ?_⟩
    rw [processAll_done libs _ hp, process, if_pos hp]
    rfl
  by_cases hne : more = []
  · refine ⟨fun _ => .inr (.inl hne), fun _ onRequest => ?_⟩
    rw [hne, flatten_nil, append_nil, fragments, processAll_cons]
    exact congrArg (Option.map effect) (bind_fun_some _)
  have hsound := (ordered_of_run libs hc).1
  have hbounds := (Conn.throughout_kept libs (P := Conn.WithinBounds)
    (fun _ _ _ _ hc hs => hc.steps hs) (fun _ _ hc => hc) .new events).result hc
  rw [transparent_iff hsound hbounds libs env hflags hw hlen hp hne]
  exact ⟨fun h => .inr (.inr h), fun h => (h.resolve_left hp).resolve_left hne⟩

theorem first_block_transparent :
    Conn.new.Transparent postLibs plainEnv 1 0 [] [] [0x83] [[0x86, 0x84, 0x41, 1, 0x61]] := by
  refine (fragments_transparent_iff postLibs plainEnv (show Conn.new.run postLibs [] = some Conn.new
    from rfl) (by decide) ⟨rfl, rfl⟩ (by decide)).mpr (.inr (.inr ⟨?_, ?_, ?_⟩))
  · intro h
    cases h with
    | state hout h => exact nomatch h
    | late ha hodd hnew hgo hs => exact nomatch hgo
    | busy h => exact absurd h.busy (by decide)
  · rintro - ⟨hpriority, -⟩
    exact absurd hpriority (by decide)
  · rintro - -
    have hready : ready (Conn.new.opening (headersFrame 1 0 [] [] [0x83])) = false := by decide
    refine ⟨fun _ fields _ hbad => (nomatch hbad), fun hr => ?_, fun hr => ?_⟩
    all_goals exact nomatch hready.symm.trans hr

/-- **Trailers that are cut are not checked**: the request is handed over when they begin, where
trailers with a pseudo-header in one frame are answered by RST_STREAM. -/
theorem fragments_differ :
    ∃ c, Conn.new.run postLibs [.arrive (clientPreface ++ postHeaders), .frame plainEnv] = some c ∧
      has flagEndStream flagEndHeaders = false ∧ Wraps flagEndStream [] [] ∧ ¬ SameEffect
        (c.processAll postLibs plainEnv
          (fragments 1 flagEndStream [] [] [0x83] [[0x86, 0x84, 0x41, 1, 0x61]]))
        (c.process postLibs plainEnv
          (whole 1 flagEndStream [] [] ([0x83] ++ [[0x86, 0x84, 0x41, 1, 0x61]].flatten))) := by
  refine ⟨_, rfl, by decide, ⟨rfl, rfl⟩, fun hsame => ?_⟩
  have hhanded := congrArg (Option.map fun e => handedStreams e.2) hsame
  rw [Option.map_map, Option.map_map] at hhanded
  exact absurd hhanded (by decide)

end M6.Http2
