import M6.Edge.H2Goaway
import M6.Edge.H2Responses

/-!
# The streams that the HTTP/2 server resets

RST_STREAM is the end of a stream: it is not there any more, it never comes back, no more of a
response is written for it, and what the client still sends for it is forgiven as long as the reset
is remembered (`Final`). A frame that no state of a stream excuses (`Broken`) is not.

The server writes RST_STREAM in some cases in which the stream stays, or can be opened later
(`Lingers`). Nothing is said of those.
-/

namespace M6.Http2

open List Runs Option

def Entry.resetOf : Entry → Option Nat
  | .wrote f => if f.ftype = .rstStream then some f.stream else none
  | _ => none

namespace Conn

/-- A frame that is answered by RST_STREAM while its stream stays: a HEADERS frame on a stream that
is there, which is refused; or a PRIORITY frame on a stream that can still be opened. -/
inductive Lingers (env : Env) (c : Conn) (f : Frame) : Prop
  | busy (h : Busy env c f) (hs : c.streams.get? f.stream ≠ none)
  | shortPriority (ha : Admitted env c f)
      (hcut : cutHeaders f.stream f.flags f.payload = .shortPriority)
      (hs : c.streams.get? f.stream ≠ none)
  | selfDependent (ha : Admitted env c f)
      (hcut : cutHeaders f.stream f.flags f.payload = .selfDependent)
      (hs : c.streams.get? f.stream ≠ none)
  | idle (h : BadPriority f) (hidle : c.lastStreamId < f.stream)

def LetsLinger (c : Conn) : Event → Prop
  | .frame env => ∃ f rest, c.nextFrame = some (f, rest) ∧ Lingers env (c.enter.take f rest) f
  | _ => False

/-- A frame that is a connection error whatever the state of its stream: a header block is not
complete, or it has the wrong shape, or its increment is zero. -/
inductive Broken (c : Conn) (f : Frame) : Prop
  | inside (h : c.continuationStreamId ≠ none)
  | continuation (h : f.ftype = .continuation)
  | shape {code : Nat}
      (h : frameShapeVerdict f.ftype f.flags f.stream f.payload.length = .connectionError code)
  | zero (hf : f.ftype = .windowUpdate) (h : low31 (bigEndian (f.payload.take 4)) = 0)

structure Gone (c : Conn) (id : Nat) : Prop where
  nonzero : id ≠ 0
  past : id ≤ c.lastStreamId
  absent : c.streams.get? id = none

/-- **The end of a stream**, for which `frames` were written until then. -/
structure Final (libs : Libs) (frames : List Frame) (id : Nat) (c : Conn) : Prop where
  gone : c.streams.get? id = none
  silent : responseFrames id c.log = frames
  forgiven : ∀ env f rest, c.nextFrame = some (f, rest) → f.stream = id → c.wasReset id = true →
    ¬ c.Broken f → ∃ c' l, c.step libs (.frame env) = some c' ∧ c'.log = c.log ++ l ∧
      ∀ e ∈ l, ¬ e.isGoaway

variable {libs : Libs} {env : Env} {c c' : Conn} {f : Frame} {id : Nat}

/-! ## A stream that is gone stays gone -/

variable {c₁ : Conn}

theorem Gone.handles {tail : Tail} (h : c.Gone id)
    (hh : Handles libs env c f c₁ tail) : c₁.Gone id where
  nonzero := h.nonzero
  past := h.past.trans hh.last
  absent := by
    rw [eq_none_iff_forall_ne_some]
    intro s' hs'
    rcases hh.streams hs' with ⟨s, w, hs, -⟩ | ⟨rfl, hch, -⟩
    · exact nomatch h.absent.symm.trans hs
    · rcases hch.origin with ⟨s, hs, -⟩ | ⟨ha, -⟩
      · exact nomatch h.absent.symm.trans hs
      · exact ha.known h.past h.absent

theorem Gone.follows (h : c.Gone id) (hf : Follows c c') : c'.Gone id where
  nonzero := h.nonzero
  past := h.past.trans hf.last
  absent := by
    rw [eq_none_iff_forall_ne_some]
    intro s' hs'
    obtain ⟨s, hs, -⟩ := hf.streams id s' hs'
    exact nomatch h.absent.symm.trans hs

theorem Gone.same (h : c.Gone id) (hstreams : c'.streams = c.streams)
    (hlast : c'.lastStreamId = c.lastStreamId) : c'.Gone id :=
  ⟨h.nonzero, hlast ▸ h.past, hstreams ▸ h.absent⟩

theorem Gone.take (h : c.Gone id) (f : Frame) (rest : Bytes) : (c.enter.take f rest).Gone id :=
  h.same (streams_enter c).1 (streams_enter c).2

theorem Gone.giveUp (h : c.Gone id) : c.giveUp.Gone id :=
  h.same (streams_giveUp c).1 (streams_giveUp c).2

/-! ## Nothing is written for it -/

theorem SameResponse.refl (id : Nat) (c : Conn) : SameResponse id c c := ⟨rfl, rfl⟩

theorem SameResponse.trans {c₁ c₂ c₃ : Conn} (h : SameResponse id c₁ c₂)
    (h' : SameResponse id c₂ c₃) : SameResponse id c₁ c₃ :=
  ⟨h'.1.trans h.1, h'.2.trans h.2⟩

theorem SameResponse.log (h : c'.log = c.log) : SameResponse id c c' := by
  rw [SameResponse, h]
  exact ⟨rfl, rfl⟩

theorem SameResponse.wrote {f : Frame} (hf : f.stream ≠ id) (h : c'.log = c.log ++ [.wrote f]) :
    SameResponse id c c' :=
  sameResponse_of_appends (P := fun e => e = .wrote f)
    (by rintro e rfl; exact ⟨responseFrames_other (.inl hf), rfl⟩)
    (.single (P := fun e => e = .wrote f) rfl h)

theorem SameResponse.take (f : Frame) (rest : Bytes) : SameResponse id c (c.enter.take f rest) :=
  (sameResponse_handler (ofHandler_enter c)).trans
    (sameResponse_of_appends (by rintro e rfl; exact ⟨rfl, rfl⟩)
      (Appends.single (P := fun e => e = .took f) rfl rfl))

variable {stream : Nat}

theorem Sends.sameResponse (hs : Sends stream c c') (hid : stream < 2 ^ 31)
    (hne : stream ≠ id) : SameResponse id c c' := by
  have hlow : low31 stream ≠ id := by rwa [low31_of_lt hid]
  induction hs with
  | nothing c => exact .refl id c
  | drained => exact .wrote hlow (log_closeStream ..)
  | last => exact .wrote hlow (log_endStream ..)
  | chunk _ _ _ _ _ ih => exact (SameResponse.wrote hlow rfl).trans ih

theorem Gone.ne {s : Stream} (h : c.Gone id)
    (hs : c.streams.get? stream = some s) : stream ≠ id := by
  rintro rfl
  exact nomatch h.absent.symm.trans hs

theorem Flushes.sameResponse {ids : List Nat} (hf : Flushes ids c c') (h : c.Gone id)
    (hknown : ∀ id s, c.streams.get? id = some s → id < 2 ^ 31) : SameResponse id c c' := by
  induction hf with
  | nil c => exact .refl id c
  | @cons stream ids c c₁ c' first rest ih =>
    have hrest := ih (h.follows first.follows) fun id' s' hs' => by
      obtain ⟨s, hs, -⟩ := first.follows.streams id' s' hs'
      exact hknown id' s hs
    have hfirst (s : Stream) (hs : c.streams.get? stream = some s) : SameResponse id c c₁ :=
      first.sameResponse (hknown stream s hs) (h.ne hs)
    refine SameResponse.trans ?_ hrest
    cases first with
    | nothing => exact .refl id _
    | drained hs | last hs | chunk hs => exact hfirst _ hs

theorem sameResponse_respond (libs : Libs) (c : Conn) (status : Nat)
    (headers : List (Str × Str)) (body : Bytes) (method : Str) (hid : stream < 2 ^ 31)
    (hne : stream ≠ id) : SameResponse id c (c.respond libs stream status headers body method) := by
  have hlow : low31 stream ≠ id := by rwa [low31_of_lt hid]
  rw [SameResponse, log_respond, ← singleton_append, ← append_assoc, responseFrames_append,
    answers_append, responseFrames_other (.inl hlow), responseFrames_append, answers_append]
  refine ⟨(append_nil _).trans (append_nil _), ?_⟩
  have hnone : answers id [.answered stream (sentBody method body)] = [] := by
    rw [answers, filterMap_cons]
    dsimp only
    rw [if_neg hne]
    rfl
  rw [hnone]
  exact (append_nil _).trans (append_nil _)

theorem Ordered.below (h : c.Ordered) : ∀ id s, c.streams.get? id = some s → id < 2 ^ 31 :=
  fun id s hs => (h.known id s hs).2.2

theorem Dispatches.sameResponse (hd : Dispatches libs env stream c c')
    (h : c.Gone id) (ho : c.Ordered) : SameResponse id c c' := by
  cases hd with
  | notReady => exact .refl id c
  | rejected => exact sameResponse_handler (.single (.inl mem_cons_self) rfl)
  | @pending s =>
    exact (sameResponse_handOver c stream (requestOf s) id).trans (.log (log_updateStream ..))
  | @answered s status headers body c' hs hr hgood hout hf =>
    have hfollows : Follows c ((c.handOver stream (requestOf s)).respond libs stream status headers
        body (requestOf s).method) := (Follows.handOver ..).trans (Follows.respond ..)
    have hresp := sameResponse_respond libs (c.handOver stream (requestOf s)) status headers body
      (requestOf s).method (ho.below stream s hs) (h.ne hs)
    refine (sameResponse_handOver c stream (requestOf s) id).trans (hresp.trans ?_)
    refine hf.sameResponse (h.follows hfollows) fun id' s' hs' => ?_
    obtain ⟨s₀, hs₀, -⟩ := hfollows.streams id' s' hs'
    exact ho.below id' s₀ hs₀

/-- **One event** leaves a stream that is gone as it is. -/
theorem Steps.gone {e : Event} (hs : Steps libs c e c') (h : c.Gone id) (ho : c.Ordered) :
    c'.Gone id ∧ SameResponse id c c' := by
  have giveUp (c₁ : Conn) : SameResponse id c₁ c₁.giveUp :=
    sameResponse_handler (ofHandler_giveUp c₁)
  cases hs with
  | still => exact ⟨h, .refl id c⟩
  | arrive | ioFailed | settled => exact ⟨h.same rfl rfl, .log rfl⟩
  | waits =>
    exact ⟨h.same (streams_enter c).1 (streams_enter c).2, sameResponse_handler (ofHandler_enter c)⟩
  | badPreface => exact ⟨h.giveUp, giveUp c⟩
  | tooLarge =>
    have herr : SameResponse id c.enter (c.enter.connectionError errFrameSize) :=
      sameResponse_handler (.single (.inr rfl) rfl)
    have hgone : (c.enter.connectionError errFrameSize).Gone id :=
      h.same (streams_enter c).1 (streams_enter c).2
    exact ⟨hgone.giveUp, ((sameResponse_handler (ofHandler_enter c)).trans herr).trans (giveUp _)⟩
  | @frame env f rest c₁ _ tail hp hf hh hl =>
    have hgone := (h.take f rest).handles hh
    have ho₁ := (ho.take f rest).handles hh (nextFrame_bounds hf).2
    have hsame : SameResponse id c c₁ :=
      (SameResponse.take f rest).trans (sameResponse_handler hh.ofHandler)
    cases hl with
    | ok => exact ⟨hgone, hsame⟩
    | flush hfl => exact ⟨hgone.follows hfl.follows, hsame.trans (hfl.sameResponse hgone ho₁.below)⟩
    | dispatch hd => exact ⟨hgone.follows hd.follows, hsame.trans (hd.sameResponse hgone ho₁)⟩
  | @failed env f rest c₁ hp hf hh =>
    have hh' : Handles libs env (c.enter.take f rest) f c₁ (.error []) := .failed [] hh
    exact ⟨((h.take f rest).handles hh').giveUp, ((SameResponse.take f rest).trans
      (sameResponse_handler hh'.ofHandler)).trans (giveUp c₁)⟩
  | @answered env stream status headers body s method c' hp hs hm hf =>
    have hfollows := Follows.answerWith libs hs status headers body method
    have hresp := sameResponse_respond libs (c.setStream stream { s with pending := none }) status
      headers body method (ho.below stream s hs) (h.ne hs)
    refine ⟨(h.follows hfollows).follows hf.follows, SameResponse.trans (SameResponse.trans
      (.log rfl) hresp) (hf.sameResponse (h.follows hfollows) fun id' s' hs' => ?_)⟩
    obtain ⟨s₀, hs₀, -⟩ := hfollows.streams id' s' hs'
    exact ho.below id' s₀ hs₀
  | flushed hf => exact ⟨h.follows hf.follows, hf.sameResponse h ho.below⟩
  | idled => exact ⟨h.same rfl rfl, sameResponse_handler (.single (.inr rfl) rfl)⟩

/-! ## Whoever is reset is gone -/

theorem resetOf_wrote {f : Frame} (h : f.ftype ≠ .rstStream) : (Entry.wrote f).resetOf = none :=
  if_neg h

theorem streamState_idle (hs : c.streams.get? id = none) (h : ¬ id ≤ c.lastStreamId) :
    c.streamState id = .idle := by
  rw [streamState, hs]
  exact if_pos (not_le.mp h)

theorem past_of_streamError (ho : c.Ordered) {t : FrameType} {code : Nat}
    (h : c.frameVerdict t id = .streamError code) : id ≠ 0 ∧ id ≤ c.lastStreamId := by
  have hid : id ≠ 0 := fun hid => nomatch (if_pos hid).symm.trans h
  refine ⟨hid, ?_⟩
  cases hs : c.streams.get? id with
  | some s => exact (ho.known id s hs).1
  | none =>
    by_contra hlast
    rw [frameVerdict, if_neg hid, streamState_idle hs hlast] at h
    dsimp only at h
    split_ifs at h

theorem past_of_allowed (ha : Allowed c f) (hf : f.ftype = .windowUpdate) (hid : f.stream ≠ 0)
    (hs : c.streams.get? f.stream = none) : f.stream ≤ c.lastStreamId := by
  have h := ha.state
  by_contra hlast
  rw [hf, frameVerdict, if_neg hid, streamState_idle hs hlast] at h
  cases h

theorem gone_resetStream (hid : id ≠ 0) (hpast : id ≤ c.lastStreamId) (code : Nat) :
    (c.resetStream id code).Gone id :=
  ⟨hid, hpast, (SortedMap.get?_erase ..).trans (if_pos rfl)⟩

def Resets (stream : Nat) (tail : Tail) (c : Conn) (e : Entry) : Prop :=
  ∀ id ∈ e.resetOf, id = stream ∧ c.Gone stream ∧ (tail = .ok ∨ ∃ why, tail = .error why)

theorem log_charged (c : Conn) (window inc : Int) :
    (c.charged window inc).log = c.log ++ granted 0 inc := by
  rw [charged_eq]

theorem log_grant (c : Conn) (stream : Nat) (inc : Int) :
    (c.grant stream inc).log = c.log ++ granted stream inc := by
  rw [grant_eq]

theorem gone_opened (hodd : f.stream % 2 = 1) (hs : c'.streams.get? f.stream = none)
    (hlast : c'.lastStreamId = max c.lastStreamId f.stream) : c'.Gone f.stream :=
  ⟨by omega, hlast ▸ le_max_right .., hs⟩

theorem Fails.resets (hf : Fails libs env c f c₁) (why : Str) (hlow : f.stream < 2 ^ 31)
    (hok : ¬ Lingers env c f) : Appends (Resets f.stream (.error why) c₁) c c₁ := by
  have goaway (payload : Bytes) :
      Resets f.stream (.error why) c₁ (.wrote ⟨.goaway, 0, 0, payload⟩) := by
    have ht : FrameType.goaway ≠ .rstStream := nofun
    intro id hid
    rw [resetOf_wrote ht] at hid
    exact nomatch hid
  have reset (code : Nat) (hgone : c₁.Gone f.stream) :
      Resets f.stream (.error why) c₁ (.wrote ⟨.rstStream, 0, low31 f.stream, be32 code⟩) := by
    intro id hid
    cases hid
    exact ⟨low31_of_lt hlow, hgone, .inr ⟨why, rfl⟩⟩
  cases hf with
  | connection | longHeaders | invalidHeaders | invalidContinuation => exact .single (goaway _) rfl
  | flood hb =>
    have hs : c.streams.get? f.stream = none := by
      by_contra hs
      exact hok (.busy hb hs)
    have hgone : ((c.refuseBusy env.now f.stream).connectionError
      errEnhanceYourCalm).Gone f.stream :=
      gone_opened (c := c) hb.odd hs rfl
    have hreset : Appends _ c (c.refuseBusy env.now f.stream) := .single (reset _ hgone) rfl
    exact hreset.trans (.single (goaway _) rfl)
  | shortHeaders ha hcut =>
    refine .single (reset _ (gone_opened (c := c) ha.odd ?_ rfl)) rfl
    by_contra hs
    exact hok (.shortPriority ha hcut hs)
  | _ => exact .same rfl

theorem Handles.resets {tail : Tail} (hh : Handles libs env c f c₁ tail)
    (ho : c.Ordered) (hlow : f.stream < 2 ^ 31) (hok : ¬ Lingers env c f) :
    Appends (Resets f.stream tail c₁) c c₁ := by
  have other (t : FrameType) (ht : t ≠ .rstStream) (flags : UInt8) (stream : Nat)
    (payload : Bytes) :
      Resets f.stream tail c₁ (.wrote ⟨t, flags, stream, payload⟩) := by
    intro id hid
    rw [resetOf_wrote ht] at hid
    exact nomatch hid
  have reset (code : Nat) (hgone : c₁.Gone f.stream) (ht : tail = .ok ∨ ∃ why, tail = .error why) :
      Resets f.stream tail c₁ (.wrote ⟨.rstStream, 0, low31 f.stream, be32 code⟩) := by
    intro id hid
    cases hid
    exact ⟨low31_of_lt hlow, hgone, ht⟩
  have grants (stream : Nat) (inc : Int) : ∀ e ∈ granted stream inc, Resets f.stream tail c₁ e := by
    intro e he
    unfold granted at he
    split_ifs at he
    · rw [mem_singleton.mp he]
      exact other .windowUpdate nofun _ _ _
    · exact nomatch he
  cases hh with
  | failed why hf => exact hf.resets why hlow hok
  | connectionError => exact .single (other .goaway nofun _ _ _) rfl
  | illegal code hout hshape hstate =>
    obtain ⟨hid, hpast⟩ := past_of_streamError ho hstate
    exact .single (reset code (gone_resetStream hid hpast code) (.inl rfl)) rfl
  | reset code hout h =>
    have hgone (hid : f.stream ≠ 0) (hpast : f.stream ≤ c.lastStreamId) :
        ((c.resetStream f.stream code).noteReset env.now f.stream).Gone f.stream :=
      (gone_resetStream hid hpast code).same rfl rfl
    refine .single (reset code ?_ (.inl rfl)) rfl
    rcases h with hp | hw
    · exact hgone hp.stream (not_lt.mp fun hidle => hok (.idle hp hidle))
    · obtain ⟨s, hs, -⟩ := hw.tooFar
      exact hgone hw.stream (ho.known _ s hs).1
  | ping => exact .single (other .ping nofun _ _ _) rfl
  | settings => exact .single (other .settings nofun _ _ _) rfl
  | closedOverflow ha hf hid hs =>
    exact .single (reset _ ⟨hid, past_of_allowed (c := c) ha hf hid hs, hs⟩ (.inl rfl)) rfl
  | @overCap s first last w inc ha hf hid hs =>
    refine Appends.trans ⟨_, log_charged c w inc, grants 0 inc⟩
      (.single (reset _ ?_ (.inl rfl)) rfl)
    exact gone_resetStream hid ((ho.known _ s hs).1.trans (by rw [charged_eq])) _
  | @data s first last w inc w' inc' _ =>
    exact Appends.trans ⟨_, log_charged c w inc, grants 0 inc⟩
      ⟨_, log_grant _ f.stream inc', grants f.stream inc'⟩
  | refusedLate ha hf hodd hgo hs =>
    exact .single (reset _ (gone_opened (c := c) hodd hs rfl) (.inl rfl)) rfl
  | refusedBusy ha hf hodd hknown hopen hbusy =>
    refine .single (reset _ (gone_opened (c := c) hodd ?_ rfl) (.inl rfl)) rfl
    by_contra hs
    exact hok (.busy ⟨ha, hf, hodd, hknown, hopen, hbusy⟩ hs)
  | selfDependent ha hcut =>
    refine .single (reset _ (gone_opened (c := c) ha.odd ?_ rfl) (.inl rfl)) rfl
    by_contra hs
    exact hok (.selfDependent ha hcut hs)
  | trailersRejected ha hcut hblock hend hvalid hdec hs =>
    have hodd := ha.odd
    exact .single (reset _ (gone_resetStream (by omega) (le_max_right ..) _) (.inl rfl)) rfl
  | headers | continuation => exact .same (log_updateStream ..)
  | _ => exact .same rfl

def Spares (e : Entry) : Prop := e.resetOf = none

theorem Appends.spare {e : Entry} (he : Spares e) (h : c'.log = c.log ++ [e]) :
    Appends Spares c c' :=
  .single he h

theorem Flushes.spares {ids : List Nat} (hf : Flushes ids c c') : Appends Spares c c' :=
  hf.appends fun _ hf => resetOf_wrote (by rw [hf]; exact nofun)

theorem spares_respond (libs : Libs) (c : Conn) (stream status : Nat) (headers : List (Str × Str))
    (body : Bytes) (method : Str) :
    Appends Spares c (c.respond libs stream status headers body method) := by
  refine ⟨_, log_respond libs c stream status headers body method, fun e he => ?_⟩
  rcases mem_cons.mp he with rfl | he
  · rfl
  · rw [mem_singleton.mp he]
    rfl

theorem spares_enter (c : Conn) : Appends Spares c c.enter := by
  unfold Conn.enter
  split_ifs
  · exact .spare (e := .wrote ⟨.settings, 0, 0, _⟩) rfl rfl
  · exact .refl c

theorem spares_take (c : Conn) (f : Frame) (rest : Bytes) :
    Appends Spares c (c.enter.take f rest) :=
  (spares_enter c).trans (.spare (e := .took f) rfl rfl)

theorem spares_giveUp (c : Conn) : Appends Spares c c.giveUp := by
  unfold Conn.giveUp
  split_ifs
  · exact .same rfl
  · exact .spare (e := .wrote ⟨.goaway, 0, 0, _⟩) rfl rfl

def Farewell (c c' : Conn) (e : Entry) : Prop := ∀ id ∈ e.resetOf, c'.Gone id ∧ SameResponse id c c'

theorem farewell_of_spares (e : Entry) (h : Spares e) : Farewell c c₁ e :=
  fun _ hid => nomatch Eq.trans (Eq.symm h) hid

theorem Dispatches.farewell (hd : Dispatches libs env stream c c') (ho : c.Ordered) :
    Appends (Farewell c c') c c' := by
  cases hd with
  | notReady => exact .refl c
  | @rejected s hs hr =>
    obtain ⟨hpast, hodd, hlow⟩ := ho.known stream s hs
    refine .single (fun id hid => ?_) rfl
    obtain rfl : low31 stream = id := some.inj hid
    rw [low31_of_lt hlow]
    exact ⟨gone_resetStream (by omega) hpast _,
      sameResponse_handler (.single (.inl mem_cons_self) rfl)⟩
  | @pending s =>
    have hgiven : Appends Spares c (c.handOver stream (requestOf s)) :=
      .spare (e := .handed stream (requestOf s)) rfl rfl
    exact (hgiven.trans (.same (log_updateStream ..))).imp farewell_of_spares
  | @answered s status headers body c' hs hr hgood hout hf =>
    have hgiven : Appends Spares c (c.handOver stream (requestOf s)) :=
      .spare (e := .handed stream (requestOf s)) rfl rfl
    exact ((hgiven.trans (spares_respond ..)).trans hf.spares).imp farewell_of_spares

/-- **Whoever is reset by an event is gone**, and nothing of a response was written for it in that
event. -/
theorem Steps.farewell {e : Event} (hs : Steps libs c e c') (ho : c.Ordered)
    (hok : ¬ c.LetsLinger e) : Appends (Farewell c c') c c' := by
  cases hs with
  | still => exact .refl c
  | arrive | ioFailed | settled => exact .same rfl
  | waits => exact (spares_enter c).imp farewell_of_spares
  | badPreface => exact (spares_giveUp c).imp farewell_of_spares
  | tooLarge =>
    have herr : Appends Spares c.enter (c.enter.connectionError errFrameSize) :=
      .spare (e := .wrote ⟨.goaway, 0, 0, _⟩) rfl rfl
    exact (((spares_enter c).trans herr).trans (spares_giveUp _)).imp farewell_of_spares
  | @frame env f rest c₁ _ tail hp hf hh hl =>
    have hlow := (nextFrame_bounds hf).2
    have ho₀ := ho.take f rest
    have hresets := hh.resets ho₀ hlow fun hlingers => hok ⟨f, rest, hf, hlingers⟩
    have hsame (id : Nat) : SameResponse id c c₁ :=
      (SameResponse.take f rest).trans (sameResponse_handler hh.ofHandler)
    have htook : Appends (Farewell c c') c (c.enter.take f rest) :=
      (spares_take c f rest).imp farewell_of_spares
    cases hl with
    | ok =>
      refine htook.trans (hresets.imp fun e he id hid => ?_)
      obtain ⟨rfl, hgone, -⟩ := he id hid
      exact ⟨hgone, hsame _⟩
    | flush hfl =>
      refine (htook.trans (hresets.imp fun e he id hid => ?_)).trans
        (hfl.spares.imp farewell_of_spares)
      obtain ⟨-, -, ht | ⟨why, ht⟩⟩ := he id hid
      · exact nomatch ht
      · exact nomatch ht
    | dispatch hd =>
      refine (htook.trans (hresets.imp fun e he id hid => ?_)).trans
        ((hd.farewell (ho₀.handles hh hlow)).imp fun e he id hid => ?_)
      · obtain ⟨-, -, ht | ⟨why, ht⟩⟩ := he id hid
        all_goals exact nomatch ht
      · exact ⟨(he id hid).1, (hsame id).trans (he id hid).2⟩
  | @failed env f rest c₁ hp hf hh =>
    have hlow := (nextFrame_bounds hf).2
    have hresets := hh.resets [] hlow fun hlingers => hok ⟨f, rest, hf, hlingers⟩
    have hhandles : Handles libs env (c.enter.take f rest) f c₁ (.error []) := .failed [] hh
    refine (((spares_take c f rest).imp farewell_of_spares).trans
      (hresets.imp fun e he id hid => ?_)).trans ((spares_giveUp c₁).imp farewell_of_spares)
    obtain ⟨rfl, hgone, -⟩ := he id hid
    exact ⟨hgone.giveUp, ((SameResponse.take f rest).trans
      (sameResponse_handler hhandles.ofHandler)).trans (sameResponse_handler (ofHandler_giveUp c₁))⟩
  | @answered env stream status headers body s method c' hp hs hm hf =>
    have hset : Appends Spares c (c.setStream stream { s with pending := none }) := .same rfl
    exact ((hset.trans (spares_respond ..)).trans hf.spares).imp farewell_of_spares
  | flushed hf => exact hf.spares.imp farewell_of_spares
  | idled => exact Appends.imp farewell_of_spares (.spare (e := .wrote ⟨.goaway, 0, 0, _⟩) rfl rfl)

/-! ## What the client still sends -/

def Calms (e : Entry) : Prop := ¬ e.isGoaway

theorem Appends.calm {g : Frame} (hg : g.ftype ≠ .goaway)
    (h : c'.log = c.log ++ [.wrote g]) : Appends Calms c c' :=
  .single hg h

theorem Flushes.calm {ids : List Nat} (hf : Flushes ids c c') : Appends Calms c c' :=
  hf.appends fun _ hg hgo => nomatch hg.symm.trans hgo

theorem not_connection_of_shape {t : FrameType} {flags : UInt8} {length : Nat} (hid : id ≠ 0)
    (h : frameShapeVerdict t flags id length = .allow) : t.needsConnection = false := by
  by_contra hconn
  rw [frameShapeVerdict, if_neg (fun h => hid h.2), if_pos ⟨Bool.not_eq_false _ ▸ hconn, hid⟩] at h
  cases h

theorem Gone.frameVerdict (h : c.Gone id) (hw : c.wasReset id = true) {t : FrameType}
    (hp : t ≠ .priority) (hconn : t.needsConnection = false) : c.frameVerdict t id =
      if t = .windowUpdate ∨ t = .rstStream then .allow else .streamError errStreamClosed := by
  have hstate : c.streamState id = .closed := by
    rw [streamState, h.absent]
    exact if_neg (not_lt.mpr h.past)
  have hno : ¬ (t = .settings ∨ t = .ping ∨ t = .goaway) := by
    rintro (rfl | rfl | rfl)
    all_goals cases hconn
  rw [Conn.frameVerdict, if_neg h.nonzero, if_neg hp, if_neg hno, hstate]
  dsimp only
  rw [if_pos hw]

theorem Gone.windowUpdate (h : c.Gone f.stream) (hsound : c.Sound) (hlen : f.payload.length = 4)
    (hpos : low31 (bigEndian (f.payload.take 4)) ≠ 0) (env : Env) :
    ∃ c', c.handleWindowUpdate env f.stream f.payload = some (c', .ok ()) ∧ Appends Calms c c' := by
  have flushed {c₁ : Conn} (hlog : c₁.log = c.log) (h₁ : c₁.Sound) :
      ∃ c', done (c₁.flushPendingStreams env) = some (c', .ok ()) ∧ Appends Calms c c' := by
    obtain ⟨c', hc', hf⟩ := flushPendingStreams_flushes env h₁
    rw [hc']
    exact ⟨c', rfl, (Appends.same hlog).trans hf.calm⟩
  have hshort : ¬ f.payload.length < 4 := by omega
  unfold handleWindowUpdate
  rw [if_neg hshort]
  dsimp only
  rw [if_neg hpos, if_neg h.nonzero, h.absent]
  dsimp only
  cases hw : c.closedWindow f.stream with
  | none => exact flushed rfl hsound
  | some w =>
    dsimp only
    by_cases hover : w + low31 (bigEndian (f.payload.take 4)) > maxWindow
    · rw [if_pos hover]
      exact ⟨_, rfl, .calm (g := ⟨.rstStream, 0, _, _⟩) nofun rfl⟩
    · rw [if_neg hover]
      have hfit := not_lt.mp hover
      obtain ⟨e, he, rfl⟩ := map_eq_some_iff.mp hw
      have low := (hsound.closed e (mem_of_find?_eq_some he)).1
      have high := hfit
      simp only [maxWindow] at low high
      rw [i32_eq_some (by omega) (by omega)]
      exact flushed rfl (hsound.setClosedWindow hw hfit)

/-- **What comes for a stream whose reset is remembered** ends no connection, unless it is broken.
-/
theorem Gone.forgiven (h : c.Gone f.stream) (hsound : c.Sound) (hw : c.wasReset f.stream = true)
    (hok : ¬ c.Broken f) (libs : Libs) (env : Env) :
    ∃ c', receive libs env c f = some (c', .ok ()) ∧ Appends Calms c c' := by
  have hout : c.continuationStreamId = none := by
    by_contra hin
    exact hok (.inside hin)
  have hcont : f.ftype ≠ .continuation := fun hf => hok (.continuation hf)
  have hwait : ¬ ∃ cont ∈ c.continuationStreamId, f.ftype ≠ .continuation ∨ f.stream ≠ cont := by
    rw [hout]
    rintro ⟨cont, hin, -⟩
    cases hin
  rw [receive, if_neg hwait, if_neg fun h => hcont h.2, refuse]
  cases hshape : frameShapeVerdict f.ftype f.flags f.stream f.payload.length with
  | connectionError code => exact absurd (.shape hshape) hok
  | streamError code => exact ⟨_, rfl, .calm (g := ⟨.rstStream, 0, _, _⟩) (by simp) rfl⟩
  | allow =>
    dsimp only
    rw [hout, if_neg (show ¬ (none : Option Nat).isSome = true by simp)]
    by_cases hp : f.ftype = .priority
    · obtain ⟨hid, hlen⟩ := frameShapeVerdict_priority (hp ▸ hshape)
      have hverdict : c.frameVerdict f.ftype f.stream = .allow := by
        rw [Conn.frameVerdict, if_neg hid, if_pos hp]
      rw [hverdict]
      dsimp only [deny]
      rw [dispatchFrame, hp]
      dsimp only
      rw [handlePriority, slice?_eq_some (Nat.zero_le 4) (by omega)]
      simp only [bind_eq_bind, bind_some]
      split_ifs
      · exact ⟨_, rfl, .calm (g := ⟨.rstStream, 0, _, _⟩) (by simp) rfl⟩
      · exact ⟨_, rfl, .refl c⟩
    · rw [h.frameVerdict hw hp (not_connection_of_shape h.nonzero hshape)]
      by_cases hlate : f.ftype = .windowUpdate ∨ f.ftype = .rstStream
      · rw [if_pos hlate]
        dsimp only [deny]
        rw [dispatchFrame]
        rcases hlate with hf | hf
        · rw [hf]
          exact h.windowUpdate hsound (frameShapeVerdict_windowUpdate (hf ▸ hshape))
            (fun hzero => hok (.zero hf hzero)) env
        · rw [hf]
          exact ⟨_, rfl, .same rfl⟩
      · rw [if_neg hlate]
        exact ⟨_, rfl, .calm (g := ⟨.rstStream, 0, _, _⟩) (by simp) rfl⟩

theorem reset_enter (c : Conn) :
    c.enter.recentlyReset = c.recentlyReset ∧
      c.enter.continuationStreamId = c.continuationStreamId := by
  unfold Conn.enter
  split_ifs
  · exact ⟨rfl, rfl⟩
  · exact ⟨rfl, rfl⟩

theorem broken_of_take {rest : Bytes} (h : (c.enter.take f rest).Broken f) : c.Broken f := by
  cases h with
  | inside h => exact .inside ((reset_enter c).2 ▸ h)
  | continuation h => exact .continuation h
  | shape h => exact .shape h
  | zero hf h => exact .zero hf h

theorem calm_take (c : Conn) (f : Frame) (rest : Bytes) :
    Appends Calms c (c.enter.take f rest) := by
  refine Appends.trans ?_ (.single (e := .took f) (P := Calms) id rfl)
  unfold Conn.enter
  split_ifs
  · exact .calm (g := ⟨.settings, 0, 0, _⟩) nofun rfl
  · exact .refl c

theorem Gone.step {rest : Bytes} (h : c.Gone f.stream) (hsound : c.Sound)
    (hw : c.wasReset f.stream = true) (hok : ¬ c.Broken f) (hf : c.nextFrame = some (f, rest))
    (libs : Libs) (env : Env) : ∃ c', c.step libs (.frame env) = some c' ∧ Appends Calms c c' := by
  have hw' : (c.enter.take f rest).wasReset f.stream = true := by
    change c.enter.recentlyReset.any _ = true
    rw [(reset_enter c).1]
    exact hw
  obtain ⟨c₁, hrec, hcalm⟩ := (h.take f rest).forgiven hsound.enter hw'
    (fun hb => hok (broken_of_take hb)) libs env
  rw [step_frame libs env hf, hrec]
  exact ⟨c₁, rfl, (calm_take c f rest).trans hcalm⟩

/-! ## Runs -/

/-- **A run** leaves a stream that is gone as it is. -/
theorem Gone.run (libs : Libs) (events : List Event) {c c' : Conn} (h : c.Gone id)
    (hsound : c.Sound) (ho : c.Ordered) (hrun : c.run libs events = some c') :
    c'.Sound ∧ c'.Gone id ∧ SameResponse id c c' := by
  induction events generalizing c with
  | nil =>
    cases hrun
    exact ⟨hsound, h, .refl id _⟩
  | cons e events ih =>
    obtain ⟨c₁, hstep, hrest⟩ := bind_eq_some_iff.mp (foldlM_cons.symm.trans hrun)
    have hs := step_steps hsound hstep
    obtain ⟨h₁, hsame⟩ := hs.gone h ho
    obtain ⟨hsound', h', hsame'⟩ := ih h₁ (hs.sound hsound) (hs.ordered ho) hrest
    exact ⟨hsound', h', hsame.trans hsame'⟩

end Conn

/-- **RST_STREAM is the end of a stream**, in every state that a run comes to after it, unless it is
written while the stream stays. -/
theorem reset_is_final (libs : Libs) {events later : List Event} {c c' c₂ : Conn} {e : Event}
    (hc : Conn.new.run libs events = some c) (hs : c.step libs e = some c')
    (hok : ¬ c.LetsLinger e) {l : List Entry} (hlog : c'.log = c.log ++ l) {id : Nat}
    (hreset : ∃ e ∈ l, id ∈ e.resetOf) (hlater : c'.run libs later = some c₂) :
    c₂.Final libs (responseFrames id c.log) id := by
  obtain ⟨hsound, ho⟩ := Conn.ordered_of_run libs hc
  have hstep := Conn.step_steps hsound hs
  obtain ⟨l', hlog', hends⟩ := hstep.farewell ho hok
  obtain ⟨e', he', hid⟩ := hreset
  obtain rfl : l = l' := append_cancel_left (hlog.symm.trans hlog')
  obtain ⟨hgone, hsame⟩ := hends e' he' id hid
  obtain ⟨hsound₂, hgone₂, hsame₂⟩ :=
    hgone.run libs later (hstep.sound hsound) (hstep.ordered ho) hlater
  refine ⟨hgone₂.absent, hsame₂.1.trans hsame.1, ?_⟩
  rintro env f rest hf rfl hw hok
  obtain ⟨c₃, hc₃, l₃, hlog₃, hcalm⟩ := hgone₂.step hsound₂ hw hok hf libs env
  exact ⟨c₃, l₃, hc₃, hlog₃, hcalm⟩

def overgrant : Frame := ⟨.windowUpdate, 0, 1, [0x7f, 0xff, 0xff, 0xff]⟩

/-- A request whose body is to come, and that frame. -/
def overgranted : Bytes :=
  clientPreface ++ postHeaders ++ [0, 0, 4, 8, 0, 0, 0, 0, 1] ++ overgrant.payload

/-- A DATA frame that comes too late. -/
def lateData : Bytes := [0, 0, 1, 0, 0, 0, 0, 0, 1, 0x61]

theorem reset_is_final_overgrant :
    ∃ c c' c₂, Conn.new.run postLibs [.arrive (overgranted ++ lateData), .frame plainEnv] = some c ∧
      c.step postLibs (.frame plainEnv) = some c' ∧
      c'.run postLibs [.frame plainEnv, .arrive lateData] = some c₂ ∧ c₂.Final postLibs [] 1 := by
  refine ⟨_, _, _, rfl, rfl, rfl, ?_⟩
  have hreset : ∃ e ∈ [.took overgrant, .wrote ⟨.rstStream, 0, 1, be32 3⟩], 1 ∈ Entry.resetOf e :=
    ⟨_, mem_cons_of_mem _ mem_cons_self, rfl⟩
  refine reset_is_final postLibs
    (show Conn.new.run postLibs [.arrive (overgranted ++ lateData), .frame plainEnv] =
      some _ from rfl)
    (show Conn.step postLibs _ (.frame plainEnv) = some _ from rfl) ?_ rfl hreset
    (show Conn.run postLibs _ [.frame plainEnv, .arrive lateData] = some _ from rfl)
  rintro ⟨f, rest, hf, hlingers⟩
  obtain ⟨rfl, -⟩ : overgrant = f ∧ lateData = rest := Prod.mk.inj (some.inj hf)
  cases hlingers with
  | busy h => exact nomatch h.headers
  | shortPriority ha | selfDependent ha => exact nomatch ha.headers
  | idle h => exact nomatch h.priority

theorem reset_not_forgiven :
    ∃ c c' c₂, Conn.new.run postLibs [.arrive (overgranted ++ [0, 0, 3, 3, 0, 0, 0, 0, 1, 0, 0, 0]),
        .frame plainEnv] = some c ∧ c.step postLibs (.frame plainEnv) = some c' ∧
      (∃ e ∈ c'.log.drop c.log.length, 1 ∈ e.resetOf) ∧ c'.wasReset 1 = true ∧
      c'.nextFrame = some (⟨.rstStream, 0, 1, [0, 0, 0]⟩, []) ∧
      c'.step postLibs (.frame plainEnv) = some c₂ ∧
      ∃ e ∈ c₂.log.drop c'.log.length, e.isGoaway := by
  refine ⟨_, _, _, rfl, rfl, ⟨.wrote ⟨.rstStream, 0, 1, be32 3⟩, ?_, rfl⟩, rfl, rfl, rfl,
    .wrote ⟨.goaway, 0, 0, be32 1 ++ be32 6⟩, ?_, rfl⟩
  · exact mem_cons_of_mem (Entry.took overgrant) mem_cons_self
  · exact mem_cons_of_mem (Entry.took ⟨.rstStream, 0, 1, [0, 0, 0]⟩) mem_cons_self

end M6.Http2
