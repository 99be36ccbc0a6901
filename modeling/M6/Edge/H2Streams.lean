import M6.Edge.H2Steps
import M6.Lib.History

/-!
# The streams of the HTTP/2 server

A stream that is there has the number of a client, which is not above the last one that was opened;
it is open, or half of it is closed; and a request that was handed over is on no other stream, nor
is it handed over again (`Ordered`). A frame changes no stream but its own, for which there are four
ways (`Changed`): it opens the stream, completes its header section, in one frame or in several, or
adds to its body.
-/

namespace M6.Http2

open Runs History Option SortedMap

def tookFrames (log : List Entry) : List Frame :=
  log.filterMap fun
    | .took f => some f
    | _ => none

theorem tookFrames_append (log es : List Entry) :
    tookFrames (log ++ es) = tookFrames log ++ tookFrames es := List.filterMap_append ..

def handedStreams (log : List Entry) : List Nat :=
  log.filterMap fun
    | .handed stream _ => some stream
    | _ => none

theorem handedStreams_append (log es : List Entry) :
    handedStreams (log ++ es) = handedStreams log ++ handedStreams es := List.filterMap_append ..

namespace Conn

variable {libs : Libs} {env : Env} {c c' : Conn} {f : Frame}

/-- **What a frame makes of its stream.** -/
inductive Changed (env : Env) (c : Conn) (f : Frame) : Stream → Prop
  | data {s : Stream} {first last : Nat} (w : Int) (ha : Allowed c f) (hf : f.ftype = .data)
      (hs : c.streams.get? f.stream = some s)
      (hcut : cutData f.flags f.payload = .ok (first, last)) :
      Changed env c f (takeData s f.flags ((f.payload.take last).drop first) w)
  | opened (ha : Admitted env c f) : Changed env c f (c.opening f)
  | headers (ha : Admitted env c f) (hend : has f.flags flagEndHeaders = true)
      (fields : List (Str × Str)) : Changed env c f (withFields (c.opening f) fields)
  | continued {s : Stream} (ha : Continues c f) (hend : has f.flags flagEndHeaders = true)
      (hs : c.streams.get? f.stream = some s) (fields : List (Str × Str)) :
      Changed env c f (withFields s fields)

/-- What can be said of a stream after a frame that leaves `last` as the last stream: its window was
moved, or it is the stream of the frame, and the frame has changed it. -/
def After (env : Env) (c : Conn) (f : Frame) (last id : Nat) (s' : Stream) : Prop :=
  (∃ s w, c.streams.get? id = some s ∧ s' = { s with sendWindow := w }) ∨
    id = f.stream ∧ Changed env c f s' ∧ (f.ftype = .headers → f.stream ≤ last)

variable {n : Nat}

variable {id : Nat}

theorem After.same {s : Stream} (hs : c.streams.get? id = some s) : After env c f n id s :=
  .inl ⟨s, s.sendWindow, hs, rfl⟩

variable {s' : Stream}

theorem After.removed {id stream : Nat}
    (h : (c.streams.erase stream).get? id = some s') : After env c f n id s' := by
  rw [get?_erase] at h
  split_ifs at h
  exact .same h

theorem After.entered (ha : Admitted env c f) (h : (c.entered f).streams.get? id = some s') :
    After env c f (max c.lastStreamId f.stream) id s' := by
  rw [get?_entered_opening] at h
  split_ifs at h with hid
  · cases h
    exact .inr ⟨hid, .opened ha, fun _ => le_max_right ..⟩
  · exact .same h

theorem After.configureAll {pairs : List (Nat × Nat)}
    (h : (c.configureAll pairs).streams.get? id = some s') : After env c f n id s' := by
  obtain ⟨s, hs, rfl⟩ := map_eq_some_iff.mp ((get?_map ..).symm.trans h)
  exact .inl ⟨s, _, hs, rfl⟩

variable {c₁ : Conn}

theorem Fails.streams (hf : Fails libs env c f c₁)
    (h : c₁.streams.get? id = some s') : After env c f c₁.lastStreamId id s' := by
  cases hf with
  | longHeaders ha | invalidHeaders ha | undecodableHeaders ha => exact .entered ha h
  | settings => exact .configureAll h
  | _ => exact .same h

theorem lastStreamId_addFields (c : Conn) (stream : Nat) (fields : List (Str × Str)) :
    (c.addFields stream fields).lastStreamId = c.lastStreamId := by
  obtain ⟨m, hm, -⟩ := addFields_eq c stream fields
  rw [hm]

/-- **A frame changes no stream but its own.** -/
theorem Handles.streams {tail : Tail} (hh : Handles libs env c f c₁ tail)
    (h : c₁.streams.get? id = some s') : After env c f c₁.lastStreamId id s' := by
  cases hh with
  | failed why hf => exact hf.streams h
  | illegal | reset | rstStream => exact .removed h
  | settings => exact .configureAll h
  | streamCredit _ _ _ _ _ hs =>
    change (c.streams.insert _ _).get? id = some s' at h
    rw [get?_insert] at h
    split_ifs at h with hid
    · cases h
      exact .inl ⟨_, _, hid ▸ hs, rfl⟩
    · exact .same h
  | overCap =>
    rw [charged_eq] at h
    exact .removed h
  | data ha hf _ hs hcut =>
    rw [charged_eq, grant_eq] at h
    change (c.streams.insert _ _).get? id = some s' at h
    rw [get?_insert] at h
    split_ifs at h with hid
    · cases h
      exact .inr ⟨hid, .data _ ha hf hs hcut, fun hno => nomatch hf.symm.trans hno⟩
    · exact .same h
  | headersPart ha => exact .entered ha h
  | trailersRejected ha =>
    change ((c.entered f).streams.erase _).get? id = some s' at h
    rw [get?_erase] at h
    split_ifs at h
    exact .entered ha h
  | @headers first last block fields ha _ _ hend =>
    have hopen : ((c.entered f).blockDone.decoded libs block).streams = (c.entered f).streams := rfl
    rw [get?_addFields, hopen, get?_entered_opening] at h
    rw [lastStreamId_addFields]
    split_ifs at h with hid
    · cases h
      exact .inr ⟨hid, .headers ha hend _, fun _ => le_max_right ..⟩
    · exact .same h
  | @continuation fields s ha hend _ _ hs =>
    have hstreams : (c.blockDone.decoded libs
      (c.headerBlockBuf ++ f.payload)).streams = c.streams :=
      rfl
    rw [get?_addFields, hstreams] at h
    split_ifs at h with hid
    · rw [hid, hs] at h
      cases h
      exact .inr ⟨hid, .continued ha hend hs _, fun hno => nomatch ha.continuation.symm.trans hno⟩
    · exact .same h
  | _ => exact .same h

theorem Handles.last {c₁ : Conn} {tail : Tail} (hh : Handles libs env c f c₁ tail) :
    c.lastStreamId ≤ c₁.lastStreamId := by
  cases hh with
  | failed why hf =>
    cases hf with
    | flood | malformedHeaders | shortHeaders | longHeaders | invalidHeaders | undecodableHeaders =>
      exact le_max_left ..
    | _ => exact le_refl _
  | rstStream | refusedLate | refusedBusy | selfDependent | headersPart | trailersRejected =>
    exact le_max_left ..
  | overCap =>
    rw [charged_eq]
    exact le_refl _
  | data =>
    rw [charged_eq, grant_eq]
    exact le_refl _
  | headers =>
    rw [lastStreamId_addFields]
    exact le_max_left ..
  | continuation =>
    rw [lastStreamId_addFields]
    exact le_refl _
  | _ => exact le_refl _

/-! ## Streams that are there -/

def Asked (s : Stream) : Prop := s.respBody ≠ none ∨ s.pending ≠ none

def Usable (s : Stream) : Prop :=
  s.state = .isOpen ∨ s.state = .halfClosedLocal ∨ s.state = .halfClosedRemote

/-- **What a connection keeps of its streams.** -/
structure Ordered (c : Conn) : Prop where
  known : ∀ id s, c.streams.get? id = some s → id ≤ c.lastStreamId ∧ id % 2 = 1 ∧ id < 2 ^ 31
  usable : ∀ id s, c.streams.get? id = some s → Usable s
  handed : ∀ id ∈ handedStreams c.log,
    id ≤ c.lastStreamId ∧ ∀ s, c.streams.get? id = some s → Asked s
  once : (handedStreams c.log).Nodup

theorem Ordered.new : Conn.new.Ordered where
  known := nofun
  usable := nofun
  handed := nofun
  once := List.nodup_nil

theorem Usable.inherits {s s' : Stream} (h : Usable s) (hin : Inherits s s') : Usable s' := by
  unfold Usable at *
  rcases hin.state with heq | ⟨-, heq⟩
  · rwa [heq]
  · exact .inr (.inl heq)

theorem Changed.origin (h : Changed env c f s') :
    (∃ s, c.streams.get? f.stream = some s ∧ s'.respBody = s.respBody ∧ s'.respSent = s.respSent ∧
      s'.pending = s.pending ∧ (s'.state = s.state ∨ s'.state = .halfClosedRemote)) ∨
    (Admitted env c f ∧ c.lastStreamId < f.stream ∧ c.streams.get? f.stream = none ∧
      s'.respBody = none ∧ s'.pending = none ∧ Usable s') := by
  have opening (ha : Admitted env c f) :
      (∃ s, c.streams.get? f.stream = some s ∧ (c.opening f).respBody = s.respBody ∧
        (c.opening f).respSent = s.respSent ∧ (c.opening f).pending = s.pending ∧
        ((c.opening f).state = s.state ∨ (c.opening f).state = .halfClosedRemote)) ∨
      (Admitted env c f ∧ c.lastStreamId < f.stream ∧ c.streams.get? f.stream = none ∧
        (c.opening f).respBody = none ∧ (c.opening f).pending = none ∧ Usable (c.opening f)) := by
    cases hs : c.streams.get? f.stream with
    | some s =>
      refine .inl ⟨s, rfl, ?_⟩
      rw [Conn.opening, hs, getD_some]
      split_ifs
      · exact ⟨rfl, rfl, rfl, .inr rfl⟩
      · exact ⟨rfl, rfl, rfl, .inl rfl⟩
    | none =>
      refine .inr ⟨ha, not_le.mp fun hle => ha.known hle hs, rfl, ?_⟩
      rw [Conn.opening, hs, getD_none]
      split_ifs
      · exact ⟨rfl, rfl, .inr (.inr rfl)⟩
      · exact ⟨rfl, rfl, .inl rfl⟩
  cases h with
  | @data s _ _ w ha hf hs hcut =>
    refine .inl ⟨s, hs, rfl, rfl, rfl, ?_⟩
    rw [takeData]
    dsimp only
    split_ifs
    · exact .inr rfl
    · exact .inl rfl
  | opened ha | headers ha => exact opening ha
  | @continued s ha hend hs => exact .inl ⟨s, hs, rfl, rfl, rfl, .inl rfl⟩

theorem Ordered.follows (h : c.Ordered) (hf : Follows c c')
    (hlog : handedStreams c'.log = handedStreams c.log) : c'.Ordered where
  known := fun id s' hs' => by
    obtain ⟨s, hs, -⟩ := hf.streams id s' hs'
    obtain ⟨hle, hrest⟩ := h.known id s hs
    exact ⟨hle.trans hf.last, hrest⟩
  usable := fun id s' hs' => by
    obtain ⟨s, hs, hin⟩ := hf.streams id s' hs'
    exact (h.usable id s hs).inherits hin
  handed := fun id hid => by
    rw [hlog] at hid
    obtain ⟨hle, hasked⟩ := h.handed id hid
    refine ⟨hle.trans hf.last, fun s' hs' => ?_⟩
    obtain ⟨s, hs, hin⟩ := hf.streams id s' hs'
    exact hin.asked (hasked s hs)
  once := hlog ▸ h.once

theorem handedStreams_of_appends {P : Entry → Prop} (hP : ∀ id req, ¬ P (.handed id req))
    (happ : Appends P c c') : handedStreams c'.log = handedStreams c.log := by
  obtain ⟨es, hes, hall⟩ := happ
  have hnone : handedStreams es = [] := by
    refine List.filterMap_eq_nil_iff.mpr fun e he => ?_
    cases e with
    | handed id req => exact absurd (hall _ he) (hP id req)
    | took | wrote | answered => rfl
  rw [hes, handedStreams_append, hnone, List.append_nil]

theorem tookFrames_of_appends {P : Entry → Prop} (hP : ∀ f, ¬ P (.took f))
    (happ : Appends P c c') : tookFrames c'.log = tookFrames c.log := by
  obtain ⟨es, hes, hall⟩ := happ
  have hnone : tookFrames es = [] := by
    refine List.filterMap_eq_nil_iff.mpr fun e he => ?_
    cases e with
    | took f => exact absurd (hall _ he) (hP f)
    | handed | wrote | answered => rfl
  rw [hes, tookFrames_append, hnone, List.append_nil]

theorem Handles.handedStreams {tail : Tail} (hh : Handles libs env c f c₁ tail) :
    handedStreams c₁.log = Http2.handedStreams c.log :=
  handedStreams_of_appends (fun _ _ h => h) hh.ofHandler

theorem Flushes.handedStreams {ids : List Nat} (hf : Flushes ids c c') :
    handedStreams c'.log = Http2.handedStreams c.log :=
  handedStreams_of_appends (P := fun e => ∃ f, e = .wrote f) (by rintro id req ⟨f, ⟨⟩⟩)
    (hf.appends fun f _ => ⟨f, rfl⟩)

/-- **One frame** keeps the order of the streams. -/
theorem Ordered.handles {tail : Tail} (h : c.Ordered)
    (hh : Handles libs env c f c₁ tail) (hid : f.stream < 2 ^ 31) : c₁.Ordered where
  known := fun id s' hs' => by
    have hlast := hh.last
    rcases hh.streams hs' with ⟨s, w, hs, -⟩ | ⟨rfl, hch, hle⟩
    · obtain ⟨hle, hrest⟩ := h.known id s hs
      exact ⟨hle.trans hlast, hrest⟩
    · rcases hch.origin with ⟨s, hs, -⟩ | ⟨ha, -⟩
      · obtain ⟨hle, hrest⟩ := h.known f.stream s hs
        exact ⟨hle.trans hlast, hrest⟩
      · exact ⟨hle ha.headers, ha.odd, hid⟩
  usable := fun id s' hs' => by
    rcases hh.streams hs' with ⟨s, w, hs, rfl⟩ | ⟨rfl, hch, -⟩
    · exact h.usable id s hs
    · rcases hch.origin with ⟨s, hs, -, -, -, heq | heq⟩ | ⟨-, -, -, -, -, hu⟩
      · have hu := h.usable f.stream s hs
        unfold Usable at *
        rwa [heq]
      · exact .inr (.inr heq)
      · exact hu
  handed := fun id hin => by
    rw [hh.handedStreams] at hin
    obtain ⟨hle, hasked⟩ := h.handed id hin
    refine ⟨hle.trans hh.last, fun s' hs' => ?_⟩
    rcases hh.streams hs' with ⟨s, w, hs, rfl⟩ | ⟨rfl, hch, -⟩
    · exact hasked s hs
    · rcases hch.origin with ⟨s, hs, hbody, -, hpending, -⟩ | ⟨-, hnew, -⟩
      · have ha := hasked s hs
        unfold Asked at *
        rwa [hbody, hpending]
      · exact absurd hle (not_le.mpr hnew)
  once := hh.handedStreams ▸ h.once

theorem Ordered.same (h : c.Ordered) (hstreams : c'.streams = c.streams)
    (hlast : c'.lastStreamId = c.lastStreamId)
    (hlog : Http2.handedStreams c'.log = Http2.handedStreams c.log) : c'.Ordered where
  known := by
    rw [hstreams, hlast]
    exact h.known
  usable := hstreams ▸ h.usable
  handed := by
    rw [hstreams, hlast, hlog]
    exact h.handed
  once := hlog ▸ h.once

theorem streams_enter (c : Conn) :
    c.enter.streams = c.streams ∧ c.enter.lastStreamId = c.lastStreamId := by
  unfold enter
  split_ifs
  · exact ⟨rfl, rfl⟩
  · exact ⟨rfl, rfl⟩

theorem tookFrames_take (c : Conn) (f : Frame) (rest : Bytes) :
    tookFrames (c.enter.take f rest).log = tookFrames c.log ++ [f] := by
  have henter : Appends ofHandler c c.enter := ofHandler_enter c
  change tookFrames (c.enter.log ++ [.took f]) = _
  rw [tookFrames_append, tookFrames_of_appends (fun _ h => h) henter]
  rfl

theorem Ordered.take (h : c.Ordered) (f : Frame)
    (rest : Bytes) : (c.enter.take f rest).Ordered := by
  refine h.same (streams_enter c).1 (streams_enter c).2 ?_
  have henter : Appends ofHandler c c.enter := ofHandler_enter c
  change Http2.handedStreams (c.enter.log ++ [.took f]) = _
  rw [handedStreams_append, handedStreams_of_appends (fun _ _ h => h) henter]
  exact List.append_nil _

theorem Ordered.handOver (h : c.Ordered) {stream : Nat} {s : Stream}
    (hs : c.streams.get? stream = some s) (hfresh : ¬ Asked s) {c' : Conn} {l : List Entry}
    {req : RawRequest} (hlog : c'.log = c.log ++ .handed stream req :: l)
    (hes : Http2.handedStreams l = []) (hlast : c.lastStreamId ≤ c'.lastStreamId)
    (hstreams : ∀ id s', c'.streams.get? id = some s' →
      ∃ s, c.streams.get? id = some s ∧ Inherits s s' ∧ (id = stream → Asked s')) : c'.Ordered := by
  have hids : Http2.handedStreams c'.log = Http2.handedStreams c.log ++ [stream] := by
    rw [hlog, handedStreams_append]
    change _ ++ stream :: Http2.handedStreams l = _
    rw [hes]
  have hnot : stream ∉ Http2.handedStreams c.log := fun hin =>
    hfresh ((h.handed stream hin).2 s hs)
  constructor
  · intro id s' hs'
    obtain ⟨s₀, hs₀, -⟩ := hstreams id s' hs'
    obtain ⟨hle, hrest⟩ := h.known id s₀ hs₀
    exact ⟨hle.trans hlast, hrest⟩
  · intro id s' hs'
    obtain ⟨s₀, hs₀, hin, -⟩ := hstreams id s' hs'
    exact (h.usable id s₀ hs₀).inherits hin
  · intro id hid
    rw [hids, List.mem_append, List.mem_singleton] at hid
    rcases hid with hid | rfl
    · obtain ⟨hle, hasked⟩ := h.handed id hid
      refine ⟨hle.trans hlast, fun s' hs' => ?_⟩
      obtain ⟨s₀, hs₀, hin, -⟩ := hstreams id s' hs'
      exact hin.asked (hasked s₀ hs₀)
    · refine ⟨(h.known id s hs).1.trans hlast, fun s' hs' => ?_⟩
      obtain ⟨-, -, -, hasked⟩ := hstreams id s' hs'
      exact hasked rfl
  · rw [hids]
    exact h.once.append (List.nodup_singleton _) fun a ha hb => by
      rw [List.mem_singleton.mp hb] at ha
      exact hnot ha

theorem not_asked_of_ready {s : Stream} (h : ready s = true) : ¬ Asked s := by
  unfold ready at h
  rw [Bool.and_eq_true, Bool.and_eq_true, isNone_iff_eq_none, isNone_iff_eq_none] at h
  rintro (hb | hp)
  · exact hb h.1.2
  · exact hp h.2

theorem inherits_setBody (s : Stream) (body : Bytes) : Inherits s (setBody s body) :=
  { Inherits.refl s with asked := fun _ => .inl (some_ne_none body) }

theorem log_respond (libs : Libs) (c : Conn) (stream status : Nat) (headers : List (Str × Str))
    (body : Bytes) (method : Str) : (c.respond libs stream status headers body method).log =
      c.log ++ [.answered stream (sentBody method body), .wrote ⟨.headers, flagEndHeaders,
        low31 stream, libs.encode c.hpackEnc
          (responseFields libs status headers body.length)⟩] := by
  rw [Conn.respond, log_updateStream]
  change (c.log ++ [_]) ++ [_] = _
  rw [List.append_assoc]
  rfl

theorem Dispatches.ordered {stream : Nat} (hd : Dispatches libs env stream c c') (h : c.Ordered) :
    c'.Ordered := by
  cases hd with
  | notReady => exact h
  | rejected =>
    exact h.follows (.resetStream ..) (handedStreams_of_appends (P := ofHandler) (fun _ _ h => h)
      (.single (.inl List.mem_cons_self) rfl))
  | @pending s hs hr hgood ho =>
    obtain ⟨m, hm, hget⟩ := updateStream_eq (c.handOver stream (requestOf s)) stream
      fun s' => { s' with pending := some (requestOf s).method }
    rw [hm]
    refine h.handOver hs (not_asked_of_ready hr) (l := []) rfl rfl (le_refl _) fun id s' hs' => ?_
    change m.get? id = some s' at hs'
    rw [hget] at hs'
    split_ifs at hs' with hid
    · obtain ⟨s₀, hs₀, rfl⟩ := map_eq_some_iff.mp hs'
      refine ⟨s₀, hs₀, ?_, fun _ => .inr (some_ne_none _)⟩
      exact { Inherits.refl s₀ with asked := fun _ => .inr (some_ne_none _) }
    · exact ⟨s', hs', .refl s', fun hno => absurd hno hid⟩
  | @answered s status headers body c' hs hr hgood ho hf =>
    refine Ordered.follows
      (c := (c.handOver stream (requestOf s)).respond libs stream status headers
      body (requestOf s).method) ?_ hf.follows hf.handedStreams
    have hlog := log_respond libs (c.handOver stream (requestOf s)) stream status headers body
      (requestOf s).method
    have hlast := (Follows.respond libs (c.handOver stream (requestOf s)) stream status headers body
      (requestOf s).method).last
    refine h.handOver hs (not_asked_of_ready hr) (hlog.trans (List.append_assoc ..)) rfl hlast
      fun id s' hs' => ?_
    rw [get?_respond] at hs'
    split_ifs at hs' with hid
    · obtain ⟨s₀, hs₀, rfl⟩ := map_eq_some_iff.mp hs'
      exact ⟨s₀, hs₀, inherits_setBody s₀ _, fun _ => .inl (some_ne_none _)⟩
    · exact ⟨s', hs', .refl s', fun hno => absurd hno hid⟩

theorem Ordered.giveUp (h : c.Ordered) : c.giveUp.Ordered :=
  h.same (streams_giveUp c).1 (streams_giveUp c).2
    (handedStreams_of_appends (fun _ _ h => h) (ofHandler_giveUp c))

/-- **One step** keeps the order of the streams. -/
theorem Steps.ordered {e : Event} (hs : Steps libs c e c') (h : c.Ordered) : c'.Ordered := by
  have henter : c.enter.Ordered := h.same (streams_enter c).1 (streams_enter c).2
    (handedStreams_of_appends (P := ofHandler) (fun _ _ h => h)
      (ofHandler_enter c))
  cases hs with
  | still => exact h
  | arrive | ioFailed | settled => exact h.same rfl rfl rfl
  | waits => exact henter
  | badPreface => exact h.giveUp
  | tooLarge =>
    have herr : (c.enter.connectionError errFrameSize).Ordered := henter.same rfl rfl
      (handedStreams_of_appends (P := ofHandler) (fun _ _ h => h) (.single (.inr rfl) rfl))
    exact herr.giveUp
  | @frame env f rest c₁ _ tail hp hf hh hl =>
    have hc₁ := (h.take f rest).handles hh (nextFrame_bounds hf).2
    cases hl with
    | ok => exact hc₁
    | flush hflush => exact hc₁.follows hflush.follows hflush.handedStreams
    | dispatch hd => exact hd.ordered hc₁
  | @failed env f rest c₁ hp hf hh =>
    have hc₁ := (h.take f rest).handles (.failed [] hh) (nextFrame_bounds hf).2
    exact hc₁.giveUp
  | @answered env stream status headers body s method c' hp hs hm hf =>
    have hset := Follows.answerWith libs hs status headers body method
    have hlog := log_respond libs (c.setStream stream { s with pending := none }) stream status
      headers body method
    refine (h.follows hset ?_).follows hf.follows hf.handedStreams
    rw [Conn.answerWith, hlog, handedStreams_append]
    exact List.append_nil _
  | flushed hf => exact h.follows hf.follows hf.handedStreams
  | idled =>
    exact h.same rfl rfl (handedStreams_of_appends (P := ofHandler) (fun _ _ h => h)
      (.single (.inr rfl) rfl))

theorem ordered_of_run (libs : Libs) {events : List Event} {c : Conn}
    (hc : Conn.new.run libs events = some c) : c.Sound ∧ c.Ordered :=
  (throughout_kept libs (P := fun c => c.Sound ∧ c.Ordered) (fun _ _ _ _ h hs => hs.ordered h)
    (fun _ hsound h => ⟨hsound, h⟩) .new events).result hc

end Conn

end M6.Http2
