import M6.Edge.H2Steps

/-!
# Requests after GOAWAY

A connection error means GOAWAY, and that the connection ends. An error that a handler returns ends
it at once; one that is found in the shape of a frame, in the state of its stream or in the number
of
a new stream does not, and the loop goes on with what was received (`GoesOn`). These three are the
only way for a connection to be in use after GOAWAY (`Steps.phase_cases`). So nothing is handed over
after it as long as none of the three is followed by a frame that completes a request
(`silent_of_steps`), whatever is left to read after any other error.
-/

namespace M6.Http2

open Runs

def Entry.isGoaway : Entry → Prop
  | .wrote f => f.ftype = .goaway
  | _ => False

def Entry.isHanded : Entry → Prop
  | .handed _ _ => True
  | _ => False

namespace Conn

/-- **No request is handed over after GOAWAY.** -/
def SilentAfterGoaway (c : Conn) : Prop := c.log.Pairwise fun e e' => e.isGoaway → ¬ e'.isHanded

/-- A frame completes a request that is valid. -/
def CompletesRequest (libs : Libs) (c : Conn) : Event → Prop
  | .frame env => ∃ f rest s, c.nextFrame = some (f, rest) ∧
      Completes libs env (c.enter.take f rest) f s ∧ ready s = true ∧ ¬ Invalid s
  | _ => False

/-- A frame is a connection error after which the loop goes on: by its shape, by the state of its
stream, or by the number of the stream that it opens. -/
def GoesOn (c : Conn) : Event → Prop
  | .frame _ => ∃ f rest code, c.nextFrame = some (f, rest) ∧ Breaks (c.enter.take f rest) f code
  | _ => False

/-- What a connection keeps. -/
structure Silent (c : Conn) : Prop where
  log : c.SilentAfterGoaway
  sent : (∃ e ∈ c.log, e.isGoaway) → c.goawaySent = true

/-- A connection that has sent GOAWAY goes away, or is done. -/
def Parting (c : Conn) : Prop := c.goawaySent = true → c.phase = .goingAway ∨ c.phase = .done

variable {libs : Libs} {env : Env} {c c' : Conn} {f : Frame}

theorem Silent.append (h : c.Silent) {l : List Entry} (hlog : c'.log = c.log ++ l)
    (hkeep : c.goawaySent = true → c'.goawaySent = true)
    (hsent : (∃ e ∈ l, e.isGoaway) → c'.goawaySent = true)
    (hes : (∀ e ∈ l, ¬ e.isHanded) ∨ c.goawaySent = false ∧ ∀ e ∈ l, ¬ e.isGoaway) : c'.Silent where
  log := by
    rw [SilentAfterGoaway, hlog, List.pairwise_append]
    refine ⟨h.log, ?_, fun a ha b hb hgo => ?_⟩
    · rcases hes with hes | ⟨-, hes⟩
      · exact List.pairwise_of_forall_mem_list fun a _ b hb _ => hes b hb
      · exact List.pairwise_of_forall_mem_list fun a ha b _ hgo => absurd hgo (hes a ha)
    · rcases hes with hes | ⟨hno, -⟩
      · exact hes b hb
      · exact nomatch hno.symm.trans (h.sent ⟨a, ha, hgo⟩)
  sent := by
    rintro ⟨e, he, hgo⟩
    rw [hlog] at he
    rcases List.mem_append.mp he with he | he
    · exact hkeep (h.sent ⟨e, he, hgo⟩)
    · exact hsent ⟨e, he, hgo⟩

def Plain (c : Conn) (e : Entry) : Prop := ¬ e.isHanded ∧ (e.isGoaway → c.goawaySent = true)

theorem Silent.plain (h : c.Silent) (happ : Appends (Plain c') c c')
    (hkeep : c.goawaySent = true → c'.goawaySent = true) : c'.Silent := by
  obtain ⟨es, hes, hall⟩ := happ
  refine h.append hes hkeep ?_ (.inl fun e he => (hall e he).1)
  rintro ⟨e, he, hgo⟩
  exact (hall e he).2 hgo

theorem plain_handler (c : Conn) (t : FrameType) (ht : t ∈ handlerFrames) (flags : UInt8)
    (stream : Nat) (payload : Bytes) (_ : payload.length ≤ defaultMaxFrame) :
    c.Plain (.wrote ⟨t, flags, stream, payload⟩) := by
  refine ⟨id, fun hgo => ?_⟩
  obtain rfl : t = .goaway := hgo
  exact absurd ht (by decide)

theorem plain_data (c : Conn) (f : Frame) (hf : f.ftype = .data) : c.Plain (.wrote f) :=
  ⟨id, fun hgo => nomatch hf.symm.trans hgo⟩

theorem Silent.enter (h : c.Silent) : c.enter.Silent :=
  h.plain (appends_enter (plain_handler _) c) fun hsent => (goawaySent_enter c).trans hsent

theorem Silent.take (h : c.Silent) (f : Frame) (rest : Bytes) : (c.take f rest).Silent :=
  h.plain (.single ⟨id, fun hgo => absurd hgo id⟩ rfl) id

theorem Silent.giveUp (h : c.Silent) : c.giveUp.Silent := by
  refine h.plain ?_ fun _ => goawaySent_giveUp c
  have hsent := goawaySent_giveUp c
  unfold Conn.giveUp at hsent ⊢
  split_ifs at hsent ⊢
  · exact .refl c
  · exact .single ⟨id, fun _ => hsent⟩ rfl

theorem plain_goaway {c : Conn} (hsent : c.goawaySent = true) (g : Frame) (_ : g.ftype = .goaway)
    (_ : g.payload.length ≤ defaultMaxFrame) : c.Plain (.wrote g) :=
  ⟨id, fun _ => hsent⟩

theorem Silent.fails {c₁ : Conn} (hf : Fails libs env c f c₁) (h : c.Silent) : c₁.Silent :=
  h.plain (hf.appends (plain_handler c₁) plain_goaway) hf.goawaySent

theorem Silent.handles {c₁ : Conn} {tail : Tail} (hh : Handles libs env c f c₁ tail)
    (h : c.Silent) : c₁.Silent :=
  h.plain (hh.appends (plain_handler c₁) plain_goaway) hh.goawaySent

theorem Silent.flushes {ids : List Nat} (hf : Flushes ids c c') (h : c.Silent) : c'.Silent :=
  h.plain (hf.appends (plain_data c')) fun hsent => hf.kept.goaway.trans hsent

theorem Silent.respond (h : c.Silent) (libs : Libs) (stream status : Nat)
    (headers : List (Str × Str)) (body : Bytes) (method : Str) :
    (c.respond libs stream status headers body method).Silent := by
  have hnote : (c.noteAnswer stream (sentBody method body)).Silent :=
    h.plain (.single ⟨id, fun hgo => absurd hgo id⟩ rfl) id
  have hhead : ((c.noteAnswer stream (sentBody method body)).writeHead libs stream status headers
      body.length).Silent := hnote.plain (.single ⟨id, nofun⟩ rfl) id
  exact hhead.plain (.same (log_updateStream ..)) (Kept.updateStream ..).goaway.trans

theorem Silent.handOver (h : c.Silent) (hno : c.goawaySent = false) (stream : Nat)
    (req : RawRequest) : (c.handOver stream req).Silent := by
  have hnone : ∀ e ∈ [Entry.handed stream req], ¬ e.isGoaway := fun e he => by
    rw [List.mem_singleton.mp he]
    exact id
  refine h.append (l := [.handed stream req]) rfl id ?_ (.inr ⟨hno, hnone⟩)
  rintro ⟨e, he, hgo⟩
  exact absurd hgo (hnone e he)

theorem Silent.dispatches {stream : Nat} (hd : Dispatches libs env stream c c') (h : c.Silent)
    (hok : ∀ s, c.streams.get? stream = some s → ready s = true → ¬ Invalid s →
      c.goawaySent = false) : c'.Silent := by
  cases hd with
  | notReady => exact h
  | rejected =>
    exact h.plain (.single (plain_handler _ _ (by decide) _ _ _ (short_be32 _)) rfl) id
  | @pending s hs hr hgood ho =>
    have hgiven := h.handOver (hok s hs hr hgood) stream (requestOf s)
    exact hgiven.plain (.same (log_updateStream ..)) (Kept.updateStream ..).goaway.trans
  | @answered s status headers body c' hs hr hgood ho hf =>
    have hgiven := h.handOver (hok s hs hr hgood) stream (requestOf s)
    exact (hgiven.respond libs stream _ _ _ _).flushes hf

theorem phase_enter (c : Conn) :
    c.enter.phase = c.phase ∨ c.phase = .preface ∧ c.enter.phase = .active := by
  unfold enter
  split_ifs with hp
  · exact .inr ⟨hp, rfl⟩
  · exact .inl rfl

/-- **What a step does to the phase**: it ends the connection, or it is one of the three errors, or
the connection is as far as before. -/
theorem Steps.phase_cases {e : Event} (hs : Steps libs c e c') :
    c'.phase = .done ∨ (c.GoesOn e ∧ c'.phase = .goingAway) ∨ (c'.goawaySent = c.goawaySent ∧
        (c'.phase = c.phase ∨ c.phase = .preface ∧ c'.phase = .active)) := by
  have same {c c' : Conn} (hk : Kept c c') : c'.goawaySent = c.goawaySent ∧
      (c'.phase = c.phase ∨ c.phase = .preface ∧ c'.phase = .active) := ⟨hk.goaway, .inl hk.phase⟩
  cases hs with
  | still => exact .inr (.inr (same (.refl c)))
  | arrive => exact .inr (.inr ⟨rfl, .inl rfl⟩)
  | waits => exact .inr (.inr ⟨goawaySent_enter c, phase_enter c⟩)
  | badPreface | tooLarge | failed | idled | ioFailed | settled => exact .inl rfl
  | @frame env f rest c₁ _ tail hp hf hh hl =>
    have htail : ∀ why, tail ≠ .error why := by
      rintro why rfl
      cases hl
    obtain ⟨hphase, hsent⟩ | ⟨rfl, code, hbreaks, rfl⟩ := hh.remains htail
    · refine .inr (.inr ⟨hl.kept.goaway.trans (hsent.trans (goawaySent_take_enter c f rest)), ?_⟩)
      rw [hl.kept.phase, hphase]
      exact phase_enter c
    · cases hl
      exact .inr (.inl ⟨⟨f, rest, code, hf, hbreaks⟩, rfl⟩)
  | answered hp hs hm hf => exact .inr (.inr (same ((Kept.answerWith ..).trans hf.kept)))
  | flushed hf => exact .inr (.inr (same hf.kept))

theorem Steps.parting {e : Event} (hs : Steps libs c e c') (h : c.Parting) : c'.Parting := by
  intro hsent
  obtain hdone | ⟨-, haway⟩ | ⟨hsame, hphase⟩ := hs.phase_cases
  · exact .inr hdone
  · exact .inl haway
  · have hbefore := h (hsame.symm.trans hsent)
    obtain hphase | ⟨hpreface, -⟩ := hphase
    · rwa [hphase]
    · rw [hpreface] at hbefore
      rcases hbefore with hbefore | hbefore
      · cases hbefore
      · cases hbefore

/-- Only one of the three errors lets a connection go away. -/
theorem Steps.goingAway {e : Event} (hs : Steps libs c e c') (h : c'.phase = .goingAway) :
    c.phase = .goingAway ∨ c.GoesOn e := by
  obtain hdone | ⟨hon, -⟩ | ⟨-, hphase | ⟨-, hactive⟩⟩ := hs.phase_cases
  · exact nomatch hdone.symm.trans h
  · exact .inr hon
  · exact .inl (hphase.symm.trans h)
  · exact nomatch hactive.symm.trans h

/-- **One step** hands nothing over after GOAWAY, unless the connection goes away and a frame
completes a request. -/
theorem Steps.silent {e : Event} (hs : Steps libs c e c') (h : c.Silent)
    (hpart : c.Parting) (hok : c.phase = .goingAway → ¬ c.CompletesRequest libs e) : c'.Silent := by
  cases hs with
  | still => exact h
  | arrive | ioFailed | settled => exact { h with }
  | waits => exact h.enter
  | badPreface => exact h.giveUp
  | tooLarge =>
    have herr : (c.enter.connectionError errFrameSize).Silent :=
      h.enter.plain (.single ⟨id, fun _ => rfl⟩ rfl) fun _ => rfl
    exact herr.giveUp
  | @frame env f rest c₁ _ tail hp hf hh hl =>
    have hc₁ := (h.enter.take f rest).handles hh
    cases hl with
    | ok => exact hc₁
    | flush hflush => exact hc₁.flushes hflush
    | dispatch hd =>
      refine hc₁.dispatches hd fun s hs hr hgood => ?_
      obtain ⟨rfl, s', hcomp, hs'⟩ := hh.completes
      cases hs.symm.trans hs'
      have hno : c.goawaySent = false := Bool.eq_false_iff.mpr fun hsent =>
        hok ((hpart hsent).resolve_right hp) ⟨f, rest, s, hf, hcomp, hr, hgood⟩
      obtain ⟨-, hsame⟩ | ⟨htail, -⟩ := hh.remains fun _ h => by cases h
      · exact (hsame.trans (goawaySent_take_enter c f rest)).trans hno
      · cases htail
  | failed _ _ hh => exact ((h.enter.take _ _).fails hh).giveUp
  | @answered env stream status headers body s method c' hp hs hm hf =>
    have hset : (c.setStream stream { s with pending := none }).Silent := { h with }
    exact (hset.respond libs stream status headers body method).flushes hf
  | flushed hf => exact h.flushes hf
  | idled => exact h.plain (.single ⟨id, fun _ => rfl⟩ rfl) fun _ => rfl

end Conn

/-- **After GOAWAY nothing is handed over**, in every state of a run, as long as none of the errors
after which the loop goes on is followed by a frame that completes a request. -/
theorem silent_of_steps (libs : Libs) (events : List Event)
    (h : EachStepAfter (Conn.step libs) Conn.GoesOn (fun c e => ¬ c.CompletesRequest libs e) False
      Conn.new events) : Throughout (Conn.step libs) Conn.SilentAfterGoaway Conn.new events := by
  have hsteps := h.eachStep (I := Conn.Sound) (J := fun c => c.phase = .goingAway)
    (fun c e c' hc hstep => ⟨(Conn.step_steps hc hstep).sound hc,
      (Conn.step_steps hc hstep).goingAway⟩) .new nofun
  refine Conn.throughout_kept_of libs (I := fun c => c.Silent ∧ c.Parting)
    (fun c e c' _ hc hok hs => ⟨hs.silent hc.1 hc.2 hok, hs.parting hc.2⟩) (fun _ _ hc => hc.1.log)
    ⟨⟨List.Pairwise.nil, ?_⟩, nofun⟩ events hsteps
  exact fun ⟨_, he, _⟩ => absurd he List.not_mem_nil

def errorThenPost : Bytes :=
  clientPreface ++ [0, 0, 4, 8, 0, 0, 0, 0, 0, 0, 0, 0, 0] ++
    postFrame (flagEndStream ||| flagEndHeaders) 1

/-- A WINDOW_UPDATE of nothing ends the loop, with a request left to read. -/
theorem silent_of_steps_update : Throughout (Conn.step postLibs) Conn.SilentAfterGoaway Conn.new
      [.arrive errorThenPost, .frame plainEnv, .frame plainEnv] := by
  refine silent_of_steps postLibs _
    (.cons False.elim rfl ⟨fun h => ?_, fun c hc => ⟨?_, fun _ _ => trivial⟩⟩)
  · exact (h.elim id id).elim
  · rintro (h | ⟨f, rest, code, hf, hbreaks⟩)
    · exact (h.elim id id).elim
    · have hnext : ({ Conn.new with recvBuf := errorThenPost } : Conn).nextFrame =
          some (⟨.windowUpdate, 0, 0, [0, 0, 0, 0]⟩,
            postFrame (flagEndStream ||| flagEndHeaders) 1) := by decide
      cases hnext.symm.trans hf
      cases hbreaks with
      | shape h | state _ _ h | backwards _ h => cases h

theorem request_after_goaway : ¬ Throughout (Conn.step postLibs) Conn.SilentAfterGoaway Conn.new
      [.arrive (clientPreface ++ [0, 0, 0, 0, 0, 0, 0, 0, 1] ++
          postFrame (flagEndStream ||| flagEndHeaders) 1), .frame plainEnv, .frame plainEnv] := by
  intro h
  have hlast := ((h.2 _ rfl).2 _ rfl).2 _ rfl
  -- GOAWAY is the third entry, and the fifth is the request
  have hno := List.pairwise_iff_getElem.mp hlast 2 4 (by decide) (by decide) (by decide) rfl
  exact hno trivial

end M6.Http2
