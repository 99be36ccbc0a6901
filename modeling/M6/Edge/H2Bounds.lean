import M6.Edge.H2Steps

/-!
# What an HTTP/2 connection can hold

Whatever the client does, a connection has so many streams, remembers so many that are gone, and
buffers so much of a header block and of each body (`WithinBounds`). A stream is let in only where
there is room, a memory that is full drops its oldest record, and a part that would take a header
block or a body too far ends the connection or the stream.
-/

namespace M6.Http2

open Runs SortedMap

namespace Conn

/-- **The bounds of a connection.** -/
structure WithinBounds (c : Conn) : Prop where
  streams : c.streams.entries.length ≤ maxConcurrent
  reset : c.recentlyReset.length ≤ resetMemory
  closed : c.closedWindows.length ≤ resetMemory
  block : c.headerBlockBuf.length ≤ maxHeaderBlock
  /-- nothing is buffered unless a CONTINUATION frame is to come -/
  waiting : c.continuationStreamId = none → c.headerBlockBuf = []
  bodies : ∀ id s, c.streams.get? id = some s → s.body.length ≤ maxH2Body

namespace WithinBounds

variable {libs : Libs} {env : Env} {c c' : Conn} {f : Frame}

theorem new : Conn.new.WithinBounds where
  streams := Nat.zero_le _
  reset := Nat.zero_le _
  closed := Nat.zero_le _
  block := Nat.zero_le _
  waiting := fun _ => rfl
  bodies := nofun

theorem follows (h : c.WithinBounds) (hk : Kept c c') (hf : Follows c c') : c'.WithinBounds where
  streams := by
    refine le_trans (length_le_of_keys fun id s' hs' => ?_) h.streams
    obtain ⟨s, hs, -⟩ := hf.streams id s' hs'
    exact ⟨s, hs⟩
  reset := hk.reset ▸ h.reset
  closed := hf.closed h.closed
  block := hk.block ▸ h.block
  waiting := by
    rw [hk.continuation, hk.block]
    exact h.waiting
  bodies := fun id s' hs' => by
    obtain ⟨s, hs, hin⟩ := hf.streams id s' hs'
    rw [hin.body]
    exact h.bodies id s hs

theorem removeStream (h : c.WithinBounds) (stream : Nat) : (c.removeStream stream).WithinBounds :=
  h.follows (.removeStream c stream) (.removeStream c stream)

theorem resetStream (h : c.WithinBounds) (stream code : Nat) :
    (c.resetStream stream code).WithinBounds :=
  h.follows (.resetStream ..) (.resetStream ..)

theorem noteReset (h : c.WithinBounds) (now stream : Nat) : (c.noteReset now stream).WithinBounds :=
  { h with reset := length_remember h.reset _ }

theorem setStream (h : c.WithinBounds) {stream : Nat} {s s' : Stream}
    (hs : c.streams.get? stream = some s) (hbody : s'.body.length ≤ maxH2Body) :
    (c.setStream stream s').WithinBounds :=
  { h with
    streams := (length_insert_of_get? hs s').trans h.streams
    bodies := fun id s₁ hs₁ => by
      change (c.streams.insert stream s').get? id = some s₁ at hs₁
      rw [get?_insert] at hs₁
      split_ifs at hs₁
      · cases hs₁
        exact hbody
      · exact h.bodies id s₁ hs₁ }

theorem grant (h : c.WithinBounds) (stream : Nat)
    (inc : Int) : (c.grant stream inc).WithinBounds := by
  rw [grant_eq]
  exact { h with }

theorem charged (h : c.WithinBounds) (w inc : Int) : (c.charged w inc).WithinBounds := by
  rw [charged_eq]
  exact { h with }

theorem configureAll (h : c.WithinBounds) (pairs : List (Nat × Nat)) :
    (c.configureAll pairs).WithinBounds :=
  { h with
    streams := by
      change (c.streams.map _).entries.length ≤ _
      refine le_trans (length_le_of_keys fun id s' hs' => ?_) h.streams
      obtain ⟨s, hs, -⟩ := Option.map_eq_some_iff.mp ((get?_map ..).symm.trans hs')
      exact ⟨s, hs⟩
    bodies := fun id s' hs' => by
      obtain ⟨s, hs, rfl⟩ := Option.map_eq_some_iff.mp ((get?_map ..).symm.trans hs')
      exact h.bodies id s hs }

theorem entered (h : c.WithinBounds) (ha : Admitted env c f) : (c.entered f).WithinBounds := by
  cases hs : c.streams.get? f.stream with
  | some s =>
    have hs' : (c.letIn f.stream).streams.get? f.stream = some s := hs
    have hadmit : (c.letIn f.stream).WithinBounds := { h with }
    have hbody := h.bodies f.stream s hs
    rw [Conn.entered, enterStream, hs']
    refine hadmit.setStream hs' ?_
    split_ifs
    · exact hbody
    · exact hbody
  | none =>
    have hroom := ha.room
    have hnew := length_insert_le c.streams f.stream
    refine { h with streams := ?_, bodies := fun id s' hs' => ?_ }
    · refine le_trans (hnew _) ?_
      rw [activeStreams] at hroom
      omega
    · rw [Conn.entered, enterStream, Conn.setStream] at hs'
      dsimp only at hs'
      rw [get?_insert] at hs'
      split_ifs at hs' with _ hend
      all_goals
        first
          | exact h.bodies id s' hs'
          | cases hs'
            rw [show (c.letIn f.stream).streams.get? f.stream = none from hs]
            exact Nat.zero_le _

theorem decoded (h : c.WithinBounds) (block : Bytes) :
    (c.blockDone.decoded libs block).WithinBounds :=
  { h with
    block := Nat.zero_le _
    waiting := fun _ => rfl }

theorem blockDone (h : c.WithinBounds) : c.blockDone.WithinBounds :=
  { h with
    block := Nat.zero_le _
    waiting := fun _ => rfl }

theorem addFields (h : c.WithinBounds) (stream : Nat) (fields : List (Str × Str)) :
    (c.addFields stream fields).WithinBounds := by
  rw [Conn.addFields, updateStream]
  cases hs : c.streams.get? stream with
  | none => exact h
  | some s => exact h.setStream hs (h.bodies stream s hs)

theorem fails {c₁ : Conn} (hf : Fails libs env c f c₁) (h : c.WithinBounds) : c₁.WithinBounds := by
  cases hf with
  | same => exact h
  | connection | malformedHeaders | shortHeaders => exact { h with }
  | flood => exact { h.noteReset env.now f.stream with }
  | longHeaders ha => exact { h.entered ha with }
  | invalidHeaders ha => exact { (h.entered ha).blockDone with }
  | undecodableHeaders ha block => exact (h.entered ha).decoded block
  | invalidContinuation => exact { h.blockDone with }
  | undecodableContinuation block => exact h.decoded block
  | settings => exact h.configureAll _

/-- **One frame.** -/
theorem handles {c₁ : Conn} {tail : Tail} (hh : Handles libs env c f c₁ tail) (h : c.WithinBounds) :
    c₁.WithinBounds := by
  cases hh with
  | failed why hf => exact h.fails hf
  | nothing | uncredited => exact h
  | connectionError | ping | goaway | connCredit | refusedLate | selfDependent => exact { h with }
  | illegal => exact h.resetStream ..
  | reset => exact (h.resetStream ..).noteReset ..
  | rstStream => exact { (h.removeStream f.stream).noteReset env.now f.stream with }
  | settings => exact { h.configureAll _ with }
  | streamCredit _ _ _ _ _ hs =>
    have hbody := h.bodies _ _ hs
    exact h.setStream hs hbody
  | closedOverflow =>
    refine { h.noteReset env.now f.stream with closed := ?_ }
    exact (List.length_eraseP_le ..).trans h.closed
  | closedCredit =>
    refine { h with closed := ?_ }
    exact (List.length_replaceF ..).trans_le h.closed
  | overCap => exact (h.charged ..).resetStream ..
  | @data s first last w inc w' inc' tail ha hf hid hs hcut hw hcap =>
    have hs' : (c.charged w inc).streams.get? f.stream = some s := by
      rw [streams_charged]
      exact hs
    have hbody : (takeData s f.flags ((f.payload.take last).drop first) w').body.length ≤
        maxH2Body := by
      rw [takeData, List.length_append]
      exact hcap
    exact ((h.charged w inc).setStream hs' hbody).grant f.stream inc'
  | refusedBusy => exact { h.noteReset env.now f.stream with }
  | headersPart ha _ _ _ hlen =>
    exact { h.entered ha with
      block := by
        change (c.headerBlockBuf ++ _).length ≤ _
        rw [List.length_append]
        exact hlen
      waiting := nofun }
  | trailersRejected ha => exact ((h.entered ha).decoded _).resetStream ..
  | headers ha => exact ((h.entered ha).decoded _).addFields ..
  | continuationPart ha _ hlen =>
    exact { h with
      block := by
        change (c.headerBlockBuf ++ _).length ≤ _
        rw [List.length_append]
        exact hlen
      waiting := fun hw => nomatch ha.awaited.symm.trans hw }
  | continuationGone => exact h.blockDone
  | continuation => exact (h.decoded _).addFields ..

theorem enter (h : c.WithinBounds) : c.enter.WithinBounds := by
  unfold Conn.enter
  split_ifs
  · exact { h with }
  · exact h

theorem giveUp (h : c.WithinBounds) : c.giveUp.WithinBounds := by
  unfold Conn.giveUp
  split_ifs
  · exact { h with }
  · exact { h with }

/-- **One step.** -/
theorem steps {e : Event} (hs : Steps libs c e c') (h : c.WithinBounds) : c'.WithinBounds := by
  have take (f : Frame) (rest : Bytes) : (c.enter.take f rest).WithinBounds := { h.enter with }
  cases hs with
  | still => exact h
  | arrive | idled | ioFailed | settled => exact { h with }
  | waits => exact h.enter
  | badPreface => exact h.giveUp
  | tooLarge =>
    have herr : (c.enter.connectionError errFrameSize).WithinBounds := { h.enter with }
    exact herr.giveUp
  | frame _ _ hh hl => exact ((take _ _).handles hh).follows hl.kept hl.follows
  | failed _ _ hh => exact ((take _ _).fails hh).giveUp
  | answered _ hs _ hf =>
    exact h.follows ((Kept.answerWith ..).trans hf.kept)
      ((Follows.answerWith libs hs ..).trans hf.follows)
  | flushed hf => exact h.follows hf.kept hf.follows

end WithinBounds

end Conn

/-- **A connection stays within its bounds** in every state of every run, whatever comes. -/
theorem within_bounds (libs : Libs) (events : List Event) :
    Throughout (Conn.step libs) Conn.WithinBounds Conn.new events :=
  Conn.throughout_kept libs (fun _ _ _ _ hc hs => hc.steps hs) (fun _ _ hc => hc) .new events

end M6.Http2
