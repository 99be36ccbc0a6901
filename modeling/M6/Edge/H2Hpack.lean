import M6.Edge.H2Streams

/-!
# The header blocks that the HTTP/2 server decodes

The decoder keeps a table for the whole connection, so it must see every header block that comes,
once and in order. What comes is assembled here from the frames that were taken alone (`Assembler`),
whatever became of their streams, and compared with what the decoder was asked to do.

The two agree as long as no frame completes a block that is not decoded (`SkipsBlock`), and no
SETTINGS frame makes the table smaller than was announced (`ShrinksTable`): `synchronised_of_steps`.
-/

namespace M6.Http2

open List Runs

/-! ## What comes -/

def fragment (flags : UInt8) (payload : Bytes) : Option Bytes :=
  if Conn.blockStart flags + Conn.padLength flags payload ≤ payload.length then
    some ((payload.take (payload.length - Conn.padLength flags payload)).drop
      (Conn.blockStart flags))
  else none

/-- The header blocks of some frames. -/
structure Assembler where
  complete : List Bytes
  /-- one that is not, and its stream -/
  pending : Option (Nat × Bytes)

def Assembler.add (a : Assembler) (stream : Nat) (flags : UInt8) (block : Bytes) : Assembler :=
  if has flags flagEndHeaders then ⟨a.complete ++ [block], none⟩
  else ⟨a.complete, some (stream, block)⟩

/-- A header block is given up when anything else comes. -/
def Assembler.drop (a : Assembler) : Assembler := ⟨a.complete, none⟩

def Assembler.take (a : Assembler) (f : Frame) : Assembler :=
  if f.ftype = .headers then
    match fragment f.flags f.payload with
    | some block => a.add f.stream f.flags block
    | none => a.drop
  else if f.ftype = .continuation then
    match a.pending with
    | some (stream, block) =>
      if stream = f.stream then a.add f.stream f.flags (block ++ f.payload) else a.drop
    | none => a.drop
  else a.drop

def received (log : List Entry) : Assembler := (tookFrames log).foldl Assembler.take ⟨[], none⟩

theorem received_took (log : List Entry) (f : Frame) :
    received (log ++ [.took f]) = (received log).take f := by
  rw [received, tookFrames, filterMap_append, foldl_append]
  rfl

theorem received_same {log es : List Entry} (h : ∀ e ∈ es, ∀ f, e ≠ .took f) :
    received (log ++ es) = received log := by
  have hnone : tookFrames es = [] := by
    refine filterMap_eq_nil_iff.mpr fun e he => ?_
    cases e with
    | took f => exact absurd rfl (h _ he f)
    | wrote | handed | answered => rfl
  rw [received, tookFrames, filterMap_append]
  change ((tookFrames log ++ tookFrames es).foldl Assembler.take ⟨[], none⟩) = _
  rw [hnone, append_nil]
  rfl

theorem received_response {log es : List Entry} (h : ∀ e ∈ es, Conn.ofResponse e) :
    received (log ++ es) = received log :=
  received_same fun e he f hf => by
    subst hf
    exact h _ he

theorem received_handler {log es : List Entry} (h : ∀ e ∈ es, Conn.ofHandler e) :
    received (log ++ es) = received log :=
  received_same fun e he f hf => by
    subst hf
    exact h _ he

/-! ## What is decoded -/

def DecoderOp.block? : DecoderOp → Option Bytes
  | .decode block => some block
  | .setMaxTableSize _ => none

namespace Conn

/-- **The decoder agrees with what came**: it was given the header blocks that are complete, and its
table was set to the size that was announced, if at all. -/
def Synchronised (c : Conn) : Prop :=
  c.goawaySent = false →
    c.hpackDec.filterMap DecoderOp.block? = (received c.log).complete ∧
      ∀ n, DecoderOp.setMaxTableSize n ∈ c.hpackDec → n = hpackMaxTableSize

def RefusesHeaders (env : Env) (c : Conn) (f : Frame) : Prop :=
  (∃ code, c.frameVerdict .headers f.stream = .streamError code) ∨
    (c.frameVerdict .headers f.stream = .allow ∧ f.stream % 2 = 1 ∧
      ((c.peerGoaway = true ∧ c.streams.get? f.stream = none) ∨
        (c.activeStreams env.now ≥ maxConcurrent ∧ c.refusedStreak + 1 < maxRefusedStreak) ∨
        (c.activeStreams env.now < maxConcurrent ∧
          cutHeaders f.stream f.flags f.payload = .selfDependent)))

/-- A frame that completes a header block that is not decoded: the HEADERS frame is refused, or the
stream is gone when the last CONTINUATION frame comes. -/
def SkipsBlock (env : Env) (c : Conn) (f : Frame) : Prop :=
  has f.flags flagEndHeaders = true ∧
    ((f.ftype = .headers ∧ fragment f.flags f.payload ≠ none ∧ c.continuationStreamId = none ∧
        c.RefusesHeaders env f) ∨
      (f.ftype = .continuation ∧ c.continuationStreamId = some f.stream ∧
        c.streams.get? f.stream = none ∧
        c.headerBlockBuf.length + f.payload.length ≤ maxHeaderBlock ∧
        validateHpackBlock (c.headerBlockBuf ++ f.payload) hpackMaxTableSize = .ok ()))

def ShrinksTable (c : Conn) (f : Frame) : Prop :=
  f.ftype = .settings ∧ has f.flags flagAck = false ∧ c.continuationStreamId = none ∧
    (settingsPairs f.payload).all acceptable = true ∧
    (¬ ∃ val ∈ windowsSet (settingsPairs f.payload), c.Raises val) ∧
    ∃ p ∈ settingsPairs f.payload, p.1 = 0x1 ∧ p.2 < hpackMaxTableSize

/-- A step after which the decoder no longer agrees with what came. -/
def Desynchronises (c : Conn) : Event → Prop
  | .frame env => c.goawaySent = false ∧
      ∃ f rest, c.nextFrame = some (f, rest) ∧ (c.SkipsBlock env f ∨ c.ShrinksTable f)
  | _ => False

/-- What a connection keeps: a header block that is not complete is the one that was assembled. -/
structure Assembled (c : Conn) (a : Assembler) : Prop where
  blocks : c.hpackDec.filterMap DecoderOp.block? = a.complete
  table : ∀ n, DecoderOp.setMaxTableSize n ∈ c.hpackDec → n = hpackMaxTableSize
  awaited : ∀ stream, c.continuationStreamId = some stream →
    a.pending = some (stream, c.headerBlockBuf)
  empty : c.continuationStreamId = none → c.headerBlockBuf = []

variable {libs : Libs} {env : Env} {c c' : Conn} {f : Frame} {a : Assembler}

theorem Assembled.kept (h : c.Assembled a) (hk : Kept c c') : c'.Assembled a where
  blocks := hk.decoder ▸ h.blocks
  table := hk.decoder ▸ h.table
  awaited := by rw [hk.continuation, hk.block]; exact h.awaited
  empty := by rw [hk.continuation, hk.block]; exact h.empty

theorem Assembled.grant (h : c.Assembled a) {stream : Nat} {inc : Int} :
    (c.grant stream inc).Assembled a := by
  unfold Conn.grant
  split_ifs
  · exact { h with }
  · exact h

theorem Assembled.charged (h : c.Assembled a) {w inc : Int} : (c.charged w inc).Assembled a :=
  Assembled.grant (c := c.setConnRecvWindow w) { h with }

theorem Assembled.same {a' : Assembler} (h : c.Assembled a) (hout : c.continuationStreamId = none)
    (hcomplete : a'.complete = a.complete) : c.Assembled a' :=
  { h with
    blocks := hcomplete ▸ h.blocks
    awaited := fun _ hs => nomatch hout.symm.trans hs }

theorem complete_take_other (hh : f.ftype ≠ .headers) (hc : f.ftype ≠ .continuation) :
    (a.take f).complete = a.complete := by
  rw [Assembler.take, if_neg hh, if_neg hc]
  rfl

theorem take_headers (hf : f.ftype = .headers) {block : Bytes}
    (hb : fragment f.flags f.payload = some block) : a.take f = a.add f.stream f.flags block := by
  rw [Assembler.take, if_pos hf, hb]

theorem complete_take_headers (hf : f.ftype = .headers)
    (h : has f.flags flagEndHeaders = true → fragment f.flags f.payload = none) :
    (a.take f).complete = a.complete := by
  cases hb : fragment f.flags f.payload with
  | none =>
    rw [Assembler.take, if_pos hf, hb]
    rfl
  | some block =>
    have hend : ¬ has f.flags flagEndHeaders = true := fun hend => nomatch hb.symm.trans (h hend)
    rw [take_headers hf hb, Assembler.add, if_neg hend]

theorem take_continuation (hf : f.ftype = .continuation) {block : Bytes}
    (hp : a.pending = some (f.stream, block)) :
    a.take f = a.add f.stream f.flags (block ++ f.payload) := by
  rw [Assembler.take, if_neg (by rw [hf]; decide), if_pos hf, hp]
  dsimp only
  rw [if_pos rfl]

theorem fragment_cut {stream first last : Nat} {flags : UInt8} {payload : Bytes}
    (h : cutHeaders stream flags payload = .block first last) :
    fragment flags payload = some ((payload.take last).drop first) := by
  obtain ⟨rfl, rfl, hpad⟩ := cutHeaders_block h
  exact if_pos hpad

theorem blocks_tableSize (pairs : List (Nat × Nat)) :
    (pairs.flatMap tableSize).filterMap DecoderOp.block? = [] := by
  refine filterMap_eq_nil_iff.mpr fun op hop => ?_
  obtain ⟨p, -, hp⟩ := mem_flatMap.mp hop
  unfold tableSize at hp
  split_ifs at hp
  · rw [mem_singleton.mp hp]
    rfl
  · exact absurd hp not_mem_nil

theorem Assembled.configureAll (h : c.Assembled a) {pairs : List (Nat × Nat)}
    (hno : ¬ ∃ p ∈ pairs, p.1 = 0x1 ∧ p.2 < hpackMaxTableSize) :
    (c.configureAll pairs).Assembled a where
  blocks := by
    change (c.hpackDec ++ pairs.flatMap tableSize).filterMap DecoderOp.block? = _
    rw [filterMap_append, blocks_tableSize, append_nil]
    exact h.blocks
  table := fun n hn => by
    rcases mem_append.mp hn with hn | hn
    · exact h.table n hn
    · obtain ⟨p, hp, hop⟩ := mem_flatMap.mp hn
      unfold tableSize at hop
      split_ifs at hop with hid
      · cases mem_singleton.mp hop
        exact min_eq_right (not_lt.mp fun hlt => hno ⟨p, hp, hid, hlt⟩)
      · exact absurd hop not_mem_nil
  awaited := h.awaited
  empty := h.empty

theorem Assembled.decoded (h : c.Assembled a) (libs : Libs) (stream : Nat) {flags : UInt8}
    (hend : has flags flagEndHeaders = true) (block : Bytes) :
    (c.blockDone.decoded libs block).Assembled (a.add stream flags block) where
  blocks := by
    change (c.hpackDec ++ [DecoderOp.decode block]).filterMap DecoderOp.block? = _
    rw [filterMap_append, h.blocks, Assembler.add, if_pos hend]
    rfl
  table := fun n hn => by
    rcases mem_append.mp hn with hn | hn
    · exact h.table n hn
    · cases mem_singleton.mp hn
  awaited := fun _ hs => nomatch hs
  empty := fun _ => rfl

/-- A block in one frame. -/
theorem Assembled.wholeBlock (h : c.Assembled a) (libs : Libs) (ha : Admitted env c f)
    {first last : Nat} {block : Bytes} (hcut : cutHeaders f.stream f.flags f.payload =
      .block first last) (hblock : block = c.headerBlockBuf ++ (f.payload.take last).drop first)
    (hend : has f.flags flagEndHeaders = true) :
    ((c.entered f).blockDone.decoded libs block).Assembled (a.take f) := by
  rw [h.empty ha.outside] at hblock
  rw [take_headers ha.headers (fragment_cut hcut),
    show (f.payload.take _).drop _ = _ from hblock.symm]
  exact Assembled.decoded (c := c.entered f) { h with } libs f.stream hend _

/-- **One frame**: as long as the connection goes on, the decoder agrees with what came, the frame
included. -/
theorem Handles.assembled {c₁ : Conn} {tail : Tail} (hh : Handles libs env c f c₁ tail)
    (h : c.Assembled a) (hskip : ¬ c.SkipsBlock env f) (hshrink : ¬ c.ShrinksTable f)
    (htail : ∀ why, tail ≠ .error why) (hgo : c₁.goawaySent = false) : c₁.Assembled (a.take f) := by
  -- a HEADERS frame that is refused does not complete a block, or it would be skipped
  have refused (hf : f.ftype = .headers) (hout : c.continuationStreamId = none)
      (hr : c.RefusesHeaders env f) : (a.take f).complete = a.complete :=
    complete_take_headers hf fun hend => by
      by_contra hfrag
      exact hskip ⟨hend, .inl ⟨hf, hfrag, hout, hr⟩⟩
  have other (hh : f.ftype ≠ .headers) (hc : f.ftype ≠ .continuation)
      (hout : c.continuationStreamId = none) : c.Assembled (a.take f) :=
    h.same hout (complete_take_other hh hc)
  cases hh with
  | failed why => exact absurd rfl (htail why)
  | nothing hout hf =>
    rcases hf with hf | hf | hf | ⟨code, hf⟩
    all_goals exact other (by rw [hf]; nofun) (by rw [hf]; nofun) hout
  | connectionError code => exact nomatch hgo
  | illegal code hout _ hstate hcont =>
    refine Assembled.kept (c := c) ?_ (.resetStream ..)
    by_cases hf : f.ftype = .headers
    · exact h.same hout (refused hf hout (.inl ⟨code, hf ▸ hstate⟩))
    · exact other hf hcont hout
  | reset code hout hf =>
    have hk : Kept c (c.resetStream f.stream code) := .resetStream ..
    rcases hf with hp | hw
    · have ha := (other (by rw [hp.priority]; nofun) (by rw [hp.priority]; nofun) hout).kept hk
      exact { ha with }
    · have ha := (other (by rw [hw.windowUpdate]; nofun) (by rw [hw.windowUpdate]; nofun)
        hout).kept hk
      exact { ha with }
  | rstStream ha hf | ping ha hf | goaway ha hf | connCredit ha hf | streamCredit ha hf
  | closedOverflow ha hf | closedCredit ha hf =>
    exact { other (by rw [hf]; nofun) (by rw [hf]; nofun) ha.outside with }
  | settings ha hf hflags hall hno =>
    have hset : ¬ ∃ p ∈ settingsPairs f.payload, p.1 = 0x1 ∧ p.2 < hpackMaxTableSize :=
      fun hp => hshrink ⟨hf, hflags, ha.outside, hall, hno, hp⟩
    exact { (other (by rw [hf]; nofun) (by rw [hf]; nofun) ha.outside).configureAll hset with }
  | uncredited ha hf => exact other (by rw [hf]; nofun) (by rw [hf]; nofun) ha.outside
  | overCap ha hf =>
    refine Assembled.kept (c := charged ..) ?_ (.resetStream ..)
    exact (other (by rw [hf]; nofun) (by rw [hf]; nofun) ha.outside).charged
  | data ha hf =>
    exact ((other (by rw [hf]; nofun) (by rw [hf]; nofun) ha.outside).charged.kept
      (.setStream ..)).grant
  | refusedLate ha hf hodd hpeer hs =>
    have hr : c.RefusesHeaders env f := .inr ⟨hf ▸ ha.state, hodd, .inl ⟨hpeer, hs⟩⟩
    exact { h.same ha.outside (refused hf ha.outside hr) with }
  | refusedBusy ha hf hodd _ _ hbusy hstreak =>
    have hr : c.RefusesHeaders env f := .inr ⟨hf ▸ ha.state, hodd, .inr (.inl ⟨hbusy, hstreak⟩)⟩
    exact { h.same ha.outside (refused hf ha.outside hr) with }
  | selfDependent ha hcut =>
    have hr : c.RefusesHeaders env f :=
      .inr ⟨ha.headers ▸ ha.state, ha.odd, .inr (.inr ⟨ha.room, hcut⟩)⟩
    exact { h.same ha.outside (refused ha.headers ha.outside hr) with }
  | headersPart ha hcut hblock hend =>
    rw [take_headers ha.headers (fragment_cut hcut), Assembler.add,
      if_neg (by rw [hend]; exact Bool.false_ne_true), ← hblock]
    exact {
      blocks := h.blocks
      table := h.table
      awaited := fun stream hs => by
        obtain rfl : f.stream = stream := Option.some.inj hs
        change some (f.stream, _) = some (f.stream, c.headerBlockBuf ++ _)
        rw [h.empty ha.outside]
        rfl
      empty := fun hs => nomatch hs }
  | trailersRejected ha hcut hblock hend =>
    refine Assembled.kept (c := decoded ..) ?_ (.resetStream ..)
    exact h.wholeBlock libs ha hcut hblock hend
  | headers ha hcut hblock hend =>
    refine Assembled.kept (c := decoded ..) ?_ (.updateStream ..)
    exact h.wholeBlock libs ha hcut hblock hend
  | continuationPart ha hend =>
    rw [take_continuation ha.continuation (h.awaited _ ha.awaited), Assembler.add,
      if_neg (by rw [hend]; exact Bool.false_ne_true)]
    exact {
      blocks := h.blocks
      table := h.table
      awaited := fun stream hs => by
        obtain rfl : f.stream = stream := Option.some.inj (ha.awaited.symm.trans hs)
        rfl
      empty := fun hs => nomatch ha.awaited.symm.trans hs }
  | continuationGone ha hend hlen hvalid hs =>
    exact absurd ⟨hend, .inr ⟨ha.continuation, ha.awaited, hs, hlen, hvalid⟩⟩ hskip
  | continuation ha hend =>
    rw [take_continuation ha.continuation (h.awaited _ ha.awaited)]
    refine Assembled.kept (c := decoded ..) ?_ (.updateStream ..)
    exact h.decoded libs f.stream hend _

/-! ## Runs -/

/-- What a connection keeps as long as it goes on. -/
def InStep (c : Conn) : Prop := c.goawaySent = false → c.Assembled (received c.log)

theorem InStep.synchronised (h : c.InStep) : c.Synchronised := fun hgo =>
  ⟨(h hgo).blocks, (h hgo).table⟩

theorem InStep.kept (h : c.InStep) (hk : Kept c c') : c'.InStep := by
  intro hgo
  obtain ⟨es, hes, hall⟩ := hk.log
  rw [hes, received_response hall]
  exact (h (hk.goaway ▸ hgo)).kept hk

theorem skipsBlock_take {rest : Bytes} :
    (c.enter.take f rest).SkipsBlock env f ↔ c.SkipsBlock env f := by
  unfold enter
  split_ifs
  · exact Iff.rfl
  · exact Iff.rfl

theorem shrinksTable_take {rest : Bytes} :
    (c.enter.take f rest).ShrinksTable f ↔ c.ShrinksTable f := by
  unfold enter
  split_ifs
  · exact Iff.rfl
  · exact Iff.rfl

theorem InStep.enter (h : c.InStep) : c.enter.InStep := by
  obtain ⟨es, hes, hall⟩ : Appends ofHandler c c.enter := ofHandler_enter c
  have hkept (a : Assembler) (ha : c.Assembled a) : c.enter.Assembled a := by
    unfold Conn.enter
    split_ifs
    · exact { ha with }
    · exact ha
  intro hgo
  rw [hes, received_handler hall]
  exact hkept _ (h (goawaySent_enter c ▸ hgo))

theorem InStep.take (h : c.InStep) (f : Frame) (rest : Bytes) (hgo : c.goawaySent = false) :
    (c.take f rest).Assembled (received c.log) := { h hgo with }

/-- **One step** keeps the decoder in step, unless it makes it lose the step. -/
theorem Steps.inStep {e : Event} (hs : Steps libs c e c') (h : c.InStep)
    (hok : ¬ c.Desynchronises e) : c'.InStep := by
  have gone (c' : Conn) (h : c'.goawaySent = true) : c'.InStep :=
    fun hgo => nomatch h.symm.trans hgo
  cases hs with
  | still => exact h
  | arrive | ioFailed | settled => exact fun hgo => { h hgo with }
  | waits => exact h.enter
  | badPreface | tooLarge | failed => exact gone _ (goawaySent_giveUp _)
  | @frame env f rest c₁ _ tail hp hf hh hl =>
    have htail : ∀ why, tail ≠ .error why := by
      rintro why rfl
      cases hl
    refine InStep.kept (c := c₁) (fun hgo => ?_) hl.kept
    cases hsent : c.enter.goawaySent with
    | true =>
      have hsent' := hh.goawaySent hsent
      exact nomatch hsent'.symm.trans hgo
    | false =>
      have hbefore : c.goawaySent = false := goawaySent_enter c ▸ hsent
      have hno : ¬ (c.SkipsBlock env f ∨ c.ShrinksTable f) := fun hbad =>
        hok ⟨hbefore, f, rest, hf, hbad⟩
      obtain ⟨hskip, hshrink⟩ := not_or.mp hno
      obtain ⟨es, hes, hall⟩ := hh.ofHandler
      rw [hes, received_handler hall]
      change c₁.Assembled (received (c.enter.log ++ [.took f]))
      rw [received_took]
      exact hh.assembled (h.enter.take f rest hsent) (mt skipsBlock_take.mp hskip)
        (mt shrinksTable_take.mp hshrink) htail hgo
  | answered hp hs hm hf =>
    exact h.kept ((Kept.answerWith ..).trans hf.kept)
  | flushed hf => exact h.kept hf.kept
  | idled => exact gone _ rfl

theorem InStep.new : Conn.new.InStep := fun _ => ⟨rfl, nofun, nofun, fun _ => rfl⟩

end Conn

/-- **The decoder stays in step**: as long as no frame completes a header block that is not decoded,
and no setting makes the table smaller, the decoder was given the header blocks that came, each once
and in order, and its table has the size that was announced. -/
theorem synchronised_of_steps (libs : Libs) (events : List Event)
    (h : EachStep (Conn.step libs) (fun c e => ¬ c.Desynchronises e) Conn.new events) :
    Throughout (Conn.step libs) Conn.Synchronised Conn.new events :=
  Conn.throughout_kept_of libs (I := Conn.InStep) (fun _ _ _ _ hc hok hs => hs.inStep hc hok)
    (fun _ _ hc => hc.synchronised) .new events h

/-- A block in two frames, the DATA frames of its stream, and the block of a second stream. -/
theorem synchronised_of_steps_parts : Throughout (Conn.step postLibs) Conn.Synchronised Conn.new
      (.arrive (postInParts ++ postFrame 5 3) :: List.replicate 5 (.frame plainEnv)) := by
  refine synchronised_of_steps postLibs _ (.cons id rfl (.cons ?_ rfl (.cons ?_ rfl (.cons ?_ rfl
    (.cons ?_ rfl ⟨?_, fun _ _ => trivial⟩)))))
  · -- the block is not complete
    rintro ⟨-, f, rest, hf, ⟨hend, -⟩ | ⟨hset, -⟩⟩
    all_goals cases Option.some.inj hf
    · cases hend
    · cases hset
  · -- the stream is there when the block is
    rintro ⟨-, f, rest, hf, ⟨-, ⟨hhead, -⟩ | ⟨-, -, hgone, -⟩⟩ | ⟨hset, -⟩⟩
    all_goals cases Option.some.inj hf
    · cases hhead
    · cases hgone
    · cases hset
  iterate 2
    · rintro ⟨-, f, rest, hf, ⟨hend, -⟩ | ⟨hset, -⟩⟩
      all_goals cases Option.some.inj hf
      · cases hend
      · cases hset
  · rintro ⟨-, f, rest, hf, ⟨-, ⟨-, -, -, hr⟩ | ⟨hcont, -⟩⟩ | ⟨hset, -⟩⟩
    all_goals cases Option.some.inj hf
    · rcases hr with ⟨code, hcode⟩ | ⟨-, -, ⟨hgo, -⟩ | ⟨hbusy, -⟩ | ⟨-, hself⟩⟩
      · cases hcode
      · cases hgo
      · exact absurd hbusy (by decide)
      · cases hself
    · cases hcont
    · cases hset

/-- A stream that depends on itself is refused with its block, and the connection goes on. -/
theorem selfDependent_not_synchronised :
    ¬ Throughout (Conn.step postLibs) Conn.Synchronised Conn.new
      [.arrive (clientPreface ++ [0, 0, 6, 1, 0x24, 0, 0, 0, 1, 0, 0, 0, 1, 16, 0x82]),
        .frame plainEnv] := by
  intro h
  have hlast := (h.2 _ rfl).2 _ rfl
  exact absurd (hlast rfl).1 (by decide)

end M6.Http2
