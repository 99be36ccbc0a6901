import M6.Edge.H2Delivery

/-!
# Receivers of the outbound HTTP/2 client

Each dispatched request has a receiver, and a receiver takes one outcome: a response, or an
error. `Settles` is what the code may do with receivers, and `SendOnly` what only changes what
is sent; every operation is one of the two. `at_most_once` is the result.
-/

namespace M6

open List Option SortedMap

namespace ClientConn

variable {hp : Hpack}

/-! ## One outcome for each stream -/

def outcomes (c : ClientConn hp) (id : Nat) : List (Except Str HttpResponse) :=
  (c.resolved.filter fun e => e.1 = id).map Prod.snd

/-- What the code may do with receivers on the way from `c` to `c'`: some get their outcome, each
of a stream that was there and is gone then. -/
structure Settles (c c' : ClientConn hp) : Prop where
  next : c'.nextStreamId = c.nextStreamId
  fewer : ∀ id, (c'.streams.get? id).isSome = true → (c.streams.get? id).isSome = true
  answers : ∃ new, c'.resolved = c.resolved ++ new ∧ (new.map Prod.fst).Nodup ∧
    ∀ id ∈ new.map Prod.fst, (c.streams.get? id).isSome = true ∧ c'.streams.get? id = none

theorem Settles.of_kept {c c' : ClientConn hp} (hnext : c'.nextStreamId = c.nextStreamId)
    (hres : c'.resolved = c.resolved)
    (hfewer : ∀ id, (c'.streams.get? id).isSome = true → (c.streams.get? id).isSome = true) :
    Settles c c' :=
  ⟨hnext, hfewer, [], by rw [hres, append_nil], nodup_nil, fun _ h => by cases h⟩

theorem Settles.refl (c : ClientConn hp) : Settles c c := Settles.of_kept rfl rfl fun _ h => h

theorem Settles.trans {c c' c'' : ClientConn hp} (h : Settles c c') (h' : Settles c' c'') :
    Settles c c'' := by
  obtain ⟨new, hres, hnd, hnew⟩ := h.answers
  obtain ⟨new', hres', hnd', hnew'⟩ := h'.answers
  refine ⟨h'.next.trans h.next, fun id hid => h.fewer id (h'.fewer id hid), new ++ new', ?_, ?_, ?_⟩
  · rw [hres', hres, append_assoc]
  · rw [map_append]
    refine hnd.append hnd' fun id hid hid' => ?_
    -- a stream that is gone gets no second outcome
    have hthere := (hnew' id hid').1
    rw [(hnew id hid).2] at hthere
    cases hthere
  · intro id hid
    rw [map_append, mem_append] at hid
    obtain hid | hid := hid
    · refine ⟨(hnew id hid).1, ?_⟩
      cases hget : c''.streams.get? id with
      | none => rfl
      | some s =>
        have hthere := h'.fewer id (by rw [hget]; rfl)
        rw [(hnew id hid).2] at hthere
        cases hthere
    · exact ⟨h.fewer id (hnew' id hid).1, (hnew' id hid).2⟩

/-- No receiver got two outcomes, and none whose stream is still there got one. -/
structure Unique (c : ClientConn hp) : Prop where
  nodup : (c.resolved.map Prod.fst).Nodup
  gone : ∀ id ∈ c.resolved.map Prod.fst, id < c.nextStreamId ∧ c.streams.get? id = none
  opened : ∀ id, (c.streams.get? id).isSome = true → id < c.nextStreamId

theorem Unique.settles {c c' : ClientConn hp} (h : Unique c) (hs : Settles c c') : Unique c' := by
  obtain ⟨new, hres, hnd, hnew⟩ := hs.answers
  refine ⟨?_, fun id hid => ?_, fun id hid => ?_⟩
  · rw [hres, map_append]
    refine h.nodup.append hnd fun id hid hid' => ?_
    have hthere := (hnew id hid').1
    rw [(h.gone id hid).2] at hthere
    cases hthere
  · rw [hs.next]
    rw [hres, map_append, mem_append] at hid
    obtain hid | hid := hid
    · refine ⟨(h.gone id hid).1, ?_⟩
      cases hget : c'.streams.get? id with
      | none => rfl
      | some s =>
        have hthere := hs.fewer id (by rw [hget]; rfl)
        rw [(h.gone id hid).2] at hthere
        cases hthere
    · exact ⟨h.opened id (hnew id hid).1, (hnew id hid).2⟩
  · rw [hs.next]
    exact h.opened id (hs.fewer id hid)

structure Gathered where
  status : Nat
  headers : List (Str × Str)
  body : Bytes
  /-- a header block has come -/
  done : Bool

def streamGathered (s : ClientStream) : Gathered :=
  ⟨s.respStatus, s.respHeaders, s.respBody, s.headersDone⟩

def gathered (c : ClientConn hp) (id : Nat) : Option Gathered :=
  (c.streams.get? id).map streamGathered

/-- Nothing differs but what the client has sent and may send. -/
structure SendOnly (c c' : ClientConn hp) : Prop where
  alive : c'.isDead = c.isDead
  next : c'.nextStreamId = c.nextStreamId
  resolved : c'.resolved = c.resolved
  dec : c'.hpackDec = c.hpackDec
  acc : c'.headerBlockAcc = c.headerBlockAcc
  cont : c'.continuationStream = c.continuationStream
  gathered : ∀ id, c'.gathered id = c.gathered id

theorem SendOnly.refl (c : ClientConn hp) : SendOnly c c :=
  ⟨rfl, rfl, rfl, rfl, rfl, rfl, fun _ => rfl⟩

theorem SendOnly.trans {c c' c'' : ClientConn hp} (h : SendOnly c c') (h' : SendOnly c' c'') :
    SendOnly c c'' :=
  ⟨h'.alive.trans h.alive, h'.next.trans h.next, h'.resolved.trans h.resolved, h'.dec.trans h.dec,
    h'.acc.trans h.acc, h'.cont.trans h.cont, fun id => (h'.gathered id).trans (h.gathered id)⟩

variable {id : Nat}

theorem isSome_of_gathered {c c' : ClientConn hp} (h : c'.gathered id = c.gathered id) :
    (c'.streams.get? id).isSome = (c.streams.get? id).isSome := by
  have hsome := congrArg Option.isSome h
  simpa only [ClientConn.gathered, isSome_map] using hsome

theorem SendOnly.settles {c c' : ClientConn hp} (h : SendOnly c c') : Settles c c' :=
  Settles.of_kept h.next h.resolved fun id hid => by
    rw [← isSome_of_gathered (h.gathered id)]
    exact hid

theorem pushFrame_sendOnly (c : ClientConn hp) (ftype : FrameType) (flags : UInt8) (id : Nat)
    (payload : Bytes) : SendOnly c (c.pushFrame ftype flags id payload) :=
  ⟨rfl, rfl, rfl, rfl, rfl, rfl, fun _ => rfl⟩

variable {c : ClientConn hp}

theorem insert_sendOnly {s : ClientStream}
    (hs : c.streams.get? id = some s) (s' : ClientStream) (hstatus : s'.respStatus = s.respStatus)
    (hheaders : s'.respHeaders = s.respHeaders) (hbody : s'.respBody = s.respBody)
    (hdone : s'.headersDone = s.headersDone) (w : Int) :
    SendOnly c { c with streams := c.streams.insert id s', connSendWindow := w } := by
  refine ⟨rfl, rfl, rfl, rfl, rfl, rfl, fun t => ?_⟩
  simp only [ClientConn.gathered, get?_insert]
  split_ifs with ht
  · rw [ht, hs]
    simp only [map_some, streamGathered, hstatus, hheaders, hbody, hdone]
  · rfl

theorem sendChunk_sendOnly {s : ClientStream}
    (hs : c.streams.get? id = some s) (n : Nat) : SendOnly c (c.sendChunk id s n) := by
  have hadvance : (s.advance n).respStatus = s.respStatus ∧
      (s.advance n).respHeaders = s.respHeaders ∧ (s.advance n).respBody = s.respBody ∧
      (s.advance n).headersDone = s.headersDone := by
    rw [ClientStream.advance]
    split_ifs <;> exact ⟨rfl, rfl, rfl, rfl⟩
  obtain ⟨hstatus, hheaders, hbody, hdone⟩ := hadvance
  exact (insert_sendOnly hs _ hstatus hheaders hbody hdone _).trans (pushFrame_sendOnly _ _ _ _ _)

theorem sendOnly_byChunks : ByChunks fun c c' : ClientConn hp => SendOnly c c' where
  refl := SendOnly.refl
  trans := SendOnly.trans
  chunk hs _ _ := sendChunk_sendOnly hs _

theorem pumpStream_sendOnly (c : ClientConn hp) (id : Nat) : SendOnly c (c.pumpStream id) :=
  sendOnly_byChunks.pumpStream c id

theorem pumpAll_sendOnly (iter : Iter hp) (c : ClientConn hp) : SendOnly c (pumpAll iter c) :=
  sendOnly_byChunks.pumpAll iter c

theorem grant_sendOnly (c : ClientConn hp) (id n : Nat) : SendOnly c (c.grant id n) :=
  (pushFrame_sendOnly c _ _ _ _).trans (pushFrame_sendOnly _ _ _ _ _)

theorem markDead_settles (c : ClientConn hp) (reason : Str) : Settles c (c.markDead reason) := by
  refine ⟨rfl, fun id h => (by cases h), _, rfl, ?_, fun id hid => ?_⟩
  · rw [List.map_map]
    exact (pairwise_map.mpr (c.streams.sorted.imp fun h => Nat.ne_of_lt h))
  · rw [List.map_map, List.mem_map] at hid
    obtain ⟨e, he, rfl⟩ := hid
    have hget : c.streams.get? e.1 = some e.2 := mem_entries.mp he
    exact ⟨isSome_of_eq_some hget, rfl⟩

theorem applySetting_sendOnly (kind : ClientKind) (c : ClientConn hp) (p : Nat × Nat) :
    SendOnly c (applySetting kind c p) ∨ ∃ reason, applySetting kind c p = c.markDead reason := by
  unfold applySetting
  split
  · split_ifs
    · refine .inl ⟨rfl, rfl, rfl, rfl, rfl, rfl, fun id => ?_⟩
      simp only [ClientConn.gathered, get?_map, Option.map_map]
      rfl
    · exact .inr ⟨_, rfl⟩
  · split_ifs
    · exact .inl ⟨rfl, rfl, rfl, rfl, rfl, rfl, fun _ => rfl⟩
    · exact .inl (SendOnly.refl c)
  · exact .inl (SendOnly.refl c)

theorem applySettings_sendOnly (kind : ClientKind) (halive : c.isDead = false)
    (pairs : List (Nat × Nat)) :
    SendOnly c (applySettings kind c pairs) ∨
      ((applySettings kind c pairs).isDead = true ∧ Settles c (applySettings kind c pairs)) := by
  induction pairs generalizing c with
  | nil => exact .inl (SendOnly.refl c)
  | cons p pairs ih =>
    rw [applySettings]
    obtain hsend | ⟨reason, hdead⟩ := applySetting_sendOnly kind c p
    · have halive' := hsend.alive.trans halive
      rw [if_neg (by rw [halive']; simp)]
      exact (ih halive').imp hsend.trans fun h => ⟨h.1, hsend.settles.trans h.2⟩
    · rw [hdead]
      exact .inr ⟨rfl, markDead_settles c reason⟩

theorem isSome_of_erase {m : SortedMap Nat ClientStream} {id t : Nat}
    (h : ((m.erase id).get? t).isSome = true) : (m.get? t).isSome = true := by
  rw [get?_erase] at h
  split_ifs at h
  · cases h
  · exact h

theorem removeStream_settles (c : ClientConn hp) (id : Nat) : Settles c (c.removeStream id) := by
  refine Settles.of_kept rfl rfl fun t ht => ?_
  change ((c.streams.erase id).get? t).isSome = true at ht
  exact isSome_of_erase ht

theorem answer_settles {c c' : ClientConn hp} {answer : Except Str HttpResponse}
    (hthere : (c.streams.get? id).isSome = true) (hnext : c'.nextStreamId = c.nextStreamId)
    (hstreams : c'.streams = c.streams.erase id)
    (hres : c'.resolved = c.resolved ++ [(id, answer)]) : Settles c c' := by
  refine ⟨hnext, fun t ht => ?_, _, hres, by simp, fun t ht => ?_⟩
  · rw [hstreams] at ht
    exact isSome_of_erase ht
  · obtain rfl := mem_singleton.mp ht
    rw [hstreams, get?_erase, if_pos rfl]
    exact ⟨hthere, rfl⟩

def Gathered.outcome (kind : ClientKind) (g : Gathered) : Except Str HttpResponse :=
  if g.done then .ok ⟨g.status, g.headers, g.body⟩
  else .error (kind.label ++ "stream ended without headers".toList)

theorem completeStream_eq (kind : ClientKind) {g : Gathered} (hg : c.gathered id = some g) :
    ∃ buf, c.completeStream kind id = { c with
      sendBuf := buf
      streams := c.streams.erase id
      resolved := c.resolved ++ [(id, g.outcome kind)] } := by
  rw [gathered, map_eq_some_iff] at hg
  obtain ⟨s, hs, rfl⟩ := hg
  by_cases howed : s.bodyOff < s.pendingBody.length
  · simp only [completeStream, hs, if_pos howed]
    exact ⟨_, rfl⟩
  · simp only [completeStream, hs, if_neg howed]
    exact ⟨_, rfl⟩

theorem completeStream_gone (kind : ClientKind)
    (hg : c.gathered id = none) : c.completeStream kind id = c := by
  rw [gathered, map_eq_none_iff] at hg
  simp only [completeStream, hg]

theorem completeStream_settles (kind : ClientKind) (c : ClientConn hp) (id : Nat) :
    Settles c (c.completeStream kind id) := by
  cases hg : c.gathered id with
  | none =>
    rw [completeStream_gone kind hg]
    exact Settles.refl c
  | some g =>
    obtain ⟨buf, heq⟩ := completeStream_eq kind hg
    rw [gathered, map_eq_some_iff] at hg
    obtain ⟨s, hs, -⟩ := hg
    rw [heq]
    exact answer_settles (isSome_of_eq_some hs) rfl rfl rfl

theorem updateStream_settles (c : ClientConn hp) (id : Nat) (f : ClientStream → ClientStream) :
    Settles c (c.updateStream id f) := by
  rw [updateStream]
  split
  · rename_i s hs
    refine Settles.of_kept rfl rfl fun t ht => ?_
    change ((c.streams.insert id (f s)).get? t).isSome = true at ht
    rw [get?_insert] at ht
    split_ifs at ht with heq
    · rw [heq, hs]
      rfl
    · exact ht
  · exact Settles.refl c

theorem byParts_settles (kind : ClientKind) :
    ByParts kind fun c c' : ClientConn hp => Settles c c' where
  refl := Settles.refl
  trans := Settles.trans
  dead := markDead_settles
  addBlock _ _ := Settles.of_kept rfl rfl fun _ h => h
  taken _ := Settles.of_kept rfl rfl fun _ h => h
  expect _ _ := Settles.of_kept rfl rfl fun _ h => h
  update c id _ _ := updateStream_settles c id _
  complete := completeStream_settles kind

theorem credited_settles (c : ClientConn hp) (f : Frame) : Settles c (c.credited f) := by
  rw [credited]
  split_ifs
  · exact (grant_sendOnly c f.stream _).settles
  · exact Settles.refl c

theorem onConnCredit_settles (kind : ClientKind) (iter : Iter hp) (c : ClientConn hp) (n : Nat) :
    Settles c (c.onConnCredit kind iter n) := by
  rw [onConnCredit]
  split_ifs
  · exact markDead_settles c _
  · refine Settles.trans ?_ (pumpAll_sendOnly iter _).settles
    exact Settles.of_kept rfl rfl fun _ h => h
  · exact markDead_settles c _

theorem onStreamCredit_sendOnly {id n : Nat} (hpos : 0 < n)
    (hroom : ∀ s, c.streams.get? id = some s → s.sendWindow + n ≤ maxWindow) :
    SendOnly c (c.onStreamCredit id n) := by
  rw [onStreamCredit, if_neg (Nat.ne_of_gt hpos)]
  split
  · exact SendOnly.refl c
  · rename_i s hs
    rw [if_pos (hroom s hs)]
    refine SendOnly.trans ?_ (pumpStream_sendOnly _ id)
    exact insert_sendOnly hs { s with sendWindow := s.sendWindow + n } rfl rfl rfl rfl _

theorem onStreamCredit_cases (c : ClientConn hp) (id n : Nat) :
    SendOnly c (c.onStreamCredit id n) ∨ ∃ code, c.onStreamCredit id n =
      (c.pushFrame .rstStream 0 id [0, 0, 0, code]).removeStream id := by
  by_cases hzero : n = 0
  · exact .inr ⟨1, by rw [onStreamCredit, if_pos hzero]⟩
  by_cases hroom : ∀ s, c.streams.get? id = some s → s.sendWindow + n ≤ maxWindow
  · exact .inl (onStreamCredit_sendOnly (Nat.pos_of_ne_zero hzero) hroom)
  · push Not at hroom
    obtain ⟨s, hs, hover⟩ := hroom
    refine .inr ⟨3, ?_⟩
    simp only [onStreamCredit, if_neg hzero, hs, if_neg (Int.not_le.mpr hover)]

theorem onFrame_settles (kind : ClientKind) (iter : Iter hp)
    (halive : c.isDead = false) (f : Frame) : Settles c (c.onFrame kind iter f) := by
  cases hf : f.ftype with
  | settings =>
    simp only [onFrame, hf]
    split_ifs with hack hdead
    · exact Settles.refl c
    all_goals
      obtain hsend | ⟨-, hset⟩ := applySettings_sendOnly kind halive (settingsPairs f.payload)
    · exact hsend.settles
    · exact hset
    all_goals
      refine Settles.trans ?_ (pumpAll_sendOnly iter _).settles
      refine Settles.trans ?_ (pushFrame_sendOnly _ _ _ _ _).settles
    · exact hsend.settles
    · exact hset
  | headers =>
    simp only [onFrame, hf]
    split_ifs
    · exact (byParts_settles kind).onHeaders c f
    · exact Settles.refl c
  | continuation =>
    simp only [onFrame, hf]
    split_ifs
    · exact (byParts_settles kind).onContinuation c f
    · exact Settles.refl c
  | data =>
    simp only [onFrame, hf]
    split_ifs
    · exact (credited_settles c f).trans ((byParts_settles kind).onData c f)
    · exact Settles.refl c
  | rstStream =>
    simp only [onFrame, hf]
    split_ifs
    · split
      · exact Settles.refl c
      · rename_i s hs
        exact answer_settles (isSome_of_eq_some hs) rfl rfl rfl
    · exact Settles.refl c
  | goaway =>
    simp only [onFrame, hf]
    exact markDead_settles c _
  | ping =>
    simp only [onFrame, hf]
    split_ifs
    · exact (pushFrame_sendOnly c _ _ _ _).settles
    · exact Settles.refl c
  | windowUpdate =>
    simp only [onFrame, hf]
    split
    · exact Settles.refl c
    · rename_i n _
      split_ifs
      · exact onConnCredit_settles kind iter c n
      · obtain hsend | ⟨code, heq⟩ := onStreamCredit_cases c f.stream n
        · exact hsend.settles
        · rw [heq]
          exact (pushFrame_sendOnly c _ _ _ _).settles.trans (removeStream_settles _ _)
  | other code =>
    simp only [onFrame, hf]
    exact Settles.refl c

theorem receive_settles (kind : ClientKind) (iter : Iter hp) (c : ClientConn hp) (f : Frame) :
    Settles c (c.receive kind iter f) := by
  unfold receive
  split_ifs with hdead
  · exact Settles.refl c
  · have halive : c.isDead = false := Bool.eq_false_iff.mpr hdead
    split
    · split_ifs
      · exact markDead_settles c _
      · exact onFrame_settles kind iter halive f
    · exact onFrame_settles kind iter halive f

theorem dispatch_unique (kind : ClientKind) (h : Unique c) (d : Dispatch) :
    Unique (dispatch kind c d).2 := by
  rw [dispatch]
  split_ifs
  · exact h
  · have hopen : Unique (openStream kind c d) := by
      refine ⟨h.nodup, fun id hid => ?_, fun id hid => ?_⟩
      · obtain ⟨hlt, hnone⟩ := h.gone id hid
        refine ⟨Nat.lt_add_right 2 hlt, ?_⟩
        change (c.streams.insert c.nextStreamId _).get? id = none
        rw [get?_insert, if_neg (Nat.ne_of_lt hlt)]
        exact hnone
      · change ((c.streams.insert c.nextStreamId _).get? id).isSome = true at hid
        change id < c.nextStreamId + 2
        rw [get?_insert] at hid
        split_ifs at hid with heq
        · omega
        · exact Nat.lt_add_right 2 (h.opened id hid)
    exact hopen.settles (pumpStream_sendOnly _ _).settles

section
variable (kind : ClientKind) (iter : Iter hp)

theorem step_unique {c : ClientConn hp} (h : Unique c) (e : ClientEvent) :
    Unique (step kind iter c e) := by
  cases e with
  | dispatch d => exact dispatch_unique kind h d
  | receive f => exact h.settles (receive_settles kind iter c f)
  | lost reason =>
    rw [step]
    split_ifs
    · exact h
    · exact h.settles (markDead_settles c reason)

theorem run_unique {c : ClientConn hp} (h : Unique c) (events : List ClientEvent) :
    Unique (run kind iter c events) := by
  induction events generalizing c with
  | nil => exact h
  | cons e events ih => exact ih (step_unique kind iter h e)

end

theorem unique_connect : Unique (connect hp) :=
  ⟨nodup_nil, fun _ h => (by cases h), fun _ h => (by cases h)⟩

/-- **No receiver gets two outcomes**, whatever the peer sends, and whenever requests are
dispatched and the socket is lost. -/
theorem at_most_once (kind : ClientKind) (iter : Iter hp) (events : List ClientEvent) (id : Nat) :
    ((run kind iter (connect hp) events).outcomes id).length ≤ 1 := by
  have hunique := (run_unique kind iter unique_connect events).nodup
  have hcount := nodup_iff_count_le_one.mp hunique id
  rw [List.count, countP_map, countP_eq_length_filter] at hcount
  rw [outcomes, length_map]
  exact hcount

end ClientConn

end M6
