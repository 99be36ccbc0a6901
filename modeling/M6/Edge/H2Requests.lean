import M6.Edge.H2Streams

/-!
# The requests that the HTTP/2 server hands over

A request is whole when the client has ended its stream: its header block is complete, its body is
what came in the DATA frames of the stream, in order, and it is as long as any content-length field
says (`Whole`). What a stream holds is always what came for it (`Gathered`). A stream is handed over
before its end for five methods (`Early`), and of its content-length fields the first is compared
with the body, if the machine can hold it (`LengthSkipped`). Apart from these each request is whole.
-/

namespace M6.Http2

open List Runs History Option Bool

/-! ## What came for a stream -/

def opens (id : Nat) (f : Frame) : Bool := f.ftype = .headers && f.stream = id

def since (id : Nat) (fs : List Frame) : List Frame := fs.dropWhile fun f => !opens id f

def dataPart (id : Nat) (f : Frame) : Bytes :=
  if f.ftype = .data ∧ f.stream = id then
    match Conn.cutData f.flags f.payload with
    | .ok (first, last) => (f.payload.take last).drop first
    | .error _ => []
  else []

/-- **The body that came on a stream**: the data of its DATA frames, in order and without padding.
-/
def bodyOf (id : Nat) (fs : List Frame) : Bytes := (since id fs).flatMap (dataPart id)

def BlockComplete (id : Nat) (fs : List Frame) : Prop :=
  ∃ f ∈ since id fs, f.stream = id ∧ (f.ftype = .headers ∨ f.ftype = .continuation) ∧
    has f.flags flagEndHeaders = true

def Ended (id : Nat) (fs : List Frame) : Prop :=
  ∃ f ∈ since id fs, f.stream = id ∧ (f.ftype = .headers ∨ f.ftype = .data) ∧
    has f.flags flagEndStream = true

theorem since_concat {id : Nat} {fs : List Frame} (h : fs.any (opens id) = true) (f : Frame) :
    since id (fs ++ [f]) = since id fs ++ [f] := by
  have hne : ¬ (since id fs).isEmpty = true := fun hempty => by
    obtain ⟨g, hg, ho⟩ := any_eq_true.mp h
    have hall := dropWhile_eq_nil_iff.mp (isEmpty_iff.mp hempty) g hg
    rw [ho] at hall
    cases hall
  unfold since at *
  rw [dropWhile_append, if_neg hne]

theorem since_eq_nil {id : Nat} {fs : List Frame} (h : fs.any (opens id) = false) :
    since id fs = [] := by
  refine dropWhile_eq_nil_iff.mpr fun g hg => ?_
  rw [any_eq_false.mp h g hg |> eq_false_iff.mpr]
  rfl

theorem since_concat_new {id : Nat} {fs : List Frame} (h : fs.any (opens id) = false) {f : Frame}
    (hf : opens id f = true) : since id (fs ++ [f]) = [f] := by
  have hnil := since_eq_nil h
  unfold since at *
  rw [dropWhile_append, hnil, isEmpty_nil, if_pos rfl, dropWhile_cons, hf]
  rfl

structure Gathered (fs : List Frame) (id : Nat) (s : Stream) : Prop where
  begun : fs.any (opens id) = true
  body : s.body = bodyOf id fs
  complete : s.headersDone = true → BlockComplete id fs
  ended : s.state = .halfClosedRemote → Ended id fs

namespace Gathered

variable {fs : List Frame} {id : Nat} {s s' : Stream} {f : Frame}

theorem begun_concat (h : Gathered fs id s) (f : Frame) : (fs ++ [f]).any (opens id) = true := by
  rw [any_append, h.begun]
  rfl

theorem body_concat (h : Gathered fs id s) (f : Frame) :
    bodyOf id (fs ++ [f]) = s.body ++ dataPart id f := by
  rw [bodyOf, since_concat h.begun, flatMap_append, h.body, flatMap_singleton]
  rfl

theorem complete_concat (h : Gathered fs id s) (hs : s.headersDone = true) (f : Frame) :
    BlockComplete id (fs ++ [f]) := by
  obtain ⟨g, hg, hrest⟩ := h.complete hs
  exact ⟨g, since_concat h.begun f ▸ mem_append_left _ hg, hrest⟩

theorem ended_concat (h : Gathered fs id s) (hs : s.state = .halfClosedRemote) (f : Frame) :
    Ended id (fs ++ [f]) := by
  obtain ⟨g, hg, hrest⟩ := h.ended hs
  exact ⟨g, since_concat h.begun f ▸ mem_append_left _ hg, hrest⟩

theorem last_mem (h : Gathered fs id s) (f : Frame) : f ∈ since id (fs ++ [f]) :=
  since_concat h.begun f ▸ mem_append_right _ (mem_singleton_self f)

theorem other (h : Gathered fs id s) (hf : dataPart id f = []) : Gathered (fs ++ [f]) id s where
  begun := h.begun_concat f
  body := by rw [h.body_concat, hf, append_nil]
  complete := fun hs => h.complete_concat hs f
  ended := fun hs => h.ended_concat hs f

theorem inherits (h : Gathered fs id s) (hin : Conn.Inherits s s') : Gathered fs id s' where
  begun := h.begun
  body := hin.body.trans h.body
  complete := fun hs => h.complete (hin.headersDone ▸ hs)
  ended := fun hs => by
    rcases hin.state with heq | ⟨-, heq⟩
    · exact h.ended (heq ▸ hs)
    · exact nomatch heq.symm.trans hs

theorem withFields (h : Gathered fs id s) (hc : BlockComplete id fs)
    (fields : List (Str × Str)) : Gathered fs id (Conn.withFields s fields) :=
  { h with complete := fun _ => hc }

end Gathered

/-! ## One frame -/

namespace Conn

variable {libs : Libs} {env : Env} {c c' c₁ : Conn} {f : Frame} {tail : Tail} {fs : List Frame}

theorem dataPart_other {id : Nat} (h : f.ftype = .data → f.stream ≠ id) : dataPart id f = [] :=
  if_neg fun hf => h hf.1 hf.2

theorem frameShapeVerdict_stream {ftype : FrameType} {flags : UInt8} {stream length code : Nat}
    (ht : ftype = .data ∨ ftype = .headers)
    (h : frameShapeVerdict ftype flags stream length = .connectionError code) : stream = 0 := by
  by_contra hid
  rcases ht with rfl | rfl
  all_goals simp [frameShapeVerdict, hid, FrameType.needsConnection] at h

theorem frameVerdict_live {s : Stream} {stream : Nat} (hs : c.streams.get? stream = some s)
    (hu : Usable s) (ftype : FrameType) (code : Nat) :
    c.frameVerdict ftype stream ≠ .connectionError code := by
  have hstate : c.streamState stream = s.state := by rw [streamState, hs]
  unfold frameVerdict
  rw [hstate]
  rcases hu with hst | hst | hst
  all_goals
    rw [hst]
    split_ifs <;> simp

theorem Breaks.not_live {code : Nat} (hb : Breaks c f code) (ho : c.Ordered)
    (hf : f.ftype = .data) :
    c.streams.get? f.stream = none := by
  cases hs : c.streams.get? f.stream with
  | none => rfl
  | some s =>
    exfalso
    cases hb with
    | shape h =>
      have hodd := (ho.known f.stream s hs).2.1
      rw [frameShapeVerdict_stream (.inl hf) h] at hodd
      cases hodd
    | state _ _ h => exact frameVerdict_live hs (ho.usable f.stream s hs) _ _ h
    | backwards _ hh => exact nomatch hf.symm.trans hh

theorem Handles.data_changed (hh : Handles libs env c f c₁ tail)
    (htail : ∀ why, tail ≠ .error why) (ho : c.Ordered) (hf : f.ftype = .data) {s' : Stream}
    (h : c₁.streams.get? f.stream = some s') : Changed env c f s' := by
  have gone {m : SortedMap Nat Stream} (h : (m.erase f.stream).get? f.stream = some s') :
      Changed env c f s' := by
    rw [SortedMap.get?_erase, if_pos rfl] at h
    cases h
  cases hh with
  | failed why => exact absurd rfl (htail why)
  | nothing _ hn =>
    rcases hn with hn | hn | hn | ⟨code, hn⟩
    all_goals exact nomatch hf.symm.trans hn
  | connectionError hwhy => exact nomatch (hwhy.not_live ho hf).symm.trans h
  | illegal => exact gone h
  | reset _ _ hn =>
    rcases hn with hp | hw
    · exact nomatch hf.symm.trans hp.priority
    · exact nomatch hf.symm.trans hw.windowUpdate
  | rstStream _ hn | ping _ hn | goaway _ hn | settings _ hn | connCredit _ hn | streamCredit _ hn
  | closedOverflow _ hn | closedCredit _ hn | uncredited _ hn | refusedLate _ hn
  | refusedBusy _ hn => exact nomatch hf.symm.trans hn
  | overCap =>
    rw [charged_eq] at h
    exact gone h
  | data ha _ _ hs hcut =>
    rw [grant_eq] at h
    change ((Conn.charged ..).streams.insert _ _).get? _ = some s' at h
    rw [SortedMap.get?_insert, if_pos rfl] at h
    cases h
    exact .data _ ha hf hs hcut
  | selfDependent ha | headersPart ha | trailersRejected ha | headers ha =>
    exact nomatch hf.symm.trans ha.headers
  | continuationPart ha | continuationGone ha | continuation ha =>
    exact nomatch hf.symm.trans ha.continuation

theorem headers_closed (ho : c.Ordered) (hf : f.ftype = .headers)
    (h : c.frameVerdict f.ftype f.stream ≠ .allow) : f.stream ≤ c.lastStreamId := by
  by_contra hnew
  refine h ?_
  have hnone : c.streams.get? f.stream = none := by
    cases hs : c.streams.get? f.stream with
    | none => rfl
    | some s => exact absurd (ho.known f.stream s hs).1 hnew
  have hidle : c.streamState f.stream = .idle := by
    rw [streamState, hnone]
    exact if_pos (not_le.mp hnew)
  unfold frameVerdict
  rw [hidle, hf]
  dsimp only
  rw [if_pos rfl]
  split_ifs <;> rfl

theorem Handles.headers_known (hh : Handles libs env c f c₁ tail)
    (htail : ∀ why, tail ≠ .error why) (ho : c.Ordered) (hf : f.ftype = .headers) :
    f.stream ≤ c₁.lastStreamId := by
  cases hh with
  | failed why => exact absurd rfl (htail why)
  | nothing _ hn =>
    rcases hn with hn | hn | hn | ⟨code, hn⟩
    all_goals exact nomatch hf.symm.trans hn
  | connectionError hwhy =>
    change f.stream ≤ c.lastStreamId
    cases hwhy with
    | shape h =>
      rw [frameShapeVerdict_stream (.inr hf) h]
      exact Nat.zero_le _
    | state hout hshape h => exact headers_closed ho hf (by rw [h]; nofun)
    | backwards ha _ hback => exact hback
  | illegal code hout hshape hstate =>
    change f.stream ≤ c.lastStreamId
    exact headers_closed ho hf (by rw [hstate]; nofun)
  | reset _ _ hn =>
    rcases hn with hp | hw
    · exact nomatch hf.symm.trans hp.priority
    · exact nomatch hf.symm.trans hw.windowUpdate
  | rstStream _ hn | ping _ hn | goaway _ hn | settings _ hn | connCredit _ hn | streamCredit _ hn
  | closedOverflow _ hn | closedCredit _ hn | uncredited _ hn | overCap _ hn | data _ hn =>
    exact nomatch hf.symm.trans hn
  | refusedLate | refusedBusy | selfDependent | headersPart | trailersRejected =>
    exact le_max_right ..
  | headers =>
    rw [lastStreamId_addFields]
    exact le_max_right ..
  | continuationPart ha | continuationGone ha | continuation ha =>
    exact nomatch hf.symm.trans ha.continuation

theorem opening_gathered (ha : Admitted env c f)
    (hstreams : ∀ s, c.streams.get? f.stream = some s → Gathered fs f.stream s)
    (hnew : ∀ g ∈ fs, g.ftype = .headers → g.stream ≤ c.lastStreamId) :
    Gathered (fs ++ [f]) f.stream (c.opening f) ∧ f ∈ since f.stream (fs ++ [f]) := by
  have hopens : opens f.stream f = true := by
    rw [opens, ha.headers]
    exact decide_eq_true rfl
  have hpart : dataPart f.stream f = [] :=
    dataPart_other fun hdata => by cases ha.headers.symm.trans hdata
  cases hs : c.streams.get? f.stream with
  | some s =>
    have hg := hstreams s hs
    have hother := hg.other hpart
    refine ⟨?_, hg.last_mem f⟩
    rw [opening, hs, getD_some]
    split_ifs with hend
    · exact { hother with
        ended := fun _ => ⟨f, hg.last_mem f, rfl, .inl ha.headers, hend⟩ }
    · exact hother
  | none =>
    have hnone : fs.any (opens f.stream) = false := by
      refine any_eq_false.mpr fun g hg ho => ?_
      obtain ⟨hh, hid⟩ := and_eq_true_iff.mp ho
      have hle := hnew g hg (of_decide_eq_true hh)
      rw [of_decide_eq_true hid] at hle
      exact ha.known hle hs
    have hsince := since_concat_new hnone hopens
    have hmem : f ∈ since f.stream (fs ++ [f]) := by
      rw [hsince]
      exact mem_singleton_self f
    have hbegun : (fs ++ [f]).any (opens f.stream) = true :=
      any_eq_true.mpr ⟨f, mem_append_right _ (mem_singleton_self f), hopens⟩
    have hbody : bodyOf f.stream (fs ++ [f]) = [] := by
      rw [bodyOf, hsince, flatMap_singleton, hpart]
    refine ⟨?_, hmem⟩
    rw [opening, hs, getD_none]
    split_ifs with hend
    · refine ⟨hbegun, hbody.symm, ?_, fun _ => ⟨f, hmem, rfl, .inl ha.headers, hend⟩⟩
      intro h
      cases h
    · refine ⟨hbegun, hbody.symm, ?_, ?_⟩
      all_goals
        intro h
        cases h

theorem Changed.gathered {s' : Stream} (hch : Changed env c f s')
    (hstreams : ∀ s, c.streams.get? f.stream = some s → Gathered fs f.stream s)
    (hnew : ∀ g ∈ fs, g.ftype = .headers → g.stream ≤ c.lastStreamId) :
    Gathered (fs ++ [f]) f.stream s' := by
  cases hch with
  | @data s first last w ha hf hs hcut =>
    have hg := hstreams s hs
    have hpart : dataPart f.stream f = (f.payload.take last).drop first := by
      rw [dataPart, if_pos ⟨hf, rfl⟩, hcut]
    constructor
    · exact hg.begun_concat f
    · rw [hg.body_concat, hpart]
      rfl
    · exact fun hdone => hg.complete_concat hdone f
    · intro hstate
      change (if _ then _ else _) = _ at hstate
      split_ifs at hstate with hend
      · exact ⟨f, hg.last_mem f, rfl, .inr hf, hend⟩
      · exact hg.ended_concat hstate f
  | opened ha => exact (opening_gathered ha hstreams hnew).1
  | headers ha hend fields =>
    obtain ⟨hg, hmem⟩ := opening_gathered ha hstreams hnew
    exact hg.withFields ⟨f, hmem, rfl, .inl ha.headers, hend⟩ fields
  | @continued s ha hend hs fields =>
    have hg := hstreams s hs
    have hpart : dataPart f.stream f = [] :=
      dataPart_other fun hdata => nomatch ha.continuation.symm.trans hdata
    exact (hg.other hpart).withFields ⟨f, hg.last_mem f, rfl, .inr ha.continuation, hend⟩ fields

/-- What a connection keeps, of the frames that it took. -/
structure Gathers (c : Conn) (fs : List Frame) : Prop where
  streams : ∀ id s, c.streams.get? id = some s → Gathered fs id s
  opened : ∀ g ∈ fs, g.ftype = .headers → g.stream ≤ c.lastStreamId

/-- **One frame** adds to its stream what it carries. -/
theorem Handles.gathers (hh : Handles libs env c f c₁ tail) (htail : ∀ why, tail ≠ .error why)
    (ho : c.Ordered) (h : c.Gathers fs) : c₁.Gathers (fs ++ [f]) where
  streams := fun id s' hs' => by
    have hown (hch : Changed env c f s') : Gathered (fs ++ [f]) f.stream s' :=
      hch.gathered (h.streams f.stream) h.opened
    rcases hh.streams hs' with ⟨s, w, hs, rfl⟩ | ⟨rfl, hch, -⟩
    · by_cases hdata : f.ftype = .data ∧ f.stream = id
      · obtain ⟨hf, rfl⟩ := hdata
        exact hown (hh.data_changed htail ho hf hs')
      · have hg := (h.streams id s hs).other (if_neg hdata)
        exact { hg with }
    · exact hown hch
  opened := fun g hg hf => by
    rcases mem_append.mp hg with hg | hg
    · exact (h.opened g hg hf).trans hh.last
    · cases mem_singleton.mp hg
      exact hh.headers_known htail ho hf

theorem Gathers.follows (h : c.Gathers fs) (hf : Follows c c') : c'.Gathers fs where
  streams := fun id s' hs' => by
    obtain ⟨s, hs, hin⟩ := hf.streams id s' hs'
    exact (h.streams id s hs).inherits hin
  opened := fun g hg hh => (h.opened g hg hh).trans hf.last

/-! ## Requests -/

def declaredNumber (v : Str) : Option Nat :=
  if Text.trim v ≠ [] ∧ (Text.trim v).all Char.isDigit then
    some ((Text.trim v).foldl (fun n d => 10 * n + (d.toNat - 48)) 0)
  else none

def Misdeclared (headers : List (Str × Str)) (body : Bytes) : Prop :=
  ∃ v, ("content-length".toList, v) ∈ headers ∧ ∃ n, declaredNumber v = some n ∧ n ≠ body.length

/-- **A request that is whole**, by what was taken before it is handed over. -/
structure Whole (before : List Entry) (id : Nat) (req : RawRequest) : Prop where
  once : id ∉ Http2.handedStreams before
  complete : BlockComplete id (tookFrames before)
  ended : Ended id (tookFrames before)
  body : req.body = bodyOf id (tookFrames before)
  length : ¬ Misdeclared req.headers req.body

/-- **Every request that was handed over was whole.** -/
def Faithful (c : Conn) : Prop :=
  Each (fun before e => ∀ id req, e = .handed id req → Whole before id req) c.log

/-- The methods of requests that are taken to have no body. -/
def bodiless : List Str :=
  ["GET".toList, "HEAD".toList, "DELETE".toList, "OPTIONS".toList, "CONNECT".toList]

/-- The client has not ended the stream, and its method is one of those. -/
def Early (s : Stream) : Prop :=
  s.state ≠ .halfClosedRemote ∧ ∃ m ∈ bodiless, (":method".toList, m) ∈ s.headers

/-- A length is declared wrongly in a field after the first, or in one that is too large for the
machine. -/
def LengthSkipped (headers : List (Str × Str)) (body : Bytes) : Prop :=
  ∃ before v after n, headers = before ++ ("content-length".toList, v) :: after ∧
    declaredNumber v = some n ∧ n ≠ body.length ∧
    (2 ^ 64 ≤ n ∨ ∃ w, ("content-length".toList, w) ∈ before)

theorem early_of_ready {s : Stream} (hr : ready s = true) (hended : s.state ≠ .halfClosedRemote) :
    Early s := by
  refine ⟨hended, ?_⟩
  rw [ready, beq_eq_false_iff_ne.mpr hended, Bool.false_or] at hr
  simp only [and_eq_true] at hr
  have honly := hr.1.1.1.2
  rw [isHeadersonly] at honly
  split at honly
  case h_1 f hfind =>
    have hp := find?_some hfind
    have hname := of_decide_eq_true hp
    exact ⟨f.2, contains_iff_mem.mp honly, hname ▸ mem_of_find?_eq_some hfind⟩
  case h_2 => cases honly

theorem parseUsize_of_declared {v : Str} {n : Nat} (h : declaredNumber v = some n)
    (hn : n < 2 ^ 64) : parseUsize (Text.trim v) = some n := by
  rw [declaredNumber] at h
  split_ifs at h with hdigits
  cases h
  have hplus : (Text.trim v).head? ≠ some '+' := fun hhead =>
    absurd (all_eq_true.mp hdigits.2 _ (mem_of_mem_head? hhead)) (by decide)
  rw [parseUsize, if_neg hplus, if_pos hdigits]
  exact if_pos hn

/-- **What the check misses**: a wrong length that is not the first, or not a number of the machine.
-/
theorem lengthSkipped_of_misdeclared {headers : List (Str × Str)} {body : Bytes}
    (h : Misdeclared headers body) (hok : ∀ n ∈ declaredLength headers, n = body.length) :
    LengthSkipped headers body := by
  obtain ⟨v, hv, n, hn, hne⟩ := h
  obtain ⟨before, after, rfl⟩ := append_of_mem hv
  refine ⟨before, v, after, n, rfl, hn, hne, ?_⟩
  by_contra hno
  obtain ⟨hlt, hfirst⟩ := not_or.mp hno
  refine hne (hok n ?_)
  have hnone : before.find? (fun f => f.1 = "content-length".toList) = none :=
    find?_eq_none.mpr fun f hf hname =>
      hfirst ⟨f.2, (of_decide_eq_true hname : f.1 = _) ▸ hf⟩
  have hhere : (("content-length".toList, v) :: after).find?
      (fun f => f.1 = "content-length".toList) = some ("content-length".toList, v) :=
    find?_cons_of_pos (decide_eq_true rfl)
  rw [declaredLength, find?_append, hnone, none_or, hhere]
  exact parseUsize_of_declared hn (not_le.mp hlt)

/-- A frame that completes a valid request before the client has ended its stream, or one that
declares a length that is not compared. -/
def HandsOverUnfit (libs : Libs) (c : Conn) : Event → Prop
  | .frame env => ∃ f rest s, c.nextFrame = some (f, rest) ∧
      Completes libs env (c.enter.take f rest) f s ∧ ready s = true ∧ ¬ Invalid s ∧
      (Early s ∨ LengthSkipped s.headers s.body)
  | _ => False

/-- What a connection keeps. -/
structure HandsWhole (c : Conn) : Prop where
  ordered : c.Ordered
  gathers : c.phase ≠ .done → c.Gathers (tookFrames c.log)
  faithful : c.Faithful

theorem Faithful.appends {P : Entry → Prop} (hP : ∀ id req, ¬ P (.handed id req))
    (h : c.Faithful) (happ : Appends P c c') : c'.Faithful := by
  obtain ⟨es, hes, hall⟩ := happ
  rw [Faithful, hes]
  refine each_append_of_forall h fun e he _ id req heq => ?_
  rw [heq] at he
  exact absurd (hall _ he) (hP id req)

theorem Faithful.same (h : c.Faithful) (hlog : c'.log = c.log) : c'.Faithful := by
  rw [Faithful, hlog]
  exact h

theorem misdeclared_requestOf {s : Stream}
    (h : Misdeclared (requestOf s).headers (requestOf s).body) :
    Misdeclared s.headers s.body := by
  obtain ⟨v, hv, hn⟩ := h
  refine ⟨v, ?_, hn⟩
  change _ ∈ withHost _ _ at hv
  rw [fwd_foldl] at hv
  have hfwd : ("content-length".toList, v) ∈ s.headers.filter isRegular := by
    unfold withHost at hv
    split at hv
    · split_ifs at hv
      · rcases mem_append.mp hv with hv | hv
        · exact hv
        · have hname : "content-length".toList = "Host".toList :=
            congrArg Prod.fst (mem_singleton.mp hv)
          exact absurd hname (by decide)
      · exact hv
    · exact hv
  exact (mem_filter.mp hfwd).1

theorem Faithful.handOver (h : c.Faithful) (ho : c.Ordered) (hg : c.Gathers (tookFrames c.log))
    {stream : Nat} {s : Stream} (hs : c.streams.get? stream = some s) (hr : ready s = true)
    (hended : s.state = .halfClosedRemote) (hlength : ¬ Misdeclared s.headers s.body) :
    (c.handOver stream (requestOf s)).Faithful := by
  refine each_concat h fun id req heq => ?_
  cases heq
  have hgs := hg.streams stream s hs
  have hdone : s.headersDone = true := by
    rw [ready, and_eq_true, and_eq_true, and_eq_true, and_eq_true] at hr
    exact hr.1.1.1.1
  exact {
    once := fun hin => not_asked_of_ready hr ((ho.handed stream hin).2 s hs)
    complete := hgs.complete hdone
    ended := hgs.ended hended
    body := hgs.body
    length := mt misdeclared_requestOf hlength }

theorem Faithful.respond (h : c.Faithful) (libs : Libs) (stream status : Nat)
    (headers : List (Str × Str)) (body : Bytes) (method : Str) :
    (c.respond libs stream status headers body method).Faithful := by
  rw [Faithful, log_respond]
  refine each_append_of_forall h fun e he _ id req heq => ?_
  rw [heq] at he
  rcases mem_cons.mp he with he | he
  · cases he
  · cases mem_singleton.mp he

theorem Faithful.flushes {ids : List Nat} (h : c.Faithful) (hf : Flushes ids c c') : c'.Faithful :=
  h.appends (P := fun e => ∃ f, e = .wrote f) (by rintro id req ⟨f, ⟨⟩⟩)
    (hf.appends fun f _ => ⟨f, rfl⟩)

theorem Dispatches.faithful {stream : Nat} (hd : Dispatches libs env stream c c')
    (h : c.Faithful) (ho : c.Ordered) (hg : c.Gathers (tookFrames c.log))
    (hok : ∀ s, c.streams.get? stream = some s → ready s = true → ¬ Invalid s →
      s.state = .halfClosedRemote ∧ ¬ Misdeclared s.headers s.body) : c'.Faithful := by
  cases hd with
  | notReady => exact h
  | rejected =>
    exact h.appends (P := ofHandler) (fun _ _ h => h) (.single (.inl mem_cons_self) rfl)
  | @pending s hs hr hgood ho' =>
    obtain ⟨hended, hlength⟩ := hok s hs hr hgood
    exact (h.handOver ho hg hs hr hended hlength).same (log_updateStream ..)
  | @answered s status headers body c' hs hr hgood ho' hf =>
    obtain ⟨hended, hlength⟩ := hok s hs hr hgood
    exact ((h.handOver ho hg hs hr hended hlength).respond libs stream status headers
      body _).flushes
      hf

theorem Faithful.enter (h : c.Faithful) : c.enter.Faithful :=
  h.appends (P := ofHandler) (fun _ _ h => h) (ofHandler_enter c)

theorem Faithful.giveUp (h : c.Faithful) : c.giveUp.Faithful :=
  h.appends (P := ofHandler) (fun _ _ h => h) (ofHandler_giveUp c)

theorem Gathers.same (h : c.Gathers fs) (hstreams : c'.streams = c.streams)
    (hlast : c'.lastStreamId = c.lastStreamId) : c'.Gathers fs where
  streams := hstreams ▸ h.streams
  opened := hlast ▸ h.opened

theorem Kept.tookFrames (hk : Kept c c') : Http2.tookFrames c'.log = Http2.tookFrames c.log :=
  tookFrames_of_appends (P := ofResponse) (fun _ h => h) hk.log

/-- **One step** hands over whole requests only, unless one is unfit. -/
theorem Steps.handsWhole {e : Event} (hs : Steps libs c e c') (h : c.HandsWhole)
    (hok : ¬ c.HandsOverUnfit libs e) : c'.HandsWhole := by
  have responds {c c' : Conn} (hg : c.phase ≠ .done → c.Gathers (Http2.tookFrames c.log))
      (hk : Kept c c') (hf : Follows c c') :
      c'.phase ≠ .done → c'.Gathers (Http2.tookFrames c'.log) := fun hp => by
    rw [hk.tookFrames]
    exact (hg (hk.phase ▸ hp)).follows hf
  refine ⟨hs.ordered h.ordered, ?_, ?_⟩
  · cases hs with
    | still => exact h.gathers
    | arrive _ hp => exact fun _ => (h.gathers hp).same rfl rfl
    | waits env hp =>
      intro _
      rw [tookFrames_of_appends (P := ofHandler) (fun _ h => h)
        (ofHandler_enter c)]
      exact (h.gathers hp).same (streams_enter c).1 (streams_enter c).2
    | badPreface | tooLarge | failed | idled | ioFailed | settled => exact fun hp => absurd rfl hp
    | @frame env f rest c₁ _ tail hp hf hh hl =>
      have htail : ∀ why, tail ≠ .error why := by
        rintro why rfl
        cases hl
      have hbefore : (c.enter.take f rest).Gathers (Http2.tookFrames c.log) :=
        (h.gathers hp).same (streams_enter c).1 (streams_enter c).2
      have hafter := hh.gathers htail (h.ordered.take f rest) hbefore
      refine responds (fun _ => ?_) hl.kept hl.follows
      rw [tookFrames_of_appends (P := ofHandler) (fun _ h => h) hh.ofHandler, tookFrames_take]
      exact hafter
    | answered hp hs hm hf =>
      exact responds h.gathers ((Kept.answerWith ..).trans hf.kept)
        ((Follows.answerWith libs hs ..).trans hf.follows)
    | flushed hf => exact responds h.gathers hf.kept hf.follows
  · have taken (f : Frame) (rest : Bytes) : (c.enter.take f rest).Faithful :=
      each_concat h.faithful.enter fun _ _ heq => nomatch heq
    cases hs with
    | still | arrive | ioFailed | settled => exact h.faithful
    | waits => exact h.faithful.enter
    | badPreface => exact h.faithful.giveUp
    | tooLarge =>
      have herr : (c.enter.connectionError errFrameSize).Faithful :=
        h.faithful.enter.appends (P := ofHandler) (fun _ _ h => h) (.single (.inr rfl) rfl)
      exact herr.giveUp
    | @frame env f rest c₁ _ tail hp hf hh hl =>
      have htail : ∀ why, tail ≠ .error why := by
        rintro why rfl
        cases hl
      have hc₁ := (taken f rest).appends (P := ofHandler) (fun _ _ h => h) hh.ofHandler
      cases hl with
      | ok => exact hc₁
      | flush hflush => exact hc₁.flushes hflush
      | dispatch hd =>
        have hbefore : (c.enter.take f rest).Gathers (Http2.tookFrames c.log) :=
          (h.gathers hp).same (streams_enter c).1 (streams_enter c).2
        have hafter := hh.gathers htail (h.ordered.take f rest) hbefore
        have ho₁ := (h.ordered.take f rest).handles hh (nextFrame_bounds hf).2
        refine hd.faithful hc₁ ho₁ ?_ fun s hs hr hgood => ?_
        · rw [tookFrames_of_appends (P := ofHandler) (fun _ h => h) hh.ofHandler, tookFrames_take]
          exact hafter
        · obtain ⟨rfl, s', hcomp, hs'⟩ := hh.completes
          cases hs.symm.trans hs'
          have unfit (hwhy : Early s ∨ LengthSkipped s.headers s.body) : False :=
            hok ⟨f, rest, s, hf, hcomp, hr, hgood, hwhy⟩
          refine ⟨?_, fun hlength => unfit (.inr (lengthSkipped_of_misdeclared hlength ?_))⟩
          · by_contra hended
            exact unfit (.inl (early_of_ready hr hended))
          · intro n hn
            by_contra hne
            exact hgood (.inl ⟨n, hn, hne⟩)
    | failed _ _ hh =>
      exact ((taken _ _).appends (P := ofHandler) (fun _ _ h => h)
        (hh.appends (fun _ hf _ _ _ _ => .inl hf) fun _ _ hf _ => .inr hf)).giveUp
    | @answered env stream status headers body s method c' hp hs hm hf =>
      have hset : (c.setStream stream { s with pending := none }).Faithful := h.faithful
      exact (hset.respond libs stream status headers body method).flushes hf
    | flushed hf => exact h.faithful.flushes hf
    | idled =>
      exact h.faithful.appends (P := ofHandler) (fun _ _ h => h) (.single (.inr rfl) rfl)

end Conn

/-- **The server hands over whole requests**, each once, in every state of a run, as long as no
request of the five methods is completed before its stream is ended, and none declares a length that
is not compared. -/
theorem faithful_of_steps (libs : Libs) (events : List Event)
    (h : EachStep (Conn.step libs) (fun c e => ¬ c.HandsOverUnfit libs e) Conn.new events) :
    Throughout (Conn.step libs) Conn.Faithful Conn.new events :=
  Conn.throughout_kept_of libs (I := Conn.HandsWhole) (fun _ _ _ _ hc hok hs =>
    hs.handsWhole hc hok)
    (fun _ _ hc => hc.faithful) ⟨.new, fun _ => ⟨nofun, nofun⟩, each_nil⟩ events h

theorem faithful_of_steps_parts : Throughout (Conn.step postLibs) Conn.Faithful Conn.new
      [.arrive postInParts, .frame plainEnv, .frame plainEnv, .frame plainEnv,
        .frame plainEnv] := by
  refine faithful_of_steps postLibs _ (.cons id rfl (.cons ?_ rfl (.cons ?_ rfl (.cons ?_ rfl
    ⟨?_, fun _ _ => trivial⟩))))
  · -- the block is not complete
    rintro ⟨f, rest, s, hf, hcomp, hr, -⟩
    cases hf
    cases hcomp with
    | data _ hf => cases hf
    | headersPart => cases hr
    | headers _ _ _ hend => cases hend
    | continuation ha => cases ha.continuation
  · -- the stream is not ended
    rintro ⟨f, rest, s, hf, hcomp, hr, -⟩
    cases hf
    cases hcomp with
    | data _ hf => cases hf
    | headersPart ha | headers ha => cases ha.headers
    | continuation _ _ _ _ hs hdec =>
      cases hdec
      cases hs
      cases hr
  · rintro ⟨f, rest, s, hf, hcomp, -⟩
    cases hf
    cases hcomp with
    | data _ _ _ _ _ _ _ hend => cases hend
    | headersPart ha | headers ha => cases ha.headers
    | continuation ha => cases ha.continuation
  · rintro ⟨f, rest, s, hf, hcomp, -, -, hunfit⟩
    cases hf
    cases hcomp with
    | data _ _ _ hs =>
      cases hs
      obtain hearly | ⟨before, v, after, n, heq, -⟩ := hunfit
      · exact hearly.1 rfl
      · have hv : ("content-length".toList, v) ∈ before ++ ("content-length".toList, v) :: after :=
          mem_append_cons_self
        rw [← heq] at hv
        have hno : ∀ f ∈ [(":method".toList, "POST".toList), (":scheme".toList, "http".toList),
            (":path".toList, "/".toList), (":authority".toList, "a".toList)],
            f.1 ≠ "content-length".toList := by decide
        exact hno _ hv rfl
    | headersPart ha | headers ha => cases ha.headers
    | continuation ha => cases ha.continuation

/-- `DELETE` of `/` by `http` from `a`. -/
def deleteBlock : Bytes :=
  [0x42, 6, 0x44, 0x45, 0x4c, 0x45, 0x54, 0x45, 0x86, 0x84, 0x41, 1, 0x61]

def deleteLibs : Libs :=
  ⟨fun _ _ => some [(lit ":method", lit "DELETE"), (lit ":scheme", lit "http"),
    (lit ":path", lit "/"), (lit ":authority", lit "a")], fun _ _ => [], id, []⟩

theorem delete_not_faithful : ¬ Throughout (Conn.step deleteLibs) Conn.Faithful Conn.new
      [.arrive (clientPreface ++ [0, 0, 13, 1, 4, 0, 0, 0, 1] ++ deleteBlock ++
        [0, 0, 2, 0, 1, 0, 0, 0, 1, 0x61, 0x62]), .frame plainEnv, .frame plainEnv] := by
  intro h
  have hfirst := ((h.2 _ rfl).2 _ rfl).1
  have hwhole := hfirst [_, _] (.handed 1 _) [] rfl 1 _ rfl
  obtain ⟨f, hf, -, -, hend⟩ := hwhole.ended
  have hnone : ([⟨.headers, 4, 1, deleteBlock⟩] : List Frame).all
    (fun f => !has f.flags flagEndStream) = true := by decide
  have hno := all_eq_true.mp hnone f hf
  rw [hend] at hno
  cases hno

end M6.Http2
