import M6.Edge.H2Streams

/-!
# Header sections of the HTTP/2 server

A header section that is complete adds its fields to its stream, and the decoder was asked for its
block (`closeSection`). The sending of responses looks at no header section, so that it does not
matter to it whether a section is complete before or after it: it commutes with `closeSection`, and
so does the handing over of a request that was read before (`handOn_closeSection`).
-/

namespace M6.Http2

open Runs Option SortedMap

namespace Conn

variable {libs : Libs} {env : Env} {c : Conn}

/-! ## A section that is complete -/

/-- A stream when a section of `stream` is complete. -/
def withSection (stream : Nat) (fields : List (Str × Str)) (id : Nat) (s : Stream) : Stream :=
  if id = stream then withFields s fields else s

/-- The connection when the section of a stream is complete, and the decoder was asked `ops`. -/
def closeSection (stream : Nat) (fields : List (Str × Str)) (ops : List DecoderOp) (c : Conn) :
    Conn :=
  { c with
    streams := c.streams.mapWith (withSection stream fields)
    hpackDec := ops
    headerBlockBuf := []
    continuationStreamId := none }

section

variable (stream : Nat) (fields : List (Str × Str)) (ops : List DecoderOp)

theorem get?_closeSection (c : Conn) (id : Nat) :
    (c.closeSection stream fields ops).streams.get? id =
      (c.streams.get? id).map (withSection stream fields id) :=
  get?_mapWith ..

theorem withSection_response (id : Nat) (s : Stream) :
    (withSection stream fields id s).state = s.state ∧
      (withSection stream fields id s).sendWindow = s.sendWindow ∧
      (withSection stream fields id s).respBody = s.respBody ∧
      (withSection stream fields id s).respSent = s.respSent := by
  unfold withSection
  split_ifs
  all_goals exact ⟨rfl, rfl, rfl, rfl⟩

theorem closeSection_setStream (c : Conn) (id : Nat) (s : Stream) :
    (c.setStream id s).closeSection stream fields ops =
      (c.closeSection stream fields ops).setStream id (withSection stream fields id s) := by
  have hstreams : (c.streams.insert id s).mapWith (withSection stream fields) =
      (c.streams.mapWith (withSection stream fields)).insert id
        (withSection stream fields id s) := by
    refine ext_get? fun id' => ?_
    rw [get?_mapWith, get?_insert, get?_insert, get?_mapWith]
    split_ifs with hid
    · rw [hid]
      rfl
    · rfl
  rw [Conn.setStream, closeSection, hstreams]
  rfl

theorem closeSection_removeStream (c : Conn) (id : Nat) :
    (c.removeStream id).closeSection stream fields ops =
      (c.closeSection stream fields ops).removeStream id := by
  have hstreams : (c.streams.erase id).mapWith (withSection stream fields) =
      (c.streams.mapWith (withSection stream fields)).erase id := by
    refine ext_get? fun id' => ?_
    rw [get?_mapWith, get?_erase, get?_erase, get?_mapWith]
    split_ifs
    · rfl
    · rfl
  rw [Conn.removeStream, closeSection, hstreams]
  rfl

theorem closeSection_updateStream (c : Conn) (id : Nat) {g : Stream → Stream}
    (hg : ∀ s, withSection stream fields id (g s) = g (withSection stream fields id s)) :
    (c.updateStream id g).closeSection stream fields ops =
      (c.closeSection stream fields ops).updateStream id g := by
  unfold Conn.updateStream
  rw [get?_closeSection]
  cases hs : c.streams.get? id with
  | none => rfl
  | some s =>
    dsimp only [map_some]
    rw [closeSection_setStream, hg]

theorem withSection_comm (id : Nat) {g : Stream → Stream}
    (hg : ∀ s, withFields (g s) fields = g (withFields s fields)) (s : Stream) :
    withSection stream fields id (g s) = g (withSection stream fields id s) := by
  unfold withSection
  split_ifs
  · exact hg s
  · rfl

theorem closeSection_closeStream (c : Conn) (id : Nat) :
    (c.closeStreamRememberingWindow id).closeSection stream fields ops =
      (c.closeSection stream fields ops).closeStreamRememberingWindow id := by
  unfold closeStreamRememberingWindow
  rw [get?_closeSection, ← closeSection_removeStream]
  cases hs : c.streams.get? id with
  | none => rfl
  | some s =>
    dsimp only [map_some]
    rw [(withSection_response stream fields id s).2.1]
    rfl

theorem closeSection_endStream (c : Conn) (id : Nat) (state : StreamState) :
    (c.endStream id state).closeSection stream fields ops =
      (c.closeSection stream fields ops).endStream id state := by
  unfold Conn.endStream
  rw [← closeSection_closeStream]
  split_ifs
  · rfl
  · rfl
  · exact closeSection_updateStream stream fields ops c id
      (withSection_comm stream fields id fun _ => rfl)

theorem exhausted_closeSection (c : Conn) (id : Nat) :
    (c.closeSection stream fields ops).exhausted id = c.exhausted id := by
  have hwindow : ((c.closeSection stream fields ops).streams.get? id).map Stream.sendWindow =
      (c.streams.get? id).map Stream.sendWindow := by
    rw [get?_closeSection, Option.map_map]
    exact Option.map_congr fun s _ => (withSection_response stream fields id s).2.1
  exact congrArg (fun w : Option Int => c.connSendWindow ≤ 0 || w.getD 0 ≤ 0) hwindow

theorem sendChunk_closeSection (c : Conn) (id : Nat) (s : Stream) (body : Bytes) (n : Nat) :
    (c.closeSection stream fields ops).sendChunk id (withSection stream fields id s) body n =
      (c.sendChunk id s body n).map (closeSection stream fields ops) := by
  obtain ⟨-, hwindow, -, hsent⟩ := withSection_response stream fields id s
  unfold sendChunk
  rw [hsent, hwindow]
  cases slice? body s.respSent (s.respSent + n) with
  | none => rfl
  | some chunk =>
    simp only [bind_eq_bind, bind_some]
    change ((i32 (c.connSendWindow - n)).bind _) = ((i32 (c.connSendWindow - n)).bind _).map _
    cases i32 (c.connSendWindow - n) with
    | none => rfl
    | some w =>
      simp only [bind_some]
      cases i32 (s.sendWindow - n) with
      | none => rfl
      | some w' =>
        simp only [bind_some, map_some]
        rw [closeSection_setStream, withSection_comm (g := fun s =>
          { s with sendWindow := w', respSent := s.respSent + n }) stream fields id
            fun _ => rfl, hsent]
        rfl

/-- **Sending looks at no header section.** -/
theorem flushRounds_closeSection (id rounds : Nat) (c : Conn) :
    flushRounds id rounds (c.closeSection stream fields ops) =
      (flushRounds id rounds c).map (closeSection stream fields ops) := by
  induction rounds generalizing c with
  | zero => rfl
  | succ rounds ih =>
    rw [flushRounds, flushRounds, get?_closeSection]
    cases c.streams.get? id with
    | none => rfl
    | some s =>
      obtain ⟨hstate, hwindow, hbody, hsent⟩ := withSection_response stream fields id s
      dsimp only [map_some]
      rw [hbody, hsent]
      cases s.respBody with
      | none => rfl
      | some body =>
        dsimp only
        have hsend : (c.closeSection stream fields ops).toSend (withSection stream fields id s)
            (body.length - s.respSent) = c.toSend s (body.length - s.respSent) := by
          unfold toSend
          rw [hwindow]
          rfl
        rw [exhausted_closeSection, hsend, sendChunk_closeSection, hstate]
        split_ifs
        · rfl
        · rw [map_some, closeSection_closeStream]
          rfl
        · rfl
        · cases c.sendChunk id s body (c.toSend s (body.length - s.respSent)) with
          | none => rfl
          | some c₁ =>
            dsimp only [map_some]
            rw [closeSection_endStream]
        · cases c.sendChunk id s body (c.toSend s (body.length - s.respSent)) with
          | none => rfl
          | some c₁ =>
            dsimp only [map_some]
            rw [exhausted_closeSection, ih]
            split_ifs
            · rfl
            · rfl

theorem unsent_closeSection (c : Conn) (id : Nat) :
    (c.closeSection stream fields ops).unsent id = c.unsent id := by
  unfold unsent
  rw [get?_closeSection]
  cases c.streams.get? id with
  | none => rfl
  | some s =>
    obtain ⟨-, -, hbody, hsent⟩ := withSection_response stream fields id s
    dsimp only [map_some]
    rw [hbody, hsent]

theorem flushPendingStreams_closeSection (env : Env) (c : Conn) :
    (c.closeSection stream fields ops).flushPendingStreams env =
      (c.flushPendingStreams env).map (closeSection stream fields ops) := by
  have general (ids : List Nat) (c : Conn) :
      ids.foldlM (fun c id => flushRounds id (c.unsent id + 1) c)
        (c.closeSection stream fields ops) =
        (ids.foldlM (fun c id => flushRounds id (c.unsent id + 1) c) c).map
          (closeSection stream fields ops) := by
    induction ids generalizing c with
    | nil => rfl
    | cons id ids ih =>
      rw [List.foldlM_cons, List.foldlM_cons, unsent_closeSection, flushRounds_closeSection]
      cases flushRounds id (c.unsent id + 1) c with
      | none => rfl
      | some c₁ => exact ih c₁
  have hkeys : (c.closeSection stream fields ops).streams.entries.map Prod.fst =
      c.streams.entries.map Prod.fst := keys_mapWith ..
  unfold flushPendingStreams
  rw [hkeys]
  exact general _ c

theorem respond_closeSection (libs : Libs) (c : Conn) (id status : Nat)
    (headers : List (Str × Str)) (body : Bytes) (method : Str) :
    (c.closeSection stream fields ops).respond libs id status headers body method =
      (c.respond libs id status headers body method).closeSection stream fields ops := by
  rw [Conn.respond, Conn.respond, closeSection_updateStream stream fields ops _ id
    (withSection_comm stream fields id fun _ => rfl)]
  rfl

end

theorem addFields_eq_closeSection (libs : Libs) (c : Conn) (stream : Nat)
    (fields : List (Str × Str)) (block : Bytes) :
    (c.blockDone.decoded libs block).addFields stream fields =
      c.closeSection stream fields (c.hpackDec ++ [.decode block]) := by
  obtain ⟨m, hm, hget⟩ := addFields_eq (c.blockDone.decoded libs block) stream fields
  have hstreams : m = c.streams.mapWith (withSection stream fields) := by
    refine ext_get? fun id => (hget id).trans ?_
    change (if id = stream then (c.streams.get? id).map _ else c.streams.get? id) = _
    rw [get?_mapWith]
    unfold withSection
    split_ifs
    · rfl
    · exact Option.map_id'.symm
  rw [hm, hstreams]
  rfl

/-! ## Handing over -/

def clientOf (env : Env) (s : Stream) : Str := env.clientIp (buildRequest s.headers s.body).2

def handOn (libs : Libs) (env : Env) (c : Conn) (stream : Nat) (req : RawRequest) (client : Str) :
    Option Conn :=
  match env.onRequest req client with
  | .ready status headers body =>
    (c.handOver stream req).dispatchH2Response libs env stream status headers body req.method
  | .pending =>
    some ((c.handOver stream req).updateStream stream
      fun s => { s with pending := some req.method })

section

variable {stream : Nat} {s : Stream}

theorem maybeDispatch_waits (libs : Libs) (env : Env) (hs : c.streams.get? stream = some s)
    (hr : ready s = false) : c.maybeDispatch libs env stream = some c := by
  rw [maybeDispatch, hs]
  dsimp only
  rw [hr]
  rfl

theorem maybeDispatch_rejects (libs : Libs) (env : Env) (hs : c.streams.get? stream = some s)
    (hr : ready s = true) (hbad : Invalid s) :
    c.maybeDispatch libs env stream = some (c.rejectRequest stream) := by
  rw [maybeDispatch, hs]
  dsimp only
  rw [hr, if_neg (by decide)]
  by_cases hlen : ∃ n ∈ declaredLength s.headers, n ≠ s.body.length
  · rw [if_pos hlen]
  · obtain ⟨why, hv⟩ := hbad.resolve_left hlen
    rw [if_neg hlen, hv]

theorem maybeDispatch_handsOn (libs : Libs) (env : Env) (hs : c.streams.get? stream = some s)
    (hr : ready s = true) (hgood : ¬ Invalid s) : c.maybeDispatch libs env stream =
      c.handOn libs env stream (requestOf s) (clientOf env s) := by
  rw [maybeDispatch, hs]
  dsimp only
  rw [hr, if_neg (by decide), if_neg fun hlen => hgood (.inl hlen)]
  cases hv : validateRequestHeaders s.headers with
  | error why => exact absurd (.inr ⟨why, hv⟩) hgood
  | ok => rfl

/-- **The handler does not care** whether the section goes on after the request was handed over. -/
theorem handOn_closeSection (libs : Libs) (env : Env) (c : Conn) (id : Nat) (req : RawRequest)
    (client : Str) (stream : Nat) (fields : List (Str × Str)) (ops : List DecoderOp) :
    (c.closeSection stream fields ops).handOn libs env id req client =
      (c.handOn libs env id req client).map (closeSection stream fields ops) := by
  have hover : (c.closeSection stream fields ops).handOver id req =
      (c.handOver id req).closeSection stream fields ops := rfl
  unfold handOn
  rw [hover]
  cases env.onRequest req client with
  | ready status headers body =>
    dsimp only [dispatchH2Response]
    rw [respond_closeSection, flushPendingStreams_closeSection]
  | pending =>
    dsimp only [map_some]
    rw [closeSection_updateStream stream fields ops _ id
      (withSection_comm stream fields id fun _ => rfl)]

theorem handOn_spec (libs : Libs) (env : Env) (h : c.Sound) (id : Nat) (req : RawRequest)
    (client : Str) :
    ∃ c' es, c.handOn libs env id req client = some c' ∧ c'.log = c.log ++ .handed id req :: es ∧
      Kept c c' ∧ (∀ s', c'.streams.get? id = some s' → Asked s') ∧
      (es = [] ↔ env.onRequest req client = .pending) := by
  unfold handOn
  cases ho : env.onRequest req client with
  | pending =>
    refine ⟨_, [], rfl, log_updateStream .., (Kept.handOver ..).trans (.updateStream ..), ?_,
      fun _ => rfl, fun _ => rfl⟩
    intro s' hs'
    obtain ⟨m, hm, hget⟩ := updateStream_eq (c.handOver id req) id fun s =>
      { s with pending := some req.method }
    rw [hm] at hs'
    obtain ⟨s, -, rfl⟩ := map_eq_some_iff.mp ((if_pos rfl).symm.trans ((hget id).symm.trans hs'))
    exact .inr (some_ne_none _)
  | ready status headers body =>
    have hsound := Sound.respond libs (c := c.handOver id req) h id status headers body req.method
    obtain ⟨c', hc', hf⟩ := flushPendingStreams_flushes env hsound
    have hlog := log_respond libs (c.handOver id req) id status headers body req.method
    obtain ⟨es, hes, -⟩ := hf.kept.log
    refine ⟨c', .answered id (sentBody req.method body) :: .wrote ⟨.headers,
      flagEndHeaders, low31 id,
        libs.encode c.hpackEnc (responseFields libs status headers body.length)⟩ :: es, hc', ?_,
      (Kept.handOver ..).trans ((Kept.respond ..).trans hf.kept), ?_, nofun, nofun⟩
    · rw [hes, hlog]
      change ((c.log ++ [_]) ++ [_, _]) ++ es = _
      rw [List.append_assoc, List.append_assoc]
      rfl
    · intro s' hs'
      obtain ⟨s₁, hs₁, hin⟩ := hf.follows.streams id s' hs'
      rw [get?_respond, if_pos rfl] at hs₁
      obtain ⟨s, -, rfl⟩ := map_eq_some_iff.mp hs₁
      exact hin.asked (.inl (some_ne_none _))

theorem ready_withFields (hr : ready s = true) (fields : List (Str × Str)) :
    ready (withFields s fields) = true := by
  have hfind (h : isHeadersonly s.headers = true) : isHeadersonly (s.headers ++ fields) = true := by
    unfold isHeadersonly at h ⊢
    rw [List.find?_append]
    cases hm : s.headers.find? fun f => f.1 = ":method".toList with
    | none =>
      rw [hm] at h
      exact nomatch h
    | some f =>
      rw [hm] at h
      exact h
  unfold ready at hr ⊢
  simp only [Bool.and_eq_true, Bool.or_eq_true] at hr ⊢
  obtain ⟨⟨⟨⟨-, hend⟩, hstate⟩, hbody⟩, hpending⟩ := hr
  exact ⟨⟨⟨⟨rfl, hend.imp id hfind⟩, hstate⟩, hbody⟩, hpending⟩

end

end Conn

end M6.Http2
