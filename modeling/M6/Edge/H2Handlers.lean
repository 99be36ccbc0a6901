import M6.Edge.H2Server
import M6.Lib.Runs

/-!
# What the HTTP/2 server does with a frame

Four handlers move a window: WINDOW_UPDATE raises one, DATA charges two of them, a response spends
two, and SETTINGS moves that of every open stream at once. The process ends if a window leaves
`i32`, so that what a handler does can be said only where the windows are sound (`Sound`): a stream
may be overdrawn as far as the client lowers its setting, but its window is never below the setting
by more than the largest window, and a window for what is received is never less than half full.

Under that invariant, `Handles` says all that a frame can do, one constructor for each way through
the handlers, with what was checked on the way and the state that it leads to. What comes after is
said by `Tail`: nothing, an error, the sending of what can be sent (`Sends`), or the handing over of
a request (`Dispatches`). Later modules derive their invariants from these relations and unfold no
handler.
-/

namespace M6.Http2

open List Runs Option SortedMap

/-! ## Arithmetic and places -/

theorem i32_eq_some {n : Int} (low : -2147483648 ≤ n) (high : n ≤ 2147483647) : i32 n = some n :=
  if_pos ⟨low, high⟩

theorem i32_eq_none {n : Int} (h : 2147483647 < n) : i32 n = none :=
  if_neg fun hn => absurd hn.2 (by omega)

theorem i32_inj {n m : Int} (h : i32 n = some m) : n = m := by
  unfold i32 at h
  split_ifs at h
  exact some.inj h

theorem slice?_eq_some {bs : Bytes} {i j : Nat} (hij : i ≤ j) (hj : j ≤ bs.length) :
    slice? bs i j = some ((bs.take j).drop i) :=
  if_pos ⟨hij, hj⟩

theorem low31_of_lt {n : Nat} (h : n < 2 ^ 31) : low31 n = n := Nat.mod_eq_of_lt h

theorem mem_replaceF {α : Type} {f : α → Option α} {l : List α} {a : α} (h : a ∈ l.replaceF f) :
    a ∈ l ∨ ∃ b ∈ l, f b = some a := by
  rcases exists_or_eq_self_of_replaceF f l with hl | ⟨b, b', l₁, l₂, -, hb, hl, hl'⟩
  · exact .inl (hl ▸ h)
  · rw [hl', mem_append, mem_cons] at h
    rcases h with h | rfl | h
    · exact .inl (by rw [hl]; exact mem_append_left _ h)
    · exact .inr ⟨b, by rw [hl]; exact mem_append_right _ mem_cons_self, hb⟩
    · exact .inl (by rw [hl]; exact mem_append_right _ (mem_cons_of_mem _ h))

/-! ## Sound windows -/

structure StreamOk (initial : Int) (s : Stream) : Prop where
  send_le : s.sendWindow ≤ maxWindow
  /-- **the difference to the setting**, which SETTINGS leaves as it is -/
  send_ge : initial - maxWindow ≤ s.sendWindow
  recv_ge : defaultWindow / 2 ≤ s.recvWindow
  recv_le : s.recvWindow ≤ defaultWindow
  sent_le : ∀ body, s.respBody = some body → s.respSent ≤ body.length

theorem StreamOk.withSend {initial : Int} {s : Stream} (ok : StreamOk initial s) {w : Int}
    (low : initial - maxWindow ≤ w) (high : w ≤ maxWindow) :
    StreamOk initial { s with sendWindow := w } :=
  { ok with send_le := high, send_ge := low }

/-- What a connection keeps. -/
structure WindowsOk (initial connSend connRecv : Int) (maxFrame : Nat)
    (streams : SortedMap Nat Stream) (closed : List (Nat × Int)) : Prop where
  initial_ge : 0 ≤ initial
  initial_le : initial ≤ maxWindow
  connSend_ge : 0 ≤ connSend
  connSend_le : connSend ≤ maxWindow
  connRecv_ge : defaultWindow / 2 ≤ connRecv
  connRecv_le : connRecv ≤ defaultWindow
  maxFrame_pos : 0 < maxFrame
  streams : ∀ id s, streams.get? id = some s → StreamOk initial s
  closed : ∀ e ∈ closed, -maxWindow ≤ e.2 ∧ e.2 ≤ maxWindow

/-- What a connection keeps, of the connection. -/
def Conn.Sound (c : Conn) : Prop :=
  WindowsOk c.peerInitialWindow c.connSendWindow c.connRecvWindow c.peerMaxFrame c.streams
    c.closedWindows

namespace WindowsOk

variable {initial connSend connRecv : Int} {maxFrame : Nat} {streams : SortedMap Nat Stream}
  {closed : List (Nat × Int)}

theorem insert (h : WindowsOk initial connSend connRecv maxFrame streams closed) (id : Nat)
    {s : Stream} (hs : StreamOk initial s) :
    WindowsOk initial connSend connRecv maxFrame (streams.insert id s) closed := by
  refine { h with streams := fun id' s' h' => ?_ }
  rw [get?_insert] at h'
  split_ifs at h'
  · cases h'
    exact hs
  · exact h.streams id' s' h'

theorem erase (h : WindowsOk initial connSend connRecv maxFrame streams closed) (id : Nat) :
    WindowsOk initial connSend connRecv maxFrame (streams.erase id) closed := by
  refine { h with streams := fun id' s' h' => ?_ }
  rw [get?_erase] at h'
  split_ifs at h'
  exact h.streams id' s' h'

theorem remember (h : WindowsOk initial connSend connRecv maxFrame streams closed) (id : Nat)
    {s : Stream} (hs : StreamOk initial s) : WindowsOk initial connSend connRecv maxFrame streams
      (Conn.remember closed (id, s.sendWindow)) := by
  refine { h with closed := fun e he => ?_ }
  rw [Conn.remember, mem_append, mem_singleton] at he
  rcases he with he | rfl
  · split_ifs at he
    · exact h.closed e (mem_of_mem_tail he)
    · exact h.closed e he
  · have := h.initial_ge
    have := hs.send_ge
    exact ⟨by simp only [maxWindow] at *; omega, hs.send_le⟩

end WindowsOk

namespace Conn

variable {c : Conn}

theorem Sound.new : Conn.new.Sound where
  initial_ge := by decide
  initial_le := by decide
  connSend_ge := by decide
  connSend_le := by decide
  connRecv_ge := by decide
  connRecv_le := by decide
  maxFrame_pos := by decide
  streams := fun _ _ h => nomatch h
  closed := fun _ h => nomatch h

theorem Sound.newStream (h : c.Sound) : StreamOk c.peerInitialWindow
    (.new c.peerInitialWindow) where
  send_le := h.initial_le
  send_ge := by
    change c.peerInitialWindow - maxWindow ≤ c.peerInitialWindow
    simp only [maxWindow]
    omega
  recv_ge := show defaultWindow / 2 ≤ defaultWindow by decide
  recv_le := le_refl _
  sent_le := fun body hbody => nomatch hbody

variable {s : Stream}

theorem Sound.setStream (h : c.Sound) (stream : Nat)
    (ok : StreamOk c.peerInitialWindow s) : (c.setStream stream s).Sound :=
  WindowsOk.insert h stream ok

theorem Sound.removeStream (h : c.Sound) (stream : Nat) : (c.removeStream stream).Sound :=
  WindowsOk.erase h stream

theorem Sound.updateStream (h : c.Sound) (stream : Nat) {f : Stream → Stream}
    (hf : ∀ s, StreamOk c.peerInitialWindow s → StreamOk c.peerInitialWindow (f s)) :
    (c.updateStream stream f).Sound := by
  unfold Conn.updateStream
  cases hs : c.streams.get? stream with
  | none => exact h
  | some s => exact h.setStream stream (hf s (h.streams stream s hs))

theorem Sound.closeStream (h : c.Sound) (stream : Nat) :
    (c.closeStreamRememberingWindow stream).Sound := by
  unfold closeStreamRememberingWindow
  cases hs : c.streams.get? stream with
  | none => exact h.removeStream stream
  | some s => exact (WindowsOk.erase h stream).remember stream (h.streams stream s hs)

theorem Sound.endStream (h : c.Sound) (stream : Nat) (state : StreamState) :
    (c.endStream stream state).Sound := by
  unfold Conn.endStream
  split_ifs
  · exact h.closeStream stream
  · exact h.closeStream stream
  · exact h.updateStream stream fun s ok => { ok with }

/-! ## Sending -/

theorem not_exhausted {stream : Nat} (hs : c.streams.get? stream = some s)
    (h : c.exhausted stream = false) : 0 < c.connSendWindow ∧ 0 < s.sendWindow := by
  rw [exhausted, hs, Bool.or_eq_false_iff] at h
  exact ⟨not_le.mp (of_decide_eq_false h.1), not_le.mp (of_decide_eq_false h.2)⟩

def chunkSent (c : Conn) (stream : Nat) (s : Stream) (body : Bytes) (n : Nat) : Conn :=
  ((c.pushFrame .data (if s.respSent + n = body.length then flagEndStream else 0) stream
    ((body.take (s.respSent + n)).drop s.respSent)).setConnSendWindow
      (c.connSendWindow - n)).setStream stream
    { s with sendWindow := s.sendWindow - n, respSent := s.respSent + n }

/-- What a frame of `n` bytes needs: there are so many, the frame may be so large, and both windows
have so much. -/
structure Affords (c : Conn) (s : Stream) (body : Bytes) (n : Nat) : Prop where
  pos : 0 < n
  rest : s.respSent + n ≤ body.length
  frame : n ≤ c.peerMaxFrame
  conn : (n : Int) ≤ c.connSendWindow
  stream : (n : Int) ≤ s.sendWindow

theorem affords_toSend (h : c.Sound) {stream : Nat}
    (hs : c.streams.get? stream = some s) (hex : c.exhausted stream = false) {body : Bytes}
    (hrem : body.length - s.respSent ≠ 0) :
    Affords c s body (c.toSend s (body.length - s.respSent)) := by
  obtain ⟨hconn, hstream⟩ := not_exhausted hs hex
  have := h.maxFrame_pos
  unfold toSend
  constructor
  all_goals omega

theorem sendChunk_eq (h : c.Sound) {stream : Nat}
    (hs : c.streams.get? stream = some s) {body : Bytes} {n : Nat} (ha : Affords c s body n) :
    c.sendChunk stream s body n = some (c.chunkSent stream s body n) := by
  obtain ⟨-, hrest, -, hconn, hstream⟩ := ha
  have conn_le := h.connSend_le
  have send_le := (h.streams stream s hs).send_le
  simp only [maxWindow] at conn_le send_le
  have hslice : slice? body s.respSent (s.respSent + n) =
      some ((body.take (s.respSent + n)).drop s.respSent) :=
    slice?_eq_some (Nat.le_add_right ..) hrest
  have hc : i32 (c.connSendWindow - n) = some (c.connSendWindow - n) :=
    i32_eq_some (by omega) (by omega)
  have hw : i32 (s.sendWindow - n) = some (s.sendWindow - n) := i32_eq_some (by omega) (by omega)
  unfold sendChunk
  rw [hslice, hw]
  change ((i32 (c.connSendWindow - n)).bind _) = _
  rw [hc]
  rfl

theorem Sound.chunkSent (h : c.Sound) {stream : Nat}
    (hs : c.streams.get? stream = some s) {body : Bytes} (hbody : s.respBody = some body) {n : Nat}
    (ha : Affords c s body n) : (c.chunkSent stream s body n).Sound := by
  obtain ⟨-, hrest, -, hconn, hstream⟩ := ha
  have ok := h.streams stream s hs
  have conn_le := h.connSend_le
  have send_le := ok.send_le
  have initial_le := h.initial_le
  simp only [maxWindow] at conn_le send_le initial_le
  have hok : StreamOk c.peerInitialWindow
      { s with sendWindow := s.sendWindow - n, respSent := s.respSent + n } :=
    { ok with
      send_le := by change s.sendWindow - n ≤ maxWindow; simp only [maxWindow]; omega
      send_ge := by
        change c.peerInitialWindow - maxWindow ≤ s.sendWindow - n
        simp only [maxWindow]
        omega
      sent_le := fun b hb => by
        obtain rfl : b = body := some.inj (hb.symm.trans hbody)
        exact hrest }
  have hsound : WindowsOk c.peerInitialWindow (c.connSendWindow - n) c.connRecvWindow
      c.peerMaxFrame c.streams c.closedWindows :=
    { h with
      connSend_ge := by omega
      connSend_le := by simp only [maxWindow]; omega }
  exact hsound.insert stream hok

inductive Sends (stream : Nat) : Conn → Conn → Prop
  | nothing (c : Conn) : Sends stream c c
  /-- all of the body was sent, which leaves the end of the stream -/
  | drained {c : Conn} {s : Stream} {body : Bytes} (hs : c.streams.get? stream = some s)
      (hbody : s.respBody = some body) (hall : s.respSent = body.length) :
      Sends stream c ((c.pushFrame .data flagEndStream stream
        []).closeStreamRememberingWindow stream)
  | last {c : Conn} {s : Stream} {body : Bytes} {n : Nat} (hs : c.streams.get? stream = some s)
      (hbody : s.respBody = some body) (ha : Affords c s body n)
      (hall : s.respSent + n = body.length) :
      Sends stream c ((c.chunkSent stream s body n).endStream stream s.state)
  /-- a part of the body, and what follows -/
  | chunk {c c' : Conn} {s : Stream} {body : Bytes} {n : Nat} (hs : c.streams.get? stream = some s)
      (hbody : s.respBody = some body) (ha : Affords c s body n)
      (hpart : s.respSent + n ≠ body.length)
        (rest : Sends stream (c.chunkSent stream s body n) c') :
      Sends stream c c'

theorem Sends.sound {stream : Nat} {c c' : Conn} (hsends : Sends stream c c') (h : c.Sound) :
    c'.Sound := by
  induction hsends with
  | nothing c => exact h
  | drained hs hbody hall => exact Sound.closeStream (c := Conn.pushFrame ..) h stream
  | last hs hbody ha hall => exact (h.chunkSent hs hbody ha).endStream stream _
  | chunk hs hbody ha hpart rest ih => exact ih (h.chunkSent hs hbody ha)

theorem flushRounds_sends (stream rounds : Nat) (h : c.Sound) :
    ∃ c', flushRounds stream rounds c = some c' ∧ Sends stream c c' := by
  induction rounds generalizing c with
  | zero => exact ⟨c, rfl, .nothing c⟩
  | succ rounds ih =>
    rw [flushRounds]
    cases hs : c.streams.get? stream with
    | none => exact ⟨c, rfl, .nothing c⟩
    | some s =>
      have ok := h.streams stream s hs
      dsimp only
      cases hbody : s.respBody with
      | none => exact ⟨c, rfl, .nothing c⟩
      | some body =>
        have sent := ok.sent_le body hbody
        dsimp only
        rw [if_neg (Nat.not_lt.mpr sent)]
        by_cases hrem : body.length - s.respSent = 0
        · rw [if_pos hrem]
          exact ⟨_, rfl, .drained hs hbody (by omega)⟩
        rw [if_neg hrem]
        cases hex : c.exhausted stream with
        | true => exact ⟨c, rfl, .nothing c⟩
        | false =>
          have ha := affords_toSend h hs hex hrem
          rw [if_neg Bool.false_ne_true, sendChunk_eq h hs ha]
          dsimp only
          by_cases hall : s.respSent + c.toSend s (body.length - s.respSent) = body.length
          · rw [if_pos hall]
            exact ⟨_, rfl, .last hs hbody ha hall⟩
          rw [if_neg hall]
          split_ifs
          · exact ⟨_, rfl, .chunk hs hbody ha hall (.nothing _)⟩
          · obtain ⟨c', hc', hsends⟩ := ih (h.chunkSent hs hbody ha)
            exact ⟨c', hc', .chunk hs hbody ha hall hsends⟩

inductive Flushes : List Nat → Conn → Conn → Prop
  | nil (c : Conn) : Flushes [] c c
  | cons {stream : Nat} {ids : List Nat} {c c₁ c' : Conn} (first : Sends stream c c₁)
      (rest : Flushes ids c₁ c') : Flushes (stream :: ids) c c'

theorem Flushes.sound {ids : List Nat} {c c' : Conn} (hf : Flushes ids c c') (h : c.Sound) :
    c'.Sound := by
  induction hf with
  | nil c => exact h
  | cons first rest ih => exact ih (first.sound h)

def flushOrder (env : Env) (c : Conn) : List Nat := env.order (c.streams.entries.map Prod.fst)

theorem flushPendingStreams_flushes (env : Env) (h : c.Sound) :
    ∃ c', c.flushPendingStreams env = some c' ∧ Flushes (c.flushOrder env) c c' := by
  have general (ids : List Nat) : ∀ c : Conn, c.Sound → ∃ c',
      ids.foldlM (fun c stream => flushRounds stream (c.unsent stream + 1) c) c = some c' ∧
        Flushes ids c c' := by
    induction ids with
    | nil => exact fun c _ => ⟨c, rfl, .nil c⟩
    | cons stream ids ih =>
      intro c h
      obtain ⟨c₁, h₁, hsends⟩ := flushRounds_sends stream (c.unsent stream + 1) h
      obtain ⟨c', h', hf⟩ := ih c₁ (hsends.sound h)
      refine ⟨c', ?_, .cons hsends hf⟩
      rw [foldlM_cons, h₁]
      exact h'
  exact general (c.flushOrder env) c h

/-! ## Handing over -/

variable (libs : Libs) (env : Env)

def Invalid (s : Stream) : Prop :=
  (∃ n ∈ declaredLength s.headers, n ≠ s.body.length) ∨
    ∃ why, validateRequestHeaders s.headers = .error why

def requestOf (s : Stream) : RawRequest := (buildRequest s.headers s.body).1

def outcomeOf (env : Env) (s : Stream) : RequestOutcome :=
  env.onRequest (requestOf s) (env.clientIp (buildRequest s.headers s.body).2)

inductive Dispatches (stream : Nat) (c : Conn) : Conn → Prop
  | notReady (h : ∀ s, c.streams.get? stream = some s → ready s = false) : Dispatches stream c c
  | rejected {s : Stream} (hs : c.streams.get? stream = some s) (hr : ready s = true)
      (hbad : Invalid s) : Dispatches stream c (c.rejectRequest stream)
  | pending {s : Stream} (hs : c.streams.get? stream = some s) (hr : ready s = true)
      (hgood : ¬ Invalid s) (ho : outcomeOf env s = .pending) :
      Dispatches stream c ((c.handOver stream (requestOf s)).updateStream stream fun s' =>
        { s' with pending := some (requestOf s).method })
  | answered {s : Stream} {status : Nat} {headers : List (Str × Str)} {body : Bytes} {c' : Conn}
      (hs : c.streams.get? stream = some s) (hr : ready s = true) (hgood : ¬ Invalid s)
      (ho : outcomeOf env s = .ready status headers body)
      (hf : Flushes
        (((c.handOver stream (requestOf s)).respond libs stream status headers body
          (requestOf s).method).flushOrder env)
        ((c.handOver stream (requestOf s)).respond libs stream status headers body
          (requestOf s).method) c') :
      Dispatches stream c c'

theorem Sound.respond (h : c.Sound) (stream status : Nat) (headers : List (Str × Str))
    (body : Bytes) (method : Str) : (c.respond libs stream status headers body method).Sound := by
  have hs : ((c.noteAnswer stream (sentBody method body)).writeHead libs stream status headers
    body.length).Sound := h
  exact hs.updateStream stream fun s ok => { ok with sent_le := fun _ _ => Nat.zero_le _ }

theorem Dispatches.sound {stream : Nat} {c' : Conn} (hd : Dispatches libs env stream c c')
    (h : c.Sound) : c'.Sound := by
  cases hd with
  | notReady => exact h
  | rejected => exact Sound.removeStream (c := c.pushReset ..) h stream
  | pending =>
    exact Sound.updateStream (c := c.handOver ..) h stream fun s ok => { ok with }
  | answered _ _ _ _ hf => exact hf.sound (Sound.respond libs (c := c.handOver ..) h ..)

theorem maybeDispatch_dispatches (stream : Nat) (h : c.Sound) :
    ∃ c', c.maybeDispatch libs env stream = some c' ∧ Dispatches libs env stream c c' := by
  unfold maybeDispatch
  cases hs : c.streams.get? stream with
  | none => exact ⟨c, rfl, .notReady fun s h => nomatch hs.symm.trans h⟩
  | some s =>
    dsimp only
    cases hr : ready s with
    | false =>
      exact ⟨c, rfl, .notReady fun s' hs' => by cases hs.symm.trans hs'; exact hr⟩
    | true =>
      rw [if_neg (by decide)]
      by_cases hlen : ∃ n ∈ declaredLength s.headers, n ≠ s.body.length
      · rw [if_pos hlen]
        exact ⟨_, rfl, .rejected hs hr (.inl hlen)⟩
      rw [if_neg hlen]
      cases hv : validateRequestHeaders s.headers with
      | error why => exact ⟨_, rfl, .rejected hs hr (.inr ⟨why, hv⟩)⟩
      | ok =>
        have hgood : ¬ Invalid s := by
          rintro (hbad | ⟨why, hbad⟩)
          · exact hlen hbad
          · exact nomatch hv.symm.trans hbad
        dsimp only
        cases ho : env.onRequest (buildRequest s.headers s.body).1
          (env.clientIp (buildRequest s.headers s.body).2) with
        | pending => exact ⟨_, rfl, .pending hs hr hgood ho⟩
        | ready status headers body =>
          have hsound := Sound.respond libs (c := c.handOver stream (requestOf s)) h stream status
            headers body (requestOf s).method
          obtain ⟨c', hc', hf⟩ := flushPendingStreams_flushes env hsound
          exact ⟨c', hc', .answered hs hr hgood ho hf⟩

/-! ## Settings -/

/-- Whether a value is one that its setting may have. -/
def acceptable (p : Nat × Nat) : Bool :=
  if p.1 = 0x2 then p.2 ≤ 1
  else if p.1 = 0x4 then p.2 ≤ 0x7fffffff
  else if p.1 = 0x5 then 16384 ≤ p.2 && p.2 ≤ 16777215
  else true

def applied (pairs : List (Nat × Nat)) : List (Nat × Nat) := pairs.takeWhile acceptable

def tableSize (p : Nat × Nat) : List DecoderOp :=
  if p.1 = 0x1 then [.setMaxTableSize (min p.2 hpackMaxTableSize)] else []

/-- INITIAL_WINDOW_SIZE after some settings. -/
def lastWindow (window : Int) (pairs : List (Nat × Nat)) : Int :=
  pairs.foldl (fun w p => if p.1 = 0x4 then p.2 else w) window

def lastFrame (maxFrame : Nat) (pairs : List (Nat × Nat)) : Nat :=
  pairs.foldl (fun n p => if p.1 = 0x5 then p.2 else n) maxFrame

/-- The connection after some settings: what they ask of the decoder, and the last ones. -/
def configure (c : Conn) (ops : List DecoderOp) (window : Int) (maxFrame : Nat) : Conn :=
  { c.setInitialWindow window with hpackDec := c.hpackDec ++ ops, peerMaxFrame := maxFrame }

def configureAll (c : Conn) (pairs : List (Nat × Nat)) : Conn :=
  c.configure (pairs.flatMap tableSize) (lastWindow c.peerInitialWindow pairs)
    (lastFrame c.peerMaxFrame pairs)

theorem setInitialWindow_same (c : Conn) : c.setInitialWindow c.peerInitialWindow = c := by
  have hmap : (c.streams.map fun s =>
      { s with sendWindow := s.sendWindow + (c.peerInitialWindow - c.peerInitialWindow) }) =
      c.streams := by
    refine ext_get? fun id => ?_
    rw [get?_map, Int.sub_self]
    cases c.streams.get? id with
    | none => rfl
    | some s =>
      refine congrArg some ?_
      change { s with sendWindow := s.sendWindow + 0 } = s
      rw [Int.add_zero]
  rw [setInitialWindow, hmap]

theorem setInitialWindow_twice (c : Conn) (w w' : Int) :
    (c.setInitialWindow w).setInitialWindow w' = c.setInitialWindow w' := by
  have hmap : ((c.streams.map fun s =>
      { s with sendWindow := s.sendWindow + (w - c.peerInitialWindow) }).map fun s =>
        { s with sendWindow := s.sendWindow + (w' - w) }) =
      c.streams.map fun s =>
        { s with sendWindow := s.sendWindow + (w' - c.peerInitialWindow) } := by
    refine ext_get? fun id => ?_
    rw [get?_map, get?_map, get?_map]
    cases c.streams.get? id with
    | none => rfl
    | some s =>
      refine congrArg some ?_
      change { s with sendWindow := s.sendWindow + (w - c.peerInitialWindow) + (w' - w) } = _
      rw [show s.sendWindow + (w - c.peerInitialWindow) + (w' - w) =
        s.sendWindow + (w' - c.peerInitialWindow) by omega]
  unfold setInitialWindow
  rw [← hmap]

theorem configure_eq_self (c : Conn) : c.configure [] c.peerInitialWindow c.peerMaxFrame = c := by
  rw [configure, setInitialWindow_same, append_nil]

theorem configureAll_nil (c : Conn) : c.configureAll [] = c := configure_eq_self c

theorem configureAll_cons (c : Conn) (p : Nat × Nat) (ps : List (Nat × Nat)) :
    c.configureAll (p :: ps) = (c.configureAll [p]).configureAll ps := by
  have hwin := setInitialWindow_twice c (lastWindow c.peerInitialWindow [p])
    (lastWindow c.peerInitialWindow (p :: ps))
  change _ = { (c.setInitialWindow (lastWindow c.peerInitialWindow [p])).setInitialWindow
    (lastWindow c.peerInitialWindow (p :: ps)) with
      hpackDec := c.hpackDec ++ [p].flatMap tableSize ++ ps.flatMap tableSize
      peerMaxFrame := lastFrame c.peerMaxFrame (p :: ps) }
  rw [hwin, append_assoc, ← flatMap_append]
  rfl

def Raises (c : Conn) (val : Nat) : Prop :=
  ∃ e ∈ c.streams.entries, maxWindow < e.2.sendWindow - c.peerInitialWindow + val

theorem raises_configureAll (c : Conn) (pairs : List (Nat × Nat)) (val : Nat) :
    (c.configureAll pairs).Raises val ↔ c.Raises val := by
  generalize hw : lastWindow c.peerInitialWindow pairs = w
  constructor
  · rintro ⟨e', he', hover⟩
    obtain ⟨e, he, rfl⟩ := mem_map.mp he'
    refine ⟨e, he, ?_⟩
    change maxWindow < e.2.sendWindow + (lastWindow c.peerInitialWindow pairs -
      c.peerInitialWindow) -
      lastWindow c.peerInitialWindow pairs + val at hover
    omega
  · rintro ⟨e, he, hover⟩
    refine ⟨_, mem_map_of_mem he, ?_⟩
    change maxWindow < e.2.sendWindow + (lastWindow c.peerInitialWindow pairs -
      c.peerInitialWindow) -
      lastWindow c.peerInitialWindow pairs + val
    omega

theorem mapM_some {α β : Type} {f : α → Option β} {l : List α} (h : ∀ a ∈ l, ∃ b, f a = some b) :
    ∃ l', l.mapM f = some l' := by
  induction l with
  | nil => exact ⟨[], rfl⟩
  | cons a l ih =>
    obtain ⟨b, hb⟩ := h a mem_cons_self
    obtain ⟨l', hl'⟩ := ih fun a ha => h a (mem_cons_of_mem _ ha)
    refine ⟨b :: l', ?_⟩
    rw [mapM_cons, hb, hl']
    rfl

theorem mapM_none {α β : Type} {f : α → Option β} {l : List α} {a : α} (ha : a ∈ l)
    (h : f a = none) : l.mapM f = none := by
  induction l with
  | nil => exact absurd ha not_mem_nil
  | cons b l ih =>
    rw [mapM_cons]
    cases hb : f b with
    | none => rfl
    | some b' =>
      rcases mem_cons.mp ha with rfl | ha
      · exact absurd (hb.symm.trans h) (some_ne_none b')
      · rw [ih ha]
        rfl

theorem configureAll_single (c : Conn) (p : Nat × Nat) :
    c.configureAll [p] = c.configure (tableSize p) (if p.1 = 0x4 then p.2 else c.peerInitialWindow)
      (if p.1 = 0x5 then p.2 else c.peerMaxFrame) := by
  rw [configureAll, flatMap_cons, flatMap_nil, append_nil]
  rfl

theorem configureAll_table (c : Conn) (val : Nat) :
    c.configureAll [(0x1, val)] = c.setMaxTableSize (min val hpackMaxTableSize) := by
  rw [configureAll_single]
  change c.configure _ c.peerInitialWindow c.peerMaxFrame = _
  rw [configure, setInitialWindow_same]
  rfl

theorem configureAll_frame (c : Conn) (val : Nat) :
    c.configureAll [(0x5, val)] = c.setMaxFrame val := by
  rw [configureAll_single]
  change c.configure [] c.peerInitialWindow val = _
  rw [configure, setInitialWindow_same, append_nil]
  rfl

theorem configureAll_window (c : Conn) (val : Nat) :
    c.configureAll [(0x4, val)] = c.setInitialWindow val := by
  rw [configureAll_single]
  change c.configure [] val c.peerMaxFrame = _
  rw [configure, append_nil]
  rfl

theorem configureAll_other (c : Conn) {p : Nat × Nat} (h1 : p.1 ≠ 0x1) (h4 : p.1 ≠ 0x4)
    (h5 : p.1 ≠ 0x5) : c.configureAll [p] = c := by
  rw [configureAll_single, tableSize, if_neg h1, if_neg h4, if_neg h5, configure_eq_self]

theorem applySetting_window (h : c.Sound) {val : Nat} (hval : val ≤ 0x7fffffff) :
    (c.applySetting (0x4, val) = none ∧ c.Raises val) ∨
      (¬ c.Raises val ∧ c.applySetting (0x4, val) = (c.setInitialWindow val).ok ∧
        (c.setInitialWindow val).Sound) := by
  have low := h.initial_ge
  have high := h.initial_le
  simp only [maxWindow] at high
  have heq : c.applySetting (0x4, val) =
      (c.streams.entries.mapM fun e => i32 (e.2.sendWindow + (val - c.peerInitialWindow))).bind
        fun _ => (c.setInitialWindow val).ok := by
    change (if val > 0x7fffffff then _ else _) = _
    rw [if_neg (by omega), i32_eq_some (by omega) (by omega)]
    rfl
  by_cases hr : c.Raises val
  · refine .inl ⟨?_, hr⟩
    obtain ⟨e, he, hover⟩ := hr
    simp only [maxWindow] at hover
    rw [heq, mapM_none he (i32_eq_none (by omega))]
    rfl
  · have hno : ∀ e ∈ c.streams.entries, e.2.sendWindow - c.peerInitialWindow + val ≤ maxWindow :=
      fun e he => not_lt.mp fun hover => hr ⟨e, he, hover⟩
    obtain ⟨l, hl⟩ := mapM_some (l := c.streams.entries)
      (f := fun e => i32 (e.2.sendWindow + (val - c.peerInitialWindow))) fun e he => by
        have hlow := (h.streams e.1 e.2 (mem_entries.mp he)).send_ge
        have hhigh := hno e he
        simp only [maxWindow] at hlow hhigh
        exact ⟨_, i32_eq_some (by omega) (by omega)⟩
    rw [hl] at heq
    refine .inr ⟨hr, heq, ?_⟩
    refine { h with initial_ge := Int.natCast_nonneg val, initial_le := ?_, streams := ?_ }
    · change (val : Int) ≤ maxWindow
      simp only [maxWindow]
      omega
    · intro id s' hs'
      obtain ⟨s, hs, rfl⟩ := map_eq_some_iff.mp ((get?_map ..).symm.trans hs')
      have ok := h.streams id s hs
      have hlow := ok.send_ge
      have hhigh := hno (id, s) (mem_entries.mpr hs)
      exact { ok with
        send_le := by
          change s.sendWindow + (val - c.peerInitialWindow) ≤ maxWindow
          dsimp only at hhigh
          omega
        send_ge := by
          change (val : Int) - maxWindow ≤ s.sendWindow + (val - c.peerInitialWindow)
          omega }

theorem applySetting_refused {p : Nat × Nat} (hp : acceptable p = false) :
    ∃ why, c.applySetting p = c.err why := by
  obtain ⟨id, val⟩ := p
  unfold acceptable at hp
  dsimp only at hp
  split_ifs at hp with h2 h4 h5
  · subst h2
    exact ⟨_, if_pos (not_le.mp (of_decide_eq_false hp))⟩
  · subst h4
    exact ⟨_, if_pos (not_le.mp (of_decide_eq_false hp))⟩
  · subst h5
    refine ⟨_, if_pos ?_⟩
    rw [Bool.and_eq_false_iff, decide_eq_false_iff_not, decide_eq_false_iff_not] at hp
    omega

theorem applySetting_ok (h : c.Sound) {p : Nat × Nat} (hp : acceptable p = true) (hid : p.1 ≠ 0x4) :
    c.applySetting p = (c.configureAll [p]).ok ∧ (c.configureAll [p]).Sound := by
  obtain ⟨id, val⟩ := p
  unfold acceptable at hp
  dsimp only at hp
  split_ifs at hp with h2 h5
  · subst h2
    rw [configureAll_other c (show 2 ≠ 1 by decide) (show 2 ≠ 4 by decide)
      (show 2 ≠ 5 by decide)]
    exact ⟨if_neg (not_lt.mpr (of_decide_eq_true hp)), h⟩
  · subst h5
    rw [Bool.and_eq_true, decide_eq_true_eq, decide_eq_true_eq] at hp
    rw [configureAll_frame]
    exact ⟨if_neg (by omega), { h with maxFrame_pos := lt_of_lt_of_le (by decide) hp.1 }⟩
  · by_cases h1 : id = 0x1
    · subst h1
      rw [configureAll_table]
      exact ⟨rfl, h⟩
    · rw [configureAll_other c h1 hid h5]
      refine ⟨?_, h⟩
      unfold applySetting
      split
      · next heq => exact absurd (Prod.ext_iff.mp heq).1 h1
      · next heq => exact absurd (Prod.ext_iff.mp heq).1 h2
      · next heq => exact absurd (Prod.ext_iff.mp heq).1 hid
      · next heq => exact absurd (Prod.ext_iff.mp heq).1 h5
      · rfl

def windowsSet (pairs : List (Nat × Nat)) : List Nat :=
  ((applied pairs).filter fun p => p.1 = 0x4).map Prod.snd

/-- **Some settings**: the process ends, or those before one that is refused are applied. -/
theorem applySettings_cases (h : c.Sound) (pairs : List (Nat × Nat)) :
    (c.applySettings pairs = none ∧ ∃ val ∈ windowsSet pairs, c.Raises val) ∨
      (¬ ∃ val ∈ windowsSet pairs, c.Raises val) ∧ (c.configureAll (applied pairs)).Sound ∧
        ((pairs.all acceptable = true ∧ c.applySettings pairs = (c.configureAll pairs).ok) ∨
          (pairs.all acceptable = false ∧
            ∃ why, c.applySettings pairs = some (c.configureAll (applied pairs), .error why))) := by
  induction pairs generalizing c with
  | nil =>
    refine .inr ⟨nofun, ?_, .inl ⟨rfl, ?_⟩⟩
    · exact (configureAll_nil c).symm ▸ h
    · rw [configureAll_nil]
      rfl
  | cons p ps ih =>
    cases hp : acceptable p with
    | false =>
      have hnone : applied (p :: ps) = [] := by rw [applied, takeWhile_cons, hp]; rfl
      obtain ⟨why, hw⟩ := applySetting_refused (c := c) hp
      rw [windowsSet, hnone, configureAll_nil]
      refine .inr ⟨nofun, h, .inr ⟨by rw [all_cons, hp]; rfl, why.toList, ?_⟩⟩
      rw [applySettings, hw]
      rfl
    | true =>
      have happ : applied (p :: ps) = p :: applied ps := by
        rw [applied, takeWhile_cons, hp]
        rfl
      have next (hok : c.applySetting p = (c.configureAll [p]).ok)
          (hsound : (c.configureAll [p]).Sound)
          (hset : (∃ val ∈ windowsSet (p :: ps), c.Raises val) ↔
            ∃ val ∈ windowsSet ps, c.Raises val) :
          (c.applySettings (p :: ps) = none ∧ ∃ val ∈ windowsSet (p :: ps), c.Raises val) ∨
            (¬ ∃ val ∈ windowsSet (p :: ps), c.Raises val) ∧
              (c.configureAll (applied (p :: ps))).Sound ∧
              (((p :: ps).all acceptable = true ∧
                  c.applySettings (p :: ps) = (c.configureAll (p :: ps)).ok) ∨
                ((p :: ps).all acceptable = false ∧ ∃ why, c.applySettings (p :: ps) =
                  some (c.configureAll (applied (p :: ps)), .error why))) := by
        have heq : c.applySettings (p :: ps) = (c.configureAll [p]).applySettings ps := by
          rw [applySettings, hok]
          rfl
        have hraises : (∃ val ∈ windowsSet ps, c.Raises val) ↔
            ∃ val ∈ windowsSet ps, (c.configureAll [p]).Raises val :=
          exists_congr fun v => and_congr_right fun _ => (raises_configureAll c [p] v).symm
        rw [heq, hset, hraises, all_cons, hp, Bool.true_and, happ, configureAll_cons c p ps,
          configureAll_cons c p (applied ps)]
        exact ih hsound
      by_cases hid : p.1 = 0x4
      · obtain ⟨id, val⟩ := p
        obtain rfl : id = 0x4 := hid
        have hset : windowsSet ((0x4, val) :: ps) = val :: windowsSet ps := by
          rw [windowsSet, happ]
          rfl
        have hval : val ≤ 0x7fffffff := of_decide_eq_true hp
        rcases applySetting_window h hval with ⟨hnone, hr⟩ | ⟨hr, hok, hsound⟩
        · refine .inl ⟨?_, val, hset ▸ mem_cons_self, hr⟩
          rw [applySettings, hnone]
          rfl
        · rw [← configureAll_window] at hok hsound
          refine next hok hsound ?_
          rw [hset]
          constructor
          · rintro ⟨v, hv, hr'⟩
            rcases mem_cons.mp hv with rfl | hv
            · exact absurd hr' hr
            · exact ⟨v, hv, hr'⟩
          · rintro ⟨v, hv, hr'⟩
            exact ⟨v, mem_cons_of_mem _ hv, hr'⟩
      · obtain ⟨hok, hsound⟩ := applySetting_ok h hp hid
        refine next hok hsound ?_
        have hset : windowsSet (p :: ps) = windowsSet ps := by
          rw [windowsSet, happ, filter_cons, if_neg (by simpa using hid)]
          rfl
        rw [hset]

/-! ## Frames -/

/-- What comes after a handler has changed the connection. -/
inductive Tail where
  | ok
  | error (why : Str)
  | flush
  | dispatch (stream : Nat)

def Tail.finish (libs : Libs) (env : Env) (c : Conn) : Tail → Outcome
  | .ok => c.ok
  | .error why => some (c, .error why)
  | .flush => done (c.flushPendingStreams env)
  | .dispatch stream => done (c.maybeDispatch libs env stream)

/-- A frame that is in shape, and that its stream may receive, outside of a header block. -/
structure Allowed (c : Conn) (f : Frame) : Prop where
  outside : c.continuationStreamId = none
  shape : frameShapeVerdict f.ftype f.flags f.stream f.payload.length = .allow
  state : c.frameVerdict f.ftype f.stream = .allow

structure Admitted (env : Env) (c : Conn) (f : Frame) : Prop extends Allowed c f where
  headers : f.ftype = .headers
  odd : f.stream % 2 = 1
  known : f.stream ≤ c.lastStreamId → c.streams.get? f.stream ≠ none
  open_ : c.peerGoaway = true → c.streams.get? f.stream ≠ none
  room : c.activeStreams env.now < maxConcurrent

/-- A HEADERS frame that is not let in, because there are too many streams. -/
structure Busy (env : Env) (c : Conn) (f : Frame) : Prop extends Allowed c f where
  headers : f.ftype = .headers
  odd : f.stream % 2 = 1
  known : f.stream ≤ c.lastStreamId → c.streams.get? f.stream ≠ none
  open_ : c.peerGoaway = true → c.streams.get? f.stream ≠ none
  busy : maxConcurrent ≤ c.activeStreams env.now

/-- A PRIORITY frame of the wrong size, or by which a stream depends on itself. -/
structure BadPriority (f : Frame) : Prop where
  priority : f.ftype = .priority
  stream : f.stream ≠ 0
  bad : f.payload.length ≠ 5 ∨ low31 (bigEndian (f.payload.take 4)) = f.stream

structure Overgrants (c : Conn) (f : Frame) : Prop extends Allowed c f where
  windowUpdate : f.ftype = .windowUpdate
  stream : f.stream ≠ 0
  tooFar : ∃ s, c.streams.get? f.stream = some s ∧
    maxWindow < s.sendWindow + low31 (bigEndian (f.payload.take 4))

structure Continues (c : Conn) (f : Frame) : Prop where
  continuation : f.ftype = .continuation
  awaited : c.continuationStreamId = some f.stream
  shape : frameShapeVerdict f.ftype f.flags f.stream f.payload.length = .allow

def charged (c : Conn) (window inc : Int) : Conn := (c.setConnRecvWindow window).grant 0 inc

def decoded (libs : Libs) (c : Conn) (block : Bytes) : Conn := (c.decodeBlock libs block).1

def entered (c : Conn) (f : Frame) : Conn := (c.letIn f.stream).enterStream f.stream f.flags

/-- The state in which the loop gives up. -/
inductive Fails (c : Conn) (f : Frame) : Conn → Prop
  | same : Fails c f c
  | connection (code : Nat) : Fails c f (c.connectionError code)
  | flood (hb : Busy env c f) :
      Fails c f ((c.refuseBusy env.now f.stream).connectionError errEnhanceYourCalm)
  | malformedHeaders (ha : Admitted env c f) : Fails c f (c.letIn f.stream)
  | shortHeaders (ha : Admitted env c f)
      (hcut : cutHeaders f.stream f.flags f.payload = .shortPriority) :
      Fails c f ((c.letIn f.stream).pushReset f.stream errFrameSize)
  | longHeaders (ha : Admitted env c f) :
      Fails c f ((c.entered f).connectionError errEnhanceYourCalm)
  | invalidHeaders (ha : Admitted env c f) :
      Fails c f ((c.entered f).blockDone.connectionError errCompression)
  | undecodableHeaders (ha : Admitted env c f) (block : Bytes) :
      Fails c f ((c.entered f).blockDone.decoded libs block)
  | invalidContinuation : Fails c f (c.blockDone.connectionError errCompression)
  | undecodableContinuation (block : Bytes) : Fails c f (c.blockDone.decoded libs block)
  | settings (hf : f.ftype = .settings)
      (hsound : (c.configureAll (applied (settingsPairs f.payload))).Sound) :
      Fails c f (c.configureAll (applied (settingsPairs f.payload)))

/-- A frame that is a connection error: by its shape, by the state of its stream, or because it
opens a stream before one that was opened. -/
inductive Breaks (c : Conn) (f : Frame) (code : Nat) : Prop
  | shape (h : frameShapeVerdict f.ftype f.flags f.stream f.payload.length = .connectionError code)
  | state (hout : c.continuationStreamId = none)
      (hshape : frameShapeVerdict f.ftype f.flags f.stream f.payload.length = .allow)
      (h : c.frameVerdict f.ftype f.stream = .connectionError code)
  | backwards (ha : Allowed c f) (hf : f.ftype = .headers) (hback : f.stream ≤ c.lastStreamId)
      (hs : c.streams.get? f.stream = none) (hcode : code = errProtocolError)

/-- **What a frame can do**: the connection that it leaves, and what comes then. -/
inductive Handles (c : Conn) (f : Frame) : Conn → Tail → Prop
  | failed {c₁ : Conn} (why : Str) (h : Fails libs env c f c₁) : Handles c f c₁ (.error why)
  | nothing (hout : c.continuationStreamId = none)
      (h : f.ftype = .priority ∨ f.ftype = .settings ∨ f.ftype = .ping ∨ ∃ code, f.ftype =
        .unknown code)
      (hack : f.ftype = .settings → has f.flags flagAck = true) : Handles c f c .ok
  | connectionError {code : Nat} (hwhy : Breaks c f code) : Handles c f (c.connectionError code) .ok
  /-- the frame must not come in the state that its stream is in -/
  | illegal (code : Nat) (hout : c.continuationStreamId = none)
      (hshape : frameShapeVerdict f.ftype f.flags f.stream f.payload.length = .allow)
      (hstate : c.frameVerdict f.ftype f.stream = .streamError code)
      (hcont : f.ftype ≠ .continuation) :
      Handles c f (c.resetStream f.stream code) .ok
  /-- a malformed PRIORITY frame, or a WINDOW_UPDATE frame that is too large -/
  | reset (code : Nat) (hout : c.continuationStreamId = none)
      (h : BadPriority f ∨ Overgrants c f) :
      Handles c f ((c.resetStream f.stream code).noteReset env.now f.stream) .ok
  | rstStream (ha : Allowed c f) (hf : f.ftype = .rstStream) :
      Handles c f (((c.removeStream f.stream).opened f.stream).noteReset env.now f.stream) .ok
  | ping (ha : Allowed c f) (hf : f.ftype = .ping) :
      Handles c f (c.pushFrame .ping flagAck 0 f.payload) .ok
  | goaway (ha : Allowed c f) (hf : f.ftype = .goaway) : Handles c f c.heedGoaway .ok
  | settings (ha : Allowed c f) (hf : f.ftype = .settings) (hflags : has f.flags flagAck = false)
      (hall : (settingsPairs f.payload).all acceptable = true)
      (hno : ¬ ∃ val ∈ windowsSet (settingsPairs f.payload), c.Raises val)
      (hsound : (c.configureAll (settingsPairs f.payload)).Sound) :
      Handles c f ((c.configureAll (settingsPairs f.payload)).pushFrame .settings flagAck 0 []) .ok
  -- WINDOW_UPDATE
  | connCredit {inc : Nat} (ha : Allowed c f) (hf : f.ftype = .windowUpdate)
      (hinc : inc = low31 (bigEndian (f.payload.take 4))) (hpos : inc ≠ 0) (hid : f.stream = 0)
      (hfit : c.connSendWindow + inc ≤ maxWindow) :
      Handles c f (c.setConnSendWindow (c.connSendWindow + inc)) .flush
  | streamCredit {inc : Nat} {s : Stream} (ha : Allowed c f) (hf : f.ftype = .windowUpdate)
      (hinc : inc = low31 (bigEndian (f.payload.take 4))) (hpos : inc ≠ 0) (hid : f.stream ≠ 0)
      (hs : c.streams.get? f.stream = some s) (hfit : s.sendWindow + inc ≤ maxWindow) :
      Handles c f (c.setStream f.stream { s with sendWindow := s.sendWindow + inc }) .flush
  | closedOverflow {w : Int} (ha : Allowed c f) (hf : f.ftype = .windowUpdate)
      (hid : f.stream ≠ 0) (hs : c.streams.get? f.stream = none)
      (hw : c.closedWindow f.stream = some w)
      (hover : maxWindow < w + low31 (bigEndian (f.payload.take 4))) :
      Handles c f (((c.pushReset f.stream errFlowControl).dropClosedWindow f.stream).noteReset
        env.now f.stream) .ok
  | closedCredit {inc : Nat} {w : Int} (ha : Allowed c f) (hf : f.ftype = .windowUpdate)
      (hinc : inc = low31 (bigEndian (f.payload.take 4))) (hpos : inc ≠ 0) (hid : f.stream ≠ 0)
      (hs : c.streams.get? f.stream = none) (hw : c.closedWindow f.stream = some w)
      (hfit : w + inc ≤ maxWindow) : Handles c f (c.setClosedWindow f.stream (w + inc)) .flush
  | uncredited (ha : Allowed c f) (hf : f.ftype = .windowUpdate)
      (hpos : low31 (bigEndian (f.payload.take 4)) ≠ 0) (hid : f.stream ≠ 0)
      (hs : c.streams.get? f.stream = none) (hw : c.closedWindow f.stream = none) :
      Handles c f c .flush
  -- DATA
  | overCap {s : Stream} {first last : Nat} {w inc : Int} (ha : Allowed c f) (hf : f.ftype = .data)
      (hid : f.stream ≠ 0) (hs : c.streams.get? f.stream = some s)
      (hcut : cutData f.flags f.payload = .ok (first, last))
      (hw : replenish (c.connRecvWindow - f.payload.length) = some (w, inc))
      (hcap : maxH2Body < s.body.length + ((f.payload.take last).drop first).length) :
      Handles c f ((c.charged w inc).resetStream f.stream errProtocolError) .ok
  | data {s : Stream} {first last : Nat} {w inc w' inc' : Int} {tail : Tail} (ha : Allowed c f)
      (hf : f.ftype = .data) (hid : f.stream ≠ 0) (hs : c.streams.get? f.stream = some s)
      (hcut : cutData f.flags f.payload = .ok (first, last))
      (hw : replenish (c.connRecvWindow - f.payload.length) = some (w, inc))
      (hcap : s.body.length + ((f.payload.take last).drop first).length ≤ maxH2Body)
      (hw' : replenish (s.recvWindow - f.payload.length) = some (w', inc'))
      (htail : tail =
        if has f.flags flagEndStream && s.headersDone then .dispatch f.stream else .ok) :
      Handles c f (((c.charged w inc).setStream f.stream
        (takeData s f.flags ((f.payload.take last).drop first) w')).grant f.stream inc') tail
  -- HEADERS
  | refusedLate (ha : Allowed c f) (hf : f.ftype = .headers) (hodd : f.stream % 2 = 1)
      (hgo : c.peerGoaway = true) (hs : c.streams.get? f.stream = none) :
      Handles c f (c.refuseStream f.stream) .ok
  | refusedBusy (ha : Allowed c f) (hf : f.ftype = .headers) (hodd : f.stream % 2 = 1)
      (hknown : f.stream ≤ c.lastStreamId → c.streams.get? f.stream ≠ none)
      (hopen : c.peerGoaway = true → c.streams.get? f.stream ≠ none)
      (hbusy : maxConcurrent ≤ c.activeStreams env.now)
      (hstreak : c.refusedStreak + 1 < maxRefusedStreak) :
      Handles c f (c.refuseBusy env.now f.stream) .ok
  | selfDependent (ha : Admitted env c f)
      (hcut : cutHeaders f.stream f.flags f.payload = .selfDependent) :
      Handles c f ((c.letIn f.stream).pushReset f.stream errProtocolError) .ok
  | headersPart {first last : Nat} {block : Bytes} (ha : Admitted env c f)
      (hcut : cutHeaders f.stream f.flags f.payload = .block first last)
      (hblock : block = (f.payload.take last).drop first)
      (hend : has f.flags flagEndHeaders = false)
      (hlen : c.headerBlockBuf.length + block.length ≤ maxHeaderBlock) :
      Handles c f (((c.entered f).addBlock block).awaitContinuation f.stream) (.dispatch f.stream)
  | trailersRejected {first last : Nat} {block : Bytes} {fields : List RawField} {s : Stream}
      (ha : Admitted env c f) (hcut : cutHeaders f.stream f.flags f.payload = .block first last)
      (hblock : block = c.headerBlockBuf ++ (f.payload.take last).drop first)
      (hend : has f.flags flagEndHeaders = true)
      (hvalid : validateHpackBlock block hpackMaxTableSize = .ok ())
      (hdec : libs.decode c.hpackDec block = some fields)
      (hs : c.streams.get? f.stream = some s)
      (hbad : badTrailers s f.flags (decodeHpack fields) = true) :
      Handles c f (((c.entered f).blockDone.decoded libs block).rejectRequest f.stream) .ok
  | headers {first last : Nat} {block : Bytes} {fields : List RawField} (ha : Admitted env c f)
      (hcut : cutHeaders f.stream f.flags f.payload = .block first last)
      (hblock : block = c.headerBlockBuf ++ (f.payload.take last).drop first)
      (hend : has f.flags flagEndHeaders = true)
      (hvalid : validateHpackBlock block hpackMaxTableSize = .ok ())
      (hdec : libs.decode c.hpackDec block = some fields)
      (hgood : ∀ s, c.streams.get? f.stream = some s →
        badTrailers s f.flags (decodeHpack fields) = false) :
      Handles c f (((c.entered f).blockDone.decoded libs block).addFields f.stream
        (decodeHpack fields)) (.dispatch f.stream)
  -- CONTINUATION
  | continuationPart (ha : Continues c f) (hend : has f.flags flagEndHeaders = false)
      (hlen : c.headerBlockBuf.length + f.payload.length ≤ maxHeaderBlock) :
      Handles c f (c.addBlock f.payload) .ok
  | continuationGone (ha : Continues c f) (hend : has f.flags flagEndHeaders = true)
      (hlen : c.headerBlockBuf.length + f.payload.length ≤ maxHeaderBlock)
      (hvalid : validateHpackBlock (c.headerBlockBuf ++ f.payload) hpackMaxTableSize = .ok ())
      (hs : c.streams.get? f.stream = none) : Handles c f c.blockDone .ok
  | continuation {fields : List RawField} {s : Stream} (ha : Continues c f)
      (hend : has f.flags flagEndHeaders = true)
      (hlen : c.headerBlockBuf.length + f.payload.length ≤ maxHeaderBlock)
      (hvalid : validateHpackBlock (c.headerBlockBuf ++ f.payload) hpackMaxTableSize = .ok ())
      (hs : c.streams.get? f.stream = some s)
      (hdec : libs.decode c.hpackDec (c.headerBlockBuf ++ f.payload) = some fields) :
      Handles c f ((c.blockDone.decoded libs (c.headerBlockBuf ++ f.payload)).addFields f.stream
        (decodeHpack fields)) (.dispatch f.stream)

def Done (c : Conn) (f : Frame) (o : Outcome) : Prop :=
  ∃ c₁ tail, Handles libs env c f c₁ tail ∧ o = tail.finish libs env c₁

variable {libs env} {f : Frame}

theorem Done.err (why : String) : Done libs env c f (c.err why) :=
  ⟨c, .error why.toList, .failed _ .same, rfl⟩

variable {flags : UInt8}

theorem frameShapeVerdict_priority {stream length : Nat}
    (h : frameShapeVerdict .priority flags stream length = .allow) : stream ≠ 0 ∧ length = 5 := by
  unfold frameShapeVerdict at h
  constructor
  · intro hid
    rw [if_pos (c := FrameType.needsStream .priority = true ∧ stream = 0) ⟨rfl, hid⟩] at h
    cases h
  · by_contra hlen
    rw [if_pos (c := _ ∧ length ≠ 5) ⟨rfl, hlen⟩] at h
    split_ifs at h

theorem frameShapeVerdict_windowUpdate {stream length : Nat}
    (h : frameShapeVerdict .windowUpdate flags stream length = .allow) : length = 4 := by
  by_contra hlen
  unfold frameShapeVerdict at h
  rw [if_pos (c := FrameType.windowUpdate = _ ∧ length ≠ 4) ⟨rfl, hlen⟩] at h
  split_ifs at h

theorem frameShapeVerdict_settings {stream length : Nat}
    (h : frameShapeVerdict .settings flags stream length = .allow) :
    stream = 0 ∧ (has flags flagAck = false → length % 6 = 0) := by
  unfold frameShapeVerdict at h
  constructor
  · by_contra hid
    rw [if_pos (c := FrameType.needsConnection .settings = true ∧ stream ≠ 0) ⟨rfl, hid⟩] at h
    split_ifs at h
  · intro hack
    by_contra hlen
    rw [hack, if_pos (c := _ ∧ _ ∧ length % 6 ≠ 0) ⟨rfl, Bool.false_ne_true, hlen⟩] at h
    split_ifs at h

theorem frameShapeVerdict_streamError {ftype : FrameType} {stream length code : Nat}
    (h : frameShapeVerdict ftype flags stream length = .streamError code) :
    ftype = .priority ∧ stream ≠ 0 ∧ length ≠ 5 := by
  unfold frameShapeVerdict at h
  by_cases hp : ftype = .priority ∧ length ≠ 5
  · refine ⟨hp.1, fun hid => ?_, hp.2⟩
    rw [if_pos (c := ftype.needsStream = true ∧ stream = 0) ⟨hp.1 ▸ rfl, hid⟩] at h
    cases h
  · rw [if_neg hp] at h
    split_ifs at h

theorem handlePriority_done (ha : Allowed c f) (hf : f.ftype = .priority) :
    Done libs env c f (c.handlePriority env f.stream f.payload) := by
  obtain ⟨hid, hlen⟩ := frameShapeVerdict_priority (hf ▸ ha.shape)
  unfold handlePriority
  rw [slice?_eq_some (Nat.zero_le 4) (by omega)]
  change Done libs env c f (if _ then _ else _)
  split_ifs with hself
  · exact ⟨_, .ok, .reset errProtocolError ha.outside (.inl ⟨hf, hid, .inr hself⟩), rfl⟩
  · exact ⟨_, .ok, .nothing ha.outside (.inl hf) (by rw [hf]; exact nofun), rfl⟩

theorem handlePing_done (ha : Allowed c f) (hf : f.ftype = .ping) :
    Done libs env c f (c.handlePing f.flags f.payload).ok := by
  unfold handlePing
  split_ifs
  · exact ⟨_, .ok, .ping ha hf, rfl⟩
  · exact ⟨_, .ok, .nothing ha.outside (.inr (.inr (.inl hf))) (by rw [hf]; exact nofun), rfl⟩

theorem handleWindowUpdate_done (h : c.Sound) (ha : Allowed c f) (hf : f.ftype = .windowUpdate) :
    Done libs env c f (c.handleWindowUpdate env f.stream f.payload) := by
  unfold handleWindowUpdate
  by_cases hshort : f.payload.length < 4
  · rw [if_pos hshort]
    exact .err _
  rw [if_neg hshort]
  generalize hinc : low31 (bigEndian (f.payload.take 4)) = inc
  dsimp only
  by_cases hzero : inc = 0
  · rw [if_pos hzero]
    exact .err _
  rw [if_neg hzero]
  by_cases hid : f.stream = 0
  · rw [if_pos hid]
    by_cases hover : c.connSendWindow + inc > maxWindow
    · rw [if_pos hover]
      exact ⟨_, .error _, .failed _ (.connection errFlowControl), rfl⟩
    rw [if_neg hover]
    have hfit := not_lt.mp hover
    have low := h.connSend_ge
    have high := hfit
    simp only [maxWindow] at high
    rw [i32_eq_some (by omega) (by omega)]
    exact ⟨_, .flush, .connCredit ha hf hinc.symm hzero hid hfit, rfl⟩
  rw [if_neg hid]
  cases hs : c.streams.get? f.stream with
  | some s =>
    dsimp only
    by_cases hover : s.sendWindow + inc > maxWindow
    · rw [if_pos hover]
      exact ⟨_, .ok, .reset errFlowControl ha.outside
        (.inr ⟨ha, hf, hid, s, hs, hinc ▸ hover⟩), rfl⟩
    rw [if_neg hover]
    have hfit := not_lt.mp hover
    have low := (h.streams f.stream s hs).send_ge
    have := h.initial_ge
    have high := hfit
    simp only [maxWindow] at high low
    rw [i32_eq_some (by omega) (by omega)]
    exact ⟨_, .flush, .streamCredit ha hf hinc.symm hzero hid hs hfit, rfl⟩
  | none =>
    dsimp only
    cases hw : c.closedWindow f.stream with
    | none => exact ⟨_, .flush, .uncredited ha hf (hinc ▸ hzero) hid hs hw, rfl⟩
    | some w =>
      dsimp only
      by_cases hover : w + inc > maxWindow
      · rw [if_pos hover]
        exact ⟨_, .ok, .closedOverflow ha hf hid hs hw (hinc ▸ hover), rfl⟩
      rw [if_neg hover]
      have hfit := not_lt.mp hover
      have high := hfit
      obtain ⟨e, he, rfl⟩ := map_eq_some_iff.mp hw
      have low := (h.closed e (mem_of_find?_eq_some he)).1
      simp only [maxWindow] at high low
      rw [i32_eq_some (by omega) (by omega)]
      exact ⟨_, .flush, .closedCredit ha hf hinc.symm hzero hid hs hw hfit, rfl⟩

theorem cutData_ok {payload : Bytes} {first last : Nat}
    (h : cutData flags payload = .ok (first, last)) : first ≤ last ∧ last ≤ payload.length := by
  unfold cutData at h
  split_ifs at h
  · cases payload with
    | nil => cases h
    | cons pad rest =>
      dsimp only at h
      split_ifs at h with hpad
      cases h
      omega
  · cases h
    exact ⟨Nat.zero_le _, le_refl _⟩

theorem replenish_ok {w : Int} (low : 0 ≤ w) (high : w ≤ defaultWindow) :
    ∃ w' inc, replenish w = some (w', inc) := by
  unfold replenish
  split_ifs
  · simp only [defaultWindow] at high
    rw [i32_eq_some (by simp only [defaultWindow]; omega) (by simp only [defaultWindow]; omega)]
    change ∃ w' inc, (i32 (w + (defaultWindow - w))).bind _ = _
    rw [show w + (defaultWindow - w) = defaultWindow by omega,
      i32_eq_some (by decide) (by decide)]
    exact ⟨_, _, rfl⟩
  · exact ⟨w, 0, rfl⟩

theorem replenish_some {w w' inc : Int} (h : replenish w = some (w', inc))
    (high : w ≤ defaultWindow) :
    w' = w + inc ∧ 0 ≤ inc ∧ defaultWindow / 2 ≤ w' ∧ w' ≤ defaultWindow := by
  unfold replenish at h
  split_ifs at h with hw
  · cases hinc : i32 (defaultWindow - w) with
    | none => rw [hinc] at h; cases h
    | some n =>
      rw [hinc] at h
      change (i32 (w + n)).bind _ = _ at h
      cases hsum : i32 (w + n) with
      | none => rw [hsum] at h; cases h
      | some m =>
        rw [hsum] at h
        cases h
        have hn : defaultWindow - w = inc := i32_inj hinc
        have hm : w + inc = w' := i32_inj hsum
        simp only [defaultWindow] at *
        omega
  · cases h
    simp only [defaultWindow] at *
    omega

theorem Allowed.stream (ha : Allowed c f) (hid : f.stream ≠ 0) (hf : f.ftype = .data) :
    ∃ s, c.streams.get? f.stream = some s := by
  have hstate := ha.state
  rw [hf, frameVerdict, if_neg hid, if_neg (by decide), if_neg (by decide), streamState] at hstate
  cases hs : c.streams.get? f.stream with
  | some s => exact ⟨s, rfl⟩
  | none =>
    exfalso
    rw [hs] at hstate
    dsimp only at hstate
    by_cases hnew : f.stream > c.lastStreamId
    · rw [if_pos hnew] at hstate
      cases hstate
    · rw [if_neg hnew] at hstate
      change (if _ then _ else if _ then _ else _) = _ at hstate
      rw [if_neg (by decide)] at hstate
      split_ifs at hstate

theorem handleData_done (h : c.Sound) (ha : Allowed c f) (hf : f.ftype = .data)
    (hlen : f.payload.length ≤ maxFrameSize) :
    Done libs env c f (c.handleData libs env f.stream f.flags f.payload) := by
  unfold handleData
  by_cases hid : f.stream = 0
  · rw [if_pos hid]
    exact .err _
  rw [if_neg hid]
  cases hcut : cutData f.flags f.payload with
  | error why => exact .err why
  | ok cut =>
    obtain ⟨first, last⟩ := cut
    obtain ⟨hfirst, hlast⟩ := cutData_ok hcut
    obtain ⟨s, hs⟩ := ha.stream hid hf
    have ok := h.streams f.stream s hs
    have conn_ge := h.connRecv_ge
    have conn_le := h.connRecv_le
    have recv_ge := ok.recv_ge
    have recv_le := ok.recv_le
    simp only [defaultWindow] at conn_ge conn_le recv_ge recv_le
    simp only [maxFrameSize] at hlen
    dsimp only
    rw [slice?_eq_some hfirst hlast, i32_eq_some (by omega) (by omega)]
    change Done libs env c f (if _ then _ else _)
    rw [if_neg (by omega)]
    obtain ⟨w, inc, hw⟩ := replenish_ok (w := c.connRecvWindow - f.payload.length) (by omega)
      (by simp only [defaultWindow]; omega)
    rw [hw]
    change Done libs env c f ((c.charged w inc).dataOnStream ..)
    unfold dataOnStream
    have hs' : (c.charged w inc).streams.get? f.stream = some s := by
      unfold charged Conn.grant
      split_ifs
      · exact hs
      · exact hs
    rw [hs']
    dsimp only
    rw [i32_eq_some (by omega) (by omega)]
    change Done libs env c f (if _ then _ else _)
    rw [if_neg (by omega)]
    by_cases hcap : s.body.length + ((f.payload.take last).drop first).length > maxH2Body
    · rw [if_pos hcap]
      exact ⟨_, .ok, .overCap ha hf hid hs hcut hw hcap, rfl⟩
    rw [if_neg hcap]
    obtain ⟨w', inc', hw'⟩ := replenish_ok (w := s.recvWindow - f.payload.length) (by omega)
      (by simp only [defaultWindow]; omega)
    rw [hw']
    refine ⟨_, _, .data ha hf hid hs hcut hw (not_lt.mp hcap) hw' rfl, ?_⟩
    change (if _ then _ else _) = _
    split_ifs
    · rfl
    · rfl

theorem cutHeaders_block {stream : Nat} {payload : Bytes} {first last : Nat}
    (h : cutHeaders stream flags payload = .block first last) :
    first = blockStart flags ∧ last = payload.length - padLength flags payload ∧
      blockStart flags + padLength flags payload ≤ payload.length := by
  unfold cutHeaders at h
  split_ifs at h with _ _ _ hpad
  cases h
  exact ⟨rfl, rfl, not_lt.mp hpad⟩

theorem decodeBlock_eq (libs : Libs) (c : Conn) (block : Bytes) :
    c.decodeBlock libs block = (c.decoded libs block,
      match libs.decode c.hpackDec block with
      | none => .error "HPACK decode error".toList
      | some fields => .ok (decodeHpack fields)) := rfl

theorem get?_decoded (libs : Libs) (c : Conn) (block : Bytes) (stream : Nat) :
    (c.decoded libs block).streams.get? stream = c.streams.get? stream := rfl

theorem get?_entered (hs : c.streams.get? f.stream = some s) : (c.entered f).streams.get? f.stream =
      some (if has f.flags flagEndStream then { s with state := .halfClosedRemote } else s) := by
  have hs' : (c.letIn f.stream).streams.get? f.stream = some s := hs
  rw [entered, enterStream, hs', setStream, get?_insert, if_pos rfl]
  rfl

theorem get?_entered_new (hs : c.streams.get? f.stream = none) :
    (c.entered f).streams.get? f.stream =
      some (if has f.flags flagEndStream then
        { Stream.new c.peerInitialWindow with state := .halfClosedRemote }
        else .new c.peerInitialWindow) := by
  have hs' : (c.letIn f.stream).streams.get? f.stream = none := hs
  rw [entered, enterStream, hs', setStream, get?_insert, if_pos rfl]
  rfl

theorem any_badTrailers (fields : List (Str × Str)) :
    ((c.entered f).streams.get? f.stream).any (fun s => badTrailers s f.flags fields) =
      (c.streams.get? f.stream).any fun s => badTrailers s f.flags fields := by
  cases hs : c.streams.get? f.stream with
  | some s =>
    rw [get?_entered hs]
    split_ifs
    · rfl
    · rfl
  | none =>
    rw [get?_entered_new hs]
    split_ifs
    · rfl
    · rfl

theorem acceptHeaders_done (ha : Admitted env c f) :
    Done libs env c f ((c.letIn f.stream).acceptHeaders libs env f.stream f.flags f.payload) := by
  unfold acceptHeaders
  cases hcut : cutHeaders f.stream f.flags f.payload with
  | malformed why => exact ⟨_, .error _, .failed _ (.malformedHeaders ha), rfl⟩
  | shortPriority => exact ⟨_, .error _, .failed _ (.shortHeaders ha hcut), rfl⟩
  | selfDependent => exact ⟨_, .ok, .selfDependent ha hcut, rfl⟩
  | block first last =>
    obtain ⟨hfirst, hlast, hpad⟩ := cutHeaders_block hcut
    dsimp only
    rw [slice?_eq_some (by omega) (by omega)]
    change Done libs env c f (if _ then (c.entered f).endHeaders .. else _)
    cases hend : has f.flags flagEndHeaders with
    | false =>
      rw [if_neg Bool.false_ne_true]
      change Done libs env c f (if (c.entered f).headerBlockBuf.length + _ > _ then _ else _)
      by_cases hlong : (c.entered f).headerBlockBuf.length +
          ((f.payload.take last).drop first).length > maxHeaderBlock
      · rw [if_pos hlong]
        exact ⟨_, .error _, .failed _ (.longHeaders ha), rfl⟩
      · rw [if_neg hlong]
        exact ⟨_, .dispatch f.stream, .headersPart ha hcut rfl hend (not_lt.mp hlong), rfl⟩
    | true =>
      rw [if_pos rfl]
      unfold endHeaders
      have hblock : (c.entered f).headerBlockBuf ++ (f.payload.take last).drop first =
          c.headerBlockBuf ++ (f.payload.take last).drop first := rfl
      rw [hblock]
      dsimp only
      cases hvalid : validateHpackBlock (c.headerBlockBuf ++ (f.payload.take last).drop first)
        hpackMaxTableSize with
      | error why => exact ⟨_, .error _, .failed _ (.invalidHeaders ha), rfl⟩
      | ok =>
        dsimp only
        rw [decodeBlock_eq, show (c.entered f).blockDone.hpackDec = c.hpackDec from rfl]
        cases hdec : libs.decode c.hpackDec
          (c.headerBlockBuf ++ (f.payload.take last).drop first) with
        | none => exact ⟨_, .error _, .failed _ (.undecodableHeaders ha _), rfl⟩
        | some fields =>
          dsimp only
          rw [get?_decoded, show (c.entered f).blockDone.streams = (c.entered f).streams from rfl,
            any_badTrailers]
          by_cases hbad : ((c.streams.get? f.stream).any fun s =>
              badTrailers s f.flags (decodeHpack fields)) = true
          · rw [if_pos hbad]
            obtain ⟨s, hs, hb⟩ := (Option.any_eq_true ..).mp hbad
            exact ⟨_, .ok, .trailersRejected ha hcut rfl hend hvalid hdec hs hb, rfl⟩
          · rw [if_neg hbad]
            refine ⟨_, .dispatch f.stream, .headers ha hcut rfl hend hvalid hdec ?_, rfl⟩
            intro s hs
            rw [hs] at hbad
            exact Bool.eq_false_iff.mpr hbad

theorem handleHeaders_done (ha : Allowed c f) (hf : f.ftype = .headers) :
    Done libs env c f (c.handleHeaders libs env f.stream f.flags f.payload) := by
  unfold handleHeaders
  by_cases hid : f.stream = 0
  · rw [if_pos hid]
    exact .err _
  rw [if_neg hid]
  by_cases heven : f.stream % 2 = 0
  · rw [if_pos heven]
    exact .err _
  rw [if_neg heven]
  have hodd : f.stream % 2 = 1 := by omega
  by_cases hback : f.stream ≤ c.lastStreamId ∧ c.streams.get? f.stream = none
  · rw [if_pos hback]
    exact ⟨_, .ok, .connectionError (.backwards ha hf hback.1 hback.2 rfl), rfl⟩
  rw [if_neg hback]
  by_cases hlate : c.peerGoaway = true ∧ c.streams.get? f.stream = none
  · rw [if_pos hlate]
    exact ⟨_, .ok, .refusedLate ha hf hodd hlate.1 hlate.2, rfl⟩
  rw [if_neg hlate]
  have hknown : f.stream ≤ c.lastStreamId → c.streams.get? f.stream ≠ none :=
    fun hle hnone => hback ⟨hle, hnone⟩
  have hopen : c.peerGoaway = true → c.streams.get? f.stream ≠ none :=
    fun hgo hnone => hlate ⟨hgo, hnone⟩
  by_cases hbusy : c.activeStreams env.now ≥ maxConcurrent
  · rw [if_pos hbusy]
    by_cases hflood : c.refusedStreak + 1 ≥ maxRefusedStreak
    · rw [if_pos hflood]
      exact ⟨_, .error _, .failed _ (.flood ⟨ha, hf, hodd, hknown, hopen, hbusy⟩), rfl⟩
    · rw [if_neg hflood]
      exact ⟨_, .ok, .refusedBusy ha hf hodd hknown hopen hbusy (not_le.mp hflood), rfl⟩
  · rw [if_neg hbusy]
    exact acceptHeaders_done ⟨ha, hf, hodd, hknown, hopen, not_le.mp hbusy⟩

theorem handleContinuation_done (ha : Continues c f) :
    Done libs env c f (c.handleContinuation libs env f.stream f.flags f.payload) := by
  unfold handleContinuation
  by_cases hlong : c.headerBlockBuf.length + f.payload.length > maxHeaderBlock
  · rw [if_pos hlong]
    exact ⟨_, .error _, .failed _ (.connection errEnhanceYourCalm), rfl⟩
  rw [if_neg hlong]
  have hlen := not_lt.mp hlong
  cases hend : has f.flags flagEndHeaders with
  | false =>
    rw [if_pos Bool.false_ne_true]
    exact ⟨_, .ok, .continuationPart ha hend hlen, rfl⟩
  | true =>
    rw [if_neg (not_not.mpr rfl)]
    dsimp only
    cases hvalid : validateHpackBlock (c.headerBlockBuf ++ f.payload) hpackMaxTableSize with
    | error why => exact ⟨_, .error _, .failed _ .invalidContinuation, rfl⟩
    | ok =>
      cases hs : c.streams.get? f.stream with
      | none =>
        refine ⟨_, .ok, .continuationGone ha hend hlen hvalid hs, ?_⟩
        dsimp only
        rw [maybeDispatch, show c.blockDone.streams = c.streams from rfl, hs]
        rfl
      | some s =>
        dsimp only
        rw [decodeBlock_eq, show c.blockDone.hpackDec = c.hpackDec from rfl]
        cases hdec : libs.decode c.hpackDec (c.headerBlockBuf ++ f.payload) with
        | none => exact ⟨_, .error _, .failed _ (.undecodableContinuation _), rfl⟩
        | some fields => exact ⟨_, .dispatch f.stream,
            .continuation ha hend hlen hvalid hs hdec, rfl⟩

structure RaisesWindow (c : Conn) (f : Frame) : Prop where
  settings : f.ftype = .settings
  connection : f.stream = 0
  outside : c.continuationStreamId = none
  request : has f.flags flagAck = false
  length : f.payload.length % 6 = 0
  raises : ∃ val ∈ windowsSet (settingsPairs f.payload), c.Raises val

theorem handleSettings_cases (h : c.Sound) (ha : Allowed c f) (hf : f.ftype = .settings) :
    (c.handleSettings f.flags f.payload = none ∧ c.RaisesWindow f) ∨
      (¬ c.RaisesWindow f ∧ Done libs env c f (c.handleSettings f.flags f.payload)) := by
  obtain ⟨hid, hlen⟩ := frameShapeVerdict_settings (hf ▸ ha.shape)
  unfold handleSettings
  cases hack : has f.flags flagAck with
  | true =>
    refine .inr ⟨fun hr => absurd (hr.request.symm.trans hack) Bool.false_ne_true, ?_⟩
    rw [if_pos rfl]
    exact ⟨_, .ok, .nothing ha.outside (.inr (.inl hf)) fun _ => hack, rfl⟩
  | false =>
    rw [if_neg Bool.false_ne_true, if_neg (not_not.mpr (hlen hack))]
    rcases applySettings_cases h (settingsPairs f.payload) with
      ⟨hnone, hr⟩ | ⟨hno, hsound, ⟨hall, heq⟩ | ⟨-, why, heq⟩⟩
    · rw [hnone]
      exact .inl ⟨rfl, hf, hid, ha.outside, hack, hlen hack, hr⟩
    · refine .inr ⟨fun hr => hno hr.raises, ?_⟩
      rw [heq]
      have happ : applied (settingsPairs f.payload) = settingsPairs f.payload :=
        takeWhile_eq_self_iff.mpr (all_eq_true.mp hall)
      exact ⟨_, .ok, .settings ha hf hack hall hno (happ ▸ hsound), rfl⟩
    · refine .inr ⟨fun hr => hno hr.raises, ?_⟩
      rw [heq]
      exact ⟨_, .error why, .failed _ (.settings hf hsound), rfl⟩

theorem dispatchFrame_done (h : c.Sound) (ha : Allowed c f) (hset : f.ftype ≠ .settings)
    (hcont : f.ftype ≠ .continuation) (hlen : f.payload.length ≤ maxFrameSize) :
    Done libs env c f (dispatchFrame libs env c f) := by
  unfold dispatchFrame
  cases hf : f.ftype with
  | data => exact handleData_done h ha hf hlen
  | headers => exact handleHeaders_done ha hf
  | priority => exact handlePriority_done ha hf
  | rstStream => exact ⟨_, .ok, .rstStream ha hf, rfl⟩
  | settings => exact absurd hf hset
  | pushPromise => exact .err _
  | ping => exact handlePing_done ha hf
  | goaway => exact ⟨_, .ok, .goaway ha hf, rfl⟩
  | windowUpdate => exact handleWindowUpdate_done h ha hf
  | continuation => exact absurd hf hcont
  | unknown code =>
    exact ⟨_, .ok, .nothing ha.outside (.inr (.inr (.inr ⟨code, hf⟩)))
      fun hs => absurd hs hset, rfl⟩

variable (libs env) in
theorem refuse_cases (hin : ¬ ∃ cont ∈ c.continuationStreamId,
      f.ftype ≠ .continuation ∨ f.stream ≠ cont)
    (hout : ¬ (c.continuationStreamId = none ∧ f.ftype = .continuation)) :
    (∃ c₁, c.refuse env f = some c₁ ∧ Handles libs env c f c₁ .ok) ∨
      (c.refuse env f = none ∧ (Continues c f ∨ Allowed c f ∧ f.ftype ≠ .continuation)) := by
  unfold refuse
  cases hshape : frameShapeVerdict f.ftype f.flags f.stream f.payload.length with
  | connectionError code => exact .inl ⟨_, rfl, .connectionError (.shape hshape)⟩
  | streamError code =>
    obtain ⟨hp, hid, hlen⟩ := frameShapeVerdict_streamError hshape
    refine .inl ⟨_, rfl, .reset code ?_ (.inl ⟨hp, hid, .inl hlen⟩)⟩
    cases hc : c.continuationStreamId with
    | none => rfl
    | some cont => exact absurd ⟨cont, hc, .inl (by rw [hp]; decide)⟩ hin
  | allow =>
    dsimp only
    cases hc : c.continuationStreamId with
    | some cont =>
      have hcont : f.ftype = .continuation ∧ f.stream = cont := by
        by_contra hne
        exact hin ⟨cont, hc, not_and_or.mp hne⟩
      refine .inr ⟨rfl, .inl ⟨hcont.1, ?_, hshape⟩⟩
      rw [hc, hcont.2]
    | none =>
      rw [if_neg (by decide)]
      cases hstate : c.frameVerdict f.ftype f.stream with
      | connectionError code =>
        exact .inl ⟨_, rfl, .connectionError (.state hc hshape hstate)⟩
      | streamError code =>
        exact .inl ⟨_, rfl, .illegal code hc hshape hstate fun hf => hout ⟨hc, hf⟩⟩
      | allow =>
        exact .inr ⟨rfl, .inr ⟨⟨hc, hshape, hstate⟩, fun hf => hout ⟨hc, hf⟩⟩⟩

theorem RaisesWindow.allowed (hr : c.RaisesWindow f) : c.refuse env f = none := by
  have hshape : frameShapeVerdict f.ftype f.flags f.stream f.payload.length = .allow := by
    rw [hr.settings, hr.connection]
    simp [frameShapeVerdict, FrameType.needsStream, FrameType.needsConnection, hr.request,
      hr.length]
  rw [refuse, hshape, hr.outside, frameVerdict, hr.connection]
  rfl

/-- **What comes of a frame**: the process ends if it raises the window of a stream too far, and
else it does what a frame can do. -/
theorem receive_handles (libs : Libs) (env : Env) (h : c.Sound)
    (hlen : f.payload.length ≤ maxFrameSize) :
    (receive libs env c f = none ∧ c.RaisesWindow f) ∨
      (¬ c.RaisesWindow f ∧ Done libs env c f (receive libs env c f)) := by
  have hquiet (hns : f.ftype ≠ .settings) : ¬ c.RaisesWindow f := fun hr => hns hr.settings
  unfold receive
  by_cases hin : ∃ cont ∈ c.continuationStreamId, f.ftype ≠ .continuation ∨ f.stream ≠ cont
  · rw [if_pos hin]
    refine .inr ⟨fun hr => ?_, .err _⟩
    obtain ⟨cont, hcont, -⟩ := hin
    exact nomatch hr.outside.symm.trans hcont
  rw [if_neg hin]
  by_cases hout : c.continuationStreamId = none ∧ f.ftype = .continuation
  · rw [if_pos hout]
    exact .inr ⟨hquiet (by rw [hout.2]; decide), .err _⟩
  rw [if_neg hout]
  rcases refuse_cases libs env hin hout with
    ⟨c₁, hc₁, hh⟩ | ⟨hnone, hcont | ⟨ha, hcont⟩⟩
  · refine .inr ⟨fun hr => absurd (hr.allowed.symm.trans hc₁) nofun, ?_⟩
    rw [hc₁]
    exact ⟨c₁, .ok, hh, rfl⟩
  · rw [hnone]
    refine .inr ⟨hquiet (by rw [hcont.continuation]; decide), ?_⟩
    change Done libs env c f (dispatchFrame libs env c f)
    rw [dispatchFrame, hcont.continuation]
    exact handleContinuation_done hcont
  · rw [hnone]
    change (dispatchFrame libs env c f = none ∧ _) ∨
      (_ ∧ Done libs env c f (dispatchFrame libs env c f))
    by_cases hset : f.ftype = .settings
    · rw [dispatchFrame, hset]
      exact handleSettings_cases h ha hset
    · exact .inr ⟨hquiet hset, dispatchFrame_done h ha hset hcont hlen⟩

end Conn

end M6.Http2
