import M6.Edge.H1
import M6.Edge.H2
import Mathlib.Algebra.Ring.Int.Defs

/-!
# The HTTP/2 server

`Http2Conn` of `http2.rs`, without its input and output: what it has received and not taken, its
streams, windows and the two HPACK tables. `processFrame` takes one frame. What the connection took,
wrote and handed over is kept in the order in which it happened (`log`).

Windows are `i32` and the process ends when one leaves that type, so a function that moves a window
has a result only if the window fits. The HPACK library is a parameter: the decoder is what it was
asked to do so far (`DecoderOp`), and so is the encoder. A `HashMap` lists its keys in any order,
which is part of the surroundings of a step (`Env`).
-/

namespace M6.Http2

/-! ## Frames -/

inductive FrameType where
  | data
  | headers
  | priority
  | rstStream
  | settings
  | pushPromise
  | ping
  | goaway
  | windowUpdate
  | continuation
  | unknown (code : UInt8)
  deriving DecidableEq

def FrameType.ofByte (b : UInt8) : FrameType :=
  if b = 0x0 then .data
  else if b = 0x1 then .headers
  else if b = 0x2 then .priority
  else if b = 0x3 then .rstStream
  else if b = 0x4 then .settings
  else if b = 0x5 then .pushPromise
  else if b = 0x6 then .ping
  else if b = 0x7 then .goaway
  else if b = 0x8 then .windowUpdate
  else if b = 0x9 then .continuation
  else .unknown b

def FrameType.needsStream (t : FrameType) : Bool :=
  [.data, .headers, .priority, .rstStream, .pushPromise, .continuation].contains t

def FrameType.needsConnection (t : FrameType) : Bool := [.settings, .ping, .goaway].contains t

structure Frame where
  ftype : FrameType
  flags : UInt8
  stream : Nat
  payload : Bytes
  deriving DecidableEq

def flagEndStream : UInt8 := 0x1
def flagEndHeaders : UInt8 := 0x4
def flagPadded : UInt8 := 0x8
def flagPriority : UInt8 := 0x20
def flagAck : UInt8 := 0x1

def has (flags flag : UInt8) : Bool := flags &&& flag != 0

def clientPreface : Bytes := Utf8.encode "PRI * HTTP/2.0\r\n\r\nSM\r\n\r\n".toList
def defaultWindow : Int := 65535
def defaultMaxFrame : Nat := 16384
def maxConcurrent : Nat := 100
def maxFrameSize : Nat := 16384
def maxHeaderBlock : Nat := 256 * 1024
def hpackMaxTableSize : Nat := 4096
def resetMemory : Nat := 128
def resetDecay : Nat := 1000000000
def maxRefusedStreak : Nat := 50
def maxWindow : Int := 0x7fffffff

def errNoError : Nat := 0x0
def errProtocolError : Nat := 0x1
def errFlowControl : Nat := 0x3
def errStreamClosed : Nat := 0x5
def errFrameSize : Nat := 0x6
def errRefusedStream : Nat := 0x7
def errCompression : Nat := 0x9
def errEnhanceYourCalm : Nat := 0xb

def bigEndian (bs : Bytes) : Nat := bs.foldl (fun n b => 256 * n + b.toNat) 0

def be16 (n : Nat) : Bytes := [UInt8.ofNat (n / 256), UInt8.ofNat n]

def be32 (n : Nat) : Bytes :=
  [UInt8.ofNat (n / 256 ^ 3), UInt8.ofNat (n / 256 ^ 2), UInt8.ofNat (n / 256), UInt8.ofNat n]

/-- A number without the bit above the lower 31. -/
def low31 (n : Nat) : Nat := n % 2 ^ 31

/-! ## What ends the process -/

/-- The result of `i32` arithmetic, if it is one. -/
def i32 (n : Int) : Option Int := if -2147483648 ≤ n ∧ n ≤ 2147483647 then some n else none

/-- The bytes from `i` up to `j`, if there are such. -/
def slice? (bs : Bytes) (i j : Nat) : Option Bytes :=
  if i ≤ j ∧ j ≤ bs.length then some ((bs.take j).drop i) else none

/-! ## HPACK -/

/-- Decode an integer with an `n`-bit prefix, and what follows it. -/
def prefixIntTail : Nat → Nat → Bytes → Except Str (Nat × Bytes)
  | _, _, [] => .error "HPACK: truncated integer".toList
  | v, m, byte :: rest =>
    if m > 21 then .error "HPACK: integer too large".toList
    else
      let v := v + (byte &&& 0x7f).toNat * 2 ^ m
      if 2 ^ 64 ≤ v then .error "HPACK: integer overflow".toList
      else if byte &&& 0x80 = 0 then .ok (v, rest)
      else prefixIntTail v (m + 7) rest

def hpackPrefixInt (n : Nat) : Bytes → Except Str (Nat × Bytes)
  | [] => .error "HPACK: truncated integer".toList
  | b :: rest =>
    let mask := 2 ^ n - 1
    let v := b.toNat % 2 ^ n
    if v < mask then .ok (v, rest) else prefixIntTail v 0 rest

def hpackSkipString (bs : Bytes) : Except Str Bytes := do
  let (len, rest) ← hpackPrefixInt 7 bs
  if rest.length < len then .error "HPACK: truncated string".toList else .ok (rest.drop len)

def skipRepresentation (maxTableSize : Nat) (seenField : Bool) (first : UInt8) (block : Bytes) :
    Except Str (Bytes × Bool) :=
  if first &&& 0x80 ≠ 0 then do
    let (_, rest) ← hpackPrefixInt 7 block
    .ok (rest, true)
  else if first &&& 0xe0 = 0x20 then
    if seenField then .error "HPACK: dynamic table size update after a field".toList
    else do
      let (size, rest) ← hpackPrefixInt 5 block
      if size > maxTableSize then
        .error "HPACK: dynamic table size update exceeds the advertised maximum".toList
      else .ok (rest, seenField)
  else do
    let (idx, rest) ← hpackPrefixInt (if first &&& 0xc0 = 0x40 then 6 else 4) block
    let rest ← if idx = 0 then hpackSkipString rest else .ok rest
    let rest ← hpackSkipString rest
    .ok (rest, true)

/-- `validate_hpack_block`, for so many representations. -/
def validateRepresentations (maxTableSize : Nat) : Nat → Bool → Bytes → Except Str Unit
  | _, _, [] => .ok ()
  | 0, _, _ => .ok ()
  | n + 1, seenField, first :: rest => do
    let (rest, seenField) ← skipRepresentation maxTableSize seenField first (first :: rest)
    validateRepresentations maxTableSize n seenField rest

/-- `validate_hpack_block`. A representation takes a byte at least. -/
def validateHpackBlock (block : Bytes) (maxTableSize : Nat) : Except Str Unit :=
  validateRepresentations maxTableSize block.length false block

inductive DecoderOp where
  | decode (block : Bytes)
  | setMaxTableSize (n : Nat)
  deriving DecidableEq

/-- What the server is built on. -/
structure Libs where
  /-- what the decoder makes of a block, after what it was asked to do before -/
  decode : List DecoderOp → Bytes → Option (List RawField)
  /-- the block of the encoder, after the lists before -/
  encode : List (List RawField) → List RawField → Bytes
  /-- `str::to_lowercase` -/
  toLowercase : Str → Str
  /-- the configured security headers -/
  security : List (Str × Str)

/-! ## The connection -/

inductive StreamState where
  | idle
  | isOpen
  | halfClosedLocal
  | halfClosedRemote
  | closed
  deriving DecidableEq

inductive FrameVerdict where
  | allow
  | connectionError (code : Nat)
  | streamError (code : Nat)
  deriving DecidableEq

structure Stream where
  state : StreamState
  headers : List (Str × Str)
  body : Bytes
  headersDone : Bool
  sendWindow : Int
  recvWindow : Int
  respBody : Option Bytes
  /-- how much of it was sent -/
  respSent : Nat
  /-- the method of a request that a backend was asked for -/
  pending : Option Str

def Stream.new (initialSendWindow : Int) : Stream :=
  ⟨.isOpen, [], [], false, initialSendWindow, defaultWindow, none, 0, none⟩

inductive Phase where
  | preface
  | active
  | goingAway
  | done
  deriving DecidableEq

/-- What can be seen of a connection from outside. -/
inductive Entry where
  /-- a frame was taken from what came -/
  | took (f : Frame)
  /-- a frame was written -/
  | wrote (f : Frame)
  | handed (stream : Nat) (req : RawRequest)
  /-- a response came, with what is to be sent of its body -/
  | answered (stream : Nat) (body : Bytes)

structure Conn where
  phase : Phase
  recvBuf : Bytes
  /-- what happened so far -/
  log : List Entry
  streams : SortedMap Nat Stream
  /-- what the decoder was asked to do so far -/
  hpackDec : List DecoderOp
  /-- what the encoder was given so far -/
  hpackEnc : List (List RawField)
  lastStreamId : Nat
  /-- the streams that were reset, and when, newest last -/
  recentlyReset : List (Nat × Nat)
  refusedStreak : Nat
  /-- the send windows of streams that were closed, newest last -/
  closedWindows : List (Nat × Int)
  peerGoaway : Bool
  goawaySent : Bool
  continuationStreamId : Option Nat
  headerBlockBuf : Bytes
  peerInitialWindow : Int
  peerMaxFrame : Nat
  connRecvWindow : Int
  connSendWindow : Int

def Conn.new : Conn :=
  ⟨.preface, [], [], .empty, [], [], 0, [], 0, [], false, false, none, [], defaultWindow,
    defaultMaxFrame, defaultWindow, defaultWindow⟩

/-- What surrounds a step. -/
structure Env where
  now : Nat
  /-- the address of the client, by the `x-forwarded-for` of a request -/
  clientIp : Option Str → Str
  onRequest : RawRequest → Str → RequestOutcome
  order : List Nat → List Nat
  order_perm : ∀ ids, (order ids).Perm ids

/-- What comes of a handler: nothing if the process ends. -/
abbrev Outcome : Type := Option (Conn × Except Str Unit)

namespace Conn

/-! ### Writing -/

def pushFrame (c : Conn) (ftype : FrameType) (flags : UInt8) (stream : Nat) (payload : Bytes) :
    Conn :=
  { c with log := c.log ++ [.wrote ⟨ftype, flags, low31 stream, payload⟩] }

def pushWindowUpdate (c : Conn) (stream inc : Nat) : Conn :=
  c.pushFrame .windowUpdate 0 stream (be32 (low31 inc))

def pushReset (c : Conn) (stream code : Nat) : Conn :=
  c.pushFrame .rstStream 0 stream (be32 code)

def sendGoaway (c : Conn) (code : Nat) : Conn :=
  { c with goawaySent := true }.pushFrame .goaway 0 0 (be32 (low31 c.lastStreamId) ++ be32 code)

def connectionError (c : Conn) (code : Nat) : Conn := { c.sendGoaway code with phase := .goingAway }

def sendServerSettings (c : Conn) : Conn :=
  c.pushFrame .settings 0 0 (be16 0x3 ++ be32 maxConcurrent ++ be16 0x4 ++ be32 1048576 ++
    be16 0x5 ++ be32 maxFrameSize)

/-! ### Streams -/

def setStream (c : Conn) (stream : Nat) (s : Stream) : Conn :=
  { c with streams := c.streams.insert stream s }

def updateStream (c : Conn) (stream : Nat) (f : Stream → Stream) : Conn :=
  match c.streams.get? stream with
  | some s => c.setStream stream (f s)
  | none => c

def removeStream (c : Conn) (stream : Nat) : Conn := { c with streams := c.streams.erase stream }

def resetStream (c : Conn) (stream code : Nat) : Conn :=
  (c.pushReset stream code).removeStream stream

/-- Append to a list that is kept short, at the cost of its oldest member. -/
def remember {α : Type} (l : List α) (a : α) : List α :=
  (if resetMemory ≤ l.length then l.tail else l) ++ [a]

def closeStreamRememberingWindow (c : Conn) (stream : Nat) : Conn :=
  match c.streams.get? stream with
  | some s =>
    { c.removeStream stream with
      closedWindows := remember c.closedWindows (stream, s.sendWindow) }
  | none => c.removeStream stream

def noteReset (c : Conn) (now stream : Nat) : Conn :=
  { c with recentlyReset := remember c.recentlyReset (stream, now) }

def wasReset (c : Conn) (stream : Nat) : Bool := c.recentlyReset.any fun e => e.1 == stream

/-- `active_streams`: those that are open, and those of the client that were reset just now. -/
def activeStreams (c : Conn) (now : Nat) : Nat :=
  c.streams.entries.length +
    (c.recentlyReset.filter fun e => e.1 % 2 == 1 && now - e.2 < resetDecay).length

def streamState (c : Conn) (stream : Nat) : StreamState :=
  match c.streams.get? stream with
  | some s => s.state
  | none => if stream > c.lastStreamId then .idle else .closed

def frameShapeVerdict (ftype : FrameType) (flags : UInt8) (stream length : Nat) : FrameVerdict :=
  if ftype.needsStream ∧ stream = 0 then .connectionError errProtocolError
  else if ftype.needsConnection ∧ stream ≠ 0 then .connectionError errProtocolError
  else if ftype = .priority ∧ length ≠ 5 then .streamError errFrameSize
  else if ftype = .rstStream ∧ length ≠ 4 then .connectionError errFrameSize
  else if ftype = .ping ∧ length ≠ 8 then .connectionError errFrameSize
  else if ftype = .windowUpdate ∧ length ≠ 4 then .connectionError errFrameSize
  else if ftype = .settings ∧ has flags flagAck ∧ length ≠ 0 then .connectionError errFrameSize
  else if ftype = .settings ∧ ¬ has flags flagAck ∧ length % 6 ≠ 0 then
    .connectionError errFrameSize
  else .allow

def frameVerdict (c : Conn) (ftype : FrameType) (stream : Nat) : FrameVerdict :=
  if stream = 0 then .allow
  else if ftype = .priority then .allow
  else if ftype = .settings ∨ ftype = .ping ∨ ftype = .goaway then .allow
  else
    match c.streamState stream with
    | .idle => if ftype = .headers then .allow else .connectionError errProtocolError
    | .isOpen => .allow
    | .halfClosedLocal => .allow
    | .halfClosedRemote =>
      if ftype = .windowUpdate ∨ ftype = .rstStream then .allow else .streamError errStreamClosed
    | .closed =>
      if ftype = .windowUpdate ∨ ftype = .rstStream then .allow
      else if c.wasReset stream then .streamError errStreamClosed
      else .connectionError errStreamClosed

/-! ### Responses -/

/-- How much of a body goes into one frame, when `remaining` bytes of it are left. -/
def toSend (c : Conn) (s : Stream) (remaining : Nat) : Nat :=
  min remaining (min (min c.connSendWindow s.sendWindow).toNat c.peerMaxFrame)

def setConnSendWindow (c : Conn) (window : Int) : Conn := { c with connSendWindow := window }

/-- Send the next `n` bytes of a body, and charge both windows. -/
def sendChunk (c : Conn) (stream : Nat) (s : Stream) (body : Bytes) (n : Nat) : Option Conn := do
  let chunk ← slice? body s.respSent (s.respSent + n)
  let c := c.pushFrame .data (if s.respSent + n = body.length then flagEndStream else 0)
    stream chunk
  let connSendWindow ← i32 (c.connSendWindow - n)
  let sendWindow ← i32 (s.sendWindow - n)
  let s := { s with sendWindow := sendWindow, respSent := s.respSent + n }
  some ((c.setConnSendWindow connSendWindow).setStream stream s)

def endStream (c : Conn) (stream : Nat) (state : StreamState) : Conn :=
  if state = .halfClosedRemote then
    let c := c.closeStreamRememberingWindow stream
    if stream % 2 = 1 then { c with lastStreamId := max c.lastStreamId stream } else c
  else c.updateStream stream fun s => { s with state := .halfClosedLocal }

def exhausted (c : Conn) (stream : Nat) : Bool :=
  c.connSendWindow ≤ 0 || ((c.streams.get? stream).map Stream.sendWindow).getD 0 ≤ 0

/-- The next DATA frames of a stream, as long as there is credit. Each one takes a byte at least, so
that as many rounds are enough as there are bytes left, and one to end the stream. -/
def flushRounds (stream : Nat) : Nat → Conn → Option Conn
  | 0, c => some c
  | rounds + 1, c =>
    match c.streams.get? stream with
    | none => some c
    | some s =>
      match s.respBody with
      | none => some c
      | some body =>
        if body.length < s.respSent then none
        else
          let remaining := body.length - s.respSent
          if remaining = 0 then
            some ((c.pushFrame .data flagEndStream stream []).closeStreamRememberingWindow stream)
          else if c.exhausted stream then some c
          else
            let n := c.toSend s remaining
            match c.sendChunk stream s body n with
            | none => none
            | some c =>
              if s.respSent + n = body.length then some (c.endStream stream s.state)
              else if c.exhausted stream then some c
              else flushRounds stream rounds c

def unsent (c : Conn) (stream : Nat) : Nat :=
  match c.streams.get? stream with
  | some s => (s.respBody.getD []).length - s.respSent
  | none => 0

def flushPendingStreams (env : Env) (c : Conn) : Option Conn :=
  (env.order (c.streams.entries.map Prod.fst)).foldlM
    (fun c stream => flushRounds stream (c.unsent stream + 1) c) c

def responseFields (libs : Libs) (status : Nat) (headers : List (Str × Str)) (bodyLen : Nat) :
    List RawField :=
  let bytes := fun h : Str × Str => (Utf8.encode h.1, Utf8.encode h.2)
  let filtered := (headers.filter fun h => !(["connection".toList, "transfer-encoding".toList,
      "keep-alive".toList, "content-length".toList].contains (libs.toLowercase h.1))).map
    fun h => (libs.toLowercase h.1, h.2)
  [(lit ":status", Utf8.encode (decimal status))] ++
    (if statusMayHaveContentLength status then
      [(lit "content-length", Utf8.encode (decimal bodyLen))] else []) ++
    filtered.map bytes ++
    (libs.security.filter fun h => !containsHeader filtered h.1).map bytes

def writeHead (libs : Libs) (c : Conn) (stream status : Nat) (headers : List (Str × Str))
    (bodyLen : Nat) : Conn :=
  let fields := responseFields libs status headers bodyLen
  { c with hpackEnc := c.hpackEnc ++ [fields] }.pushFrame .headers flagEndHeaders stream
    (libs.encode c.hpackEnc fields)

def sentBody (method : Str) (body : Bytes) : Bytes :=
  if Text.eqIgnoreAsciiCase method "HEAD".toList then [] else body

def noteAnswer (c : Conn) (stream : Nat) (body : Bytes) : Conn :=
  { c with log := c.log ++ [.answered stream body] }

def setBody (s : Stream) (body : Bytes) : Stream := { s with respBody := some body, respSent := 0 }

def respond (libs : Libs) (c : Conn) (stream status : Nat) (headers : List (Str × Str))
    (body : Bytes) (method : Str) : Conn :=
  ((c.noteAnswer stream (sentBody method body)).writeHead libs stream status headers
    body.length).updateStream stream fun s => setBody s (sentBody method body)

def dispatchH2Response (libs : Libs) (env : Env) (c : Conn) (stream status : Nat)
    (headers : List (Str × Str)) (body : Bytes) (method : Str) : Option Conn :=
  (c.respond libs stream status headers body method).flushPendingStreams env

/-- Whether the request of a stream is to be handed over now. -/
def ready (s : Stream) : Bool :=
  s.headersDone && (s.state == .halfClosedRemote || isHeadersonly s.headers) &&
    s.state != .closed && s.respBody.isNone && s.pending.isNone

def rejectRequest (c : Conn) (stream : Nat) : Conn :=
  c.resetStream stream errProtocolError

def handOver (c : Conn) (stream : Nat) (req : RawRequest) : Conn :=
  { c with log := c.log ++ [.handed stream req] }

def maybeDispatch (libs : Libs) (env : Env) (c : Conn) (stream : Nat) : Option Conn :=
  match c.streams.get? stream with
  | none => some c
  | some s =>
    if !ready s then some c
    else if ∃ n ∈ declaredLength s.headers, n ≠ s.body.length then some (c.rejectRequest stream)
    else
      match validateRequestHeaders s.headers with
      | .error _ => some (c.rejectRequest stream)
      | .ok _ =>
        let (req, forwardedFor) := buildRequest s.headers s.body
        let c := c.handOver stream req
        match env.onRequest req (env.clientIp forwardedFor) with
        | .ready status headers body =>
          c.dispatchH2Response libs env stream status headers body req.method
        | .pending => some (c.updateStream stream fun s => { s with pending := some req.method })

/-! ### Handlers -/

/-- `Ok(())`. -/
def ok (c : Conn) : Outcome := some (c, .ok ())

/-- `Err(why)`. -/
def err (c : Conn) (why : String) : Outcome := some (c, .error why.toList)

/-- `Ok(())` after something that may end the process. -/
def done (c : Option Conn) : Outcome := c.map fun c => (c, .ok ())

def setMaxTableSize (c : Conn) (n : Nat) : Conn :=
  { c with hpackDec := c.hpackDec ++ [.setMaxTableSize n] }

/-- The credit that a stream starts with, which moves the windows of the streams that are open. -/
def setInitialWindow (c : Conn) (window : Int) : Conn :=
  { c with
    peerInitialWindow := window
    streams := c.streams.map fun s =>
      { s with sendWindow := s.sendWindow + (window - c.peerInitialWindow) } }

def setMaxFrame (c : Conn) (n : Nat) : Conn := { c with peerMaxFrame := n }

def applySetting (c : Conn) : Nat × Nat → Outcome
  | (0x1, val) => ok (c.setMaxTableSize (min val hpackMaxTableSize))
  | (0x2, val) => if val > 1 then c.err "invalid ENABLE_PUSH" else c.ok
  | (0x4, val) =>
    if val > 0x7fffffff then c.err "INITIAL_WINDOW_SIZE overflow"
    else do
      let delta ← i32 (val - c.peerInitialWindow)
      -- every stream that is open
      let _ ← c.streams.entries.mapM fun e => i32 (e.2.sendWindow + delta)
      ok (c.setInitialWindow val)
  | (0x5, val) =>
    if val < 16384 ∨ 16777215 < val then c.err "invalid MAX_FRAME_SIZE"
    else ok (c.setMaxFrame val)
  | _ => c.ok

def applySettings : Conn → List (Nat × Nat) → Outcome
  | c, [] => c.ok
  | c, p :: ps => do
    match ← c.applySetting p with
    | (c, .ok _) => applySettings c ps
    | (c, .error why) => some (c, .error why)

def settingsPairs : Bytes → List (Nat × Nat)
  | a :: b :: c :: d :: e :: f :: rest =>
    (bigEndian [a, b], bigEndian [c, d, e, f]) :: settingsPairs rest
  | _ => []

def handleSettings (c : Conn) (flags : UInt8) (payload : Bytes) : Outcome :=
  if has flags flagAck then c.ok
  else if payload.length % 6 ≠ 0 then c.err "SETTINGS payload not multiple of 6"
  else do
    match ← c.applySettings (settingsPairs payload) with
    | (c, .ok _) => ok (c.pushFrame .settings flagAck 0 [])
    | (c, .error why) => some (c, .error why)

def handlePing (c : Conn) (flags : UInt8) (payload : Bytes) : Conn :=
  if ¬ has flags flagAck ∧ payload.length = 8 then c.pushFrame .ping flagAck 0 payload else c

def closedWindow (c : Conn) (stream : Nat) : Option Int :=
  (c.closedWindows.find? fun e => e.1 == stream).map Prod.snd

def setClosedWindow (c : Conn) (stream : Nat) (window : Int) : Conn :=
  { c with closedWindows := c.closedWindows.replaceF fun e =>
      if e.1 == stream then some (stream, window) else none }

def dropClosedWindow (c : Conn) (stream : Nat) : Conn :=
  { c with closedWindows := c.closedWindows.eraseP fun e => e.1 == stream }

def handleWindowUpdate (env : Env) (c : Conn) (stream : Nat) (payload : Bytes) : Outcome :=
  if payload.length < 4 then c.err "WINDOW_UPDATE too short"
  else
    let inc := low31 (bigEndian (payload.take 4))
    if inc = 0 then c.err "zero WINDOW_UPDATE increment"
    else if stream = 0 then
      if c.connSendWindow + inc > maxWindow then
        (c.connectionError errFlowControl).err "connection flow-control window overflow"
      else do
        let window ← i32 (c.connSendWindow + inc)
        done ((c.setConnSendWindow window).flushPendingStreams env)
    else
      match c.streams.get? stream with
      | some s =>
        if s.sendWindow + inc > maxWindow then
          ok ((c.resetStream stream errFlowControl).noteReset env.now stream)
        else do
          let window ← i32 (s.sendWindow + inc)
          done ((c.setStream stream { s with sendWindow := window }).flushPendingStreams env)
      | none =>
        match c.closedWindow stream with
        | some w =>
          if w + inc > maxWindow then
            ok (((c.pushReset stream errFlowControl).dropClosedWindow stream).noteReset env.now
              stream)
          else do
            let window ← i32 (w + inc)
            done ((c.setClosedWindow stream window).flushPendingStreams env)
        | none => done (c.flushPendingStreams env)

inductive HeaderCut where
  | malformed (why : String)
  /-- shorter than the priority fields that its flags promise -/
  | shortPriority
  /-- the stream depends on itself -/
  | selfDependent
  /-- a header block, or a part of one, between two places of the payload -/
  | block (first last : Nat)

def padLength (flags : UInt8) (payload : Bytes) : Nat :=
  if has flags flagPadded then (payload.headD 0).toNat else 0

def priorityStart (flags : UInt8) : Nat := if has flags flagPadded then 1 else 0

def blockStart (flags : UInt8) : Nat :=
  priorityStart flags + if has flags flagPriority then 5 else 0

def cutHeaders (stream : Nat) (flags : UInt8) (payload : Bytes) : HeaderCut :=
  if has flags flagPadded ∧ payload = [] then
    .malformed "HEADERS: PADDED set but no pad-length byte"
  else if has flags flagPriority ∧ payload.length < priorityStart flags + 5 then .shortPriority
  else if has flags flagPriority ∧
      low31 (bigEndian ((payload.drop (priorityStart flags)).take 4)) = stream then
    .selfDependent
  else if blockStart flags + padLength flags payload > payload.length then
    .malformed "HEADERS: padding exceeds payload"
  else .block (blockStart flags) (payload.length - padLength flags payload)

/-- `decode_hpack`, by the decoder of the connection. -/
def decodeBlock (libs : Libs) (c : Conn) (block : Bytes) : Conn × Except Str (List (Str × Str)) :=
  ({ c with hpackDec := c.hpackDec ++ [.decode block] },
    match libs.decode c.hpackDec block with
    | none => .error "HPACK decode error".toList
    | some fields => .ok (decodeHpack fields))

def addFields (c : Conn) (stream : Nat) (fields : List (Str × Str)) : Conn :=
  c.updateStream stream fun s => { s with headers := s.headers ++ fields, headersDone := true }

def blockDone (c : Conn) : Conn := { c with headerBlockBuf := [], continuationStreamId := none }

/-- Whether the second section of a stream is no trailer section: it does not end the stream, or it
has a pseudo-header. -/
def badTrailers (s : Stream) (flags : UInt8) (fields : List (Str × Str)) : Bool :=
  s.headersDone && (!has flags flagEndStream || fields.any fun f => f.1.head? == some ':')

def endHeaders (libs : Libs) (env : Env) (c : Conn) (stream : Nat) (flags : UInt8)
    (block : Bytes) : Outcome :=
  let combined := c.headerBlockBuf ++ block
  match validateHpackBlock combined hpackMaxTableSize with
  | .error why => some (c.blockDone.connectionError errCompression, .error why)
  | .ok _ =>
    match c.blockDone.decodeBlock libs combined with
    | (c, .error why) => some (c, .error why)
    | (c, .ok fields) =>
      if (c.streams.get? stream).any fun s => badTrailers s flags fields then
        ok (c.rejectRequest stream)
      else done ((c.addFields stream fields).maybeDispatch libs env stream)

def enterStream (c : Conn) (stream : Nat) (flags : UInt8) : Conn :=
  let s := (c.streams.get? stream).getD (.new c.peerInitialWindow)
  c.setStream stream (if has flags flagEndStream then { s with state := .halfClosedRemote } else s)

def addBlock (c : Conn) (block : Bytes) : Conn :=
  { c with headerBlockBuf := c.headerBlockBuf ++ block }

def awaitContinuation (c : Conn) (stream : Nat) : Conn :=
  { c with continuationStreamId := some stream }

def acceptHeaders (libs : Libs) (env : Env) (c : Conn) (stream : Nat) (flags : UInt8)
    (payload : Bytes) : Outcome :=
  match cutHeaders stream flags payload with
  | .malformed why => c.err why
  | .shortPriority =>
    (c.pushReset stream errFrameSize).err
      "HEADERS: PRIORITY set but payload shorter than the priority fields"
  | .selfDependent => ok (c.pushReset stream errProtocolError)
  | .block first last => do
    let block ← slice? payload first last
    let c := c.enterStream stream flags
    if has flags flagEndHeaders then c.endHeaders libs env stream flags block
    else if c.headerBlockBuf.length + block.length > maxHeaderBlock then
      (c.connectionError errEnhanceYourCalm).err "header block exceeds MAX_HEADER_BLOCK"
    else done (((c.addBlock block).awaitContinuation stream).maybeDispatch libs env stream)

def opened (c : Conn) (stream : Nat) : Conn :=
  { c with lastStreamId := max c.lastStreamId stream }

def letIn (c : Conn) (stream : Nat) : Conn := { c.opened stream with refusedStreak := 0 }

def refuseStream (c : Conn) (stream : Nat) : Conn :=
  (c.pushReset stream errRefusedStream).opened stream

def refuseBusy (c : Conn) (now stream : Nat) : Conn :=
  { (c.refuseStream stream).noteReset now stream with refusedStreak := c.refusedStreak + 1 }

def handleHeaders (libs : Libs) (env : Env) (c : Conn) (stream : Nat) (flags : UInt8)
    (payload : Bytes) : Outcome :=
  if stream = 0 then c.err "HEADERS on stream 0"
  else if stream % 2 = 0 then c.err "client used even stream ID"
  else if stream ≤ c.lastStreamId ∧ c.streams.get? stream = none then
    ok (c.connectionError errProtocolError)
  else if c.peerGoaway ∧ c.streams.get? stream = none then ok (c.refuseStream stream)
  else if c.activeStreams env.now ≥ maxConcurrent then
    if c.refusedStreak + 1 ≥ maxRefusedStreak then
      ((c.refuseBusy env.now stream).connectionError errEnhanceYourCalm).err
        "stream concurrency cap ignored: reset flood"
    else ok (c.refuseBusy env.now stream)
  else (c.letIn stream).acceptHeaders libs env stream flags payload

def handleContinuation (libs : Libs) (env : Env) (c : Conn) (stream : Nat) (flags : UInt8)
    (payload : Bytes) : Outcome :=
  if c.headerBlockBuf.length + payload.length > maxHeaderBlock then
    (c.connectionError errEnhanceYourCalm).err "header block exceeds MAX_HEADER_BLOCK"
  else if ¬ has flags flagEndHeaders then ok (c.addBlock payload)
  else
    let all := c.headerBlockBuf ++ payload
    match validateHpackBlock all hpackMaxTableSize with
    | .error why => some (c.blockDone.connectionError errCompression, .error why)
    | .ok _ =>
      match c.streams.get? stream with
      -- the block of a stream that is gone is not decoded
      | none => done (c.blockDone.maybeDispatch libs env stream)
      | some _ =>
        match c.blockDone.decodeBlock libs all with
        | (c, .error why) => some (c, .error why)
        | (c, .ok fields) => done ((c.addFields stream fields).maybeDispatch libs env stream)

def cutData (flags : UInt8) (payload : Bytes) : Except String (Nat × Nat) :=
  if has flags flagPadded then
    match payload with
    | [] => .error "DATA: PADDED set but no pad-length byte"
    | pad :: _ =>
      if pad.toNat ≥ payload.length then .error "DATA: excess padding"
      else .ok (1, payload.length - pad.toNat)
  else .ok (0, payload.length)

def replenish (window : Int) : Option (Int × Int) :=
  if window < defaultWindow / 2 then do
    let inc ← i32 (defaultWindow - window)
    let window ← i32 (window + inc)
    some (window, inc)
  else some (window, 0)

def grant (c : Conn) (stream : Nat) (inc : Int) : Conn :=
  if inc > 0 then c.pushWindowUpdate stream inc.toNat else c

def setConnRecvWindow (c : Conn) (window : Int) : Conn := { c with connRecvWindow := window }

/-- What DATA leaves of its stream, whose window is `recvWindow` then. -/
def takeData (s : Stream) (flags : UInt8) (data : Bytes) (recvWindow : Int) : Stream :=
  { s with
    recvWindow := recvWindow
    body := s.body ++ data
    state := if has flags flagEndStream then .halfClosedRemote else s.state }

/-- `handle_data`, after the connection was charged. -/
def dataOnStream (libs : Libs) (env : Env) (c : Conn) (stream : Nat) (flags : UInt8)
    (payload data : Bytes) : Outcome :=
  match c.streams.get? stream with
  | none => c.ok
  | some s => do
    let window ← i32 (s.recvWindow - payload.length)
    if window < 0 then
      (c.setStream stream { s with recvWindow := window }).err "stream flow control exceeded"
    else if s.body.length + data.length > maxH2Body then
      ok ((c.removeStream stream).pushReset stream errProtocolError)
    else do
      let (window, inc) ← replenish window
      let c := (c.setStream stream (takeData s flags data window)).grant stream inc
      if has flags flagEndStream && s.headersDone then done (c.maybeDispatch libs env stream)
      else c.ok

def handleData (libs : Libs) (env : Env) (c : Conn) (stream : Nat) (flags : UInt8)
    (payload : Bytes) : Outcome :=
  if stream = 0 then c.err "DATA on stream 0"
  else
    match cutData flags payload with
    | .error why => c.err why
    | .ok (first, last) => do
      let data ← slice? payload first last
      let window ← i32 (c.connRecvWindow - payload.length)
      if window < 0 then (c.setConnRecvWindow window).err "connection flow control exceeded"
      else do
        let (window, inc) ← replenish window
        ((c.setConnRecvWindow window).grant 0 inc).dataOnStream libs env stream flags payload data

def handlePriority (env : Env) (c : Conn) (stream : Nat) (payload : Bytes) : Outcome := do
  let dep ← slice? payload 0 4
  if low31 (bigEndian dep) = stream then
    ok ((c.resetStream stream errProtocolError).noteReset env.now stream)
  else c.ok

def heedGoaway (c : Conn) : Conn := { c with peerGoaway := true }

def dispatchFrame (libs : Libs) (env : Env) (c : Conn) (f : Frame) : Outcome :=
  match f.ftype with
  | .data => c.handleData libs env f.stream f.flags f.payload
  | .headers => c.handleHeaders libs env f.stream f.flags f.payload
  | .priority => c.handlePriority env f.stream f.payload
  | .rstStream =>
    ok (((c.removeStream f.stream).opened f.stream).noteReset env.now f.stream)
  | .settings => c.handleSettings f.flags f.payload
  | .pushPromise => c.err "client sent PUSH_PROMISE"
  | .ping => ok (c.handlePing f.flags f.payload)
  | .goaway => ok c.heedGoaway
  | .windowUpdate => c.handleWindowUpdate env f.stream f.payload
  | .continuation => c.handleContinuation libs env f.stream f.flags f.payload
  | .unknown _ => c.ok

def deny (c : Conn) (f : Frame) : FrameVerdict → Option Conn
  | .allow => none
  | .connectionError code => some (c.connectionError code)
  | .streamError code => some (c.resetStream f.stream code)

/-- The first of the two verdicts that is against a frame: it has the wrong shape, or it does not
fit the state of its stream. The state is not asked in the middle of a header block. -/
def refuse (env : Env) (c : Conn) (f : Frame) : Option Conn :=
  match frameShapeVerdict f.ftype f.flags f.stream f.payload.length with
  | .streamError code => (c.deny f (.streamError code)).map fun c => c.noteReset env.now f.stream
  | .connectionError code => c.deny f (.connectionError code)
  | .allow =>
    if c.continuationStreamId.isSome then none else c.deny f (c.frameVerdict f.ftype f.stream)

/-- `process_frame`, after a frame was taken from what came. -/
def receive (libs : Libs) (env : Env) (c : Conn) (f : Frame) : Outcome :=
  if ∃ cont ∈ c.continuationStreamId, f.ftype ≠ .continuation ∨ f.stream ≠ cont then
    c.err "expected CONTINUATION"
  else if c.continuationStreamId = none ∧ f.ftype = .continuation then
    c.err "CONTINUATION without a preceding HEADERS"
  else
    match c.refuse env f with
    | some c => c.ok
    | none => c.dispatchFrame libs env f

end Conn

/-! ## What comes -/

inductive Taken where
  | wait
  | tooLarge
  | frame (f : Frame) (rest : Bytes)

def takeFrame (buf : Bytes) : Taken :=
  match buf with
  | a :: b :: c :: ftype :: flags :: s₁ :: s₂ :: s₃ :: s₄ :: rest =>
    let length := bigEndian [a, b, c]
    if length > maxFrameSize then .tooLarge
    else if rest.length < length then .wait
    else .frame ⟨.ofByte ftype, flags, low31 (bigEndian [s₁, s₂, s₃, s₄]), rest.take length⟩
      (rest.drop length)
  | _ => .wait

namespace Conn

def awaitsPreface (c : Conn) : Bool :=
  c.phase = .preface && c.recvBuf.length < clientPreface.length

def badPreface (c : Conn) : Bool :=
  c.phase = .preface && !clientPreface.isPrefixOf c.recvBuf

def enter (c : Conn) : Conn :=
  if c.phase = .preface then
    { c with recvBuf := c.recvBuf.drop clientPreface.length, phase := .active }.sendServerSettings
  else c

def take (c : Conn) (f : Frame) (rest : Bytes) : Conn :=
  { c with recvBuf := rest, log := c.log ++ [.took f] }

/-- `process_frame`: whether there may be another one. -/
def processFrame (libs : Libs) (env : Env) (c : Conn) : Option (Conn × Except Str Bool) :=
  if c.awaitsPreface then some (c, .ok false)
  else if c.badPreface then some (c, .error "bad connection preface".toList)
  else
    match takeFrame c.enter.recvBuf with
    | .wait => some (c.enter, .ok false)
    | .tooLarge =>
      some (c.enter.connectionError errFrameSize,
        .error "frame exceeds SETTINGS_MAX_FRAME_SIZE".toList)
    | .frame f rest =>
      (receive libs env (c.enter.take f rest) f).map fun r => (r.1, r.2.map fun _ => true)

end Conn

/-! ## Runs -/

/-- What happens to a connection. Each is a part of `drive`, which does some of them in turn. -/
inductive Event where
  | arrive (bytes : Bytes)
  /-- a frame is processed -/
  | frame (env : Env)
  | answer (env : Env) (stream status : Nat) (headers : List (Str × Str)) (body : Bytes)
  /-- what became unblocked goes out -/
  | flush (env : Env)
  /-- no frame has come for long -/
  | idle
  /-- reading or writing failed -/
  | ioFailed
  /-- a connection that goes away and has no stream is done -/
  | settle

namespace Conn

/-- The loop of `drive` gives up with an error. -/
def giveUp (c : Conn) : Conn :=
  { (if c.goawaySent then c else c.sendGoaway errProtocolError) with phase := .done }

/-- `poll_pending_url`, for a stream whose backend has answered. -/
def answer (libs : Libs) (env : Env) (c : Conn) (stream status : Nat)
    (headers : List (Str × Str)) (body : Bytes) : Option Conn :=
  match c.streams.get? stream with
  | none => some c
  | some s =>
    match s.pending with
    | none => some c
    | some method =>
      (c.setStream stream { s with pending := none }).dispatchH2Response libs env stream status
        headers body method

def step (libs : Libs) (c : Conn) : Event → Option Conn
  | .arrive bytes => some (if c.phase = .done then c else { c with recvBuf := c.recvBuf ++ bytes })
  | .frame env =>
    if c.phase = .done then some c
    else
      (c.processFrame libs env).map fun r =>
        match r.2 with
        | .ok _ => r.1
        | .error _ => r.1.giveUp
  | .answer env stream status headers body =>
    if c.phase = .done then some c else c.answer libs env stream status headers body
  | .flush env => c.flushPendingStreams env
  | .idle => some (if c.phase = .done then c else { c.sendGoaway errNoError with phase := .done })
  | .ioFailed => some { c with phase := .done }
  | .settle =>
    some (if c.phase = .goingAway ∧ c.streams.entries.all (fun e => e.2.state == .closed) then
      { c with phase := .done } else c)

def run (libs : Libs) (c : Conn) (events : List Event) : Option Conn := events.foldlM (step libs) c

end Conn

end M6.Http2
