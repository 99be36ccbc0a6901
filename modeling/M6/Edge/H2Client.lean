import M6.Edge.Crumbs
import M6.Edge.H2
import M6.Lib.FlowControl
import Mathlib.Algebra.Ring.Int.Defs

/-!
# The outbound HTTP/2 client

One `H2cClientConn` or `H2sTlsClientConn` carries the requests for a backend as streams. A
request's body is kept with its stream and goes out as the peer's credit allows: the pump is
resumed by a SETTINGS frame, by a WINDOW_UPDATE on the connection and by one on the stream.

The two connections differ in the scheme they name and in the label of their error texts; the
code is here once, with the kind as a parameter. HPACK is a library outside the repository and
is the structure `Hpack`. The order in which a `HashMap` lists its keys is unspecified, and is
the parameter `iter`.

`lawful_iff` says for which runs everything written respects the peer's limits.
-/

namespace M6

open FlowControl

/-! ## Frames -/

inductive FrameType where
  | data
  | headers
  | rstStream
  | settings
  | ping
  | goaway
  | windowUpdate
  | continuation
  | other (code : UInt8)
  deriving DecidableEq

/-- A frame, read from its nine byte header and its payload. -/
structure Frame where
  ftype : FrameType
  flags : UInt8
  stream : Nat
  payload : Bytes

def flagEndStream : UInt8 := 0x1
def flagEndHeaders : UInt8 := 0x4
def flagPadded : UInt8 := 0x8
def flagPriority : UInt8 := 0x20
def flagAck : UInt8 := 0x1
def defaultWindow : Int := 65535
def defaultMaxFrame : Nat := 16384

/-- The largest window, `i32::MAX`. -/
def maxWindow : Int := 2147483647

def Frame.has (f : Frame) (flag : UInt8) : Bool := f.flags &&& flag != 0

def bigEndian (bs : Bytes) : Nat := bs.foldl (fun n b => 256 * n + b.toNat) 0

def settingsPairs : Bytes → List (Nat × Nat)
  | a :: b :: c :: d :: e :: f :: rest =>
    (bigEndian [a, b], bigEndian [c, d, e, f]) :: settingsPairs rest
  | _ => []

/-- The increment of a WINDOW_UPDATE, without its reserved bit. -/
def increment : Bytes → Option Nat
  | a :: b :: c :: d :: _ => some (bigEndian [a, b, c, d] % 2 ^ 31)
  | _ => none

def Frame.unpad (f : Frame) (name : Str) : Except Str (Bytes × Nat) :=
  if f.has flagPadded then
    match f.payload with
    | [] => .error ("padded ".toList ++ name ++ " with empty payload".toList)
    | padLen :: _ =>
      if f.payload.length < 1 + padLen.toNat then
        .error (name ++ " pad_len exceeds payload".toList)
      else .ok (f.payload.take (f.payload.length - padLen.toNat), 1)
  else .ok (f.payload, 0)

/-! ## The connection -/

/-- The HPACK library: an encoder and a decoder, each with its table. -/
structure Hpack where
  Enc : Type
  Dec : Type
  newEnc : Enc
  newDec : Dec
  encode : Enc → List RawField → Bytes × Enc
  /-- the fields of a block, or the text of the error -/
  decode : Dec → Bytes → Except Str (List RawField) × Dec

inductive ClientKind where
  | h2cClientConn
  | h2sTlsClientConn

def ClientKind.label : ClientKind → Str
  | .h2cClientConn => "h2c: ".toList
  | .h2sTlsClientConn => "h2s: ".toList

def ClientKind.scheme : ClientKind → Str
  | .h2cClientConn => "http".toList
  | .h2sTlsClientConn => "https".toList

structure HttpResponse where
  status : Nat
  headers : List (Str × Str)
  body : Bytes
  deriving DecidableEq

structure ClientStream where
  respStatus : Nat
  respHeaders : List (Str × Str)
  respBody : Bytes
  headersDone : Bool
  /-- the request body still owed to the peer, from `bodyOff` on -/
  pendingBody : Bytes
  bodyOff : Nat
  sendWindow : Int

def ClientStream.remaining (s : ClientStream) : Nat := s.pendingBody.length - s.bodyOff

def ClientStream.chunk (s : ClientStream) (n : Nat) : Bytes := (s.pendingBody.drop s.bodyOff).take n

def ClientStream.drains (s : ClientStream) (n : Nat) : Bool :=
  s.bodyOff + n == s.pendingBody.length

/-- The stream after they went out. The buffer is released as soon as nothing is owed. -/
def ClientStream.advance (s : ClientStream) (n : Nat) : ClientStream :=
  if s.drains n then { s with pendingBody := [], bodyOff := 0, sendWindow := s.sendWindow - n }
  else { s with bodyOff := s.bodyOff + n, sendWindow := s.sendWindow - n }

def isProxyEmittedHopHeader (name : Str) : Bool :=
  proxyOwned.any fun n => Text.eqIgnoreAsciiCase name n

/-- A connection. `sendBuf` keeps every frame that was pushed, also those that have left, and
`resolved` what the receivers of the streams got. -/
structure ClientConn (hp : Hpack) where
  sendBuf : List Frame
  streams : SortedMap Nat ClientStream
  nextStreamId : Nat
  hpackEnc : hp.Enc
  hpackDec : hp.Dec
  headerBlockAcc : Bytes
  continuationStream : Option Nat
  connSendWindow : Int
  peerInitialWindow : Int
  peerMaxFrame : Nat
  isDead : Bool
  resolved : List (Nat × Except Str HttpResponse)

namespace ClientConn

variable {hp : Hpack}

/-- The SETTINGS frame that goes out with the preface: INITIAL_WINDOW_SIZE is 1 MiB. -/
def settingsFrame : Frame := ⟨.settings, 0, 0, [0x00, 0x04, 0x00, 0x10, 0x00, 0x00]⟩

def connect (hp : Hpack) : ClientConn hp where
  sendBuf := [settingsFrame]
  streams := .empty
  nextStreamId := 1
  hpackEnc := hp.newEnc
  hpackDec := hp.newDec
  headerBlockAcc := []
  continuationStream := none
  connSendWindow := defaultWindow
  peerInitialWindow := defaultWindow
  peerMaxFrame := defaultMaxFrame
  isDead := false
  resolved := []

def pushFrame (c : ClientConn hp) (ftype : FrameType) (flags : UInt8) (stream : Nat)
    (payload : Bytes) : ClientConn hp :=
  { c with sendBuf := c.sendBuf ++ [⟨ftype, flags, stream % 2 ^ 31, payload⟩] }

def markDead (c : ClientConn hp) (reason : Str) : ClientConn hp :=
  { c with
    isDead := true
    streams := .empty
    resolved := c.resolved ++ c.streams.entries.map fun e => (e.1, .error reason) }

def updateStream (c : ClientConn hp) (stream : Nat) (f : ClientStream → ClientStream) :
    ClientConn hp :=
  match c.streams.get? stream with
  | some s => { c with streams := c.streams.insert stream (f s) }
  | none => c

def removeStream (c : ClientConn hp) (stream : Nat) : ClientConn hp :=
  { c with streams := c.streams.erase stream }

def resolve (c : ClientConn hp) (stream : Nat) (answer : Except Str HttpResponse) : ClientConn hp :=
  { c with resolved := c.resolved ++ [(stream, answer)] }

def addBlock (c : ClientConn hp) (part : Bytes) : ClientConn hp :=
  { c with headerBlockAcc := c.headerBlockAcc ++ part }

def takeBlock (c : ClientConn hp) : Except Str (List RawField) × ClientConn hp :=
  let block := hp.decode c.hpackDec c.headerBlockAcc
  (block.1, { c with headerBlockAcc := [], hpackDec := block.2 })

/-- Expect the next part of a header block, or none. -/
def expect (c : ClientConn hp) (stream : Option Nat) : ClientConn hp :=
  { c with continuationStream := stream }

/-! ## The pump -/

def credit (c : ClientConn hp) (s : ClientStream) : Int := min c.connSendWindow s.sendWindow

def chunkSize (c : ClientConn hp) (s : ClientStream) : Nat :=
  min (min s.remaining (max c.peerMaxFrame 1)) (c.credit s).toNat

/-- One DATA frame of `n` bytes, with `END_STREAM` if it drains the body. -/
def sendChunk (c : ClientConn hp) (stream : Nat) (s : ClientStream) (n : Nat) : ClientConn hp :=
  let c := { c with
    streams := c.streams.insert stream (s.advance n)
    connSendWindow := c.connSendWindow - (s.chunk n).length }
  c.pushFrame .data (if s.drains n then flagEndStream else 0) stream (s.chunk n)

/-- The frames of a stream's body, as long as there is credit. Each one takes a byte at least,
so that as many rounds are enough as there are bytes left. -/
def pumpLoop (stream : Nat) : Nat → ClientConn hp → ClientConn hp
  | 0, c => c
  | rounds + 1, c =>
    match c.streams.get? stream with
    | none => c
    | some s =>
      if s.remaining = 0 then c
      else if c.credit s ≤ 0 then c
      else
        let n := c.chunkSize s
        if s.drains n then c.sendChunk stream s n
        else pumpLoop stream rounds (c.sendChunk stream s n)

/-- Send as much of a stream's pending body as connection and stream credit allow, in frames
no larger than the peer takes. -/
def pumpStream (c : ClientConn hp) (stream : Nat) : ClientConn hp :=
  match c.streams.get? stream with
  | none => c
  | some s => pumpLoop stream s.remaining c

/-- The iteration order of a `HashMap`: any list of the keys that are asked for. -/
abbrev Iter (hp : Hpack) : Type := ClientConn hp → List Nat → List Nat

def pumpAll (iter : Iter hp) (c : ClientConn hp) : ClientConn hp :=
  let ids := (c.streams.entries.filter fun e => e.2.bodyOff < e.2.pendingBody.length).map Prod.fst
  (iter c ids).foldl pumpStream c

/-! ## Requests -/

/-- The headers that go along with a request: not those of one hop, no pseudo-headers, and not
those the proxy writes itself. -/
def forwarded (headers : List (Str × Str)) : List RawField :=
  (headers.filter fun h =>
    !(hopByHop.any fun n => Text.eqIgnoreAsciiCase h.1 n) && h.1.head? != some ':' &&
      !isProxyEmittedHopHeader h.1).map
    fun h => (Utf8.encode (Text.toAsciiLowercase h.1), Utf8.encode h.2)

/-- A request for a backend, with what the proxy knows of the connection it came on. -/
structure Dispatch where
  req : RawRequest
  host : Str
  clientIp : Str
  originalHost : Str

def headerList (kind : ClientKind) (d : Dispatch) : List RawField :=
  let fullPath := match d.req.query with
    | some q => if q = [] then d.req.path else d.req.path ++ '?' :: q
    | none => d.req.path
  [(lit ":method", Utf8.encode d.req.method),
    (lit ":path", Utf8.encode fullPath),
    (lit ":scheme", Utf8.encode kind.scheme),
    (lit ":authority", Utf8.encode d.host),
    (lit "x-forwarded-for", Utf8.encode d.clientIp),
    (lit "x-forwarded-proto", lit "https"),
    (lit "x-forwarded-host", Utf8.encode d.originalHost)] ++ forwarded d.req.headers

def headerBlock (c : ClientConn hp) (kind : ClientKind) (d : Dispatch) : Bytes × hp.Enc :=
  hp.encode c.hpackEnc (headerList kind d)

def openStream (kind : ClientKind) (c : ClientConn hp) (d : Dispatch) : ClientConn hp :=
  let stream := c.nextStreamId
  let block := c.headerBlock kind d
  let hasBody := !d.req.body.isEmpty
  let flags := flagEndHeaders ||| if hasBody then 0 else flagEndStream
  let s := ⟨0, [], [], false, d.req.body, 0, c.peerInitialWindow⟩
  let c := { c with nextStreamId := c.nextStreamId + 2, hpackEnc := block.2 }
  let c := c.pushFrame .headers flags stream block.1
  { c with streams := c.streams.insert stream s }

/-- Dispatch an HTTP request as a new stream. Its identifier stands for the receiver. -/
def dispatch (kind : ClientKind) (c : ClientConn hp) (d : Dispatch) :
    Except Str Nat × ClientConn hp :=
  if c.isDead then (.error (kind.label ++ "connection dead".toList), c)
  else (.ok c.nextStreamId, (openStream kind c d).pumpStream c.nextStreamId)

/-! ## Frames of the peer -/

def saturatingAdd (a b : Int) : Int := max (-maxWindow - 1) (min maxWindow (a + b))

def applySetting (kind : ClientKind) (c : ClientConn hp) : Nat × Nat → ClientConn hp
  | (4, val) =>
    if (val : Int) ≤ maxWindow then
      let delta := val - c.peerInitialWindow
      { c with
        peerInitialWindow := val
        streams := c.streams.map fun s =>
          { s with sendWindow := saturatingAdd s.sendWindow delta } }
    else c.markDead (kind.label ++ "INITIAL_WINDOW_SIZE above 2^31-1".toList)
  | (5, val) => if 16384 ≤ val ∧ val ≤ 16777215 then { c with peerMaxFrame := val } else c
  | _ => c

def applySettings (kind : ClientKind) : ClientConn hp → List (Nat × Nat) → ClientConn hp
  | c, [] => c
  | c, p :: ps =>
    let c := applySetting kind c p
    if c.isDead then c else applySettings kind c ps

/-- Complete a stream: remove it and hand on the response. A request that is still being sent
is cancelled. -/
def completeStream (kind : ClientKind) (c : ClientConn hp) (stream : Nat) : ClientConn hp :=
  match c.streams.get? stream with
  | none => c
  | some s =>
    let c := c.removeStream stream
    let c := if s.bodyOff < s.pendingBody.length then
        c.pushFrame .rstStream 0 stream [0, 0, 0, 8]
      else c
    c.resolve stream (if s.headersDone then .ok ⟨s.respStatus, s.respHeaders, s.respBody⟩
      else .error (kind.label ++ "stream ended without headers".toList))

def addField (s : ClientStream) (f : RawField) : ClientStream :=
  if f.1 = lit ":status" then
    { s with
      respStatus := ((parseUsize (Utf8.decodeLossy f.2)).filter (· < 2 ^ 16)).getD 0 }
  else
    { s with respHeaders := s.respHeaders ++ [(Utf8.decodeLossy f.1, Utf8.decodeLossy f.2)] }

def addFields (pairs : List RawField) (s : ClientStream) : ClientStream :=
  { pairs.foldl addField s with headersDone := true }

def endHeaders (kind : ClientKind) (c : ClientConn hp) (stream : Nat) : ClientConn hp :=
  match c.takeBlock with
  | (.ok pairs, c) => (c.updateStream stream (addFields pairs)).expect none
  | (.error e, c) => c.markDead (kind.label ++ "HPACK decode error: ".toList ++ e)

def onHeaders (kind : ClientKind) (c : ClientConn hp) (f : Frame) : ClientConn hp :=
  match f.unpad "HEADERS".toList with
  | .error e => c.markDead (kind.label ++ e)
  | .ok (pl, pos) =>
    let c := c.addBlock (pl.drop (if f.has flagPriority then pos + 5 else pos))
    let c := if f.has flagEndHeaders then c.endHeaders kind f.stream else c.expect (some f.stream)
    if c.isDead then c
    else if f.has flagEndStream then c.completeStream kind f.stream
    else c

def onContinuation (kind : ClientKind) (c : ClientConn hp) (f : Frame) : ClientConn hp :=
  let c := c.addBlock f.payload
  if f.has flagEndHeaders then c.endHeaders kind f.stream else c

def toBeBytes (n : Nat) : Bytes :=
  [UInt8.ofNat (n / 2 ^ 24), UInt8.ofNat (n / 2 ^ 16), UInt8.ofNat (n / 2 ^ 8), UInt8.ofNat n]

/-- Grant `n` bytes to the peer, on the connection and on the stream. -/
def grant (c : ClientConn hp) (stream n : Nat) : ClientConn hp :=
  let inc := toBeBytes (n % 2 ^ 31)
  (c.pushFrame .windowUpdate 0 0 inc).pushFrame .windowUpdate 0 stream inc

def onData (kind : ClientKind) (c : ClientConn hp) (f : Frame) : ClientConn hp :=
  match f.unpad "DATA".toList with
  | .error e => c.markDead (kind.label ++ e)
  | .ok (pl, pos) =>
    let data := pl.drop pos
    let c := if data.length > 0 then c.grant f.stream data.length else c
    let c := c.updateStream f.stream fun s => { s with respBody := s.respBody ++ data }
    if f.has flagEndStream then c.completeStream kind f.stream else c

/-- A WINDOW_UPDATE of `inc` on the connection. -/
def onConnCredit (kind : ClientKind) (iter : Iter hp) (c : ClientConn hp) (inc : Nat) :
    ClientConn hp :=
  if inc = 0 then c.markDead (kind.label ++ "WINDOW_UPDATE increment of 0 on stream 0".toList)
  else if c.connSendWindow + inc ≤ maxWindow then
    pumpAll iter { c with connSendWindow := c.connSendWindow + inc }
  else c.markDead (kind.label ++ "connection send window above 2^31-1".toList)

/-- A WINDOW_UPDATE of `inc` on a stream. An error ends the stream, not the connection. -/
def onStreamCredit (c : ClientConn hp) (stream inc : Nat) : ClientConn hp :=
  if inc = 0 then
    (c.pushFrame .rstStream 0 stream [0, 0, 0, 1]).removeStream stream
  else
    match c.streams.get? stream with
    | none => c
    | some s =>
      if s.sendWindow + inc ≤ maxWindow then
        { c with streams := c.streams.insert stream { s with sendWindow := s.sendWindow + inc } }
          |>.pumpStream stream
      else (c.pushFrame .rstStream 0 stream [0, 0, 0, 3]).removeStream stream

def onFrame (kind : ClientKind) (iter : Iter hp) (c : ClientConn hp) (f : Frame) : ClientConn hp :=
  match f.ftype with
  | .settings =>
    if f.has flagAck then c
    else
      let c := applySettings kind c (settingsPairs f.payload)
      if c.isDead then c else pumpAll iter (c.pushFrame .settings flagAck 0 [])
  | .headers => if 0 < f.stream then c.onHeaders kind f else c
  | .continuation => if 0 < f.stream then c.onContinuation kind f else c
  | .data => if 0 < f.stream then c.onData kind f else c
  | .rstStream =>
    if 0 < f.stream then
      match c.streams.get? f.stream with
      | none => c
      | some _ => (c.removeStream f.stream).resolve f.stream
          (.error (kind.label ++ "stream reset by server".toList))
    else c
  | .goaway => c.markDead (kind.label ++ "server sent GOAWAY".toList)
  | .ping =>
    if !f.has flagAck && f.payload.length == 8 then c.pushFrame .ping flagAck 0 f.payload else c
  | .windowUpdate =>
    match increment f.payload with
    | none => c
    | some inc =>
      if f.stream = 0 then c.onConnCredit kind iter inc else c.onStreamCredit f.stream inc
  | .other _ => c

/-- A frame of the peer, once it is known to be one that may come: in the middle of a header
block nothing may but its CONTINUATION. -/
def receive (kind : ClientKind) (iter : Iter hp) (c : ClientConn hp) (f : Frame) : ClientConn hp :=
  if c.isDead then c
  else
    match c.continuationStream with
    | some s =>
      if f.ftype ≠ .continuation ∨ f.stream ≠ s then
        c.markDead (kind.label ++ "expected CONTINUATION frame".toList)
      else c.onFrame kind iter f
    | none => c.onFrame kind iter f

end ClientConn

end M6
