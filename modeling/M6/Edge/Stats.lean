import Mathlib.Data.List.MinMax
import M6.Edge.Pool
import M6.Lib.RingBuffer
import M6.Lib.Tally

/-!
# Traffic figures

`Stats` of `stats.rs`: counters, and the newest latencies in rings of fixed size. `record` and
`record_handshake` feed it, `snapshot` serves it to `/perf`, and `maybe_emit` writes the periodic
line and begins a new window.

Two layers:

* the **code**: `Stats.step`, with its rings, write indices and window counts;
* the **ledger**: what was recorded, in plain lists (`Ledger`), and the figures as one would take
  them from the lists.

`plainLists` says that the two report the same, after any calls. Arithmetic is checked in the
release build, so a process whose 64-bit counter overflows ends there; up to then a counter is a
natural number.
-/

namespace M6

open List Option SortedMap

namespace Traffic

open RingBuffer

/-! ## What is recorded -/

def emitIntervalSecs : Nat := 10

def reservoir : Nat := 4096

def channelReservoir : Nat := 1024

/-- `u64::MAX` -/
def u64Max : Nat := 2 ^ 64 - 1

inductive Version where
  | http11
  | http2
  | http3
  deriving DecidableEq

def Version.asStr : Version → Str
  | .http11 => "http/1.1".toList
  | .http2 => "http/2".toList
  | .http3 => "http/3".toList

inductive Iface where
  | external
  | internal
  deriving DecidableEq

def Iface.asStr : Iface → Str
  | .external => "external".toList
  | .internal => "internal".toList

structure Channel where
  version : Version
  iface : Iface
  deriving DecidableEq

namespace Channel

def index (c : Channel) : Nat :=
  let v := match c.version with
    | .http11 => 0
    | .http2 => 1
    | .http3 => 2
  v * 2 + (decide (c.iface = .internal)).toNat

def fromIndex (i : Nat) : Channel where
  version :=
    match i / 2 with
    | 0 => .http11
    | 1 => .http2
    | _ => .http3
  iface := if i % 2 = 1 then .internal else .external

def label (c : Channel) : Str := c.version.asStr ++ '/' :: c.iface.asStr

end Channel

/-- `CHANNELS` -/
def channelCount : Nat := 6

theorem Channel.index_lt (c : Channel) : c.index < channelCount := by
  obtain ⟨version, iface⟩ := c
  cases version <;> cases iface <;> decide

/-- `is_monitoring_endpoint` of `health.rs`: `HEALTH_BACKEND` or `PERF_BACKEND`. -/
def isMonitoringEndpoint (backend : Str) : Bool :=
  backend = "health".toList || backend = "perf".toList

def isSelfGenerated (backend : Str) : Bool :=
  backend = "cache".toList || backend = "method-check".toList || backend = "health".toList ||
    backend = "perf".toList || backend = "error".toList || backend = "error-local".toList

/-- The arguments of a call to `record`. -/
structure Response where
  elapsedNs : UInt64
  cacheHit : Bool
  status : UInt16
  channel : Channel
  backend : Str

namespace Response

def monitoring (r : Response) : Bool := isMonitoringEndpoint r.backend

def backendError (r : Response) : Bool :=
  decide (500 ≤ r.status.toNat) && !isSelfGenerated r.backend

end Response

/-- The arguments of a call to `record_handshake`. -/
structure Handshake where
  elapsedNs : UInt64
  channel : Channel
  resumed : Bool

/-! ## Percentiles -/

structure Percentiles where
  p0 : Nat
  p50 : Nat
  p99 : Nat
  p100 : Nat

/-- The percentiles of `n` samples that are in order. -/
def Percentiles.pick (buf : List Nat) (n : Nat) : Percentiles where
  p0 := buf.getD 0 0
  p50 := buf.getD ((n - 1) * 50 / 100) 0
  p99 := buf.getD ((n - 1) * 99 / 100) 0
  p100 := buf.getD (n - 1) 0

def percentilesN (samples : List Nat) (n : Nat) : Percentiles :=
  if n = 0 then ⟨0, 0, 0, 0⟩
  else Percentiles.pick (sorted (samples.take n)) n

/-- Of the newest `take` samples of a ring. -/
def percentilesRing (samples : List Nat) (idx held take : Nat) : Percentiles :=
  let n := min (min take held) reservoir
  if n = 0 then ⟨0, 0, 0, 0⟩
  else
    let buf := (List.range' 1 n).map fun k =>
      samples.getD ((idx + reservoir - k) &&& (reservoir - 1)) 0
    Percentiles.pick (sorted buf) n

/-! ## Durations -/

/-- `HandshakeStats` -/
structure HandshakeFigures where
  samples : Nat
  p50Ns : Nat
  p99Ns : Nat
  total : Nat
  meanNs : Nat
  minNs : Nat
  maxNs : Nat

structure DurationStats where
  ring : RingBuffer Nat
  total : Nat
  sumNs : Nat
  minNs : Nat
  maxNs : Nat

namespace DurationStats

def new : DurationStats := ⟨.new channelReservoir 0, 0, 0, u64Max, 0⟩

def record (d : DurationStats) (elapsedNs : Nat) : DurationStats :=
  if elapsedNs = 0 then d
  else
    { ring := d.ring.push channelReservoir elapsedNs
      total := min (d.total + 1) u64Max
      sumNs := min (d.sumNs + elapsedNs) u64Max
      minNs := min d.minNs elapsedNs
      maxNs := max d.maxNs elapsedNs }

def snapshot (d : DurationStats) : HandshakeFigures :=
  let p := percentilesN d.ring.cells d.ring.count
  { samples := d.ring.count
    p50Ns := p.p50
    p99Ns := p.p99
    total := d.total
    meanNs := d.sumNs / d.total
    minNs := if d.total > 0 then d.minNs else 0
    maxNs := d.maxNs }

end DurationStats

/-! ## Channels -/

structure ChannelStats where
  requests : Nat
  hits : Nat
  misses : Nat
  backendErrors : Nat
  hitSamples : RingBuffer Nat
  missSamples : RingBuffer Nat
  handshakeFull : DurationStats
  handshakeResumed : DurationStats

/-- `ChannelSnapshot` -/
structure ChannelFigures where
  channel : Str
  version : Str
  iface : Str
  requests : Nat
  hits : Nat
  misses : Nat
  backendErrors : Nat
  hitSamples : Nat
  hitP50Ns : Nat
  hitP99Ns : Nat
  missSamples : Nat
  missP50Ns : Nat
  missP99Ns : Nat
  handshakeFull : HandshakeFigures
  handshakeResumed : HandshakeFigures

namespace ChannelStats

def new : ChannelStats :=
  ⟨0, 0, 0, 0, .new channelReservoir 0, .new channelReservoir 0, .new, .new⟩

def recordHandshake (c : ChannelStats) (elapsedNs : Nat) (resumed : Bool) : ChannelStats :=
  if resumed then { c with handshakeResumed := c.handshakeResumed.record elapsedNs }
  else { c with handshakeFull := c.handshakeFull.record elapsedNs }

def handshakesSeen (c : ChannelStats) : Nat := c.handshakeFull.total + c.handshakeResumed.total

def record (c : ChannelStats) (elapsedNs : Nat) (cacheHit backendError : Bool) : ChannelStats :=
  let c := { c with requests := c.requests + 1 }
  let c := if backendError then { c with backendErrors := c.backendErrors + 1 } else c
  if cacheHit then
    let c := { c with hits := c.hits + 1 }
    if elapsedNs > 0 then { c with hitSamples := c.hitSamples.push channelReservoir elapsedNs }
    else c
  else
    let c := { c with misses := c.misses + 1 }
    if elapsedNs > 0 then { c with missSamples := c.missSamples.push channelReservoir elapsedNs }
    else c

/-- The row of the snapshot for the channel at `i`. -/
def snapshot (c : ChannelStats) (i : Nat) : ChannelFigures :=
  let ch := Channel.fromIndex i
  let hit := percentilesN c.hitSamples.cells c.hitSamples.count
  let miss := percentilesN c.missSamples.cells c.missSamples.count
  { channel := ch.label
    version := ch.version.asStr
    iface := ch.iface.asStr
    requests := c.requests
    hits := c.hits
    misses := c.misses
    backendErrors := c.backendErrors
    hitSamples := c.hitSamples.count
    hitP50Ns := hit.p50
    hitP99Ns := hit.p99
    missSamples := c.missSamples.count
    missP50Ns := miss.p50
    missP99Ns := miss.p99
    handshakeFull := c.handshakeFull.snapshot
    handshakeResumed := c.handshakeResumed.snapshot }

end ChannelStats

/-! ## The statistics -/

/-- The latencies of one kind, and how many of them the window has. -/
structure Reservoir where
  samples : RingBuffer Nat
  windowAdded : Nat

namespace Reservoir

def new : Reservoir := ⟨.new reservoir 0, 0⟩

/-- A write, with the way its index goes round. -/
def store (next : Nat → Nat) (s : Reservoir) (elapsedNs : Nat) : Reservoir where
  samples :=
    { cells := s.samples.cells.set s.samples.idx elapsedNs
      idx := next (s.samples.idx + 1)
      count := if s.samples.count < reservoir then s.samples.count + 1 else s.samples.count }
  windowAdded := s.windowAdded + 1

def storeMasked : Reservoir → Nat → Reservoir := store fun i => i &&& (reservoir - 1)

def storeWrapped : Reservoir → Nat → Reservoir := store fun i => i % reservoir

def percentiles (s : Reservoir) (take : Nat) : Percentiles :=
  percentilesRing s.samples.cells s.samples.idx s.samples.count take

end Reservoir

structure Stats where
  requestsTotal : Nat
  cacheHitsTotal : Nat
  cacheMissesTotal : Nat
  backendErrorsTotal : Nat
  backendErrorsByName : SortedMap Str Nat
  windowRequests : Nat
  windowCacheHits : Nat
  windowCacheMisses : Nat
  windowBackendErrors : Nat
  hit : Reservoir
  miss : Reservoir
  monitorRequestsTotal : Nat
  windowMonitorRequests : Nat
  monitor : Reservoir
  channels : List ChannelStats
  statusCounts : List Nat
  rpsPeak : Nat
  lastEmit : Instant

/-- `StatsSnapshot` -/
structure Figures where
  requestsTotal : Nat
  cacheHitsTotal : Nat
  cacheMissesTotal : Nat
  backendErrorsTotal : Nat
  backendErrorsByName : SortedMap Str Nat
  monitorRequestsTotal : Nat
  monitorSamples : Nat
  monitorP50Ns : Nat
  monitorP99Ns : Nat
  rpsPeak : Nat
  hitSamples : Nat
  hitP50Ns : Nat
  hitP99Ns : Nat
  hitMaxNs : Nat
  missSamples : Nat
  missP50Ns : Nat
  missP99Ns : Nat
  missMaxNs : Nat
  channels : List ChannelFigures
  statusCounts : SortedMap Nat Nat

/-- The fields of the periodic line, with the rate before it is cut to four places. -/
structure PeriodicLine where
  requests : Nat
  rpsAvg : Nat
  rpsPeak : Nat
  cacheHits : Nat
  cacheMisses : Nat
  cacheHitRate : Float
  backendErrors : Nat
  poolMembers : Nat
  hitSamples : Nat
  hitNs : Percentiles
  missSamples : Nat
  missNs : Percentiles
  monitorRequests : Nat
  monitorP50Ns : Nat
  monitorP99Ns : Nat

/-- `u64 as f64` -/
def asF64 (n : Nat) : Float := (UInt64.ofNat n).toFloat

def asSecsF64 (ns : Nat) : Float := asF64 (ns / nanos) + asF64 (ns % nanos) / asF64 nanos

def rpsAvg (windowRequests elapsedNs : Nat) : Nat :=
  (asF64 windowRequests / max (asSecsF64 elapsedNs) 0.001).toUInt64.toNat

def cacheHitRate (windowCacheHits windowCacheMisses : Nat) : Float :=
  let totalWindow := windowCacheHits + windowCacheMisses
  if totalWindow > 0 then asF64 windowCacheHits / asF64 totalWindow else 0.0

namespace Stats

def new (now : Instant) : Stats where
  requestsTotal := 0
  cacheHitsTotal := 0
  cacheMissesTotal := 0
  backendErrorsTotal := 0
  backendErrorsByName := .empty
  windowRequests := 0
  windowCacheHits := 0
  windowCacheMisses := 0
  windowBackendErrors := 0
  hit := .new
  miss := .new
  monitorRequestsTotal := 0
  windowMonitorRequests := 0
  monitor := .new
  channels := (List.range channelCount).map fun _ => .new
  statusCounts := List.replicate 500 0
  rpsPeak := 0
  lastEmit := now

def recordHandshake (s : Stats) (h : Handshake) : Stats :=
  { s with
    channels := s.channels.modify h.channel.index fun c =>
      c.recordHandshake h.elapsedNs.toNat h.resumed }

/-- The branch of `record` for a monitoring endpoint. -/
def recordMonitor (s : Stats) (elapsedNs : Nat) : Stats :=
  let s := { s with
    monitorRequestsTotal := s.monitorRequestsTotal + 1
    windowMonitorRequests := s.windowMonitorRequests + 1 }
  if elapsedNs > 0 then { s with monitor := s.monitor.storeWrapped elapsedNs } else s

def countStatus (s : Stats) (status : UInt16) : Stats :=
  if 100 ≤ status.toNat ∧ status.toNat < 600 then
    { s with statusCounts := s.statusCounts.modify (status.toNat - 100) (· + 1) }
  else s

def countCache (s : Stats) (elapsedNs : Nat) (cacheHit : Bool) : Stats :=
  if elapsedNs > 0 then
    if cacheHit then
      { s with
        cacheHitsTotal := s.cacheHitsTotal + 1
        windowCacheHits := s.windowCacheHits + 1
        hit := s.hit.storeMasked elapsedNs }
    else
      { s with
        cacheMissesTotal := s.cacheMissesTotal + 1
        windowCacheMisses := s.windowCacheMisses + 1
        miss := s.miss.storeMasked elapsedNs }
  else if cacheHit then
    { s with
      cacheHitsTotal := s.cacheHitsTotal + 1
      windowCacheHits := s.windowCacheHits + 1 }
  else
    { s with
      cacheMissesTotal := s.cacheMissesTotal + 1
      windowCacheMisses := s.windowCacheMisses + 1 }

def countError (s : Stats) (backendError : Bool) (backend : Str) : Stats :=
  if backendError then
    { s with
      backendErrorsTotal := s.backendErrorsTotal + 1
      backendErrorsByName := Tally.touch s.backendErrorsByName backend 0 (· + 1)
      windowBackendErrors := s.windowBackendErrors + 1 }
  else s

def record (s : Stats) (r : Response) : Stats :=
  let elapsedNs := r.elapsedNs.toNat
  if isMonitoringEndpoint r.backend then s.recordMonitor elapsedNs
  else
    let backendError := decide (r.status.toNat ≥ 500) && !isSelfGenerated r.backend
    let s := s.countStatus r.status
    let s := { s with
      channels := s.channels.modify r.channel.index fun c =>
        c.record elapsedNs r.cacheHit backendError
      requestsTotal := s.requestsTotal + 1
      windowRequests := s.windowRequests + 1 }
    (s.countCache elapsedNs r.cacheHit).countError backendError r.backend

def maybeEmit (s : Stats) (now : Instant) (poolMembers : Nat) : Stats × Option PeriodicLine :=
  let elapsed := now - s.lastEmit
  if elapsed / nanos < emitIntervalSecs then (s, none)
  else
    let rps := rpsAvg s.windowRequests elapsed
    let rpsPeak := if rps > s.rpsPeak then rps else s.rpsPeak
    let monitorNs := s.monitor.percentiles s.monitor.windowAdded
    let line :=
      { requests := s.requestsTotal
        rpsAvg := rps
        rpsPeak := rpsPeak
        cacheHits := s.windowCacheHits
        cacheMisses := s.windowCacheMisses
        cacheHitRate := cacheHitRate s.windowCacheHits s.windowCacheMisses
        backendErrors := s.windowBackendErrors
        poolMembers := poolMembers
        hitSamples := s.hit.windowAdded
        hitNs := s.hit.percentiles s.hit.windowAdded
        missSamples := s.miss.windowAdded
        missNs := s.miss.percentiles s.miss.windowAdded
        monitorRequests := s.windowMonitorRequests
        monitorP50Ns := monitorNs.p50
        monitorP99Ns := monitorNs.p99 }
    let s := { s with
      rpsPeak := rpsPeak
      windowRequests := 0
      windowCacheHits := 0
      windowCacheMisses := 0
      windowBackendErrors := 0
      windowMonitorRequests := 0
      hit := { s.hit with windowAdded := 0 }
      miss := { s.miss with windowAdded := 0 }
      monitor := { s.monitor with windowAdded := 0 }
      lastEmit := now }
    (s, some line)

def snapshot (s : Stats) : Figures :=
  let hit := s.hit.percentiles reservoir
  let miss := s.miss.percentiles reservoir
  let monitor := s.monitor.percentiles reservoir
  { requestsTotal := s.requestsTotal
    cacheHitsTotal := s.cacheHitsTotal
    cacheMissesTotal := s.cacheMissesTotal
    backendErrorsTotal := s.backendErrorsTotal
    backendErrorsByName := s.backendErrorsByName
    monitorRequestsTotal := s.monitorRequestsTotal
    monitorSamples := s.monitor.samples.count
    monitorP50Ns := monitor.p50
    monitorP99Ns := monitor.p99
    rpsPeak := s.rpsPeak
    hitSamples := s.hit.samples.count
    hitP50Ns := hit.p50
    hitP99Ns := hit.p99
    hitMaxNs := hit.p100
    missSamples := s.miss.samples.count
    missP50Ns := miss.p50
    missP99Ns := miss.p99
    missMaxNs := miss.p100
    channels :=
      (List.range s.channels.length).filterMap fun i =>
        s.channels[i]?.bind fun c =>
          if c.requests > 0 || c.handshakesSeen > 0 then some (c.snapshot i) else none
    statusCounts :=
      .insertAll .empty ((List.range s.statusCounts.length).filterMap fun i =>
        s.statusCounts[i]?.bind fun n => if n > 0 then some (i + 100, n) else none) }

end Stats

/-! ## The ledger -/

def latencies (p : Response → Bool) (l : List Response) : List Nat :=
  ((l.filter p).map fun r => r.elapsedNs.toNat).filter fun ns => 0 < ns

def durations (p : Handshake → Bool) (l : List Handshake) : List Nat :=
  ((l.filter p).map fun h => h.elapsedNs.toNat).filter fun ns => 0 < ns

def percentilesOf (s : List Nat) : Percentiles := Percentiles.pick (sorted s) s.length

def smallest : List Nat → Nat
  | [] => 0
  | ns :: rest => rest.foldl min ns

def durationFigures (s : List Nat) : HandshakeFigures :=
  let newest := s.rtake channelReservoir
  { samples := newest.length
    p50Ns := (percentilesOf newest).p50
    p99Ns := (percentilesOf newest).p99
    total := min s.length u64Max
    meanNs := min (Tally.total id s) u64Max / min s.length u64Max
    minNs := smallest s
    maxNs := s.foldl max 0 }

/-- What was recorded, and what of it since the last periodic line. -/
structure Ledger where
  traffic : List Response
  polls : List Response
  handshakes : List Handshake
  window : List Response
  windowPolls : List Response
  rpsPeak : Nat
  lastEmit : Instant

namespace Ledger

def new (now : Instant) : Ledger := ⟨[], [], [], [], [], 0, now⟩

def record (l : Ledger) (r : Response) : Ledger :=
  if r.monitoring then
    { l with polls := l.polls ++ [r], windowPolls := l.windowPolls ++ [r] }
  else { l with traffic := l.traffic ++ [r], window := l.window ++ [r] }

def recordHandshake (l : Ledger) (h : Handshake) : Ledger :=
  { l with handshakes := l.handshakes ++ [h] }

/-- The channel at `i`, where there is anything to report of it. -/
def channel (l : Ledger) (i : Nat) : Option ChannelFigures :=
  let responses := l.traffic.filter fun r => r.channel.index = i
  let handshakes := l.handshakes.filter fun h => h.channel.index = i
  let full := durations (fun h => !h.resumed) handshakes
  let resumed := durations (fun h => h.resumed) handshakes
  let hit := (latencies (fun r => r.cacheHit) responses).rtake channelReservoir
  let miss := (latencies (fun r => !r.cacheHit) responses).rtake channelReservoir
  let ch := Channel.fromIndex i
  if responses = [] ∧ full = [] ∧ resumed = [] then none
  else some
    { channel := ch.label
      version := ch.version.asStr
      iface := ch.iface.asStr
      requests := responses.length
      hits := responses.countP fun r => r.cacheHit
      misses := responses.countP fun r => !r.cacheHit
      backendErrors := responses.countP Response.backendError
      hitSamples := hit.length
      hitP50Ns := (percentilesOf hit).p50
      hitP99Ns := (percentilesOf hit).p99
      missSamples := miss.length
      missP50Ns := (percentilesOf miss).p50
      missP99Ns := (percentilesOf miss).p99
      handshakeFull := durationFigures full
      handshakeResumed := durationFigures resumed }

def snapshot (l : Ledger) : Figures :=
  let hit := (latencies (fun r => r.cacheHit) l.traffic).rtake reservoir
  let miss := (latencies (fun r => !r.cacheHit) l.traffic).rtake reservoir
  let monitor := (latencies (fun _ => true) l.polls).rtake reservoir
  { requestsTotal := l.traffic.length
    cacheHitsTotal := l.traffic.countP fun r => r.cacheHit
    cacheMissesTotal := l.traffic.countP fun r => !r.cacheHit
    backendErrorsTotal := l.traffic.countP Response.backendError
    backendErrorsByName :=
      Tally.tally ((l.traffic.filter Response.backendError).map fun r => r.backend)
    monitorRequestsTotal := l.polls.length
    monitorSamples := monitor.length
    monitorP50Ns := (percentilesOf monitor).p50
    monitorP99Ns := (percentilesOf monitor).p99
    rpsPeak := l.rpsPeak
    hitSamples := hit.length
    hitP50Ns := (percentilesOf hit).p50
    hitP99Ns := (percentilesOf hit).p99
    hitMaxNs := (percentilesOf hit).p100
    missSamples := miss.length
    missP50Ns := (percentilesOf miss).p50
    missP99Ns := (percentilesOf miss).p99
    missMaxNs := (percentilesOf miss).p100
    channels := (List.range channelCount).filterMap l.channel
    statusCounts :=
      Tally.tally ((l.traffic.map fun r => r.status.toNat).filter fun code =>
        100 ≤ code ∧ code < 600) }

def maybeEmit (l : Ledger) (now : Instant) (poolMembers : Nat) : Ledger × Option PeriodicLine :=
  let elapsed := now - l.lastEmit
  if elapsed < emitIntervalSecs * nanos then (l, none)
  else
    let hit := latencies (fun r => r.cacheHit) l.window
    let miss := latencies (fun r => !r.cacheHit) l.window
    let monitor := latencies (fun _ => true) l.windowPolls
    let hits := l.window.countP fun r => r.cacheHit
    let misses := l.window.countP fun r => !r.cacheHit
    let rps := rpsAvg l.window.length elapsed
    let line :=
      { requests := l.traffic.length
        rpsAvg := rps
        rpsPeak := max l.rpsPeak rps
        cacheHits := hits
        cacheMisses := misses
        cacheHitRate := cacheHitRate hits misses
        backendErrors := l.window.countP Response.backendError
        poolMembers := poolMembers
        hitSamples := hit.length
        hitNs := percentilesOf (hit.rtake reservoir)
        missSamples := miss.length
        missNs := percentilesOf (miss.rtake reservoir)
        monitorRequests := l.windowPolls.length
        monitorP50Ns := (percentilesOf (monitor.rtake reservoir)).p50
        monitorP99Ns := (percentilesOf (monitor.rtake reservoir)).p99 }
    ({ l with rpsPeak := max l.rpsPeak rps, window := [], windowPolls := [], lastEmit := now },
      some line)

end Ledger

/-! ## Samples and rings -/

theorem reservoir_pos : 0 < reservoir := by decide

theorem channelReservoir_pos : 0 < channelReservoir := by decide

theorem masked_eq (i : Nat) : i &&& (reservoir - 1) = i % reservoir :=
  Nat.and_two_pow_sub_one_eq_mod i 12

theorem latencies_concat (p : Response → Bool) (l : List Response) (r : Response) :
    latencies p (l ++ [r]) =
      latencies p l ++ if p r ∧ 0 < r.elapsedNs.toNat then [r.elapsedNs.toNat] else [] := by
  rw [latencies, latencies, filter_append, map_append, filter_append]
  congr 1
  cases hp : p r with
  | false => simp [hp]
  | true =>
    by_cases hpos : 0 < r.elapsedNs.toNat
    · simp [hp, hpos]
    · simp [hp, hpos]

theorem durations_concat (p : Handshake → Bool) (l : List Handshake) (h : Handshake) :
    durations p (l ++ [h]) =
      durations p l ++ if p h ∧ 0 < h.elapsedNs.toNat then [h.elapsedNs.toNat] else [] := by
  rw [durations, durations, filter_append, map_append, filter_append]
  congr 1
  cases hp : p h with
  | false => simp [hp]
  | true =>
    by_cases hpos : 0 < h.elapsedNs.toNat
    · simp [hp, hpos]
    · simp [hp, hpos]

variable {p : Response → Bool}

theorem latencies_suffix {w l : List Response} (h : w <:+ l) : latencies p w <:+ latencies p l :=
  ((h.filter p).map _).filter _

theorem percentilesOf_perm {s t : List Nat} (h : s.Perm t) : percentilesOf s = percentilesOf t := by
  rw [percentilesOf, percentilesOf, sorted_eq_of_perm h, h.length_eq]

variable {ring : RingBuffer Nat}

theorem percentilesN_eq {N : Nat} {s : List Nat} (h : ring.Holds N s) (hN : 0 < N) :
    percentilesN ring.cells ring.count = percentilesOf (s.rtake N) := by
  rw [percentilesN]
  split_ifs with hzero
  · have hnil : s.rtake N = [] := eq_nil_of_length_eq_zero (h.length_rtake.trans hzero)
    rw [hnil]
    rfl
  · have hperm := h.take_perm hN
    have hlength : (ring.cells.take ring.count).length = ring.count :=
      hperm.length_eq.trans h.length_rtake
    rw [← percentilesOf_perm hperm, percentilesOf, hlength]

theorem percentilesRing_eq {s : List Nat} (h : ring.Holds reservoir s) (take : Nat) :
    percentilesRing ring.cells ring.idx ring.count take =
      percentilesOf (s.rtake (min take reservoir)) := by
  have hcount : ring.count = min s.length reservoir := h.count_eq
  rw [percentilesRing]
  generalize hn : min (min take ring.count) reservoir = n
  have hle : n ≤ ring.count := by omega
  have hsame : s.rtake (min take reservoir) = s.rtake n := by
    have hdrop : s.length - min take reservoir = s.length - n := by omega
    rw [rtake, rtake, hdrop]
  have hlength : (s.rtake n).length = n := by
    rw [rtake, length_drop]
    omega
  rw [hsame]
  split_ifs with hzero
  · rw [eq_nil_of_length_eq_zero (hlength.trans hzero)]
    rfl
  · have hbuf : ((range' 1 n).map fun k =>
        ring.cells.getD ((ring.idx + reservoir - k) &&& (reservoir - 1)) 0) =
          ring.newest reservoir n 0 :=
      map_congr_left fun k _ => by rw [masked_eq]
    have hsorted : sorted (s.rtake n).reverse = sorted (s.rtake n) :=
      sorted_eq_of_perm (reverse_perm _)
    simp only
    rw [hbuf, h.newest_eq hle, hsorted, percentilesOf, hlength]

theorem rtake_suffix {w s : List Nat} (h : w <:+ s) (n : Nat) :
    s.rtake (min w.length n) = w.rtake n := by
  obtain ⟨front, rfl⟩ := h
  have hdrop : (front ++ w).length - min w.length n = front.length + (w.length - n) := by
    rw [length_append]
    omega
  rw [rtake, rtake, hdrop, drop_append]
  have hfront : front.drop (front.length + (w.length - n)) = [] :=
    drop_eq_nil_of_le (Nat.le_add_right ..)
  rw [hfront, nil_append, Nat.add_sub_cancel_left]

/-! ## What the code keeps of the ledger -/

/-- A reservoir of the responses that `p` is about. -/
structure Reservoir.Keeps (s : Reservoir) (p : Response → Bool) (l w : List Response) : Prop where
  ring : s.samples.Holds reservoir (latencies p l)
  windowAdded : s.windowAdded = (latencies p w).length

namespace Reservoir.Keeps

variable {s : Reservoir} {p : Response → Bool} {l w : List Response} {r : Response}

theorem new (p : Response → Bool) : Reservoir.new.Keeps p [] [] := ⟨holds_new .., rfl⟩

theorem skip (h : s.Keeps p l w) (hr : ¬(p r ∧ 0 < r.elapsedNs.toNat)) :
    s.Keeps p (l ++ [r]) (w ++ [r]) := by
  have hsame : ∀ t, latencies p (t ++ [r]) = latencies p t := fun t => by
    rw [latencies_concat, if_neg hr, append_nil]
  refine ⟨?_, ?_⟩
  · rw [hsame]
    exact h.ring
  · rw [hsame]
    exact h.windowAdded

theorem store {next : Nat → Nat} (hnext : ∀ i, next i = i % reservoir) (h : s.Keeps p l w)
    (hr : p r ∧ 0 < r.elapsedNs.toNat) :
    (s.store next r.elapsedNs.toNat).Keeps p (l ++ [r]) (w ++ [r]) := by
  have hring := h.ring.push reservoir_pos r.elapsedNs.toNat
  have hmore : ∀ t, latencies p (t ++ [r]) = latencies p t ++ [r.elapsedNs.toNat] := fun t => by
    rw [latencies_concat, if_pos hr]
  refine ⟨?_, ?_⟩
  · rw [hmore, Reservoir.store, hnext]
    exact hring
  · rw [hmore, Reservoir.store, h.windowAdded, length_append]
    rfl

theorem begin (h : s.Keeps p l w) : ({ s with windowAdded := 0 } : Reservoir).Keeps p l [] :=
  ⟨h.ring, rfl⟩

theorem percentiles_all (h : s.Keeps p l w) :
    s.percentiles reservoir = percentilesOf ((latencies p l).rtake reservoir) := by
  rw [Reservoir.percentiles, percentilesRing_eq h.ring, Nat.min_self]

theorem percentiles_window (h : s.Keeps p l w) (hw : w <:+ l) :
    s.percentiles s.windowAdded = percentilesOf ((latencies p w).rtake reservoir) := by
  rw [Reservoir.percentiles, percentilesRing_eq h.ring, h.windowAdded,
    rtake_suffix (latencies_suffix hw)]

end Reservoir.Keeps

/-- A `DurationStats` of the durations `s`. -/
structure DurationStats.Keeps (d : DurationStats) (s : List Nat) : Prop where
  ring : d.ring.Holds channelReservoir s
  total : d.total = min s.length u64Max
  sumNs : d.sumNs = min (Tally.total id s) u64Max
  minNs : d.minNs = s.foldl min u64Max
  maxNs : d.maxNs = s.foldl max 0

namespace DurationStats.Keeps

variable {d : DurationStats} {s : List Nat}

theorem new : DurationStats.new.Keeps [] := ⟨holds_new .., rfl, rfl, rfl, rfl⟩

theorem record (h : d.Keeps s) (ns : Nat) :
    (d.record ns).Keeps (s ++ if 0 < ns then [ns] else []) := by
  rw [DurationStats.record]
  split_ifs with hzero hpos
  · omega
  · rw [append_nil]
    exact h
  · have htotal := h.total
    have hsum := h.sumNs
    refine ⟨h.ring.push channelReservoir_pos ns, ?_, ?_, ?_, ?_⟩
    · rw [length_append, length_singleton]
      show min (d.total + 1) u64Max = _
      omega
    · have hone : Tally.total id [ns] = ns := Nat.zero_add ns
      rw [Tally.total_append, hone]
      show min (d.sumNs + ns) u64Max = _
      omega
    · rw [foldl_append, ← h.minNs]
      rfl
    · rw [foldl_append, ← h.maxNs]
      rfl
  · omega

theorem snapshot_eq (h : d.Keeps s) (hs : ∀ ns ∈ s, ns ≤ u64Max) :
    d.snapshot = durationFigures s := by
  have hmin : (if d.total > 0 then d.minNs else 0) = smallest s := by
    rw [h.total, h.minNs]
    cases s with
    | nil => rfl
    | cons ns rest =>
      have hfirst : min u64Max ns = ns := min_eq_right (hs ns (mem_cons_self ..))
      have htotal : min (ns :: rest).length u64Max > 0 := by
        rw [length_cons, u64Max]
        omega
      rw [if_pos htotal, foldl_cons, hfirst, smallest]
  rw [DurationStats.snapshot, durationFigures, hmin, percentilesN_eq h.ring channelReservoir_pos,
    h.total, h.sumNs, h.maxNs, h.ring.length_rtake]

theorem total_pos (h : d.Keeps s) : 0 < d.total ↔ s ≠ [] := by
  rw [h.total, u64Max, ← length_pos_iff]
  omega

end DurationStats.Keeps

theorem durations_le (p : Handshake → Bool) (l : List Handshake) :
    ∀ ns ∈ durations p l, ns ≤ u64Max := by
  intro ns hns
  obtain ⟨h, -, rfl⟩ := List.mem_map.mp (mem_filter.mp hns).1
  exact Nat.le_sub_one_of_lt h.elapsedNs.toNat_lt

structure ChannelStats.Keeps (c : ChannelStats) (responses : List Response)
    (handshakes : List Handshake) : Prop where
  requests : c.requests = responses.length
  hits : c.hits = responses.countP fun r => r.cacheHit
  misses : c.misses = responses.countP fun r => !r.cacheHit
  backendErrors : c.backendErrors = responses.countP Response.backendError
  hitSamples : c.hitSamples.Holds channelReservoir (latencies (fun r => r.cacheHit) responses)
  missSamples : c.missSamples.Holds channelReservoir (latencies (fun r => !r.cacheHit) responses)
  full : c.handshakeFull.Keeps (durations (fun h => !h.resumed) handshakes)
  resumed : c.handshakeResumed.Keeps (durations (fun h => h.resumed) handshakes)

namespace ChannelStats.Keeps

variable {c : ChannelStats} {responses : List Response} {handshakes : List Handshake}

theorem new : ChannelStats.new.Keeps [] [] where
  requests := rfl
  hits := rfl
  misses := rfl
  backendErrors := rfl
  hitSamples := holds_new ..
  missSamples := holds_new ..
  full := .new
  resumed := .new

theorem recordHandshake (k : c.Keeps responses handshakes) (h : Handshake) :
    (c.recordHandshake h.elapsedNs.toNat h.resumed).Keeps responses (handshakes ++ [h]) := by
  have hfull := k.full.record h.elapsedNs.toNat
  have hresumed := k.resumed.record h.elapsedNs.toNat
  cases hr : h.resumed with
  | false =>
    refine { k with full := ?_, resumed := ?_ }
    · rw [durations_concat]
      simp only [hr, Bool.not_false, true_and]
      exact hfull
    · rw [durations_concat]
      simp only [hr, Bool.false_eq_true, false_and, if_false, append_nil]
      exact k.resumed
  | true =>
    refine { k with full := ?_, resumed := ?_ }
    · rw [durations_concat]
      simp only [hr, Bool.not_true, Bool.false_eq_true, false_and, if_false, append_nil]
      exact k.full
    · rw [durations_concat]
      simp only [hr, true_and]
      exact hresumed

end ChannelStats.Keeps

/-- `ChannelStats::record`, field by field. -/
theorem ChannelStats.record_eq (c : ChannelStats) (ns : Nat) (cacheHit backendError : Bool) :
    c.record ns cacheHit backendError =
      { c with
        requests := c.requests + 1
        hits := c.hits + if cacheHit then 1 else 0
        misses := c.misses + if !cacheHit then 1 else 0
        backendErrors := c.backendErrors + if backendError then 1 else 0
        hitSamples :=
          if cacheHit ∧ 0 < ns then c.hitSamples.push channelReservoir ns else c.hitSamples
        missSamples :=
          if !cacheHit ∧ 0 < ns then c.missSamples.push channelReservoir ns
          else c.missSamples } := by
  rw [ChannelStats.record]
  by_cases hpos : 0 < ns
  all_goals cases cacheHit <;> cases backendError <;> simp [hpos]

theorem filter_concat {A : Type*} (p : A → Bool) (l : List A) (a : A) :
    (l ++ [a]).filter p = if p a then l.filter p ++ [a] else l.filter p := by
  rw [filter_append]
  split_ifs with h
  · rw [filter_cons_of_pos h, filter_nil]
  · rw [filter_cons_of_neg h, filter_nil, append_nil]

theorem countP_concat (p : Response → Bool) (l : List Response) (r : Response) :
    (l ++ [r]).countP p = l.countP p + if p r then 1 else 0 := by
  rw [countP_append, countP_singleton]

/-- A ring that is written to where `p` says so. -/
theorem holds_concat {N : Nat} {l : List Response}
    (h : ring.Holds N (latencies p l)) (hN : 0 < N) (r : Response) :
    (if p r ∧ 0 < r.elapsedNs.toNat then ring.push N r.elapsedNs.toNat else ring).Holds N
      (latencies p (l ++ [r])) := by
  rw [latencies_concat]
  split_ifs
  · exact h.push hN r.elapsedNs.toNat
  · rw [append_nil]
    exact h

theorem ChannelStats.Keeps.record {c : ChannelStats} {responses : List Response}
    {handshakes : List Handshake} (k : c.Keeps responses handshakes) (r : Response) :
    (c.record r.elapsedNs.toNat r.cacheHit r.backendError).Keeps (responses ++ [r]) handshakes := by
  rw [ChannelStats.record_eq]
  refine { k with
    requests := ?_, hits := ?_, misses := ?_, backendErrors := ?_
    hitSamples := holds_concat k.hitSamples channelReservoir_pos r
    missSamples := holds_concat k.missSamples channelReservoir_pos r }
  · rw [length_append, k.requests]
    rfl
  · rw [countP_concat, k.hits]
  · rw [countP_concat, k.misses]
  · rw [countP_concat, k.backendErrors]

/-! ## The invariant -/

structure Stats.Keeps (s : Stats) (l : Ledger) : Prop where
  window : l.window <:+ l.traffic
  windowPolls : l.windowPolls <:+ l.polls
  requestsTotal : s.requestsTotal = l.traffic.length
  cacheHitsTotal : s.cacheHitsTotal = l.traffic.countP fun r => r.cacheHit
  cacheMissesTotal : s.cacheMissesTotal = l.traffic.countP fun r => !r.cacheHit
  backendErrorsTotal : s.backendErrorsTotal = l.traffic.countP Response.backendError
  backendErrorsByName : s.backendErrorsByName =
    Tally.tally ((l.traffic.filter Response.backendError).map fun r => r.backend)
  windowRequests : s.windowRequests = l.window.length
  windowCacheHits : s.windowCacheHits = l.window.countP fun r => r.cacheHit
  windowCacheMisses : s.windowCacheMisses = l.window.countP fun r => !r.cacheHit
  windowBackendErrors : s.windowBackendErrors = l.window.countP Response.backendError
  hit : s.hit.Keeps (fun r => r.cacheHit) l.traffic l.window
  miss : s.miss.Keeps (fun r => !r.cacheHit) l.traffic l.window
  monitorRequestsTotal : s.monitorRequestsTotal = l.polls.length
  windowMonitorRequests : s.windowMonitorRequests = l.windowPolls.length
  monitor : s.monitor.Keeps (fun _ => true) l.polls l.windowPolls
  channelsLength : s.channels.length = channelCount
  channels : ∀ i (c : ChannelStats), s.channels[i]? = some c →
    c.Keeps (l.traffic.filter fun r => r.channel.index = i)
      (l.handshakes.filter fun h => h.channel.index = i)
  statusLength : s.statusCounts.length = 500
  statusCounts : ∀ i n, s.statusCounts[i]? = some n →
    n = l.traffic.countP fun r => r.status.toNat = i + 100
  rpsPeak : s.rpsPeak = l.rpsPeak
  lastEmit : s.lastEmit = l.lastEmit

theorem keeps_new (now : Instant) : (Stats.new now).Keeps (.new now) where
  window := suffix_rfl
  windowPolls := suffix_rfl
  requestsTotal := rfl
  cacheHitsTotal := rfl
  cacheMissesTotal := rfl
  backendErrorsTotal := rfl
  backendErrorsByName := rfl
  windowRequests := rfl
  windowCacheHits := rfl
  windowCacheMisses := rfl
  windowBackendErrors := rfl
  hit := .new _
  miss := .new _
  monitorRequestsTotal := rfl
  windowMonitorRequests := rfl
  monitor := .new _
  channelsLength := by rw [Stats.new, length_map, length_range]
  channels := by
    intro i c hc
    obtain ⟨-, -, rfl⟩ := List.mem_map.mp (mem_of_getElem? hc)
    exact .new
  statusLength := length_replicate
  statusCounts := by
    intro i n hn
    exact eq_of_mem_replicate (mem_of_getElem? hn)
  rpsPeak := rfl
  lastEmit := rfl

variable {l : Ledger} {s : Stats}

theorem keeps_recordHandshake (k : s.Keeps l) (h : Handshake) :
    (s.recordHandshake h).Keeps (l.recordHandshake h) := by
  refine { k with channelsLength := ?_, channels := ?_ }
  · rw [Stats.recordHandshake, length_modify]
    exact k.channelsLength
  · intro i c hc
    rw [Stats.recordHandshake, getElem?_modify] at hc
    obtain ⟨c₀, hc₀, heq⟩ := map_eq_some_iff.mp hc
    have hkeeps := k.channels i c₀ hc₀
    rw [Ledger.recordHandshake, filter_concat]
    by_cases hi : h.channel.index = i
    · rw [if_pos hi] at heq
      rw [if_pos (decide_eq_true hi), ← heq]
      exact hkeeps.recordHandshake h
    · rw [if_neg hi] at heq
      rw [if_neg (by simpa using hi), ← heq]
      exact hkeeps

/-- `record` of a response that is traffic, field by field. -/
theorem Stats.record_eq (s : Stats) {r : Response} (hr : r.monitoring = false) : s.record r =
      { s with
        requestsTotal := s.requestsTotal + 1
        cacheHitsTotal := s.cacheHitsTotal + if r.cacheHit then 1 else 0
        cacheMissesTotal := s.cacheMissesTotal + if !r.cacheHit then 1 else 0
        backendErrorsTotal := s.backendErrorsTotal + if r.backendError then 1 else 0
        backendErrorsByName :=
          if r.backendError then Tally.touch s.backendErrorsByName r.backend 0 (· + 1)
          else s.backendErrorsByName
        windowRequests := s.windowRequests + 1
        windowCacheHits := s.windowCacheHits + if r.cacheHit then 1 else 0
        windowCacheMisses := s.windowCacheMisses + if !r.cacheHit then 1 else 0
        windowBackendErrors := s.windowBackendErrors + if r.backendError then 1 else 0
        hit :=
          if r.cacheHit ∧ 0 < r.elapsedNs.toNat then s.hit.storeMasked r.elapsedNs.toNat else s.hit
        miss :=
          if !r.cacheHit ∧ 0 < r.elapsedNs.toNat then s.miss.storeMasked r.elapsedNs.toNat
          else s.miss
        channels := s.channels.modify r.channel.index fun c =>
          c.record r.elapsedNs.toNat r.cacheHit r.backendError
        statusCounts :=
          if 100 ≤ r.status.toNat ∧ r.status.toNat < 600 then
            s.statusCounts.modify (r.status.toNat - 100) (· + 1)
          else s.statusCounts } := by
  rw [Response.monitoring] at hr
  have herror : (decide (r.status.toNat ≥ 500) && !isSelfGenerated r.backend) = r.backendError :=
    rfl
  rw [Stats.record, if_neg (by rw [hr]; exact Bool.false_ne_true)]
  simp only
  rw [herror]
  generalize r.backendError = error
  generalize r.elapsedNs.toNat = ns
  generalize r.cacheHit = cacheHit
  have hstatus : s.countStatus r.status = { s with
      statusCounts :=
        if 100 ≤ r.status.toNat ∧ r.status.toNat < 600 then
          s.statusCounts.modify (r.status.toNat - 100) (· + 1)
        else s.statusCounts } := by
    rw [Stats.countStatus]
    split_ifs <;> rfl
  rw [hstatus]
  by_cases hpos : 0 < ns
  all_goals cases cacheHit <;> cases error <;> simp [Stats.countCache, Stats.countError, hpos]

theorem keeps_concat {s : Reservoir} {l w : List Response}
    {next : Nat → Nat} (hnext : ∀ i, next i = i % reservoir) (k : s.Keeps p l w) (r : Response) :
    (if p r ∧ 0 < r.elapsedNs.toNat then s.store next r.elapsedNs.toNat else s).Keeps p
      (l ++ [r]) (w ++ [r]) := by
  split_ifs with h
  · exact k.store hnext h
  · exact k.skip h

theorem suffix_concat {w l : List Response} (h : w <:+ l) (r : Response) :
    w ++ [r] <:+ l ++ [r] := by
  obtain ⟨front, rfl⟩ := h
  exact ⟨front, (append_assoc ..).symm⟩

theorem keeps_recordMonitor (k : s.Keeps l) {r : Response}
    (hr : r.monitoring = true) : (s.record r).Keeps (l.record r) := by
  have hmonitor := keeps_concat (fun _ => rfl) k.monitor r
  simp only [true_and] at hmonitor
  rw [Stats.record, Ledger.record, if_pos hr, if_pos (by exact hr), Stats.recordMonitor]
  have hlength : ∀ t : List Response, t.length + 1 = (t ++ [r]).length := fun t => by
    rw [length_append, length_singleton]
  split_ifs with hpos
  · rw [if_pos hpos] at hmonitor
    refine { k with
      windowPolls := suffix_concat k.windowPolls r
      monitorRequestsTotal := ?_, windowMonitorRequests := ?_, monitor := hmonitor }
    · rw [← hlength, ← k.monitorRequestsTotal]
    · rw [← hlength, ← k.windowMonitorRequests]
  · rw [if_neg hpos] at hmonitor
    refine { k with
      windowPolls := suffix_concat k.windowPolls r
      monitorRequestsTotal := ?_, windowMonitorRequests := ?_, monitor := hmonitor }
    · rw [← hlength, ← k.monitorRequestsTotal]
    · rw [← hlength, ← k.windowMonitorRequests]

theorem keeps_recordTraffic (k : s.Keeps l) {r : Response}
    (hr : r.monitoring = false) : (s.record r).Keeps (l.record r) := by
  have hnot : ¬r.monitoring = true := by
    rw [hr]
    exact Bool.false_ne_true
  rw [Stats.record_eq s hr, Ledger.record, if_neg hnot]
  refine { k with
    window := suffix_concat k.window r
    requestsTotal := ?_, cacheHitsTotal := ?_, cacheMissesTotal := ?_, backendErrorsTotal := ?_
    backendErrorsByName := ?_, windowRequests := ?_, windowCacheHits := ?_
    windowCacheMisses := ?_, windowBackendErrors := ?_
    hit := keeps_concat masked_eq k.hit r
    miss := keeps_concat masked_eq k.miss r
    channelsLength := ?_, channels := ?_, statusLength := ?_, statusCounts := ?_ }
  · rw [length_append, k.requestsTotal]
    rfl
  · rw [countP_concat, k.cacheHitsTotal]
  · rw [countP_concat, k.cacheMissesTotal]
  · rw [countP_concat, k.backendErrorsTotal]
  · dsimp only
    rw [k.backendErrorsByName, filter_concat]
    split_ifs with herror
    · rw [map_append, map_singleton, Tally.tally_concat]
    · rfl
  · rw [length_append, k.windowRequests]
    rfl
  · rw [countP_concat, k.windowCacheHits]
  · rw [countP_concat, k.windowCacheMisses]
  · rw [countP_concat, k.windowBackendErrors]
  · rw [length_modify]
    exact k.channelsLength
  · intro i c hc
    rw [getElem?_modify] at hc
    obtain ⟨c₀, hc₀, heq⟩ := map_eq_some_iff.mp hc
    have hkeeps := k.channels i c₀ hc₀
    rw [filter_concat]
    by_cases hi : r.channel.index = i
    · rw [if_pos hi] at heq
      rw [if_pos (decide_eq_true hi), ← heq]
      exact hkeeps.record r
    · rw [if_neg hi] at heq
      rw [if_neg (by simpa using hi), ← heq]
      exact hkeeps
  · dsimp only
    split_ifs
    · rw [length_modify]
      exact k.statusLength
    · exact k.statusLength
  · intro i n hn
    rw [countP_concat]
    dsimp only at hn
    split_ifs at hn with hrange
    · rw [getElem?_modify] at hn
      obtain ⟨n₀, hn₀, heq⟩ := map_eq_some_iff.mp hn
      rw [← k.statusCounts i n₀ hn₀, ← heq]
      by_cases hi : r.status.toNat - 100 = i
      · rw [if_pos hi, if_pos (decide_eq_true (by omega))]
      · have hne : r.status.toNat ≠ i + 100 := by omega
        rw [if_neg hi, if_neg (by simpa using hne)]
        rfl
    · -- no entry is of a status outside the range
      obtain ⟨hi, -⟩ := List.getElem?_eq_some_iff.mp hn
      rw [k.statusLength] at hi
      have hne : r.status.toNat ≠ i + 100 := by omega
      rw [← k.statusCounts i n hn, if_neg (by simpa using hne), Nat.add_zero]

theorem keeps_record (k : s.Keeps l) (r : Response) : (s.record r).Keeps (l.record r) := by
  cases hr : r.monitoring with
  | false => exact keeps_recordTraffic k hr
  | true => exact keeps_recordMonitor k hr

theorem div_nanos_lt (elapsed : Nat) :
    elapsed / nanos < emitIntervalSecs ↔ elapsed < emitIntervalSecs * nanos :=
  Nat.div_lt_iff_lt_mul (by decide)

theorem keeps_maybeEmit (k : s.Keeps l) (now : Instant) (poolMembers : Nat) :
    (s.maybeEmit now poolMembers).1.Keeps (l.maybeEmit now poolMembers).1 ∧
      (s.maybeEmit now poolMembers).2 = (l.maybeEmit now poolMembers).2 := by
  have hpeak : ∀ n m : Nat, (if n > m then n else m) = max m n := by
    intro n m
    split_ifs <;> omega
  have hhit := k.hit.percentiles_window k.window
  have hmiss := k.miss.percentiles_window k.window
  have hmonitor := k.monitor.percentiles_window k.windowPolls
  rw [Stats.maybeEmit, Ledger.maybeEmit]
  simp only [div_nanos_lt, k.lastEmit]
  by_cases hearly : now - l.lastEmit < emitIntervalSecs * nanos
  · rw [if_pos hearly, if_pos hearly]
    exact ⟨k, rfl⟩
  · rw [if_neg hearly, if_neg hearly]
    refine ⟨?_, ?_⟩
    · refine { k with
        window := nil_suffix, windowPolls := nil_suffix
        windowRequests := rfl, windowCacheHits := rfl, windowCacheMisses := rfl
        windowBackendErrors := rfl, windowMonitorRequests := rfl
        hit := k.hit.begin, miss := k.miss.begin, monitor := k.monitor.begin
        rpsPeak := ?_, lastEmit := rfl }
      dsimp only
      rw [hpeak, k.windowRequests, k.rpsPeak]
    · rw [hpeak, hhit, hmiss, hmonitor, k.requestsTotal, k.windowRequests, k.rpsPeak,
        k.windowCacheHits, k.windowCacheMisses, k.windowBackendErrors, k.windowMonitorRequests,
        k.hit.windowAdded, k.miss.windowAdded]

/-! ## The snapshot -/

theorem channel_eq (k : s.Keeps l) {i : Nat} (hi : i < channelCount) :
    (s.channels[i]?.bind fun c =>
      if c.requests > 0 || c.handshakesSeen > 0 then some (c.snapshot i) else none) =
      l.channel i := by
  have hlt : i < s.channels.length := by
    rw [k.channelsLength]
    exact hi
  have hsome := getElem?_eq_getElem hlt
  have hkeeps := k.channels i _ hsome
  generalize s.channels[i] = c at hsome hkeeps
  rw [hsome, bind_some, Ledger.channel]
  generalize l.traffic.filter (fun r => r.channel.index = i) = responses at hkeeps ⊢
  generalize l.handshakes.filter (fun h => h.channel.index = i) = handshakes at hkeeps ⊢
  have hfull := hkeeps.full.total_pos
  have hresumed := hkeeps.resumed.total_pos
  have hseen : (c.requests > 0 || c.handshakesSeen > 0) = true ↔
      ¬(responses = [] ∧ durations (fun h => !h.resumed) handshakes = [] ∧
        durations (fun h => h.resumed) handshakes = []) := by
    rw [Bool.or_eq_true, decide_eq_true_eq, decide_eq_true_eq, ChannelStats.handshakesSeen,
      hkeeps.requests, gt_iff_lt, length_pos_iff, gt_iff_lt, Nat.add_pos_iff_pos_or_pos,
      hfull, hresumed]
    tauto
  by_cases hnone : responses = [] ∧ durations (fun h => !h.resumed) handshakes = [] ∧
      durations (fun h => h.resumed) handshakes = []
  · rw [if_pos hnone, if_neg fun h => hseen.mp h hnone]
  · rw [if_neg hnone, if_pos (hseen.mpr hnone), ChannelStats.snapshot,
      percentilesN_eq hkeeps.hitSamples channelReservoir_pos,
      percentilesN_eq hkeeps.missSamples channelReservoir_pos,
      hkeeps.full.snapshot_eq (durations_le _ _), hkeeps.resumed.snapshot_eq (durations_le _ _),
      hkeeps.requests, hkeeps.hits, hkeeps.misses, hkeeps.backendErrors,
      hkeeps.hitSamples.length_rtake, hkeeps.missSamples.length_rtake]

theorem insertAll_entries (m : SortedMap Nat Nat) : SortedMap.insertAll .empty m.entries = m := by
  refine ext_get? fun code => ?_
  rw [get?_insertAll, lastValue_entries, get?_empty, or_none]

def statuses (l : List Response) : List Nat :=
  (l.map fun r => r.status.toNat).filter fun code => 100 ≤ code ∧ code < 600

theorem countP_statuses (l : List Response) {code : Nat} (h : 100 ≤ code ∧ code < 600) :
    ((statuses l).countP fun c => c = code) = l.countP fun r => r.status.toNat = code := by
  rw [statuses, countP_filter, countP_map]
  refine countP_congr fun r _ => ?_
  simp only [Function.comp_apply, Bool.and_eq_true, decide_eq_true_eq]
  exact ⟨fun hr => hr.1, fun hr => ⟨hr, hr ▸ h⟩⟩

theorem mem_statuses {l : List Response} {code : Nat} :
    code ∈ statuses l ↔
      (100 ≤ code ∧ code < 600) ∧ 0 < l.countP fun r => r.status.toNat = code := by
  rw [statuses, mem_filter, decide_eq_true_eq, List.mem_map, countP_pos_iff, and_comm]
  simp only [decide_eq_true_eq]

theorem statusCounts_eq (k : s.Keeps l) :
    ((List.range s.statusCounts.length).filterMap fun i =>
      s.statusCounts[i]?.bind fun n => if n > 0 then some (i + 100, n) else none) =
      (Tally.tally (statuses l.traffic)).entries := by
  refine entries_unique ?_ (Tally.tally (statuses l.traffic)).sorted fun e => ?_
  · refine pairwise_filterMap.mpr (pairwise_lt_range.imp fun hlt a ha b hb => ?_)
    obtain ⟨n, -, hn⟩ := bind_eq_some_iff.mp ha
    obtain ⟨m, -, hm⟩ := bind_eq_some_iff.mp hb
    split_ifs at hn hm
    cases hn
    cases hm
    exact Nat.add_lt_add_right hlt 100
  · obtain ⟨code, n⟩ := e
    rw [mem_filterMap, Tally.mem_tally, mem_statuses]
    constructor
    · rintro ⟨i, hi, hsome⟩
      obtain ⟨m, hm, hif⟩ := bind_eq_some_iff.mp hsome
      split_ifs at hif with hpos
      cases hif
      have hlt : i < 500 := by
        rw [← k.statusLength]
        exact mem_range.mp hi
      have hcount := k.statusCounts i n hm
      have hrange : 100 ≤ i + 100 ∧ i + 100 < 600 := by omega
      exact ⟨⟨hrange, hcount ▸ hpos⟩, hcount.trans (countP_statuses l.traffic hrange).symm⟩
    · rintro ⟨⟨hrange, hpos⟩, hn⟩
      simp only at hn hrange hpos
      have hlt : code - 100 < s.statusCounts.length := by
        rw [k.statusLength]
        omega
      have hcode : code - 100 + 100 = code := by omega
      have hsome := getElem?_eq_getElem hlt
      have hcount := k.statusCounts _ _ hsome
      rw [hcode] at hcount
      rw [countP_statuses l.traffic hrange, ← hcount] at hn
      refine ⟨code - 100, mem_range.mpr hlt, ?_⟩
      rw [hsome, bind_some, ← hn, hcode, if_pos]
      rw [hn, hcount]
      exact hpos

theorem snapshot_eq (k : s.Keeps l) : s.snapshot = l.snapshot := by
  have hchannels : ((List.range s.channels.length).filterMap fun i =>
      s.channels[i]?.bind fun c =>
        if c.requests > 0 || c.handshakesSeen > 0 then some (c.snapshot i) else none) =
      (List.range channelCount).filterMap l.channel := by
    rw [k.channelsLength]
    exact filterMap_congr fun i hi => channel_eq k (mem_range.mp hi)
  rw [Stats.snapshot, hchannels, statusCounts_eq k, insertAll_entries, k.hit.percentiles_all,
    k.miss.percentiles_all, k.monitor.percentiles_all, k.requestsTotal, k.cacheHitsTotal,
    k.cacheMissesTotal, k.backendErrorsTotal, k.backendErrorsByName, k.monitorRequestsTotal,
    k.rpsPeak, ← k.hit.ring.length_rtake, ← k.miss.ring.length_rtake,
    ← k.monitor.ring.length_rtake]
  rfl

/-! ## Runs -/

inductive Call where
  | record (r : Response)
  | recordHandshake (h : Handshake)
  | maybeEmit (now : Instant) (poolMembers : Nat)
  | snapshot

inductive Report where
  | line (line : PeriodicLine)
  | snapshot (figures : Figures)

def Stats.step (s : Stats) : Call → Stats × Option Report
  | .record r => (s.record r, none)
  | .recordHandshake h => (s.recordHandshake h, none)
  | .maybeEmit now poolMembers =>
    ((s.maybeEmit now poolMembers).1, (s.maybeEmit now poolMembers).2.map .line)
  | .snapshot => (s, some (.snapshot s.snapshot))

def Ledger.step (l : Ledger) : Call → Ledger × Option Report
  | .record r => (l.record r, none)
  | .recordHandshake h => (l.recordHandshake h, none)
  | .maybeEmit now poolMembers =>
    ((l.maybeEmit now poolMembers).1, (l.maybeEmit now poolMembers).2.map .line)
  | .snapshot => (l, some (.snapshot l.snapshot))

def run {S : Type} (step : S → Call → S × Option Report) : S → List Call → S × List Report
  | s, [] => (s, [])
  | s, c :: calls =>
    ((run step (step s c).1 calls).1, (step s c).2.toList ++ (run step (step s c).1 calls).2)

theorem keeps_step (k : s.Keeps l) (c : Call) :
    (s.step c).1.Keeps (l.step c).1 ∧ (s.step c).2 = (l.step c).2 := by
  cases c with
  | record r => exact ⟨keeps_record k r, rfl⟩
  | recordHandshake h => exact ⟨keeps_recordHandshake k h, rfl⟩
  | maybeEmit now poolMembers =>
    obtain ⟨hkeeps, hline⟩ := keeps_maybeEmit k now poolMembers
    exact ⟨hkeeps, congrArg (Option.map Report.line) hline⟩
  | snapshot => exact ⟨k, congrArg (fun f => some (Report.snapshot f)) (snapshot_eq k)⟩

theorem keeps_run (k : s.Keeps l) (calls : List Call) :
    (run Stats.step s calls).1.Keeps (run Ledger.step l calls).1 ∧
      (run Stats.step s calls).2 = (run Ledger.step l calls).2 := by
  induction calls generalizing s l with
  | nil => exact ⟨k, rfl⟩
  | cons c calls ih =>
    obtain ⟨hkeeps, hreport⟩ := keeps_step k c
    obtain ⟨hrun, hreports⟩ := ih hkeeps
    refine ⟨hrun, ?_⟩
    rw [run, run, hreport, hreports]

/-- The arguments of the calls to `record`. -/
def responses (calls : List Call) : List Response :=
  calls.filterMap fun c =>
    match c with
    | .record r => some r
    | _ => none

/-- The arguments of the calls to `record_handshake`. -/
def handshakes (calls : List Call) : List Handshake :=
  calls.filterMap fun c =>
    match c with
    | .recordHandshake h => some h
    | _ => none

theorem maybeEmit_lists (l : Ledger) (now : Instant) (poolMembers : Nat) :
    (l.maybeEmit now poolMembers).1.traffic = l.traffic ∧
      (l.maybeEmit now poolMembers).1.polls = l.polls ∧
      (l.maybeEmit now poolMembers).1.handshakes = l.handshakes := by
  rw [Ledger.maybeEmit]
  simp only
  split_ifs
  all_goals exact ⟨rfl, rfl, rfl⟩

theorem run_lists (l : Ledger) (calls : List Call) : (run Ledger.step l calls).1.traffic =
        l.traffic ++ (responses calls).filter (fun r => !r.monitoring) ∧
      (run Ledger.step l calls).1.polls = l.polls ++ (responses calls).filter Response.monitoring ∧
      (run Ledger.step l calls).1.handshakes = l.handshakes ++ handshakes calls := by
  induction calls generalizing l with
  | nil => exact ⟨(append_nil _).symm, (append_nil _).symm, (append_nil _).symm⟩
  | cons c calls ih =>
    obtain ⟨htraffic, hpolls, hhandshakes⟩ := ih (l.step c).1
    rw [run]
    dsimp only
    rw [htraffic, hpolls, hhandshakes]
    cases c with
    | record r =>
      have hresponses : responses (.record r :: calls) = r :: responses calls := rfl
      have hhandshakes : handshakes (.record r :: calls) = handshakes calls := rfl
      rw [hresponses, hhandshakes, Ledger.step, Ledger.record]
      cases hr : r.monitoring with
      | true | false => simp [hr]
    | recordHandshake h =>
      have hresponses : responses (.recordHandshake h :: calls) = responses calls := rfl
      have hhandshakes : handshakes (.recordHandshake h :: calls) = h :: handshakes calls := rfl
      rw [hresponses, hhandshakes, Ledger.step, Ledger.recordHandshake]
      exact ⟨rfl, rfl, append_assoc ..⟩
    | maybeEmit now poolMembers =>
      obtain ⟨htraffic, hpolls, hhandshakes⟩ := maybeEmit_lists l now poolMembers
      rw [Ledger.step]
      dsimp only
      rw [htraffic, hpolls, hhandshakes]
      exact ⟨rfl, rfl, rfl⟩
    | snapshot => exact ⟨rfl, rfl, rfl⟩

/-! ## Sums and percentiles -/

theorem total_channels (l : Ledger) {g : ChannelFigures → Nat}
    (hg : ∀ i, ((l.channel i).map g).getD 0 =
      (l.traffic.filter fun r => r.channel.index = i).countP p) :
    Tally.total g l.snapshot.channels = l.traffic.countP p := by
  have hindex : ∀ r ∈ l.traffic, r.channel.index ∈ List.range channelCount := fun r _ =>
    mem_range.mpr r.channel.index_lt
  rw [Ledger.snapshot, Tally.total_filterMap, Tally.total_congr fun i _ => hg i]
  exact Tally.total_countP (fun r : Response => r.channel.index) nodup_range p hindex

theorem total_requests (l : Ledger) :
    Tally.total (fun c => c.requests) l.snapshot.channels = l.traffic.length := by
  rw [total_channels l (p := fun _ => true), countP_true]
  intro i
  rw [Ledger.channel, countP_true]
  split_ifs with hnone
  · rw [hnone.1]
    rfl
  · rfl

theorem total_backendErrors (l : Ledger) :
    Tally.total (fun c => c.backendErrors) l.snapshot.channels =
      l.traffic.countP Response.backendError := by
  rw [total_channels l (p := Response.backendError)]
  intro i
  rw [Ledger.channel]
  split_ifs with hnone
  · rw [hnone.1]
    rfl
  · rfl

/-- `v` is the `q`-th percentile of `s`. -/
def IsPercentile (s : List Nat) (q v : Nat) : Prop :=
  IsOrderStatistic s ((s.length - 1) * q / 100) v

theorem getD_sorted {s : List Nat} (hs : s ≠ []) {q : Nat} (hq : q ≤ 100) :
    IsPercentile s q ((sorted s).getD ((s.length - 1) * q / 100) 0) := by
  have hpos := length_pos_iff.mpr hs
  have hle : (s.length - 1) * q / 100 ≤ s.length - 1 :=
    Nat.div_le_of_le_mul (by rw [Nat.mul_comm 100]; exact Nat.mul_le_mul_left _ hq)
  have hlt : (s.length - 1) * q / 100 < (sorted s).length := by
    rw [(sorted_perm s).length_eq]
    omega
  refine isOrderStatistic_sorted ?_
  rw [getD_eq_getElem?_getD, getElem?_eq_getElem hlt, getD_some]

/-- **The percentiles are the exact order statistics.** -/
theorem percentilesOf_exact {s : List Nat} (hs : s ≠ []) :
    IsPercentile s 0 (percentilesOf s).p0 ∧ IsPercentile s 50 (percentilesOf s).p50 ∧
      IsPercentile s 99 (percentilesOf s).p99 ∧ IsPercentile s 100 (percentilesOf s).p100 := by
  have hzero := getD_sorted hs (Nat.zero_le 100)
  have hall := getD_sorted hs (Nat.le_refl 100)
  rw [Nat.mul_zero, Nat.zero_div] at hzero
  rw [Nat.mul_div_cancel _ (by decide)] at hall
  exact ⟨hzero, getD_sorted hs (by decide), getD_sorted hs (by decide), hall⟩

/-! ## Monitoring endpoints -/

def Figures.traffic (f : Figures) : Figures :=
  { f with monitorRequestsTotal := 0, monitorSamples := 0, monitorP50Ns := 0, monitorP99Ns := 0 }

def PeriodicLine.traffic (line : PeriodicLine) : PeriodicLine :=
  { line with monitorRequests := 0, monitorP50Ns := 0, monitorP99Ns := 0 }

def Report.traffic : Report → Report
  | .line written => .line written.traffic
  | .snapshot f => .snapshot f.traffic

def Call.isPoll : Call → Bool
  | .record r => r.monitoring
  | _ => false

def Ledger.unmonitored (l : Ledger) : Ledger := { l with polls := [], windowPolls := [] }

theorem maybeEmit_unmonitored (l : Ledger) (now : Instant) (poolMembers : Nat) :
    (l.unmonitored.maybeEmit now poolMembers).1 = (l.maybeEmit now poolMembers).1.unmonitored ∧
      (l.unmonitored.maybeEmit now poolMembers).2.map PeriodicLine.traffic =
        (l.maybeEmit now poolMembers).2.map PeriodicLine.traffic := by
  rw [Ledger.maybeEmit, Ledger.maybeEmit, Ledger.unmonitored, Ledger.unmonitored]
  dsimp only
  split_ifs
  · exact ⟨rfl, rfl⟩
  · exact ⟨rfl, rfl⟩

theorem step_unmonitored (l : Ledger) {c : Call} (hc : c.isPoll = false) :
    (l.unmonitored.step c).1 = (l.step c).1.unmonitored ∧
      (l.unmonitored.step c).2.map Report.traffic = (l.step c).2.map Report.traffic := by
  cases c with
  | record r =>
    rw [Call.isPoll] at hc
    refine ⟨?_, rfl⟩
    rw [Ledger.step, Ledger.step, Ledger.record, Ledger.record]
    simp only [hc]
    rfl
  | recordHandshake h | snapshot => exact ⟨rfl, rfl⟩
  | maybeEmit now poolMembers =>
    obtain ⟨hledger, hline⟩ := maybeEmit_unmonitored l now poolMembers
    refine ⟨hledger, ?_⟩
    have hline' := congrArg (Option.map Report.line) hline
    rw [Option.map_map, Option.map_map] at hline'
    rw [Ledger.step, Ledger.step, Option.map_map, Option.map_map]
    exact hline'

theorem step_poll (l : Ledger) {c : Call} (hc : c.isPoll = true) :
    (l.step c).1.unmonitored = l.unmonitored ∧ (l.step c).2 = none := by
  cases c with
  | record r =>
    rw [Call.isPoll] at hc
    refine ⟨?_, rfl⟩
    rw [Ledger.step, Ledger.record, if_pos hc]
    rfl
  | recordHandshake h | maybeEmit now poolMembers | snapshot => cases hc

theorem map_toList_traffic {o o' : Option Report}
    (h : o.map Report.traffic = o'.map Report.traffic) :
    o.toList.map Report.traffic = o'.toList.map Report.traffic := by
  rw [← toList_map, ← toList_map, h]

theorem run_unmonitored (l : Ledger) (calls : List Call) :
    (run Ledger.step l.unmonitored (calls.filter fun c => !c.isPoll)).2.map Report.traffic =
      (run Ledger.step l calls).2.map Report.traffic := by
  induction calls generalizing l with
  | nil => rfl
  | cons c calls ih =>
    cases hc : c.isPoll with
    | true =>
      obtain ⟨hledger, hnone⟩ := step_poll l hc
      rw [filter_cons_of_neg (by simp [hc]), run, hnone, ← hledger, ih]
      rfl
    | false =>
      obtain ⟨hledger, hreport⟩ := step_unmonitored l hc
      rw [filter_cons_of_pos (by simp [hc]), run, run]
      dsimp only
      rw [map_append, map_append, map_toList_traffic hreport, hledger, ih]

/-! ## The statistics and the lists -/

def HitsExact (l : Ledger) (f : Figures) : Prop :=
  let newest := (latencies (fun r => r.cacheHit) l.traffic).rtake reservoir
  f.hitSamples = newest.length ∧
    (newest ≠ [] → IsPercentile newest 50 f.hitP50Ns ∧ IsPercentile newest 99 f.hitP99Ns ∧
      IsPercentile newest 100 f.hitMaxNs)

def MissesExact (l : Ledger) (f : Figures) : Prop :=
  let newest := (latencies (fun r => !r.cacheHit) l.traffic).rtake reservoir
  f.missSamples = newest.length ∧
    (newest ≠ [] → IsPercentile newest 50 f.missP50Ns ∧ IsPercentile newest 99 f.missP99Ns ∧
      IsPercentile newest 100 f.missMaxNs)

def MonitorExact (l : Ledger) (f : Figures) : Prop :=
  let newest := (latencies (fun _ => true) l.polls).rtake reservoir
  f.monitorSamples = newest.length ∧
    (newest ≠ [] → IsPercentile newest 50 f.monitorP50Ns ∧ IsPercentile newest 99 f.monitorP99Ns)

theorem hitsExact (l : Ledger) : HitsExact l l.snapshot := by
  rw [HitsExact, Ledger.snapshot]
  generalize (latencies (fun r => r.cacheHit) l.traffic).rtake reservoir = newest
  refine ⟨rfl, fun hne => ?_⟩
  obtain ⟨-, hp50, hp99, hmax⟩ := percentilesOf_exact hne
  exact ⟨hp50, hp99, hmax⟩

theorem missesExact (l : Ledger) : MissesExact l l.snapshot := by
  rw [MissesExact, Ledger.snapshot]
  generalize (latencies (fun r => !r.cacheHit) l.traffic).rtake reservoir = newest
  refine ⟨rfl, fun hne => ?_⟩
  obtain ⟨-, hp50, hp99, hmax⟩ := percentilesOf_exact hne
  exact ⟨hp50, hp99, hmax⟩

theorem monitorExact (l : Ledger) : MonitorExact l l.snapshot := by
  rw [MonitorExact, Ledger.snapshot]
  generalize (latencies (fun _ => true) l.polls).rtake reservoir = newest
  refine ⟨rfl, fun hne => ?_⟩
  obtain ⟨-, hp50, hp99, -⟩ := percentilesOf_exact hne
  exact ⟨hp50, hp99⟩

def WindowExact (l : Ledger) (line : PeriodicLine) : Prop :=
  let hit := latencies (fun r => r.cacheHit) l.window
  let miss := latencies (fun r => !r.cacheHit) l.window
  (line.hitSamples = hit.length ∧ line.hitNs = percentilesOf (hit.rtake reservoir)) ∧
    line.missSamples = miss.length ∧ line.missNs = percentilesOf (miss.rtake reservoir)

theorem windowExact {now : Instant} {poolMembers : Nat} {line : PeriodicLine}
    (h : (l.maybeEmit now poolMembers).2 = some line) : WindowExact l line := by
  rw [Ledger.maybeEmit] at h
  dsimp only at h
  split_ifs at h
  cases h
  exact ⟨⟨rfl, rfl⟩, rfl, rfl⟩

/-- The statistics are those of the plain lists of what was recorded. -/
structure PlainLists (start : Instant) (calls : List Call) (s : Stats) (l : Ledger)
    (reports : List Report) : Prop where
  /-- the list of the traffic, of the polls and of the handshakes -/
  traffic : l.traffic = (responses calls).filter fun r => !r.monitoring
  polls : l.polls = (responses calls).filter Response.monitoring
  handshakes : l.handshakes = handshakes calls
  /-- the snapshot, and all that was reported before -/
  snapshot : s.snapshot = l.snapshot
  reported : reports = (run Ledger.step (.new start) calls).2
  requests : s.snapshot.requestsTotal = l.traffic.length ∧
    s.snapshot.requestsTotal = s.snapshot.cacheHitsTotal + s.snapshot.cacheMissesTotal ∧
    s.snapshot.requestsTotal = Tally.total (fun c => c.requests) s.snapshot.channels
  backendErrors : s.snapshot.backendErrorsTotal = l.traffic.countP Response.backendError ∧
    s.snapshot.backendErrorsTotal =
      Tally.total Prod.snd s.snapshot.backendErrorsByName.entries ∧
    s.snapshot.backendErrorsTotal = Tally.total (fun c => c.backendErrors) s.snapshot.channels
  statuses : ∀ code, 100 ≤ code → code ≤ 599 →
    (s.snapshot.statusCounts.get? code).getD 0 =
      l.traffic.countP fun r => r.status.toNat = code
  hits : HitsExact l s.snapshot
  misses : MissesExact l s.snapshot
  monitor : MonitorExact l s.snapshot
  /-- a line is of the samples since the last one, as many of them as a reservoir has room for -/
  lines : ∀ now poolMembers line, (s.maybeEmit now poolMembers).2 = some line →
    WindowExact l line
  exact : ∀ newest : List Nat, newest ≠ [] → IsPercentile newest 0 (percentilesOf newest).p0 ∧
      IsPercentile newest 50 (percentilesOf newest).p50 ∧
      IsPercentile newest 99 (percentilesOf newest).p99 ∧
      IsPercentile newest 100 (percentilesOf newest).p100
  /-- the polls change nothing of what is reported of the traffic -/
  unmonitored : reports.map Report.traffic =
    (run Stats.step (.new start) (calls.filter fun c => !c.isPoll)).2.map Report.traffic

theorem get?_statuses (l : Ledger) {code : Nat} (hmin : 100 ≤ code) (hmax : code ≤ 599) :
    (l.snapshot.statusCounts.get? code).getD 0 =
      l.traffic.countP fun r => r.status.toNat = code := by
  have hrange : 100 ≤ code ∧ code < 600 := ⟨hmin, by omega⟩
  have hget : l.snapshot.statusCounts.get? code = (Tally.tally (statuses l.traffic)).get? code :=
    rfl
  rw [hget, Tally.get?_tally, countP_statuses l.traffic hrange]
  split_ifs with h
  · rfl
  · have hzero : ¬0 < l.traffic.countP fun r => r.status.toNat = code := fun hpos =>
      h (mem_statuses.mpr ⟨hrange, hpos⟩)
    rw [Nat.eq_zero_of_not_pos hzero]
    rfl

/-- **After any calls the statistics are those of the plain lists of what was recorded.** -/
theorem plainLists (start : Instant) (calls : List Call) :
    PlainLists start calls (run Stats.step (.new start) calls).1
      (run Ledger.step (.new start) calls).1 (run Stats.step (.new start) calls).2 := by
  obtain ⟨hkeeps, hreports⟩ := keeps_run (keeps_new start) calls
  obtain ⟨htraffic, hpolls, hhandshakes⟩ := run_lists (.new start) calls
  have hsnapshot := snapshot_eq hkeeps
  obtain ⟨-, hfiltered⟩ := keeps_run (keeps_new start) (calls.filter fun c => !c.isPoll)
  have hunmonitored := run_unmonitored (.new start) calls
  refine
    { traffic := htraffic
      polls := hpolls
      handshakes := hhandshakes
      snapshot := hsnapshot
      reported := hreports
      requests := ?_
      backendErrors := ?_
      statuses := ?_
      hits := hsnapshot ▸ hitsExact _
      misses := hsnapshot ▸ missesExact _
      monitor := hsnapshot ▸ monitorExact _
      lines := ?_
      exact := fun newest hne => percentilesOf_exact hne
      unmonitored := ?_ }
  · rw [hsnapshot]
    refine ⟨rfl, ?_, (total_requests _).symm⟩
    have hsplit := length_eq_countP_add_countP (fun r : Response => r.cacheHit)
      (l := (run Ledger.step (.new start) calls).1.traffic)
    refine hsplit.trans (congrArg _ (countP_congr fun r _ => ?_))
    cases r.cacheHit <;> decide
  · rw [hsnapshot]
    refine ⟨rfl, ?_, (total_backendErrors _).symm⟩
    rw [Ledger.snapshot]
    dsimp only
    rw [Tally.total_tally, length_map, countP_eq_length_filter]
  · intro code hmin hmax
    rw [hsnapshot]
    exact get?_statuses _ hmin hmax
  · intro now poolMembers line hline
    obtain ⟨-, hsame⟩ := keeps_maybeEmit hkeeps now poolMembers
    exact windowExact (hsame.symm.trans hline)
  · rw [hreports, hfiltered]
    exact hunmonitored.symm

end Traffic

end M6
