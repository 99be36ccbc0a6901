import M6.Monitor.Ndjson

/-!
# What a poll reads

The answers of a node as `monitoring.rs`, `telemetry.rs`, `host.rs`, `tls.rs` and `firewall.rs`
declare them, and what the monitor has read of a node in one poll (`poll.rs`, `tunnel.rs`). Every
number and every text in an answer is the node's own: all that is known of it is its type.
-/

namespace M6.Monitor

open App (I64)

/-! ## Numbers and texts -/

/-- Formatting and parsing of the standard library: `{:.n}` of a float, `{:?}` of a text, the double
that a float prints as, and a list of texts as JSON. -/
structure Formats where
  fixed : Nat → Float → Str
  fixed32 : Nat → Float32 → Str
  debug : Str → Str
  widen : Float32 → Option Float
  json : List Str → Str

/-- A `u64` or a `usize` as it is printed. -/
def u64Text (v : UInt64) : Str := decimal v.toNat

def addU64 (a b : UInt64) : Except Halt UInt64 :=
  if a.toNat + b.toNat < 2 ^ 64 then .ok (a + b) else .error .panic

structure Duration where
  secs : UInt64
  nanos : UInt32

def Duration.asSecsF64 (d : Duration) : Float :=
  d.secs.toFloat + d.nanos.toUInt64.toFloat / 1000000000.0

/-! ## The answers of a node -/

structure HealthReport where
  status : Str
  node : Str

structure BuildId where
  name : Str
  version : Str
  hash : Str

structure PoolHealth where
  name : Str
  active : UInt64
  total : UInt64

structure TlsCertificate where
  notAfterUnix : I64
  expiresInSeconds : I64

structure LogReopenHealth where
  reopensTotal : UInt64
  failuresTotal : UInt64
  secondsSinceLastReopen : Option UInt64
  lastReopenUnix : Option UInt64
  secondsSinceLastFailure : Option UInt64

structure LoggingHealth where
  eventsTotal : UInt64
  secondsSinceLast : Option UInt64
  reopen : Option LogReopenHealth

def LoggingHealth.quietSeconds : UInt64 := 40

def LoggingHealth.isBlind (l : LoggingHealth) : Bool :=
  match l.secondsSinceLast with
  | none => true
  | some s => quietSeconds < s

structure HandshakeStats where
  samples : UInt64
  p50Ns : UInt64
  p99Ns : UInt64
  total : UInt64
  meanNs : UInt64
  minNs : UInt64
  maxNs : UInt64

structure ChannelSnapshot where
  channel : Str
  requests : UInt64
  hits : UInt64
  misses : UInt64
  backendErrors : UInt64
  hitSamples : UInt64
  hitP50Ns : UInt64
  hitP99Ns : UInt64
  missSamples : UInt64
  missP50Ns : UInt64
  missP99Ns : UInt64
  handshakeFull : HandshakeStats
  handshakeResumed : HandshakeStats

structure StatsSnapshot where
  requestsTotal : UInt64
  cacheHitsTotal : UInt64
  cacheMissesTotal : UInt64
  backendErrorsTotal : UInt64
  backendErrorsByName : SortedMap Str UInt64
  monitorRequestsTotal : UInt64
  hitSamples : UInt64
  hitP50Ns : UInt64
  hitP99Ns : UInt64
  missSamples : UInt64
  missP50Ns : UInt64
  missP99Ns : UInt64
  channels : List ChannelSnapshot

structure LoadAverage where
  one : Float

/-- Bytes in all, and those that can still be had: of the memory, and of the disk. -/
structure Capacity where
  totalBytes : UInt64
  availableBytes : UInt64

def Capacity.usedBytes (c : Capacity) : UInt64 :=
  if c.availableBytes ≤ c.totalBytes then c.totalBytes - c.availableBytes else 0

def Capacity.usedFraction (c : Capacity) : Float :=
  if c.totalBytes = 0 then 0.0 else c.usedBytes.toFloat / c.totalBytes.toFloat

structure ThermalZone where
  name : Str
  celsius : Float32

structure NetDevice where
  name : Str
  rxBytes : UInt64
  rxErrs : UInt64
  rxDrop : UInt64
  txBytes : UInt64
  txErrs : UInt64
  txDrop : UInt64

structure HostSnapshot where
  load : Option LoadAverage
  cpus : UInt64
  memory : Option Capacity
  disk : Option Capacity
  thermal : List ThermalZone
  uptimeS : Option UInt64
  net : List NetDevice

/-- The answer to `/perf`. -/
structure PerfReport where
  node : Str
  build : BuildId
  uptimeS : UInt64
  pools : List PoolHealth
  tls : List TlsCertificate
  tlsUnreadable : UInt64
  logging : Option LoggingHealth
  metrics : StatsSnapshot
  host : HostSnapshot

structure NotableClient where
  ip : Str
  requests : UInt64
  distinctUserAgents : UInt64
  userAgents : List Str
  probePaths : List Str
  injectionPaths : List Str
  rotatingUserAgents : Bool
  firstSeen : Str
  lastSeen : Str

structure HeavyHitter where
  ip : Str
  requests : UInt64
  topPath : Str
  distinctUserAgents : UInt64
  errorRatio : Float

structure CrawlerReport where
  userAgent : Str
  requests : UInt64
  clientIps : List Str
  paths : List Str

structure Block where
  address : Str
  packets : UInt64
  bytes : UInt64

structure FirewallState where
  blocks : List Block
  totalRules : UInt64

def FirewallState.active (f : FirewallState) : List Block := f.blocks.filter fun b => 0 < b.packets

/-- The answer to `/traffic`. -/
structure TrafficReport where
  windowMinutes : UInt64
  totalRequests : UInt64
  status : SortedMap (Fin (2 ^ 16)) UInt64
  notable : List NotableClient
  heavyHitters : List HeavyHitter
  crawlers : List CrawlerReport
  forgedBotRequests : UInt64
  forgers : List Str
  probeNoise : List Str
  logging : LoggingHealth
  firewall : Option FirewallState

/-! ## The tunnel to a node -/

inductive Probe where
  | connected
  | refused
  | noAnswer (why : Str)
  | failed (why : Str)

structure ProbeResult where
  samples : List Duration
  outcome : Probe

inductive Handshake where
  | noPublicKey
  | noHandshakesFile
  | unknown (why : Str)
  | fileMissing (path : Str)
  | fileError (error : Str)
  | fileStale (path : Str) (ageS : UInt64)
  | peerAbsent
  | never
  | at (ageS : UInt64)

structure TunnelReading where
  address : Str
  keyPrefix : Option Str
  probe : ProbeResult
  handshake : Handshake
  fileAgeS : Option UInt64

/-! ## One poll of one node -/

structure HeaderCheckResult where
  path : Str
  header : Str
  expected : Str
  actual : Option Str
  status : Option (Fin (2 ^ 16))
  error : Option Str

def HeaderCheckResult.passed (c : HeaderCheckResult) : Bool :=
  c.error.isNone && c.actual = some c.expected

/-- **What a node answered.** -/
structure NodeReading where
  name : Str
  role : Str
  url : Str
  health : Option HealthReport
  perf : Option PerfReport
  perfError : Option Str
  rtt : Option Duration
  headerChecks : List HeaderCheckResult
  traffic : Option TrafficReport
  trafficError : Option Str
  unreachable : Option Str
  tunnel : Option TunnelReading

namespace NodeReading

def isUp (r : NodeReading) : Bool := r.unreachable.isNone

def status (r : NodeReading) : Str :=
  match r.unreachable, r.health with
  | some _, _ => "unreachable".toList
  | none, some h => h.status
  | none, none => "unknown".toList

end NodeReading

/-! ## What a deployment finds too much -/

structure Thresholds where
  diskUsed : Float
  memoryUsed : Float
  loadPerCpu : Float
  thermalCelsius : Float32
  certExpiryDays : I64
  tunnelHandshakeAgeS : UInt64
  logReopenAgeS : Option UInt64

end M6.Monitor
