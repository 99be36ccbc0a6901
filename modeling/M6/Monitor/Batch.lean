import M6.Monitor.Digest

/-!
# A poll as rows

`batch` of `history.rs`: what one poll writes into the history, made of what was read and of the
digest of it. Counts of 64 bits become numbers with a sign, and one that is none becomes the largest
of them (`iu`). A digest says of a node what the node says of itself, so the row of a reading can be
told from the reading alone (`figures_row`).
-/

namespace M6.Monitor

open App (I64)

/-! ## Rows -/

def levelI : Level → I64
  | .ok => ⟨0, App.zero_fits⟩
  | .warn => ⟨1, by decide⟩
  | .fault => ⟨2, by decide⟩

theorem fits_of_lt {v : Nat} (h : v < 2 ^ 63) : -2 ^ 63 ≤ (v : Int) ∧ (v : Int) < 2 ^ 63 := by
  omega

/-- `i` and `iu`: a count with a sign, or the largest one. -/
def iu (v : Nat) : I64 :=
  if h : v < 2 ^ 63 then ⟨v, fits_of_lt h⟩ else ⟨2 ^ 63 - 1, by decide⟩

/-- `i` of a count that may not be there. -/
def iuOpt (v : Option UInt64) : Option I64 := v.map fun v => iu v.toNat

structure FindingRow where
  level : I64
  node : Str
  polled : Bool
  text : Str

structure TunnelRow where
  rttMs : Option Float
  rttN : I64
  probe : Str
  probeError : Option Str
  handshake : Str
  handshakeAgeS : Option I64
  handshakeDetail : Option Str

structure ChannelRow extends ChannelFigures where
  channel : Str

structure CrawlSnapshot where
  windowMinutes : I64
  totalRequests : I64
  status : List (Fin (2 ^ 16) × I64)
  forgedBotRequests : I64
  forgers : List Str
  crawlers : List CrawlerReport

structure Row extends Figures where
  node : Str
  level : I64
  reachable : Bool
  status : Str
  detail : Option Str
  trafficError : Option Str
  build : Option (Str × Str × Str)
  tunnel : Option TunnelRow
  reopen : ReopenRow
  channels : List ChannelRow
  net : List NetRow
  crawl : Option CrawlSnapshot

/-- **Everything one poll writes.** -/
structure Batch where
  atMs : I64
  level : I64
  faults : I64
  warns : I64
  findings : List FindingRow
  rows : List Row

/-! ## One node -/

def TunnelDigest.row (t : TunnelDigest) : TunnelRow where
  rttMs := t.rttMs
  rttN := iu t.rttSamplesMs.length
  probe := t.probe.asStr
  probeError := t.probeError
  handshake := t.handshake.asStr
  handshakeAgeS := iuOpt t.handshakeAgeS
  handshakeDetail := t.handshakeDetail

def LogReopenDigest.row (l : LogReopenDigest) : ReopenRow where
  state := l.state.asStr
  ageS := iuOpt l.ageS
  lastUnix := iuOpt l.lastUnix
  reopens := iuOpt l.reopens
  failures := iuOpt l.failures
  lastFailureAgeS := iuOpt l.lastFailureAgeS
  detail := l.detail

def sampled (samples v : UInt64) : Option I64 := if 0 < samples then some (iu v.toNat) else none

def ChannelSnapshot.row (c : ChannelSnapshot) : ChannelRow where
  channel := c.channel
  requests := iu c.requests.toNat
  hits := iu c.hits.toNat
  misses := iu c.misses.toNat
  backendErrors := iu c.backendErrors.toNat
  hitSamples := iu c.hitSamples.toNat
  hitP50Ns := sampled c.hitSamples c.hitP50Ns
  hitP99Ns := sampled c.hitSamples c.hitP99Ns
  missSamples := iu c.missSamples.toNat
  missP50Ns := sampled c.missSamples c.missP50Ns
  missP99Ns := sampled c.missSamples c.missP99Ns

def NetDevice.row (d : NetDevice) : NetRow where
  iface := d.name
  rxBytes := iu d.rxBytes.toNat
  rxErrs := iu d.rxErrs.toNat
  rxDrop := iu d.rxDrop.toNat
  txBytes := iu d.txBytes.toNat
  txErrs := iu d.txErrs.toNat
  txDrop := iu d.txDrop.toNat

def TrafficReport.snapshot (t : TrafficReport) : CrawlSnapshot where
  windowMinutes := iu t.windowMinutes.toNat
  totalRequests := iu t.totalRequests.toNat
  status := t.status.entries.map fun e => (e.1, iu e.2.toNat)
  forgedBotRequests := iu t.forgedBotRequests.toNat
  forgers := t.forgers
  crawlers := t.crawlers

def NodeDigest.build (n : NodeDigest) : Option (Str × Str × Str) :=
  if n.binary.isSome ∨ n.version.isSome ∨ n.hash.isSome then
    some (n.binary.getD [], n.version.getD [], n.hash.getD [])
  else none

def Digest.levelOf (d : Digest) (name : Str) : Level :=
  (((d.findings.filter fun f => f.node = name).map Finding.level).max?).getD .ok

variable (fmt : Formats)

def NodeDigest.figures (n : NodeDigest) : Figures where
  rttMs := n.rttMs
  uptimeS := iuOpt n.uptimeS
  hostUptimeS := iuOpt n.hostUptimeS
  requestsTotal := iuOpt n.requestsTotal
  monitorRequests := none
  cacheHits := none
  cacheMisses := none
  backendErrors := iuOpt n.backendErrors
  hitSamples := iuOpt n.hitSamples
  hitP50Ns := iuOpt n.hitP50Ns
  hitP99Ns := iuOpt n.hitP99Ns
  missSamples := none
  missP50Ns := none
  missP99Ns := none
  loadOne := n.loadOne
  cpus := iuOpt n.cpus
  memoryUsed := n.memoryUsed
  memoryTotalBytes := iuOpt n.memoryTotalBytes
  diskUsed := n.diskUsed
  diskTotalBytes := iuOpt n.diskTotalBytes
  thermalMaxC := n.thermalMaxC.bind fmt.widen
  certNotAfterUnix := n.certNotAfterUnix

/-- The figures that only `/perf` has. -/
def Figures.withPerf (f : Figures) (m : StatsSnapshot) : Figures :=
  { f with
    monitorRequests := some (iu m.monitorRequestsTotal.toNat)
    cacheHits := some (iu m.cacheHitsTotal.toNat)
    cacheMisses := some (iu m.cacheMissesTotal.toNat)
    missSamples := some (iu m.missSamples.toNat)
    missP50Ns := sampled m.missSamples m.missP50Ns
    missP99Ns := sampled m.missSamples m.missP99Ns }

def row (r : NodeReading) (n : NodeDigest) (d : Digest) : Row where
  toFigures := match r.perf with
    | some p => (n.figures fmt).withPerf p.metrics
    | none => n.figures fmt
  node := n.name
  level := levelI (d.levelOf n.name)
  reachable := r.isUp
  status := n.status
  detail := r.unreachable
  trafficError := r.trafficError
  build := n.build
  tunnel := n.tunnel.map TunnelDigest.row
  reopen := n.logReopen.row
  channels := match r.perf with
    | some p => p.metrics.channels.map ChannelSnapshot.row
    | none => []
  net := match r.perf with
    | some p => p.host.net.map NetDevice.row
    | none => []
  crawl := r.traffic.map TrafficReport.snapshot

/-! ## The poll -/

def Digest.count (d : Digest) (level : Level) : I64 :=
  iu (d.findings.filter fun f => f.level = level).length

def Digest.findingRow (d : Digest) (f : Finding) : FindingRow where
  level := levelI f.level
  node := f.node
  polled := d.nodes.any fun n => n.name = f.node
  text := f.text

/-- **A poll as rows.** -/
def batch (atMs : I64) (readings : List NodeReading) (d : Digest) : Batch where
  atMs := atMs
  level := levelI d.level
  faults := d.count .fault
  warns := d.count .warn
  findings := d.findings.map d.findingRow
  rows := (readings.zip d.nodes).map fun e => row fmt e.1 e.2 d

end M6.Monitor
