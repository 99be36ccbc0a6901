import M6.Lib.Failing
import M6.Lib.Grouping
import M6.Lib.Slices
import M6.Monitor.History
import M6.Monitor.Reading

/-!
# The digest of a poll

`digest.rs`: what has been read of the nodes becomes figures for each of them, and findings. Each
node is judged on its own, and then the nodes by each other. The state that the loop over the nodes
carries is `Progress`.

Arithmetic is checked and a text is cut at a character or not at all: either ends the process.
`build_yields` says what a digest is (`digestOf`), and when there is one (`Countable`).
-/

namespace M6.Monitor

open App (I64)
open Select (orderBy)
open Grouping (distinct groupBy largest)

/-! ## Findings -/

inductive Level where
  | ok
  | warn
  | fault
  deriving DecidableEq

def Level.rank : Level → Nat
  | ok => 0
  | warn => 1
  | fault => 2

instance : LinearOrder Level :=
  LinearOrder.lift' Level.rank fun a b h => by cases a <;> cases b <;> first | rfl | cases h

structure Finding where
  level : Level
  node : Str
  text : Str

def fault (node text : Str) : Finding := ⟨.fault, node, text⟩

def warn (node text : Str) : Finding := ⟨.warn, node, text⟩

def findingIf (p : Prop) [Decidable p] (f : Finding) : List Finding := if p then [f] else []

@[simp] theorem findingIf_eq_nil {p : Prop} [Decidable p] {f : Finding} :
    findingIf p f = [] ↔ ¬ p := by
  rw [findingIf]
  split_ifs with h <;> simp [h]

/-! ## What is shown of a node -/

inductive ReopenState where
  | ok
  | never
  | noLogFile
  | unknown
  deriving DecidableEq

def ReopenState.asStr : ReopenState → Str
  | ok => "ok".toList
  | never => "never".toList
  | noLogFile => "no_log_file".toList
  | unknown => "unknown".toList

structure LogReopenDigest where
  state : ReopenState
  ageS : Option UInt64
  lastUnix : Option UInt64
  reopens : Option UInt64
  failures : Option UInt64
  lastFailureAgeS : Option UInt64
  detail : Option Str

def LogReopenDigest.unknown (detail : Str) : LogReopenDigest :=
  ⟨.unknown, none, none, none, none, none, some detail⟩

def LogReopenDigest.fromHealth (h : LogReopenHealth) : LogReopenDigest where
  state := if h.secondsSinceLastReopen.isSome then .ok else .never
  ageS := h.secondsSinceLastReopen
  lastUnix := h.lastReopenUnix
  reopens := some h.reopensTotal
  failures := some h.failuresTotal
  lastFailureAgeS := h.secondsSinceLastFailure
  detail := none

inductive ProbeState where
  | connected
  | refused
  | noAnswer
  | failed
  deriving DecidableEq

def ProbeState.asStr : ProbeState → Str
  | connected => "connected".toList
  | refused => "refused".toList
  | noAnswer => "no_answer".toList
  | failed => "failed".toList

inductive HandshakeState where
  | ok
  | never
  | peerAbsent
  | noPublicKey
  | noHandshakesFile
  | unknown
  | fileMissing
  | fileError
  | fileStale
  deriving DecidableEq

def HandshakeState.asStr : HandshakeState → Str
  | ok => "ok".toList
  | never => "never".toList
  | peerAbsent => "peer_absent".toList
  | noPublicKey => "no_public_key".toList
  | noHandshakesFile => "no_handshakes_file".toList
  | unknown => "unknown".toList
  | fileMissing => "file_missing".toList
  | fileError => "file_error".toList
  | fileStale => "file_stale".toList

structure TunnelDigest where
  address : Str
  rttMs : Option Float
  rttSamplesMs : List Float
  probe : ProbeState
  probeError : Option Str
  handshake : HandshakeState
  handshakeAgeS : Option UInt64
  handshakeDetail : Option Str

structure NodeDigest where
  name : Str
  role : Str
  url : Str
  status : Str
  reportedNode : Option Str
  rttMs : Option Float
  version : Option Str
  binary : Option Str
  hash : Option Str
  uptimeS : Option UInt64
  hostUptimeS : Option UInt64
  requestsTotal : Option UInt64
  hitRate : Option Float
  hitP50Ns : Option UInt64
  hitP99Ns : Option UInt64
  hitSamples : Option UInt64
  backendErrors : Option UInt64
  pools : List (Str × UInt64 × UInt64)
  loadOne : Option Float
  cpus : Option UInt64
  memoryUsed : Option Float
  memoryTotalBytes : Option UInt64
  diskUsed : Option Float
  diskTotalBytes : Option UInt64
  thermalMaxC : Option Float32
  certExpiresInSeconds : Option I64
  certNotAfterUnix : Option I64
  perfError : Option Str
  tunnel : Option TunnelDigest
  logReopen : LogReopenDigest

structure HistoryDigest where
  state : Str
  file : Option Str
  maxBytes : Option UInt64
  fileBytes : Option UInt64
  usedBytes : Option UInt64
  oldestAt : Option Str
  newestAt : Option Str
  lastWriteAgeS : Option UInt64
  writes : UInt64
  crawlWindows : UInt64
  failures : UInt64
  dropped : UInt64
  pruned : UInt64
  lastError : Option Str

/-- **The whole fleet, summarised.** -/
structure Digest where
  generatedAt : Str
  nodes : List NodeDigest
  findings : List Finding
  level : Level
  thresholds : Thresholds
  handshakeFileAgeS : Option UInt64
  history : Option HistoryDigest

/-! ## The tunnel -/

def tunnelDigest (t : TunnelReading) : TunnelDigest :=
  let (probe, probeError) := match t.probe.outcome with
    | .connected => (ProbeState.connected, none)
    | .refused => (.refused, none)
    | .noAnswer e => (.noAnswer, some e)
    | .failed e => (.failed, some e)
  let ms := t.probe.samples.map fun d => d.asSecsF64 * 1000.0
  let (handshake, handshakeAgeS, handshakeDetail) := match t.handshake with
    | .noPublicKey => (HandshakeState.noPublicKey, none, none)
    | .noHandshakesFile => (.noHandshakesFile, none, none)
    | .unknown why => (.unknown, none, some why)
    | .fileMissing p => (.fileMissing, none, some p)
    | .fileError e => (.fileError, none, some e)
    | .fileStale path _ => (.fileStale, none, some path)
    | .peerAbsent => (.peerAbsent, none, none)
    | .never => (.never, none, none)
    | .at ageS => (.ok, some ageS, none)
  { address := t.address
    rttMs := match ms with
      | [] => none
      | m :: more => some (more.foldl min m)
    rttSamplesMs := ms
    probe := probe
    probeError := probeError
    handshake := handshake
    handshakeAgeS := handshakeAgeS
    handshakeDetail := handshakeDetail }

def tunnelFindings (t : Thresholds) (name : Str) (keyPrefix : Option Str) (td : TunnelDigest) :
    List Finding :=
  findingIf (td.probe = .noAnswer ∨ td.probe = .failed)
      (fault name ("tunnel ".toList ++ td.address ++ " did not answer: ".toList ++
        td.probeError.getD "no reason given".toList)) ++
    match td.handshake with
    | .never =>
      [fault name "tunnel peer has never completed a WireGuard handshake with this host".toList]
    | .peerAbsent =>
      [fault name ("public key ".toList ++ keyPrefix.getD "?".toList ++
        "... is not a peer on this host's WireGuard interface".toList)]
    | .ok =>
      match td.handshakeAgeS with
      | some age =>
        findingIf (t.tunnelHandshakeAgeS < age)
          (fault name ("last WireGuard handshake ".toList ++ u64Text age ++
            "s ago, over the ".toList ++ u64Text t.tunnelHandshakeAgeS ++ "s threshold".toList))
      | none => []
    | .noPublicKey =>
      [fault name ("tunnel has no public_key, so its WireGuard handshake cannot be checked: ".toList
        ++ "set public_key in this node's tunnel".toList)]
    | .noHandshakesFile | .fileStale | .fileMissing | .fileError | .unknown => []

def fileProblem (t : Thresholds) (fileAgeS : Option UInt64) (td : TunnelDigest) : Option Str :=
  match td.handshake with
  | .fileMissing =>
    some ("WireGuard handshake file ".toList ++ td.handshakeDetail.getD "-".toList ++
      " is missing, so no handshake age can be read: is its collector installed?".toList)
  | .fileError =>
    some ("WireGuard handshake file unreadable: ".toList ++ td.handshakeDetail.getD "-".toList)
  | .fileStale =>
    some ("WireGuard handshakes file ".toList ++ td.handshakeDetail.getD "-".toList ++
      " is ".toList ++ u64Text (fileAgeS.getD 0) ++ "s old, over the ".toList ++
      u64Text t.tunnelHandshakeAgeS ++ "s limit, so its collector has probably stopped ".toList ++
      "and no handshake age is judged".toList)
  | .noHandshakesFile =>
    some ("tunnels are configured but wg_handshakes_file is not set, ".toList ++
      "so no WireGuard handshake can be checked".toList)
  | _ => none

/-! ## The log -/

def logReopenFindings (node : Str) (uptimeS : UInt64) (l : LogReopenDigest) (max : UInt64) :
    List Finding :=
  (match l.state with
    | .unknown =>
      [fault node
        "cannot say when it last reopened its log file: the node is too old to report it".toList]
    | .never =>
      findingIf (max < uptimeS)
        (fault node ("has never reopened its log file in ".toList ++ u64Text uptimeS ++
          "s since start, over the ".toList ++ u64Text max ++
          "s limit: is log rotation installed and signalling it?".toList))
    | .ok =>
      findingIf (l.ageS.any fun age => max < age)
        (fault node ("last reopened its log file ".toList ++ u64Text (l.ageS.getD 0) ++
          "s ago, over the ".toList ++ u64Text max ++ "s limit: log rotation has stopped".toList))
    | .noLogFile => []) ++
  match l.lastFailureAgeS with
  | some f =>
    findingIf (l.ageS.all fun ok => f < ok)
      (fault node ("its last log reopen failed ".toList ++ u64Text f ++
        "s ago and none has succeeded since, so it is still writing to the previous file".toList))
  | none => []

def quietLogText (l : LoggingHealth) : Option Str :=
  match l.secondsSinceLast with
  | none => some "nothing has ever been logged".toList
  | some s =>
    if l.isBlind then
      some ("main log silent for ".toList ++ u64Text s ++ "s (".toList ++ u64Text l.eventsTotal ++
        " events since start)".toList)
    else none

def quietLogFindings (node : Str) (l : LoggingHealth) : Option Finding :=
  (quietLogText l).map (fault node)

/-! ## What `/perf` says -/

def hitRate (hits misses : UInt64) : Except Halt (Option Float) := do
  let sum ← addU64 hits misses
  .ok (if 0 < sum then some (hits.toFloat / sum.toFloat) else none)

def emptyToNone (s : Str) : Option Str := if s = [] then none else some s

/-- How the log of a node was reopened, as `/perf` reports it. -/
def PerfReport.logReopen (p : PerfReport) : LogReopenDigest :=
  match p.logging with
  | none => .unknown "node too old to report log reopening".toList
  | some l =>
    match l.reopen with
    | none => { LogReopenDigest.unknown [] with state := .noLogFile }
    | some h => .fromHealth h

def PerfReport.soonest (p : PerfReport) (figure : TlsCertificate → I64) : Option I64 :=
  if p.tlsUnreadable = 0 then (p.tls.map figure).min? else none

/-- The order of `f32::total_cmp`. -/
def totalRank (x : Float32) : Int :=
  let bits := x.toBits.toNat
  if bits < 2 ^ 31 then bits else 2 ^ 31 - 1 - bits

def hottest : List ThermalZone → Option ThermalZone
  | [] => none
  | z :: more =>
    some (more.foldl
      (fun best z => if totalRank best.celsius ≤ totalRank z.celsius then z else best) z)

/-- The figures of `/perf`. -/
def NodeDigest.withPerf (d : NodeDigest) (p : PerfReport) (hitRate : Option Float) : NodeDigest :=
  let sampled := 0 < p.metrics.hitSamples
  { d with
    version := emptyToNone p.build.version
    binary := emptyToNone p.build.name
    hash := emptyToNone p.build.hash
    uptimeS := some p.uptimeS
    logReopen := p.logReopen
    certExpiresInSeconds := p.soonest TlsCertificate.expiresInSeconds
    certNotAfterUnix := p.soonest TlsCertificate.notAfterUnix
    requestsTotal := some p.metrics.requestsTotal
    backendErrors := some p.metrics.backendErrorsTotal
    hitRate := hitRate
    hitSamples := some p.metrics.hitSamples
    hitP50Ns := if sampled then some p.metrics.hitP50Ns else none
    hitP99Ns := if sampled then some p.metrics.hitP99Ns else none
    pools := p.pools.map fun x => (x.name, x.active, x.total)
    cpus := some p.host.cpus
    hostUptimeS := p.host.uptimeS
    loadOne := p.host.load.map LoadAverage.one
    memoryUsed := p.host.memory.map Capacity.usedFraction
    memoryTotalBytes := p.host.memory.map Capacity.totalBytes
    diskUsed := p.host.disk.map Capacity.usedFraction
    diskTotalBytes := p.host.disk.map Capacity.totalBytes
    thermalMaxC := (hottest p.host.thermal).map ThermalZone.celsius }

variable (fmt : Formats) (t : Thresholds)

def pct (v : Float) : Str := fmt.fixed 0 (v * 100.0) ++ "%".toList

def poolFindings (name : Str) (p : PerfReport) : List Finding :=
  p.pools.flatMap fun pool =>
    findingIf (pool.active = 0)
      (fault name ("pool ".toList ++ pool.name ++ " has 0 of ".toList ++ u64Text pool.total ++
        " members live".toList))

def worstFirst (byName : SortedMap Str UInt64) : List (Str × UInt64) :=
  orderBy (fun e : Str × UInt64 => (toLex (OrderDual.toDual e.2.toNat, e.1) : ℕᵒᵈ ×ₗ Str))
    byName.entries

def backendErrorFindings (name : Str) (p : PerfReport) : List Finding :=
  let total := u64Text p.metrics.backendErrorsTotal
  findingIf (0 < p.metrics.backendErrorsTotal)
    (warn name
      (if p.metrics.backendErrorsByName.entries = [] then
        total ++ " backend errors since start (node too old to attribute them)".toList
      else
        total ++ " backend errors since start: ".toList ++
          ", ".toList.intercalate ((worstFirst p.metrics.backendErrorsByName).map fun e =>
            e.1 ++ ' ' :: u64Text e.2)))

def HostSnapshot.perCpu (h : HostSnapshot) (l : LoadAverage) : Float :=
  l.one / (if h.cpus = 0 then 1 else h.cpus).toFloat

def loadFindings (name : Str) (h : HostSnapshot) : List Finding :=
  match h.load with
  | some l =>
    findingIf (t.loadPerCpu ≤ h.perCpu l)
      (warn name ("load ".toList ++ fmt.fixed 2 l.one ++ " across ".toList ++ u64Text h.cpus ++
        " cpu (".toList ++ fmt.fixed 2 (h.perCpu l) ++ " per cpu)".toList))
  | none => []

def capacityFindings (name what : Str) (limit : Float) (c : Option Capacity) : List Finding :=
  match c with
  | some c =>
    findingIf (limit ≤ c.usedFraction)
      (warn name (what ++ ' ' :: pct fmt c.usedFraction ++ " used".toList))
  | none => []

def thermalFindings (name : Str) (h : HostSnapshot) : List Finding :=
  match hottest h.thermal with
  | some z =>
    findingIf (t.thermalCelsius ≤ z.celsius)
      (warn name (z.name ++ " at ".toList ++ fmt.fixed32 1 z.celsius ++ "C".toList))
  | none => []

/-- The text before the first `://`. -/
def scheme (url : Str) : Option Str :=
  match url with
  | [] => none
  | c :: rest => if "://".toList <+: url then some [] else (scheme rest).map (c :: ·)

def expectsTls (r : NodeReading) (p : PerfReport) : Bool :=
  ((scheme r.url).any fun s => Text.eqIgnoreAsciiCase s "https".toList) || !p.tls.isEmpty ||
    0 < p.tlsUnreadable

def days (secs : Int) : Int := secs.tdiv 86400

def certificateFindings (r : NodeReading) (p : PerfReport) : Except Halt (List Finding) :=
  match expectsTls r p, p.soonest TlsCertificate.expiresInSeconds with
  | true, some secs =>
    if secs.1 < 0 then do
      let ago ← checked (-secs.1)
      .ok [fault r.name ("certificate EXPIRED ".toList ++ intText (days ago.1) ++
        " days ago and is still being served".toList)]
    else
      .ok (findingIf (days secs.1 < t.certExpiryDays.1)
        (warn r.name ("certificate expires in ".toList ++ intText (days secs.1) ++
          " days, under the ".toList ++ intText t.certExpiryDays.1 ++ " day threshold".toList)))
  | true, none =>
    .ok [warn r.name ("node reports no certificate expiry, so a failed renewal ".toList ++
      "cannot be seen from here".toList)]
  | false, _ => .ok []

def nameFindings (r : NodeReading) (p : PerfReport) : List Finding :=
  match r.health with
  | some h =>
    findingIf (r.name ≠ [] ∧ h.node ≠ [] ∧ Text.eqIgnoreAsciiCase h.node r.name = false ∧
        h.node ≠ p.node)
      (warn r.name ("node calls itself ".toList ++ fmt.debug h.node))
  | none => []

def reopenFindings (name : Str) (p : PerfReport) : List Finding :=
  match t.logReopenAgeS with
  | some max => logReopenFindings name p.uptimeS p.logReopen max
  | none => []

/-- All that `/perf` gives rise to. -/
def perfFindings (r : NodeReading) (p : PerfReport) : Except Halt (List Finding) := do
  let certificate ← certificateFindings t r p
  .ok (reopenFindings t r.name p ++ poolFindings r.name p ++ backendErrorFindings r.name p ++
    loadFindings fmt t r.name p.host ++
    capacityFindings fmt r.name "memory".toList t.memoryUsed p.host.memory ++
    capacityFindings fmt r.name "disk".toList t.diskUsed p.host.disk ++
    thermalFindings fmt t r.name p.host ++ certificate ++ nameFindings fmt r p)

/-! ## One node -/

/-- What is shown of a node before its `/perf` is looked at. -/
def NodeReading.digest (r : NodeReading) : NodeDigest where
  name := r.name
  role := r.role
  url := r.url
  status := r.status
  reportedNode := r.health.map HealthReport.node
  rttMs := r.rtt.map fun d => d.asSecsF64 * 1000.0
  version := none
  binary := none
  hash := none
  uptimeS := none
  hostUptimeS := none
  requestsTotal := none
  hitRate := none
  hitP50Ns := none
  hitP99Ns := none
  hitSamples := none
  backendErrors := none
  pools := []
  loadOne := none
  cpus := none
  memoryUsed := none
  memoryTotalBytes := none
  diskUsed := none
  diskTotalBytes := none
  thermalMaxC := none
  certExpiresInSeconds := none
  certNotAfterUnix := none
  perfError := r.perfError
  tunnel := r.tunnel.map tunnelDigest
  logReopen := .unknown "no /perf reading".toList

def NodeReading.tunnelFindings (r : NodeReading) : List Finding :=
  match r.tunnel with
  | some tr => Monitor.tunnelFindings t r.name tr.keyPrefix (tunnelDigest tr)
  | none => []

def NodeReading.fileProblem (r : NodeReading) : Option Str :=
  r.tunnel.bind fun tr => Monitor.fileProblem t tr.fileAgeS (tunnelDigest tr)

def readPerf (r : NodeReading) : Except Halt (NodeDigest × List Finding) :=
  match r.perf with
  | some p => do
    let rate ← hitRate p.metrics.cacheHitsTotal p.metrics.cacheMissesTotal
    let findings ← perfFindings fmt t r p
    .ok (r.digest.withPerf p rate, findings)
  | none =>
    .ok (r.digest, findingIf (r.perfError.isSome = true)
      (warn r.name ("no /perf: ".toList ++ r.perfError.getD [] ++
        ". Health is known, everything else is not.".toList)))

def NodeReading.gone (r : NodeReading) : Finding :=
  fault r.name ("unreachable at ".toList ++ r.url ++ ": ".toList ++
    r.unreachable.getD "no reason given".toList)

def NodeReading.degraded (r : NodeReading) : List Finding :=
  findingIf (r.status = "degraded".toList)
    (fault r.name "reports degraded: a configured socket pool has no live member".toList)

def NodeReading.quiet (r : NodeReading) : List Finding :=
  match r.traffic with
  | some tr => (quietLogFindings r.name tr.logging).toList
  | none => []

/-- **What the loop over the nodes carries.** -/
structure Progress where
  findings : List Finding
  nodes : List NodeDigest
  handshakeFileProblem : Option Str

def Progress.node (s : Progress) (r : NodeReading) : Except Halt Progress := do
  let tunnel := r.tunnelFindings t
  -- the first node with a problem tells of the file
  let problem := s.handshakeFileProblem <|> r.fileProblem t
  if r.isUp then
    let (d, perf) ← readPerf fmt t r
    .ok {
      findings := s.findings ++ tunnel ++ r.degraded ++ perf ++ r.quiet
      nodes := s.nodes ++ [d]
      handshakeFileProblem := problem }
  else
    .ok {
      findings := s.findings ++ tunnel ++ [r.gone]
      nodes := s.nodes ++ [r.digest]
      handshakeFileProblem := problem }

/-! ## The fleet -/

/-- The nodes whose `/perf` was read: only these have an uptime. -/
def reporting (nodes : List NodeDigest) : List NodeDigest := nodes.filter fun n => n.uptimeS.isSome

def NodeDigest.versionText (n : NodeDigest) : Str := n.version.getD "unknown".toList

def NodeDigest.hashText (n : NodeDigest) : Str := n.hash.getD "unknown".toList

/-- `&h[..h.len().min(12)]` -/
def hashPrefix (h : Str) : Except Halt Str :=
  match Text.sliceTo h (min (Text.byteLen h) 12) with
  | some p => .ok p
  | none => .error .panic

def versionDrift (reporting : List NodeDigest) : List Finding :=
  findingIf (1 < (distinct (reporting.map NodeDigest.versionText)).length)
    (warn "fleet".toList ("m6 version drift across the fleet: ".toList ++
      ", ".toList.intercalate (reporting.map fun n => n.name ++ ' ' :: n.versionText) ++
      ".                      Requests are served by different code ".toList ++
      "depending on the region.".toList))

def buildDrift (reporting : List NodeDigest) : Except Halt (List Finding) :=
  if (distinct (reporting.map NodeDigest.versionText)).length = 1 ∧
      1 < (distinct (reporting.map NodeDigest.hashText)).length then do
    let detail ← reporting.mapM fun n => do
      let h ← hashPrefix n.hashText
      .ok (n.name ++ ' ' :: h)
    .ok [warn "fleet".toList
      ("build drift across the fleet, all reporting the same version: ".toList ++
      ", ".toList.intercalate detail ++ ". One release built more than once, ".toList ++
      "so the fleet is running different binaries from identical source. ".toList ++
      "The version cannot see this.".toList)]
  else .ok []

/-- The nodes that report a certificate: when it ends, and how long that is from now. -/
def certified (reporting : List NodeDigest) : List (Str × I64 × I64) :=
  reporting.filterMap fun n => do
    some (n.name, ← n.certNotAfterUnix, ← n.certExpiresInSeconds)

def certificateDrift (reporting : List NodeDigest) : Except Halt (List Finding) :=
  let nodes := certified reporting
  let byExpiry := groupBy (fun n : Str × I64 × I64 => n.2.1) (fun n => n.1) nodes
  if 1 < byExpiry.entries.length ∧ 1 < largest byExpiry then
    match byExpiry.entries.getLast? with
    | none => .error .panic
    | some (newest, _) =>
      let behind := (nodes.filter fun n => n.2.1 < newest).map fun n =>
        n.1 ++ ' ' :: intText (days n.2.2.1) ++ "d (notAfter ".toList ++ intText n.2.1.1 ++ [')']
      .ok [warn "fleet".toList (decimal behind.length ++
        " node(s) are behind the newest certificate on the fleet, which expires at ".toList ++
        intText newest.1 ++ ": ".toList ++ ", ".toList.intercalate behind ++
        ". A node left behind by a renewal serves a valid certificate that ".toList ++
        "expires sooner than the one that was installed, ".toList ++
        "and no per-node threshold can see it.".toList)]
  else .ok []

def fleetFindings (nodes : List NodeDigest) : Except Halt (List Finding) :=
  if 1 < (reporting nodes).length then do
    let build ← buildDrift (reporting nodes)
    let certificate ← certificateDrift (reporting nodes)
    .ok (versionDrift (reporting nodes) ++ build ++ certificate)
  else .ok []

/-! ## The digest -/

def sortFindings (findings : List Finding) : List Finding :=
  orderBy (fun f => OrderDual.toDual f.level) findings

def worst (findings : List Finding) : Level := ((findings.map Finding.level).max?).getD .ok

/-- **The digest of a poll.** -/
def build (readings : List NodeReading) (now : Str) : Except Halt Digest := do
  let s ← readings.foldlM (Progress.node fmt t) ⟨[], [], none⟩
  let fleet ← fleetFindings s.nodes
  let file := match s.handshakeFileProblem with
    | some text => [fault "monitor".toList text]
    | none => []
  let findings := sortFindings (s.findings ++ fleet ++ file)
  .ok {
    generatedAt := now
    nodes := s.nodes
    findings := findings
    level := worst findings
    thresholds := t
    handshakeFileAgeS := (readings.filterMap fun r => r.tunnel.bind TunnelReading.fileAgeS).head?
    history := none }

def Digest.addFinding (d : Digest) (f : Finding) : Digest :=
  let findings := sortFindings (d.findings ++ [f])
  { d with findings := findings, level := worst findings }

/-! ## What can be counted -/

open Failing (Yields value)

theorem addU64_yields (a b : UInt64) :
    Yields .panic (addU64 a b) (a.toNat + b.toNat < 2 ^ 64) (a + b) := by
  rw [addU64]
  exact ⟨fun h => if_pos h, fun h => if_neg h⟩

def hitRateOf (hits misses : UInt64) : Option Float :=
  if 0 < hits + misses then some (hits.toFloat / (hits + misses).toFloat) else none

theorem hitRate_yields (hits misses : UInt64) :
    Yields .panic (hitRate hits misses) (hits.toNat + misses.toNat < 2 ^ 64)
      (hitRateOf hits misses) :=
  (addU64_yields hits misses).bind_ok (by rfl)

/-- **A report that its digest can be made of**: hits and misses can be added, and the seconds left
have an opposite. -/
structure PerfReport.Countable (p : PerfReport) : Prop where
  requests : p.metrics.cacheHitsTotal.toNat + p.metrics.cacheMissesTotal.toNat < 2 ^ 64
  certificate : ∀ secs ∈ p.soonest TlsCertificate.expiresInSeconds, secs.1 ≠ -2 ^ 63

theorem expectsTls_of_soonest {p : PerfReport} {figure : TlsCertificate → I64} {secs : I64}
    (h : p.soonest figure = some secs) (r : NodeReading) : expectsTls r p = true := by
  rw [PerfReport.soonest] at h
  split_ifs at h
  cases htls : p.tls with
  | nil => simp [htls] at h
  | cons c rest => simp [expectsTls, htls]

variable {t} {fmt}

theorem certificateFindings_yields (r : NodeReading) (p : PerfReport) :
    Yields .panic (certificateFindings t r p)
      (∀ secs ∈ p.soonest TlsCertificate.expiresInSeconds, secs.1 ≠ -2 ^ 63)
      (value (certificateFindings t r p)) := by
  refine Yields.of_value ?_ ?_
  · intro hsecs
    rw [certificateFindings]
    cases expectsTls r p with
    | false => exact ⟨_, rfl⟩
    | true =>
      cases hs : p.soonest TlsCertificate.expiresInSeconds with
      | none => exact ⟨_, rfl⟩
      | some secs =>
        dsimp only
        split_ifs with hneg
        · have hmin := hsecs secs hs
          have hrange : InI64 (-secs.1) := by
            have := secs.2
            constructor <;> omega
          rw [checked_ok hrange]
          exact ⟨_, rfl⟩
        · exact ⟨_, rfl⟩
  · intro hsecs
    push Not at hsecs
    obtain ⟨secs, hs, hmin⟩ := hsecs
    have hneg : secs.1 < 0 := by omega
    have hrange : ¬ InI64 (-secs.1) := fun h => by
      have := h.2
      omega
    rw [certificateFindings, expectsTls_of_soonest hs r, Option.mem_def.mp hs]
    dsimp only
    rw [if_pos hneg, checked_panic hrange]
    rfl

variable (fmt t) in
def perfFound (r : NodeReading) (p : PerfReport) : List Finding :=
  reopenFindings t r.name p ++ poolFindings r.name p ++ backendErrorFindings r.name p ++
  loadFindings fmt t r.name p.host ++
  capacityFindings fmt r.name "memory".toList t.memoryUsed p.host.memory ++
  capacityFindings fmt r.name "disk".toList t.diskUsed p.host.disk ++
  thermalFindings fmt t r.name p.host ++ value (certificateFindings t r p) ++ nameFindings fmt r p

/-- A node whose report, if it is looked at, can be counted. -/
def NodeReading.Countable (r : NodeReading) : Prop :=
  r.isUp = true → ∀ p ∈ r.perf, p.Countable

def NodeReading.shown (r : NodeReading) : NodeDigest :=
  match r.isUp, r.perf with
  | true, some p =>
    r.digest.withPerf p (hitRateOf p.metrics.cacheHitsTotal p.metrics.cacheMissesTotal)
  | _, _ => r.digest

variable (fmt t) in
def NodeReading.perfFound (r : NodeReading) : List Finding :=
  match r.perf with
  | some p => Monitor.perfFound fmt t r p
  | none => findingIf (r.perfError.isSome = true)
      (warn r.name ("no /perf: ".toList ++ r.perfError.getD [] ++
        ". Health is known, everything else is not.".toList))

theorem readPerf_yields {r : NodeReading} (hup : r.isUp = true) :
    Yields .panic (readPerf fmt t r) (∀ p ∈ r.perf, p.Countable) (r.shown, r.perfFound fmt t) := by
  rw [readPerf, NodeReading.shown, NodeReading.perfFound, hup]
  cases r.perf with
  | none => exact (Yields.of_ok _).congr ⟨fun _ p hp => (nomatch hp), fun _ => trivial⟩
  | some p =>
    dsimp only
    have hperf : Yields .panic (perfFindings fmt t r p) _ (Monitor.perfFound fmt t r p) :=
      (certificateFindings_yields r p).bind_ok (by rfl)
    refine ((hitRate_yields _ _).bind fun _ => hperf.bind_ok (by rfl)).congr ?_
    constructor
    · rintro ⟨hrequests, hcert⟩ _ ⟨⟩
      exact ⟨hrequests, hcert⟩
    · intro h
      exact ⟨(h p rfl).requests, (h p rfl).certificate⟩

variable (fmt t) in
/-- **What is found of a node.** -/
def NodeReading.found (r : NodeReading) : List Finding :=
  r.tunnelFindings t ++
    if r.isUp then r.degraded ++ r.perfFound fmt t ++ r.quiet else [r.gone]

variable (fmt t) in
def Progress.add (s : Progress) (r : NodeReading) : Progress where
  findings := s.findings ++ r.found fmt t
  nodes := s.nodes ++ [r.shown]
  handshakeFileProblem := s.handshakeFileProblem <|> r.fileProblem t

theorem Progress.node_yields (s : Progress) (r : NodeReading) :
    Yields .panic (s.node fmt t r) r.Countable (s.add fmt t r) := by
  rw [Progress.node, Progress.add, NodeReading.found]
  cases hup : r.isUp with
  | false =>
    have hshown : r.shown = r.digest := by rw [NodeReading.shown, hup]
    rw [hshown]
    simp only [Bool.false_eq_true, if_false, ← List.append_assoc]
    exact (Yields.of_ok _).congr ⟨fun _ h => absurd (hup.symm.trans h) Bool.false_ne_true,
      fun _ => trivial⟩
  | true =>
    simp only [if_true, ← List.append_assoc]
    exact ((readPerf_yields hup).bind_ok (by rfl)).congr
      ⟨fun h _ => h, fun h => h hup⟩

theorem foldl_add (readings : List NodeReading) (s : Progress) :
    readings.foldl (Progress.add fmt t) s =
      { findings := s.findings ++ readings.flatMap (NodeReading.found fmt t)
        nodes := s.nodes ++ readings.map NodeReading.shown
        handshakeFileProblem :=
          s.handshakeFileProblem <|> readings.findSome? (NodeReading.fileProblem t) } := by
  induction readings generalizing s with
  | nil => simp
  | cons r readings ih =>
    rw [List.foldl_cons, ih]
    simp only [Progress.add, List.flatMap_cons, List.map_cons, List.append_assoc,
      List.singleton_append]
    congr 1
    rw [List.findSome?_cons]
    cases s.handshakeFileProblem <;> cases r.fileProblem t <;> rfl

/-! ## What the fleet comes to -/

def Sliceable (h : Str) : Prop := Text.isCharBoundary h (min (Text.byteLen h) 12) = true

theorem hashPrefix_yields (h : Str) : Yields .panic (hashPrefix h) (Sliceable h)
      ((Text.sliceTo h (min (Text.byteLen h) 12)).getD []) := by
  rw [hashPrefix, Sliceable, ← Text.sliceTo_isSome]
  cases Text.sliceTo h (min (Text.byteLen h) 12) with
  | none => exact (Yields.of_error _).congr ⟨False.elim, Bool.false_ne_true⟩
  | some p => exact (Yields.of_ok _).congr ⟨fun _ => rfl, fun _ => trivial⟩

/-- One release that was built more than once. -/
def DriftsInBuild (reporting : List NodeDigest) : Prop :=
  (distinct (reporting.map NodeDigest.versionText)).length = 1 ∧
    1 < (distinct (reporting.map NodeDigest.hashText)).length

theorem hash_line (n : NodeDigest) :
    Yields .panic (hashPrefix n.hashText >>= fun h => (.ok (n.name ++ ' ' :: h) : Except Halt Str))
      (Sliceable n.hashText)
      (n.name ++ ' ' :: (Text.sliceTo n.hashText (min (Text.byteLen n.hashText) 12)).getD []) :=
  (hashPrefix_yields n.hashText).bind_ok (by rfl)

theorem buildDrift_of_uniform {reporting : List NodeDigest} (h : ¬ DriftsInBuild reporting) :
    buildDrift reporting = .ok [] := if_neg h

theorem buildDrift_of_drifts {reporting : List NodeDigest} (h : DriftsInBuild reporting) :
    ∃ f, Yields .panic (buildDrift reporting) (∀ n ∈ reporting, Sliceable n.hashText) [f] := by
  have hlines := Yields.mapM hash_line reporting
  have hdrift : buildDrift reporting = _ := if_pos h
  rw [hdrift]
  exact ⟨_, hlines.bind_ok (by rfl)⟩

theorem buildDrift_yields (reporting : List NodeDigest) : Yields .panic (buildDrift reporting)
      (DriftsInBuild reporting → ∀ n ∈ reporting, Sliceable n.hashText)
      (value (buildDrift reporting)) := by
  by_cases hdrift : DriftsInBuild reporting
  · obtain ⟨f, hf⟩ := buildDrift_of_drifts hdrift
    exact Yields.of_value (fun h => ⟨_, hf.ok (h hdrift)⟩) fun h => hf.error fun hall =>
      h fun _ => hall
  · exact Yields.of_value (fun _ => ⟨[], buildDrift_of_uniform hdrift⟩) fun h =>
      absurd (fun hd => absurd hd hdrift) h

def PartlyAgree (ends : List I64) : Prop := (∃ a ∈ ends, ∃ b ∈ ends, a ≠ b) ∧ ¬ ends.Nodup

theorem certificateDrift_spec (reporting : List NodeDigest) :
    ∃ l, certificateDrift reporting = .ok l ∧
      (l = [] ↔ ¬ PartlyAgree ((certified reporting).map fun n => n.2.1)) := by
  have hagree : PartlyAgree ((certified reporting).map fun n => n.2.1) ↔
      1 < (groupBy (fun n : Str × I64 × I64 => n.2.1) (fun n => n.1)
          (certified reporting)).entries.length ∧
        1 < largest (groupBy (fun n : Str × I64 × I64 => n.2.1) (fun n => n.1)
          (certified reporting)) := by
    rw [PartlyAgree, Grouping.one_lt_largest, Grouping.one_lt_length_groupBy]
    simp only [List.mem_map, exists_exists_and_eq_and]
  rw [certificateDrift, hagree]
  dsimp only
  split_ifs with h
  · cases hlast : (groupBy (fun n : Str × I64 × I64 => n.2.1) (fun n => n.1)
        (certified reporting)).entries.getLast? with
    | none =>
      rw [List.getLast?_eq_none_iff] at hlast
      simp [hlast] at h
    | some newest => exact ⟨_, rfl, iff_of_false (List.cons_ne_nil _ _) (not_not_intro h)⟩
  · exact ⟨[], rfl, iff_of_true rfl h⟩

def FleetCountable (nodes : List NodeDigest) : Prop :=
  1 < (reporting nodes).length → DriftsInBuild (reporting nodes) →
    ∀ n ∈ reporting nodes, Sliceable n.hashText

theorem fleetFindings_yields (nodes : List NodeDigest) :
    Yields .panic (fleetFindings nodes) (FleetCountable nodes) (value (fleetFindings nodes)) := by
  obtain ⟨l, hl, -⟩ := certificateDrift_spec (reporting nodes)
  have hcert : Yields .panic (certificateDrift (reporting nodes)) True l := by
    rw [hl]
    exact Yields.of_ok l
  have hmany := (buildDrift_yields (reporting nodes)).bind
    (f := fun build => certificateDrift (reporting nodes) >>= fun certificate =>
      .ok (versionDrift (reporting nodes) ++ build ++ certificate))
    fun _ => hcert.bind_ok (by rfl)
  refine Yields.of_value ?_ ?_
  · intro h
    rw [fleetFindings]
    split_ifs with hlen
    · exact hmany.isOk_iff.mpr ⟨h hlen, trivial⟩
    · exact ⟨_, rfl⟩
  · intro h
    have hlen : 1 < (reporting nodes).length := by
      by_contra hlen
      exact h fun h' => absurd h' hlen
    rw [fleetFindings]
    rw [if_pos hlen]
    exact hmany.error fun hboth => h fun _ => hboth.1

/-! ## What a digest is -/

variable (fmt t) in
def allFound (readings : List NodeReading) : List Finding :=
  readings.flatMap (NodeReading.found fmt t) ++
    value (fleetFindings (readings.map NodeReading.shown)) ++
    match readings.findSome? (NodeReading.fileProblem t) with
    | some text => [fault "monitor".toList text]
    | none => []

variable (fmt t) in
def digestOf (readings : List NodeReading) (now : Str) : Digest where
  generatedAt := now
  nodes := readings.map NodeReading.shown
  findings := sortFindings (allFound fmt t readings)
  level := worst (sortFindings (allFound fmt t readings))
  thresholds := t
  handshakeFileAgeS := (readings.filterMap fun r => r.tunnel.bind TunnelReading.fileAgeS).head?
  history := none

/-- **A poll that a digest can be made of.** -/
structure Countable (readings : List NodeReading) : Prop where
  nodes : ∀ r ∈ readings, r.Countable
  fleet : FleetCountable (readings.map NodeReading.shown)

/-- **A poll has a digest if it can be counted**, and the process ends if it cannot. -/
theorem build_yields (readings : List NodeReading) (now : Str) :
    Yields .panic (build fmt t readings now) (Countable readings)
      (digestOf fmt t readings now) := by
  have hloop : Yields .panic (readings.foldlM (Progress.node fmt t) ⟨[], [], none⟩) _ _ :=
    Yields.foldlM Progress.node_yields readings _
  rw [foldl_add] at hloop
  refine (hloop.bind fun _ => (fleetFindings_yields _).bind_ok (by rfl)).congr ?_
  simp only [List.nil_append]
  exact ⟨fun h => ⟨h.1, h.2⟩, fun h => ⟨h.nodes, h.fleet⟩⟩

end M6.Monitor
