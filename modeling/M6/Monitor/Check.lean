import M6.Monitor.Digest

/-!
# The check, as it is printed

`render` of `check.rs`: the report of a poll, section by section. Nearly all of it only prints what
has been read. Three places compute (`channelLine?`, `runsLine`, `handshakeLines`) and end the
process where the numbers or the hash of a node do not allow it: `render_yields` says when.
-/

namespace M6.Monitor

open App (I64)

/-! ## Layout -/

/-- `{:<n}` -/
def padRight (n : Nat) (s : Str) : Str := s ++ List.replicate (n - s.length) ' '

/-- `{:>n}` -/
def padLeft (n : Nat) (s : Str) : Str := List.replicate (n - s.length) ' ' ++ s

def lines (ls : List Str) : Str := ls.flatMap fun l => l ++ ['\n']

def nodeLine (name rest : Str) : Str := "  ".toList ++ padRight 5 name ++ ' ' :: rest

/-- What stands for a figure that is not there. -/
def orDash (s : Option Str) : Str := s.getD "-".toList

def joined (parts : List Str) : Str := ", ".toList.intercalate parts

def bar : Str := List.replicate 74 '='

def fmtDur (secs : UInt64) : Str :=
  let d := secs / 86400
  let h := secs % 86400 / 3600
  if 0 < d then u64Text d ++ 'd' :: u64Text h ++ ['h'] else u64Text h ++ ['h']

def fmtCertExpiry (secs : I64) : Except Halt Str :=
  if secs.1 < 0 then do
    let ago ← checked (-secs.1)
    .ok ("EXPIRED ".toList ++ intText (days ago.1) ++ "d ago".toList)
  else .ok (intText (days secs.1) ++ ['d'])

/-! ## A. Logging -/

def loggingLine (r : NodeReading) : Str :=
  nodeLine r.name (match r.traffic, r.trafficError with
    | some tr, _ =>
      match quietLogText tr.logging with
      | some text => "FAULT  ".toList ++ text
      | none => "ok     last event ".toList ++ u64Text (tr.logging.secondsSinceLast.getD 0) ++
        "s ago, ".toList ++ u64Text tr.logging.eventsTotal ++ " since start".toList
    | none, some e => "unknown  ".toList ++ e
    | none, none =>
      "unknown  ".toList ++ r.unreachable.getD "no traffic summary and no reason given".toList)

def reopenLimitLine (limit : Option UInt64) : Str :=
  "  log file reopen (rotation renames the file and signals): ".toList ++
    match limit with
    | some max => "limit ".toList ++ u64Text max ++ ['s']
    | none => "no limit configured, shown and not judged".toList

def reopenLine (n : NodeDigest) : Str :=
  let l := n.logReopen
  nodeLine n.name (match l.state with
    | .ok => "reopened ".toList ++ u64Text (l.ageS.getD 0) ++ "s ago, ".toList ++
      u64Text (l.reopens.getD 0) ++ " since start".toList ++
      (if 0 < l.failures.getD 0 then ", ".toList ++ u64Text (l.failures.getD 0) ++ " failed".toList
      else [])
    | .never => "never reopened since start (up ".toList ++ orDash (n.uptimeS.map u64Text) ++
      "s)".toList
    | .noLogFile => "writes no log file".toList
    | .unknown => "unknown  ".toList ++ l.detail.getD [])

def loggingSection (d : Digest) (readings : List NodeReading) : List Str :=
  "\nA. LOGGING".toList :: readings.map loggingLine ++
    reopenLimitLine d.thresholds.logReopenAgeS :: d.nodes.map reopenLine

/-! ## B. Performance -/

variable (fmt : Formats)

def columns (name requests rate p50 p99 samples errors : Str) : Str :=
  nodeLine name (padLeft 9 requests ++ ' ' :: padLeft 8 rate ++ ' ' :: padLeft 10 p50 ++
    ' ' :: padLeft 10 p99 ++ ' ' :: padLeft 8 samples ++ ' ' :: padLeft 8 errors)

def ns (v : UInt64) : Str := u64Text v ++ "ns".toList

def performanceLine (n : NodeDigest) : Str :=
  columns n.name (orDash (n.requestsTotal.map u64Text)) (orDash (n.hitRate.map (fmt.fixed 4)))
    (orDash (n.hitP50Ns.map ns)) (orDash (n.hitP99Ns.map ns)) (orDash (n.hitSamples.map u64Text))
    (orDash (n.backendErrors.map u64Text))

def channelNote (channel : Str) : Str :=
  if channel = "http/2/external".toList then "  <- visitors".toList
  else if channel = "http/2/internal".toList then "  (backbone: majority-miss by design)".toList
  else if channel = "http/1.1/external".toList then "  (scanners)".toList
  else []

def channelLine? (name : Str) (c : ChannelSnapshot) : Except Halt (List Str) := do
  let total ← addU64 c.hits c.misses
  .ok (if total = 0 then []
    else [nodeLine name (padRight 20 c.channel ++ " hits ".toList ++ padLeft 6 (u64Text c.hits) ++
      "  misses ".toList ++ padLeft 6 (u64Text c.misses) ++ "  rate ".toList ++
      fmt.fixed 4 (c.hits.toFloat / total.toFloat) ++ "  n ".toList ++
      padLeft 5 (u64Text c.hitSamples) ++ channelNote c.channel)])

def NodeReading.channels (r : NodeReading) : List (Str × ChannelSnapshot) :=
  match r.perf with
  | some p => p.metrics.channels.map fun c => (r.name, c)
  | none => []

def allChannels (readings : List NodeReading) : List (Str × ChannelSnapshot) :=
  readings.flatMap NodeReading.channels

def channelSection (readings : List NodeReading) : Except Halt (List Str) := do
  let shown ← (allChannels readings).mapM fun e => channelLine? fmt e.1 e.2
  .ok (if allChannels readings = [] then []
    else "\n  per channel (the aggregate above mixes these)".toList :: shown.flatten)

def rttLine (n : NodeDigest) : Str :=
  nodeLine n.name ("rtt ".toList ++
    orDash (n.rttMs.map fun v => fmt.fixed 1 v ++ "ms".toList))

def performanceSection (d : Digest) (readings : List NodeReading) : Except Halt (List Str) := do
  let channels ← channelSection fmt readings
  .ok ("\nB. PERFORMANCE  (observed; this tool generates no traffic)".toList ::
    columns "node".toList "requests".toList "hit rate".toList "hit p50".toList "hit p99".toList
      "samples".toList "errors".toList :: d.nodes.map (performanceLine fmt) ++ channels ++
    ("\n  rtt is from this host, connect and TLS included, and is NOT the\n  ".toList ++
      "node's own latency. Do not compare it with an on-box loopback figure.".toList) ::
    d.nodes.map (rttLine fmt))

/-! ## C. Host -/

def hostLine (n : NodeDigest) : Str :=
  nodeLine n.name ("load ".toList ++ padRight 10 (match n.loadOne, n.cpus with
      | some l, some c => fmt.fixed 2 l ++ '/' :: u64Text c ++ "cpu".toList
      | _, _ => "-".toList) ++
    " mem ".toList ++ padRight 6 (orDash (n.memoryUsed.map (pct fmt))) ++
    " disk ".toList ++ padRight 6 (orDash (n.diskUsed.map (pct fmt))) ++
    " temp ".toList ++ padRight 6 (orDash (n.thermalMaxC.map fun c => fmt.fixed32 0 c ++ ['C'])) ++
    " svc up ".toList ++ orDash (n.uptimeS.map fmtDur))

def runsLine (n : NodeDigest) : Except Halt Str := do
  let build ← n.hash.mapM hashPrefix
  let cert ← n.certExpiresInSeconds.mapM fmtCertExpiry
  .ok ("        ".toList ++ n.binary.getD "m6".toList ++
    ' ' :: n.version.getD "unknown (node too old to report it)".toList ++
    " build ".toList ++ build.getD "unknown".toList ++ " cert ".toList ++ orDash cert)

def hostSection (d : Digest) : Except Halt (List Str) := do
  let runs ← d.nodes.mapM fun n => do
    let line ← runsLine n
    .ok [hostLine fmt n, line]
  .ok ("\nC. HOST".toList :: runs.flatten)

/-! ## D. Security and traffic -/

/-- `{:?}` of the counts by status code. -/
def statusCounts (status : SortedMap (Fin (2 ^ 16)) UInt64) : Str :=
  "\x7b".toList ++ joined (status.entries.map fun e =>
    decimal e.1.val ++ ": ".toList ++ u64Text e.2) ++ "\x7d".toList

def hitterLine (h : HeavyHitter) : Str :=
  "        top: ".toList ++ h.ip ++ " x".toList ++ u64Text h.requests ++ ' ' :: h.topPath ++
    " (".toList ++ pct fmt h.errorRatio ++ " refused, ".toList ++ u64Text h.distinctUserAgents ++
    " UA)".toList

def userAgentsKept : Nat := 4

def agentLines (c : NotableClient) : List Str :=
  if c.userAgents = [] then []
  else
    let shown := min c.userAgents.length userAgentsKept
    (if shown < c.distinctUserAgents.toNat then
      "        agents (".toList ++ decimal shown ++ " of ".toList ++
        u64Text c.distinctUserAgents ++ "):".toList
    else "        agents:".toList) ::
    (c.userAgents.take shown).map fun ua =>
      "          ".toList ++ if ua = [] then "<none sent>".toList else ua

def notableLines (name : Str) (c : NotableClient) : List Str :=
  nodeLine name ("NOTABLE ".toList ++ c.ip ++ " x".toList ++ u64Text c.requests ++
      ' ' :: (Text.slice c.firstSeen 11 19).getD [] ++ "..".toList ++
      (Text.slice c.lastSeen 11 19).getD []) ::
    (if c.rotatingUserAgents then
      ["        ".toList ++ u64Text c.distinctUserAgents ++
        " distinct user agents (rotating)".toList]
    else []) ++
    agentLines c ++
    (c.probePaths.take 8).map (fun p => "        probe ".toList ++ p) ++
    (c.injectionPaths.take 4).map fun p => "        INJECTION ".toList ++ p

def firewallLines (name : Str) (firewall : Option FirewallState) : List Str :=
  match firewall with
  | some fw =>
    nodeLine name ("firewall: ".toList ++ decimal fw.blocks.length ++ " block(s) of ".toList ++
        u64Text fw.totalRules ++ " rules, ".toList ++ decimal fw.active.length ++
        " still being hit".toList) ::
      (fw.active.take 5).map fun b => "        hit ".toList ++ b.address ++ ' ' ::
        u64Text b.packets ++ " packets ".toList ++ u64Text b.bytes ++ " bytes".toList
  | none =>
    [nodeLine name "firewall: no data (collector not installed on this node)".toList]

def trafficLines (r : NodeReading) : List Str :=
  match r.traffic with
  | none => []
  | some tr =>
    nodeLine r.name (u64Text tr.totalRequests ++ " requests in ".toList ++
        u64Text tr.windowMinutes ++ "m, status ".toList ++ statusCounts tr.status) ::
      (tr.heavyHitters.take 3).map (hitterLine fmt) ++
      tr.notable.flatMap (notableLines r.name) ++
      (if tr.probeNoise = [] then []
      else [nodeLine r.name ("single refused probes (noise, not escalated): ".toList ++
        joined tr.probeNoise)]) ++
      firewallLines r.name tr.firewall

def securitySection (readings : List NodeReading) : List Str :=
  "\nD. SECURITY AND TRAFFIC".toList :: readings.flatMap (trafficLines fmt)

/-! ## F. Cache headers -/

def headerFault (name : Str) (c : HeaderCheckResult) : Option (Str × Str) :=
  if c.passed then none
  else match c.error with
    | some e =>
      let text := c.path ++ " could not be fetched: ".toList ++ e
      some (text, name ++ ": ".toList ++ text)
    | none =>
      let got := c.actual.getD "<header absent>".toList
      let code := match c.status with
        | some code => " (HTTP ".toList ++ decimal code.val ++ [')']
        | none => []
      let text := c.path ++ ' ' :: c.header ++ " is ".toList ++ fmt.debug got ++
        ", expected ".toList ++ fmt.debug c.expected
      some (text ++ code, name ++ ": ".toList ++ text)

def headerLine (name : Str) (c : HeaderCheckResult) : Str :=
  nodeLine name (match headerFault fmt name c with
    | none => "ok     ".toList ++ c.path ++ ' ' :: c.header
    | some fault => "FAULT  ".toList ++ fault.1)

def headerSection (readings : List NodeReading) : List Str :=
  "\nF. CACHE HEADERS".toList ::
    if readings.any fun r => !r.headerChecks.isEmpty then
      readings.flatMap fun r => r.headerChecks.map (headerLine fmt r.name)
    else
      ["  none declared. Add [[monitor.header_check]] entries to the fleet config.".toList]

def headerFaults (readings : List NodeReading) : List Str :=
  readings.flatMap fun r => (r.headerChecks.filterMap (headerFault fmt r.name)).map Prod.snd

/-! ## E. Crawlers -/

def crawlerLines (name : Str) (c : CrawlerReport) : List Str :=
  let more := if 3 < c.clientIps.length then
      " (+".toList ++ decimal (c.clientIps.length - 3) ++ " more)".toList
    else []
  [nodeLine name (padLeft 4 (u64Text c.requests) ++ "  ".toList ++ joined (c.clientIps.take 3) ++
      more), "        UA: ".toList ++ c.userAgent, "        paths: ".toList ++ joined c.paths]

def crawlLines (r : NodeReading) : List Str :=
  match r.traffic with
  | none => []
  | some tr =>
    (if 0 < tr.forgedBotRequests then
      [nodeLine r.name (u64Text tr.forgedBotRequests ++
        " bot-shaped requests were FORGED by ".toList ++ joined tr.forgers ++
        " and are excluded".toList)]
    else []) ++
    if tr.crawlers = [] then [nodeLine r.name "no genuine crawler traffic in the window".toList]
    else tr.crawlers.flatMap (crawlerLines r.name)

def NodeReading.crawled (r : NodeReading) : Bool :=
  r.traffic.any fun tr => !tr.crawlers.isEmpty

def crawlerSection (readings : List NodeReading) : List Str :=
  "\nE. CRAWLERS  (reported every run, even a quiet one)".toList ::
    readings.flatMap crawlLines ++
    if readings.any NodeReading.crawled then [] else ["  (none seen on any node)".toList]

/-! ## G. Connection setup -/

def ms (ns : UInt64) : Str := padLeft 7 (fmt.fixed 2 (ns.toFloat / 1000000.0)) ++ "ms".toList

def handshakeKindLine (label : Str) (h : HandshakeStats) : Str :=
  "        ".toList ++ padRight 8 label ++
    if h.total = 0 then " none".toList
    else " last ".toList ++ padLeft 5 (u64Text h.samples) ++ "  p50 ".toList ++ ms fmt h.p50Ns ++
      "  p99 ".toList ++ ms fmt h.p99Ns ++ "   all ".toList ++ padLeft 7 (u64Text h.total) ++
      "  mean ".toList ++ ms fmt h.meanNs ++ "  min ".toList ++ ms fmt h.minNs ++
      "  max ".toList ++ ms fmt h.maxNs

def handshakeLines (name : Str) (c : ChannelSnapshot) : Except Halt (List Str) :=
  if c.handshakeFull.total = 0 ∧ c.handshakeResumed.total = 0 then .ok []
  else do
    let tot ← addU64 c.handshakeFull.total c.handshakeResumed.total
    .ok [nodeLine name (padRight 20 c.channel ++ ' ' :: u64Text tot ++ " handshakes, ".toList ++
        fmt.fixed 0 (100.0 * c.handshakeResumed.total.toFloat / tot.toFloat) ++ "% resumed".toList),
      handshakeKindLine fmt "full".toList c.handshakeFull,
      handshakeKindLine fmt "resumed".toList c.handshakeResumed]

def setupSection (readings : List NodeReading) : Except Halt (List Str) := do
  let shown ← (allChannels readings).mapM fun e => handshakeLines fmt e.1 e.2
  .ok ("\nG. CONNECTION SETUP".toList ::
    if (allChannels readings).any fun e =>
        0 < e.2.handshakeFull.total || 0 < e.2.handshakeResumed.total then
      shown.flatten ++ ["  h1/h2 exclude the TCP round trip; h3 includes its equivalent. ".toList ++
        "Do not compare them.".toList]
    else
      ["  no handshakes recorded. A node running m6-http 1.0.0 does not report them.".toList])

/-! ## H. Tunnels -/

def TunnelDigest.rttText (t : TunnelDigest) : Str :=
  match t.rttMs with
  | some least => "rtt ".toList ++ fmt.fixed 2 least ++ "ms (n ".toList ++
    decimal t.rttSamplesMs.length ++ ", ".toList ++ t.probe.asStr ++ [')']
  | none => "rtt -  (".toList ++ t.probe.asStr ++ ": ".toList ++
    t.probeError.getD "no samples".toList ++ [')']

def TunnelDigest.handshakeText (t : TunnelDigest) : Str :=
  match t.handshake with
  | .ok =>
    match t.handshakeAgeS with
    | some age => u64Text age ++ "s ago".toList
    | none => "ok".toList
  | .never => "never".toList
  | .peerAbsent => "peer not on this host's interface".toList
  | .noPublicKey => "unknown (no public_key)".toList
  | .noHandshakesFile => "unknown (no wg_handshakes_file)".toList
  | .unknown => "unknown (".toList ++ orDash t.handshakeDetail ++ [')']
  | .fileMissing => "file missing".toList
  | .fileError => "file unreadable".toList
  | .fileStale => "unknown (handshakes file is stale)".toList

def tunnelLine (n : NodeDigest) : Str :=
  nodeLine n.name (match n.tunnel with
    | none => "no tunnel configured".toList
    | some t => t.address ++ "  ".toList ++ t.rttText fmt ++ "  handshake ".toList ++
      t.handshakeText)

/-- What the tunnel's interface refused to carry. -/
def dropLines (n : NodeDigest) (r : NodeReading) : List Str :=
  match r.perf with
  | none => []
  | some p => (p.host.net.filter fun dev => "wg".toList <+: dev.name).map fun dev =>
    nodeLine n.name (dev.name ++ " drops rx ".toList ++ u64Text dev.rxDrop ++ " tx ".toList ++
      u64Text dev.txDrop ++ " (errors rx ".toList ++ u64Text dev.rxErrs ++ " tx ".toList ++
      u64Text dev.txErrs ++ [')'])

def tunnelSection (d : Digest) (readings : List NodeReading) : List Str :=
  ("\nH. TUNNELS  (TCP connect from this host to each tunnel address; ".toList ++
      "no request is sent)".toList) ::
    (if d.nodes.all fun n => n.tunnel.isNone then
      ["  none configured. Add tunnel = \x7b address = \"ip:port\", ".toList ++
        "public_key = \"...\" \x7d to a [[monitor.nodes]] entry.".toList]
    else
      (match d.handshakeFileAgeS with
        | some age => ["  handshake file written ".toList ++ u64Text age ++ "s ago".toList]
        | none => []) ++
      d.nodes.map (tunnelLine fmt) ++
      ((d.nodes.zip readings).flatMap fun e => dropLines e.1 e.2)) ++
    ["  The rtt is the tunnel path from this host, unlike section B's HTTPS rtt.\n  ".toList ++
      "It is not the node's own latency.".toList]

/-! ## I. History -/

def megabytes (b : Option UInt64) : Str :=
  orDash (b.map fun b => fmt.fixed 1 (b.toFloat / 1048576.0))

def historySection (h : Option HistoryDigest) : List Str :=
  "\nI. HISTORY  (one row per node per poll, in SQLite)".toList ::
    match h with
    | none => ["  not kept by --check; the running service keeps it".toList]
    | some h =>
      if h.state = "off".toList then
        ["  off. Set [monitor] history_file to keep one.".toList]
      else
        ["  file ".toList ++ orDash h.file,
          "  ".toList ++ megabytes fmt h.usedBytes ++ " MB used of the ".toList ++
            megabytes fmt h.maxBytes ++ " MB cap (file ".toList ++ megabytes fmt h.fileBytes ++
            " MB); oldest ".toList ++ orDash h.oldestAt ++ ", newest ".toList ++ orDash h.newestAt,
          "  ".toList ++ u64Text h.writes ++ " polls and ".toList ++ u64Text h.crawlWindows ++
            " crawler windows written, last ".toList ++ orDash (h.lastWriteAgeS.map u64Text) ++
            "s ago; ".toList ++ u64Text h.pruned ++ " pruned at the cap; ".toList ++
            u64Text h.dropped ++ " dropped; ".toList ++ u64Text h.failures ++ " failed".toList] ++
        match h.lastError with
        | some e => ["  last error: ".toList ++ e]
        | none => []

/-! ## The verdict -/

def listed (heading : Str) (items : List Str) : List Str :=
  if items = [] then []
  else (heading ++ " (".toList ++ decimal items.length ++ [')']) ::
    items.map fun i => "  - ".toList ++ i

def Digest.at_ (d : Digest) (level : Level) : List Str :=
  (d.findings.filter fun f => f.level = level).map fun f => f.node ++ ": ".toList ++ f.text

def verdict (d : Digest) (readings : List NodeReading) : List Str :=
  let faults := d.at_ .fault
  let warns := d.at_ .warn
  let headers := headerFaults fmt readings
  ('\n' :: bar) :: listed "FAULTS".toList faults ++ listed "WARNINGS".toList warns ++
    listed "CACHE HEADER FAULTS".toList headers ++
    (if faults = [] ∧ warns = [] ∧ headers = [] then
      ["ALL CLEAR on all ".toList ++ decimal d.nodes.length ++ " nodes.".toList]
    else []) ++
    [bar]

/-! ## The report -/

/-- **The check as text.** -/
def render (d : Digest) (readings : List NodeReading) : Except Halt Str := do
  let performance ← performanceSection fmt d readings
  let host ← hostSection fmt d
  let setup ← setupSection fmt readings
  .ok (lines (['\n' :: bar, "m6 fleet health check   ".toList ++ d.generatedAt ++ "   ".toList ++
        decimal d.nodes.length ++ " node(s)".toList, bar] ++
      loggingSection d readings ++ performance ++ host ++ securitySection fmt readings ++
      headerSection fmt readings ++ crawlerSection readings ++ setup ++
      tunnelSection fmt d readings ++ historySection fmt d.history ++ verdict fmt d readings))

/-! ## What can be printed -/

open Failing (Yields value)

variable {fmt}

theorem fmtCertExpiry_yields (secs : I64) :
    Yields .panic (fmtCertExpiry secs) (secs.1 ≠ -2 ^ 63) (value (fmtCertExpiry secs)) := by
  refine Yields.of_value ?_ ?_
  · intro hmin
    rw [fmtCertExpiry]
    split_ifs with hneg
    · have hrange : InI64 (-secs.1) := by
        have := secs.2
        constructor <;> omega
      rw [checked_ok hrange]
      exact ⟨_, rfl⟩
    · exact ⟨_, rfl⟩
  · intro hmin
    have hneg : secs.1 < 0 := by omega
    have hrange : ¬ InI64 (-secs.1) := fun h => by
      have := h.2
      omega
    rw [fmtCertExpiry, if_pos hneg, checked_panic hrange]
    rfl

/-- **A node whose line can be printed**: its hash can be cut, and its seconds have an opposite. -/
structure RunsFit (n : NodeDigest) : Prop where
  hash : ∀ h ∈ n.hash, Sliceable h
  certificate : ∀ secs ∈ n.certExpiresInSeconds, secs.1 ≠ -2 ^ 63

theorem runsLine_yields (n : NodeDigest) :
    Yields .panic (runsLine n) (RunsFit n) (value (runsLine n)) := by
  have hline : ∃ text, Yields .panic (runsLine n) (RunsFit n) text :=
    ⟨_, ((Yields.option_mapM hashPrefix_yields n.hash).bind fun _ =>
      (Yields.option_mapM fmtCertExpiry_yields n.certExpiresInSeconds).bind_ok (by rfl)).congr
        ⟨fun h => ⟨h.1, h.2⟩, fun h => ⟨h.hash, h.certificate⟩⟩⟩
  obtain ⟨text, htext⟩ := hline
  exact Yields.of_value (fun h => ⟨text, htext.ok h⟩) htext.error

/-- **A channel whose lines can be printed**: what is counted can be added. -/
structure ChannelFits (c : ChannelSnapshot) : Prop where
  requests : c.hits.toNat + c.misses.toNat < 2 ^ 64
  handshakes : c.handshakeFull.total.toNat + c.handshakeResumed.total.toNat < 2 ^ 64

theorem channelLine?_yields (e : Str × ChannelSnapshot) :
    Yields .panic (channelLine? fmt e.1 e.2) (e.2.hits.toNat + e.2.misses.toNat < 2 ^ 64)
      (value (channelLine? fmt e.1 e.2)) := by
  have hadd := addU64_yields e.2.hits e.2.misses
  refine Yields.of_value (fun h => ?_) fun h => ?_
  · rw [channelLine?, hadd.ok h]
    exact ⟨_, rfl⟩
  · rw [channelLine?, hadd.error h]
    rfl

theorem handshakeLines_yields (e : Str × ChannelSnapshot) :
    Yields .panic (handshakeLines fmt e.1 e.2)
      (e.2.handshakeFull.total.toNat + e.2.handshakeResumed.total.toNat < 2 ^ 64)
      (value (handshakeLines fmt e.1 e.2)) := by
  have hadd := addU64_yields e.2.handshakeFull.total e.2.handshakeResumed.total
  refine Yields.of_value (fun h => ?_) fun h => ?_
  · rw [handshakeLines, hadd.ok h]
    split_ifs <;> exact ⟨_, rfl⟩
  · rw [handshakeLines, hadd.error h, if_neg]
    · rfl
    · -- where there are none, there is nothing to overflow
      rintro ⟨hfull, hresumed⟩
      rw [hfull, hresumed] at h
      exact h (by decide)

/-- What is printed of what can be. -/
structure Printable (d : Digest) (readings : List NodeReading) : Prop where
  nodes : ∀ n ∈ d.nodes, RunsFit n
  channels : ∀ e ∈ allChannels readings, ChannelFits e.2

/-- **A report can be printed if every line can be**, and the process ends if one cannot. -/
theorem render_yields (d : Digest) (readings : List NodeReading) :
    Yields .panic (render fmt d readings) (Printable d readings)
      (value (render fmt d readings)) := by
  have hchannels : Yields .panic
      ((allChannels readings).mapM fun e => channelLine? fmt e.1 e.2) _ _ :=
    Yields.mapM channelLine?_yields _
  have hsetup : Yields .panic
      ((allChannels readings).mapM fun e => handshakeLines fmt e.1 e.2) _ _ :=
    Yields.mapM handshakeLines_yields _
  have hnode : ∀ n : NodeDigest, Yields .panic
      (runsLine n >>= fun line => (.ok [hostLine fmt n, line] : Except Halt (List Str)))
      (RunsFit n) [hostLine fmt n, value (runsLine n)] :=
    fun n => (runsLine_yields n).bind_ok (by rfl)
  have hhost := Yields.mapM hnode d.nodes
  have htext : ∃ text, Yields .panic (render fmt d readings) _ text :=
    ⟨_, ((hchannels.bind_ok (by rfl)).bind_ok (by rfl)).bind fun _ =>
      (hhost.bind_ok (by rfl)).bind fun _ => (hsetup.bind_ok (by rfl)).bind_ok (by rfl)⟩
  obtain ⟨text, htext⟩ := htext
  have hall := htext.congr (q := Printable d readings)
    ⟨fun h => ⟨h.2.1, fun e he => ⟨h.1 e he, h.2.2 e he⟩⟩,
      fun h => ⟨fun e he => (h.channels e he).requests, h.nodes,
        fun e he => (h.channels e he).handshakes⟩⟩
  exact Yields.of_value (fun h => ⟨text, hall.ok h⟩) hall.error

end M6.Monitor
