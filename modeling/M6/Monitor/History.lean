import Mathlib.Data.List.Dedup
import M6.Lib.Select
import M6.Monitor.Ndjson

/-!
# The history of the monitor

The tables of `history.rs` and the two pages that are read from them: `health_page`, a row for each
node of each poll, and `crawl_page`. A page is one query for its rows, and one for the children of
all of them, which are then handed out to the rows by id.

`healthRow` and `crawlRow` say what one row comes to on its own. `healthPage_eq` and `crawlPage_eq`
say that a page is that, row by row. Arithmetic is checked, and an overflow ends the process
(`Halt.panic`): `healthRow_readable` says when there is none.
-/

namespace M6.Monitor

open List

open App (I64)
open Paging Select

/-! ## Tables -/

/-- What a poll has found out about a node, as far as it is copied from one place to the other. -/
structure Figures where
  rttMs : Option Float
  uptimeS : Option I64
  hostUptimeS : Option I64
  requestsTotal : Option I64
  monitorRequests : Option I64
  cacheHits : Option I64
  cacheMisses : Option I64
  backendErrors : Option I64
  hitSamples : Option I64
  hitP50Ns : Option I64
  hitP99Ns : Option I64
  missSamples : Option I64
  missP50Ns : Option I64
  missP99Ns : Option I64
  loadOne : Option Float
  cpus : Option I64
  memoryUsed : Option Float
  memoryTotalBytes : Option I64
  diskUsed : Option Float
  diskTotalBytes : Option I64
  thermalMaxC : Option Float
  certNotAfterUnix : Option I64

/-- Nothing is known of the node. -/
def noFigures : Figures :=
  ⟨none, none, none, none, none, none, none, none, none, none, none, none, none, none, none, none,
    none, none, none, none, none, none⟩

/-- A row of `health`. -/
structure Health extends Figures where
  id : I64
  pollId : I64
  atMs : I64
  nodeId : I64
  level : I64
  reachable : Bool
  status : Str
  detail : Option Str
  trafficError : Option Str
  buildId : Option I64
  tunnelRttMs : Option Float
  tunnelRttN : Option I64
  tunnelProbe : Option Str
  tunnelProbeError : Option Str
  tunnelHandshake : Option Str
  tunnelHandshakeAgeS : Option I64
  tunnelHandshakeDetail : Option Str
  reopenState : Option Str
  reopenAgeS : Option I64
  reopenLastUnix : Option I64
  reopenReopens : Option I64
  reopenFailures : Option I64
  reopenLastFailureAgeS : Option I64
  reopenDetail : Option Str

/-- A row of `poll`. -/
structure Poll where
  id : I64
  atMs : I64
  level : I64
  faults : I64
  warns : I64

/-- A row of `poll_finding`. -/
structure PollFinding where
  id : I64
  pollId : I64
  level : I64
  node : Str
  polled : Bool
  text : Str

structure ChannelFigures where
  requests : I64
  hits : I64
  misses : I64
  backendErrors : I64
  hitSamples : I64
  hitP50Ns : Option I64
  hitP99Ns : Option I64
  missSamples : I64
  missP50Ns : Option I64
  missP99Ns : Option I64

/-- A row of `health_channel`. -/
structure HealthChannel extends ChannelFigures where
  healthId : I64
  channelId : I64

structure NetFigures where
  rxBytes : I64
  rxErrs : I64
  rxDrop : I64
  txBytes : I64
  txErrs : I64
  txDrop : I64

/-- A row of `health_net`. -/
structure HealthNet extends NetFigures where
  healthId : I64
  ifaceId : I64

/-- A row of `crawl_window`. -/
structure CrawlWindow where
  id : I64
  pollId : I64
  atMs : I64
  nodeId : I64
  windowMinutes : I64
  totalRequests : I64
  forgedBotRequests : I64
  forgers : Str
  sightingsDropped : I64

/-- A row of `crawl_sighting`. -/
structure CrawlSighting where
  windowId : I64
  agentId : I64
  requests : I64
  clientIps : Str
  paths : Str

/-- A row of `crawl_status`. -/
structure CrawlStatus where
  windowId : I64
  code : I64
  requests : I64

/-- The tables. Those that give names to ids are lists of both. -/
structure Tables where
  node : List (I64 × Str)
  channel : List (I64 × Str)
  iface : List (I64 × Str)
  agent : List (I64 × Str)
  build : List (I64 × Str × Str × Str)
  poll : List Poll
  pollFinding : List PollFinding
  health : List Health
  healthChannel : List HealthChannel
  healthNet : List HealthNet
  crawlWindow : List CrawlWindow
  crawlSighting : List CrawlSighting
  crawlStatus : List CrawlStatus

/-- What the schema keeps: ids are there once, and what is referred to is there. -/
structure Schema (t : Tables) : Prop where
  health_ids : (t.health.map Health.id).Nodup
  window_ids : (t.crawlWindow.map CrawlWindow.id).Nodup
  health_node : ∀ h ∈ t.health, (named t.node h.nodeId).isSome = true
  health_poll : ∀ h ∈ t.health, (t.poll.find? fun p => p.id = h.pollId).isSome = true
  channel_named : ∀ c ∈ t.healthChannel, (named t.channel c.channelId).isSome = true
  iface_named : ∀ n ∈ t.healthNet, (named t.iface n.ifaceId).isSome = true
  window_node : ∀ w ∈ t.crawlWindow, (named t.node w.nodeId).isSome = true
  agent_named : ∀ s ∈ t.crawlSighting, (named t.agent s.agentId).isSome = true

/-- **A database**: tables that keep the schema, with times and ids that are not negative. -/
structure Database extends Tables where
  schema : Schema toTables
  health_nonneg : ∀ h ∈ health, 0 ≤ h.atMs.1 ∧ 0 ≤ h.id.1
  window_nonneg : ∀ w ∈ crawlWindow, 0 ≤ w.atMs.1 ∧ 0 ≤ w.id.1

/-! ## Checked arithmetic -/

def checked (i : Int) : Except Halt I64 :=
  match toI64 i with
  | some v => .ok v
  | none => .error .panic

abbrev InI64 (i : Int) : Prop := -2 ^ 63 ≤ i ∧ i < 2 ^ 63

def rate (hits misses : Option I64) : Except Halt (Option Float) :=
  match hits, misses with
  | some h, some m => do
    let sum ← checked (h.1 + m.1)
    .ok (if 0 < sum.1 then some (Float.ofInt h.1 / Float.ofInt sum.1) else none)
  | _, _ => .ok none

/-! ## What is read -/

structure TunnelOut where
  rttMs : Option Float
  rttN : Option I64
  probe : Str
  probeError : Option Str
  handshake : Option Str
  handshakeAgeS : Option I64
  handshakeDetail : Option Str

structure ReopenRow where
  state : Str
  ageS : Option I64
  lastUnix : Option I64
  reopens : Option I64
  failures : Option I64
  lastFailureAgeS : Option I64
  detail : Option Str

structure ChannelOut extends ChannelFigures where
  channel : Str
  hitRate : Option Float

structure NetRow extends NetFigures where
  iface : Str

structure FindingOut where
  level : I64
  node : Str
  text : Str

/-- A line of `/history`. -/
structure PageRow extends Figures where
  id : I64
  at_ : I64
  atUnixMs : I64
  node : Str
  level : I64
  pollLevel : I64
  reachable : Bool
  status : Str
  detail : Option Str
  trafficError : Option Str
  binary : Option Str
  version : Option Str
  hash : Option Str
  hitRate : Option Float
  certExpiresInS : Option I64
  tunnel : Option TunnelOut
  logReopen : Option ReopenRow
  net : List NetRow
  channels : List ChannelOut
  findings : List FindingOut
  otherFindings : List FindingOut
  pollId : I64

def PageRow.key (r : PageRow) : Key := toLex (r.atUnixMs, r.id)

/-! ## Selection -/

/-- A range of time, and the node that is asked for. -/
structure Query where
  fromMs : I64
  toMs : I64
  node : Option I64

def Query.isIn (q : Query) (k : Key) (node : I64) : Bool :=
  q.fromMs ≤ (ofLex k).1 && (ofLex k).1 < q.toMs && q.node.all fun n => n = node

/-- Whether a row comes at the cursor or behind it. -/
def isAfter (after : Option Key) (k : Key) : Bool :=
  after.all fun a => (ofLex a).1 < (ofLex k).1 ||
    ((ofLex k).1 = (ofLex a).1 && (ofLex a).2 ≤ (ofLex k).2)

/-- A health row, with the names of what it refers to. -/
structure HealthJoin where
  h : Health
  node : Str
  pollLevel : I64
  build : Option (Str × Str × Str)

def HealthJoin.key (j : HealthJoin) : Key := toLex (j.h.atMs, j.h.id)

def Tables.joinHealth (t : Tables) (h : Health) : Option HealthJoin := do
  let node ← named t.node h.nodeId
  let poll ← t.poll.find? fun p => p.id = h.pollId
  some ⟨h, node, poll.level, h.buildId.bind (named t.build)⟩

def healthSelect (t : Tables) (q : Query) (after : Option Key) (limit : Nat) : List HealthJoin :=
  (orderBy HealthJoin.key ((t.health.filterMap t.joinHealth).filter fun j =>
    q.isIn j.key j.h.nodeId && isAfter after j.key)).take limit

def noneIfEmpty (s : Option Str) : Option Str := s.filter fun s => s ≠ []

def HealthJoin.row (j : HealthJoin) (hitRate : Option Float) (certExpiresInS : Option I64) :
    PageRow :=
  { toFigures := j.h.toFigures
    id := j.h.id
    at_ := j.h.atMs
    atUnixMs := j.h.atMs
    node := j.node
    level := j.h.level
    pollLevel := j.pollLevel
    reachable := j.h.reachable
    status := j.h.status
    detail := j.h.detail
    trafficError := j.h.trafficError
    binary := noneIfEmpty (j.build.map fun b => b.1)
    version := noneIfEmpty (j.build.map fun b => b.2.1)
    hash := noneIfEmpty (j.build.map fun b => b.2.2)
    hitRate := hitRate
    certExpiresInS := certExpiresInS
    tunnel := j.h.tunnelProbe.map fun probe => {
      rttMs := j.h.tunnelRttMs
      rttN := j.h.tunnelRttN
      probe := probe
      probeError := j.h.tunnelProbeError
      handshake := j.h.tunnelHandshake
      handshakeAgeS := j.h.tunnelHandshakeAgeS
      handshakeDetail := j.h.tunnelHandshakeDetail }
    logReopen := j.h.reopenState.map fun state => {
      state := state
      ageS := j.h.reopenAgeS
      lastUnix := j.h.reopenLastUnix
      reopens := j.h.reopenReopens
      failures := j.h.reopenFailures
      lastFailureAgeS := j.h.reopenLastFailureAgeS
      detail := j.h.reopenDetail }
    net := []
    channels := []
    findings := []
    otherFindings := []
    pollId := j.h.pollId }

def headOf (j : HealthJoin) : Except Halt PageRow := do
  let hitRate ← rate j.h.cacheHits j.h.cacheMisses
  let certExpiresInS ← j.h.certNotAfterUnix.mapM fun c => checked (c.1 - j.h.atMs.1.tdiv 1000)
  .ok (j.row hitRate certExpiresInS)

/-! ## Children -/

def channelOrder (e : HealthChannel × Str) : I64 ×ₗ Str := toLex (e.1.healthId, e.2)

def netOrder (e : HealthNet × Str) : I64 ×ₗ Str := toLex (e.1.healthId, e.2)

def findingOrder (f : PollFinding) : I64 ×ₗ I64ᵒᵈ ×ₗ I64 :=
  toLex (f.pollId, toLex (OrderDual.toDual f.level, f.id))

def Tables.channelRows (t : Tables) (ids : List I64) : List (HealthChannel × Str) :=
  orderBy channelOrder
    (joinOn HealthChannel.channelId t.channel
      (t.healthChannel.filter fun c => c.healthId ∈ ids))

def Tables.netRows (t : Tables) (ids : List I64) : List (HealthNet × Str) :=
  orderBy netOrder
    (joinOn HealthNet.ifaceId t.iface (t.healthNet.filter fun n => n.healthId ∈ ids))

def Tables.findingRows (t : Tables) (pollIds : List I64) : List PollFinding :=
  orderBy findingOrder (t.pollFinding.filter fun f => f.pollId ∈ pollIds)

def channelOut (e : HealthChannel × Str) : Except Halt ChannelOut := do
  let hitRate ← rate (some e.1.hits) (some e.1.misses)
  .ok { toChannelFigures := e.1.toChannelFigures, channel := e.2, hitRate := hitRate }

def netOut (e : HealthNet × Str) : NetRow := { toNetFigures := e.1.toNetFigures, iface := e.2 }

def findingOut (f : PollFinding) : FindingOut := ⟨f.level, f.node, f.text⟩

def PageRow.addChannel (r : PageRow) (c : ChannelOut) : PageRow :=
  { r with channels := r.channels ++ [c] }

def PageRow.addNet (r : PageRow) (n : NetRow) : PageRow := { r with net := r.net ++ [n] }

def pushChannel : List PageRow → HealthChannel × Str → Except Halt (List PageRow) :=
  handOut PageRow.id (fun e => e.1.healthId) PageRow.addChannel channelOut

def pushNet : List PageRow → HealthNet × Str → Except Halt (List PageRow) :=
  handOut PageRow.id (fun e => e.1.healthId) PageRow.addNet fun e => .ok (netOut e)

def withFindings (findings : List PollFinding) (r : PageRow) : PageRow :=
  let own := findings.filter fun f => f.pollId = r.pollId
  { r with
    findings := r.findings ++ (own.filter fun f => f.polled && f.node = r.node).map findingOut
    otherFindings := r.otherFindings ++ (own.filter fun f => !f.polled).map findingOut }

/-- One page of `/history`. -/
def healthPage (t : Tables) (q : Query) (after : Option Key) (rows : Nat) :
    Except Halt (List PageRow) := do
  let out ← (healthSelect t q after rows).mapM headOf
  if out.isEmpty then .ok out
  else
    let ids := out.map PageRow.id
    let out ← (t.channelRows ids).foldlM pushChannel out
    let out ← (t.netRows ids).foldlM pushNet out
    let pollIds := (out.map PageRow.pollId).dedup
    .ok (out.map (withFindings (t.findingRows pollIds)))

/-! ## Crawlers -/

structure SightingOut where
  userAgent : Str
  requests : I64
  clientIps : List Str
  paths : List Str

/-- A line of `/crawlers`. -/
structure CrawlOut where
  id : I64
  at_ : I64
  atUnixMs : I64
  node : Str
  windowMinutes : I64
  totalRequests : I64
  /-- by code, each a number of 16 bits -/
  status : SortedMap Nat I64
  forgedBotRequests : I64
  forgers : List Str
  crawlers : List SightingOut
  sightingsDropped : I64

def CrawlOut.key (r : CrawlOut) : Key := toLex (r.atUnixMs, r.id)

def windowKey (e : CrawlWindow × Str) : Key := toLex (e.1.atMs, e.1.id)

def crawlSelect (t : Tables) (q : Query) (after : Option Key) (limit : Nat) :
    List (CrawlWindow × Str) :=
  (orderBy windowKey ((joinOn CrawlWindow.nodeId t.node t.crawlWindow).filter fun e =>
    q.isIn (windowKey e) e.1.nodeId && isAfter after (windowKey e))).take limit

def Tables.statusRows (t : Tables) (ids : List I64) : List CrawlStatus :=
  t.crawlStatus.filter fun s => s.windowId ∈ ids

def sightingOrder (e : CrawlSighting × Str) : I64 ×ₗ I64ᵒᵈ ×ₗ Str :=
  toLex (e.1.windowId, toLex (OrderDual.toDual e.1.requests, e.2))

def Tables.sightingRows (t : Tables) (ids : List I64) : List (CrawlSighting × Str) :=
  orderBy sightingOrder
    (joinOn CrawlSighting.agentId t.agent (t.crawlSighting.filter fun s => s.windowId ∈ ids))

def statusOut (s : CrawlStatus) : Except Halt (Nat × I64) :=
  if 0 ≤ s.code.1 ∧ s.code.1 < 2 ^ 16 then .ok (s.code.1.toNat, s.requests) else .error .db

variable (parseStrings : Str → Option (List Str))

def jsonList (s : Str) : List Str := (parseStrings s).getD []

def windowRow (e : CrawlWindow × Str) : CrawlOut where
  id := e.1.id
  at_ := e.1.atMs
  atUnixMs := e.1.atMs
  node := e.2
  windowMinutes := e.1.windowMinutes
  totalRequests := e.1.totalRequests
  status := .empty
  forgedBotRequests := e.1.forgedBotRequests
  forgers := jsonList parseStrings e.1.forgers
  crawlers := []
  sightingsDropped := e.1.sightingsDropped

def sightingOut (e : CrawlSighting × Str) : SightingOut where
  userAgent := e.2
  requests := e.1.requests
  clientIps := jsonList parseStrings e.1.clientIps
  paths := jsonList parseStrings e.1.paths

def CrawlOut.addStatus (r : CrawlOut) (s : Nat × I64) : CrawlOut :=
  { r with status := r.status.insert s.1 s.2 }

def CrawlOut.addSighting (r : CrawlOut) (s : SightingOut) : CrawlOut :=
  { r with crawlers := r.crawlers ++ [s] }

def pushStatus : List CrawlOut → CrawlStatus → Except Halt (List CrawlOut) :=
  handOut CrawlOut.id CrawlStatus.windowId CrawlOut.addStatus statusOut

def pushSighting : List CrawlOut → CrawlSighting × Str → Except Halt (List CrawlOut) :=
  handOut CrawlOut.id (fun e => e.1.windowId) CrawlOut.addSighting
    fun e => .ok (sightingOut parseStrings e)

/-- One page of `/crawlers`. -/
def crawlPage (t : Tables) (q : Query) (after : Option Key) (rows : Nat) :
    Except Halt (List CrawlOut) := do
  let out := (crawlSelect t q after rows).map (windowRow parseStrings)
  if out.isEmpty then .ok out
  else
    let ids := out.map CrawlOut.id
    let out ← (t.statusRows ids).foldlM pushStatus out
    (t.sightingRows ids).foldlM (pushSighting parseStrings) out

/-! ## One row -/

/-- **A row of `/history` with all that is its own.** -/
def healthRow (t : Tables) (j : HealthJoin) : Except Halt PageRow := do
  let r ← headOf j
  let channels ← (t.channelRows [j.h.id]).mapM channelOut
  .ok (withFindings (t.findingRows [j.h.pollId])
    { r with channels := channels, net := (t.netRows [j.h.id]).map netOut })

/-- **A row of `/crawlers` with all that is its own.** -/
def crawlRow (t : Tables) (e : CrawlWindow × Str) : Except Halt CrawlOut := do
  let status ← (t.statusRows [e.1.id]).mapM statusOut
  .ok { windowRow parseStrings e with
    status := status.foldl (fun m s => m.insert s.1 s.2) .empty
    crawlers := (t.sightingRows [e.1.id]).map (sightingOut parseStrings) }

def healthJoins (t : Tables) (q : Query) : List HealthJoin :=
  orderBy HealthJoin.key ((t.health.filterMap t.joinHealth).filter fun j => q.isIn j.key j.h.nodeId)

def crawlJoins (t : Tables) (q : Query) : List (CrawlWindow × Str) :=
  orderBy windowKey ((joinOn CrawlWindow.nodeId t.node t.crawlWindow).filter fun e =>
    q.isIn (windowKey e) e.1.nodeId)

/-- The lines of `/history`. -/
def healthTable (t : Tables) (q : Query) : Table PageRow :=
  (healthJoins t q).map fun j => (j.key, healthRow t j)

/-- The lines of `/crawlers`. -/
def crawlTable (t : Tables) (q : Query) : Table CrawlOut :=
  (crawlJoins t q).map fun e => (windowKey e, crawlRow parseStrings t e)

/-! ## What fails -/

def RateFits (hits misses : Option I64) : Prop :=
  ∀ h ∈ hits, ∀ m ∈ misses, InI64 (h.1 + m.1)

/-- A time that the certificate is still good for. -/
def CertFits (cert : Option I64) (atMs : I64) : Prop :=
  ∀ c ∈ cert, InI64 (c.1 - atMs.1.tdiv 1000)

/-- **A row that nothing overflows in.** -/
structure RowFits (t : Tables) (h : Health) : Prop where
  cache : RateFits h.cacheHits h.cacheMisses
  cert : CertFits h.certNotAfterUnix h.atMs
  channels : ∀ c ∈ t.healthChannel, c.healthId = h.id → InI64 (c.hits.1 + c.misses.1)

/-- **A window whose status codes are status codes.** -/
def CodesFit (t : Tables) (w : CrawlWindow) : Prop :=
  ∀ s ∈ t.crawlStatus, s.windowId = w.id → 0 ≤ s.code.1 ∧ s.code.1 < 2 ^ 16

theorem checked_ok {i : Int} (h : InI64 i) : checked i = .ok ⟨i, h⟩ := by
  rw [checked, toI64, dif_pos h]

theorem checked_panic {i : Int} (h : ¬ InI64 i) : checked i = .error .panic := by
  rw [checked, toI64, dif_neg h]

def rateOf (hits misses : Option I64) : Option Float :=
  hits.bind fun h => misses.bind fun m =>
    if 0 < h.1 + m.1 then some (Float.ofInt h.1 / Float.ofInt (h.1 + m.1)) else none

theorem rate_ok {hits misses : Option I64} (h : RateFits hits misses) :
    rate hits misses = .ok (rateOf hits misses) := by
  cases hits with
  | none => rfl
  | some a =>
    cases misses with
    | none => rfl
    | some b =>
      rw [rate, checked_ok (h a rfl b rfl)]
      rfl

theorem rate_panic {hits misses : Option I64} (h : ¬ RateFits hits misses) :
    rate hits misses = .error .panic := by
  cases hits with
  | none => exact absurd (fun _ ha => nomatch ha) h
  | some a =>
    cases misses with
    | none => exact absurd (fun _ _ _ hb => nomatch hb) h
    | some b =>
      have hsum : ¬ InI64 (a.1 + b.1) := by
        intro hsum
        refine h ?_
        rintro _ ⟨⟩ _ ⟨⟩
        exact hsum
      rw [rate, checked_panic hsum]
      rfl

/-! ## A page is its rows -/

theorem isAfter_eq (after : Option Key) (k : Key) : isAfter after k = after.all fun a => a ≤ k := by
  cases after with
  | none => rfl
  | some a =>
    have hle : a ≤ k ↔ (ofLex a).1 < (ofLex k).1 ∨
        (ofLex a).1 = (ofLex k).1 ∧ (ofLex a).2 ≤ (ofLex k).2 := Prod.Lex.le_iff
    rw [isAfter, Option.all_some, Option.all_some, Bool.eq_iff_iff, decide_eq_true_iff, hle,
      Bool.or_eq_true, Bool.and_eq_true, decide_eq_true_iff, decide_eq_true_iff,
      decide_eq_true_iff, eq_comm (a := (ofLex k).1)]

theorem healthSelect_eq (t : Tables) (q : Query) (after : Option Key) (limit : Nat) :
    healthSelect t q after limit = (onward HealthJoin.key after (healthJoins t q)).take limit := by
  simp only [healthSelect, healthJoins, onward, filter_orderBy, filter_filter, isAfter_eq,
    Bool.and_comm]

theorem crawlSelect_eq (t : Tables) (q : Query) (after : Option Key) (limit : Nat) :
    crawlSelect t q after limit = (onward windowKey after (crawlJoins t q)).take limit := by
  simp only [crawlSelect, crawlJoins, onward, filter_orderBy, filter_filter, isAfter_eq,
    Bool.and_comm]

theorem mapM_onward {J T : Type} (keyOf : J → Key) (row : J → Except Halt T) (after : Option Key)
    (n : Nat) (js : List J) :
    ((onward Prod.fst after (js.map fun j => (keyOf j, row j))).take n).mapM Prod.snd =
      ((onward keyOf after js).take n).mapM row := by
  rw [onward, filter_map, ← map_take, mapM_map]
  rfl

def certOf (cert : Option I64) (atMs : I64) : Option I64 :=
  cert.bind fun c => toI64 (c.1 - atMs.1.tdiv 1000)

theorem cert_ok {cert : Option I64} {atMs : I64} (h : CertFits cert atMs) :
    (cert.mapM fun c => checked (c.1 - atMs.1.tdiv 1000)) = .ok (certOf cert atMs) := by
  cases cert with
  | none => rfl
  | some c =>
    have hc : InI64 (c.1 - atMs.1.tdiv 1000) := h c rfl
    rw [certOf, Option.bind_some, toI64, dif_pos hc, Option.mapM_some, checked_ok hc]
    rfl

theorem cert_panic {cert : Option I64} {atMs : I64} (h : ¬ CertFits cert atMs) :
    (cert.mapM fun c => checked (c.1 - atMs.1.tdiv 1000)) = .error .panic := by
  cases cert with
  | none => exact absurd (fun _ hc => nomatch hc) h
  | some c =>
    have hc : ¬ InI64 (c.1 - atMs.1.tdiv 1000) := by
      intro hc
      refine h ?_
      rintro _ ⟨⟩
      exact hc
    rw [Option.mapM_some, checked_panic hc]
    rfl

def HealthJoin.head (j : HealthJoin) : PageRow :=
  j.row (rateOf j.h.cacheHits j.h.cacheMisses) (certOf j.h.certNotAfterUnix j.h.atMs)

def HeadFits (h : Health) : Prop :=
  RateFits h.cacheHits h.cacheMisses ∧ CertFits h.certNotAfterUnix h.atMs

open scoped Classical in
theorem headOf_eq (j : HealthJoin) :
    headOf j = if HeadFits j.h then .ok j.head else .error .panic := by
  rw [headOf]
  by_cases hrate : RateFits j.h.cacheHits j.h.cacheMisses
  · rw [rate_ok hrate]
    by_cases hcert : CertFits j.h.certNotAfterUnix j.h.atMs
    · rw [cert_ok hcert, if_pos ⟨hrate, hcert⟩]
      rfl
    · rw [cert_panic hcert, if_neg fun h => hcert h.2]
      rfl
  · rw [rate_panic hrate, if_neg fun h => hrate h.1]
    rfl

def channelLine (e : HealthChannel × Str) : ChannelOut where
  toChannelFigures := e.1.toChannelFigures
  channel := e.2
  hitRate := rateOf (some e.1.hits) (some e.1.misses)

theorem rateFits_some {a b : I64} : RateFits (some a) (some b) ↔ InI64 (a.1 + b.1) := by
  constructor
  · exact fun h => h a rfl b rfl
  · rintro h _ ⟨⟩ _ ⟨⟩
    exact h

theorem channelOut_eq (e : HealthChannel × Str) :
    channelOut e = if InI64 (e.1.hits.1 + e.1.misses.1) then .ok (channelLine e)
      else .error .panic := by
  rw [channelOut]
  split_ifs with h
  · rw [rate_ok (rateFits_some.mpr h)]
    rfl
  · rw [rate_panic (mt rateFits_some.mp h)]
    rfl

def healthLine (t : Tables) (j : HealthJoin) : PageRow :=
  withFindings (t.findingRows [j.h.pollId])
    { j.head with
      channels := (t.channelRows [j.h.id]).map channelLine
      net := (t.netRows [j.h.id]).map netOut }

def ChannelsFit (t : Tables) (ids : List I64) : Prop :=
  ∀ e ∈ t.channelRows ids, InI64 (e.1.hits.1 + e.1.misses.1)

variable {ids : List I64} {t : Tables}

theorem channels_ok (h : ChannelsFit t ids) :
    (t.channelRows ids).mapM channelOut = .ok ((t.channelRows ids).map channelLine) := by
  rw [mapM_uniform channelOut_eq]
  exact if_pos h

theorem channels_panic (h : ¬ ChannelsFit t ids) :
    (t.channelRows ids).mapM channelOut = .error .panic := by
  rw [mapM_uniform channelOut_eq]
  exact if_neg h

open scoped Classical in
theorem healthRow_eq (t : Tables) (j : HealthJoin) :
    healthRow t j = if HeadFits j.h ∧ ChannelsFit t [j.h.id] then .ok (healthLine t j)
      else .error .panic := by
  rw [healthRow, headOf_eq]
  by_cases hhead : HeadFits j.h
  · by_cases hchannels : ChannelsFit t [j.h.id]
    · rw [if_pos hhead, channels_ok hchannels, if_pos ⟨hhead, hchannels⟩]
      rfl
    · rw [if_pos hhead, channels_panic hchannels, if_neg fun h => hchannels h.2]
      rfl
  · rw [if_neg hhead, if_neg fun h => hhead h.1]
    rfl

theorem mem_channelRows {c : HealthChannel} {label : Str} :
    (c, label) ∈ t.channelRows ids ↔
      c ∈ t.healthChannel ∧ c.healthId ∈ ids ∧ named t.channel c.channelId = some label := by
  rw [Tables.channelRows, mem_orderBy, mem_joinOn, mem_filter, decide_eq_true_iff, and_assoc]

theorem mem_netRows {n : HealthNet} {name : Str} :
    (n, name) ∈ t.netRows ids ↔
      n ∈ t.healthNet ∧ n.healthId ∈ ids ∧ named t.iface n.ifaceId = some name := by
  rw [Tables.netRows, mem_orderBy, mem_joinOn, mem_filter, decide_eq_true_iff, and_assoc]

theorem channelsFit_iff : ChannelsFit t ids ↔ ∀ id ∈ ids, ChannelsFit t [id] := by
  constructor
  · rintro h id hid ⟨c, label⟩ he
    obtain ⟨hc, howner, hlabel⟩ := mem_channelRows.mp he
    rw [mem_singleton] at howner
    exact h (c, label) (mem_channelRows.mpr ⟨hc, howner ▸ hid, hlabel⟩)
  · rintro h ⟨c, label⟩ he
    obtain ⟨hc, howner, hlabel⟩ := mem_channelRows.mp he
    exact h c.healthId howner (c, label) (mem_channelRows.mpr ⟨hc, mem_singleton_self _, hlabel⟩)

theorem foldl_addChannel (r : PageRow) (cs : List ChannelOut) :
    cs.foldl PageRow.addChannel r = { r with channels := r.channels ++ cs } := by
  induction cs generalizing r with
  | nil => simp
  | cons c cs ih => rw [foldl_cons, ih, PageRow.addChannel, append_assoc]; rfl

theorem foldl_addNet (r : PageRow) (ns : List NetRow) :
    ns.foldl PageRow.addNet r = { r with net := r.net ++ ns } := by
  induction ns generalizing r with
  | nil => simp
  | cons n ns ih => rw [foldl_cons, ih, PageRow.addNet, append_assoc]; rfl

variable {id : I64}

theorem filter_findings (t : Tables) {pollIds : List I64} (h : id ∈ pollIds) :
    (t.findingRows pollIds).filter (fun f => f.pollId = id) =
      (t.findingRows [id]).filter fun f => f.pollId = id := by
  have hown : ∀ ids : List I64, id ∈ ids → (t.findingRows ids).filter (fun f => f.pollId = id) =
      orderBy findingOrder (t.pollFinding.filter fun f => f.pollId = id) := by
    intro ids hid
    rw [Tables.findingRows, filter_orderBy, filter_filter]
    refine congrArg _ (filter_congr fun f _ => ?_)
    by_cases hf : f.pollId = id
    · simp [hf, hid]
    · simp [hf]
  rw [hown pollIds h, hown [id] (mem_singleton_self _)]

theorem withFindings_own (t : Tables) {pollIds : List I64} {r : PageRow} (h : r.pollId ∈ pollIds) :
    withFindings (t.findingRows pollIds) r = withFindings (t.findingRows [r.pollId]) r := by
  rw [withFindings, withFindings, filter_findings t h]

theorem own_channels (t : Tables) (h : id ∈ ids) :
    (t.channelRows ids).filter (fun e => id = e.1.healthId) = t.channelRows [id] := by
  rw [Tables.channelRows, Tables.channelRows]
  convert filter_children HealthChannel.healthId channelOrder HealthChannel.channelId t.channel h
    t.healthChannel

theorem own_nets (t : Tables) (h : id ∈ ids) :
    (t.netRows ids).filter (fun e => id = e.1.healthId) = t.netRows [id] := by
  rw [Tables.netRows, Tables.netRows]
  convert filter_children HealthNet.healthId netOrder HealthNet.ifaceId t.iface h t.healthNet

theorem foldlM_pushChannel {out : List PageRow} :
    (ChannelsFit t (out.map PageRow.id) →
        (t.channelRows (out.map PageRow.id)).foldlM pushChannel out =
          .ok (out.map fun r =>
            { r with channels := r.channels ++ (t.channelRows [r.id]).map channelLine })) ∧
      (¬ ChannelsFit t (out.map PageRow.id) →
        (t.channelRows (out.map PageRow.id)).foldlM pushChannel out = .error .panic) := by
  have howner : ∀ e ∈ t.channelRows (out.map PageRow.id), ∃ r ∈ out, r.id = e.1.healthId := by
    rintro ⟨c, label⟩ hc
    exact mem_map.mp (mem_channelRows.mp hc).2.1
  have hfold := foldlM_handOut PageRow.id (fun e : HealthChannel × Str => e.1.healthId)
    PageRow.addChannel channelOut_eq (fun _ _ => rfl) _ howner
  constructor
  · intro hfit
    refine (hfold.trans (if_pos hfit)).trans
      (congrArg Except.ok (map_congr_left fun r hr => ?_))
    rw [foldl_addChannel, own_channels t (mem_map_of_mem hr)]
  · exact fun hfit => hfold.trans (if_neg hfit)

theorem foldlM_pushNet {out : List PageRow} : (t.netRows (out.map PageRow.id)).foldlM pushNet out =
      .ok (out.map fun r => { r with net := r.net ++ (t.netRows [r.id]).map netOut }) := by
  have howner : ∀ e ∈ t.netRows (out.map PageRow.id), ∃ r ∈ out, r.id = e.1.healthId := by
    rintro ⟨n, name⟩ hn
    exact mem_map.mp (mem_netRows.mp hn).2.1
  have hok : ∀ e : HealthNet × Str, (Except.ok (netOut e) : Except Halt NetRow) =
      if True then .ok (netOut e) else .error .panic := fun e => (if_pos trivial).symm
  refine (foldlM_handOut PageRow.id (fun e : HealthNet × Str => e.1.healthId) PageRow.addNet hok
    (fun _ _ => rfl) _ howner).trans ?_
  rw [if_pos fun _ _ => trivial]
  refine congrArg Except.ok (map_congr_left fun r hr => ?_)
  rw [foldl_addNet, own_nets t (mem_map_of_mem hr)]

/-- **A page of `/history`** is its rows, each with what is its own. -/
theorem healthPage_eq (t : Tables) (q : Query) (after : Option Key) (n : Nat) :
    healthPage t q after n = ((onward Prod.fst after (healthTable t q)).take n).mapM Prod.snd := by
  classical
  rw [healthPage, healthSelect_eq, healthTable, mapM_onward]
  generalize (onward HealthJoin.key after (healthJoins t q)).take n = js
  rw [mapM_uniform headOf_eq, mapM_uniform (healthRow_eq t)]
  by_cases hheads : ∀ j ∈ js, HeadFits j.h
  swap
  · rw [if_neg hheads, if_neg fun h => hheads fun j hj => (h j hj).1]
    rfl
  rw [if_pos hheads]
  by_cases hempty : js = []
  · subst hempty
    simp [bind, Except.bind]
  have hids : (js.map HealthJoin.head).map PageRow.id = js.map fun j => j.h.id := by
    rw [map_map]
    rfl
  have hnonempty : (js.map HealthJoin.head).isEmpty = false := by simp [hempty]
  simp only [bind, Except.bind, hnonempty, Bool.false_eq_true, if_false]
  by_cases hfit : ChannelsFit t ((js.map HealthJoin.head).map PageRow.id)
  swap
  · rw [foldlM_pushChannel.2 hfit, if_neg]
    intro h
    refine hfit (channelsFit_iff.mpr fun id hid => ?_)
    obtain ⟨j, hj, rfl⟩ := mem_map.mp (hids ▸ hid)
    exact (h j hj).2
  have hall : ∀ j ∈ js, HeadFits j.h ∧ ChannelsFit t [j.h.id] := by
    intro j hj
    refine ⟨hheads j hj, channelsFit_iff.mp hfit _ ?_⟩
    rw [hids]
    exact mem_map_of_mem hj
  rw [foldlM_pushChannel.1 hfit, if_pos hall]
  have hkept : (js.map HealthJoin.head).map PageRow.id = ((js.map HealthJoin.head).map fun r =>
      { r with channels := r.channels ++ (t.channelRows [r.id]).map channelLine }).map
        PageRow.id := by
    rw [map_map, map_map, map_map]
    rfl
  simp only [hkept, foldlM_pushNet]
  refine congrArg Except.ok ?_
  rw [map_map, map_map, map_map]
  refine map_congr_left fun j hj => ?_
  refine withFindings_own t (mem_dedup.mpr ?_)
  rw [map_map, map_map, map_map]
  exact mem_map_of_mem hj

/-! ## A page of windows is its rows -/

def StatusFits (t : Tables) (ids : List I64) : Prop :=
  ∀ s ∈ t.statusRows ids, 0 ≤ s.code.1 ∧ s.code.1 < 2 ^ 16

def crawlLine (t : Tables) (e : CrawlWindow × Str) : CrawlOut :=
  { windowRow parseStrings e with
    status := ((t.statusRows [e.1.id]).map fun s => (s.code.1.toNat, s.requests)).foldl
      (fun m s => m.insert s.1 s.2) .empty
    crawlers := (t.sightingRows [e.1.id]).map (sightingOut parseStrings) }

variable {parseStrings}

theorem mem_statusRows {s : CrawlStatus} :
    s ∈ t.statusRows ids ↔ s ∈ t.crawlStatus ∧ s.windowId ∈ ids := by
  rw [Tables.statusRows, mem_filter, decide_eq_true_iff]

theorem mem_sightingRows {s : CrawlSighting} {agent : Str} :
    (s, agent) ∈ t.sightingRows ids ↔
      s ∈ t.crawlSighting ∧ s.windowId ∈ ids ∧ named t.agent s.agentId = some agent := by
  rw [Tables.sightingRows, mem_orderBy, mem_joinOn, mem_filter, decide_eq_true_iff, and_assoc]

theorem statusFits_iff : StatusFits t ids ↔ ∀ id ∈ ids, StatusFits t [id] := by
  constructor
  · intro h id hid s hs
    obtain ⟨hs, howner⟩ := mem_statusRows.mp hs
    rw [mem_singleton] at howner
    exact h s (mem_statusRows.mpr ⟨hs, howner ▸ hid⟩)
  · intro h s hs
    obtain ⟨hs, howner⟩ := mem_statusRows.mp hs
    exact h s.windowId howner s (mem_statusRows.mpr ⟨hs, mem_singleton_self _⟩)

theorem statusOut_eq (s : CrawlStatus) :
    statusOut s = if 0 ≤ s.code.1 ∧ s.code.1 < 2 ^ 16 then .ok (s.code.1.toNat, s.requests)
      else .error .db :=
  rfl

open scoped Classical in
theorem crawlRow_eq (t : Tables) (e : CrawlWindow × Str) : crawlRow parseStrings t e =
      if StatusFits t [e.1.id] then .ok (crawlLine parseStrings t e) else .error .db := by
  rw [crawlRow, mapM_uniform statusOut_eq]
  by_cases hfit : StatusFits t [e.1.id]
  · rw [if_pos hfit, if_pos fun s hs => hfit s hs]
    rfl
  · have hnot : ¬ ∀ s ∈ t.statusRows [e.1.id], 0 ≤ s.code.1 ∧ s.code.1 < 2 ^ 16 := hfit
    rw [if_neg hfit, if_neg hnot]
    rfl

theorem foldl_addStatus (r : CrawlOut) (ss : List (Nat × I64)) : ss.foldl CrawlOut.addStatus r =
      { r with status := ss.foldl (fun m s => m.insert s.1 s.2) r.status } := by
  induction ss generalizing r with
  | nil => rfl
  | cons s ss ih =>
    rw [foldl_cons, ih]
    rfl

theorem foldl_addSighting (r : CrawlOut) (ss : List SightingOut) :
    ss.foldl CrawlOut.addSighting r = { r with crawlers := r.crawlers ++ ss } := by
  induction ss generalizing r with
  | nil => simp
  | cons s ss ih => rw [foldl_cons, ih, CrawlOut.addSighting, append_assoc]; rfl

theorem own_statuses (t : Tables) (h : id ∈ ids) :
    (t.statusRows ids).filter (fun s => id = s.windowId) = t.statusRows [id] := by
  rw [Tables.statusRows, Tables.statusRows]
  convert filter_owner CrawlStatus.windowId h t.crawlStatus

theorem own_sightings (t : Tables) (h : id ∈ ids) :
    (t.sightingRows ids).filter (fun e => id = e.1.windowId) = t.sightingRows [id] := by
  rw [Tables.sightingRows, Tables.sightingRows]
  convert filter_children CrawlSighting.windowId sightingOrder CrawlSighting.agentId t.agent h
    t.crawlSighting

theorem foldlM_pushStatus {out : List CrawlOut} :
    (StatusFits t (out.map CrawlOut.id) →
        (t.statusRows (out.map CrawlOut.id)).foldlM pushStatus out =
          .ok (out.map fun r => { r with
            status := ((t.statusRows [r.id]).map fun s => (s.code.1.toNat, s.requests)).foldl
              (fun m s => m.insert s.1 s.2) r.status })) ∧
      (¬ StatusFits t (out.map CrawlOut.id) →
        (t.statusRows (out.map CrawlOut.id)).foldlM pushStatus out = .error .db) := by
  have howner : ∀ s ∈ t.statusRows (out.map CrawlOut.id), ∃ r ∈ out, r.id = s.windowId :=
    fun s hs => mem_map.mp (mem_statusRows.mp hs).2
  have hfold := foldlM_handOut CrawlOut.id CrawlStatus.windowId CrawlOut.addStatus statusOut_eq
    (fun _ _ => rfl) _ howner
  constructor
  · intro hfit
    refine (hfold.trans (if_pos hfit)).trans
      (congrArg Except.ok (map_congr_left fun r hr => ?_))
    rw [foldl_addStatus, own_statuses t (mem_map_of_mem hr)]
  · exact fun hfit => hfold.trans (if_neg hfit)

theorem foldlM_pushSighting {out : List CrawlOut} :
    (t.sightingRows (out.map CrawlOut.id)).foldlM (pushSighting parseStrings) out =
      .ok (out.map fun r => { r with
        crawlers := r.crawlers ++ (t.sightingRows [r.id]).map (sightingOut parseStrings) }) := by
  have howner : ∀ e ∈ t.sightingRows (out.map CrawlOut.id), ∃ r ∈ out, r.id = e.1.windowId := by
    rintro ⟨s, agent⟩ hs
    exact mem_map.mp (mem_sightingRows.mp hs).2.1
  have hok : ∀ e : CrawlSighting × Str,
      (Except.ok (sightingOut parseStrings e) : Except Halt SightingOut) =
        if True then .ok (sightingOut parseStrings e) else .error .db :=
    fun e => (if_pos trivial).symm
  refine (foldlM_handOut CrawlOut.id (fun e : CrawlSighting × Str => e.1.windowId)
    CrawlOut.addSighting hok (fun _ _ => rfl) _ howner).trans ?_
  rw [if_pos fun _ _ => trivial]
  refine congrArg Except.ok (map_congr_left fun r hr => ?_)
  rw [foldl_addSighting, own_sightings t (mem_map_of_mem hr)]

/-- **A page of `/crawlers`** is its rows, each with what is its own. -/
theorem crawlPage_eq (t : Tables) (q : Query) (after : Option Key) (n : Nat) :
    crawlPage parseStrings t q after n =
      ((onward Prod.fst after (crawlTable parseStrings t q)).take n).mapM Prod.snd := by
  classical
  rw [crawlPage, crawlSelect_eq, crawlTable, mapM_onward]
  generalize (onward windowKey after (crawlJoins t q)).take n = js
  rw [mapM_uniform (crawlRow_eq t)]
  by_cases hempty : js = []
  · subst hempty
    rfl
  have hids : (js.map (windowRow parseStrings)).map CrawlOut.id = js.map fun e => e.1.id := by
    rw [map_map]
    rfl
  have hnonempty : (js.map (windowRow parseStrings)).isEmpty = false := by simp [hempty]
  simp only [bind, Except.bind, hnonempty, Bool.false_eq_true, if_false]
  by_cases hfit : StatusFits t ((js.map (windowRow parseStrings)).map CrawlOut.id)
  swap
  · rw [foldlM_pushStatus.2 hfit, if_neg]
    intro h
    refine hfit (statusFits_iff.mpr fun id hid => ?_)
    obtain ⟨e, he, rfl⟩ := mem_map.mp (hids ▸ hid)
    exact h e he
  have hall : ∀ e ∈ js, StatusFits t [e.1.id] := by
    intro e he
    refine statusFits_iff.mp hfit _ ?_
    rw [hids]
    exact mem_map_of_mem he
  rw [foldlM_pushStatus.1 hfit, if_pos hall]
  have hkept : (js.map (windowRow parseStrings)).map CrawlOut.id =
      ((js.map (windowRow parseStrings)).map fun r => { r with
        status := ((t.statusRows [r.id]).map fun s => (s.code.1.toNat, s.requests)).foldl
          (fun m s => m.insert s.1 s.2) r.status }).map CrawlOut.id := by
    rw [map_map, map_map, map_map]
    rfl
  simp only [hkept, foldlM_pushSighting]
  refine congrArg Except.ok ?_
  rw [map_map, map_map]
  rfl

end M6.Monitor
