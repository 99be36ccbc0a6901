import M6.Lib.Interning
import M6.Monitor.Batch

/-!
# The store of the history

`Store` of `history.rs`: the tables of the file, and what the writer remembers of them. `insert`
writes one poll in one transaction, `prune` deletes the oldest, and `reopened` is the store as it is
opened from the file. `Store.step` is the writer: a write that fails changes no table, and the store
is dropped and opened again.

Ids come from the tables. The ids of polls, of health rows and of crawl windows are never used
twice (`AUTOINCREMENT`), and an id that would be too large is an error of the database.
-/

namespace M6.Monitor

open App (I64)
open Interning (Interner link)
open Select (orderBy)

/-! ## Ids -/

def nextId (last : Int) : Except Halt I64 :=
  match toI64 (last + 1) with
  | some id => .ok id
  | none => .error .db

def topId (ids : List I64) : Int := (ids.map Subtype.val).foldr max 0

def freshId (ids : List I64) : Except Halt I64 := nextId (topId ids)

/-! ## Saturating arithmetic -/

def saturate (i : Int) : I64 :=
  ⟨max (-2 ^ 63) (min i (2 ^ 63 - 1)), by omega⟩

/-! ## The store -/

/-- **The store**: the tables of the file, with what the writer remembers of them. -/
structure Store where
  nodes : Interner I64 Str Str
  channels : Interner I64 Str Str
  ifaces : Interner I64 Str Str
  agents : Interner I64 Str Str
  builds : Interner I64 (Str × Str × Str) Str
  poll : List Poll
  pollFinding : List PollFinding
  health : List Health
  healthChannel : List HealthChannel
  healthNet : List HealthNet
  crawlWindow : List CrawlWindow
  crawlSighting : List CrawlSighting
  crawlStatus : List CrawlStatus
  /-- the largest ids that were ever used, of `sqlite_sequence` -/
  pollSeq : I64
  healthSeq : I64
  windowSeq : I64
  lastCrawlAt : SortedMap I64 I64

def Store.tables (s : Store) : Tables where
  node := s.nodes.table
  channel := s.channels.table
  iface := s.ifaces.table
  agent := s.agents.table
  build := s.builds.table
  poll := s.poll
  pollFinding := s.pollFinding
  health := s.health
  healthChannel := s.healthChannel
  healthNet := s.healthNet
  crawlWindow := s.crawlWindow
  crawlSighting := s.crawlSighting
  crawlStatus := s.crawlStatus

def joinedParts (b : Str × Str × Str) : Str :=
  [Char.ofNat 0x1f].intercalate [b.1, b.2.1, b.2.2]

def nameId (n : Interner I64 Str Str) (name : Str) : Except Halt (I64 × Interner I64 Str Str) :=
  n.id (fun k => k) freshId .db name

namespace Store

/-! ## Inserting a poll -/

def addPoll (s : Store) (b : Batch) : Except Halt (I64 × Store) := do
  let id ← nextId s.pollSeq.1
  .ok (id, { s with
    poll := s.poll ++ [⟨id, b.atMs, b.level, b.faults, b.warns⟩]
    pollSeq := id })

def addFinding (pollId : I64) (s : Store) (f : FindingRow) : Except Halt Store := do
  let id ← freshId (s.pollFinding.map PollFinding.id)
  .ok { s with pollFinding := s.pollFinding ++ [⟨id, pollId, f.level, f.node, f.polled, f.text⟩] }

def nodeId (s : Store) (name : Str) : Except Halt (I64 × Store) := do
  let (id, nodes) ← nameId s.nodes name
  .ok (id, { s with nodes := nodes })

def buildId (s : Store) (build : Option (Str × Str × Str)) : Except Halt (Option I64 × Store) :=
  match build with
  | some b => do
    let (id, builds) ← s.builds.id joinedParts freshId .db b
    .ok (some id, { s with builds := builds })
  | none => .ok (none, s)

/-- The row of `health`. -/
def healthOf (id pollId atMs nodeId : I64) (buildId : Option I64) (r : Row) : Health where
  toFigures := r.toFigures
  id := id
  pollId := pollId
  atMs := atMs
  nodeId := nodeId
  level := r.level
  reachable := r.reachable
  status := r.status
  detail := r.detail
  trafficError := r.trafficError
  buildId := buildId
  tunnelRttMs := r.tunnel.bind TunnelRow.rttMs
  tunnelRttN := r.tunnel.map TunnelRow.rttN
  tunnelProbe := r.tunnel.map TunnelRow.probe
  tunnelProbeError := r.tunnel.bind TunnelRow.probeError
  tunnelHandshake := r.tunnel.map TunnelRow.handshake
  tunnelHandshakeAgeS := r.tunnel.bind TunnelRow.handshakeAgeS
  tunnelHandshakeDetail := r.tunnel.bind TunnelRow.handshakeDetail
  reopenState := some r.reopen.state
  reopenAgeS := r.reopen.ageS
  reopenLastUnix := r.reopen.lastUnix
  reopenReopens := r.reopen.reopens
  reopenFailures := r.reopen.failures
  reopenLastFailureAgeS := r.reopen.lastFailureAgeS
  reopenDetail := r.reopen.detail

def addHealth (s : Store) (pollId atMs nodeId : I64) (buildId : Option I64) (r : Row) :
    Except Halt (I64 × Store) := do
  let id ← nextId s.healthSeq.1
  .ok (id, { s with
    health := s.health ++ [healthOf id pollId atMs nodeId buildId r]
    healthSeq := id })

/-- The row of `health_channel`. -/
def channelOf (healthId : I64) (c : ChannelRow) (channelId : I64) : HealthChannel :=
  { toChannelFigures := c.toChannelFigures, healthId := healthId, channelId := channelId }

def addChannels (s : Store) (healthId : I64) (cs : List ChannelRow) : Except Halt Store := do
  let (channels, rows) ← cs.foldlM
    (link freshId .db .db HealthChannel.healthId HealthChannel.channelId ChannelRow.channel
      (channelOf healthId)) (s.channels, s.healthChannel)
  .ok { s with channels := channels, healthChannel := rows }

/-- The row of `health_net`. -/
def netOf (healthId : I64) (n : NetRow) (ifaceId : I64) : HealthNet :=
  { toNetFigures := n.toNetFigures, healthId := healthId, ifaceId := ifaceId }

def addNet (s : Store) (healthId : I64) (ns : List NetRow) : Except Halt Store := do
  let (ifaces, rows) ← ns.foldlM
    (link freshId .db .db HealthNet.healthId HealthNet.ifaceId NetRow.iface (netOf healthId))
    (s.ifaces, s.healthNet)
  .ok { s with ifaces := ifaces, healthNet := rows }

end Store

/-! ## Crawl windows -/

def maxAgentBytes : Nat := 256

def maxSightings : Nat := 100

/-- A crawler sighting as stored: the agent is cut. -/
structure Capped where
  userAgent : Str
  requests : I64
  clientIps : List Str
  paths : List Str

def mergeList (into more : List Str) : List Str :=
  more.foldl (fun v s => if s ∈ v then v else v ++ [s]) into

/-- Add a sighting to the one that has its agent. -/
def Capped.merge (m : Capped) (c : CrawlerReport) : Capped :=
  { m with
    requests := saturate (m.requests.1 + (iu c.requests.toNat).1)
    clientIps := mergeList m.clientIps c.clientIps
    paths := mergeList m.paths c.paths }

def capSighting (out : List Capped) (c : CrawlerReport) : Except Halt (List Capped) :=
  match Text.truncate c.userAgent maxAgentBytes with
  | none => .error .panic
  | some ua =>
    .ok (if out.any fun m => m.userAgent = ua then
        out.map fun m => if m.userAgent = ua then m.merge c else m
      else out ++ [⟨ua, iu c.requests.toNat, c.clientIps, c.paths⟩])

def busiest (m : Capped) : I64ᵒᵈ ×ₗ Str := toLex (OrderDual.toDual m.requests, m.userAgent)

def capSightings (crawlers : List CrawlerReport) : Except Halt (List Capped × I64) := do
  let out ← crawlers.foldlM capSighting []
  .ok ((orderBy busiest out).take maxSightings, iu (out.length - maxSightings))

namespace Store

def addStatus (windowId : I64) (rows : List CrawlStatus) (e : Fin (2 ^ 16) × I64) :
    Except Halt (List CrawlStatus) :=
  let code : I64 := iu e.1.val
  if rows.any fun r => r.windowId = windowId ∧ r.code = code then .error .db
  else .ok (rows ++ [⟨windowId, code, e.2⟩])

variable (fmt : Formats)

/-- The row of `crawl_sighting`. -/
def sightingOf (windowId : I64) (m : Capped) (agentId : I64) : CrawlSighting :=
  ⟨windowId, agentId, m.requests, fmt.json m.clientIps, fmt.json m.paths⟩

def addSightings (s : Store) (windowId : I64) (ms : List Capped) : Except Halt Store := do
  let (agents, rows) ← ms.foldlM
    (link freshId .db .db CrawlSighting.windowId CrawlSighting.agentId Capped.userAgent
      (sightingOf fmt windowId)) (s.agents, s.crawlSighting)
  .ok { s with agents := agents, crawlSighting := rows }

/-- The row of `crawl_window`. -/
def windowOf (id pollId atMs nodeId : I64) (c : CrawlSnapshot) (dropped : I64) : CrawlWindow :=
  ⟨id, pollId, atMs, nodeId, c.windowMinutes, c.totalRequests, c.forgedBotRequests,
    fmt.json c.forgers, dropped⟩

def addWindow (s : Store) (pollId atMs nodeId : I64) (c : CrawlSnapshot) : Except Halt Store := do
  let (sightings, dropped) ← capSightings c.crawlers
  let id ← nextId s.windowSeq.1
  let status ← c.status.foldlM (addStatus id) s.crawlStatus
  ({ s with
    crawlWindow := s.crawlWindow ++ [windowOf fmt id pollId atMs nodeId c dropped]
    windowSeq := id
    crawlStatus := status } : Store).addSightings fmt id sightings

def due (s : Store) (nodeId atMs : I64) (c : CrawlSnapshot) : Bool :=
  (s.lastCrawlAt.get? nodeId).all fun last =>
    saturate (c.windowMinutes.1 * 60000) ≤ saturate (atMs.1 - last.1)

/-! ## The transaction -/

def insertCrawl (pollId atMs nodeId : I64) (s : Store) (crawled : List (I64 × I64)) :
    Option CrawlSnapshot → Except Halt (Store × List (I64 × I64))
  | some c =>
    if s.due nodeId atMs c then do
      let s ← s.addWindow fmt pollId atMs nodeId c
      .ok (s, crawled ++ [(nodeId, atMs)])
    else .ok (s, crawled)
  | none => .ok (s, crawled)

def insertRow (pollId atMs : I64) (st : Store × List (I64 × I64)) (r : Row) :
    Except Halt (Store × List (I64 × I64)) := do
  let (nodeId, s) ← st.1.nodeId r.node
  let (buildId, s) ← s.buildId r.build
  let (healthId, s) ← s.addHealth pollId atMs nodeId buildId r
  let s ← s.addChannels healthId r.channels
  let s ← s.addNet healthId r.net
  insertCrawl fmt pollId atMs nodeId s st.2 r.crawl

/-- What one write did. -/
structure Written where
  crawlWindows : Nat
  pollId : I64

/-- **Write one poll in one transaction.** -/
def insert (s : Store) (b : Batch) : Except Halt (Store × Written) := do
  let (pollId, s) ← s.addPoll b
  let s ← b.findings.foldlM (addFinding pollId) s
  let (s, crawled) ← b.rows.foldlM (insertRow fmt pollId b.atMs) (s, [])
  .ok ({ s with
      agents := s.agents.forget
      lastCrawlAt := crawled.foldl (fun m e => m.insert e.1 e.2) s.lastCrawlAt },
    ⟨crawled.length, pollId⟩)

/-! ## Pruning -/

def pruneBatch : Nat := 256

/-- The polls that are deleted next: the oldest of those before a poll. -/
def doomed (s : Store) (keepFrom : I64) : List I64 :=
  ((orderBy Poll.id (s.poll.filter fun p => p.id < keepFrom)).take pruneBatch).map Poll.id

def healthGoes (s : Store) (polls : List I64) (healthId : I64) : Bool :=
  s.health.any fun h => h.id = healthId ∧ h.pollId ∈ polls

def windowGoes (s : Store) (polls : List I64) (windowId : I64) : Bool :=
  s.crawlWindow.any fun w => w.id = windowId ∧ w.pollId ∈ polls

def deletePolls (s : Store) (polls : List I64) : Store :=
  { s with
    poll := s.poll.filter fun p => p.id ∉ polls
    pollFinding := s.pollFinding.filter fun f => f.pollId ∉ polls
    health := s.health.filter fun h => h.pollId ∉ polls
    healthChannel := s.healthChannel.filter fun c => !s.healthGoes polls c.healthId
    healthNet := s.healthNet.filter fun n => !s.healthGoes polls n.healthId
    crawlWindow := s.crawlWindow.filter fun w => w.pollId ∉ polls
    crawlSighting := s.crawlSighting.filter fun c => !s.windowGoes polls c.windowId
    crawlStatus := s.crawlStatus.filter fun c => !s.windowGoes polls c.windowId }

def deleteAgents (s : Store) : Store :=
  { s with
    agents := { s.agents with
      table := s.agents.table.filter fun e => e.1 ∈ s.crawlSighting.map CrawlSighting.agentId } }

/-- **One round of pruning.** -/
def prune (keepFrom : I64) (s : Store) : Store := (s.deletePolls (s.doomed keepFrom)).deleteAgents

/-! ## The writer -/

def lastCrawls (windows : List CrawlWindow) : SortedMap I64 I64 :=
  windows.foldl (fun m w =>
    m.insert w.nodeId (((m.get? w.nodeId).map fun last => max last w.atMs).getD w.atMs)) .empty

def reopened (s : Store) : Store :=
  { s with
    nodes := s.nodes.forget
    channels := s.channels.forget
    ifaces := s.ifaces.forget
    agents := s.agents.forget
    builds := s.builds.forget
    lastCrawlAt := lastCrawls s.crawlWindow }

def new : Store where
  nodes := ⟨[], .empty⟩
  channels := ⟨[], .empty⟩
  ifaces := ⟨[], .empty⟩
  agents := ⟨[], .empty⟩
  builds := ⟨[], .empty⟩
  poll := []
  pollFinding := []
  health := []
  healthChannel := []
  healthNet := []
  crawlWindow := []
  crawlSighting := []
  crawlStatus := []
  pollSeq := ⟨0, App.zero_fits⟩
  healthSeq := ⟨0, App.zero_fits⟩
  windowSeq := ⟨0, App.zero_fits⟩
  lastCrawlAt := .empty

def write (s : Store) (b : Batch) (rounds : Nat) : Except Halt Store := do
  let (s, w) ← s.insert fmt b
  .ok ((prune w.pollId)^[rounds] s)

end Store

/-- What the writer does. A write that fails for a reason of its own is a `reopen`. -/
inductive StoreEvent where
  | write (b : Batch) (rounds : Nat)
  | reopen

variable (fmt : Formats)

/-- **The writer**, until the process ends. -/
def Store.step (s : Store) : StoreEvent → Option Store
  | .write b rounds =>
    match s.write fmt b rounds with
    | .ok s' => some s'
    | .error .panic => none
    | .error _ => some s.reopened
  | .reopen => some s.reopened

end M6.Monitor
