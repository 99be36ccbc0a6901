import M6.Core.Request
import M6.Lib.Tally

/-!
# Crawlers and forgers

`TrafficSummary::from_records` of `telemetry.rs`. A user agent that claims to be a crawler is
believed unless its address has forged the claim: it presents many user agents, or it probes.
Addresses and user agents are gathered in two maps, and what a forger did is taken out of the
sightings afterwards.

A `HashMap` is iterated in any order here (`HashOrder`), and `fromGathered_order` says that none of
them shows. `gather_perm` says it of the records. What does show is a forger's paths: they are
counted with those of the genuine addresses of its user agent, and `noTrace_iff` says when they do
not come among the first eight.
-/

namespace M6

open List

namespace Telemetry

/-! ## Records -/

/-- What the summary reads of the fields of a record. -/
structure AnalyticsFields where
  message : Str
  path : Str
  status : Nat
  clientIp : Str
  userAgent : Option Str

structure AnalyticsRecord where
  timestamp : Str
  fields : AnalyticsFields

namespace AnalyticsRecord

def isRequest (rec : AnalyticsRecord) : Bool := rec.fields.message = "request".toList

def userAgent (rec : AnalyticsRecord) : Str := rec.fields.userAgent.getD []

end AnalyticsRecord

/-! ## Classification -/

def botMarkers : List Str :=
  ["bot".toList, "crawl".toList, "spider".toList, "scout".toList, "probe".toList, "slurp".toList,
    "fetcher".toList, "archiver".toList, "amzn-".toList, "gptbot".toList, "claudebot".toList,
    "claude-user".toList, "claude-web".toList, "anthropic".toList, "perplexity".toList,
    "applebot".toList, "bytespider".toList, "ccbot".toList, "facebookexternalhit".toList,
    "twitterbot".toList, "linkedinbot".toList, "mj12".toList, "yandex".toList, "baidu".toList,
    "duckduck".toList, "googlebot".toList, "google-extended".toList, "bingbot".toList,
    "amazonbot".toList, "whatsapp".toList, "discord".toList, "slackbot".toList, "grok".toList,
    "oai-searchbot".toList, "chatgpt-user".toList, "semrush".toList]

def probeMarkers : List Str :=
  [".env".toList, "wp-admin".toList, "wp-login".toList, "phpmyadmin".toList, "/.git".toList,
    "xmlrpc.php".toList, "/admin".toList, "/actuator".toList, "credentials".toList,
    "passwd".toList, "/@fs".toList, "../".toList, "/fetch".toList, "/proxy".toList,
    "/webhook".toList, "/api/fetch".toList, "/redirect".toList, ".aws".toList, ".azure".toList,
    "gcloud".toList, "/shell".toList, "/cgi-bin".toList, "/console".toList, "/.ssh".toList,
    "/config.json".toList]

def injectionMarkers : List Str :=
  ["union select".toList, "or 1=1".toList, "<script".toList, "javascript:".toList,
    "%3cscript".toList, "/etc/passwd".toList, "base64_decode".toList, "concat(".toList,
    "sleep(".toList, "benchmark(".toList]

def matchesAny (haystack : Str) (needles : List Str) : Bool :=
  needles.any fun n => n <:+: Text.toAsciiLowercase haystack

def claimsToBeBot (userAgent : Str) : Bool := matchesAny userAgent botMarkers

def matchesPath (path : Str) (needles : List Str) : Bool :=
  matchesAny path needles || matchesAny (urlDecode path) needles

def looksLikeProbe (path : Str) : Bool := matchesPath path probeMarkers

def looksLikeInjection (path : Str) : Bool := matchesPath path injectionMarkers

/-! ## User agents in a report -/

def isControl (c : Char) : Bool := c.toNat < 0x20 || (0x7f ≤ c.toNat && c.toNat < 0xa0)

/-- `char::escape_debug`, of a control character. -/
def escapeDebug (c : Char) : Str :=
  if c.toNat = 0 then "\\0".toList
  else if c = '\t' then "\\t".toList
  else if c = '\r' then "\\r".toList
  else if c = '\n' then "\\n".toList
  else "\\u\x7b".toList ++ Nat.toDigits 16 c.toNat ++ "\x7d".toList

def showRest (shown : Str) : Str → Str
  | [] => shown
  | c :: rest =>
    let shown := shown ++ (if isControl c then escapeDebug c else [c])
    if 160 < shown.length then shown.take (160 - "...".toList.length) ++ "...".toList
    else showRest shown rest

def reportableUserAgent (ua : Str) : Str := showRest [] ua

/-! ## The summary -/

structure ClientSummary where
  requests : Nat
  distinctUserAgents : Nat
  userAgents : List Str
  status : SortedMap Nat Nat
  paths : List (Str × Nat)
  probePaths : List (Str × Nat)
  injectionPaths : List (Str × Nat)
  firstSeen : Str
  lastSeen : Str
  isRotatingUserAgents : Bool

structure CrawlerSighting where
  userAgent : Str
  requests : Nat
  clientIps : List Str
  paths : List (Str × Nat)
  deriving DecidableEq

structure TrafficSummary where
  totalRequests : Nat
  status : SortedMap Nat Nat
  clients : List (Str × ClientSummary)
  crawlers : List CrawlerSighting
  forgedBotRequests : Nat
  forgers : List Str

/-! ## Gathering -/

/-- What is gathered of an address. -/
structure Acc where
  n : Nat
  uas : SortedMap Str Unit
  paths : SortedMap Str Nat
  status : SortedMap Nat Nat
  first : Str
  last : Str

/-- What is gathered of a user agent. -/
structure UaAcc where
  n : Nat
  ips : SortedMap Str Nat
  paths : SortedMap Str Nat

def bump {K : Type} [LinearOrder K] (m : SortedMap K Nat) (k : K) : SortedMap K Nat :=
  Tally.touch m k 0 (· + 1)

def earlier (a b : Str) : Str := if a < b then a else b

def later (a b : Str) : Str := if a < b then b else a

def Acc.new (rec : AnalyticsRecord) : Acc :=
  ⟨0, .empty, .empty, .empty, rec.timestamp, rec.timestamp⟩

def Acc.add (acc : Acc) (rec : AnalyticsRecord) : Acc where
  n := acc.n + 1
  uas := acc.uas.insert rec.userAgent ()
  paths := bump acc.paths rec.fields.path
  status := bump acc.status rec.fields.status
  first := earlier rec.timestamp acc.first
  last := later acc.last rec.timestamp

def UaAcc.new (_ : AnalyticsRecord) : UaAcc := ⟨0, .empty, .empty⟩

def UaAcc.add (e : UaAcc) (rec : AnalyticsRecord) : UaAcc :=
  ⟨e.n + 1, bump e.ips rec.fields.clientIp, bump e.paths rec.fields.path⟩

/-- What the loop over the records fills. -/
structure Gathered where
  totalRequests : Nat
  status : SortedMap Nat Nat
  perIp : SortedMap Str Acc
  perUa : SortedMap Str UaAcc

def gatherStep (g : Gathered) (rec : AnalyticsRecord) : Gathered :=
  if rec.isRequest then
    { totalRequests := g.totalRequests + 1
      status := bump g.status rec.fields.status
      perIp := Tally.touch g.perIp rec.fields.clientIp (Acc.new rec) fun acc => acc.add rec
      perUa := Tally.touch g.perUa rec.userAgent (UaAcc.new rec) fun e => e.add rec }
  else g

def gather (records : List AnalyticsRecord) : Gathered :=
  records.foldl gatherStep ⟨0, .empty, .empty, .empty⟩

/-! ## Hash maps -/

/-- The places where a hash map or a hash set is iterated. -/
inductive HashSite where
  | forgers
  | forgerSet
  | agents
  | addresses (ua : Str)
  | agentPaths (ua : Str)
  | clients
  | clientPaths (ip : Str)
  | clientAgents (ip : Str)

/-- **The orders of the iterations**, which are those of no run in particular. -/
structure HashOrder where
  iter : {E : Type} → HashSite → List E → List E
  perm : ∀ {E : Type} (site : HashSite) (l : List E), (iter site l).Perm l

/-! ## Summing up -/

def Acc.rotating (a : Acc) : Bool := decide (10 ≤ a.uas.entries.length) && decide (20 ≤ a.n)

def Acc.scanning (a : Acc) : Bool :=
  a.paths.entries.any (fun p => looksLikeProbe p.1) ||
    a.paths.entries.any fun p => looksLikeInjection p.1

section

variable (o : HashOrder)

/-- The addresses whose claims are not believed. -/
def forgersOf (perIp : SortedMap Str Acc) : List Str :=
  ((o.iter .forgers perIp.entries).filter fun e => e.2.rotating || e.2.scanning).map Prod.fst

/-- What an address of a user agent counts for. -/
def genuineOf (forgers : List Str) (e : Str × UaAcc) : List (Str × Nat) :=
  (o.iter (.addresses e.1) e.2.ips.entries).filter fun i => decide (i.1 ∉ forgers)

/-- One user agent: what it adds to the forged requests, and its sighting. -/
def crawlerStep (forgers : List Str) (s : Nat × List CrawlerSighting) (e : Str × UaAcc) :
    Nat × List CrawlerSighting :=
  if claimsToBeBot e.1 then
    let genuine := genuineOf o forgers e
    let genuineN := Tally.total Prod.snd genuine
    let forged := s.1 + (e.2.n - genuineN)
    if genuineN = 0 then (forged, s.2)
    else (forged, s.2 ++ [⟨e.1, genuineN, Select.orderBy id (genuine.map Prod.fst),
      Tally.top 8 (o.iter (.agentPaths e.1) e.2.paths.entries)⟩])
  else s

def sampleUserAgents (ip : Str) (uas : SortedMap Str Unit) : List Str :=
  ((Select.orderBy id ((o.iter (.clientAgents ip) uas.entries).map Prod.fst)).take 4).map
    reportableUserAgent

def clientSummary (e : Str × Acc) : Str × ClientSummary :=
  let paths := Select.orderBy Tally.place (o.iter (.clientPaths e.1) e.2.paths.entries)
  (e.1,
    { requests := e.2.n
      distinctUserAgents := e.2.uas.entries.length
      userAgents := sampleUserAgents o e.1 e.2.uas
      status := e.2.status
      paths := paths.take 16
      probePaths := paths.filter fun p => looksLikeProbe p.1
      injectionPaths := paths.filter fun p => looksLikeInjection p.1
      firstSeen := e.2.first
      lastSeen := e.2.last
      isRotatingUserAgents := e.2.rotating })

def CrawlerSighting.place (s : CrawlerSighting) : Natᵒᵈ ×ₗ Str :=
  Tally.place (s.userAgent, s.requests)

def clientPlace (c : Str × ClientSummary) : Natᵒᵈ ×ₗ Str := Tally.place (c.1, c.2.requests)

def fromGathered (g : Gathered) : TrafficSummary :=
  let forgers := forgersOf o g.perIp
  let crawlers := (o.iter .agents g.perUa.entries).foldl (crawlerStep o forgers) (0, [])
  { totalRequests := g.totalRequests
    status := g.status
    clients := Select.orderBy clientPlace ((o.iter .clients g.perIp.entries).map (clientSummary o))
    crawlers := Select.orderBy CrawlerSighting.place crawlers.2
    forgedBotRequests := crawlers.1
    forgers := Select.orderBy id (o.iter .forgerSet forgers) }

def fromRecords (records : List AnalyticsRecord) : TrafficSummary := fromGathered o (gather records)

end

/-! ## The order of the records -/

theorem bump_comm {K : Type} [LinearOrder K] (m : SortedMap K Nat) (k k' : K) :
    bump (bump m k) k' = bump (bump m k') k :=
  Tally.touch_comm (fun _ => ⟨rfl, fun _ => rfl⟩) m

theorem insert_comm {K : Type} [LinearOrder K] (m : SortedMap K Unit) (k k' : K) :
    (m.insert k ()).insert k' () = (m.insert k' ()).insert k () := by
  refine SortedMap.ext_get? fun x => ?_
  simp only [SortedMap.get?_insert]
  split_ifs <;> rfl

theorem earlier_eq (a b : Str) : earlier a b = min a b := by
  rw [earlier, min_def_lt]
  split_ifs <;> rfl

theorem later_eq (a b : Str) : later a b = max a b := by
  rw [later, max_def_lt]
  split_ifs <;> rfl

theorem Acc.add_comm (acc : Acc) (r r' : AnalyticsRecord) :
    (acc.add r).add r' = (acc.add r').add r := by
  simp only [add, insert_comm acc.uas r.userAgent, bump_comm acc.paths r.fields.path,
    bump_comm acc.status r.fields.status, earlier_eq, later_eq, min_left_comm r.timestamp,
    max_assoc, max_comm r.timestamp]

theorem Acc.add_new (r : AnalyticsRecord) : (Acc.new r).add r =
    ⟨1, SortedMap.empty.insert r.userAgent (), bump .empty r.fields.path,
      bump .empty r.fields.status, r.timestamp, r.timestamp⟩ := by
  simp only [new, add, earlier_eq, later_eq, min_self, max_self]

theorem Acc.new_comm (r r' : AnalyticsRecord) :
    ((Acc.new r).add r).add r' = ((Acc.new r').add r').add r := by
  rw [add_new, add_new]
  simp only [add, insert_comm .empty r.userAgent, bump_comm .empty r.fields.path,
    bump_comm .empty r.fields.status, earlier_eq, later_eq, min_comm r.timestamp,
    max_comm r.timestamp]

theorem UaAcc.add_comm (e : UaAcc) (r r' : AnalyticsRecord) :
    (e.add r).add r' = (e.add r').add r := by
  simp only [add, bump_comm e.ips r.fields.clientIp, bump_comm e.paths r.fields.path]

/-- **The records may come in any order.** -/
theorem gather_perm {records records' : List AnalyticsRecord} (h : records.Perm records') :
    gather records = gather records' := by
  have hcomm : RightCommutative gatherStep := by
    constructor
    intro g r r'
    simp only [gatherStep]
    cases r.isRequest with
    | false => rfl
    | true =>
      cases r'.isRequest with
      | false => rfl
      | true =>
        simp only [if_true, Gathered.mk.injEq, true_and]
        refine ⟨bump_comm _ _ _, Tally.touch_comm (fun _ => ⟨Acc.new_comm r r', fun acc => ?_⟩) _,
          Tally.touch_comm (fun _ => ⟨UaAcc.add_comm _ r r', fun e => ?_⟩) _⟩
        · exact acc.add_comm r r'
        · exact e.add_comm r r'
  exact h.foldl_eq _

/-! ## The order of the iterations -/

def inOrder : HashOrder := ⟨fun _ l => l, fun _ l => .refl l⟩

def sightingOf (forgers : List Str) (e : Str × UaAcc) : Option CrawlerSighting :=
  let genuine := genuineOf inOrder forgers e
  if claimsToBeBot e.1 = true ∧ Tally.total Prod.snd genuine ≠ 0 then
    some ⟨e.1, Tally.total Prod.snd genuine, Select.orderBy id (genuine.map Prod.fst),
      Tally.top 8 e.2.paths.entries⟩
  else none

/-- The requests of a user agent that are discarded. -/
def forgedOf (forgers : List Str) (e : Str × UaAcc) : Nat :=
  if claimsToBeBot e.1 then e.2.n - Tally.total Prod.snd (genuineOf inOrder forgers e) else 0

def summaryOf (g : Gathered) : TrafficSummary :=
  let forgers := forgersOf inOrder g.perIp
  { totalRequests := g.totalRequests
    status := g.status
    clients := Select.orderBy clientPlace (g.perIp.entries.map (clientSummary inOrder))
    crawlers := Select.orderBy CrawlerSighting.place
      (g.perUa.entries.filterMap (sightingOf forgers))
    forgedBotRequests := Tally.total (forgedOf forgers) g.perUa.entries
    forgers := Select.orderBy id forgers }

section

variable {o : HashOrder}

theorem orderBy_id_perm {l l' : List Str} (h : l.Perm l') (hnodup : l.Nodup) :
    Select.orderBy id l = Select.orderBy id l' :=
  Tally.orderBy_perm_eq h (by rwa [map_id])

theorem mem_forgersOf {perIp : SortedMap Str Acc} {ip : Str} :
    ip ∈ forgersOf o perIp ↔
      ∃ acc, perIp.get? ip = some acc ∧ (acc.rotating || acc.scanning) = true := by
  rw [forgersOf, mem_map]
  constructor
  · rintro ⟨⟨ip', acc⟩, hmem, rfl⟩
    obtain ⟨hmem, hforges⟩ := mem_filter.mp hmem
    exact ⟨acc, SortedMap.mem_entries.mp ((o.perm _ _).mem_iff.mp hmem), hforges⟩
  · rintro ⟨acc, hget, hforges⟩
    refine ⟨(ip, acc), mem_filter.mpr ⟨?_, hforges⟩, rfl⟩
    exact (o.perm _ _).mem_iff.mpr (SortedMap.mem_entries.mpr hget)

theorem nodup_forgersOf (perIp : SortedMap Str Acc) : (forgersOf o perIp).Nodup := by
  have hperm : (forgersOf o perIp).Perm (forgersOf inOrder perIp) :=
    ((o.perm .forgers perIp.entries).filter _).map _
  exact hperm.nodup_iff.mpr (perIp.nodup_keys.sublist (filter_sublist.map _))

theorem genuineOf_perm {forgers forgers' : List Str} (h : ∀ ip, ip ∈ forgers ↔ ip ∈ forgers')
    (e : Str × UaAcc) : (genuineOf o forgers e).Perm (genuineOf inOrder forgers' e) := by
  have hsame : (fun i : Str × Nat => decide (i.1 ∉ forgers)) =
      fun i => decide (i.1 ∉ forgers') := by
    funext i
    simp only [h]
  rw [genuineOf, hsame]
  exact (o.perm _ _).filter _

theorem nodup_genuineOf (forgers : List Str) (e : Str × UaAcc) :
    ((genuineOf inOrder forgers e).map Prod.fst).Nodup :=
  e.2.ips.nodup_keys.sublist (filter_sublist.map _)

theorem crawlerStep_eq {forgers forgers' : List Str} (h : ∀ ip, ip ∈ forgers ↔ ip ∈ forgers')
    (s : Nat × List CrawlerSighting) (e : Str × UaAcc) : crawlerStep o forgers s e =
      (s.1 + forgedOf forgers' e, s.2 ++ (sightingOf forgers' e).toList) := by
  have hperm := genuineOf_perm (o := o) h e
  have hips : Select.orderBy id ((genuineOf o forgers e).map Prod.fst) =
      Select.orderBy id ((genuineOf inOrder forgers' e).map Prod.fst) :=
    (orderBy_id_perm (hperm.map Prod.fst).symm (nodup_genuineOf forgers' e)).symm
  have hpaths : Tally.top 8 (o.iter (.agentPaths e.1) e.2.paths.entries) =
      Tally.top 8 e.2.paths.entries := by
    rw [Tally.top, Tally.top,
      Tally.orderBy_perm_eq (o.perm (.agentPaths e.1) e.2.paths.entries).symm
      (Tally.nodup_place e.2.paths.nodup_keys)]
  rw [crawlerStep, forgedOf, sightingOf]
  dsimp only
  rw [Tally.total_perm Prod.snd hperm, hips, hpaths]
  cases claimsToBeBot e.1 with
  | false => simp
  | true =>
    by_cases hzero : Tally.total Prod.snd (genuineOf inOrder forgers' e) = 0
    · simp [hzero]
    · simp [hzero]

theorem foldl_crawlerStep {forgers forgers' : List Str} (h : ∀ ip, ip ∈ forgers ↔ ip ∈ forgers')
    (entries : List (Str × UaAcc)) (s : Nat × List CrawlerSighting) :
    entries.foldl (crawlerStep o forgers) s = (s.1 + Tally.total (forgedOf forgers') entries,
        s.2 ++ entries.filterMap (sightingOf forgers')) := by
  induction entries generalizing s with
  | nil =>
    rw [filterMap_nil, append_nil]
    rfl
  | cons e entries ih =>
    rw [foldl_cons, crawlerStep_eq h, ih, Tally.total_cons, filterMap_cons]
    cases sightingOf forgers' e with
    | none | some sighting => simp [Nat.add_assoc]

theorem sightingOf_userAgent {forgers : List Str} {e : Str × UaAcc} {s : CrawlerSighting}
    (h : sightingOf forgers e = some s) : s.userAgent = e.1 := by
  rw [sightingOf] at h
  split_ifs at h
  cases h
  rfl

theorem nodup_sightings (forgers : List Str) (perUa : SortedMap Str UaAcc) :
    ((perUa.entries.filterMap (sightingOf forgers)).map CrawlerSighting.place).Nodup := by
  have hagents : ((perUa.entries.filterMap (sightingOf forgers)).map
      CrawlerSighting.userAgent).Nodup := by
    rw [map_filterMap]
    refine List.Nodup.sublist ?_ perUa.nodup_keys
    induction perUa.entries with
    | nil => exact nil_sublist _
    | cons e entries ih =>
      rw [filterMap_cons, map_cons]
      cases hsighting : sightingOf forgers e with
      | none => exact ih.cons _
      | some s =>
        rw [Option.map_some, sightingOf_userAgent hsighting]
        exact ih.cons_cons _
  have hmap : (perUa.entries.filterMap (sightingOf forgers)).map CrawlerSighting.userAgent =
      ((perUa.entries.filterMap (sightingOf forgers)).map CrawlerSighting.place).map
        fun x => (ofLex x).2 := by
    rw [map_map]
    rfl
  rw [hmap] at hagents
  exact hagents.of_map _

theorem clientSummary_eq (e : Str × Acc) : clientSummary o e = clientSummary inOrder e := by
  have hpaths := Tally.orderBy_perm_eq (o.perm (.clientPaths e.1) e.2.paths.entries).symm
    (Tally.nodup_place e.2.paths.nodup_keys)
  have huas := orderBy_id_perm
    ((o.perm (.clientAgents e.1) e.2.uas.entries).map Prod.fst).symm e.2.uas.nodup_keys
  rw [clientSummary, clientSummary, sampleUserAgents, sampleUserAgents, ← hpaths, ← huas]
  rfl

theorem nodup_clients (perIp : SortedMap Str Acc) :
    ((perIp.entries.map (clientSummary inOrder)).map clientPlace).Nodup := by
  have hkeys := perIp.nodup_keys
  have hmap : perIp.entries.map Prod.fst =
      ((perIp.entries.map (clientSummary inOrder)).map clientPlace).map
        fun x => (ofLex x).2 := by
    rw [map_map, map_map]
    rfl
  rw [hmap] at hkeys
  exact hkeys.of_map _

end

/-- **The iterations may come in any order.** -/
theorem fromGathered_order (o : HashOrder) (g : Gathered) : fromGathered o g = summaryOf g := by
  have hforgers : ∀ ip, ip ∈ forgersOf o g.perIp ↔ ip ∈ forgersOf inOrder g.perIp :=
    fun ip => mem_forgersOf.trans mem_forgersOf.symm
  have hset : ((o.iter .forgerSet (forgersOf o g.perIp))).Perm (forgersOf inOrder g.perIp) :=
    (o.perm _ _).trans (((o.perm .forgers g.perIp.entries).filter _).map _)
  have hagents := o.perm .agents g.perUa.entries
  have hclients : ((o.iter .clients g.perIp.entries).map (clientSummary o)).Perm
      (g.perIp.entries.map (clientSummary inOrder)) := by
    rw [funext (clientSummary_eq (o := o))]
    exact (o.perm _ _).map _
  rw [fromGathered, summaryOf]
  rw [foldl_crawlerStep hforgers, nil_append, Nat.zero_add, Tally.total_perm _ hagents,
    Tally.orderBy_perm_eq (hagents.filterMap _).symm (nodup_sightings _ g.perUa),
    Tally.orderBy_perm_eq hclients.symm (nodup_clients g.perIp),
    orderBy_id_perm hset.symm (nodup_forgersOf g.perIp)]

/-! ## What is gathered -/

def requestsOf (records : List AnalyticsRecord) : List AnalyticsRecord :=
  records.filter AnalyticsRecord.isRequest

theorem requestsOf_concat (records : List AnalyticsRecord) (r : AnalyticsRecord) :
    requestsOf (records ++ [r]) =
      if r.isRequest then requestsOf records ++ [r] else requestsOf records := by
  rw [requestsOf, filter_append, requestsOf]
  cases hrequest : r.isRequest with
  | false | true => simp [hrequest]

theorem gather_eq (records : List AnalyticsRecord) : gather records =
      { totalRequests := (requestsOf records).length
        status := Tally.tally ((requestsOf records).map fun r => r.fields.status)
        perIp := Tally.groupFold (fun r => r.fields.clientIp) Acc.new Acc.add (requestsOf records)
        perUa := Tally.groupFold AnalyticsRecord.userAgent UaAcc.new UaAcc.add
          (requestsOf records) } := by
  induction records using reverseRecOn with
  | nil => rfl
  | append_singleton records r ih =>
    have hstep : gather (records ++ [r]) = gatherStep (gather records) r := foldl_concat ..
    rw [hstep, ih, gatherStep, requestsOf_concat]
    cases r.isRequest with
    | false => rfl
    | true =>
      simp only [if_true]
      rw [Tally.groupFold_concat, Tally.groupFold_concat, map_append, map_singleton,
        Tally.tally_concat,
        length_append]
      rfl

theorem foldl_uaAdd (rows : List AnalyticsRecord) (r : AnalyticsRecord) :
    rows.foldl UaAcc.add (UaAcc.new r) =
      ⟨rows.length, Tally.tally (rows.map fun r => r.fields.clientIp),
        Tally.tally (rows.map fun r => r.fields.path)⟩ := by
  induction rows using reverseRecOn with
  | nil => rfl
  | append_singleton rows r' ih =>
    rw [foldl_append, ih, map_append, map_append, map_singleton,
      map_singleton, Tally.tally_concat, Tally.tally_concat, length_append]
    rfl

theorem get?_perUa (records : List AnalyticsRecord) (ua : Str) (acc : UaAcc) :
    (gather records).perUa.get? ua = some acc ↔
      (requestsOf records).filter (fun r => r.userAgent = ua) ≠ [] ∧
        acc = ⟨((requestsOf records).filter fun r => r.userAgent = ua).length,
          Tally.tally (((requestsOf records).filter fun r => r.userAgent = ua).map
            fun r => r.fields.clientIp),
          Tally.tally (((requestsOf records).filter fun r => r.userAgent = ua).map
            fun r => r.fields.path)⟩ := by
  rw [gather_eq, Tally.get?_groupFold]
  cases (requestsOf records).filter (fun r => r.userAgent = ua) with
  | nil => simp [Tally.collect]
  | cons r rows =>
    rw [Tally.collect, foldl_uaAdd, Option.some.injEq, and_iff_right (cons_ne_nil _ _)]
    exact eq_comm

theorem foldl_add (rows : List AnalyticsRecord) (r : AnalyticsRecord) :
    (rows.foldl Acc.add (Acc.new r)).n = rows.length ∧
      (rows.foldl Acc.add (Acc.new r)).paths = Tally.tally (rows.map fun r => r.fields.path) ∧
      ∀ ua, (rows.foldl Acc.add (Acc.new r)).uas.get? ua =
        if ua ∈ rows.map AnalyticsRecord.userAgent then some () else none := by
  induction rows using reverseRecOn with
  | nil => exact ⟨rfl, rfl, fun ua => rfl⟩
  | append_singleton rows r' ih =>
    obtain ⟨hn, hpaths, huas⟩ := ih
    rw [foldl_append, map_append, map_append, map_singleton, map_singleton]
    refine ⟨?_, ?_, fun ua => ?_⟩
    · rw [length_append, foldl_cons, foldl_nil, Acc.add, hn]
      rfl
    · rw [Tally.tally_concat, foldl_cons, foldl_nil, Acc.add, hpaths]
      rfl
    · rw [foldl_cons, foldl_nil, Acc.add, SortedMap.get?_insert, huas]
      by_cases hua : ua = r'.userAgent
      · simp [hua]
      · simp [hua]

theorem length_uas {uas : SortedMap Str Unit} {keys : List Str}
    (h : ∀ ua, uas.get? ua = if ua ∈ keys then some () else none) :
    uas.entries.length = keys.dedup.length := by
  have hperm : (uas.entries.map Prod.fst).Perm keys.dedup := by
    refine (perm_ext_iff_of_nodup uas.nodup_keys keys.nodup_dedup).mpr fun ua => ?_
    rw [SortedMap.mem_keys, mem_dedup, h]
    by_cases hua : ua ∈ keys
    · simp [hua]
    · simp [hua]
  rw [← length_map Prod.fst, hperm.length_eq]

/-- **A forger**: many user agents and not only few requests, or a path that probes. -/
def Forges (records : List AnalyticsRecord) (ip : Str) : Prop :=
  let rows := (requestsOf records).filter fun r => r.fields.clientIp = ip
  10 ≤ (rows.map AnalyticsRecord.userAgent).dedup.length ∧ 20 ≤ rows.length ∨
    ∃ r ∈ rows, looksLikeProbe r.fields.path = true ∨ looksLikeInjection r.fields.path = true

theorem mem_forgersOf_gather (records : List AnalyticsRecord) (ip : Str) :
    ip ∈ forgersOf inOrder (gather records).perIp ↔ Forges records ip := by
  rw [mem_forgersOf, gather_eq, Tally.get?_groupFold, Forges]
  cases hrows : (requestsOf records).filter (fun r => r.fields.clientIp = ip) with
  | nil => simp [Tally.collect]
  | cons r rows =>
    obtain ⟨hn, hpaths, huas⟩ := foldl_add (r :: rows) r
    have hany : ∀ needles : Str → Bool,
        (Tally.tally ((r :: rows).map fun r => r.fields.path)).entries.any (fun p => needles p.1) =
          true ↔ ∃ r' ∈ r :: rows, needles r'.fields.path = true := by
      intro needles
      rw [any_eq_true]
      constructor
      · rintro ⟨e, he, hneedle⟩
        obtain ⟨r', hr', hpath⟩ := mem_map.mp (Tally.mem_tally.mp he).1
        exact ⟨r', hr', hpath ▸ hneedle⟩
      · rintro ⟨r', hr', hneedle⟩
        obtain ⟨n, hn⟩ := SortedMap.mem_keys.mp (Tally.mem_keys_tally.mpr
          (mem_map.mpr ⟨r', hr', rfl⟩ :
            r'.fields.path ∈ (r :: rows).map fun r => r.fields.path))
        exact ⟨(r'.fields.path, n), SortedMap.mem_entries.mpr hn, hneedle⟩
    rw [Tally.collect]
    simp only [Option.some.injEq, exists_eq_left', Acc.rotating, Acc.scanning, hn, hpaths,
      length_uas huas, Bool.or_eq_true, Bool.and_eq_true, decide_eq_true_eq, hany]
    refine or_congr Iff.rfl ?_
    simp only [← exists_or, ← and_or_left]

/-! ## Sightings -/

def rowsOf (records : List AnalyticsRecord) (ua : Str) : List AnalyticsRecord :=
  (requestsOf records).filter fun r => r.userAgent = ua

def genuineRows (forgers : List Str) (rows : List AnalyticsRecord) : List AnalyticsRecord :=
  rows.filter fun r => r.fields.clientIp ∉ forgers

def sighting (ua : Str) (genuine counted : List AnalyticsRecord) : CrawlerSighting :=
  ⟨ua, genuine.length,
    Select.orderBy id ((Tally.tally (genuine.map fun r => r.fields.clientIp)).entries.map Prod.fst),
    Tally.top 8 (Tally.tally (counted.map fun r => r.fields.path)).entries⟩

theorem genuineOf_tally (forgers : List Str) (ua : Str) (n : Nat) (rows : List AnalyticsRecord)
    (paths : SortedMap Str Nat) :
    genuineOf inOrder forgers (ua, ⟨n, Tally.tally (rows.map fun r => r.fields.clientIp), paths⟩) =
      (Tally.tally ((genuineRows forgers rows).map fun r => r.fields.clientIp)).entries := by
  have hips : (rows.map fun r => r.fields.clientIp).filter (fun ip => ip ∉ forgers) =
      (genuineRows forgers rows).map fun r => r.fields.clientIp := by
    rw [filter_map]
    rfl
  rw [← hips, ← Tally.filter_tally]
  rfl

theorem sightingOf_tally (forgers : List Str) (ua : Str) (rows : List AnalyticsRecord) :
    sightingOf forgers (ua, ⟨rows.length, Tally.tally (rows.map fun r => r.fields.clientIp),
        Tally.tally (rows.map fun r => r.fields.path)⟩) =
      if claimsToBeBot ua = true ∧ genuineRows forgers rows ≠ [] then
        some (sighting ua (genuineRows forgers rows) rows)
      else none := by
  rw [sightingOf, genuineOf_tally]
  dsimp only
  rw [Tally.total_tally, length_map]
  simp only [ne_eq, length_eq_zero_iff]
  rfl

/-- **The sightings of a summary.** -/
theorem mem_sightings {forgers : List Str} {records : List AnalyticsRecord} {s : CrawlerSighting} :
    s ∈ (gather records).perUa.entries.filterMap (sightingOf forgers) ↔
      ∃ ua, claimsToBeBot ua = true ∧ genuineRows forgers (rowsOf records ua) ≠ [] ∧
        s = sighting ua (genuineRows forgers (rowsOf records ua)) (rowsOf records ua) := by
  rw [mem_filterMap]
  constructor
  · rintro ⟨⟨ua, acc⟩, hmem, hsighting⟩
    obtain ⟨-, rfl⟩ := (get?_perUa records ua acc).mp (SortedMap.mem_entries.mp hmem)
    rw [sightingOf_tally] at hsighting
    split_ifs at hsighting with hboth
    exact ⟨ua, hboth.1, hboth.2, (Option.some.inj hsighting).symm⟩
  · rintro ⟨ua, hbot, hgenuine, rfl⟩
    have hrows : rowsOf records ua ≠ [] := by
      intro hnil
      rw [hnil] at hgenuine
      exact hgenuine rfl
    refine ⟨_, SortedMap.mem_entries.mpr ((get?_perUa records ua _).mpr ⟨hrows, rfl⟩), ?_⟩
    rw [sightingOf_tally]
    exact if_pos ⟨hbot, hgenuine⟩

/-! ## Without the forgers -/

def without (forgers : List Str) (records : List AnalyticsRecord) : List AnalyticsRecord :=
  records.filter fun r => r.fields.clientIp ∉ forgers

theorem requestsOf_without (forgers : List Str) (records : List AnalyticsRecord) :
    requestsOf (without forgers records) = without forgers (requestsOf records) := by
  rw [requestsOf, without, without, requestsOf, filter_comm]

theorem rowsOf_without (forgers : List Str) (records : List AnalyticsRecord) (ua : Str) :
    rowsOf (without forgers records) ua = genuineRows forgers (rowsOf records ua) := by
  rw [rowsOf, requestsOf_without, without, genuineRows, rowsOf, filter_comm]

theorem forgersOf_without {forgers : List Str} {records : List AnalyticsRecord}
    (h : ∀ ip, ip ∈ forgers ↔ Forges records ip) :
    forgersOf inOrder (gather (without forgers records)).perIp = [] := by
  refine eq_nil_iff_forall_not_mem.mpr fun ip hip => ?_
  rw [mem_forgersOf_gather, Forges, requestsOf_without, without, filter_comm] at hip
  by_cases hforger : ip ∈ forgers
  · have hnone : ((requestsOf records).filter fun r => r.fields.clientIp = ip).filter
        (fun r => r.fields.clientIp ∉ forgers) = [] := by
      refine filter_eq_nil_iff.mpr fun r hr => ?_
      have heq := of_decide_eq_true (mem_filter.mp hr).2
      simpa [heq] using hforger
    rw [hnone] at hip
    simp at hip
  · have hall : ((requestsOf records).filter fun r => r.fields.clientIp = ip).filter
        (fun r => r.fields.clientIp ∉ forgers) =
        (requestsOf records).filter fun r => r.fields.clientIp = ip := by
      refine filter_eq_self.mpr fun r hr => ?_
      have heq := of_decide_eq_true (mem_filter.mp hr).2
      simpa [heq] using hforger
    rw [hall] at hip
    exact hforger ((h ip).mpr hip)

/-- **The crawlers are the same without the forgers** exactly if the paths of each of them are. -/
theorem crawlers_eq_iff {forgers : List Str} {records : List AnalyticsRecord}
    (h : ∀ ip, ip ∈ forgers ↔ Forges records ip) : (summaryOf (gather records)).crawlers =
        (summaryOf (gather (without forgers records))).crawlers ↔
      ∀ ua, claimsToBeBot ua = true → genuineRows forgers (rowsOf records ua) ≠ [] →
        Tally.top 8 (Tally.tally ((rowsOf records ua).map fun r => r.fields.path)).entries =
          Tally.top 8 (Tally.tally ((genuineRows forgers (rowsOf records ua)).map
            fun r => r.fields.path)).entries := by
  have hsame : ∀ ip, ip ∈ forgersOf inOrder (gather records).perIp ↔ ip ∈ forgers :=
    fun ip => (mem_forgersOf_gather records ip).trans (h ip).symm
  have hrows : ∀ ua, genuineRows (forgersOf inOrder (gather records).perIp) (rowsOf records ua) =
      genuineRows forgers (rowsOf records ua) := by
    intro ua
    refine filter_congr fun r _ => ?_
    simp only [hsame]
  have hnone : ∀ rows, genuineRows [] rows = rows := fun rows => by simp [genuineRows]
  have hmem : ∀ s, s ∈ (summaryOf (gather records)).crawlers ↔
      ∃ ua, claimsToBeBot ua = true ∧ genuineRows forgers (rowsOf records ua) ≠ [] ∧
        s = sighting ua (genuineRows forgers (rowsOf records ua)) (rowsOf records ua) := by
    intro s
    have hsightings := @mem_sightings (forgersOf inOrder (gather records).perIp) records s
    simp only [hrows] at hsightings
    exact Select.mem_orderBy.trans hsightings
  have hmem' : ∀ s, s ∈ (summaryOf (gather (without forgers records))).crawlers ↔
      ∃ ua, claimsToBeBot ua = true ∧ genuineRows forgers (rowsOf records ua) ≠ [] ∧
        s = sighting ua (genuineRows forgers (rowsOf records ua))
          (genuineRows forgers (rowsOf records ua)) := by
    intro s
    have hsightings := @mem_sightings [] (without forgers records) s
    simp only [hnone, rowsOf_without] at hsightings
    rw [← forgersOf_without h] at hsightings
    exact Select.mem_orderBy.trans hsightings
  constructor
  · intro heq ua hbot hgenuine
    have hin := (hmem _).mpr ⟨ua, hbot, hgenuine, rfl⟩
    rw [heq] at hin
    obtain ⟨ua', -, -, hsighting⟩ := (hmem' _).mp hin
    obtain rfl : ua = ua' := congrArg CrawlerSighting.userAgent hsighting
    exact congrArg CrawlerSighting.paths hsighting
  · intro hpaths
    have hsighting : ∀ ua, claimsToBeBot ua = true → genuineRows forgers (rowsOf records ua) ≠ [] →
        sighting ua (genuineRows forgers (rowsOf records ua)) (rowsOf records ua) =
          sighting ua (genuineRows forgers (rowsOf records ua))
            (genuineRows forgers (rowsOf records ua)) := by
      intro ua hbot hgenuine
      rw [sighting, sighting, hpaths ua hbot hgenuine]
    refine Tally.eq_of_mem_iff (Select.orderBy_lt (nodup_sightings _ _))
      (Select.orderBy_lt (nodup_sightings _ _)) fun s => ?_
    refine (hmem s).trans (Iff.trans ?_ (hmem' s).symm)
    refine exists_congr fun ua => and_congr_right fun hbot => and_congr_right fun hgenuine => ?_
    rw [hsighting ua hbot hgenuine]

/-! ## Paths -/

def hits (rows : List AnalyticsRecord) (path : Str) : Nat :=
  rows.countP fun r => r.fields.path = path

def Outranks (rows : List AnalyticsRecord) (path path' : Str) : Prop :=
  hits rows path' < hits rows path ∨ hits rows path = hits rows path' ∧ path < path'

theorem countP_paths (rows : List AnalyticsRecord) (path : Str) :
    (rows.map fun r => r.fields.path).countP (fun p => p = path) = hits rows path := by
  rw [countP_map]
  rfl

theorem hits_eq (forgers : List Str) (rows : List AnalyticsRecord) (path : Str) :
    hits rows path = hits (genuineRows forgers rows) path +
      rows.countP fun r =>
        decide (r.fields.path = path) && decide (r.fields.clientIp ∈ forgers) := by
  have hfilter := countP_eq_countP_filter_add rows
    (fun r => decide (r.fields.path = path)) fun r => decide (r.fields.clientIp ∉ forgers)
  rw [hits, hfilter, hits, genuineRows]
  congr 1
  rw [countP_filter]
  refine countP_congr fun r _ => ?_
  simp

theorem mem_paths {rows : List AnalyticsRecord} {path : Str} :
    path ∈ (rows.map fun r => r.fields.path) ↔ 0 < hits rows path := by
  rw [hits, countP_pos_iff, mem_map]
  simp only [decide_eq_true_eq]

theorem mem_tally_paths {rows : List AnalyticsRecord} {path : Str} {n : Nat} :
    (path, n) ∈ (Tally.tally (rows.map fun r => r.fields.path)).entries ↔
      0 < hits rows path ∧ n = hits rows path := by
  rw [Tally.mem_tally, mem_paths, countP_paths]

def forged (forgers : List Str) (rows : List AnalyticsRecord) (path : Str) : Bool :=
  rows.any fun r => decide (r.fields.path = path) && decide (r.fields.clientIp ∈ forgers)

theorem less_paths (forgers : List Str) (rows : List AnalyticsRecord) :
    Tally.Less (Tally.tally (rows.map fun r => r.fields.path)).entries
      (Tally.tally ((genuineRows forgers rows).map fun r => r.fields.path)).entries
      (forged forgers rows) where
  nodup_more := SortedMap.nodup_keys _
  nodup_less := SortedMap.nodup_keys _
  keeps path n hforged := by
    have hnone : rows.countP (fun r => decide (r.fields.path = path) &&
        decide (r.fields.clientIp ∈ forgers)) = 0 := by
      refine countP_eq_zero.mpr fun r hr => ?_
      rw [forged, any_eq_false] at hforged
      exact hforged r hr
    have heq := hits_eq forgers rows path
    rw [hnone, Nat.add_zero] at heq
    rw [mem_tally_paths, mem_tally_paths, heq]
  loses path n hforged hmem := by
    have hsome : 0 < rows.countP (fun r => decide (r.fields.path = path) &&
        decide (r.fields.clientIp ∈ forgers)) :=
      countP_pos_iff.mpr (any_eq_true.mp hforged)
    have heq := hits_eq forgers rows path
    obtain ⟨hpos, hn⟩ := mem_tally_paths.mp hmem
    exact ⟨hits rows path, mem_tally_paths.mpr ⟨by omega, rfl⟩, by omega⟩

theorem eight_before_iff (forgers : List Str) (rows : List AnalyticsRecord) (path : Str) :
    8 ≤ (Tally.tally (rows.map fun r => r.fields.path)).entries.countP
        (fun x => forged forgers rows x.1 = false ∧
          Tally.place x < Tally.place (path, hits rows path)) ↔
      ∃ paths : List Str, paths.Nodup ∧ paths.length = 8 ∧ ∀ p ∈ paths,
        0 < hits rows p ∧ forged forgers rows p = false ∧ Outranks rows p path := by
  have hplace : ∀ p, Tally.place (p, hits rows p) < Tally.place (path, hits rows path) ↔
      Outranks rows p path := fun p => Tally.place_lt
  rw [countP_eq_length_filter]
  generalize hfilter : (Tally.tally (rows.map fun r => r.fields.path)).entries.filter
    (fun x => forged forgers rows x.1 = false ∧
      Tally.place x < Tally.place (path, hits rows path)) = before
  have hmem : ∀ p, p ∈ before.map Prod.fst ↔
      0 < hits rows p ∧ forged forgers rows p = false ∧ Outranks rows p path := by
    intro p
    rw [← hfilter, mem_map]
    constructor
    · rintro ⟨⟨p', n⟩, he, rfl⟩
      obtain ⟨he, hboth⟩ := mem_filter.mp he
      obtain ⟨hpos, rfl⟩ := mem_tally_paths.mp he
      obtain ⟨hforged, hbefore⟩ := of_decide_eq_true hboth
      exact ⟨hpos, hforged, (hplace p').mp hbefore⟩
    · rintro ⟨hpos, hforged, houtranks⟩
      refine ⟨(p, hits rows p), mem_filter.mpr ⟨mem_tally_paths.mpr ⟨hpos, rfl⟩, ?_⟩, rfl⟩
      exact decide_eq_true ⟨hforged, (hplace p).mpr houtranks⟩
  have hnodup : (before.map Prod.fst).Nodup := by
    rw [← hfilter]
    exact (SortedMap.nodup_keys _).sublist (filter_sublist.map _)
  rw [← length_map Prod.fst]
  constructor
  · intro hlength
    refine ⟨(before.map Prod.fst).take 8, hnodup.sublist (take_sublist _ _), ?_,
      fun p hp => ?_⟩
    · rw [length_take]
      exact Nat.min_eq_left hlength
    · exact (hmem p).mp (mem_of_mem_take hp)
  · rintro ⟨paths, hpaths, hlength, hall⟩
    rw [← hlength]
    exact (hpaths.subperm fun p hp => (hmem p).mpr (hall p hp)).length_le

/-! ## Leaving no trace -/

/-- **Forged claims leave no trace.** -/
structure NoTrace (records : List AnalyticsRecord) : Prop where
  /-- the crawlers are those of the other addresses alone -/
  crawlers : ∀ o o', (fromRecords o records).crawlers =
    (fromRecords o' (without (fromRecords o records).forgers records)).crawlers
  /-- every request that claims to be a crawler's is counted, as genuine or as forged -/
  counted : ∀ o, Tally.total CrawlerSighting.requests (fromRecords o records).crawlers +
      (fromRecords o records).forgedBotRequests =
    (records.filter fun r => r.isRequest && claimsToBeBot r.userAgent).length
  /-- and no order shows -/
  reordered : ∀ o o' records', records.Perm records' →
    fromRecords o records = fromRecords o' records'

/-- **The paths of the forgers stay behind**: under each user agent that a genuine address claims to
be a crawler with, eight paths that no forger requested stand before each that one did. -/
def ForgersBehind (records : List AnalyticsRecord) : Prop :=
  ∀ ua, claimsToBeBot ua = true →
    (∃ r ∈ rowsOf records ua, ¬ Forges records r.fields.clientIp) →
    ∀ r ∈ rowsOf records ua, Forges records r.fields.clientIp →
      ∃ paths : List Str, paths.Nodup ∧ paths.length = 8 ∧ ∀ p ∈ paths,
        0 < hits (rowsOf records ua) p ∧
        (∀ r' ∈ rowsOf records ua, Forges records r'.fields.clientIp → r'.fields.path ≠ p) ∧
        Outranks (rowsOf records ua) p r.fields.path

theorem forgers_summaryOf (records : List AnalyticsRecord) (ip : Str) :
    ip ∈ (summaryOf (gather records)).forgers ↔ Forges records ip :=
  Select.mem_orderBy.trans (mem_forgersOf_gather records ip)

theorem crawlers_iff_forgersBehind (records : List AnalyticsRecord) :
    (summaryOf (gather records)).crawlers =
        (summaryOf (gather (without (summaryOf (gather records)).forgers records))).crawlers ↔
      ForgersBehind records := by
  generalize hforgers : (summaryOf (gather records)).forgers = forgers
  have h : ∀ ip, ip ∈ forgers ↔ Forges records ip := fun ip =>
    hforgers ▸ forgers_summaryOf records ip
  rw [crawlers_eq_iff h, ForgersBehind]
  refine forall_congr' fun ua => imp_congr_right fun _ => ?_
  have hgenuine : genuineRows forgers (rowsOf records ua) ≠ [] ↔
      ∃ r ∈ rowsOf records ua, ¬ Forges records r.fields.clientIp := by
    rw [genuineRows, ne_eq, filter_eq_nil_iff]
    push Not
    simp only [decide_eq_true_eq, h]
  have hforged : ∀ p, forged forgers (rowsOf records ua) p = false ↔
      ∀ r ∈ rowsOf records ua, Forges records r.fields.clientIp → r.fields.path ≠ p := by
    intro p
    rw [forged, any_eq_false]
    simp only [Bool.and_eq_true, decide_eq_true_eq, h, not_and]
    exact forall_congr' fun r => imp_congr_right fun _ => ⟨fun hr hf hp => hr hp hf,
      fun hr hp hf => hr hf hp⟩
  rw [hgenuine, (less_paths forgers (rowsOf records ua)).top_eq_iff]
  refine imp_congr_right fun _ => ?_
  simp only [← hforged]
  constructor
  · intro hall r hr hforges
    have hforgedPath : forged forgers (rowsOf records ua) r.fields.path = true :=
      any_eq_true.mpr ⟨r, hr, by simp [h, hforges]⟩
    have hpos : 0 < hits (rowsOf records ua) r.fields.path :=
      mem_paths.mp (mem_map.mpr ⟨r, hr, rfl⟩)
    exact (eight_before_iff _ _ _).mp (hall _ _ hforgedPath (mem_tally_paths.mpr ⟨hpos, rfl⟩))
  · intro hall path n hforgedPath hmem
    obtain ⟨r, hr, hboth⟩ := any_eq_true.mp hforgedPath
    simp only [Bool.and_eq_true, decide_eq_true_eq] at hboth
    obtain ⟨-, rfl⟩ := mem_tally_paths.mp hmem
    refine (eight_before_iff _ _ _).mpr ?_
    rw [← hboth.1]
    exact hall r hr ((h _).mp hboth.2)

/-- **Every request that claims to be a crawler's is counted once.** -/
theorem total_crawlers (records : List AnalyticsRecord) :
    Tally.total CrawlerSighting.requests (summaryOf (gather records)).crawlers +
        (summaryOf (gather records)).forgedBotRequests =
      (records.filter fun r => r.isRequest && claimsToBeBot r.userAgent).length := by
  generalize hforgers : forgersOf inOrder (gather records).perIp = forgers
  have hone : ∀ e ∈ (gather records).perUa.entries,
      ((sightingOf forgers e).elim 0 CrawlerSighting.requests) + forgedOf forgers e =
        if claimsToBeBot e.1 then e.2.n else 0 := by
    rintro ⟨ua, acc⟩ hmem
    obtain ⟨-, rfl⟩ := (get?_perUa records ua acc).mp (SortedMap.mem_entries.mp hmem)
    rw [sightingOf_tally, forgedOf, genuineOf_tally]
    dsimp only
    rw [Tally.total_tally, length_map]
    have hle :
        (genuineRows forgers ((requestsOf records).filter fun r => r.userAgent = ua)).length ≤
          ((requestsOf records).filter fun r => r.userAgent = ua).length :=
      length_filter_le _ _
    cases claimsToBeBot ua with
    | false => simp
    | true =>
      by_cases hnil :
          genuineRows forgers ((requestsOf records).filter fun r => r.userAgent = ua) = []
      · simp [hnil]
      · simp only [hnil, ne_eq, not_false_eq_true, and_self, if_true, Option.elim_some, sighting]
        omega
  have hsum : ∀ entries : List (Str × UaAcc), (∀ e ∈ entries,
      ((sightingOf forgers e).elim 0 CrawlerSighting.requests) + forgedOf forgers e =
        if claimsToBeBot e.1 then e.2.n else 0) →
      Tally.total CrawlerSighting.requests (entries.filterMap (sightingOf forgers)) +
          Tally.total (forgedOf forgers) entries =
        Tally.total (fun e => if claimsToBeBot e.1 then e.2.n else 0) entries := by
    intro entries h
    induction entries with
    | nil => rfl
    | cons e entries ih =>
      have hhead := h e mem_cons_self
      have htail := ih fun e' he' => h e' (mem_cons_of_mem _ he')
      rw [filterMap_cons, Tally.total_cons, Tally.total_cons, ← hhead, ← htail]
      cases sightingOf forgers e with
      | none =>
        simp only [Option.elim_none]
        omega
      | some s =>
        simp only [Option.elim_some, Tally.total_cons]
        omega
  have hgroups : Tally.total (fun e : Str × UaAcc => if claimsToBeBot e.1 then e.2.n else 0)
      (gather records).perUa.entries =
      Tally.total (fun r : AnalyticsRecord => if claimsToBeBot r.userAgent then 1 else 0)
        (requestsOf records) := by
    rw [gather_eq]
    refine Tally.total_groupFold (fun r => ?_) (fun a r => ?_) _
    · rfl
    · dsimp only
      split_ifs
      · rfl
      · rfl
  have hcount : ∀ rows : List AnalyticsRecord,
      Tally.total (fun r => if claimsToBeBot r.userAgent then 1 else 0) rows =
        (rows.filter fun r => claimsToBeBot r.userAgent).length := by
    intro rows
    induction rows with
    | nil => rfl
    | cons r rows ih =>
      rw [Tally.total_cons, ih, filter_cons]
      split_ifs
      · rw [length_cons, Nat.add_comm]
      · rw [Nat.zero_add]
  have hcrawlers : Tally.total CrawlerSighting.requests (summaryOf (gather records)).crawlers =
      Tally.total CrawlerSighting.requests
        ((gather records).perUa.entries.filterMap (sightingOf forgers)) := by
    rw [← hforgers]
    exact Tally.total_perm _ (Select.orderBy_perm _)
  have hforged : (summaryOf (gather records)).forgedBotRequests =
      Tally.total (forgedOf forgers) (gather records).perUa.entries := by
    rw [← hforgers]
    rfl
  rw [hcrawlers, hforged, hsum _ hone, hgroups, hcount, requestsOf, filter_filter]
  refine congrArg List.length (filter_congr fun r _ => Bool.and_comm _ _)

/-- **Forged claims leave no trace exactly if the paths of the forgers stay behind.** -/
theorem noTrace_iff (records : List AnalyticsRecord) : NoTrace records ↔ ForgersBehind records := by
  have hfrom : ∀ o records, fromRecords o records = summaryOf (gather records) :=
    fun o records => fromGathered_order o (gather records)
  rw [← crawlers_iff_forgersBehind]
  constructor
  · intro h
    have hcrawlers := h.crawlers inOrder inOrder
    rwa [hfrom, hfrom] at hcrawlers
  · intro h
    refine ⟨fun o o' => ?_, fun o => ?_, fun o o' records' hperm => ?_⟩
    · rw [hfrom, hfrom]
      exact h
    · rw [hfrom]
      exact total_crawlers records
    · rw [hfrom, hfrom, gather_perm hperm]

/-! ## A shared user agent -/

def requestOf (ip path : Str) : AnalyticsRecord :=
  ⟨"2026-01-01T00:00:00Z".toList,
    ⟨"request".toList, path, 200, ip, some "ClaudeBot/1.0".toList⟩⟩

/-- A crawler and a scanner that use one name. -/
def sharedAgent : List AnalyticsRecord :=
  [requestOf "192.0.2.1".toList "/a".toList, requestOf "192.0.2.2".toList "/.env".toList]

/-- **A forger's path among those of a crawler.** The scanner is known as a forger, and its request
is not counted. Its path is. -/
theorem sharedAgent_traced :
    (fromRecords inOrder sharedAgent).forgers = ["192.0.2.2".toList] ∧
    (fromRecords inOrder sharedAgent).crawlers = [⟨"ClaudeBot/1.0".toList, 1,
      ["192.0.2.1".toList], [("/.env".toList, 1), ("/a".toList, 1)]⟩] ∧
    (fromRecords inOrder (without ["192.0.2.2".toList] sharedAgent)).crawlers =
      [⟨"ClaudeBot/1.0".toList, 1, ["192.0.2.1".toList], [("/a".toList, 1)]⟩] ∧
    ¬ NoTrace sharedAgent := by
  have hforgers : (fromRecords inOrder sharedAgent).forgers = ["192.0.2.2".toList] := by
    decide +kernel
  have hcrawlers : (fromRecords inOrder sharedAgent).crawlers = [⟨"ClaudeBot/1.0".toList, 1,
      ["192.0.2.1".toList], [("/.env".toList, 1), ("/a".toList, 1)]⟩] := by
    decide +kernel
  have hwithout : (fromRecords inOrder (without ["192.0.2.2".toList] sharedAgent)).crawlers =
      [⟨"ClaudeBot/1.0".toList, 1, ["192.0.2.1".toList], [("/a".toList, 1)]⟩] := by
    decide +kernel
  refine ⟨hforgers, hcrawlers, hwithout, fun h => ?_⟩
  have heq := h.crawlers inOrder inOrder
  rw [hforgers, hcrawlers, hwithout] at heq
  exact absurd heq (by decide +kernel)

end Telemetry

end M6
