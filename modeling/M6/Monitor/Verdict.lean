import M6.Monitor.Digest

/-!
# When the verdict is Ok

A digest without a finding is the monitor's word that the fleet is well. `build_silent_iff` says
what it is that makes a digest silent: every check that is made passes (`Unremarkable`). That is not
all a healthy fleet is (`Healthy`). `Overlooked` says what is not checked, and
`silent_means_healthy_iff` that it is all that is not.
-/

namespace M6.Monitor

open List Text

open App (I64)
open Grouping (distinct)
open Failing (Yields)

/-! ## A healthy fleet -/

/-- **A report of a node that is well.** -/
structure ReportHealthy (t : Thresholds) (r : NodeReading) (p : PerfReport) : Prop where
  pools : ∀ pool ∈ p.pools, pool.active ≠ 0
  backends : p.metrics.backendErrorsTotal = 0
  certificate : expectsTls r p = true → p.tlsUnreadable = 0 ∧ p.tls ≠ [] ∧
    ∀ c ∈ p.tls, t.certExpiryDays.1 * 86400 ≤ c.expiresInSeconds.1

/-- **A node that is well.** -/
structure NodeHealthy (t : Thresholds) (r : NodeReading) : Prop where
  reachable : r.unreachable = none
  ok : r.status = "ok".toList
  perf : ∃ p, r.perf = some p ∧ ReportHealthy t r p
  name : ∀ h ∈ r.health, h.node ≠ [] → eqIgnoreAsciiCase h.node r.name = true

/-- The performance reports of the nodes that gave one. -/
def perfs (readings : List NodeReading) : List PerfReport := readings.filterMap NodeReading.perf

/-- One who speaks alone may be silent; two or more say the same, and something. -/
def AllSay (said : List Str) : Prop := 1 < said.length → ∃ v, v ≠ [] ∧ ∀ s ∈ said, s = v

/-- **A fleet that is well.** -/
structure Healthy (t : Thresholds) (readings : List NodeReading) : Prop where
  nodes : ∀ r ∈ readings, NodeHealthy t r
  versions : AllSay ((perfs readings).map fun p => p.build.version)
  hashes : AllSay ((perfs readings).map fun p => p.build.hash)

/-! ## What raises no finding -/

/-- A refused connection is an answer: the host is there. -/
def Probe.Answered : Probe → Prop
  | connected | refused => True
  | noAnswer _ | failed _ => False

def Handshake.Unremarked (t : Thresholds) : Handshake → Prop
  | .at age => age ≤ t.tunnelHandshakeAgeS
  | .unknown _ => True
  | _ => False

def LogReopenDigest.Unremarked (l : LogReopenDigest) (uptimeS max : UInt64) : Prop :=
  (match l.state with
    | .unknown => False
    | .never => uptimeS ≤ max
    | .ok => ∀ age ∈ l.ageS, age ≤ max
    | .noLogFile => True) ∧
  ∀ f ∈ l.lastFailureAgeS, ∃ ok ∈ l.ageS, ok ≤ f

/-- **A report that raises no finding.** -/
structure ReportUnremarked (t : Thresholds) (r : NodeReading) (p : PerfReport) : Prop where
  requests : p.metrics.cacheHitsTotal.toNat + p.metrics.cacheMissesTotal.toNat < 2 ^ 64
  reopen : ∀ max ∈ t.logReopenAgeS, p.logReopen.Unremarked p.uptimeS max
  pools : ∀ pool ∈ p.pools, pool.active ≠ 0
  backends : p.metrics.backendErrorsTotal = 0
  load : ∀ l ∈ p.host.load, ¬ t.loadPerCpu ≤ p.host.perCpu l
  memory : ∀ c ∈ p.host.memory, ¬ t.memoryUsed ≤ c.usedFraction
  disk : ∀ c ∈ p.host.disk, ¬ t.diskUsed ≤ c.usedFraction
  thermal : ∀ z ∈ hottest p.host.thermal, ¬ t.thermalCelsius ≤ z.celsius
  certificate : expectsTls r p = true → ∃ secs ∈ p.soonest TlsCertificate.expiresInSeconds,
    0 ≤ secs.1 ∧ t.certExpiryDays.1 ≤ days secs.1
  name : ∀ h ∈ r.health, r.name ≠ [] → h.node ≠ [] →
    eqIgnoreAsciiCase h.node r.name = true ∨ h.node = p.node

/-- **A node that raises no finding.** -/
structure NodeUnremarked (t : Thresholds) (r : NodeReading) : Prop where
  reachable : r.unreachable = none
  notDegraded : r.status ≠ "degraded".toList
  probe : ∀ tr ∈ r.tunnel, tr.probe.outcome.Answered
  handshake : ∀ tr ∈ r.tunnel, tr.handshake.Unremarked t
  perf : ∀ p ∈ r.perf, ReportUnremarked t r p
  perfError : r.perf = none → r.perfError = none
  log : ∀ tr ∈ r.traffic, tr.logging.isBlind = false

/-- What a version or a hash is printed as. -/
def said (s : Str) : Str := if s = [] then "unknown".toList else s

/-- When the first certificate of each node ends. -/
def ends (readings : List NodeReading) : List I64 :=
  (perfs readings).filterMap fun p => p.soonest TlsCertificate.notAfterUnix

/-- **A fleet that raises no finding.** -/
structure Unremarkable (t : Thresholds) (readings : List NodeReading) : Prop where
  nodes : ∀ r ∈ readings, NodeUnremarked t r
  versions : ∀ p ∈ perfs readings, ∀ q ∈ perfs readings,
    said p.build.version = said q.build.version
  hashes : ∀ p ∈ perfs readings, ∀ q ∈ perfs readings, said p.build.hash = said q.build.hash
  certificates : ¬ PartlyAgree (ends readings)

/-! ## A node that raises none -/

variable {fmt : Formats} {t : Thresholds}

theorem probe_silent (tr : TunnelReading) :
    ¬ ((tunnelDigest tr).probe = .noAnswer ∨ (tunnelDigest tr).probe = .failed) ↔
      tr.probe.outcome.Answered := by
  rw [tunnelDigest]
  cases tr.probe.outcome <;> simp [Probe.Answered]

theorem handshake_silent (tr : TunnelReading) (name : Str) :
    tunnelFindings t name tr.keyPrefix (tunnelDigest tr) = [] ∧
        fileProblem t tr.fileAgeS (tunnelDigest tr) = none ↔
      tr.probe.outcome.Answered ∧ tr.handshake.Unremarked t := by
  rw [tunnelFindings, append_eq_nil_iff, findingIf_eq_nil, probe_silent, and_assoc]
  refine and_congr_right fun _ => ?_
  rw [fileProblem, tunnelDigest]
  cases tr.handshake <;> simp [Handshake.Unremarked, -String.reduceToList]

variable (r : NodeReading)

theorem tunnel_silent :
    r.tunnelFindings t = [] ∧ r.fileProblem t = none ↔
      (∀ tr ∈ r.tunnel, tr.probe.outcome.Answered) ∧
        ∀ tr ∈ r.tunnel, tr.handshake.Unremarked t := by
  rw [NodeReading.tunnelFindings, NodeReading.fileProblem]
  cases r.tunnel with
  | none => simp
  | some tr =>
    rw [Option.bind_some]
    dsimp only
    rw [handshake_silent]
    simp

theorem reopen_silent (node : Str) (uptimeS max : UInt64) (l : LogReopenDigest) :
    logReopenFindings node uptimeS l max = [] ↔ l.Unremarked uptimeS max := by
  rw [logReopenFindings, LogReopenDigest.Unremarked, append_eq_nil_iff]
  refine and_congr ?_ ?_
  · cases l.state <;> cases l.ageS <;> simp [-String.reduceToList]
  · cases l.lastFailureAgeS with
    | none => simp [-String.reduceToList]
    | some f => cases l.ageS <;> simp [-String.reduceToList]

variable (name : Str)

theorem log_silent (p : PerfReport) :
    reopenFindings t name p = [] ↔
      ∀ max ∈ t.logReopenAgeS, p.logReopen.Unremarked p.uptimeS max := by
  rw [reopenFindings]
  cases t.logReopenAgeS with
  | none => simp
  | some max => simp [reopen_silent]

theorem pools_silent (p : PerfReport) :
    poolFindings name p = [] ↔ ∀ pool ∈ p.pools, pool.active ≠ 0 := by
  rw [poolFindings, flatMap_eq_nil_iff]
  simp only [findingIf_eq_nil, ne_eq]

theorem backends_silent (p : PerfReport) :
    backendErrorFindings name p = [] ↔ p.metrics.backendErrorsTotal = 0 := by
  rw [backendErrorFindings, findingIf_eq_nil]
  exact UInt64.not_lt.trans UInt64.le_zero_iff

theorem load_silent (h : HostSnapshot) :
    loadFindings fmt t name h = [] ↔ ∀ l ∈ h.load, ¬ t.loadPerCpu ≤ h.perCpu l := by
  rw [loadFindings]
  cases h.load <;> simp

theorem capacity_silent (name what : Str) (limit : Float) (c : Option Capacity) :
    capacityFindings fmt name what limit c = [] ↔ ∀ c' ∈ c, ¬ limit ≤ c'.usedFraction := by
  cases c <;> simp [capacityFindings]

theorem thermal_silent (h : HostSnapshot) :
    thermalFindings fmt t name h = [] ↔
      ∀ z ∈ hottest h.thermal, ¬ t.thermalCelsius ≤ z.celsius := by
  rw [thermalFindings]
  cases hottest h.thermal <;> simp

theorem name_silent (p : PerfReport) :
    nameFindings fmt r p = [] ↔ ∀ h ∈ r.health, r.name ≠ [] → h.node ≠ [] →
      eqIgnoreAsciiCase h.node r.name = true ∨ h.node = p.node := by
  rw [nameFindings]
  cases r.health with
  | none => simp
  | some h =>
    simp only [findingIf_eq_nil, Option.mem_some_iff, forall_eq']
    cases eqIgnoreAsciiCase h.node r.name <;> simp

theorem certificate_silent (p : PerfReport) :
    certificateFindings t r p = .ok [] ↔ (expectsTls r p = true →
      ∃ secs ∈ p.soonest TlsCertificate.expiresInSeconds,
        0 ≤ secs.1 ∧ t.certExpiryDays.1 ≤ days secs.1) := by
  rw [certificateFindings]
  cases expectsTls r p with
  | false => simp
  | true =>
    cases p.soonest TlsCertificate.expiresInSeconds with
    | none => simp
    | some secs =>
      dsimp only
      split_ifs with hneg
      · have hnot : ¬ 0 ≤ secs.1 := by omega
        cases hc : checked (-secs.1) <;> simp [bind, Except.bind, hnot, -String.reduceToList]
      · have hle : 0 ≤ secs.1 := by omega
        simp [hle, -String.reduceToList]

/-- **A report raises no finding if all that is checked of it passes.** -/
theorem perf_silent (p : PerfReport) :
    p.Countable ∧ perfFound fmt t r p = [] ↔ ReportUnremarked t r p := by
  have hcert := (certificateFindings_yields (t := t) r p).eq_ok_iff (b := [])
  rw [certificate_silent] at hcert
  rw [perfFound]
  simp only [append_eq_nil_iff, log_silent, pools_silent, backends_silent, load_silent,
    capacity_silent, thermal_silent, name_silent]
  constructor
  · rintro ⟨⟨hrequests, hsecs⟩, ⟨⟨⟨⟨⟨⟨⟨hreopen, hpools⟩, hbackends⟩, hload⟩, hmemory⟩, hdisk⟩,
      hthermal⟩, hcertificate⟩, hname⟩
    exact ⟨hrequests, hreopen, hpools, hbackends, hload, hmemory, hdisk, hthermal,
      hcert.mpr ⟨hsecs, hcertificate⟩, hname⟩
  · intro h
    obtain ⟨hsecs, hcertificate⟩ := hcert.mp h.certificate
    exact ⟨⟨h.requests, hsecs⟩, ⟨⟨⟨⟨⟨⟨⟨h.reopen, h.pools⟩, h.backends⟩, h.load⟩, h.memory⟩,
      h.disk⟩, h.thermal⟩, hcertificate⟩, h.name⟩

theorem quiet_silent : r.quiet = [] ↔ ∀ tr ∈ r.traffic, tr.logging.isBlind = false := by
  rw [NodeReading.quiet]
  cases r.traffic with
  | none => simp
  | some tr =>
    have htext : quietLogText tr.logging = none ↔ tr.logging.isBlind = false := by
      rw [quietLogText]
      cases hs : tr.logging.secondsSinceLast with
      | none => simp [LoggingHealth.isBlind, hs]
      | some s => simp
    simp [quietLogFindings, htext]

/-- **A node raises no finding if all that is checked of it passes.** -/
theorem node_silent :
    r.Countable ∧ r.found fmt t = [] ∧ r.fileProblem t = none ↔ NodeUnremarked t r := by
  have htunnel := tunnel_silent (t := t) r
  cases hup : r.isUp with
  | false =>
    have hgone : r.unreachable ≠ none := by
      intro h
      rw [NodeReading.isUp, h] at hup
      cases hup
    rw [NodeReading.found, hup]
    refine iff_of_false ?_ fun h => hgone h.reachable
    rintro ⟨-, h, -⟩
    simp at h
  | true =>
    have hreach : r.unreachable = none := Option.isNone_iff_eq_none.mp hup
    have hperf : r.Countable ∧ r.perfFound fmt t = [] ↔
        (∀ p ∈ r.perf, ReportUnremarked t r p) ∧ (r.perf = none → r.perfError = none) := by
      rw [NodeReading.Countable, NodeReading.perfFound, hup]
      cases r.perf with
      | none => simp
      | some p => simp [perf_silent]
    rw [NodeReading.found, hup]
    simp only [if_true, append_eq_nil_iff, quiet_silent, NodeReading.degraded, findingIf_eq_nil]
    constructor
    · rintro ⟨hcount, ⟨htun, ⟨hdegraded, hfound⟩, hlog⟩, hfile⟩
      obtain ⟨hprobe, hshake⟩ := htunnel.mp ⟨htun, hfile⟩
      obtain ⟨hreport, herror⟩ := hperf.mp ⟨hcount, hfound⟩
      exact ⟨hreach, hdegraded, hprobe, hshake, hreport, herror, hlog⟩
    · intro h
      obtain ⟨htun, hfile⟩ := htunnel.mpr ⟨h.probe, h.handshake⟩
      obtain ⟨hcount, hfound⟩ := hperf.mpr ⟨h.perf, h.perfError⟩
      exact ⟨hcount, ⟨htun, ⟨h.notDegraded, hfound⟩, h.log⟩, hfile⟩

/-! ## A fleet that raises none -/

variable {readings : List NodeReading}

theorem reporting_shown (hup : ∀ r ∈ readings, r.isUp = true) :
    reporting (readings.map NodeReading.shown) =
      readings.filterMap fun r => r.perf.map fun p => r.digest.withPerf p
        (hitRateOf p.metrics.cacheHitsTotal p.metrics.cacheMissesTotal) := by
  induction readings with
  | nil => rfl
  | cons r readings ih =>
    obtain ⟨hr, hrest⟩ := forall_mem_cons.mp hup
    rw [reporting] at ih
    rw [reporting, map_cons, filter_cons, ih hrest, filterMap_cons, NodeReading.shown, hr]
    cases r.perf <;> rfl

theorem map_reporting {A : Type} (hup : ∀ r ∈ readings, r.isUp = true)
    (figure : NodeDigest → A) (of : PerfReport → A)
    (h : ∀ r p rate, figure (NodeDigest.withPerf r p rate) = of p) :
    (reporting (readings.map NodeReading.shown)).map figure = (perfs readings).map of := by
  rw [reporting_shown hup, perfs, map_filterMap, map_filterMap]
  refine filterMap_congr fun r _ => ?_
  cases r.perf with
  | none => rfl
  | some p => simp [h]

theorem emptyToNone_getD (s : Str) : (emptyToNone s).getD "unknown".toList = said s := by
  rw [emptyToNone, said]
  split_ifs <;> rfl

theorem certified_shown (hup : ∀ r ∈ readings, r.isUp = true) :
    ((certified (reporting (readings.map NodeReading.shown))).map fun n => n.2.1) =
      ends readings := by
  have hboth : ∀ (p : PerfReport), p.soonest TlsCertificate.expiresInSeconds = none ↔
      p.soonest TlsCertificate.notAfterUnix = none := by
    intro p
    rw [PerfReport.soonest, PerfReport.soonest]
    split_ifs <;> simp [min?_eq_none_iff]
  rw [certified, ends, perfs, reporting_shown hup, map_filterMap, filterMap_filterMap,
    filterMap_filterMap]
  refine filterMap_congr fun r _ => ?_
  cases r.perf with
  | none => rfl
  | some p =>
    have := hboth p
    simp only [Option.map_some, Option.bind_some, NodeDigest.withPerf]
    cases hends : p.soonest TlsCertificate.notAfterUnix with
    | none => simp
    | some at_ =>
      cases hsecs : p.soonest TlsCertificate.expiresInSeconds with
      | none => simp [hsecs, hends] at this
      | some secs => simp

theorem drift_silent (hup : ∀ r ∈ readings, r.isUp = true)
    (figure : NodeDigest → Str) (of : PerfReport → Str)
    (h : ∀ r p rate, figure (NodeDigest.withPerf r p rate) = said (of p)) :
    ¬ 1 < (distinct ((reporting (readings.map NodeReading.shown)).map figure)).length ↔
      ∀ p ∈ perfs readings, ∀ q ∈ perfs readings, said (of p) = said (of q) := by
  rw [Grouping.one_lt_length_distinct, map_reporting hup figure (fun p => said (of p)) h]
  push Not
  simp only [forall_mem_map]

theorem agree_of_few {reports : List PerfReport} (h : ¬ 1 < reports.length) {A : Type}
    (of : PerfReport → A) : ∀ p ∈ reports, ∀ q ∈ reports, of p = of q := by
  rcases reports with _ | ⟨p, _ | ⟨q, rest⟩⟩
  · simp
  · simp
  · simp at h

/-- **A fleet raises no finding if its reports agree**, as far as they say something, and its
certificates do not drift. -/
theorem fleet_silent (hup : ∀ r ∈ readings, r.isUp = true) :
    fleetFindings (readings.map NodeReading.shown) = .ok [] ↔
      (∀ p ∈ perfs readings, ∀ q ∈ perfs readings, said p.build.version = said q.build.version) ∧
      (∀ p ∈ perfs readings, ∀ q ∈ perfs readings, said p.build.hash = said q.build.hash) ∧
      ¬ PartlyAgree (ends readings) := by
  have hversions := drift_silent hup NodeDigest.versionText (fun p => p.build.version)
    fun _ p _ => emptyToNone_getD p.build.version
  have hhashes := drift_silent hup NodeDigest.hashText (fun p => p.build.hash)
    fun _ p _ => emptyToNone_getD p.build.hash
  have hlength : (reporting (readings.map NodeReading.shown)).length = (perfs readings).length := by
    have hmap := map_reporting hup (fun _ => ()) (fun _ => ()) fun _ _ _ => rfl
    simpa using congrArg List.length hmap
  obtain ⟨l, hl, hdrift⟩ := certificateDrift_spec (reporting (readings.map NodeReading.shown))
  rw [certified_shown hup] at hdrift
  rw [fleetFindings, hlength]
  by_cases hmany : 1 < (perfs readings).length
  · have hone : (distinct ((reporting (readings.map NodeReading.shown)).map
        NodeDigest.versionText)).length = 1 ↔
        ¬ 1 < (distinct ((reporting (readings.map NodeReading.shown)).map
          NodeDigest.versionText)).length := by
      rw [Grouping.length_distinct_eq_one, Grouping.one_lt_length_distinct]
      have hne : (reporting (readings.map NodeReading.shown)).map NodeDigest.versionText ≠ [] := by
        intro h
        rw [← length_eq_zero_iff, length_map, hlength] at h
        omega
      push Not
      exact and_iff_right hne
    rw [if_pos hmany, hl, ← hversions, ← hhashes, ← hdrift]
    by_cases hv : 1 < (distinct ((reporting (readings.map NodeReading.shown)).map
        NodeDigest.versionText)).length
    · -- the versions drift, and then the builds are not compared
      rw [buildDrift_of_uniform fun h => hone.mp h.1 hv, versionDrift, findingIf, if_pos hv]
      simp [bind, Except.bind, hv]
    · rw [versionDrift, findingIf, if_neg hv]
      by_cases hh : 1 < (distinct ((reporting (readings.map NodeReading.shown)).map
          NodeDigest.hashText)).length
      · refine iff_of_false ?_ fun h => h.2.1 hh
        obtain ⟨f, hf⟩ := buildDrift_of_drifts ⟨hone.mpr hv, hh⟩
        by_cases hslice : ∀ n ∈ reporting (readings.map NodeReading.shown), Sliceable n.hashText
        · rw [hf.ok hslice]
          simp [bind, Except.bind]
        · rw [hf.error hslice]
          simp [bind, Except.bind]
      · rw [buildDrift_of_uniform fun h => hh h.2]
        simp [bind, Except.bind, hv, hh]
  · rw [if_neg hmany]
    refine iff_of_true rfl ⟨agree_of_few hmany _, agree_of_few hmany _, ?_⟩
    rintro ⟨⟨a, ha, b, hb, hne⟩, -⟩
    obtain ⟨p, hp, hpa⟩ := mem_filterMap.mp ha
    obtain ⟨q, hq, hqb⟩ := mem_filterMap.mp hb
    have := agree_of_few hmany (fun p => p.soonest TlsCertificate.notAfterUnix) p hp q hq
    rw [hpa, hqb] at this
    exact hne (Option.some.inj this)

theorem sortFindings_eq_nil {findings : List Finding} :
    sortFindings findings = [] ↔ findings = [] := by
  constructor
  · intro h
    exact perm_nil.mp (h ▸ (Select.orderBy_perm findings).symm)
  · rintro rfl
    rfl

theorem allFound_eq_nil :
    allFound fmt t readings = [] ↔ (∀ r ∈ readings, r.found fmt t = []) ∧
        Failing.value (fleetFindings (readings.map NodeReading.shown)) = [] ∧
        ∀ r ∈ readings, r.fileProblem t = none := by
  rw [allFound, append_eq_nil_iff, append_eq_nil_iff, flatMap_eq_nil_iff, and_assoc,
    ← findSome?_eq_none_iff]
  cases readings.findSome? (NodeReading.fileProblem t) <;> simp

/-- **What makes a digest silent**: all that is checked passes. -/
theorem build_silent_iff (readings : List NodeReading) (now : Str) :
    (∃ d, build fmt t readings now = .ok d ∧ d.findings = []) ↔ Unremarkable t readings := by
  have hbuild : Yields .panic (build fmt t readings now) _ _ := build_yields readings now
  have hdigest : (∃ d, build fmt t readings now = .ok d ∧ d.findings = []) ↔
      Countable readings ∧ allFound fmt t readings = [] := by
    constructor
    · rintro ⟨d, hd, hnil⟩
      obtain ⟨hcount, rfl⟩ := hbuild.eq_ok_iff.mp hd
      exact ⟨hcount, sortFindings_eq_nil.mp hnil⟩
    · rintro ⟨hcount, hnil⟩
      exact ⟨_, hbuild.ok hcount, sortFindings_eq_nil.mpr hnil⟩
  have hfleet := (fleetFindings_yields (readings.map NodeReading.shown)).eq_ok_iff (b := [])
  rw [hdigest, allFound_eq_nil]
  constructor
  · rintro ⟨hcount, hnodes, hnil, hnone⟩
    have hall : ∀ r ∈ readings, NodeUnremarked t r := fun r hr =>
      node_silent r |>.mp ⟨hcount.nodes r hr, hnodes r hr, hnone r hr⟩
    have hup : ∀ r ∈ readings, r.isUp = true := fun r hr =>
      Option.isNone_iff_eq_none.mpr (hall r hr).reachable
    obtain ⟨hversions, hhashes, hcertificates⟩ :=
      (fleet_silent hup).mp (hfleet.mpr ⟨hcount.fleet, hnil⟩)
    exact ⟨hall, hversions, hhashes, hcertificates⟩
  · intro h
    have hup : ∀ r ∈ readings, r.isUp = true := fun r hr =>
      Option.isNone_iff_eq_none.mpr (h.nodes r hr).reachable
    have hnode : ∀ r ∈ readings, r.Countable ∧ r.found fmt t = [] ∧ r.fileProblem t = none :=
      fun r hr => (node_silent r).mpr (h.nodes r hr)
    obtain ⟨hcount, hnil⟩ := hfleet.mp
      ((fleet_silent hup).mpr ⟨h.versions, h.hashes, h.certificates⟩)
    exact ⟨⟨fun r hr => (hnode r hr).1, hcount⟩, fun r hr => (hnode r hr).2.1, hnil,
      fun r hr => (hnode r hr).2.2⟩

/-! ## What is overlooked -/

/-- **What is not well, and is not looked at.** -/
inductive Overlooked (readings : List NodeReading) : Prop
  /-- A node that says neither that it is well nor that it is degraded. -/
  | status {r : NodeReading} (hr : r ∈ readings) (hok : r.status ≠ "ok".toList)
      (hdegraded : r.status ≠ "degraded".toList) (hup : r.unreachable = none)
  /-- A report that was not read, and nobody says why. -/
  | unread {r : NodeReading} (hr : r ∈ readings) (hperf : r.perf = none)
      (herror : r.perfError = none) (hup : r.unreachable = none)
  /-- A node that calls itself something else, in both of its answers, or that has no name here. -/
  | name {r : NodeReading} {h : HealthReport} {p : PerfReport} (hr : r ∈ readings)
      (hhealth : r.health = some h) (hperf : r.perf = some p) (htells : h.node ≠ [])
      (hother : eqIgnoreAsciiCase h.node r.name = false)
      (hnode : r.name = [] ∨ h.node = p.node)
  /-- A node that cannot say its version, among others. -/
  | version {p : PerfReport} (hmany : 1 < (perfs readings).length) (hp : p ∈ perfs readings)
      (hsilent : p.build.version = [])
  /-- A node that cannot say its hash, among others. -/
  | hash {p : PerfReport} (hmany : 1 < (perfs readings).length) (hp : p ∈ perfs readings)
      (hsilent : p.build.hash = [])

theorem days_le {d secs : Int} (hsecs : 0 ≤ secs) (h : d ≤ days secs) : d * 86400 ≤ secs := by
  rw [days, Int.tdiv_eq_ediv_of_nonneg hsecs] at h
  omega

theorem certificate_of_unremarked {r : NodeReading} {p : PerfReport} (h : ReportUnremarked t r p)
    (hexpects : expectsTls r p = true) :
    p.tlsUnreadable = 0 ∧ p.tls ≠ [] ∧
      ∀ c ∈ p.tls, t.certExpiryDays.1 * 86400 ≤ c.expiresInSeconds.1 := by
  obtain ⟨secs, hsecs, hpos, hdays⟩ := h.certificate hexpects
  rw [Option.mem_def, PerfReport.soonest] at hsecs
  split_ifs at hsecs with hreadable
  obtain ⟨hmem, hmin⟩ := min?_eq_some_iff.mp hsecs
  refine ⟨hreadable, ?_, fun c hc => ?_⟩
  · intro hnil
    simp [hnil] at hmem
  · exact (days_le hpos hdays).trans (hmin _ (mem_map_of_mem hc))

theorem allSay_of_said {said' : List Str} (h : ∀ a ∈ said', ∀ b ∈ said', said a = said b)
    (hsay : 1 < said'.length → ∀ a ∈ said', a ≠ []) : AllSay said' := by
  intro hmany
  obtain ⟨v, hv⟩ := exists_mem_of_length_pos (by omega : 0 < said'.length)
  have hself : ∀ a ∈ said', said a = a := fun a ha => if_neg (hsay hmany a ha)
  refine ⟨v, hsay hmany v hv, fun a ha => ?_⟩
  rw [← hself a ha, ← hself v hv]
  exact h a ha v hv

theorem healthy_of_unremarkable (h : Unremarkable t readings)
    (hseen : ¬ Overlooked readings) : Healthy t readings := by
  constructor
  · intro r hr
    have hnode := h.nodes r hr
    have hok : r.status = "ok".toList := by
      by_contra hok
      exact hseen (.status hr hok hnode.notDegraded hnode.reachable)
    cases hperf : r.perf with
    | none => exact absurd (.unread hr hperf (hnode.perfError hperf) hnode.reachable) hseen
    | some p =>
      have hreport := hnode.perf p hperf
      refine ⟨hnode.reachable, hok, ⟨p, hperf, hreport.pools, hreport.backends,
        certificate_of_unremarked hreport⟩, fun rep hrep htells => ?_⟩
      by_contra hother
      refine hseen (.name hr hrep hperf htells (Bool.eq_false_iff.mpr hother) ?_)
      by_cases hname : r.name = []
      · exact .inl hname
      · exact .inr ((hreport.name rep hrep hname htells).resolve_left hother)
  · refine allSay_of_said ?_ ?_
    · simpa only [forall_mem_map] using h.versions
    · intro hmany
      rw [length_map] at hmany
      simp only [forall_mem_map]
      exact fun p hp hsilent => hseen (.version hmany hp hsilent)
  · refine allSay_of_said ?_ ?_
    · simpa only [forall_mem_map] using h.hashes
    · intro hmany
      rw [length_map] at hmany
      simp only [forall_mem_map]
      exact fun p hp hsilent => hseen (.hash hmany hp hsilent)

theorem not_healthy_of_overlooked (h : Overlooked readings) : ¬ Healthy t readings := by
  intro hwell
  cases h with
  | status hr hok hdegraded hup => exact hok (hwell.nodes _ hr).ok
  | unread hr hperf herror hup =>
    obtain ⟨p, hp, -⟩ := (hwell.nodes _ hr).perf
    rw [hperf] at hp
    cases hp
  | name hr hhealth hperf htells hother hnode =>
    have hsame := (hwell.nodes _ hr).name _ hhealth htells
    rw [hother] at hsame
    cases hsame
  | version hmany hp hsilent =>
    obtain ⟨v, hv, hall⟩ := hwell.versions (by rwa [length_map])
    exact hv ((hall _ (mem_map_of_mem hp)).symm.trans hsilent)
  | hash hmany hp hsilent =>
    obtain ⟨v, hv, hall⟩ := hwell.hashes (by rwa [length_map])
    exact hv ((hall _ (mem_map_of_mem hp)).symm.trans hsilent)

/-- **An Ok verdict means a healthy fleet** unless nothing is found of a fleet in which something is
overlooked. -/
theorem silent_means_healthy_iff (fmt : Formats) (t : Thresholds) (readings : List NodeReading)
    (now : Str) :
    (∀ d, build fmt t readings now = .ok d → d.findings = [] → Healthy t readings) ↔
      (Unremarkable t readings → ¬ Overlooked readings) := by
  have hsilent : (∃ d, build fmt t readings now = .ok d ∧ d.findings = []) ↔
      Unremarkable t readings := build_silent_iff readings now
  constructor
  · intro h hquiet hover
    obtain ⟨d, hd, hnil⟩ := hsilent.mpr hquiet
    exact not_healthy_of_overlooked hover (h d hd hnil)
  · intro h d hd hnil
    have hquiet := hsilent.mp ⟨d, hd, hnil⟩
    exact healthy_of_unremarkable hquiet (h hquiet)

/-! ## Two nodes that are too old to say what they run -/

/-- Formatting for what has no floats and no special characters. -/
def plainFormats : Formats where
  fixed _ _ := "0".toList
  fixed32 _ _ := "0".toList
  debug s := '"' :: s ++ ['"']
  widen _ := none
  json ss := '[' :: ", ".toList.intercalate (ss.map fun s => '"' :: s ++ ['"']) ++ [']']

/-- The defaults of a deployment that has no log rotation. -/
def usualThresholds : Thresholds where
  diskUsed := 0.80
  memoryUsed := 0.90
  loadPerCpu := 2.0
  thermalCelsius := 80.0
  certExpiryDays := ⟨21, by decide⟩
  tunnelHandshakeAgeS := 600
  logReopenAgeS := none

/-- Counters that have not counted anything. -/
def noStats : StatsSnapshot where
  requestsTotal := 0
  cacheHitsTotal := 0
  cacheMissesTotal := 0
  backendErrorsTotal := 0
  backendErrorsByName := .empty
  monitorRequestsTotal := 0
  hitSamples := 0
  hitP50Ns := 0
  hitP99Ns := 0
  missSamples := 0
  missP50Ns := 0
  missP99Ns := 0
  channels := []

def oldReport (node : Str) : PerfReport where
  node := node
  build := ⟨[], [], []⟩
  uptimeS := 100
  pools := []
  tls := []
  tlsUnreadable := 0
  logging := none
  metrics := noStats
  host := ⟨none, 1, none, none, [], some 1000, []⟩

def oldNode (name : Str) : NodeReading where
  name := name
  role := "cache".toList
  url := "http://10.0.0.1".toList
  health := some ⟨"ok".toList, name⟩
  perf := some (oldReport name)
  perfError := none
  rtt := none
  headerChecks := []
  traffic := none
  trafficError := some "404: /traffic not available on this node".toList
  unreachable := none
  tunnel := none

def oldFleet : List NodeReading := [oldNode "a".toList, oldNode "b".toList]

theorem oldNode_unremarked {name : Str} (hname : eqIgnoreAsciiCase name name = true) :
    NodeUnremarked usualThresholds (oldNode name) := by
  constructor
  · rfl
  · exact fun h => nomatch h
  · exact fun tr htr => nomatch htr
  · exact fun tr htr => nomatch htr
  · rintro _ ⟨⟩
    have hcounts : (0 : UInt64).toNat + (0 : UInt64).toNat < 2 ^ 64 := by decide
    refine ⟨hcounts, fun _ h => (nomatch h), fun _ h => (nomatch h), rfl, fun _ h => (nomatch h),
      fun _ h => (nomatch h), fun _ h => (nomatch h), fun _ h => (nomatch h), ?_, ?_⟩
    · intro h
      have hplain : expectsTls (oldNode name) (oldReport name) = false := rfl
      rw [hplain] at h
      cases h
    · rintro _ ⟨⟩ _ _
      exact .inl hname
  · exact fun h => nomatch h
  · exact fun tr htr => nomatch htr

theorem silent_though_they_cannot_say :
    ∃ d, build plainFormats usualThresholds oldFleet [] = .ok d ∧ d.findings = [] ∧
      ¬ Healthy usualThresholds oldFleet := by
  have hquiet : Unremarkable usualThresholds oldFleet := by
    refine ⟨?_, by decide, by decide, ?_⟩
    · intro r hr
      rcases mem_pair.mp hr with rfl | rfl
      all_goals exact oldNode_unremarked (by decide)
    · rintro ⟨⟨a, ha, -⟩, -⟩
      have hends : ends oldFleet = [] := rfl
      rw [hends] at ha
      exact not_mem_nil ha
  have hsilent : ∃ d, build plainFormats usualThresholds oldFleet [] = .ok d ∧ d.findings = [] :=
    (build_silent_iff oldFleet []).mpr hquiet
  obtain ⟨d, hd, hnil⟩ := hsilent
  have hp : oldReport "a".toList ∈ perfs oldFleet := mem_cons_self ..
  exact ⟨d, hd, hnil, not_healthy_of_overlooked (.version (by decide) hp rfl)⟩

end M6.Monitor
