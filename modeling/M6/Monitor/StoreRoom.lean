import Mathlib.Algebra.BigOperators.Group.List.Basic
import M6.Monitor.StoreSound

/-!
# When a poll is stored

A transaction never ends the process (`insert_avoids_panic`). It commits if the rows of the poll can
be stored (`Row.Storable`: no name and no code twice) and the tables have room for as many ids as
the poll may need (`insert_ok`).
-/

namespace M6.Monitor

open List

open App (I64)
open Failing (Avoids bind_eq_ok)
open Interning (Interner link)
open Select (named orderBy)

/-! ## No panic -/

theorem db_ne_panic : Halt.db ≠ Halt.panic := fun h => nomatch h

theorem nextId_avoids (last : Int) : Avoids Halt.panic (nextId last) := by
  rw [nextId]
  cases toI64 (last + 1) with
  | some id => exact Avoids.of_ok _
  | none => exact Avoids.of_error db_ne_panic

theorem freshId_avoids (ids : List I64) : Avoids Halt.panic (freshId ids) := nextId_avoids _

theorem links_avoid {R D : Type} (ownerOf refOf : R → I64) (name : D → Str) (row : D → I64 → R)
    (ds : List D) (st : Interner I64 Str Str × List R) :
    Avoids Halt.panic (ds.foldlM (link freshId .db .db ownerOf refOf name row) st) :=
  Avoids.foldlM (Interning.link_avoids freshId_avoids db_ne_panic db_ne_panic) ds st

theorem capSighting_ok (out : List Capped) (c : CrawlerReport) :
    ∃ ua, Text.truncate c.userAgent maxAgentBytes = some ua ∧ capSighting out c =
      .ok (if out.any fun m => m.userAgent = ua then
        out.map fun m => if m.userAgent = ua then m.merge c else m
      else out ++ [⟨ua, iu c.requests.toNat, c.clientIps, c.paths⟩]) := by
  obtain ⟨ua, hua, -⟩ := Text.truncate_spec c.userAgent maxAgentBytes
  refine ⟨ua, hua, ?_⟩
  rw [capSighting, hua]

theorem capSighting_spec {out out' : List Capped} {c : CrawlerReport}
    (h : capSighting out c = .ok out') (hnodup : (out.map Capped.userAgent).Nodup) :
    (out'.map Capped.userAgent).Nodup ∧ out'.length ≤ out.length + 1 := by
  obtain ⟨ua, -, hout⟩ := capSighting_ok out c
  rw [hout] at h
  cases h
  split_ifs with hany
  · have hagents : (out.map fun m => if m.userAgent = ua then m.merge c else m).map
        Capped.userAgent = out.map Capped.userAgent := by
      rw [map_map]
      refine map_congr_left fun m _ => ?_
      simp only [Function.comp_apply]
      split_ifs
      · rfl
      · rfl
    rw [hagents, length_map]
    exact ⟨hnodup, Nat.le_succ _⟩
  · have hnew : ua ∉ out.map Capped.userAgent := by
      intro hmem
      obtain ⟨m, hm, heq⟩ := mem_map.mp hmem
      exact hany (any_eq_true.mpr ⟨m, hm, decide_eq_true heq⟩)
    rw [map_append]
    refine ⟨hnodup.append (nodup_singleton _) (disjoint_singleton.mpr hnew), ?_⟩
    rw [length_append, length_singleton]

/-- **What a window stores can always be said**: sightings of different agents, and no more of them
than there were. -/
theorem capSightings_spec (crawlers : List CrawlerReport) :
    ∃ ms dropped, capSightings crawlers = .ok (ms, dropped) ∧
      (ms.map Capped.userAgent).Nodup ∧ ms.length ≤ crawlers.length := by
  have hfold : ∀ (cs : List CrawlerReport) (out : List Capped),
      (out.map Capped.userAgent).Nodup → ∃ out', cs.foldlM capSighting out = .ok out' ∧
        (out'.map Capped.userAgent).Nodup ∧ out'.length ≤ out.length + cs.length := by
    intro cs
    induction cs with
    | nil => exact fun out hnodup => ⟨out, rfl, hnodup, le_refl _⟩
    | cons c cs ih =>
      intro out hnodup
      obtain ⟨ua, -, hout⟩ := capSighting_ok out c
      obtain ⟨hnodup₁, hlen₁⟩ := capSighting_spec hout hnodup
      obtain ⟨out', hout', hnodup', hlen'⟩ := ih _ hnodup₁
      refine ⟨out', ?_, hnodup', ?_⟩
      · rw [foldlM_cons, hout]
        exact hout'
      · rw [length_cons]
        omega
  obtain ⟨out, hout, hnodup, hlen⟩ := hfold crawlers [] nodup_nil
  have hperm : (orderBy busiest out).Perm out := Select.orderBy_perm out
  refine ⟨(orderBy busiest out).take maxSightings, _, by rw [capSightings, hout]; rfl, ?_, ?_⟩
  · have hall : ((orderBy busiest out).map Capped.userAgent).Nodup :=
      (hperm.map Capped.userAgent).nodup_iff.mpr hnodup
    exact hall.sublist ((take_sublist _ _).map _)
  · rw [length_take, hperm.length_eq]
    simp only [length_nil] at hlen
    omega

namespace Store

variable {s s' : Store} {fmt : Formats}

theorem addSightings_avoids (s : Store) (windowId : I64) (ms : List Capped) :
    Avoids Halt.panic (s.addSightings fmt windowId ms) :=
  (links_avoid _ _ _ _ _ _).bind fun _ => Avoids.of_ok _

theorem addChannels_avoids (s : Store) (healthId : I64) (cs : List ChannelRow) :
    Avoids Halt.panic (s.addChannels healthId cs) :=
  (links_avoid _ _ _ _ _ _).bind fun _ => Avoids.of_ok _

theorem addNet_avoids (s : Store) (healthId : I64) (ns : List NetRow) :
    Avoids Halt.panic (s.addNet healthId ns) :=
  (links_avoid _ _ _ _ _ _).bind fun _ => Avoids.of_ok _

theorem buildId_avoids (s : Store) (build : Option (Str × Str × Str)) :
    Avoids Halt.panic (s.buildId build) := by
  cases build with
  | none => exact Avoids.of_ok _
  | some b =>
    exact (Interner.id_avoids freshId_avoids db_ne_panic _ _).bind fun _ => Avoids.of_ok _

theorem addWindow_avoids (s : Store) (pollId atMs nodeId : I64) (c : CrawlSnapshot) :
    Avoids Halt.panic (s.addWindow fmt pollId atMs nodeId c) := by
  have hcap : Avoids Halt.panic (capSightings c.crawlers) := by
    obtain ⟨ms, dropped, hcap, -⟩ := capSightings_spec c.crawlers
    rw [hcap]
    exact Avoids.of_ok _
  have hstatus : ∀ windowId rows e, Avoids Halt.panic (addStatus windowId rows e) := by
    intro windowId rows e
    rw [addStatus]
    split_ifs
    · exact Avoids.of_error db_ne_panic
    · exact Avoids.of_ok _
  rw [addWindow]
  refine hcap.bind fun capped => (nextId_avoids _).bind fun id => ?_
  exact (Avoids.foldlM (hstatus id) _ _).bind fun status => addSightings_avoids _ _ _

theorem insertCrawl_avoids (pollId atMs nodeId : I64) (s : Store) (crawled : List (I64 × I64))
    (crawl : Option CrawlSnapshot) :
    Avoids Halt.panic (insertCrawl fmt pollId atMs nodeId s crawled crawl) := by
  cases crawl with
  | none => exact Avoids.of_ok _
  | some c =>
    rw [insertCrawl]
    split_ifs
    · exact (addWindow_avoids _ _ _ _ _).bind fun _ => Avoids.of_ok _
    · exact Avoids.of_ok _

theorem insertRow_avoids (pollId atMs : I64) (st : Store × List (I64 × I64)) (r : Row) :
    Avoids Halt.panic (insertRow fmt pollId atMs st r) := by
  have hname : ∀ n name, Avoids Halt.panic (nameId n name) := fun n name =>
    Interner.id_avoids freshId_avoids db_ne_panic n name
  rw [insertRow]
  refine Avoids.bind ((hname _ _).bind fun _ => Avoids.of_ok _) fun node => ?_
  refine (buildId_avoids _ _).bind fun build => ?_
  refine Avoids.bind ((nextId_avoids _).bind fun _ => Avoids.of_ok _) fun health => ?_
  refine (addChannels_avoids _ _ _).bind fun s₄ => (addNet_avoids _ _ _).bind fun s₅ => ?_
  exact insertCrawl_avoids _ _ _ _ _ _

/-- **No poll ends the writer.** -/
theorem insert_avoids_panic (s : Store) (b : Batch) : Avoids Halt.panic (s.insert fmt b) := by
  rw [insert]
  refine Avoids.bind ((nextId_avoids _).bind fun _ => Avoids.of_ok _) fun poll => ?_
  refine Avoids.bind (Avoids.foldlM (fun s f =>
    (freshId_avoids _).bind fun _ => Avoids.of_ok _) _ _) fun s₂ => ?_
  exact (Avoids.foldlM (insertRow_avoids _ _) _ _).bind fun _ => Avoids.of_ok _

/-! ## Room -/

end Store

def IdRoom (m : Nat) (ids : List I64) : Prop := topId ids + m < 2 ^ 63

theorem freshId_ok {m : Nat} {ids : List I64} (h : IdRoom (m + 1) ids) :
    ∃ id, freshId ids = .ok id ∧ IdRoom m (ids ++ [id]) := by
  rw [IdRoom] at h
  have hnonneg := topId_nonneg ids
  refine ⟨_, nextId_ok (by omega) (by omega), ?_⟩
  rw [IdRoom, topId_append]
  dsimp only
  omega

theorem idRoom_isRoom : Interner.IsRoom freshId IdRoom where
  take := fun _ _ h => freshId_ok h
  less := fun m is h => by
    rw [IdRoom] at h ⊢
    omega

namespace Store

/-- **All tables of the store have room** for so many more ids. -/
structure Room (m : Nat) (s : Store) : Prop where
  nodes : IdRoom m (s.nodes.table.map Prod.fst)
  channels : IdRoom m (s.channels.table.map Prod.fst)
  ifaces : IdRoom m (s.ifaces.table.map Prod.fst)
  agents : IdRoom m (s.agents.table.map Prod.fst)
  builds : IdRoom m (s.builds.table.map Prod.fst)
  findings : IdRoom m (s.pollFinding.map PollFinding.id)
  polls : s.pollSeq.1 + m < 2 ^ 63
  health : s.healthSeq.1 + m < 2 ^ 63
  windows : s.windowSeq.1 + m < 2 ^ 63

variable {s s' : Store} {fmt : Formats} {m : Nat}

theorem Room.mono {l : Nat} (h : s.Room l) (hle : m ≤ l) : s.Room m where
  nodes := idRoom_isRoom.mono hle h.nodes
  channels := idRoom_isRoom.mono hle h.channels
  ifaces := idRoom_isRoom.mono hle h.ifaces
  agents := idRoom_isRoom.mono hle h.agents
  builds := idRoom_isRoom.mono hle h.builds
  findings := idRoom_isRoom.mono hle h.findings
  polls := by have := h.polls; omega
  health := by have := h.health; omega
  windows := by have := h.windows; omega

theorem nextId_seq {seq : I64} (h : seq.1 + (m + 1 : Nat) < 2 ^ 63) :
    ∃ id, nextId seq.1 = .ok id ∧ id.1 + m < 2 ^ 63 := by
  have hlow := seq.2.1
  refine ⟨_, nextId_ok (by omega) (by omega), ?_⟩
  dsimp only
  omega

theorem addPoll_ok (b : Batch) (h : s.Room (m + 1)) :
    ∃ id s', s.addPoll b = .ok (id, s') ∧ s'.Room m := by
  obtain ⟨id, hid, hroom⟩ := nextId_seq h.polls
  exact ⟨id, _, bind_eq_ok.mpr ⟨id, hid, rfl⟩, { h.mono (Nat.le_succ m) with polls := hroom }⟩

theorem addFinding_ok (pollId : I64) (f : FindingRow) (h : s.Room (m + 1)) :
    ∃ s', s.addFinding pollId f = .ok s' ∧ s'.Room m := by
  obtain ⟨id, hid, hroom⟩ := freshId_ok h.findings
  refine ⟨_, bind_eq_ok.mpr ⟨id, hid, rfl⟩, { h.mono (Nat.le_succ m) with findings := ?_ }⟩
  rw [map_append]
  exact hroom

theorem nodeId_ok (name : Str) (h : s.Room (m + 1)) :
    ∃ id s', s.nodeId name = .ok (id, s') ∧ s'.Room m := by
  have hid : ∃ id n, nameId s.nodes name = .ok (id, n) ∧ IdRoom m (n.table.map Prod.fst) :=
    Interner.id_ok idRoom_isRoom h.nodes name
  obtain ⟨id, n, hid, hroom⟩ := hid
  exact ⟨id, _, bind_eq_ok.mpr ⟨_, hid, rfl⟩, { h.mono (Nat.le_succ m) with nodes := hroom }⟩

theorem buildId_ok (build : Option (Str × Str × Str)) (h : s.Room (m + 1)) :
    ∃ id s', s.buildId build = .ok (id, s') ∧ s'.Room m := by
  cases build with
  | none => exact ⟨none, s, rfl, h.mono (Nat.le_succ m)⟩
  | some b =>
    have hid : ∃ id n, s.builds.id joinedParts freshId .db b = .ok (id, n) ∧
        IdRoom m (n.table.map Prod.fst) := Interner.id_ok idRoom_isRoom h.builds b
    obtain ⟨id, n, hid, hroom⟩ := hid
    exact ⟨some id, _, bind_eq_ok.mpr ⟨_, hid, rfl⟩,
      { h.mono (Nat.le_succ m) with builds := hroom }⟩

theorem addHealth_ok (pollId atMs nodeId : I64) (buildId : Option I64) (r : Row)
    (h : s.Room (m + 1)) :
    ∃ id s', s.addHealth pollId atMs nodeId buildId r = .ok (id, s') ∧ s'.Room m := by
  obtain ⟨id, hid, hroom⟩ := nextId_seq h.health
  exact ⟨id, _, bind_eq_ok.mpr ⟨id, hid, rfl⟩, { h.mono (Nat.le_succ m) with health := hroom }⟩

theorem addChannels_ok {healthId : I64} {cs : List ChannelRow} (hs : s.Sound)
    (hnodup : (cs.map ChannelRow.channel).Nodup)
    (hfree : ∀ c ∈ s.healthChannel, c.healthId ≠ healthId) (h : s.Room (m + cs.length)) :
    ∃ s', s.addChannels healthId cs = .ok s' ∧ s'.Room m := by
  have hlinked : ∃ st, cs.foldlM (link freshId .db .db HealthChannel.healthId
      HealthChannel.channelId ChannelRow.channel (channelOf healthId))
      (s.channels, s.healthChannel) = .ok st ∧ IdRoom m (st.1.table.map Prod.fst) :=
    Interning.foldlM_link_ok idRoom_isRoom freshId_new (channelOf_rows healthId) hs.channels hnodup
      (fun c hc howner => absurd howner (hfree c hc)) h.channels
  obtain ⟨st, hst, hroom⟩ := hlinked
  exact ⟨_, bind_eq_ok.mpr ⟨st, hst, rfl⟩, { h.mono (Nat.le_add_right m _) with channels := hroom }⟩

theorem addNet_ok {healthId : I64} {ns : List NetRow} (hs : s.Sound)
    (hnodup : (ns.map NetRow.iface).Nodup)
    (hfree : ∀ n ∈ s.healthNet, n.healthId ≠ healthId) (h : s.Room (m + ns.length)) :
    ∃ s', s.addNet healthId ns = .ok s' ∧ s'.Room m := by
  have hlinked : ∃ st, ns.foldlM (link freshId .db .db HealthNet.healthId HealthNet.ifaceId
      NetRow.iface (netOf healthId)) (s.ifaces, s.healthNet) = .ok st ∧
        IdRoom m (st.1.table.map Prod.fst) :=
    Interning.foldlM_link_ok idRoom_isRoom freshId_new (netOf_rows healthId) hs.ifaces hnodup
      (fun n hn howner => absurd howner (hfree n hn)) h.ifaces
  obtain ⟨st, hst, hroom⟩ := hlinked
  exact ⟨_, bind_eq_ok.mpr ⟨st, hst, rfl⟩, { h.mono (Nat.le_add_right m _) with ifaces := hroom }⟩

theorem iu_code_inj {a b : Fin (2 ^ 16)} (h : iu a.val = iu b.val) : a = b := by
  have hval : ∀ c : Fin (2 ^ 16), (iu c.val).1 = c.val := by
    intro c
    have hlt : c.val < 2 ^ 63 := by omega
    rw [iu, dif_pos hlt]
  have heq := congrArg Subtype.val h
  rw [hval, hval] at heq
  exact Fin.ext (by omega)

theorem foldlM_addStatus_ok {windowId : I64} {es : List (Fin (2 ^ 16) × I64)}
    (hnodup : (es.map Prod.fst).Nodup) {rows : List CrawlStatus}
    (hfree : ∀ c ∈ rows, c.windowId = windowId → ∀ e ∈ es, c.code ≠ iu e.1.val) :
    ∃ rows', es.foldlM (addStatus windowId) rows = .ok rows' := by
  induction es generalizing rows with
  | nil => exact ⟨rows, rfl⟩
  | cons e es ih =>
    rw [map_cons, nodup_cons] at hnodup
    have hany : ¬ (rows.any fun r => r.windowId = windowId ∧ r.code = iu e.1.val) = true := by
      intro hany
      obtain ⟨r, hr, hboth⟩ := any_eq_true.mp hany
      obtain ⟨howner, hcode⟩ := of_decide_eq_true hboth
      exact hfree r hr howner e (mem_cons_self ..) hcode
    have hfirst : addStatus windowId rows e = .ok (rows ++ [⟨windowId, iu e.1.val, e.2⟩]) :=
      if_neg hany
    rw [foldlM_cons, hfirst]
    refine ih hnodup.2 fun c hc howner x hx => ?_
    obtain hc | hc := mem_append.mp hc
    · exact hfree c hc howner x (mem_cons_of_mem _ hx)
    · rw [mem_singleton.mp hc]
      intro hcode
      exact hnodup.1 (iu_code_inj hcode ▸ mem_map_of_mem hx)

theorem addWindow_ok {pollId atMs nodeId : I64} {c : CrawlSnapshot} (hs : s.Sound)
    (hcodes : (c.status.map Prod.fst).Nodup) (h : s.Room (m + (c.crawlers.length + 1))) :
    ∃ s', s.addWindow fmt pollId atMs nodeId c = .ok s' ∧ s'.Room m := by
  obtain ⟨ms, dropped, hcap, hagents, hlen⟩ := capSightings_spec c.crawlers
  obtain ⟨id, hid, hroom⟩ := nextId_seq (m := m + c.crawlers.length) h.windows
  have hlt : s.windowSeq < id := by
    have := nextId_eq_ok hid
    exact Subtype.coe_lt_coe.mp (by omega)
  have hstatus : ∃ status, c.status.foldlM (addStatus id) s.crawlStatus = .ok status :=
    foldlM_addStatus_ok hcodes fun r hr howner =>
      absurd howner ((hs.status_seq r hr).trans_lt hlt).ne
  obtain ⟨status, hstatus⟩ := hstatus
  have hsightings : ∃ st, ms.foldlM (link freshId .db .db CrawlSighting.windowId
      CrawlSighting.agentId Capped.userAgent (sightingOf fmt id)) (s.agents, s.crawlSighting) =
        .ok st ∧ IdRoom m (st.1.table.map Prod.fst) :=
    Interning.foldlM_link_ok idRoom_isRoom freshId_new (sightingOf_rows id) hs.agents hagents
      (fun r hr howner => absurd howner ((hs.sighting_seq r hr).trans_lt hlt).ne)
      (h.mono (by omega : m + ms.length ≤ _)).agents
  obtain ⟨st, hst, hagentsRoom⟩ := hsightings
  have hwindows : id.1 + (m : Int) < 2 ^ 63 := by omega
  exact ⟨_, bind_eq_ok.mpr ⟨_, hcap, bind_eq_ok.mpr ⟨id, hid, bind_eq_ok.mpr ⟨status, hstatus,
    bind_eq_ok.mpr ⟨st, hst, rfl⟩⟩⟩⟩,
    { h.mono (Nat.le_add_right m _) with agents := hagentsRoom, windows := hwindows }⟩

end Store

/-- **A row that can be stored**: no channel, no device and no status code is told of twice. -/
structure Row.Storable (r : Row) : Prop where
  distinct : r.Distinct
  codes : ∀ c ∈ r.crawl, (c.status.map Prod.fst).Nodup

/-- How many ids a row may need: for its node, its build, itself and its window, and for names. -/
def Row.size (r : Row) : Nat :=
  4 + r.channels.length + r.net.length + (r.crawl.map fun c => c.crawlers.length).getD 0

def Batch.size (b : Batch) : Nat := 1 + b.findings.length + (b.rows.map Row.size).sum

namespace Store

variable {s s' : Store} {fmt : Formats} {m : Nat}

theorem insertCrawl_ok (pollId atMs nodeId : I64) (crawled : List (I64 × I64))
    {crawl : Option CrawlSnapshot} (hs : s.Sound)
    (hcodes : ∀ c ∈ crawl, (c.status.map Prod.fst).Nodup)
    (h : s.Room (m + ((crawl.map fun c => c.crawlers.length).getD 0 + 1))) :
    ∃ st', insertCrawl fmt pollId atMs nodeId s crawled crawl = .ok st' ∧ st'.1.Room m := by
  cases crawl with
  | none => exact ⟨_, rfl, h.mono (by omega)⟩
  | some c =>
    by_cases hdue : s.due nodeId atMs c = true
    · have hwindow : ∃ s', s.addWindow fmt pollId atMs nodeId c = .ok s' ∧ s'.Room m :=
        addWindow_ok hs (hcodes c rfl) h
      obtain ⟨s', hwindow, h'⟩ := hwindow
      exact ⟨_, (if_pos hdue).trans (bind_eq_ok.mpr ⟨s', hwindow, rfl⟩), h'⟩
    · exact ⟨_, if_neg hdue, h.mono (by omega)⟩

theorem insertRow_ok {pollId atMs : I64} {st : Store × List (I64 × I64)} {r : Row}
    (hs : st.1.Sound) (hpoll : (st.1.poll.find? fun p => p.id = pollId).isSome = true)
    (hle : pollId ≤ st.1.pollSeq) (hr : r.Storable) (h : st.1.Room (m + r.size)) :
    ∃ st', insertRow fmt pollId atMs st r = .ok st' ∧ st'.1.Room m := by
  let crawlers := (r.crawl.map fun c => c.crawlers.length).getD 0
  have hsize : r.size = 4 + r.channels.length + r.net.length + crawlers := rfl
  obtain ⟨nodeId, s₁, hnode, h₁⟩ :=
    nodeId_ok (m := m + (crawlers + 1) + r.net.length + r.channels.length + 1 + 1) r.node
      (h.mono (by omega))
  obtain ⟨hs₁, hgrow₁, hseq₁, hsame₁, hnamed⟩ := nodeId_spec hs hnode
  obtain ⟨buildId, s₂, hbuild, h₂⟩ := buildId_ok r.build h₁
  obtain ⟨hs₂, hgrow₂, hseq₂, hsame₂, hnodes₂⟩ := buildId_spec hs₁ hbuild
  obtain ⟨healthId, s₃, hhealth, h₃⟩ := addHealth_ok pollId atMs nodeId buildId r h₂
  have hgrow₁₂ := hgrow₁.trans hgrow₂
  have hpoll₂ : (s₂.poll.find? fun p => p.id = pollId).isSome = true := hgrow₁₂.poll ▸ hpoll
  obtain ⟨hs₃, -, hlt, hseq₃, hnodes₃, -, hchannels₃, hnets₃⟩ :=
    addHealth_spec hs₂ hpoll₂ (hgrow₁₂.pollSeq ▸ hle) (hnodes₂ ▸ hnamed) hhealth
  obtain ⟨s₄, hchannels, h₄⟩ := addChannels_ok hs₃ hr.distinct.channels
    (fun c hc => ((hs₂.channel_seq c (hchannels₃ ▸ hc)).trans_lt hlt).ne) h₃
  obtain ⟨hs₄, -, -, hseq₄, hnodes₄, -, -, hnets₄, -⟩ := addChannels_spec hs₃ hseq₃.ge hchannels
  have hnets : ∀ n ∈ s₄.healthNet, n.healthId ≠ healthId := by
    intro n hn
    rw [hnets₄, hnets₃] at hn
    exact ((hs₂.net_seq n hn).trans_lt hlt).ne
  obtain ⟨s₅, hnet, h₅⟩ := addNet_ok hs₄ hr.distinct.net hnets h₄
  obtain ⟨hs₅, -, -, -, -, -, -, hnodes₅⟩ := addNet_spec hs₄ (hseq₄ ▸ hseq₃.ge) hnet
  obtain ⟨st', hcrawl, h'⟩ := insertCrawl_ok pollId atMs nodeId st.2 hs₅ hr.codes h₅
  exact ⟨st', bind_eq_ok.mpr ⟨_, hnode, bind_eq_ok.mpr ⟨_, hbuild, bind_eq_ok.mpr ⟨_, hhealth,
    bind_eq_ok.mpr ⟨s₄, hchannels, bind_eq_ok.mpr ⟨s₅, hnet, hcrawl⟩⟩⟩⟩⟩, h'⟩

theorem foldlM_insertRow_ok {pollId atMs : I64} {rows : List Row} {st : Store × List (I64 × I64)}
    (hs : st.1.Sound) (hpoll : (st.1.poll.find? fun p => p.id = pollId).isSome = true)
    (hle : pollId ≤ st.1.pollSeq) (hrows : ∀ r ∈ rows, r.Storable)
    (h : st.1.Room (m + (rows.map Row.size).sum)) :
    ∃ st', rows.foldlM (insertRow fmt pollId atMs) st = .ok st' := by
  induction rows generalizing st with
  | nil => exact ⟨st, rfl⟩
  | cons r rows ih =>
    obtain ⟨hr, hrest⟩ := forall_mem_cons.mp hrows
    rw [map_cons, sum_cons] at h
    have hfirst : ∃ st', insertRow fmt pollId atMs st r = .ok st' ∧
        st'.1.Room (m + (rows.map Row.size).sum) :=
      insertRow_ok hs hpoll hle hr (h.mono (by omega))
    obtain ⟨st₁, hfirst, h₁⟩ := hfirst
    obtain ⟨hs₁, hgrow₁, -⟩ := insertRow_spec hs hpoll hle hfirst
    have hpoll₁ : (st₁.1.poll.find? fun p => p.id = pollId).isSome = true := hgrow₁.poll ▸ hpoll
    obtain ⟨st', hst'⟩ := ih hs₁ hpoll₁ (hgrow₁.pollSeq ▸ hle) hrest h₁
    exact ⟨st', by rw [foldlM_cons, hfirst]; exact hst'⟩

theorem foldlM_addFinding_ok (pollId : I64) (fs : List FindingRow) (h : s.Room (m + fs.length)) :
    ∃ s', fs.foldlM (addFinding pollId) s = .ok s' ∧ s'.Room m := by
  induction fs generalizing s with
  | nil => exact ⟨s, rfl, h⟩
  | cons f fs ih =>
    obtain ⟨s₁, hfirst, h₁⟩ := addFinding_ok pollId f (m := m + fs.length) h
    obtain ⟨s', hs', h'⟩ := ih h₁
    exact ⟨s', by rw [foldlM_cons, hfirst]; exact hs', h'⟩

/-- **A poll is stored** if its rows can be, and there is room for what they need. -/
theorem insert_ok {b : Batch} (hs : s.Sound) (hrows : ∀ r ∈ b.rows, r.Storable)
    (h : s.Room b.size) : ∃ s' w, s.insert fmt b = .ok (s', w) := by
  obtain ⟨id, s₁, hpoll, h₁⟩ := addPoll_ok b (m := (b.rows.map Row.size).sum + b.findings.length)
      (h.mono (by rw [Batch.size]; omega))
  obtain ⟨hs₁, -, hseq₁, hfound₁, -⟩ := addPoll_spec hs hpoll
  obtain ⟨s₂, hfindings, h₂⟩ := foldlM_addFinding_ok id b.findings h₁
  obtain ⟨hs₂, hgrow₂, -⟩ := foldlM_addFinding hs₁ hfindings
  have hfound₂ : (s₂.poll.find? fun p => p.id = id).isSome = true := hgrow₂.poll ▸ hfound₁
  have hstored : ∃ st', b.rows.foldlM (insertRow fmt id b.atMs) (s₂, []) = .ok st' :=
    foldlM_insertRow_ok (m := 0) hs₂ hfound₂ (hgrow₂.pollSeq.trans hseq₁).ge hrows
      (h₂.mono (by omega))
  obtain ⟨st', hst'⟩ := hstored
  exact ⟨_, _, bind_eq_ok.mpr ⟨_, hpoll, bind_eq_ok.mpr ⟨s₂, hfindings, bind_eq_ok.mpr
    ⟨st', hst', rfl⟩⟩⟩⟩

end Store

end M6.Monitor
