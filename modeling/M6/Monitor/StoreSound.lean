import M6.Lib.Runs
import M6.Monitor.Store

/-!
# What the store keeps

The tables of the store keep their schema, and no id is above those that were used (`Store.Sound`).
A transaction that commits keeps this, and what it adds are the rows of the poll: `insert_spec` says
that each node's row is in `health` with its channels in `health_channel` (`Stored`), and that no
row from before is touched. Names must differ within a report (`Row.Distinct`): one that repeats
a name is not stored.
-/

namespace M6.Monitor

open List Option

open App (I64)
open Failing (bind_eq_ok)
open Interning (Interner link RowsOf)
open Select (named)

/-! ## Ids -/

theorem nextId_eq_ok {last : Int} {id : I64} (h : nextId last = .ok id) : id.1 = last + 1 := by
  rw [nextId, toI64] at h
  split_ifs at h
  cases h
  rfl

theorem nextId_ok {last : Int} (hlow : -2 ^ 63 ≤ last + 1) (hhigh : last + 1 < 2 ^ 63) :
    nextId last = .ok ⟨last + 1, hlow, hhigh⟩ := by
  rw [nextId, toI64, dif_pos ⟨hlow, hhigh⟩]

theorem le_topId {ids : List I64} {id : I64} (h : id ∈ ids) : id.1 ≤ topId ids := by
  induction ids with
  | nil => cases h
  | cons i ids ih =>
    rw [topId, map_cons, foldr_cons]
    obtain rfl | h := mem_cons.mp h
    · exact le_max_left _ _
    · exact (ih h).trans (le_max_right _ _)

theorem topId_nonneg (ids : List I64) : 0 ≤ topId ids := by
  induction ids with
  | nil => exact le_refl 0
  | cons i ids ih => exact ih.trans (le_max_right _ _)

theorem topId_append (ids : List I64) (id : I64) : topId (ids ++ [id]) = max (topId ids) id.1 := by
  induction ids with
  | nil => simp [topId, max_comm]
  | cons i ids ih =>
    have hstep : topId (i :: ids ++ [id]) = max i.1 (topId (ids ++ [id])) := rfl
    have hleft : topId (i :: ids) = max i.1 (topId ids) := rfl
    rw [hstep, ih, hleft, max_assoc]

theorem freshId_new (ids : List I64) (id : I64) (h : freshId ids = .ok id) : id ∉ ids := by
  intro hmem
  have hid := nextId_eq_ok h
  have hle := le_topId hmem
  omega

/-! ## Soundness -/

/-- **What holds of the store between its writes.** -/
structure Store.Sound (s : Store) : Prop where
  nodes : s.nodes.Sound fun k => k
  channels : s.channels.Sound fun k => k
  ifaces : s.ifaces.Sound fun k => k
  agents : s.agents.Sound fun k => k
  builds : s.builds.Sound joinedParts
  schema : Schema s.tables
  health_seq : ∀ h ∈ s.health, h.id ≤ s.healthSeq ∧ h.pollId ≤ s.pollSeq
  channel_seq : ∀ c ∈ s.healthChannel, c.healthId ≤ s.healthSeq
  net_seq : ∀ n ∈ s.healthNet, n.healthId ≤ s.healthSeq
  window_seq : ∀ w ∈ s.crawlWindow, w.id ≤ s.windowSeq
  sighting_seq : ∀ c ∈ s.crawlSighting, c.windowId ≤ s.windowSeq
  status_seq : ∀ c ∈ s.crawlStatus, c.windowId ≤ s.windowSeq

/-- **What a transaction keeps** while it goes on: it adds rows, and never to a health row that was
there before. -/
structure Store.Grows (s s' : Store) : Prop where
  nodes : s.nodes.table <+: s'.nodes.table
  channels : s.channels.table <+: s'.channels.table
  poll : s'.poll = s.poll
  pollSeq : s'.pollSeq = s.pollSeq
  health : s.health <+: s'.health
  healthSeq : s.healthSeq ≤ s'.healthSeq
  healthChannel : ∃ cs, s'.healthChannel = s.healthChannel ++ cs ∧
    ∀ c ∈ cs, s.healthSeq < c.healthId

structure Stored (t : Tables) (pollId atMs : I64) (r : Row) (h : Health) : Prop where
  figures : h.toFigures = r.toFigures
  poll : h.pollId = pollId
  time : h.atMs = atMs
  node : named t.node h.nodeId = some r.node
  channels : List.Forall₂ (fun c row => row.toChannelFigures = c.toChannelFigures ∧
      named t.channel row.channelId = some c.channel) r.channels
    (t.healthChannel.filter fun c => c.healthId = h.id)

/-- No channel and no interface is named twice. -/
structure Row.Distinct (r : Row) : Prop where
  channels : (r.channels.map ChannelRow.channel).Nodup
  net : (r.net.map NetRow.iface).Nodup

namespace Store

variable {s s' s₀ : Store} {fmt : Formats}

theorem Grows.refl (s : Store) : s.Grows s :=
  ⟨prefix_refl _, prefix_refl _, rfl, rfl, prefix_refl _, le_refl _,
    [], (append_nil _).symm, fun _ h => absurd h not_mem_nil⟩

theorem Grows.trans (h : s₀.Grows s) (h' : s.Grows s') : s₀.Grows s' := by
  obtain ⟨cs, hcs, hnew⟩ := h.healthChannel
  obtain ⟨cs', hcs', hnew'⟩ := h'.healthChannel
  refine ⟨h.nodes.trans h'.nodes, h.channels.trans h'.channels, h'.poll.trans h.poll,
    h'.pollSeq.trans h.pollSeq, h.health.trans h'.health, h.healthSeq.trans h'.healthSeq,
    cs ++ cs', ?_, ?_⟩
  · rw [hcs', hcs, append_assoc]
  · intro c hc
    obtain hc | hc := mem_append.mp hc
    · exact hnew c hc
    · exact h.healthSeq.trans_lt (hnew' c hc)

theorem stored_grows {pollId atMs : I64} {r : Row} {h : Health}
    (hstored : Stored s.tables pollId atMs r h) (hid : h.id ≤ s.healthSeq) (hgrow : s.Grows s') :
    Stored s'.tables pollId atMs r h := by
  obtain ⟨cs, hcs, hnew⟩ := hgrow.healthChannel
  have hsame : (s'.healthChannel.filter fun c => c.healthId = h.id) =
      s.healthChannel.filter fun c => c.healthId = h.id := by
    have hnone : (cs.filter fun c => c.healthId = h.id) = [] := by
      refine filter_eq_nil_iff.mpr fun c hc => ?_
      have hlt := hid.trans_lt (hnew c hc)
      simpa using ne_of_gt hlt
    rw [hcs, filter_append, hnone, append_nil]
  refine ⟨hstored.figures, hstored.poll, hstored.time,
    Interning.named_mono hgrow.nodes hstored.node, ?_⟩
  have hrows : (s'.tables.healthChannel.filter fun c => c.healthId = h.id) =
      s.tables.healthChannel.filter fun c => c.healthId = h.id := hsame
  rw [hrows]
  exact hstored.channels.imp fun c row hrow =>
    ⟨hrow.1, Interning.named_mono hgrow.channels hrow.2⟩

/-! ## Names -/

theorem nameId_spec {n n' : Interner I64 Str Str} {name : Str} {id : I64}
    (hn : n.Sound fun k => k) (h : nameId n name = .ok (id, n')) :
    (n'.Sound fun k => k) ∧ n.table <+: n'.table ∧ named n'.table id = some name := by
  obtain ⟨hsound, k, hk, hname⟩ := Interner.id_spec freshId_new hn h
  exact ⟨hsound, Interner.grows_of_id h, hname ▸ hk⟩

theorem nodeId_spec {name : Str} {id : I64} (hs : s.Sound) (h : s.nodeId name = .ok (id, s')) :
    s'.Sound ∧ s.Grows s' ∧ s'.healthSeq = s.healthSeq ∧ s'.health = s.health ∧
      named s'.nodes.table id = some name := by
  obtain ⟨⟨id, nodes⟩, hid, hrest⟩ := bind_eq_ok.mp h
  cases hrest
  obtain ⟨hsound, hgrow, hnamed⟩ := nameId_spec hs.nodes hid
  have hschema : Schema ({ s with nodes := nodes } : Store).tables :=
    { hs.schema with
      health_node := fun h hh =>
        Interning.isSome_named_mono hgrow (hs.schema.health_node h hh)
      window_node := fun w hw =>
        Interning.isSome_named_mono hgrow (hs.schema.window_node w hw) }
  exact ⟨{ hs with nodes := hsound, schema := hschema }, { Grows.refl s with nodes := hgrow },
    rfl, rfl, hnamed⟩

theorem buildId_spec {build : Option (Str × Str × Str)} {id : Option I64} (hs : s.Sound)
    (h : s.buildId build = .ok (id, s')) :
    s'.Sound ∧ s.Grows s' ∧ s'.healthSeq = s.healthSeq ∧ s'.health = s.health ∧
      s'.nodes = s.nodes := by
  cases build with
  | none =>
    cases h
    exact ⟨hs, Grows.refl s, rfl, rfl, rfl⟩
  | some b =>
    obtain ⟨⟨i, builds⟩, hid, hrest⟩ := bind_eq_ok.mp h
    cases hrest
    obtain ⟨hsound, -⟩ := Interner.id_spec freshId_new hs.builds hid
    exact ⟨{ hs with builds := hsound, schema := { hs.schema with } },
      { Grows.refl s with }, rfl, rfl, rfl⟩

/-! ## A poll and its findings -/

theorem addPoll_spec {b : Batch} {id : I64} (hs : s.Sound) (h : s.addPoll b = .ok (id, s')) :
    s'.Sound ∧ s.pollSeq < id ∧ s'.pollSeq = id ∧
      (s'.poll.find? fun p => p.id = id).isSome = true ∧ s'.health = s.health ∧
      s'.healthSeq = s.healthSeq ∧ s'.healthChannel = s.healthChannel := by
  obtain ⟨id, hid, hrest⟩ := bind_eq_ok.mp h
  cases hrest
  have hlt : s.pollSeq < id := by
    have := nextId_eq_ok hid
    exact Subtype.coe_lt_coe.mp (by omega)
  have hfound : ((s.poll ++ [(⟨id, b.atMs, b.level, b.faults, b.warns⟩ : Poll)]).find? fun p =>
      p.id = id).isSome = true :=
    find?_isSome.mpr ⟨_, mem_append_right _ (mem_singleton_self _),
      decide_eq_true rfl⟩
  have hschema : Schema ({ s with
      poll := s.poll ++ [(⟨id, b.atMs, b.level, b.faults, b.warns⟩ : Poll)]
      pollSeq := id } : Store).tables :=
    { hs.schema with
      health_poll := fun h hh => by
        obtain ⟨p, hp⟩ := isSome_iff_exists.mp (hs.schema.health_poll h hh)
        exact find?_isSome.mpr ⟨p, mem_append_left _ (mem_of_find?_eq_some hp),
          by simpa using find?_some hp⟩ }
  refine ⟨{ hs with
    schema := hschema
    health_seq := fun h hh => ⟨(hs.health_seq h hh).1, (hs.health_seq h hh).2.trans hlt.le⟩ },
    hlt, rfl, hfound, rfl, rfl, rfl⟩

theorem addFinding_spec {pollId : I64} {f : FindingRow} (hs : s.Sound)
    (h : s.addFinding pollId f = .ok s') :
    s'.Sound ∧ s.Grows s' ∧ s'.health = s.health ∧ s'.healthSeq = s.healthSeq ∧
      s'.healthChannel = s.healthChannel := by
  obtain ⟨id, hid, hrest⟩ := bind_eq_ok.mp h
  cases hrest
  exact ⟨{ hs with schema := { hs.schema with } }, { Grows.refl s with }, rfl, rfl, rfl⟩

/-! ## A health row and its children -/

theorem addHealth_spec {pollId atMs nodeId id : I64} {buildId : Option I64} {r : Row}
    (hs : s.Sound) (hpoll : (s.poll.find? fun p => p.id = pollId).isSome = true)
    (hle : pollId ≤ s.pollSeq) (hnode : named s.nodes.table nodeId = some r.node)
    (h : s.addHealth pollId atMs nodeId buildId r = .ok (id, s')) :
    s'.Sound ∧ s.Grows s' ∧ s.healthSeq < id ∧ s'.healthSeq = id ∧ s'.nodes = s.nodes ∧
      s'.health = s.health ++ [healthOf id pollId atMs nodeId buildId r] ∧
      s'.healthChannel = s.healthChannel ∧ s'.healthNet = s.healthNet := by
  obtain ⟨id, hid, hrest⟩ := bind_eq_ok.mp h
  cases hrest
  have hlt : s.healthSeq < id := by
    have := nextId_eq_ok hid
    exact Subtype.coe_lt_coe.mp (by omega)
  have hschema : Schema ({ s with
      health := s.health ++ [healthOf id pollId atMs nodeId buildId r]
      healthSeq := id } : Store).tables :=
    { hs.schema with
      health_ids := by
        have hnew : id ∉ s.health.map Health.id := by
          intro hmem
          obtain ⟨old, hold, heq⟩ := mem_map.mp hmem
          exact absurd (hs.health_seq old hold).1 (heq ▸ not_le_of_gt hlt)
        have hids : (s.health ++ [healthOf id pollId atMs nodeId buildId r]).map Health.id =
            s.health.map Health.id ++ [id] := map_append ..
        exact hids ▸ hs.schema.health_ids.append (nodup_singleton _) (disjoint_singleton.mpr hnew)
      health_node := fun h hh => by
        obtain hh | hh := mem_append.mp hh
        · exact hs.schema.health_node h hh
        · rw [mem_singleton.mp hh]
          exact isSome_iff_exists.mpr ⟨r.node, hnode⟩
      health_poll := fun h hh => by
        obtain hh | hh := mem_append.mp hh
        · exact hs.schema.health_poll h hh
        · rw [mem_singleton.mp hh]
          exact hpoll }
  refine ⟨{ hs with
      schema := hschema
      health_seq := fun h hh => ?_
      channel_seq := fun c hc => (hs.channel_seq c hc).trans hlt.le
      net_seq := fun n hn => (hs.net_seq n hn).trans hlt.le },
    { Grows.refl s with
      health := prefix_append _ _
      healthSeq := hlt.le },
    hlt, rfl, rfl, rfl, rfl, rfl⟩
  obtain hh | hh := mem_append.mp hh
  · exact ⟨(hs.health_seq h hh).1.trans hlt.le, (hs.health_seq h hh).2⟩
  · rw [mem_singleton.mp hh]
    exact ⟨le_refl _, hle⟩

theorem mem_linked {R D : Type} {row : D → I64 → R} {ownerOf refOf : R → I64} {o : I64}
    (hrow : RowsOf ownerOf refOf row o) {name : D → Str} {table : List (I64 × Str)} {ds : List D}
    {rs : List R}
    (h : List.Forall₂ (fun d r => ∃ i, r = row d i ∧ named table i = some (name d)) ds rs) {r : R}
    (hr : r ∈ rs) : ownerOf r = o ∧ (named table (refOf r)).isSome = true := by
  induction h with
  | nil => cases hr
  | cons hhead _ ih =>
    obtain rfl | hr := mem_cons.mp hr
    · obtain ⟨i, rfl, hi⟩ := hhead
      exact ⟨(hrow _ i).1, by rw [(hrow _ i).2, hi, isSome_some]⟩
    · exact ih hr

theorem channelOf_rows (healthId : I64) :
    RowsOf HealthChannel.healthId HealthChannel.channelId (channelOf healthId) healthId :=
  fun _ _ => ⟨rfl, rfl⟩

theorem netOf_rows (healthId : I64) :
    RowsOf HealthNet.healthId HealthNet.ifaceId (netOf healthId) healthId :=
  fun _ _ => ⟨rfl, rfl⟩

theorem sightingOf_rows (windowId : I64) :
    RowsOf CrawlSighting.windowId CrawlSighting.agentId (sightingOf fmt windowId) windowId :=
  fun _ _ => ⟨rfl, rfl⟩

theorem addChannels_spec {healthId : I64} {cs : List ChannelRow} (hs : s.Sound)
    (hle : healthId ≤ s.healthSeq) (h : s.addChannels healthId cs = .ok s') :
    s'.Sound ∧ (cs.map ChannelRow.channel).Nodup ∧ s'.health = s.health ∧
      s'.healthSeq = s.healthSeq ∧ s'.nodes = s.nodes ∧ s'.poll = s.poll ∧
      s'.pollSeq = s.pollSeq ∧ s'.healthNet = s.healthNet ∧ s.channels.table <+: s'.channels.table ∧
      ∃ rs, s'.healthChannel = s.healthChannel ++ rs ∧
        List.Forall₂ (fun c r => ∃ i, r = channelOf healthId c i ∧
          named s'.channels.table i = some c.channel) cs rs := by
  obtain ⟨⟨channels, rows⟩, hlinks, hrest⟩ := bind_eq_ok.mp h
  cases hrest
  obtain ⟨hsound, hgrow, hnodup, -, rs, hrows, hall⟩ :=
    Interning.foldlM_link_spec freshId_new (channelOf_rows healthId) hs.channels hlinks
  dsimp only at hsound hgrow hrows hall
  have hnew : ∀ c ∈ rs, c.healthId = healthId ∧ (named channels.table c.channelId).isSome = true :=
    fun c hc => mem_linked (channelOf_rows healthId) hall hc
  have hschema : Schema ({ s with channels := channels, healthChannel := rows } : Store).tables :=
    { hs.schema with
      channel_named := fun c hc => by
        obtain hc | hc := mem_append.mp (hrows ▸ hc)
        · exact Interning.isSome_named_mono hgrow (hs.schema.channel_named c hc)
        · exact (hnew c hc).2 }
  refine ⟨{ hs with channels := hsound, schema := hschema, channel_seq := fun c hc => ?_ }, hnodup,
    rfl, rfl, rfl, rfl, rfl, rfl, hgrow, rs, hrows, hall⟩
  obtain hc | hc := mem_append.mp (hrows ▸ hc)
  · exact hs.channel_seq c hc
  · exact (hnew c hc).1 ▸ hle

theorem addNet_spec {healthId : I64} {ns : List NetRow} (hs : s.Sound)
    (hle : healthId ≤ s.healthSeq) (h : s.addNet healthId ns = .ok s') :
    s'.Sound ∧ s.Grows s' ∧ (ns.map NetRow.iface).Nodup ∧ s'.health = s.health ∧
      s'.healthSeq = s.healthSeq ∧ s'.healthChannel = s.healthChannel ∧
      s'.channels = s.channels ∧ s'.nodes = s.nodes := by
  obtain ⟨⟨ifaces, rows⟩, hlinks, hrest⟩ := bind_eq_ok.mp h
  cases hrest
  obtain ⟨hsound, hgrow, hnodup, -, rs, hrows, hall⟩ :=
    Interning.foldlM_link_spec freshId_new (netOf_rows healthId) hs.ifaces hlinks
  dsimp only at hsound hgrow hrows hall
  have hnew : ∀ n ∈ rs, n.healthId = healthId ∧ (named ifaces.table n.ifaceId).isSome = true :=
    fun n hn => mem_linked (netOf_rows healthId) hall hn
  have hschema : Schema ({ s with ifaces := ifaces, healthNet := rows } : Store).tables :=
    { hs.schema with
      iface_named := fun n hn => by
        obtain hn | hn := mem_append.mp (hrows ▸ hn)
        · exact Interning.isSome_named_mono hgrow (hs.schema.iface_named n hn)
        · exact (hnew n hn).2 }
  refine ⟨{ hs with ifaces := hsound, schema := hschema, net_seq := fun n hn => ?_ },
    { Grows.refl s with }, hnodup, rfl, rfl, rfl, rfl, rfl⟩
  obtain hn | hn := mem_append.mp (hrows ▸ hn)
  · exact hs.net_seq n hn
  · exact (hnew n hn).1 ▸ hle

/-! ## A window and its children -/

theorem addSightings_spec {windowId : I64} {ms : List Capped} (hs : s.Sound)
    (hle : windowId ≤ s.windowSeq) (h : s.addSightings fmt windowId ms = .ok s') :
    s'.Sound ∧ s.Grows s' ∧ s'.health = s.health ∧ s'.healthSeq = s.healthSeq ∧
      s'.healthChannel = s.healthChannel ∧ s'.lastCrawlAt = s.lastCrawlAt := by
  obtain ⟨⟨agents, rows⟩, hlinks, hrest⟩ := bind_eq_ok.mp h
  cases hrest
  obtain ⟨hsound, hgrow, -, -, rs, hrows, hall⟩ :=
    Interning.foldlM_link_spec freshId_new (sightingOf_rows windowId) hs.agents hlinks
  dsimp only at hsound hgrow hrows hall
  have hnew : ∀ c ∈ rs, c.windowId = windowId ∧ (named agents.table c.agentId).isSome = true :=
    fun c hc => mem_linked (sightingOf_rows windowId) hall hc
  have hschema : Schema ({ s with agents := agents, crawlSighting := rows } : Store).tables :=
    { hs.schema with
      agent_named := fun c hc => by
        obtain hc | hc := mem_append.mp (hrows ▸ hc)
        · exact Interning.isSome_named_mono hgrow (hs.schema.agent_named c hc)
        · exact (hnew c hc).2 }
  refine ⟨{ hs with agents := hsound, schema := hschema, sighting_seq := fun c hc => ?_ },
    { Grows.refl s with }, rfl, rfl, rfl, rfl⟩
  obtain hc | hc := mem_append.mp (hrows ▸ hc)
  · exact hs.sighting_seq c hc
  · exact (hnew c hc).1 ▸ hle

theorem foldlM_addStatus {windowId : I64} {es : List (Fin (2 ^ 16) × I64)}
    {rows rows' : List CrawlStatus} (h : es.foldlM (addStatus windowId) rows = .ok rows') :
    ∀ c ∈ rows', c ∈ rows ∨ c.windowId = windowId := by
  induction es generalizing rows with
  | nil =>
    cases h
    exact fun c hc => .inl hc
  | cons e es ih =>
    rw [foldlM_cons] at h
    obtain ⟨rows₁, hfirst, hrest⟩ := bind_eq_ok.mp h
    rw [addStatus] at hfirst
    split_ifs at hfirst
    cases hfirst
    intro c hc
    obtain hc | hc := ih hrest c hc
    · obtain hc | hc := mem_append.mp hc
      · exact .inl hc
      · rw [mem_singleton.mp hc]
        exact .inr rfl
    · exact .inr hc

theorem addWindow_spec {pollId atMs nodeId : I64} {c : CrawlSnapshot} (hs : s.Sound)
    (hnode : (named s.nodes.table nodeId).isSome = true)
    (h : s.addWindow fmt pollId atMs nodeId c = .ok s') :
    s'.Sound ∧ s.Grows s' ∧ s'.health = s.health ∧ s'.healthSeq = s.healthSeq ∧
      s'.healthChannel = s.healthChannel := by
  obtain ⟨⟨sightings, dropped⟩, -, h⟩ := bind_eq_ok.mp h
  obtain ⟨id, hid, h⟩ := bind_eq_ok.mp h
  obtain ⟨status, hstatus, h⟩ := bind_eq_ok.mp h
  have hlt : s.windowSeq < id := by
    have := nextId_eq_ok hid
    exact Subtype.coe_lt_coe.mp (by omega)
  have hschema : Schema ({ s with
      crawlWindow := s.crawlWindow ++ [windowOf fmt id pollId atMs nodeId c dropped]
      windowSeq := id
      crawlStatus := status } : Store).tables :=
    { hs.schema with
      window_ids := by
        have hnew : id ∉ s.crawlWindow.map CrawlWindow.id := by
          intro hmem
          obtain ⟨old, hold, heq⟩ := mem_map.mp hmem
          exact absurd (hs.window_seq old hold) (heq ▸ not_le_of_gt hlt)
        have hids : (s.crawlWindow ++ [windowOf fmt id pollId atMs nodeId c dropped]).map
            CrawlWindow.id = s.crawlWindow.map CrawlWindow.id ++ [id] := map_append ..
        exact hids ▸ hs.schema.window_ids.append (nodup_singleton _) (disjoint_singleton.mpr hnew)
      window_node := fun w hw => by
        obtain hw | hw := mem_append.mp hw
        · exact hs.schema.window_node w hw
        · rw [mem_singleton.mp hw]
          exact hnode }
  have hopened : Sound ({ s with
      crawlWindow := s.crawlWindow ++ [windowOf fmt id pollId atMs nodeId c dropped]
      windowSeq := id
      crawlStatus := status } : Store) :=
    { hs with
      schema := hschema
      window_seq := fun w hw => by
        obtain hw | hw := mem_append.mp hw
        · exact (hs.window_seq w hw).trans hlt.le
        · rw [mem_singleton.mp hw]
          exact le_refl _
      sighting_seq := fun c hc => (hs.sighting_seq c hc).trans hlt.le
      status_seq := fun c hc => by
        obtain hc | hc := foldlM_addStatus hstatus c hc
        · exact (hs.status_seq c hc).trans hlt.le
        · exact hc ▸ le_refl _ }
  obtain ⟨hsound, hgrow, hhealth, hseq, hchannels, -⟩ := addSightings_spec hopened (le_refl _) h
  have hfirst : s.Grows { s with
      crawlWindow := s.crawlWindow ++ [windowOf fmt id pollId atMs nodeId c dropped]
      windowSeq := id
      crawlStatus := status } := { Grows.refl s with }
  exact ⟨hsound, hfirst.trans hgrow, hhealth, hseq, hchannels⟩

theorem insertCrawl_spec {pollId atMs nodeId : I64} {crawled : List (I64 × I64)}
    {crawl : Option CrawlSnapshot} {st' : Store × List (I64 × I64)} (hs : s.Sound)
    (hnode : (named s.nodes.table nodeId).isSome = true)
    (h : insertCrawl fmt pollId atMs nodeId s crawled crawl = .ok st') :
    st'.1.Sound ∧ s.Grows st'.1 ∧ st'.1.health = s.health ∧ st'.1.healthSeq = s.healthSeq := by
  cases crawl with
  | none =>
    cases h
    exact ⟨hs, Grows.refl _, rfl, rfl⟩
  | some c =>
    rw [insertCrawl] at h
    split_ifs at h with hdue
    · obtain ⟨s₁, hwindow, h⟩ := bind_eq_ok.mp h
      cases h
      obtain ⟨hs₁, hgrow₁, hsame₁, hseq₁, -⟩ := addWindow_spec hs hnode hwindow
      exact ⟨hs₁, hgrow₁, hsame₁, hseq₁⟩
    · cases h
      exact ⟨hs, Grows.refl _, rfl, rfl⟩

/-! ## A node's row -/

theorem filter_linked {old rs : List HealthChannel} {id : I64} {cs : List ChannelRow}
    {table : List (I64 × Str)} (hold : ∀ c ∈ old, c.healthId < id)
    (hall : List.Forall₂ (fun c r => ∃ i, r = channelOf id c i ∧
      named table i = some c.channel) cs rs) :
    List.Forall₂ (fun c row => row.toChannelFigures = c.toChannelFigures ∧
        named table row.channelId = some c.channel) cs
      ((old ++ rs).filter fun c => c.healthId = id) := by
  have hnone : (old.filter fun c => c.healthId = id) = [] :=
    filter_eq_nil_iff.mpr fun c hc => by simpa using (hold c hc).ne
  have hevery : (rs.filter fun c => c.healthId = id) = rs :=
    filter_eq_self.mpr fun c hc => by simpa using (mem_linked (channelOf_rows id) hall hc).1
  rw [filter_append, hnone, hevery, nil_append]
  refine hall.imp fun c row hrow => ?_
  obtain ⟨i, rfl, hi⟩ := hrow
  exact ⟨rfl, hi⟩

/-- **A node's row is added**, and nothing that was there is touched. -/
theorem insertRow_spec {pollId atMs : I64} {st st' : Store × List (I64 × I64)} {r : Row}
    (hs : st.1.Sound) (hpoll : (st.1.poll.find? fun p => p.id = pollId).isSome = true)
    (hle : pollId ≤ st.1.pollSeq) (h : insertRow fmt pollId atMs st r = .ok st') :
    st'.1.Sound ∧ st.1.Grows st'.1 ∧ r.Distinct ∧ ∃ row, st'.1.health = st.1.health ++ [row] ∧
      st.1.healthSeq < row.id ∧ row.id ≤ st'.1.healthSeq ∧
      Stored st'.1.tables pollId atMs r row := by
  obtain ⟨⟨nodeId, s₁⟩, hnode, h⟩ := bind_eq_ok.mp h
  obtain ⟨⟨buildId, s₂⟩, hbuild, h⟩ := bind_eq_ok.mp h
  obtain ⟨⟨healthId, s₃⟩, hhealth, h⟩ := bind_eq_ok.mp h
  obtain ⟨s₄, hchannels, h⟩ := bind_eq_ok.mp h
  obtain ⟨s₅, hnet, h⟩ := bind_eq_ok.mp h
  obtain ⟨hs₁, hgrow₁, hseq₁, hsame₁, hnamed⟩ := nodeId_spec hs hnode
  obtain ⟨hs₂, hgrow₂, hseq₂, hsame₂, hnodes₂⟩ := buildId_spec hs₁ hbuild
  have hgrow₁₂ := hgrow₁.trans hgrow₂
  have hpoll₂ : (s₂.poll.find? fun p => p.id = pollId).isSome = true := hgrow₁₂.poll ▸ hpoll
  obtain ⟨hs₃, hgrow₃, hlt, hseq₃, hnodes₃, hrows₃, hkept₃, -⟩ :=
    addHealth_spec hs₂ hpoll₂ (hgrow₁₂.pollSeq ▸ hle) (hnodes₂ ▸ hnamed) hhealth
  have hgrow₁₃ := hgrow₁₂.trans hgrow₃
  obtain ⟨hs₄, hdistinct, hsame₄, hseq₄, hnodes₄, hpolls₄, hpollSeq₄, -, htable₄, rs, hrs, hall⟩ :=
    addChannels_spec hs₃ hseq₃.ge hchannels
  have hbelow : st.1.healthSeq < healthId := hgrow₁₂.healthSeq.trans_lt hlt
  -- the channels are the new row's, which was not there before
  have hgrow₁₄ : st.1.Grows s₄ := by
    obtain ⟨cs, hcs, hnew⟩ := hgrow₁₃.healthChannel
    refine ⟨hnodes₄ ▸ hgrow₁₃.nodes, hgrow₁₃.channels.trans htable₄, hpolls₄.trans hgrow₁₃.poll,
      hpollSeq₄.trans hgrow₁₃.pollSeq, hsame₄ ▸ hgrow₁₃.health, hseq₄ ▸ hgrow₁₃.healthSeq,
      cs ++ rs, by rw [hrs, hcs, append_assoc], fun c hc => ?_⟩
    obtain hc | hc := mem_append.mp hc
    · exact hnew c hc
    · exact (mem_linked (channelOf_rows healthId) hall hc).1 ▸ hbelow
  have hstored : Stored s₄.tables pollId atMs r
    (healthOf healthId pollId atMs nodeId buildId r) := by
    refine ⟨rfl, rfl, rfl, ?_, ?_⟩
    · have hid : named s₄.nodes.table nodeId = some r.node := by
        rw [hnodes₄, hnodes₃, hnodes₂, hnamed]
      exact hid
    · have hold : ∀ c ∈ s₃.healthChannel, c.healthId < healthId := by
        intro c hc
        rw [hkept₃] at hc
        exact (hs₂.channel_seq c hc).trans_lt hlt
      have hlist := filter_linked hold hall
      rw [← hrs] at hlist
      exact hlist
  obtain ⟨hs₅, hgrow₅, hnetDistinct, hsame₅, hseq₅, -, -, hnodes₅⟩ :=
    addNet_spec hs₄ (hseq₄ ▸ hseq₃.ge) hnet
  have hgrow₁₅ := hgrow₁₄.trans hgrow₅
  have hid₄ : healthId ≤ s₄.healthSeq := hseq₄ ▸ hseq₃.ge
  have hstored₅ := stored_grows hstored hid₄ hgrow₅
  have hhealth₅ : s₅.health =
      st.1.health ++ [healthOf healthId pollId atMs nodeId buildId r] := by
    rw [hsame₅, hsame₄, hrows₃, hsame₂, hsame₁]
  have hid₅ : healthId ≤ s₅.healthSeq := hseq₅ ▸ hid₄
  have hnamed₅ : (named s₅.nodes.table nodeId).isSome = true := by
    rw [hnodes₅, hnodes₄, hnodes₃, hnodes₂, hnamed, isSome_some]
  obtain ⟨hs', hgrow', hhealth', hseq'⟩ := insertCrawl_spec hs₅ hnamed₅ h
  exact ⟨hs', hgrow₁₅.trans hgrow', ⟨hdistinct, hnetDistinct⟩, _, hhealth'.trans hhealth₅, hbelow,
    hseq' ▸ hid₅, stored_grows hstored₅ hid₅ hgrow'⟩

theorem foldlM_insertRow {pollId atMs : I64} {rows : List Row} {st st' : Store × List (I64 × I64)}
    (hs : st.1.Sound) (hpoll : (st.1.poll.find? fun p => p.id = pollId).isSome = true)
    (hle : pollId ≤ st.1.pollSeq) (h : rows.foldlM (insertRow fmt pollId atMs) st = .ok st') :
    st'.1.Sound ∧ st.1.Grows st'.1 ∧ (∀ r ∈ rows, r.Distinct) ∧
      ∃ hs', st'.1.health = st.1.health ++ hs' ∧ (∀ row ∈ hs', st.1.healthSeq < row.id) ∧
        List.Forall₂ (Stored st'.1.tables pollId atMs) rows hs' := by
  induction rows generalizing st with
  | nil =>
    cases h
    exact ⟨hs, Grows.refl _, fun _ h => absurd h not_mem_nil, [], (append_nil _).symm,
      fun _ h => absurd h not_mem_nil, .nil⟩
  | cons r rows ih =>
    rw [foldlM_cons] at h
    obtain ⟨st₁, hfirst, hrest⟩ := bind_eq_ok.mp h
    obtain ⟨hs₁, hgrow₁, hdistinct, row, hrow, hlt, hid, hstored⟩ :=
      insertRow_spec hs hpoll hle hfirst
    have hpoll₁ : (st₁.1.poll.find? fun p => p.id = pollId).isSome = true := hgrow₁.poll ▸ hpoll
    obtain ⟨hs', hgrow', hdistinct', more, hmore, habove, hall⟩ :=
      ih hs₁ hpoll₁ (hgrow₁.pollSeq ▸ hle) hrest
    refine ⟨hs', hgrow₁.trans hgrow', forall_mem_cons.mpr ⟨hdistinct, hdistinct'⟩,
      row :: more, by rw [hmore, hrow, append_assoc, singleton_append], ?_,
      .cons (stored_grows hstored hid hgrow') hall⟩
    exact forall_mem_cons.mpr
      ⟨hlt, fun x hx => hgrow₁.healthSeq.trans_lt (habove x hx)⟩

theorem foldlM_addFinding {pollId : I64} {fs : List FindingRow} (hs : s.Sound)
    (h : fs.foldlM (addFinding pollId) s = .ok s') :
    s'.Sound ∧ s.Grows s' ∧ s'.health = s.health ∧ s'.healthSeq = s.healthSeq := by
  induction fs generalizing s with
  | nil =>
    cases h
    exact ⟨hs, Grows.refl _, rfl, rfl⟩
  | cons f fs ih =>
    rw [foldlM_cons] at h
    obtain ⟨s₁, hfirst, hrest⟩ := bind_eq_ok.mp h
    obtain ⟨hs₁, hgrow₁, hhealth₁, hseq₁, -⟩ := addFinding_spec hs hfirst
    obtain ⟨hs', hgrow', hhealth', hseq'⟩ := ih hs₁ hrest
    exact ⟨hs', hgrow₁.trans hgrow', hhealth'.trans hhealth₁, hseq'.trans hseq₁⟩

/-! ## A transaction -/

/-- **What a transaction that commits has done**: the rows of the poll are there, under ids that
were never used, and the channels that were there belong to what was there. -/
structure Inserted (s s' : Store) (b : Batch) (w : Written) : Prop where
  sound : s'.Sound
  forgets : s'.agents.forget = s'.agents
  pollSeq : s.pollSeq < w.pollId ∧ s'.pollSeq = w.pollId
  distinct : ∀ r ∈ b.rows, r.Distinct
  rows : ∃ hs, s'.health = s.health ++ hs ∧ (∀ h ∈ hs, s.healthSeq < h.id) ∧
    List.Forall₂ (Stored s'.tables w.pollId b.atMs) b.rows hs
  channels : ∃ cs, s'.healthChannel = s.healthChannel ++ cs ∧ ∀ c ∈ cs, s.healthSeq < c.healthId

theorem insert_spec {b : Batch} {w : Written} (hs : s.Sound) (h : s.insert fmt b = .ok (s', w)) :
    Inserted s s' b w := by
  obtain ⟨⟨pollId, s₁⟩, hpoll, h⟩ := bind_eq_ok.mp h
  obtain ⟨s₂, hfindings, h⟩ := bind_eq_ok.mp h
  obtain ⟨⟨s₃, crawled⟩, hrows, h⟩ := bind_eq_ok.mp h
  cases h
  obtain ⟨hs₁, hlt, hpollSeq₁, hfound, hhealth₁, hseq₁, hchannels₁⟩ := addPoll_spec hs hpoll
  obtain ⟨hs₂, hgrow₂, hhealth₂, hseq₂⟩ := foldlM_addFinding hs₁ hfindings
  have hfound₂ : (s₂.poll.find? fun p => p.id = pollId).isSome = true := hgrow₂.poll ▸ hfound
  have hpollSeq₂ : s₂.pollSeq = pollId := hgrow₂.pollSeq.trans hpollSeq₁
  have hrowsSpec := @foldlM_insertRow fmt pollId b.atMs b.rows (s₂, []) (s₃, crawled) hs₂ hfound₂
    hpollSeq₂.ge hrows
  obtain ⟨hs₃, hgrow₃, hdistinct, rows, hall, habove, hstored⟩ := hrowsSpec
  dsimp only at hs₃ hgrow₃ hall habove hstored
  have hgrow₁₃ := hgrow₂.trans hgrow₃
  refine ⟨{ hs₃ with agents := hs₃.agents.forget, schema := { hs₃.schema with } }, rfl,
    ⟨hlt, hgrow₃.pollSeq.trans hpollSeq₂⟩, hdistinct, ⟨rows, ?_, ?_, ?_⟩, ?_⟩
  · exact hall.trans (by rw [hhealth₂, hhealth₁])
  · intro h hh
    have := habove h hh
    rwa [hseq₂, hseq₁] at this
  · exact hstored.imp fun r h hr => ⟨hr.figures, hr.poll, hr.time, hr.node, hr.channels⟩
  · obtain ⟨cs, hcs, hnew⟩ := hgrow₁₃.healthChannel
    exact ⟨cs, by rw [← hchannels₁]; exact hcs, fun c hc => hseq₁ ▸ hnew c hc⟩

/-! ## Pruning, and opening again -/

theorem deletePolls_sound (hs : s.Sound) (polls : List I64) : (s.deletePolls polls).Sound := by
  have hschema : Schema (s.deletePolls polls).tables :=
    { health_ids := hs.schema.health_ids.sublist (filter_sublist.map _)
      window_ids := hs.schema.window_ids.sublist (filter_sublist.map _)
      health_node := fun h hh => hs.schema.health_node h (mem_of_mem_filter hh)
      health_poll := fun h hh => by
        obtain ⟨hmem, hkept⟩ := mem_filter.mp hh
        obtain ⟨p, hp⟩ := isSome_iff_exists.mp (hs.schema.health_poll h hmem)
        have hid : p.id = h.pollId := by simpa using find?_some hp
        exact find?_isSome.mpr ⟨p, mem_filter.mpr ⟨mem_of_find?_eq_some hp,
          hid ▸ hkept⟩, decide_eq_true hid⟩
      channel_named := fun c hc => hs.schema.channel_named c (mem_of_mem_filter hc)
      iface_named := fun n hn => hs.schema.iface_named n (mem_of_mem_filter hn)
      window_node := fun w hw => hs.schema.window_node w (mem_of_mem_filter hw)
      agent_named := fun c hc => hs.schema.agent_named c (mem_of_mem_filter hc) }
  exact { hs with
    schema := hschema
    health_seq := fun h hh => hs.health_seq h (mem_of_mem_filter hh)
    channel_seq := fun c hc => hs.channel_seq c (mem_of_mem_filter hc)
    net_seq := fun n hn => hs.net_seq n (mem_of_mem_filter hn)
    window_seq := fun w hw => hs.window_seq w (mem_of_mem_filter hw)
    sighting_seq := fun c hc => hs.sighting_seq c (mem_of_mem_filter hc)
    status_seq := fun c hc => hs.status_seq c (mem_of_mem_filter hc) }

theorem deleteAgents_sound (hs : s.Sound) (hforgets : s.agents.forget = s.agents) :
    s.deleteAgents.Sound := by
  have hagents : s.deleteAgents.agents.Sound fun k => k :=
    { ids_nodup := hs.agents.ids_nodup.sublist (filter_sublist.map _)
      names_nodup := hs.agents.names_nodup.sublist (filter_sublist.map _)
      cached := fun c i hc => by
        have hempty : s.agents.ids.get? c = none := by
          rw [← hforgets]
          exact SortedMap.get?_empty c
        exact absurd (hempty.symm.trans hc) (fun h => nomatch h) }
  have hschema : Schema s.deleteAgents.tables :=
    { hs.schema with
      agent_named := fun c hc => by
        obtain ⟨agent, hagent⟩ := isSome_iff_exists.mp (hs.schema.agent_named c hc)
        have hmem : (c.agentId, agent) ∈ s.deleteAgents.agents.table :=
          mem_filter.mpr ⟨Interning.mem_of_named hagent,
            decide_eq_true (mem_map.mpr ⟨c, hc, rfl⟩)⟩
        exact isSome_iff_exists.mpr ⟨agent, Interning.named_of_mem hagents.ids_nodup hmem⟩ }
  exact { hs with agents := hagents, schema := hschema }

/-- **A store that rests** between two writes: what it keeps, and no agent is remembered. -/
structure Rests (s : Store) : Prop where
  sound : s.Sound
  forgets : s.agents.forget = s.agents

/-- What a store keeps of another one: perhaps less, and nothing else. -/
structure Trims (s s' : Store) : Prop where
  health : ∀ h ∈ s'.health, h ∈ s.health
  healthChannel : ∀ c ∈ s'.healthChannel, c ∈ s.healthChannel
  pollSeq : s'.pollSeq = s.pollSeq
  healthSeq : s'.healthSeq = s.healthSeq

theorem Trims.refl (s : Store) : s.Trims s := ⟨fun _ h => h, fun _ h => h, rfl, rfl⟩

theorem Trims.trans (h : s₀.Trims s) (h' : s.Trims s') : s₀.Trims s' :=
  ⟨fun x hx => h.health x (h'.health x hx), fun x hx => h.healthChannel x (h'.healthChannel x hx),
    h'.pollSeq.trans h.pollSeq, h'.healthSeq.trans h.healthSeq⟩

theorem prune_spec (hs : s.Rests) (keepFrom : I64) :
    (s.prune keepFrom).Rests ∧ s.Trims (s.prune keepFrom) := by
  have hforgets : (s.deletePolls (s.doomed keepFrom)).agents.forget =
      (s.deletePolls (s.doomed keepFrom)).agents := hs.forgets
  have hids : s.agents.ids = .empty := congrArg Interner.ids hs.forgets.symm
  refine ⟨⟨deleteAgents_sound (deletePolls_sound hs.sound _) hforgets, ?_⟩,
    fun h hh => mem_of_mem_filter hh, fun c hc => mem_of_mem_filter hc, rfl, rfl⟩
  exact congrArg (Interner.mk _) hids.symm

theorem prunes_spec (keepFrom : I64) (rounds : Nat) (hs : s.Rests) :
    ((prune keepFrom)^[rounds] s).Rests ∧ s.Trims ((prune keepFrom)^[rounds] s) := by
  induction rounds generalizing s with
  | zero => exact ⟨hs, Trims.refl s⟩
  | succ rounds ih =>
    obtain ⟨hs₁, htrims₁⟩ := prune_spec hs keepFrom
    obtain ⟨hs', htrims'⟩ := ih hs₁
    exact ⟨hs', htrims₁.trans htrims'⟩

theorem reopened_spec (hs : s.Sound) : s.reopened.Rests ∧ s.Trims s.reopened := by
  refine ⟨⟨{ hs with
    nodes := hs.nodes.forget
    channels := hs.channels.forget
    ifaces := hs.ifaces.forget
    agents := hs.agents.forget
    builds := hs.builds.forget
    schema := { hs.schema with } }, rfl⟩, fun _ h => h, fun _ h => h, rfl, rfl⟩

theorem new_rests : new.Rests := by
  have hempty : ∀ {K : Type} {keyOf : K → Str},
      (⟨[], .empty⟩ : Interner I64 K Str).Sound keyOf := by
    refine ⟨nodup_nil, nodup_nil, fun c i hc => ?_⟩
    rw [SortedMap.get?_empty] at hc
    cases hc
  have hschema : Schema new.tables := by
    constructor
    · exact nodup_nil
    · exact nodup_nil
    all_goals exact fun _ h => absurd h not_mem_nil
  refine ⟨⟨hempty, hempty, hempty, hempty, hempty, hschema, ?_, ?_, ?_, ?_, ?_, ?_⟩, rfl⟩
  all_goals exact fun _ h => absurd h not_mem_nil

/-- What a step does: it writes a batch and prunes, or opens the store again. -/
theorem step_cases {e : StoreEvent} (hstep : s.step fmt e = some s') :
    s' = s.reopened ∨ ∃ b rounds s₁ w, e = .write b rounds ∧ s.insert fmt b = .ok (s₁, w) ∧
      s' = (prune w.pollId)^[rounds] s₁ := by
  cases e with
  | reopen => exact .inl (Option.some.inj hstep).symm
  | write b rounds =>
    rw [Store.step] at hstep
    cases hwrite : s.write fmt b rounds with
    | ok s₁ =>
      rw [hwrite] at hstep
      cases hstep
      obtain ⟨⟨s₁, w⟩, hinsert, hprune⟩ := bind_eq_ok.mp hwrite
      exact .inr ⟨b, rounds, s₁, w, rfl, hinsert, (Except.ok.inj hprune).symm⟩
    | error e =>
      rw [hwrite] at hstep
      cases e with
      | panic => cases hstep
      | _ => exact .inl (Option.some.inj hstep).symm

theorem Rests.step {e : StoreEvent} (h : s.Rests) (hstep : s.step fmt e = some s') : s'.Rests := by
  obtain rfl | ⟨b, rounds, s₁, w, -, hinsert, rfl⟩ := step_cases hstep
  · exact (reopened_spec h.sound).1
  · have hspec := insert_spec h.sound hinsert
    exact (prunes_spec w.pollId rounds ⟨hspec.sound, hspec.forgets⟩).1

/-- **The tables keep their schema**, whatever is written into a new file, and however often it is
pruned and opened again. -/
theorem rests_throughout (fmt : Formats) (events : List StoreEvent) :
    Runs.Throughout (Store.step fmt) Rests new events :=
  Runs.throughout_of_inv (fun _ _ _ h hstep => h.step hstep) (fun _ h => h) events new_rests

end Store

end M6.Monitor
