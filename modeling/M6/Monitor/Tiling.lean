import M6.Lib.Tally
import M6.Monitor.StoreRoom

/-!
# Crawl windows

A node's window is stored when at least `window_minutes` have passed since its last one, so that the
windows of a node do not overlap (`Store.Apart`), and a window stores the busiest of its sightings
(`Busiest`).

The second holds of any list of crawlers, and of the sightings of each window in the file
(`sighted_throughout`). The first does not: the test reads what was stored before the poll, so two
rows of one poll that name one node are both stored (`twice_in_one_poll`). `windows_apart` says that
nothing else lets two windows overlap: not a write that fails, nor pruning, nor opening the file
again, nor a clock that is set back.
-/

namespace M6.Monitor

open List Option SortedMap

open App (I64)
open Failing
open Select (named orderBy)

/-! ## The sightings of a window -/

def cutAgent (c : CrawlerReport) : Str := (Text.truncate c.userAgent maxAgentBytes).getD []

def i64Max : Nat := 2 ^ 63 - 1

def requestsOf (crawlers : List CrawlerReport) (ua : Str) : Nat :=
  min (Tally.total (fun c => min c.requests.toNat i64Max)
    (crawlers.filter fun c => cutAgent c = ua)) i64Max

/-- **What a window keeps** of a list of crawlers: the busiest, cut and merged. -/
structure Busiest (crawlers : List CrawlerReport) (kept : List Capped) (dropped : I64) : Prop where
  distinct : (kept.map Capped.userAgent).Nodup
  short : ∀ m ∈ kept, Text.byteLen m.userAgent ≤ maxAgentBytes
  few : kept.length ≤ maxSightings
  /-- each is of the list, with all the requests of its agent -/
  merged : ∀ m ∈ kept, m.userAgent ∈ crawlers.map cutAgent ∧
    m.requests.1 = requestsOf crawlers m.userAgent
  /-- no agent that is dropped has more -/
  busiest : ∀ ua ∈ crawlers.map cutAgent, ua ∉ kept.map Capped.userAgent →
    ∀ m ∈ kept, (requestsOf crawlers ua : Int) ≤ m.requests.1
  counted : crawlers.length < 2 ^ 63 →
    kept.length + dropped.1 = ((crawlers.map cutAgent).dedup.length : Int)

theorem iu_val (v : Nat) : (iu v).1 = (min v i64Max : Nat) := by
  rw [iu, i64Max]
  split_ifs with h
  · dsimp only
    omega
  · dsimp only
    omega

theorem byteLen_cutAgent (c : CrawlerReport) : Text.byteLen (cutAgent c) ≤ maxAgentBytes := by
  obtain ⟨ua, hua, -, hlen⟩ := Text.truncate_spec c.userAgent maxAgentBytes
  rw [cutAgent, hua]
  exact hlen

structure MergedInto (crawlers : List CrawlerReport) (out : List Capped) : Prop where
  distinct : (out.map Capped.userAgent).Nodup
  agents : ∀ ua, ua ∈ out.map Capped.userAgent ↔ ua ∈ crawlers.map cutAgent
  requests : ∀ m ∈ out, m.requests.1 = requestsOf crawlers m.userAgent

theorem requestsOf_concat (crawlers : List CrawlerReport) (c : CrawlerReport) (ua : Str) :
    requestsOf (crawlers ++ [c]) ua =
      if cutAgent c = ua then min (requestsOf crawlers ua + min c.requests.toNat i64Max) i64Max
      else requestsOf crawlers ua := by
  have hone : Tally.total (fun c : CrawlerReport => min c.requests.toNat i64Max) [c] =
      min c.requests.toNat i64Max := Nat.zero_add _
  rw [requestsOf, requestsOf, filter_append]
  split_ifs with h
  · rw [filter_cons_of_pos (by simpa using h), filter_nil, Tally.total_append, hone]
    omega
  · rw [filter_cons_of_neg (by simpa using h), filter_nil, append_nil]

theorem requestsOf_of_not_mem {crawlers : List CrawlerReport} {ua : Str}
    (h : ua ∉ crawlers.map cutAgent) : requestsOf crawlers ua = 0 := by
  have hnone : crawlers.filter (fun c => cutAgent c = ua) = [] := by
    refine filter_eq_nil_iff.mpr fun c hc heq => h ?_
    exact mem_map.mpr ⟨c, hc, of_decide_eq_true heq⟩
  rw [requestsOf, hnone]
  exact Nat.zero_min _

theorem MergedInto.step {crawlers : List CrawlerReport} {out : List Capped}
    (h : MergedInto crawlers out) (c : CrawlerReport) :
    ∃ out', capSighting out c = .ok out' ∧ MergedInto (crawlers ++ [c]) out' := by
  obtain ⟨ua, hua, hout⟩ := capSighting_ok out c
  have hcut : cutAgent c = ua := by rw [cutAgent, hua, getD_some]
  refine ⟨_, hout, (capSighting_spec hout h.distinct).1, ?_, ?_⟩
  · intro ua'
    rw [map_append, mem_append, ← h.agents ua', map_singleton, mem_singleton, hcut]
    split_ifs with hany
    · obtain ⟨m, hm, heq⟩ := any_eq_true.mp hany
      have hthere : ua ∈ out.map Capped.userAgent := mem_map.mpr ⟨m, hm, of_decide_eq_true heq⟩
      have hagents : (out.map fun m => if m.userAgent = ua then m.merge c else m).map
          Capped.userAgent = out.map Capped.userAgent := by
        rw [List.map_map]
        refine map_congr_left fun m _ => ?_
        simp only [Function.comp_apply]
        split_ifs
        · rfl
        · rfl
      rw [hagents]
      exact ⟨Or.inl, fun h => h.elim (fun h => h) fun h => h ▸ hthere⟩
    · rw [map_append, mem_append, map_singleton, mem_singleton]
  · intro m hm
    rw [requestsOf_concat, hcut]
    split_ifs at hm with hany
    · obtain ⟨m₀, hm₀, rfl⟩ := mem_map.mp hm
      have hrequests := h.requests m₀ hm₀
      by_cases heq : m₀.userAgent = ua
      · have hsame : (m₀.merge c).userAgent = ua := heq
        have hsum : (m₀.merge c).requests.1 =
            (saturate (m₀.requests.1 + (iu c.requests.toNat).1)).1 := rfl
        rw [if_pos heq, if_pos hsame.symm, hsame, hsum, hrequests, iu_val, heq, saturate, i64Max]
        dsimp only
        omega
      · rw [if_neg heq, if_neg fun hsame => heq hsame.symm]
        exact hrequests
    · obtain hm | hm := mem_append.mp hm
      · have hne : ua ≠ m.userAgent := fun heq =>
          hany (any_eq_true.mpr ⟨m, hm, decide_eq_true heq.symm⟩)
        rw [if_neg hne]
        exact h.requests m hm
      · rw [mem_singleton.mp hm]
        dsimp only
        have hnew : ua ∉ crawlers.map cutAgent := by
          intro hmem
          obtain ⟨m₀, hm₀, heq⟩ := mem_map.mp ((h.agents ua).mpr hmem)
          exact hany (any_eq_true.mpr ⟨m₀, hm₀, decide_eq_true heq⟩)
        rw [if_pos rfl, requestsOf_of_not_mem hnew, iu_val, Nat.zero_add, Nat.min_assoc,
          Nat.min_self]

theorem gathered (crawlers : List CrawlerReport) :
    ∃ out, crawlers.foldlM capSighting [] = .ok out ∧ MergedInto crawlers out := by
  induction crawlers using reverseRecOn with
  | nil =>
    refine ⟨[], rfl, nodup_nil, fun _ => Iff.rfl, fun m hm => ?_⟩
    cases hm
  | append_singleton crawlers c ih =>
    obtain ⟨out, hout, hgathered⟩ := ih
    obtain ⟨out', hout', hgathered'⟩ := hgathered.step c
    refine ⟨out', ?_, hgathered'⟩
    have hlast : [c].foldlM capSighting out = .ok out' := by
      rw [foldlM_cons, hout']
      rfl
    rw [foldlM_append, hout]
    exact hlast

/-- **The stored sightings are the busiest**, of any list of crawlers. -/
theorem capSightings_busiest (crawlers : List CrawlerReport) :
    ∃ kept dropped, capSightings crawlers = .ok (kept, dropped) ∧
      Busiest crawlers kept dropped := by
  obtain ⟨out, hout, hgathered⟩ := gathered crawlers
  have hperm : (orderBy busiest out).Perm out := Select.orderBy_perm out
  have hmem : ∀ m ∈ (orderBy busiest out).take maxSightings, m ∈ out := fun m hm =>
    hperm.mem_iff.mp (mem_of_mem_take hm)
  have hdistinct : ((orderBy busiest out).map Capped.userAgent).Nodup :=
    (hperm.map Capped.userAgent).nodup_iff.mpr hgathered.distinct
  refine ⟨(orderBy busiest out).take maxSightings, iu (out.length - maxSightings), ?_, ?_⟩
  · rw [capSightings, hout]
    rfl
  refine ⟨hdistinct.sublist ((take_sublist _ _).map _), fun m hm => ?_,
    length_take_le .., fun m hm => ⟨?_, hgathered.requests m (hmem m hm)⟩, ?_, fun hlen => ?_⟩
  · have hagent := (hgathered.agents _).mp (mem_map.mpr ⟨m, hmem m hm, rfl⟩)
    obtain ⟨c, -, hc⟩ := mem_map.mp hagent
    exact hc ▸ byteLen_cutAgent c
  · exact (hgathered.agents _).mp (mem_map.mpr ⟨m, hmem m hm, rfl⟩)
  · -- what is dropped comes after what is kept
    intro ua hua hnot m hm
    obtain ⟨m', hm', heq⟩ := mem_map.mp ((hgathered.agents ua).mpr hua)
    have hsplit := take_append_drop maxSightings (orderBy busiest out)
    have hall : m' ∈ (orderBy busiest out).take maxSightings ++
        (orderBy busiest out).drop maxSightings := by
      rw [hsplit]
      exact hperm.mem_iff.mpr hm'
    have hdrop : m' ∈ (orderBy busiest out).drop maxSightings := by
      obtain hin | hin := mem_append.mp hall
      · exact absurd (mem_map.mpr ⟨m', hin, heq⟩) hnot
      · exact hin
    have hordered : (orderBy busiest out).Pairwise (Select.KeyLe busiest) := Select.orderBy_le out
    rw [← hsplit] at hordered
    have hle := (pairwise_append.mp hordered).2.2 m hm m' hdrop
    rw [← heq, ← hgathered.requests m' hm']
    exact Prod.Lex.monotone_fst _ _ hle
  · have hlength : out.length = (crawlers.map cutAgent).dedup.length := by
      have hsame : (out.map Capped.userAgent).Perm (crawlers.map cutAgent).dedup := by
        refine (perm_ext_iff_of_nodup hgathered.distinct (nodup_dedup _)).mpr ?_
        intro ua
        rw [mem_dedup]
        exact hgathered.agents ua
      rw [← hsame.length_eq, length_map]
    have hfew : out.length ≤ crawlers.length := by
      rw [hlength]
      refine (dedup_sublist _).length_le.trans ?_
      rw [length_map]
    rw [length_take, hperm.length_eq, iu_val, ← hlength, i64Max]
    omega

/-! ## The sightings in the file -/

namespace Store

variable {s s' s₀ : Store} {fmt : Formats}

def StoredAs (agents : List (I64 × Str)) (m : Capped) (r : CrawlSighting) : Prop :=
  r.requests = m.requests ∧ named agents r.agentId = some m.userAgent

def Holds (agents : List (I64 × Str)) (sightings : List CrawlSighting) (w : CrawlWindow) : Prop :=
  ∃ crawlers kept, capSightings crawlers = .ok (kept, w.sightingsDropped) ∧
    List.Forall₂ (StoredAs agents) kept (sightings.filter fun r => r.windowId = w.id)

/-- Windows are in the order of their ids, each with what it keeps of a list of crawlers. -/
structure Sighted (s : Store) : Prop where
  ordered : s.crawlWindow.Pairwise fun w w' => w.id < w'.id
  holds : ∀ w ∈ s.crawlWindow, Holds s.agents.table s.crawlSighting w

variable {w : CrawlWindow}

theorem Holds.mono {agents agents' : List (I64 × Str)} {sightings sightings' : List CrawlSighting}
    (h : Holds agents sightings w)
    (hsame : sightings'.filter (fun r => r.windowId = w.id) =
      sightings.filter fun r => r.windowId = w.id)
    (hagents : ∀ r ∈ sightings, r.windowId = w.id → ∀ ua, named agents r.agentId = some ua →
      named agents' r.agentId = some ua) : Holds agents' sightings' w := by
  obtain ⟨crawlers, kept, hkept, hall⟩ := h
  refine ⟨crawlers, kept, hkept, ?_⟩
  rw [hsame]
  have hkeeps : ∀ r ∈ sightings.filter (fun r => r.windowId = w.id), ∀ ua,
      named agents r.agentId = some ua → named agents' r.agentId = some ua := by
    intro r hr
    obtain ⟨hmem, hid⟩ := mem_filter.mp hr
    exact hagents r hmem (of_decide_eq_true hid)
  have hboth := (forall₂_and_left _ _).mpr ⟨hkeeps, hall.flip⟩
  exact (hboth.imp fun r m hr => ⟨hr.2.1, hr.1 _ hr.2.2⟩).flip

structure Aside (s s' : Store) : Prop where
  nodes : s.nodes.table <+: s'.nodes.table
  crawlWindow : s'.crawlWindow = s.crawlWindow
  crawlSighting : s'.crawlSighting = s.crawlSighting
  agents : s'.agents = s.agents
  windowSeq : s'.windowSeq = s.windowSeq
  lastCrawlAt : s'.lastCrawlAt = s.lastCrawlAt

theorem Aside.trans (h : s₀.Aside s) (h' : s.Aside s') : s₀.Aside s' where
  nodes := h.nodes.trans h'.nodes
  crawlWindow := h'.crawlWindow.trans h.crawlWindow
  crawlSighting := h'.crawlSighting.trans h.crawlSighting
  agents := h'.agents.trans h.agents
  windowSeq := h'.windowSeq.trans h.windowSeq
  lastCrawlAt := h'.lastCrawlAt.trans h.lastCrawlAt

theorem Aside.refl (s : Store) : s.Aside s := ⟨prefix_refl _, rfl, rfl, rfl, rfl, rfl⟩

theorem Aside.sighted (h : s.Aside s') (hs : s.Sighted) : s'.Sighted := by
  refine ⟨?_, ?_⟩
  · rw [h.crawlWindow]
    exact hs.ordered
  · rw [h.crawlWindow, h.crawlSighting, h.agents]
    exact hs.holds

theorem aside_nodeId {name : Str} {id : I64} (h : s.nodeId name = .ok (id, s')) : s.Aside s' := by
  obtain ⟨⟨id, nodes⟩, hid, hrest⟩ := bind_eq_ok.mp h
  cases hrest
  exact { Aside.refl s with nodes := Interning.Interner.grows_of_id hid }

theorem aside_buildId {build : Option (Str × Str × Str)} {id : Option I64}
    (h : s.buildId build = .ok (id, s')) : s.Aside s' := by
  cases build with
  | none =>
    cases h
    exact .refl s
  | some b =>
    obtain ⟨⟨i, builds⟩, -, hrest⟩ := bind_eq_ok.mp h
    cases hrest
    exact { Aside.refl s with }

variable {b : Batch}

theorem aside_addPoll {id : I64} (h : s.addPoll b = .ok (id, s')) : s.Aside s' := by
  obtain ⟨id, -, hrest⟩ := bind_eq_ok.mp h
  cases hrest
  exact { Aside.refl s with }

theorem aside_addFinding {pollId : I64} {f : FindingRow} (h : s.addFinding pollId f = .ok s') :
    s.Aside s' := by
  obtain ⟨id, -, hrest⟩ := bind_eq_ok.mp h
  cases hrest
  exact { Aside.refl s with }

theorem aside_addFindings {pollId : I64} {fs : List FindingRow}
    (h : fs.foldlM (addFinding pollId) s = .ok s') : s.Aside s' := by
  induction fs generalizing s with
  | nil =>
    cases h
    exact .refl _
  | cons f fs ih =>
    rw [foldlM_cons] at h
    obtain ⟨s₁, hfirst, hrest⟩ := bind_eq_ok.mp h
    exact (aside_addFinding hfirst).trans (ih hrest)

variable {r : Row}

theorem aside_addHealth {pollId atMs nodeId id : I64} {buildId : Option I64}
    (h : s.addHealth pollId atMs nodeId buildId r = .ok (id, s')) : s.Aside s' := by
  obtain ⟨id, -, hrest⟩ := bind_eq_ok.mp h
  cases hrest
  exact { Aside.refl s with }

theorem aside_addChannels {healthId : I64} {cs : List ChannelRow}
    (h : s.addChannels healthId cs = .ok s') : s.Aside s' := by
  obtain ⟨⟨channels, rows⟩, -, hrest⟩ := bind_eq_ok.mp h
  cases hrest
  exact { Aside.refl s with }

theorem aside_addNet {healthId : I64} {ns : List NetRow} (h : s.addNet healthId ns = .ok s') :
    s.Aside s' := by
  obtain ⟨⟨ifaces, rows⟩, -, hrest⟩ := bind_eq_ok.mp h
  cases hrest
  exact { Aside.refl s with }

structure Added (fmt : Formats) (s s' : Store) (pollId atMs nodeId : I64) (c : CrawlSnapshot)
    (w : CrawlWindow) : Prop where
  window : ∃ dropped, w = windowOf fmt w.id pollId atMs nodeId c dropped
  new : s.windowSeq < w.id
  windowSeq : s'.windowSeq = w.id
  crawlWindow : s'.crawlWindow = s.crawlWindow ++ [w]
  nodes : s.nodes.table <+: s'.nodes.table
  lastCrawlAt : s'.lastCrawlAt = s.lastCrawlAt
  agents : s.agents.table <+: s'.agents.table
  sightings : ∃ kept rs, capSightings c.crawlers = .ok (kept, w.sightingsDropped) ∧
    s'.crawlSighting = s.crawlSighting ++ rs ∧ (∀ r ∈ rs, r.windowId = w.id) ∧
    List.Forall₂ (StoredAs s'.agents.table) kept rs

variable {c : CrawlSnapshot}

theorem added_addWindow {pollId atMs nodeId : I64}
    (hs : s.agents.Sound fun k => k) (h : s.addWindow fmt pollId atMs nodeId c = .ok s') :
    ∃ w, Added fmt s s' pollId atMs nodeId c w := by
  obtain ⟨⟨kept, dropped⟩, hkept, h⟩ := bind_eq_ok.mp h
  obtain ⟨id, hid, h⟩ := bind_eq_ok.mp h
  obtain ⟨status, -, h⟩ := bind_eq_ok.mp h
  obtain ⟨⟨agents, rows⟩, hlinks, hrest⟩ := bind_eq_ok.mp h
  cases hrest
  obtain ⟨-, hgrow, -, -, rs, hrows, hall⟩ :=
    Interning.foldlM_link_spec freshId_new (sightingOf_rows id) hs hlinks
  dsimp only at hgrow hrows hall
  have hlt : s.windowSeq < id := by
    have := nextId_eq_ok hid
    exact Subtype.coe_lt_coe.mp (by omega)
  refine ⟨windowOf fmt id pollId atMs nodeId c dropped,
    { window := ⟨dropped, rfl⟩
      new := hlt
      windowSeq := rfl
      crawlWindow := rfl
      nodes := prefix_refl _
      lastCrawlAt := rfl
      agents := hgrow
      sightings := ⟨kept, rs, hkept, hrows, ?_, ?_⟩ }⟩
  · exact fun r hr => (mem_linked (sightingOf_rows id) hall hr).1
  · refine hall.imp fun m r hr => ?_
    obtain ⟨i, rfl, hnamed⟩ := hr
    exact ⟨rfl, hnamed⟩

theorem Added.sighted {pollId atMs nodeId : I64}
    (h : Added fmt s s' pollId atMs nodeId c w) (hsound : s.Sound) (hs : s.Sighted) :
    s'.Sighted := by
  obtain ⟨kept, rs, hkept, hrows, hids, hall⟩ := h.sightings
  refine ⟨?_, fun w' hw' => ?_⟩
  · rw [h.crawlWindow]
    refine pairwise_append.mpr ⟨hs.ordered, pairwise_singleton _ _, fun w' hw' x hx => ?_⟩
    rw [mem_singleton.mp hx]
    exact (hsound.window_seq w' hw').trans_lt h.new
  · rw [h.crawlWindow] at hw'
    rw [hrows]
    obtain hw' | hw' := mem_append.mp hw'
    · -- the new sightings are of another window
      have hne : rs.filter (fun r => r.windowId = w'.id) = [] := by
        refine filter_eq_nil_iff.mpr fun r hr heq => ?_
        have hid := (hids r hr).symm.trans (of_decide_eq_true heq)
        exact absurd (hsound.window_seq w' hw') (hid ▸ not_le_of_gt h.new)
      refine (hs.holds w' hw').mono ?_ fun r _ _ ua hua => Interning.named_mono h.agents hua
      rw [filter_append, hne, append_nil]
    · rw [mem_singleton.mp hw']
      refine ⟨c.crawlers, kept, hkept, ?_⟩
      have hold : s.crawlSighting.filter (fun r => r.windowId = w.id) = [] := by
        refine filter_eq_nil_iff.mpr fun r hr heq => ?_
        have hle := hsound.sighting_seq r hr
        rw [of_decide_eq_true heq] at hle
        exact absurd hle (not_le_of_gt h.new)
      have hnew : rs.filter (fun r => r.windowId = w.id) = rs :=
        filter_eq_self.mpr fun r hr => decide_eq_true (hids r hr)
      rw [filter_append, hold, hnew, nil_append]
      exact hall

variable {st st' : Store × List (I64 × I64)} {pollId atMs : I64}

/-- **What a row does to the windows**: nothing, or it adds one that is due. -/
theorem insertRow_windows (hs : st.1.Sound) (h : insertRow fmt pollId atMs st r = .ok st') :
    (st.1.Aside st'.1 ∧ st'.2 = st.2) ∨ ∃ c w, r.crawl = some c ∧ st.1.due w.nodeId atMs c = true ∧
        named st'.1.nodes.table w.nodeId = some r.node ∧
        Added fmt st.1 st'.1 pollId atMs w.nodeId c w ∧ st'.2 = st.2 ++ [(w.nodeId, atMs)] := by
  obtain ⟨⟨nodeId, s₁⟩, hnode, h⟩ := bind_eq_ok.mp h
  obtain ⟨⟨buildId, s₂⟩, hbuild, h⟩ := bind_eq_ok.mp h
  obtain ⟨⟨healthId, s₃⟩, hhealth, h⟩ := bind_eq_ok.mp h
  obtain ⟨s₄, hchannels, h⟩ := bind_eq_ok.mp h
  obtain ⟨s₅, hnet, h⟩ := bind_eq_ok.mp h
  obtain ⟨-, -, -, -, hnamed⟩ := nodeId_spec hs hnode
  have haside₁₅ : s₁.Aside s₅ := (aside_buildId hbuild).trans
    ((aside_addHealth hhealth).trans ((aside_addChannels hchannels).trans (aside_addNet hnet)))
  have haside : st.1.Aside s₅ := (aside_nodeId hnode).trans haside₁₅
  have hnamed₅ := Interning.named_mono haside₁₅.nodes hnamed
  cases hcrawl : r.crawl with
  | none =>
    rw [hcrawl] at h
    cases h
    exact .inl ⟨haside, rfl⟩
  | some c =>
    rw [hcrawl, insertCrawl] at h
    split_ifs at h with hdue
    · obtain ⟨s₆, hwindow, h⟩ := bind_eq_ok.mp h
      cases h
      obtain ⟨w, hadded⟩ := added_addWindow (haside.agents ▸ hs.agents) hwindow
      obtain ⟨dropped, hw⟩ := hadded.window
      have hid : w.nodeId = nodeId := by rw [hw]; rfl
      refine .inr ⟨c, w, rfl, ?_, ?_, ?_, ?_⟩
      · rw [hid]
        rw [due, haside.lastCrawlAt] at hdue
        exact hdue
      · rw [hid]
        exact Interning.named_mono hadded.nodes hnamed₅
      · rw [hid]
        exact { hadded with
          new := haside.windowSeq ▸ hadded.new
          crawlWindow := haside.crawlWindow ▸ hadded.crawlWindow
          nodes := haside.nodes.trans hadded.nodes
          lastCrawlAt := hadded.lastCrawlAt.trans haside.lastCrawlAt
          agents := haside.agents ▸ hadded.agents
          sightings := haside.crawlSighting ▸ hadded.sightings }
      · rw [hid]
    · cases h
      exact .inl ⟨haside, rfl⟩

/-! ## The rows of a poll -/

structure Crawled (s : Store) (nodes : List (I64 × Str)) (atMs : I64) (r : Row) (w : CrawlWindow) :
    Prop where
  named : named nodes w.nodeId = some r.node
  time : w.atMs = atMs
  due : ∃ c, r.crawl = some c ∧ w.windowMinutes = c.windowMinutes ∧ s.due w.nodeId atMs c = true

/-- **What the rows of a poll do to the windows**: some of them, in order, add one that was due
before the poll. -/
structure Crawling (s : Store) (atMs : I64) (rows : List Row) (st : Store × List (I64 × I64)) :
    Prop where
  nodes : s.nodes.table <+: st.1.nodes.table
  lastCrawlAt : st.1.lastCrawlAt = s.lastCrawlAt
  windows : ∃ rs ws, rs.Sublist rows ∧ List.Forall₂ (Crawled s st.1.nodes.table atMs) rs ws ∧
    st.1.crawlWindow = s.crawlWindow ++ ws ∧ st.2 = ws.map fun w => (w.nodeId, w.atMs)

theorem Crawling.step {rows : List Row} (hc : Crawling s atMs rows st) (hsound : st.1.Sound)
    (h : insertRow fmt pollId atMs st r = .ok st') : Crawling s atMs (rows ++ [r]) st' := by
  obtain ⟨rs, ws, hsub, hall, hwindows, hcrawled⟩ := hc.windows
  obtain ⟨haside, hsame⟩ | ⟨c, w, hrow, hdue, hnamed, hadded, hmore⟩ := insertRow_windows hsound h
  · have hall' : List.Forall₂ (Crawled s st'.1.nodes.table atMs) rs ws := hall.imp fun r w hw =>
      { hw with named := Interning.named_mono haside.nodes hw.named }
    exact
      { nodes := hc.nodes.trans haside.nodes
        lastCrawlAt := haside.lastCrawlAt.trans hc.lastCrawlAt
        windows := ⟨rs, ws, hsub.trans (sublist_append_left _ _), hall',
          haside.crawlWindow.trans hwindows, hsame.trans hcrawled⟩ }
  · obtain ⟨dropped, hw⟩ := hadded.window
    have htime : w.atMs = atMs := by rw [hw]; rfl
    have hminutes : w.windowMinutes = c.windowMinutes := by rw [hw]; rfl
    have hnew : Crawled s st'.1.nodes.table atMs r w := by
      refine ⟨hnamed, htime, c, hrow, hminutes, ?_⟩
      rw [Store.due, ← hc.lastCrawlAt]
      exact hdue
    have hall' : List.Forall₂ (Crawled s st'.1.nodes.table atMs) rs ws := hall.imp fun r w hw =>
      { hw with named := Interning.named_mono hadded.nodes hw.named }
    refine
      { nodes := hc.nodes.trans hadded.nodes
        lastCrawlAt := hadded.lastCrawlAt.trans hc.lastCrawlAt
        windows := ⟨rs ++ [r], ws ++ [w], hsub.append (List.Sublist.refl _),
          rel_append hall' (.cons hnew .nil), ?_, ?_⟩ }
    · rw [hadded.crawlWindow, hwindows, append_assoc]
    · rw [hmore, hcrawled, map_append, map_singleton, htime]

theorem sighted_insertRow
    (hs : st.1.Sound) (hsighted : st.1.Sighted) (h : insertRow fmt pollId atMs st r = .ok st') :
    st'.1.Sighted := by
  obtain ⟨haside, -⟩ | ⟨c, w, -, -, -, hadded, -⟩ := insertRow_windows hs h
  · exact haside.sighted hsighted
  · exact hadded.sighted hs hsighted

theorem crawling_rows {pollId atMs : I64} {done rows : List Row} {st st' : Store × List (I64 × I64)}
    (hs : st.1.Sound) (hpoll : (st.1.poll.find? fun p => p.id = pollId).isSome = true)
    (hle : pollId ≤ st.1.pollSeq) (hc : Crawling s atMs done st) (hsighted : st.1.Sighted)
    (h : rows.foldlM (insertRow fmt pollId atMs) st = .ok st') :
    Crawling s atMs (done ++ rows) st' ∧ st'.1.Sighted ∧ st'.1.Sound := by
  induction rows generalizing done st with
  | nil =>
    cases h
    rw [append_nil]
    exact ⟨hc, hsighted, hs⟩
  | cons r rows ih =>
    rw [foldlM_cons] at h
    obtain ⟨st₁, hfirst, hrest⟩ := bind_eq_ok.mp h
    obtain ⟨hs₁, hgrow₁, -⟩ := insertRow_spec hs hpoll hle hfirst
    have hpoll₁ : (st₁.1.poll.find? fun p => p.id = pollId).isSome = true := hgrow₁.poll ▸ hpoll
    have hrows := ih hs₁ hpoll₁ (hgrow₁.pollSeq ▸ hle) (hc.step hs hfirst)
      (sighted_insertRow hs hsighted hfirst) hrest
    rw [append_assoc, singleton_append] at hrows
    exact hrows

/-- **What a poll does to the windows.** -/
structure Polled (s s' : Store) (b : Batch) : Prop where
  nodes : s.nodes.table <+: s'.nodes.table
  sound : s'.nodes.Sound fun k => k
  sighted : s'.Sighted
  windows : ∃ rs ws, rs.Sublist b.rows ∧ List.Forall₂ (Crawled s s'.nodes.table b.atMs) rs ws ∧
    s'.crawlWindow = s.crawlWindow ++ ws ∧
    s'.lastCrawlAt = s.lastCrawlAt.insertAll (ws.map fun w => (w.nodeId, w.atMs))

theorem polled_insert {w : Written} (hs : s.Sound) (hsighted : s.Sighted)
    (h : s.insert fmt b = .ok (s', w)) : Polled s s' b := by
  obtain ⟨⟨pollId, s₁⟩, hpoll, h⟩ := bind_eq_ok.mp h
  obtain ⟨s₂, hfindings, h⟩ := bind_eq_ok.mp h
  obtain ⟨⟨s₃, crawled⟩, hrows, h⟩ := bind_eq_ok.mp h
  cases h
  obtain ⟨hs₁, -, hpollSeq₁, hfound, -⟩ := addPoll_spec hs hpoll
  obtain ⟨hs₂, hgrow₂, -⟩ := foldlM_addFinding hs₁ hfindings
  have haside : s.Aside s₂ := (aside_addPoll hpoll).trans (aside_addFindings hfindings)
  have hfound₂ : (s₂.poll.find? fun p => p.id = pollId).isSome = true := hgrow₂.poll ▸ hfound
  have hbefore : Crawling s b.atMs [] (s₂, []) :=
    ⟨haside.nodes, haside.lastCrawlAt, [], [], List.Sublist.refl _, .nil,
      haside.crawlWindow.trans (append_nil _).symm, rfl⟩
  obtain ⟨hcrawling, hsighted₃, hs₃⟩ := @crawling_rows s fmt pollId b.atMs [] b.rows (s₂, [])
    (s₃, crawled) hs₂ hfound₂ (hgrow₂.pollSeq.trans hpollSeq₁).ge hbefore
    (haside.sighted hsighted) hrows
  obtain ⟨rs, ws, hsub, hforall, hwindows, hcrawled⟩ := hcrawling.windows
  dsimp only at hforall hwindows hcrawled hsighted₃ hs₃
  refine
    { nodes := hcrawling.nodes
      sound := hs₃.nodes
      sighted := ⟨hsighted₃.ordered, hsighted₃.holds⟩
      windows := ⟨rs, ws, hsub, hforall, hwindows, ?_⟩ }
  have hlast := hcrawling.lastCrawlAt
  dsimp only at hlast ⊢
  rw [hcrawled, hlast]
  rfl

/-! ## Pruning, and opening again -/

theorem sighted_deletePolls (hs : s.Sound) (hsighted : s.Sighted) (polls : List I64) :
    (s.deletePolls polls).Sighted := by
  refine ⟨hsighted.ordered.filter _, fun w hw => ?_⟩
  obtain ⟨hmem, hkept⟩ := mem_filter.mp hw
  refine (hsighted.holds w hmem).mono ?_ fun _ _ _ _ h => h
  rw [deletePolls, List.filter_filter]
  refine filter_congr fun r _ => ?_
  by_cases hid : r.windowId = w.id
  · -- the window stays, and no other has its id
    have hstays : s.windowGoes polls r.windowId = false := by
      refine any_eq_false.mpr fun w' hw' hgoes => ?_
      obtain ⟨hsame, hpoll⟩ := of_decide_eq_true hgoes
      have heq := inj_on_of_nodup_map hs.schema.window_ids hw' hmem (hsame.trans hid)
      rw [heq] at hpoll
      exact absurd hpoll (of_decide_eq_true hkept)
    rw [hstays, Bool.not_false, Bool.and_true]
  · rw [decide_eq_false hid, Bool.false_and]

theorem sighted_deleteAgents (hs : s.deleteAgents.Sound) (hsighted : s.Sighted) :
    s.deleteAgents.Sighted := by
  refine ⟨hsighted.ordered, fun w hw => ?_⟩
  refine (hsighted.holds w hw).mono rfl fun r hr _ ua hua => ?_
  have hmem : (r.agentId, ua) ∈ s.deleteAgents.agents.table :=
    mem_filter.mpr ⟨Interning.mem_of_named hua,
      decide_eq_true (mem_map.mpr ⟨r, hr, rfl⟩)⟩
  exact Interning.named_of_mem hs.agents.ids_nodup hmem

theorem sighted_prune (hs : s.Rests) (hsighted : s.Sighted) (keepFrom : I64) :
    (s.prune keepFrom).Sighted :=
  sighted_deleteAgents (prune_spec hs keepFrom).1.sound
    (sighted_deletePolls hs.sound hsighted _)

theorem prunes_windows (hs : s.Rests) (hsighted : s.Sighted) (keepFrom : I64) (rounds : Nat) :
    ((prune keepFrom)^[rounds] s).Sighted ∧
      ((prune keepFrom)^[rounds] s).crawlWindow.Sublist s.crawlWindow ∧
      ((prune keepFrom)^[rounds] s).lastCrawlAt = s.lastCrawlAt := by
  induction rounds generalizing s with
  | zero => exact ⟨hsighted, List.Sublist.refl _, rfl⟩
  | succ rounds ih =>
    obtain ⟨hsighted', hsub, hlast⟩ :=
      ih (prune_spec hs keepFrom).1 (sighted_prune hs hsighted keepFrom)
    exact ⟨hsighted', hsub.trans filter_sublist, hlast⟩

/-! ## Windows that do not overlap -/

/-- **The windows of a node do not overlap**: one that is stored after another begins no sooner than
the other ended. -/
def Apart (s : Store) : Prop :=
  ∀ w ∈ s.crawlWindow, ∀ w' ∈ s.crawlWindow, w.nodeId = w'.nodeId → w.id < w'.id →
    w'.windowMinutes.1 * 60000 ≤ w'.atMs.1 - w.atMs.1

def dueNamed (s : Store) (node : Str) (atMs : I64) (c : CrawlSnapshot) : Bool :=
  (Interning.Interner.idOf s.nodes.table node).all fun id => s.due id atMs c

/-- A poll whose windows do not overlap: it has a time and lengths of windows as a clock and a
report have them, and no two of its rows have a window of one node that is due. -/
structure Tileable (s : Store) (b : Batch) : Prop where
  time : 0 ≤ b.atMs.1 ∧ b.atMs.1 < 2 ^ 63 - 1
  minutes : ∀ r ∈ b.rows, ∀ c, r.crawl = some c → 0 ≤ c.windowMinutes.1
  once : b.rows.Pairwise fun r r' => r.node = r'.node → ∀ c c', r.crawl = some c →
    r'.crawl = some c' → s.dueNamed r.node b.atMs c = true →
      s.dueNamed r'.node b.atMs c' = true → c'.windowMinutes.1 = 0

/-- What is remembered covers the windows that are stored, and they do not overlap. -/
structure Tiled (s : Store) : Prop where
  times : ∀ w ∈ s.crawlWindow, 0 ≤ w.atMs.1
  remembered : ∀ node last, s.lastCrawlAt.get? node = some last → 0 ≤ last.1
  covered : ∀ w ∈ s.crawlWindow, ∃ last, s.lastCrawlAt.get? w.nodeId = some last ∧
    w.atMs.1 ≤ last.1
  apart : s.crawlWindow.Pairwise fun w w' => w.nodeId = w'.nodeId →
    w'.windowMinutes.1 * 60000 ≤ w'.atMs.1 - w.atMs.1

theorem Tiled.apart_of_ids (h : s.Tiled) (hs : s.Sighted) : s.Apart := by
  intro w hw w' hw' hnode hid
  obtain ⟨i, hi, rfl⟩ := mem_iff_getElem.mp hw
  obtain ⟨j, hj, rfl⟩ := mem_iff_getElem.mp hw'
  have hordered := pairwise_iff_getElem.mp hs.ordered
  obtain hlt | heq | hgt := Nat.lt_trichotomy i j
  · exact pairwise_iff_getElem.mp h.apart i j hi hj hlt hnode
  · subst heq
    exact absurd hid (lt_irrefl _)
  · exact absurd hid (lt_asymm (hordered j i hj hi hgt))

theorem apart_of_due {nodeId atMs last : I64} (h : s.due nodeId atMs c = true)
    (hlast : s.lastCrawlAt.get? nodeId = some last) (hnonneg : 0 ≤ last.1) (htime : 0 ≤ atMs.1)
    (hmax : atMs.1 < 2 ^ 63 - 1) : c.windowMinutes.1 * 60000 ≤ atMs.1 - last.1 := by
  rw [due, hlast, all_some] at h
  have hle := Subtype.coe_le_coe.mpr (of_decide_eq_true h)
  rw [saturate, saturate] at hle
  dsimp only at hle
  omega

theorem dueNamed_of_crawled {s' : Store} (hs : s.Sound)
    (hp : s.Polled s' b) (h : Crawled s s'.nodes.table b.atMs r w) :
    ∃ c, r.crawl = some c ∧ w.windowMinutes = c.windowMinutes ∧
      s.dueNamed r.node b.atMs c = true := by
  obtain ⟨c, hc, hminutes, hdue⟩ := h.due
  refine ⟨c, hc, hminutes, ?_⟩
  rw [dueNamed]
  cases hid : Interning.Interner.idOf s.nodes.table r.node with
  | none => rfl
  | some id =>
    have hnamed : named s.nodes.table id = some r.node :=
      Interning.named_of_mem hs.nodes.ids_nodup (Interning.Interner.mem_of_idOf hid)
    have hsame : id = w.nodeId :=
      Interning.id_unique hp.sound.names_nodup (Interning.named_mono hp.nodes hnamed) h.named
    rw [all_some, hsame]
    exact hdue

/-- **A poll of which no two windows are of one node keeps the windows apart.** -/
theorem Tiled.insert {w : Written} (h : s.Tiled) (hs : s.Sound) (hsighted : s.Sighted)
    (hb : s.Tileable b) (hinsert : s.insert fmt b = .ok (s', w)) : s'.Tiled := by
  have hp := polled_insert hs hsighted hinsert
  obtain ⟨rs, ws, hsub, hall, hwindows, hlast⟩ := hp.windows
  have hcrawled : ∀ w ∈ ws, ∃ r ∈ rs, Crawled s s'.nodes.table b.atMs r w := by
    intro w hw
    obtain ⟨i, hi, rfl⟩ := mem_iff_getElem.mp hw
    have hi' : i < rs.length := hall.length_eq ▸ hi
    exact ⟨rs[i], getElem_mem hi', hall.get hi' hi⟩
  have htime : ∀ w ∈ ws, w.atMs = b.atMs := fun w hw => by
    obtain ⟨r, -, hr⟩ := hcrawled w hw
    exact hr.time
  -- a new window begins after each old one of its node has ended
  have hafter : ∀ w ∈ s.crawlWindow, ∀ w' ∈ ws, w.nodeId = w'.nodeId →
      w'.windowMinutes.1 * 60000 ≤ w'.atMs.1 - w.atMs.1 ∧ 0 ≤ w'.windowMinutes.1 := by
    intro w hw w' hw' hnode
    obtain ⟨r, hr, hcrawl⟩ := hcrawled w' hw'
    obtain ⟨c, hc, hminutes, hdue⟩ := hcrawl.due
    obtain ⟨last, hget, hle⟩ := h.covered w hw
    rw [hnode] at hget
    have hdiff := apart_of_due hdue hget (h.remembered _ _ hget) hb.time.1 hb.time.2
    have hnonneg := hb.minutes r (hsub.subset hr) c hc
    rw [hminutes, htime w' hw']
    exact ⟨by omega, hnonneg⟩
  refine ⟨?_, ?_, ?_, ?_⟩
  · intro w hw
    obtain hw | hw := mem_append.mp (hwindows ▸ hw)
    · exact h.times w hw
    · exact htime w hw ▸ hb.time.1
  · intro node last hget
    rw [hlast, get?_insertAll, or_eq_some_iff] at hget
    obtain hget | ⟨-, hget⟩ := hget
    · obtain ⟨w, hw, heq⟩ := mem_map.mp (mem_of_lastValue hget)
      cases heq
      exact htime w hw ▸ hb.time.1
    · exact h.remembered node last hget
  · intro w hw
    rw [hlast, get?_insertAll]
    cases hvalue : lastValue (ws.map fun w => (w.nodeId, w.atMs)) w.nodeId with
    | some last =>
      refine ⟨last, some_or .., ?_⟩
      obtain ⟨w', hw', heq⟩ := mem_map.mp (mem_of_lastValue hvalue)
      have hnode : w'.nodeId = w.nodeId := congrArg Prod.fst heq
      have hsame : w'.atMs = last := congrArg Prod.snd heq
      rw [← hsame]
      obtain hw | hw := mem_append.mp (hwindows ▸ hw)
      · have hdiff := hafter w hw w' hw' hnode.symm
        omega
      · rw [htime w hw, htime w' hw']
    | none =>
      rw [none_or]
      obtain hw | hw := mem_append.mp (hwindows ▸ hw)
      · exact h.covered w hw
      · have hmem : (w.nodeId, w.atMs) ∈ ws.map fun w => (w.nodeId, w.atMs) :=
          mem_map.mpr ⟨w, hw, rfl⟩
        exact absurd rfl (lastValue_eq_none.mp hvalue _ hmem)
  · rw [hwindows]
    refine pairwise_append.mpr ⟨h.apart, ?_, fun w hw w' hw' hnode =>
      (hafter w hw w' hw' hnode).1⟩
    -- two new windows are of one node only where the second has no length
    refine pairwise_iff_getElem.mpr fun i j hi hj hij hnode => ?_
    have hi' : i < rs.length := hall.length_eq ▸ hi
    have hj' : j < rs.length := hall.length_eq ▸ hj
    have hri := hall.get hi' hi
    have hrj := hall.get hj' hj
    have hsame : rs[i].node = rs[j].node := by
      have hni := hri.named
      rw [get_eq_getElem, get_eq_getElem] at hni
      rw [hnode] at hni
      exact some.inj (hni.symm.trans hrj.named)
    obtain ⟨ci, hci, -, hduei⟩ := dueNamed_of_crawled hs hp hri
    obtain ⟨cj, hcj, hminutes, hduej⟩ := dueNamed_of_crawled hs hp hrj
    have hzero := pairwise_iff_getElem.mp (hb.once.sublist hsub) i j hi' hj' hij hsame ci cj
      hci hcj hduei hduej
    have hti := htime _ (getElem_mem hi)
    have htj := htime _ (getElem_mem hj)
    rw [get_eq_getElem] at hminutes
    rw [hminutes, hzero, hti, htj]
    omega

theorem Tiled.trim (h : s.Tiled) (hsub : s'.crawlWindow.Sublist s.crawlWindow)
    (hlast : s'.lastCrawlAt = s.lastCrawlAt) : s'.Tiled where
  times := fun w hw => h.times w (hsub.subset hw)
  remembered := hlast ▸ h.remembered
  covered := fun w hw => hlast ▸ h.covered w (hsub.subset hw)
  apart := h.apart.sublist hsub

theorem lastCrawls_concat (ws : List CrawlWindow) (w : CrawlWindow) :
    lastCrawls (ws ++ [w]) = (lastCrawls ws).insert w.nodeId
      ((((lastCrawls ws).get? w.nodeId).map fun last => max last w.atMs).getD w.atMs) := by
  rw [lastCrawls, foldl_append]
  rfl

theorem lastCrawls_covers (ws : List CrawlWindow) :
    (∀ w ∈ ws, ∃ last, (lastCrawls ws).get? w.nodeId = some last ∧ w.atMs ≤ last) ∧
      ∀ node last, (lastCrawls ws).get? node = some last → ∃ w ∈ ws, last = w.atMs := by
  induction ws using reverseRecOn with
  | nil =>
    refine ⟨fun w hw => absurd hw not_mem_nil, fun node last hget => ?_⟩
    rw [lastCrawls, foldl_nil, get?_empty] at hget
    cases hget
  | append_singleton ws w ih =>
    obtain ⟨hcovers, hof⟩ := ih
    rw [lastCrawls_concat]
    generalize hnew : ((((lastCrawls ws).get? w.nodeId).map fun last =>
      max last w.atMs).getD w.atMs) = new
    have hle : w.atMs ≤ new ∧ ∀ last, (lastCrawls ws).get? w.nodeId = some last → last ≤ new := by
      rw [← hnew]
      cases (lastCrawls ws).get? w.nodeId with
      | none => exact ⟨le_refl _, fun last hlast => by cases hlast⟩
      | some last =>
        refine ⟨le_max_right _ _, fun last' hlast' => ?_⟩
        cases hlast'
        exact le_max_left _ _
    refine ⟨fun w' hw' => ?_, fun node last hget => ?_⟩
    · rw [get?_insert]
      split_ifs with hnode
      · refine ⟨new, rfl, ?_⟩
        obtain hw' | hw' := mem_append.mp hw'
        · obtain ⟨last, hget, hle'⟩ := hcovers w' hw'
          rw [hnode] at hget
          exact hle'.trans (hle.2 last hget)
        · rw [mem_singleton.mp hw']
          exact hle.1
      · obtain hw' | hw' := mem_append.mp hw'
        · exact hcovers w' hw'
        · exact absurd (congrArg CrawlWindow.nodeId (mem_singleton.mp hw')) hnode
    · rw [get?_insert] at hget
      split_ifs at hget with hnode
      · cases hget
        rw [← hnew]
        cases hbefore : (lastCrawls ws).get? w.nodeId with
        | none => exact ⟨w, mem_append_right _ (mem_singleton_self w), rfl⟩
        | some last =>
          obtain ⟨w', hw', rfl⟩ := hof _ _ hbefore
          rw [map_some, getD_some]
          obtain hmax | hmax := max_choice w'.atMs w.atMs
          · exact ⟨w', mem_append_left _ hw', hmax⟩
          · exact ⟨w, mem_append_right _ (mem_singleton_self w), hmax⟩
      · obtain ⟨w', hw', heq⟩ := hof node last hget
        exact ⟨w', mem_append_left _ hw', heq⟩

theorem Tiled.reopened (h : s.Tiled) : s.reopened.Tiled where
  times := h.times
  remembered := fun node last hget => by
    obtain ⟨w, hw, rfl⟩ := (lastCrawls_covers s.crawlWindow).2 node last hget
    exact h.times w hw
  covered := fun w hw => by
    obtain ⟨last, hget, hle⟩ := (lastCrawls_covers s.crawlWindow).1 w hw
    exact ⟨last, hget, Subtype.coe_le_coe.mpr hle⟩
  apart := h.apart

theorem Sighted.reopened (h : s.Sighted) : s.reopened.Sighted := ⟨h.ordered, h.holds⟩

/-! ## Runs of the writer -/

/-- A store between its writes, with what its windows keep of the crawlers. -/
structure Sights (s : Store) : Prop where
  rests : s.Rests
  sighted : s.Sighted

theorem Sights.step {e : StoreEvent} (h : s.Sights) (hstep : s.step fmt e = some s') :
    s'.Sights := by
  refine ⟨h.rests.step hstep, ?_⟩
  obtain rfl | ⟨b, rounds, s₁, w, -, hinsert, rfl⟩ := step_cases hstep
  · exact h.sighted.reopened
  · have hspec := insert_spec h.rests.sound hinsert
    exact (prunes_windows ⟨hspec.sound, hspec.forgets⟩
      (polled_insert h.rests.sound h.sighted hinsert).sighted w.pollId rounds).1

theorem new_sights : new.Sights :=
  ⟨new_rests, List.Pairwise.nil, fun _ hw => absurd hw not_mem_nil⟩

def StepTileable (s : Store) : StoreEvent → Prop
  | .write b _ => s.Tileable b
  | .reopen => True

theorem Tiled.step {e : StoreEvent} (h : s.Tiled) (hs : s.Sights) (he : s.StepTileable e)
    (hstep : s.step fmt e = some s') : s'.Tiled := by
  obtain rfl | ⟨b, rounds, s₁, w, rfl, hinsert, rfl⟩ := step_cases hstep
  · exact h.reopened
  · have hspec := insert_spec hs.rests.sound hinsert
    have hsighted := (polled_insert hs.rests.sound hs.sighted hinsert).sighted
    obtain ⟨-, hsub, hlast⟩ :=
      prunes_windows ⟨hspec.sound, hspec.forgets⟩ hsighted w.pollId rounds
    exact (h.insert hs.rests.sound hs.sighted he hinsert).trim hsub hlast

theorem new_tiled : new.Tiled where
  times := fun _ hw => absurd hw not_mem_nil
  remembered := fun _ _ hget => by cases hget
  covered := fun _ hw => absurd hw not_mem_nil
  apart := List.Pairwise.nil

end Store

/-- **The windows in the file have the busiest of their sightings**, whatever is written into a new
file, and however often it is pruned and opened again. -/
theorem sighted_throughout (fmt : Formats) (events : List StoreEvent) :
    Runs.Throughout (Store.step fmt) Store.Sighted Store.new events :=
  Runs.throughout_of_inv (fun _ _ _ h hstep => h.step hstep) (fun _ h => h.sighted) events
    Store.new_sights

/-- **What holds of the windows in the file**: those of a node do not overlap, and each has the
busiest of its sightings. -/
structure Store.WindowsSound (s : Store) : Prop where
  apart : s.Apart
  busiest : ∀ w ∈ s.crawlWindow, ∃ crawlers kept, Busiest crawlers kept w.sightingsDropped ∧
    List.Forall₂ (Store.StoredAs s.agents.table) kept
      (s.crawlSighting.filter fun r => r.windowId = w.id)

theorem Store.Sighted.busiest {s : Store} (h : s.Sighted) : ∀ w ∈ s.crawlWindow,
    ∃ crawlers kept, Busiest crawlers kept w.sightingsDropped ∧
      List.Forall₂ (Store.StoredAs s.agents.table) kept
        (s.crawlSighting.filter fun r => r.windowId = w.id) := by
  intro w hw
  obtain ⟨crawlers, kept, hkept, hall⟩ := h.holds w hw
  obtain ⟨kept', dropped', hkept', hbusiest⟩ := capSightings_busiest crawlers
  cases hkept.symm.trans hkept'
  exact ⟨crawlers, _, hbusiest, hall⟩

/-- **Crawl windows do not overlap**, in every run of which no poll has two windows of one node that
are due. That they keep the busiest needs nothing. -/
theorem windows_apart (fmt : Formats) (events : List StoreEvent)
    (h : Runs.EachStep (Store.step fmt) Store.StepTileable Store.new events) :
    Runs.Throughout (Store.step fmt) Store.WindowsSound Store.new events ∧
      ∀ crawlers, ∃ kept dropped, capSightings crawlers = .ok (kept, dropped) ∧
        Busiest crawlers kept dropped := by
  refine ⟨?_, capSightings_busiest⟩
  refine Runs.throughout_of_steps (I := fun s => s.Sights ∧ s.Tiled) ?_ ?_ events
    ⟨Store.new_sights, Store.new_tiled⟩ h
  · rintro s e s' ⟨hs, htiled⟩ he hstep
    exact ⟨hs.step hstep, htiled.step hs he hstep⟩
  · rintro s ⟨hs, htiled⟩
    exact ⟨htiled.apart_of_ids hs.sighted, hs.sighted.busiest⟩

/-! ## Two rows of one node -/

/-- A node that answers with a report of its traffic, of the last hour. -/
def crawledRow (node : Str) : Row where
  toFigures := noFigures
  node := node
  level := levelI .ok
  reachable := true
  status := "ok".toList
  detail := none
  trafficError := none
  build := none
  tunnel := none
  reopen := ⟨"unknown".toList, none, none, none, none, none, none⟩
  channels := []
  net := []
  crawl := some ⟨iu 60, iu 0, [], iu 0, [], []⟩

def crawledBatch (atMs : Nat) (nodes : List Str) : Batch :=
  ⟨iu atMs, levelI .ok, iu 0, iu 0, [], nodes.map crawledRow⟩

def emptyFormats : Formats where
  fixed := fun _ _ => []
  fixed32 := fun _ _ => []
  debug := fun s => s
  widen := fun _ => none
  json := fun _ => []

theorem tileable_crawledBatch (s : Store) {atMs : Nat} (h : atMs < 2 ^ 63 - 1) (node : Str) :
    s.Tileable (crawledBatch atMs [node]) where
  time := by
    have hms : (crawledBatch atMs [node]).atMs.1 = (min atMs i64Max : Nat) := iu_val atMs
    rw [hms, i64Max]
    omega
  minutes := by
    intro r hr c hc
    rw [mem_singleton.mp hr] at hc
    cases hc
    exact (iu_val 60).symm ▸ Int.natCast_nonneg _
  once := pairwise_singleton _ _

/-- Two polls, an hour apart, and the file opened again between them. -/
def hourlyPolls : List StoreEvent :=
  [.write (crawledBatch 0 ["a".toList]) 0, .reopen, .write (crawledBatch 3600000 ["a".toList]) 0]

theorem hourlyPolls_apart :
    Runs.Throughout (Store.step emptyFormats) Store.WindowsSound Store.new hourlyPolls :=
  (windows_apart emptyFormats hourlyPolls
    ⟨tileable_crawledBatch _ (by decide) _, fun _ _ => ⟨trivial, fun _ _ =>
      ⟨tileable_crawledBatch _ (by decide) _, fun _ _ => trivial⟩⟩⟩).1

theorem step_twice : ((Store.step emptyFormats Store.new
    (.write (crawledBatch 0 ["a".toList, "a".toList]) 0)).map fun s =>
      s.crawlWindow.map fun w => (w.id.1, w.nodeId.1, w.atMs.1, w.windowMinutes.1)) =
      some [(1, 1, 0, 60), (2, 1, 0, 60)] := by decide +kernel

theorem twice_in_one_poll : ¬ ∀ (fmt : Formats) (events : List StoreEvent),
    Runs.Throughout (Store.step fmt) Store.WindowsSound Store.new events := by
  intro h
  have hrun := h emptyFormats [.write (crawledBatch 0 ["a".toList, "a".toList]) 0]
  obtain ⟨s, hstep, hwindows⟩ := map_eq_some_iff.mp step_twice
  have hapart := (hrun.2 s hstep).apart
  obtain ⟨w, rest, hlist, hw, hrest⟩ := map_eq_cons_iff.mp hwindows
  obtain ⟨w', rest', hlist', hw', -⟩ := map_eq_cons_iff.mp hrest
  have hmem : w ∈ s.crawlWindow := hlist ▸ mem_cons_self
  have hmem' : w' ∈ s.crawlWindow := by
    rw [hlist, hlist']
    exact mem_cons_of_mem _ mem_cons_self
  simp only [Prod.mk.injEq] at hw hw'
  have hnode : w.nodeId = w'.nodeId := Subtype.ext (hw.2.1.trans hw'.2.1.symm)
  have hid : w.id < w'.id := Subtype.coe_lt_coe.mp (by omega)
  have hle := hapart w hmem w' hmem' hnode hid
  omega

end M6.Monitor
