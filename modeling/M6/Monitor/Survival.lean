import M6.Monitor.Check
import M6.Monitor.Paging
import M6.Monitor.StoreRoom
import M6.Monitor.Verdict

/-!
# What a bad node can do to the monitor

Every number and every text of a report is the node's own, and passes the digest, the check, the
history and its pages. Arithmetic is checked, so that a sum that overflows ends the process, and
with it the monitoring of all nodes.

`Survivable` says of which polls this is not so: sums that are made fit their type, hashes can be
cut, and what is stored can be added again when it is read. The monitor survives these polls, and no
others (`survives_iff_survivable`).
-/

namespace M6.Monitor

open List Option

open App (I64)
open Failing (value)
open Select (named)

/-! ## The pages of a poll -/

/-- **A poll can be read**: no page that shows rows of this poll only ends the process. -/
def PollReadable (t : Tables) (pollId : I64) : Prop :=
  ∀ q after n, (∀ j ∈ healthSelect t q after n, j.h.pollId = pollId) →
    healthPage t q after n ≠ .error .panic

/-- The largest `i64`. Pages show what is earlier than it. -/
def lastTime : Int := 2 ^ 63 - 1

theorem healthPage_eq_mapM (t : Tables) (q : Query) (after : Option Key) (n : Nat) :
    healthPage t q after n = (healthSelect t q after n).mapM (healthRow t) := by
  rw [healthPage_eq, healthTable, mapM_onward, healthSelect_eq]

theorem mem_healthSelect {t : Tables} {q : Query} {after : Option Key} {n : Nat} {j : HealthJoin}
    (h : j ∈ healthSelect t q after n) : j.h ∈ t.health ∧ j.h.atMs.1 < lastTime := by
  have hmem := mem_of_mem_take h
  rw [Select.mem_orderBy, mem_filter, mem_filterMap] at hmem
  obtain ⟨⟨row, hrow, hjoin⟩, hin⟩ := hmem
  have hjh := joinHealth_eq_some hjoin
  refine ⟨hjh ▸ hrow, ?_⟩
  simp only [Query.isIn, Bool.and_eq_true, decide_eq_true_eq] at hin
  have hto : j.h.atMs.1 < q.toMs.1 := hin.1.1.2
  have hlast := q.toMs.2.2
  rw [lastTime]
  omega

theorem pollReadable_of_fits {t : Tables} {pollId : I64} (schema : Schema t)
    (h : ∀ row ∈ t.health, row.pollId = pollId → row.atMs.1 < lastTime → RowFits t row) :
    PollReadable t pollId := by
  classical
  intro q after n hown
  have hall : ∀ j ∈ healthSelect t q after n, HeadFits j.h ∧ ChannelsFit t [j.h.id] := by
    intro j hj
    obtain ⟨hmem, htime⟩ := mem_healthSelect hj
    exact (rowFits_iff schema j.h).mp (h j.h hmem (hown j hj) htime)
  rw [healthPage_eq_mapM, Select.mapM_uniform (healthRow_eq t), if_pos hall]
  exact fun h => nomatch h

theorem rowFits_of_readable {t : Tables} {pollId : I64} (schema : Schema t)
    (hown : ∀ row ∈ t.health, row.pollId = pollId) (hread : PollReadable t pollId) {row : Health}
    (hrow : row ∈ t.health) (htime : row.atMs.1 < lastTime) : RowFits t row := by
  classical
  rw [lastTime] at htime
  have hlow := row.atMs.2.1
  let q : Query := ⟨row.atMs, ⟨row.atMs.1 + 1, by omega, by omega⟩, none⟩
  obtain ⟨j, hj⟩ := exists_join schema hrow
  have hjh := joinHealth_eq_some hj
  have hin : q.isIn j.key j.h.nodeId = true := by
    have hkey : j.key = toLex (row.atMs, row.id) := by rw [HealthJoin.key, hjh]
    have hlt : row.atMs < q.toMs := Subtype.coe_lt_coe.mp (Int.lt_succ row.atMs.1)
    simp only [Query.isIn, hkey, ofLex_toLex, Bool.and_eq_true, decide_eq_true_eq]
    exact ⟨⟨le_refl _, hlt⟩, rfl⟩
  have hmem : j ∈ healthSelect t q none (t.health.length) := by
    rw [healthSelect, take_of_length_le]
    · rw [Select.mem_orderBy, mem_filter, mem_filterMap]
      exact ⟨⟨row, hrow, hj⟩, by rw [hin]; rfl⟩
    · rw [(Select.orderBy_perm _).length_eq]
      exact (length_filter_le _ _).trans (length_filterMap_le _ _)
  by_contra hbad
  rw [rowFits_iff schema, ← hjh] at hbad
  refine hread q none t.health.length (fun j hj => hown _ (mem_healthSelect hj).1) ?_
  rw [healthPage_eq_mapM, Select.mapM_uniform (healthRow_eq t), if_neg fun hall =>
    hbad (hall j hmem)]

/-! ## A poll in the store -/

/-- What is read of a row that was stored can be added. -/
structure Row.Readable (atMs : I64) (r : Row) : Prop where
  cache : RateFits r.cacheHits r.cacheMisses
  certificate : CertFits r.certNotAfterUnix atMs
  channels : ∀ c ∈ r.channels, InI64 (c.hits.1 + c.misses.1)

theorem forall_mem_iff {A B : Type} {P : A → Prop} {Q : B → Prop} {R : A → B → Prop}
    (hPQ : ∀ a b, R a b → (P a ↔ Q b)) {as : List A} {bs : List B} (h : List.Forall₂ R as bs) :
    (∀ a ∈ as, P a) ↔ ∀ b ∈ bs, Q b := by
  induction h with
  | nil => simp
  | cons hhead _ ih => rw [forall_mem_cons, forall_mem_cons, ih, hPQ _ _ hhead]

theorem exists_left_of_forall₂ {A B : Type} {R : A → B → Prop} {as : List A} {bs : List B}
    (h : List.Forall₂ R as bs) {b : B} (hb : b ∈ bs) : ∃ a ∈ as, R a b := by
  induction h with
  | nil => cases hb
  | cons hhead _ ih =>
    obtain rfl | hb := mem_cons.mp hb
    · exact ⟨_, mem_cons_self .., hhead⟩
    · obtain ⟨a, ha, hab⟩ := ih hb
      exact ⟨a, mem_cons_of_mem _ ha, hab⟩

theorem rowFits_of_stored {t : Tables} {pollId atMs : I64} {r : Row} {h : Health}
    (hstored : Stored t pollId atMs r h) : RowFits t h ↔ r.Readable atMs := by
  have hhits : h.cacheHits = r.cacheHits := congrArg Figures.cacheHits hstored.figures
  have hmisses : h.cacheMisses = r.cacheMisses := congrArg Figures.cacheMisses hstored.figures
  have hcert : h.certNotAfterUnix = r.certNotAfterUnix :=
    congrArg Figures.certNotAfterUnix hstored.figures
  have hchannels : (∀ c ∈ t.healthChannel, c.healthId = h.id → InI64 (c.hits.1 + c.misses.1)) ↔
      ∀ c ∈ r.channels, InI64 (c.hits.1 + c.misses.1) := by
    have hfilter : (∀ c ∈ t.healthChannel, c.healthId = h.id → InI64 (c.hits.1 + c.misses.1)) ↔
        ∀ c ∈ t.healthChannel.filter (fun c => c.healthId = h.id),
          InI64 (c.hits.1 + c.misses.1) := by
      constructor
      · intro hall c hc
        obtain ⟨hmem, hid⟩ := mem_filter.mp hc
        exact hall c hmem (of_decide_eq_true hid)
      · exact fun hall c hc hid => hall c (mem_filter.mpr ⟨hc, decide_eq_true hid⟩)
    rw [hfilter]
    refine (forall_mem_iff (fun c row hrow => ?_) hstored.channels).symm
    have hsame : row.hits = c.hits ∧ row.misses = c.misses :=
      ⟨congrArg ChannelFigures.hits hrow.1, congrArg ChannelFigures.misses hrow.1⟩
    rw [hsame.1, hsame.2]
  constructor
  · intro hfits
    refine ⟨hhits ▸ hmisses ▸ hfits.cache, ?_, hchannels.mp hfits.channels⟩
    have := hfits.cert
    rwa [hcert, hstored.time] at this
  · intro hread
    refine ⟨by rw [hhits, hmisses]; exact hread.cache, ?_, hchannels.mpr hread.channels⟩
    rw [hcert, hstored.time]
    exact hread.certificate

namespace Store

variable {s s' : Store} {fmt : Formats}

/-- **What a store keeps of a poll**: all its rows can be read. -/
structure PollFits (pollId : I64) (s : Store) : Prop where
  rests : s.Rests
  known : pollId ≤ s.pollSeq
  rows : ∀ h ∈ s.health, h.pollId = pollId → h.atMs.1 < lastTime → RowFits s.tables h

variable {pollId : I64}

theorem PollFits.readable (h : s.PollFits pollId) : PollReadable s.tables pollId :=
  pollReadable_of_fits h.rests.sound.schema h.rows

theorem PollFits.trims (h : s.PollFits pollId) (hrests : s'.Rests)
    (htrims : s.Trims s') : s'.PollFits pollId := by
  refine ⟨hrests, htrims.pollSeq ▸ h.known, fun row hrow hpoll htime => ?_⟩
  have hfits := h.rows row (htrims.health row hrow) hpoll htime
  exact ⟨hfits.cache, hfits.cert, fun c hc hid => hfits.channels c (htrims.healthChannel c hc) hid⟩

theorem PollFits.insert {b : Batch} {w : Written} (h : s.PollFits pollId)
    (hinsert : s.insert fmt b = .ok (s', w)) : s'.PollFits pollId := by
  have hspec := insert_spec h.rests.sound hinsert
  have hbelow : pollId < w.pollId := h.known.trans_lt hspec.pollSeq.1
  refine ⟨⟨hspec.sound, hspec.forgets⟩, hspec.pollSeq.2 ▸ hbelow.le,
    fun row hrow hpoll htime => ?_⟩
  obtain ⟨rows, hrows, -, hstored⟩ := hspec.rows
  obtain ⟨cs, hcs, hnew⟩ := hspec.channels
  rw [hrows] at hrow
  obtain hrow | hrow := mem_append.mp hrow
  · have hfits := h.rows row hrow hpoll htime
    refine ⟨hfits.cache, hfits.cert, fun c hc hid => ?_⟩
    have hc' : c ∈ s.healthChannel ++ cs := hcs ▸ hc
    obtain hc' | hc' := mem_append.mp hc'
    · exact hfits.channels c hc' hid
    · exact absurd (hid ▸ hnew c hc') (not_lt_of_ge (h.rests.sound.health_seq row hrow).1)
  · -- the new rows are of the new poll
    have hnewPoll : ∀ row ∈ rows, row.pollId = w.pollId := fun row hrow => by
      obtain ⟨r, -, hr⟩ := exists_left_of_forall₂ hstored hrow
      exact hr.poll
    exact absurd (hpoll.symm.trans (hnewPoll row hrow)) hbelow.ne

theorem PollFits.step {e : StoreEvent} (h : s.PollFits pollId)
    (hstep : s.step fmt e = some s') : s'.PollFits pollId := by
  obtain rfl | ⟨b, rounds, s₁, w, -, hinsert, rfl⟩ := step_cases hstep
  · obtain ⟨hopen, htrims⟩ := reopened_spec h.rests.sound
    exact h.trims hopen htrims
  · have h₁ := h.insert hinsert
    obtain ⟨hrests, htrims⟩ := prunes_spec w.pollId rounds h₁.rests
    exact h₁.trims hrests htrims

theorem pollFits_of_insert {b : Batch} {w : Written} (hs : s.Rests)
    (hinsert : s.insert fmt b = .ok (s', w))
    (hread : b.atMs.1 < lastTime → ∀ r ∈ b.rows, r.Readable b.atMs) : s'.PollFits w.pollId := by
  have hspec := insert_spec hs.sound hinsert
  obtain ⟨rows, hrows, -, hstored⟩ := hspec.rows
  refine ⟨⟨hspec.sound, hspec.forgets⟩, hspec.pollSeq.2.ge, fun row hrow hpoll htime => ?_⟩
  rw [hrows] at hrow
  obtain hrow | hrow := mem_append.mp hrow
  · have hold := (hs.sound.health_seq row hrow).2
    exact absurd (hpoll ▸ hold) (not_le_of_gt hspec.pollSeq.1)
  · obtain ⟨r, hr, hstored⟩ := exists_left_of_forall₂ hstored hrow
    exact (rowFits_of_stored hstored).mpr (hread (hstored.time ▸ htime) r hr)

end Store

/-! ## Surviving a poll -/

def Digest.noted (d : Digest) : Option (HistoryDigest × Option Finding) → Digest
  | none => d
  | some (h, none) => { d with history := some h }
  | some (h, some f) => { d.addFinding f with history := some h }

variable (fmt : Formats) (t : Thresholds)

/-- **The monitor survives a poll.** It makes the digest and prints the check, whatever the state of
the history is. It writes the poll into any store, and if the poll is stored its pages can be read
from then on, whatever else is written and pruned. -/
def Survives (readings : List NodeReading) (now : Str) (atMs : I64) : Prop :=
  ∃ d, build fmt t readings now = .ok d ∧ ∀ history,
    (∃ text, render fmt (d.noted history) readings = .ok text) ∧
    ∀ s : Store, s.Rests →
      s.insert fmt (batch fmt atMs readings (d.noted history)) ≠ .error .panic ∧
      ∀ s' w, s.insert fmt (batch fmt atMs readings (d.noted history)) = .ok (s', w) →
        ∀ rounds events, Runs.Throughout (Store.step fmt)
          (fun s => PollReadable s.tables w.pollId) ((Store.prune w.pollId)^[rounds] s') events

/-- A reading that the digest and the check can be made of. -/
structure NodeReading.Fits (r : NodeReading) : Prop where
  counts : r.Countable
  hash : r.isUp = true → ∀ p ∈ r.perf, Sliceable p.build.hash
  channels : ∀ p ∈ r.perf, ∀ c ∈ p.metrics.channels, ChannelFits c

/-- The report names no channel and no interface twice. -/
def NodeReading.Distinct (r : NodeReading) : Prop :=
  ∀ p ∈ r.perf, (p.metrics.channels.map ChannelSnapshot.channel).Nodup ∧
    (p.host.net.map NetDevice.name).Nodup

/-- A reading that can be added again when it is read from the history, where a count that is too
large was stored as the largest one. -/
structure NodeReading.Readable (atMs : I64) (r : NodeReading) : Prop where
  cache : ∀ p ∈ r.perf,
    InI64 ((iu p.metrics.cacheHitsTotal.toNat).1 + (iu p.metrics.cacheMissesTotal.toNat).1)
  certificate : r.isUp = true → ∀ p ∈ r.perf, CertFits (p.soonest TlsCertificate.notAfterUnix) atMs
  channels : ∀ p ∈ r.perf, ∀ c ∈ p.metrics.channels,
    InI64 ((iu c.hits.toNat).1 + (iu c.misses.toNat).1)

/-- **A poll that the monitor survives.** A poll in which a name comes twice is not stored. -/
structure Survivable (readings : List NodeReading) (atMs : I64) : Prop where
  nodes : ∀ r ∈ readings, r.Fits
  stored : atMs.1 < lastTime → (∀ r ∈ readings, r.Distinct) → ∀ r ∈ readings, r.Readable atMs

/-! ## The digest and the check -/

variable {fmt t}

theorem noted_nodes (d : Digest) (history : Option (HistoryDigest × Option Finding)) :
    (d.noted history).nodes = d.nodes := by
  obtain _ | ⟨h, _ | f⟩ := history
  · rfl
  · rfl
  · rfl

variable {readings : List NodeReading}

theorem mem_allChannels {e : Str × ChannelSnapshot} :
    e ∈ allChannels readings ↔ ∃ r ∈ readings, ∃ p ∈ r.perf, ∃ c ∈ p.metrics.channels,
      (r.name, c) = e := by
  rw [allChannels, mem_flatMap]
  refine exists_congr fun r => and_congr_right fun _ => ?_
  rw [NodeReading.channels]
  cases r.perf with
  | none | some p => simp

theorem shown_hash {r : NodeReading} {h : Str} (hh : h ∈ r.shown.hash) :
    r.isUp = true ∧ ∃ p ∈ r.perf, p.build.hash = h := by
  rw [NodeReading.shown] at hh
  cases hup : r.isUp with
  | false =>
    rw [hup] at hh
    cases hh
  | true =>
    cases hp : r.perf with
    | none =>
      rw [hup, hp] at hh
      cases hh
    | some p =>
      rw [hup, hp] at hh
      have hhash : emptyToNone p.build.hash = some h := hh
      rw [emptyToNone] at hhash
      split_ifs at hhash
      exact ⟨rfl, p, rfl, some.inj hhash⟩

theorem sliceable_nil : Sliceable [] := rfl

theorem sliceable_unknown : Sliceable "unknown".toList := rfl

theorem runsFit_shown (r : NodeReading) (hcounts : r.Countable) :
    RunsFit r.shown ↔ (r.isUp = true → ∀ p ∈ r.perf, Sliceable p.build.hash) := by
  constructor
  · intro hfits hup p hp
    have hhash : r.shown.hash = emptyToNone p.build.hash := by
      rw [NodeReading.shown, hup, mem_def.mp hp]
      rfl
    by_cases hnil : p.build.hash = []
    · rw [hnil]
      exact sliceable_nil
    · refine hfits.hash _ ?_
      rw [hhash, emptyToNone, if_neg hnil]
      rfl
  · intro hslice
    refine ⟨fun h hh => ?_, fun secs hsecs => ?_⟩
    · obtain ⟨hup, p, hp, rfl⟩ := shown_hash hh
      exact hslice hup p hp
    · rw [NodeReading.shown] at hsecs
      cases hup : r.isUp with
      | false =>
        rw [hup] at hsecs
        cases hsecs
      | true =>
        cases hp : r.perf with
        | none =>
          rw [hup, hp] at hsecs
          cases hsecs
        | some p =>
          rw [hup, hp] at hsecs
          exact (hcounts hup p hp).certificate secs hsecs

/-- **The digest can be made and the check printed** of readings that fit, and of no others. -/
theorem shown_iff (readings : List NodeReading) (now : Str)
    (history : Option (HistoryDigest × Option Finding)) :
    (Countable readings ∧ Printable ((digestOf fmt t readings now).noted history) readings) ↔
      ∀ r ∈ readings, r.Fits := by
  have hnodes : ((digestOf fmt t readings now).noted history).nodes =
      readings.map NodeReading.shown := noted_nodes _ _
  constructor
  · rintro ⟨hcounts, hprints⟩ r hr
    refine ⟨hcounts.nodes r hr, ?_, fun p hp c hc => ?_⟩
    · have hshown := hprints.nodes r.shown (hnodes ▸ mem_map_of_mem hr)
      exact (runsFit_shown r (hcounts.nodes r hr)).mp hshown
    · exact hprints.channels (r.name, c) (mem_allChannels.mpr ⟨r, hr, p, hp, c, hc, rfl⟩)
  · intro hfits
    refine ⟨⟨fun r hr => (hfits r hr).counts, fun _ _ n hn => ?_⟩, ?_, ?_⟩
    · obtain ⟨r, hr, rfl⟩ := mem_map.mp (mem_of_mem_filter hn)
      rw [NodeDigest.hashText]
      cases hhash : r.shown.hash with
      | none => exact sliceable_unknown
      | some h =>
        obtain ⟨hup, p, hp, rfl⟩ := shown_hash hhash
        exact (hfits r hr).hash hup p hp
    · intro n hn
      obtain ⟨r, hr, rfl⟩ := mem_map.mp (hnodes ▸ hn)
      exact (runsFit_shown r (hfits r hr).counts).mpr (hfits r hr).hash
    · intro e he
      obtain ⟨r, hr, p, hp, c, hc, rfl⟩ := mem_allChannels.mp he
      exact (hfits r hr).channels p hp c hc

/-! ## The history -/

theorem batch_rows {d : Digest} (atMs : I64) (hnodes : d.nodes = readings.map NodeReading.shown) :
    (batch fmt atMs readings d).rows = readings.map fun r => row fmt r r.shown d := by
  have hzip : ∀ rs : List NodeReading, (rs.zip (rs.map NodeReading.shown)).map
      (fun e => row fmt e.1 e.2 d) = rs.map fun r => row fmt r r.shown d := by
    intro rs
    induction rs with
    | nil => rfl
    | cons r rs ih => rw [map_cons, zip_cons_cons, map_cons, map_cons, ih]
  rw [batch, hnodes]
  exact hzip readings

theorem row_distinct (r : NodeReading) (d : Digest) :
    (row fmt r r.shown d).Distinct ↔ r.Distinct := by
  have hchannels : ∀ cs : List ChannelSnapshot, (cs.map ChannelSnapshot.row).map
      ChannelRow.channel = cs.map ChannelSnapshot.channel := fun cs => map_map ..
  have hnet : ∀ ds : List NetDevice, (ds.map NetDevice.row).map NetRow.iface =
      ds.map NetDevice.name := fun ds => map_map ..
  cases hp : r.perf with
  | none =>
    have hrow : (row fmt r r.shown d).channels = [] ∧ (row fmt r r.shown d).net = [] := by
      rw [row, hp]
      exact ⟨rfl, rfl⟩
    refine iff_of_true ⟨?_, ?_⟩ fun p hp' => ?_
    · rw [hrow.1]
      exact nodup_nil
    · rw [hrow.2]
      exact nodup_nil
    · rw [hp] at hp'
      cases hp'
  | some p =>
    have hrow : (row fmt r r.shown d).channels = p.metrics.channels.map ChannelSnapshot.row ∧
        (row fmt r r.shown d).net = p.host.net.map NetDevice.row := by
      rw [row, hp]
      exact ⟨rfl, rfl⟩
    constructor
    · intro h p' hp'
      obtain rfl : p = p' := some.inj (hp.symm.trans hp')
      have h₁ := h.channels
      have h₂ := h.net
      rw [hrow.1, hchannels] at h₁
      rw [hrow.2, hnet] at h₂
      exact ⟨h₁, h₂⟩
    · intro h
      obtain ⟨h₁, h₂⟩ := h p hp
      refine ⟨?_, ?_⟩
      · rw [hrow.1, hchannels]
        exact h₁
      · rw [hrow.2, hnet]
        exact h₂

theorem row_storable {r : NodeReading} (d : Digest) (h : r.Distinct) :
    (row fmt r r.shown d).Storable := by
  refine ⟨(row_distinct r d).mpr h, fun c hc => ?_⟩
  obtain ⟨tr, -, rfl⟩ := map_eq_some_iff.mp (mem_def.mp hc)
  have hcodes : (tr.status.entries.map fun e => (e.1, iu e.2.toNat)).map Prod.fst =
      tr.status.entries.map Prod.fst := map_map ..
  exact hcodes ▸ tr.status.nodup_keys

theorem shown_certificate (r : NodeReading) : r.shown.certNotAfterUnix =
    if r.isUp = true then r.perf.bind fun p => p.soonest TlsCertificate.notAfterUnix else none := by
  rw [NodeReading.shown]
  cases r.isUp with
  | false => rfl
  | true =>
    cases r.perf with
    | none | some p => rfl

theorem row_certificate (r : NodeReading) (d : Digest) :
    (row fmt r r.shown d).certNotAfterUnix = r.shown.certNotAfterUnix := by
  rw [row]
  cases r.perf with
  | none | some p => rfl

theorem row_readable (atMs : I64) (r : NodeReading) (d : Digest) :
    (row fmt r r.shown d).Readable atMs ↔ r.Readable atMs := by
  have hcert : (row fmt r r.shown d).certNotAfterUnix = _ :=
    (row_certificate r d).trans (shown_certificate r)
  cases hp : r.perf with
  | none =>
    have hrow : (row fmt r r.shown d).cacheHits = none ∧ (row fmt r r.shown d).channels = [] := by
      rw [row, hp]
      exact ⟨rfl, rfl⟩
    have hnone : (row fmt r r.shown d).certNotAfterUnix = none := by
      rw [hcert, hp]
      exact ite_self _
    refine iff_of_true ⟨fun _ hh => ?_, fun _ hc => ?_, fun _ hc => ?_⟩
      ⟨fun _ h => ?_, fun _ _ h => ?_, fun _ h => ?_⟩
    · rw [hrow.1] at hh
      cases hh
    · rw [hnone] at hc
      cases hc
    · rw [hrow.2] at hc
      cases hc
    all_goals
      rw [hp] at h
      cases h
  | some p =>
    have hhits : (row fmt r r.shown d).cacheHits = some (iu p.metrics.cacheHitsTotal.toNat) := by
      rw [row, hp]
      rfl
    have hmisses : (row fmt r r.shown d).cacheMisses =
        some (iu p.metrics.cacheMissesTotal.toNat) := by
      rw [row, hp]
      rfl
    have hchannels : (row fmt r r.shown d).channels =
        p.metrics.channels.map ChannelSnapshot.row := by
      rw [row, hp]
    have honly : ∀ p' ∈ r.perf, p' = p := fun p' hp' =>
      some.inj ((mem_def.mp hp').symm.trans hp)
    rw [hp, bind_some] at hcert
    constructor
    · intro h
      refine ⟨fun p' hp' => ?_, fun hup p' hp' => ?_, fun p' hp' c hc => ?_⟩
      · rw [honly p' hp']
        exact h.cache _ hhits _ hmisses
      · have hfits := h.certificate
        rw [hcert, if_pos hup] at hfits
        rw [honly p' hp']
        exact hfits
      · refine h.channels c.row ?_
        rw [hchannels]
        exact mem_map_of_mem (honly p' hp' ▸ hc)
    · intro h
      refine ⟨?_, ?_, ?_⟩
      · rw [hhits, hmisses]
        exact rateFits_some.mpr (h.cache p hp)
      · rw [hcert]
        by_cases hup : r.isUp = true
        · rw [if_pos hup]
          exact h.certificate hup p hp
        · rw [if_neg hup]
          exact fun _ hc => (nomatch hc)
      · rw [hchannels]
        intro row hrow
        obtain ⟨c, hc, rfl⟩ := mem_map.mp hrow
        exact h.channels p hp c hc

/-! ## The polls that are survived -/

theorem new_room {m : Nat} (h : m < 2 ^ 63) : Store.new.Room m := by
  have hroom : IdRoom m [] := by
    have hzero : topId [] = 0 := rfl
    rw [IdRoom, hzero]
    omega
  have hseq : (0 : Int) + m < 2 ^ 63 := by omega
  exact ⟨hroom, hroom, hroom, hroom, hroom, hroom, hseq, hseq, hseq⟩

theorem survives_of_survivable {atMs : I64}
    (h : Survivable readings atMs) (now : Str) : Survives fmt t readings now atMs := by
  have hshown : ∀ history, Countable readings ∧
      Printable ((digestOf fmt t readings now).noted history) readings :=
    fun history => (shown_iff readings now history).mpr h.nodes
  refine ⟨digestOf fmt t readings now, (build_yields readings now).ok (hshown none).1,
    fun history => ⟨⟨_, (render_yields _ readings).ok (hshown history).2⟩, fun s hs =>
      ⟨Store.insert_avoids_panic s _, fun s' w hinsert rounds events => ?_⟩⟩⟩
  have hrows : (batch fmt atMs readings ((digestOf fmt t readings now).noted history)).rows = _ :=
    batch_rows atMs (noted_nodes (digestOf fmt t readings now) history)
  have hdistinct := (Store.insert_spec hs.sound hinsert).distinct
  rw [hrows] at hdistinct
  have hnames : ∀ r ∈ readings, r.Distinct := fun r hr =>
    (row_distinct r _).mp (hdistinct _ (mem_map_of_mem hr))
  have hfits : s'.PollFits w.pollId := by
    refine Store.pollFits_of_insert hs hinsert fun htime row hrow => ?_
    rw [hrows] at hrow
    obtain ⟨r, hr, rfl⟩ := mem_map.mp hrow
    exact (row_readable atMs r _).mpr (h.stored htime hnames r hr)
  obtain ⟨hrests, htrims⟩ := Store.prunes_spec w.pollId rounds hfits.rests
  exact Runs.throughout_of_inv (I := Store.PollFits w.pollId)
    (fun s e s' hs hstep => hs.step hstep) (fun s hs => hs.readable) events
    (hfits.trims hrests htrims)

theorem survivable_of_survives {now : Str} {atMs : I64}
    (hsize : (batch fmt atMs readings (digestOf fmt t readings now)).size < 2 ^ 63)
    (h : Survives fmt t readings now atMs) : Survivable readings atMs := by
  obtain ⟨d, hbuild, h⟩ := h
  obtain ⟨hcounts, rfl⟩ := (build_yields readings now).eq_ok_iff.mp hbuild
  obtain ⟨⟨text, hrender⟩, hstore⟩ := h none
  have hprints := (render_yields _ readings).isOk_iff.mp ⟨text, hrender⟩
  have hshown : Countable readings ∧
      Printable ((digestOf fmt t readings now).noted none) readings := ⟨hcounts, hprints⟩
  refine ⟨(shown_iff readings now none).mp hshown, fun htime hnames r hr => ?_⟩
  have hrows : (batch fmt atMs readings (digestOf fmt t readings now)).rows = _ :=
    batch_rows atMs rfl
  -- a new store has room for the poll
  have hinsert : ∃ s' w, Store.new.insert fmt
      (batch fmt atMs readings (digestOf fmt t readings now)) = .ok (s', w) := by
    refine Store.insert_ok Store.new_rests.sound (fun row hrow => ?_) (new_room hsize)
    rw [hrows] at hrow
    obtain ⟨r, hr, rfl⟩ := mem_map.mp hrow
    exact row_storable _ (hnames r hr)
  obtain ⟨s', w, hinsert⟩ := hinsert
  have hread := (hstore Store.new Store.new_rests).2 s' w hinsert 0 []
  have hspec := Store.insert_spec Store.new_rests.sound hinsert
  obtain ⟨rows, hhealth, -, hstored⟩ := hspec.rows
  rw [hrows] at hstored
  have hall : s'.health = rows := hhealth
  have hown : ∀ row ∈ s'.health, row.pollId = w.pollId := by
    intro row hrow
    obtain ⟨r, -, hr⟩ := exists_left_of_forall₂ hstored (hall ▸ hrow)
    exact hr.poll
  have hmem : ∀ row ∈ rows, row ∈ s'.tables.health := by
    intro row hrow
    rw [← hall] at hrow
    exact hrow
  have hfits := (forall_mem_iff (P := fun row : Row => row.Readable atMs)
    (Q := fun h : Health => RowFits s'.tables h)
    (fun r h hr => (rowFits_of_stored hr).symm) hstored).mpr fun row hrow =>
      rowFits_of_readable hspec.sound.schema hown hread (hmem row hrow) (by
        obtain ⟨r, -, hr⟩ := exists_left_of_forall₂ hstored hrow
        rw [hr.time]
        exact htime)
  exact (row_readable atMs r _).mp (hfits _ (mem_map_of_mem hr))

/-- **The monitor survives the polls that are survivable**, and of those with fewer than 2⁶³ rows no
others. -/
theorem survives_iff_survivable (fmt : Formats) (t : Thresholds) (readings : List NodeReading)
    (now : Str) (atMs : I64) :
    (Survivable readings atMs → Survives fmt t readings now atMs) ∧
      ((batch fmt atMs readings (digestOf fmt t readings now)).size < 2 ^ 63 →
        Survives fmt t readings now atMs → Survivable readings atMs) :=
  ⟨fun h => survives_of_survivable h now, survivable_of_survives⟩

/-- A node whose hits and misses are too many for their sum. -/
def brokenNode : NodeReading :=
  { oldNode "a".toList with
    perf := some { oldReport "a".toList with
      metrics := { noStats with cacheHitsTotal := 18446744073709551615, cacheMissesTotal := 1 } } }

theorem one_node_ends_the_monitor :
    ¬ Survives plainFormats usualThresholds [oldNode "b".toList, brokenNode] []
      ⟨0, App.zero_fits⟩ := by
  rintro ⟨d, hbuild, -⟩
  have hcounts := ((build_yields _ _).eq_ok_iff.mp hbuild).1.nodes brokenNode
    (mem_cons_of_mem _ (mem_singleton_self _)) rfl _ rfl
  have hsum : ¬ (18446744073709551615 : UInt64).toNat + (1 : UInt64).toNat < 2 ^ 64 := by
    decide
  exact hsum hcounts.requests

end M6.Monitor
