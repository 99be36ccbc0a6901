import M6.Edge.H2Bounds
import M6.Edge.H2Streams
import Mathlib.Data.Finset.Card

/-!
# How many requests a client can start

A stream that was reset keeps its place for a second (`resetDecay`), so that a client that opens
streams and resets them at once starts no more requests than one that lets them finish. The places
are held by the streams that are there and by the records of those that were reset (`Occupies`); a
stream is let in only when there are fewer of them than `maxConcurrent`.

A place is lost in two ways (`FreesSlot`): a record is forgotten, because the memory for them is
full
of records that hold no place, or a stream whose request was handed over is reset without a record.
As long as neither happens, no more than `maxConcurrent` requests are handed over in a second in
which no response is at its end.
-/

namespace M6.Http2

open List Runs

def Entry.endsResponse : Entry → Bool
  | .wrote f => f.ftype = .data && has f.flags flagEndStream
  | _ => false

/-- How many responses were sent to their end. -/
def completed (log : List Entry) : Nat := log.countP Entry.endsResponse

theorem completed_append (l l' : List Entry) : completed (l ++ l') = completed l + completed l' :=
  countP_append

theorem completed_ended (log : List Entry) (stream : Nat) (payload : Bytes) :
    completed (log ++ [.wrote ⟨.data, flagEndStream, stream, payload⟩]) = completed log + 1 := by
  have hend : has flagEndStream flagEndStream = true := by decide
  rw [completed_append, completed, completed, countP_singleton, Entry.endsResponse, hend]
  rfl

def Event.time : Event → Option Nat
  | .frame env | .answer env _ _ _ _ | .flush env => some env.now
  | _ => none

namespace Conn

/-! ## Places -/

def keys (c : Conn) : Finset Nat := (c.streams.entries.map Prod.fst).toFinset

variable {libs : Libs} {env : Env} {c c' : Conn} {f : Frame}

theorem mem_keys {id : Nat} : id ∈ c.keys ↔ ∃ s, c.streams.get? id = some s :=
  mem_toFinset.trans SortedMap.mem_keys

theorem card_keys (c : Conn) : c.keys.card = c.streams.entries.length :=
  (toFinset_card_of_nodup (SortedMap.nodup_keys c.streams)).trans (length_map _)

theorem keys_congr (h : ∀ id, (∃ s, c'.streams.get? id = some s) ↔ ∃ s,
    c.streams.get? id = some s) :
    c'.keys = c.keys :=
  Finset.ext fun id => mem_keys.trans ((h id).trans mem_keys.symm)

theorem keys_setStream (c : Conn) (stream : Nat) (s : Stream) :
    (c.setStream stream s).keys = insert stream c.keys := by
  refine Finset.ext fun id => ?_
  rw [Finset.mem_insert, mem_keys, mem_keys, Conn.setStream, SortedMap.get?_insert]
  split_ifs with hid
  · exact ⟨fun _ => .inl hid, fun _ => ⟨s, rfl⟩⟩
  · exact ⟨.inr, fun h => h.resolve_left hid⟩

variable {stream : Nat}

theorem keys_setStream_of_get? {s : Stream} (hs : c.streams.get? stream = some s)
    (s' : Stream) : (c.setStream stream s').keys = c.keys :=
  (keys_setStream c stream s').trans (Finset.insert_eq_self.mpr (mem_keys.mpr ⟨s, hs⟩))

theorem keys_removeStream (c : Conn) (stream : Nat) :
    (c.removeStream stream).keys = c.keys.erase stream := by
  refine Finset.ext fun id => ?_
  rw [Finset.mem_erase, mem_keys, mem_keys, Conn.removeStream, SortedMap.get?_erase]
  split_ifs with hid
  · exact ⟨nofun, fun h => absurd hid h.1⟩
  · exact ⟨fun h => ⟨hid, h⟩, fun h => h.2⟩

theorem keys_updateStream (c : Conn) (stream : Nat) (g : Stream → Stream) :
    (c.updateStream stream g).keys = c.keys := by
  unfold updateStream
  cases hs : c.streams.get? stream with
  | none => rfl
  | some s => exact keys_setStream_of_get? hs (g s)

theorem keys_configureAll (c : Conn) (pairs : List (Nat × Nat)) :
    (c.configureAll pairs).keys = c.keys := by
  refine keys_congr fun id => ?_
  change (∃ s, (c.streams.map _).get? id = some s) ↔ _
  rw [SortedMap.get?_map]
  constructor
  · rintro ⟨s', hs'⟩
    obtain ⟨s, hs, -⟩ := Option.map_eq_some_iff.mp hs'
    exact ⟨s, hs⟩
  · rintro ⟨s, hs⟩
    exact ⟨_, Option.map_eq_some_iff.mpr ⟨s, hs, rfl⟩⟩

theorem keys_entered (c : Conn) (f : Frame) : (c.entered f).keys = insert f.stream c.keys := by
  rw [entered, enterStream, keys_setStream]
  rfl

/-! ## What a frame does to the places -/

inductive Notes (env : Env) (c : Conn) (f : Frame) : Prop
  | priority (hout : c.continuationStreamId = none) (h : BadPriority f)
  | windowUpdate (h : Overgrants c f)
  | rstStream (ha : Allowed c f) (hf : f.ftype = .rstStream)
  | closed {w : Int} (ha : Allowed c f) (hf : f.ftype = .windowUpdate) (hid : f.stream ≠ 0)
      (hs : c.streams.get? f.stream = none) (hw : c.closedWindow f.stream = some w)
      (hover : maxWindow < w + low31 (bigEndian (f.payload.take 4)))
  | busy (h : Busy env c f)

/-- A frame for which a stream is given up without a record: it must not come in the state of the
stream, its body is too long, or it has trailers that are none. -/
inductive Drops (libs : Libs) (env : Env) (c : Conn) (f : Frame) : Prop
  | illegal {code : Nat} (hout : c.continuationStreamId = none)
      (hshape : frameShapeVerdict f.ftype f.flags f.stream f.payload.length = .allow)
      (hstate : c.frameVerdict f.ftype f.stream = .streamError code)
  | overCap {s : Stream} {first last : Nat} (ha : Allowed c f) (hf : f.ftype = .data)
      (hs : c.streams.get? f.stream = some s) (hcut : cutData f.flags f.payload = .ok (first, last))
      (hcap : maxH2Body < s.body.length + ((f.payload.take last).drop first).length)
  | trailers {first last : Nat} {block : Bytes} {fields : List RawField} {s : Stream}
      (ha : Admitted env c f) (hcut : cutHeaders f.stream f.flags f.payload = .block first last)
      (hblock : block = c.headerBlockBuf ++ (f.payload.take last).drop first)
      (hend : has f.flags flagEndHeaders = true)
      (hvalid : validateHpackBlock block hpackMaxTableSize = .ok ())
      (hdec : libs.decode c.hpackDec block = some fields)
      (hs : c.streams.get? f.stream = some s)
      (hbad : badTrailers s f.flags (decodeHpack fields) = true)

/-- **What a frame does to the places**: nothing, it takes one, it turns one into a record, or it
gives one up. -/
inductive Moves (libs : Libs) (env : Env) (c : Conn) (f : Frame) (c₁ : Conn) : Prop
  | same (hkeys : c₁.keys = c.keys) (hreset : c₁.recentlyReset = c.recentlyReset)
  | opened (ha : Admitted env c f) (hkeys : c₁.keys = insert f.stream c.keys)
      (hreset : c₁.recentlyReset = c.recentlyReset)
  | noted (hn : Notes env c f) (hkept : c.keys.erase f.stream ⊆ c₁.keys) (hkeys : c₁.keys ⊆ c.keys)
      (hreset : c₁.recentlyReset = remember c.recentlyReset (f.stream, env.now))
  | dropped (hd : Drops libs env c f) (hkeys : c₁.keys = c.keys.erase f.stream)
      (hreset : c₁.recentlyReset = c.recentlyReset)

variable {c₁ : Conn}

theorem Fails.moves (hf : Fails libs env c f c₁) : Moves libs env c f c₁ := by
  cases hf with
  | flood hb => exact .noted (.busy hb) (Finset.erase_subset ..) (Finset.Subset.refl _) rfl
  | longHeaders ha | invalidHeaders ha | undecodableHeaders ha =>
    exact .opened ha (keys_entered c f) rfl
  | settings => exact .same (keys_configureAll c _) rfl
  | _ => exact .same rfl rfl

theorem Handles.moves {tail : Tail} (hh : Handles libs env c f c₁ tail) :
    Moves libs env c f c₁ := by
  cases hh with
  | failed why hf => exact hf.moves
  | illegal code hout hshape hstate =>
    exact .dropped (.illegal hout hshape hstate) (keys_removeStream c f.stream) rfl
  | reset code hout h =>
    have hkeys : ((c.resetStream f.stream code).noteReset env.now f.stream).keys =
        c.keys.erase f.stream := keys_removeStream c f.stream
    rcases h with hp | hw
    · exact .noted (.priority hout hp) hkeys.ge (hkeys.le.trans (Finset.erase_subset ..)) rfl
    · exact .noted (.windowUpdate hw) hkeys.ge (hkeys.le.trans (Finset.erase_subset ..)) rfl
  | rstStream ha hf =>
    have hkeys : (((c.removeStream f.stream).opened f.stream).noteReset env.now f.stream).keys =
        c.keys.erase f.stream := keys_removeStream c f.stream
    exact .noted (.rstStream ha hf) hkeys.ge (hkeys.le.trans (Finset.erase_subset ..)) rfl
  | settings => exact .same (keys_configureAll c _) rfl
  | streamCredit _ _ _ _ _ hs => exact .same (keys_setStream_of_get? hs _) rfl
  | closedOverflow ha hf hid hs hw hover =>
    exact .noted (.closed ha hf hid hs hw hover) (Finset.erase_subset ..) (Finset.Subset.refl _) rfl
  | overCap ha hf hid hs hcut hw hcap =>
    rw [charged_eq]
    exact .dropped (.overCap ha hf hs hcut hcap) (keys_removeStream c f.stream) rfl
  | data ha hf hid hs =>
    rw [charged_eq, grant_eq]
    exact .same (keys_setStream_of_get? hs _) rfl
  | refusedBusy ha hf hodd hknown hopen hbusy =>
    exact .noted (.busy ⟨ha, hf, hodd, hknown, hopen, hbusy⟩) (Finset.erase_subset ..)
      (Finset.Subset.refl _) rfl
  | headersPart ha => exact .opened ha (keys_entered c f) rfl
  | trailersRejected ha hcut hblock hend hvalid hdec hs hbad =>
    refine .dropped (.trailers ha hcut hblock hend hvalid hdec hs hbad) ?_ rfl
    have hkeys := keys_removeStream (c.entered f) f.stream
    rw [keys_entered, Finset.erase_insert_eq_erase] at hkeys
    exact hkeys
  | headers ha =>
    refine .opened ha ((keys_updateStream ..).trans (keys_entered c f)) ?_
    exact (Kept.addFields ..).reset
  | continuation =>
    exact .same (keys_updateStream ..) (Kept.addFields ..).reset
  | _ => exact .same rfl rfl

/-! ## Records -/

def holds (now : Nat) (e : Nat × Nat) : Bool := e.1 % 2 == 1 && now - e.2 < resetDecay

/-- A record is forgotten that holds a place, and fewer than `maxConcurrent` that do are left. -/
def Forgets (c : Conn) (now stream : Nat) : Prop :=
  resetMemory ≤ c.recentlyReset.length ∧ (∃ e ∈ c.recentlyReset.head?, holds now e = true) ∧
    ((remember c.recentlyReset (stream, now)).filter (holds now)).length < maxConcurrent

/-- A frame by which a place is lost: a record that holds one is forgotten, or a stream whose
request was handed over is given up without a record. -/
def FreesSlot (libs : Libs) (c : Conn) : Event → Prop
  | .frame env => ∃ f rest, c.nextFrame = some (f, rest) ∧
      (Notes env (c.enter.take f rest) f ∧ c.Forgets env.now f.stream ∨
        Drops libs env (c.enter.take f rest) f ∧ ∃ s, c.streams.get? f.stream = some s ∧ Asked s)
  | _ => False

/-- **What holds the places** since `t`, where the requests of `given` were handed over since then:
each of them has its stream or a record, or there is a record for every place. There are no more of
them and of the streams that are there than places. -/
structure Occupies (t : Nat) (before given : List Nat) (c : Conn) : Prop where
  log : handedStreams c.log = before ++ given
  odd : ∀ id ∈ given, id % 2 = 1
  few : (given.toFinset ∪ c.keys).card ≤ maxConcurrent
  records : ∃ old new, c.recentlyReset = old ++ new ∧ (∀ e ∈ new, t ≤ e.2) ∧
    ((∀ id ∈ given, id ∈ c.keys ∨ id ∈ new.map Prod.fst) ∨
      maxConcurrent ≤ (new.filter fun e => e.1 % 2 == 1).length)

variable {t : Nat} {before given : List Nat}

theorem remember_split {α : Type} (old new : List α) (a : α) :
    (∃ old', remember (old ++ new) a = old' ++ (new ++ [a])) ∨
      ∃ e rest, old = [] ∧ new = e :: rest ∧ resetMemory ≤ new.length ∧
        remember (old ++ new) a = rest ++ [a] := by
  unfold remember
  split_ifs with hfull
  · cases old with
    | cons o old => exact .inl ⟨old, append_assoc ..⟩
    | nil =>
      cases new with
      | nil =>
        have hno : ¬ resetMemory ≤ 0 := by decide
        exact absurd hfull hno
      | cons e rest => exact .inr ⟨e, rest, rfl, rfl, hfull, rfl⟩
  · exact .inl ⟨old, append_assoc ..⟩

/-- A record since `t` holds its place for a second. -/
theorem holds_of_odd {now : Nat} {e : Nat × Nat} (he : t ≤ e.2) (hnow : now < t + resetDecay)
    (hodd : (e.1 % 2 == 1) = true) : holds now e = true := by
  have hpos : 0 < resetDecay := by decide
  rw [holds, hodd, Bool.true_and, decide_eq_true_eq]
  omega

/-- The records since `t` hold places. -/
theorem length_filter_le_active {c : Conn} {now : Nat} {old new : List (Nat × Nat)}
    (hlist : c.recentlyReset = old ++ new) (hnew : ∀ e ∈ new, t ≤ e.2)
    (hnow : now < t + resetDecay) :
    c.streams.entries.length + (new.filter fun e => e.1 % 2 == 1).length ≤ c.activeStreams now := by
  have hsub : (new.filter fun e => e.1 % 2 == 1).length ≤ (new.filter (holds now)).length := by
    rw [← countP_eq_length_filter, ← countP_eq_length_filter]
    exact countP_mono_left fun e he hodd => holds_of_odd (hnew e he) hnow hodd
  have hall : (new.filter (holds now)).length ≤ (c.recentlyReset.filter (holds now)).length := by
    rw [hlist, filter_append, length_append]
    omega
  have hactive : c.activeStreams now =
      c.streams.entries.length + (c.recentlyReset.filter (holds now)).length := rfl
  omega

/-- **A stream is let in only where there is a place.** -/
theorem Occupies.room (h : c.Occupies t before given) {now : Nat} (hnow : now < t + resetDecay)
    (hroom : c.activeStreams now < maxConcurrent) :
    (given.toFinset ∪ c.keys).card < maxConcurrent := by
  obtain ⟨old, new, hlist, hnew, hcover | hmany⟩ := h.records
  · have hle := length_filter_le_active hlist hnew hnow
    have hsub : given.toFinset ∪ c.keys ⊆
        c.keys ∪ ((new.filter fun e => e.1 % 2 == 1).map Prod.fst).toFinset := by
      intro id hid
      rw [Finset.mem_union, mem_toFinset] at hid
      rw [Finset.mem_union, mem_toFinset]
      rcases hid with hid | hid
      · refine (hcover id hid).imp_right fun hin => ?_
        obtain ⟨e, he, rfl⟩ := mem_map.mp hin
        exact mem_map_of_mem (mem_filter.mpr ⟨he, beq_iff_eq.mpr (h.odd _ hid)⟩)
      · exact .inl hid
    have hcard := (Finset.card_le_card hsub).trans (Finset.card_union_le ..)
    have hrec := toFinset_card_le ((new.filter fun e => e.1 % 2 == 1).map Prod.fst)
    rw [card_keys] at hcard
    rw [length_map] at hrec
    omega
  · have hle := length_filter_le_active hlist hnew hnow
    omega

theorem Occupies.note (h : c.Occupies t before given) {now stream : Nat} (ht : t ≤ now)
    (hnow : now < t + resetDecay) (hnot : ¬ c.Forgets now stream)
    (hlog : handedStreams c'.log = handedStreams c.log) (hkept : c.keys.erase stream ⊆ c'.keys)
    (hkeys : c'.keys ⊆ c.keys) (hreset : c'.recentlyReset =
      remember c.recentlyReset (stream, now)) :
    c'.Occupies t before given := by
  refine ⟨hlog.trans h.log, h.odd,
    (Finset.card_le_card (Finset.union_subset_union_right hkeys)).trans h.few, ?_⟩
  obtain ⟨old, new, hlist, hnew, hcover⟩ := h.records
  have hnew' (rest : List (Nat × Nat)) (hrest : ∀ e ∈ rest, e ∈ new) :
      ∀ e ∈ rest ++ [(stream, now)], t ≤ e.2 := by
    intro e he
    rcases mem_append.mp he with he | he
    · exact hnew e (hrest e he)
    · rw [mem_singleton.mp he]
      exact ht
  -- a request that has its stream no more has the new record
  have hmoved {id : Nat} (hid : id ∈ c.keys) (rest : List (Nat × Nat)) :
      id ∈ c'.keys ∨ id ∈ (rest ++ [(stream, now)]).map Prod.fst := by
    by_cases heq : id = stream
    · refine .inr (mem_map.mpr ⟨(stream, now), ?_, heq.symm⟩)
      exact mem_append_right _ mem_cons_self
    · exact .inl (hkept (Finset.mem_erase.mpr ⟨heq, hid⟩))
  rcases remember_split old new (stream, now) with ⟨old', hold⟩ | ⟨e, rest, rfl, rfl, hfull, hold⟩
  · refine ⟨old', new ++ [(stream, now)], ?_, hnew' new fun _ he => he, ?_⟩
    · rw [hreset, hlist, hold]
    · rcases hcover with hcover | hmany
      · refine .inl fun id hid => ?_
        rcases hcover id hid with hin | hin
        · exact hmoved hin new
        · exact .inr (by rw [map_append]; exact mem_append_left _ hin)
      · refine .inr (hmany.trans ?_)
        rw [filter_append, length_append]
        omega
  · -- the oldest record since `t` is lost
    refine ⟨[], rest ++ [(stream, now)], ?_, hnew' rest fun _ he => mem_cons_of_mem _ he, ?_⟩
    · rw [hreset, hlist, hold, nil_append]
    · cases hodd : e.1 % 2 == 1 with
      | true =>
        have hholds : holds now e = true := holds_of_odd (hnew e mem_cons_self) hnow hodd
        have hmany := not_lt.mp fun hlt =>
          hnot ⟨hlist ▸ hfull, ⟨e, by rw [hlist]; rfl, hholds⟩, hlt⟩
        rw [hlist, hold] at hmany
        refine .inr (hmany.trans ?_)
        rw [← countP_eq_length_filter, ← countP_eq_length_filter]
        exact countP_mono_left fun e _ hh => (Bool.and_eq_true_iff.mp hh).1
      | false =>
        rcases hcover with hcover | hmany
        · refine .inl fun id hid => ?_
          rcases hcover id hid with hin | hin
          · exact hmoved hin rest
          · rcases mem_cons.mp hin with rfl | hin
            · rw [h.odd _ hid] at hodd
              cases hodd
            · exact .inr (by rw [map_append]; exact mem_append_left _ hin)
        · refine .inr (hmany.trans ?_)
          rw [filter_cons, if_neg (by rw [hodd]; exact Bool.false_ne_true), filter_append,
            length_append]
          omega

/-! ## Steps -/

theorem Occupies.same (h : c.Occupies t before given)
    (hlog : handedStreams c'.log = handedStreams c.log) (hkeys : c'.keys = c.keys)
    (hreset : c'.recentlyReset = c.recentlyReset) : c'.Occupies t before given where
  log := hlog.trans h.log
  odd := h.odd
  few := hkeys ▸ h.few
  records := by
    rw [hkeys, hreset]
    exact h.records

/-- A stream is given up whose request was not handed over since `t`. -/
theorem Occupies.drop (h : c.Occupies t before given) (stream : Nat)
    (hnot : stream ∈ given → stream ∉ c.keys)
    (hlog : handedStreams c'.log = handedStreams c.log) (hkeys : c'.keys = c.keys.erase stream)
    (hreset : c'.recentlyReset = c.recentlyReset) : c'.Occupies t before given := by
  have hsub : c'.keys ⊆ c.keys := hkeys.le.trans (Finset.erase_subset ..)
  refine ⟨hlog.trans h.log, h.odd,
    (Finset.card_le_card (Finset.union_subset_union_right hsub)).trans h.few, ?_⟩
  obtain ⟨old, new, hlist, hnew, hcover⟩ := h.records
  refine ⟨old, new, hreset.trans hlist, hnew, hcover.imp_left fun hcover id hid => ?_⟩
  refine (hcover id hid).imp_left fun hin => ?_
  rw [hkeys]
  exact Finset.mem_erase.mpr ⟨by rintro rfl; exact hnot hid hin, hin⟩

theorem Occupies.asked (h : c.Occupies t before given) (ho : c.Ordered) {id : Nat}
    (hid : id ∈ given) {s : Stream} (hs : c.streams.get? id = some s) : Asked s :=
  (ho.handed id (h.log ▸ mem_append_right _ hid)).2 s hs

/-- **One frame** takes no more places than there are. -/
theorem Occupies.moves (h : c.Occupies t before given) (ho : c.Ordered)
    (hm : Moves libs env c f c₁) (hlog : handedStreams c₁.log = handedStreams c.log)
    (ht : t ≤ env.now) (hnow : env.now < t + resetDecay)
    (hforget : Notes env c f → ¬ c.Forgets env.now f.stream)
    (hdrop : Drops libs env c f → ∀ s, c.streams.get? f.stream = some s → ¬ Asked s) :
    c₁.Occupies t before given := by
  cases hm with
  | same hkeys hreset => exact h.same hlog hkeys hreset
  | opened ha hkeys hreset =>
    have hroom := h.room hnow ha.room
    refine ⟨hlog.trans h.log, h.odd, ?_, ?_⟩
    · rw [hkeys, Finset.union_insert]
      exact (Finset.card_insert_le ..).trans hroom
    · obtain ⟨old, new, hlist, hnew, hcover⟩ := h.records
      refine ⟨old, new, hreset.trans hlist, hnew, hcover.imp_left fun hcover id hid => ?_⟩
      refine (hcover id hid).imp_left fun hin => ?_
      rw [hkeys]
      exact Finset.mem_insert_of_mem hin
  | noted hn hkept hkeys hreset => exact h.note ht hnow (hforget hn) hlog hkept hkeys hreset
  | dropped hd hkeys hreset =>
    refine h.drop _ (fun hin hkey => ?_) hlog hkeys hreset
    obtain ⟨s, hs⟩ := mem_keys.mp hkey
    exact hdrop hd s hs (h.asked ho hin hs)

theorem Occupies.handOver (h : c.Occupies t before given) (ho : c.Ordered)
    {s : Stream} (hs : c.streams.get? stream = some s)
    (hlog : handedStreams c'.log = handedStreams c.log ++ [stream]) (hkeys : c'.keys = c.keys)
    (hreset : c'.recentlyReset = c.recentlyReset) : c'.Occupies t before (given ++ [stream]) := by
  have hkey : stream ∈ c.keys := mem_keys.mpr ⟨s, hs⟩
  refine ⟨?_, fun id hid => ?_, ?_, ?_⟩
  · rw [hlog, h.log, append_assoc]
  · rcases mem_append.mp hid with hid | hid
    · exact h.odd id hid
    · rw [mem_singleton.mp hid]
      exact (ho.known stream s hs).2.1
  · have hsame : (given ++ [stream]).toFinset ∪ c.keys = given.toFinset ∪ c.keys := by
      rw [toFinset_append, Finset.union_assoc]
      refine congrArg _ (Finset.union_eq_right.mpr fun id hid => ?_)
      rw [mem_toFinset, mem_singleton] at hid
      exact hid ▸ hkey
    rw [hkeys, hsame]
    exact h.few
  · obtain ⟨old, new, hlist, hnew, hcover⟩ := h.records
    refine ⟨old, new, hreset.trans hlist, hnew, hcover.imp_left fun hcover id hid => ?_⟩
    rw [hkeys]
    rcases mem_append.mp hid with hid | hid
    · exact hcover id hid
    · exact .inl (by rw [mem_singleton.mp hid]; exact hkey)

/-! ### Responses that are not at their end -/

theorem completed_le_of_appends {P : Entry → Prop} (h : Appends P c c') :
    completed c.log ≤ completed c'.log := by
  obtain ⟨es, hes, -⟩ := h
  rw [hes, completed_append]
  exact Nat.le_add_right ..

theorem Sends.completed_le (hs : Sends stream c c') : completed c.log ≤ completed c'.log :=
  completed_le_of_appends (hs.appends (P := fun _ => True) fun _ _ => trivial)

theorem Flushes.completed_le {ids : List Nat} (hf : Flushes ids c c') :
    completed c.log ≤ completed c'.log :=
  completed_le_of_appends (hf.appends (P := fun _ => True) fun _ _ => trivial)

theorem Sends.keys_eq (hs : Sends stream c c')
    (hno : completed c'.log = completed c.log) : c'.keys = c.keys := by
  induction hs with
  | nothing c => rfl
  | @drained c s body =>
    rw [log_closeStream] at hno
    exact absurd ((completed_ended c.log _ _).symm.trans hno) (Nat.succ_ne_self _)
  | @last c s body n hs hbody ha hall =>
    rw [log_endStream] at hno
    change completed (c.log ++ [.wrote ⟨.data, if _ then flagEndStream else 0, _, _⟩]) = _ at hno
    rw [if_pos hall] at hno
    exact absurd ((completed_ended c.log _ _).symm.trans hno) (Nat.succ_ne_self _)
  | @chunk c c' s body n hs hbody ha hpart rest ih =>
    have hchunk : Appends (fun _ => True) c (c.chunkSent stream s body n) := .single trivial rfl
    have hle := completed_le_of_appends hchunk
    have hle' := rest.completed_le
    exact (ih (by omega)).trans (keys_setStream_of_get? hs _)

theorem Flushes.keys_eq {ids : List Nat} (hf : Flushes ids c c')
    (hno : completed c'.log = completed c.log) : c'.keys = c.keys := by
  induction hf with
  | nil c => rfl
  | cons first rest ih =>
    have hle := first.completed_le
    have hle' := rest.completed_le
    exact (ih (by omega)).trans (first.keys_eq (by omega))

theorem Occupies.flushes {ids : List Nat} (h : c.Occupies t before given) (hf : Flushes ids c c')
    (hno : completed c'.log = completed c.log) : c'.Occupies t before given :=
  h.same hf.handedStreams (hf.keys_eq hno) hf.kept.reset

theorem keys_respond (libs : Libs) (c : Conn) (stream status : Nat) (headers : List (Str × Str))
    (body : Bytes) (method : Str) :
    (c.respond libs stream status headers body method).keys = c.keys :=
  keys_updateStream ..

/-- **What comes of a request** takes the place that its stream has. -/
theorem Dispatches.occupies (hd : Dispatches libs env stream c c')
    (h : c.Occupies t before given) (ho : c.Ordered)
    (hno : completed c'.log = completed c.log) : ∃ given', c'.Occupies t before given' := by
  cases hd with
  | notReady => exact ⟨given, h⟩
  | @rejected s hs hr =>
    refine ⟨given, h.drop stream (fun hin _ => ?_) ?_ (keys_removeStream ..) rfl⟩
    · exact not_asked_of_ready hr (h.asked ho hin hs)
    · exact handedStreams_of_appends (P := ofHandler) (fun _ _ h => h)
        (.single (.inl mem_cons_self) rfl)
  | @pending s hs hr hgood hout =>
    obtain ⟨m, hm, -⟩ := updateStream_eq (c.handOver stream (requestOf s)) stream
      fun s' => { s' with pending := some (requestOf s).method }
    have hkeys := keys_updateStream (c.handOver stream (requestOf s)) stream
      fun s' => { s' with pending := some (requestOf s).method }
    rw [hm] at hkeys ⊢
    exact ⟨_, h.handOver ho hs (handedStreams_append ..) hkeys rfl⟩
  | @answered s status headers body c' hs hr hgood hout hf =>
    have hlog := log_respond libs (c.handOver stream (requestOf s)) stream status headers body
      (requestOf s).method
    have hkept := Kept.respond libs (c.handOver stream (requestOf s)) stream status headers body
      (requestOf s).method
    have hkeys := keys_respond libs (c.handOver stream (requestOf s)) stream status headers body
      (requestOf s).method
    have hgiven : ((c.handOver stream (requestOf s)).respond libs stream status headers body
        (requestOf s).method).Occupies t before (given ++ [stream]) := by
      refine h.handOver ho hs ?_ hkeys hkept.reset
      rw [hlog, handedStreams_append]
      exact (append_nil _).trans (handedStreams_append ..)
    refine ⟨_, hgiven.flushes hf ?_⟩
    have hle := hf.completed_le
    have hle' : Appends (fun _ => True) c ((c.handOver stream (requestOf s)).respond libs stream
        status headers body (requestOf s).method) :=
      ⟨_, hlog.trans (append_assoc ..), fun _ _ => trivial⟩
    have := completed_le_of_appends hle'
    omega

/-! ### Events -/

theorem Appends.any {P : Entry → Prop} (h : Appends P c c') : Appends (fun _ => True) c c' :=
  h.imp fun _ _ => trivial

theorem grows_frame {rest : Bytes} {tail : Tail}
    (hh : Handles libs env (c.enter.take f rest) f c₁ tail) : Appends (fun _ => True) c c₁ :=
  ((ofHandler_enter c).any.trans (.single (e := .took f) trivial rfl)).trans hh.ofHandler.any

theorem Steps.grows {e : Event} (hs : Steps libs c e c') : Appends (fun _ => True) c c' := by
  cases hs with
  | still => exact .refl c
  | arrive | ioFailed | settled => exact .same rfl
  | waits => exact (ofHandler_enter c).any
  | badPreface => exact (ofHandler_giveUp c).any
  | tooLarge =>
    have herr : Appends (fun _ => True) c.enter (c.enter.connectionError errFrameSize) :=
      .single trivial rfl
    exact ((ofHandler_enter c).any.trans herr).trans (ofHandler_giveUp _).any
  | frame _ _ hh hl => exact (grows_frame hh).trans (.any hl.kept.log)
  | failed _ _ hh => exact (grows_frame (Handles.failed [] hh)).trans (ofHandler_giveUp _).any
  | answered _ _ _ hf => exact (Appends.any (Kept.answerWith ..).log).trans (.any hf.kept.log)
  | flushed hf => exact .any hf.kept.log
  | idled => exact .single trivial rfl

theorem keys_giveUp (c : Conn) :
    c.giveUp.keys = c.keys ∧ c.giveUp.recentlyReset = c.recentlyReset := by
  unfold Conn.giveUp
  split_ifs
  · exact ⟨rfl, rfl⟩
  · exact ⟨rfl, rfl⟩

theorem keys_enter (c : Conn) :
    c.enter.keys = c.keys ∧ c.enter.recentlyReset = c.recentlyReset := by
  unfold Conn.enter
  split_ifs
  · exact ⟨rfl, rfl⟩
  · exact ⟨rfl, rfl⟩

theorem Occupies.giveUp (h : c.Occupies t before given) : c.giveUp.Occupies t before given :=
  h.same (handedStreams_of_appends (fun _ _ h => h) (ofHandler_giveUp c)) (keys_giveUp c).1
    (keys_giveUp c).2

theorem Occupies.enter (h : c.Occupies t before given) : c.enter.Occupies t before given :=
  h.same (handedStreams_of_appends (fun _ _ h => h) (ofHandler_enter c)) (keys_enter c).1
    (keys_enter c).2

/-- **One event** takes no more places than there are. -/
theorem Steps.occupies {e : Event} (hs : Steps libs c e c') (h : c.Occupies t before given)
    (ho : c.Ordered) (htime : ∀ n ∈ e.time, t ≤ n ∧ n < t + resetDecay)
    (hno : completed c'.log = completed c.log) (hok : ¬ c.FreesSlot libs e) :
    ∃ given', c'.Occupies t before given' := by
  have took (f : Frame) (rest : Bytes) : (c.enter.take f rest).Occupies t before given := by
    have hlog : handedStreams (c.enter.take f rest).log = handedStreams c.enter.log :=
      (handedStreams_append ..).trans (append_nil _)
    exact h.enter.same hlog rfl rfl
  have frame {env : Env} {f : Frame} {rest : Bytes} {c₁ : Conn} {tail : Tail}
      (he : e = .frame env) (hf : c.nextFrame = some (f, rest))
      (hh : Handles libs env (c.enter.take f rest) f c₁ tail) : c₁.Occupies t before given := by
    subst he
    obtain ⟨ht, hnow⟩ := htime env.now rfl
    refine (took f rest).moves (ho.take f rest) hh.moves hh.handedStreams ht hnow
      (fun hn hfor => ?_)
      fun hd s hs hasked => ?_
    · refine hok ⟨f, rest, hf, .inl ⟨hn, ?_⟩⟩
      unfold Forgets at *
      change _ ≤ c.enter.recentlyReset.length ∧ (∃ e ∈ c.enter.recentlyReset.head?, _) ∧
        ((remember c.enter.recentlyReset _).filter _).length < _ at hfor
      rwa [(keys_enter c).2] at hfor
    · refine hok ⟨f, rest, hf, .inr ⟨hd, s, ?_, hasked⟩⟩
      rwa [← (streams_enter c).1]
  cases hs with
  | still => exact ⟨given, h⟩
  | arrive | ioFailed | settled => exact ⟨given, h.same rfl rfl rfl⟩
  | waits => exact ⟨given, h.enter⟩
  | badPreface => exact ⟨given, h.giveUp⟩
  | tooLarge =>
    have herr : (c.enter.connectionError errFrameSize).Occupies t before given :=
      h.enter.same ((handedStreams_append ..).trans (append_nil _)) rfl rfl
    exact ⟨given, herr.giveUp⟩
  | @frame env f rest c₁ _ tail hp hf hh hl =>
    have hc₁ := frame rfl hf hh
    have ho₁ : c₁.Ordered := (ho.take f rest).handles hh (nextFrame_bounds hf).2
    have hle : completed c.log ≤ completed c₁.log := completed_le_of_appends (grows_frame hh)
    cases hl with
    | ok => exact ⟨given, hc₁⟩
    | flush hfl =>
      have hle' := hfl.completed_le
      exact ⟨given, hc₁.flushes hfl (by omega)⟩
    | dispatch hd =>
      have hle' := completed_le_of_appends hd.kept.log
      exact hd.occupies hc₁ ho₁ (by omega)
  | failed _ hf hh => exact ⟨given, (frame rfl hf (.failed [] hh)).giveUp⟩
  | @answered env stream status headers body s method c' hp hs hm hf =>
    have hkept := Kept.answerWith libs c stream s status headers body method
    have hkeys : (c.answerWith libs stream s status headers body method).keys = c.keys :=
      (keys_respond ..).trans (keys_setStream_of_get? hs _)
    have hlog := log_respond libs (c.setStream stream { s with pending := none }) stream status
      headers body method
    have hgiven : (c.answerWith libs stream s status headers body method).Occupies t
      before given := by
      refine h.same ?_ hkeys hkept.reset
      rw [Conn.answerWith, hlog, handedStreams_append]
      exact append_nil _
    refine ⟨given, hgiven.flushes hf ?_⟩
    have hle := hf.completed_le
    have hle' := completed_le_of_appends hkept.log
    omega
  | flushed hf => exact ⟨given, h.flushes hf hno⟩
  | idled =>
    exact ⟨given, h.same ((handedStreams_append ..).trans (append_nil _)) rfl rfl⟩

theorem grows_run (libs : Libs) (events : List Event) {c c' : Conn} (h : c.Sound)
    (hrun : c.run libs events = some c') : completed c.log ≤ completed c'.log := by
  induction events generalizing c with
  | nil =>
    cases hrun
    exact le_rfl
  | cons e events ih =>
    obtain ⟨c₁, hstep, hrest⟩ := Option.bind_eq_some_iff.mp (foldlM_cons.symm.trans hrun)
    have hs := step_steps h hstep
    exact (completed_le_of_appends hs.grows).trans (ih (hs.sound h) hrest)

/-- **A run** takes no more places than there are. -/
theorem Occupies.run (libs : Libs) (interval : List Event) {c c' : Conn}
    (h : c.Occupies t before given)
    (hsound : c.Sound) (ho : c.Ordered) (hrun : c.run libs interval = some c')
    (htime : ∀ e ∈ interval, ∀ n ∈ e.time, t ≤ n ∧ n < t + resetDecay)
    (hno : completed c'.log = completed c.log)
    (hslots : EachStep (Conn.step libs) (fun c e => ¬ c.FreesSlot libs e) c interval) :
    c'.Ordered ∧ ∃ given', c'.Occupies t before given' := by
  induction interval generalizing c given with
  | nil =>
    cases hrun
    exact ⟨ho, given, h⟩
  | cons e interval ih =>
    obtain ⟨c₁, hstep, hrest⟩ := Option.bind_eq_some_iff.mp (foldlM_cons.symm.trans hrun)
    have hs := step_steps hsound hstep
    have hfirst := completed_le_of_appends hs.grows
    have hlater := grows_run libs interval (hs.sound hsound) hrest
    obtain ⟨given₁, h₁⟩ := hs.occupies h ho (htime e mem_cons_self) (by omega) hslots.1
    exact ih h₁ (hs.sound hsound) (hs.ordered ho) hrest
      (fun e' he' => htime e' (mem_cons_of_mem _ he')) (by omega) (hslots.2 c₁ hstep)

theorem Occupies.start (t : Nat) (h : c.WithinBounds) : c.Occupies t (handedStreams c.log) [] where
  log := (append_nil _).symm
  odd := nofun
  few := by
    rw [toFinset_nil, Finset.empty_union, card_keys]
    exact h.streams
  records := ⟨c.recentlyReset, [], (append_nil _).symm, nofun, .inl nofun⟩

end Conn

/-- **Within a second no more than `maxConcurrent` requests are handed over**, if no response is at
its end in it and no place is lost. -/
theorem dispatches_bounded (libs : Libs) {events interval : List Event} {c c' : Conn}
    (hc : Conn.new.run libs events = some c) (hi : c.run libs interval = some c') {t : Nat}
    (htime : ∀ e ∈ interval, ∀ n ∈ e.time, t ≤ n ∧ n < t + resetDecay)
    (hopen : completed c'.log = completed c.log)
    (hslots : EachStep (Conn.step libs) (fun c e => ¬ c.FreesSlot libs e) c interval) :
    (handedStreams c'.log).length ≤ (handedStreams c.log).length + maxConcurrent := by
  obtain ⟨hsound, ho⟩ := Conn.ordered_of_run libs hc
  have hbounds := (Conn.throughout_kept libs (P := Conn.WithinBounds)
    (fun _ _ _ _ hc hs => hc.steps hs) (fun _ _ hc => hc) .new events).result hc
  obtain ⟨ho', given, h⟩ :=
    (Conn.Occupies.start t hbounds).run libs interval hsound ho hi htime hopen hslots
  have honce : given.Nodup := (nodup_append.mp (h.log ▸ ho'.once)).2.1
  have hcard : given.length ≤ maxConcurrent := by
    rw [← toFinset_card_of_nodup honce]
    exact (Finset.card_le_card Finset.subset_union_left).trans h.few
  rw [h.log, length_append]
  omega

/-- A request, and the client's RST_STREAM. -/
def asksAndCancels (n : Nat) : Bytes :=
  postFrame 5 (2 * n + 1) ++ [0, 0, 4, 3, 0] ++ be32 (2 * n + 1) ++ be32 8

def threeCancelled : List Event :=
  .arrive (clientPreface ++ (List.range 3).flatMap asksAndCancels) ::
    List.replicate 6 (.frame plainEnv)

theorem dispatches_bounded_cancelled :
    ∃ c', Conn.new.run postLibs threeCancelled = some c' ∧
      (handedStreams c'.log).length ≤ (handedStreams Conn.new.log).length + maxConcurrent := by
  have hnew : Conn.new.run postLibs [] = some Conn.new := rfl
  have hrun : Conn.new.run postLibs threeCancelled = some _ := rfl
  refine ⟨_, hrun, dispatches_bounded postLibs hnew hrun (t := 0) ?_ (by decide) ?_⟩
  · intro e he n hn
    rcases mem_cons.mp he with rfl | he
    · exact nomatch hn
    · rw [eq_of_mem_replicate he] at hn
      cases hn
      decide
  · -- a request finds no stream, and what the client cancels is recorded
    refine .cons id rfl (.cons ?_ rfl (.cons ?_ rfl (.cons ?_ rfl (.cons ?_ rfl (.cons ?_ rfl
      ⟨?_, fun _ _ => trivial⟩)))))
    iterate 3
      · rintro ⟨f, rest, hf, ⟨-, hfull, -⟩ | ⟨-, s, hs, -⟩⟩
        · exact absurd hfull (by decide)
        · cases Option.some.inj hf
          cases hs
      · rintro ⟨f, rest, hf, ⟨-, hfull, -⟩ | ⟨hdrops, -⟩⟩
        · exact absurd hfull (by decide)
        · cases Option.some.inj hf
          cases hdrops with
          | illegal _ _ hstate => cases hstate
          | overCap _ hf => cases hf
          | trailers ha => cases ha.headers

/-- The frames by which a stream is opened and the request on it is ended, and one that must not
come after them. -/
def opensAndCloses (n : Nat) : Bytes :=
  postFrame 5 (2 * n + 1) ++ [0, 0, 0, 0, 0] ++ be32 (2 * n + 1)

def rounds (n : Nat) : List Event :=
  .arrive (clientPreface ++ (List.range n).flatMap opensAndCloses) ::
    List.replicate (2 * n) (.frame plainEnv)

theorem rounds_handed :
    ((Conn.new.run postLibs (rounds (maxConcurrent + 1))).elim false fun c' =>
      decide (completed c'.log = 0 ∧ maxConcurrent < (handedStreams c'.log).length)) = true := by
  decide +kernel

/-- A client that starts one more request than there are places: what it does to its streams is not
recorded. -/
theorem dispatches_unbounded :
    ∃ c', Conn.new.run postLibs (rounds (maxConcurrent + 1)) = some c' ∧
      (∀ e ∈ rounds (maxConcurrent + 1), ∀ n ∈ e.time, 0 ≤ n ∧ n < 0 + resetDecay) ∧
      completed c'.log = completed Conn.new.log ∧
      (handedStreams Conn.new.log).length + maxConcurrent < (handedStreams c'.log).length := by
  have htime : ∀ e ∈ rounds (maxConcurrent + 1), ∀ n ∈ e.time, 0 ≤ n ∧ n < 0 + resetDecay := by
    intro e he n hn
    rcases mem_cons.mp he with rfl | he
    · exact nomatch hn
    · rw [eq_of_mem_replicate he] at hn
      cases hn
      decide
  have hrun := rounds_handed
  generalize Conn.new.run postLibs (rounds (maxConcurrent + 1)) = r at hrun ⊢
  cases r with
  | none => exact nomatch hrun
  | some c' =>
    obtain ⟨hopen, hmany⟩ := of_decide_eq_true hrun
    exact ⟨c', rfl, htime, hopen, (Nat.zero_add _).le.trans_lt hmany⟩

end M6.Http2
