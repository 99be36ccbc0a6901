import M6.Edge.Cache
import M6.Lib.Weights

/-!
# The response cache, over whole runs

What `cache.rs` promises of the cache from the first operation on, whatever the operations are.

The bytes that the counter holds are those of the entries, and an insertion leaves no more of them
than the bound (`bytes_accounted`). What an insertion evicts was read longer ago than all that
stays.

A response is served until its deadlines, which `insert` sets once and nothing moves
(`Stored.run`). They are counted from the moment it was stored, and not from when it was generated,
so that a response which was old on arrival outlives its lifetime (`within_lifetime_iff`).
-/

namespace M6

open SortedMap

namespace Cache

/-! ## Runs -/

def evictPaths (c : Cache) (paths : List Str) : Cache := paths.foldl evictPath c

/-- An operation. -/
inductive Op where
  | insert (now : ClockReading) (key : Str) (r : CachedResponse)
  | lookup (now : Nat) (key : Str)
  | evictPath (path : Str)
  | evictPaths (paths : List Str)
  | clear
  /-- another cache of the process takes a tick of the counter -/
  | elsewhere

def apply (date : HttpDate) (c : Cache) : Op → Cache
  | .insert now key r => c.insert date now key r
  | .lookup now key => (lookup now c key).2
  | .evictPath path => c.evictPath path
  | .evictPaths paths => c.evictPaths paths
  | .clear => c.clear
  | .elsewhere => { c with readTick := c.readTick + 1 }

def run (date : HttpDate) (c : Cache) (ops : List Op) : Cache := ops.foldl (apply date) c

/-! ## Bytes -/

def footprintSum (c : Cache) : Nat := c.map.weight CacheEntry.footprint

/-- The entry that `insert` makes of a response. -/
def entryOf (date : HttpDate) (now : ClockReading) (c : Cache) (key : Str) (r : CachedResponse) :
    CacheEntry :=
  { response := r
    storedAt := now.instant
    upstreamAge := initialAge date now r.headers
    expiresAt := now.instant + freshFor date now r.headers
    serveStaleUntil := now.instant + freshFor date now r.headers + staleFor r.headers
    footprint := c.entryFootprint key r
    lastRead := c.readTick }

def put (date : HttpDate) (now : ClockReading) (c : Cache) (key : Str) (r : CachedResponse) :
    Cache :=
  { c with
    map := c.map.insert key (entryOf date now c key r)
    bytes := c.bytes - ((c.map.get? key).map CacheEntry.footprint).getD 0 + c.entryFootprint key r
    readTick := c.readTick + 1 }

theorem insert_eq (date : HttpDate) (now : ClockReading) (c : Cache) (key : Str)
    (r : CachedResponse) : c.insert date now key r =
      if (c.put date now key r).bytes > c.maxBytes then (c.put date now key r).evictUntilUnder
      else c.put date now key r := rfl

def Balanced (c : Cache) : Prop := c.bytes = c.footprintSum

variable {c : Cache}

theorem Balanced.put (h : c.Balanced) (date : HttpDate) (now : ClockReading) (key : Str)
    (r : CachedResponse) : (c.put date now key r).Balanced := by
  have hweight := c.map.weight_insert CacheEntry.footprint key (entryOf date now c key r)
  have hfreed := c.map.weight_get?_le CacheEntry.footprint key
  have hsame : (entryOf date now c key r).footprint = c.entryFootprint key r := rfl
  rw [Balanced, footprintSum] at h ⊢
  simp only [Cache.put]
  omega

theorem Balanced.filter (h : c.Balanced) (p : Str × CacheEntry → Bool) :
    Balanced { c with
      map := c.map.filter p
      bytes := c.bytes - ((c.map.entries.filter fun e => !p e).map fun e =>
        e.2.footprint).sum } := by
  have hweight := c.map.weight_filter CacheEntry.footprint p
  rw [Balanced, footprintSum] at h ⊢
  simp only
  omega

theorem cutoff_eq (target : Nat) (l : List (Nat × Nat)) (held tick : Nat) :
    cutoff target l held tick = Eviction.cutoff target l held tick := by
  induction l generalizing held tick with
  | nil => rfl
  | cons e rest ih => rw [cutoff, Eviction.cutoff, ih]

def byTick (c : Cache) : List (Nat × Nat) :=
  (c.map.entries.map fun e => (e.2.lastRead, e.2.footprint)).insertionSort fun a b => a.1 ≤ b.1

def evictionTick (c : Cache) : Nat := cutoff (c.maxBytes - c.maxBytes / 8) c.byTick c.bytes 0

theorem evictUntilUnder_eq (c : Cache) :
    c.evictUntilUnder = { c with
      map := c.map.filter fun e => c.evictionTick ≤ e.2.lastRead
      bytes := c.bytes - ((c.map.entries.filter fun e => e.2.lastRead < c.evictionTick).map
        fun e => e.2.footprint).sum } := rfl

theorem sorted_byTick (c : Cache) : c.byTick.Pairwise fun a b => a.1 ≤ b.1 :=
  List.pairwise_insertionSort (fun a b : Nat × Nat => a.1 ≤ b.1) _

theorem sum_byTick (c : Cache) (p : Nat → Bool) :
    ((c.byTick.filter fun e => p e.1).map Prod.snd).sum =
      ((c.map.entries.filter fun e => p e.2.lastRead).map fun e => e.2.footprint).sum := by
  have hperm := ((List.perm_insertionSort (fun a b : Nat × Nat => a.1 ≤ b.1)
    (c.map.entries.map fun e => (e.2.lastRead, e.2.footprint))).filter fun e => p e.1).map Prod.snd
  refine hperm.sum_nat.trans ?_
  rw [List.filter_map, List.map_map]
  rfl

theorem Balanced.evictUntilUnder (h : c.Balanced) : c.evictUntilUnder.Balanced := by
  have hgone : (c.map.entries.filter fun e => e.2.lastRead < c.evictionTick) =
      c.map.entries.filter fun e => !decide (c.evictionTick ≤ e.2.lastRead) :=
    List.filter_congr fun e _ => (decide_eq_decide.mpr not_le.symm).trans decide_not
  rw [evictUntilUnder_eq, hgone]
  exact h.filter _

theorem bytes_evictUntilUnder (h : c.Balanced) : c.evictUntilUnder.bytes ≤ c.maxBytes := by
  have hall : (c.byTick.map Prod.snd).sum = c.footprintSum := by
    have hsum := c.sum_byTick fun _ => true
    rwa [List.filter_true, List.filter_true] at hsum
  have hheld : c.bytes ≤ (c.byTick.map Prod.snd).sum := by rw [hall, h]
  have hleft : c.evictUntilUnder.bytes ≤ c.maxBytes - c.maxBytes / 8 := by
    have hcut := Eviction.held_sub_cutoff (c.maxBytes - c.maxBytes / 8) c.sorted_byTick hheld 0
    rw [← cutoff_eq] at hcut
    rw [evictUntilUnder_eq, ← c.sum_byTick fun t => decide (t < c.evictionTick)]
    exact hcut
  exact hleft.trans (Nat.sub_le _ _)

@[simp] theorem maxBytes_insert (date : HttpDate) (now : ClockReading) (c : Cache) (key : Str)
    (r : CachedResponse) : (c.insert date now key r).maxBytes = c.maxBytes := by
  rw [insert_eq]
  split_ifs <;> rfl

theorem Balanced.insert (h : c.Balanced) (date : HttpDate) (now : ClockReading)
    (key : Str) (r : CachedResponse) :
    (c.insert date now key r).Balanced ∧ (c.insert date now key r).bytes ≤ c.maxBytes := by
  have hput := h.put date now key r
  rw [insert_eq]
  split_ifs with hover
  · exact ⟨hput.evictUntilUnder, bytes_evictUntilUnder hput⟩
  · exact ⟨hput, not_lt.mp hover⟩

theorem Balanced.lookup (h : c.Balanced) (now : Nat) (key : Str) :
    (Cache.lookup now c key).2.Balanced := by
  rw [Cache.lookup]
  cases hget : c.map.get? key with
  | none => exact h
  | some e =>
    have hread : Balanced { c with
        map := c.map.insert key { e with lastRead := c.readTick }
        readTick := c.readTick + 1 } := by
      have hweight := c.map.weight_insert CacheEntry.footprint key { e with lastRead := c.readTick }
      rw [hget] at hweight
      rw [Balanced, footprintSum] at h ⊢
      simp only [Option.map_some, Option.getD_some] at hweight ⊢
      omega
    simp only
    split_ifs <;> exact hread

theorem Balanced.evictPath (h : c.Balanced) (path : Str) : (c.evictPath path).Balanced := by
  have hgone := h.filter fun e => !decide (pathPrefix path <+: e.1)
  simp only [Bool.not_not] at hgone
  exact hgone

theorem Balanced.evictPaths (h : c.Balanced) (paths : List Str) :
    (c.evictPaths paths).Balanced := by
  induction paths generalizing c with
  | nil => exact h
  | cons path paths ih => exact ih (h.evictPath path)

theorem Balanced.apply (h : c.Balanced) (date : HttpDate) (op : Op) :
    (c.apply date op).Balanced := by
  cases op with
  | insert now key r => exact (h.insert date now key r).1
  | lookup now key => exact h.lookup now key
  | evictPath path => exact h.evictPath path
  | evictPaths paths => exact h.evictPaths paths
  | clear => rfl
  | elsewhere => exact h

theorem Balanced.run (h : c.Balanced) (date : HttpDate) (ops : List Op) :
    (c.run date ops).Balanced := by
  induction ops generalizing c with
  | nil => exact h
  | cons op ops ih => exact ih (h.apply date op)

@[simp] theorem maxBytes_evictPaths (c : Cache) (paths : List Str) :
    (c.evictPaths paths).maxBytes = c.maxBytes := by
  induction paths generalizing c with
  | nil => rfl
  | cons path paths ih => exact ih (c.evictPath path)

@[simp] theorem maxBytes_lookup (now : Nat) (c : Cache) (key : Str) :
    (Cache.lookup now c key).2.maxBytes = c.maxBytes := by
  rw [Cache.lookup]
  cases c.map.get? key with
  | none => rfl
  | some e =>
    simp only
    split_ifs <;> rfl

@[simp] theorem maxBytes_run (date : HttpDate) (c : Cache) (ops : List Op) :
    (c.run date ops).maxBytes = c.maxBytes := by
  induction ops generalizing c with
  | nil => rfl
  | cons op ops ih =>
    refine (ih (c.apply date op)).trans ?_
    cases op <;> simp [Cache.apply, Cache.evictPath, Cache.clear]

/-! ## What goes -/

/-- From `c` to `c'` entries went, and each of them was read longer ago than all that stayed. -/
structure DropsOldest (c c' : Cache) : Prop where
  /-- nothing else changed -/
  stays : ∀ k e, c'.map.get? k = some e → c.map.get? k = some e
  older : ∀ k e, c.map.get? k = some e → c'.map.get? k = none →
    ∀ k' e', c'.map.get? k' = some e' → e.lastRead < e'.lastRead

theorem dropsOldest_evictUntilUnder (c : Cache) : DropsOldest c c.evictUntilUnder := by
  rw [evictUntilUnder_eq]
  refine ⟨fun k e he => (get?_filter.mp he).1, fun k e he hgone k' e' he' => ?_⟩
  have hyoung : c.evictionTick ≤ e'.lastRead := of_decide_eq_true (get?_filter.mp he').2
  have hold : ¬ c.evictionTick ≤ e.lastRead := by
    intro hkeep
    have hstays : (c.map.filter fun e => c.evictionTick ≤ e.2.lastRead).get? k = some e :=
      get?_filter.mpr ⟨he, decide_eq_true hkeep⟩
    exact nomatch hgone.symm.trans hstays
  exact (not_le.mp hold).trans_le hyoung

theorem dropsOldest_insert (date : HttpDate) (now : ClockReading) (c : Cache) (key : Str)
    (r : CachedResponse) : DropsOldest (c.put date now key r) (c.insert date now key r) := by
  rw [insert_eq]
  split_ifs
  · exact dropsOldest_evictUntilUnder _
  · refine ⟨fun k e he => he, fun k e he hgone => ?_⟩
    exact nomatch hgone.symm.trans he

/-- **The bytes of the cache are accounted for.** After every run of operations the counter holds
what the entries weigh, and an insertion from there leaves no more than the bound, where all that it
evicts was read longer ago than all that stays. -/
theorem bytes_accounted (date : HttpDate) (maxBytes entrySize : Nat) (ops : List Op) :
    ((new maxBytes entrySize).run date ops).bytes =
        ((new maxBytes entrySize).run date ops).footprintSum ∧ ∀ now key r,
        (((new maxBytes entrySize).run date ops).insert date now key r).bytes ≤ maxBytes ∧
          DropsOldest (((new maxBytes entrySize).run date ops).put date now key r)
            (((new maxBytes entrySize).run date ops).insert date now key r) := by
  have hstart : (new maxBytes entrySize).Balanced := rfl
  have hrun := hstart.run date ops
  refine ⟨hrun, fun now key r => ⟨?_, dropsOldest_insert date now _ key r⟩⟩
  have hbound := (hrun.insert date now key r).2
  rwa [maxBytes_run] at hbound

/-! ## Ages -/

def Op.Stores (key : Str) : Op → Prop
  | .insert _ k _ => k = key
  | _ => False

def Stored (c : Cache) (key : Str) (e : CacheEntry) : Prop :=
  ∀ e', c.map.get? key = some e' → ∃ tick, e' = { e with lastRead := tick }

variable {e : CacheEntry} {key : Str}

theorem Stored.evictUntilUnder (h : c.Stored key e) : c.evictUntilUnder.Stored key e :=
  fun e' he' => h e' ((dropsOldest_evictUntilUnder c).stays key e' he')

theorem Stored.insert_other {key k : Str} (h : c.Stored key e)
    (hne : k ≠ key) (date : HttpDate) (now : ClockReading) (r : CachedResponse) :
    (c.insert date now k r).Stored key e := by
  have hput : (c.put date now k r).Stored key e := by
    intro e' he'
    simp only [put, get?_insert, if_neg hne.symm] at he'
    exact h e' he'
  rw [insert_eq]
  split_ifs
  · exact hput.evictUntilUnder
  · exact hput

theorem Stored.evictPath (h : c.Stored key e) (path : Str) : (c.evictPath path).Stored key e :=
  fun e' he' => h e' (get?_filter.mp he').1

theorem Stored.evictPaths (h : c.Stored key e)
    (paths : List Str) : (c.evictPaths paths).Stored key e := by
  induction paths generalizing c with
  | nil => exact h
  | cons path paths ih => exact ih (h.evictPath path)

theorem Stored.lookup (h : c.Stored key e) (now : Nat)
    (k : Str) : (Cache.lookup now c k).2.Stored key e := by
  rw [Cache.lookup]
  cases hget : c.map.get? k with
  | none => exact h
  | some e₀ =>
    have hread : Stored { c with
        map := c.map.insert k { e₀ with lastRead := c.readTick }
        readTick := c.readTick + 1 } key e := by
      intro e' he'
      simp only [get?_insert] at he'
      split_ifs at he' with hk
      · obtain ⟨tick, rfl⟩ := h e₀ (hk ▸ hget)
        exact ⟨c.readTick, (Option.some.inj he').symm⟩
      · exact h e' he'
    simp only
    split_ifs <;> exact hread

theorem Stored.apply (h : c.Stored key e)
    (date : HttpDate) {op : Op} (hop : ¬ op.Stores key) : (c.apply date op).Stored key e := by
  cases op with
  | insert now k r => exact h.insert_other hop date now r
  | lookup now k => exact h.lookup now k
  | evictPath path => exact h.evictPath path
  | evictPaths paths => exact h.evictPaths paths
  | clear => exact fun e' he' => nomatch he'
  | elsewhere => exact h

theorem Stored.run (h : c.Stored key e) (date : HttpDate)
    {ops : List Op} (hops : ∀ op ∈ ops, ¬ op.Stores key) : (c.run date ops).Stored key e := by
  induction ops generalizing c with
  | nil => exact h
  | cons op ops ih =>
    exact ih (h.apply date (hops op List.mem_cons_self))
      fun op' hop' => hops op' (List.mem_cons_of_mem _ hop')

/-- What `insert` leaves under the key, if it leaves it there. -/
theorem stored_insert (date : HttpDate) (now : ClockReading) (c : Cache) (key : Str)
    (r : CachedResponse) : (c.insert date now key r).Stored key (entryOf date now c key r) := by
  have hput : (c.put date now key r).Stored key (entryOf date now c key r) := by
    intro e he
    simp only [put, get?_insert, if_true] at he
    exact ⟨_, (Option.some.inj he).symm⟩
  rw [insert_eq]
  split_ifs
  · exact hput.evictUntilUnder
  · exact hput

def roomFor (key : Str) (r : CachedResponse) : Cache := new ((new 0 0).entryFootprint key r) 0

theorem get?_roomFor (date : HttpDate) (now : ClockReading) (key : Str) (r : CachedResponse) :
    ((roomFor key r).insert date now key r).map.get? key =
      some (entryOf date now (roomFor key r) key r) := by
  have hbytes : ((roomFor key r).put date now key r).bytes =
      0 + (new 0 0).entryFootprint key r := rfl
  have hbound : (roomFor key r).maxBytes = (new 0 0).entryFootprint key r := rfl
  rw [insert_eq, if_neg (by omega), put, get?_insert, if_pos rfl]

/-- The lifetime that the origin gave a response: its own directive, else what lies between
`Expires` and `Date`, else the heuristic. -/
def lifetime (date : HttpDate) (now : ClockReading) (headers : List (Str × Str)) : Nat :=
  let cc := CacheControl.parse headers
  (((cc.sMaxage.or cc.maxAge).map (· * second)).or (expiresLifetime date now headers)).getD
    (24 * 60 * 60 * second)

/-- How long past that the origin lets it be served stale. -/
def staleWindow (headers : List (Str × Str)) : Nat :=
  (CacheControl.parse headers).staleWhileRevalidate.getD 0 * second

theorem freshFor_le (date : HttpDate) (now : ClockReading) (headers : List (Str × Str)) :
    freshFor date now headers ≤ lifetime date now headers := by
  rw [freshFor, lifetime]
  cases (CacheControl.parse headers).noCache with
  | true => simp [second]
  | false =>
    rw [if_neg Bool.false_ne_true]
    cases ((((CacheControl.parse headers).sMaxage.or (CacheControl.parse headers).maxAge).map
      (· * second)).or (expiresLifetime date now headers)) with
    | none => exact le_rfl
    | some l => exact Nat.sub_le _ _

theorem staleFor_cases (date : HttpDate) (now : ClockReading) (headers : List (Str × Str)) :
    staleFor headers = staleWindow headers ∨
      freshFor date now headers = 0 ∧ staleFor headers = 0 := by
  rw [staleFor, staleWindow, freshFor]
  cases (CacheControl.parse headers).noCache with
  | true => exact .inr ⟨by simp [second], rfl⟩
  | false => exact .inl rfl

def WithinLifetime (date : HttpDate) (now : ClockReading) (r : CachedResponse) : CacheLookup → Prop
  | .fresh _ age => age < lifetime date now r.headers
  | .stale _ age => age < lifetime date now r.headers + staleWindow r.headers
  | .miss => True

instance (date : HttpDate) (now : ClockReading) (r : CachedResponse) :
    DecidablePred (WithinLifetime date now r) := fun l =>
  match l with
  | .fresh _ age => inferInstanceAs (Decidable (age < lifetime date now r.headers))
  | .stale _ age =>
    inferInstanceAs (Decidable (age < lifetime date now r.headers + staleWindow r.headers))
  | .miss => inferInstanceAs (Decidable True)

/-- The deadlines of a response are instants of a clock that ends at `limit`. Where they are not,
`insert` ends the process. -/
def Expressible (limit : Nat) (date : HttpDate) (now : ClockReading) (r : CachedResponse) : Prop :=
  now.instant + freshFor date now r.headers + staleFor r.headers ≤ limit

variable {now : ClockReading} {r : CachedResponse} {date : HttpDate}

theorem lookup_entry {c c' : Cache} {tick : Nat}
    (h : c'.map.get? key = some { entryOf date now c key r with lastRead := tick }) (moment : Nat) :
    (Cache.lookup moment c' key).1 =
      if moment < now.instant + freshFor date now r.headers then
        .fresh r (initialAge date now r.headers + (moment - now.instant))
      else if moment < now.instant + freshFor date now r.headers + staleFor r.headers then
        .stale r (initialAge date now r.headers + (moment - now.instant))
      else .miss := by
  have hlookup : ∀ e, c'.map.get? key = some e → (Cache.lookup moment c' key).1 =
      if moment < e.expiresAt then .fresh e.response (e.upstreamAge + (moment - e.storedAt))
      else if moment < e.serveStaleUntil then
        .stale e.response (e.upstreamAge + (moment - e.storedAt))
      else .miss := by
    intro e he
    rw [Cache.lookup, he]
    simp only
    split_ifs <;> rfl
  exact hlookup _ h

theorem withinLifetime_of_young (hyoung : freshFor date now r.headers + staleFor r.headers = 0 ∨
      initialAge date now r.headers ≤ lifetime date now r.headers - freshFor date now r.headers)
    {c c' : Cache} (h : c'.Stored key (entryOf date now c key r)) {moment : Nat}
    (hlater : now.instant ≤ moment) : WithinLifetime date now r (Cache.lookup moment c' key).1 := by
  have hfresh := freshFor_le date now r.headers
  have hstale := staleFor_cases date now r.headers
  cases hget : c'.map.get? key with
  | none =>
    rw [Cache.lookup, hget]
    trivial
  | some e =>
    obtain ⟨tick, rfl⟩ := h e hget
    rw [lookup_entry hget]
    by_cases hf : moment < now.instant + freshFor date now r.headers
    · rw [if_pos hf]
      change _ < _
      omega
    rw [if_neg hf]
    by_cases hs : moment < now.instant + freshFor date now r.headers + staleFor r.headers
    · rw [if_pos hs]
      change _ < _
      omega
    · rw [if_neg hs]
      trivial

theorem young_of_withinLifetime
    {c c' : Cache} (hget : c'.map.get? key = some (entryOf date now c key r))
    (hserved : freshFor date now r.headers + staleFor r.headers ≠ 0)
    (h : WithinLifetime date now r (Cache.lookup
      (now.instant + (freshFor date now r.headers + staleFor r.headers - 1)) c' key).1) :
    initialAge date now r.headers ≤ lifetime date now r.headers - freshFor date now r.headers := by
  have hfresh := freshFor_le date now r.headers
  have hstale := staleFor_cases date now r.headers
  have hentry : c'.map.get? key = some { entryOf date now c key r with lastRead := c.readTick } :=
    hget
  rw [lookup_entry hentry] at h
  by_cases hf : staleFor r.headers = 0
  · rw [if_pos (by omega)] at h
    change _ < _ at h
    omega
  · rw [if_neg (by omega), if_pos (by omega)] at h
    change _ < _ at h
    omega

/-- **A response outlives its lifetime if it was old on arrival**, and only then. However the cache
is used, what it serves of a response is within the lifetime that the origin gave it, for fresh
serves and stale ones, if and only if the response is never served, or was no older on arrival than
the lifetime here is shorter than the one that the origin gave. -/
theorem within_lifetime_iff (date : HttpDate) (limit : Nat) (now : ClockReading)
    (r : CachedResponse) :
    (∀ (c : Cache) (key : Str) (ops : List Op) (moment : Nat), Expressible limit date now r →
      (∀ op ∈ ops, ¬ op.Stores key) → now.instant ≤ moment → moment ≤ limit →
      WithinLifetime date now r
        (Cache.lookup moment ((c.insert date now key r).run date ops) key).1) ↔
    (Expressible limit date now r → freshFor date now r.headers + staleFor r.headers = 0 ∨
        initialAge date now r.headers ≤
          lifetime date now r.headers - freshFor date now r.headers) := by
  constructor
  · intro h hlimit
    by_cases hserved : freshFor date now r.headers + staleFor r.headers = 0
    · exact .inl hserved
    refine .inr (young_of_withinLifetime (get?_roomFor date now [] r) hserved (h _ [] [] _ hlimit
      (fun op hop => nomatch hop) (Nat.le_add_right _ _) ?_))
    rw [Expressible] at hlimit
    omega
  · intro h c key ops moment hlimit hops hlater _
    exact withinLifetime_of_young (h hlimit) ((stored_insert date now c key r).run date hops) hlater

/-- A page that is fresh for a minute, and comes from another cache that had it for most of it. -/
def relayedPage : CachedResponse where
  origin := 0
  status := 200
  headers := [("Cache-Control".toList, "public, max-age=60".toList), ("Age".toList, "50".toList)]
  body := [42]

theorem relayedPage_outlives :
    ¬ WithinLifetime ⟨fun _ => none, fun _ => []⟩ ⟨0, 0⟩ relayedPage
      (Cache.lookup (58 * second)
        ((new 65536 0).insert ⟨fun _ => none, fun _ => []⟩ ⟨0, 0⟩ [] relayedPage) []).1 := by
  decide

end Cache

end M6
