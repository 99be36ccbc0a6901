import M6.Edge.CacheRuns
import M6.Lib.Machine

/-!
# The clock of the cache

The instants and durations of `cache.rs` are machine numbers, and a sum that one cannot hold ends
the process. `insert` makes two such sums, for the deadlines of an entry, and `lookup` one, for its
age. `insertChecked` and `lookupChecked` have them as they are in the source; where no sum overflows
they are `insert` and `lookup` (`insertChecked_yields`, `lookupChecked_yields`).
-/

namespace M6

open Failing Machine

/-- What an `Instant` stays below, in nanoseconds: it has `2 ^ 63` seconds. -/
def instantBound : Nat := 2 ^ 63 * second

/-- What a `Duration` stays below. -/
def durationLimit : Nat := 2 ^ 64 * second

namespace Cache

/-! ## With sums that may overflow -/

def store (c : Cache) (key : Str) (entry : CacheEntry) : Cache :=
  let freed := ((c.map.get? key).map CacheEntry.footprint).getD 0
  let c := { c with
    map := c.map.insert key entry
    bytes := c.bytes - freed + entry.footprint
    readTick := c.readTick + 1 }
  if c.bytes > c.maxBytes then c.evictUntilUnder else c

/-- `insert`. -/
def insertChecked (date : HttpDate) (now : ClockReading) (c : Cache) (key : Str)
    (r : CachedResponse) : Except Panic Cache := do
  let expiresAt ← add instantBound now.instant (freshFor date now r.headers)
  let serveStaleUntil ← add instantBound expiresAt (staleFor r.headers)
  .ok (c.store key
    { response := r
      storedAt := now.instant
      upstreamAge := initialAge date now r.headers
      expiresAt := expiresAt
      serveStaleUntil := serveStaleUntil
      footprint := c.entryFootprint key r
      lastRead := c.readTick })

/-- `lookup`. The age is summed up before it is known whether the entry may be served. -/
def lookupChecked (now : Nat) (c : Cache) (key : Str) : Except Panic (CacheLookup × Cache) :=
  match c.map.get? key with
  | none => .ok (.miss, c)
  | some e => do
    let c := { c with
      map := c.map.insert key { e with lastRead := c.readTick }
      readTick := c.readTick + 1 }
    let age ← add durationLimit e.upstreamAge (now - e.storedAt)
    .ok (if now < e.expiresAt then (.fresh e.response age, c)
      else if now < e.serveStaleUntil then (.stale e.response age, c)
      else (.miss, c))

def acceptFound (req : RequestDirectives) (expiresAt now : Nat) :
    CacheLookup × Cache → CacheLookup × Cache
  | (.fresh r age, c) =>
    (if accepts req age (expiresAt - now) (now - expiresAt) true then .fresh r age else .miss, c)
  | (.stale r age, c) =>
    (if accepts req age (expiresAt - now) (now - expiresAt) false then .stale r age else .miss, c)
  | (.miss, c) => (.miss, c)

/-- `lookup_with`. -/
def lookupWithChecked (now : Nat) (c : Cache) (key : Str) (req : RequestDirectives) :
    Except Panic (CacheLookup × Cache) :=
  if req.noCache then .ok (.miss, c)
  else do
    let expiresAt := ((c.map.get? key).map CacheEntry.expiresAt).getD 0
    let found ← lookupChecked now c key
    .ok (acceptFound req expiresAt now found)

theorem insertChecked_yields (date : HttpDate) (now : ClockReading) (c : Cache) (key : Str)
    (r : CachedResponse) : Yields Panic.overflow (insertChecked date now c key r)
      (now.instant + freshFor date now r.headers + staleFor r.headers < instantBound)
      (c.insert date now key r) := by
  rw [insertChecked]
  refine Yields.congr (Yields.bind (add_yields _ _ _) fun _ =>
    Yields.bind_ok (add_yields _ _ _) ?_) ?_
  · rfl
  · exact ⟨fun h => h.2, fun h => ⟨lt_of_le_of_lt (Nat.le_add_right _ _) h, h⟩⟩

theorem lookupChecked_yields (now : Nat) (c : Cache) (key : Str) :
    Yields Panic.overflow (lookupChecked now c key)
      (∀ e, c.map.get? key = some e → e.upstreamAge + (now - e.storedAt) < durationLimit)
      (lookup now c key) := by
  rw [lookupChecked, lookup]
  cases hget : c.map.get? key with
  | none => exact (Yields.of_ok _).congr ⟨fun _ e he => (by cases he), fun _ => trivial⟩
  | some e =>
    refine Yields.congr (Yields.bind_ok (add_yields _ _ _) rfl) ?_
    exact ⟨fun h e' he' => Option.some.inj he' ▸ h, fun h => h e rfl⟩

theorem lookupWith_eq (now : Nat) (c : Cache) (key : Str) (req : RequestDirectives) :
    lookupWith now c key req =
      if req.noCache then (.miss, c)
      else acceptFound req (((c.map.get? key).map CacheEntry.expiresAt).getD 0) now
        (lookup now c key) := by
  rw [lookupWith]
  split_ifs
  · rfl
  · cases lookup now c key with
    | mk found c' => cases found <;> rfl

theorem lookupWithChecked_yields (now : Nat) (c : Cache) (key : Str) (req : RequestDirectives) :
    Yields Panic.overflow (lookupWithChecked now c key req) (req.noCache = false →
        ∀ e, c.map.get? key = some e → e.upstreamAge + (now - e.storedAt) < durationLimit)
      (lookupWith now c key req) := by
  rw [lookupWithChecked, lookupWith_eq]
  cases req.noCache with
  | true => exact (Yields.of_ok _).congr ⟨fun _ h => (nomatch h), fun _ => trivial⟩
  | false =>
    refine Yields.congr (Yields.bind_ok (lookupChecked_yields now c key) rfl) ?_
    exact ⟨fun h _ => h, fun h => h rfl⟩

/-! ## The life of an entry -/

/-- Whatever is in the cache, the response is inserted, and is looked up at some moment, without an
overflow. -/
def Completes (date : HttpDate) (now : ClockReading) (r : CachedResponse) (moment : Nat) : Prop :=
  ∀ (c : Cache) (key : Str), ∃ c', insertChecked date now c key r = .ok c' ∧
    ∀ ops, (∀ op ∈ ops, ¬ Op.Stores key op) →
      (∃ x, lookupChecked moment (c'.run date ops) key = .ok x) ∧
        ∀ req, ∃ x, lookupWithChecked moment (c'.run date ops) key req = .ok x

structure InRange (date : HttpDate) (now : ClockReading) (r : CachedResponse) (moment : Nat) :
    Prop where
  deadlines : now.instant + freshFor date now r.headers + staleFor r.headers < instantBound
  age : initialAge date now r.headers + (moment - now.instant) < durationLimit

instance (date : HttpDate) (now : ClockReading) (r : CachedResponse) (moment : Nat) :
    Decidable (InRange date now r moment) :=
  decidable_of_iff (_ ∧ _) ⟨fun h => ⟨h.1, h.2⟩, fun h => ⟨h.deadlines, h.age⟩⟩

theorem completes_of_inRange {date : HttpDate} {now : ClockReading} {r : CachedResponse}
    {moment : Nat} (h : InRange date now r moment) : Completes date now r moment := by
  intro c key
  refine ⟨_, (insertChecked_yields date now c key r).ok h.deadlines, fun ops hops => ?_⟩
  have hage : ∀ e, ((c.insert date now key r).run date ops).map.get? key = some e →
      e.upstreamAge + (moment - e.storedAt) < durationLimit := by
    intro e he
    obtain ⟨tick, rfl⟩ := (stored_insert date now c key r).run date hops e he
    exact h.age
  exact ⟨⟨_, (lookupChecked_yields moment _ key).ok hage⟩,
    fun req => ⟨_, (lookupWithChecked_yields moment _ key req).ok fun _ => hage⟩⟩

theorem inRange_of_completes {date : HttpDate} {now : ClockReading} {r : CachedResponse}
    {moment : Nat} (h : Completes date now r moment) : InRange date now r moment := by
  obtain ⟨c', hinsert, hlater⟩ := h (roomFor [] r) []
  obtain ⟨hdeadlines, rfl⟩ := (insertChecked_yields date now _ [] r).eq_ok_iff.mp hinsert
  obtain ⟨x, hx⟩ := (hlater [] fun op hop => nomatch hop).1
  have hage := ((lookupChecked_yields moment _ []).eq_ok_iff.mp hx).1
  exact ⟨hdeadlines, hage _ (get?_roomFor date now [] r)⟩

/-- **No sum overflows** while a response is inserted and looked up, if and only if its deadlines
are instants and its age is a duration. -/
theorem completes_iff (date : HttpDate) (now : ClockReading) (r : CachedResponse) (moment : Nat) :
    Completes date now r moment ↔ InRange date now r moment :=
  ⟨inRange_of_completes, completes_of_inRange⟩

def responseWith (name value : String) : CachedResponse :=
  ⟨0, 200, [(name.toList, value.toList)], []⟩

/-- A lifetime of `2 ^ 64 - 1` seconds ends the process when the response comes, an age of as many
when it is looked up a second later. -/
theorem largest_numbers_overflow :
    ¬ Completes ⟨fun _ => none, fun _ => []⟩ ⟨0, 0⟩
        (responseWith "Cache-Control" "public, max-age=18446744073709551615") 0 ∧
      ¬ Completes ⟨fun _ => none, fun _ => []⟩ ⟨0, 0⟩
        (responseWith "Age" "18446744073709551615") second := by
  constructor
  · refine fun h => absurd (inRange_of_completes h).deadlines ?_
    decide
  · refine fun h => absurd (inRange_of_completes h).age ?_
    decide

end Cache

end M6
