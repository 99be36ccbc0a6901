import M6.Edge.H2Client

/-!
# The response cache

`cache.rs` of `m6-http`. A response is kept under its path, query and encoding, with the
instants until which it is fresh and may be served stale. `should_cache` and
`request_permits_storage` decide what is kept, `strip_set_cookie` what of it.

Later modules use the cache through `Holds`: what an operation leaves in it was there before,
or is what was inserted (`holds_insert`, `holds_lookup`, `holds_evictPath`).
-/

namespace M6

/-! ## Directives -/

def isNamed (name : String) (f : Str × Str) : Bool := Text.eqIgnoreAsciiCase f.1 name.toList

/-- One directive of a list: its name in lower case and its value without quotes. -/
def directive (raw : Str) : Option (Str × Option Str) :=
  match Text.trim raw with
  | [] => none
  | t =>
    match Text.cutAt '=' t with
    | (name, some v) =>
      let v := Text.trim v
      let unquoted :=
        if v.head? = some '"' ∧ 2 ≤ v.length ∧ v.getLast? = some '"' then v.tail.dropLast else v
      some (Text.toAsciiLowercase (Text.trim name), some unquoted)
    | (_, none) => some (Text.toAsciiLowercase t, none)

/-- A field value that is being split at its commas. -/
structure Splitter where
  out : List (Str × Option Str)
  cur : Str
  inQuotes : Bool
  escaped : Bool

def Splitter.cut (s : Splitter) : Splitter :=
  { s with out := s.out ++ (directive s.cur).toList, cur := [] }

/-- One more character. A comma inside quotes does not split. -/
def Splitter.push (s : Splitter) (c : Char) : Splitter :=
  if c = '\\' ∧ s.inQuotes ∧ !s.escaped then { s with escaped := true, cur := s.cur ++ [c] }
  else if c = '"' ∧ !s.escaped then { s with inQuotes := !s.inQuotes, cur := s.cur ++ [c] }
  else if c = ',' ∧ !s.inQuotes then s.cut
  else { s with escaped := false, cur := s.cur ++ [c] }

/-- The directives of a `Cache-Control` value. -/
def splitDirectives (value : Str) : List (Str × Option Str) :=
  (value.foldl Splitter.push ⟨[], [], false, false⟩).cut.out

def directiveSecs (v : Option Str) : Option Nat := v.bind fun v => parseUsize (Text.trim v)

/-- What `Cache-Control` says, over all its field lines. -/
structure CacheControl where
  noStore : Bool
  noCache : Bool
  isPrivate : Bool
  isPublic : Bool
  mustRevalidate : Bool
  maxAge : Option Nat
  sMaxage : Option Nat
  staleWhileRevalidate : Option Nat
  deriving DecidableEq

def CacheControl.add (cc : CacheControl) (d : Str × Option Str) : CacheControl :=
  if d.1 = "no-store".toList then { cc with noStore := true }
  else if d.1 = "no-cache".toList then { cc with noCache := true }
  else if d.1 = "private".toList then { cc with isPrivate := true }
  else if d.1 = "public".toList then { cc with isPublic := true }
  else if d.1 = "must-revalidate".toList then { cc with mustRevalidate := true }
  else if d.1 = "max-age".toList then { cc with maxAge := directiveSecs d.2 }
  else if d.1 = "s-maxage".toList then { cc with sMaxage := directiveSecs d.2 }
  else if d.1 = "stale-while-revalidate".toList then
    { cc with staleWhileRevalidate := directiveSecs d.2 }
  else cc

/-- Every directive of the `Cache-Control` lines. -/
def cacheDirectives (headers : List (Str × Str)) : List (Str × Option Str) :=
  (headers.filter (isNamed "cache-control")).flatMap fun f => splitDirectives f.2

def CacheControl.parse (headers : List (Str × Str)) : CacheControl :=
  (cacheDirectives headers).foldl CacheControl.add
    ⟨false, false, false, false, false, none, none, none⟩

structure RequestDirectives where
  noCache : Bool
  maxAge : Option Nat
  /-- how stale a response may be; `some none` is any -/
  maxStale : Option (Option Nat)
  minFresh : Option Nat
  onlyIfCached : Bool

def RequestDirectives.add (r : RequestDirectives) (d : Str × Option Str) : RequestDirectives :=
  if d.1 = "no-cache".toList then { r with noCache := true }
  else if d.1 = "max-age".toList then { r with maxAge := directiveSecs d.2 }
  else if d.1 = "min-fresh".toList then { r with minFresh := directiveSecs d.2 }
  else if d.1 = "max-stale".toList then { r with maxStale := some (directiveSecs d.2) }
  else if d.1 = "only-if-cached".toList then { r with onlyIfCached := true }
  else r

/-- A request's directives. `Pragma` counts where there is no `Cache-Control`. -/
def RequestDirectives.parse (headers : List (Str × Str)) : RequestDirectives :=
  let r := (cacheDirectives headers).foldl RequestDirectives.add ⟨false, none, none, none, false⟩
  if headers.any (isNamed "cache-control") then r
  else if headers.any fun f => isNamed "pragma" f &&
      (f.2.splitOn ',').any fun t => Text.eqIgnoreAsciiCase (Text.trim t) "no-cache".toList then
    { r with noCache := true }
  else r

/-! ## What may be stored -/

def methodMayWriteCache (method : Str) : Bool := method == "GET".toList

def statusIsStorable (status : Nat) : Bool :=
  [200, 203, 204, 300, 301, 308, 404, 405, 410, 414, 501].contains status

def fieldNames (value : Str) : List Str :=
  ((value.splitOn ',').map Text.trim).filter fun f => f ≠ []

def variesOnlyOnEncoding (f : Str × Str) : Bool :=
  (fieldNames f.2).all fun n => Text.eqIgnoreAsciiCase n "accept-encoding".toList

def shouldCache (status : Nat) (headers : List (Str × Str)) : Bool :=
  let cc := CacheControl.parse headers
  statusIsStorable status && (headers.filter (isNamed "vary")).all variesOnlyOnEncoding &&
    !cc.noStore && !cc.isPrivate && cc.isPublic

def requestPermitsStorage (headers : List (Str × Str)) : Bool :=
    !(CacheControl.parse headers).noStore

/-- The headers of a response, without `Set-Cookie`. -/
def stripSetCookie (headers : List (Str × Str)) : List (Str × Str) :=
  headers.filter fun f => !isNamed "set-cookie" f

/-! ## Keys -/

def barePath (path : Str) : Str := (Text.cutAt '?' path).1

def pathPrefix (path : Str) : Str := barePath path ++ ['\x01']

/-- The key that a response is stored under (`CacheKey::new`). -/
def cacheKey (path : Str) (query : Option Str) (encoding : Str) : Str :=
  pathPrefix path ++ (query.getD [] ++ '\x01' :: encoding)

/-- The key that is looked up: the empty one, which is no entry's, for a request that does not
fit in the buffer. -/
def makeLookupKey (path : Str) (query : Option Str) (encoding : Str) : Str :=
  if (Utf8.encode (barePath path)).length + (Utf8.encode (query.getD [])).length +
      (Utf8.encode encoding).length + 2 ≤ 512 then cacheKey path query encoding
  else []

theorem pathPrefix_cacheKey (path : Str) (query : Option Str) (encoding : Str) :
    pathPrefix path <+: cacheKey path query encoding := List.prefix_append _ _

/-! ## Entries -/

/-- The library for HTTP dates, in seconds since the epoch. -/
structure HttpDate where
  parse : Str → Option Nat
  fmt : Nat → Str

def second : Nat := 1000000000

/-- What the clocks show, in nanoseconds: the monotonic one and the one on the wall. -/
structure ClockReading where
  instant : Nat
  wall : Nat

/-- A response in the cache. `origin` is not a field of the source: it is the number of the
exchange with a backend that the response came from. -/
structure CachedResponse where
  origin : Nat
  status : Nat
  headers : List (Str × Str)
  body : Bytes
  deriving DecidableEq

structure CacheEntry where
  response : CachedResponse
  storedAt : Nat
  upstreamAge : Nat
  expiresAt : Nat
  /-- the instant past which even a stale serve is refused -/
  serveStaleUntil : Nat
  footprint : Nat
  lastRead : Nat

/-- The cache. `readTick` is the process's counter of reads, and `entrySize` the bytes of an
entry's record. -/
structure Cache where
  map : SortedMap Str CacheEntry
  bytes : Nat
  maxBytes : Nat
  entrySize : Nat
  readTick : Nat

inductive CacheLookup where
  | fresh (response : CachedResponse) (age : Nat)
  | stale (response : CachedResponse) (age : Nat)
  | miss

namespace Cache

def dateOf (date : HttpDate) (headers : List (Str × Str)) (name : String) : Option Nat :=
  (header headers name.toList).bind fun v => (date.parse (Text.trim v)).map (· * second)

/-- The lifetime from `Expires`, relative to the response's own `Date`. -/
def expiresLifetime (date : HttpDate) (now : ClockReading) (headers : List (Str × Str)) :
    Option Nat :=
  (dateOf date headers "expires").map fun e => e - (dateOf date headers "date").getD now.wall

/-- How long a response is fresh: its own directive, else `Expires`, else a day; less the
margin of a second by which the refresh is early. -/
def freshFor (date : HttpDate) (now : ClockReading) (headers : List (Str × Str)) : Nat :=
  let cc := CacheControl.parse headers
  let lifetime := if cc.noCache then some 0 else (cc.sMaxage.or cc.maxAge).map (· * second)
  match lifetime.or (expiresLifetime date now headers) with
  | some l => l - second
  | none => 24 * 60 * 60 * second

/-- How long past that it may be served stale. -/
def staleFor (headers : List (Str × Str)) : Nat :=
  let cc := CacheControl.parse headers
  if cc.noCache then 0 else cc.staleWhileRevalidate.getD 0 * second

def initialAge (date : HttpDate) (now : ClockReading) (headers : List (Str × Str)) : Nat :=
  let ageValue := (((header headers "age".toList).bind fun v =>
    parseUsize (Text.trim v)).map (· * second)).getD 0
  let apparentAge := (((header headers "date".toList).bind date.parse).map fun d =>
    now.wall - d * second).getD 0
  max ageValue apparentAge

def entryFootprint (c : Cache) (key : Str) (r : CachedResponse) : Nat :=
  let headers := (r.headers.map fun f =>
    (Utf8.encode f.1).length + (Utf8.encode f.2).length + 2).sum
  (Utf8.encode key).length + r.body.length + headers + c.entrySize

def cutoff (target : Nat) : List (Nat × Nat) → Nat → Nat → Nat
  | [], _, tick => tick
  | e :: rest, held, tick =>
    if held ≤ target then tick else cutoff target rest (held - e.2) (e.1 + 1)

def evictUntilUnder (c : Cache) : Cache :=
  let byTick := (c.map.entries.map fun e => (e.2.lastRead, e.2.footprint)).insertionSort
    fun a b => a.1 ≤ b.1
  let tick := cutoff (c.maxBytes - c.maxBytes / 8) byTick c.bytes 0
  let kept := c.map.filter fun e => tick ≤ e.2.lastRead
  let freed := ((c.map.entries.filter fun e => e.2.lastRead < tick).map fun e => e.2.footprint).sum
  { c with map := kept, bytes := c.bytes - freed }

def insert (date : HttpDate) (now : ClockReading) (c : Cache) (key : Str) (r : CachedResponse) :
    Cache :=
  let expiresAt := now.instant + freshFor date now r.headers
  let entry : CacheEntry :=
    { response := r
      storedAt := now.instant
      upstreamAge := initialAge date now r.headers
      expiresAt := expiresAt
      serveStaleUntil := expiresAt + staleFor r.headers
      footprint := c.entryFootprint key r
      lastRead := c.readTick }
  let freed := ((c.map.get? key).map CacheEntry.footprint).getD 0
  let c := { c with
    map := c.map.insert key entry
    bytes := c.bytes - freed + entry.footprint
    readTick := c.readTick + 1 }
  if c.bytes > c.maxBytes then c.evictUntilUnder else c

/-- Look a key up, fresh or servable though stale. The read is recorded. -/
def lookup (now : Nat) (c : Cache) (key : Str) : CacheLookup × Cache :=
  match c.map.get? key with
  | none => (.miss, c)
  | some e =>
    let c := { c with
      map := c.map.insert key { e with lastRead := c.readTick }
      readTick := c.readTick + 1 }
    let age := e.upstreamAge + (now - e.storedAt)
    if now < e.expiresAt then (.fresh e.response age, c)
    else if now < e.serveStaleUntil then (.stale e.response age, c)
    else (.miss, c)

/-- Whether the client takes a response of this age that is fresh for `left` and stale for
`past` more nanoseconds. -/
def accepts (req : RequestDirectives) (age left past : Nat) (isFresh : Bool) : Bool :=
  (req.maxAge.all fun limit => age / second ≤ limit) &&
    (req.minFresh.all fun limit => limit ≤ left / second) &&
    (isFresh || req.maxStale.all fun limit => limit.all fun limit => past / second ≤ limit)

def lookupWith (now : Nat) (c : Cache) (key : Str) (req : RequestDirectives) :
    CacheLookup × Cache :=
  if req.noCache then (.miss, c)
  else
    let expiresAt := ((c.map.get? key).map CacheEntry.expiresAt).getD 0
    match lookup now c key with
    | (.fresh r age, c) =>
      (if accepts req age (expiresAt - now) (now - expiresAt) true then .fresh r age else .miss, c)
    | (.stale r age, c) =>
      (if accepts req age (expiresAt - now) (now - expiresAt) false then .stale r age else .miss, c)
    | (.miss, c) => (.miss, c)

def evictPath (c : Cache) (path : Str) : Cache :=
  let isVariant := fun e : Str × CacheEntry => decide (pathPrefix path <+: e.1)
  let freed := ((c.map.entries.filter isVariant).map fun e => e.2.footprint).sum
  { c with map := c.map.filter fun e => !isVariant e, bytes := c.bytes - freed }

def clear (c : Cache) : Cache := { c with map := .empty, bytes := 0 }

def new (maxBytes entrySize : Nat) : Cache := ⟨.empty, 0, maxBytes, entrySize, 0⟩

/-! ## What is in it -/

def Holds (c : Cache) (key : Str) (r : CachedResponse) : Prop :=
  ∃ e, c.map.get? key = some e ∧ e.response = r

variable {r : CachedResponse}

theorem not_holds_new {maxBytes entrySize : Nat} {key : Str} :
    ¬ (new maxBytes entrySize).Holds key r := by
  rintro ⟨e, he, -⟩
  cases he

variable {c : Cache}

theorem not_holds_clear {key : Str} : ¬ c.clear.Holds key r := by
  rintro ⟨e, he, -⟩
  cases he

theorem holds_evictUntilUnder {key : Str} (h : c.evictUntilUnder.Holds key r) : c.Holds key r := by
  obtain ⟨e, he, hr⟩ := h
  exact ⟨e, (SortedMap.get?_filter.mp he).1, hr⟩

theorem holds_insert {date : HttpDate} {now : ClockReading} {key k : Str}
    {r r' : CachedResponse} (h : (c.insert date now key r).Holds k r') :
    (k = key ∧ r' = r) ∨ c.Holds k r' := by
  have hput : ∀ {bytes tick : Nat} {e : CacheEntry}, e.response = r →
      Holds { c with map := c.map.insert key e, bytes := bytes, readTick := tick } k r' →
      (k = key ∧ r' = r) ∨ c.Holds k r' := by
    intro bytes tick e hresp hput
    obtain ⟨e', he', hr'⟩ := hput
    simp only [SortedMap.get?_insert] at he'
    split_ifs at he' with hk
    · cases he'
      exact .inl ⟨hk, hr'.symm.trans hresp⟩
    · exact .inr ⟨e', he', hr'⟩
  rw [insert] at h
  split_ifs at h
  · exact hput rfl (holds_evictUntilUnder h)
  · exact hput rfl h

theorem lookup_cases (now : Nat) (c : Cache) (key : Str) :
    (∀ k r, (lookup now c key).2.Holds k r → c.Holds k r) ∧
      ∀ r age, (lookup now c key).1 = .fresh r age ∨ (lookup now c key).1 = .stale r age →
        c.Holds key r := by
  rw [lookup]
  cases he : c.map.get? key with
  | none =>
    refine ⟨fun k r h => h, fun r age h => ?_⟩
    rcases h with h | h <;> cases h
  | some e =>
    have hkeep : ∀ k r, Holds { c with
        map := c.map.insert key { e with lastRead := c.readTick }
        readTick := c.readTick + 1 } k r → c.Holds k r := by
      rintro k r ⟨e', he', rfl⟩
      simp only [SortedMap.get?_insert] at he'
      split_ifs at he' with hk
      · cases he'
        exact ⟨e, hk ▸ he, rfl⟩
      · exact ⟨e', he', rfl⟩
    simp only
    split_ifs
    · refine ⟨hkeep, fun r age h => ?_⟩
      obtain h | h := h
      · cases h
        exact ⟨e, he, rfl⟩
      · cases h
    · refine ⟨hkeep, fun r age h => ?_⟩
      obtain h | h := h
      · cases h
      · cases h
        exact ⟨e, he, rfl⟩
    · refine ⟨hkeep, fun r age h => ?_⟩
      rcases h with h | h <;> cases h

theorem holds_lookupWith (now : Nat) (c : Cache) (key : Str) (req : RequestDirectives) :
    (∀ k r, (lookupWith now c key req).2.Holds k r → c.Holds k r) ∧
      ∀ r age, (lookupWith now c key req).1 = .fresh r age ∨
        (lookupWith now c key req).1 = .stale r age → c.Holds key r := by
  obtain ⟨hkeep, hfound⟩ := lookup_cases now c key
  rw [lookupWith]
  split_ifs
  · refine ⟨fun k r h => h, fun r age h => ?_⟩
    rcases h with h | h <;> cases h
  · split <;> rename_i heq <;> rw [heq] at hkeep hfound
    · refine ⟨hkeep, fun r age h => ?_⟩
      simp only at h
      split_ifs at h
      · obtain h | h := h
        · cases h
          exact hfound _ _ (.inl rfl)
        · cases h
      · rcases h with h | h <;> cases h
    · refine ⟨hkeep, fun r age h => ?_⟩
      simp only at h
      split_ifs at h
      · obtain h | h := h
        · cases h
        · cases h
          exact hfound _ _ (.inr rfl)
      · rcases h with h | h <;> cases h
    · refine ⟨hkeep, fun r age h => ?_⟩
      rcases h with h | h <;> cases h

theorem holds_evictPath {path key : Str}
    (h : (c.evictPath path).Holds key r) : c.Holds key r ∧ ¬ pathPrefix path <+: key := by
  obtain ⟨e, he, hr⟩ := h
  obtain ⟨hget, hkey⟩ := SortedMap.get?_filter.mp he
  exact ⟨⟨e, hget, hr⟩, by simpa using hkey⟩

end Cache

end M6
