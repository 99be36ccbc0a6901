import M6.Edge.CacheRuns

/-!
# What a client asks of the cache

`lookup_with` of `cache.rs`: a lookup that honours the directives of the request. The freshness that
is left of an entry is taken to be zero where the entry is stale, so that `min-fresh=0` lets a stale
response through; `honoured_iff` says that nothing else goes wrong.
-/

namespace M6

open Option

/-! ## Entries -/

def CacheEntry.age (e : CacheEntry) (now : Nat) : Nat := e.upstreamAge + (now - e.storedAt)

def CacheEntry.serve (e : CacheEntry) (now : Nat) : CacheLookup :=
  if now < e.expiresAt then .fresh e.response (e.age now)
  else if now < e.serveStaleUntil then .stale e.response (e.age now)
  else .miss

def CacheEntry.serveWith (e : CacheEntry) (now : Nat) (req : RequestDirectives) : CacheLookup :=
  if req.noCache then .miss
  else if now < e.expiresAt then
    if Cache.accepts req (e.age now) (e.expiresAt - now) (now - e.expiresAt) true then
      .fresh e.response (e.age now)
    else .miss
  else if now < e.serveStaleUntil then
    if Cache.accepts req (e.age now) (e.expiresAt - now) (now - e.expiresAt) false then
      .stale e.response (e.age now)
    else .miss
  else .miss

/-- The entry satisfies what the client asks for. A stale one is fresh for no time at all, not even
for none. -/
structure RequestDirectives.SatisfiedBy (req : RequestDirectives) (e : CacheEntry) (now : Nat) :
    Prop where
  reusable : req.noCache = false
  young : ∀ limit, req.maxAge = some limit → e.age now / second ≤ limit
  fresh : ∀ limit, req.minFresh = some limit →
    now < e.expiresAt ∧ limit ≤ (e.expiresAt - now) / second
  stale : ∀ limit, req.maxStale = some (some limit) → (now - e.expiresAt) / second ≤ limit

/-- The entry is stale and may be served, and the client asks for no freshness in particular but for
some (`min-fresh=0`). -/
structure RequestDirectives.AsksForNone (req : RequestDirectives) (e : CacheEntry) (now : Nat) :
    Prop where
  expired : e.expiresAt ≤ now
  servable : now < e.serveStaleUntil
  reusable : req.noCache = false
  young : ∀ limit, req.maxAge = some limit → e.age now / second ≤ limit
  fresh : req.minFresh = some 0
  stale : ∀ limit, req.maxStale = some (some limit) → (now - e.expiresAt) / second ≤ limit

theorem all_eq_true_iff {α : Type} {o : Option α} {p : α → Bool} :
    o.all p = true ↔ ∀ a, o = some a → p a = true := by
  cases o <;> simp

namespace Cache

variable {req : RequestDirectives} {e : CacheEntry} {now : Nat}

theorem accepts_fresh_iff (hfresh : now < e.expiresAt) (hreuse : req.noCache = false) :
    accepts req (e.age now) (e.expiresAt - now) (now - e.expiresAt) true = true ↔
      req.SatisfiedBy e now := by
  rw [accepts, Bool.and_eq_true, Bool.and_eq_true, Bool.true_or, all_eq_true_iff, all_eq_true_iff]
  simp only [decide_eq_true_eq, and_true]
  constructor
  · rintro ⟨hage, hmin⟩
    refine ⟨hreuse, hage, fun limit h => ⟨hfresh, hmin limit h⟩, fun limit _ => ?_⟩
    rw [Nat.sub_eq_zero_of_le hfresh.le]
    exact Nat.zero_le _
  · intro h
    exact ⟨h.young, fun limit hlimit => (h.fresh limit hlimit).2⟩

/-- A stale one is accepted if it satisfies the client, or as much as that for `min-fresh=0`. -/
theorem accepts_stale_iff (hstale : e.expiresAt ≤ now) (hserve : now < e.serveStaleUntil)
    (hreuse : req.noCache = false) :
    accepts req (e.age now) (e.expiresAt - now) (now - e.expiresAt) false = true ↔
      req.SatisfiedBy e now ∨ req.AsksForNone e now := by
  rw [accepts, Bool.and_eq_true, Bool.and_eq_true, Bool.false_or, all_eq_true_iff, all_eq_true_iff,
    all_eq_true_iff, Nat.sub_eq_zero_of_le hstale]
  simp only [decide_eq_true_eq, Nat.zero_div, Nat.le_zero, all_eq_true_iff]
  constructor
  · rintro ⟨⟨hage, hmin⟩, hmax⟩
    have hmax' : ∀ limit, req.maxStale = some (some limit) →
        (now - e.expiresAt) / second ≤ limit := fun limit h => hmax _ h limit rfl
    cases hfresh : req.minFresh with
    | none => exact .inl ⟨hreuse, hage, fun limit h => (nomatch hfresh.symm.trans h), hmax'⟩
    | some limit =>
      obtain rfl := hmin limit hfresh
      exact .inr ⟨hstale, hserve, hreuse, hage, hfresh, hmax'⟩
  · rintro (h | h)
    · refine ⟨⟨h.young, fun limit hlimit => ?_⟩, fun _ hm limit hlimit => ?_⟩
      · exact absurd (h.fresh limit hlimit).1 (not_lt.mpr hstale)
      · exact h.stale limit (hlimit ▸ hm)
    · refine ⟨⟨h.young, fun limit hlimit => ?_⟩, fun _ hm limit hlimit => ?_⟩
      · exact (some.inj (h.fresh.symm.trans hlimit)).symm
      · exact h.stale limit (hlimit ▸ hm)

/-- Where the client does not ask for `min-fresh=0` only, it is served as any, if it is satisfied.
-/
theorem serveWith_cases (h : ¬ req.AsksForNone e now) :
    (req.SatisfiedBy e now → e.serveWith now req = e.serve now) ∧
      (¬ req.SatisfiedBy e now → e.serveWith now req = .miss) := by
  rw [CacheEntry.serveWith, CacheEntry.serve]
  cases hreuse : req.noCache with
  | true => exact ⟨fun hsat => (nomatch hreuse.symm.trans hsat.reusable), fun _ => rfl⟩
  | false =>
    rw [if_neg Bool.false_ne_true]
    by_cases hfresh : now < e.expiresAt
    · rw [if_pos hfresh, if_pos hfresh]
      refine ⟨fun hsat => if_pos ((accepts_fresh_iff hfresh hreuse).mpr hsat), fun hno => if_neg ?_⟩
      exact mt (accepts_fresh_iff hfresh hreuse).mp hno
    rw [if_neg hfresh, if_neg hfresh]
    by_cases hserve : now < e.serveStaleUntil
    · have haccept := accepts_stale_iff (not_lt.mp hfresh) hserve hreuse
      rw [or_iff_left h] at haccept
      rw [if_pos hserve, if_pos hserve]
      exact ⟨fun hsat => if_pos (haccept.mpr hsat), fun hno => if_neg (mt haccept.mp hno)⟩
    · rw [if_neg hserve, if_neg hserve]
      exact ⟨fun _ => rfl, fun _ => rfl⟩

/-! ## Lookups -/

theorem response_of_serve {r : CachedResponse} {age : Nat}
    (h : e.serve now = .fresh r age ∨ e.serve now = .stale r age) :
    e.response = r ∧ e.age now = age := by
  rw [CacheEntry.serve] at h
  split_ifs at h
  · exact h.elim CacheLookup.fresh.inj fun h => nomatch h
  · exact h.elim (fun h => nomatch h) CacheLookup.stale.inj
  · exact h.elim (fun h => nomatch h) fun h => nomatch h

theorem lookup_fst (now : Nat) (c : Cache) (key : Str) :
    (lookup now c key).1 = ((c.map.get? key).map fun e => e.serve now).getD .miss := by
  rw [lookup]
  cases c.map.get? key with
  | none => rfl
  | some e =>
    simp only [map_some, getD_some, CacheEntry.serve]
    split_ifs <;> rfl

theorem lookupWith_fst (now : Nat) (c : Cache) (key : Str) (req : RequestDirectives) :
    (lookupWith now c key req).1 =
      ((c.map.get? key).map fun e => e.serveWith now req).getD .miss := by
  have hlookup := lookup_fst now c key
  rw [lookupWith]
  cases hget : c.map.get? key with
  | none =>
    rw [lookup, hget]
    split_ifs <;> rfl
  | some e =>
    rw [hget] at hlookup
    simp only [map_some, getD_some, CacheEntry.serve, CacheEntry.serveWith] at hlookup ⊢
    cases hfound : lookup now c key with
    | mk found c' =>
      rw [hfound] at hlookup
      dsimp only at hlookup ⊢
      subst hlookup
      split_ifs with hno hfresh haccept hserve haccept
      · rfl
      · simp [haccept]
      · simp [haccept]
      · simp [haccept]
      · simp [haccept]
      · rfl

/-- What comes of a lookup is what the client asks for: what is returned satisfies it, and what
satisfies it is returned if a lookup would return it. -/
structure Honours (now : Nat) (c : Cache) (key : Str) (req : RequestDirectives) : Prop where
  returned : ∀ r age,
    (lookupWith now c key req).1 = .fresh r age ∨ (lookupWith now c key req).1 = .stale r age →
    (lookupWith now c key req).1 = (lookup now c key).1 ∧
      ∃ e, c.map.get? key = some e ∧ e.response = r ∧ e.age now = age ∧ req.SatisfiedBy e now
  complete : ∀ e, c.map.get? key = some e → req.SatisfiedBy e now →
    (lookupWith now c key req).1 = (lookup now c key).1

/-- A stale entry is served to a client that asks for `min-fresh=0`. -/
theorem not_honours {c : Cache} {key : Str} (he : c.map.get? key = some e)
    (hasks : req.AsksForNone e now) : ¬ Honours now c key req := by
  intro h
  have hserved : (lookupWith now c key req).1 = .stale e.response (e.age now) := by
    rw [lookupWith_fst, he, map_some, getD_some, CacheEntry.serveWith, hasks.reusable,
      if_neg Bool.false_ne_true, if_neg (not_lt.mpr hasks.expired), if_pos hasks.servable,
      if_pos ((accepts_stale_iff hasks.expired hasks.servable hasks.reusable).mpr (.inr hasks))]
  obtain ⟨-, e', he', -, -, hsat⟩ := h.returned _ _ (.inr hserved)
  cases he.symm.trans he'
  exact absurd (hsat.fresh 0 hasks.fresh).1 (not_lt.mpr hasks.expired)

/-- **A client's directives are honoured** if and only if it does not ask for `min-fresh=0` of an
entry that is stale, may be served, and satisfies all else. -/
theorem honours_iff (now : Nat) (c : Cache) (key : Str) (req : RequestDirectives) :
    Honours now c key req ↔ ∀ e, c.map.get? key = some e → ¬ req.AsksForNone e now := by
  constructor
  · exact fun h e he hasks => not_honours he hasks h
  · intro h
    refine ⟨fun r age hfound => ?_, fun e he hsat => ?_⟩
    · cases hget : c.map.get? key with
      | none =>
        rw [lookupWith_fst, hget] at hfound
        rcases hfound with hfound | hfound <;> exact nomatch hfound
      | some e =>
        obtain ⟨hserved, hmiss⟩ := serveWith_cases (h e hget)
        rw [lookupWith_fst, hget, map_some, getD_some] at hfound ⊢
        by_cases hsat : req.SatisfiedBy e now
        · rw [hserved hsat] at hfound ⊢
          rw [lookup_fst, hget]
          exact ⟨rfl, e, rfl, (response_of_serve hfound).1, (response_of_serve hfound).2, hsat⟩
        · rw [hmiss hsat] at hfound
          rcases hfound with hfound | hfound <;> exact nomatch hfound
    · rw [lookupWith_fst, lookup_fst, he]
      exact (serveWith_cases (h e he)).1 hsat

/-- A page that may be served stale for a minute after its first. -/
def lingeringPage : CachedResponse where
  origin := 0
  status := 200
  headers := [("Cache-Control".toList,
    "public, max-age=60, stale-while-revalidate=60".toList)]
  body := [42]

/-- It is served stale to a client that asks for `min-fresh=0`, as it asks for a fresh one. -/
theorem lingeringPage_served : ¬ Honours (90 * second)
      ((roomFor [] lingeringPage).insert ⟨fun _ => none, fun _ => []⟩ ⟨0, 0⟩ [] lingeringPage) []
      ⟨false, none, none, some 0, false⟩ :=
  not_honours (get?_roomFor _ ⟨0, 0⟩ [] lingeringPage)
    { expired := by decide
      servable := by decide
      reusable := rfl
      young := nofun
      fresh := rfl
      stale := nofun }

end Cache

end M6
