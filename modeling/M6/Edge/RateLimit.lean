import Mathlib.Data.List.Dedup
import M6.Core.Responder
import M6.Edge.Pool
import M6.Lib.History
import M6.Lib.Machine

/-!
# The rate limiter of the edge

`RateLimiter` of `rate_limit.rs`: one table for all addresses, a window of a minute for each, and a
sweep of the windows that are over once the table has grown large.

What an address is told depends on its own requests alone, as long as the process lives
(`answers_eq`). The count of a window is a `u32`, and to count further than it goes ends the
process: `limits_iff` says when it comes to that. The sweep bounds the table no better than the
number of the windows that are open (`tableBounded_iff`).
-/

namespace M6.RateLimit

open List Machine Option SortedMap

/-! ## The limiter -/

/-- `WINDOW_SECS`, in nanoseconds. -/
def window : Nat := 60 * nanos

theorem window_pos : 0 < window := by decide

def maxTrackedIps : Nat := 50000

/-- A call of the limiter. -/
structure Request where
  ip : Str
  now : Instant
  limitPerMin : UInt32

/-- For each address its count, and when its window began. -/
structure RateLimiter where
  map : SortedMap Str (Nat × Instant)

namespace RateLimiter

def new : RateLimiter := ⟨.empty⟩

/-- The windows that are over are dropped once the table is large. -/
def sweep (rl : RateLimiter) (now : Instant) : RateLimiter :=
  if maxTrackedIps < rl.map.entries.length then ⟨rl.map.filter fun e => now - e.2.2 < window⟩
  else rl

/-- Record a request and say whether it is over the limit. The count is a `u32`. -/
def checkAndIncrement (rl : RateLimiter) (r : Request) : Except Panic (Bool × RateLimiter) := do
  let rl := rl.sweep r.now
  let entry := (rl.map.get? r.ip).getD (0, r.now)
  let entry := if window ≤ r.now - entry.2 then (0, r.now) else entry
  let count ← add (2 ^ 32) entry.1 1
  .ok (r.limitPerMin.toNat < count, ⟨rl.map.insert r.ip (count, entry.2)⟩)

/-- What each of some requests is told: nothing, once the process has ended. -/
def answers (rl : RateLimiter) : List Request → List (Option Bool)
  | [] => []
  | r :: rs =>
    match rl.checkAndIncrement r with
    | .ok (refused, rl) => some refused :: answers rl rs
    | .error _ => none :: rs.map fun _ => none

def after (rl : RateLimiter) : List Request → Except Panic RateLimiter
  | [] => .ok rl
  | r :: rs => do
    let (_, rl) ← rl.checkAndIncrement r
    rl.after rs

end RateLimiter

/-! ## Windows -/

/-- A request of an address comes: its place in the window, and when that began. -/
def enter (w : Option (Nat × Instant)) (now : Instant) : Nat × Instant :=
  match w with
  | some (count, start) => if window ≤ now - start then (1, now) else (count + 1, start)
  | none => (1, now)

def lastWindow (ip : Str) (rs : List Request) : Option (Nat × Instant) :=
  rs.foldl (fun w r => if r.ip = ip then some (enter w r.now) else w) none

def place (before : List Request) (r : Request) : Nat := (enter (lastWindow r.ip before) r.now).1

def IsOpen (now : Instant) (w : Option (Nat × Instant)) : Prop := ∃ e ∈ w, now - e.2 < window

theorem lastWindow_concat (ip : Str) (before : List Request) (r : Request) :
    lastWindow ip (before ++ [r]) =
      if r.ip = ip then some (enter (lastWindow ip before) r.now) else lastWindow ip before := by
  simp only [lastWindow, foldl_append, foldl_cons, foldl_nil]

theorem lastWindow_filter (ip : Str) (rs : List Request) :
    lastWindow ip (rs.filter fun r => r.ip = ip) = lastWindow ip rs := by
  rw [lastWindow, lastWindow, foldl_filter]
  congr 1
  funext w r
  by_cases h : r.ip = ip <;> simp [h]

variable {r : Request}

theorem place_filter {ip : Str} (h : r.ip = ip) (before : List Request) :
    place (before.filter fun r => r.ip = ip) r = place before r := by
  rw [place, place, h, lastWindow_filter]

variable {now : Instant}

theorem enter_of_not_isOpen {w : Option (Nat × Instant)} (h : ¬ IsOpen now w) :
    enter w now = (1, now) := by
  cases w with
  | none => rfl
  | some e =>
    have hover : window ≤ now - e.2 := Nat.not_lt.mp fun hlt => h ⟨e, rfl, hlt⟩
    simp only [enter, if_pos hover]

/-! ## The table and the windows -/

def Knows (rl : RateLimiter) (rs : List Request) (now : Instant) : Prop :=
  ∀ ip, rl.map.get? ip = lastWindow ip rs ∨
    (rl.map.get? ip = none ∧ ¬ IsOpen now (lastWindow ip rs))

theorem knows_new (now : Instant) : Knows .new [] now := fun _ => .inl rfl

variable {rs : List Request} {rl : RateLimiter}

theorem Knows.mono {now later : Instant}
    (h : Knows rl rs now) (hle : now ≤ later) : Knows rl rs later := by
  refine fun ip => (h ip).imp id (And.imp id fun hnot => ?_)
  rintro ⟨e, he, hlt⟩
  exact hnot ⟨e, he, (Nat.sub_le_sub_right hle _).trans_lt hlt⟩

theorem Knows.sweep {now later : Instant}
    (h : Knows rl rs now) (hle : now ≤ later) : Knows (rl.sweep later) rs later := by
  have hkept := h.mono hle
  rw [RateLimiter.sweep]
  split_ifs with hlarge
  · intro ip
    obtain hget | ⟨hget, hnot⟩ := hkept ip
    · cases hw : rl.map.get? ip with
      | none =>
        left
        rw [← hget, hw]
        refine eq_none_iff_forall_ne_some.mpr fun e he => ?_
        cases hw.symm.trans (get?_filter.mp he).1
      | some e =>
        by_cases hlt : later - e.2 < window
        · left
          rw [← hget, hw]
          exact get?_filter.mpr ⟨hw, decide_eq_true hlt⟩
        · right
          refine ⟨eq_none_iff_forall_ne_some.mpr fun e' he' => ?_, ?_⟩
          · obtain ⟨he', hkeep⟩ := get?_filter.mp he'
            cases hw.symm.trans he'
            exact hlt (of_decide_eq_true hkeep)
          · rintro ⟨e', he', hlt'⟩
            rw [← hget, hw] at he'
            cases he'
            exact hlt hlt'
    · refine .inr ⟨eq_none_iff_forall_ne_some.mpr fun e he => ?_, hnot⟩
      cases hget.symm.trans (get?_filter.mp he).1
  · exact hkept

theorem checkAndIncrement_eq (h : Knows rl rs now) (hle : now ≤ r.now) : rl.checkAndIncrement r =
      (add (2 ^ 32) (place rs r - 1) 1).bind fun count =>
        .ok (decide (r.limitPerMin.toNat < count),
          ⟨(rl.sweep r.now).map.insert r.ip (count, (enter (lastWindow r.ip rs) r.now).2)⟩) := by
  have hentry : (if window ≤ r.now - (((rl.sweep r.now).map.get? r.ip).getD (0, r.now)).2 then
        (0, r.now) else ((rl.sweep r.now).map.get? r.ip).getD (0, r.now)) =
      (place rs r - 1, (enter (lastWindow r.ip rs) r.now).2) := by
    rw [place]
    obtain hget | ⟨hget, hnot⟩ := h.sweep hle r.ip
    · rw [hget]
      cases lastWindow r.ip rs with
      | none => simp [enter]
      | some e =>
        simp only [getD_some, enter]
        split_ifs <;> rfl
    · rw [hget, enter_of_not_isOpen hnot]
      simp
  simp only [RateLimiter.checkAndIncrement, hentry]
  rfl

theorem place_pos (rs : List Request) (r : Request) : 0 < place rs r := by
  rw [place]
  cases lastWindow r.ip rs with
  | none => exact Nat.one_pos
  | some e =>
    simp only [enter]
    split_ifs <;> simp

/-- **One request**: the limiter compares its place in the window with the limit, and ends the
process at the place that the count cannot reach. -/
theorem check_cases (h : Knows rl rs now) (hle : now ≤ r.now) :
    (place rs r < 2 ^ 32 ∧ ∃ rl', rl.checkAndIncrement r =
        .ok (decide (r.limitPerMin.toNat < place rs r), rl') ∧
          rl'.map = (rl.sweep r.now).map.insert r.ip (enter (lastWindow r.ip rs) r.now) ∧
          Knows rl' (rs ++ [r]) r.now) ∨
      (2 ^ 32 ≤ place rs r ∧ rl.checkAndIncrement r = .error .overflow) := by
  have hpos := place_pos rs r
  have hsum : place rs r - 1 + 1 = place rs r := Nat.sub_add_cancel hpos
  rw [checkAndIncrement_eq h hle]
  by_cases hlt : place rs r < 2 ^ 32
  · left
    rw [add_ok (by rw [hsum]; exact hlt), hsum]
    refine ⟨hlt, _, rfl, rfl, fun ip => ?_⟩
    rw [lastWindow_concat]
    change ((rl.sweep r.now).map.insert r.ip (enter (lastWindow r.ip rs) r.now)).get? ip = _ ∨
      ((rl.sweep r.now).map.insert r.ip (enter (lastWindow r.ip rs) r.now)).get? ip = none ∧ _
    rw [get?_insert]
    by_cases hip : r.ip = ip
    · rw [if_pos hip, if_pos hip.symm, ← hip]
      exact .inl rfl
    · rw [if_neg hip, if_neg fun heq => hip heq.symm]
      exact h.sweep hle ip
  · right
    rw [add_overflow (by rw [hsum]; exact Nat.not_lt.mp hlt)]
    exact ⟨Nat.not_lt.mp hlt, rfl⟩

/-! ## Verdicts -/

/-- Requests as they come: time does not go back. -/
structure Requests where
  items : List Request
  inOrder : items.Pairwise fun a b => a.now ≤ b.now

def verdicts : List Request → List Request → List Bool
  | _, [] => []
  | before, r :: rs => (r.limitPerMin.toNat < place before r) :: verdicts (before ++ [r]) rs

theorem answers_eq {before rs : List Request}
    (h : Knows rl before now) (hle : ∀ r ∈ rs, now ≤ r.now)
    (hord : rs.Pairwise fun a b => a.now ≤ b.now)
    (hplace : History.Each (fun pre r => place (before ++ pre) r < 2 ^ 32) rs) :
    rl.answers rs = (verdicts before rs).map some := by
  induction rs generalizing rl before now with
  | nil => rfl
  | cons r rs ih =>
    obtain ⟨hfirst, hrest⟩ := pairwise_cons.mp hord
    have hr : place (before ++ []) r < 2 ^ 32 := hplace [] r rs rfl
    rw [append_nil] at hr
    obtain ⟨-, rl', hcheck, -, hknows⟩ | ⟨hover, -⟩ := check_cases h (hle r mem_cons_self)
    · simp only [RateLimiter.answers, hcheck, verdicts, map_cons]
      rw [ih hknows hfirst hrest fun pre q post heq => ?_]
      have hq : place (before ++ r :: pre) q < 2 ^ 32 :=
        hplace (r :: pre) q post (by rw [heq, cons_append])
      rwa [← singleton_append, ← append_assoc] at hq
    · exact absurd hr (Nat.not_lt.mpr hover)

theorem place_lt_of_answered {before pre post : List Request} {v : Bool} (h : Knows rl before now)
    (hle : ∀ q ∈ pre ++ r :: post, now ≤ q.now)
    (hord : (pre ++ r :: post).Pairwise fun a b => a.now ≤ b.now)
    (ha : (rl.answers (pre ++ r :: post))[pre.length]? = some (some v)) :
    place (before ++ pre) r < 2 ^ 32 := by
  induction pre generalizing rl before now with
  | nil =>
    rw [append_nil]
    obtain ⟨hlt, -⟩ | ⟨-, hcheck⟩ := check_cases h (hle r (by simp))
    · exact hlt
    · simp [RateLimiter.answers, hcheck] at ha
  | cons q pre ih =>
    obtain ⟨hfirst, hrest⟩ := pairwise_cons.mp hord
    obtain ⟨-, rl', hcheck, -, hknows⟩ | ⟨-, hcheck⟩ := check_cases h (hle q (by simp))
    · simp only [cons_append, RateLimiter.answers, hcheck, length_cons, getElem?_cons_succ] at ha
      have hlater := ih hknows hfirst hrest ha
      rwa [append_assoc, singleton_append] at hlater
    · simp only [cons_append, RateLimiter.answers, hcheck, length_cons,
        getElem?_cons_succ, getElem?_map] at ha
      cases (pre ++ r :: post)[pre.length]? <;> simp at ha

/-! ## The window of an address -/

def Opens (before : List Request) (opener : Request) : Prop :=
  ¬ IsOpen opener.now (lastWindow opener.ip before)

def countOf (ip : Str) (rs : List Request) : Nat := rs.countP fun r => r.ip = ip

theorem exists_opener {ip : Str} {count : Nat} {start : Instant}
    (h : lastWindow ip rs = some (count, start)) :
    ∃ before opener within, rs = before ++ opener :: within ∧ opener.ip = ip ∧
      Opens before opener ∧ opener.now = start ∧ countOf ip (opener :: within) = count := by
  induction rs using reverseRecOn generalizing count start with
  | nil => cases h
  | append_singleton rs r ih =>
    rw [lastWindow_concat] at h
    by_cases hip : r.ip = ip
    · rw [if_pos hip] at h
      by_cases hopen : IsOpen r.now (lastWindow ip rs)
      · -- the window goes on
        obtain ⟨⟨count', start'⟩, hlast, hlt⟩ := hopen
        obtain ⟨before, opener, within, rfl, hopener, hopens, hstart, hcount⟩ := ih hlast
        rw [mem_def.mp hlast] at h
        simp only [enter, if_neg (Nat.not_le.mpr hlt), some.injEq, Prod.mk.injEq] at h
        refine ⟨before, opener, within ++ [r], by simp, hopener, hopens, hstart.trans h.2, ?_⟩
        rw [← h.1, ← hcount, countOf, countOf, ← cons_append, countP_append]
        simp [hip]
      · rw [enter_of_not_isOpen hopen] at h
        simp only [some.injEq, Prod.mk.injEq] at h
        refine ⟨rs, r, [], rfl, hip, ?_, h.2, ?_⟩
        · rw [Opens, hip]
          exact hopen
        · rw [← h.1]
          simp [countOf, hip]
    · rw [if_neg hip] at h
      obtain ⟨before, opener, within, rfl, hopener, hopens, hstart, hcount⟩ := ih h
      refine ⟨before, opener, within ++ [r], by simp, hopener, hopens, hstart, ?_⟩
      rw [← hcount, countOf, countOf, ← cons_append, countP_append]
      simp [hip]

theorem lastWindow_of_opens {before within : List Request} {opener : Request}
    (h : Opens before opener) (hwithin : ∀ r ∈ within, r.now - opener.now < window) :
    lastWindow opener.ip (before ++ opener :: within) =
      some (countOf opener.ip (opener :: within), opener.now) := by
  induction within using reverseRecOn with
  | nil =>
    rw [lastWindow_concat, if_pos rfl, enter_of_not_isOpen h]
    simp [countOf]
  | append_singleton within r ih =>
    have hlast := ih fun q hq => hwithin q (mem_append_left _ hq)
    have hlt := hwithin r (by simp)
    rw [← cons_append, ← append_assoc, lastWindow_concat, hlast]
    by_cases hip : r.ip = opener.ip
    · simp only [if_pos hip, enter, if_neg (Nat.not_le.mpr hlt)]
      rw [countOf, countOf, countP_append]
      simp [hip]
    · rw [if_neg hip, countOf, countOf, countP_append]
      simp [hip]

/-! ## Isolation and limits -/

namespace Requests

def answersTo (rs : Requests) (ip : Str) : List (Option Bool) :=
  ((rs.items.zip (RateLimiter.new.answers rs.items)).filter fun p => p.1.ip = ip).map Prod.snd

/-- Every address is told what it would be told if no other had asked. -/
def Isolated (rs : Requests) : Prop :=
  ∀ ip, rs.answersTo ip = RateLimiter.new.answers (rs.items.filter fun r => r.ip = ip)

/-- In a window of its address, a request that comes behind as many as the limit is refused. -/
def Limited (rs : Requests) : Prop :=
  ∀ before opener within r after,
    rs.items = (before ++ opener :: within) ++ r :: after →
    Opens before opener → r.ip = opener.ip → r.now - opener.now < window →
    r.limitPerMin.toNat ≤ countOf opener.ip (opener :: within) →
    (RateLimiter.new.answers rs.items)[(before ++ opener :: within).length]? = some (some true)

def Countable (rs : Requests) : Prop :=
  History.Each (fun before r => place before r < 2 ^ 32) rs.items

def only (rs : Requests) (ip : Str) : Requests :=
  ⟨rs.items.filter fun r => r.ip = ip, rs.inOrder.filter _⟩

end Requests

theorem verdicts_filter (ip : Str) (before rs : List Request) :
    ((rs.zip ((verdicts before rs).map some)).filter fun p => p.1.ip = ip).map Prod.snd =
      (verdicts (before.filter fun r => r.ip = ip) (rs.filter fun r => r.ip = ip)).map some := by
  induction rs generalizing before with
  | nil => rfl
  | cons r rs ih =>
    have hrest := ih (before ++ [r])
    by_cases hip : r.ip = ip
    · simp only [verdicts, map_cons, zip_cons_cons, filter_cons, hip,
        decide_true, if_true, place_filter hip]
      rw [hrest, filter_append]
      simp [hip]
    · simp only [verdicts, map_cons, zip_cons_cons, filter_cons, hip,
        decide_false, Bool.false_eq_true, if_false]
      rw [hrest, filter_append]
      simp [hip]

theorem Requests.answers_eq (rs : Requests) (h : rs.Countable) :
    RateLimiter.new.answers rs.items = (verdicts [] rs.items).map some :=
  RateLimit.answers_eq (knows_new 0) (fun _ _ => Nat.zero_le _) rs.inOrder h

theorem Requests.Countable.only {rs : Requests} (h : rs.Countable) (ip : Str) :
    (rs.only ip).Countable := by
  refine History.each_filter h fun before r hip hlt => ?_
  rw [place_filter (of_decide_eq_true hip)]
  exact hlt

theorem isolated_of_countable {rs : Requests} (h : rs.Countable) : rs.Isolated := by
  intro ip
  rw [Requests.answersTo, rs.answers_eq h, verdicts_filter]
  exact ((rs.only ip).answers_eq (h.only ip)).symm

theorem verdicts_getElem? (before pre post : List Request) (r : Request) :
    (verdicts before (pre ++ r :: post))[pre.length]? =
      some (decide (r.limitPerMin.toNat < place (before ++ pre) r)) := by
  induction pre generalizing before with
  | nil => simp [verdicts]
  | cons q pre ih => simp [verdicts, ih]

theorem limited_of_countable {rs : Requests} (h : rs.Countable) : rs.Limited := by
  intro before opener within r after hitems hopens hip hlt hle
  have hord := rs.inOrder
  rw [hitems] at hord
  have hnow : ∀ q ∈ within, q.now ≤ r.now := fun q hq =>
    (pairwise_append.mp hord).2.2 q (by simp [hq]) r (by simp)
  have hlast := lastWindow_of_opens hopens fun q hq =>
    (Nat.sub_le_sub_right (hnow q hq) _).trans_lt hlt
  have hplace : place (before ++ opener :: within) r =
    countOf opener.ip (opener :: within) + 1 := by
    rw [place, hip, hlast]
    simp only [enter, if_neg (Nat.not_le.mpr hlt)]
  rw [rs.answers_eq h, hitems, getElem?_map, verdicts_getElem?, nil_append, hplace,
    map_some, decide_eq_true (Nat.lt_succ_of_le hle)]

theorem countable_of_limited {rs : Requests} (h : rs.Limited) : rs.Countable := by
  intro pre r post hitems
  by_contra hover
  have hplace : 2 ^ 32 ≤ place pre r := Nat.not_lt.mp hover
  have hlimit : r.limitPerMin.toNat < 2 ^ 32 := r.limitPerMin.toNat_lt
  have hopen : IsOpen r.now (lastWindow r.ip pre) := by
    by_contra hnot
    rw [place, enter_of_not_isOpen hnot] at hplace
    exact absurd hplace (by simp)
  obtain ⟨⟨count, start⟩, hlast, hlt⟩ := hopen
  rw [mem_def] at hlast
  rw [place, hlast] at hplace
  simp only [enter, if_neg (Nat.not_le.mpr hlt)] at hplace
  obtain ⟨before, opener, within, rfl, hip, hopens, hstart, hcount⟩ := exists_opener hlast
  have hanswer := h before opener within r post hitems hopens hip.symm
    (by rw [hstart]; exact hlt) (by rw [hip, hcount]; omega)
  rw [hitems] at hanswer
  have hord := rs.inOrder
  rw [hitems] at hord
  have hlt : place ([] ++ (before ++ opener :: within)) r < 2 ^ 32 :=
    place_lt_of_answered (knows_new 0) (fun _ _ => Nat.zero_le _) hord hanswer
  exact hover hlt

/-- **The limiter isolates the addresses and refuses what is over the limit**, for requests that
come in the order of their times, if and only if no address makes 2^32 of them in one window. -/
theorem limits_iff (rs : Requests) : rs.Isolated ∧ rs.Limited ↔ rs.Countable :=
  ⟨fun h => countable_of_limited h.2, fun h => ⟨isolated_of_countable h, limited_of_countable h⟩⟩


/-- An address asks again and again at one instant. -/
def repeated (n : Nat) (r : Request) : Requests :=
  ⟨List.replicate n r, List.pairwise_replicate.mpr (Or.inr le_rfl)⟩

theorem place_replicate (n : Nat) (r : Request) : place (List.replicate n r) r = n + 1 := by
  cases n with
  | zero => rfl
  | succ n =>
    have hopens : Opens [] r := by
      rintro ⟨e, he, -⟩
      cases he
    have hwithin : ∀ q ∈ List.replicate n r, q.now - r.now < window := by
      intro q hq
      rw [eq_of_mem_replicate hq, Nat.sub_self]
      exact window_pos
    have hlast := lastWindow_of_opens hopens hwithin
    rw [nil_append, ← replicate_succ] at hlast
    rw [place, hlast]
    simp [enter, countOf, window, nanos, countP_replicate]

theorem limits_lost : ¬ ∀ rs : Requests, rs.Isolated ∧ rs.Limited := by
  intro h
  have hcountable := countable_of_limited
    (h (repeated (2 ^ 32 - 1 + 1) ⟨"203.0.113.7".toList, 0, 600⟩)).2
  have hlt : place (List.replicate (2 ^ 32 - 1) _) _ < 2 ^ 32 := hcountable _ _ [] replicate_succ'
  rw [place_replicate] at hlt
  omega

/-! ## The size of the table -/

instance (now : Instant) (w : Option (Nat × Instant)) : Decidable (IsOpen now w) :=
  decidable_of_iff (w.any fun e => now - e.2 < window) (by
    simp only [IsOpen, Option.any_eq_true, decide_eq_true_eq, Option.mem_def])

def openAddresses (rs : List Request) (now : Instant) : List Str :=
  (rs.map Request.ip).dedup.filter fun ip => IsOpen now (lastWindow ip rs)

theorem nodup_openAddresses (rs : List Request) (now : Instant) : (openAddresses rs now).Nodup :=
  (nodup_dedup _).filter _

theorem mem_openAddresses {ip : Str} :
    ip ∈ openAddresses rs now ↔ IsOpen now (lastWindow ip rs) := by
  rw [openAddresses, mem_filter, decide_eq_true_eq, and_iff_right_iff_imp]
  rintro ⟨⟨count, start⟩, hlast, -⟩
  obtain ⟨before, opener, within, rfl, rfl, -⟩ := exists_opener hlast
  rw [mem_dedup, List.mem_map]
  exact ⟨opener, by simp, rfl⟩

theorem Knows.open_le
    (h : Knows rl rs now) : (openAddresses rs now).length ≤ rl.map.entries.length := by
  have hsub : openAddresses rs now ⊆ rl.map.entries.map Prod.fst := by
    intro ip hip
    have hopen := mem_openAddresses.mp hip
    obtain hget | ⟨-, hnot⟩ := h ip
    · obtain ⟨e, he, -⟩ := hopen
      exact SortedMap.mem_keys.mpr ⟨e, hget.trans he⟩
    · exact absurd hopen hnot
  have hle := ((nodup_openAddresses rs now).subperm hsub).length_le
  rwa [length_map] at hle

theorem Knows.le_open (h : Knows rl rs now)
    (hlive : ∀ ip e, rl.map.get? ip = some e → now - e.2 < window) :
    rl.map.entries.length ≤ (openAddresses rs now).length := by
  have hsub : rl.map.entries.map Prod.fst ⊆ openAddresses rs now := by
    intro ip hip
    obtain ⟨e, he⟩ := SortedMap.mem_keys.mp hip
    obtain hget | ⟨hnone, -⟩ := h ip
    · exact mem_openAddresses.mpr ⟨e, hget.symm.trans he, hlive ip e he⟩
    · cases hnone.symm.trans he
  have hle := (rl.map.nodup_keys.subperm hsub).length_le
  rwa [length_map] at hle

theorem enter_isOpen (w : Option (Nat × Instant)) (now : Instant) :
    now - (enter w now).2 < window := by
  by_cases h : IsOpen now w
  · obtain ⟨⟨count, start⟩, rfl, hlt⟩ := h
    simpa only [enter, if_neg (Nat.not_le.mpr hlt)] using hlt
  · rw [enter_of_not_isOpen h, Nat.sub_self]
    exact window_pos

/-- **One request** leaves the table within its bound if and only if the windows that are open are:
where the table was swept, it has those alone. -/
theorem length_step {rl rl' : RateLimiter}
    (hmap : rl'.map = (rl.sweep r.now).map.insert r.ip (enter (lastWindow r.ip rs) r.now))
    (hknows : Knows rl' (rs ++ [r]) r.now) :
    rl'.map.entries.length ≤ maxTrackedIps + 1 ↔
      (openAddresses (rs ++ [r]) r.now).length ≤ maxTrackedIps + 1 := by
  refine ⟨hknows.open_le.trans, fun hopen => ?_⟩
  rw [RateLimiter.sweep] at hmap
  split_ifs at hmap with hlarge
  · refine (hknows.le_open fun ip e he => ?_).trans hopen
    rw [hmap, get?_insert] at he
    split_ifs at he with hip
    · cases he
      exact enter_isOpen _ _
    · exact of_decide_eq_true (get?_filter.mp he).2
  · rw [hmap]
    exact (length_insert_le _ _ _).trans (Nat.succ_le_succ (Nat.not_lt.mp hlarge))

theorem after_append (rl : RateLimiter) (rs rs' : List Request) :
    rl.after (rs ++ rs') = (rl.after rs).bind fun rl => rl.after rs' := by
  induction rs generalizing rl with
  | nil => rfl
  | cons r rs ih =>
    rw [cons_append, RateLimiter.after, RateLimiter.after]
    cases rl.checkAndIncrement r with
    | error p => rfl
    | ok out => exact ih out.2

def Counted (rs : List Request) : Prop :=
  History.Each (fun before r => place before r < 2 ^ 32) rs

theorem reaches (hord : rs.Pairwise fun a b => a.now ≤ b.now)
    (h : Counted rs) {later : Instant} (hlater : ∀ r ∈ rs, r.now ≤ later) :
    ∃ rl, RateLimiter.new.after rs = .ok rl ∧ Knows rl rs later := by
  induction rs using reverseRecOn generalizing later with
  | nil => exact ⟨_, rfl, fun _ => .inl rfl⟩
  | append_singleton rs r ih =>
    obtain ⟨hbefore, -, hlast⟩ := pairwise_append.mp hord
    have hprior : Counted rs := fun pre q post heq => h pre q (post ++ [r]) (by rw [heq]; simp)
    obtain ⟨rl, hafter, hknows⟩ := ih hbefore hprior fun q hq => hlast q hq r (by simp)
    obtain ⟨-, rl', hcheck, -, hknows'⟩ | ⟨hover, -⟩ := check_cases hknows le_rfl
    · refine ⟨rl', ?_, hknows'.mono (hlater r (by simp))⟩
      rw [after_append, hafter]
      simp only [Except.bind, RateLimiter.after, hcheck, bind]
    · exact absurd (h rs r [] rfl) (Nat.not_lt.mpr hover)

theorem counted_of_after
    (hord : rs.Pairwise fun a b => a.now ≤ b.now) (h : RateLimiter.new.after rs = .ok rl) :
    Counted rs := by
  induction rs using reverseRecOn generalizing rl with
  | nil => exact History.each_nil
  | append_singleton rs r ih =>
    obtain ⟨hbefore, -, hlast⟩ := pairwise_append.mp hord
    rw [after_append] at h
    obtain ⟨rl', hafter, hcheck⟩ := Failing.bind_eq_ok.mp h
    have hprior := ih hbefore hafter
    obtain ⟨rl'', hafter', hknows⟩ := reaches hbefore hprior fun q hq => hlast q hq r (by simp)
    cases hafter.symm.trans hafter'
    obtain ⟨hlt, -⟩ | ⟨-, herror⟩ := check_cases hknows le_rfl
    · exact History.each_concat hprior hlt
    · simp [RateLimiter.after, herror, bind, Except.bind] at hcheck

theorem reaches_concat
    (hord : (rs ++ [r]).Pairwise fun a b => a.now ≤ b.now) (h : Counted (rs ++ [r])) :
    ∃ rl, RateLimiter.new.after (rs ++ [r]) = .ok rl ∧ (rl.map.entries.length ≤ maxTrackedIps + 1 ↔
        (openAddresses (rs ++ [r]) r.now).length ≤ maxTrackedIps + 1) := by
  obtain ⟨hbefore, -, hlast⟩ := pairwise_append.mp hord
  have hprior : Counted rs := fun pre q post heq => h pre q (post ++ [r]) (by rw [heq]; simp)
  obtain ⟨rl, hafter, hknows⟩ := reaches hbefore hprior fun q hq => hlast q hq r (by simp)
  obtain ⟨-, rl', hcheck, hmap, hknows'⟩ | ⟨hover, -⟩ := check_cases hknows le_rfl
  · refine ⟨rl', ?_, length_step hmap hknows'⟩
    rw [after_append, hafter]
    simp only [Except.bind, RateLimiter.after, hcheck, bind]
  · exact absurd (h rs r [] rfl) (Nat.not_lt.mpr hover)

namespace Requests

def Bounded (rs : Requests) : Prop :=
  ∀ before rest rl, rs.items = before ++ rest → RateLimiter.new.after before = .ok rl →
    rl.map.entries.length ≤ maxTrackedIps + 1

def Sparse (rs : Requests) : Prop :=
  ∀ before r rest, rs.items = before ++ r :: rest → Counted (before ++ [r]) →
    (openAddresses (before ++ [r]) r.now).length ≤ maxTrackedIps + 1

end Requests

theorem sparse_of_bounded {rs : Requests} (h : rs.Bounded) : rs.Sparse := by
  intro before r rest hitems hcounted
  have hsplit : rs.items = (before ++ [r]) ++ rest := by rw [hitems]; simp
  have hord := rs.inOrder
  rw [hsplit] at hord
  obtain ⟨rl, hafter, hiff⟩ := reaches_concat (pairwise_append.mp hord).1 hcounted
  exact hiff.mp (h _ rest rl hsplit hafter)

/-- **The table keeps its bound** if and only if no more addresses than that have an open window at
any request. -/
theorem tableBounded_iff (rs : Requests) : rs.Bounded ↔ rs.Sparse := by
  refine ⟨sparse_of_bounded, fun h before rest rl hitems hafter => ?_⟩
  have hord := rs.inOrder
  rw [hitems] at hord
  have hbefore := (pairwise_append.mp hord).1
  have hcounted := counted_of_after hbefore hafter
  rcases eq_nil_or_concat before with rfl | ⟨before, r, rfl⟩
  · cases hafter
    exact Nat.zero_le _
  · rw [concat_eq_append] at *
    obtain ⟨rl', hafter', hiff⟩ := reaches_concat hbefore hcounted
    cases hafter.symm.trans hafter'
    exact hiff.mpr (h before r rest (by rw [hitems]; simp) hcounted)

def atOnce (ips : List Str) : Requests where
  items := ips.map fun ip => ⟨ip, 0, 600⟩
  inOrder := List.pairwise_map.mpr (List.pairwise_of_forall fun _ _ => le_rfl)

theorem not_bounded_atOnce {ips : List Str} (hnodup : ips.Nodup)
    (hlen : maxTrackedIps + 1 < ips.length) : ¬ (atOnce ips).Bounded := by
  intro h
  have hnone : ∀ before r rest, (atOnce ips).items = before ++ r :: rest →
      lastWindow r.ip before = none := by
    intro before r rest hitems
    by_contra hsome
    obtain ⟨⟨count, start⟩, hlast⟩ := ne_none_iff_exists'.mp hsome
    obtain ⟨pre, opener, within, rfl, hip, -⟩ := exists_opener hlast
    have hips : ips = (atOnce ips).items.map Request.ip := by
      simp [atOnce, Function.comp_def]
    rw [hips, hitems, map_append, nodup_append] at hnodup
    exact hnodup.2.2 opener.ip (by simp) r.ip (by simp) hip
  have hcounted : Counted (atOnce ips).items := by
    intro before r rest hitems
    rw [place, hnone before r rest hitems]
    exact Nat.one_lt_two_pow (by decide)
  obtain ⟨rl, hafter, hknows⟩ := reaches (atOnce ips).inOrder hcounted fun r hr => by
    obtain ⟨ip, -, rfl⟩ := List.mem_map.mp hr
    exact le_rfl
  have hopen : ips ⊆ openAddresses (atOnce ips).items 0 := by
    intro ip hip
    obtain ⟨before, rest, hitems⟩ :
        ∃ before rest, (atOnce ips).items = before ++ ⟨ip, 0, 600⟩ :: rest :=
      append_of_mem (List.mem_map.mpr ⟨ip, hip, rfl⟩)
    have hopens : Opens before ⟨ip, 0, 600⟩ := by
      rintro ⟨e, he, -⟩
      cases (hnone before _ rest hitems).symm.trans he
    have hwithin : ∀ q ∈ rest, q.now - 0 < window := by
      intro q hq
      have hmem : q ∈ (atOnce ips).items := by
        rw [hitems]
        simp [hq]
      obtain ⟨ip', -, rfl⟩ := List.mem_map.mp hmem
      exact window_pos
    have hlast := lastWindow_of_opens hopens hwithin
    rw [← hitems] at hlast
    exact mem_openAddresses.mpr ⟨_, hlast, window_pos⟩
  have hle := (hnodup.subperm hopen).length_le.trans hknows.open_le
  have hbound := h _ [] rl (append_nil _).symm hafter
  omega

def address (i : Nat) : Str :=
  "fd00::".toList ++ (decimal (i / 1000 + 1) ++ ':' :: decimal (i % 1000 + 1))

theorem address_injective : Function.Injective address := by
  intro i j h
  have hcut := congrArg (Text.cutAt ':') (append_cancel_left h)
  have hcolon : ∀ n, ':' ∉ decimal n := fun n hn => by
    have := Nat.isDigit_of_mem_toDigits (by decide) (by decide) hn
    exact absurd this (by decide)
  rw [Text.cutAt_append _ (hcolon _), Text.cutAt_append _ (hcolon _)] at hcut
  have hinj : ∀ m n, decimal m = decimal n → m = n := by
    intro m n heq
    have hvalue := congrArg (fun s => Nat.ofDigitChars 10 s 0) heq
    simpa only [decimal, Nat.ofDigitChars_ten_toDigits] using hvalue
  have hhigh := hinj _ _ (Prod.ext_iff.mp hcut).1
  have hlow := hinj _ _ (some.inj (Prod.ext_iff.mp hcut).2)
  omega

/-- 50 002 addresses at one instant: the sweep finds no window that is over. -/
theorem table_unbounded : ¬ ∀ rs : Requests, rs.Bounded := by
  intro h
  have hnodup : ((List.range (maxTrackedIps + 2)).map address).Nodup :=
    nodup_range.map address_injective
  refine not_bounded_atOnce hnodup ?_ (h _)
  rw [length_map, length_range]
  exact Nat.lt_succ_self _

end M6.RateLimit
