import M6.Lib.Text

/-!
# The backend pool

`BackendPool` of `pool.rs`: the sockets of one backend, the least-connections
choice among them, and the backoff of a failing one. The release build checks
arithmetic and aborts on overflow, so an operation that can overflow returns
`none`.

Two layers:

* the **code**: `BackendPool.step` on the member list;
* the **history**: each member with the number of failures since its last
  successful request and the time of the last one (`Tracked`), which the code
  does not keep. `untrack_step` says that forgetting the history gives the code.

`FollowsSchedule` is what the backoff is for, and `schedule_iff` says on which
runs the code keeps to it: its counter is never reset by a success, so the two
part as soon as a member fails again after one.
-/

namespace M6

open List Option

/-! ## Members -/

abbrev Instant : Type := Nat

def nanos : Nat := 1000000000

/-- The end of the range of instants: the seconds are a signed 64-bit number. -/
def instantLimit : Nat := 2 ^ 63 * nanos

def checkedBelow (limit n : Nat) : Option Nat := if n < limit then some n else none

def u32Limit : Nat := 2 ^ 32

def usizeMax : Nat := 2 ^ 64 - 1

/-- One backend socket. -/
structure PoolMember where
  path : Str
  /-- requests in flight -/
  connections : Nat
  /-- when to retry, after a failure -/
  retryAt : Option Instant
  /-- what the backoff is computed from -/
  failureCount : Nat
  deriving DecidableEq

namespace PoolMember

def new (path : Str) : PoolMember := ⟨path, 0, none, 0⟩

def isAvailable (m : PoolMember) (now : Instant) : Bool :=
  match m.retryAt with
  | none => true
  | some t => t ≤ now

/-- The seconds to back off: one, two, four, up to thirty. The shift is by one
less than the count and panics from 64 on. -/
def backoffSecs (m : PoolMember) : Option Nat :=
  if m.failureCount = 0 then some 1
  else if m.failureCount - 1 < 64 then some (min (2 ^ (m.failureCount - 1)) 30)
  else none

def markFailed (m : PoolMember) (now : Instant) : Option PoolMember := do
  let count ← checkedBelow u32Limit (m.failureCount + 1)
  let m := { m with failureCount := count }
  let secs ← m.backoffSecs
  let retryAt ← checkedBelow instantLimit (now + secs * nanos)
  return { m with retryAt := some retryAt }

def acquire (m : PoolMember) : Option PoolMember :=
  if m.connections + 1 ≤ usizeMax then some { m with connections := m.connections + 1 } else none

/-- Count one request less, never below zero. -/
def disconnect (m : PoolMember) : PoolMember := { m with connections := m.connections - 1 }

end PoolMember

/-! ## The pool -/

/-- The search for the least-connections member among the available ones. -/
def pickFrom (now : Instant) : List PoolMember → Nat → Option Nat → Nat → Option Nat
  | [], _, best, _ => best
  | m :: rest, i, best, bestConns =>
    if m.isAvailable now && m.connections < bestConns then
      pickFrom now rest (i + 1) (some i) m.connections
    else pickFrom now rest (i + 1) best bestConns

def pickMember (now : Instant) (members : List PoolMember) : Option Nat :=
  pickFrom now members 0 none usizeMax

/-- Replace the element at an index, if there is one; `none` if that fails. -/
def updateAt {α : Type} (f : α → Option α) : Nat → List α → Option (List α)
  | _, [] => some []
  | 0, a :: l => (f a).map (· :: l)
  | i + 1, a :: l => (updateAt f i l).map (a :: ·)

/-- The operations of a pool, with the clock and the glob's answer they read. -/
inductive PoolOp where
  | pickSocket (now : Instant)
  /-- a request answered: the caller is done with the member -/
  | release (idx : Nat)
  | markFailed (idx : Nat) (now : Instant)
  | addSocket (path : Str)
  | removeSocket (path : Str)
  /-- the paths the glob finds, none when the glob itself fails -/
  | rescan (found : Option (List Str))

def addSocket (members : List PoolMember) (path : Str) : List PoolMember :=
  if members.any fun m => m.path = path then members else members ++ [PoolMember.new path]

/-- One operation on the members; `none` if it panics. -/
def BackendPool.step (members : List PoolMember) : PoolOp → Option (List PoolMember)
  | .pickSocket now =>
    match pickMember now members with
    | some idx => updateAt PoolMember.acquire idx members
    | none => some members
  | .release idx => updateAt (fun m => some m.disconnect) idx members
  | .markFailed idx now => updateAt (fun m => m.disconnect.markFailed now) idx members
  | .addSocket path => some (addSocket members path)
  | .removeSocket path => some (members.eraseP fun m => m.path = path)
  | .rescan none => some members
  | .rescan (some found) =>
    some (found.foldl addSocket (members.filter fun m => m.path ∈ found))

/-- A run of operations; `none` if one of them panics. -/
def BackendPool.run (members : List PoolMember) (ops : List PoolOp) : Option (List PoolMember) :=
  ops.foldlM BackendPool.step members

/-! ## Members with their history -/

structure Tracked where
  member : PoolMember
  /-- failures since the last successful request -/
  streak : Nat
  lastFailure : Instant
  deriving DecidableEq

def untrack (ts : List Tracked) : List PoolMember := ts.map Tracked.member

def Tracked.new (path : Str) : Tracked := ⟨.new path, 0, 0⟩

def Tracked.release (t : Tracked) : Tracked := ⟨t.member.disconnect, 0, t.lastFailure⟩

def Tracked.markFailed (t : Tracked) (now : Instant) : Option Tracked :=
  (t.member.disconnect.markFailed now).map fun m => ⟨m, t.streak + 1, now⟩

def Tracked.acquire (t : Tracked) : Option Tracked :=
  t.member.acquire.map fun m => { t with member := m }

def trackSocket (ts : List Tracked) (path : Str) : List Tracked :=
  if ts.any fun t => t.member.path = path then ts else ts ++ [Tracked.new path]

def trackedStep (ts : List Tracked) : PoolOp → Option (List Tracked)
  | .pickSocket now =>
    match pickMember now (untrack ts) with
    | some idx => updateAt Tracked.acquire idx ts
    | none => some ts
  | .release idx => updateAt (fun t => some t.release) idx ts
  | .markFailed idx now => updateAt (fun t => t.markFailed now) idx ts
  | .addSocket path => some (trackSocket ts path)
  | .removeSocket path => some (ts.eraseP fun t => t.member.path = path)
  | .rescan none => some ts
  | .rescan (some found) =>
    some (found.foldl trackSocket (ts.filter fun t => t.member.path ∈ found))

theorem untrack_updateAt {f : Tracked → Option Tracked} {g : PoolMember → Option PoolMember}
    (hfg : ∀ t, (f t).map Tracked.member = g t.member) (i : Nat) (ts : List Tracked) :
    (updateAt f i ts).map untrack = updateAt g i (untrack ts) := by
  induction ts generalizing i with
  | nil => cases i <;> rfl
  | cons t ts ih =>
    cases i with
    | zero =>
      simp only [updateAt, untrack, map_cons, ← hfg]
      cases f t <;> rfl
    | succ i =>
      have := ih i
      simp only [updateAt, untrack, map_cons] at this ⊢
      rw [← this]
      cases updateAt f i ts <;> rfl

theorem untrack_trackSocket (ts : List Tracked) (path : Str) :
    untrack (trackSocket ts path) = addSocket (untrack ts) path := by
  have hany : ((untrack ts).any fun m => m.path = path) = ts.any fun t => t.member.path = path := by
    simp only [untrack, List.any_map]
    rfl
  simp only [trackSocket, addSocket, hany]
  split_ifs
  · rfl
  · simp [untrack, Tracked.new]

/-- **Forgetting the history gives the code**, panics included. -/
theorem untrack_step (ts : List Tracked) (op : PoolOp) :
    (trackedStep ts op).map untrack = BackendPool.step (untrack ts) op := by
  cases op with
  | pickSocket now =>
    simp only [trackedStep, BackendPool.step]
    rcases pickMember now (untrack ts) with _ | idx
    · rfl
    · refine untrack_updateAt (fun t => ?_) idx ts
      simp only [Tracked.acquire, Option.map_map]
      cases t.member.acquire <;> rfl
  | release idx => exact untrack_updateAt (fun t => rfl) idx ts
  | markFailed idx now =>
    refine untrack_updateAt (fun t => ?_) idx ts
    simp only [Tracked.markFailed, Option.map_map]
    cases t.member.disconnect.markFailed now <;> rfl
  | addSocket path => exact congrArg some (untrack_trackSocket ts path)
  | removeSocket path =>
    simp only [trackedStep, BackendPool.step, map_some, untrack, eraseP_map]
    rfl
  | rescan found =>
    rcases found with _ | found
    · rfl
    · have hfold : ∀ (paths : List Str) (ts : List Tracked),
          untrack (paths.foldl trackSocket ts) = paths.foldl addSocket (untrack ts) := by
        intro paths
        induction paths with
        | nil => exact fun ts => rfl
        | cons p paths ih =>
          intro ts
          rw [foldl_cons, ih, untrack_trackSocket, foldl_cons]
      simp only [trackedStep, BackendPool.step, map_some, hfold]
      simp only [untrack, List.filter_map]
      rfl

/-! ## What an operation does to a member -/

theorem mem_updateAt {α : Type} {f : α → Option α} {i : Nat} {l l' : List α}
    (h : updateAt f i l = some l') {b : α} (hb : b ∈ l') :
    b ∈ l ∨ ∃ a, l[i]? = some a ∧ f a = some b := by
  induction l generalizing i l' with
  | nil =>
    have : l' = [] := by cases i <;> exact (some.inj h).symm
    rw [this] at hb
    cases hb
  | cons a l ih =>
    cases i with
    | zero =>
      obtain ⟨a', ha', rfl⟩ := map_eq_some_iff.mp h
      rcases mem_cons.mp hb with rfl | hb
      · exact .inr ⟨a, rfl, ha'⟩
      · exact .inl (mem_cons_of_mem _ hb)
    | succ i =>
      obtain ⟨l₁, hl₁, rfl⟩ := map_eq_some_iff.mp h
      rcases mem_cons.mp hb with rfl | hb
      · exact .inl (mem_cons_self ..)
      · rcases ih hl₁ hb with hb | ⟨a', ha', hf⟩
        · exact .inl (mem_cons_of_mem _ hb)
        · exact .inr ⟨a', ha', hf⟩

theorem updateAt_some {α : Type} {f : α → Option α} {i : Nat} {l : List α} {a b : α}
    (ha : l[i]? = some a) (hf : f a = some b) : ∃ l', updateAt f i l = some l' ∧ b ∈ l' := by
  induction l generalizing i with
  | nil => cases ha
  | cons c l ih =>
    cases i with
    | zero =>
      cases ha
      exact ⟨b :: l, by rw [updateAt, hf]; rfl, mem_cons_self ..⟩
    | succ i =>
      obtain ⟨l', hl', hb⟩ := ih (by simpa using ha)
      exact ⟨c :: l', by rw [updateAt, hl']; rfl, mem_cons_of_mem _ hb⟩

theorem updateAt_some_at {α : Type} {f : α → Option α} {i : Nat} {l l' : List α} {a : α}
    (h : updateAt f i l = some l') (ha : l[i]? = some a) : ∃ b, f a = some b := by
  induction l generalizing i l' with
  | nil => cases ha
  | cons c l ih =>
    cases i with
    | zero =>
      cases ha
      obtain ⟨b, hb, -⟩ := map_eq_some_iff.mp h
      exact ⟨b, hb⟩
    | succ i =>
      obtain ⟨l₁, hl₁, -⟩ := map_eq_some_iff.mp h
      exact ih hl₁ (by simpa using ha)

theorem updateAt_eq_none {α : Type} {f : α → Option α} {i : Nat} {l : List α}
    (h : updateAt f i l = none) : ∃ a, l[i]? = some a ∧ f a = none := by
  induction l generalizing i with
  | nil => cases i <;> cases h
  | cons c l ih =>
    cases i with
    | zero => exact ⟨c, rfl, map_eq_none_iff.mp h⟩
    | succ i =>
      obtain ⟨a, ha, hf⟩ := ih (map_eq_none_iff.mp h)
      exact ⟨a, by simpa using ha, hf⟩

theorem pickFrom_lt {now : Instant} {l : List PoolMember} {i bestConns idx : Nat}
    {best : Option Nat}
    (h : pickFrom now l i best bestConns = some idx) :
    best = some idx ∨ ∃ j m, idx = i + j ∧ l[j]? = some m ∧ m.connections < bestConns := by
  induction l generalizing i best bestConns with
  | nil => exact .inl h
  | cons m l ih =>
    rw [pickFrom] at h
    split_ifs at h with hm
    · obtain ⟨-, hlt⟩ := Bool.and_eq_true_iff.mp hm
      have hlt : m.connections < bestConns := by simpa using hlt
      rcases ih h with hbest | ⟨j, m', hj, hm', hlt'⟩
      · exact .inr ⟨0, m, by rw [← some.inj hbest, Nat.add_zero], rfl, hlt⟩
      · exact .inr ⟨j + 1, m', by omega, by simpa using hm', hlt'.trans hlt⟩
    · rcases ih h with hbest | ⟨j, m', hj, hm', hlt'⟩
      · exact .inl hbest
      · exact .inr ⟨j + 1, m', by omega, by simpa using hm', hlt'⟩

theorem pickSocket_ne_none (members : List PoolMember) (now : Instant) :
    BackendPool.step members (.pickSocket now) ≠ none := by
  intro h
  simp only [BackendPool.step] at h
  rcases hp : pickMember now members with _ | idx
  · rw [hp] at h
    cases h
  · rw [hp] at h
    obtain ⟨m, hm, hacq⟩ := updateAt_eq_none h
    rcases pickFrom_lt hp with hbest | ⟨j, m', hj, hm', hlt⟩
    · cases hbest
    · rw [Nat.zero_add] at hj
      rw [hj, hm'] at hm
      cases hm
      rw [PoolMember.acquire, if_pos (by omega)] at hacq
      cases hacq

variable {ts : List Tracked}

theorem mem_trackSocket {path : Str} {t : Tracked}
    (h : t ∈ trackSocket ts path) : t ∈ ts ∨ ∃ path, t = Tracked.new path := by
  rw [trackSocket] at h
  split_ifs at h
  · exact .inl h
  · obtain h | h := mem_append.mp h
    · exact .inl h
    · exact .inr ⟨path, mem_singleton.mp h⟩

theorem mem_foldl_trackSocket {paths : List Str} {t : Tracked}
    (h : t ∈ paths.foldl trackSocket ts) : t ∈ ts ∨ ∃ path, t = Tracked.new path := by
  induction paths generalizing ts with
  | nil => exact .inl h
  | cons p paths ih =>
    obtain h | hnew := ih h
    · exact mem_trackSocket h
    · exact .inr hnew

/-- A member whose backoff and history are those of another. -/
structure SameHistory (t t' : Tracked) : Prop where
  retryAt : t'.member.retryAt = t.member.retryAt
  failureCount : t'.member.failureCount = t.member.failureCount
  streak : t'.streak = t.streak
  lastFailure : t'.lastFailure = t.lastFailure

theorem sameHistory_of_acquire {t t' : Tracked} (h : t.acquire = some t') : SameHistory t t' := by
  obtain ⟨m, hm, rfl⟩ := map_eq_some_iff.mp h
  rw [PoolMember.acquire] at hm
  split_ifs at hm
  cases hm
  exact ⟨rfl, rfl, rfl, rfl⟩

variable {op : PoolOp}

/-- **What one operation does.** A member after an operation is a new one; or an
old one whose backoff and history are untouched; or the one that was released; or
the one that failed. -/
theorem mem_trackedStep {ts ts' : List Tracked} (h : trackedStep ts op = some ts')
    {t' : Tracked} (ht : t' ∈ ts') :
    (∃ path, t' = Tracked.new path) ∨ (∃ t ∈ ts, SameHistory t t') ∨ (∃ t ∈ ts, t' = t.release) ∨
      ∃ idx now t, op = .markFailed idx now ∧ ts[idx]? = some t ∧ t.markFailed now = some t' := by
  have hkeep : t' ∈ ts → ∃ t ∈ ts, SameHistory t t' := fun hmem => ⟨t', hmem, rfl, rfl, rfl, rfl⟩
  cases op with
  | pickSocket now =>
    simp only [trackedStep] at h
    cases hp : pickMember now (untrack ts) with
    | none =>
      rw [hp] at h
      cases h
      exact .inr (.inl (hkeep ht))
    | some idx =>
      rw [hp] at h
      obtain hmem | ⟨t, hts, hacq⟩ := mem_updateAt h ht
      · exact .inr (.inl (hkeep hmem))
      · exact .inr (.inl ⟨t, mem_of_getElem? hts, sameHistory_of_acquire hacq⟩)
  | release idx =>
    obtain hmem | ⟨t, hts, hrel⟩ := mem_updateAt h ht
    · exact .inr (.inl (hkeep hmem))
    · exact .inr (.inr (.inl ⟨t, mem_of_getElem? hts, (some.inj hrel).symm⟩))
  | markFailed idx now =>
    obtain hmem | ⟨t, hts, hfail⟩ := mem_updateAt h ht
    · exact .inr (.inl (hkeep hmem))
    · exact .inr (.inr (.inr ⟨idx, now, t, rfl, hts, hfail⟩))
  | addSocket path =>
    cases h
    obtain hmem | hnew := mem_trackSocket ht
    · exact .inr (.inl (hkeep hmem))
    · exact .inl hnew
  | removeSocket path =>
    cases h
    exact .inr (.inl (hkeep (mem_of_mem_eraseP ht)))
  | rescan found =>
    cases found with
    | none =>
      cases h
      exact .inr (.inl (hkeep ht))
    | some found =>
      cases h
      obtain hmem | hnew := mem_foldl_trackSocket ht
      · exact .inr (.inl (hkeep (mem_filter.mp hmem).1))
      · exact .inl hnew

/-! ## The schedule -/

/-- What the backoff is for: after `k` failures in a row the member is retried
`min (2 ^ (k - 1)) 30` seconds after the last one. -/
def OnSchedule (ts : List Tracked) : Prop :=
  ∀ t ∈ ts, 1 ≤ t.streak →
    t.member.retryAt = some (t.lastFailure + min (2 ^ (t.streak - 1)) 30 * nanos)

/-- A run keeps to the schedule: no operation panics and every member is on
schedule in every state reached. -/
def FollowsSchedule : List Tracked → List PoolOp → Prop
  | ts, [] => OnSchedule ts
  | ts, op :: ops => OnSchedule ts ∧ BackendPool.step (untrack ts) op ≠ none ∧
    ∀ ts', trackedStep ts op = some ts' → FollowsSchedule ts' ops

/-- What a failure must find: the counter below the width of the shift; no success
since the member's first failure, or five failures in a row since the last one, so
that both backoffs are thirty seconds; and a clock that is not at the end of its
range. -/
def FailureMeets (t : Tracked) (now : Instant) : Prop :=
  t.member.failureCount < 64 ∧ (t.streak = t.member.failureCount ∨ 5 ≤ t.streak) ∧
    now + min (2 ^ t.member.failureCount) 30 * nanos < instantLimit

def FailuresMeet : List Tracked → List PoolOp → Prop
  | _, [] => True
  | ts, op :: ops =>
    (∀ idx now t, op = .markFailed idx now → ts[idx]? = some t → FailureMeets t now) ∧
      ∀ ts', trackedStep ts op = some ts' → FailuresMeet ts' ops

theorem markFailed_eq (m : PoolMember) (now : Instant) : m.disconnect.markFailed now =
      if m.failureCount < 64 ∧ now + min (2 ^ m.failureCount) 30 * nanos < instantLimit then
        some { m.disconnect with
          failureCount := m.failureCount + 1,
          retryAt := some (now + min (2 ^ m.failureCount) 30 * nanos) }
      else none := by
  have hlimit : 65 ≤ u32Limit := by simp only [u32Limit]; omega
  have hsecs : ∀ n : Nat, PoolMember.backoffSecs ⟨m.path, m.connections - 1, m.retryAt, n + 1⟩ =
      if n < 64 then some (min (2 ^ n) 30) else none := by
    intro n
    rw [PoolMember.backoffSecs, if_neg (Nat.add_one_ne_zero n)]
    rfl
  simp only [PoolMember.markFailed, PoolMember.disconnect, bind_eq_bind]
  by_cases hcount : m.failureCount < 64
  · rw [checkedBelow, if_pos (by omega), bind_some, hsecs, if_pos hcount, bind_some, checkedBelow]
    by_cases hclock : now + min (2 ^ m.failureCount) 30 * nanos < instantLimit
    · rw [if_pos hclock, if_pos ⟨hcount, hclock⟩]
      rfl
    · rw [if_neg hclock, if_neg fun h => hclock h.2]
      rfl
  · rw [if_neg fun h => hcount h.1]
    by_cases hsmall : m.failureCount + 1 < u32Limit
    · rw [checkedBelow, if_pos hsmall, bind_some, hsecs, if_neg hcount]
      rfl
    · rw [checkedBelow, if_neg hsmall]
      rfl

theorem tracked_markFailed_eq_some {t t' : Tracked} {now : Instant} :
    t.markFailed now = some t' ↔ (t.member.failureCount < 64 ∧
        now + min (2 ^ t.member.failureCount) 30 * nanos < instantLimit) ∧
      t' = ⟨{ t.member.disconnect with
          failureCount := t.member.failureCount + 1,
          retryAt := some (now + min (2 ^ t.member.failureCount) 30 * nanos) },
        t.streak + 1, now⟩ := by
  rw [Tracked.markFailed, markFailed_eq]
  split_ifs with hcond
  · exact ⟨fun h => ⟨hcond, (some.inj h).symm⟩, fun h => congrArg some h.2.symm⟩
  · exact ⟨fun h => (some_ne_none _ h.symm).elim, fun h => (hcond h.1).elim⟩

def StreakBounded (ts : List Tracked) : Prop := ∀ t ∈ ts, t.streak ≤ t.member.failureCount

theorem streakBounded_step {ts ts' : List Tracked} (h : trackedStep ts op = some ts')
    (hb : StreakBounded ts) : StreakBounded ts' := by
  intro t' ht'
  obtain ⟨path, rfl⟩ | ⟨t, ht, hsame⟩ | ⟨t, ht, rfl⟩ | ⟨idx, now, t, -, ht, hfail⟩ :=
    mem_trackedStep h ht'
  · exact Nat.le_refl _
  · rw [hsame.failureCount, hsame.streak]
    exact hb t ht
  · exact Nat.zero_le _
  · obtain ⟨-, rfl⟩ := tracked_markFailed_eq_some.mp hfail
    exact Nat.succ_le_succ (hb t (mem_of_getElem? ht))

theorem backoff_eq_iff {k n : Nat} (h : k ≤ n) :
    min (2 ^ k) 30 = min (2 ^ n) 30 ↔ k = n ∨ 5 ≤ k := by
  constructor
  · intro heq
    by_contra hno
    obtain ⟨hne, hlt⟩ := not_or.mp hno
    have hpow : 2 ^ (k + 1) ≤ 2 ^ n := Nat.pow_le_pow_right (by omega) (by omega)
    have hsmall : 2 ^ k ≤ 2 ^ 4 := Nat.pow_le_pow_right (by omega) (by omega)
    have hpos : 0 < 2 ^ k := Nat.pow_pos (by omega)
    rw [Nat.pow_succ] at hpow
    generalize 2 ^ k = a at *
    generalize 2 ^ n = b at *
    omega
  · rintro (rfl | hk)
    · rfl
    · have h₁ : 2 ^ 5 ≤ 2 ^ k := Nat.pow_le_pow_right (by omega) hk
      have h₂ : 2 ^ 5 ≤ 2 ^ n := Nat.pow_le_pow_right (by omega) (hk.trans h)
      rw [min_eq_right (by omega), min_eq_right (by omega)]

theorem step_ne_none
    (hmeet : ∀ idx now t, op = .markFailed idx now → ts[idx]? = some t → FailureMeets t now) :
    BackendPool.step (untrack ts) op ≠ none := by
  intro hnone
  cases op with
  | pickSocket now => exact pickSocket_ne_none _ _ hnone
  | release idx =>
    obtain ⟨m, -, hm⟩ := updateAt_eq_none hnone
    cases hm
  | markFailed idx now =>
    obtain ⟨m, hm, hfail⟩ := updateAt_eq_none hnone
    rw [untrack, getElem?_map] at hm
    obtain ⟨t, ht, rfl⟩ := map_eq_some_iff.mp hm
    obtain ⟨hcount, -, hclock⟩ := hmeet idx now t rfl ht
    rw [markFailed_eq, if_pos ⟨hcount, hclock⟩] at hfail
    cases hfail
  | addSocket path | removeSocket path => cases hnone
  | rescan found => cases found <;> cases hnone

theorem onSchedule_step {ts ts' : List Tracked} (hb : StreakBounded ts) (hs : OnSchedule ts)
    (hmeet : ∀ idx now t, op = .markFailed idx now → ts[idx]? = some t → FailureMeets t now)
    (h : trackedStep ts op = some ts') : OnSchedule ts' := by
  intro t' ht' hk
  obtain ⟨path, rfl⟩ | ⟨t, ht, hsame⟩ | ⟨t, ht, rfl⟩ | ⟨idx, now, t, rfl, ht, hfail⟩ :=
    mem_trackedStep h ht'
  · cases hk
  · rw [hsame.retryAt, hsame.streak, hsame.lastFailure]
    exact hs t ht (hsame.streak ▸ hk)
  · cases hk
  · obtain ⟨-, rfl⟩ := tracked_markFailed_eq_some.mp hfail
    obtain ⟨-, hstreak, -⟩ := hmeet idx now t rfl ht
    have hback := (backoff_eq_iff (hb t (mem_of_getElem? ht))).mpr hstreak
    simp only [Nat.add_sub_cancel]
    rw [hback]

theorem failureMeets_of_onSchedule {idx : Nat} {now : Instant} {t : Tracked}
    (hb : StreakBounded ts) (ht : ts[idx]? = some t)
    (hne : BackendPool.step (untrack ts) (.markFailed idx now) ≠ none)
    (hgood : ∀ ts', trackedStep ts (.markFailed idx now) = some ts' → OnSchedule ts') :
    FailureMeets t now := by
  have hsome : ∃ t', t.markFailed now = some t' := by
    rw [← untrack_step] at hne
    cases hts : trackedStep ts (.markFailed idx now) with
    | none =>
      rw [hts] at hne
      exact (hne rfl).elim
    | some ts' =>
      have hup : updateAt (fun t => t.markFailed now) idx ts = some ts' := hts
      exact updateAt_some_at hup ht
  obtain ⟨t', htracked⟩ := hsome
  obtain ⟨ts', hts', hmem⟩ := updateAt_some (f := fun t => t.markFailed now) ht htracked
  obtain ⟨hcond, rfl⟩ := tracked_markFailed_eq_some.mp htracked
  have hretry := hgood ts' hts' _ hmem (Nat.succ_le_succ (Nat.zero_le _))
  simp only [Nat.add_sub_cancel, some.injEq, Nat.add_left_cancel_iff] at hretry
  have heq : min (2 ^ t.streak) 30 = min (2 ^ t.member.failureCount) 30 :=
    (Nat.eq_of_mul_eq_mul_right (by decide) hretry).symm
  exact ⟨hcond.1, (backoff_eq_iff (hb t (mem_of_getElem? ht))).mp heq, hcond.2⟩

theorem onSchedule_step_iff (hb : StreakBounded ts) (hs : OnSchedule ts) :
    (∀ idx now t, op = .markFailed idx now → ts[idx]? = some t → FailureMeets t now) ↔
      BackendPool.step (untrack ts) op ≠ none ∧
        ∀ ts', trackedStep ts op = some ts' → OnSchedule ts' := by
  constructor
  · intro hmeet
    exact ⟨step_ne_none hmeet, fun ts' h => onSchedule_step hb hs hmeet h⟩
  · rintro ⟨hne, hgood⟩ idx now t rfl ht
    exact failureMeets_of_onSchedule hb ht hne hgood

theorem onSchedule_of_followsSchedule {ops : List PoolOp}
    (h : FollowsSchedule ts ops) : OnSchedule ts := by
  cases ops with
  | nil => exact h
  | cons op ops => exact h.1

theorem schedule_iff_from (hb : StreakBounded ts) (hs : OnSchedule ts)
    (ops : List PoolOp) : FollowsSchedule ts ops ↔ FailuresMeet ts ops := by
  induction ops generalizing ts with
  | nil => exact ⟨fun _ => trivial, fun _ => hs⟩
  | cons op ops ih =>
    constructor
    · rintro ⟨-, hne, hrest⟩
      have hgood : ∀ ts', trackedStep ts op = some ts' → OnSchedule ts' := fun ts' h =>
        onSchedule_of_followsSchedule (hrest ts' h)
      refine ⟨(onSchedule_step_iff hb hs).mpr ⟨hne, hgood⟩, fun ts' h => ?_⟩
      exact (ih (streakBounded_step h hb) (hgood ts' h)).mp (hrest ts' h)
    · rintro ⟨hmeet, hrest⟩
      obtain ⟨hne, hgood⟩ := (onSchedule_step_iff hb hs).mp hmeet
      refine ⟨hs, hne, fun ts' h => ?_⟩
      exact (ih (streakBounded_step h hb) (hgood ts' h)).mpr (hrest ts' h)

/-- **The backoff schedule.** From a new pool, for every sequence of operations
and every clock: no operation panics and every failing member is retried on
schedule, if and only if each failure finds its member's counter below 64, its
streak equal to the counter or at least five, and the clock in range. -/
theorem schedule_iff (ops : List PoolOp) : FollowsSchedule [] ops ↔ FailuresMeet [] ops := by
  refine schedule_iff_from (fun t ht => ?_) (fun t ht => ?_) ops
  · cases ht
  · cases ht

theorem schedule_lost :
    BackendPool.run [] (.addSocket "a.sock".toList :: List.replicate 65 (.markFailed 0 0)) = none ∧
    BackendPool.run [] [.addSocket "a.sock".toList, .pickSocket 0, .markFailed 0 0,
        .pickSocket (9 * nanos), .release 0, .pickSocket (10 * nanos), .markFailed 0 (10 * nanos)] =
      some [⟨"a.sock".toList, 0, some (12 * nanos), 2⟩] := by
  decide

end M6
