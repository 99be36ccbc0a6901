import Mathlib.Data.List.MinMax
import M6.Edge.Pool
import M6.Lib.Machine
import M6.Lib.Weights

/-!
# The log of refused connections

`RefusalLog` of `http11.rs` decides which refused connections get a line. A refusal ends up in one
of four places: it is the line that is written, it is suppressed and carried by a later line of its
peer, it is counted among those of peers that are not tracked, or it is still owed.

`refusals_accounted` says that none is lost and none counted twice, for any calls, and that the
table and the lines of a window keep their bounds. The counters are 64 bits wide, and overflow after
2^64 calls.
-/

namespace M6.Refusals

open Failing Machine Option SortedMap

variable {Addr : Type} [LinearOrder Addr]

/-! ## The log -/

/-- `REFUSAL_LOG_MAX_LINES`. -/
def maxLines : Nat := 32

/-- `REFUSAL_LOG_MAX_OTHERS`. -/
def maxOthers : Nat := 1024

/-- What the log owes for the refusals of one window that no line carried. -/
structure RefusalSummary (Addr : Type) where
  otherRefusals : Nat
  otherAddresses : Nat
  sample : Option Addr
  overLimit : Nat
  deriving DecidableEq

def RefusalSummary.default : RefusalSummary Addr := ⟨0, 0, none, 0⟩

/-- What the caller is to write. -/
structure RefusalVerdict (Addr : Type) where
  /-- a line for the peer, with the refusals suppressed since its last one -/
  peerLine : Option Nat
  /-- a summary of the window that just ended -/
  summary : Option (RefusalSummary Addr)

structure RefusalLog (Addr : Type) [LinearOrder Addr] where
  interval : Nat
  maxPeers : Nat
  /-- when a peer was last logged, and the refusals since -/
  peers : SortedMap Addr (Option Instant × Nat)
  windowStart : Option Instant
  linesInWindow : Nat
  summary : RefusalSummary Addr
  others : SortedMap Addr Unit

/-- The order in which a `HashMap` lists its entries. -/
structure Order (Addr : Type) [LinearOrder Addr] where
  list : SortedMap Addr (Option Instant × Nat) → List (Addr × (Option Instant × Nat))
  perm : ∀ m, (list m).Perm m.entries

/-- Backwards. -/
def Order.backwards : Order Addr := ⟨fun m => m.entries.reverse, fun m => m.entries.reverse_perm⟩

namespace RefusalLog

def new (interval maxPeers : Nat) : RefusalLog Addr :=
  ⟨interval, maxPeers, .empty, none, 0, .default, .empty⟩

def turns (log : RefusalLog Addr) (now : Instant) : Bool :=
  match log.windowStart with
  | some start => !decide (now - start < log.interval)
  | none => true

def turn (log : RefusalLog Addr) (now : Instant) : Option (RefusalSummary Addr) × RefusalLog Addr :=
  if log.turns now then
    let log' := { log with windowStart := some now, linesInWindow := 0, others := .empty }
    if log.windowStart.isSome ∧ log.summary ≠ .default then
      (some log.summary, { log' with summary := .default })
    else (none, log')
  else (none, log)

/-- The peer that `evict_stale` drops: the stalest one that has nothing left to report. -/
def stalest (order : Order Addr) (log : RefusalLog Addr) (now : Instant) :
    Option (Instant × Addr) :=
  ((order.list log.peers).filterMap fun e =>
    match e.2 with
    | (some l, suppressed) =>
      if suppressed = 0 ∧ log.interval ≤ now - l then some (l, e.1) else none
    | (none, _) => none).argmin Prod.fst

def evictStale (order : Order Addr) (log : RefusalLog Addr) (now : Instant) :
    Bool × RefusalLog Addr :=
  match log.stalest order now with
  | some (_, ip) => (true, { log with peers := log.peers.erase ip })
  | none => (false, log)

def recordTracked (log : RefusalLog Addr) (summary : Option (RefusalSummary Addr)) (peer : Addr)
    (now : Instant) (last : Option Instant) (suppressed : Nat) :
    Except Panic (RefusalVerdict Addr × RefusalLog Addr) :=
  if last.any fun l => now - l < log.interval then do
    let suppressed ← add (2 ^ 64) suppressed 1
    .ok (⟨none, summary⟩, { log with peers := log.peers.insert peer (last, suppressed) })
  else if maxLines ≤ log.linesInWindow then do
    let suppressed ← add (2 ^ 64) suppressed 1
    let overLimit ← add (2 ^ 64) log.summary.overLimit 1
    .ok (⟨none, summary⟩, { log with
      peers := log.peers.insert peer (last, suppressed)
      summary := { log.summary with overLimit := overLimit } })
  else do
    let lines ← add (2 ^ 32) log.linesInWindow 1
    .ok (⟨some suppressed, summary⟩, { log with
      peers := log.peers.insert peer (some now, 0)
      linesInWindow := lines })

def recordOther (log : RefusalLog Addr) (summary : Option (RefusalSummary Addr)) (peer : Addr) :
    Except Panic (RefusalVerdict Addr × RefusalLog Addr) := do
  let otherRefusals ← add (2 ^ 64) log.summary.otherRefusals 1
  let counted := { log.summary with otherRefusals := otherRefusals, sample := some peer }
  if log.others.entries.length < maxOthers then
    let others := log.others.insert peer ()
    if (log.others.get? peer).isSome then
      .ok (⟨none, summary⟩, { log with summary := counted, others := others })
    else
      let otherAddresses ← add (2 ^ 64) log.summary.otherAddresses 1
      .ok (⟨none, summary⟩, { log with
        summary := { counted with otherAddresses := otherAddresses }
        others := others })
  else .ok (⟨none, summary⟩, { log with summary := counted })

def recordNew (log : RefusalLog Addr) (summary : Option (RefusalSummary Addr)) (peer : Addr)
    (now : Instant) : Except Panic (RefusalVerdict Addr × RefusalLog Addr) :=
  if maxLines ≤ log.linesInWindow then do
    -- tracked, with its first line owed once the window turns
    let overLimit ← add (2 ^ 64) log.summary.overLimit 1
    .ok (⟨none, summary⟩, { log with
      peers := log.peers.insert peer (none, 1)
      summary := { log.summary with overLimit := overLimit } })
  else do
    let lines ← add (2 ^ 32) log.linesInWindow 1
    .ok (⟨some 0, summary⟩, { log with
      peers := log.peers.insert peer (some now, 0)
      linesInWindow := lines })

def record (order : Order Addr) (log : RefusalLog Addr) (peer : Addr) (now : Instant) :
    Except Panic (RefusalVerdict Addr × RefusalLog Addr) :=
  let (summary, log) := log.turn now
  match log.peers.get? peer with
  | some (last, suppressed) => log.recordTracked summary peer now last suppressed
  | none =>
    if log.maxPeers ≤ log.peers.entries.length then
      match log.evictStale order now with
      | (true, log) => log.recordNew summary peer now
      | (false, log) => log.recordOther summary peer
    else log.recordNew summary peer now

end RefusalLog

/-! ## Where refusals end up -/

def RefusalVerdict.lines (v : RefusalVerdict Addr) : Nat := v.peerLine.elim 0 fun _ => 1

def RefusalVerdict.carried (v : RefusalVerdict Addr) : Nat := v.peerLine.getD 0

def RefusalVerdict.reported (v : RefusalVerdict Addr) : Nat :=
  v.summary.elim 0 RefusalSummary.otherRefusals

def RefusalLog.owed (log : RefusalLog Addr) : Nat := log.peers.weight Prod.snd

structure Recorded (log : RefusalLog Addr) (v : RefusalVerdict Addr) (log' : RefusalLog Addr) :
    Prop where
  account : 1 + log.owed + log.summary.otherRefusals =
    v.lines + v.carried + log'.owed + log'.summary.otherRefusals
  interval : log'.interval = log.interval
  maxPeers : log'.maxPeers = log.maxPeers
  windowStart : log'.windowStart = log.windowStart
  lines : log'.linesInWindow = log.linesInWindow + v.lines
  lines_le : log.linesInWindow ≤ maxLines → log'.linesInWindow ≤ maxLines
  kept : ∀ q, log'.peers.get? q = none → log.peers.get? q = none

namespace RefusalLog

variable {log : RefusalLog Addr} {summary : Option (RefusalSummary Addr)} {peer : Addr}
  {now : Instant}

theorem get?_of_insert {V : Type} {m : SortedMap Addr V} {v : V} {q : Addr}
    (h : (m.insert peer v).get? q = none) : m.get? q = none := by
  rw [get?_insert] at h
  split_ifs at h
  exact h

variable {v : RefusalVerdict Addr}

theorem recorded_held {e : Option Instant × Nat} {o : Nat}
    (hsum : (log.peers.insert peer e).weight Prod.snd = log.owed + 1) :
    Recorded log ⟨none, summary⟩ { log with
      peers := log.peers.insert peer e, summary := { log.summary with overLimit := o } } := by
  refine ⟨?_, rfl, rfl, rfl, rfl, id, fun q => get?_of_insert⟩
  change _ = 0 + 0 + (log.peers.insert peer e).weight Prod.snd + log.summary.otherRefusals
  omega

theorem recorded_line {n : Nat} (hroom : ¬maxLines ≤ log.linesInWindow)
    (hsum : (log.peers.insert peer (some now, 0)).weight Prod.snd + n = log.owed) :
    Recorded log ⟨some n, summary⟩ { log with
      peers := log.peers.insert peer (some now, 0), linesInWindow := log.linesInWindow + 1 } := by
  refine ⟨?_, rfl, rfl, rfl, rfl, fun _ => Nat.not_le.mp hroom, fun q => get?_of_insert⟩
  change _ = 1 + n + (log.peers.insert peer _).weight Prod.snd + log.summary.otherRefusals
  omega

theorem recordTracked_spec {last : Option Instant} {suppressed : Nat}
    (hpeer : log.peers.get? peer = some (last, suppressed)) {log' : RefusalLog Addr}
    (h : log.recordTracked summary peer now last suppressed = .ok (v, log')) :
    Recorded log v log' ∧ v.summary = summary ∧
      log'.peers.entries.length ≤ log.peers.entries.length := by
  have hweight : ∀ e : Option Instant × Nat,
      (log.peers.insert peer e).weight Prod.snd + suppressed = log.owed + e.2 := by
    intro e
    have := weight_insert Prod.snd log.peers peer e
    rwa [hpeer] at this
  have hheld := hweight (last, suppressed + 1)
  rw [recordTracked] at h
  split_ifs at h with hrecent hfull
  · obtain ⟨n, hn, h⟩ := bind_eq_ok.mp h
    obtain rfl := add_eq_ok hn
    cases h
    exact ⟨recorded_held (by omega), rfl, length_insert_of_get? hpeer _⟩
  · obtain ⟨n, hn, h⟩ := bind_eq_ok.mp h
    obtain ⟨o, ho, h⟩ := bind_eq_ok.mp h
    obtain rfl := add_eq_ok hn
    cases h
    exact ⟨recorded_held (by omega), rfl, length_insert_of_get? hpeer _⟩
  · obtain ⟨n, hn, h⟩ := bind_eq_ok.mp h
    obtain rfl := add_eq_ok hn
    cases h
    exact ⟨recorded_line hfull (hweight (some now, 0)), rfl, length_insert_of_get? hpeer _⟩

theorem recordOther_spec {log' : RefusalLog Addr}
    (h : log.recordOther summary peer = .ok (v, log')) :
    Recorded log v log' ∧ v.summary = summary ∧ log'.peers = log.peers := by
  rw [recordOther] at h
  obtain ⟨n, hn, h⟩ := bind_eq_ok.mp h
  obtain rfl := add_eq_ok hn
  have hacc : 1 + log.owed + log.summary.otherRefusals =
      0 + 0 + log.owed + (log.summary.otherRefusals + 1) := by omega
  split_ifs at h with hroom hseen
  · cases h
    exact ⟨⟨hacc, rfl, rfl, rfl, rfl, id, fun _ => id⟩, rfl, rfl⟩
  · obtain ⟨m, hm, h⟩ := bind_eq_ok.mp h
    cases h
    exact ⟨⟨hacc, rfl, rfl, rfl, rfl, id, fun _ => id⟩, rfl, rfl⟩
  · cases h
    exact ⟨⟨hacc, rfl, rfl, rfl, rfl, id, fun _ => id⟩, rfl, rfl⟩

theorem recordNew_spec (hpeer : log.peers.get? peer = none)
    {log' : RefusalLog Addr} (h : log.recordNew summary peer now = .ok (v, log')) :
    Recorded log v log' ∧ v.summary = summary ∧
      log'.peers.entries.length ≤ log.peers.entries.length + 1 := by
  have hweight : ∀ e : Option Instant × Nat,
      (log.peers.insert peer e).weight Prod.snd = log.owed + e.2 := by
    intro e
    have := weight_insert Prod.snd log.peers peer e
    rwa [hpeer] at this
  rw [recordNew] at h
  split_ifs at h with hfull
  · obtain ⟨o, ho, h⟩ := bind_eq_ok.mp h
    cases h
    exact ⟨recorded_held (hweight (none, 1)), rfl, length_insert_le ..⟩
  · obtain ⟨n, hn, h⟩ := bind_eq_ok.mp h
    obtain rfl := add_eq_ok hn
    cases h
    exact ⟨recorded_line hfull (hweight (some now, 0)), rfl, length_insert_le ..⟩

/-! ## Eviction and the turn of a window -/

theorem get?_of_stalest {order : Order Addr} {l : Instant} {ip : Addr}
    (h : log.stalest order now = some (l, ip)) : log.peers.get? ip = some (some l, 0) := by
  have hmem := List.argmin_mem h
  obtain ⟨⟨a, last, suppressed⟩, he, hsome⟩ := List.mem_filterMap.mp hmem
  cases last with
  | none => cases hsome
  | some last =>
    dsimp only at hsome
    split_ifs at hsome with hstale
    cases hsome
    rw [← mem_entries, ← hstale.1]
    exact (order.perm log.peers).mem_iff.mp he

/-- `evict_stale` drops one peer, which owes nothing, or none. -/
theorem evictStale_cases (order : Order Addr) (log : RefusalLog Addr) (now : Instant) :
    (∃ l ip, log.peers.get? ip = some (some l, 0) ∧
      log.evictStale order now = (true, { log with peers := log.peers.erase ip })) ∨
      log.evictStale order now = (false, log) := by
  rw [evictStale]
  cases h : log.stalest order now with
  | none => exact Or.inr rfl
  | some e => exact Or.inl ⟨e.1, e.2, get?_of_stalest h, rfl⟩

theorem turn_spec (log : RefusalLog Addr) (now : Instant) :
    (log.turn now).2.peers = log.peers ∧
      (log.turn now).2.interval = log.interval ∧ (log.turn now).2.maxPeers = log.maxPeers ∧
      log.summary.otherRefusals = (log.turn now).1.elim 0 RefusalSummary.otherRefusals +
          (log.turn now).2.summary.otherRefusals ∧
      (log.turn now).2.windowStart = (if log.turns now then some now else log.windowStart) ∧
      (log.turn now).2.linesInWindow = (if log.turns now then 0 else log.linesInWindow) := by
  rw [turn]
  split_ifs with hturns howed
  · simp [RefusalSummary.default]
  · simp
  · simp

end RefusalLog

/-! ## One call -/

/-- What one call does. -/
structure Step (log : RefusalLog Addr) (now : Instant) (v : RefusalVerdict Addr)
    (log' : RefusalLog Addr) : Prop where
  account : 1 + log.owed + log.summary.otherRefusals =
    v.lines + v.carried + v.reported + log'.owed + log'.summary.otherRefusals
  interval : log'.interval = log.interval
  maxPeers : log'.maxPeers = log.maxPeers
  windowStart : log'.windowStart = if log.turns now then some now else log.windowStart
  lines : log'.linesInWindow = (if log.turns now then 0 else log.linesInWindow) + v.lines
  lines_le : log.linesInWindow ≤ maxLines → log'.linesInWindow ≤ maxLines
  room : log.peers.entries.length ≤ log.maxPeers → log'.peers.entries.length ≤ log'.maxPeers
  /-- a peer that is dropped owes nothing -/
  dropped : ∀ q e, log.peers.get? q = some e → log'.peers.get? q = none → e.2 = 0

namespace RefusalLog

theorem weight_erase {V : Type} (f : V → Nat) (m : SortedMap Addr V) {k : Addr} {v : V}
    (h : m.get? k = some v) : (m.erase k).weight f + f v = m.weight f := by
  have hback : (m.erase k).insert k v = m := by
    refine ext_get? fun q => ?_
    rw [get?_insert, get?_erase]
    split_ifs with hq
    · rw [hq, h]
    · rfl
  have hinsert := weight_insert f (m.erase k) k v
  rw [hback, get?_erase, if_pos rfl] at hinsert
  simpa using hinsert.symm

theorem length_eq_weight {V : Type} (m : SortedMap Addr V) :
    m.entries.length = m.weight fun _ => 1 := by
  simp [SortedMap.weight]

/-- **One call** accounts for its refusal and keeps the bounds. -/
theorem record_step (order : Order Addr) {log : RefusalLog Addr} {peer : Addr} {now : Instant}
    {v : RefusalVerdict Addr} {log' : RefusalLog Addr}
    (h : log.record order peer now = .ok (v, log')) : Step log now v log' := by
  obtain ⟨hpeers, hint, hmax, hother, hstart, hlines⟩ := turn_spec log now
  rw [record] at h
  generalize log.turn now = t at h hpeers hint hmax hother hstart hlines
  obtain ⟨summary, t⟩ := t
  dsimp only at h hpeers hint hmax hother hstart hlines
  have hlow : log.linesInWindow ≤ maxLines → t.linesInWindow ≤ maxLines := by
    intro hle
    rw [hlines]
    split_ifs
    · exact Nat.zero_le _
    · exact hle
  have howed : t.owed = log.owed := by rw [owed, owed, hpeers]
  -- what is left to do once the window has turned
  have hfinish : ∀ u : RefusalLog Addr, u.owed = t.owed → u.summary = t.summary →
      u.interval = t.interval → u.maxPeers = t.maxPeers → u.windowStart = t.windowStart →
      u.linesInWindow = t.linesInWindow → Recorded u v log' → v.summary = summary →
      (log.peers.entries.length ≤ log.maxPeers → log'.peers.entries.length ≤ log'.maxPeers) →
      (∀ q e, log.peers.get? q = some e → u.peers.get? q = none → e.2 = 0) →
      Step log now v log' := by
    intro u huowed husum huint humax hustart hulines hrec hsum hroom hdropped
    refine ⟨?_, hrec.interval.trans (huint.trans hint), hrec.maxPeers.trans (humax.trans hmax),
      hrec.windowStart.trans (hustart.trans hstart), ?_, fun hle => hrec.lines_le ?_, hroom,
      fun q e hq hnone => hdropped q e hq (hrec.kept q hnone)⟩
    · have hacc := hrec.account
      rw [huowed, howed, husum] at hacc
      rw [RefusalVerdict.reported, hsum]
      omega
    · rw [hrec.lines, hulines, hlines]
    · rw [hulines]
      exact hlow hle
  have hsame : ∀ q e, log.peers.get? q = some e → t.peers.get? q = none → e.2 = 0 := by
    intro q e hq hnone
    rw [hpeers, hq] at hnone
    cases hnone
  cases hget : t.peers.get? peer with
  | some e =>
    obtain ⟨last, suppressed⟩ := e
    simp only [hget] at h
    obtain ⟨hrec, hsum, hlen⟩ := recordTracked_spec hget h
    refine hfinish t rfl rfl rfl rfl rfl rfl hrec hsum (fun hle => ?_) hsame
    rw [hrec.maxPeers, hmax]
    rw [hpeers] at hlen
    exact hlen.trans hle
  | none =>
    simp only [hget] at h
    split_ifs at h with hfull
    · obtain ⟨l, ip, hip, hevict⟩ | hevict := evictStale_cases order t now
      · simp only [hevict] at h
        have hnone : (t.peers.erase ip).get? peer = none := by
          rw [get?_erase, hget, ite_self]
        have hnew : ({ t with peers := t.peers.erase ip } : RefusalLog Addr).peers.get? peer =
            none := hnone
        obtain ⟨hrec, hsum, hlen⟩ := recordNew_spec hnew h
        have herase := weight_erase (fun _ => 1) t.peers hip
        rw [← length_eq_weight, ← length_eq_weight] at herase
        refine hfinish { t with peers := t.peers.erase ip } ?_ rfl rfl rfl rfl rfl hrec hsum
          (fun hle => ?_) fun q e hq hgone => ?_
        · exact weight_erase Prod.snd t.peers hip
        · rw [hrec.maxPeers]
          change _ ≤ t.maxPeers
          have hlen' : log'.peers.entries.length ≤ (t.peers.erase ip).entries.length + 1 := hlen
          rw [hpeers] at herase hlen'
          omega
        · change (t.peers.erase ip).get? q = none at hgone
          rw [get?_erase] at hgone
          split_ifs at hgone with hq'
          · rw [hpeers, ← hq', hq] at hip
            rw [some.inj hip]
          · exact hsame q e hq hgone
      · simp only [hevict] at h
        obtain ⟨hrec, hsum, hsamePeers⟩ := recordOther_spec h
        refine hfinish t rfl rfl rfl rfl rfl rfl hrec hsum (fun hle => ?_) hsame
        rw [hrec.maxPeers, hmax, hsamePeers, hpeers]
        exact hle
    · obtain ⟨hrec, hsum, hlen⟩ := recordNew_spec hget h
      refine hfinish t rfl rfl rfl rfl rfl rfl hrec hsum (fun _ => ?_) hsame
      rw [hrec.maxPeers]
      omega

end RefusalLog

/-! ## Calls in a row -/

abbrev Call (Addr : Type) : Type := Addr × Instant

def run (order : Order Addr) (log : RefusalLog Addr) :
    List (Call Addr) → Except Panic (List (RefusalVerdict Addr) × RefusalLog Addr)
  | [] => .ok ([], log)
  | c :: calls => do
    let (v, log) ← log.record order c.1 c.2
    let (vs, log) ← run order log calls
    .ok (v :: vs, log)

variable {order : Order Addr} {log log' : RefusalLog Addr} {vs : List (RefusalVerdict Addr)}

variable {calls : List (Call Addr)}

theorem run_cons {c : Call Addr} (h : run order log (c :: calls) = .ok (vs, log')) :
    ∃ v log₁ vs₁, log.record order c.1 c.2 = .ok (v, log₁) ∧
      run order log₁ calls = .ok (vs₁, log') ∧ vs = v :: vs₁ := by
  obtain ⟨⟨v, log₁⟩, hrec, h⟩ := bind_eq_ok.mp h
  obtain ⟨⟨vs₁, log₂⟩, hrun, h⟩ := bind_eq_ok.mp h
  cases h
  exact ⟨v, log₁, vs₁, hrec, hrun, rfl⟩

theorem run_append {calls more : List (Call Addr)}
    (h : run order log (calls ++ more) = .ok (vs, log')) :
    ∃ log₁ vs₁ vs₂, run order log calls = .ok (vs₁, log₁) ∧
      run order log₁ more = .ok (vs₂, log') ∧ vs = vs₁ ++ vs₂ := by
  induction calls generalizing log vs with
  | nil => exact ⟨log, [], vs, rfl, h, rfl⟩
  | cons c calls ih =>
    obtain ⟨v, log₁, vs₁, hrec, hrun, rfl⟩ := run_cons h
    obtain ⟨log₂, ws, ws', hfirst, hrest, rfl⟩ := ih hrun
    refine ⟨log₂, v :: ws, ws', ?_, hrest, rfl⟩
    rw [run, hrec]
    simp only [bind, Except.bind, hfirst]

theorem length_run (h : run order log calls = .ok (vs, log')) : vs.length = calls.length := by
  induction calls generalizing log vs with
  | nil =>
    cases h
    rfl
  | cons c calls ih =>
    obtain ⟨v, log₁, vs₁, -, hrun, rfl⟩ := run_cons h
    simp [ih hrun]

def linesOf (vs : List (RefusalVerdict Addr)) : Nat := (vs.map RefusalVerdict.lines).sum

def carriedBy (vs : List (RefusalVerdict Addr)) : Nat := (vs.map RefusalVerdict.carried).sum

def reportedBy (vs : List (RefusalVerdict Addr)) : Nat := (vs.map RefusalVerdict.reported).sum

/-- **Calls in a row** account for their refusals and keep the bounds. -/
theorem run_account (h : run order log calls = .ok (vs, log')) :
    calls.length + log.owed + log.summary.otherRefusals =
        linesOf vs + carriedBy vs + reportedBy vs + log'.owed + log'.summary.otherRefusals ∧
      log'.interval = log.interval ∧ log'.maxPeers = log.maxPeers ∧
      (log.peers.entries.length ≤ log.maxPeers → log'.peers.entries.length ≤ log'.maxPeers) ∧
      (log.linesInWindow ≤ maxLines → log'.linesInWindow ≤ maxLines) := by
  induction calls generalizing log vs with
  | nil =>
    cases h
    simp [linesOf, carriedBy, reportedBy]
  | cons c calls ih =>
    obtain ⟨v, log₁, vs₁, hrec, hrun, rfl⟩ := run_cons h
    have hstep := RefusalLog.record_step order hrec
    have hacc := hstep.account
    obtain ⟨hrest, hint, hmax, hroom, hlines⟩ := ih hrun
    refine ⟨?_, hint.trans hstep.interval, hmax.trans hstep.maxPeers,
      fun hle => hroom (hstep.room hle), fun hle => hlines (hstep.lines_le hle)⟩
    simp only [linesOf, carriedBy, reportedBy, List.map_cons, List.sum_cons, List.length_cons]
      at hrest ⊢
    omega

/-! ## Windows -/

def nextWindow (interval : Nat) (w : Nat × Option Instant) (c : Call Addr) : Nat × Option Instant :=
  match w.2 with
  | some start => if c.2 - start < interval then w else (w.1 + 1, some c.2)
  | none => (w.1 + 1, some c.2)

def windowsFrom (interval : Nat) (w : Nat × Option Instant) (calls : List (Call Addr)) :
    Nat × Option Instant :=
  calls.foldl (nextWindow interval) w

variable {w : Nat × Option Instant}

theorem nextWindow_eq (h : log.windowStart = w.2) (c : Call Addr) : nextWindow log.interval w c =
      if log.turns c.2 then (w.1 + 1, some c.2) else w := by
  rw [nextWindow, RefusalLog.turns, h]
  cases w.2 with
  | none => rfl
  | some start =>
    by_cases hlt : c.2 - start < log.interval <;> simp [hlt]

omit [LinearOrder Addr] in
theorem windowsFrom_mono (interval : Nat) (w : Nat × Option Instant) (calls : List (Call Addr)) :
    w.1 ≤ (windowsFrom interval w calls).1 := by
  induction calls generalizing w with
  | nil => exact Nat.le_refl _
  | cons c calls ih =>
    refine le_trans ?_ (ih (nextWindow interval w c))
    rw [nextWindow]
    split
    · split_ifs
      · exact Nat.le_refl _
      · exact Nat.le_succ _
    · exact Nat.le_succ _

theorem run_windowStart (hw : log.windowStart = w.2) (h : run order log calls = .ok (vs, log')) :
    log'.windowStart = (windowsFrom log.interval w calls).2 := by
  induction calls generalizing log vs w with
  | nil =>
    cases h
    exact hw
  | cons c calls ih =>
    obtain ⟨v, log₁, vs₁, hrec, hrun, rfl⟩ := run_cons h
    have hstep := RefusalLog.record_step order hrec
    have hnext : log₁.windowStart = (nextWindow log.interval w c).2 := by
      rw [hstep.windowStart, nextWindow_eq hw]
      split_ifs
      · rfl
      · exact hw
    have hlast := ih hnext hrun
    rwa [hstep.interval] at hlast

theorem run_same_window (hw : log.windowStart = w.2) (h : run order log calls = .ok (vs, log'))
    (hsame : (windowsFrom log.interval w calls).1 = w.1) :
    log'.linesInWindow = log.linesInWindow + linesOf vs := by
  induction calls generalizing log vs with
  | nil =>
    cases h
    rfl
  | cons c calls ih =>
    obtain ⟨v, log₁, vs₁, hrec, hrun, rfl⟩ := run_cons h
    have hstep := RefusalLog.record_step order hrec
    have hnext := nextWindow_eq hw c
    rw [windowsFrom, List.foldl_cons] at hsame
    have hstays : log.turns c.2 = false := by
      refine Bool.eq_false_iff.mpr fun hturns => ?_
      have hmono := windowsFrom_mono log.interval (nextWindow log.interval w c) calls
      rw [hnext, if_pos hturns] at hmono hsame
      rw [windowsFrom, hsame] at hmono
      exact absurd hmono (by simp)
    rw [hnext, if_neg (by simp [hstays])] at hsame
    have hstart : log₁.windowStart = w.2 := by
      rw [hstep.windowStart, hstays, ← hw]
      rfl
    have hrest := ih hstart hrun (by rw [hstep.interval]; exact hsame)
    have hlines := hstep.lines
    rw [hstays] at hlines
    simp only [Bool.false_eq_true, if_false] at hlines
    rw [hrest, hlines, linesOf, linesOf, List.map_cons, List.sum_cons, Nat.add_assoc]

def InOneWindow (interval : Nat) (before mid : List (Call Addr)) : Prop :=
  (windowsFrom interval (0, none) (before ++ mid.take 1)).1 =
    (windowsFrom interval (0, none) (before ++ mid)).1

theorem lines_le_of_oneWindow {mid : List (Call Addr)}
    (hw : log.windowStart = w.2) (h : run order log mid = .ok (vs, log'))
    (hone : (windowsFrom log.interval w (mid.take 1)).1 = (windowsFrom log.interval w mid).1) :
    linesOf vs ≤ log'.linesInWindow := by
  cases mid with
  | nil =>
    cases h
    exact Nat.zero_le _
  | cons c mid =>
    obtain ⟨v, log₁, vs₁, hrec, hrun, rfl⟩ := run_cons h
    have hstep := RefusalLog.record_step order hrec
    have hnext : log₁.windowStart = (nextWindow log.interval w c).2 := by
      rw [hstep.windowStart, nextWindow_eq hw]
      split_ifs
      · rfl
      · exact hw
    have hrest := run_same_window hnext hrun (by rw [hstep.interval]; exact hone.symm)
    have hlines := hstep.lines
    rw [hrest, linesOf, linesOf, List.map_cons, List.sum_cons, hlines]
    omega

/-! ## Counters -/

/-- The counters of a log that has recorded so many refusals. -/
structure Small (n : Nat) (log : RefusalLog Addr) : Prop where
  suppressed : ∀ q e, log.peers.get? q = some e → e.2 ≤ n
  otherRefusals : log.summary.otherRefusals ≤ n
  otherAddresses : log.summary.otherAddresses ≤ n
  overLimit : log.summary.overLimit ≤ n
  lines : log.linesInWindow ≤ maxLines

theorem get?_insert_le {n : Nat} {m : SortedMap Addr (Option Instant × Nat)}
    (h : ∀ q e, m.get? q = some e → e.2 ≤ n) {peer : Addr} {e : Option Instant × Nat}
    (he : e.2 ≤ n + 1) : ∀ q e', (m.insert peer e).get? q = some e' → e'.2 ≤ n + 1 := by
  intro q e' hq
  rw [get?_insert] at hq
  split_ifs at hq
  · rw [← some.inj hq]
    exact he
  · exact (h q e' hq).trans (Nat.le_succ n)

namespace Small

variable {n : Nat} {summary : Option (RefusalSummary Addr)} {peer : Addr} {now : Instant}

theorem turn (h : Small n log) (now : Instant) : Small n (log.turn now).2 := by
  obtain ⟨hsup, href, haddr, hover, hlines⟩ := h
  rw [RefusalLog.turn]
  split_ifs
  · exact ⟨hsup, Nat.zero_le _, Nat.zero_le _, Nat.zero_le _, Nat.zero_le _⟩
  · exact ⟨hsup, href, haddr, hover, Nat.zero_le _⟩
  · exact ⟨hsup, href, haddr, hover, hlines⟩

theorem recordTracked (h : Small n log) (hn : n + 1 < 2 ^ 64) {last : Option Instant}
    {suppressed : Nat} (hpeer : log.peers.get? peer = some (last, suppressed)) :
    ∃ v log', log.recordTracked summary peer now last suppressed = .ok (v, log') ∧
      Small (n + 1) log' := by
  obtain ⟨hsup, href, haddr, hover, hlines⟩ := h
  have hsuppressed : suppressed ≤ n := hsup peer _ hpeer
  have hadd : add (2 ^ 64) suppressed 1 = .ok (suppressed + 1) := add_ok (by omega)
  have hkeep : ∀ e : Option Instant × Nat, e.2 ≤ n + 1 →
      ∀ q e', (log.peers.insert peer e).get? q = some e' → e'.2 ≤ n + 1 :=
    fun _ he => get?_insert_le hsup he
  rw [RefusalLog.recordTracked]
  split_ifs with hrecent hfull
  · simp only [hadd, bind, Except.bind]
    exact ⟨_, _, rfl, hkeep _ (Nat.succ_le_succ hsuppressed), Nat.le_succ_of_le href,
      Nat.le_succ_of_le haddr, Nat.le_succ_of_le hover, hlines⟩
  · simp only [hadd, add_ok (show log.summary.overLimit + 1 < 2 ^ 64 by omega), bind, Except.bind]
    exact ⟨_, _, rfl, hkeep _ (Nat.succ_le_succ hsuppressed), Nat.le_succ_of_le href,
      Nat.le_succ_of_le haddr, Nat.succ_le_succ hover, hlines⟩
  · have hsmall : log.linesInWindow < 32 := Nat.not_le.mp hfull
    simp only [add_ok (show log.linesInWindow + 1 < 2 ^ 32 by omega), bind, Except.bind]
    exact ⟨_, _, rfl, hkeep _ (Nat.zero_le _), Nat.le_succ_of_le href, Nat.le_succ_of_le haddr,
      Nat.le_succ_of_le hover, hsmall⟩

theorem recordOther (h : Small n log) (hn : n + 1 < 2 ^ 64) :
    ∃ v log', log.recordOther summary peer = .ok (v, log') ∧ Small (n + 1) log' := by
  obtain ⟨hsup, href, haddr, hover, hlines⟩ := h
  have hsup' : ∀ q e, log.peers.get? q = some e → e.2 ≤ n + 1 := fun q e he =>
    (hsup q e he).trans (Nat.le_succ n)
  simp only [RefusalLog.recordOther, add_ok (show log.summary.otherRefusals + 1 < 2 ^ 64 by omega),
    bind, Except.bind]
  split_ifs
  · exact ⟨_, _, rfl, hsup', Nat.succ_le_succ href, Nat.le_succ_of_le haddr,
      Nat.le_succ_of_le hover, hlines⟩
  · simp only [add_ok (show log.summary.otherAddresses + 1 < 2 ^ 64 by omega)]
    exact ⟨_, _, rfl, hsup', Nat.succ_le_succ href, Nat.succ_le_succ haddr,
      Nat.le_succ_of_le hover, hlines⟩
  · exact ⟨_, _, rfl, hsup', Nat.succ_le_succ href, Nat.le_succ_of_le haddr,
      Nat.le_succ_of_le hover, hlines⟩

theorem recordNew (h : Small n log) (hn : n + 1 < 2 ^ 64) :
    ∃ v log', log.recordNew summary peer now = .ok (v, log') ∧ Small (n + 1) log' := by
  obtain ⟨hsup, href, haddr, hover, hlines⟩ := h
  have hkeep : ∀ e : Option Instant × Nat, e.2 ≤ n + 1 →
      ∀ q e', (log.peers.insert peer e).get? q = some e' → e'.2 ≤ n + 1 :=
    fun _ he => get?_insert_le hsup he
  rw [RefusalLog.recordNew]
  split_ifs with hfull
  · simp only [add_ok (show log.summary.overLimit + 1 < 2 ^ 64 by omega), bind, Except.bind]
    exact ⟨_, _, rfl, hkeep _ (Nat.succ_le_succ (Nat.zero_le _)), Nat.le_succ_of_le href,
      Nat.le_succ_of_le haddr, Nat.succ_le_succ hover, hlines⟩
  · have hsmall : log.linesInWindow < 32 := Nat.not_le.mp hfull
    simp only [add_ok (show log.linesInWindow + 1 < 2 ^ 32 by omega), bind, Except.bind]
    exact ⟨_, _, rfl, hkeep _ (Nat.zero_le _), Nat.le_succ_of_le href, Nat.le_succ_of_le haddr,
      Nat.le_succ_of_le hover, hsmall⟩

theorem record (order : Order Addr) (h : Small n log) (hn : n + 1 < 2 ^ 64) (peer : Addr)
    (now : Instant) : ∃ v log', log.record order peer now = .ok (v, log') ∧ Small (n + 1) log' := by
  have hturn := h.turn now
  rw [RefusalLog.record]
  generalize log.turn now = t at hturn
  obtain ⟨summary, t⟩ := t
  dsimp only at hturn ⊢
  cases hget : t.peers.get? peer with
  | some e => exact hturn.recordTracked hn hget
  | none =>
    dsimp only
    split_ifs
    · obtain ⟨l, ip, -, hevict⟩ | hevict := RefusalLog.evictStale_cases order t now
      · rw [hevict]
        refine recordNew ⟨fun q e he => hturn.suppressed q e ?_, hturn.otherRefusals,
          hturn.otherAddresses, hturn.overLimit, hturn.lines⟩ hn
        change (t.peers.erase ip).get? q = some e at he
        rw [get?_erase] at he
        split_ifs at he
        exact he
      · rw [hevict]
        exact hturn.recordOther hn
    · exact hturn.recordNew hn

theorem run (h : Small n log) (calls : List (Call Addr)) (hn : n + calls.length < 2 ^ 64) :
    ∃ vs log', run order log calls = .ok (vs, log') := by
  induction calls generalizing log n with
  | nil => exact ⟨[], log, rfl⟩
  | cons c calls ih =>
    rw [List.length_cons] at hn
    obtain ⟨v, log₁, hrec, hsmall⟩ := h.record order (by omega) c.1 c.2
    obtain ⟨vs, log', hrun⟩ := ih hsmall (by omega)
    refine ⟨v :: vs, log', ?_⟩
    rw [Refusals.run, hrec]
    simp only [bind, Except.bind, hrun]

end Small

/-! ## The log as a whole -/

structure Accounted (order : Order Addr) (interval maxPeers : Nat) (calls : List (Call Addr))
    (vs : List (RefusalVerdict Addr)) (log : RefusalLog Addr) : Prop where
  conserved : calls.length =
    linesOf vs + carriedBy vs + log.owed + (reportedBy vs + log.summary.otherRefusals)
  room : log.peers.entries.length ≤ maxPeers
  lines : ∀ before mid after, calls = before ++ (mid ++ after) → InOneWindow interval before mid →
    linesOf ((vs.drop before.length).take mid.length) ≤ maxLines
  /-- the next call drops no peer that is owed a count -/
  kept : ∀ peer now v log', log.record order peer now = .ok (v, log') →
    ∀ q e, log.peers.get? q = some e → 0 < e.2 → log'.peers.get? q ≠ none

/-- **No refusal is lost and none counted twice**, whatever calls come: each is a line, is carried
by
one, is owed, or is or will be in a summary. The table and the lines of a window keep their bounds,
and nobody is dropped who is owed a count. Fewer than 2^64 calls overflow no counter. -/
theorem refusals_accounted (order : Order Addr) (interval maxPeers : Nat)
    (calls : List (Call Addr)) :
    (∀ vs log, run order (.new interval maxPeers) calls = .ok (vs, log) →
      Accounted order interval maxPeers calls vs log) ∧
    (calls.length < 2 ^ 64 → ∃ vs log, run order (.new interval maxPeers) calls =
      .ok (vs, log)) := by
  constructor
  · intro vs log h
    obtain ⟨hacc, hint, hmax, hroom, -⟩ := run_account h
    refine ⟨?_, ?_, fun before mid after hcalls hone => ?_,
      fun peer now v log' hrec q e hq hpos => ?_⟩
    · have hzero : (RefusalLog.new interval maxPeers : RefusalLog Addr).owed = 0 := rfl
      have hnone : (RefusalLog.new interval maxPeers : RefusalLog Addr).summary.otherRefusals = 0 :=
        rfl
      omega
    · rw [← show log.maxPeers = maxPeers from hmax]
      exact hroom (Nat.zero_le _)
    · rw [hcalls] at h
      obtain ⟨log₁, vs₁, vs₂, hfirst, hrest, rfl⟩ := run_append h
      obtain ⟨log₂, ws, ws', hmid, -, rfl⟩ := run_append hrest
      obtain ⟨-, hint₁, -, -, hlines₁⟩ := run_account hfirst
      obtain ⟨-, -, -, -, hlines₂⟩ := run_account hmid
      have hstart := run_windowStart (w := (0, none)) rfl hfirst
      rw [← length_run hfirst, ← length_run hmid, List.drop_left, List.take_left]
      refine le_trans (lines_le_of_oneWindow hstart hmid ?_) (hlines₂ (hlines₁ (Nat.zero_le _)))
      rw [InOneWindow, windowsFrom, windowsFrom, List.foldl_append, List.foldl_append] at hone
      rw [hint₁]
      exact hone
    · intro hnone
      have hzero := (RefusalLog.record_step order hrec).dropped q e hq hnone
      omega
  · intro hn
    have hnew : Small 0 (RefusalLog.new interval maxPeers : RefusalLog Addr) :=
      ⟨fun _ _ h => (by cases h), Nat.le_refl _, Nat.le_refl _, Nat.le_refl _, Nat.zero_le _⟩
    exact hnew.run calls (by rwa [Nat.zero_add])

/-- For a table of two peers: a refusal of 2 is owed for a while, and there is no room for 9 until
the others can be dropped. -/
def busyCalls : List (Call Nat) :=
  [(2, 0), (2, 3), (4, 4), (9, 5), (9, 6), (4, 15), (2, 16), (9, 30), (7, 31)]

theorem refusals_accounted_evictions :
    ∃ vs log, run .backwards (.new 10 2) busyCalls = .ok (vs, log) ∧
      Accounted .backwards 10 2 busyCalls vs log ∧
      (linesOf vs, carriedBy vs, reportedBy vs, log.peers.entries) =
        (6, 1, 2, [(7, some 31, 0), (9, some 30, 0)]) := by
  obtain ⟨hall, hreturns⟩ := refusals_accounted .backwards 10 2 busyCalls
  obtain ⟨vs, log, hrun⟩ := hreturns (by decide)
  refine ⟨vs, log, hrun, hall vs log hrun, ?_⟩
  cases hrun
  rfl

end M6.Refusals
