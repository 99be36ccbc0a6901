import M6.Edge.H2Written
import M6.Lib.Machine

/-!
# The stream identifiers of the outbound HTTP/2 client

`dispatch` takes the next odd number from a `u32`, and `push_frame` writes its lower 31 bits.
Nothing stops the counter at the last identifier there is: the request after that goes out under
the identifier of the first.

`soundIds_iff` says for how many requests the identifiers of a connection are sound.
-/

namespace M6

open List

namespace ClientConn

open Failing Machine

variable {hp : Hpack}

/-! ## Identifiers on the wire -/

def wireIds (c : ClientConn hp) : List Nat :=
  (c.sendBuf.filter fun f => f.ftype = .headers).map Frame.stream

theorem wireIds_append {c c' : ClientConn hp} {w : List Frame} (h : c'.sendBuf = c.sendBuf ++ w) :
    c'.wireIds = c.wireIds ++ (w.filter fun f => f.ftype = .headers).map Frame.stream := by
  rw [wireIds, h, filter_append, map_append]
  rfl

theorem Adds.wireIds {c c' : ClientConn hp} (h : Adds c c') : c'.wireIds = c.wireIds := by
  obtain ⟨w, hbuf, hw⟩ := h
  have hnone : (w.filter fun f => f.ftype = .headers) = [] :=
    filter_eq_nil_iff.mpr fun f hf => by simpa using (hw f hf).1
  rw [wireIds_append hbuf, hnone, map_nil, append_nil]

theorem wireIds_credited (c : ClientConn hp) (f : Frame) : (c.credited f).wireIds = c.wireIds := by
  rw [credited]
  split_ifs
  · exact (wireIds_append (append_assoc _ _ _)).trans (append_nil _)
  · rfl

/-- **A frame of the peer opens no stream.** -/
theorem wireIds_receive (kind : ClientKind) (iter : Iter hp) (c : ClientConn hp) (f : Frame) :
    (c.receive kind iter f).wireIds = c.wireIds := by
  have hframe : (c.onFrame kind iter f).wireIds = c.wireIds := by
    by_cases hdata : f.ftype = .data
    · simp only [onFrame, hdata]
      split_ifs
      · rw [(onData_adds kind c f).wireIds, wireIds_credited]
      · rfl
    · exact (onFrame_adds kind iter c hdata).wireIds
  unfold receive
  split_ifs
  · rfl
  · split
    · split_ifs
      · rfl
      · exact hframe
    · exact hframe

/-- **A request opens one**, under the lower bits of the counter. -/
theorem wireIds_dispatch (kind : ClientKind) {c : ClientConn hp} (halive : c.isDead = false)
    (d : Dispatch) : (dispatch kind c d).2.wireIds = c.wireIds ++ [c.nextStreamId % 2 ^ 31] := by
  have hopen : (openStream kind c d).sendBuf = c.sendBuf ++ [headersFrame kind c d] := rfl
  rw [(dispatch_adds kind halive d).wireIds, wireIds_append hopen]
  rfl

/-! ## The counter -/

/-- `dispatch`, with its counter a `u32`. -/
def dispatchChecked (kind : ClientKind) (c : ClientConn hp) (d : Dispatch) :
    Except Panic (Except Str Nat × ClientConn hp) :=
  if c.isDead then .ok (dispatch kind c d)
  else do
    let _ ← add (2 ^ 32) c.nextStreamId 2
    .ok (dispatch kind c d)

section
variable (kind : ClientKind) (iter : Iter hp)

/-- The connection after an event, if the counter did not overflow. -/
def stepChecked (c : ClientConn hp) : ClientEvent → Except Panic (ClientConn hp)
  | .dispatch d => do
    let r ← dispatchChecked kind c d
    .ok r.2
  | e => .ok (step kind iter c e)

def runChecked (c : ClientConn hp) (events : List ClientEvent) : Except Panic (ClientConn hp) :=
  events.foldlM (stepChecked kind iter) c

def opens (c : ClientConn hp) : ClientEvent → Nat
  | .dispatch _ => if c.isDead then 0 else 1
  | _ => 0

/-- How many requests of a run a live connection takes. -/
def dispatched : ClientConn hp → List ClientEvent → Nat
  | _, [] => 0
  | c, e :: events => opens c e + dispatched (step kind iter c e) events

end

def idAt (n : Nat) : Nat := (2 * n + 1) % 2 ^ 31

/-- A connection that has taken `n` requests. -/
structure Counted (n : Nat) (c : ClientConn hp) : Prop where
  next : c.nextStreamId = 2 * n + 1
  ids : c.wireIds = (List.range n).map idAt
  unique : Unique c

theorem counted_connect : Counted 0 (connect hp) := ⟨rfl, rfl, unique_connect⟩

section
variable (kind : ClientKind) (iter : Iter hp)

variable {c : ClientConn hp} {n : Nat}

theorem step_counted (h : Counted n c) (e : ClientEvent) :
    Counted (n + opens c e) (step kind iter c e) := by
  have hunique := step_unique kind iter h.unique e
  cases e with
  | dispatch d =>
    rw [opens]
    by_cases hdead : c.isDead = true
    · rw [if_pos hdead, step_of_dead kind iter hdead]
      exact h
    · have halive : c.isDead = false := Bool.eq_false_iff.mpr hdead
      rw [if_neg hdead]
      refine ⟨?_, ?_, hunique⟩
      · rw [step, dispatch_next kind halive, h.next]
        omega
      · rw [step, wireIds_dispatch kind halive, h.ids, h.next, range_succ, map_append]
        rfl
  | receive f =>
    -- only a request moves the counter
    refine ⟨?_, ?_, hunique⟩
    · exact (receive_settles kind iter c f).next.trans h.next
    · exact (wireIds_receive kind iter c f).trans h.ids
  | lost reason =>
    refine ⟨?_, ?_, hunique⟩
    · rw [step]
      split_ifs
      · exact h.next
      · exact h.next
    · rw [step]
      split_ifs
      · exact h.ids
      · exact h.ids

theorem run_counted (h : Counted n c) (events : List ClientEvent) :
    Counted (n + dispatched kind iter c events) (run kind iter c events) := by
  induction events generalizing n c with
  | nil => exact h
  | cons e events ih =>
    have hrest := ih (step_counted kind iter h e)
    rw [Nat.add_assoc] at hrest
    exact hrest

/-- **The counter overflows** with the request whose identifier is the last of a `u32`. -/
theorem stepChecked_yields (h : Counted n c) (e : ClientEvent) :
    Yields Panic.overflow (stepChecked kind iter c e) (opens c e = 0 ∨ n + 1 < 2 ^ 31)
      (step kind iter c e) := by
  have hdone : ∀ e, opens c e = 0 → stepChecked kind iter c e = .ok (step kind iter c e) →
      Yields Panic.overflow (stepChecked kind iter c e) (opens c e = 0 ∨ n + 1 < 2 ^ 31)
        (step kind iter c e) := fun e hopens hok =>
    ⟨fun _ => hok, fun hno => absurd (Or.inl hopens) hno⟩
  cases e with
  | dispatch d =>
    by_cases hdead : c.isDead = true
    · refine hdone _ (if_pos hdead) ?_
      rw [stepChecked, dispatchChecked, if_pos hdead]
      rfl
    · have hopens : opens c (.dispatch d) = 1 := if_neg hdead
      have hsum : c.nextStreamId + 2 < 2 ^ 32 ↔ opens c (.dispatch d) = 0 ∨ n + 1 < 2 ^ 31 := by
        rw [h.next, hopens]
        omega
      rw [stepChecked, dispatchChecked, if_neg hdead]
      have hcount := (add_yields (2 ^ 32) c.nextStreamId 2).congr hsum
      exact Yields.bind_ok (hcount.bind_ok rfl) rfl
  | receive f | lost reason => exact hdone _ rfl rfl

theorem runChecked_yields (h : Counted n c) (events : List ClientEvent) :
    Yields Panic.overflow (runChecked kind iter c events)
      (dispatched kind iter c events = 0 ∨ n + dispatched kind iter c events < 2 ^ 31)
      (run kind iter c events) := by
  induction events generalizing n c with
  | nil => exact (Yields.of_ok c).congr ⟨fun _ => Or.inl rfl, fun _ => trivial⟩
  | cons e events ih =>
    have hle : opens c e ≤ 1 := by
      cases e with
      | dispatch d =>
        rw [opens]
        split_ifs <;> omega
      | receive f | lost reason => exact Nat.zero_le 1
    -- the first step that fails is the one whose request is one too many
    rw [runChecked, foldlM_cons]
    refine ((stepChecked_yields kind iter h e).bind fun _ =>
      ih (step_counted kind iter h e)).congr ?_
    rw [dispatched]
    omega

/-! ## Sound identifiers -/

/-- A request is opened under a free identifier, or fails where there is none left. -/
structure OpensRight (c : ClientConn hp) (d : Dispatch) : Prop where
  fresh : ∀ id, (dispatch kind c d).2.wireIds = c.wireIds ++ [id] → c.streams.get? id = none
  refused : 2 ^ 31 ≤ c.nextStreamId → ∃ e, (dispatch kind c d).1 = .error e

/-- **The identifiers of a run are sound.** -/
structure SoundIds (events : List ClientEvent) : Prop where
  noOverflow : ∃ c, runChecked kind iter (connect hp) events = .ok c
  increasing : (run kind iter (connect hp) events).wireIds.Pairwise (· < ·)
  inRange : ∀ id ∈ (run kind iter (connect hp) events).wireIds, id % 2 = 1 ∧ id ≤ 2 ^ 31 - 1
  requests : ∀ before d after, events = before ++ .dispatch d :: after →
    OpensRight kind (run kind iter (connect hp) before) d

theorem dispatched_append (c : ClientConn hp) (events more : List ClientEvent) :
    dispatched kind iter c (events ++ more) =
      dispatched kind iter c events + dispatched kind iter (run kind iter c events) more := by
  induction events generalizing c with
  | nil => exact (Nat.zero_add _).symm
  | cons e events ih =>
    rw [cons_append, dispatched, dispatched, ih, Nat.add_assoc]
    rfl

theorem not_increasing (h : 2 ^ 30 < n) : ¬ ((List.range n).map idAt).Pairwise (· < ·) := by
  intro hpairwise
  have hlt : 2 ^ 30 < ((List.range n).map idAt).length := by
    rw [length_map, length_range]
    exact h
  have hfirst := pairwise_iff_getElem.mp hpairwise 0 (2 ^ 30) (Nat.zero_lt_of_lt hlt) hlt
    (by decide)
  rw [getElem_map, getElem_map, getElem_range, getElem_range] at hfirst
  exact absurd hfirst (by decide)

theorem increasing_of_le (h : n ≤ 2 ^ 30) : ((List.range n).map idAt).Pairwise (· < ·) := by
  rw [pairwise_map]
  refine pairwise_lt_range.imp_of_mem fun {a b} ha hb hab => ?_
  have hb' := mem_range.mp hb
  rw [idAt, idAt, Nat.mod_eq_of_lt (by omega), Nat.mod_eq_of_lt (by omega)]
  omega

theorem idAt_odd (n : Nat) : idAt n % 2 = 1 ∧ idAt n ≤ 2 ^ 31 - 1 := by
  rw [idAt]
  omega

theorem opensRight_of_lt (h : Counted n c) (d : Dispatch)
    (hroom : c.isDead = false → n < 2 ^ 30) : OpensRight kind c d := by
  cases hdead : c.isDead with
  | true =>
    have hfails : dispatch kind c d = (.error (kind.label ++ "connection dead".toList), c) :=
      if_pos hdead
    refine ⟨fun id hid => ?_, fun _ => ⟨_, congrArg Prod.fst hfails⟩⟩
    -- a connection that is dead opens nothing
    rw [hfails] at hid
    exact absurd (congrArg List.length hid) (by simp)
  | false =>
    have hn := hroom hdead
    have hlt : c.nextStreamId < 2 ^ 31 := by
      rw [h.next]
      omega
    refine ⟨fun id hid => ?_, fun hfull => absurd hfull (Nat.not_le.mpr hlt)⟩
    rw [wireIds_dispatch kind hdead, Nat.mod_eq_of_lt hlt] at hid
    obtain rfl := singleton_inj.mp (append_cancel_left hid)
    cases hget : c.streams.get? c.nextStreamId with
    | none => rfl
    | some s => exact absurd (h.unique.opened _ (Option.isSome_of_eq_some hget)) (Nat.lt_irrefl _)

variable (events : List ClientEvent)

theorem wireIds_run : (run kind iter (connect hp) events).wireIds =
    (List.range (dispatched kind iter (connect hp) events)).map idAt := by
  have hzero : Counted 0 (connect hp) := counted_connect
  have hcount := (run_counted kind iter hzero events).ids
  rwa [Nat.zero_add] at hcount

theorem SoundIds.dispatched_le {kind : ClientKind} {iter : Iter hp} {events : List ClientEvent}
    (h : SoundIds kind iter events) : dispatched kind iter (connect hp) events ≤ 2 ^ 30 := by
  refine Nat.le_of_not_lt fun hmany => ?_
  have hincreasing := h.increasing
  rw [wireIds_run] at hincreasing
  exact not_increasing hmany hincreasing

/-- **The identifiers are sound** if and only if a live connection takes at most 2^30 requests. -/
theorem soundIds_iff :
    SoundIds kind iter events ↔ dispatched kind iter (connect hp) events ≤ 2 ^ 30 := by
  refine ⟨SoundIds.dispatched_le, fun hfew => ⟨?_, ?_, fun id hid => ?_, ?_⟩⟩
  · have hzero : Counted 0 (connect hp) := counted_connect
    have hrun := runChecked_yields kind iter hzero events
    exact hrun.isOk_iff.mpr (Or.inr (by omega))
  · rw [wireIds_run]
    exact increasing_of_le hfew
  · rw [wireIds_run] at hid
    obtain ⟨n, -, rfl⟩ := mem_map.mp hid
    exact idAt_odd n
  · rintro before d after rfl
    refine opensRight_of_lt kind (run_counted kind iter counted_connect before) d fun halive => ?_
    have hopens : opens (run kind iter (connect hp) before) (.dispatch d) = 1 :=
      if_neg (by rw [halive]; exact Bool.false_ne_true)
    rw [dispatched_append, dispatched, hopens] at hfew
    omega

end

def bareRequest : Dispatch where
  req := ⟨"GET".toList, "/".toList, none, "HTTP/2".toList, [], []⟩
  host := "origin".toList
  clientIp := "203.0.113.7".toList
  originalHost := "site.test".toList

theorem dispatched_replicate (kind : ClientKind) (iter : Iter hp) (d : Dispatch) (n : Nat)
    {c : ClientConn hp} (halive : c.isDead = false) :
    dispatched kind iter c (List.replicate n (.dispatch d)) = n := by
  induction n generalizing c with
  | zero => rfl
  | succ n ih =>
    have hopens : opens c (.dispatch d) = 1 := if_neg (by rw [halive]; exact Bool.false_ne_true)
    have hrest := ih (c := step kind iter c (.dispatch d)) ((dispatch_alive kind c d).trans halive)
    rw [replicate_succ, dispatched, hopens, hrest]
    exact Nat.add_comm 1 n

theorem identifier_again : ¬ ∀ (kind : ClientKind) (iter : Iter plainHpack) events,
    SoundIds kind iter events := by
  intro h
  have hfew := (h .h2cClientConn (fun _ ids => ids)
    (List.replicate (2 ^ 30 + 1) (.dispatch bareRequest))).dispatched_le
  rw [dispatched_replicate _ _ _ _ rfl] at hfew
  exact absurd hfew (by decide)

end ClientConn

end M6
