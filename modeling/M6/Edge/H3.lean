import M6.Edge.Ingress
import Mathlib.Data.List.Dedup

/-!
# Requests that an HTTP/3 connection holds

`process_h3` takes the events of a connection one by one. A header section makes an
entry of `pending`, data is appended to its body, and the end of the stream dispatches the
entry. What a reset does to an entry is nothing: `bounded_iff` says that the entries stay
those of live streams **exactly when** no stream is reset while it has one, and none gets a
header section after its end.
-/

namespace M6

open List SortedMap

structure PendingRequest where
  headers : List RawField
  body : Bytes
  headersDone : Bool
  deriving DecidableEq

abbrev PendingMap : Type := SortedMap Nat PendingRequest

def maxH3Body : Nat := 20 * 1024 * 1024

/-- What a poll of the connection gives. The reads of `data` are what `recv_body` gives, call
by call, until it fails. -/
inductive H3Event where
  | headers (stream : Nat) (list : List RawField) (moreFrames : Bool)
  | data (stream : Nat) (reads : List Bytes)
  | finished (stream : Nat)
  | reset (stream code : Nat)
  | priorityUpdate (stream : Nat)
  | goAway

/-- What becomes of a request. -/
inductive H3Answer where
  | malformed
  | tooLarge
  | request (req : RawRequest)

def PendingRequest.answer (req : PendingRequest) : H3Answer :=
  match validateRequestHeaderBytes req.headers with
  | .error _ => .malformed
  | .ok _ => .request (h3Request req.headers req.body)

def handleH3Request (stream : Nat) (pending : PendingMap) : PendingMap × List (Nat × H3Answer) :=
  match pending.get? stream with
  | some req => (pending.erase stream, [(stream, req.answer)])
  | none => (pending, [])

def recvBody (stream : Nat) : List Bytes → PendingMap → PendingMap × List (Nat × H3Answer)
  | [], pending => (pending, [])
  | read :: reads, pending =>
    if read = [] then (pending, [])
    else
      match pending.get? stream with
      | some req =>
        if req.body.length + read.length > maxH3Body then
          (pending.erase stream, [(stream, .tooLarge)])
        else recvBody stream reads (pending.insert stream { req with body := req.body ++ read })
      | none => recvBody stream reads pending

def withHeaders (pending : PendingMap) (stream : Nat) (list : List RawField) : PendingMap :=
  let entry := (pending.get? stream).getD ⟨[], [], false⟩
  pending.insert stream { entry with headers := list, headersDone := true }

def h3Step (pending : PendingMap) : H3Event → PendingMap × List (Nat × H3Answer)
  | .headers stream list moreFrames =>
    if moreFrames then (withHeaders pending stream list, [])
    else handleH3Request stream (withHeaders pending stream list)
  | .data stream reads => recvBody stream reads pending
  | .finished stream => handleH3Request stream pending
  | .reset _ _ => (pending, [])
  | .priorityUpdate _ => (pending, [])
  | .goAway => (pending, [])

def processH3 (events : List H3Event) : PendingMap × List (Nat × H3Answer) :=
  events.foldl (fun run e => ((h3Step run.1 e).1, run.2 ++ (h3Step run.1 e).2)) (.empty, [])

def pendingAfter (events : List H3Event) : PendingMap := (processH3 events).1

theorem pendingAfter_append (events : List H3Event) (e : H3Event) :
    pendingAfter (events ++ [e]) = (h3Step (pendingAfter events) e).1 := by
  rw [pendingAfter, processH3, foldl_append]
  rfl

/-! ## Streams -/

namespace H3Event

def stream? : H3Event → Option Nat
  | .headers s _ _ => some s
  | .data s _ => some s
  | .finished s => some s
  | .reset s _ => some s
  | .priorityUpdate s => some s
  | .goAway => none

def ends (s : Nat) : H3Event → Bool
  | .finished s' => s' == s
  | .reset s' _ => s' == s
  | _ => false

end H3Event

def hasEnded (events : List H3Event) (s : Nat) : Bool := events.any (H3Event.ends s)

def openStreams (events : List H3Event) : List Nat :=
  (events.filterMap H3Event.stream?).dedup.filter fun s => !hasEnded events s

/-- What the QUIC library promises: a stream ends once at most, and no more streams are open
than the limit allows. -/
structure QuicheRun (limit : Nat) (events : List H3Event) : Prop where
  endsOnce : ∀ s ∈ events.filterMap H3Event.stream?,
    (events.filter (H3Event.ends s)).length ≤ 1
  limited : ∀ pre ∈ events.inits, (openStreams pre).length ≤ limit

/-- The entries are those of streams that have not ended, none has a body above the cap, and
there are no more of them than streams may be open. -/
structure Held (limit : Nat) (events : List H3Event) : Prop where
  live : ∀ e ∈ (pendingAfter events).entries, hasEnded events e.1 = false
  body : ∀ e ∈ (pendingAfter events).entries, e.2.body.length ≤ maxH3Body
  count : (pendingAfter events).entries.length ≤ limit

def Bounded (limit : Nat) (events : List H3Event) : Prop := ∀ pre ∈ events.inits, Held limit pre

/-- An event that leaves no entry of an ended stream behind: no reset of a stream that has
an entry, and no header section with more to come on a stream that has ended. -/
def Tidy (events : List H3Event) : H3Event → Bool
  | .reset s _ => ((pendingAfter events).get? s).isNone
  | .headers s _ true => !hasEnded events s
  | _ => true

def TidyRun (events : List H3Event) : Prop :=
  ∀ pre e, pre ++ [e] <+: events → Tidy pre e = true

/-! ## One step -/

section

variable {pending : PendingMap} {s : Nat}

theorem get?_handleH3Request (stream : Nat) (pending : PendingMap) (s : Nat) :
    (handleH3Request stream pending).1.get? s = if s = stream then none else pending.get? s := by
  rw [handleH3Request]
  split
  · exact get?_erase _ _ _
  · next hnone =>
    split_ifs with h
    · rw [h, hnone]
    · rfl

theorem get?_withHeaders (list : List RawField) (stream : Nat) :
    (withHeaders pending stream list).get? s =
      if s = stream then some ⟨list, ((pending.get? stream).map PendingRequest.body).getD [], true⟩
      else pending.get? s := by
  rw [withHeaders, get?_insert]
  rcases pending.get? stream with _ | req <;> rfl

theorem get?_recvBody {stream : Nat} {reads : List Bytes} {req : PendingRequest}
    (h : (recvBody stream reads pending).1.get? s = some req) :
    ∃ old, pending.get? s = some old ∧ (req = old ∨ s = stream ∧ req.body.length ≤ maxH3Body) := by
  induction reads generalizing pending with
  | nil => exact ⟨req, h, .inl rfl⟩
  | cons read reads ih =>
    simp only [recvBody] at h
    split_ifs at h with hread
    · exact ⟨req, h, .inl rfl⟩
    split at h
    · next entry hentry =>
      split_ifs at h with hcap
      · rw [get?_erase] at h
        split_ifs at h with hs
        exact ⟨req, h, .inl rfl⟩
      · obtain ⟨old, hold, hreq⟩ := ih h
        rw [get?_insert] at hold
        split_ifs at hold with hs
        · cases hold
          refine ⟨entry, hs ▸ hentry, .inr ⟨hs, ?_⟩⟩
          rcases hreq with rfl | ⟨-, hle⟩
          · rw [length_append]
            omega
          · exact hle
        · exact ⟨old, hold, hreq⟩
    · exact ih h

/-- **What a step can leave.** An entry after a step is an entry from before, with its body
within the cap if it was, or the entry of a header section with more to come. An event that
ends a stream leaves its entry only if it is a reset. -/
theorem h3Step_cases {e : H3Event} {req : PendingRequest}
    (h : (h3Step pending e).1.get? s = some req) :
    (∃ list, e = .headers s list true ∧
        req = ⟨list, ((pending.get? s).map PendingRequest.body).getD [], true⟩) ∨
      ∃ old, pending.get? s = some old ∧ (req = old ∨ req.body.length ≤ maxH3Body) ∧
        (e.ends s = true → ∃ code, e = .reset s code) := by
  cases e with
  | headers stream list moreFrames =>
    cases moreFrames with
    | true =>
      simp only [h3Step, if_true, get?_withHeaders] at h
      split_ifs at h with hs
      · subst hs
        exact .inl ⟨list, rfl, (Option.some.inj h).symm⟩
      · exact .inr ⟨req, h, .inl rfl, fun hends => (nomatch hends)⟩
    | false =>
      simp only [h3Step, Bool.false_eq_true, if_false, get?_handleH3Request] at h
      split_ifs at h with hs
      rw [get?_withHeaders, if_neg hs] at h
      exact .inr ⟨req, h, .inl rfl, fun hends => (nomatch hends)⟩
  | data stream reads =>
    obtain ⟨old, hold, hreq⟩ := get?_recvBody h
    exact .inr ⟨old, hold, hreq.imp id And.right, fun hends => (nomatch hends)⟩
  | finished stream =>
    simp only [h3Step, get?_handleH3Request] at h
    split_ifs at h with hs
    refine .inr ⟨req, h, .inl rfl, fun hends => ?_⟩
    exact absurd (beq_iff_eq.mp hends).symm hs
  | reset stream code =>
    refine .inr ⟨req, h, .inl rfl, fun hends => ⟨code, ?_⟩⟩
    rw [beq_iff_eq.mp hends]
  | priorityUpdate stream | goAway => exact .inr ⟨req, h, .inl rfl, fun hends => (nomatch hends)⟩

end

/-! ## Runs -/

theorem hasEnded_append (events : List H3Event) (e : H3Event) (s : Nat) :
    hasEnded (events ++ [e]) s = (hasEnded events s || e.ends s) := by
  simp [hasEnded]

theorem entry_spec (events : List H3Event) {s : Nat} {req : PendingRequest}
    (h : (pendingAfter events).get? s = some req) :
    req.body.length ≤ maxH3Body ∧ s ∈ events.filterMap H3Event.stream? := by
  induction events using reverseRecOn generalizing s req with
  | nil => cases h
  | append_singleton events e ih =>
    rw [pendingAfter_append] at h
    rw [filterMap_append, mem_append]
    rcases h3Step_cases h with ⟨list, rfl, rfl⟩ | ⟨old, hold, hbody, -⟩
    · refine ⟨?_, .inr (by simp [H3Event.stream?])⟩
      rcases hold : (pendingAfter events).get? s with _ | old
      · exact Nat.zero_le _
      · exact (ih hold).1
    · refine ⟨?_, .inl (ih hold).2⟩
      rcases hbody with rfl | hle
      · exact (ih hold).1
      · exact hle

theorem length_entries_le {events : List H3Event}
    (hlive : ∀ e ∈ (pendingAfter events).entries, hasEnded events e.1 = false) :
    (pendingAfter events).entries.length ≤ (openStreams events).length := by
  have hnodup : ((pendingAfter events).entries.map Prod.fst).Nodup := by
    refine List.Pairwise.map _ (fun a b hab => ?_) (pendingAfter events).sorted
    exact ne_of_lt hab
  have hsub : (pendingAfter events).entries.map Prod.fst ⊆ openStreams events := by
    intro s hs
    obtain ⟨⟨s', req⟩, hmem, rfl⟩ := mem_map.mp hs
    have hseen := (entry_spec events (mem_entries.mp hmem)).2
    exact mem_filter.mpr ⟨mem_dedup.mpr hseen, by simp [hlive _ hmem]⟩
  have hle := (subperm_of_subset hnodup hsub).length_le
  rwa [length_map] at hle

theorem tidyRun_nil : TidyRun [] := by
  intro pre e h
  simp at h

theorem tidyRun_concat {events : List H3Event} {e : H3Event} :
    TidyRun (events ++ [e]) ↔ TidyRun events ∧ Tidy events e = true := by
  constructor
  · intro h
    exact ⟨fun pre e' hpre => h pre e' (hpre.trans (prefix_append events [e])),
      h events e prefix_rfl⟩
  · rintro ⟨hpre, hlast⟩ pre e' hprefix
    rcases prefix_concat_iff.mp hprefix with heq | hprefix
    · obtain ⟨rfl, hlist⟩ := append_inj' heq rfl
      rwa [singleton_inj.mp hlist]
    · exact hpre pre e' hprefix

theorem live_of_tidy {events : List H3Event} (h : TidyRun events) :
    ∀ e ∈ (pendingAfter events).entries, hasEnded events e.1 = false := by
  induction events using reverseRecOn with
  | nil => exact fun e he => (nomatch he)
  | append_singleton events e ih =>
    obtain ⟨hpre, hlast⟩ := tidyRun_concat.mp h
    rintro ⟨s, req⟩ hmem
    rw [mem_entries, pendingAfter_append] at hmem
    rw [hasEnded_append]
    rcases h3Step_cases hmem with ⟨list, rfl, -⟩ | ⟨old, hold, -, hends⟩
    · have hopen : hasEnded events s = false := by simpa [Tidy] using hlast
      rw [hopen]
      rfl
    · have hopen : hasEnded events s = false := ih hpre (s, old) (mem_entries.mpr hold)
      rw [hopen, Bool.false_or]
      by_contra hcontra
      -- only a reset leaves the entry of a stream that it ends
      obtain ⟨code, rfl⟩ := hends (by simpa using hcontra)
      simp [Tidy, hold] at hlast

theorem ended_of_untidy {events : List H3Event} {e : H3Event} (h : Tidy events e = false) :
    ∃ x ∈ (pendingAfter (events ++ [e])).entries, hasEnded (events ++ [e]) x.1 = true := by
  cases e with
  | headers s list moreFrames =>
    cases moreFrames with
    | true =>
      have hentry : (pendingAfter (events ++ [.headers s list true])).get? s =
          some ⟨list, (((pendingAfter events).get? s).map PendingRequest.body).getD [], true⟩ := by
        rw [pendingAfter_append]
        simp only [h3Step, if_true, get?_withHeaders]
      refine ⟨_, mem_entries.mpr hentry, ?_⟩
      have hended : hasEnded events s = true := by simpa [Tidy] using h
      rw [hasEnded_append, hended, Bool.true_or]
    | false => cases h
  | reset s code =>
    rcases hreq : (pendingAfter events).get? s with _ | req
    · simp [Tidy, hreq] at h
    · refine ⟨(s, req), mem_entries.mpr ?_, ?_⟩
      · rw [pendingAfter_append]
        exact hreq
      · rw [hasEnded_append]
        simp [H3Event.ends]
  | data s reads | finished s | priorityUpdate s | goAway => cases h

/-- **When the memory of requests is bounded.** On a connection that keeps the library's
promises, `pending` holds entries of live streams only, within the cap and the stream limit,
after each event, if and only if no stream is reset while it has an entry and none gets a
header section with more to come after its end. -/
theorem bounded_iff {limit : Nat} {events : List H3Event} (hrun : QuicheRun limit events) :
    Bounded limit events ↔ TidyRun events := by
  constructor
  · intro h pre e hpre
    by_contra huntidy
    obtain ⟨x, hx, hended⟩ := ended_of_untidy (by simpa using huntidy)
    have hlive := (h _ ((mem_inits _ _).mpr hpre)).live x hx
    rw [hended] at hlive
    cases hlive
  · intro h pre hpre
    have htidy : TidyRun pre := fun pre' e hpre' =>
      h pre' e (hpre'.trans ((mem_inits _ _).mp hpre))
    have hlive := live_of_tidy htidy
    refine ⟨hlive, ?_, (length_entries_le hlive).trans (hrun.limited pre hpre)⟩
    rintro ⟨s, req⟩ hmem
    exact (entry_spec pre (mem_entries.mp hmem)).1

def h3Post : List RawField :=
  [(lit ":method", lit "POST"), (lit ":scheme", lit "https"), (lit ":authority", lit "example.org"),
    (lit ":path", lit "/")]

theorem bounded_post : Bounded 1 [.headers 0 h3Post true, .data 0 [[1]], .finished 0] := by
  refine (bounded_iff ⟨by decide, by decide⟩).mpr ?_
  refine (@tidyRun_concat [.headers 0 h3Post true, .data 0 [[1]]] _).mpr ⟨?_, by decide⟩
  refine (@tidyRun_concat [.headers 0 h3Post true] _).mpr ⟨?_, by decide⟩
  exact (@tidyRun_concat [] _).mpr ⟨tidyRun_nil, by decide⟩

theorem resets_leave_entries :
    let events : List H3Event := [.headers 0 h3Post true, .reset 0 0x10c, .headers 4 h3Post true,
      .reset 4 0x10c]
    QuicheRun 1 events ∧ (pendingAfter events).entries.length = 2 ∧ ¬ Bounded 1 events := by
  intro events
  have hlength : (pendingAfter events).entries.length = 2 := by decide
  refine ⟨⟨by decide, by decide⟩, hlength, fun h => ?_⟩
  have hcount := (h events ((mem_inits _ _).mpr prefix_rfl)).count
  rw [hlength] at hcount
  exact absurd hcount (by decide)

end M6
