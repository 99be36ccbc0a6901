import Mathlib.Data.List.Infix

/-!
# Messages from a stream of chunks

A stream of messages comes in chunks that need not end where messages end. A reader keeps what has
come since its last message and looks at all of that whenever a chunk comes. If it finds a message
there, it hands the message on and starts again with nothing, so whatever else came with the last
chunk is lost (`messages`).

Such a reader finds the messages of a stream, each at its place, if and only if every message is
read from chunks of its own (`messages_eq_iff`), and `split_iff` says what that is for a reader
whose states between messages are known.
-/

namespace Framing

open List

/-- What a reader makes of what it has. -/
inductive Verdict (σ μ : Type*) where
  | more (s : σ)
  /-- a message, and the state to go on with if it goes on -/
  | message (m : μ) (next : Option σ)
  | refused (next : Option σ)

variable {σ μ β : Type*} (read : σ → List β → Verdict σ μ)

/-- The messages that a reader finds, each with the place in the stream where what it was read
from begins. -/
def messages : Option σ → Nat → List β → List (List β) → List (Nat × μ)
  | none, _, _, _ => []
  | some _, _, _, [] => []
  | some s, start, buf, chunk :: rest =>
    match read s (buf ++ chunk) with
    | .more s => messages (some s) start (buf ++ chunk) rest
    | .message m next => (start, m) :: messages next (start + (buf ++ chunk).length) [] rest
    | .refused next => messages next (start + (buf ++ chunk).length) [] rest

/-- Messages and where they begin, if one follows the other. -/
def numbered : Nat → List (List β × μ) → List (Nat × μ)
  | _, [] => []
  | start, (w, m) :: rest => (start, m) :: numbered (start + w.length) rest

inductive Reads : σ → List β → List (List β) → μ → Option σ → Prop
  | last {s buf chunk m next} : read s (buf ++ chunk) = .message m next →
      Reads s buf [chunk] m next
  | more {s s' buf chunk group m next} : read s (buf ++ chunk) = .more s' →
      Reads s' (buf ++ chunk) group m next → Reads s buf (chunk :: group) m next

inductive Served : Option σ → List (List β × μ) → List (List β) → Prop
  | nil {o} : Served o [] []
  | cons {s group m next msgs chunks} : Reads read s [] group m next → Served next msgs chunks →
      Served (some s) ((group.flatten, m) :: msgs) (group ++ chunks)

def Split (Good : List (List β) → Prop) (msgs : List (List β × μ)) (chunks : List (List β)) :
    Prop :=
  ∃ groups : List (List (List β)), groups.flatten = chunks ∧
    groups.map List.flatten = msgs.map Prod.fst ∧ ∀ group ∈ groups, Good group

variable {read}

theorem messages_none (start : Nat) (buf : List β) (chunks : List (List β)) :
    messages read none start buf chunks = [] := by
  cases chunks <;> rfl

/-! ## Reading one message -/

variable {buf : List β} {group : List (List β)}

theorem Reads.verdict {s : σ} {m : μ} {next : Option σ} (h : Reads read s buf group m next) :
    ∃ s', read s' (buf ++ group.flatten) = .message m next := by
  induction h with
  | last hread => exact ⟨_, by simpa using hread⟩
  | more _ _ ih =>
    obtain ⟨s', hs'⟩ := ih
    exact ⟨s', by rw [flatten_cons, ← append_assoc, hs']⟩

theorem messages_of_reads {s : σ} {m : μ}
    {next : Option σ} (h : Reads read s buf group m next) (start : Nat) (rest : List (List β)) :
    messages read (some s) start buf (group ++ rest) =
      (start, m) :: messages read next (start + (buf ++ group.flatten).length) [] rest := by
  induction h with
  | last hread =>
    rw [singleton_append, messages, hread, flatten_cons, flatten_nil, append_nil]
  | more hread _ ih =>
    rw [cons_append, messages, hread, flatten_cons, ← append_assoc]
    exact ih

variable {chunks : List (List β)} {o : Option σ}

theorem start_le_of_mem {start : Nat}
    {x : Nat × μ} (h : x ∈ messages read o start buf chunks) : start ≤ x.1 := by
  induction chunks generalizing o start buf with
  | nil => cases o <;> cases h
  | cons chunk rest ih =>
    cases o with
    | none => cases h
    | some s =>
      rw [messages] at h
      cases hread : read s (buf ++ chunk) with
      | more s' =>
        rw [hread] at h
        exact ih h
      | message m next =>
        rw [hread] at h
        obtain rfl | h := mem_cons.mp h
        · exact le_rfl
        · exact (Nat.le_add_right _ _).trans (ih h)
      | refused next =>
        rw [hread] at h
        exact (Nat.le_add_right _ _).trans (ih h)

theorem start_le_of_eq_cons {start : Nat}
    {x : Nat × μ} {tail : List (Nat × μ)} (h : messages read o start buf chunks = x :: tail) :
    start ≤ x.1 :=
  start_le_of_mem (by rw [h]; exact mem_cons_self)

theorem reads_of_messages {s : σ} {start : Nat} {m : μ}
    {tail : List (Nat × μ)} (hne : ∀ c ∈ chunks, c ≠ [])
    (h : messages read (some s) start buf chunks = (start, m) :: tail) :
    ∃ group rest next, chunks = group ++ rest ∧ Reads read s buf group m next ∧
      messages read next (start + (buf ++ group.flatten).length) [] rest = tail := by
  induction chunks generalizing s buf with
  | nil => cases h
  | cons chunk rest ih =>
    rw [messages] at h
    cases hread : read s (buf ++ chunk) with
    | more s' =>
      rw [hread] at h
      obtain ⟨group, rest, next, rfl, hreads, htail⟩ :=
        ih (fun c hc => hne c (mem_cons_of_mem _ hc)) h
      refine ⟨chunk :: group, rest, next, rfl, .more hread hreads, ?_⟩
      rw [flatten_cons, ← append_assoc]
      exact htail
    | message m' next =>
      rw [hread] at h
      obtain ⟨hhead, htail⟩ := List.cons.inj h
      obtain rfl : m' = m := congrArg Prod.snd hhead
      refine ⟨[chunk], rest, next, rfl, .last hread, ?_⟩
      rw [flatten_cons, flatten_nil, append_nil]
      exact htail
    | refused next =>
      -- what comes later begins later
      rw [hread] at h
      have hlater : start + (buf ++ chunk).length ≤ start := start_le_of_eq_cons h
      have hpos := length_pos_iff.mpr (hne chunk mem_cons_self)
      rw [length_append] at hlater
      omega

/-! ## Reading a stream -/

variable {msgs : List (List β × μ)}

theorem messages_of_served (h : Served read o msgs chunks) (start : Nat) :
    messages read o start [] chunks = numbered start msgs := by
  induction h generalizing start with
  | nil =>
    rename_i o
    cases o <;> rfl
  | cons hreads _ ih =>
    rw [messages_of_reads hreads, ih, nil_append]
    rfl

theorem eq_nil_of_flatten (hne : ∀ c ∈ chunks, c ≠ []) (h : chunks.flatten = []) : chunks = [] := by
  cases chunks with
  | nil => rfl
  | cons c rest =>
    exact absurd (append_eq_nil_iff.mp h).1 (hne c mem_cons_self)

/-- **A reader finds the messages of a stream, each at its place,** if and only if it reads each
from chunks of its own. The hypothesis is that no message is found in a part of another. -/
theorem messages_eq_iff
    (hfree : ∀ x ∈ msgs, ∀ p s m next, p <+: x.1 → read s p = .message m next → p = x.1)
    (hne : ∀ c ∈ chunks, c ≠ []) (hall : chunks.flatten = (msgs.map Prod.fst).flatten)
    (start : Nat) :
    messages read o start [] chunks = numbered start msgs ↔ Served read o msgs chunks := by
  refine ⟨fun h => ?_, fun h => messages_of_served h start⟩
  induction msgs generalizing o start chunks with
  | nil =>
    obtain rfl := eq_nil_of_flatten hne hall
    exact .nil
  | cons x msgs ih =>
    obtain ⟨w, m⟩ := x
    cases o with
    | none =>
      rw [messages] at h
      cases h
    | some s =>
      obtain ⟨group, rest, next, rfl, hreads, htail⟩ := reads_of_messages hne h
      rw [flatten_append, map_cons, flatten_cons] at hall
      -- the next message begins behind both
      have hle : group.flatten.length ≤ w.length := by
        cases msgs with
        | nil =>
          have := congrArg List.length hall
          simp only [length_append, map_nil, flatten_nil, length_nil] at this
          omega
        | cons y msgs =>
          have hbehind : start + ([] ++ group.flatten).length ≤ start + w.length :=
            start_le_of_eq_cons htail
          rw [nil_append] at hbehind
          omega
      have hprefix : group.flatten <+: w :=
        prefix_of_prefix_length_le ⟨_, hall⟩ (prefix_append _ _) hle
      obtain ⟨s', hs'⟩ := hreads.verdict
      obtain rfl := hfree _ mem_cons_self _ _ _ _ hprefix hs'
      refine .cons hreads (ih (fun y hy => hfree y (mem_cons_of_mem _ hy))
        (fun c hc => hne c (mem_append_right _ hc)) (append_cancel_left hall) _ htail)

/-! ## Good groups -/

/-- A message is read from a group if and only if the reader does not mind what it has after any
chunk of it. The hypotheses say what it makes of parts of the message and of the whole. -/
theorem reads_iff (Last : Prop) (Ok : List β → Prop) (inv : σ → List β → Prop) {w : List β}
    {m : μ} (next : Option σ) {next' : Option σ}
    (hmore : ∀ {s p q}, inv s p → p ++ q <+: w → p ++ q ≠ w → Ok (p ++ q) →
      ∃ s', read s (p ++ q) = .more s' ∧ inv s' (p ++ q))
    (hrefuse : ∀ {s p q}, inv s p → p ++ q <+: w → p ++ q ≠ w → ¬ Ok (p ++ q) →
      ∃ o, read s (p ++ q) = .refused o)
    (hlast : ∀ {s p q}, inv s p → p ++ q = w → Last → read s w = .message m next)
    (hlarge : ∀ {s p q}, inv s p → p ++ q = w → ¬ Last → ∃ o, read s w = .refused o)
    {s : σ} (hs : inv s buf)
    (hw : buf ++ group.flatten = w) (hne : ∀ c ∈ group, c ≠ []) (hgroup : group ≠ []) :
    Reads read s buf group m next' ↔
      (Last ∧ ∀ k < group.length, 0 < k → Ok (buf ++ (group.take k).flatten)) ∧ next' = next := by
  induction group generalizing s buf with
  | nil => exact absurd rfl hgroup
  | cons chunk group ih =>
    cases group with
    | nil =>
      have hw' : buf ++ chunk = w := by simpa using hw
      have hvac : ∀ k < [chunk].length, 0 < k → Ok (buf ++ ([chunk].take k).flatten) := by
        intro k hk hpos
        rw [length_singleton] at hk
        omega
      constructor
      · rintro (hread | ⟨-, ⟨⟩⟩)
        rw [hw'] at hread
        by_cases hL : Last
        · obtain ⟨-, rfl⟩ := Verdict.message.inj ((hlast hs hw' hL).symm.trans hread)
          exact ⟨⟨hL, hvac⟩, rfl⟩
        · obtain ⟨o, ho⟩ := hlarge hs hw' hL
          rw [ho] at hread
          cases hread
      · rintro ⟨⟨hL, -⟩, rfl⟩
        exact .last (by rw [hw', hlast hs hw' hL])
    | cons c group =>
      have hw' : (buf ++ chunk) ++ (c :: group).flatten = w := by
        rw [append_assoc]
        exact hw
      have hprefix : buf ++ chunk <+: w := ⟨_, hw'⟩
      have hproper : buf ++ chunk ≠ w := by
        intro heq
        have : (c :: group).flatten = [] := append_right_eq_self.mp (hw'.trans heq.symm)
        exact hne c (by simp) (append_eq_nil_iff.mp this).1
      have hne' : ∀ d ∈ c :: group, d ≠ [] := fun d hd => hne d (mem_cons_of_mem _ hd)
      by_cases hok : Ok (buf ++ chunk)
      · obtain ⟨s', hread, hs'⟩ := hmore hs hprefix hproper hok
        have hreads : Reads read s buf (chunk :: c :: group) m next' ↔
            Reads read s' (buf ++ chunk) (c :: group) m next' := by
          constructor
          · rintro (_ | ⟨hread', h⟩)
            obtain rfl := Verdict.more.inj (hread.symm.trans hread')
            exact h
          · exact .more hread
        rw [hreads, ih hs' hw' hne' (cons_ne_nil _ _)]
        refine and_congr_left' (and_congr_right' ⟨fun h k hk hpos => ?_, fun h k hk hpos => ?_⟩)
        · obtain ⟨k, rfl⟩ : ∃ j, k = j + 1 := ⟨k - 1, by omega⟩
          rw [take_succ_cons, flatten_cons, ← append_assoc]
          cases k with
          | zero =>
            rw [take_zero, flatten_nil, append_nil]
            exact hok
          | succ k => exact h _ (by simpa using hk) (by omega)
        · have := h (k + 1) (by simpa using hk) (by omega)
          rw [take_succ_cons, flatten_cons, ← append_assoc] at this
          exact this
      · obtain ⟨o, hread⟩ := hrefuse hs hprefix hproper hok
        refine ⟨fun h => ?_, fun h => ?_⟩
        · obtain _ | ⟨hread', -⟩ := h
          rw [hread] at hread'
          cases hread'
        · have := h.1.2 1 (by simp) (by omega)
          rw [take_succ_cons, take_zero, flatten_cons, flatten_nil, append_nil] at this
          exact absurd this hok

theorem served_iff (fresh : Nat → σ) (limit : Nat) (Good : List (List β) → Prop) (i : Nat)
    (hgood : ∀ x ∈ msgs, ∀ j group next, j + 1 < limit → group.flatten = x.1 →
      (∀ c ∈ group, c ≠ []) →
      (Reads read (fresh j) [] group x.2 next ↔ Good group ∧ next = some (fresh (j + 1))))
    (hlimit : i + msgs.length < limit) (hne : ∀ c ∈ chunks, c ≠ []) :
    Served read (some (fresh i)) msgs chunks ↔ Split Good msgs chunks := by
  induction msgs generalizing chunks i with
  | nil =>
    constructor
    · rintro ⟨⟩
      exact ⟨[], rfl, rfl, fun _ h => nomatch h⟩
    · rintro ⟨groups, rfl, hmsgs, -⟩
      obtain rfl := map_eq_nil_iff.mp hmsgs
      exact .nil
  | cons x msgs ih =>
    rw [length_cons] at hlimit
    have hgood' := fun y hy => hgood y (mem_cons_of_mem x hy)
    constructor
    · intro h
      obtain _ | @⟨_, group, m, next, _, rest, hreads, hserved⟩ := h
      obtain ⟨hg, rfl⟩ := (hgood _ mem_cons_self _ _ _ (by omega) rfl
        (fun c hc => hne c (mem_append_left _ hc))).mp hreads
      obtain ⟨groups, rfl, hmsgs, hall⟩ :=
        (ih (i + 1) hgood' (by omega) fun c hc => hne c (mem_append_right _ hc)).mp hserved
      refine ⟨group :: groups, rfl, ?_, forall_mem_cons.mpr ⟨hg, hall⟩⟩
      rw [map_cons, map_cons, hmsgs]
    · rintro ⟨groups, rfl, hmsgs, hall⟩
      cases groups with
      | nil => cases hmsgs
      | cons group groups =>
        obtain ⟨w, m⟩ := x
        rw [map_cons, map_cons] at hmsgs
        obtain ⟨hw, hrest⟩ := List.cons.inj hmsgs
        obtain ⟨hg, hall⟩ := forall_mem_cons.mp hall
        rw [flatten_cons] at hne ⊢
        have hreads := (hgood _ mem_cons_self i _ _ (by omega) hw
          (fun c hc => hne c (mem_append_left _ hc))).mpr ⟨hg, rfl⟩
        simp only at hw
        rw [← hw]
        exact .cons hreads ((ih (i + 1) hgood' (by omega)
          fun c hc => hne c (mem_append_right _ hc)).mpr ⟨groups, rfl, hrest, hall⟩)

end Framing
