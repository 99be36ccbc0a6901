import M6.Edge.ResponseReader

/-!
# What is relayed of a response

The edge reads the head of a response line by line, cutting at each `\r\n`, and relays the fields
that it finds. However the bytes arrive it reads the same (`readResponseFor_of_items`). A line may
have a bare line feed in it, or a name that is none: `relayed_iff` says when what is relayed has one
line for each field.
-/

namespace M6

open List

namespace ResponseReader

open Looping Failing H1 BackendBody

variable {source other : Source UInt8}

/-! ## However the head arrives -/

theorem readHead_fits {pos : Nat} {rest : Source UInt8} {buf : Bytes}
    (h : headLoop.run (source, []) = .ok (pos, rest, buf)) :
    buf.length ≤ headRoom ∧ rest.closes = source.closes := by
  have hread : ∀ {r : Reading} {piece next},
      r.2.length ≤ headRoom ∧ r.1.closes = source.closes →
      r.1.read (headRoom - r.2.length) = some (piece, next) →
      (r.2 ++ piece).length ≤ headRoom ∧ next.closes = source.closes := by
    intro r piece next hr hread
    obtain ⟨hlen, hcloses⟩ := Source.le_of_read hread
    refine ⟨?_, hcloses.trans hr.2⟩
    rw [length_append]
    have := hr.1
    omega
  obtain ⟨r, hreach, hlast⟩ := Loop.exists_of_run h
  have hr : r.2.length ≤ headRoom ∧ r.1.closes = source.closes := by
    refine hreach.keeps (P := fun r => r.2.length ≤ headRoom ∧ r.1.closes = source.closes)
      (fun r r' hr hnext => ?_) ⟨Nat.zero_le _, rfl⟩
    obtain ⟨piece, next, hpiece, ⟨n, -, hx⟩ | ⟨-, hx⟩⟩ := headTurn_ok hnext
    · cases hx
    · cases hx
      exact hread hr hpiece
  obtain ⟨piece, next, hpiece, ⟨n, -, hx⟩ | ⟨-, hx⟩⟩ := headTurn_ok hlast
  · obtain ⟨rfl, rfl, rfl⟩ : pos = n ∧ rest = next ∧ buf = r.2 ++ piece := by simpa using hx
    exact hread hr hpiece
  · cases hx

theorem readHead_of_none (hend : headEnd source.items = none) :
    headLoop.run (source, []) = .error (if headRoom ≤ source.items.length then .headTooLarge
      else if source.closes then .closedInHead else .unread) := by
  -- what a turn keeps: nothing is lost, and there is room
  let Kept (r : Reading) : Prop :=
    r.2 ++ r.1.items = source.items ∧ r.2.length < headRoom ∧ r.1.closes = source.closes
  have hnone : ∀ {r : Reading} {piece next}, Kept r →
      r.1.read (headRoom - r.2.length) = some (piece, next) →
      headEnd (r.2 ++ piece) = none ∧ r.2 ++ piece ++ next.items = source.items ∧
        next.closes = source.closes := by
    intro r piece next hr hread
    have hwhole : r.2 ++ piece ++ next.items = source.items := by
      rw [append_assoc, Source.items_of_read hread, hr.1]
    refine ⟨?_, hwhole, (Source.le_of_read hread).2.trans hr.2.2⟩
    cases hfound : headEnd (r.2 ++ piece) with
    | none => rfl
    | some n =>
      have happend := (headEnd_append hfound next.items).1
      rw [hwhole, hend] at happend
      cases happend
  refine Loop.run_unique (P := Kept) (f := fun _ => .error _) ?_ ?_ (source, [])
    ⟨rfl, (by decide : 0 < headRoom), rfl⟩
  · intro r r' hr hnext
    have hlen := headTurn_next hnext
    obtain ⟨piece, next, hread, ⟨n, -, hx⟩ | ⟨-, hx⟩⟩ := headTurn_ok hnext
    · cases hx
    · cases hx
      obtain ⟨-, hwhole, hcloses⟩ := hnone hr hread
      exact ⟨hwhole, hlen.2, hcloses⟩
  · intro r hr
    -- a turn goes on, or there is nothing more to come, or no room
    have hturn : headTurn r = .error (if headRoom ≤ source.items.length then .headTooLarge
        else if source.closes then .closedInHead else .unread) ∨
        ∃ r', headTurn r = .ok (.inl r') := by
      obtain ⟨hwhole, hroom, hcloses⟩ := hr
      obtain ⟨hitems, hread⟩ | ⟨b, piece, next, hread⟩ := r.1.read_cases (Nat.sub_pos_of_lt hroom)
      · rw [hitems, append_nil] at hwhole
        left
        rw [if_neg (by rw [← hwhole]; omega), headTurn, hread, hcloses]
        split_ifs <;> rfl
      · obtain ⟨hunfound, hsplit, -⟩ := hnone ⟨hwhole, hroom, hcloses⟩ hread
        by_cases hfull : headRoom ≤ (r.2 ++ b :: piece).length
        · left
          have hlen := congrArg List.length hsplit
          rw [length_append] at hlen
          rw [if_pos (by omega)]
          simp only [headTurn, hread, hunfound, if_pos hfull]
        · right
          simp only [headTurn, hread, hunfound, if_neg hfull]
          exact ⟨_, rfl⟩
    rw [Loop.after]
    obtain hturn | ⟨r', hturn⟩ := hturn
    all_goals rw [show headLoop.turn r = _ from hturn]

/-! ## However the body arrives -/

theorem readToEnd_of_items {first first' : Bytes}
    (hitems : first ++ source.items = first' ++ other.items)
    (hcloses : source.closes = other.closes) {limit : Nat} (hfirst : first.length ≤ limit)
    (hfirst' : first'.length ≤ limit) :
    (source.readToEnd (limit - first.length + 1)).map (fun got => (first ++ got.1, got.2.items)) =
      (other.readToEnd (limit - first'.length + 1)).map
        fun got => (first' ++ got.1, got.2.items) := by
  rw [Source.readToEnd_behind hfirst, Source.readToEnd_behind hfirst', hitems, hcloses]

theorem readChunkedBody_eq (source : Source UInt8) (first : Bytes) : readChunkedBody source first =
      (((source.readToEnd (maxBackendBody - first.length + 1)).map fun got =>
        (first ++ got.1, got.2.items)).elim (.error (.refuses .unread)) fun got =>
          decodePending got.1) := by
  rw [readChunkedBody]
  cases source.readToEnd (maxBackendBody - first.length + 1) <;> rfl

theorem readBody_of_items (s : Framing) {first first' : Bytes}
    (hitems : first ++ source.items = first' ++ other.items)
    (hcloses : source.closes = other.closes) (hfirst : first.length ≤ maxBackendBody)
    (hfirst' : first'.length ≤ maxBackendBody) :
    readBody s source first = readBody s other first' := by
  have hend := readToEnd_of_items hitems hcloses hfirst hfirst'
  rw [readBody, readBody]
  by_cases hchunked : s.chunked = true
  · rw [if_pos hchunked, if_pos hchunked, readChunkedBody_eq, readChunkedBody_eq, hend]
    have hleft : ∀ {source : Source UInt8} {first : Bytes}, first.length ≤ maxBackendBody →
        (source.skip (maxBackendBody - first.length + 1)).items =
          (first ++ source.items).drop (maxBackendBody + 1) := by
      intro source first hle
      have hsub : maxBackendBody + 1 - first.length = maxBackendBody - first.length + 1 := by omega
      rw [Source.items_skip, drop_append, hsub,
        drop_of_length_le (Nat.le_succ_of_le hle), nil_append]
    rw [hleft hfirst, hleft hfirst', hitems]
  · rw [if_neg hchunked, if_neg hchunked]
    cases s.length with
    | some n =>
      dsimp only
      split_ifs with hlarge
      · rfl
      · have hexact := Source.readExact_behind first n source
        rw [hitems, ← Source.readExact_behind first' n other] at hexact
        cases hread : source.readExact (n - min first.length n) with
        | none =>
          rw [hread] at hexact
          rw [Option.map_eq_none_iff.mp hexact.symm]
        | some got =>
          rw [hread, Option.map_some] at hexact
          obtain ⟨got', hread', heq⟩ := Option.map_eq_some_iff.mp hexact.symm
          rw [hread']
          dsimp only
          rw [← (Prod.mk.inj heq).1, ← (Prod.mk.inj heq).2]
    | none =>
      dsimp only
      cases hread : source.readToEnd (maxBackendBody - first.length + 1) with
      | none =>
        rw [hread] at hend
        rw [Option.map_eq_none_iff.mp hend.symm]
      | some got =>
        rw [hread, Option.map_some] at hend
        obtain ⟨got', hread', heq⟩ := Option.map_eq_some_iff.mp hend.symm
        rw [hread']
        dsimp only
        rw [← (Prod.mk.inj heq).1, ← (Prod.mk.inj heq).2]

/-- **However the bytes arrive**, the same response is read. -/
theorem readResponseFor_of_items (hitems : source.items = other.items)
    (hcloses : source.closes = other.closes) (method : Str) :
    readResponseFor source method = readResponseFor other method := by
  rw [readResponseFor, readResponseFor]
  cases hend : headEnd source.items with
  | none =>
    rw [readHead_of_none hend, readHead_of_none (hitems ▸ hend), hitems, hcloses]
  | some pos =>
    have hend' : headEnd other.items = some pos := hitems ▸ hend
    rcases readHead_of_headEnd hend with ⟨hroom, rest, buf, hrun, hwhole, hlen⟩ | ⟨hroom, hrun⟩
    · rcases readHead_of_headEnd hend' with ⟨-, rest', buf', hrun', hwhole', hlen'⟩ | ⟨hno, -⟩
      · obtain ⟨hbuf, hrest⟩ := readHead_fits hrun
        obtain ⟨hbuf', hrest'⟩ := readHead_fits hrun'
        have hleft : (buf ++ rest.items).take pos = buf.take pos :=
          take_append_of_le_length (by omega)
        have htake : buf.take pos = buf'.take pos := by
          rw [← hleft, hwhole, hitems, ← hwhole', take_append_of_le_length (by omega)]
        have hbehind : buf.drop (pos + 4) ++ rest.items = buf'.drop (pos + 4) ++ rest'.items := by
          rw [← drop_append_of_le_length (by omega), hwhole, hitems, ← hwhole',
            drop_append_of_le_length (by omega)]
        have hfits : ∀ {b : Bytes}, b.length ≤ headRoom →
            (b.drop (pos + 4)).length ≤ maxBackendBody := by
          intro b hb
          have hmax : headRoom ≤ maxBackendBody := by decide
          rw [length_drop]
          omega
        have hbody := fun s => readBody_of_items s hbehind
          (hrest.trans (hcloses.trans hrest'.symm)) (hfits hbuf) (hfits hbuf')
        simp only [hrun, hrun', bind, Except.bind, htake, hbehind, hbody]
      · exact absurd hno (Nat.not_lt.mpr hroom)
    · rcases readHead_of_headEnd hend' with ⟨hno, -⟩ | ⟨-, hrun'⟩
      · exact absurd hroom (Nat.not_lt.mpr hno)
      · rw [hrun, hrun']

/-! ## The fields of a head -/

/-- The lines of a head that are looked at, behind the status line. -/
def fieldLines (text : Str) : List Str := (splitCrlf text).tail.takeWhile (· ≠ [])

theorem headers_of_scanLines {s s' : Framing} {lines : List Str} (h : scanLines s lines = .ok s') :
    s'.headers = s.headers ++ (lines.takeWhile (· ≠ [])).filterMap lineField := by
  induction lines generalizing s with
  | nil =>
    cases h
    exact (append_nil _).symm
  | cons line lines ih =>
    rw [scanLines] at h
    split_ifs at h with hblank
    · cases h
      simp [hblank]
    · rw [takeWhile_cons, if_pos (decide_eq_true hblank), filterMap_cons]
      cases hfield : lineField line with
      | none =>
        rw [hfield] at h
        exact ih h
      | some f =>
        rw [hfield] at h
        obtain ⟨t, hscan, h⟩ := bind_eq_ok.mp h
        rw [scanField] at hscan
        obtain ⟨length, -, hscan⟩ := bind_eq_ok.mp hscan
        cases hscan
        rw [ih h, append_assoc, singleton_append]

theorem headers_of_parseHead {head : Bytes} {status : Nat} {reason : Str} {s : Framing}
    (h : parseHead head = .ok (status, reason, s)) :
    ∃ text, Utf8.fromUtf8? head = some text ∧ s.headers =
      (fieldLines text).filterMap lineField := by
  rw [parseHead] at h
  cases htext : Utf8.fromUtf8? head with
  | none =>
    rw [htext] at h
    cases h
  | some text =>
    refine ⟨text, rfl, ?_⟩
    rw [htext] at h
    dsimp only at h
    cases hsplit : splitCrlf text with
    | nil =>
      rw [hsplit] at h
      cases h
    | cons line lines =>
      rw [hsplit] at h
      obtain ⟨⟨status', reason'⟩, -, h⟩ := bind_eq_ok.mp h
      obtain ⟨s', hscan, h⟩ := bind_eq_ok.mp h
      split_ifs at h
      obtain ⟨rfl, hrest⟩ := Prod.mk.inj (Except.ok.inj h)
      cases hrest
      rw [fieldLines, hsplit, headers_of_scanLines hscan]
      rfl

def sentLines (items : Bytes) : List Str :=
  ((headEnd items).bind fun pos => Utf8.fromUtf8? (items.take pos)).elim [] fieldLines

theorem headers_of_read {method : Str} {r : ReadResponse}
    (h : readResponseFor source method = .ok r) :
    r.headers = (sentLines source.items).filterMap lineField := by
  rw [readResponseFor] at h
  obtain ⟨⟨pos, rest, buf⟩, hrun, h⟩ := bind_eq_ok.mp h
  obtain ⟨hend, hwhole, hlen⟩ := headEnd_of_readHead hrun
  have htake : buf.take pos = source.items.take pos := by
    rw [← hwhole, take_append_of_le_length (by omega)]
  obtain ⟨⟨status, reason, s⟩, hhead, h⟩ := bind_eq_ok.mp h
  dsimp only at hhead h
  rw [htake] at hhead
  obtain ⟨text, htext, hheaders⟩ := headers_of_parseHead hhead
  have hsent : sentLines source.items = fieldLines text := by
    rw [sentLines, hend, Option.bind_some, htext]
    rfl
  rw [hsent, ← hheaders]
  split_ifs at h
  · cases h
    rfl
  · obtain ⟨⟨body, left⟩, -, h⟩ := bind_eq_ok.mp h
    cases h
    rfl

/-! ## What is relayed -/

/-- A field that is one line when it is written: its name is a token, and no line ends in it. -/
structure Relayable (f : Str × Str) : Prop where
  name : h1FieldNameIsSafe f.1 = true
  value : h1FieldValueIsSafe f.2 = true
  oneLine : ∀ c ∈ fieldText f, c ≠ '\r' ∧ c ≠ '\n'

theorem relayable_of_safe {f : Str × Str} (hname : h1FieldNameIsSafe f.1 = true)
    (hvalue : h1FieldValueIsSafe f.2 = true) : Relayable f := by
  refine ⟨hname, hvalue, fun c hc => ?_⟩
  rw [fieldText, append_assoc, mem_append, mem_append] at hc
  rcases hc with hc | hc | hc
  · have hblack := (token_char hname hc).2
    refine ⟨?_, ?_⟩
    all_goals
      rintro rfl
      exact absurd hblack (by decide)
  · have hall : ": ".toList.all (fun c => c ≠ '\r' && c ≠ '\n') = true := by decide
    simpa using all_eq_true.mp hall c hc
  · simp only [h1FieldValueIsSafe, Bool.not_eq_true', any_eq_false] at hvalue
    have hplain := hvalue c hc
    simp only [Bool.or_eq_true, beq_iff_eq, not_or] at hplain
    exact hplain.1

/-- A line with a token in front of its first colon and no line end behind it, blanks apart. -/
def IsPlainLine (line : Str) : Prop :=
  ∀ name value, Text.cutAt ':' line = (name, some value) →
    h1FieldNameIsSafe (Text.trim name) = true ∧ h1FieldValueIsSafe (Text.trim value) = true

theorem relayable_iff_plain (lines : List Str) :
    (∀ f ∈ lines.filterMap lineField, Relayable f) ↔ ∀ line ∈ lines, IsPlainLine line := by
  constructor
  · intro h line hline name value hcut
    have hfield : lineField line = some (Text.trim name, Text.trim value) := by
      rw [lineField, hcut]
    have hf := h _ (mem_filterMap.mpr ⟨line, hline, hfield⟩)
    exact ⟨hf.name, hf.value⟩
  · intro h f hf
    obtain ⟨line, hline, hfield⟩ := mem_filterMap.mp hf
    rw [lineField] at hfield
    cases hcut : Text.cutAt ':' line with
    | mk name rest =>
      rw [hcut] at hfield
      cases rest with
      | none => cases hfield
      | some value =>
        cases hfield
        obtain ⟨hname, hvalue⟩ := h line hline name value hcut
        exact relayable_of_safe hname hvalue

/-- **What is relayed**: however the bytes arrive, the same is read; and the fields of a response
that is read are one line each if and only if the lines of its head are plain. -/
theorem relayed_iff (source : Source UInt8) (method : Str) :
    (∀ other : Source UInt8, other.items = source.items → other.closes = source.closes →
      readResponseFor other method = readResponseFor source method) ∧
    ∀ r, readResponseFor source method = .ok r →
      ((∀ f ∈ r.headers, Relayable f) ↔ ∀ line ∈ sentLines source.items, IsPlainLine line) := by
  refine ⟨fun other hitems hcloses => readResponseFor_of_items hitems hcloses method, ?_⟩
  intro r hr
  rw [headers_of_read hr]
  exact relayable_iff_plain _

def brokenLine : Source UInt8 where
  pieces := [Utf8.encode "HTTP/1.1 204 No Content\r\nX-A: a\nSet-Cookie: b\r\n\r\n".toList]
  arrives := by decide
  closes := true

theorem broken_line_relayed : ¬ ∀ (source : Source UInt8) (method : Str),
      (∀ other : Source UInt8, other.items = source.items → other.closes = source.closes →
        readResponseFor other method = readResponseFor source method) ∧
      ∀ r, readResponseFor source method = .ok r → ∀ f ∈ r.headers, Relayable f := by
  intro h
  have hread : readResponseFor brokenLine "GET".toList = .ok
      { status := 204
        reason := "No Content".toList
        headers := [("X-A".toList, "a\nSet-Cookie: b".toList)]
        body := []
        left := [] } := by
    have hrun : headLoop.run (brokenLine, []) = .ok (45, brokenLine.skip 49, brokenLine.items) :=
      Loop.run_of_answer rfl
    rw [readResponseFor, hrun]
    rfl
  have hf := (h brokenLine _).2 _ hread _ mem_cons_self
  exact absurd hf.value (by decide)

end ResponseReader

end M6
