import M6.Core.H1

/-!
# Where a request ends

`parse_request` refuses a request whose end could be read in two ways: two lengths, two codings, or
a
length and a coding. `FramedOnce` says what it means that there is one way only, of the fields as
the
client wrote them. The loop over the headers keeps an account of the lengths and the codings that it
has passed (`Scanned`), from which this follows but for what its text functions let pass: a plus
sign
before a length, white space around a length or a coding, and a coding that is named in two fields
(`framedOnce_iff`).
-/

namespace M6.H1

open List Option Bool Text

/-! ## The fields of a head -/

def fieldTexts (name : String) (headers : List (Str × Bytes)) : List (Option Str) :=
  (headers.filter fun h => eqIgnoreAsciiCase h.1 name.toList).map fun h => Utf8.fromUtf8? h.2

theorem fieldTexts_append (name : String) (hs hs' : List (Str × Bytes)) :
    fieldTexts name (hs ++ hs') = fieldTexts name hs ++ fieldTexts name hs' := by
  rw [fieldTexts, filter_append, map_append]
  rfl

theorem fieldTexts_single (name : String) (h : Str × Bytes) : fieldTexts name [h] =
      if eqIgnoreAsciiCase h.1 name.toList then [Utf8.fromUtf8? h.2] else [] := by
  unfold fieldTexts
  rw [filter_cons]
  cases eqIgnoreAsciiCase h.1 name.toList with
  | false | true => rfl

/-- `1*DIGIT` -/
structure IsDigits (s : Str) : Prop where
  nonempty : s ≠ []
  digits : ∀ c ∈ s, c.isDigit = true

def digitsValue (s : Str) : Nat := s.foldl (fun n c => 10 * n + (c.toNat - 48)) 0

/-- Whether a field is a `Content-Length`. -/
def isContentLength (f : Str × Str) : Bool :=
  eqIgnoreAsciiCase f.1 "content-length".toList

/-- **A request that ends in one place only**, by the fields that the client has sent. -/
inductive FramedOnce (head : HeadLines) (r : RawRequest) : Prop
  /-- neither a length nor a coding -/
  | empty (hte : fieldTexts "transfer-encoding" head.headers = [])
      (hcl : fieldTexts "content-length" head.headers = []) (hbody : r.body = [])
  /-- one length or more, all of the same digits, which are the length of the body -/
  | length {digits : Str} (hte : fieldTexts "transfer-encoding" head.headers = [])
      (hsome : fieldTexts "content-length" head.headers ≠ [])
      (hcl : ∀ t ∈ fieldTexts "content-length" head.headers, t = some digits)
      (hdigits : IsDigits digits) (hvalue : digitsValue digits = r.body.length)
  /-- one coding, in HTTP/1.1, and no length but that of the body, which the parser adds -/
  | chunked {coding : Str} (hte : fieldTexts "transfer-encoding" head.headers = [some coding])
      (hcoding : eqIgnoreAsciiCase coding "chunked".toList = true)
      (hversion : r.version = "HTTP/1.1".toList)
      (hcl : fieldTexts "content-length" head.headers = [])
      (hadded : (r.headers.filter isContentLength).map Prod.snd = [decimal r.body.length])

/-- **Fields that the parser cannot read too kindly.** -/
structure WrittenPlainly (headers : List (Str × Bytes)) : Prop where
  unsigned : ∀ v, some v ∈ fieldTexts "content-length" headers → v.head? ≠ some '+'
  lengths : ∀ v, some v ∈ fieldTexts "content-length" headers → Text.trim v = v
  codings : ∀ v, some v ∈ fieldTexts "transfer-encoding" headers → Text.trim v = v
  once : (fieldTexts "transfer-encoding" headers).length ≤ 1

/-! ## The loop over the headers -/

/-- **What the loop knows of the headers that it has passed.** -/
structure Scanned (headers : List (Str × Bytes)) (s : HeaderScan) : Prop where
  noLength : s.firstCl = none → fieldTexts "content-length" headers = []
  length : ∀ v, s.firstCl = some v → fieldTexts "content-length" headers ≠ [] ∧
    ∀ t ∈ fieldTexts "content-length" headers, ∃ text, t = some text ∧ Text.trim text = v
  noCoding : s.sawTe = false → fieldTexts "transfer-encoding" headers = []
  coding : s.sawTe = true → fieldTexts "transfer-encoding" headers ≠ []
  codings : ∀ t ∈ fieldTexts "transfer-encoding" headers,
    ∃ text, t = some text ∧ isChunked text = true
  /-- a field that goes on was there -/
  fwd : ∀ f ∈ s.fwd, ∃ h ∈ headers, h.1 = f.1

theorem Scanned.nil : Scanned [] ⟨none, 0, false, false, []⟩ where
  noLength := fun _ => rfl
  length := nofun
  noCoding := fun _ => rfl
  coding := nofun
  codings := nofun
  fwd := nofun

variable {s s' : HeaderScan} {h : Str × Bytes}

theorem scanLength_cases (hs : scanLength s h = some s') :
    (eqIgnoreAsciiCase h.1 "content-length".toList = false ∧ s' = s) ∨
      eqIgnoreAsciiCase h.1 "content-length".toList = true ∧
        ∃ text, Utf8.fromUtf8? h.2 = some text ∧
          (s.firstCl = none ∨ s.firstCl = some (Text.trim text)) ∧
          s' = { s with firstCl := some (Text.trim text) } := by
  unfold scanLength at hs
  split_ifs at hs with hname
  · refine .inr ⟨hname, ?_⟩
    cases htext : Utf8.fromUtf8? h.2 with
    | none =>
      rw [htext] at hs
      exact nomatch hs
    | some text =>
      rw [htext, bind_eq_bind, bind_some] at hs
      refine ⟨text, rfl, ?_⟩
      cases hfirst : s.firstCl with
      | none =>
        rw [hfirst] at hs
        exact ⟨.inl rfl, (some.inj hs).symm⟩
      | some first =>
        rw [hfirst] at hs
        dsimp only at hs
        split_ifs at hs with heq
        refine ⟨.inr (congrArg some heq), ?_⟩
        rw [← some.inj hs, ← heq, ← hfirst]
  · exact .inl ⟨eq_false_iff.mpr hname, (some.inj hs).symm⟩

theorem scanHost_cases (hs : scanHost s h = some s') :
    s'.firstCl = s.firstCl ∧ s'.sawTe = s.sawTe ∧ s'.fwd = s.fwd := by
  unfold scanHost at hs
  split_ifs at hs with hname
  · cases htext : Utf8.fromUtf8? h.2 with
    | none =>
      rw [htext] at hs
      cases hs
      exact ⟨rfl, rfl, rfl⟩
    | some v =>
      rw [htext] at hs
      dsimp only at hs
      split_ifs at hs
      all_goals
        cases hs
        exact ⟨rfl, rfl, rfl⟩
  · cases hs
    exact ⟨rfl, rfl, rfl⟩

/-- **What one header can do.** -/
theorem scanHeader_cases (hs : scanHeader s h = some s') :
    (∃ text, eqIgnoreAsciiCase h.1 "transfer-encoding".toList = true ∧
      Utf8.fromUtf8? h.2 = some text ∧ isChunked text = true ∧ s' = { s with sawTe := true }) ∨
    eqIgnoreAsciiCase h.1 "transfer-encoding".toList = false ∧
      ∃ s₁, scanLength s h = some s₁ ∧ s'.firstCl = s₁.firstCl ∧ s'.sawTe = s₁.sawTe ∧
        ∀ f ∈ s'.fwd, f ∈ s₁.fwd ∨ f.1 = h.1 := by
  unfold scanHeader at hs
  split_ifs at hs with hname
  · cases htext : Utf8.fromUtf8? h.2 with
    | none =>
      rw [htext] at hs
      exact nomatch hs
    | some text =>
      rw [htext, bind_eq_bind, bind_some] at hs
      split_ifs at hs with hchunked
      exact .inl ⟨text, hname, rfl, hchunked, (some.inj hs).symm⟩
  · refine .inr ⟨eq_false_iff.mpr hname, ?_⟩
    obtain ⟨s₁, h₁, hs⟩ := bind_eq_some_iff.mp hs
    obtain ⟨s₂, h₂, hs⟩ := bind_eq_some_iff.mp hs
    obtain ⟨hfirst, hte, hfwd⟩ := scanHost_cases h₂
    refine ⟨s₁, h₁, ?_⟩
    cases htext : Utf8.fromUtf8? h.2 with
    | none =>
      rw [htext] at hs
      cases hs
      exact ⟨hfirst, hte, fun f hf => .inl (hfwd ▸ hf)⟩
    | some v =>
      rw [htext] at hs
      cases hs
      refine ⟨hfirst, hte, fun f hf => ?_⟩
      rcases mem_append.mp hf with hf | hf
      · exact .inl (hfwd ▸ hf)
      · rw [mem_singleton.mp hf]
        exact .inr rfl

theorem not_both {name : Str} (h : eqIgnoreAsciiCase name "transfer-encoding".toList = true) :
    eqIgnoreAsciiCase name "content-length".toList = false := by
  unfold eqIgnoreAsciiCase at h ⊢
  rw [eq_of_beq h]
  decide

variable {hs : List (Str × Bytes)}

/-- **One header** keeps the account. -/
theorem Scanned.step
    (hscan : Scanned hs s) (hstep : scanHeader s h = some s') : Scanned (hs ++ [h]) s' := by
  rcases scanHeader_cases hstep with ⟨text, hname, htext, hchunked, rfl⟩ |
    ⟨hname, s₁, h₁, hfirst, hte, hfwd⟩
  · have hcl : fieldTexts "content-length" (hs ++ [h]) = fieldTexts "content-length" hs := by
      rw [fieldTexts_append, fieldTexts_single, not_both hname, if_neg Bool.false_ne_true,
        append_nil]
    have hcodings : fieldTexts "transfer-encoding" (hs ++ [h]) =
        fieldTexts "transfer-encoding" hs ++ [some text] := by
      rw [fieldTexts_append, fieldTexts_single, if_pos hname, htext]
    refine ⟨?_, ?_, nofun, fun _ => ?_, ?_, ?_⟩
    · rw [hcl]
      exact hscan.noLength
    · rw [hcl]
      exact hscan.length
    · rw [hcodings]
      exact append_ne_nil_of_right_ne_nil _ nofun
    · intro t ht
      rw [hcodings] at ht
      rcases mem_append.mp ht with ht | ht
      · exact hscan.codings t ht
      · exact ⟨text, mem_singleton.mp ht, hchunked⟩
    · intro f hf
      obtain ⟨h', hh', heq⟩ := hscan.fwd f hf
      exact ⟨h', mem_append_left _ hh', heq⟩
  · have hcodings : fieldTexts "transfer-encoding" (hs ++ [h]) =
        fieldTexts "transfer-encoding" hs := by
      rw [fieldTexts_append, fieldTexts_single, hname, if_neg Bool.false_ne_true, append_nil]
    have hte₁ : s₁.sawTe = s.sawTe ∧ s₁.fwd = s.fwd := by
      rcases scanLength_cases h₁ with ⟨-, rfl⟩ | ⟨-, text, -, -, rfl⟩
      all_goals exact ⟨rfl, rfl⟩
    have hlengths : (s'.firstCl = none → fieldTexts "content-length" (hs ++ [h]) = []) ∧
        ∀ v, s'.firstCl = some v → fieldTexts "content-length" (hs ++ [h]) ≠ [] ∧
          ∀ t ∈ fieldTexts "content-length" (hs ++ [h]),
            ∃ text, t = some text ∧ Text.trim text = v := by
      rw [hfirst, fieldTexts_append, fieldTexts_single]
      rcases scanLength_cases h₁ with ⟨hno, rfl⟩ | ⟨hyes, text, htext, hagree, rfl⟩
      · rw [hno, if_neg Bool.false_ne_true, append_nil]
        exact ⟨hscan.noLength, hscan.length⟩
      · rw [hyes, if_pos rfl, htext]
        refine ⟨nofun, ?_⟩
        rintro v ⟨⟩
        refine ⟨append_ne_nil_of_right_ne_nil _ nofun, fun t ht => ?_⟩
        rcases mem_append.mp ht with ht | ht
        · rcases hagree with hnone | hsome
          · rw [hscan.noLength hnone] at ht
            exact nomatch ht
          · exact (hscan.length _ hsome).2 t ht
        · exact ⟨text, mem_singleton.mp ht, rfl⟩
    refine ⟨hlengths.1, hlengths.2, ?_, ?_, ?_, ?_⟩
    · rw [hte, hte₁.1, hcodings]
      exact hscan.noCoding
    · rw [hte, hte₁.1, hcodings]
      exact hscan.coding
    · rw [hcodings]
      exact hscan.codings
    · intro f hf
      rcases hfwd f hf with hf | hf
      · obtain ⟨h', hh', heq⟩ := hscan.fwd f (hte₁.2 ▸ hf)
        exact ⟨h', mem_append_left _ hh', heq⟩
      · exact ⟨h, mem_append_right _ (mem_singleton_self h), hf.symm⟩

/-- **All headers.** -/
theorem scanned_of_foldlM {s : HeaderScan}
    (h : hs.foldlM scanHeader ⟨none, 0, false, false, []⟩ = some s) : Scanned hs s := by
  have general (rest : List (Str × Bytes)) : ∀ (done : List (Str × Bytes)) (s₀ : HeaderScan),
      Scanned done s₀ → rest.foldlM scanHeader s₀ = some s → Scanned (done ++ rest) s := by
    induction rest with
    | nil =>
      intro done s₀ hscan hrest
      rw [append_nil, ← some.inj hrest]
      exact hscan
    | cons h rest ih =>
      intro done s₀ hscan hrest
      rw [foldlM_cons] at hrest
      obtain ⟨s₁, h₁, hrest⟩ := bind_eq_some_iff.mp hrest
      rw [append_cons]
      exact ih (done ++ [h]) s₁ (hscan.step h₁) hrest
  exact general hs [] _ .nil h

/-! ## Lengths and codings -/

theorem not_whitespace_of_digit {c : Char} (h : c.isDigit = true) : isWhitespace c = false := by
  have hc : 48 ≤ c.toNat ∧ c.toNat ≤ 57 := by
    simp only [Char.isDigit, and_eq_true, decide_eq_true_eq] at h
    exact ⟨UInt32.le_iff_toNat_le.mp h.1, UInt32.le_iff_toNat_le.mp h.2⟩
  unfold isWhitespace
  simp only [or_eq_false_iff, and_eq_false_iff, decide_eq_false_iff_not, beq_eq_false_iff_ne]
  omega

theorem IsDigits.plain {s : Str} (h : IsDigits s) : s.head? ≠ some '+' ∧ Text.trim s = s := by
  refine ⟨fun hplus => ?_, trim_eq_self fun c hc => not_whitespace_of_digit (h.digits c hc)⟩
  have hdigit := h.digits '+' (mem_of_mem_head? hplus)
  exact absurd hdigit (by decide)

theorem parseUsize_digits {s : Str} {n : Nat} (h : parseUsize s = some n)
    (hplus : s.head? ≠ some '+') : IsDigits s ∧ digitsValue s = n := by
  unfold parseUsize at h
  dsimp only at h
  rw [if_neg hplus] at h
  split_ifs at h with hdigits hlt
  exact ⟨⟨hdigits.1, all_eq_true.mp hdigits.2⟩, some.inj h⟩

theorem toLower_whitespace {c : Char} (h : isWhitespace c = true) : c.toLower = c := by
  unfold Char.toLower
  refine dif_neg fun hupper => ?_
  have hc : 65 ≤ c.toNat ∧ c.toNat ≤ 90 :=
    ⟨UInt32.le_iff_toNat_le.mp hupper.1, UInt32.le_iff_toNat_le.mp hupper.2⟩
  unfold isWhitespace at h
  simp only [or_eq_true, and_eq_true, decide_eq_true_eq, beq_iff_eq] at h
  omega

theorem trim_coding {v : Str} (h : eqIgnoreAsciiCase v "chunked".toList = true) :
    Text.trim v = v := by
  have hlower : v.map Char.toLower = "chunked".toList := eq_of_beq h
  refine trim_eq_self fun c hc => eq_false_iff.mpr fun hwhite => ?_
  have hmem : c ∈ "chunked".toList := by
    rw [← hlower, ← toLower_whitespace hwhite]
    exact mem_map_of_mem hc
  have hletters : ("chunked".toList.all fun c => !isWhitespace c) = true := by decide
  have hblack := all_eq_true.mp hletters c hmem
  rw [hwhite] at hblack
  exact nomatch hblack

theorem isChunked_coding {v : Str} (h : isChunked v = true) (htrim : Text.trim v = v) :
    eqIgnoreAsciiCase v "chunked".toList = true := by
  unfold isChunked at h
  rw [and_eq_true, decide_eq_true_eq] at h
  rw [getLastD_splitOn h.2, htrim] at h
  exact h.1

variable {head : HeadLines}

theorem FramedOnce.plain {r : RawRequest} (h : FramedOnce head r) :
    WrittenPlainly head.headers := by
  cases h with
  | empty hte hcl _ =>
    refine ⟨?_, ?_, ?_, ?_⟩
    · rw [hcl]
      exact nofun
    · rw [hcl]
      exact nofun
    · rw [hte]
      exact nofun
    · rw [hte]
      exact Nat.zero_le 1
  | @length digits hte _ hcl hdigits _ =>
    have heq (v : Str) (hv : some v ∈ fieldTexts "content-length" head.headers) : v = digits :=
      some.inj (hcl _ hv)
    refine ⟨fun v hv => ?_, fun v hv => ?_, ?_, ?_⟩
    · rw [heq v hv]
      exact hdigits.plain.1
    · rw [heq v hv]
      exact hdigits.plain.2
    · rw [hte]
      exact nofun
    · rw [hte]
      exact Nat.zero_le 1
  | @chunked coding hte hcoding _ hcl _ =>
    refine ⟨?_, ?_, fun v hv => ?_, ?_⟩
    · rw [hcl]
      exact nofun
    · rw [hcl]
      exact nofun
    · rw [hte, mem_singleton] at hv
      rw [some.inj hv]
      exact trim_coding hcoding
    · rw [hte]
      exact le_refl 1

/-! ## Requests -/

theorem scanHeaders_spec {headers : List (Str × Str)} {framing : BodyFraming}
    (h : scanHeaders head = some (headers, framing)) :
    ∃ s, Scanned head.headers s ∧ headers = s.fwd ∧
      ((s.sawTe = true ∧ head.version = some 1 ∧ s.firstCl = none ∧ framing = .chunked) ∨
        s.sawTe = false ∧ s.firstCl = none ∧ framing = .length 0 ∨
        ∃ v n, s.sawTe = false ∧ s.firstCl = some v ∧ parseUsize v = some n ∧
          framing = .length n) := by
  unfold scanHeaders at h
  obtain ⟨s, hs, h⟩ := bind_eq_some_iff.mp h
  refine ⟨s, scanned_of_foldlM hs, ?_⟩
  dsimp only at h
  by_cases hhosts : 1 < s.hostCount
  · rw [if_pos hhosts] at h
    exact nomatch h
  rw [if_neg hhosts] at h
  by_cases hhost : head.version = some 1 ∧ (s.hostCount = 0 ∨ s.hostEmpty = true)
  · rw [if_pos hhost] at h
    exact nomatch h
  rw [if_neg hhost] at h
  by_cases hversion : s.sawTe = true ∧ ¬ head.version = some 1
  · rw [if_pos hversion] at h
    exact nomatch h
  rw [if_neg hversion] at h
  by_cases hboth : s.sawTe = true ∧ s.firstCl.isSome = true
  · rw [if_pos hboth] at h
    exact nomatch h
  rw [if_neg hboth] at h
  cases hte : s.sawTe with
  | true =>
    have hnone : s.firstCl = none :=
      not_isSome_iff_eq_none.mp fun hsome => hboth ⟨hte, hsome⟩
    have hone : head.version = some 1 := by
      by_contra hno
      exact hversion ⟨hte, hno⟩
    rw [hnone, hte] at h
    cases h
    exact ⟨rfl, .inl ⟨rfl, hone, hnone, rfl⟩⟩
  | false =>
    cases hfirst : s.firstCl with
    | none =>
      rw [hfirst, hte] at h
      cases h
      exact ⟨rfl, .inr (.inl ⟨rfl, rfl, rfl⟩)⟩
    | some v =>
      rw [hfirst, hte] at h
      obtain ⟨n, hn, heq⟩ := map_eq_some_iff.mp h
      cases heq
      exact ⟨rfl, .inr (.inr ⟨v, n, rfl, rfl, hn, rfl⟩)⟩

theorem Scanned.noLength_fwd {s : HeaderScan} (h : Scanned hs s)
    (hcl : fieldTexts "content-length" hs = []) : s.fwd.filter isContentLength = [] := by
  rw [filter_eq_nil_iff]
  intro f hf hname
  obtain ⟨g, hg, heq⟩ := h.fwd f hf
  have hmem : g ∈ hs.filter fun h => eqIgnoreAsciiCase h.1 "content-length".toList := by
    rw [mem_filter, heq]
    exact ⟨hg, hname⟩
  rw [fieldTexts, map_eq_nil_iff] at hcl
  rw [hcl] at hmem
  exact nomatch hmem

/-- **Fields that are written plainly frame a request once.** -/
theorem framedOnce_of_plain {headers : List (Str × Str)} {framing : BodyFraming}
    (hscan : scanHeaders head = some (headers, framing)) {rest : Bytes} {r : RawRequest}
    (hbody : parseBody head headers rest framing = .complete r)
    (hplain : WrittenPlainly head.headers) : FramedOnce head r := by
  obtain ⟨s, hs, rfl, ⟨hte, hversion, hnone, rfl⟩ | ⟨hte, hnone, rfl⟩ | ⟨v, n, hte,
    hsome, hn, rfl⟩⟩ :=
    scanHeaders_spec hscan
  · obtain ⟨t, ht⟩ : ∃ t, fieldTexts "transfer-encoding" head.headers = [t] := by
      refine length_eq_one_iff.mp (le_antisymm hplain.once ?_)
      exact length_pos_of_ne_nil (hs.coding hte)
    obtain ⟨coding, rfl, hchunked⟩ := hs.codings t (ht ▸ mem_singleton_self t)
    have hcoding := isChunked_coding hchunked (hplain.codings coding (ht ▸ mem_singleton_self _))
    have hcl := hs.noLength hnone
    unfold parseBody at hbody
    dsimp only at hbody
    split at hbody
    · cases hbody
    · cases hbody
    · cases hbody
    next body _ =>
      obtain rfl := ParseResult.complete.inj hbody
      refine .chunked ht hcoding ?_ hcl ?_
      · exact if_pos hversion
      · change ((s.fwd ++ [_]).filter isContentLength).map Prod.snd = _
        rw [filter_append, hs.noLength_fwd hcl]
        rfl
  · unfold parseBody at hbody
    dsimp only at hbody
    split_ifs at hbody
    obtain rfl := ParseResult.complete.inj hbody
    exact .empty (hs.noCoding hte) (hs.noLength hnone) rfl
  · have htexts (t : Option Str) (ht : t ∈ fieldTexts "content-length"
      head.headers) : t = some v := by
      obtain ⟨text, rfl, htrim⟩ := (hs.length v hsome).2 t ht
      rw [← htrim, hplain.lengths text ht]
    have hmem : some v ∈ fieldTexts "content-length" head.headers := by
      obtain ⟨t, ht⟩ := exists_mem_of_ne_nil _ (hs.length v hsome).1
      exact htexts t ht ▸ ht
    obtain ⟨hdigits, hvalue⟩ := parseUsize_digits hn (hplain.unsigned v hmem)
    unfold parseBody at hbody
    dsimp only at hbody
    split_ifs at hbody with hshort
    obtain rfl := ParseResult.complete.inj hbody
    refine .length (hs.noCoding hte) (hs.length v hsome).1 htexts hdigits (hvalue.trans ?_)
    change n = (rest.take n).length
    rw [length_take, min_eq_left (not_lt.mp hshort)]

/-- **A request ends in one place only**, by its fields, exactly if these are written plainly: no
length has a sign, no length or coding has white space around it, and no more than one field names
the coding. The parser refuses all else that could be read in two ways. -/
theorem framedOnce_iff {lib : Httparse} {buf : Bytes} {r : RawRequest}
    (h : parseRequest lib buf = .complete r) :
    ∃ n head, lib.parse buf = .complete n head ∧
      (FramedOnce head r ↔ WrittenPlainly head.headers) := by
  unfold parseRequest at h
  cases hparse : lib.parse buf with
  | incomplete | failed =>
    rw [hparse] at h
    exact nomatch h
  | complete n head =>
    rw [hparse] at h
    dsimp only at h
    refine ⟨n, head, rfl, FramedOnce.plain, ?_⟩
    split_ifs at h
    cases hscan : scanHeaders head with
    | none =>
      rw [hscan] at h
      exact nomatch h
    | some p =>
      obtain ⟨headers, framing⟩ := p
      rw [hscan] at h
      exact framedOnce_of_plain hscan h

def lengthHead (length : String) : Bytes :=
  Utf8.encode ("POST / HTTP/1.1\r\nHost: a\r\nContent-Length: ".toList ++ length.toList ++
    "\r\n\r\n".toList)

def lengthLines (length : String) : HeadLines :=
  ⟨some "POST".toList, some "/".toList, some 1,
    [("Host".toList, Utf8.encode "a".toList), ("Content-Length".toList, Utf8.encode length.toList)]⟩

def lengthHttparse (length : String) : Httparse :=
  .ofHead (lengthHead length) (lengthLines length) (Utf8.encode_ne_nil (by simp))

def lengthRequest (length : String) : RawRequest :=
  ⟨"POST".toList, "/".toList, none, "HTTP/1.1".toList,
    [("Host".toList, "a".toList), ("Content-Length".toList, length.toList)],
    Utf8.encode "hello".toList⟩

theorem plain_length_framed :
    ∃ n head, (lengthHttparse "5").parse (lengthHead "5" ++ Utf8.encode "hello".toList) =
        .complete n head ∧ (FramedOnce head (lengthRequest "5") ↔ WrittenPlainly head.headers) :=
  framedOnce_iff (show parseRequest (lengthHttparse "5")
    (lengthHead "5" ++ Utf8.encode "hello".toList) = .complete (lengthRequest "5") from rfl)

/-- **A length with a sign is accepted.** -/
theorem signed_length_accepted :
    parseRequest (lengthHttparse "+5") (lengthHead "+5" ++ Utf8.encode "hello".toList) =
        .complete (lengthRequest "+5") ∧
      (lengthHttparse "+5").parse (lengthHead "+5" ++ Utf8.encode "hello".toList) =
        .complete (lengthHead "+5").length (lengthLines "+5") ∧
      ¬ FramedOnce (lengthLines "+5") (lengthRequest "+5") := by
  refine ⟨rfl, rfl, fun h => ?_⟩
  have hmem : some "+5".toList ∈ fieldTexts "content-length" (lengthLines "+5").headers := by
    decide
  exact h.plain.unsigned "+5".toList hmem rfl

end M6.H1
