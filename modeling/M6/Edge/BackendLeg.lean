import M6.Edge.OwnFields
import M6.Core.RequestFraming
import M6.Core.Target

/-!
# The bytes of a forwarded request

`forward_request_timeout` and `build_forwarded_request_bytes` write a request as HTTP/1.1, and the
parser of `h1.rs` reads it on the other side. The fields of a request come from three protocols, two
of which can carry any byte in them; `check_forwardable` refuses what would be read as something
else.

`received_iff` says of which requests the backend gets what the edge has routed on.
-/

namespace M6

open List H1

/-! ## The writers -/

def requestTarget (req : RawRequest) : Str :=
  req.path ++ match req.query with
    | some q => if q = [] then [] else '?' :: q
    | none => []

def requestHead (req : RawRequest) (fields : List (Str × Str)) : Str :=
  req.method ++ " ".toList ++ requestTarget req ++ " HTTP/1.1".toList ++ crlf ++
    fields.flatMap fieldLine ++ crlf

def leavingFields (upstream : Option Str) (req : RawRequest) (clientIp originalHost : Str) :
    List (Str × Str) :=
  match upstream with
  | none => forwardedFields req clientIp originalHost
  | some host => urlForwardedFields host req clientIp originalHost

def requestBytes (upstream : Option Str) (req : RawRequest) (clientIp originalHost : Str) : Bytes :=
  Utf8.encode (requestHead req (leavingFields upstream req clientIp originalHost)) ++ req.body

/-! ## What the library is given -/

/-- A head whose lines are those that were meant. -/
structure CleanHead (method target : Str) (fields : List (Str × Str)) : Prop where
  method : method ≠ [] ∧ ∀ c ∈ method, 0x21 ≤ c.toNat ∧ c.toNat ≤ 0x7e
  target : ∀ c ∈ target, c ≠ '\r' ∧ c ≠ '\n' ∧ c ≠ '\x00' ∧ c ≠ ' '
  names : ∀ f ∈ fields, h1FieldNameIsSafe f.1 = true
  values : ∀ f ∈ fields, h1FieldValueIsSafe f.2 = true

def rawField (f : Str × Str) : Str × Bytes := (f.1, Utf8.encode (trimOws f.2))

/-- The library reads a clean head line by line, or refuses it: for more than 64 fields, or a
character that it does not take. -/
def ReadsHead (lib : Httparse) (req : RawRequest) (fields : List (Str × Str)) : Prop :=
  CleanHead req.method (requestTarget req) fields →
    lib.parse (Utf8.encode (requestHead req fields)) = .failed ∨
    lib.parse (Utf8.encode (requestHead req fields)) =
      .complete (Utf8.encode (requestHead req fields)).length
        ⟨some req.method, some (requestTarget req), some 1, fields.map rawField⟩

/-! ## The headers at the backend -/

def hostText (v : Str) : Str := Text.trim (trimOws v)

def isHostTaken (v : Str) : Bool := hostText v = [] || hostIsValid (hostText v)

variable {f : Str × Str}

theorem scanHeader_rawField (s : HeaderScan)
    (hte : Text.eqIgnoreAsciiCase f.1 "transfer-encoding".toList = false) :
    scanHeader s (rawField f) =
      (scanLength s (rawField f)).bind fun s => (scanHost s (rawField f)).bind fun s =>
        some { s with fwd := s.fwd ++ [asRead f] } := by
  have htext : Utf8.fromUtf8? (rawField f).2 = some (trimOws f.2) := Utf8.fromUtf8?_encode _
  have hname : (rawField f).1 = f.1 := rfl
  rw [scanHeader, hname, hte, htext]
  rfl

theorem scanLength_rawField {s : HeaderScan} {d : Str}
    (hf : Text.eqIgnoreAsciiCase f.1 "content-length".toList = true → Text.trim (trimOws f.2) = d)
    (hs : s.firstCl = none ∨ s.firstCl = some d) : scanLength s (rawField f) = some
      { s with firstCl :=
          if Text.eqIgnoreAsciiCase f.1 "content-length".toList then some d else s.firstCl } := by
  have htext : Utf8.fromUtf8? (rawField f).2 = some (trimOws f.2) := Utf8.fromUtf8?_encode _
  have hname : (rawField f).1 = f.1 := rfl
  rw [scanLength, hname, htext]
  cases hcl : Text.eqIgnoreAsciiCase f.1 "content-length".toList with
  | false => rfl
  | true =>
    obtain ⟨first, count, empty, te, fwd⟩ := s
    obtain rfl | rfl : first = none ∨ first = some d := hs
    · simp [hf hcl]
    · simp [hf hcl]

theorem scanHost_rawField (s : HeaderScan) (f : Str × Str) : scanHost s (rawField f) =
      if Text.eqIgnoreAsciiCase f.1 "host".toList then
        if isHostTaken f.2 then some
          { s with
            hostCount := s.hostCount + 1
            hostEmpty := s.hostEmpty || hostText f.2 = [] }
        else none
      else some s := by
  have htext : Utf8.fromUtf8? (rawField f).2 = some (trimOws f.2) := Utf8.fromUtf8?_encode _
  have hname : (rawField f).1 = f.1 := rfl
  rw [scanHost, hname, htext, isHostTaken, hostText]
  cases Text.eqIgnoreAsciiCase f.1 "host".toList with
  | false => rfl
  | true =>
    by_cases hblank : Text.trim (trimOws f.2) = []
    · simp [hblank]
    · cases hvalid : hostIsValid (Text.trim (trimOws f.2)) with
      | false | true => simp [hblank, hvalid]

theorem scanHeader_step {s : HeaderScan} {d : Str}
    (hte : Text.eqIgnoreAsciiCase f.1 "transfer-encoding".toList = false)
    (hf : Text.eqIgnoreAsciiCase f.1 "content-length".toList = true → Text.trim (trimOws f.2) = d)
    (hs : s.firstCl = none ∨ s.firstCl = some d) : scanHeader s (rawField f) =
      if Text.eqIgnoreAsciiCase f.1 "host".toList && !isHostTaken f.2 then none
      else some
        { firstCl :=
            if Text.eqIgnoreAsciiCase f.1 "content-length".toList then some d else s.firstCl
          hostCount := s.hostCount + if Text.eqIgnoreAsciiCase f.1 "host".toList then 1 else 0
          hostEmpty :=
            s.hostEmpty || (Text.eqIgnoreAsciiCase f.1 "host".toList && hostText f.2 = [])
          sawTe := s.sawTe
          fwd := s.fwd ++ [asRead f] } := by
  rw [scanHeader_rawField s hte, scanLength_rawField hf hs, Option.bind_some, scanHost_rawField]
  generalize hostText f.2 = text
  cases Text.eqIgnoreAsciiCase f.1 "host".toList with
  | false =>
    rw [Bool.false_and, if_neg Bool.false_ne_true, Option.bind_some, Bool.false_and, Bool.or_false]
    rfl
  | true =>
    cases isHostTaken f.2 with
    | false => rfl
    | true =>
      rw [Bool.true_and]
      rfl

theorem fieldValues_cons (f : Str × Str) (fs : List (Str × Str)) (name : Str) :
    fieldValues (f :: fs) name =
      if Text.eqIgnoreAsciiCase f.1 name then f.2 :: fieldValues fs name
      else fieldValues fs name := by
  rw [fieldValues, filter_cons]
  cases Text.eqIgnoreAsciiCase f.1 name <;> rfl

/-- **The loop over headers that were written.** -/
theorem foldlM_rawField {fs : List (Str × Str)} {d : Str}
    (hte : ∀ f ∈ fs, Text.eqIgnoreAsciiCase f.1 "transfer-encoding".toList = false)
    (hcl : ∀ v ∈ fieldValues fs "content-length".toList, Text.trim (trimOws v) = d)
    {s : HeaderScan} (hs : s.firstCl = none ∨ s.firstCl = some d) :
    (fs.map rawField).foldlM scanHeader s =
      if (fieldValues fs "host".toList).all isHostTaken then some
        { firstCl := if fieldValues fs "content-length".toList = [] then s.firstCl else some d
          hostCount := s.hostCount + (fieldValues fs "host".toList).length
          hostEmpty := s.hostEmpty || (fieldValues fs "host".toList).any fun v => hostText v = []
          sawTe := s.sawTe
          fwd := s.fwd ++ fs.map asRead }
      else none := by
  induction fs generalizing s with
  | nil => simp [fieldValues]
  | cons f fs ih =>
    have hhere : Text.eqIgnoreAsciiCase f.1 "content-length".toList = true →
        Text.trim (trimOws f.2) = d := by
      intro hname
      refine hcl _ ?_
      rw [fieldValues_cons, if_pos hname]
      exact mem_cons_self
    have hrest : ∀ v ∈ fieldValues fs "content-length".toList, Text.trim (trimOws v) = d := by
      intro v hv
      refine hcl v ?_
      rw [fieldValues_cons]
      split_ifs
      · exact mem_cons_of_mem _ hv
      · exact hv
    have hfs := fun g hg => hte g (mem_cons_of_mem _ hg)
    rw [map_cons, foldlM_cons, scanHeader_step (hte f mem_cons_self) hhere hs,
      fieldValues_cons, fieldValues_cons]
    have hs₁ : (if Text.eqIgnoreAsciiCase f.1 "content-length".toList then some d else s.firstCl) =
        none ∨ (if Text.eqIgnoreAsciiCase f.1 "content-length".toList then some d
          else s.firstCl) = some d := by
      split_ifs
      · exact .inr rfl
      · exact hs
    -- a length that is met once more is the one that was met before
    have hfirst : (if fieldValues fs "content-length".toList = [] then
          (if Text.eqIgnoreAsciiCase f.1 "content-length".toList then some d else s.firstCl)
        else some d) =
        if (if Text.eqIgnoreAsciiCase f.1 "content-length".toList then
              f.2 :: fieldValues fs "content-length".toList
            else fieldValues fs "content-length".toList) = [] then s.firstCl else some d := by
      cases Text.eqIgnoreAsciiCase f.1 "content-length".toList with
      | true => rw [if_pos rfl, if_pos rfl, ite_self, if_neg (cons_ne_nil _ _)]
      | false => rfl
    rw [← hfirst]
    cases Text.eqIgnoreAsciiCase f.1 "host".toList with
    | false =>
      refine (ih hfs hrest hs₁).trans ?_
      rw [Bool.false_and, Bool.or_false, map_cons, append_assoc]
      rfl
    | true =>
      simp only [if_true, all_cons, any_cons, length_cons, Bool.true_and]
      cases isHostTaken f.2 with
      | false => rfl
      | true =>
        refine (ih hfs hrest hs₁).trans ?_
        rw [Bool.true_and, Bool.or_assoc, map_cons, append_assoc, Nat.add_assoc, Nat.add_comm 1]
        rfl

theorem isDigits_decimal (n : Nat) : IsDigits (decimal n) :=
  ⟨Nat.toDigits_ne_nil, fun _ hc => Nat.isDigit_of_mem_toDigits (by decide) (by decide) hc⟩

theorem parseUsize_decimal (n : Nat) :
    parseUsize (decimal n) = if n < 2 ^ 64 then some n else none := by
  have hvalue : digitsValue (decimal n) = n := by
    rw [digitsValue, decimal]
    have hten : Nat.ofDigitChars 10 (Nat.toDigits 10 n) 0 = n := Nat.ofDigitChars_ten_toDigits
    rwa [Nat.ofDigitChars_eq_foldl] at hten
  obtain ⟨hne, hdigits⟩ := isDigits_decimal n
  rw [parseUsize, if_neg (isDigits_decimal n).plain.1]
  dsimp only
  rw [if_pos ⟨hne, all_eq_true.mpr hdigits⟩, ← digitsValue, hvalue]

theorem trimOws_eq_self {s : Str} (h : ∀ c ∈ s, isOws c = false) : trimOws s = s := by
  have hleft : s.dropWhile isOws = s := by
    cases s with
    | nil => rfl
    | cons c s =>
      exact dropWhile_cons_of_neg (by rw [h c mem_cons_self]; exact Bool.false_ne_true)
  rw [trimOws, hleft]
  refine rdropWhile_eq_self_iff.mpr fun hne => ?_
  rw [h _ (getLast_mem hne)]
  exact Bool.false_ne_true

theorem trim_decimal (n : Nat) : Text.trim (trimOws (decimal n)) = decimal n := by
  have hows : ∀ c ∈ decimal n, isOws c = false := by
    intro c hc
    have hblack := not_whitespace_of_digit ((isDigits_decimal n).digits c hc)
    rw [isOws, Bool.or_eq_false_iff, beq_eq_false_iff_ne, beq_eq_false_iff_ne]
    refine ⟨?_, ?_⟩
    all_goals
      rintro rfl
      exact absurd hblack (by decide)
  rw [trimOws_eq_self hows, (isDigits_decimal n).plain.2]

def NamesOneHost (fields : List (Str × Str)) : Prop :=
  ∃ host, fieldValues fields "host".toList = [host] ∧ hostText host ≠ [] ∧
    hostIsValid (hostText host) = true

/-- The fields of a request with a body of so many bytes, as they are written. -/
structure FieldsFor (n : Nat) (fields : List (Str × Str)) : Prop where
  coding : ∀ f ∈ fields, Text.eqIgnoreAsciiCase f.1 "transfer-encoding".toList = false
  length : fieldValues fields "content-length".toList = if n = 0 then [] else [decimal n]

variable {fields : List (Str × Str)}

theorem scan_written {n : Nat} (h : FieldsFor n fields) :
    (fields.map rawField).foldlM scanHeader ⟨none, 0, false, false, []⟩ =
      if (fieldValues fields "host".toList).all isHostTaken then some
        { firstCl := if n = 0 then none else some (decimal n)
          hostCount := (fieldValues fields "host".toList).length
          hostEmpty := (fieldValues fields "host".toList).any fun v => hostText v = []
          sawTe := false
          fwd := fields.map asRead }
      else none := by
  have hcl : ∀ v ∈ fieldValues fields "content-length".toList,
      Text.trim (trimOws v) = decimal n := by
    intro v hv
    rw [h.length] at hv
    split_ifs at hv
    · exact nomatch hv
    · obtain rfl := mem_singleton.mp hv
      exact trim_decimal n
  rw [foldlM_rawField h.coding hcl (.inl rfl), h.length]
  by_cases hn : n = 0
  · simp only [hn, if_true, Nat.zero_add, Bool.false_or, nil_append]
  · simp only [hn, if_false, cons_ne_nil, Nat.zero_add, Bool.false_or, nil_append]

/-- **The headers of a request that was written** are taken as they are, or not at all. -/
theorem scanHeaders_written {n : Nat} (h : FieldsFor n fields) (method target : Str) :
    (NamesOneHost fields ∧ n < 2 ^ 64 ∧
      scanHeaders ⟨some method, some target, some 1, fields.map rawField⟩ =
        some (fields.map asRead, .length n)) ∨ ¬ (NamesOneHost fields ∧ n < 2 ^ 64) ∧
      scanHeaders ⟨some method, some target, some 1, fields.map rawField⟩ = none := by
  have hnone : ∀ {P : Prop}, (fieldValues fields "host".toList).length ≠ 1 →
      NamesOneHost fields → P := by
    rintro P hlen ⟨host, hhost, -⟩
    rw [hhost] at hlen
    exact absurd rfl hlen
  rw [scanHeaders]
  dsimp only
  rw [scan_written h]
  cases hall : (fieldValues fields "host".toList).all isHostTaken with
  | false =>
    refine .inr ⟨?_, rfl⟩
    rintro ⟨⟨host, hhost, -, hvalid⟩, -⟩
    rw [hhost, all_cons, isHostTaken, hvalid, Bool.or_true] at hall
    exact nomatch hall
  | true =>
    cases hhosts : fieldValues fields "host".toList with
    | nil => exact .inr ⟨fun hboth => hnone (by rw [hhosts]; decide) hboth.1, rfl⟩
    | cons host more =>
      cases more with
      | cons second more =>
        refine .inr ⟨fun hboth => hnone (by rw [hhosts]; simp) hboth.1, ?_⟩
        simp
      | nil =>
        by_cases hblank : hostText host = []
        · refine .inr ⟨?_, by simp [hblank]⟩
          rintro ⟨⟨host', hhost', hne, -⟩, -⟩
          rw [hhosts] at hhost'
          obtain ⟨rfl, -⟩ := List.cons.inj hhost'
          exact hne hblank
        · have hvalid : hostIsValid (hostText host) = true := by
            rw [hhosts, all_cons, all_nil, Bool.and_true, isHostTaken] at hall
            simpa [hblank] using hall
          have hone : NamesOneHost fields := ⟨host, hhosts, hblank, hvalid⟩
          by_cases hn : n = 0
          · refine .inl ⟨hone, by omega, ?_⟩
            simp [hblank, hn]
          · by_cases hlarge : n < 2 ^ 64
            · have hlength : parseUsize (decimal n) = some n := by
                rw [parseUsize_decimal, if_pos hlarge]
              refine .inl ⟨hone, hlarge, ?_⟩
              simp [hblank, hn, hlength]
            · have hlength : parseUsize (decimal n) = none := by
                rw [parseUsize_decimal, if_neg hlarge]
              refine .inr ⟨fun hboth => hlarge hboth.2, ?_⟩
              simp [hblank, hn, hlength]

/-! ## No line of its own -/

theorem hasBareLf_append {bs : Bytes} (h : (0x0a : UInt8) ∉ bs) (previous : UInt8) (rest : Bytes) :
    hasBareLf previous (bs ++ rest) = hasBareLf (bs.getLast?.getD previous) rest := by
  induction bs generalizing previous with
  | nil => rfl
  | cons b bs ih =>
    have hb : (b == 0x0a) = false := beq_eq_false_iff_ne.mpr fun heq => h (heq ▸ mem_cons_self)
    rw [cons_append, hasBareLf, hb, Bool.false_and, Bool.false_or,
      ih fun hmem => h (mem_cons_of_mem _ hmem)]
    cases bs with
    | nil => rfl
    | cons c bs => rw [getLast?_cons_cons, getLast?_eq_some_getLast (cons_ne_nil _ _)]; rfl

theorem hasBareLf_line {l : Str} (h : '\n' ∉ l) (previous : UInt8) (rest : Str) :
    hasBareLf previous (Utf8.encode (l ++ crlf ++ rest)) = hasBareLf 0x0a (Utf8.encode rest) := by
  rw [Utf8.encode_append, Utf8.encode_append, append_assoc,
    hasBareLf_append (Utf8.not_mem_encode (c := '\n') (by decide) h)]
  rfl

theorem hasBareLf_fields (h : ∀ f ∈ fields, '\n' ∉ f.1 ∧ '\n' ∉ f.2) :
    hasBareLf 0x0a (Utf8.encode (fields.flatMap fieldLine ++ crlf)) = false := by
  induction fields with
  | nil => decide
  | cons f fields ih =>
    obtain ⟨hname, hvalue⟩ := h f mem_cons_self
    have hline : '\n' ∉ f.1 ++ ": ".toList ++ f.2 := by
      simp only [mem_append, not_or]
      exact ⟨⟨hname, by decide⟩, hvalue⟩
    rw [flatMap_cons, append_assoc, fieldLine, hasBareLf_line hline]
    exact ih fun g hg => h g (mem_cons_of_mem _ hg)

theorem not_mem_safe_value {v : Str} (h : h1FieldValueIsSafe v = true) : '\n' ∉ v := by
  intro hmem
  rw [h1FieldValueIsSafe, Bool.not_eq_true', any_eq_false] at h
  exact h '\n' hmem (by decide)

theorem not_mem_safe_name {name : Str} (h : h1FieldNameIsSafe name = true) : '\n' ∉ name := by
  intro hmem
  rw [h1FieldNameIsSafe, Bool.and_eq_true, all_eq_true] at h
  exact absurd (h.2 '\n' hmem) (by decide)

variable {req : RawRequest}

/-- **A clean head** has no bare line feed. -/
theorem hasBareLf_requestHead (h : CleanHead req.method (requestTarget req) fields) :
    hasBareLf 0 (Utf8.encode (requestHead req fields)) = false := by
  have hline : '\n' ∉ req.method ++ " ".toList ++ requestTarget req ++ " HTTP/1.1".toList := by
    simp only [mem_append, not_or]
    refine ⟨⟨⟨fun hmem => ?_, by decide⟩, fun hmem => (h.target _ hmem).2.1 rfl⟩, by decide⟩
    exact absurd (h.method.2 _ hmem).1 (by decide)
  rw [requestHead, append_assoc _ (fields.flatMap fieldLine), hasBareLf_line hline]
  exact hasBareLf_fields fun f hf =>
    ⟨not_mem_safe_name (h.names f hf), not_mem_safe_value (h.values f hf)⟩

/-! ## What the check lets through -/

theorem isSafe_of_subset {a b : Str} (h : h1FieldValueIsSafe a = true) (hsub : ∀ c ∈ b, c ∈ a) :
    h1FieldValueIsSafe b = true := by
  rw [h1FieldValueIsSafe, Bool.not_eq_true', any_eq_false] at h ⊢
  exact fun c hc => h c (hsub c hc)

/-- The value of `Via` is as safe as what it is appended to. -/
theorem isSafe_viaValue {prior : Option Str} (version : Str)
    (h : ∀ v, prior = some v → h1FieldValueIsSafe v = true) :
    h1FieldValueIsSafe (viaValue prior version) = true := by
  have hmine : h1FieldValueIsSafe (viaValue none version) = true := by
    rw [viaValue]
    split_ifs <;> decide
  cases prior with
  | none => exact hmine
  | some v =>
    rw [viaValue_some]
    split_ifs with hblank
    · rw [valueIsSafe_append, valueIsSafe_append, hmine,
        isSafe_of_subset (h v rfl) fun c hc => Text.mem_of_mem_trim hc]
      rfl
    · exact hmine

structure Checked (req : RawRequest) (clientIp originalHost : Str) : Prop where
  method : req.method ≠ [] ∧ ∀ c ∈ req.method, 0x21 ≤ c.toNat ∧ c.toNat ≤ 0x7e
  path : ∀ c ∈ req.path, c ≠ '\r' ∧ c ≠ '\n' ∧ c ≠ '\x00' ∧ c ≠ ' '
  query : ∀ q, req.query = some q → ∀ c ∈ q, c ≠ '\r' ∧ c ≠ '\n' ∧ c ≠ '\x00' ∧ c ≠ ' '
  clientIp : h1FieldValueIsSafe clientIp = true
  originalHost : h1FieldValueIsSafe originalHost = true
  fields : ∀ f ∈ req.headers, skipWhenForwarding f.1 = false →
    h1FieldNameIsSafe f.1 = true ∧ h1FieldValueIsSafe f.2 = true

variable {clientIp originalHost : Str}

theorem checked_of_forwardable (h : checkForwardable req clientIp originalHost = true) :
    Checked req clientIp originalHost := by
  have htext : ∀ {s : Str}, (!s.any fun c => c == '\r' || c == '\n' || c == '\x00' || c == ' ') =
      true → ∀ c ∈ s, c ≠ '\r' ∧ c ≠ '\n' ∧ c ≠ '\x00' ∧ c ≠ ' ' := by
    intro s hs c hc
    rw [Bool.not_eq_true', any_eq_false] at hs
    have hnone := hs c hc
    simp only [Bool.or_eq_true, beq_iff_eq, not_or] at hnone
    exact ⟨hnone.1.1.1, hnone.1.1.2, hnone.1.2, hnone.2⟩
  simp only [checkForwardable, Bool.and_eq_true, all_cons, all_nil, Bool.and_true] at h
  obtain ⟨⟨⟨⟨hne, hmethod⟩, hpath, hquery⟩, hip, hhost⟩, hfields⟩ := h
  rw [all_eq_true] at hmethod hfields
  refine ⟨⟨of_decide_eq_true hne, fun c hc => ?_⟩, htext hpath, fun q hq => ?_, hip, hhost,
    fun f hf hskip => ?_⟩
  · have hchar := hmethod c hc
    simp only [Bool.and_eq_true, decide_eq_true_eq] at hchar
    exact hchar.1
  · rw [hq] at hquery
    exact htext hquery
  · have hsafe := hfields f hf
    rw [hskip, Bool.false_or, Bool.and_eq_true] at hsafe
    exact hsafe

theorem safe_proxyFields (h : Checked req clientIp originalHost) :
    ∀ f ∈ proxyFields req clientIp originalHost,
      h1FieldNameIsSafe f.1 = true ∧ h1FieldValueIsSafe f.2 = true := by
  have hvia : ∀ v, (fieldValues req.headers "via".toList).getLast? = some v →
      h1FieldValueIsSafe v = true := by
    intro v hv
    obtain ⟨f, hf, rfl⟩ := mem_map.mp (mem_of_getLast? hv)
    obtain ⟨hmem, hname⟩ := mem_filter.mp hf
    refine (h.fields f hmem ?_).2
    rw [skipWhenForwarding, any_congr hname, any_congr hname]
    decide
  have hdigits : h1FieldValueIsSafe (decimal req.body.length) = true := by
    rw [h1FieldValueIsSafe, Bool.not_eq_true', any_eq_false]
    intro c hc
    have hdigit := (isDigits_decimal _).digits c hc
    simp only [Bool.or_eq_true, beq_iff_eq, not_or]
    refine ⟨⟨?_, ?_⟩, ?_⟩ <;>
    · rintro rfl
      exact absurd hdigit (by decide)
  intro f hf
  simp only [proxyFields, mem_append, mem_ite_nil_left, mem_cons, not_mem_nil, or_false] at hf
  obtain (((rfl | ⟨-, rfl⟩) | (rfl | rfl | rfl)) | ⟨-, rfl⟩) | rfl := hf
  · exact ⟨rfl, isSafe_viaValue _ hvia⟩
  · exact ⟨rfl, h.originalHost⟩
  · exact ⟨rfl, h.clientIp⟩
  · exact ⟨rfl, rfl⟩
  · exact ⟨rfl, h.originalHost⟩
  · exact ⟨rfl, hdigits⟩
  · exact ⟨rfl, rfl⟩

theorem not_skip_of_isCopied {nominated : List Str}
    (h : isCopied nominated f = true) : skipWhenForwarding f.1 = false := by
  rw [isCopied, Bool.and_eq_true, Bool.and_eq_true, Bool.not_eq_true', Bool.not_eq_true'] at h
  exact h.1.2

theorem mem_leavingFields {upstream : Option Str}
    (hf : f ∈ leavingFields upstream req clientIp originalHost) :
    (f ∈ req.headers ∧ isCopied (connectionNominated req.headers) f = true) ∨
      f ∈ proxyFields req clientIp originalHost ∨
      ∃ host, upstream = some host ∧ f = ("Host".toList, host) := by
  cases upstream with
  | none =>
    obtain hf | hf := mem_append.mp hf
    · exact .inl (mem_filter.mp hf)
    · exact .inr (.inl hf)
  | some host =>
    obtain hf | hf := mem_append.mp hf
    · obtain rfl | hf := mem_cons.mp hf
      · exact .inr (.inr ⟨host, rfl, rfl⟩)
      · obtain ⟨hmem, hboth⟩ := mem_filter.mp hf
        exact .inl ⟨hmem, (Bool.and_eq_true_iff.mp hboth).1⟩
    · exact .inr (.inl hf)

/-- **What the check lets through is written as a clean head.** -/
theorem cleanHead_of_forwardable {upstream : Option Str}
    (h : checkForwardable req clientIp originalHost = true)
    (hup : ∀ host, upstream = some host → h1FieldValueIsSafe host = true) :
    CleanHead req.method (requestTarget req)
      (leavingFields upstream req clientIp originalHost) := by
  have hchecked := checked_of_forwardable h
  have hsafe : ∀ f ∈ leavingFields upstream req clientIp originalHost,
      h1FieldNameIsSafe f.1 = true ∧ h1FieldValueIsSafe f.2 = true := by
    intro f hf
    obtain ⟨hmem, hcopied⟩ | hown | ⟨host, hhost, rfl⟩ := mem_leavingFields hf
    · exact hchecked.fields f hmem (not_skip_of_isCopied hcopied)
    · exact safe_proxyFields hchecked f hown
    · exact ⟨rfl, hup host hhost⟩
  refine ⟨hchecked.method, fun c hc => ?_, fun f hf => (hsafe f hf).1, fun f hf => (hsafe f hf).2⟩
  rw [requestTarget] at hc
  obtain hc | hc := mem_append.mp hc
  · exact hchecked.path c hc
  · cases hq : req.query with
    | none =>
      rw [hq] at hc
      exact nomatch hc
    | some q =>
      rw [hq] at hc
      dsimp only at hc
      split_ifs at hc
      · exact nomatch hc
      · obtain rfl | hc := mem_cons.mp hc
        · decide
        · exact hchecked.query q hq c hc

theorem fieldsFor_leavingFields (upstream : Option Str) (req : RawRequest)
    (clientIp originalHost : Str) :
    FieldsFor req.body.length (leavingFields upstream req clientIp originalHost) := by
  constructor
  · intro f hf
    obtain ⟨-, hcopied⟩ | hown | ⟨host, -, rfl⟩ := mem_leavingFields hf
    · have hskip := not_skip_of_isCopied hcopied
      rw [skipWhenForwarding, Bool.or_eq_false_iff] at hskip
      exact Bool.eq_false_iff.mpr (any_eq_false.mp hskip.1 _ (by decide))
    · have hnames : ∀ n ∈ "Via".toList :: ownNames,
          Text.eqIgnoreAsciiCase n "transfer-encoding".toList = false := by decide
      obtain ⟨rest, heq, hrest⟩ := proxyFields_eq req clientIp originalHost
      rw [heq] at hown
      obtain rfl | hown := mem_cons.mp hown
      · exact hnames _ mem_cons_self
      · exact hnames _ (mem_cons_of_mem _ (hrest f hown))
    · rfl
  · have hforwarded : fieldValues (forwardedFields req clientIp originalHost)
        "content-length".toList =
        if req.body.length = 0 then [] else [decimal req.body.length] := by
      have hadded : fieldValues (proxyFields req clientIp originalHost) "content-length".toList =
          if req.body = [] then [] else [decimal req.body.length] := by
        rw [proxyFields]
        by_cases hhost : originalHost = [] ∨ containsHeader req.headers "host".toList
        · rw [if_pos hhost]
          split_ifs <;> rfl
        · rw [if_neg hhost]
          split_ifs <;> rfl
      rw [forwardedFields, fieldValues_append, fieldValues_isCopied, if_pos (by rfl), hadded,
        nil_append]
      simp only [length_eq_zero_iff]
    cases upstream with
    | none => exact hforwarded
    | some host =>
      exact (fieldValues_url host req clientIp originalHost (by decide)).trans hforwarded

/-! ## At the backend -/

/-- A target that is read as the path and the query it was made of. -/
structure RoutedAlike (req : RawRequest) : Prop where
  scheme : isAbsoluteForm req.path = false
  path : '?' ∉ req.path
  query : req.query ≠ some []

theorem hasScheme_requestTarget (req : RawRequest) :
    isAbsoluteForm (requestTarget req) = isAbsoluteForm req.path := by
  rw [requestTarget]
  cases req.query with
  | none => rw [append_nil]
  | some q =>
    dsimp only
    split_ifs
    · rw [append_nil]
    · exact hasScheme_question _ _

/-- **The target at the backend.** -/
theorem routedAlike_iff (req : RawRequest) :
    Text.cutAt '?' (stripAbsoluteForm (requestTarget req)) = (req.path, req.query) ↔
      RoutedAlike req := by
  constructor
  · intro h
    have hpath : '?' ∉ req.path := by
      have hcut := Text.not_mem_cutAt '?' (stripAbsoluteForm (requestTarget req))
      rwa [h] at hcut
    have hscheme : isAbsoluteForm req.path = false := by
      rw [Bool.eq_false_iff]
      intro habsolute
      have hslash := head?_stripAbsoluteForm ((hasScheme_requestTarget req).trans habsolute)
      obtain ⟨t, ht⟩ := head?_eq_some_iff.mp hslash
      rw [ht, Text.cutAt, if_neg (by decide)] at h
      obtain ⟨c, hc, halpha⟩ := head?_of_scheme habsolute
      have hfst : '/' :: (Text.cutAt '?' t).1 = req.path := congrArg Prod.fst h
      rw [← hfst, head?_cons] at hc
      rw [← Option.some.inj hc] at halpha
      exact absurd halpha (by decide)
    refine ⟨hscheme, hpath, fun hquery => ?_⟩
    rw [stripAbsoluteForm_of_no_scheme ((hasScheme_requestTarget req).trans hscheme),
      requestTarget, hquery] at h
    dsimp only at h
    rw [if_pos rfl, append_nil, Text.cutAt_of_absent hpath] at h
    cases congrArg Prod.snd h
  · rintro ⟨hscheme, hpath, hquery⟩
    rw [stripAbsoluteForm_of_no_scheme ((hasScheme_requestTarget req).trans hscheme), requestTarget]
    cases hq : req.query with
    | none => rw [append_nil, Text.cutAt_of_absent hpath]
    | some q =>
      have hne : q ≠ [] := fun heq => hquery (hq.trans (congrArg some heq))
      dsimp only
      rw [if_neg hne, Text.cutAt_append q hpath]

/-- **One request, and the one that was routed.** The whole buffer is one request, with the method,
the path, the query and the body that the edge has, and with no field but the client's that may go
on, and the proxy's own. -/
structure Received (lib : Httparse) (upstream : Option Str) (req : RawRequest)
    (clientIp originalHost : Str) (bytes : Bytes) (r : RawRequest) : Prop where
  parsed : parseRequest lib bytes = .complete r
  /-- nothing is left over: no part of it is a request already -/
  whole : ∀ k < bytes.length, ∀ r', parseRequest lib (bytes.take k) ≠ .complete r'
  method : r.method = req.method
  path : r.path = req.path
  query : r.query = req.query
  body : r.body = req.body
  fields : ∀ f ∈ r.headers,
    (∃ g ∈ req.headers, isCopied (connectionNominated req.headers) g = true ∧ f = asRead g) ∨
    (∃ g ∈ proxyFields req clientIp originalHost, f = asRead g) ∨
    ∃ host, upstream = some host ∧ f = asRead ("Host".toList, host)

/-- What a backend refuses of what is written: a head that the library does not take, hosts that are
not one valid one, a body whose length does not fit. -/
def RefusedThere (lib : Httparse) (req : RawRequest) (fields : List (Str × Str)) : Prop :=
  lib.parse (Utf8.encode (requestHead req fields)) = .failed ∨ ¬ NamesOneHost fields ∨
    2 ^ 64 ≤ req.body.length

theorem parseRequest_written {lib : Httparse}
    (hclean : CleanHead req.method (requestTarget req) fields)
    (hfor : FieldsFor req.body.length fields)
    (hread : lib.parse (Utf8.encode (requestHead req fields)) =
      .complete (Utf8.encode (requestHead req fields)).length
        ⟨some req.method, some (requestTarget req), some 1, fields.map rawField⟩) :
    (¬ (NamesOneHost fields ∧ req.body.length < 2 ^ 64) ∧
      parseRequest lib (Utf8.encode (requestHead req fields) ++ req.body) = .error) ∨
    (NamesOneHost fields ∧ req.body.length < 2 ^ 64) ∧
      parseRequest lib (Utf8.encode (requestHead req fields) ++ req.body) =
        .complete (request ⟨some req.method, some (requestTarget req), some 1, fields.map rawField⟩
          (fields.map asRead) req.body) ∧
      ∀ k < (Utf8.encode (requestHead req fields) ++ req.body).length, ∀ r',
        parseRequest lib ((Utf8.encode (requestHead req fields) ++ req.body).take k) ≠
          .complete r' := by
  have hbare := hasBareLf_requestHead hclean
  generalize Utf8.encode (requestHead req fields) = head at hread hbare ⊢
  have hwhole : parseRequest lib (head ++ req.body) =
      (scanHeaders ⟨some req.method, some (requestTarget req), some 1, fields.map rawField⟩).elim
        .error fun p => parseBody
          ⟨some req.method, some (requestTarget req), some 1, fields.map rawField⟩ p.1 req.body
          p.2 := by
    rw [parseRequest, lib.complete_append hread]
    dsimp only
    rw [take_left, hbare, if_neg Bool.false_ne_true, drop_left]
    cases scanHeaders
      ⟨some req.method, some (requestTarget req), some 1, fields.map rawField⟩ <;> rfl
  obtain ⟨hone, hlt, hscan⟩ | ⟨hno, hscan⟩ := scanHeaders_written hfor req.method
    (requestTarget req)
  · refine .inr ⟨⟨hone, hlt⟩, ?_, fun k hk r' hr' => ?_⟩
    · rw [hwhole, hscan, Option.elim_some, parseBody, if_neg (Nat.lt_irrefl _), take_length]
    · -- what is read of a part is read of the whole, so that its head is there and its body is not
      obtain ⟨n, lines, headers, framing, hpart, hscan', hbody⟩ := complete_cases hr'
      have hsplit := take_append_drop k (head ++ req.body)
      have hfull := lib.complete_append hpart ((head ++ req.body).drop k)
      rw [hsplit, lib.complete_append hread] at hfull
      obtain ⟨rfl, rfl⟩ := HeadStatus.complete.inj hfull
      have hle := lib.complete_le hpart
      rw [length_take] at hle
      rw [hscan] at hscan'
      cases hscan'
      rw [parseBody, if_pos] at hbody
      · cases hbody
      · simp only [length_drop, length_take, length_append] at hk hle ⊢
        omega
  · refine .inl ⟨hno, ?_⟩
    rw [hwhole, hscan, Option.elim_none]

/-- **Nothing is injected on the way to a backend.** For a request that was checked, on the way to a
unix socket or to a host that can be connected to, what is written is refused by the parser of the
backend or is the one request that was routed, if and only if it is refused there or its path has
neither a scheme nor a question mark in it, and its query, if it has one, is not empty. -/
theorem received_iff (lib : Httparse) (connects : Str → Prop)
    (hconnects : ∀ host, connects host → h1FieldValueIsSafe host = true)
    (upstream : Option Str) (hup : ∀ host, upstream = some host → connects host)
    (req : RawRequest) (clientIp originalHost : Str)
    (hok : checkForwardable req clientIp originalHost = true)
    (hlib : ReadsHead lib req (leavingFields upstream req clientIp originalHost)) :
    (parseRequest lib (requestBytes upstream req clientIp originalHost) = .error ∨
      ∃ r, Received lib upstream req clientIp originalHost
        (requestBytes upstream req clientIp originalHost) r) ↔
    (RefusedThere lib req (leavingFields upstream req clientIp originalHost) ∨
      RoutedAlike req) := by
  have hclean := cleanHead_of_forwardable hok fun host hhost => hconnects host (hup host hhost)
  have hfor := fieldsFor_leavingFields upstream req clientIp originalHost
  obtain hfail | hread := hlib hclean
  · refine iff_of_true (.inl ?_) (.inl (.inl hfail))
    rw [requestBytes, parseRequest, lib.failed_append hfail]
  obtain ⟨hno, herror⟩ | ⟨⟨hone, hlt⟩, hcomplete, hwhole⟩ := parseRequest_written hclean hfor hread
  · refine iff_of_true (.inl herror) (.inl (.inr ?_))
    rw [not_and_or, not_lt] at hno
    exact hno
  · have hthere : ¬ RefusedThere lib req (leavingFields upstream req clientIp originalHost) := by
      rintro (hfail | hhost | hlarge)
      · cases hfail.symm.trans hread
      · exact hhost hone
      · omega
    rw [or_iff_right hthere, ← routedAlike_iff]
    constructor
    · rintro (herror | ⟨r, h⟩)
      · cases herror.symm.trans hcomplete
      · obtain rfl := ParseResult.complete.inj (hcomplete.symm.trans h.parsed)
        exact Prod.ext h.path h.query
    · intro htarget
      refine .inr ⟨_, hcomplete, hwhole, rfl, congrArg Prod.fst htarget,
        congrArg Prod.snd htarget, rfl, fun f hf => ?_⟩
      obtain ⟨g, hg, rfl⟩ := mem_map.mp hf
      obtain ⟨hmem, hcopied⟩ | hown | ⟨host, hhost, rfl⟩ := mem_leavingFields hg
      · exact .inl ⟨g, hmem, hcopied, rfl⟩
      · exact .inr (.inl ⟨g, hown, rfl⟩)
      · exact .inr (.inr ⟨host, hhost, rfl⟩)

def streamRequest (path : String) : RawRequest :=
  ⟨"GET".toList, path.toList, none, "HTTP/2".toList, [("host".toList, "site.test".toList)], []⟩

theorem requestHead_ne_nil (req : RawRequest) (fields : List (Str × Str)) :
    Utf8.encode (requestHead req fields) ≠ [] := by
  rw [requestHead, Utf8.encode_append]
  exact append_ne_nil_of_right_ne_nil _ (by decide)

def streamHttparse (path : String) : Httparse :=
  .ofHead
    (Utf8.encode (requestHead (streamRequest path)
      (leavingFields none (streamRequest path) "203.0.113.7".toList "site.test".toList)))
    ⟨some "GET".toList, some (requestTarget (streamRequest path)), some 1,
      (leavingFields none (streamRequest path) "203.0.113.7".toList "site.test".toList).map
        rawField⟩ (requestHead_ne_nil _ _)

theorem parse_stream (path : String) :
    (streamHttparse path).parse (Utf8.encode (requestHead (streamRequest path)
        (leavingFields none (streamRequest path) "203.0.113.7".toList "site.test".toList))) =
      .complete (Utf8.encode (requestHead (streamRequest path) (leavingFields none
          (streamRequest path) "203.0.113.7".toList "site.test".toList))).length
        ⟨some (streamRequest path).method, some (requestTarget (streamRequest path)), some 1,
          (leavingFields none (streamRequest path) "203.0.113.7".toList
            "site.test".toList).map rawField⟩ :=
  if_pos prefix_rfl

theorem plain_path_received :
    parseRequest (streamHttparse "/c") (requestBytes none (streamRequest "/c")
        "203.0.113.7".toList "site.test".toList) = .error ∨
      ∃ r, Received (streamHttparse "/c") none (streamRequest "/c") "203.0.113.7".toList
        "site.test".toList (requestBytes none (streamRequest "/c") "203.0.113.7".toList
          "site.test".toList) r :=
  (received_iff (streamHttparse "/c") (· = "upstream.test".toList) (by rintro _ rfl; decide) none
    nofun (streamRequest "/c") "203.0.113.7".toList "site.test".toList (by decide)
    fun _ => .inr (parse_stream "/c")).mpr (.inr ⟨by decide, by decide, nofun⟩)

theorem scheme_path_rewritten :
    checkForwardable (streamRequest "a://b/c") "203.0.113.7".toList "site.test".toList = true ∧
      (∃ r, parseRequest (streamHttparse "a://b/c") (requestBytes none (streamRequest "a://b/c")
          "203.0.113.7".toList "site.test".toList) = .complete r ∧ r.path = "/c".toList) ∧
      ¬ (parseRequest (streamHttparse "a://b/c") (requestBytes none (streamRequest "a://b/c")
          "203.0.113.7".toList "site.test".toList) = .error ∨
        ∃ r, Received (streamHttparse "a://b/c") none (streamRequest "a://b/c")
          "203.0.113.7".toList "site.test".toList (requestBytes none (streamRequest "a://b/c")
            "203.0.113.7".toList "site.test".toList) r) := by
  have hok : checkForwardable (streamRequest "a://b/c") "203.0.113.7".toList
      "site.test".toList = true := by decide
  have hpath : ∃ r, parseRequest (streamHttparse "a://b/c") (requestBytes none
      (streamRequest "a://b/c") "203.0.113.7".toList "site.test".toList) = .complete r ∧
        r.path = "/c".toList := by
    have hclean : CleanHead (streamRequest "a://b/c").method
      (requestTarget (streamRequest "a://b/c"))
        (leavingFields none (streamRequest "a://b/c") "203.0.113.7".toList "site.test".toList) :=
      cleanHead_of_forwardable hok nofun
    have hfor := fieldsFor_leavingFields none (streamRequest "a://b/c") "203.0.113.7".toList
      "site.test".toList
    obtain ⟨hno, -⟩ | ⟨-, hcomplete, -⟩ := parseRequest_written hclean hfor (parse_stream "a://b/c")
    · exact absurd ⟨⟨"site.test".toList, by decide⟩, by decide⟩ hno
    · exact ⟨_, hcomplete, by decide⟩
  refine ⟨hok, hpath, ?_⟩
  obtain ⟨r, hr, hc⟩ := hpath
  rintro (herror | ⟨r', h⟩)
  · exact nomatch hr.symm.trans herror
  · obtain rfl := ParseResult.complete.inj (hr.symm.trans h.parsed)
    exact absurd (hc.symm.trans h.path) (by decide)

end M6
