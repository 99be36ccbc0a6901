import M6.Lib.Text

/-!
# UTF-8

`encode` is the UTF-8 form of a text and `decodeLossy` reads any bytes as text:
each maximal ill-formed sequence becomes one U+FFFD, as the Unicode standard
recommends for a decoder that must not fail. `fromUtf8?` is the strict reading.
The bridge is `decodeLossy_encode`: reading back an encoding gives the text.
-/

abbrev Bytes : Type := List UInt8

namespace Utf8

open List Option Bool

def encode (s : Str) : Bytes := s.flatMap String.utf8EncodeChar

@[simp] theorem encode_cons (c : Char) (s : Str) :
    encode (c :: s) = String.utf8EncodeChar c ++ encode s := rfl

@[simp] theorem encode_append (s t : Str) : encode (s ++ t) = encode s ++ encode t := by
  simp [encode]

theorem length_le_encode (s : Str) : s.length ≤ (encode s).length := by
  induction s with
  | nil => exact Nat.le_refl _
  | cons c s ih =>
    have hpos := c.utf8Size_pos
    rw [encode_cons, length_append, String.length_utf8EncodeChar, length_cons]
    omega

theorem length_encode_le (s : Str) : (encode s).length ≤ 4 * s.length := by
  induction s with
  | nil => exact Nat.le_refl _
  | cons c s ih =>
    have hsize := c.utf8Size_le_four
    rw [encode_cons, length_append, String.length_utf8EncodeChar, length_cons]
    omega

theorem encode_ne_nil {s : Str} (h : s ≠ []) : encode s ≠ [] :=
  ne_nil_of_length_pos ((length_pos_of_ne_nil h).trans_le (length_le_encode s))

/-- The character that stands for an ill-formed sequence. -/
def replacementChar : Char := Char.ofNat 0xfffd

/-- A continuation byte, `10xxxxxx`. -/
def isCont (b : UInt8) : Bool := 0x80 ≤ b.toNat && b.toNat ≤ 0xbf

/-- Whether `x` may follow the lead byte `b` of a three-byte sequence: overlong
forms and surrogates are excluded by the second byte already. -/
def second3 (b x : UInt8) : Bool :=
  let b := b.toNat
  let x := x.toNat
  (b == 0xe0 && 0xa0 ≤ x && x ≤ 0xbf) || (0xe1 ≤ b && b ≤ 0xec && 0x80 ≤ x && x ≤ 0xbf) ||
    (b == 0xed && 0x80 ≤ x && x ≤ 0x9f) || (0xee ≤ b && b ≤ 0xef && 0x80 ≤ x && x ≤ 0xbf)

/-- Whether `x` may follow the lead byte `b` of a four-byte sequence. -/
def second4 (b x : UInt8) : Bool :=
  let b := b.toNat
  let x := x.toNat
  (b == 0xf0 && 0x90 ≤ x && x ≤ 0xbf) || (0xf1 ≤ b && b ≤ 0xf3 && 0x80 ≤ x && x ≤ 0xbf) ||
    (b == 0xf4 && 0x80 ≤ x && x ≤ 0x8f)

def payload (x : UInt8) : Nat := x.toNat - 0x80

/-- Read one character at the lead byte `b`: the character, or `none` for an
ill-formed sequence, and how many of the following bytes belong to it. -/
def scan (b : UInt8) (bs : Bytes) : Option Char × Nat :=
  let n := b.toNat
  if n < 0x80 then (some (Char.ofNat n), 0)
  else if 0xc2 ≤ n ∧ n ≤ 0xdf then
    match bs with
    | x :: _ =>
      if isCont x then (some (Char.ofNat ((n - 0xc0) * 64 + payload x)), 1) else (none, 0)
    | [] => (none, 0)
  else if 0xe0 ≤ n ∧ n ≤ 0xef then
    match bs with
    | x :: bs =>
      if second3 b x then
        match bs with
        | y :: _ =>
          if isCont y then
            (some (Char.ofNat ((n - 0xe0) * 4096 + payload x * 64 + payload y)), 2)
          else (none, 1)
        | [] => (none, 1)
      else (none, 0)
    | [] => (none, 0)
  else if 0xf0 ≤ n ∧ n ≤ 0xf4 then
    match bs with
    | x :: bs =>
      if second4 b x then
        match bs with
        | y :: bs =>
          if isCont y then
            match bs with
            | z :: _ =>
              if isCont z then
                (some (Char.ofNat
                  ((n - 0xf0) * 262144 + payload x * 4096 + payload y * 64 + payload z)), 3)
              else (none, 2)
            | [] => (none, 2)
          else (none, 1)
        | [] => (none, 1)
      else (none, 0)
    | [] => (none, 0)
  else (none, 0)

/-- Lossy decoding behind the first `k` bytes. -/
def decodeFrom : Nat → Bytes → Str
  | _, [] => []
  | k + 1, _ :: bs => decodeFrom k bs
  | 0, b :: bs => (scan b bs).1.getD replacementChar :: decodeFrom (scan b bs).2 bs

/-- Read any bytes as text, one U+FFFD for each ill-formed sequence. -/
def decodeLossy (bs : Bytes) : Str := decodeFrom 0 bs

/-- Strict decoding behind the first `k` bytes. -/
def fromUtf8From : Nat → Bytes → Option Str
  | _, [] => some []
  | k + 1, _ :: bs => fromUtf8From k bs
  | 0, b :: bs =>
    match scan b bs with
    | (some c, n) => (fromUtf8From n bs).map (c :: ·)
    | (none, _) => none

/-- Read bytes as text, or fail on the first ill-formed sequence. -/
def fromUtf8? (bs : Bytes) : Option Str := fromUtf8From 0 bs

theorem decodeFrom_eq_drop (k : Nat) (bs : Bytes) : decodeFrom k bs = decodeLossy (bs.drop k) := by
  induction bs generalizing k with
  | nil => cases k <;> rfl
  | cons b bs ih =>
    cases k with
    | zero => rfl
    | succ k => simpa [decodeFrom] using ih k

theorem toNat_le (c : Char) : c.toNat ≤ 0x10ffff ∧ ¬ (0xd800 ≤ c.toNat ∧ c.toNat ≤ 0xdfff) := by
  have h := c.valid
  simp only [UInt32.isValidChar, Nat.isValidChar] at h
  change c.toNat < _ ∨ _ < c.toNat ∧ c.toNat < _ at h
  omega

theorem ofNat_eq {c : Char} {n : Nat} (h : n = c.toNat) : Char.ofNat n = c := by
  rw [h, Char.ofNat_toNat]

theorem toNat_ofNat_of_lt {n : Nat} (h : n < 256) : (UInt8.ofNat n).toNat = n := by
  rw [UInt8.toNat_ofNat']
  exact Nat.mod_eq_of_lt h

theorem encodeChar_eq (c : Char) : String.utf8EncodeChar c =
      if c.toNat ≤ 0x7f then [UInt8.ofNat c.toNat]
      else if c.toNat ≤ 0x7ff then
        [UInt8.ofNat (c.toNat / 64 % 0x20 + 0xc0), UInt8.ofNat (c.toNat % 0x40 + 0x80)]
      else if c.toNat ≤ 0xffff then
        [UInt8.ofNat (c.toNat / 4096 % 0x10 + 0xe0), UInt8.ofNat (c.toNat / 64 % 0x40 + 0x80),
          UInt8.ofNat (c.toNat % 0x40 + 0x80)]
      else
        [UInt8.ofNat (c.toNat / 262144 % 0x08 + 0xf0), UInt8.ofNat (c.toNat / 4096 % 0x40 + 0x80),
          UInt8.ofNat (c.toNat / 64 % 0x40 + 0x80), UInt8.ofNat (c.toNat % 0x40 + 0x80)] := rfl

theorem isCont_ofNat (n : Nat) : isCont (UInt8.ofNat (n % 0x40 + 0x80)) = true := by
  rw [isCont, toNat_ofNat_of_lt (by omega)]
  simp only [and_eq_true, decide_eq_true_eq]
  omega

theorem payload_ofNat (n : Nat) : payload (UInt8.ofNat (n % 0x40 + 0x80)) = n % 0x40 := by
  have h : (UInt8.ofNat (n % 0x40 + 0x80)).toNat = n % 0x40 + 0x80 := toNat_ofNat_of_lt (by omega)
  unfold payload
  rw [h]
  exact Nat.add_sub_cancel _ _

/-- Reading the encoding of a character gives the character, and consumes
exactly its encoding. -/
theorem scan_encodeChar (c : Char) (rest : Bytes) :
    ∃ b bs, String.utf8EncodeChar c = b :: bs ∧ scan b (bs ++ rest) = (some c, bs.length) := by
  obtain ⟨hmax, hsur⟩ := toNat_le c
  rw [encodeChar_eq]
  split_ifs with h1 h2 h3
  · refine ⟨_, [], rfl, ?_⟩
    simp only [scan, toNat_ofNat_of_lt (show c.toNat < 256 by omega)]
    rw [if_pos (by omega), ofNat_eq rfl]
    rfl
  · refine ⟨_, [_], rfl, ?_⟩
    have hn : (c.toNat / 64 % 0x20 + 0xc0 - 0xc0) * 64 + c.toNat % 0x40 = c.toNat := by omega
    simp only [scan, cons_append, nil_append, payload_ofNat, isCont_ofNat,
      toNat_ofNat_of_lt (show c.toNat / 64 % 0x20 + 0xc0 < 256 by omega)]
    rw [if_neg (by omega), if_pos (by omega), if_pos trivial, ofNat_eq hn]
    rfl
  · refine ⟨_, [_, _], rfl, ?_⟩
    have hn : (c.toNat / 4096 % 0x10 + 0xe0 - 0xe0) * 4096 + c.toNat / 64 % 0x40 * 64 +
        c.toNat % 0x40 = c.toNat := by omega
    have hsecond : second3 (UInt8.ofNat (c.toNat / 4096 % 0x10 + 0xe0))
        (UInt8.ofNat (c.toNat / 64 % 0x40 + 0x80)) = true := by
      rw [second3, toNat_ofNat_of_lt (by omega), toNat_ofNat_of_lt (by omega)]
      simp only [or_eq_true, and_eq_true, beq_iff_eq, decide_eq_true_eq]
      omega
    simp only [scan, cons_append, nil_append, payload_ofNat, isCont_ofNat, hsecond,
      toNat_ofNat_of_lt (show c.toNat / 4096 % 0x10 + 0xe0 < 256 by omega)]
    rw [if_neg (by omega), if_neg (by omega), if_pos (by omega), if_pos trivial, if_pos trivial,
      ofNat_eq hn]
    rfl
  · refine ⟨_, [_, _, _], rfl, ?_⟩
    have hn : (c.toNat / 262144 % 0x08 + 0xf0 - 0xf0) * 262144 + c.toNat / 4096 % 0x40 * 4096 +
        c.toNat / 64 % 0x40 * 64 + c.toNat % 0x40 = c.toNat := by omega
    have hsecond : second4 (UInt8.ofNat (c.toNat / 262144 % 0x08 + 0xf0))
        (UInt8.ofNat (c.toNat / 4096 % 0x40 + 0x80)) = true := by
      rw [second4, toNat_ofNat_of_lt (by omega), toNat_ofNat_of_lt (by omega)]
      simp only [or_eq_true, and_eq_true, beq_iff_eq, decide_eq_true_eq]
      omega
    simp only [scan, cons_append, nil_append, payload_ofNat, isCont_ofNat, hsecond,
      toNat_ofNat_of_lt (show c.toNat / 262144 % 0x08 + 0xf0 < 256 by omega)]
    rw [if_neg (by omega), if_neg (by omega), if_neg (by omega), if_pos (by omega),
      if_pos trivial, if_pos trivial, if_pos trivial, ofNat_eq hn]
    rfl

/-- **Reading an encoding back gives the text.** -/
theorem decodeLossy_encode (s : Str) : decodeLossy (encode s) = s := by
  induction s with
  | nil => rfl
  | cons c s ih =>
    obtain ⟨b, bs, hb, hscan⟩ := scan_encodeChar c (encode s)
    rw [encode_cons, hb, decodeLossy, cons_append, decodeFrom, hscan, decodeFrom_eq_drop]
    rw [drop_left, ih]
    rfl

/-! ## ASCII bytes -/

def isAscii (b : UInt8) : Bool := b.toNat < 0x80

theorem scan_ascii {b : UInt8} (h : isAscii b = true) (bs : Bytes) :
    scan b bs = (some (Char.ofNat b.toNat), 0) := by
  have hb : b.toNat < 0x80 := by simpa [isAscii] using h
  simp only [scan, if_pos hb]

theorem not_cont_of_ascii {c : UInt8} (h : isAscii c = true) :
    isCont c = false ∧ (∀ b, second3 b c = false) ∧ ∀ b, second4 b c = false := by
  have hc : c.toNat < 0x80 := by simpa [isAscii] using h
  refine ⟨?_, fun b => ?_, fun b => ?_⟩
  · simp only [isCont, and_eq_false_iff, decide_eq_false_iff_not]
    omega
  · simp only [second3, or_eq_false_iff, and_eq_false_iff, decide_eq_false_iff_not,
      beq_eq_false_iff_ne]
    omega
  · simp only [second4, or_eq_false_iff, and_eq_false_iff, decide_eq_false_iff_not,
      beq_eq_false_iff_ne]
    omega

theorem scan_append_ascii {c : UInt8} (h : isAscii c = true) (b : UInt8) (bs t : Bytes) :
    scan b (bs ++ c :: t) = scan b bs ∧ (scan b bs).2 ≤ bs.length := by
  obtain ⟨hcont, h3, h4⟩ := not_cont_of_ascii h
  simp only [scan]
  split_ifs with h1 h2 h3' h4'
  · simp
  · rcases bs with _ | ⟨x, bs⟩
    · simp [hcont]
    · simp only [cons_append]
      split_ifs <;> simp
  · rcases bs with _ | ⟨x, _ | ⟨y, bs⟩⟩
    · simp [h3]
    · simp only [cons_append, nil_append, hcont]
      split_ifs <;> simp_all
    · simp only [cons_append]
      split_ifs <;> simp
  · rcases bs with _ | ⟨x, _ | ⟨y, _ | ⟨z, bs⟩⟩⟩
    · simp [h4]
    · simp only [cons_append, nil_append, hcont]
      split_ifs <;> simp_all
    · simp only [cons_append, nil_append, hcont]
      split_ifs <;> simp_all
    · simp only [cons_append]
      split_ifs <;> simp
  · simp

theorem decodeLossy_cons (b : UInt8) (bs : Bytes) : decodeLossy (b :: bs) =
      (scan b bs).1.getD replacementChar :: decodeLossy (bs.drop (scan b bs).2) := by
  rw [decodeLossy, decodeFrom, decodeFrom_eq_drop]

theorem decodeLossy_append_ascii {c : UInt8} (h : isAscii c = true) (bs t : Bytes) :
    decodeLossy (bs ++ c :: t) = decodeLossy bs ++ Char.ofNat c.toNat :: decodeLossy t := by
  induction hn : bs.length using Nat.strong_induction_on generalizing bs with
  | _ n ih =>
    subst hn
    cases bs with
    | nil =>
      rw [nil_append, decodeLossy_cons, scan_ascii h]
      rfl
    | cons b bs =>
      obtain ⟨hscan, hle⟩ := scan_append_ascii h b bs t
      rw [cons_append, decodeLossy_cons, hscan, drop_append_of_le_length hle,
        decodeLossy_cons, cons_append]
      congr 1
      refine ih _ ?_ _ rfl
      simp only [length_drop, length_cons]
      omega

theorem fromUtf8From_eq_drop (k : Nat) (bs : Bytes) :
    fromUtf8From k bs = fromUtf8? (bs.drop k) := by
  induction bs generalizing k with
  | nil => cases k <;> rfl
  | cons b bs ih =>
    cases k with
    | zero => rfl
    | succ k => simpa [fromUtf8From] using ih k

theorem fromUtf8?_cons (b : UInt8) (bs : Bytes) :
    fromUtf8? (b :: bs) = (scan b bs).1.bind fun c =>
      (fromUtf8? (bs.drop (scan b bs).2)).map (c :: ·) := by
  rw [fromUtf8?, fromUtf8From]
  rcases hs : scan b bs with ⟨_ | c, k⟩
  · rfl
  · simp only [bind_some, fromUtf8From_eq_drop]

theorem fromUtf8?_encode (s : Str) : fromUtf8? (encode s) = some s := by
  induction s with
  | nil => rfl
  | cons c s ih =>
    obtain ⟨b, bs, hb, hscan⟩ := scan_encodeChar c (encode s)
    rw [encode_cons, hb, cons_append, fromUtf8?_cons, hscan, drop_left, ih]
    rfl

theorem fromUtf8?_append_ascii {c : UInt8} (h : isAscii c = true) (bs t : Bytes) :
    fromUtf8? (bs ++ c :: t) = (fromUtf8? bs).bind fun s =>
      (fromUtf8? t).map fun s' => s ++ Char.ofNat c.toNat :: s' := by
  induction hn : bs.length using Nat.strong_induction_on generalizing bs with
  | _ n ih =>
    subst hn
    cases bs with
    | nil =>
      rw [nil_append, fromUtf8?_cons, scan_ascii h]
      rfl
    | cons b bs =>
      obtain ⟨hscan, hle⟩ := scan_append_ascii h b bs t
      rw [cons_append, fromUtf8?_cons, hscan, drop_append_of_le_length hle,
        fromUtf8?_cons, ih _ ?_ _ rfl]
      · rcases (scan b bs).1 with _ | ch
        · rfl
        · rcases fromUtf8? (bs.drop (scan b bs).2) with _ | s
          · rfl
          · rcases fromUtf8? t with _ | s' <;> rfl
      · simp only [length_drop, length_cons]
        omega

theorem decodeLossy_cases (bs : Bytes) :
    (fromUtf8? bs = some (decodeLossy bs)) ∨
      (fromUtf8? bs = none ∧ replacementChar ∈ decodeLossy bs) := by
  induction hn : bs.length using Nat.strong_induction_on generalizing bs with
  | _ n ih =>
    subst hn
    cases bs with
    | nil => exact .inl rfl
    | cons b bs =>
      rw [fromUtf8?_cons, decodeLossy_cons]
      have hrest := ih _ (by simp only [length_drop, length_cons]; omega)
        (bs.drop (scan b bs).2) rfl
      rcases (scan b bs).1 with _ | ch
      · exact .inr ⟨rfl, mem_cons_self ..⟩
      · rcases hrest with hsome | ⟨hnone, hmem⟩
        · exact .inl (by rw [hsome]; rfl)
        · exact .inr ⟨by rw [hnone]; rfl, mem_cons_of_mem _ hmem⟩

theorem toNat_charOfNat {n : Nat} (h : n < 0xd800 ∨ 0xdfff < n ∧ n < 0x110000) :
    (Char.ofNat n).toNat = n := by
  rw [Char.ofNat, dif_pos h]
  rfl

theorem le_toNat_some {n : Nat} (h : n < 0xd800 ∨ 0xdfff < n ∧ n < 0x110000) (hn : 0x80 ≤ n) :
    0x80 ≤ ((some (Char.ofNat n)).getD replacementChar).toNat := by
  rw [getD_some, toNat_charOfNat h]
  exact hn

theorem le_toNat_none : 0x80 ≤ ((none : Option Char).getD replacementChar).toNat := by decide

theorem isAscii_of_scan {b : UInt8} {bs : Bytes}
    (h : ((scan b bs).1.getD replacementChar).toNat < 0x80) : isAscii b = true := by
  by_contra hb
  have hb : ¬ b.toNat < 0x80 := by simpa [isAscii] using hb
  refine absurd h (not_lt.mpr ?_)
  have hpayload : ∀ x : UInt8, 0x80 ≤ x.toNat → payload x + 0x80 = x.toNat := fun x hx =>
    Nat.sub_add_cancel hx
  have hcont : ∀ x, isCont x = true → 0x80 ≤ x.toNat ∧ x.toNat ≤ 0xbf := by
    intro x hx
    simpa [isCont] using hx
  simp only [scan, if_neg hb]
  split_ifs with h2 h3 h4
  · rcases bs with _ | ⟨x, bs⟩
    · exact le_toNat_none
    · simp only
      split_ifs with hx
      · obtain ⟨hx, hx'⟩ := hcont x hx
        have hpx := hpayload x hx
        exact le_toNat_some (by omega) (by omega)
      · exact le_toNat_none
  · rcases bs with _ | ⟨x, _ | ⟨y, bs⟩⟩
    · exact le_toNat_none
    · simp only
      split_ifs <;> exact le_toNat_none
    · simp only
      split_ifs with hx hy
      · obtain ⟨hy, hy'⟩ := hcont y hy
        have hpy := hpayload y hy
        simp only [second3, or_eq_true, and_eq_true, beq_iff_eq, decide_eq_true_eq] at hx
        have hpx := hpayload x (by omega)
        exact le_toNat_some (by omega) (by omega)
      all_goals exact le_toNat_none
  · rcases bs with _ | ⟨x, _ | ⟨y, _ | ⟨z, bs⟩⟩⟩
    · exact le_toNat_none
    · simp only
      split_ifs <;> exact le_toNat_none
    · simp only
      split_ifs <;> exact le_toNat_none
    · simp only
      split_ifs with hx hy hz
      · obtain ⟨hy, hy'⟩ := hcont y hy
        obtain ⟨hz, hz'⟩ := hcont z hz
        have hpy := hpayload y hy
        have hpz := hpayload z hz
        simp only [second4, or_eq_true, and_eq_true, beq_iff_eq, decide_eq_true_eq] at hx
        have hpx := hpayload x (by omega)
        exact le_toNat_some (by omega) (by omega)
      all_goals exact le_toNat_none
  · exact le_toNat_none

theorem head?_decodeLossy {c : UInt8} (hc : isAscii c = true) (bs : Bytes) :
    (decodeLossy bs).head? = some (Char.ofNat c.toNat) ↔ bs.head? = some c := by
  have hlt : c.toNat < 0x80 := by simpa [isAscii] using hc
  cases bs with
  | nil => simp [decodeLossy, decodeFrom]
  | cons b bs =>
    rw [decodeLossy_cons, head?_cons, head?_cons, some.injEq, some.injEq]
    constructor
    · intro h
      have hb : isAscii b = true :=
        @isAscii_of_scan b bs (by rw [h, toNat_charOfNat (by omega)]; exact hlt)
      have hb' : b.toNat < 0x80 := by simpa [isAscii] using hb
      rw [scan_ascii hb, getD_some] at h
      have hnat := congrArg Char.toNat h
      rw [toNat_charOfNat (by omega), toNat_charOfNat (by omega)] at hnat
      exact UInt8.toNat_inj.mp hnat
    · rintro rfl
      rw [scan_ascii hc]
      rfl

theorem decodeLossy_eq_ascii {s : Str} (hs : (s.all fun c => decide (c.toNat < 0x80)) = true)
    (bs : Bytes) : decodeLossy bs = s ↔ bs = encode s := by
  constructor
  · intro h
    induction s generalizing bs with
    | nil =>
      cases bs with
      | nil => rfl
      | cons b bs =>
        rw [decodeLossy_cons] at h
        cases h
    | cons c s ih =>
      obtain ⟨hc, hs⟩ := (by simpa using hs : c.toNat < 0x80 ∧ ∀ x ∈ s, x.toNat < 0x80)
      cases bs with
      | nil => cases h
      | cons b bs =>
        rw [decodeLossy_cons] at h
        obtain ⟨hhead, htail⟩ := List.cons.inj h
        have hb : isAscii b = true := isAscii_of_scan (hhead ▸ hc)
        rw [scan_ascii hb] at hhead htail
        have hb' : b.toNat < 0x80 := by simpa [isAscii] using hb
        have hbc : b.toNat = c.toNat := by
          rw [← hhead]
          exact (toNat_charOfNat (by omega)).symm
        rw [encode_cons, encodeChar_eq, if_pos (by omega), ← hbc, UInt8.ofNat_toNat,
          ← ih (by simpa using hs) _ htail]
        rfl
  · rintro rfl
    exact decodeLossy_encode s

theorem mem_decodeLossy_ascii {c : UInt8} (hc : isAscii c = true) (bs : Bytes) :
    Char.ofNat c.toNat ∈ decodeLossy bs ↔ c ∈ bs := by
  constructor
  · intro h
    induction hn : bs.length using Nat.strong_induction_on generalizing bs with
    | _ n ih =>
      subst hn
      cases bs with
      | nil => cases h
      | cons b bs =>
        have hhead := head?_decodeLossy hc (b :: bs)
        rw [decodeLossy_cons] at h hhead
        rcases mem_cons.mp h with h | h
        · obtain rfl := some.inj (hhead.mp (congrArg some h.symm))
          exact mem_cons_self ..
        · have hmem := ih _ (by simp only [length_drop, length_cons]; omega) _ h rfl
          exact mem_cons_of_mem _ (mem_of_mem_drop hmem)
  · intro h
    obtain ⟨a, t, rfl⟩ := append_of_mem h
    rw [decodeLossy_append_ascii hc]
    simp

theorem not_mem_encode {c : Char} (hc : c.toNat < 0x80) {s : Str} (h : c ∉ s) :
    UInt8.ofNat c.toNat ∉ encode s := by
  have hnat : (UInt8.ofNat c.toNat).toNat = c.toNat := toNat_ofNat_of_lt (by omega)
  have hascii : isAscii (UInt8.ofNat c.toNat) = true := by
    rw [isAscii, hnat]
    exact decide_eq_true hc
  intro hmem
  have hchar := (mem_decodeLossy_ascii hascii _).mpr hmem
  rw [decodeLossy_encode, hnat, Char.ofNat_toNat] at hchar
  exact h hchar

end Utf8
