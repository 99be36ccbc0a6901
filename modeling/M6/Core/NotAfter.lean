import M6.Lib.Utf8
import M6.Lib.Machine
import Mathlib.Algebra.Ring.Int.Defs

/-!
# The end of a certificate

`not_after_unix` of `tls.rs` steps over the elements of a certificate by their lengths and reads one
field of it, the time of `notAfter`. `walk_eq_ok` says what it steps over, with the layout of a
certificate apart from the code (`NotAfter`), and `readTime_eq_ok` which fields it reads as a time
(`TimeText`).

Those are more than there should be. The numbers of a field go through `str::parse`, which takes a
sign in the place of a digit: the fifth of a month may be written `+5`. `notAfter_holds_iff` says
that nothing else is wrong.
-/

namespace M6

open List Option Utf8

namespace Tls

open Machine Failing

/-! ## The calendar -/

def isLeapYear (year : Int) : Bool := year % 4 = 0 && (year % 100 ≠ 0 || year % 400 = 0)

def daysInMonth (year : Int) (month : Nat) : Nat :=
  if month = 2 then if isLeapYear year then 29 else 28
  else if month ∈ [4, 6, 9, 11] then 30
  else 31

def ValidDate (year : Int) (month day hour minute second : Nat) : Prop :=
  (1 ≤ month ∧ month ≤ 12) ∧ (1 ≤ day ∧ day ≤ daysInMonth year month) ∧ hour < 24 ∧ minute < 60 ∧
    second < 60

instance instDecidableValidDate (year : Int) (month day hour minute second : Nat) :
    Decidable (ValidDate year month day hour minute second) :=
  inferInstanceAs (Decidable (_ ∧ _))

def daysBefore (year : Int) : Int :=
  let y := year - 1
  365 * y + y / 4 - y / 100 + y / 400

def daysBeforeMonth (year : Int) (month : Nat) : Nat :=
  (List.range (month - 1)).foldl (fun days m => days + daysInMonth year (m + 1)) 0

def unixTime (year : Int) (month day hour minute second : Nat) : Int :=
  let days := daysBefore year - daysBefore 1970 + daysBeforeMonth year month + (day - 1)
  86400 * days + 3600 * hour + 60 * minute + second

/-- `NaiveDate::from_ymd_opt`, `and_hms_opt` and `timestamp`, as the calendar has them. -/
def timestamp (year : Int) (month day hour minute second : Nat) : Option Int :=
  if ValidDate year month day hour minute second then
    some (unixTime year month day hour minute second)
  else none

/-! ## The code -/

inductive CertificateError where
  | truncated
  | badLength
  | notACertificate
  | noValidity
  | badTime
  deriving DecidableEq

/-- How the reading ends early. -/
inductive Fault where
  | refused (e : CertificateError)
  | panic
  deriving DecidableEq

/-- `ok_or` and `map_err` -/
def orRefuse {A : Type} (e : CertificateError) (o : Option A) : Except Fault A :=
  match o with
  | some a => .ok a
  | none => .error (.refused e)

def splitFirst : Bytes → Option (UInt8 × Bytes)
  | [] => none
  | b :: bs => some (b, bs)

/-- `split_at_checked` of a slice. -/
def splitAtChecked (bs : Bytes) (n : Nat) : Option (Bytes × Bytes) :=
  if n ≤ bs.length then some (bs.take n, bs.drop n) else none

def foldLength (bs : Bytes) : Nat :=
  bs.foldl (fun acc b => (acc <<< 8) % 2 ^ 64 ||| b.toNat) 0

/-- The length of `element`, by its first byte, and what is after it. -/
def elementLength (first : UInt8) (afterFirst : Bytes) : Except Fault (Nat × Bytes) :=
  if first < 0x80 then .ok (first.toNat, afterFirst)
  else
    let count := (first &&& 0x7f).toNat
    if count = 0 ∨ 8 < count then .error (.refused .badLength)
    else do
      let (bytes, body) ← orRefuse .truncated (splitAtChecked afterFirst count)
      .ok (foldLength bytes, body)

/-- `element`: the tag, the contents, and the bytes after it. -/
def element (buf : Bytes) : Except Fault (UInt8 × Bytes × Bytes) := do
  let (tag, afterTag) ← orRefuse .truncated (splitFirst buf)
  let (first, afterFirst) ← orRefuse .truncated (splitFirst afterTag)
  let (length, body) ← elementLength first afterFirst
  let (contents, rest) ← orRefuse .truncated (splitAtChecked body length)
  .ok (tag, contents, rest)

def skipElements : Nat → Bytes → Except Fault Bytes
  | 0, rest => .ok rest
  | n + 1, rest => do
    let (_, _, rest) ← element rest
    skipElements n rest

def sequenceTag : UInt8 := 0x30
def context0Tag : UInt8 := 0xa0
def utcTimeTag : UInt8 := 0x17
def generalizedTimeTag : UInt8 := 0x18

/-- The walk of `not_after_unix`: the tag of `notAfter`, and its contents. -/
def walk (der : Bytes) : Except Fault (UInt8 × Bytes) := do
  let (tag, certificate, _) ← element der
  if tag ≠ sequenceTag then .error (.refused .notACertificate)
  else
    let (tag, tbs, _) ← element certificate
    if tag ≠ sequenceTag then .error (.refused .notACertificate)
    else
      let (tag, _, afterVersion) ← element tbs
      let rest ← skipElements 3 (if tag = context0Tag then afterVersion else tbs)
      let (tag, validity, _) ← element rest
      if tag ≠ sequenceTag then .error (.refused .noValidity)
      else
        let (_, _, afterNotBefore) ← element validity
        let (tag, notAfter, _) ← element afterNotBefore
        .ok (tag, notAfter)

def isCharBoundary (text : Bytes) (i : Nat) : Bool :=
  match text[i]? with
  | some b => !Utf8.isCont b
  | none => i = text.length

/-- `split_at_checked` of a text. -/
def splitTextAt (text : Bytes) (n : Nat) : Option (Bytes × Bytes) :=
  if isCharBoundary text n then some (text.take n, text.drop n) else none

/-- `text.get(i..j)` -/
def getText (text : Bytes) (i j : Nat) : Option Bytes :=
  if i ≤ j ∧ isCharBoundary text i ∧ isCharBoundary text j then some ((text.take j).drop i)
  else none

def isDigit (b : UInt8) : Bool := 0x30 ≤ b && b ≤ 0x39

def digitsValue (bs : Bytes) : Nat := bs.foldl (fun n b => 10 * n + (b.toNat - 0x30)) 0

def parseDigits (bs : Bytes) : Option Nat :=
  if bs ≠ [] ∧ bs.all isDigit then some (digitsValue bs) else none

/-- `parse::<u32>`: digits, with or without `+` before them. -/
def parseU32 (bs : Bytes) : Option Nat :=
  let digits := if bs.head? = some 0x2b then bs.tail else bs
  (parseDigits digits).filter (· < 2 ^ 32)

/-- `parse::<i32>`: the same, or `-` before them. -/
def parseI32 (bs : Bytes) : Option Int :=
  if bs.head? = some 0x2d then
    ((parseDigits bs.tail).filter (· ≤ 2 ^ 31)).map fun n : Nat => -(n : Int)
  else ((parseU32 bs).filter (· < 2 ^ 31)).map fun n : Nat => (n : Int)

/-- A sum of two `i32`. -/
def plusI32 (a b : Int) : Except Fault Int :=
  if -2 ^ 31 ≤ a + b ∧ a + b < 2 ^ 31 then .ok (a + b) else .error .panic

def century (yy : Int) : Except Fault Int := if 50 ≤ yy then plusI32 1900 yy else plusI32 2000 yy

def readYear (tag : UInt8) (text : Bytes) : Except Fault (Int × Bytes) :=
  if tag = utcTimeTag then do
    let (yy, rest) ← orRefuse .badTime (splitTextAt text 2)
    let yy ← orRefuse .badTime (parseI32 yy)
    let year ← century yy
    .ok (year, rest)
  else if tag = generalizedTimeTag then do
    let (yyyy, rest) ← orRefuse .badTime (splitTextAt text 4)
    let year ← orRefuse .badTime (parseI32 yyyy)
    .ok (year, rest)
  else .error (.refused .badTime)

def field (rest : Bytes) (i j : Nat) : Except Fault Nat := do
  let digits ← orRefuse .badTime (getText rest i j)
  orRefuse .badTime (parseU32 digits)

def readTime (tag : UInt8) (notAfter : Bytes) : Except Fault Int := do
  let _ ← orRefuse .badTime (Utf8.fromUtf8? notAfter)
  let (year, rest) ← readYear tag notAfter
  if rest.length ≠ 11 ∨ rest.getLast? ≠ some 0x5a then .error (.refused .badTime)
  else
    let month ← field rest 0 2
    let day ← field rest 2 4
    let hour ← field rest 4 6
    let minute ← field rest 6 8
    let second ← field rest 8 10
    orRefuse .badTime (timestamp year month day hour minute second)

def notAfterUnix (der : Bytes) : Except Fault Int := do
  let (tag, notAfter) ← walk der
  readTime tag notAfter

/-! ## Steps that may be refused -/

section

variable {A : Type} {e : CertificateError} {o : Option A} {a : A}

theorem orRefuse_eq_ok : orRefuse e o = .ok a ↔ o = some a := by
  cases o with
  | none => exact ⟨fun h => (by cases h), fun h => (by cases h)⟩
  | some b => exact ⟨fun h => congrArg some (Except.ok.inj h), fun h => by cases h; rfl⟩

theorem orRefuse_avoids : Avoids Fault.panic (orRefuse e o) := by
  intro h
  cases o <;> cases h

end

/-! ## Elements -/

def bigEndian (bs : Bytes) : Nat := bs.foldl (fun n b => 256 * n + b.toNat) 0

/-- **A length**: a byte below 128, or the number of the bytes that have it. -/
inductive Length : Nat → Bytes → Prop
  | short {n : Nat} : n < 128 → Length n [UInt8.ofNat n]
  | long {bs : Bytes} : 1 ≤ bs.length → bs.length ≤ 8 →
      Length (bigEndian bs) (UInt8.ofNat (128 + bs.length) :: bs)

/-- **An element**: its tag, the length of its contents, and the contents. -/
inductive Element (tag : UInt8) (contents : Bytes) : Bytes → Prop
  | mk {length : Bytes} : Length contents.length length →
      Element tag contents (tag :: (length ++ contents))

def Begins (buf : Bytes) (tag : UInt8) (contents rest : Bytes) : Prop :=
  ∃ e, Element tag contents e ∧ buf = e ++ rest

theorem foldLength_from (bs : Bytes) {acc k : Nat} (hacc : acc < 256 ^ k) (hk : k + bs.length ≤ 8) :
    bs.foldl (fun acc b => (acc <<< 8) % 2 ^ 64 ||| b.toNat) acc =
      bs.foldl (fun n b => 256 * n + b.toNat) acc := by
  induction bs generalizing acc k with
  | nil => rfl
  | cons b bs ih =>
    rw [length_cons] at hk
    have hpow : 256 ^ (k + 1) ≤ 2 ^ 64 := by
      calc 256 ^ (k + 1) ≤ 256 ^ 8 := Nat.pow_le_pow_right (by decide) (by omega)
        _ = 2 ^ 64 := by decide
    rw [Nat.pow_succ] at hpow
    have hb : b.toNat < 2 ^ 8 := b.toNat_lt
    have hshift : acc <<< 8 = 256 * acc := by rw [Nat.shiftLeft_eq, Nat.mul_comm]
    have hstep : (acc <<< 8) % 2 ^ 64 ||| b.toNat = 256 * acc + b.toNat := by
      rw [Nat.mod_eq_of_lt (by omega), ← Nat.shiftLeft_add_eq_or_of_lt hb, hshift]
    rw [foldl_cons, foldl_cons, hstep]
    exact ih (k := k + 1) (by rw [Nat.pow_succ]; omega) (by omega)

variable {bs : Bytes}

theorem foldLength_eq (h : bs.length ≤ 8) : foldLength bs = bigEndian bs :=
  foldLength_from bs (k := 0) (by decide) (by omega)

variable {n : Nat}

theorem splitAtChecked_eq_some {bs a b : Bytes} :
    splitAtChecked bs n = some (a, b) ↔ bs = a ++ b ∧ a.length = n := by
  rw [splitAtChecked]
  constructor
  · intro h
    split_ifs at h with hn
    cases h
    exact ⟨(take_append_drop n bs).symm, length_take_of_le hn⟩
  · rintro ⟨rfl, rfl⟩
    rw [if_pos (by rw [length_append]; omega), take_left, drop_left]

theorem splitFirst_eq_some {bs rest : Bytes} {b : UInt8} :
    splitFirst bs = some (b, rest) ↔ bs = b :: rest := by
  cases bs with
  | nil => exact ⟨fun h => (by cases h), fun h => (by cases h)⟩
  | cons c cs =>
    rw [splitFirst, some.injEq, Prod.mk.injEq, List.cons.injEq]

theorem low_seven (b : UInt8) : (b &&& 0x7f).toNat = b.toNat % 128 := by
  rw [UInt8.toNat_and]
  exact Nat.and_two_pow_sub_one_eq_mod b.toNat 7

theorem short_iff (b : UInt8) : b < 0x80 ↔ b.toNat < 128 := UInt8.lt_iff_toNat_lt

theorem elementLength_eq_ok {first : UInt8} {afterFirst body : Bytes} :
    elementLength first afterFirst = .ok (n, body) ↔
      ∃ bytes, Length n (first :: bytes) ∧ afterFirst = bytes ++ body := by
  rw [elementLength]
  constructor
  · intro h
    dsimp only at h
    split_ifs at h with hshort hcount
    · cases h
      have hlength := Length.short ((short_iff first).mp hshort)
      rw [UInt8.ofNat_toNat] at hlength
      exact ⟨[], hlength, rfl⟩
    · obtain ⟨⟨bytes, after⟩, hbytes, h⟩ := bind_eq_ok.mp h
      cases h
      obtain ⟨rfl, hcountEq⟩ := splitAtChecked_eq_some.mp (orRefuse_eq_ok.mp hbytes)
      have hge : 128 ≤ first.toNat := Nat.le_of_not_lt (mt (short_iff first).mpr hshort)
      have hlt : first.toNat < 256 := first.toNat_lt
      rw [low_seven] at hcountEq hcount
      have hlength := @Length.long bytes (by omega) (by omega)
      have hfirst : 128 + bytes.length = first.toNat := by omega
      rw [hfirst, UInt8.ofNat_toNat] at hlength
      dsimp only
      rw [foldLength_eq (by omega)]
      exact ⟨bytes, hlength, rfl⟩
  · rintro ⟨bytes, hlength, rfl⟩
    generalize hall : first :: bytes = all at hlength
    cases hlength with
    | short hshort =>
      obtain ⟨rfl, rfl⟩ := List.cons.inj hall
      have htoNat : (UInt8.ofNat n).toNat = n := toNat_ofNat_of_lt (by omega)
      have hlt : UInt8.ofNat n < 0x80 := (short_iff _).mpr (by rw [htoNat]; exact hshort)
      rw [if_pos hlt, htoNat]
      rfl
    | long hone height =>
      obtain ⟨rfl, rfl⟩ := List.cons.inj hall
      have htoNat : (UInt8.ofNat (128 + bytes.length)).toNat = 128 + bytes.length :=
        toNat_ofNat_of_lt (by omega)
      have hlt : ¬ UInt8.ofNat (128 + bytes.length) < 0x80 := by
        rw [short_iff, htoNat]
        omega
      dsimp only
      rw [if_neg hlt, low_seven, htoNat, if_neg (by omega)]
      have hcount : bytes.length = (128 + bytes.length) % 128 := by omega
      have hsplit : splitAtChecked (bytes ++ body) ((128 + bytes.length) % 128) =
          some (bytes, body) :=
        splitAtChecked_eq_some.mpr ⟨rfl, hcount⟩
      exact bind_eq_ok.mpr ⟨(bytes, body), orRefuse_eq_ok.mpr hsplit, by rw [foldLength_eq height]⟩

/-- **What the code takes for an element is one.** -/
theorem element_eq_ok {buf contents rest : Bytes} {tag : UInt8} :
    element buf = .ok (tag, contents, rest) ↔ Begins buf tag contents rest := by
  constructor
  · intro h
    obtain ⟨⟨t, afterTag⟩, htag, h⟩ := bind_eq_ok.mp h
    obtain ⟨⟨first, afterFirst⟩, hfirst, h⟩ := bind_eq_ok.mp h
    obtain ⟨⟨length, body⟩, hlength, h⟩ := bind_eq_ok.mp h
    obtain ⟨⟨c, r⟩, hsplit, h⟩ := bind_eq_ok.mp h
    obtain ⟨rfl, hparts⟩ := Prod.mk.inj (Except.ok.inj h)
    cases hparts
    obtain ⟨rfl, rfl⟩ := splitAtChecked_eq_some.mp (orRefuse_eq_ok.mp hsplit)
    obtain ⟨bytes, hlen, rfl⟩ := elementLength_eq_ok.mp hlength
    obtain rfl := splitFirst_eq_some.mp (orRefuse_eq_ok.mp hfirst)
    obtain rfl := splitFirst_eq_some.mp (orRefuse_eq_ok.mp htag)
    exact ⟨_, .mk hlen, by simp⟩
  · rintro ⟨_, ⟨hlength⟩, rfl⟩
    rename_i length
    obtain ⟨first, bytes, rfl⟩ : ∃ first bytes, length = first :: bytes := by
      generalize contents.length = n at hlength
      cases hlength with
      | short _ | long _ _ => exact ⟨_, _, rfl⟩
    refine bind_eq_ok.mpr ⟨(tag, first :: bytes ++ contents ++ rest), orRefuse_eq_ok.mpr rfl, ?_⟩
    refine bind_eq_ok.mpr ⟨(first, bytes ++ contents ++ rest), orRefuse_eq_ok.mpr rfl, ?_⟩
    refine bind_eq_ok.mpr ⟨(contents.length, contents ++ rest), elementLength_eq_ok.mpr
      ⟨bytes, hlength, append_assoc ..⟩, ?_⟩
    exact bind_eq_ok.mpr
      ⟨(contents, rest), orRefuse_eq_ok.mpr (splitAtChecked_eq_some.mpr ⟨rfl, rfl⟩), rfl⟩

theorem element_avoids (buf : Bytes) : Avoids Fault.panic (element buf) := by
  have hlength : ∀ first afterFirst, Avoids Fault.panic (elementLength first afterFirst) := by
    intro first afterFirst
    rw [elementLength]
    dsimp only
    split_ifs
    · exact .of_ok _
    · exact .of_error (by decide)
    · exact orRefuse_avoids.bind fun _ => .of_ok _
  exact orRefuse_avoids.bind fun _ => orRefuse_avoids.bind fun _ => (hlength _ _).bind fun _ =>
    orRefuse_avoids.bind fun _ => .of_ok _

/-! ## The walk -/

/-- Elements that are stepped over. -/
inductive Skips : Nat → Bytes → Bytes → Prop
  | zero {rest : Bytes} : Skips 0 rest rest
  | succ {n : Nat} {buf contents mid rest : Bytes} {tag : UInt8} :
      Begins buf tag contents mid → Skips n mid rest → Skips (n + 1) buf rest

/-- **The field of `notAfter`**: a certificate holds the part that is signed, which begins with the
version or without it, and goes on with three elements and the validity. -/
inductive NotAfter (der : Bytes) (tag : UInt8) (field : Bytes) : Prop
  | mk {certificate signature tbs trailer first afterFirst start validity more notBefore
      afterNotBefore last : Bytes} {firstTag notBeforeTag : UInt8} :
      Begins der sequenceTag certificate trailer → Begins certificate sequenceTag tbs signature →
      Begins tbs firstTag first afterFirst →
      Skips 3 (if firstTag = context0Tag then afterFirst else tbs) start →
      Begins start sequenceTag validity more →
      Begins validity notBeforeTag notBefore afterNotBefore →
      Begins afterNotBefore tag field last → NotAfter der tag field

theorem skipElements_eq_ok {buf rest : Bytes} :
    skipElements n buf = .ok rest ↔ Skips n buf rest := by
  constructor
  · intro h
    induction n generalizing buf with
    | zero =>
      cases h
      exact .zero
    | succ n ih =>
      obtain ⟨⟨tag, contents, mid⟩, helement, h⟩ := bind_eq_ok.mp h
      exact .succ (element_eq_ok.mp helement) (ih h)
  · intro h
    induction h with
    | zero => rfl
    | succ hbegins _ ih => exact bind_eq_ok.mpr ⟨_, element_eq_ok.mpr hbegins, ih⟩

/-- **The walk finds the field of `notAfter`**, and nothing else. -/
theorem walk_eq_ok {der field : Bytes} {tag : UInt8} :
    walk der = .ok (tag, field) ↔ NotAfter der tag field := by
  constructor
  · intro h
    obtain ⟨⟨tag₁, certificate, trailer⟩, hder, h⟩ := bind_eq_ok.mp h
    dsimp only at h
    split_ifs at h with htag₁
    obtain ⟨⟨tag₂, tbs, signature⟩, hcertificate, h⟩ := bind_eq_ok.mp h
    dsimp only at h
    split_ifs at h with htag₂
    obtain ⟨⟨firstTag, first, afterFirst⟩, htbs, h⟩ := bind_eq_ok.mp h
    obtain ⟨start, hskip, h⟩ := bind_eq_ok.mp h
    obtain ⟨⟨tag₃, validity, more⟩, hvalidity, h⟩ := bind_eq_ok.mp h
    dsimp only at h
    split_ifs at h with htag₃
    obtain ⟨⟨notBeforeTag, notBefore, afterNotBefore⟩, hbefore, h⟩ := bind_eq_ok.mp h
    obtain ⟨⟨tag₄, notAfter, last⟩, hafter, h⟩ := bind_eq_ok.mp h
    cases h
    obtain rfl := not_not.mp htag₁
    obtain rfl := not_not.mp htag₂
    obtain rfl := not_not.mp htag₃
    exact .mk (element_eq_ok.mp hder) (element_eq_ok.mp hcertificate) (element_eq_ok.mp htbs)
      (skipElements_eq_ok.mp hskip) (element_eq_ok.mp hvalidity) (element_eq_ok.mp hbefore)
      (element_eq_ok.mp hafter)
  · rintro ⟨hder, hcertificate, htbs, hskip, hvalidity, hbefore, hafter⟩
    have hsame : ¬ sequenceTag ≠ sequenceTag := not_not.mpr rfl
    refine bind_eq_ok.mpr ⟨_, element_eq_ok.mpr hder, ?_⟩
    dsimp only
    rw [if_neg hsame]
    refine bind_eq_ok.mpr ⟨_, element_eq_ok.mpr hcertificate, ?_⟩
    dsimp only
    rw [if_neg hsame]
    refine bind_eq_ok.mpr ⟨_, element_eq_ok.mpr htbs, ?_⟩
    refine bind_eq_ok.mpr ⟨_, skipElements_eq_ok.mpr hskip, ?_⟩
    refine bind_eq_ok.mpr ⟨_, element_eq_ok.mpr hvalidity, ?_⟩
    dsimp only
    rw [if_neg hsame]
    exact bind_eq_ok.mpr ⟨_, element_eq_ok.mpr hbefore,
      bind_eq_ok.mpr ⟨_, element_eq_ok.mpr hafter, rfl⟩⟩

theorem walk_avoids (der : Bytes) : Avoids Fault.panic (walk der) := by
  have hskip : ∀ n rest, Avoids Fault.panic (skipElements n rest) := by
    intro n
    induction n with
    | zero => exact fun rest => .of_ok rest
    | succ n ih => exact fun rest => (element_avoids rest).bind fun _ => ih _
  have hrefused : ∀ e, Avoids Fault.panic (.error (.refused e) : Except Fault (UInt8 × Bytes)) :=
    fun e => .of_error fun h => by cases h
  refine (element_avoids _).bind ?_
  rintro ⟨tag₁, certificate, trailer⟩
  dsimp only
  split_ifs
  · exact hrefused _
  refine (element_avoids _).bind ?_
  rintro ⟨tag₂, tbs, signature⟩
  dsimp only
  split_ifs
  · exact hrefused _
  refine (element_avoids _).bind fun _ => (hskip _ _).bind fun _ => (element_avoids _).bind ?_
  rintro ⟨tag₃, validity, more⟩
  dsimp only
  split_ifs
  · exact hrefused _
  · exact (element_avoids _).bind fun _ => (element_avoids _).bind fun _ => .of_ok _

/-! ## Numbers -/

/-- **A number as it is parsed**: digits, with or without a sign before them. -/
inductive Numeral (signed : Bool) : Bytes → Int → Prop
  | digits {bs : Bytes} : bs ≠ [] → bs.all isDigit = true → Numeral signed bs (digitsValue bs)
  | plus {bs : Bytes} : bs ≠ [] → bs.all isDigit = true →
      Numeral signed (0x2b :: bs) (digitsValue bs)
  | minus {bs : Bytes} : signed = true → bs ≠ [] → bs.all isDigit = true →
      Numeral signed (0x2d :: bs) (-(digitsValue bs : Int))

theorem isDigit_iff (b : UInt8) : isDigit b = true ↔ 48 ≤ b.toNat ∧ b.toNat ≤ 57 := by
  rw [isDigit, Bool.and_eq_true, decide_eq_true_eq, decide_eq_true_eq, UInt8.le_iff_toNat_le,
    UInt8.le_iff_toNat_le]
  rfl

theorem foldl_digits_lt (h : bs.all isDigit = true) (n : Nat) :
    bs.foldl (fun n b => 10 * n + (b.toNat - 0x30)) n < (n + 1) * 10 ^ bs.length := by
  induction bs generalizing n with
  | nil => simp
  | cons b bs ih =>
    rw [all_cons, Bool.and_eq_true, isDigit_iff] at h
    rw [foldl_cons, length_cons, Nat.pow_succ']
    calc _ < (10 * n + (b.toNat - 0x30) + 1) * 10 ^ bs.length := ih h.2 _
      _ ≤ (n + 1) * 10 * 10 ^ bs.length := Nat.mul_le_mul_right _ (by omega)
      _ = (n + 1) * (10 * 10 ^ bs.length) := Nat.mul_assoc _ _ _

theorem digitsValue_lt (h : bs.all isDigit = true) : digitsValue bs < 10 ^ bs.length := by
  have := foldl_digits_lt h 0
  rwa [Nat.zero_add, Nat.one_mul] at this

theorem digitsValue_small (h : bs.all isDigit = true) (hlen : bs.length ≤ 4) :
    digitsValue bs < 10000 :=
  (digitsValue_lt h).trans_le (Nat.pow_le_pow_right (by decide) hlen)

theorem parseDigits_eq_some :
    parseDigits bs = some n ↔ (bs ≠ [] ∧ bs.all isDigit = true) ∧ digitsValue bs = n := by
  rw [parseDigits]
  split_ifs with h
  · exact ⟨fun heq => ⟨h, some.inj heq⟩, fun heq => congrArg some heq.2⟩
  · exact ⟨fun heq => (by cases heq), fun heq => absurd heq.1 h⟩

theorem head?_ne_of_digits (h : bs.all isDigit = true) {b : UInt8}
    (hb : isDigit b = false) : bs.head? ≠ some b := by
  cases bs with
  | nil => exact fun heq => by cases heq
  | cons c cs =>
    rw [all_cons, Bool.and_eq_true] at h
    intro heq
    rw [← some.inj heq, h.1] at hb
    cases hb

theorem parseU32_eq_some (hlen : bs.length ≤ 4) : parseU32 bs = some n ↔ Numeral false bs n := by
  rw [parseU32, filter_eq_some_iff, decide_eq_true_eq]
  constructor
  · rintro ⟨hdigits, -⟩
    obtain ⟨⟨hne, hall⟩, rfl⟩ := parseDigits_eq_some.mp hdigits
    split_ifs at hne hall ⊢ with hplus
    · obtain ⟨tail, rfl⟩ := head?_eq_some_iff.mp hplus
      exact .plus hne hall
    · exact .digits hne hall
  · intro h
    generalize hv : (n : Int) = v at h
    cases h with
    | digits hne hall =>
      obtain rfl := Int.ofNat_inj.mp hv
      have hsmall := digitsValue_small hall hlen
      rw [if_neg (head?_ne_of_digits hall (by decide))]
      exact ⟨parseDigits_eq_some.mpr ⟨⟨hne, hall⟩, rfl⟩, by omega⟩
    | plus hne hall =>
      obtain rfl := Int.ofNat_inj.mp hv
      rw [length_cons] at hlen
      have hsmall := digitsValue_small hall (by omega)
      rw [if_pos head?_cons]
      exact ⟨parseDigits_eq_some.mpr ⟨⟨hne, hall⟩, rfl⟩, by omega⟩
    | minus hsigned _ _ => cases hsigned

theorem parseI32_eq_some {v : Int} (hlen : bs.length ≤ 4) :
    parseI32 bs = some v ↔ Numeral true bs v := by
  rw [parseI32]
  constructor
  · intro h
    split_ifs at h with hminus
    · obtain ⟨n, hn, rfl⟩ := map_eq_some_iff.mp h
      obtain ⟨⟨hne, hall⟩, rfl⟩ := parseDigits_eq_some.mp (filter_eq_some_iff.mp hn).1
      obtain ⟨tail, rfl⟩ := head?_eq_some_iff.mp hminus
      exact .minus rfl hne hall
    · obtain ⟨n, hn, rfl⟩ := map_eq_some_iff.mp h
      have hnumeral := (parseU32_eq_some hlen).mp (filter_eq_some_iff.mp hn).1
      generalize (n : Int) = v at hnumeral
      cases hnumeral with
      | digits hne hall => exact .digits hne hall
      | plus hne hall => exact .plus hne hall
      | minus hsigned _ _ => cases hsigned
  · intro h
    cases h with
    | digits hne hall =>
      have hsmall := digitsValue_small hall hlen
      rw [if_neg (head?_ne_of_digits hall (by decide)),
        (parseU32_eq_some hlen).mpr (.digits hne hall), filter_some,
        if_pos (decide_eq_true (by omega))]
      rfl
    | @plus digits hne hall =>
      have hlen' := hlen
      rw [length_cons] at hlen'
      have hsmall := digitsValue_small hall (by omega)
      have hhead : (0x2b :: digits : Bytes).head? ≠ some 0x2d := by
        rw [head?_cons]
        decide
      rw [if_neg hhead, (parseU32_eq_some hlen).mpr (.plus hne hall), filter_some,
        if_pos (decide_eq_true (by omega))]
      rfl
    | minus _ hne hall =>
      rw [length_cons] at hlen
      have hsmall := digitsValue_small hall (by omega)
      rw [if_pos head?_cons, tail_cons, parseDigits_eq_some.mpr ⟨⟨hne, hall⟩, rfl⟩,
        filter_some, if_pos (decide_eq_true (by omega))]
      rfl

theorem Numeral.bounds {signed : Bool} {v : Int} (h : Numeral signed bs v)
    (hlen : bs.length ≤ 4) : -10000 < v ∧ v < 10000 := by
  cases h with
  | digits _ hall =>
    have := digitsValue_small hall hlen
    omega
  | plus _ hall | minus _ _ hall =>
    rw [length_cons] at hlen
    have := digitsValue_small hall (by omega)
    omega

theorem Numeral.mem {signed : Bool} {v : Int} (h : Numeral signed bs v) {b : UInt8}
    (hb : b ∈ bs) : isDigit b = true ∨ b = 0x2b ∨ b = 0x2d := by
  cases h with
  | digits _ hall => exact .inl (all_eq_true.mp hall b hb)
  | plus _ hall =>
    rcases mem_cons.mp hb with rfl | hb
    · exact .inr (.inl rfl)
    · exact .inl (all_eq_true.mp hall b hb)
  | minus _ _ hall =>
    rcases mem_cons.mp hb with rfl | hb
    · exact .inr (.inr rfl)
    · exact .inl (all_eq_true.mp hall b hb)

/-! ## Times -/

inductive YearText (tag : UInt8) : Bytes → Int → Prop
  | utc {bs : Bytes} {v : Int} : tag = utcTimeTag → bs.length = 2 → Numeral true bs v →
      YearText tag bs (if 50 ≤ v then 1900 + v else 2000 + v)
  | generalized {bs : Bytes} {v : Int} : tag = generalizedTimeTag → bs.length = 4 →
      Numeral true bs v → YearText tag bs v

structure TwoBytes (bs : Bytes) (n : Nat) : Prop where
  length : bs.length = 2
  numeral : Numeral false bs n

/-- **A field that is read as a time.** -/
inductive TimeText (tag : UInt8) : Bytes → Int → Prop
  | mk {year month day hour minute second : Bytes} {y : Int} {mo d h mi s : Nat} {t : Int} :
      YearText tag year y → TwoBytes month mo → TwoBytes day d → TwoBytes hour h →
      TwoBytes minute mi → TwoBytes second s → timestamp y mo d h mi s = some t →
      TimeText tag (year ++ (month ++ (day ++ (hour ++ (minute ++ (second ++ [0x5a])))))) t

def Ascii (bs : Bytes) : Prop := ∀ b ∈ bs, b.toNat < 0x80

theorem Ascii.append {a b : Bytes} (ha : Ascii a) (hb : Ascii b) : Ascii (a ++ b) := by
  intro c hc
  rcases mem_append.mp hc with hc | hc
  · exact ha c hc
  · exact hb c hc

theorem Numeral.ascii {signed : Bool} {v : Int} (h : Numeral signed bs v) : Ascii bs := by
  intro b hb
  rcases h.mem hb with hdigit | rfl | rfl
  · have := (isDigit_iff b).mp hdigit
    omega
  · decide
  · decide

theorem YearText.ascii {tag : UInt8} {y : Int} (h : YearText tag bs y) : Ascii bs := by
  cases h with
  | utc _ _ hnumeral | generalized _ _ hnumeral => exact hnumeral.ascii

theorem Ascii.fromUtf8? (h : Ascii bs) : ∃ s, Utf8.fromUtf8? bs = some s := by
  induction bs with
  | nil => exact ⟨[], rfl⟩
  | cons b bs ih =>
    obtain ⟨s, hs⟩ := ih fun c hc => h c (mem_cons_of_mem _ hc)
    have hb : isAscii b = true := decide_eq_true (h b mem_cons_self)
    refine ⟨Char.ofNat b.toNat :: s, ?_⟩
    rw [fromUtf8?_cons, scan_ascii hb, bind_some, drop_zero, hs]
    rfl

theorem Ascii.isCharBoundary (h : Ascii bs) {i : Nat} (hi : i ≤ bs.length) :
    isCharBoundary bs i = true := by
  rw [Tls.isCharBoundary]
  cases hget : bs[i]? with
  | none =>
    have := getElem?_eq_none_iff.mp hget
    exact decide_eq_true (by omega)
  | some b =>
    have hb := h b (mem_of_getElem? hget)
    dsimp only
    rw [isCont, decide_eq_false (by omega)]
    rfl

theorem le_of_isCharBoundary {i : Nat} (h : isCharBoundary bs i = true) : i ≤ bs.length := by
  rw [isCharBoundary] at h
  cases hget : bs[i]? with
  | none =>
    rw [hget] at h
    exact Nat.le_of_eq (of_decide_eq_true h)
  | some b => exact Nat.le_of_lt (List.getElem?_eq_some_iff.mp hget).1

theorem twoBytes_of_field {rest : Bytes} {i n : Nat} (h : field rest i (i + 2) = .ok n) :
    ∃ bs, TwoBytes bs n ∧ rest.drop i = bs ++ rest.drop (i + 2) := by
  obtain ⟨bs, hget, hparse⟩ := bind_eq_ok.mp h
  have hget := orRefuse_eq_ok.mp hget
  rw [getText] at hget
  split_ifs at hget with hbounds
  cases hget
  have hle := le_of_isCharBoundary hbounds.2.2
  have hlen : ((rest.take (i + 2)).drop i).length = 2 := by
    rw [length_drop, length_take_of_le hle]
    omega
  refine ⟨_, ⟨hlen, (parseU32_eq_some (by omega)).mp (orRefuse_eq_ok.mp hparse)⟩, ?_⟩
  rw [drop_take, Nat.add_sub_cancel_left, ← drop_drop, take_append_drop]

theorem field_of_twoBytes {a bs c : Bytes} {i n : Nat} (ha : a.length = i) (h : TwoBytes bs n)
    (hascii : Ascii (a ++ (bs ++ c))) : field (a ++ (bs ++ c)) i (i + 2) = .ok n := by
  have hlen : i + 2 ≤ (a ++ (bs ++ c)).length := by
    rw [length_append, length_append, ha, h.length]
    omega
  have htake : ((a ++ (bs ++ c)).take (i + 2)).drop i = bs := by
    rw [drop_take, Nat.add_sub_cancel_left, ← ha, drop_left, ← h.length, take_left]
  have hget : getText (a ++ (bs ++ c)) i (i + 2) = some bs := by
    rw [getText, if_pos ⟨Nat.le_add_right _ _, hascii.isCharBoundary (by omega),
      hascii.isCharBoundary hlen⟩, htake]
  exact bind_eq_ok.mpr ⟨bs, orRefuse_eq_ok.mpr hget,
    orRefuse_eq_ok.mpr ((parseU32_eq_some (by rw [h.length]; decide)).mpr h.numeral)⟩

theorem plusI32_ok {a b : Int} (ha : 1900 ≤ a ∧ a ≤ 2000) (hb : -10000 < b ∧ b < 10000) :
    plusI32 a b = .ok (a + b) :=
  if_pos (by omega)

theorem splitTextAt_eq_some {text a b : Bytes} (h : splitTextAt text n = some (a, b)) :
    text = a ++ b ∧ a.length = n := by
  rw [splitTextAt] at h
  split_ifs at h with hbound
  cases h
  exact ⟨(take_append_drop n text).symm, length_take_of_le (le_of_isCharBoundary hbound)⟩

theorem splitTextAt_ascii {a b : Bytes} (h : Ascii (a ++ b)) :
    splitTextAt (a ++ b) a.length = some (a, b) := by
  rw [splitTextAt, if_pos (h.isCharBoundary (by rw [length_append]; omega)), take_left,
    drop_left]

theorem century_eq_ok {v : Int} (hv : -10000 < v ∧ v < 10000) :
    century v = .ok (if 50 ≤ v then 1900 + v else 2000 + v) := by
  rw [century]
  split_ifs with hfifty
  all_goals exact plusI32_ok (by decide) hv

theorem yearText_of_readYear {tag : UInt8} {text rest : Bytes} {y : Int}
    (h : readYear tag text = .ok (y, rest)) :
    ∃ year, text = year ++ rest ∧ YearText tag year y := by
  rw [readYear] at h
  split_ifs at h with hutc hgeneralized
  · obtain ⟨⟨yy, r⟩, hsplit, h⟩ := bind_eq_ok.mp h
    obtain ⟨v, hparse, h⟩ := bind_eq_ok.mp h
    obtain ⟨year, hyear, h⟩ := bind_eq_ok.mp h
    cases h
    obtain ⟨rfl, hlen⟩ := splitTextAt_eq_some (orRefuse_eq_ok.mp hsplit)
    have hnumeral := (parseI32_eq_some (by omega)).mp (orRefuse_eq_ok.mp hparse)
    rw [century_eq_ok (hnumeral.bounds (by omega))] at hyear
    cases hyear
    exact ⟨yy, rfl, .utc hutc hlen hnumeral⟩
  · obtain ⟨⟨yyyy, r⟩, hsplit, h⟩ := bind_eq_ok.mp h
    obtain ⟨v, hparse, h⟩ := bind_eq_ok.mp h
    cases h
    obtain ⟨rfl, hlen⟩ := splitTextAt_eq_some (orRefuse_eq_ok.mp hsplit)
    exact ⟨yyyy, rfl, .generalized hgeneralized hlen
      ((parseI32_eq_some (by omega)).mp (orRefuse_eq_ok.mp hparse))⟩

theorem readYear_of_yearText {tag : UInt8} {year rest : Bytes} {y : Int} (h : YearText tag year y)
    (hascii : Ascii (year ++ rest)) : readYear tag (year ++ rest) = .ok (y, rest) := by
  have hsplit := splitTextAt_ascii hascii
  cases h with
  | utc htag hlen hnumeral =>
    rw [hlen] at hsplit
    rw [readYear, if_pos htag]
    exact bind_eq_ok.mpr ⟨_, orRefuse_eq_ok.mpr hsplit, bind_eq_ok.mpr
      ⟨_, orRefuse_eq_ok.mpr ((parseI32_eq_some (by omega)).mpr hnumeral), bind_eq_ok.mpr
        ⟨_, century_eq_ok (hnumeral.bounds (by omega)), rfl⟩⟩⟩
  | generalized htag hlen hnumeral =>
    have hother : ¬ tag = utcTimeTag := by
      rw [htag]
      decide
    rw [hlen] at hsplit
    rw [readYear, if_neg hother, if_pos htag]
    exact bind_eq_ok.mpr ⟨_, orRefuse_eq_ok.mpr hsplit, bind_eq_ok.mpr
      ⟨_, orRefuse_eq_ok.mpr ((parseI32_eq_some (by omega)).mpr hnumeral), rfl⟩⟩

theorem drop_of_getLast? {rest : Bytes} {b : UInt8} (hlen : rest.length = n + 1)
    (hlast : rest.getLast? = some b) : rest.drop n = [b] := by
  obtain ⟨init, rfl⟩ := getLast?_eq_some_iff.mp hlast
  have hinit : init.length = n := by
    rw [length_append, length_singleton] at hlen
    omega
  rw [← hinit, drop_left]

/-- **The code reads the times**, and nothing else. -/
theorem readTime_eq_ok {tag : UInt8} {text : Bytes} {t : Int} :
    readTime tag text = .ok t ↔ TimeText tag text t := by
  constructor
  · intro h
    obtain ⟨-, -, h⟩ := bind_eq_ok.mp h
    obtain ⟨⟨y, rest⟩, hyear, h⟩ := bind_eq_ok.mp h
    obtain ⟨year, htext, hyear⟩ := yearText_of_readYear hyear
    dsimp only at h
    split_ifs at h with hwidth
    rw [not_or, not_not, not_not] at hwidth
    obtain ⟨mo, hmonth, h⟩ := bind_eq_ok.mp h
    obtain ⟨d, hday, h⟩ := bind_eq_ok.mp h
    obtain ⟨hr, hhour, h⟩ := bind_eq_ok.mp h
    obtain ⟨mi, hminute, h⟩ := bind_eq_ok.mp h
    obtain ⟨s, hsecond, h⟩ := bind_eq_ok.mp h
    obtain ⟨month, hmonth, hrest⟩ := twoBytes_of_field hmonth
    obtain ⟨day, hday, hafterMonth⟩ := twoBytes_of_field hday
    obtain ⟨hour, hhour, hafterDay⟩ := twoBytes_of_field hhour
    obtain ⟨minute, hminute, hafterHour⟩ := twoBytes_of_field hminute
    obtain ⟨second, hsecond, hafterMinute⟩ := twoBytes_of_field hsecond
    rw [drop_zero, hafterMonth, hafterDay, hafterHour, hafterMinute,
      drop_of_getLast? hwidth.1 hwidth.2] at hrest
    rw [htext, hrest]
    exact .mk hyear hmonth hday hhour hminute hsecond (orRefuse_eq_ok.mp h)
  · rintro ⟨hyear, hmonth, hday, hhour, hminute, hsecond, htime⟩
    rename_i year month day hour minute second y mo d hr mi s
    have hz : Ascii [0x5a] := by
      intro b hb
      obtain rfl := mem_singleton.mp hb
      decide
    have hrest : Ascii (month ++ (day ++ (hour ++ (minute ++ (second ++ [0x5a]))))) :=
      hmonth.numeral.ascii.append (hday.numeral.ascii.append (hhour.numeral.ascii.append
        (hminute.numeral.ascii.append (hsecond.numeral.ascii.append hz))))
    have hall := hyear.ascii.append hrest
    obtain ⟨text, htext⟩ := hall.fromUtf8?
    have hwidth : ¬ ((month ++ (day ++ (hour ++ (minute ++ (second ++ [0x5a]))))).length ≠ 11 ∨
        (month ++ (day ++ (hour ++ (minute ++ (second ++ [0x5a]))))).getLast? ≠ some 0x5a) := by
      rw [not_or, not_not, not_not]
      simp only [length_append, hmonth.length, hday.length, hhour.length, hminute.length,
        hsecond.length, length_singleton, ← append_assoc]
      exact ⟨trivial, getLast?_append_of_ne_nil _ (cons_ne_nil _ _)⟩
    have hreadMonth := field_of_twoBytes (a := []) rfl hmonth hrest
    have hreadDay := field_of_twoBytes hmonth.length hday hrest
    rw [← append_assoc month] at hrest
    have hreadHour := field_of_twoBytes
      (by rw [length_append, hmonth.length, hday.length]) hhour hrest
    rw [← append_assoc (month ++ day)] at hrest
    have hreadMinute := field_of_twoBytes
      (by rw [length_append, length_append, hmonth.length, hday.length, hhour.length])
      hminute hrest
    rw [← append_assoc (month ++ day ++ hour)] at hrest
    have hreadSecond := field_of_twoBytes
      (by rw [length_append, length_append, length_append, hmonth.length,
        hday.length, hhour.length, hminute.length]) hsecond hrest
    simp only [append_assoc] at hreadHour hreadMinute hreadSecond
    refine bind_eq_ok.mpr ⟨text, orRefuse_eq_ok.mpr htext,
      bind_eq_ok.mpr ⟨_, readYear_of_yearText hyear hall, ?_⟩⟩
    dsimp only
    rw [if_neg hwidth]
    exact bind_eq_ok.mpr ⟨mo, hreadMonth, bind_eq_ok.mpr ⟨d, hreadDay, bind_eq_ok.mpr
      ⟨hr, hreadHour, bind_eq_ok.mpr ⟨mi, hreadMinute, bind_eq_ok.mpr ⟨s, hreadSecond,
        orRefuse_eq_ok.mpr htime⟩⟩⟩⟩⟩

theorem notAfterUnix_eq_ok {der : Bytes} {t : Int} :
    notAfterUnix der = .ok t ↔ ∃ tag text, NotAfter der tag text ∧ TimeText tag text t := by
  constructor
  · intro h
    obtain ⟨⟨tag, text⟩, hwalk, h⟩ := bind_eq_ok.mp h
    exact ⟨tag, text, walk_eq_ok.mp hwalk, readTime_eq_ok.mp h⟩
  · rintro ⟨tag, text, hwalk, htime⟩
    exact bind_eq_ok.mpr ⟨_, walk_eq_ok.mpr hwalk, readTime_eq_ok.mpr htime⟩

/-- There is one field of `notAfter`. -/
theorem NotAfter.unique {der text text' : Bytes} {tag tag' : UInt8} (h : NotAfter der tag text)
    (h' : NotAfter der tag' text') : tag = tag' ∧ text = text' :=
  Prod.mk.inj (Except.ok.inj ((walk_eq_ok.mpr h).symm.trans (walk_eq_ok.mpr h')))

/-! ## Nothing ends the process -/

theorem readYear_avoids (tag : UInt8) (text : Bytes) : Avoids Fault.panic (readYear tag text) := by
  rw [readYear]
  split_ifs
  · intro h
    -- a sum is made only of a number that was parsed, and that is small
    cases hsplit : splitTextAt text 2 with
    | none =>
      rw [hsplit] at h
      cases h
    | some parts =>
      cases hparse : parseI32 parts.1 with
      | none =>
        rw [hsplit] at h
        dsimp only [orRefuse, bind, Except.bind] at h
        rw [hparse] at h
        cases h
      | some v =>
        obtain ⟨-, hlen⟩ := splitTextAt_eq_some (a := parts.1) (b := parts.2) hsplit
        have hnumeral := (parseI32_eq_some (by omega)).mp hparse
        have hcentury := century_eq_ok (hnumeral.bounds (by omega))
        rw [hsplit] at h
        dsimp only [orRefuse, bind, Except.bind] at h
        rw [hparse] at h
        dsimp only at h
        rw [hcentury] at h
        cases h
  · exact orRefuse_avoids.bind fun _ => orRefuse_avoids.bind fun _ => .of_ok _
  · exact .of_error fun h => by cases h

theorem notAfterUnix_avoids (der : Bytes) : Avoids Fault.panic (notAfterUnix der) := by
  have hfield : ∀ rest i j, Avoids Fault.panic (field rest i j) := fun rest i j =>
    orRefuse_avoids.bind fun _ => orRefuse_avoids
  refine (walk_avoids der).bind ?_
  rintro ⟨tag, text⟩
  refine orRefuse_avoids.bind fun _ => (readYear_avoids tag text).bind ?_
  rintro ⟨year, rest⟩
  dsimp only
  split_ifs
  · exact .of_error fun h => by cases h
  · exact (hfield _ _ _).bind fun _ => (hfield _ _ _).bind fun _ => (hfield _ _ _).bind fun _ =>
      (hfield _ _ _).bind fun _ => (hfield _ _ _).bind fun _ => orRefuse_avoids

/-! ## Certificates -/

/-- The bytes of a number, the highest first, and no more than it needs. -/
def bytesOf (n : Nat) : Bytes :=
  if n = 0 then [] else bytesOf (n / 256) ++ [UInt8.ofNat (n % 256)]
termination_by n

def derLength (n : Nat) : Bytes :=
  if n < 128 then [UInt8.ofNat n] else UInt8.ofNat (128 + (bytesOf n).length) :: bytesOf n

def derElement (tag : UInt8) (contents : Bytes) : Bytes :=
  tag :: (derLength contents.length ++ contents)

def twoDigits (n : Nat) : Bytes := [UInt8.ofNat (48 + n / 10), UInt8.ofNat (48 + n % 10)]

/-- **A time of RFC 5280**: with two digits for a year from 1950 to 2049, or with four. -/
structure Time where
  utc : Bool
  year : Nat
  month : Nat
  day : Nat
  hour : Nat
  minute : Nat
  second : Nat
  year_ok : if utc then 1950 ≤ year ∧ year < 2050 else year < 10000
  valid : ValidDate year month day hour minute second

namespace Time

variable (time : Time)

def tag : UInt8 := if time.utc then utcTimeTag else generalizedTimeTag

def yearText : Bytes :=
  if time.utc then twoDigits (time.year % 100)
  else twoDigits (time.year / 100) ++ twoDigits (time.year % 100)

def text : Bytes :=
  time.yearText ++ (twoDigits time.month ++ (twoDigits time.day ++ (twoDigits time.hour ++
    (twoDigits time.minute ++ (twoDigits time.second ++ [0x5a])))))

def unix : Int := unixTime time.year time.month time.day time.hour time.minute time.second

def element : Bytes := derElement time.tag time.text

end Time

/-- **A certificate**, of version 1 without the field for it. -/
structure Certificate where
  version : Option Bytes
  serial : Bytes
  signature : Bytes
  issuer : Bytes
  notBefore : Time
  notAfter : Time
  /-- what comes after the validity, in the part that is signed -/
  others : Bytes
  /-- the algorithm and the signature -/
  trailer : Bytes

namespace Certificate

variable (c : Certificate)

def validity : Bytes := derElement sequenceTag (c.notBefore.element ++ c.notAfter.element)

def afterVersion : Bytes :=
  derElement 0x02 c.serial ++ (derElement sequenceTag c.signature ++
    (derElement sequenceTag c.issuer ++ (c.validity ++ c.others)))

def tbs : Bytes :=
  match c.version with
  | none => c.afterVersion
  | some version => derElement context0Tag version ++ c.afterVersion

def der : Bytes := derElement sequenceTag (derElement sequenceTag c.tbs ++ c.trailer)

end Certificate

theorem bigEndian_concat (bs : Bytes) (b : UInt8) :
    bigEndian (bs ++ [b]) = 256 * bigEndian bs + b.toNat := by
  rw [bigEndian, foldl_append]
  rfl

theorem bigEndian_bytesOf (n : Nat) : bigEndian (bytesOf n) = n := by
  induction n using Nat.strongRecOn with
  | _ n ih =>
    rw [bytesOf]
    split_ifs with hzero
    · exact hzero.symm
    · rw [bigEndian_concat, ih (n / 256) (by omega), toNat_ofNat_of_lt (by omega)]
      omega

theorem length_bytesOf_le (n k : Nat) (h : n < 256 ^ k) : (bytesOf n).length ≤ k := by
  induction k generalizing n with
  | zero =>
    rw [bytesOf, if_pos (by omega)]
    exact Nat.le_refl 0
  | succ k ih =>
    rw [bytesOf]
    split_ifs with hzero
    · exact Nat.zero_le _
    · rw [Nat.pow_succ] at h
      have := ih (n / 256) (by omega)
      rw [length_append, length_singleton]
      omega

theorem length_derLength (h : n < 2 ^ 64) : Length n (derLength n) := by
  rw [derLength]
  split_ifs with hshort
  · exact .short hshort
  · have hone : 1 ≤ (bytesOf n).length := by
      rw [bytesOf, if_neg (by omega), length_append, length_singleton]
      omega
    have hlong := Length.long hone (length_bytesOf_le n 8 h)
    rwa [bigEndian_bytesOf] at hlong

theorem begins_derElement {contents : Bytes} (h : contents.length < 2 ^ 64) (tag : UInt8)
    (rest : Bytes) : Begins (derElement tag contents ++ rest) tag contents rest :=
  ⟨_, .mk (length_derLength h), rfl⟩

theorem length_lt_derElement (tag : UInt8) (contents : Bytes) :
    contents.length < (derElement tag contents).length := by
  rw [derElement, length_cons, length_append]
  omega

theorem twoDigits_ne_nil (n : Nat) : twoDigits n ≠ [] := cons_ne_nil _ _

theorem twoDigits_facts (h : n < 100) :
    (twoDigits n).all isDigit = true ∧ digitsValue (twoDigits n) = n := by
  have hhigh : (UInt8.ofNat (48 + n / 10)).toNat = 48 + n / 10 := toNat_ofNat_of_lt (by omega)
  have hlow : (UInt8.ofNat (48 + n % 10)).toNat = 48 + n % 10 := toNat_ofNat_of_lt (by omega)
  constructor
  · simp only [twoDigits, all_cons, all_nil, Bool.and_true, Bool.and_eq_true, isDigit_iff]
    omega
  · simp only [twoDigits, digitsValue, foldl_cons, foldl_nil]
    omega

theorem twoBytes_twoDigits (h : n < 100) : TwoBytes (twoDigits n) n := by
  obtain ⟨hall, hvalue⟩ := twoDigits_facts h
  have hnumeral : Numeral false (twoDigits n) _ := .digits (twoDigits_ne_nil n) hall
  rw [hvalue] at hnumeral
  exact ⟨rfl, hnumeral⟩

theorem Time.yearText_ok (time : Time) : YearText time.tag time.yearText time.year := by
  have hyear := time.year_ok
  rw [tag, yearText]
  cases hutc : time.utc with
  | true =>
    rw [hutc, if_pos rfl] at hyear
    obtain ⟨hall, hvalue⟩ := twoDigits_facts (n := time.year % 100) (by omega)
    have hnumeral : Numeral true (twoDigits (time.year % 100)) _ :=
      .digits (twoDigits_ne_nil _) hall
    have htext := @YearText.utc utcTimeTag _ _ rfl rfl hnumeral
    rw [hvalue] at htext
    rw [if_pos rfl, if_pos rfl]
    convert htext using 1
    split_ifs <;> omega
  | false =>
    rw [hutc, if_neg Bool.false_ne_true] at hyear
    obtain ⟨hhigh, hhighValue⟩ := twoDigits_facts (n := time.year / 100) (by omega)
    obtain ⟨hlow, hlowValue⟩ := twoDigits_facts (n := time.year % 100) (by omega)
    have hall :
        (twoDigits (time.year / 100) ++ twoDigits (time.year % 100)).all isDigit = true := by
      rw [all_append, hhigh, hlow]
      rfl
    have hvalue : digitsValue (twoDigits (time.year / 100) ++ twoDigits (time.year % 100)) =
        time.year := by
      simp only [twoDigits, digitsValue, foldl_cons, foldl_nil, cons_append,
        nil_append] at hhighValue hlowValue ⊢
      omega
    have hne := append_ne_nil_of_left_ne_nil (twoDigits_ne_nil (time.year / 100))
      (twoDigits (time.year % 100))
    have hnumeral : Numeral true (twoDigits (time.year / 100) ++ twoDigits (time.year % 100)) _ :=
      .digits hne hall
    rw [hvalue] at hnumeral
    rw [if_neg Bool.false_ne_true, if_neg Bool.false_ne_true]
    exact .generalized rfl rfl hnumeral

theorem daysInMonth_le (year : Int) (month : Nat) : daysInMonth year month ≤ 31 := by
  rw [daysInMonth]
  split_ifs <;> decide

theorem Time.text_ok (time : Time) : TimeText time.tag time.text time.unix := by
  obtain ⟨hmonth, hday, hhour, hminute, hsecond⟩ := time.valid
  have hdays := daysInMonth_le time.year time.month
  exact .mk time.yearText_ok (twoBytes_twoDigits (by omega)) (twoBytes_twoDigits (by omega))
    (twoBytes_twoDigits (by omega)) (twoBytes_twoDigits (by omega))
    (twoBytes_twoDigits (by omega)) (if_pos time.valid)

/-- **The field of `notAfter` of a certificate.** -/
theorem Certificate.notAfter_der (c : Certificate) (h : c.der.length < 2 ^ 63) :
    NotAfter c.der c.notAfter.tag c.notAfter.text := by
  have hcertificate := length_lt_derElement sequenceTag (derElement sequenceTag c.tbs ++ c.trailer)
  have htbs := length_lt_derElement sequenceTag c.tbs
  have hserial := length_lt_derElement 0x02 c.serial
  have hsignature := length_lt_derElement sequenceTag c.signature
  have hissuer := length_lt_derElement sequenceTag c.issuer
  have hvalidity := length_lt_derElement sequenceTag (c.notBefore.element ++ c.notAfter.element)
  have hbefore := length_lt_derElement c.notBefore.tag c.notBefore.text
  have hafter := length_lt_derElement c.notAfter.tag c.notAfter.text
  rw [length_append] at hcertificate hvalidity
  rw [← Time.element] at hbefore hafter
  have hfields : c.afterVersion.length ≤ c.tbs.length := by
    rw [tbs]
    cases c.version with
    | none => exact Nat.le_refl _
    | some version =>
      dsimp only
      rw [length_append]
      omega
  rw [der] at h
  simp only [afterVersion, validity, length_append] at hfields
  have hskips : Skips 3 c.afterVersion (c.validity ++ c.others) :=
    .succ (begins_derElement (by omega) _ _) (.succ (begins_derElement (by omega) _ _)
      (.succ (begins_derElement (by omega) _ _) .zero))
  have hsmall : c.tbs.length < 2 ^ 63 := by omega
  have hstart : ∃ firstTag first afterFirst, Begins c.tbs firstTag first afterFirst ∧
      Skips 3 (if firstTag = context0Tag then afterFirst else c.tbs) (c.validity ++ c.others) := by
    cases hversion : c.version with
    | none =>
      have heq : c.tbs = c.afterVersion := by rw [tbs, hversion]
      rw [heq]
      refine ⟨0x02, c.serial, _, begins_derElement (by omega) _ _, ?_⟩
      rw [if_neg (by decide)]
      exact hskips
    | some version =>
      have heq : c.tbs = derElement context0Tag version ++ c.afterVersion := by rw [tbs, hversion]
      have hversionLength := length_lt_derElement context0Tag version
      rw [heq, length_append] at hsmall
      rw [heq]
      refine ⟨context0Tag, version, _, begins_derElement (by omega) _ _, ?_⟩
      rw [if_pos rfl]
      exact hskips
  obtain ⟨firstTag, first, afterFirst, hfirst, hskip⟩ := hstart
  have hder := @begins_derElement (derElement sequenceTag c.tbs ++ c.trailer)
    (by rw [length_append]; omega) sequenceTag []
  have hlast := @begins_derElement c.notAfter.text (by omega) c.notAfter.tag []
  rw [append_nil] at hder hlast
  exact .mk hder (begins_derElement (by omega) _ _) hfirst hskip
    (begins_derElement (by rw [length_append]; omega) _ _) (begins_derElement (by omega) _ _)
    hlast

/-! ## The reading as a whole -/

/-- The bytes of a time before its `Z` are digits, but for the signs. -/
theorem TimeText.digits_iff {tag : UInt8} {text : Bytes} {t : Int} (h : TimeText tag text t) :
    text.dropLast.all isDigit = true ↔ 0x2b ∉ text ∧ 0x2d ∉ text := by
  obtain ⟨numbers, rfl, hnumbers⟩ : ∃ numbers, text = numbers ++ [0x5a] ∧
      ∀ b ∈ numbers, isDigit b = true ∨ b = 0x2b ∨ b = 0x2d := by
    obtain ⟨hyear, hmonth, hday, hhour, hminute, hsecond, -⟩ := h
    rename_i year month day hour minute second y mo d hr mi s
    have hyear : ∀ b ∈ year, isDigit b = true ∨ b = 0x2b ∨ b = 0x2d := by
      cases hyear with
      | utc _ _ hnumeral | generalized _ _ hnumeral => exact fun b => hnumeral.mem
    refine ⟨year ++ (month ++ (day ++ (hour ++ (minute ++ second)))), by
      simp only [append_assoc], ?_⟩
    intro b hb
    simp only [mem_append] at hb
    rcases hb with hb | hb | hb | hb | hb | hb
    · exact hyear b hb
    · exact hmonth.numeral.mem hb
    · exact hday.numeral.mem hb
    · exact hhour.numeral.mem hb
    · exact hminute.numeral.mem hb
    · exact hsecond.numeral.mem hb
  rw [dropLast_concat]
  constructor
  · intro hall
    have habsent : ∀ sign : UInt8, isDigit sign = false → sign ≠ 0x5a →
        sign ∉ numbers ++ [0x5a] := by
      intro sign hsign hz hmem
      rcases mem_append.mp hmem with hmem | hmem
      · rw [all_eq_true.mp hall sign hmem] at hsign
        cases hsign
      · exact hz (mem_singleton.mp hmem)
    exact ⟨habsent 0x2b (by decide) (by decide), habsent 0x2d (by decide) (by decide)⟩
  · rintro ⟨hplus, hminus⟩
    refine all_eq_true.mpr fun b hb => ?_
    rcases hnumbers b hb with hdigit | rfl | rfl
    · exact hdigit
    · exact absurd (mem_append_left _ hb) hplus
    · exact absurd (mem_append_left _ hb) hminus

/-- **The reading of `notAfter`.** -/
structure NotAfterHolds (der : Buffer UInt8) : Prop where
  /-- nothing ends the process -/
  safe : notAfterUnix der.items ≠ .error .panic
  /-- a certificate is read right -/
  exact : ∀ c : Certificate, c.der = der.items → notAfterUnix der.items = .ok c.notAfter.unix
  /-- only digits are read, before the `Z` -/
  digits : ∀ t, notAfterUnix der.items = .ok t →
    ∃ tag text, NotAfter der.items tag text ∧ text.dropLast.all isDigit = true

/-- A field of `notAfter` that is a time but for a sign in the place of a digit. -/
def SignedTime (der : Bytes) : Prop :=
  ∃ tag text t, NotAfter der tag text ∧ TimeText tag text t ∧ (0x2b ∈ text ∨ 0x2d ∈ text)

/-- **Nothing is wrong but the signs.** -/
theorem notAfter_holds_iff (der : Buffer UInt8) : NotAfterHolds der ↔ ¬ SignedTime der.items := by
  constructor
  · rintro h ⟨tag, text, t, hfield, htime, hsign⟩
    obtain ⟨tag', text', hfield', hdigits⟩ :=
      h.digits t (notAfterUnix_eq_ok.mpr ⟨tag, text, hfield, htime⟩)
    obtain ⟨rfl, rfl⟩ := hfield.unique hfield'
    obtain ⟨hplus, hminus⟩ := htime.digits_iff.mp hdigits
    exact hsign.elim hplus hminus
  · intro h
    refine ⟨notAfterUnix_avoids der.items, ?_, ?_⟩
    · intro c hc
      rw [← hc]
      exact notAfterUnix_eq_ok.mpr ⟨_, _, c.notAfter_der (hc ▸ der.length_lt), c.notAfter.text_ok⟩
    · intro t ht
      obtain ⟨tag, text, hfield, htime⟩ := notAfterUnix_eq_ok.mp ht
      refine ⟨tag, text, hfield, htime.digits_iff.mpr ⟨fun hplus => ?_, fun hminus => ?_⟩⟩
      · exact h ⟨tag, text, t, hfield, htime, .inl hplus⟩
      · exact h ⟨tag, text, t, hfield, htime, .inr hminus⟩

theorem lastUtc_valid : 1950 ≤ 2049 ∧ 2049 < 2050 ∧ ValidDate 2049 12 31 23 59 59 := by decide

theorem firstGeneralized_valid : 2050 < 10000 ∧ ValidDate 2050 1 1 0 0 0 := by decide

/-- The last second that is written with two digits for the year. -/
def lastUtc : Time :=
  ⟨true, 2049, 12, 31, 23, 59, 59, ⟨lastUtc_valid.1, lastUtc_valid.2.1⟩, lastUtc_valid.2.2⟩

def firstGeneralized : Time :=
  ⟨false, 2050, 1, 1, 0, 0, 0, firstGeneralized_valid.1, firstGeneralized_valid.2⟩

def v1Certificate : Certificate := ⟨none, [1], [], [], lastUtc, lastUtc, [], []⟩

def v3Certificate : Certificate :=
  ⟨some [0x02, 1, 2], [1], [], [], lastUtc, firstGeneralized, [], []⟩

theorem certificates_short :
    v1Certificate.der.length < 2 ^ 63 ∧ v3Certificate.der.length < 2 ^ 63 := by
  decide

theorem certificates_read :
    notAfterUnix v1Certificate.der = .ok 2524607999 ∧
      notAfterUnix v3Certificate.der = .ok 2524608000 := by
  have hunsigned : ∀ {der : Bytes} {tag text}, walk der = .ok (tag, text) → 0x2b ∉ text →
      0x2d ∉ text → ¬ SignedTime der := by
    rintro der tag text hwalk hplus hminus ⟨tag', text', t, hfield, -, hsign⟩
    cases hwalk.symm.trans (walk_eq_ok.mpr hfield)
    exact hsign.elim hplus hminus
  have h₁ := (notAfter_holds_iff ⟨v1Certificate.der, certificates_short.1⟩).mpr
    (hunsigned (show walk _ = .ok (0x17, lastUtc.text) from rfl) (by decide) (by decide))
  have h₃ := (notAfter_holds_iff ⟨v3Certificate.der, certificates_short.2⟩).mpr
    (hunsigned (show walk _ = .ok (0x18, firstGeneralized.text) from rfl) (by decide) (by decide))
  exact ⟨h₁.exact v1Certificate rfl, h₃.exact v3Certificate rfl⟩

/-- The first of the month, written `+1`. -/
def signedTimeText : Bytes := Utf8.encode "3001+1000000Z".toList

def signedCertificateBytes : Bytes :=
  [0x30, 41, 0x30, 39, 0x02, 1, 1, 0x30, 0, 0x30, 0, 0x30, 30] ++
    (0x17 :: 13 :: signedTimeText) ++ (0x17 :: 13 :: signedTimeText)

theorem length_signedCertificateBytes : signedCertificateBytes.length < 2 ^ 63 := by decide

def signedCertificate : Buffer UInt8 := ⟨signedCertificateBytes, length_signedCertificateBytes⟩

theorem signedCertificate_read : ¬ NotAfterHolds signedCertificate := by
  intro h
  have hwalk : walk signedCertificate.items = .ok (0x17, signedTimeText) := by rfl
  have htime : readTime 0x17 signedTimeText = .ok 1893456000 := by rfl
  obtain ⟨tag, text, hfield, hdigits⟩ := h.digits 1893456000 (bind_eq_ok.mpr ⟨_, hwalk, htime⟩)
  obtain ⟨rfl, rfl⟩ := Prod.mk.inj (Except.ok.inj (hwalk.symm.trans (walk_eq_ok.mpr hfield)))
  exact absurd hdigits (by decide)

end Tls

end M6
