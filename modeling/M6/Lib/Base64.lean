import M6.Lib.Utf8

/-!
# Base64, with the URL alphabet and without padding

Three bytes are four digits of six bits each. Behind the last three, two bytes are three digits and
one byte is two, with zero bits to fill the last of them. `decode_encode` reads the bytes back.

Nothing here is about a particular program.
-/

namespace Base64

def alphabet : Str :=
  "ABCDEFGHIJKLMNOPQRSTUVWXYZabcdefghijklmnopqrstuvwxyz0123456789-_".toList

def digit (n : Nat) : Char := alphabet.getD n 'A'

def value (c : Char) : Option Nat :=
  let n := alphabet.idxOf c
  if n < 64 then some n else none

def encode : Bytes → Str
  | a :: b :: c :: rest =>
    digit (a.toNat / 4) :: digit (a.toNat % 4 * 16 + b.toNat / 16) ::
      digit (b.toNat % 16 * 4 + c.toNat / 64) :: digit (c.toNat % 64) :: encode rest
  | [a, b] => [digit (a.toNat / 4), digit (a.toNat % 4 * 16 + b.toNat / 16),
      digit (b.toNat % 16 * 4)]
  | [a] => [digit (a.toNat / 4), digit (a.toNat % 4 * 16)]
  | [] => []

/-- Digits that are left over are refused, and so are bits behind the last byte. -/
def decode : Str → Option Bytes
  | w :: x :: y :: z :: rest => do
    let w ← value w
    let x ← value x
    let y ← value y
    let z ← value z
    let bytes ← decode rest
    return .ofNat (w * 4 + x / 16) :: .ofNat (x % 16 * 16 + y / 4) ::
      .ofNat (y % 4 * 64 + z) :: bytes
  | [w, x, y] => do
    let w ← value w
    let x ← value x
    let y ← value y
    if y % 4 = 0 then some [.ofNat (w * 4 + x / 16), .ofNat (x % 16 * 16 + y / 4)] else none
  | [w, x] => do
    let w ← value w
    let x ← value x
    if x % 16 = 0 then some [.ofNat (w * 4 + x / 16)] else none
  | [] => some []
  | [_] => none

theorem value_digit {n : Nat} (h : n < 64) : value (digit n) = some n := by
  have hall : (List.range 64).all fun n => value (digit n) == some n := by decide
  exact eq_of_beq (List.all_eq_true.mp hall n (List.mem_range.mpr h))

theorem digit_mem (n : Nat) : digit n ∈ alphabet := by
  rw [digit, List.getD_eq_getElem?_getD]
  cases h : alphabet[n]? with
  | none => decide
  | some c => exact List.mem_of_getElem? h

theorem mem_encode (bytes : Bytes) : ∀ c ∈ encode bytes, c ∈ alphabet := by
  fun_induction encode bytes with
  | case1 a b c rest ih =>
    simp only [List.forall_mem_cons]
    exact ⟨digit_mem _, digit_mem _, digit_mem _, digit_mem _, ih⟩
  | case2 a b | case3 a => simp [digit_mem]
  | case4 => exact List.forall_mem_nil _

theorem ofNat_of_eq {n : Nat} {b : UInt8} (h : n = b.toNat) : UInt8.ofNat n = b := by
  rw [h, UInt8.ofNat_toNat]

theorem decode_encode (bytes : Bytes) : decode (encode bytes) = some bytes := by
  fun_induction encode bytes with
  | case1 a b c rest ih =>
    have ha := a.toNat_lt
    have hb := b.toNat_lt
    have hc := c.toNat_lt
    rw [decode, value_digit (by omega), value_digit (by omega), value_digit (by omega),
      value_digit (by omega), ih]
    simp only [Option.pure_def, Option.bind_eq_bind, Option.bind_some, Option.some.injEq,
      List.cons.injEq, and_true]
    refine ⟨ofNat_of_eq ?_, ofNat_of_eq ?_, ofNat_of_eq ?_⟩ <;> omega
  | case2 a b =>
    have ha := a.toNat_lt
    have hb := b.toNat_lt
    rw [decode, value_digit (by omega), value_digit (by omega), value_digit (by omega)]
    simp only [Option.bind_eq_bind, Option.bind_some]
    rw [if_pos (by omega), ofNat_of_eq (b := a) (by omega), ofNat_of_eq (b := b) (by omega)]
  | case3 a =>
    have ha := a.toNat_lt
    rw [decode, value_digit (by omega), value_digit (by omega)]
    simp only [Option.bind_eq_bind, Option.bind_some]
    rw [if_pos (by omega), ofNat_of_eq (b := a) (by omega)]
  | case4 => rfl

end Base64
