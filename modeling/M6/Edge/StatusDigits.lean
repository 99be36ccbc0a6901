import M6.Edge.Serialisers

/-!
# The status of a response on three protocols

A status comes from a backend as any `u16`: `parse_status_line` and the clients of HTTP/2 check no
more. HTTP/1.1 and HTTP/2 write it in decimal, and HTTP/3 as three digits, each of them a sum in a
`u8`.

`sameStatus_iff` says which statuses reach the clients of each protocol alike, and
`statusBuf_overflows` which end the process.
-/

namespace M6

namespace Serialisers

open Failing Machine ResponseReader ResponseFraming

/-! ## Where a status comes from -/

/-- A status that a backend can have its response have. -/
inductive Yielded : Nat → Prop where
  /-- the reader of HTTP/1.1 has it from a status line -/
  | line {line reason : Str} {status : Nat} (h : parseStatusLine line = .ok (status, reason)) :
    Yielded status
  | field (stream : ClientStream) (value : Bytes) :
    Yielded (ClientConn.addField stream (lit ":status", value)).respStatus

theorem lt_of_parseU16 {s : Str} {n : Nat} (h : parseU16 s = some n) : n < 2 ^ 16 :=
  of_decide_eq_true (Option.filter_eq_some_iff.mp h).2

theorem lt_of_parseStatusLine {line reason : Str} {status : Nat}
    (h : parseStatusLine line = .ok (status, reason)) : status < 2 ^ 16 := by
  rw [parseStatusLine] at h
  split at h
  · cases h
  · dsimp only at h
    split at h
    · cases h
    · next hparsed =>
      cases h
      exact lt_of_parseU16 hparsed

/-- **Any `u16` can be the status of a response**, and nothing else. -/
theorem yielded_iff {status : Nat} : Yielded status ↔ status < 2 ^ 16 := by
  constructor
  · intro h
    cases h with
    | line h => exact lt_of_parseStatusLine h
    | field stream value =>
      rw [ClientConn.addField, if_pos rfl]
      dsimp only
      cases hparsed : (parseUsize (Utf8.decodeLossy value)).filter (· < 2 ^ 16) with
      | none => exact Nat.two_pow_pos 16
      | some n => exact lt_of_parseU16 hparsed
  · exact fun h => .line (parseStatusLine_written h [])

/-- A response with a status that a backend chose. It is the same in a response that was held, or
that the cache has kept. -/
structure BackendReply extends Reply where
  yielded : Yielded status

/-! ## The digits -/

/-- The digits of a status on HTTP/3. The first is cut to eight bits before the sum. -/
def statusBuf (status : Nat) : Except Panic Bytes := do
  let hundreds ← add (2 ^ 8) 0x30 (status / 100 % 2 ^ 8)
  let tens ← add (2 ^ 8) 0x30 (status / 10 % 10 % 2 ^ 8)
  let ones ← add (2 ^ 8) 0x30 (status % 10 % 2 ^ 8)
  .ok [UInt8.ofNat hundreds, UInt8.ofNat tens, UInt8.ofNat ones]

theorem add_digit (n : Nat) : add (2 ^ 8) 0x30 (n % 10 % 2 ^ 8) = .ok (0x30 + n % 10) := by
  have hdigit : n % 10 < 10 := Nat.mod_lt n (by decide)
  have hcut : n % 10 % 2 ^ 8 = n % 10 := Nat.mod_eq_of_lt (by omega)
  rw [hcut]
  exact add_ok (by omega)

theorem statusBuf_eq (status : Nat) : statusBuf status =
    add (2 ^ 8) 0x30 (status / 100 % 2 ^ 8) >>= fun hundreds =>
      .ok [UInt8.ofNat hundreds, UInt8.ofNat (0x30 + status / 10 % 10),
        UInt8.ofNat (0x30 + status % 10)] := by
  rw [statusBuf, add_digit, add_digit]
  rfl

/-- **The status ends the process** where its hundreds, cut to eight bits, are 208 or more. -/
theorem statusBuf_overflows (status : Nat) :
    statusBuf status = .error .overflow ↔ 208 ≤ status / 100 % 2 ^ 8 := by
  rw [statusBuf_eq]
  by_cases hlarge : 2 ^ 8 ≤ 0x30 + status / 100 % 2 ^ 8
  · rw [add_overflow hlarge]
    exact iff_of_true rfl (by omega)
  · rw [add_ok (Nat.lt_of_not_le hlarge)]
    exact iff_of_false (fun h => by cases h) (by omega)

theorem statusBuf_ok {status : Nat} (h : status < 1000) :
    statusBuf status = .ok [UInt8.ofNat (0x30 + status / 100),
      UInt8.ofNat (0x30 + status / 10 % 10), UInt8.ofNat (0x30 + status % 10)] := by
  have hcut : status / 100 % 2 ^ 8 = status / 100 := Nat.mod_eq_of_lt (by omega)
  rw [statusBuf_eq, hcut, add_ok (by omega)]
  rfl

theorem encode_digitChar {n : Nat} (h : n < 10) :
    Utf8.encode [n.digitChar] = [UInt8.ofNat (0x30 + n)] := by
  have hall : ∀ i : Fin 10, Utf8.encode [i.val.digitChar] = [UInt8.ofNat (0x30 + i.val)] := by
    decide
  exact hall ⟨n, h⟩

/-- **A status of three digits is written as these.** -/
theorem encode_decimal {status : Nat} (hmin : 100 ≤ status) (hmax : status < 1000) :
    Utf8.encode (decimal status) = [UInt8.ofNat (0x30 + status / 100),
      UInt8.ofNat (0x30 + status / 10 % 10), UInt8.ofNat (0x30 + status % 10)] := by
  have hdigits : decimal status =
      [(status / 10 / 10).digitChar] ++ [(status / 10 % 10).digitChar] ++
        [(status % 10).digitChar] := by
    rw [decimal, Nat.toDigits_of_base_le (by decide) (by omega),
      Nat.toDigits_of_base_le (by decide) (by omega), Nat.toDigits_of_lt_base (by omega)]
  rw [hdigits, Utf8.encode_append, Utf8.encode_append, encode_digitChar (by omega),
    encode_digitChar (Nat.mod_lt _ (by decide)), encode_digitChar (Nat.mod_lt _ (by decide)),
    Nat.div_div_eq_div_mul]
  rfl

theorem length_decimal (status : Nat) :
    (decimal status).length = 3 ↔ 100 ≤ status ∧ status < 1000 := by
  have hthree : (decimal status).length ≤ 3 ↔ status < 10 ^ 3 :=
    Nat.length_toDigits_le_iff (by decide) (by decide)
  have htwo : (decimal status).length ≤ 2 ↔ status < 10 ^ 2 :=
    Nat.length_toDigits_le_iff (by decide) (by decide)
  omega

/-! ## What the clients get -/

def statusWord (line : Str) : Str := (Text.cutAt ' ' ((Text.cutAt ' ' line).2.getD [])).1

def statusField (fs : List RawField) : Option Bytes :=
  (fs.find? fun f => f.1 = lit ":status").map Prod.snd

variable (s : Setting) (r : Reply)

def statusOn : Protocol → Except Panic (Option Bytes)
  | .http1 _ => .ok (some (Utf8.encode (statusWord (edgeStatusLine r.status))))
  | .http2 => .ok (statusField (fieldsOn s r .http2))
  | .http3 => do
    let _ ← statusBuf r.status
    .ok (statusField (fieldsOn s r .http3))

theorem statusWord_edge (status : Nat) : statusWord (edgeStatusLine status) = decimal status := by
  have hversion : ' ' ∉ "HTTP/1.1".toList := by decide
  have hdigits : ' ' ∉ decimal status := not_mem_decimal_of (by decide) status
  have hline : edgeStatusLine status =
      "HTTP/1.1".toList ++ ' ' :: (decimal status ++ ' ' :: edgeReason status) :=
    statusLine_words (decimal status) (edgeReason status)
  rw [statusWord, hline, Text.cutAt_append (decimal status ++ ' ' :: edgeReason status) hversion]
  exact congrArg Prod.fst (Text.cutAt_append (edgeReason status) hdigits)

theorem statusField_cons (value : Bytes) (fs : List RawField) :
    statusField ((lit ":status", value) :: fs) = some value := by
  rw [statusField, List.find?_cons]
  simp only [decide_true, Option.map_some]

theorem statusField_http2 :
    statusField (fieldsOn s r .http2) = some (Utf8.encode (decimal r.status)) :=
  statusField_cons _ _

theorem statusField_http3 {digits : Bytes} (h : statusBuf r.status = .ok digits) :
    statusField (fieldsOn s r .http3) = some digits := by
  have hfield : statusField (fieldsOn s r .http3) =
      some [0x30 + UInt8.ofNat (r.status / 100), 0x30 + UInt8.ofNat (r.status / 10 % 10),
        0x30 + UInt8.ofNat (r.status % 10)] := statusField_cons _ _
  have hdigit : ∀ n : Nat, UInt8.ofNat (0x30 + n) = 0x30 + UInt8.ofNat n := fun n =>
    UInt8.ofNat_add 0x30 n
  have hcut : ∀ n : Nat, UInt8.ofNat (n % 2 ^ 8) = UInt8.ofNat n := fun _ =>
    UInt8.ofNat_mod_size
  -- where the sum fits, its byte is the sum of the bytes
  rw [statusBuf_eq] at h
  obtain ⟨hundreds, hsum, hok⟩ := bind_eq_ok.mp h
  cases hok
  obtain rfl := add_eq_ok hsum
  rw [hfield, hdigit, hdigit, hdigit, hcut]

/-- **The status reaches every client**: its three digits, on each of the protocols. -/
structure SameStatus : Prop where
  threeDigits : (decimal r.status).length = 3
  written : ∀ p, statusOn s r p = .ok (some (Utf8.encode (decimal r.status)))

/-- **The status of a backend reaches every client** if and only if it has three digits. -/
theorem sameStatus_iff (r : BackendReply) :
    SameStatus s r.toReply ↔ 100 ≤ r.status ∧ r.status < 1000 := by
  constructor
  · exact fun h => (length_decimal _).mp h.threeDigits
  · intro h
    refine ⟨(length_decimal _).mpr h, fun p => ?_⟩
    cases p with
    | http1 keepAlive => rw [statusOn, statusWord_edge]
    | http2 => rw [statusOn, statusField_http2]
    | http3 =>
      have hdigits := statusBuf_ok h.2
      rw [← encode_decimal h.1 h.2] at hdigits
      rw [statusOn, statusField_http3 s r.toReply hdigits, hdigits]
      rfl

def oddReply : BackendReply where
  status := 20800
  headers := []
  body := []
  method := "GET".toList
  yielded := yielded_iff.mpr (by decide)

theorem odd_status_fatal : ¬ ∀ (s : Setting) (r : BackendReply), SameStatus s r.toReply := by
  intro h
  have hwritten := (h plainSetting oddReply).written .http3
  have hfatal : statusBuf oddReply.status = .error .overflow :=
    (statusBuf_overflows _).mpr (by decide)
  rw [statusOn, hfatal] at hwritten
  cases hwritten

end Serialisers

end M6
