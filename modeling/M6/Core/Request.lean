import M6.Core.Dict
import M6.Lib.Utf8

/-!
# Requests and what is read out of them

The parsed request of `http.rs` and the readers of `request.rs`:

* **percent coding** — `urlDecode` and `urlEncode`, both over bytes, with the
  round trip `urlDecode_urlEncode`;
* **pairs** — `parseQueryString`, `parseFormBody`, `parseCookies` (which keeps the
  last cookie of a name) and `cookie` (which takes the first);
* **claims** — `parseAuthClaims`, the identity keys read from `X-Auth-Claims`.

Base64 and JSON parsing are libraries outside the repository and are fields of
`Codec`.
-/

namespace M6

open List Text

structure RawRequest where
  method : Str
  path : Str
  /-- the raw query string, without the question mark -/
  query : Option Str
  version : Str
  /-- header names and values, as sent -/
  headers : List (Str × Str)
  body : Bytes

def header (headers : List (Str × Str)) (name : Str) : Option Str :=
  (headers.find? fun h => eqIgnoreAsciiCase h.1 name).map Prod.snd

namespace RawRequest

def header (raw : RawRequest) (name : Str) : Option Str := M6.header raw.headers name

def queryText (raw : RawRequest) : Str := raw.query.getD []

/-- The `Content-Type` value if present. -/
def contentType (raw : RawRequest) : Option Str := raw.header "content-type".toList

end RawRequest

/-! ## Percent coding -/

def hexDigit (b : UInt8) : Option UInt8 :=
  if 0x30 ≤ b ∧ b ≤ 0x39 then some (b - 0x30)
  else if 0x61 ≤ b ∧ b ≤ 0x66 then some (b - 0x61 + 10)
  else if 0x41 ≤ b ∧ b ≤ 0x46 then some (b - 0x41 + 10)
  else none

/-- Undo the percent coding of a byte string: `+` is a space and `%XX` is the
byte `XX`. An escape that is cut short or has a bad digit stands for itself. -/
def percentDecode : Bytes → Bytes
  | [] => []
  | b :: bs =>
    if b = 0x2b then 0x20 :: percentDecode bs
    else if b = 0x25 then
      match bs with
      | x :: y :: rest =>
        match hexDigit x, hexDigit y with
        | some h, some l => ((h <<< 4) ||| l) :: percentDecode rest
        | _, _ => 0x25 :: percentDecode (x :: y :: rest)
      | bs => 0x25 :: percentDecode bs
    else b :: percentDecode bs

def urlDecode (s : Str) : Str := Utf8.decodeLossy (percentDecode (Utf8.encode s))

def hexChars : Str := "0123456789ABCDEF".toList

/-- The bytes that stand for themselves, RFC 3986 unreserved. -/
def isUnreserved (b : UInt8) : Bool :=
  (0x41 ≤ b && b ≤ 0x5a) || (0x61 ≤ b && b ≤ 0x7a) || (0x30 ≤ b && b ≤ 0x39) ||
    b == 0x2d || b == 0x5f || b == 0x2e || b == 0x7e

def encodeByte (keepSlash : Bool) (b : UInt8) : Str :=
  if isUnreserved b then [Char.ofNat b.toNat]
  else if b = 0x2f ∧ keepSlash then ['/']
  else ['%', hexChars.getD (b.toNat / 16) '0', hexChars.getD (b.toNat % 16) '0']

def encode (s : Str) (keepSlash : Bool) : Str := (Utf8.encode s).flatMap (encodeByte keepSlash)

def urlEncode (s : Str) : Str := encode s false

def urlEncodePath (s : Str) : Str := encode s true

def digitByte (n : Nat) : UInt8 := UInt8.ofNat (hexChars.getD n '0').toNat

theorem hexDigit_digitByte : ∀ n < 16, hexDigit (digitByte n) = some (UInt8.ofNat n) := by
  decide

theorem encodeByte_cases : ∀ n < 256, ∀ keepSlash : Bool,
    (UInt8.ofNat n ≠ 0x2b ∧ UInt8.ofNat n ≠ 0x25 ∧
        Utf8.encode (encodeByte keepSlash (UInt8.ofNat n)) = [UInt8.ofNat n]) ∨
      (Utf8.encode (encodeByte keepSlash (UInt8.ofNat n)) =
          [0x25, digitByte (n / 16), digitByte (n % 16)] ∧
        (UInt8.ofNat (n / 16) <<< 4) ||| UInt8.ofNat (n % 16) = UInt8.ofNat n) := by
  decide +kernel

/-- A byte that is neither `+` nor `%` stands for itself. -/
theorem percentDecode_plain {b : UInt8} (bs : Bytes) (hplus : b ≠ 0x2b) (hpct : b ≠ 0x25) :
    percentDecode (b :: bs) = b :: percentDecode bs := by
  rw [percentDecode.eq_def]
  simp only [if_neg hplus, if_neg hpct]

theorem percentDecode_escape {x y h l : UInt8} (rest : Bytes) (hx : hexDigit x = some h)
    (hy : hexDigit y = some l) :
    percentDecode (0x25 :: x :: y :: rest) = ((h <<< 4) ||| l) :: percentDecode rest := by
  rw [percentDecode.eq_def]
  simp only [if_neg (show ¬ (0x25 : UInt8) = 0x2b by decide), hx, hy]
  rfl

theorem percentDecode_encodeByte (keepSlash : Bool) (b : UInt8) (rest : Bytes) :
    percentDecode (Utf8.encode (encodeByte keepSlash b) ++ rest) = b :: percentDecode rest := by
  have hb : b.toNat < 256 := UInt8.toNat_lt b
  have hcases := encodeByte_cases b.toNat hb keepSlash
  rw [UInt8.ofNat_toNat] at hcases
  rcases hcases with ⟨hplus, hpct, he⟩ | ⟨he, hval⟩
  · rw [he, cons_append, nil_append, percentDecode_plain rest hplus hpct]
  · rw [he]
    simp only [cons_append, nil_append]
    rw [percentDecode_escape rest (hexDigit_digitByte _ (by omega))
      (hexDigit_digitByte _ (by omega)), hval]

theorem percentDecode_encode (s : Str) (keepSlash : Bool) :
    percentDecode (Utf8.encode (encode s keepSlash)) = Utf8.encode s := by
  rw [encode]
  induction Utf8.encode s with
  | nil => rfl
  | cons b bs ih =>
    rw [flatMap_cons, Utf8.encode_append, percentDecode_encodeByte, ih]

/-- **Percent coding round trip.** -/
theorem urlDecode_encode (s : Str) (keepSlash : Bool) : urlDecode (encode s keepSlash) = s := by
  rw [urlDecode, percentDecode_encode, Utf8.decodeLossy_encode]

theorem not_mem_urlEncode {c : Char} (hc : c ∈ ['&', '=', ';']) (s : Str) : c ∉ urlEncode s := by
  have h : ∀ n < 256, (['&', '=', ';'].all fun c =>
      !(encodeByte false (UInt8.ofNat n)).contains c) = true := by
    decide +kernel
  intro hmem
  obtain ⟨b, -, hb⟩ := mem_flatMap.mp hmem
  have hb' := all_eq_true.mp (h b.toNat (UInt8.toNat_lt b)) c hc
  rw [UInt8.ofNat_toNat, contains_eq_mem, decide_eq_true hb] at hb'
  cases hb'

/-! ## Query strings, forms and cookies -/

/-- The pairs of a query string, decoded. A pair without `=` has the empty
value. -/
def parseQueryString (query : Str) : List (Str × Str) :=
  if query = [] then []
  else (query.splitOn '&').map fun pair =>
    let parts := cutAt '=' pair
    (urlDecode parts.1, urlDecode (parts.2.getD []))

def parseFormBody (body : Bytes) : List (Str × Str) := parseQueryString (Utf8.decodeLossy body)

theorem parseQueryString_pair (k v : Str) :
    parseQueryString (urlEncode k ++ '=' :: urlEncode v) = [(k, v)] := by
  have hamp : '&' ∉ urlEncode k ++ '=' :: urlEncode v := by
    simp only [mem_append, mem_cons, not_or]
    exact ⟨not_mem_urlEncode (by decide) k, by decide, not_mem_urlEncode (by decide) v⟩
  have hsplit : (urlEncode k ++ '=' :: urlEncode v).splitOn '&' =
      [urlEncode k ++ '=' :: urlEncode v] :=
    splitOn_eq_singleton hamp
  rw [parseQueryString, if_neg (by simp), hsplit]
  simp only [map_cons, map_nil]
  rw [cutAt_append _ (not_mem_urlEncode (by decide) k)]
  simp only [Option.getD_some, urlEncode, urlDecode_encode]

/-- The name and value of each cookie of a header, in order. A part without `=`
is no cookie. -/
def cookiePairs (hdr : Str) : List (Str × Str) :=
  (hdr.splitOn ';').filterMap fun part =>
    let kv := cutAt '=' (Text.trim part)
    kv.2.map fun v => (Text.trim kv.1, Text.trim v)

theorem cookiePairs_semicolon (s t : Str) :
    cookiePairs (s ++ ';' :: t) = cookiePairs s ++ cookiePairs t := by
  rw [cookiePairs, splitOn_append_cons_self, filterMap_append]
  rfl

theorem cookiePairs_single {s : Str} (h : ';' ∉ s) :
    cookiePairs s = ((cutAt '=' (Text.trim s)).2.map fun v =>
      (Text.trim (cutAt '=' (Text.trim s)).1, Text.trim v)).toList := by
  rw [cookiePairs, splitOn_eq_singleton h]
  simp only [filterMap_cons, filterMap_nil]
  cases (cutAt '=' (Text.trim s)).2 <;> rfl

theorem semicolon_cases (s : Str) : ';' ∉ s ∨ ∃ a b, s = a ++ ';' :: b ∧ ';' ∉ b := by
  by_cases h : ';' ∈ s
  · have hrev : ';' ∈ s.reverse := mem_reverse.mpr h
    obtain ⟨b, a, hb, heq⟩ := eq_append_cons_of_mem hrev
    refine Or.inr ⟨a.reverse, b.reverse, ?_, fun hmem => heq (mem_reverse.mp hmem)⟩
    rw [← reverse_reverse s, hb]
    simp
  · exact Or.inl h

theorem cookiePairs_cons {c : Char} (hc : isWhitespace c = true) (s : Str) :
    cookiePairs (c :: s) = cookiePairs s := by
  have hne : c ≠ ';' := fun h => absurd (h ▸ hc) (by decide)
  have hsingle : ∀ s : Str, ';' ∉ s → cookiePairs (c :: s) = cookiePairs s := by
    intro s hs
    rw [cookiePairs_single hs, cookiePairs_single (by simp [hne.symm, hs]), trim_cons hc]
  induction hn : s.length using Nat.strongRecOn generalizing s with
  | _ n ih =>
    rcases semicolon_cases s with hs | ⟨a, b, rfl, hb⟩
    · exact hsingle s hs
    · rw [← cons_append, cookiePairs_semicolon, cookiePairs_semicolon, ih a.length ?_ a rfl]
      rw [← hn]
      simp

/-- **The cookies of a joined field** are those of its crumbs, in order. -/
theorem cookiePairs_intercalate (cs : List Str) :
    cookiePairs ("; ".toList.intercalate cs) = cs.flatMap cookiePairs := by
  induction cs with
  | nil => rfl
  | cons c cs ih =>
    cases cs with
    | nil => simp [intercalate]
    | cons d cs =>
      have hjoin : "; ".toList.intercalate (c :: d :: cs) =
          c ++ ';' :: ' ' :: "; ".toList.intercalate (d :: cs) := by
        simp [intercalate]
      rw [hjoin, cookiePairs_semicolon, cookiePairs_cons (by decide), ih]
      rfl

def parseCookies (hdr : Str) : DictMap := SortedMap.empty.insertAll (strings (cookiePairs hdr))

def cookie (hdr name : Str) : Option Str :=
  ((cookiePairs hdr).find? fun p => p.1 = name).map Prod.snd

/-! ## Auth claims -/

/-- The decoders the services take from libraries. -/
structure Codec where
  base64Standard : Str → Option Bytes
  base64UrlNoPad : Str → Option Bytes
  jsonFromSlice : Bytes → Option Value
  /-- the HMAC-SHA256 of a message under a key -/
  hmacSha256 : Bytes → Bytes → Bytes

/-- The identity keys that the `X-Auth-Claims` value (base64 of a JSON object)
gives. -/
def parseAuthClaims (codec : Codec) (hdr : Str) : DictMap :=
  let decoded := (codec.base64Standard (Text.trim hdr)).orElse fun _ =>
    codec.base64UrlNoPad (Text.trim hdr)
  match decoded.bind codec.jsonFromSlice with
  | some (.object obj) =>
    let field (k : Str) : Option Value := SortedMap.lookup k obj
    let keep (k : Str) (v : Option Value) : List (Str × Value) := (v.map fun v => (k, v)).toList
    SortedMap.empty.insertAll
      (keep "auth_username".toList ((field "username".toList).or (field "sub".toList)) ++
        keep "auth_sub".toList (field "sub".toList) ++
        keep "auth_groups".toList (field "groups".toList) ++
        keep "auth_roles".toList (field "roles".toList))
  | _ => .empty

/-- The names under which identity is published. -/
def authKeys : List Str :=
  ["auth_username".toList, "auth_sub".toList, "auth_groups".toList, "auth_roles".toList]

theorem mem_authKeys_of_parseAuthClaims {codec : Codec} {hdr k : Str} {v : Value}
    (h : (parseAuthClaims codec hdr).get? k = some v) : k ∈ authKeys := by
  have hkeep : ∀ {name : Str} {o : Option Value} {e : Str × Value},
      e ∈ (o.map fun v => (name, v)).toList → e.1 = name := by
    intro name o e he
    cases o with
    | none => cases he
    | some v => rw [mem_singleton.mp he]
  rw [parseAuthClaims] at h
  simp only at h
  split at h
  · rw [SortedMap.get?_insertAll, SortedMap.get?_empty, Option.or_none] at h
    have hmem := SortedMap.mem_of_lastValue h
    simp only [mem_append] at hmem
    rcases hmem with ((hm | hm) | hm) | hm
    all_goals rw [show k = _ from hkeep hm]; decide
  · cases h

end M6
