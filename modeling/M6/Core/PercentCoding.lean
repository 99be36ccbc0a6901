import M6.Core.Request

/-!
# Percent coding as a whole

What the encoder and the decoder of `request.rs` promise each other:

* **form** — `escaped_encode`: an encoded text is a run of unreserved characters
  and `%XX` escapes, with the slash as well where it is kept;
* **round trips** — `urlDecode_encode` of the request module, for both encoders;
* **pairs** — `parseQueryString_joined`: the pairs of a query string come back,
  one pair at a time, because no separator occurs in an encoded component;
* **plain text** — `urlDecode_plain`: only `%` and `+` are read as anything else.

`percentCoding` is the four together.
-/

namespace M6

/-! ## The form of an encoded text -/

/-- A run of characters that stand for themselves and of two-digit escapes. -/
inductive Escaped (stands : Char → Bool) : Str → Prop
  | nil : Escaped stands []
  | plain {c : Char} {s : Str} : stands c = true → Escaped stands s → Escaped stands (c :: s)
  | escape {x y : Char} {s : Str} : x ∈ hexChars → y ∈ hexChars → Escaped stands s →
      Escaped stands ('%' :: x :: y :: s)

def unreserved (c : Char) : Bool :=
  ('A' ≤ c && c ≤ 'Z') || ('a' ≤ c && c ≤ 'z') || ('0' ≤ c && c ≤ '9') || c ∈ ['-', '_', '.', '~']

def leavesAlone (keepSlash : Bool) (c : Char) : Bool := unreserved c || (keepSlash && c == '/')

theorem encodeByte_form : ∀ n < 256,
    (isUnreserved (UInt8.ofNat n) = true → unreserved (Char.ofNat n) = true) ∧
      hexChars.getD (n / 16) '0' ∈ hexChars ∧ hexChars.getD (n % 16) '0' ∈ hexChars := by
  decide +kernel

/-- **What an encoder writes** is characters it leaves alone and escapes. -/
theorem escaped_encode (s : Str) (keepSlash : Bool) :
    Escaped (leavesAlone keepSlash) (encode s keepSlash) := by
  rw [encode]
  induction Utf8.encode s with
  | nil => exact .nil
  | cons b bs ih =>
    rw [List.flatMap_cons]
    obtain ⟨hplain, hx, hy⟩ := encodeByte_form b.toNat (UInt8.toNat_lt b)
    rw [UInt8.ofNat_toNat] at hplain
    unfold encodeByte
    split_ifs with hun hslash
    · exact .plain (by simp [leavesAlone, hplain hun]) ih
    · exact .plain (by simp [leavesAlone, hslash.2]) ih
    · exact .escape hx hy ih

/-! ## Plain text -/

/-- Bytes without `+` and `%` stand for themselves. -/
theorem percentDecode_eq_self {bs : Bytes} (hplus : 0x2b ∉ bs) (hpct : 0x25 ∉ bs) :
    percentDecode bs = bs := by
  induction bs with
  | nil => rfl
  | cons b bs ih =>
    simp only [List.mem_cons, not_or] at hplus hpct
    rw [percentDecode_plain bs (Ne.symm hplus.1) (Ne.symm hpct.1), ih hplus.2 hpct.2]

/-- Decoding changes no text without `+` and `%`: their bytes are their own, so
no other character has them inside its encoding. -/
theorem urlDecode_plain {s : Str} (hpct : '%' ∉ s) (hplus : '+' ∉ s) : urlDecode s = s := by
  rw [urlDecode, percentDecode_eq_self (Utf8.not_mem_encode (by decide) hplus)
    (Utf8.not_mem_encode (by decide) hpct), Utf8.decodeLossy_encode]

/-! ## Lists of pairs -/

def encodedPair (kv : Str × Str) : Str := urlEncode kv.1 ++ '=' :: urlEncode kv.2

/-- A query string of pairs: their encodings, joined with `&`. -/
def joinedPairs (pairs : List (Str × Str)) : Str := ['&'].intercalate (pairs.map encodedPair)

theorem not_mem_encodedPair (kv : Str × Str) : '&' ∉ encodedPair kv := by
  simp only [encodedPair, List.mem_append, List.mem_cons, not_or]
  exact ⟨not_mem_urlEncode (by decide) kv.1, by decide, not_mem_urlEncode (by decide) kv.2⟩

/-- The first `=` of an encoded pair is the one between name and value. -/
theorem cutAt_encodedPair (kv : Str × Str) :
    Text.cutAt '=' (encodedPair kv) = (urlEncode kv.1, some (urlEncode kv.2)) :=
  Text.cutAt_append _ (not_mem_urlEncode (by decide) kv.1)

/-- **The pairs come back**, in order and with repeated names kept apart. -/
theorem parseQueryString_joined (pairs : List (Str × Str)) :
    parseQueryString (joinedPairs pairs) = pairs := by
  cases pairs with
  | nil => rfl
  | cons kv pairs =>
    have hne : joinedPairs (kv :: pairs) ≠ [] := by
      cases pairs <;> simp [joinedPairs, encodedPair, List.intercalate]
    have hsplit : (joinedPairs (kv :: pairs)).splitOn '&' = (kv :: pairs).map encodedPair := by
      refine List.splitOn_intercalate _ ?_ (List.cons_ne_nil _ _)
      intro piece hpiece
      obtain ⟨kv', -, rfl⟩ := List.mem_map.mp hpiece
      exact not_mem_encodedPair kv'
    rw [parseQueryString, if_neg hne, hsplit, List.map_map]
    conv_rhs => rw [← List.map_id (kv :: pairs)]
    refine List.map_congr_left fun kv' _ => ?_
    simp only [Function.comp_apply, cutAt_encodedPair, Option.getD_some, urlEncode,
      urlDecode_encode, id_eq]

/-! ## The laws together -/

structure PercentCoding : Prop where
  /-- a component is read back -/
  component : ∀ s, urlDecode (urlEncode s) = s
  /-- a path is read back -/
  path : ∀ s, urlDecode (urlEncodePath s) = s
  form : ∀ s, Escaped unreserved (urlEncode s)
  pairs : ∀ pairs, parseQueryString (joinedPairs pairs) = pairs
  /-- nothing but `%` and `+` is decoded -/
  plain : ∀ s, '%' ∉ s → '+' ∉ s → urlDecode s = s

theorem leavesAlone_false : leavesAlone false = unreserved := by
  funext c
  simp [leavesAlone]

/-- **Percent coding keeps its laws**, for every text: `%`, `+` and the bytes of
multi-byte characters included. -/
theorem percentCoding : PercentCoding where
  component := fun s => urlDecode_encode s false
  path := fun s => urlDecode_encode s true
  form := fun s => leavesAlone_false ▸ escaped_encode s false
  pairs := parseQueryString_joined
  plain := fun _ => urlDecode_plain

end M6
