import M6.Monitor.Ndjson
import M6.Core.PercentCoding

/-!
# Links to the next page

`next_link` of `ndjson.rs` writes the query of a request into a link, with the cursor of the next
page in the place of those that were there. A byte that may stand in a query is kept, and `%` is
one; every other is escaped. `percentDecode_requoted` says that this does not change what a text is
decoded to: an escape of the request stays one, and a stray `%` does not become one, because what is
written for a byte begins with the byte or with another `%`. `parsesBack` is what a client that
follows the link sends.
-/

namespace M6.Monitor

open List Option Text Utf8

/-! ## The code -/

def cursorParam : Str := "cursor".toList

/-- The bytes a query may carry unescaped, minus `&`. -/
def querySafe (b : UInt8) : Bool :=
  (0x30 ≤ b && b ≤ 0x39) || (0x41 ≤ b && b ≤ 0x5a) || (0x61 ≤ b && b ≤ 0x7a) ||
    (Utf8.encode "-._~!$'()*+,;=:@/?%".toList).contains b

def queryByte (b : UInt8) : Str :=
  if querySafe b then [Char.ofNat b.toNat]
  else ['%', hexChars.getD (b.toNat / 16) '0', hexChars.getD (b.toNat % 16) '0']

def requote (pair : Str) : Str := (Utf8.encode pair).flatMap queryByte

def isOwn (pair : Str) : Bool := pair ≠ [] && (Text.cutAt '=' pair).1 ≠ cursorParam

def nextLink (requestQuery : Str) (cursor : Cursor) : Str :=
  "<?".toList ++
    ((requestQuery.splitOn '&').filter isOwn).flatMap (fun pair => requote pair ++ ['&']) ++
    cursorParam ++ '=' :: cursor.text ++ ">; rel=\"next\"".toList

/-- A query key that appeared more than once where one was expected. -/
inductive RepeatedKey where
  | repeatedKey
  deriving DecidableEq

/-- `single_query_value`: the raw value of a key. -/
def singleQueryValue (query key : Str) : Except RepeatedKey (Option Str) :=
  (query.splitOn '&').foldlM (fun found pair =>
    let parts := Text.cutAt '=' pair
    if parts.1 = key then
      if found.isSome then .error .repeatedKey else .ok (some (parts.2.getD []))
    else .ok found) none

def Cursor.fromQuery (query : Str) : Except CursorError (Option Cursor) :=
  match singleQueryValue query cursorParam with
  | .error _ => .error .repeated
  | .ok none => .ok none
  | .ok (some value) => (Cursor.new value).map some

/-! ## Bytes -/

def queryBytes (b : UInt8) : Bytes :=
  if querySafe b then [b] else [0x25, digitByte (b.toNat / 16), digitByte (b.toNat % 16)]

def linkByte (b : UInt8) : Bool := 0x20 < b && b < 0x7f && b != 0x3e && b != 0x22

theorem queryByte_facts (b : UInt8) :
    Utf8.encode (queryByte b) = queryBytes b ∧ (queryBytes b).all linkByte ∧
      ((hexDigit b).isSome → querySafe b) ∧ '&' ∉ queryByte b ∧ ('=' ∈ queryByte b → b = 0x3d) ∧
        (UInt8.ofNat (b.toNat / 16) <<< 4) ||| UInt8.ofNat (b.toNat % 16) = b := by
  have hall : ∀ v : BitVec 8,
      Utf8.encode (queryByte ⟨v⟩) = queryBytes ⟨v⟩ ∧ (queryBytes ⟨v⟩).all linkByte ∧
        ((hexDigit ⟨v⟩).isSome → querySafe ⟨v⟩) ∧ '&' ∉ queryByte ⟨v⟩ ∧
          ('=' ∈ queryByte ⟨v⟩ → (⟨v⟩ : UInt8) = 0x3d) ∧
            (UInt8.ofNat ((⟨v⟩ : UInt8).toNat / 16) <<< 4) |||
              UInt8.ofNat ((⟨v⟩ : UInt8).toNat % 16) = ⟨v⟩ := by
    decide
  exact hall b.toBitVec

def requoted (bs : Bytes) : Bytes := bs.flatMap queryBytes

theorem encode_flatMap (bs : Bytes) : Utf8.encode (bs.flatMap queryByte) = requoted bs := by
  rw [requoted]
  induction bs with
  | nil => rfl
  | cons b bs ih =>
    rw [flatMap_cons, flatMap_cons, encode_append, (queryByte_facts b).1, ih]

theorem encode_requote (s : Str) : Utf8.encode (requote s) = requoted (Utf8.encode s) :=
  encode_flatMap _

theorem requoted_safe {b : UInt8} (h : querySafe b = true) (bs : Bytes) :
    requoted (b :: bs) = b :: requoted bs := by
  rw [requoted, flatMap_cons, queryBytes, if_pos h]
  rfl

theorem requoted_other {b : UInt8} (h : querySafe b = false) (bs : Bytes) : requoted (b :: bs) =
      0x25 :: digitByte (b.toNat / 16) :: digitByte (b.toNat % 16) :: requoted bs := by
  rw [requoted, flatMap_cons, queryBytes, if_neg (by rw [h]; decide)]
  rfl

def digitsAhead : Bytes → Bool
  | x :: y :: _ => (hexDigit x).isSome && (hexDigit y).isSome
  | _ => false

/-- A `%` that begins no escape stands for itself. -/
theorem percentDecode_stray {bs : Bytes} (h : digitsAhead bs = false) :
    percentDecode (0x25 :: bs) = 0x25 :: percentDecode bs := by
  have hplus : ¬ (0x25 : UInt8) = 0x2b := by decide
  rw [percentDecode.eq_def]
  simp only [if_neg hplus]
  cases bs with
  | nil => rfl
  | cons x bs =>
    cases bs with
    | nil => rfl
    | cons y rest =>
      rw [digitsAhead] at h
      cases hx : hexDigit x with
      | none => simp only [if_true, hx]
      | some d =>
        cases hy : hexDigit y with
        | none => simp only [if_true, hx, hy]
        | some l =>
          rw [hx, hy] at h
          cases h

theorem querySafe_of_digit {b : UInt8} (h : (hexDigit b).isSome = true) : querySafe b = true :=
  (queryByte_facts b).2.2.1 h

theorem hexDigit_other {b : UInt8} (h : querySafe b = false) : (hexDigit b).isSome = false := by
  cases hdigit : (hexDigit b).isSome with
  | false => rfl
  | true =>
    rw [querySafe_of_digit hdigit] at h
    cases h

/-- **No escape comes to be, and none is lost**: what is written for a byte that is not safe begins
with `%`, and that is no digit. -/
theorem digitsAhead_requoted (bs : Bytes) : digitsAhead (requoted bs) = digitsAhead bs := by
  have hpct : (hexDigit 0x25).isSome = false := by decide
  cases bs with
  | nil => rfl
  | cons x bs =>
    cases hx : querySafe x with
    | false =>
      have hdigit := hexDigit_other hx
      rw [requoted_other hx, digitsAhead, hpct, Bool.false_and]
      cases bs with
      | nil => rfl
      | cons y bs => rw [digitsAhead, hdigit, Bool.false_and]
    | true =>
      rw [requoted_safe hx]
      cases bs with
      | nil => rfl
      | cons y bs =>
        cases hy : querySafe y with
        | false =>
          rw [requoted_other hy, digitsAhead, digitsAhead, hexDigit_other hy, hpct, Bool.and_false]
        | true => rw [requoted_safe hy, digitsAhead, digitsAhead]

/-- **What is written is decoded to what the request was decoded to.** -/
theorem percentDecode_requoted (bs : Bytes) : percentDecode (requoted bs) = percentDecode bs := by
  induction hn : bs.length using Nat.strongRecOn generalizing bs with
  | _ n ih =>
    subst hn
    cases bs with
    | nil => rfl
    | cons b bs =>
      have hrest := ih bs.length (Nat.lt_succ_self _) bs rfl
      cases hb : querySafe b with
      | false =>
        -- neither `+` nor `%` is escaped
        have hplus : b ≠ 0x2b := fun h => by rw [h] at hb; exact absurd hb (by decide)
        have hpct : b ≠ 0x25 := fun h => by rw [h] at hb; exact absurd hb (by decide)
        rw [requoted_other hb, percentDecode_escape _ (hexDigit_digitByte _ (by
          have := b.toNat_lt
          omega)) (hexDigit_digitByte _ (by omega)), hrest, percentDecode_plain bs hplus hpct,
          (queryByte_facts b).2.2.2.2.2]
      | true =>
        rw [requoted_safe hb]
        by_cases hpct : b = 0x25
        · subst hpct
          cases hahead : digitsAhead bs with
          | false =>
            rw [percentDecode_stray hahead,
              percentDecode_stray ((digitsAhead_requoted bs).trans hahead), hrest]
          | true =>
            cases bs with
            | nil => cases hahead
            | cons x bs =>
              cases bs with
              | nil => cases hahead
              | cons y rest =>
                rw [digitsAhead, Bool.and_eq_true] at hahead
                obtain ⟨d, hd⟩ := isSome_iff_exists.mp hahead.1
                obtain ⟨l, hl⟩ := isSome_iff_exists.mp hahead.2
                rw [requoted_safe (querySafe_of_digit hahead.1),
                  requoted_safe (querySafe_of_digit hahead.2), percentDecode_escape _ hd hl,
                  percentDecode_escape _ hd hl,
                  ih rest.length (by simp only [length_cons]; omega) rest rfl]
        by_cases hplus : b = 0x2b
        · subst hplus
          rw [percentDecode.eq_def, percentDecode.eq_def (0x2b :: bs)]
          simp only [if_true, hrest]
        · rw [percentDecode_plain _ hplus hpct, percentDecode_plain _ hplus hpct, hrest]

theorem urlDecode_requote (s : Str) : urlDecode (requote s) = urlDecode s := by
  rw [urlDecode, encode_requote, percentDecode_requoted, urlDecode]

/-! ## Pairs -/

theorem requote_append (s t : Str) : requote (s ++ t) = requote s ++ requote t := by
  rw [requote, encode_append, flatMap_append]
  rfl

theorem amp_not_mem_requote (s : Str) : '&' ∉ requote s := by
  intro h
  obtain ⟨b, -, hb⟩ := mem_flatMap.mp h
  exact (queryByte_facts b).2.2.2.1 hb

theorem eq_not_mem_requote {s : Str} (h : '=' ∉ s) : '=' ∉ requote s := by
  intro hmem
  obtain ⟨b, hb, heq⟩ := mem_flatMap.mp hmem
  rw [(queryByte_facts b).2.2.2.2.1 heq] at hb
  exact not_mem_encode (c := '=') (by decide) h hb

theorem cutAt_requote (pair : Str) : Text.cutAt '=' (requote pair) =
      (requote (Text.cutAt '=' pair).1, (Text.cutAt '=' pair).2.map requote) := by
  obtain ⟨hnot, hcut⟩ | ⟨value, hpair, hcut⟩ := cutAt_cases '=' pair
  · rw [hcut, cutAt_of_absent (eq_not_mem_requote hnot)]
    rfl
  · have hkey := eq_not_mem_requote (not_mem_cutAt '=' pair)
    have hsep : requote ('=' :: value) = '=' :: requote value := requote_append ['='] value
    conv_lhs => rw [hpair, requote_append, hsep, cutAt_append _ hkey]
    rw [hcut]
    rfl

def decodedPair (pair : Str) : Str × Str :=
  (urlDecode (Text.cutAt '=' pair).1, urlDecode ((Text.cutAt '=' pair).2.getD []))

theorem decodedPair_requote (pair : Str) : decodedPair (requote pair) = decodedPair pair := by
  rw [decodedPair, cutAt_requote, decodedPair]
  cases (cutAt '=' pair).2 with
  | none => rw [urlDecode_requote]; rfl
  | some value => simp only [map_some, getD_some, urlDecode_requote]

theorem eq_of_requote {key : Str} (h : requote key = cursorParam) : key = cursorParam := by
  have hbytes := congrArg Utf8.encode h
  rw [encode_requote] at hbytes
  have hsafe : requoted (Utf8.encode key) = Utf8.encode key := by
    have hno : (0x25 : UInt8) ∉ requoted (Utf8.encode key) := by
      rw [hbytes]
      decide
    have hall : ∀ b ∈ Utf8.encode key, queryBytes b = [b] := by
      intro b hb
      rw [queryBytes]
      split_ifs with hb'
      · rfl
      · refine absurd (mem_flatMap.mpr ⟨b, hb, ?_⟩) hno
        rw [queryBytes, if_neg hb']
        exact mem_cons_self
    rw [requoted, flatMap_congr hall, flatMap_singleton']
  rw [← decodeLossy_encode key, ← hsafe, hbytes, decodeLossy_encode]

/-! ## The query of a link -/

def ownPairs (requestQuery : Str) : List Str := (requestQuery.splitOn '&').filter isOwn

def cursorPair (cursor : Cursor) : Str := cursorParam ++ '=' :: cursor.text

def linkPairs (requestQuery : Str) (cursor : Cursor) : List Str :=
  (ownPairs requestQuery).map requote ++ [cursorPair cursor]

def nextQuery (requestQuery : Str) (cursor : Cursor) : Str :=
  ['&'].intercalate (linkPairs requestQuery cursor)

/-- The query that a client finds in a link: what stands between `<?` and the first `>`. -/
def linkQuery : Str → Option Str
  | '<' :: '?' :: rest =>
    match Text.cutAt '>' rest with
    | (query, some _) => some query
    | (_, none) => none
  | _ => none

theorem joined_concat (pairs : List Str) (last : Str) :
    pairs.flatMap (fun pair => pair ++ ['&']) ++ last = ['&'].intercalate (pairs ++ [last]) := by
  induction pairs with
  | nil => simp [intercalate]
  | cons pair pairs ih =>
    rw [flatMap_cons, append_assoc, ih]
    cases pairs <;> simp [intercalate]

theorem nextLink_eq (requestQuery : Str) (cursor : Cursor) : nextLink requestQuery cursor =
      '<' :: '?' :: (nextQuery requestQuery cursor ++ '>' :: "; rel=\"next\"".toList) := by
  have hmap : (ownPairs requestQuery).flatMap (fun pair => requote pair ++ ['&']) =
      ((ownPairs requestQuery).map requote).flatMap (fun pair => pair ++ ['&']) := by
    rw [flatMap_map]
  rw [nextLink, ← ownPairs, hmap, nextQuery, linkPairs, ← joined_concat, cursorPair]
  simp only [append_assoc, cons_append]
  rfl

theorem isCursorChar_lt {c : Char} (h : isCursorChar c = true) : c.toNat < 128 := by
  simp only [isCursorChar, Bool.or_eq_true, decide_eq_true_eq, mem_cons, not_mem_nil, or_false] at h
  rcases h with h | rfl | rfl | rfl | rfl
  · exact isAlphanum_lt h
  all_goals decide

theorem linkByte_cursor {c : Char} (h : isCursorChar c = true) :
    (String.utf8EncodeChar c).all linkByte = true := by
  have hall : ∀ v : BitVec 7, isCursorChar (Char.ofNat v.toNat) = true →
      (String.utf8EncodeChar (Char.ofNat v.toNat)).all linkByte = true := by
    decide
  have hlt := isCursorChar_lt h
  have hchar : Char.ofNat (BitVec.ofNat 7 c.toNat).toNat = c := by
    rw [BitVec.toNat_ofNat, Nat.mod_eq_of_lt hlt, Char.ofNat_toNat]
  have hbits := hall (BitVec.ofNat 7 c.toNat)
  rw [hchar] at hbits
  exact hbits h

theorem cursor_absent (cursor : Cursor) {c : Char} (h : isCursorChar c = false) :
    c ∉ cursor.text := by
  intro hmem
  have hplain := all_eq_true.mp cursor.plain c hmem
  rw [h] at hplain
  cases hplain

theorem amp_not_mem_linkPairs {requestQuery : Str} {cursor : Cursor} {pair : Str}
    (h : pair ∈ linkPairs requestQuery cursor) : '&' ∉ pair := by
  rcases mem_append.mp h with h | h
  · obtain ⟨own, -, rfl⟩ := mem_map.mp h
    exact amp_not_mem_requote own
  · obtain rfl := mem_singleton.mp h
    have hcursor := cursor_absent cursor (c := '&') (by decide)
    simp only [cursorPair, mem_append, mem_cons, not_or]
    exact ⟨by decide, by decide, hcursor⟩

theorem splitOn_nextQuery (requestQuery : Str) (cursor : Cursor) :
    (nextQuery requestQuery cursor).splitOn '&' = linkPairs requestQuery cursor :=
  splitOn_intercalate _ (fun _ => amp_not_mem_linkPairs)
    (append_ne_nil_of_right_ne_nil _ (cons_ne_nil _ _))

theorem cutAt_cursorPair (cursor : Cursor) :
    Text.cutAt '=' (cursorPair cursor) = (cursorParam, some cursor.text) :=
  cutAt_append _ (by decide)

theorem rawKey_requote {requestQuery own : Str} (h : own ∈ ownPairs requestQuery) :
    (Text.cutAt '=' (requote own)).1 ≠ cursorParam := by
  have hown := (mem_filter.mp h).2
  rw [isOwn, Bool.and_eq_true, decide_eq_true_eq, decide_eq_true_eq] at hown
  rw [cutAt_requote]
  exact fun heq => hown.2 (eq_of_requote heq)

theorem singleQueryValue_nextQuery (requestQuery : Str) (cursor : Cursor) :
    singleQueryValue (nextQuery requestQuery cursor) cursorParam = .ok (some cursor.text) := by
  rw [singleQueryValue, splitOn_nextQuery, linkPairs, foldlM_append]
  have hown : ∀ owns : List Str, (∀ own ∈ owns, own ∈ ownPairs requestQuery) →
      (owns.map requote).foldlM (fun found pair =>
        let parts := cutAt '=' pair
        if parts.1 = cursorParam then
          if found.isSome then .error .repeatedKey else .ok (some (parts.2.getD []))
        else .ok found) none = (.ok none : Except RepeatedKey (Option Str)) := by
    intro owns howns
    induction owns with
    | nil => rfl
    | cons own owns ih =>
      have hkey := rawKey_requote (howns own mem_cons_self)
      rw [map_cons, foldlM_cons]
      dsimp only
      rw [if_neg hkey]
      exact ih fun own' h => howns own' (mem_cons_of_mem _ h)
  rw [hown _ fun _ h => h]
  simp only [bind, Except.bind, foldlM_cons, foldlM_nil, cutAt_cursorPair, isSome_none]
  rfl

/-- **A client that follows the link** sends the cursor and its own pairs. -/
structure ParsesBack (requestQuery : Str) (cursor : Cursor) : Prop where
  inside : linkQuery (nextLink requestQuery cursor) = some (nextQuery requestQuery cursor)
  /-- the service finds the cursor in it -/
  found : Cursor.fromQuery (nextQuery requestQuery cursor) = .ok (some cursor)
  /-- no byte of it ends the link -/
  closed : ∀ b ∈ Utf8.encode (nextQuery requestQuery cursor),
    0x20 < b ∧ b < 0x7f ∧ b ≠ 0x3e ∧ b ≠ 0x22
  /-- the pairs of the request are read with the same decoder -/
  own : requestQuery ≠ [] →
    parseQueryString requestQuery = (requestQuery.splitOn '&').map decodedPair
  pairs : parseQueryString (nextQuery requestQuery cursor) =
    (ownPairs requestQuery).map decodedPair ++ [(cursorParam, cursor.text)]

theorem linkByte_linkPairs {requestQuery : Str} {cursor : Cursor} {pair : Str}
    (h : pair ∈ linkPairs requestQuery cursor) : (Utf8.encode pair).all linkByte = true := by
  rcases mem_append.mp h with h | h
  · obtain ⟨own, -, rfl⟩ := mem_map.mp h
    rw [encode_requote, requoted, all_flatMap]
    exact all_eq_true.mpr fun b _ => (queryByte_facts b).2.1
  · obtain rfl := mem_singleton.mp h
    have htext : (Utf8.encode cursor.text).all linkByte = true := by
      rw [Utf8.encode, all_flatMap]
      exact all_eq_true.mpr fun c hc =>
        linkByte_cursor (all_eq_true.mp cursor.plain c hc)
    rw [cursorPair, encode_append, all_append, encode_cons, all_append, htext]
    decide

theorem linkByte_nextQuery (requestQuery : Str) (cursor : Cursor) :
    (Utf8.encode (nextQuery requestQuery cursor)).all linkByte = true := by
  have hjoined : ∀ pairs : List Str, (∀ pair ∈ pairs, (Utf8.encode pair).all linkByte = true) →
      (Utf8.encode (['&'].intercalate pairs)).all linkByte = true := by
    intro pairs hpairs
    induction pairs with
    | nil => rfl
    | cons pair pairs ih =>
      have hpair := hpairs pair mem_cons_self
      have hrest := ih fun p hp => hpairs p (mem_cons_of_mem _ hp)
      cases pairs with
      | nil => simpa [intercalate] using hpair
      | cons next pairs =>
        have hcons : ['&'].intercalate (pair :: next :: pairs) =
            pair ++ '&' :: ['&'].intercalate (next :: pairs) := by
          simp [intercalate]
        rw [hcons, encode_append, all_append, encode_cons, all_append, hpair, hrest]
        decide
  exact hjoined _ fun _ => linkByte_linkPairs

theorem gt_not_mem_nextQuery (requestQuery : Str) (cursor : Cursor) :
    '>' ∉ nextQuery requestQuery cursor := by
  intro h
  have hbyte : (0x3e : UInt8) ∈ Utf8.encode (nextQuery requestQuery cursor) :=
    mem_flatMap.mpr ⟨'>', h, by decide⟩
  have := all_eq_true.mp (linkByte_nextQuery requestQuery cursor) _ hbyte
  exact absurd this (by decide)

theorem parseQueryString_nextQuery (requestQuery : Str) (cursor : Cursor) :
    parseQueryString (nextQuery requestQuery cursor) =
      (ownPairs requestQuery).map decodedPair ++ [(cursorParam, cursor.text)] := by
  have hne : nextQuery requestQuery cursor ≠ [] := by
    intro h
    rw [nextQuery, linkPairs, ← joined_concat] at h
    exact cons_ne_nil _ _ (append_eq_nil_iff.mp (append_eq_nil_iff.mp h).2).2
  have hparam : urlDecode cursorParam = cursorParam := urlDecode_plain (by decide) (by decide)
  have hcursor : decodedPair (cursorPair cursor) = (cursorParam, cursor.text) := by
    have hpct := cursor_absent cursor (c := '%') (by decide)
    have hplus := cursor_absent cursor (c := '+') (by decide)
    rw [decodedPair, cutAt_cursorPair]
    exact Prod.ext hparam (urlDecode_plain hpct hplus)
  have hown : (ownPairs requestQuery).map (decodedPair ∘ requote) =
      (ownPairs requestQuery).map decodedPair :=
    map_congr_left fun pair _ => decodedPair_requote pair
  rw [parseQueryString, if_neg hne, splitOn_nextQuery, linkPairs]
  refine (map_append (f := decodedPair)).trans ?_
  rw [List.map_map, hown, map_singleton, hcursor]

/-- **The links parse back**, for every query and every cursor. -/
theorem parsesBack (requestQuery : Str) (cursor : Cursor) : ParsesBack requestQuery cursor where
  inside := by
    have hcut := cutAt_append "; rel=\"next\"".toList
      (gt_not_mem_nextQuery requestQuery cursor)
    rw [nextLink_eq, linkQuery, hcut]
  found := by
    have hnew : Cursor.new cursor.text = .ok cursor := by
      rw [Cursor.new, dif_neg cursor.nonempty, dif_pos ⟨cursor.short, cursor.plain⟩]
    rw [Cursor.fromQuery, singleQueryValue_nextQuery]
    dsimp only
    rw [hnew]
    rfl
  closed b hb := by
    have h := all_eq_true.mp (linkByte_nextQuery requestQuery cursor) b hb
    simpa only [linkByte, Bool.and_eq_true, decide_eq_true_eq, bne_iff_ne, and_assoc] using h
  own hne := by
    rw [parseQueryString, if_neg hne]
    rfl
  pairs := parseQueryString_nextQuery requestQuery cursor

end M6.Monitor
