import M6.Edge.H2Server
import M6.Lib.Looping
import M6.Lib.Machine
import Mathlib.Tactic.Ring

/-!
# The walk over a header block

`validate_hpack_block` of `http2.rs` with its positions in the block, the sums that could overflow
and the reads that could be out of range. A block is a list of representations (`IsBlock`), by the
grammar of RFC 7541 and apart from the code. `turn_eq_next_iff` says what one turn of the walk
passes over: one representation. `hpackBlock_exact` puts the turns together, and
`validateChecked_eq` says that the walk is the `validateHpackBlock` that the server is modelled
with.
-/

namespace M6.Http2

open List

namespace HpackBlock

open Machine Looping Failing

/-! ## The walk -/

/-- How the walk ends early. -/
inductive Fault where
  | refused (why : Str)
  | panic (p : Panic)
  deriving DecidableEq

/-- A sum of two `usize`. -/
def plus (i j : Nat) : Except Fault Nat := (add usize i j).mapError .panic

/-- `b[i]` -/
def byteAt (b : Buffer UInt8) (i : Nat) : Except Fault UInt8 :=
  match b.items[i]? with
  | some byte => .ok byte
  | none => .error (.panic .outOfRange)

/-- `x << m` -/
def shiftLeft (x m : Nat) : Except Fault Nat :=
  if m < 64 then .ok (x * 2 ^ m % 2 ^ 64) else .error (.panic .overflow)

/-- The loop of `hpack_prefix_int`. -/
def prefixIntFrom (b : Buffer UInt8) (v m i : Nat) : Except Fault (Nat × Nat) :=
  if b.items.length ≤ i then .error (.refused "HPACK: truncated integer".toList)
  else if _h : 21 < m then .error (.refused "HPACK: integer too large".toList)
  else do
    let byte ← byteAt b i
    let i ← plus i 1
    let x ← shiftLeft (byte &&& 0x7f).toNat m
    if 2 ^ 64 ≤ v + x then .error (.refused "HPACK: integer overflow".toList)
    else if byte &&& 0x80 = 0 then .ok (v + x, i)
    else prefixIntFrom b (v + x) (m + 7) i
termination_by 28 - m

/-- `hpack_prefix_int`: the number, and the position behind it. -/
def prefixInt (b : Buffer UInt8) (i n : Nat) : Except Fault (Nat × Nat) :=
  let mask := 2 ^ n - 1
  if b.items.length ≤ i then .error (.refused "HPACK: truncated integer".toList)
  else do
    let byte ← byteAt b i
    let v := byte.toNat &&& mask
    let i ← plus i 1
    if v < mask then .ok (v, i) else prefixIntFrom b v 0 i

/-- `hpack_skip_string` -/
def skipString (b : Buffer UInt8) (i : Nat) : Except Fault Nat := do
  let (len, i) ← prefixInt b i 7
  let stop ← plus i len
  if b.items.length < stop then .error (.refused "HPACK: truncated string".toList)
  else plus i len

/-- One turn of the loop of `validate_hpack_block`. -/
def turn (block : Buffer UInt8) (maxTableSize : Nat) :
    Nat × Bool → Except Fault ((Nat × Bool) ⊕ Unit)
  | (i, seenField) =>
    if i < block.items.length then do
      let first ← byteAt block i
      if first &&& 0x80 ≠ 0 then
        let (_, i) ← prefixInt block i 7
        .ok (.inl (i, true))
      else if first &&& 0xe0 = 0x20 then
        if seenField then
          .error (.refused "HPACK: dynamic table size update after a field".toList)
        else
          let (size, i) ← prefixInt block i 5
          if maxTableSize < size then
            .error (.refused
              "HPACK: dynamic table size update exceeds the advertised maximum".toList)
          else .ok (.inl (i, seenField))
      else
        let nbits := if first &&& 0xc0 = 0x40 then 6 else 4
        let (idx, i) ← prefixInt block i nbits
        let i ← if idx = 0 then skipString block i else .ok i
        let i ← skipString block i
        .ok (.inl (i, true))
    else .ok (.inr ())

/-! ## What a block is made of -/

/-- The octets that go on with an integer: seven bits each, the lowest first. -/
inductive Octets : Nat → Bytes → Prop
  | last {b : UInt8} : b.toNat < 128 → Octets b.toNat [b]
  | more {b : UInt8} {v : Nat} {bs : Bytes} :
      128 ≤ b.toNat → Octets v bs → Octets (b.toNat % 128 + 128 * v) (b :: bs)

/-- **An integer** with a prefix of `n` bits. When these are all ones, at most four octets go on. -/
inductive Integer (n : Nat) : Nat → Bytes → Prop
  | short {b : UInt8} : b.toNat % 2 ^ n < 2 ^ n - 1 → Integer n (b.toNat % 2 ^ n) [b]
  | long {b : UInt8} {v : Nat} {bs : Bytes} :
      b.toNat % 2 ^ n = 2 ^ n - 1 → Octets v bs → bs.length ≤ 4 →
      Integer n (2 ^ n - 1 + v) (b :: bs)

/-- **A string**: its length, with a bit for the Huffman code, and as many bytes. -/
inductive Literal : Bytes → Prop
  | mk {header content : Bytes} : Integer 7 content.length header → Literal (header ++ content)

/-- What a representation is for. -/
inductive Kind where
  | field
  | update (size : Nat)
  deriving DecidableEq

def indexBits (b : UInt8) : Nat := if 64 ≤ b.toNat then 6 else 4

/-- **The representations**: `1` for an indexed field, `01` and `000` for a literal one, `001` for
a new size of the table. -/
inductive Representation : Kind → Bytes → Prop
  | indexed {b : UInt8} {v : Nat} {bs : Bytes} :
      128 ≤ b.toNat → Integer 7 v (b :: bs) → Representation .field (b :: bs)
  | update {b : UInt8} {size : Nat} {bs : Bytes} :
      32 ≤ b.toNat → b.toNat < 64 → Integer 5 size (b :: bs) →
      Representation (.update size) (b :: bs)
  | named {b : UInt8} {v : Nat} {bs value : Bytes} :
      b.toNat < 32 ∨ (64 ≤ b.toNat ∧ b.toNat < 128) → Integer (indexBits b) v (b :: bs) → v ≠ 0 →
      Literal value → Representation .field (b :: bs ++ value)
  | literal {b : UInt8} {bs name value : Bytes} :
      b.toNat < 32 ∨ (64 ≤ b.toNat ∧ b.toNat < 128) → Integer (indexBits b) 0 (b :: bs) →
      Literal name → Literal value → Representation .field (b :: bs ++ (name ++ value))

def text (reps : List (Kind × Bytes)) : Bytes := reps.flatMap Prod.snd

/-- **A block**: complete representations, with every new size before every field and within the
limit. -/
structure IsBlock (limit : Nat) (reps : List (Kind × Bytes)) : Prop where
  complete : ∀ r ∈ reps, Representation r.1 r.2
  updatesFirst : reps.Pairwise fun a b => a.1 = .field → b.1 = .field
  small : ∀ r ∈ reps, ∀ size, r.1 = .update size → size ≤ limit

/-! ## Integers and strings -/

theorem low_bits (b : UInt8) : (b &&& 0x7f).toNat = b.toNat % 128 := by
  rw [UInt8.toNat_and]
  exact Nat.and_two_pow_sub_one_eq_mod b.toNat 7

theorem high_bit (b : UInt8) : b &&& 0x80 = 0 ↔ b.toNat < 128 := by
  have hall : ∀ b : BitVec 8, b &&& 0x80 = 0 ↔ b.toNat < 128 := by decide
  rw [← UInt8.toBitVec_inj]
  exact hall b.toBitVec

variable {bs : Bytes}

theorem Octets.lt {v : Nat} (h : Octets v bs) : v < 128 ^ bs.length := by
  induction h with
  | last hlast => rwa [length_singleton, Nat.pow_one]
  | more _ _ ih =>
    rw [length_cons, Nat.pow_succ]
    omega

theorem octets_step (v x u k : Nat) :
    v + (x + 128 * u) * 128 ^ k = v + x * 128 ^ k + u * 128 ^ (k + 1) := by
  ring

theorem shift_eq (k : Nat) : 2 ^ (7 * k) = 128 ^ k := Nat.pow_mul 2 7 k

theorem prefixIntTail_octets {u : Nat} {octets : Bytes} (h : Octets u octets) {v k : Nat}
    (hk : k + octets.length ≤ 4) (hsmall : v + u * 128 ^ k < 2 ^ 64) (rest : Bytes) :
    prefixIntTail v (7 * k) (octets ++ rest) = .ok (v + u * 128 ^ k, rest) := by
  induction h generalizing v k with
  | @last b hlast =>
    rw [length_singleton] at hk
    rw [singleton_append, prefixIntTail, if_neg (by omega)]
    simp only [low_bits, shift_eq, Nat.mod_eq_of_lt hlast]
    rw [if_neg (Nat.not_le.mpr hsmall), if_pos ((high_bit b).mpr hlast)]
  | @more b u bs hmore hocts ih =>
    rw [length_cons] at hk
    rw [octets_step] at hsmall
    have hnext := ih (v := v + b.toNat % 128 * 128 ^ k) (k := k + 1) (by omega) hsmall
    rw [cons_append, prefixIntTail, if_neg (by omega)]
    simp only [low_bits, shift_eq]
    rw [if_neg (by omega), if_neg (mt (high_bit b).mp (Nat.not_lt.mpr hmore)), octets_step]
    exact hnext

theorem octets_of_prefixIntTail {bs rest : Bytes} {v w k : Nat}
    (h : prefixIntTail v (7 * k) bs = .ok (w, rest)) :
    ∃ octets u, bs = octets ++ rest ∧ Octets u octets ∧ k + octets.length ≤ 4 ∧
      w = v + u * 128 ^ k := by
  induction bs generalizing v k with
  | nil => cases h
  | cons b bs ih =>
    rw [prefixIntTail] at h
    simp only [low_bits, shift_eq] at h
    split_ifs at h with hmany hlarge hlast
    · cases h
      have hlast := (high_bit b).mp hlast
      refine ⟨[b], b.toNat, rfl, .last hlast, ?_, by rw [Nat.mod_eq_of_lt hlast]⟩
      rw [length_singleton]
      omega
    · obtain ⟨octets, u, rfl, hocts, hk, rfl⟩ := ih (k := k + 1) h
      have hmore := Nat.le_of_not_lt (mt (high_bit b).mpr hlast)
      refine ⟨b :: octets, _, rfl, .more hmore hocts, ?_, (octets_step _ _ _ _).symm⟩
      rw [length_cons]
      omega

variable {n v : Nat}

theorem Integer.lt {header : Bytes} (h : Integer n v header) (hn : n ≤ 8) : v < 2 ^ 29 := by
  have hpow : 2 ^ n ≤ 2 ^ 8 := Nat.pow_le_pow_right (by decide) hn
  cases h with
  | short hshort => omega
  | long _ hocts hfour =>
    have hlt := hocts.lt
    have hle : 128 ^ _ ≤ 128 ^ 4 := Nat.pow_le_pow_right (by decide) hfour
    omega

theorem Integer.ne_nil {header : Bytes} (h : Integer n v header) : header ≠ [] := by
  cases h with
  | short _ | long _ _ _ => exact cons_ne_nil _ _

/-- **The code reads the integers of the grammar**, and nothing else. -/
theorem hpackPrefixInt_eq_ok {n : Nat} (hn : n ≤ 8) {bs rest : Bytes} {v : Nat} :
    hpackPrefixInt n bs = .ok (v, rest) ↔ ∃ header, bs = header ++ rest ∧ Integer n v header := by
  constructor
  · intro h
    cases bs with
    | nil => cases h
    | cons b bs =>
      rw [hpackPrefixInt] at h
      split_ifs at h with hshort
      · cases h
        exact ⟨[b], rfl, .short hshort⟩
      · obtain ⟨octets, u, rfl, hocts, hk, rfl⟩ := octets_of_prefixIntTail (k := 0) h
        have hones : b.toNat % 2 ^ n = 2 ^ n - 1 := by
          have := Nat.mod_lt b.toNat (Nat.two_pow_pos n)
          omega
        rw [Nat.pow_zero, Nat.mul_one, hones]
        exact ⟨b :: octets, rfl, .long hones hocts (by omega)⟩
  · rintro ⟨header, rfl, hint⟩
    cases hint with
    | @short b hshort =>
      rw [singleton_append, hpackPrefixInt, if_pos hshort]
    | @long b u octets hones hocts hfour =>
      have hsmall := (Integer.long hones hocts hfour).lt hn
      have hread := prefixIntTail_octets hocts (v := 2 ^ n - 1) (k := 0) (by omega) (by omega) rest
      rw [Nat.pow_zero, Nat.mul_one] at hread
      rw [cons_append, hpackPrefixInt, hones, if_neg (Nat.lt_irrefl _)]
      exact hread

/-- **The code skips the strings of the grammar**, and nothing else. -/
theorem hpackSkipString_eq_ok {bs rest : Bytes} :
    hpackSkipString bs = .ok rest ↔ ∃ string, bs = string ++ rest ∧ Literal string := by
  rw [hpackSkipString, bind_eq_ok]
  constructor
  · rintro ⟨⟨len, after⟩, hlen, h⟩
    obtain ⟨header, rfl, hint⟩ := (hpackPrefixInt_eq_ok (by decide)).mp hlen
    dsimp only at h
    split_ifs at h with hshort
    cases h
    have htake : (after.take len).length = len := length_take_of_le (by omega)
    refine ⟨header ++ after.take len, ?_, .mk (by rwa [htake])⟩
    rw [append_assoc, take_append_drop]
  · rintro ⟨_, rfl, ⟨hint⟩⟩
    rename_i header content
    refine ⟨(content.length, content ++ rest), ?_, ?_⟩
    · exact (hpackPrefixInt_eq_ok (by decide)).mpr ⟨header, by rw [append_assoc], hint⟩
    · dsimp only
      rw [if_neg (by rw [length_append]; omega), drop_left]

/-! ## Representations -/

theorem first_indexed (b : UInt8) : b &&& 0x80 ≠ 0 ↔ 128 ≤ b.toNat := by
  rw [Ne, high_bit, Nat.not_lt]

theorem first_update (b : UInt8) : b &&& 0xe0 = 0x20 ↔ 32 ≤ b.toNat ∧ b.toNat < 64 := by
  have hall : ∀ b : BitVec 8, b &&& 0xe0 = 0x20 ↔ 32 ≤ b.toNat ∧ b.toNat < 64 := by decide
  rw [← UInt8.toBitVec_inj]
  exact hall b.toBitVec

theorem first_incremental (b : UInt8) : b &&& 0xc0 = 0x40 ↔ 64 ≤ b.toNat ∧ b.toNat < 128 := by
  have hall : ∀ b : BitVec 8, b &&& 0xc0 = 0x40 ↔ 64 ≤ b.toNat ∧ b.toNat < 128 := by decide
  rw [← UInt8.toBitVec_inj]
  exact hall b.toBitVec

theorem indexBits_eq {b : UInt8} (h : b.toNat < 128) :
    (if b &&& 0xc0 = 0x40 then 6 else 4) = indexBits b := by
  rw [indexBits]
  by_cases hsix : 64 ≤ b.toNat
  · rw [if_pos ((first_incremental b).mpr ⟨hsix, h⟩), if_pos hsix]
  · rw [if_neg (mt (first_incremental b).mp fun hb => hsix hb.1), if_neg hsix]

theorem indexBits_le (b : UInt8) : indexBits b ≤ 8 := by
  rw [indexBits]
  split_ifs <;> decide

def Kind.Allowed (limit : Nat) (seenField : Bool) : Kind → Prop
  | .field => True
  | .update size => seenField = false ∧ size ≤ limit

def Kind.after (seenField : Bool) : Kind → Bool
  | .field => true
  | .update _ => seenField

variable {first : UInt8}

theorem exists_header (hn : n ≤ 8) {bs rest : Bytes}
    (h : hpackPrefixInt n (first :: bs) = .ok (v, rest)) :
    ∃ octets, first :: bs = first :: octets ++ rest ∧ Integer n v (first :: octets) := by
  obtain ⟨header, hbs, hint⟩ := (hpackPrefixInt_eq_ok hn).mp h
  obtain ⟨b, octets, rfl⟩ := exists_cons_of_ne_nil hint.ne_nil
  rw [cons_append] at hbs
  obtain ⟨rfl, rfl⟩ := List.cons.inj hbs
  exact ⟨octets, rfl, hint⟩

theorem hpackPrefixInt_header (hn : n ≤ 8) {header : Bytes} (h : Integer n v header)
    (rest : Bytes) : hpackPrefixInt n (header ++ rest) = .ok (v, rest) :=
  (hpackPrefixInt_eq_ok hn).mpr ⟨header, rfl, h⟩

theorem hpackSkipString_string {string : Bytes} (h : Literal string) (rest : Bytes) :
    hpackSkipString (string ++ rest) = .ok rest :=
  hpackSkipString_eq_ok.mpr ⟨string, rfl, h⟩

theorem representation_of_skip {limit : Nat} {seen seen' : Bool} {bs rest : Bytes}
    (h : skipRepresentation limit seen first (first :: bs) = .ok (rest, seen')) :
    ∃ kind rep, first :: bs = rep ++ rest ∧ Representation kind rep ∧ kind.Allowed limit seen ∧
      seen' = kind.after seen := by
  rw [skipRepresentation] at h
  by_cases hindexed : first &&& 0x80 ≠ 0
  · rw [if_pos hindexed] at h
    obtain ⟨⟨v, after⟩, hint, h⟩ := bind_eq_ok.mp h
    cases h
    obtain ⟨octets, hbs, hint⟩ := exists_header (by decide) hint
    exact ⟨.field, _, hbs, .indexed ((first_indexed first).mp hindexed) hint, trivial, rfl⟩
  rw [if_neg hindexed] at h
  by_cases hupdate : first &&& 0xe0 = 0x20
  · rw [if_pos hupdate] at h
    split_ifs at h with hseen
    obtain ⟨⟨size, after⟩, hint, h⟩ := bind_eq_ok.mp h
    dsimp only at h
    split_ifs at h with hlarge
    cases h
    obtain ⟨octets, hbs, hint⟩ := exists_header (by decide) hint
    obtain ⟨hlow, hhigh⟩ := (first_update first).mp hupdate
    exact ⟨.update size, _, hbs, .update hlow hhigh hint,
      ⟨Bool.eq_false_iff.mpr hseen, Nat.le_of_not_lt hlarge⟩, rfl⟩
  rw [if_neg hupdate] at h
  have hbelow : first.toNat < 128 := Nat.lt_of_not_le (mt (first_indexed first).mpr hindexed)
  have hliteral : first.toNat < 32 ∨ (64 ≤ first.toNat ∧ first.toNat < 128) := by
    have := mt (first_update first).mpr hupdate
    omega
  rw [indexBits_eq hbelow] at h
  obtain ⟨⟨v, after⟩, hread, h⟩ := bind_eq_ok.mp h
  obtain ⟨octets, hbs, hint⟩ := exists_header (indexBits_le first) hread
  dsimp only at h
  split_ifs at h with hzero
  · obtain ⟨value, hname, h⟩ := bind_eq_ok.mp h
    obtain ⟨last, hvalue, h⟩ := bind_eq_ok.mp h
    cases h
    obtain ⟨name, rfl, hliteralName⟩ := hpackSkipString_eq_ok.mp hname
    obtain ⟨string, rfl, hstring⟩ := hpackSkipString_eq_ok.mp hvalue
    subst hzero
    refine ⟨.field, _, ?_, .literal hliteral hint hliteralName hstring, trivial, rfl⟩
    rw [hbs]
    simp only [append_assoc]
  · obtain ⟨value, hname, h⟩ := bind_eq_ok.mp h
    obtain ⟨last, hvalue, h⟩ := bind_eq_ok.mp h
    cases h
    cases hname
    obtain ⟨string, rfl, hstring⟩ := hpackSkipString_eq_ok.mp hvalue
    refine ⟨.field, _, ?_, .named hliteral hint hzero hstring, trivial, rfl⟩
    rw [hbs, append_assoc]

variable {seen : Bool}

/-- **A representation is passed over**, where it is allowed. -/
theorem skip_of_representation {limit : Nat} {kind : Kind} {rep : Bytes}
    (h : Representation kind rep) (hallowed : kind.Allowed limit seen) (rest : Bytes) :
    ∃ first bs, rep ++ rest = first :: bs ∧
      skipRepresentation limit seen first (first :: bs) = .ok (rest, kind.after seen) := by
  cases h with
  | @indexed b v octets hhigh hint =>
    refine ⟨b, _, rfl, ?_⟩
    have hread := hpackPrefixInt_header (by decide) hint rest
    rw [skipRepresentation, if_pos ((first_indexed b).mpr hhigh)]
    exact bind_eq_ok.mpr ⟨_, hread, rfl⟩
  | @update b size octets hlow hhigh hint =>
    refine ⟨b, _, rfl, ?_⟩
    have hread := hpackPrefixInt_header (by decide) hint rest
    rw [skipRepresentation, if_neg (mt (first_indexed b).mp (by omega)),
      if_pos ((first_update b).mpr ⟨hlow, hhigh⟩), if_neg (by rw [hallowed.1]; decide)]
    refine bind_eq_ok.mpr ⟨_, hread, ?_⟩
    dsimp only
    rw [if_neg (Nat.not_lt.mpr hallowed.2)]
    rfl
  | @named b v octets value hliteral hint hzero hvalue =>
    refine ⟨b, _, rfl, ?_⟩
    have hread := hpackPrefixInt_header (indexBits_le b) hint (value ++ rest)
    rw [skipRepresentation, if_neg (mt (first_indexed b).mp (by omega)),
      if_neg (mt (first_update b).mp (by omega)), indexBits_eq (by omega)]
    refine bind_eq_ok.mpr ⟨_, (congrArg (hpackPrefixInt _) (append_assoc ..)).trans hread, ?_⟩
    dsimp only
    rw [if_neg hzero]
    exact bind_eq_ok.mpr ⟨_, rfl, bind_eq_ok.mpr ⟨_, hpackSkipString_string hvalue rest, rfl⟩⟩
  | @literal b octets name value hliteral hint hname hvalue =>
    refine ⟨b, _, rfl, ?_⟩
    have hread := hpackPrefixInt_header (indexBits_le b) hint (name ++ (value ++ rest))
    have hassoc : b :: octets ++ (name ++ value) ++ rest =
        b :: octets ++ (name ++ (value ++ rest)) := by simp only [append_assoc]
    rw [skipRepresentation, if_neg (mt (first_indexed b).mp (by omega)),
      if_neg (mt (first_update b).mp (by omega)), indexBits_eq (by omega)]
    refine bind_eq_ok.mpr ⟨_, (congrArg (hpackPrefixInt _) hassoc).trans hread, ?_⟩
    dsimp only
    rw [if_pos rfl]
    exact bind_eq_ok.mpr ⟨_, hpackSkipString_string hname _,
      bind_eq_ok.mpr ⟨_, hpackSkipString_string hvalue rest, rfl⟩⟩

theorem skipRepresentation_eq_ok {limit : Nat} {seen seen' : Bool} {bs rest : Bytes} :
    skipRepresentation limit seen first (first :: bs) = .ok (rest, seen') ↔
      ∃ kind rep, first :: bs = rep ++ rest ∧ Representation kind rep ∧ kind.Allowed limit seen ∧
        seen' = kind.after seen := by
  constructor
  · exact representation_of_skip
  · rintro ⟨kind, rep, hbs, hrep, hallowed, rfl⟩
    obtain ⟨b, tail, heq, hskip⟩ := skip_of_representation hrep hallowed rest
    rw [← hbs] at heq
    obtain ⟨rfl, rfl⟩ := List.cons.inj heq
    exact hskip

theorem Representation.ne_nil {kind : Kind} {rep : Bytes} (h : Representation kind rep) :
    rep ≠ [] := by
  cases h <;> exact cons_ne_nil _ _

/-! ## The walk and the server's validation

The server is modelled with the bytes that are left. A position is what is left of the block.
-/

/-- What is left of a block at a position. -/
structure At (b : Buffer UInt8) (rest : Bytes) (i : Nat) : Prop where
  le : i ≤ b.items.length
  drop : b.items.drop i = rest

/-- Both fail with the same words, or come to results that belong together. -/
inductive Agree {A B : Type} (R : A → B → Prop) : Except Str A → Except Fault B → Prop
  | refused (why : Str) : Agree R (.error why) (.error (.refused why))
  | ok {a : A} {b : B} : R a b → Agree R (.ok a) (.ok b)

theorem Agree.bind {A B C D : Type} {R : A → B → Prop} {S : C → D → Prop} {x : Except Str A}
    {y : Except Fault B} {f : A → Except Str C} {g : B → Except Fault D} (h : Agree R x y)
    (hf : ∀ a b, x = .ok a → R a b → Agree S (f a) (g b)) : Agree S (x >>= f) (y >>= g) := by
  cases h with
  | refused why => exact .refused why
  | ok hab => exact hf _ _ rfl hab

section

variable {A B : Type} {R : A → B → Prop} {x : Except Str A} {y : Except Fault B}

theorem Agree.of_ok {a : A} (h : Agree R (.ok a) y) : ∃ b, y = .ok b ∧ R a b := by
  cases h with
  | ok hab => exact ⟨_, rfl, hab⟩

theorem Agree.of_refused {why : Str} (h : Agree R (.error why) y) : y = .error (.refused why) := by
  cases h with
  | refused _ => rfl

theorem Agree.exists_of_ok {b : B} (h : Agree R x (.ok b)) : ∃ a, x = .ok a ∧ R a b := by
  cases h with
  | ok hab => exact ⟨_, rfl, hab⟩

theorem Agree.not_panic (h : Agree R x y) (p : Panic) : y ≠ .error (.panic p) := by
  intro hp
  rw [hp] at h
  cases h

end

variable {b : Buffer UInt8} {rest : Bytes} {i : Nat}

theorem At.length (h : At b rest i) : i + rest.length = b.items.length := by
  have := congrArg List.length h.drop
  rw [length_drop] at this
  have := h.le
  omega

theorem At.small (h : At b rest i) : i + rest.length < 2 ^ 63 := h.length ▸ b.length_lt

theorem At.skip {k : Nat} (h : At b rest i) (hk : k ≤ rest.length) :
    At b (rest.drop k) (i + k) where
  le := by
    have := h.length
    omega
  drop := by rw [← drop_drop, h.drop]

theorem At.byteAt {byte : UInt8} (h : At b (byte :: rest) i) : byteAt b i = .ok byte := by
  have hget : b.items[i]? = some byte := by
    rw [← head?_drop, h.drop]
    rfl
  rw [HpackBlock.byteAt, hget]

theorem At.tail {byte : UInt8} (h : At b (byte :: rest) i) : At b rest (i + 1) :=
  h.skip (Nat.succ_le_of_lt (Nat.succ_pos _))

theorem At.isEnd (h : At b [] i) : b.items.length ≤ i := by
  have := h.length
  rw [length_nil] at this
  omega

theorem At.inside {byte : UInt8} (h : At b (byte :: rest) i) : ¬ b.items.length ≤ i := by
  have := h.length
  rw [length_cons] at this
  omega

theorem plus_ok {i j : Nat} (h : i + j < 2 ^ 64) : plus i j = .ok (i + j) := by
  have hadd : add usize i j = .ok (i + j) := add_ok h
  rw [plus, hadd]
  rfl

theorem shiftLeft_ok {byte : UInt8} {m : Nat} (hm : m ≤ 21) :
    shiftLeft (byte &&& 0x7f).toNat m = .ok ((byte &&& 0x7f).toNat * 2 ^ m) := by
  have hbyte : (byte &&& 0x7f).toNat < 2 ^ 8 := UInt8.toNat_lt _
  have hpow : 2 ^ m ≤ 2 ^ 21 := Nat.pow_le_pow_right (by decide) hm
  have hsmall : (byte &&& 0x7f).toNat * 2 ^ m < 2 ^ 64 := by
    calc (byte &&& 0x7f).toNat * 2 ^ m ≤ 2 ^ 8 * 2 ^ 21 := Nat.mul_le_mul hbyte.le hpow
      _ < 2 ^ 64 := by decide
  rw [shiftLeft, if_pos (by omega), Nat.mod_eq_of_lt hsmall]

/-- A number and what is left, and the number and the position. -/
def Read (b : Buffer UInt8) (x : Nat × Bytes) (y : Nat × Nat) : Prop :=
  x.1 = y.1 ∧ At b x.2 y.2

theorem agree_prefixIntFrom {v m : Nat} (h : At b rest i) :
    Agree (Read b) (prefixIntTail v m rest) (prefixIntFrom b v m i) := by
  induction rest generalizing v m i with
  | nil =>
    rw [prefixIntTail, prefixIntFrom, if_pos h.isEnd]
    exact .refused _
  | cons byte rest ih =>
    rw [prefixIntTail, prefixIntFrom, if_neg h.inside]
    by_cases hm : 21 < m
    · rw [if_pos hm, dif_pos hm]
      exact .refused _
    have hplus : plus i 1 = .ok (i + 1) := plus_ok (by have := h.small; omega)
    rw [if_neg hm, dif_neg hm, h.byteAt]
    simp only [bind, Except.bind, hplus, @shiftLeft_ok byte _ (Nat.le_of_not_lt hm)]
    by_cases hlarge : 2 ^ 64 ≤ v + (byte &&& 0x7f).toNat * 2 ^ m
    · rw [if_pos hlarge, if_pos hlarge]
      exact .refused _
    rw [if_neg hlarge, if_neg hlarge]
    by_cases hlast : byte &&& 0x80 = 0
    · rw [if_pos hlast, if_pos hlast]
      exact .ok ⟨rfl, h.tail⟩
    · rw [if_neg hlast, if_neg hlast]
      exact ih h.tail

theorem agree_prefixInt {n : Nat} (h : At b rest i) :
    Agree (Read b) (hpackPrefixInt n rest) (prefixInt b i n) := by
  cases rest with
  | nil =>
    rw [hpackPrefixInt, prefixInt, if_pos h.isEnd]
    exact .refused _
  | cons byte rest =>
    have hplus : plus i 1 = .ok (i + 1) := plus_ok (by have := h.small; omega)
    rw [hpackPrefixInt, prefixInt, if_neg h.inside, h.byteAt]
    simp only [bind, Except.bind, hplus, Nat.and_two_pow_sub_one_eq_mod]
    by_cases hshort : byte.toNat % 2 ^ n < 2 ^ n - 1
    · rw [if_pos hshort, if_pos hshort]
      exact .ok ⟨rfl, h.tail⟩
    · rw [if_neg hshort, if_neg hshort]
      exact agree_prefixIntFrom h.tail

theorem agree_skipString (h : At b rest i) :
    Agree (At b) (hpackSkipString rest) (skipString b i) := by
  rw [hpackSkipString, skipString]
  refine (agree_prefixInt h).bind ?_
  rintro ⟨len, after⟩ ⟨_, j⟩ hread ⟨rfl, hat⟩
  dsimp only at hat ⊢
  -- a length is small, so that the sum with a position is a `usize`
  obtain ⟨header, -, hlen⟩ := (hpackPrefixInt_eq_ok (by decide)).mp hread
  have hsmall := hlen.lt (by decide)
  have hplus : plus j len = .ok (j + len) := plus_ok (by have := hat.small; omega)
  have hlength := hat.length
  simp only [bind, Except.bind, hplus]
  by_cases hshort : after.length < len
  · rw [if_pos hshort, if_pos (by omega)]
    exact .refused _
  · rw [if_neg hshort, if_neg (by omega)]
    exact .ok (hat.skip (Nat.le_of_not_lt hshort))

/-- What is left and whether a field was seen, and the state of the walk. -/
def Left (b : Buffer UInt8) (x : Bytes × Bool) (s : (Nat × Bool) ⊕ Unit) : Prop :=
  ∃ i, s = .inl (i, x.2) ∧ At b x.1 i

theorem agree_turn {limit : Nat} (h : At b (first :: bs) i) :
    Agree (Left b) (skipRepresentation limit seen first (first :: bs))
      (turn b limit (i, seen)) := by
  rw [skipRepresentation, turn, if_pos (Nat.lt_of_not_le h.inside), h.byteAt]
  simp only [bind, Except.bind]
  by_cases hindexed : first &&& 0x80 ≠ 0
  · rw [if_pos hindexed, if_pos hindexed]
    exact (agree_prefixInt h).bind fun x y _ hxy => .ok ⟨_, rfl, hxy.2⟩
  rw [if_neg hindexed, if_neg hindexed]
  by_cases hupdate : first &&& 0xe0 = 0x20
  · rw [if_pos hupdate, if_pos hupdate]
    by_cases hseen : seen = true
    · rw [if_pos hseen, if_pos hseen]
      exact .refused _
    rw [if_neg hseen, if_neg hseen]
    refine (agree_prefixInt h).bind ?_
    rintro ⟨size, after⟩ ⟨_, j⟩ - ⟨rfl, hat⟩
    dsimp only
    by_cases hlarge : limit < size
    · rw [if_pos hlarge, if_pos hlarge]
      exact .refused _
    · rw [if_neg hlarge, if_neg hlarge]
      exact .ok ⟨_, rfl, hat⟩
  rw [if_neg hupdate, if_neg hupdate]
  refine (agree_prefixInt h).bind ?_
  rintro ⟨index, after⟩ ⟨_, j⟩ - ⟨rfl, hat⟩
  dsimp only at hat ⊢
  have hvalue : ∀ rest k, At b rest k → Agree (Left b)
      (hpackSkipString rest >>= fun rest => .ok (rest, true))
      (skipString b k >>= fun i => .ok (.inl (i, true))) := fun rest k hk =>
    (agree_skipString hk).bind fun x y _ hxy => .ok ⟨_, rfl, hxy⟩
  by_cases hzero : index = 0
  · rw [if_pos hzero, if_pos hzero]
    exact (agree_skipString hat).bind fun rest k _ hk => hvalue rest k hk
  · rw [if_neg hzero, if_neg hzero]
    exact hvalue after j hat

/-! ## One turn -/

theorem At.of_le (h : i ≤ b.items.length) : At b (b.items.drop i) i := ⟨h, rfl⟩

theorem At.unique {j : Nat} (hi : At b rest i) (hj : At b rest j) : i = j := by
  have := hi.length
  have := hj.length
  omega

theorem At.append {rep rest : Bytes} (h : At b (rep ++ rest) i) : At b rest (i + rep.length) := by
  have hskip := h.skip (k := rep.length) (by rw [length_append]; omega)
  rwa [drop_left] at hskip

theorem turn_end {limit : Nat} (h : b.items.length ≤ i) :
    turn b limit (i, seen) = .ok (.inr ()) := by
  rw [turn, if_neg (Nat.not_lt.mpr h)]

/-- **A turn passes over one representation that is allowed.** -/
theorem turn_eq_next_iff {limit : Nat} {s : Nat × Bool} (h : At b rest i) :
    turn b limit (i, seen) = .ok (.inl s) ↔
      ∃ kind rep rest', rest = rep ++ rest' ∧ Representation kind rep ∧ kind.Allowed limit seen ∧
        s = (i + rep.length, kind.after seen) := by
  cases rest with
  | nil =>
    rw [turn_end h.isEnd]
    constructor
    · intro hnext
      cases hnext
    · rintro ⟨kind, rep, rest', hnil, hrep, -⟩
      exact absurd (append_eq_nil_iff.mp hnil.symm).1 hrep.ne_nil
  | cons first bs =>
    have hagree : Agree (Left b) (skipRepresentation limit seen first (first :: bs))
        (turn b limit (i, seen)) := agree_turn h
    constructor
    · intro hnext
      rw [hnext] at hagree
      obtain ⟨⟨rest', seen'⟩, hskip, j, hs, hat⟩ := hagree.exists_of_ok
      cases hs
      obtain ⟨kind, rep, hbs, hrep, hallowed, rfl⟩ := skipRepresentation_eq_ok.mp hskip
      rw [hbs] at h
      exact ⟨kind, rep, rest', hbs, hrep, hallowed, by rw [h.append.unique hat]⟩
    · rintro ⟨kind, rep, rest', hbs, hrep, hallowed, rfl⟩
      rw [skipRepresentation_eq_ok.mpr ⟨kind, rep, hbs, hrep, hallowed, rfl⟩] at hagree
      obtain ⟨s, hturn, j, rfl, hat⟩ := hagree.of_ok
      rw [hbs] at h
      rw [hturn, h.append.unique hat]

/-- **A turn within the block does not end the process**, and it goes on before the end. -/
theorem turn_within {limit : Nat} (h : i ≤ b.items.length) :
    (∀ p, turn b limit (i, seen) ≠ .error (.panic p)) ∧
      (turn b limit (i, seen) = .ok (.inr ()) → i = b.items.length) := by
  have hat := At.of_le h
  cases hrest : b.items.drop i with
  | nil =>
    rw [hrest] at hat
    have := hat.isEnd
    rw [turn_end this]
    exact ⟨fun p hp => (by cases hp), fun _ => by omega⟩
  | cons first bs =>
    rw [hrest] at hat
    have hagree : Agree (Left b) (skipRepresentation limit seen first (first :: bs))
        (turn b limit (i, seen)) := agree_turn hat
    refine ⟨hagree.not_panic, fun hanswer => ?_⟩
    rw [hanswer] at hagree
    obtain ⟨x, -, j, hs, -⟩ := hagree.exists_of_ok
    cases hs

/-! ## The walk over a block -/

/-- The loop of `validate_hpack_block`. -/
def walk (block : Buffer UInt8) (maxTableSize : Nat) : Loop Fault (Nat × Bool) Unit where
  turn := turn block maxTableSize
  left s := block.items.length - s.1
  shrinks := by
    rintro ⟨i, seen⟩ s h
    by_cases hi : i < block.items.length
    · obtain ⟨kind, rep, rest, hbs, hrep, -, rfl⟩ := (turn_eq_next_iff (At.of_le hi.le)).mp h
      have hpos := List.length_pos_of_ne_nil hrep.ne_nil
      dsimp only
      omega
    · rw [turn_end (Nat.le_of_not_lt hi)] at h
      cases h

/-- `validate_hpack_block`, with its positions, its sums and its reads. -/
def validateChecked (block : Buffer UInt8) (maxTableSize : Nat) : Except Fault Unit :=
  (walk block maxTableSize).run (0, false)

theorem skip_shorter {limit : Nat} {r : Bytes × Bool}
    (h : skipRepresentation limit seen first (first :: bs) = .ok r) : r.1.length ≤ bs.length := by
  obtain ⟨rest, seen'⟩ := r
  obtain ⟨kind, rep, hbs, hrep, -⟩ := skipRepresentation_eq_ok.mp h
  have hpos := length_pos_of_ne_nil hrep.ne_nil
  have hlen := congrArg List.length hbs
  rw [length_append, length_cons] at hlen
  dsimp only
  omega

theorem validateRepresentations_enough {limit n m : Nat} (hn : bs.length ≤ n) (hm : bs.length ≤ m) :
    validateRepresentations limit n seen bs = validateRepresentations limit m seen bs := by
  induction n generalizing m seen bs with
  | zero =>
    obtain rfl := length_eq_zero_iff.mp (Nat.le_zero.mp hn)
    rw [validateRepresentations, validateRepresentations]
  | succ n ih =>
    cases bs with
    | nil => rw [validateRepresentations, validateRepresentations]
    | cons first bs =>
      cases m with
      | zero => cases hm
      | succ m =>
        rw [validateRepresentations, validateRepresentations]
        cases hskip : skipRepresentation limit seen first (first :: bs) with
        | error why => rfl
        | ok r =>
          have hshort := skip_shorter hskip
          have hn := Nat.le_of_succ_le_succ hn
          have hm := Nat.le_of_succ_le_succ hm
          exact ih (hshort.trans hn) (hshort.trans hm)

/-- **The walk is the validation that the server is modelled with.** -/
theorem validateChecked_eq (block : Buffer UInt8) (limit : Nat) :
    validateChecked block limit = (validateHpackBlock block.items limit).mapError .refused := by
  have hrun := Loop.run_unique (l := walk block limit) (P := fun s => s.1 ≤ block.items.length)
    (f := fun s => (validateRepresentations limit block.items.length s.2
      (block.items.drop s.1)).mapError .refused) ?_ ?_ (0, false) (Nat.zero_le _)
  · exact hrun
  · rintro ⟨i, seen⟩ s hi hnext
    obtain ⟨kind, rep, rest, hbs, -, -, rfl⟩ := (turn_eq_next_iff (At.of_le hi)).mp hnext
    have hlen := congrArg List.length hbs
    rw [length_append, length_drop] at hlen
    dsimp only at hi ⊢
    omega
  · rintro ⟨i, seen⟩ hi
    dsimp only at hi ⊢
    have hat := At.of_le hi
    rw [Loop.after]
    cases hrest : block.items.drop i with
    | nil =>
      rw [hrest] at hat
      have hturn : (walk block limit).turn (i, seen) = _ := turn_end hat.isEnd
      rw [hturn, validateRepresentations]
      rfl
    | cons first bs =>
      rw [hrest] at hat
      have hlen := hat.length
      obtain ⟨n, hn⟩ := Nat.exists_eq_succ_of_ne_zero (n := block.items.length)
        (by rw [length_cons] at hlen; omega)
      have hagree : Agree (Left block) _ ((walk block limit).turn (i, seen)) := agree_turn hat
      rw [hn, validateRepresentations]
      cases hskip : skipRepresentation limit seen first (first :: bs) with
      | error why =>
        rw [hskip] at hagree
        rw [hagree.of_refused]
        rfl
      | ok r =>
        have hshort := skip_shorter hskip
        rw [hskip] at hagree
        obtain ⟨s, hturn, j, rfl, hleft⟩ := hagree.of_ok
        rw [hturn]
        dsimp only
        rw [hleft.drop]
        rw [length_cons] at hlen
        exact congrArg (Except.mapError Fault.refused)
          (validateRepresentations_enough (by omega) (by omega))

/-! ## Where the walk comes -/

def hasField (reps : List (Kind × Bytes)) : Bool := reps.any fun r => decide (r.1 = .field)

theorem hasField_concat (reps : List (Kind × Bytes)) (kind : Kind) (rep : Bytes) :
    hasField (reps ++ [(kind, rep)]) = kind.after (hasField reps) := by
  rw [hasField, any_append]
  cases kind with
  | field => exact Bool.or_true _
  | update size => exact Bool.or_false _

theorem hasField_eq_false {reps : List (Kind × Bytes)} :
    hasField reps = false ↔ ∀ r ∈ reps, r.1 ≠ .field := by
  rw [hasField, any_eq_false]
  simp only [decide_eq_true_eq]

theorem isBlock_concat {limit : Nat} {reps : List (Kind × Bytes)} {kind : Kind} {rep : Bytes} :
    IsBlock limit (reps ++ [(kind, rep)]) ↔
      IsBlock limit reps ∧ Representation kind rep ∧ kind.Allowed limit (hasField reps) := by
  constructor
  · intro h
    obtain ⟨hfirst, -, hlast⟩ := pairwise_append.mp h.updatesFirst
    have hmem : (kind, rep) ∈ reps ++ [(kind, rep)] := mem_append_right _ (mem_singleton_self _)
    refine ⟨⟨fun r hr => h.complete r (mem_append_left _ hr), hfirst,
      fun r hr => h.small r (mem_append_left _ hr)⟩, h.complete _ hmem, ?_⟩
    cases kind with
    | field => trivial
    | update size =>
      refine ⟨hasField_eq_false.mpr fun r hr hfield => ?_, h.small _ hmem size rfl⟩
      cases hlast r hr _ (mem_singleton_self _) hfield
  · rintro ⟨h, hrep, hallowed⟩
    refine ⟨?_, pairwise_append.mpr ⟨h.updatesFirst, pairwise_singleton _ _, ?_⟩, ?_⟩
    · intro r hr
      rcases mem_append.mp hr with hr | hr
      · exact h.complete r hr
      · obtain rfl := mem_singleton.mp hr
        exact hrep
    · intro r hr last hlast hfield
      obtain rfl := mem_singleton.mp hlast
      cases kind with
      | field => rfl
      | update size => exact absurd hfield (hasField_eq_false.mp hallowed.1 r hr)
    · intro r hr size hsize
      rcases mem_append.mp hr with hr | hr
      · exact h.small r hr size hsize
      · obtain rfl := mem_singleton.mp hr
        dsimp only at hsize
        subst hsize
        exact hallowed.2

theorem text_append (reps reps' : List (Kind × Bytes)) :
    text (reps ++ reps') = text reps ++ text reps' := flatMap_append

theorem text_singleton (kind : Kind) (rep : Bytes) : text [(kind, rep)] = rep := append_nil _

variable {limit : Nat} {reps reps' : List (Kind × Bytes)}

theorem At.of_text {rest : Bytes} (h : text reps ++ rest = b.items) :
    At b rest (text reps).length where
  le := by
    rw [← h, length_append]
    omega
  drop := by rw [← h, drop_left]

/-- **The walk comes behind representations** that may begin a block, and nowhere else. -/
theorem reaches_iff (s : Nat × Bool) :
    (walk b limit).Reaches (0, false) s ↔ ∃ reps, IsBlock limit reps ∧ text reps <+: b.items ∧
        s = ((text reps).length, hasField reps) := by
  constructor
  · intro h
    induction h with
    | refl =>
      exact ⟨[], ⟨forall_mem_nil _, List.Pairwise.nil, forall_mem_nil _⟩, nil_prefix, rfl⟩
    | tail _ hnext ih =>
      obtain ⟨reps, hblock, ⟨rest, hrest⟩, rfl⟩ := ih
      obtain ⟨kind, rep, rest', rfl, hrep, hallowed, rfl⟩ :=
        (turn_eq_next_iff (At.of_text hrest)).mp hnext
      refine ⟨reps ++ [(kind, rep)], isBlock_concat.mpr ⟨hblock, hrep, hallowed⟩, ⟨rest', ?_⟩, ?_⟩
      · rw [text_append, text_singleton, append_assoc, hrest]
      · rw [text_append, text_singleton, length_append, hasField_concat]
  · rintro ⟨reps, hblock, hpre, rfl⟩
    induction reps using reverseRecOn with
    | nil => exact .refl
    | append_singleton reps r ih =>
      obtain ⟨kind, rep⟩ := r
      obtain ⟨hblock, hrep, hallowed⟩ := isBlock_concat.mp hblock
      obtain ⟨rest, hrest⟩ := hpre
      rw [text_append, text_singleton, append_assoc] at hrest
      have hnext := (turn_eq_next_iff (At.of_text hrest)).mpr
        ⟨kind, rep, rest, rfl, hrep, hallowed, rfl⟩
      rw [text_append, text_singleton, length_append, hasField_concat]
      exact (ih hblock ⟨_, hrest⟩).tail hnext

theorem reached_le {s : Nat × Bool} (h : (walk b limit).Reaches (0, false) s) :
    s.1 ≤ b.items.length := by
  obtain ⟨reps, -, hpre, rfl⟩ := (reaches_iff s).mp h
  exact hpre.length_le

/-- **The blocks that are accepted.** -/
theorem validateChecked_eq_ok :
    validateChecked b limit = .ok () ↔ ∃ reps, IsBlock limit reps ∧ text reps = b.items := by
  constructor
  · intro h
    obtain ⟨⟨i, seen⟩, hreach, hanswer⟩ := Loop.exists_of_run h
    obtain ⟨reps, hblock, hpre, hs⟩ := (reaches_iff _).mp hreach
    cases hs
    have hend := (turn_within hpre.length_le).2 hanswer
    exact ⟨reps, hblock, hpre.eq_of_length hend⟩
  · rintro ⟨reps, hblock, htext⟩
    have hreach : (walk b limit).Reaches (0, false) ((text reps).length, hasField reps) :=
      (reaches_iff _).mpr ⟨reps, hblock, htext ▸ prefix_rfl, rfl⟩
    rw [validateChecked, hreach.run_eq]
    exact Loop.run_of_answer (turn_end (by rw [htext]))

/-- **No sum overflows, and no read is out of range.** -/
theorem validateChecked_not_panic (p : Panic) : validateChecked b limit ≠ .error (.panic p) := by
  intro h
  obtain ⟨⟨i, seen⟩, hreach, hturn⟩ := Loop.run_eq_error_iff.mp h
  exact (turn_within (reached_le hreach)).1 p hturn

/-! ## One way to read a block -/

theorem Representation.unique {kind kind' : Kind} {rep rep' rest rest' : Bytes}
    (h : Representation kind rep) (h' : Representation kind' rep')
    (heq : rep ++ rest = rep' ++ rest') : kind = kind' ∧ rep = rep' := by
  have hlimit : ∃ limit, kind.Allowed limit false ∧ kind'.Allowed limit false := by
    cases kind with
    | field =>
      cases kind' with
      | field => exact ⟨0, trivial, trivial⟩
      | update size' => exact ⟨size', trivial, rfl, Nat.le_refl _⟩
    | update size =>
      cases kind' with
      | field => exact ⟨size, ⟨rfl, Nat.le_refl _⟩, trivial⟩
      | update size' =>
        exact ⟨max size size', ⟨rfl, Nat.le_max_left _ _⟩, rfl, Nat.le_max_right _ _⟩
  obtain ⟨limit, hallowed, hallowed'⟩ := hlimit
  obtain ⟨first, bs, hbs, hskip⟩ := skip_of_representation h hallowed rest
  obtain ⟨first', bs', hbs', hskip'⟩ := skip_of_representation h' hallowed' rest'
  rw [heq, hbs'] at hbs
  obtain ⟨rfl, rfl⟩ := List.cons.inj hbs
  obtain ⟨rfl, hafter⟩ := Prod.mk.inj (Except.ok.inj (hskip.symm.trans hskip'))
  obtain rfl := append_cancel_right heq
  refine ⟨?_, rfl⟩
  cases h with
  | update _ _ hint =>
    cases kind' with
    | field => cases hafter
    | update size' =>
      cases h' with
      | update _ _ hint' =>
        have hread := hpackPrefixInt_header (by decide) hint rest
        rw [hpackPrefixInt_header (by decide) hint' rest] at hread
        rw [(Prod.mk.inj (Except.ok.inj hread)).1]
  | indexed _ _ | named _ _ _ _ | literal _ _ _ _ =>
    cases kind' with
    | field => rfl
    | update _ => cases hafter

theorem reading_unique (h : ∀ r ∈ reps, Representation r.1 r.2)
    (h' : ∀ r ∈ reps', Representation r.1 r.2) (hpre : text reps <+: bs)
    (hpre' : text reps' <+: bs) : reps <+: reps' ∨ reps' <+: reps := by
  induction reps generalizing reps' bs with
  | nil => exact .inl nil_prefix
  | cons r reps ih =>
    cases reps' with
    | nil => exact .inr nil_prefix
    | cons r' reps' =>
      obtain ⟨rest, hrest⟩ := hpre
      obtain ⟨rest', hrest'⟩ := hpre'
      rw [text, flatMap_cons, append_assoc] at hrest hrest'
      obtain ⟨hkind, hrep⟩ := (h r mem_cons_self).unique (h' r' mem_cons_self)
        (hrest.trans hrest'.symm)
      obtain rfl : r = r' := Prod.ext hkind hrep
      have hsame := append_cancel_left (hrest.trans hrest'.symm)
      have hall := fun x hx => h x (mem_cons_of_mem _ hx)
      have hall' := fun x hx => h' x (mem_cons_of_mem _ hx)
      exact (ih hall hall' ⟨rest, rfl⟩ ⟨rest', hsame.symm⟩).imp (cons_prefix_cons.mpr ⟨rfl, ·⟩)
        (cons_prefix_cons.mpr ⟨rfl, ·⟩)

theorem IsBlock.of_prefix (h : IsBlock limit reps') (hpre : reps <+: reps') :
    IsBlock limit reps where
  complete r hr := h.complete r (hpre.subset hr)
  updatesFirst := h.updatesFirst.sublist hpre.sublist
  small r hr := h.small r (hpre.subset hr)

theorem eq_nil_of_text (h : ∀ r ∈ reps, Representation r.1 r.2) (htext : text reps = []) :
    reps = [] := by
  cases reps with
  | nil => rfl
  | cons r reps =>
    rw [text, flatMap_cons] at htext
    exact absurd (append_eq_nil_iff.mp htext).1 (h r mem_cons_self).ne_nil

theorem prefix_of_reading (hblock : IsBlock limit reps') (h : ∀ r ∈ reps, Representation r.1 r.2)
    (hpre : text reps <+: text reps') : reps <+: reps' := by
  rcases reading_unique h hblock.complete hpre prefix_rfl with hshort | ⟨more, rfl⟩
  · exact hshort
  · rw [text_append] at hpre
    have hmore : text more = [] := by
      have := hpre.length_le
      rw [length_append] at this
      exact length_eq_zero_iff.mp (by omega)
    rw [eq_nil_of_text (fun r hr => h r (mem_append_right _ hr)) hmore, append_nil]

structure ExactWalk (block : Buffer UInt8) (limit : Nat) : Prop where
  /-- no sum overflows and no read is out of range -/
  safe : ∀ p, validateChecked block limit ≠ .error (.panic p)
  /-- it accepts the blocks, and nothing else -/
  exact : validateChecked block limit = .ok () ↔
    ∃ reps, IsBlock limit reps ∧ text reps = block.items
  /-- its positions are those behind representations -/
  positions : ∀ i, (∃ seen, (walk block limit).Reaches (0, false) (i, seen)) ↔
    ∃ reps, IsBlock limit reps ∧ text reps <+: block.items ∧ (text reps).length = i
  /-- a block that is accepted is read by others as the walk reads it, up to any position: they
  meet no size that comes after a field or is too large -/
  noneHides : validateChecked block limit = .ok () → ∀ reps,
    (∀ r ∈ reps, Representation r.1 r.2) → text reps <+: block.items →
      IsBlock limit reps ∧ (walk block limit).Reaches (0, false) ((text reps).length, hasField reps)
  /-- there is one way to read it -/
  unique : ∀ reps reps', (∀ r ∈ reps, Representation r.1 r.2) →
    (∀ r ∈ reps', Representation r.1 r.2) → text reps = block.items → text reps' = block.items →
      reps = reps'

/-- **The validation is exact**: it accepts the sequences of complete representations with the new
sizes in front and within the limit, and stands where any reader of them stands. -/
theorem hpackBlock_exact (block : Buffer UInt8) (limit : Nat) : ExactWalk block limit where
  safe := validateChecked_not_panic
  exact := validateChecked_eq_ok
  positions i := by
    constructor
    · rintro ⟨seen, hreach⟩
      obtain ⟨reps, hblock, hpre, hs⟩ := (reaches_iff _).mp hreach
      exact ⟨reps, hblock, hpre, (Prod.mk.inj hs).1.symm⟩
    · rintro ⟨reps, hblock, hpre, rfl⟩
      exact ⟨hasField reps, (reaches_iff _).mpr ⟨reps, hblock, hpre, rfl⟩⟩
  noneHides haccepted reps hreps hpre := by
    obtain ⟨all, hall, htext⟩ := validateChecked_eq_ok.mp haccepted
    rw [← htext] at hpre
    have hblock := hall.of_prefix (prefix_of_reading hall hreps hpre)
    exact ⟨hblock, (reaches_iff _).mpr ⟨reps, hblock, htext ▸ hpre, rfl⟩⟩
  unique reps reps' hreps hreps' htext htext' := by
    have hsame := htext.trans htext'.symm
    rcases reading_unique hreps hreps' ⟨[], append_nil _⟩ ⟨[], by rw [append_nil, hsame]⟩
      with ⟨more, rfl⟩ | ⟨more, rfl⟩
    · rw [text_append] at hsame
      have hmore := append_right_eq_self.mp hsame.symm
      rw [eq_nil_of_text (fun r hr => hreps' r (mem_append_right _ hr)) hmore, append_nil]
    · rw [text_append] at hsame
      have hmore := append_right_eq_self.mp hsame
      rw [eq_nil_of_text (fun r hr => hreps r (mem_append_right _ hr)) hmore, append_nil]

end HpackBlock

end M6.Http2
