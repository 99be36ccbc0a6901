import M6.Core.Generation
import Mathlib.Data.List.Find
import Mathlib.Data.List.Pairwise
import Mathlib.Data.Nat.Basic

/-!
# Content codings

`coding_quality` and `preferred_coding` of `negotiate.rs`, and what `handle_request` makes of them.
A field of a request is a list of names with their weights (`AcceptEncoding`), and
`codingQuality_text` says that the code reads such a list as it is meant: a name counts before `*`,
`*` before nothing. `chosen_preferredCoding` is the choice: the candidate of the highest weight, the
first of those that share it. `negotiation` puts this into the pipeline.

What is not there is a comparison with `identity`. It is what is sent when no candidate is
acceptable, however a client rates it. And a client that splits the field over several lines is
heard for the first of them only.
-/

namespace M6

open List

namespace Negotiate

/-! ## The numbers -/

/-- **A weight**: a number from 0 to 1 with up to three decimals. -/
structure QValue where
  one : Bool
  decimals : Option Str
  short : ∀ ds ∈ decimals, ds.length ≤ 3
  digits : ∀ ds ∈ decimals, ds.all Char.isDigit = true
  zeros : one = true → ∀ ds ∈ decimals, ds.all (· = '0') = true

def thousandths (ds : Str) : Nat :=
  ds.foldl (fun n c => 10 * n + (c.toNat - 48)) 0 * 10 ^ (3 - ds.length)

namespace QValue

def text (q : QValue) : Str :=
  (if q.one then '1' else '0') :: q.decimals.elim [] ('.' :: ·)

def milli (q : QValue) : Nat := if q.one then 1000 else q.decimals.elim 0 thousandths

end QValue

/-- **The numbers that weights are read into.** Those of up to three decimals are kept apart, in
their order. -/
structure Floats where
  Carrier : Type
  parse : Str → Option Carrier
  gt : Carrier → Carrier → Bool
  /-- the number of so many thousandths -/
  ofMilli : Nat → Carrier
  parse_text : ∀ q : QValue, parse q.text = some (ofMilli q.milli)
  gt_iff : ∀ a b, a ≤ 1000 → b ≤ 1000 → (gt (ofMilli a) (ofMilli b) = true ↔ b < a)

variable (f : Floats)

/-! ## The code -/

def weightOf (param : Str) : Option Str :=
  (Text.stripPrefix "q=".toList param).or (Text.stripPrefix "Q=".toList param)

def qualityStep (coding : Str) (found : Option f.Carrier × Option f.Carrier) (part : Str) :
    Option f.Carrier × Option f.Carrier :=
  let part := Text.trim part
  if part = [] then found
  else
    let bits := part.splitOn ';'
    let name := Text.trim (bits.headD [])
    let q := bits.tail.foldl (fun q param =>
      match weightOf (Text.trim param) with
      -- a weight that cannot be read counts as 1
      | some v => (f.parse (Text.trim v)).getD (f.ofMilli 1000)
      | none => q) (f.ofMilli 1000)
    if name = ['*'] then (found.1, some q)
    else if Text.eqIgnoreAsciiCase name coding then (some q, found.2)
    else found

def codingQuality (acceptEncoding coding : Str) : Option f.Carrier :=
  let (explicit, wildcard) :=
    (acceptEncoding.splitOn ',').foldl (qualityStep f coding) (none, none)
  let q := explicit.or (wildcard.or
    (if Text.eqIgnoreAsciiCase coding "identity".toList then some (f.ofMilli 1000) else none))
  q.filter fun q => f.gt q (f.ofMilli 0)

def preferStep (acceptEncoding : Str) (best : Option (Str × f.Carrier)) (name : Str) :
    Option (Str × f.Carrier) :=
  match codingQuality f acceptEncoding name with
  | none => best
  | some q => if best.all fun b => f.gt q b.2 then some (name, q) else best

def preferredCoding (acceptEncoding : Str) (candidates : List Str) : Option Str :=
  (candidates.foldl (preferStep f acceptEncoding) none).map Prod.fst

/-! ## The field -/

def isOws (s : Str) : Prop := ∀ c ∈ s, c = ' ' ∨ c = '\t'

def isTchar (c : Char) : Bool := c.isAlphanum || c ∈ "!#$%&'*+-.^_`|~".toList

structure Weight where
  before : Str
  after : Str
  upper : Bool
  q : QValue
  before_ows : isOws before
  after_ows : isOws after

def Weight.text (w : Weight) : Str :=
  w.before ++ ';' :: (w.after ++ (if w.upper then 'Q' else 'q') :: '=' :: w.q.text)

/-- **A member of the field**: the name of a coding, or `*`, and its weight. -/
structure Member where
  name : Str
  weight : Option Weight
  nonempty : name ≠ []
  token : ∀ c ∈ name, isTchar c = true

def Member.text (m : Member) : Str := m.name ++ m.weight.elim [] Weight.text

def Member.milli (m : Member) : Nat := m.weight.elim 1000 fun w => w.q.milli

/-- An element of the list, which may be empty. -/
structure Element where
  before : Str
  member : Option Member
  after : Str
  before_ows : isOws before
  after_ows : isOws after

def Element.text (e : Element) : Str := e.before ++ e.member.elim [] Member.text ++ e.after

/-- **The field**: names that differ, whatever their case, with commas between them. Several lines
of the field count as one. -/
structure AcceptEncoding where
  elements : List Element
  distinct : (elements.filterMap Element.member).Pairwise fun a b =>
    Text.eqIgnoreAsciiCase a.name b.name = false

namespace AcceptEncoding

variable (field : AcceptEncoding)

def text : Str := [','].intercalate (field.elements.map Element.text)

def members : List Member := field.elements.filterMap Element.member

end AcceptEncoding

/-! ## What the field says -/

def Member.names (m : Member) (coding : Str) : Bool :=
  m.name ≠ ['*'] && Text.eqIgnoreAsciiCase m.name coding

def listed (members : List Member) (coding : Str) : Option Nat :=
  (members.find? fun m => m.names coding).map Member.milli

def wildcard (members : List Member) : Option Nat :=
  (members.find? fun m => m.name = ['*']).map Member.milli

/-- **The quality of a coding**, in thousandths: what it is listed with, else what `*` is, else 1
for `identity` and 0 for others. What has the quality 0 is not acceptable. -/
def quality (members : List Member) (coding : Str) : Nat :=
  ((listed members coding).or (wildcard members)).getD
    (if Text.eqIgnoreAsciiCase coding "identity".toList then 1000 else 0)

/-- **The choice among candidates**: one of the highest quality, and the first of those, or none if
none is acceptable. -/
inductive Chosen (members : List Member) (candidates : List Str) : Option Str → Prop
  | one {c : Str} {earlier later : List Str} : candidates = earlier ++ c :: later →
      0 < quality members c → (∀ d ∈ earlier, quality members d < quality members c) →
      (∀ d ∈ later, quality members d ≤ quality members c) → Chosen members candidates (some c)
  | none : (∀ d ∈ candidates, quality members d = 0) → Chosen members candidates none

/-! ## Characters -/

variable {c : Char}

theorem isTchar_lt (h : isTchar c = true) : c.toNat < 128 := by
  rw [isTchar, Bool.or_eq_true, decide_eq_true_eq] at h
  rcases h with h | h
  · exact Text.isAlphanum_lt h
  · have hall := all_eq_true.mp
      (show ("!#$%&'*+-.^_`|~".toList.all fun c => decide (c.toNat < 128)) = true by decide) c h
    exact of_decide_eq_true hall

theorem isTchar_facts (h : isTchar c = true) : Text.isWhitespace c = false ∧ c ≠ ',' ∧ c ≠ ';' := by
  have hall : ∀ v : BitVec 7, isTchar (Char.ofNat v.toNat) = true →
      Text.isWhitespace (Char.ofNat v.toNat) = false ∧ Char.ofNat v.toNat ≠ ',' ∧
        Char.ofNat v.toNat ≠ ';' := by
    decide
  have hlt := isTchar_lt h
  have hchar : Char.ofNat (BitVec.ofNat 7 c.toNat).toNat = c := by
    rw [BitVec.toNat_ofNat, Nat.mod_eq_of_lt hlt, Char.ofNat_toNat]
  have hbits := hall (BitVec.ofNat 7 c.toNat)
  rw [hchar] at hbits
  exact hbits h

theorem isTchar_of_isDigit (h : c.isDigit = true) : isTchar c = true := by
  rw [isTchar, Char.isAlphanum, h, Bool.or_true, Bool.true_or]

theorem isWhitespace_of_isOws {s : Str} (h : isOws s) : ∀ c ∈ s, Text.isWhitespace c = true := by
  intro c hc
  rcases h c hc with rfl | rfl <;> decide

theorem not_mem_of_isOws {s : Str} (h : isOws s) (hc : Text.isWhitespace c = false) : c ∉ s := by
  intro hmem
  rw [isWhitespace_of_isOws h c hmem] at hc
  cases hc

theorem QValue.isTchar_text (q : QValue) : ∀ c ∈ q.text, isTchar c = true := by
  intro c hc
  rcases mem_cons.mp hc with rfl | hc
  · split_ifs <;> decide
  · cases hdecimals : q.decimals with
    | none =>
      rw [hdecimals] at hc
      cases hc
    | some ds =>
      rw [hdecimals] at hc
      rcases mem_cons.mp hc with rfl | hc
      · decide
      · exact isTchar_of_isDigit (all_eq_true.mp (q.digits ds hdecimals) c hc)

theorem foldl_thousandths_lt {ds : Str} (h : ds.all Char.isDigit = true) (n : Nat) :
    ds.foldl (fun n c => 10 * n + (c.toNat - 48)) n < (n + 1) * 10 ^ ds.length := by
  induction ds generalizing n with
  | nil => simp
  | cons c ds ih =>
    rw [all_cons, Bool.and_eq_true] at h
    have hdigit : c.toNat - 48 ≤ 9 := by
      have hc := h.1
      simp only [Char.isDigit, ge_iff_le, Bool.and_eq_true, decide_eq_true_eq,
        UInt32.le_iff_toNat_le] at hc
      have hval : c.val.toNat = c.toNat := rfl
      have h57 : c.val.toNat ≤ 57 := hc.2
      omega
    rw [foldl_cons, length_cons, Nat.pow_succ']
    calc _ < (10 * n + (c.toNat - 48) + 1) * 10 ^ ds.length := ih h.2 _
      _ ≤ (n + 1) * 10 * 10 ^ ds.length := Nat.mul_le_mul_right _ (by omega)
      _ = (n + 1) * (10 * 10 ^ ds.length) := Nat.mul_assoc _ _ _

theorem QValue.milli_le (q : QValue) : q.milli ≤ 1000 := by
  rw [milli]
  split_ifs
  · exact Nat.le_refl _
  · cases hdecimals : q.decimals with
    | none => exact Nat.zero_le _
    | some ds =>
      have hshort := q.short ds hdecimals
      have hlt := foldl_thousandths_lt (q.digits ds hdecimals) 0
      rw [Nat.zero_add, Nat.one_mul] at hlt
      calc thousandths ds ≤ 10 ^ ds.length * 10 ^ (3 - ds.length) :=
            Nat.mul_le_mul_right _ hlt.le
        _ = 10 ^ (ds.length + (3 - ds.length)) := (Nat.pow_add _ _ _).symm
        _ = 10 ^ 3 := by rw [Nat.add_sub_cancel' hshort]

theorem Member.milli_le (m : Member) : m.milli ≤ 1000 := by
  rw [milli]
  cases m.weight with
  | none => exact Nat.le_refl _
  | some w => exact w.q.milli_le

/-! ## Reading a member -/

theorem trim_between {a b : Str} (mid : Str) (ha : a ≠ []) (hb : b ≠ [])
    (haw : ∀ c ∈ a, Text.isWhitespace c = false) (hbw : ∀ c ∈ b, Text.isWhitespace c = false) :
    Text.trim (a ++ (mid ++ b)) = a ++ (mid ++ b) := by
  have hdrop : ∀ {x : Str} (y : Str), x ≠ [] → (∀ c ∈ x, Text.isWhitespace c = false) →
      (x ++ y).dropWhile Text.isWhitespace = x ++ y := by
    intro x y hx hxw
    obtain ⟨c, x, rfl⟩ := exists_cons_of_ne_nil hx
    rw [cons_append, dropWhile_cons_of_neg]
    rw [hxw c mem_cons_self]
    exact Bool.false_ne_true
  have hreverse : b.reverse ≠ [] := mt reverse_eq_nil_iff.mp hb
  have hreversew : ∀ c ∈ b.reverse, Text.isWhitespace c = false :=
    fun c hc => hbw c (mem_reverse.mp hc)
  rw [Text.trim, hdrop _ ha haw, ← append_assoc, reverse_append,
    hdrop _ hreverse hreversew, ← reverse_append, reverse_reverse]

theorem Member.isWhitespace_name (m : Member) : ∀ c ∈ m.name, Text.isWhitespace c = false :=
  fun c hc => (isTchar_facts (m.token c hc)).1

theorem QValue.isWhitespace_text (q : QValue) : ∀ c ∈ q.text, Text.isWhitespace c = false :=
  fun c hc => (isTchar_facts (q.isTchar_text c hc)).1

theorem QValue.text_ne_nil (q : QValue) : q.text ≠ [] := cons_ne_nil _ _

def Weight.param (w : Weight) : Str := (if w.upper then 'Q' else 'q') :: '=' :: w.q.text

theorem Weight.isWhitespace_param (w : Weight) : ∀ c ∈ w.param, Text.isWhitespace c = false := by
  intro c hc
  rcases mem_cons.mp hc with rfl | hc
  · split_ifs <;> decide
  · rcases mem_cons.mp hc with rfl | hc
    · decide
    · exact w.q.isWhitespace_text c hc

theorem Weight.weightOf_param (w : Weight) : weightOf w.param = some w.q.text := by
  rw [weightOf, Weight.param]
  cases w.upper with
  | true =>
    have hnot : ¬ "q=".toList <+: 'Q' :: '=' :: w.q.text := by
      intro h
      exact absurd (cons_prefix_cons.mp h).1 (by decide)
    have hprefix : "Q=".toList <+: 'Q' :: '=' :: w.q.text := ⟨w.q.text, rfl⟩
    rw [if_pos rfl, Text.stripPrefix, Text.stripPrefix, if_neg hnot, if_pos hprefix]
    rfl
  | false =>
    have hprefix : "q=".toList <+: 'q' :: '=' :: w.q.text := ⟨w.q.text, rfl⟩
    rw [if_neg Bool.false_ne_true, Text.stripPrefix, if_pos hprefix]
    rfl

theorem Member.trim_text (m : Member) : Text.trim m.text = m.text := by
  rw [text]
  cases m.weight with
  | none =>
    rw [Option.elim_none, append_nil]
    exact Text.trim_eq_self m.isWhitespace_name
  | some w =>
    have hsplit : w.text = (w.before ++ ';' :: (w.after ++
        [if w.upper then 'Q' else 'q', '='])) ++ w.q.text := by
      rw [Weight.text]
      simp
    rw [Option.elim_some, hsplit]
    exact trim_between _ m.nonempty w.q.text_ne_nil m.isWhitespace_name w.q.isWhitespace_text

theorem Element.trim_text (e : Element) : Text.trim e.text = e.member.elim [] Member.text := by
  rw [text, Text.trim_append (isWhitespace_of_isOws e.before_ows)
    (isWhitespace_of_isOws e.after_ows)]
  cases e.member with
  | none => rfl
  | some m => exact m.trim_text

theorem not_mem_weight {w : Weight} (hc : Text.isWhitespace c = false)
    (hsemi : c ≠ ';') (hparam : c ∉ w.param) : c ∉ w.text := by
  have htext : w.text = w.before ++ ';' :: (w.after ++ w.param) := rfl
  simp only [htext, mem_append, mem_cons, not_or]
  exact ⟨not_mem_of_isOws w.before_ows hc, hsemi, not_mem_of_isOws w.after_ows hc, hparam⟩

theorem Weight.not_mem_param (w : Weight) (hc : isTchar c = false) (heq : c ≠ '=') :
    c ∉ w.param := by
  intro h
  rcases mem_cons.mp h with h | h
  · rw [h] at hc
    split_ifs at hc <;> exact absurd hc (by decide)
  · rcases mem_cons.mp h with h | h
    · exact heq h
    · rw [w.q.isTchar_text c h] at hc
      cases hc

theorem Element.comma_not_mem (e : Element) : ',' ∉ e.text := by
  have hmember : ',' ∉ e.member.elim [] Member.text := by
    cases e.member with
    | none => exact not_mem_nil
    | some m =>
      rw [Option.elim_some, Member.text, mem_append, not_or]
      refine ⟨fun h => (isTchar_facts (m.token _ h)).2.1 rfl, ?_⟩
      cases m.weight with
      | none => exact not_mem_nil
      | some w =>
        have hparam : ',' ∉ w.param := w.not_mem_param (by decide) (by decide)
        exact not_mem_weight (by decide) (by decide) hparam
  rw [text, mem_append, mem_append, not_or, not_or]
  exact ⟨⟨not_mem_of_isOws e.before_ows (by decide), hmember⟩,
    not_mem_of_isOws e.after_ows (by decide)⟩

theorem Member.splitOn_text (m : Member) : m.text.splitOn ';' =
      m.weight.elim [m.name] fun w => [m.name ++ w.before, w.after ++ w.param] := by
  have hname : ';' ∉ m.name := fun h => (isTchar_facts (m.token _ h)).2.2 rfl
  rw [text]
  cases m.weight with
  | none =>
    rw [Option.elim_none, append_nil]
    exact splitOn_eq_singleton hname
  | some w =>
    have htext : m.name ++ w.text =
        [';'].intercalate [m.name ++ w.before, w.after ++ w.param] := by
      simp [Weight.text, Weight.param, intercalate]
    rw [Option.elim_some, Option.elim_some, htext]
    refine splitOn_intercalate _ ?_ (cons_ne_nil _ _)
    intro piece hpiece
    rcases mem_cons.mp hpiece with rfl | hpiece
    · rw [mem_append, not_or]
      exact ⟨hname, not_mem_of_isOws w.before_ows (by decide)⟩
    · obtain rfl := mem_singleton.mp hpiece
      rw [mem_append, not_or]
      exact ⟨not_mem_of_isOws w.after_ows (by decide), w.not_mem_param (by decide) (by decide)⟩

variable {f}

/-- **What the code makes of a member.** -/
theorem qualityStep_member (coding : Str) (found : Option f.Carrier × Option f.Carrier)
    {part : Str} {m : Member} (h : Text.trim part = m.text) : qualityStep f coding found part =
      if m.name = ['*'] then (found.1, some (f.ofMilli m.milli))
      else if Text.eqIgnoreAsciiCase m.name coding then (some (f.ofMilli m.milli), found.2)
      else found := by
  have hne : m.text ≠ [] := append_ne_nil_of_left_ne_nil m.nonempty _
  rw [qualityStep]
  dsimp only
  rw [h, if_neg hne, m.splitOn_text, Member.milli]
  cases m.weight with
  | none =>
    simp only [Option.elim_none, headD_cons, tail_cons, foldl_nil,
      Text.trim_eq_self m.isWhitespace_name]
  | some w =>
    have hname : Text.trim (m.name ++ w.before) = m.name := by
      have htrim := Text.trim_append (a := []) (s := m.name) (forall_mem_nil _)
        (isWhitespace_of_isOws w.before_ows)
      rwa [nil_append, Text.trim_eq_self m.isWhitespace_name] at htrim
    have hparam : Text.trim (w.after ++ w.param) = w.param := by
      have htrim := Text.trim_append (s := w.param) (isWhitespace_of_isOws w.after_ows)
        (forall_mem_nil _)
      rwa [append_nil, Text.trim_eq_self w.isWhitespace_param] at htrim
    simp only [Option.elim_some, headD_cons, tail_cons, foldl_cons, foldl_nil,
      hname, hparam, w.weightOf_param, Text.trim_eq_self w.q.isWhitespace_text, f.parse_text,
      Option.getD_some]

theorem qualityStep_empty (coding : Str) (found : Option f.Carrier × Option f.Carrier)
    {part : Str} (h : Text.trim part = []) : qualityStep f coding found part = found := by
  rw [qualityStep]
  dsimp only
  rw [if_pos h]

/-! ## Reading a field -/

/-- **What a fold over members comes to**, where no two of them have one name. -/
theorem foldl_qualityStep {coding : Str} {elements : List Element}
    (h : (elements.filterMap Element.member).Pairwise fun a b =>
      Text.eqIgnoreAsciiCase a.name b.name = false) (found : Option f.Carrier × Option f.Carrier) :
    (elements.map Element.text).foldl (qualityStep f coding) found =
      (((listed (elements.filterMap Element.member) coding).map f.ofMilli).or found.1,
        ((wildcard (elements.filterMap Element.member)).map f.ofMilli).or found.2) := by
  induction elements generalizing found with
  | nil => rfl
  | cons e elements ih =>
    rw [map_cons, foldl_cons]
    have htrim := e.trim_text
    cases hmember : e.member with
    | none =>
      rw [hmember, Option.elim_none] at htrim
      rw [filterMap_cons_none hmember] at h ⊢
      rw [qualityStep_empty coding found htrim, ih h]
    | some m =>
      rw [hmember, Option.elim_some] at htrim
      rw [filterMap_cons_some hmember] at h ⊢
      obtain ⟨hothers, hrest⟩ := pairwise_cons.mp h
      rw [qualityStep_member coding found htrim, ih hrest, listed, wildcard, listed, wildcard,
        find?_cons, find?_cons]
      by_cases hstar : m.name = ['*']
      · -- a second `*` has the same name
        have hnone :
            (elements.filterMap Element.member).find? (fun m => m.name = ['*']) = none := by
          refine find?_eq_none.mpr fun m' hm' => ?_
          have hne := hothers m' hm'
          rw [decide_eq_true_eq]
          intro heq
          rw [hstar, heq] at hne
          exact absurd hne (by decide)
        have hnot : m.names coding = false := by
          rw [Member.names, decide_eq_false (not_not.mpr hstar), Bool.false_and]
        rw [if_pos hstar, hnot, decide_eq_true hstar, hnone]
        rfl
      · rw [if_neg hstar, decide_eq_false hstar]
        by_cases hname : Text.eqIgnoreAsciiCase m.name coding = true
        · have hnames : m.names coding = true := by
            rw [Member.names, decide_eq_true hstar, hname]
            rfl
          have hnone : (elements.filterMap Element.member).find? (fun m => m.names coding) =
              none := by
            refine find?_eq_none.mpr fun m' hm' => ?_
            have hne := hothers m' hm'
            rw [Member.names, Bool.and_eq_true, not_and]
            intro _ hname'
            rw [Text.eqIgnoreAsciiCase, beq_iff_eq] at hname hname'
            rw [Text.eqIgnoreAsciiCase, hname, hname', beq_self_eq_true] at hne
            cases hne
          rw [if_pos hname, hnames, hnone]
          rfl
        · have hnames : m.names coding = false := by
            rw [Member.names, Bool.eq_false_iff.mpr hname, Bool.and_false]
          rw [if_neg hname, hnames]

theorem AcceptEncoding.splitOn_text (field : AcceptEncoding) (coding : Str)
    (found : Option f.Carrier × Option f.Carrier) :
    (field.text.splitOn ',').foldl (qualityStep f coding) found =
      (field.elements.map Element.text).foldl (qualityStep f coding) found := by
  rw [text]
  by_cases hempty : field.elements = []
  · have hnil : Text.trim [] = [] := rfl
    rw [hempty]
    exact qualityStep_empty coding found hnil
  · rw [splitOn_intercalate]
    · intro piece hpiece
      obtain ⟨e, -, rfl⟩ := mem_map.mp hpiece
      exact e.comma_not_mem
    · exact mt map_eq_nil_iff.mp hempty

theorem quality_le (members : List Member) (coding : Str) : quality members coding ≤ 1000 := by
  have hfind : ∀ (p : Member → Bool) (q : Nat), (members.find? p).map Member.milli = some q →
      q ≤ 1000 := by
    intro p q h
    obtain ⟨m, -, rfl⟩ := Option.map_eq_some_iff.mp h
    exact m.milli_le
  rw [quality]
  cases hlisted : listed members coding with
  | some q => exact hfind _ q hlisted
  | none =>
    cases hwildcard : wildcard members with
    | some q => exact hfind _ q hwildcard
    | none =>
      rw [Option.or_none, Option.getD_none]
      split_ifs
      · exact Nat.le_refl _
      · exact Nat.zero_le _

/-- **The code gives a coding the quality that the field gives it.** -/
theorem codingQuality_text (field : AcceptEncoding) (coding : Str) :
    codingQuality f field.text coding =
      if 0 < quality field.members coding then some (f.ofMilli (quality field.members coding))
      else none := by
  have hle := quality_le field.members coding
  have hgt := f.gt_iff (quality field.members coding) 0 hle (Nat.zero_le _)
  have hfold := @foldl_qualityStep f coding field.elements field.distinct (none, none)
  rw [← AcceptEncoding.members] at hfold
  rw [codingQuality, field.splitOn_text, hfold]
  dsimp only
  rw [Option.or_none, Option.or_none]
  have hlisted : (((listed field.members coding).map f.ofMilli).or
      (((wildcard field.members).map f.ofMilli).or
        (if Text.eqIgnoreAsciiCase coding "identity".toList then some (f.ofMilli 1000)
          else none))).filter (fun q => f.gt q (f.ofMilli 0)) =
      (some (f.ofMilli (quality field.members coding))).filter
        (fun q => f.gt q (f.ofMilli 0)) := by
    rw [quality]
    cases listed field.members coding with
    | some q => rfl
    | none =>
      cases wildcard field.members with
      | some q => rfl
      | none =>
        have hzero : f.gt (f.ofMilli 0) (f.ofMilli 0) = false := by
          have := f.gt_iff 0 0 (Nat.zero_le _) (Nat.zero_le _)
          exact Bool.eq_false_iff.mpr (mt this.mp (Nat.lt_irrefl 0))
        simp only [Option.map_none, Option.none_or, Option.getD_none]
        split_ifs
        · rfl
        · rw [Option.filter_some, if_neg (by rw [hzero]; exact Bool.false_ne_true)]
          rfl
  rw [hlisted, Option.filter_some]
  by_cases hpos : 0 < quality field.members coding
  · rw [if_pos (hgt.mpr hpos), if_pos hpos]
  · rw [if_neg (mt hgt.mp hpos), if_neg hpos]

/-! ## The choice -/

variable {members : List Member} {candidates : List Str}

theorem Chosen.step {choice : Option Str} (h : Chosen members candidates choice) (name : Str) :
    Chosen members (candidates ++ [name])
      (if 0 < quality members name ∧ ∀ c ∈ choice, quality members c < quality members name then
        some name else choice) := by
  cases h with
  | none hnone =>
    by_cases hpos : 0 < quality members name
    · rw [if_pos ⟨hpos, fun c hc => by cases hc⟩]
      refine .one rfl hpos (fun d hd => ?_) (forall_mem_nil _)
      rw [hnone d hd]
      exact hpos
    · rw [if_neg fun hboth => hpos hboth.1]
      refine .none fun d hd => ?_
      rcases mem_append.mp hd with hd | hd
      · exact hnone d hd
      · obtain rfl := mem_singleton.mp hd
        omega
  | @one c earlier later hsplit hpos hearlier hlater =>
    by_cases hbetter : quality members c < quality members name
    · rw [if_pos ⟨by omega, fun d hd => by
        cases hd
        exact hbetter⟩]
      refine .one rfl (by omega) (fun d hd => ?_) (forall_mem_nil _)
      rw [hsplit] at hd
      rcases mem_append.mp hd with hd | hd
      · exact (hearlier d hd).trans hbetter
      · rcases mem_cons.mp hd with rfl | hd
        · exact hbetter
        · exact (hlater d hd).trans_lt hbetter
    · rw [if_neg fun hboth => hbetter (hboth.2 c rfl)]
      have hsplit' : candidates ++ [name] = earlier ++ c :: (later ++ [name]) := by
        rw [hsplit, append_assoc, cons_append]
      refine .one hsplit' hpos hearlier fun d hd => ?_
      rcases mem_append.mp hd with hd | hd
      · exact hlater d hd
      · obtain rfl := mem_singleton.mp hd
        exact Nat.le_of_not_lt hbetter

def ranked (f : Floats) (members : List Member) (choice : Option Str) : Option (Str × f.Carrier) :=
  choice.map fun c => (c, f.ofMilli (quality members c))

theorem preferStep_ranked (field : AcceptEncoding) (choice : Option Str) (name : Str) :
    preferStep f field.text (ranked f field.members choice) name = ranked f field.members
        (if 0 < quality field.members name ∧
            ∀ c ∈ choice, quality field.members c < quality field.members name then
          some name else choice) := by
  rw [preferStep, codingQuality_text]
  by_cases hpos : 0 < quality field.members name
  · have hbetter : ((ranked f field.members choice).all fun b =>
        f.gt (f.ofMilli (quality field.members name)) b.2) = true ↔
          ∀ c ∈ choice, quality field.members c < quality field.members name := by
      cases choice with
      | none => exact ⟨fun _ c hc => (by cases hc), fun _ => rfl⟩
      | some c =>
        have hgt := f.gt_iff _ _ (quality_le field.members name) (quality_le field.members c)
        exact ⟨fun h d hd => Option.some.inj hd ▸ hgt.mp h, fun h => hgt.mpr (h c rfl)⟩
    rw [if_pos hpos]
    dsimp only
    by_cases hall : ∀ c ∈ choice, quality field.members c < quality field.members name
    · rw [if_pos (hbetter.mpr hall), if_pos ⟨hpos, hall⟩]
      rfl
    · rw [if_neg (mt hbetter.mp hall), if_neg fun hboth => hall hboth.2]
  · rw [if_neg hpos, if_neg fun hboth => hpos hboth.1]

/-- **The code chooses as it should.** -/
theorem chosen_preferredCoding (field : AcceptEncoding) (candidates : List Str) :
    Chosen field.members candidates (preferredCoding f field.text candidates) := by
  have hfold : ∃ choice, candidates.foldl (preferStep f field.text) none =
      ranked f field.members choice ∧ Chosen field.members candidates choice := by
    induction candidates using reverseRecOn with
    | nil => exact ⟨none, rfl, .none (forall_mem_nil _)⟩
    | append_singleton candidates name ih =>
      obtain ⟨choice, hranked, hchosen⟩ := ih
      refine ⟨_, ?_, hchosen.step name⟩
      rw [foldl_append, hranked]
      exact preferStep_ranked field choice name
  obtain ⟨choice, hranked, hchosen⟩ := hfold
  have hchoice : preferredCoding f field.text candidates = choice := by
    rw [preferredCoding, hranked, ranked, Option.map_map]
    exact Option.map_id'
  rw [hchoice]
  exact hchosen

theorem Chosen.unique {choice choice' : Option Str}
    (h : Chosen members candidates choice) (h' : Chosen members candidates choice') :
    choice = choice' := by
  cases h with
  | none hnone =>
    cases h' with
    | none _ => rfl
    | @one c earlier later hsplit hpos _ _ =>
      rw [hnone c (hsplit ▸ mem_append_right _ mem_cons_self)] at hpos
      exact absurd hpos (Nat.lt_irrefl 0)
  | @one c earlier later hsplit hpos hearlier hlater =>
    cases h' with
    | none hnone =>
      rw [hnone c (hsplit ▸ mem_append_right _ mem_cons_self)] at hpos
      exact absurd hpos (Nat.lt_irrefl 0)
    | @one c' earlier' later' hsplit' _ hearlier' hlater' =>
      rw [hsplit] at hsplit'
      rcases append_eq_append_iff.mp hsplit' with ⟨mid, hmid, hrest⟩ | ⟨mid, hmid, hrest⟩
      · cases mid with
        | nil => exact congrArg some (List.cons.inj hrest).1
        | cons d mid =>
          -- the first stands before the second, and is worse than it
          obtain ⟨rfl, hlaterEq⟩ := List.cons.inj hrest
          have hworse := hearlier' c (hmid ▸ mem_append_right _ mem_cons_self)
          have hbetter := hlater c' (hlaterEq ▸ mem_append_right _ mem_cons_self)
          omega
      · cases mid with
        | nil => exact congrArg some (List.cons.inj hrest).1.symm
        | cons d mid =>
          obtain ⟨rfl, hlaterEq⟩ := List.cons.inj hrest
          have hworse := hearlier c' (hmid ▸ mem_append_right _ mem_cons_self)
          have hbetter := hlater' c (hlaterEq ▸ mem_append_right _ mem_cons_self)
          omega

/-! ## The order of the members -/

theorem AcceptEncoding.eq_of_name (field : AcceptEncoding) {m m' : Member}
    (hm : m ∈ field.members) (hm' : m' ∈ field.members)
    (h : Text.eqIgnoreAsciiCase m.name m'.name = true) : m = m' := by
  by_contra hne
  have hsymm : Std.Symm fun a b : Member => Text.eqIgnoreAsciiCase a.name b.name = false := by
    constructor
    intro a b hab
    rwa [Text.eqIgnoreAsciiCase, Bool.beq_comm, ← Text.eqIgnoreAsciiCase]
  have hdiffer := field.distinct.forall hm hm' hne
  rw [h] at hdiffer
  cases hdiffer

theorem AcceptEncoding.quality_perm {field field' : AcceptEncoding}
    (h : field.members.Perm field'.members) (coding : Str) :
    quality field.members coding = quality field'.members coding := by
  have hlisted : listed field.members coding = listed field'.members coding := by
    rw [listed, listed, find?_eq_find?_of_perm h]
    rintro m ⟨hm, hnames⟩ m' ⟨hm', hnames'⟩
    rw [Member.names, Bool.and_eq_true, Text.eqIgnoreAsciiCase, beq_iff_eq] at hnames hnames'
    refine field.eq_of_name hm hm' ?_
    rw [Text.eqIgnoreAsciiCase, hnames.2, hnames'.2, beq_self_eq_true]
  have hwildcard : wildcard field.members = wildcard field'.members := by
    rw [wildcard, wildcard, find?_eq_find?_of_perm h]
    rintro m ⟨hm, hstar⟩ m' ⟨hm', hstar'⟩
    rw [decide_eq_true_eq] at hstar hstar'
    refine field.eq_of_name hm hm' ?_
    rw [Text.eqIgnoreAsciiCase, hstar, hstar', beq_self_eq_true]
  rw [quality, quality, hlisted, hwildcard]

theorem preferredCoding_perm {field field' : AcceptEncoding}
    (h : field.members.Perm field'.members) (candidates : List Str) :
    preferredCoding f field.text candidates = preferredCoding f field'.text candidates := by
  have hquality := AcceptEncoding.quality_perm h
  refine Chosen.unique (chosen_preferredCoding field candidates) ?_
  have hchosen := chosen_preferredCoding (f := f) field' candidates
  generalize preferredCoding f field'.text candidates = choice at hchosen ⊢
  cases hchosen with
  | none hnone => exact .none fun d hd => (hquality d).trans (hnone d hd)
  | one hsplit hpos hearlier hlater =>
    refine .one hsplit ?_ (fun d hd => ?_) fun d hd => ?_
    · rw [hquality]
      exact hpos
    · rw [hquality, hquality]
      exact hearlier d hd
    · rw [hquality, hquality]
      exact hlater d hd

/-! ## The pipeline -/

open App

def linesOf (raw : RawRequest) : List Str :=
  (raw.headers.filter fun h => Text.eqIgnoreAsciiCase h.1 "accept-encoding".toList).map Prod.snd

/-- **A request with one line of the field, or none.** -/
structure Request where
  raw : RawRequest
  field : AcceptEncoding
  lines : linesOf raw = [] ∧ field.elements = [] ∨ linesOf raw = [field.text]

def permitted (level : CompressionLevel) : List Str :=
  (if 0 < level.brotli then ["br".toList] else []) ++
    (if 0 < level.gzip then ["gzip".toList] else [])

def encode (lib : Transforms) (level : CompressionLevel) (coding : Str) (bytes : Bytes) :
    Option Bytes :=
  if coding = "br".toList then lib.brotliCompress bytes level.brotli
  else lib.gzipCompress bytes level.gzip

/-- **What is done to a response**: the coding that is chosen among the permitted ones is applied
to its body, and no other. -/
inductive Applies (lib : Transforms) (levels : SortedMap Str CompressionLevel)
    (members : List Member) (resp : AppResponse) : AppResponse → Prop
  | coding {bytes : Bytes} {level : CompressionLevel} {coding : Str} :
      resp.body = .bytes bytes → bytes ≠ [] → resp.verbatim = false →
      levels.get? (mimeOf resp) = some level → Chosen members (permitted level) (some coding) →
      Applies lib levels members resp (compressed resp coding (encode lib level coding bytes))
  /-- none of them is acceptable -/
  | none {level : CompressionLevel} : levels.get? (mimeOf resp) = some level →
      Chosen members (permitted level) none → Applies lib levels members resp resp
  /-- it is not for the pipeline to code -/
  | verbatim : resp.verbatim = true → Applies lib levels members resp resp
  | bodiless : (∀ bytes, resp.body = .bytes bytes → bytes = []) →
      Applies lib levels members resp resp
  | unconfigured : levels.get? (mimeOf resp) = Option.none → Applies lib levels members resp resp

def negotiating (f : Floats) (lib : Transforms) : Transforms :=
  { lib with preferredCoding := preferredCoding f }

/-- The response of `handle_request` before it is compressed. -/
def prepared (os : Platform) (svc : App.Service) (lib : Transforms) (shared : Shared)
    (inner : Inner) (now : Surroundings) (raw : RawRequest) : Except Error AppResponse :=
  match shared.route raw with
  | none => .ok (minify lib shared.config.minification
      (cookieHeaders svc now.moment raw none (.ofStatus 404)))
  | some (route, params) =>
    let moment := { now.moment with paramsCache := fun path => inner.paramsCache.get? path }
    match buildDict (inner.framework os svc shared) moment raw route.toCompiledRoute params with
    | .error e => .error e
    | .ok dict =>
      let token := if svc.csrf then (dict.get "csrf_token".toList).bind Value.asStr else none
      let resp := dispatch now ⟨raw, dict, shared.siteDir, route, shared.config⟩
      let resp := renderResponse inner.renderer dict resp
      .ok (minify lib shared.config.minification
        (cookieHeaders svc now.moment raw token (routeHeaders lib route resp)))

theorem handleRequest_eq (os : Platform) (svc : App.Service) (lib : Transforms) (shared : Shared)
    (inner : Inner) (now : Surroundings) (raw : RawRequest) :
    handleRequest os svc lib shared inner now raw =
      match prepared os svc lib shared inner now raw with
      | .error e => (errorToResponse e).toResponse
      | .ok resp => (compress lib shared.config.compression raw resp).toResponse := by
  rw [handleRequest, prepared]
  cases shared.route raw with
  | none => rfl
  | some found =>
    obtain ⟨route, params⟩ := found
    dsimp only
    rw [handleMatched]
    dsimp only
    cases buildDict (inner.framework os svc shared)
        { now.moment with paramsCache := fun path => inner.paramsCache.get? path } raw
        route.toCompiledRoute params with
    | error e | ok dict => rfl

theorem Request.header_eq (req : Request) :
    (req.raw.header "accept-encoding".toList).getD [] = req.field.text := by
  have hhead : req.raw.header "accept-encoding".toList = (linesOf req.raw).head? := by
    rw [linesOf, head?_map, head?_filter]
    rfl
  rw [hhead]
  rcases req.lines with ⟨hlines, helements⟩ | hlines
  · rw [hlines, AcceptEncoding.text, helements]
    rfl
  · rw [hlines]
    rfl

theorem Chosen.mem {coding : Str}
    (h : Chosen members candidates (some coding)) : coding ∈ candidates := by
  cases h with
  | one hsplit _ _ _ =>
    rw [hsplit]
    exact mem_append_right _ mem_cons_self

theorem mem_permitted {level : CompressionLevel} {coding : Str} (h : coding ∈ permitted level) :
    coding = "br".toList ∨ coding = "gzip".toList := by
  rw [permitted] at h
  rcases mem_append.mp h with h | h
  · split_ifs at h
    · exact .inl (mem_singleton.mp h)
    · cases h
  · split_ifs at h
    · exact .inr (mem_singleton.mp h)
    · cases h

/-- **The pipeline applies the choice.** -/
theorem applies_compress (f : Floats) (lib : Transforms)
    (levels : SortedMap Str CompressionLevel) (req : Request) (resp : AppResponse) :
    Applies lib levels req.field.members resp
      (compress (negotiating f lib) levels req.raw resp) := by
  have hchosen : ∀ level, Chosen req.field.members (permitted level)
      ((negotiating f lib).preferredCoding
        ((req.raw.header "accept-encoding".toList).getD []) (permitted level)) := by
    intro level
    rw [req.header_eq]
    exact chosen_preferredCoding req.field (permitted level)
  cases hbody : resp.body with
  | stream len chunks =>
    have hcompress : compress (negotiating f lib) levels req.raw resp = resp := by
      rw [compress, hbody]
    rw [hcompress]
    exact .bodiless fun bytes hbytes => by rw [hbody] at hbytes; cases hbytes
  | bytes bytes =>
    cases hlevel : levels.get? (mimeOf resp) with
    | none =>
      have hcompress : compress (negotiating f lib) levels req.raw resp = resp := by
        rw [compress, hbody, hlevel]
      rw [hcompress]
      exact .unconfigured hlevel
    | some level =>
      by_cases hskip : resp.verbatim = true ∨ bytes = []
      · have hcompress : compress (negotiating f lib) levels req.raw resp = resp := by
          rw [compress, hbody, hlevel]
          exact if_pos hskip
        rw [hcompress]
        rcases hskip with hverbatim | hempty
        · exact .verbatim hverbatim
        · exact .bodiless fun bytes' hbytes' => by
            rw [hbody] at hbytes'
            exact (Body.bytes.inj hbytes').symm.trans hempty
      · rw [not_or, Bool.not_eq_true] at hskip
        have hcompress : compress (negotiating f lib) levels req.raw resp =
            ((negotiating f lib).preferredCoding
              ((req.raw.header "accept-encoding".toList).getD []) (permitted level)).elim resp
              fun coding => compressed resp coding (encode lib level coding bytes) := by
          have hmem := hchosen level
          have hskip' : ¬ (resp.verbatim = true ∨ bytes = []) := by
            rw [hskip.1]
            simpa using hskip.2
          rw [compress, hbody, hlevel]
          dsimp only
          rw [if_neg hskip', ← permitted]
          cases hcoding : (negotiating f lib).preferredCoding
              ((req.raw.header "accept-encoding".toList).getD []) (permitted level) with
          | none =>
            rw [if_neg (by decide), if_neg (by decide)]
            rfl
          | some coding =>
            rw [hcoding] at hmem
            rw [Option.elim_some, encode]
            rcases mem_permitted hmem.mem with rfl | rfl
            · rw [if_pos rfl, if_pos rfl]
              rfl
            · rw [if_neg (by decide), if_pos rfl, if_neg (by decide)]
              rfl
        rw [hcompress]
        have hlast := hchosen level
        cases hcoding : (negotiating f lib).preferredCoding
            ((req.raw.header "accept-encoding".toList).getD []) (permitted level) with
        | none =>
          rw [hcoding] at hlast
          exact .none hlevel hlast
        | some coding =>
          rw [hcoding] at hlast
          exact .coding hbody hskip.2 hskip.1 hlevel hlast

/-- **Content codings are negotiated.** -/
structure Negotiation (f : Floats) : Prop where
  chosen : ∀ (field : AcceptEncoding) (candidates : List Str),
    Chosen field.members candidates (preferredCoding f field.text candidates)
  ordered : ∀ (field field' : AcceptEncoding) (candidates : List Str),
    field.members.Perm field'.members →
      preferredCoding f field.text candidates = preferredCoding f field'.text candidates
  applied : ∀ (os : Platform) (svc : App.Service) (lib : Transforms) (shared : Shared)
    (inner : Inner) (now : Surroundings) (req : Request),
    match prepared os svc (negotiating f lib) shared inner now req.raw with
    | .error e => handleRequest os svc (negotiating f lib) shared inner now req.raw =
        (errorToResponse e).toResponse
    | .ok resp => ∃ sent, Applies lib shared.config.compression req.field.members resp sent ∧
        handleRequest os svc (negotiating f lib) shared inner now req.raw = sent.toResponse

/-- **The choice is that of the field, and it is what the response is coded with.** -/
theorem negotiation (f : Floats) : Negotiation f where
  chosen := chosen_preferredCoding
  ordered _ _ candidates h := preferredCoding_perm h candidates
  applied os svc lib shared inner now req := by
    have heq := handleRequest_eq os svc (negotiating f lib) shared inner now req.raw
    cases hprepared : prepared os svc (negotiating f lib) shared inner now req.raw with
    | error e =>
      rw [hprepared] at heq
      exact heq
    | ok resp =>
      rw [hprepared] at heq
      exact ⟨_, applies_compress f lib shared.config.compression req resp, heq⟩

/-! ## Identity -/

def parseMilli : Str → Option Nat
  | ['0'] => some 0
  | '0' :: '.' :: ds => some (thousandths ds)
  | '1' :: _ => some 1000
  | _ => none

theorem parseMilli_text (q : QValue) : parseMilli q.text = some q.milli := by
  rw [QValue.text, QValue.milli]
  cases q.one with
  | true => rfl
  | false =>
    cases q.decimals with
    | none | some ds => rfl

theorem milli_gt (a b : Nat) (_ : a ≤ 1000) (_ : b ≤ 1000) : decide (b < a) = true ↔ b < a :=
  decide_eq_true_iff

def milliFloats : Floats where
  Carrier := Nat
  parse := parseMilli
  gt a b := decide (b < a)
  ofMilli n := n
  parse_text := parseMilli_text
  gt_iff := milli_gt

theorem half_short : ∀ ds ∈ some "5".toList, ds.length ≤ 3 := by decide

theorem half_digits : ∀ ds ∈ some "5".toList, ds.all Char.isDigit = true := by decide

theorem half_zeros : false = true → ∀ ds ∈ some "5".toList, ds.all (· = '0') = true := by decide

theorem no_decimals {p : Str → Prop} : ∀ ds ∈ (none : Option Str), p ds := by
  intro ds h
  cases h

def half : QValue := ⟨false, some "5".toList, half_short, half_digits, half_zeros⟩

def whole : QValue := ⟨true, none, no_decimals, no_decimals, fun _ => no_decimals⟩

theorem nil_ows : isOws [] := forall_mem_nil _

theorem blank_ows : isOws [' '] := by
  intro c hc
  exact .inl (mem_singleton.mp hc)

theorem gzip_token : ∀ c ∈ "gzip".toList, isTchar c = true :=
  all_eq_true.mp rfl

theorem identity_token : ∀ c ∈ "identity".toList, isTchar c = true :=
  all_eq_true.mp rfl

def weighing (q : QValue) : Weight := ⟨[], [], false, q, nil_ows, nil_ows⟩

def gzipMember : Member :=
  ⟨"gzip".toList, some (weighing half), List.cons_ne_nil _ _, gzip_token⟩

def identityMember : Member :=
  ⟨"identity".toList, some (weighing whole), List.cons_ne_nil _ _, identity_token⟩

def identityElements : List Element :=
  [⟨[], some gzipMember, [], nil_ows, nil_ows⟩,
    ⟨[' '], some identityMember, [], blank_ows, nil_ows⟩]

theorem identity_distinct : (identityElements.filterMap Element.member).Pairwise fun a b =>
    Text.eqIgnoreAsciiCase a.name b.name = false := by
  refine pairwise_cons.mpr ⟨fun m hm => ?_, pairwise_singleton _ _⟩
  obtain rfl := mem_singleton.mp hm
  decide

/-- A client that can do with `gzip`, and would have the body as it is. -/
def identityField : AcceptEncoding := ⟨identityElements, identity_distinct⟩

/-- **`identity` is no candidate**: the client lists it with the weight 1, and is sent the coding it
lists with a half. -/
theorem identity_outranked :
    identityField.text = "gzip;q=0.5, identity;q=1".toList ∧
    preferredCoding milliFloats identityField.text ["br".toList, "gzip".toList] =
      some "gzip".toList ∧ quality identityField.members "gzip".toList = 500 ∧
    listed identityField.members "identity".toList = some 1000 := by
  decide

/-! ## A page -/

def hello : Bytes := Utf8.encode "hello".toList

/-- `hello` after `gzip`. -/
def helloGzip : Bytes :=
  [0x1f, 0x8b, 8, 0, 0, 0, 0, 0, 0, 0xff, 0xcb, 0x48, 0xcd, 0xc9, 0xc9, 7, 0,
    0x86, 0xa6, 0x10, 0x36, 5, 0, 0, 0]

def helloTransforms : Transforms :=
  { noTransforms with
    gzipCompress := fun bytes _ => if bytes = hello then some helloGzip else none }

def helloRoute : AppRoute where
  toCompiledRoute := .compile "/".toList .any [] .empty .empty
  template := some "hello.html".toList
  status := 200
  cache := "no-cache".toList
  headers := []
  lastModified := none
  handler := none

def helloShared : Shared := ⟨[helloRoute], App.plainService.siteDir, plainConfig⟩

def helloInner : Inner := ⟨App.plainService.siteDir, .empty, [], fun _ _ => .ok "hello".toList⟩

def helloRaw : RawRequest :=
  { pageRequest with headers := [("Host".toList, "m6".toList),
    ("accept-encoding".toList, "gzip;q=0.5, identity;q=1".toList)] }

theorem helloRaw_lines : linesOf helloRaw = [identityField.text] := by decide

def helloRequest : Request := ⟨helloRaw, identityField, .inr helloRaw_lines⟩

/-- The page of a template, for the client above. -/
theorem negotiation_hello : ∃ resp sent,
    prepared (fourCores []) App.plainService (negotiating milliFloats helloTransforms) helloShared
      helloInner pageSurroundings helloRaw = .ok resp ∧ resp.body = .bytes hello ∧
    Applies helloTransforms plainConfig.compression identityField.members resp sent ∧
    handleRequest (fourCores []) App.plainService
      (negotiating milliFloats helloTransforms) helloShared
      helloInner pageSurroundings helloRaw = sent.toResponse ∧ sent.body = .bytes helloGzip := by
  have hprepared : ∃ resp, prepared (fourCores []) App.plainService
      (negotiating milliFloats helloTransforms) helloShared helloInner pageSurroundings helloRaw =
        .ok resp ∧ resp.body = .bytes hello :=
    ⟨_, rfl, rfl⟩
  obtain ⟨resp, hprepared, hresp⟩ := hprepared
  have happlied := (negotiation milliFloats).applied (fourCores []) App.plainService helloTransforms
    helloShared helloInner pageSurroundings helloRequest
  rw [show helloRequest.raw = helloRaw from rfl, hprepared] at happlied
  obtain ⟨sent, happlies, hsent⟩ := happlied
  refine ⟨resp, sent, hprepared, hresp, happlies, hsent, ?_⟩
  have hbody : (handleRequest (fourCores []) App.plainService
    (negotiating milliFloats helloTransforms)
      helloShared helloInner pageSurroundings helloRaw).body = .bytes helloGzip :=
    rfl
  rw [← hbody]
  exact congrArg (fun r : Response => r.body) hsent.symm

end Negotiate

end M6
