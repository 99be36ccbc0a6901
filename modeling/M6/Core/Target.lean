import M6.Core.H1

/-!
# The target of a request

`strip_absolute_form` of `h1.rs` drops the scheme and the authority of a target in absolute form, so
that a request is routed as if it had been written in origin form. It looks for the first slash
behind the scheme, before the query is split off.

`treated_iff` says for which targets that is right.
-/

namespace M6

open List H1 Text

/-! ## Schemes -/

def isAbsoluteForm (target : Str) : Bool :=
  match cutScheme target with
  | none => false
  | some (scheme, _) => scheme.head?.any Char.isAlpha &&
      scheme.all fun c => c.isAlphanum || c == '+' || c == '-' || c == '.'

theorem stripAbsoluteForm_of_no_scheme {target : Str} (h : isAbsoluteForm target = false) :
    stripAbsoluteForm target = target := by
  rw [isAbsoluteForm] at h
  rw [stripAbsoluteForm]
  cases hcut : cutScheme target with
  | none => rfl
  | some p =>
    rw [hcut] at h
    dsimp only at h ⊢
    rw [if_neg (Bool.eq_false_iff.mp h)]

theorem head?_stripAbsoluteForm {target : Str} (h : isAbsoluteForm target = true) :
    (stripAbsoluteForm target).head? = some '/' := by
  rw [isAbsoluteForm] at h
  rw [stripAbsoluteForm]
  cases hcut : cutScheme target with
  | none =>
    rw [hcut] at h
    cases h
  | some p =>
    rw [hcut] at h
    dsimp only at h ⊢
    rw [if_pos h]
    cases cutAt '/' p.2 with
    | mk _ path => cases path <;> rfl

theorem cutScheme_eq {s scheme after : Str} (h : cutScheme s = some (scheme, after)) :
    s = scheme ++ "://".toList ++ after := by
  induction s generalizing scheme with
  | nil => cases h
  | cons c s ih =>
    rw [cutScheme] at h
    cases hstrip : stripPrefix "://".toList (c :: s) with
    | some rest =>
      rw [hstrip] at h
      cases h
      rw [stripPrefix] at hstrip
      split_ifs at hstrip with hpre
      obtain ⟨t, ht⟩ := hpre
      rw [← ht, drop_left] at hstrip
      rw [← ht, ← Option.some.inj hstrip]
      rfl
    | none =>
      rw [hstrip] at h
      obtain ⟨p, hp, heq⟩ := Option.map_eq_some_iff.mp h
      cases heq
      rw [ih hp]
      rfl

theorem head?_of_scheme {s : Str} (h : isAbsoluteForm s = true) :
    ∃ c, s.head? = some c ∧ c.isAlpha = true := by
  rw [isAbsoluteForm] at h
  cases hcut : cutScheme s with
  | none =>
    rw [hcut] at h
    cases h
  | some p =>
    obtain ⟨scheme, after⟩ := p
    rw [hcut] at h
    dsimp only at h
    rw [Bool.and_eq_true] at h
    cases scheme with
    | nil => cases h.1
    | cons c scheme =>
      rw [cutScheme_eq hcut]
      exact ⟨c, rfl, h.1⟩

theorem stripPrefix_append {p s rest : Str} (h : stripPrefix p s = some rest) (t : Str) :
    stripPrefix p (s ++ t) = some (rest ++ t) := by
  rw [stripPrefix] at h
  split_ifs at h with hpre
  rw [stripPrefix, if_pos (hpre.trans (prefix_append _ _)),
    drop_append_of_le_length hpre.length_le, Option.some.inj h]

theorem stripPrefix_of_le {p s : Str} (h : stripPrefix p s = none) (t : Str)
    (hle : p.length ≤ s.length) : stripPrefix p (s ++ t) = none := by
  rw [stripPrefix] at h
  split_ifs at h with hpre
  rw [stripPrefix, if_neg]
  exact fun hlater => hpre (prefix_of_prefix_length_le hlater (prefix_append _ _) hle)

theorem cutScheme_append {s scheme after : Str} (h : cutScheme s = some (scheme, after)) (t : Str) :
    cutScheme (s ++ t) = some (scheme, after ++ t) := by
  induction s generalizing scheme with
  | nil => cases h
  | cons c s ih =>
    have hlen : "://".toList.length ≤ (c :: s).length := by
      rw [cutScheme_eq h]
      simp only [length_append]
      omega
    rw [cutScheme] at h
    rw [cons_append, cutScheme, ← cons_append]
    cases hstrip : stripPrefix "://".toList (c :: s) with
    | some rest =>
      rw [hstrip] at h
      cases h
      rw [stripPrefix_append hstrip]
    | none =>
      rw [hstrip] at h
      obtain ⟨p, hp, heq⟩ := Option.map_eq_some_iff.mp h
      cases heq
      rw [stripPrefix_of_le hstrip t hlen, ih hp]
      rfl

theorem cutScheme_question {s : Str} (h : cutScheme s = none) (t : Str) {p : Str × Str}
    (hp : cutScheme (s ++ '?' :: t) = some p) : '?' ∈ p.1 := by
  induction s generalizing p with
  | nil =>
    have hnone : stripPrefix "://".toList ('?' :: t) = none := by
      rw [stripPrefix, if_neg]
      rintro ⟨u, hu⟩
      exact absurd (List.cons.inj hu).1 (by decide)
    rw [nil_append, cutScheme, hnone] at hp
    obtain ⟨q, -, rfl⟩ := Option.map_eq_some_iff.mp hp
    exact mem_cons_self
  | cons c s ih =>
    rw [cutScheme] at h
    rw [cons_append, cutScheme, ← cons_append] at hp
    cases hstrip : stripPrefix "://".toList (c :: s) with
    | some rest =>
      rw [hstrip] at h
      cases h
    | none =>
      rw [hstrip] at h
      have hnone : stripPrefix "://".toList (c :: s ++ '?' :: t) = none := by
        obtain hlt | hle := Nat.lt_or_ge (c :: s).length "://".toList.length
        · -- the question mark would stand inside it
          rw [stripPrefix, if_neg]
          intro hpre
          have hmem : '?' ∈ "://".toList := by
            have hle : (c :: s ++ ['?']).length ≤ "://".toList.length := by
              rw [length_append]
              exact hlt
            have hinside : c :: s ++ ['?'] <+: "://".toList := by
              refine prefix_of_prefix_length_le ?_ hpre hle
              rw [append_cons (c :: s) '?' t]
              exact prefix_append _ _
            exact hinside.subset (mem_append_right _ mem_cons_self)
          exact absurd hmem (by decide)
        · exact stripPrefix_of_le hstrip _ hle
      rw [hnone] at hp
      obtain ⟨q, hq, rfl⟩ := Option.map_eq_some_iff.mp hp
      exact mem_cons_of_mem _ (ih (Option.map_eq_none_iff.mp h) hq)

theorem hasScheme_question (s t : Str) : isAbsoluteForm (s ++ '?' :: t) = isAbsoluteForm s := by
  rw [isAbsoluteForm, isAbsoluteForm]
  cases hcut : cutScheme s with
  | some p => rw [cutScheme_append hcut]
  | none =>
    cases hlater : cutScheme (s ++ '?' :: t) with
    | none => rfl
    | some p =>
      have hmem := cutScheme_question hcut t hlater
      dsimp only
      rw [Bool.and_eq_false_iff]
      right
      rw [all_eq_false]
      exact ⟨'?', hmem, by decide⟩

/-- A scheme of RFC 3986: a letter, and letters, digits, `+`, `-` and `.` behind it. -/
def IsScheme (s : Str) : Prop :=
  (∃ c ∈ s.head?, c.isAlpha = true) ∧
    ∀ c ∈ s, c.isAlphanum = true ∨ c = '+' ∨ c = '-' ∨ c = '.'

theorem isScheme_iff {s : Str} : (s.head?.any Char.isAlpha &&
        s.all fun c => c.isAlphanum || c == '+' || c == '-' || c == '.') = true ↔ IsScheme s := by
  rw [Bool.and_eq_true, Option.any_eq_true, all_eq_true, IsScheme]
  simp only [Bool.or_eq_true, beq_iff_eq, or_assoc, Option.mem_def]

/-- No scheme has a colon in it, so that the first `://` is the one behind the scheme. -/
theorem cutScheme_of_isScheme {scheme : Str} (h : IsScheme scheme) (after : Str) :
    cutScheme (scheme ++ "://".toList ++ after) = some (scheme, after) := by
  have hcolon : ':' ∉ scheme := by
    intro hmem
    rcases h.2 ':' hmem with hc | hc | hc | hc <;> exact absurd hc (by decide)
  clear h
  induction scheme with
  | nil => rfl
  | cons c scheme ih =>
    obtain ⟨hc, hscheme⟩ := not_or.mp (mt mem_cons.mpr hcolon)
    have hnone : stripPrefix "://".toList (c :: (scheme ++ "://".toList ++ after)) = none := by
      rw [stripPrefix, if_neg]
      rintro ⟨t, ht⟩
      exact hc (List.cons.inj ht).1
    rw [cons_append, cons_append, cutScheme, hnone, ih hscheme]
    rfl

theorem isAbsoluteForm_iff {target : Str} :
    isAbsoluteForm target = true ↔
      ∃ scheme after, IsScheme scheme ∧ target = scheme ++ "://".toList ++ after := by
  constructor
  · intro h
    rw [isAbsoluteForm] at h
    cases hcut : cutScheme target with
    | none =>
      rw [hcut] at h
      cases h
    | some p =>
      rw [hcut] at h
      exact ⟨p.1, p.2, isScheme_iff.mp h, cutScheme_eq hcut⟩
  · rintro ⟨scheme, after, hscheme, rfl⟩
    rw [isAbsoluteForm, cutScheme_of_isScheme hscheme]
    exact isScheme_iff.mpr hscheme

theorem stripAbsoluteForm_of_isScheme {scheme : Str} (h : IsScheme scheme) (after : Str) :
    stripAbsoluteForm (scheme ++ "://".toList ++ after) = '/' :: (cutAt '/' after).2.getD [] := by
  rw [stripAbsoluteForm, cutScheme_of_isScheme h]
  dsimp only
  rw [if_pos (isScheme_iff.mpr h)]
  cases cutAt '/' after with
  | mk _ path => cases path <;> rfl

/-! ## The requests of a target -/

theorem complete_cases {lib : Httparse} {buf : Bytes} {r : RawRequest}
    (h : parseRequest lib buf = .complete r) :
    ∃ n head headers framing, lib.parse buf = .complete n head ∧
      scanHeaders head = some (headers, framing) ∧
      parseBody head headers (buf.drop n) framing = .complete r := by
  rw [parseRequest] at h
  cases hparse : lib.parse buf with
  | incomplete | failed =>
    rw [hparse] at h
    cases h
  | complete n head =>
    rw [hparse] at h
    dsimp only at h
    split_ifs at h
    cases hscan : scanHeaders head with
    | none =>
      rw [hscan] at h
      cases h
    | some p =>
      rw [hscan] at h
      exact ⟨n, head, p.1, p.2, rfl, hscan, h⟩

/-- A request with a target, and what the parser makes of it. -/
structure Targeted (lib : Httparse) (target : Str) where
  buf : Bytes
  n : Nat
  head : HeadLines
  req : RawRequest
  parsed : lib.parse buf = .complete n head
  path : head.path = some target
  complete : parseRequest lib buf = .complete req

theorem Targeted.cut {lib : Httparse} {target : Str} (r : Targeted lib target) :
    (r.req.path, r.req.query) = cutAt '?' (stripAbsoluteForm target) := by
  obtain ⟨n, head, headers, framing, hparse, -, hbody⟩ := complete_cases r.complete
  obtain ⟨rfl, rfl⟩ := HeadStatus.complete.inj (r.parsed.symm.trans hparse)
  have hrequest : ∀ headers body, ((request r.head headers body).path,
      (request r.head headers body).query) = cutAt '?' (stripAbsoluteForm target) := by
    intro headers body
    rw [request, r.path]
    rfl
  cases framing with
  | chunked =>
    rw [parseBody] at hbody
    split at hbody
    · cases hbody
    · cases hbody
    · cases hbody
    · rw [← ParseResult.complete.inj hbody]
      exact hrequest _ _
  | length len =>
    rw [parseBody] at hbody
    split_ifs at hbody
    rw [← ParseResult.complete.inj hbody]
    exact hrequest _ _

/-! ## Absolute form -/

def queryPart : Option Str → Str
  | some q => '?' :: q
  | none => []

theorem cutAt_queryPart {path : Str} (h : '?' ∉ path) (query : Option Str) :
    cutAt '?' (path ++ queryPart query) = (path, query) := by
  cases query with
  | none => rw [queryPart, append_nil, cutAt_of_absent h]
  | some q => exact cutAt_append q h

structure AbsoluteForm where
  scheme : Str
  authority : Str
  path : Str
  query : Option Str
  isScheme : IsScheme scheme
  authority_plain : ∀ c ∈ authority, c ≠ '/' ∧ c ≠ '?' ∧ c ≠ '#'
  path_cases : path = [] ∨ path.head? = some '/'
  path_plain : '?' ∉ path

namespace AbsoluteForm

variable (a : AbsoluteForm)

def target : Str := a.scheme ++ "://".toList ++ (a.authority ++ (a.path ++ queryPart a.query))

def originPath : Str := if a.path = [] then "/".toList else a.path

def origin : Str := a.originPath ++ queryPart a.query

theorem not_mem_originPath : '?' ∉ a.originPath := by
  rw [originPath]
  split_ifs
  · decide
  · exact a.path_plain

theorem origin_not_absolute : isAbsoluteForm a.origin = false := by
  refine Bool.eq_false_iff.mpr fun h => ?_
  obtain ⟨c, hc, halpha⟩ := head?_of_scheme h
  have hslash : a.origin.head? = some '/' := by
    rw [origin, originPath]
    split_ifs with hnil
    · rfl
    · rw [head?_append, a.path_cases.resolve_left hnil]
      rfl
  cases hslash.symm.trans hc
  exact absurd halpha (by decide)

theorem cut_origin : cutAt '?' (stripAbsoluteForm a.origin) = (a.originPath, a.query) := by
  rw [stripAbsoluteForm_of_no_scheme a.origin_not_absolute, origin,
    cutAt_queryPart a.not_mem_originPath]

theorem cut_target : stripAbsoluteForm a.target =
    '/' :: (cutAt '/' (a.authority ++ (a.path ++ queryPart a.query))).2.getD [] :=
  stripAbsoluteForm_of_isScheme a.isScheme _

theorem slash_not_mem : '/' ∉ a.authority := fun h => (a.authority_plain _ h).1 rfl

theorem strip_of_path (h : a.path ≠ []) :
    stripAbsoluteForm a.target = a.originPath ++ queryPart a.query := by
  have hhead := a.path_cases.resolve_left h
  rw [cut_target, originPath, if_neg h]
  cases hpath : a.path with
  | nil => exact absurd hpath h
  | cons c rest =>
    rw [hpath] at hhead
    cases hhead
    rw [cons_append, cutAt_append _ a.slash_not_mem]
    rfl

theorem strip_of_authority (h : a.path = []) (hquery : a.query = none) :
    stripAbsoluteForm a.target = "/".toList := by
  rw [cut_target, h, hquery]
  simp only [queryPart, append_nil, cutAt_of_absent a.slash_not_mem]
  rfl

theorem cut_ne_of_query (h : a.path = []) {q : Str} (hquery : a.query = some q) :
    cutAt '?' (stripAbsoluteForm a.target) ≠ ("/".toList, some q) := by
  rw [cut_target, h, hquery, nil_append, queryPart]
  intro hcut
  have hsplit := cutAt_cases '?' ('/' :: (cutAt '/' (a.authority ++ '?' :: q)).2.getD [])
  rw [hcut] at hsplit
  obtain ⟨-, hnone⟩ | ⟨t, ht, hsome⟩ := hsplit
  · cases (Prod.ext_iff.mp hnone).2
  · obtain rfl := Option.some.inj (Prod.ext_iff.mp hsome).2
    have hrest : (cutAt '/' (a.authority ++ '?' :: q)).2.getD [] = '?' :: q := (List.cons.inj ht).2
    -- what follows the slash is part of the query, and shorter
    obtain ⟨-, hcut⟩ | ⟨u, hu, hcut⟩ := cutAt_cases '/' (a.authority ++ '?' :: q)
    · rw [hcut] at hrest
      cases hrest
    · have hlen := congrArg List.length hu
      rw [hcut] at hrest
      obtain rfl : u = '?' :: q := hrest
      have hnil : a.authority = (cutAt '/' (a.authority ++ '?' :: q)).1 ++ ['/'] :=
        append_cancel_right (hu.trans (append_cons ..))
      exact a.slash_not_mem (hnil ▸ mem_append_right _ mem_cons_self)

/-- **Which targets are read as they are meant**: those with a path, or without a query. -/
theorem cut_iff : cutAt '?' (stripAbsoluteForm a.target) = (a.originPath, a.query) ↔
    (a.path ≠ [] ∨ a.query = none) := by
  by_cases hpath : a.path = []
  · cases hquery : a.query with
    | none =>
      refine iff_of_true ?_ (Or.inr rfl)
      rw [a.strip_of_authority hpath hquery, originPath, if_pos hpath]
      rfl
    | some q =>
      refine iff_of_false ?_ (by simp [hpath])
      rw [originPath, if_pos hpath]
      exact a.cut_ne_of_query hpath hquery
  · refine iff_of_true ?_ (Or.inl hpath)
    rw [a.strip_of_path hpath, cutAt_queryPart a.not_mem_originPath]

end AbsoluteForm

namespace Targeted

variable {lib : Httparse} {target : Str}

def Meant (r : Targeted lib target) : Prop :=
  ∀ a : AbsoluteForm, a.target = target →
    (r.req.path, r.req.query) = (a.originPath, a.query) ∧
      ∀ o : Targeted lib a.origin, (r.req.path, r.req.query) = (o.req.path, o.req.query)

def LeftAlone (r : Targeted lib target) : Prop :=
  (∀ scheme after, IsScheme scheme → target ≠ scheme ++ "://".toList ++ after) →
    (r.req.path, r.req.query) = cutAt '?' target

theorem leftAlone (r : Targeted lib target) : r.LeftAlone := by
  intro h
  have hno : isAbsoluteForm target = false := by
    refine Bool.eq_false_iff.mpr fun habs => ?_
    obtain ⟨scheme, after, hscheme, heq⟩ := isAbsoluteForm_iff.mp habs
    exact h scheme after hscheme heq
  rw [r.cut, stripAbsoluteForm_of_no_scheme hno]

/-- **A target is treated as it is meant** if and only if it is not in absolute form with a query
and without a path. -/
theorem treated_iff (r : Targeted lib target) :
    r.Meant ∧ r.LeftAlone ↔
      ∀ a : AbsoluteForm, a.target = target → a.path ≠ [] ∨ a.query = none := by
  rw [and_iff_left r.leftAlone]
  constructor
  · intro h a ha
    have hcut := (h a ha).1
    rw [r.cut, ← ha] at hcut
    exact a.cut_iff.mp hcut
  · intro h a ha
    have hcut := a.cut_iff.mpr (h a ha)
    rw [ha, ← r.cut] at hcut
    refine ⟨hcut, fun o => ?_⟩
    rw [hcut, o.cut, a.cut_origin]

end Targeted

def queryHead : Bytes := Utf8.encode "GET http://a?x=/y HTTP/1.1\r\nHost: a\r\n\r\n".toList

def queryLines : HeadLines :=
  ⟨some "GET".toList, some "http://a?x=/y".toList, some 1,
    [("Host".toList, Utf8.encode "a".toList)]⟩

def queryTargeted :
    Targeted (.ofHead queryHead queryLines (Utf8.encode_ne_nil (by simp)))
      "http://a?x=/y".toList where
  buf := queryHead
  n := queryHead.length
  head := queryLines
  req := ⟨"GET".toList, "/y".toList, none, "HTTP/1.1".toList, [("Host".toList, "a".toList)], []⟩
  parsed := rfl
  path := rfl
  complete := rfl

def queryForm : AbsoluteForm where
  scheme := "http".toList
  authority := "a".toList
  path := []
  query := some "x=/y".toList
  isScheme := isScheme_iff.mp rfl
  authority_plain := by
    intro c hc
    rw [List.mem_singleton.mp hc]
    decide
  path_cases := Or.inl rfl
  path_plain := List.not_mem_nil

theorem query_without_path :
    ¬ ∀ (lib : Httparse) (target : Str) (r : Targeted lib target), r.Meant ∧ r.LeftAlone := by
  intro h
  have hread := ((h _ _ queryTargeted).1 queryForm rfl).1
  exact absurd (Prod.ext_iff.mp hread).1 (by decide)

end M6
