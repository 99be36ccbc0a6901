import M6.Lib.Text
import Mathlib.Data.List.Lex
import Mathlib.Data.List.Pairwise

/-!
# Route matchers

A router that takes patterns one by one and finds the pattern for a path. A pattern is
a list of parts between slashes: a literal, a parameter `{name}` for a non-empty rest of
the part, after a text or alone, or a catch-all `{*name}` at the end for a non-empty rest
of the path. A doubled brace is an escape and stands for one as text. Nothing is
normalised: an empty part of a path is a part. Which patterns are refused is left open.

`RouteMatcher` states what such a router promises, for any implementation: of the
patterns that accept a path it finds the one that is most literal at the first character
where they differ. `listMatcher` is one that keeps its promise. The facts that proofs use
are `find_of_least` (how to show what is found), `accepts_literal` (a literal pattern
accepts its own path), `find_insert_of_not_accepts` (a pattern does not touch a path that
it does not accept), `find_insert_of_lt` and `find_insert_of_le` (of two that accept it the
more literal one answers).
-/

namespace RouteMatcher

open List

/-! ## Patterns -/

/-- One part of a pattern. The names of parameters do not matter to matching. -/
inductive Part where
  | literal (text : Str)
  /-- a parameter after a text, which may be empty -/
  | param (text : Str)
  | catchAll
  deriving DecidableEq

/-- A pattern with its escapes taken out. A brace that stood doubled is marked: it is text. -/
def unescape : Str → List (Char × Bool)
  | c :: d :: rest =>
    if c = d ∧ (c = '{' ∨ c = '}') then (c, true) :: unescape rest
    else (c, false) :: unescape (d :: rest)
  | [c] => [(c, false)]
  | [] => []

/-- Read one part: a text up to the first brace that opens a name. -/
def part (last : Bool) (s : Str) : Part :=
  let text := ((unescape s).takeWhile fun c => c ≠ ('{', false)).map Prod.fst
  match (unescape s).dropWhile fun c => c ≠ ('{', false) with
  | [] => .literal text
  | _ :: name => if last ∧ name.head?.map Prod.fst = some '*' then .catchAll else .param text

def readParts : List Str → List Part
  | [] => []
  | [s] => [part true s]
  | s :: t :: rest => part false s :: readParts (t :: rest)

def parts (pattern : Str) : List Part := readParts (pattern.splitOn '/')

def acceptsParts : List Part → List Str → Bool
  | [], [] => true
  | .literal t :: ps, s :: ss => s == t && acceptsParts ps ss
  | .param t :: ps, s :: ss => (t.isPrefixOf s && s != t) && acceptsParts ps ss
  | [.catchAll], s :: ss => s != [] || ss != []
  | _, _ => false

def accepts (pattern path : Str) : Bool := acceptsParts (parts pattern) (path.splitOn '/')

/-- How literal a part is, character by character. -/
def Part.rank : Part → List Nat
  | literal t => t.map fun _ => 0
  | param t => (t.map fun _ => 0) ++ [1]
  | catchAll => [2]

/-- The order of preference for patterns: the first difference decides. -/
def ranks (pattern : Str) : List (List Nat) := (parts pattern).map Part.rank

def Literal (pattern : Str) : Prop := '{' ∉ pattern ∧ '}' ∉ pattern

instance (pattern : Str) : Decidable (Literal pattern) :=
  inferInstanceAs (Decidable ('{' ∉ pattern ∧ '}' ∉ pattern))

theorem unescape_cons {c : Char} {s : Str} (h : s.head? = some c → c ≠ '{' ∧ c ≠ '}') :
    unescape (c :: s) = (c, false) :: unescape s := by
  cases s with
  | nil => rfl
  | cons d s =>
    rw [unescape, if_neg]
    rintro ⟨rfl, hbrace⟩
    exact hbrace.elim (h rfl).1 (h rfl).2

theorem unescape_append {s : Str} (h : Literal s) (rest : Str) :
    unescape (s ++ rest) = (s.map fun c => (c, false)) ++ unescape rest := by
  induction s with
  | nil => rfl
  | cons c s ih =>
    have hc : c ≠ '{' ∧ c ≠ '}' := ⟨(ne_of_not_mem_cons h.1).symm, (ne_of_not_mem_cons h.2).symm⟩
    rw [cons_append, unescape_cons fun _ => hc,
      ih ⟨not_mem_of_not_mem_cons h.1, not_mem_of_not_mem_cons h.2⟩]
    rfl

theorem unescape_of_literal {s : Str} (h : Literal s) : unescape s = s.map fun c => (c, false) := by
  simpa only [append_nil, unescape] using unescape_append h []

theorem plain_of_literal {s : Str} (h : Literal s) :
    ∀ c ∈ s.map fun c => (c, false), decide (c ≠ ('{', false)) = true := by
  intro c hc
  obtain ⟨d, hd, rfl⟩ := mem_map.mp hc
  exact decide_eq_true fun heq => h.1 ((Prod.mk.inj heq).1 ▸ hd)

theorem part_of_literal {last : Bool} {s : Str} (h : Literal s) : part last s = .literal s := by
  rw [part, unescape_of_literal h, dropWhile_eq_nil_iff.mpr (plain_of_literal h),
    takeWhile_eq_self_iff.mpr (plain_of_literal h), map_map]
  exact congrArg Part.literal (map_id s)

/-- A part that is a text as a whole or a name in braces as a whole. -/
def Plain (s : Str) : Prop := Literal s ∨ ∃ name, Literal name ∧ s = '{' :: (name ++ ['}'])

theorem part_of_name {last : Bool} {name : Str} (h : Literal name) :
    part last ('{' :: (name ++ ['}'])) =
      if last ∧ name.head? = some '*' then .catchAll else .param [] := by
  have hhead : (name ++ ['}']).head? = some '{' → '{' ≠ '{' ∧ '{' ≠ '}' := by
    intro hopen
    cases name with
    | nil => cases hopen
    | cons c name => exact absurd (Option.some.inj hopen) (ne_of_not_mem_cons h.1).symm
  have hstar : ((name.map fun c => (c, false)) ++ unescape ['}']).head?.map Prod.fst = some '*' ↔
      name.head? = some '*' := by
    cases name with
    | nil => decide
    | cons c name => rfl
  rw [part, unescape_cons hhead, unescape_append h, takeWhile_cons_of_neg (by decide),
    dropWhile_cons_of_neg (by decide)]
  simp only [hstar, map_nil]

theorem readParts_of_literal {l : List Str} (h : ∀ s ∈ l, Literal s) :
    readParts l = l.map Part.literal := by
  induction l with
  | nil => rfl
  | cons s l ih =>
    have hs := h s (List.mem_cons_self ..)
    rcases l with _ | ⟨t, rest⟩
    · simp only [readParts, part_of_literal hs, map_cons, map_nil]
    · rw [readParts, part_of_literal hs, ih fun u hu => h u (List.mem_cons_of_mem _ hu)]
      rfl

theorem parts_of_literal {u : Str} (h : Literal u) : parts u = (u.splitOn '/').map Part.literal :=
  readParts_of_literal fun _ hs => ⟨fun hmem => h.1 ((Text.infix_of_mem_splitOn hs).subset hmem),
    fun hmem => h.2 ((Text.infix_of_mem_splitOn hs).subset hmem)⟩

theorem acceptsParts_literals (l ss : List Str) :
    acceptsParts (l.map Part.literal) ss = true ↔ ss = l := by
  induction l generalizing ss with
  | nil => cases ss <;> simp [acceptsParts]
  | cons t l ih =>
    cases ss with
    | nil => simp [acceptsParts]
    | cons s ss =>
      simp only [map_cons, acceptsParts, Bool.and_eq_true, beq_iff_eq, ih, List.cons.injEq]

theorem accepts_literal {u : Str} (h : Literal u) (q : Str) : accepts u q = true ↔ q = u := by
  rw [accepts, parts_of_literal h, acceptsParts_literals]
  refine ⟨fun hq => ?_, fun hq => by rw [hq]⟩
  have hjoin : ['/'].intercalate (q.splitOn '/') = q := intercalate_splitOn '/'
  rw [← hjoin, hq, intercalate_splitOn]

/-- Two parts of one rank that take the same text are the same part. -/
theorem eq_of_rank {p p' : Part} {ps ps' : List Part} {s : Str} {ss : List Str}
    (h : acceptsParts (p :: ps) (s :: ss) = true) (h' : acceptsParts (p' :: ps') (s :: ss) = true)
    (hr : p.rank = p'.rank) : p = p' := by
  have hzero : ∀ {t : Str} {n : Nat}, n ∈ (t.map fun _ => 0) → n = 0 := fun hn => by
    obtain ⟨-, -, rfl⟩ := mem_map.mp hn
    rfl
  have hone : ∀ t : Str, 1 ∈ Part.rank (.param t) := fun t =>
    mem_append_right _ (List.mem_singleton.mpr rfl)
  have htwo : 2 ∈ Part.rank .catchAll := List.mem_singleton.mpr rfl
  cases p with
  | literal t =>
    cases p' with
    | literal t' =>
      simp only [acceptsParts, Bool.and_eq_true, beq_iff_eq] at h h'
      rw [← h.1, ← h'.1]
    | param t' => exact absurd (hzero (hr ▸ hone t')) Nat.one_ne_zero
    | catchAll => exact absurd (hzero (hr ▸ htwo)) (by decide)
  | param t =>
    cases p' with
    | literal t' => exact absurd (hzero (hr ▸ hone t)) Nat.one_ne_zero
    | param t' =>
      simp only [acceptsParts, Bool.and_eq_true, isPrefixOf_iff_prefix] at h h'
      have hlen : t.length = t'.length := by
        simpa only [Part.rank, length_append, length_map, Nat.add_right_cancel_iff] using
          congrArg List.length hr
      rw [(prefix_of_prefix_length_le h.1.1 h'.1.1 hlen.le).eq_of_length hlen]
    | catchAll => exact absurd (List.mem_singleton.mp (hr ▸ hone t)) (by decide)
  | catchAll =>
    cases p' with
    | literal t' => exact absurd (hzero (hr ▸ htwo)) (by decide)
    | param t' => exact absurd (List.mem_singleton.mp (hr ▸ hone t')) (by decide)
    | catchAll => rfl

theorem parts_eq_of_ranks {ps ps' : List Part} {ss : List Str} (h : acceptsParts ps ss = true)
    (h' : acceptsParts ps' ss = true) (hr : ps.map Part.rank = ps'.map Part.rank) : ps = ps' := by
  induction ss generalizing ps ps' with
  | nil =>
    -- only the empty pattern accepts the empty path
    rcases ps with _ | ⟨p, ps⟩
    · exact (map_eq_nil_iff.mp hr.symm).symm
    · cases p <;> cases ps <;> cases h
  | cons s ss ih =>
    rcases ps with _ | ⟨p, ps⟩
    · cases h
    rcases ps' with _ | ⟨p', ps'⟩
    · cases h'
    obtain ⟨hhead, htail⟩ := List.cons.inj hr
    obtain rfl := eq_of_rank h h' hhead
    cases p with
    | literal t | param t =>
      simp only [acceptsParts, Bool.and_eq_true] at h h'
      rw [ih h.2 h'.2 htail]
    | catchAll =>
      rcases ps with _ | ⟨b, ps⟩
      · rw [(map_eq_nil_iff.mp htail.symm)]
      · cases h

theorem parts_eq_of_accepts {p p' q : Str} (h : accepts p q = true) (h' : accepts p' q = true)
    (hr : ranks p = ranks p') : parts p = parts p' :=
  parts_eq_of_ranks h h' hr

/-! ## Routers -/

structure Laws {α R : Type} (empty : R) (insert : R → Str → α → Option R)
    (find : R → Str → Option α) (routes : R → List (Str × α)) : Prop where
  routes_empty : routes empty = []
  /-- an accepted pattern is added -/
  routes_insert : ∀ {r r' p v}, insert r p v = some r' → routes r' = routes r ++ [(p, v)]
  /-- a literal pattern that nothing accepts yet is not refused -/
  insert_literal : ∀ {r p} (v : α), Literal p → find r p = none → (insert r p v).isSome
  /-- no two patterns differ in the names of parameters only -/
  unambiguous : ∀ {r e e'}, e ∈ routes r → e' ∈ routes r → parts e.1 = parts e'.1 → e = e'
  /-- of the patterns that accept a path the most literal one is found -/
  find_some : ∀ {r q v}, find r q = some v → ∃ p, (p, v) ∈ routes r ∧ accepts p q = true ∧
    ∀ e ∈ routes r, accepts e.1 q = true → ranks p ≤ ranks e.1
  /-- nothing is found only where nothing accepts -/
  find_none : ∀ {r q}, find r q = none → ∀ e ∈ routes r, accepts e.1 q = false

end RouteMatcher

structure RouteMatcher (α : Type) where
  Router : Type
  empty : Router
  insert : Router → Str → α → Option Router
  find : Router → Str → Option α
  /-- the patterns inserted so far -/
  routes : Router → List (Str × α)
  laws : RouteMatcher.Laws empty insert find routes

namespace RouteMatcher

variable {α : Type} {m : RouteMatcher α} {r r' : m.Router}

theorem find_of_least {q : Str} {e : Str × α} (hmem : e ∈ m.routes r) (hacc : accepts e.1 q = true)
    (hleast : ∀ e' ∈ m.routes r, accepts e'.1 q = true → ranks e.1 ≤ ranks e'.1) :
    m.find r q = some e.2 := by
  rcases hfind : m.find r q with _ | v
  · rw [m.laws.find_none hfind e hmem] at hacc
    cases hacc
  · obtain ⟨p, hp, hpacc, hpleast⟩ := m.laws.find_some hfind
    have hranks : ranks p = ranks e.1 := le_antisymm (hpleast e hmem hacc) (hleast _ hp hpacc)
    have heq := m.laws.unambiguous hp hmem (parts_eq_of_accepts hpacc hacc hranks)
    rw [← heq]

theorem mem_insert {u : Str} {v : α} (h : m.insert r u v = some r') {e : Str × α} :
    e ∈ m.routes r' ↔ e ∈ m.routes r ∨ e = (u, v) := by
  rw [m.laws.routes_insert h, List.mem_append, List.mem_singleton]

theorem find_insert_of_lt {u q : Str} {v : α} (h : m.insert r u v = some r')
    (hacc : accepts u q = true)
    (hlt : ∀ e ∈ m.routes r, accepts e.1 q = true → ranks u < ranks e.1) :
    m.find r' q = some v := by
  refine find_of_least ((mem_insert h).mpr (.inr rfl)) hacc fun e he hacc' => ?_
  rcases (mem_insert h).mp he with he | rfl
  · exact le_of_lt (hlt e he hacc')
  · exact le_refl _

theorem find_insert_of_le {u q : Str} {v w : α} (h : m.insert r u v = some r')
    (hfind : m.find r q = some w)
    (hle : ∀ p, (p, w) ∈ m.routes r → accepts u q = true → ranks p ≤ ranks u) :
    m.find r' q = some w := by
  obtain ⟨p, hp, hacc, hleast⟩ := m.laws.find_some hfind
  refine find_of_least ((mem_insert h).mpr (.inl hp)) hacc fun e he hacc' => ?_
  rcases (mem_insert h).mp he with he | rfl
  · exact hleast e he hacc'
  · exact hle p hp hacc'

theorem find_insert_of_not_accepts {u q : Str} {v : α} (hno : accepts u q = false)
    (h : m.insert r u v = some r') : m.find r' q = m.find r q := by
  rcases hfind : m.find r q with _ | w
  · rcases hfind' : m.find r' q with _ | w'
    · rfl
    · obtain ⟨p, hp, hacc, -⟩ := m.laws.find_some hfind'
      rcases (mem_insert h).mp hp with hp | heq
      · rw [m.laws.find_none hfind _ hp] at hacc
        cases hacc
      · rw [(Prod.mk.inj heq).1, hno] at hacc
        cases hacc
  · exact find_insert_of_le h hfind fun _ _ hacc =>
      absurd hacc (by rw [hno]; exact Bool.false_ne_true)

theorem mem_of_find {q : Str} {v : α} (h : m.find r q = some v) : ∃ p, (p, v) ∈ m.routes r := by
  obtain ⟨p, hp, -⟩ := m.laws.find_some h
  exact ⟨p, hp⟩

/-! ## A router on a list -/

def least : List (Str × α) → Option (Str × α)
  | [] => none
  | e :: l =>
    match least l with
    | none => some e
    | some e' => if ranks e'.1 < ranks e.1 then some e' else some e

theorem least_none {l : List (Str × α)} (h : least l = none) : l = [] := by
  rcases l with _ | ⟨a, l⟩
  · rfl
  · rw [least] at h
    rcases hl : least l with _ | b
    · rw [hl] at h
      cases h
    · rw [hl] at h
      simp only at h
      split_ifs at h

theorem least_some {l : List (Str × α)} {e : Str × α} (h : least l = some e) :
    e ∈ l ∧ ∀ e' ∈ l, ranks e.1 ≤ ranks e'.1 := by
  induction l generalizing e with
  | nil => cases h
  | cons a l ih =>
    rw [least] at h
    rcases hl : least l with _ | b
    · rw [hl] at h
      cases h
      rw [least_none hl]
      exact ⟨List.mem_cons_self .., fun e' he' => by rw [List.mem_singleton.mp he']⟩
    · obtain ⟨hb, hleast⟩ := ih hl
      rw [hl] at h
      simp only at h
      split_ifs at h with hlt
      · cases h
        refine ⟨List.mem_cons_of_mem _ hb, fun e' he' => ?_⟩
        rcases List.mem_cons.mp he' with rfl | he'
        · exact le_of_lt hlt
        · exact hleast e' he'
      · cases h
        refine ⟨List.mem_cons_self .., fun e' he' => ?_⟩
        rcases List.mem_cons.mp he' with rfl | he'
        · exact le_refl _
        · exact (not_lt.mp hlt).trans (hleast e' he')

def Distinct (l : List (Str × α)) : Prop := l.Pairwise fun e e' => parts e.1 ≠ parts e'.1

/-- A router that keeps its routes in a list and refuses a pattern with the parts of
one that is there. -/
def listMatcher (α : Type) : RouteMatcher α where
  Router := { l : List (Str × α) // Distinct l }
  empty := ⟨[], List.Pairwise.nil⟩
  insert r p v :=
    if h : ∀ e ∈ r.1, parts e.1 ≠ parts p then
      some ⟨r.1 ++ [(p, v)], List.pairwise_append.mpr ⟨r.2, List.pairwise_singleton _ _,
        fun e he e' he' => by rw [List.mem_singleton.mp he']; exact h e he⟩⟩
    else none
  find r q := (least (r.1.filter fun e => accepts e.1 q)).map Prod.snd
  routes r := r.1
  laws := {
    routes_empty := rfl
    routes_insert := by
      intro r r' p v h
      split_ifs at h
      obtain rfl := Option.some.inj h
      rfl
    insert_literal := by
      intro r p v hp hfind
      have hfilter := least_none (Option.map_eq_none_iff.mp hfind)
      rw [dif_pos]
      · rfl
      · intro e he hparts
        have hacc : accepts e.1 p = true := by
          rw [accepts, hparts, ← accepts]
          exact (accepts_literal hp p).mpr rfl
        exact absurd (List.mem_filter.mpr ⟨he, hacc⟩) (by rw [hfilter]; exact List.not_mem_nil)
    unambiguous := by
      intro r e e' he he' hparts
      by_contra hne
      have hsymm : Std.Symm fun e e' : Str × α => parts e.1 ≠ parts e'.1 := ⟨fun _ _ h => h.symm⟩
      exact List.Pairwise.forall r.2 he he' hne hparts
    find_some := by
      intro r q v h
      obtain ⟨e, he, rfl⟩ := Option.map_eq_some_iff.mp h
      obtain ⟨hmem, hleast⟩ := least_some he
      obtain ⟨hmem, hacc⟩ := List.mem_filter.mp hmem
      exact ⟨e.1, hmem, hacc, fun e' he' hacc' => hleast e' (List.mem_filter.mpr ⟨he', hacc'⟩)⟩
    find_none := by
      intro r q h e he
      have hfilter := least_none (Option.map_eq_none_iff.mp h)
      rcases hacc : accepts e.1 q with _ | _
      · rfl
      · exact absurd (List.mem_filter.mpr ⟨he, hacc⟩) (by rw [hfilter]; exact List.not_mem_nil) }

end RouteMatcher
