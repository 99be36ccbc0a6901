import M6.Core.Route
import Mathlib.Data.List.Permutation
import Mathlib.Algebra.Order.Ring.Int
import Mathlib.Data.Set.BooleanAlgebra
import Mathlib.Order.CompletePartialOrder

/-!
# Specificity

`route_specificity` of `app.rs` scores a pattern: three for a literal, two for a parameter, one for
a trailing wildcard. `find_route` takes the matching route of the highest score, and the first of
those that share it.

A pattern that refines another segment by segment (`Refines`) scores no less, and as much only if
it is refined in turn. Patterns whose paths are included in those of another refine it
(`refines_of_subset`), so a route is never found where a narrower one matches
(`findRoute_narrowest`). Patterns that overlap without inclusion may share a score: then the table's
order decides, and `findRoute_perm_iff` says that this is the only way it does.
-/

namespace M6

open List Option Bool

/-! ## Which paths a pattern admits -/

def admits : List Segment → List Str → Bool
  | [], [] => true
  | .literal t :: segs, p :: ps => p == t && admits segs ps
  | .param _ :: segs, _ :: ps => admits segs ps
  | [.wildcard _], _ :: _ => true
  | _, _ => false

def WildcardLast : List Segment → Prop
  | [] => True
  | .wildcard _ :: rest => rest = []
  | _ :: rest => WildcardLast rest

theorem compileSegment_false (s : Str) (name : Str) : compileSegment false s ≠ .wildcard name := by
  intro h
  rw [compileSegment] at h
  by_cases hbraces : s.head? = some '{' ∧ s.getLast? = some '}'
  · rw [if_pos hbraces] at h
    dsimp only at h
    split at h <;> simp at h
  · rw [if_neg hbraces] at h
    cases h

theorem wildcardLast_compileSegments (l : List Str) : WildcardLast (compileSegments l) := by
  induction l with
  | nil => trivial
  | cons s l ih =>
    cases l with
    | nil =>
      rw [compileSegments]
      cases compileSegment true s <;> simp [WildcardLast]
    | cons t rest =>
      rw [compileSegments]
      cases hs : compileSegment false s with
      | literal _ | param _ => exact ih
      | wildcard name => exact absurd hs (compileSegment_false s name)

theorem trailingWildcard_cons {seg : Segment} (hseg : ∀ name, seg ≠ .wildcard name)
    (segs : List Segment) : trailingWildcard (seg :: segs) = trailingWildcard segs := by
  cases segs with
  | nil =>
    cases seg with
    | literal _ | param _ => rfl
    | wildcard name => exact absurd rfl (hseg name)
  | cons s rest => rw [trailingWildcard, trailingWildcard, getLast?_cons_cons]

theorem matchRoute_nil (ps : List Str) : matchRoute ps [] = if ps = [] then some [] else none := by
  cases ps <;> rfl

theorem matchRoute_literal (t p : Str) (segs : List Segment) (ps : List Str) :
    matchRoute (p :: ps) (.literal t :: segs) = if p = t then matchRoute ps segs else none := by
  rw [matchRoute, matchRoute, trailingWildcard_cons (by simp)]
  simp only [length_cons, matchSegments, Nat.add_lt_add_iff_right, ne_eq, Nat.add_right_cancel_iff]
  split_ifs <;> rfl

theorem matchRoute_param (name p : Str) (segs : List Segment) (ps : List Str) :
    matchRoute (p :: ps) (.param name :: segs) = (matchRoute ps segs).map ((name, p) :: ·) := by
  rw [matchRoute, matchRoute, trailingWildcard_cons (by simp)]
  simp only [length_cons, matchSegments, Nat.add_lt_add_iff_right, ne_eq, Nat.add_right_cancel_iff]
  split_ifs <;> rfl

theorem matchRoute_wildcard (name p : Str) (ps : List Str) :
    matchRoute (p :: ps) [.wildcard name] = some [(name, ['/'].intercalate (p :: ps))] := by
  simp [matchRoute, trailingWildcard, matchSegments]

variable {segs : List Segment}

theorem isSome_matchRoute (h : WildcardLast segs) (ps : List Str) :
    (matchRoute ps segs).isSome = admits segs ps := by
  induction segs generalizing ps with
  | nil => cases ps <;> rfl
  | cons seg segs ih =>
    cases ps with
    | nil =>
      rw [matchRoute_nil_cons]
      cases seg with
      | literal _ | param _ => rfl
      | wildcard _ =>
        obtain rfl := h
        rfl
    | cons p ps =>
      cases seg with
      | literal t =>
        rw [matchRoute_literal, admits, ← ih h]
        by_cases hp : p = t <;> simp [hp]
      | param name => rw [matchRoute_param, admits, isSome_map, ih h]
      | wildcard name =>
        obtain rfl := h
        rw [matchRoute_wildcard]
        rfl

/-! ## Refinement -/

/-- The first pattern is the second with literals in the place of parameters, and any segments in
that of a trailing wildcard. -/
def Refines : List Segment → List Segment → Prop
  | [], [] => True
  | _ :: _, [.wildcard _] => True
  | .literal t :: a, .literal u :: b => t = u ∧ Refines a b
  | .literal _ :: a, .param _ :: b => Refines a b
  | .param _ :: a, .param _ :: b => Refines a b
  | _, _ => False

def Segment.weight : Segment → Int
  | .literal _ => 3
  | .param _ => 2
  | .wildcard _ => 1

theorem Segment.weight_pos (seg : Segment) : 1 ≤ seg.weight := by
  cases seg <;> simp [Segment.weight]

theorem routeSpecificity_eq (segs : List Segment) :
    routeSpecificity segs = (segs.map Segment.weight).sum := by
  have hfold : ∀ start : Int, segs.foldl (fun score seg => match seg with
      | .literal _ => score + 1
      | .param _ => score
      | .wildcard _ => score - 1) start =
      start + (segs.map Segment.weight).sum - (segs.length : Int) * 2 := by
    induction segs with
    | nil => intro start; simp
    | cons seg segs ih =>
      intro start
      rw [foldl_cons, ih, map_cons, sum_cons, length_cons]
      cases seg <;> simp only [Segment.weight] <;> push_cast <;> omega
  rw [routeSpecificity]
  refine (hfold _).trans ?_
  omega

theorem routeSpecificity_cons (seg : Segment) (segs : List Segment) :
    routeSpecificity (seg :: segs) = seg.weight + routeSpecificity segs := by
  rw [routeSpecificity_eq, routeSpecificity_eq, map_cons, sum_cons]

theorem routeSpecificity_nonneg (segs : List Segment) : 0 ≤ routeSpecificity segs := by
  induction segs with
  | nil => decide
  | cons seg segs ih =>
    have hpos := seg.weight_pos
    rw [routeSpecificity_cons]
    omega

theorem routeSpecificity_eq_zero (h : routeSpecificity segs = 0) : segs = [] := by
  cases segs with
  | nil => rfl
  | cons seg segs =>
    have hpos := seg.weight_pos
    have hrest := routeSpecificity_nonneg segs
    rw [routeSpecificity_cons] at h
    omega

variable {a b : List Segment}

theorem Refines.score (h : Refines a b) :
    routeSpecificity b ≤ routeSpecificity a ∧
      (routeSpecificity a = routeSpecificity b → Refines b a) := by
  fun_induction Refines a b with
  | case1 => exact ⟨le_refl _, fun _ => trivial⟩
  | case2 seg segs name =>
    have hrest := routeSpecificity_nonneg segs
    have hwild : routeSpecificity [.wildcard name] = 1 := rfl
    have hpos := seg.weight_pos
    rw [hwild, routeSpecificity_cons]
    refine ⟨by omega, fun heq => ?_⟩
    -- only another wildcard scores as little
    have hzero : routeSpecificity segs = 0 := by omega
    obtain rfl := routeSpecificity_eq_zero hzero
    cases seg with
    | literal t | param n => simp [Segment.weight] at heq; omega
    | wildcard n => trivial
  | case3 t a u b ih =>
    obtain ⟨hle, hback⟩ := ih h.2
    simp only [routeSpecificity_cons, Segment.weight]
    exact ⟨by omega, fun heq => ⟨h.1.symm, hback (by omega)⟩⟩
  | case4 t a n b ih =>
    obtain ⟨hle, hback⟩ := ih h
    simp only [routeSpecificity_cons, Segment.weight]
    exact ⟨by omega, fun heq => absurd heq (by omega)⟩
  | case5 n a m b ih =>
    obtain ⟨hle, hback⟩ := ih h
    simp only [routeSpecificity_cons, Segment.weight]
    exact ⟨by omega, fun heq => hback (by omega)⟩
  | case6 => exact h.elim

theorem Refines.admits (h : Refines a b) {ps : List Str}
    (hps : admits a ps = true) : admits b ps = true := by
  fun_induction Refines a b generalizing ps with
  | case1 => exact hps
  | case2 seg segs name =>
    cases ps with
    | nil => cases seg <;> simp [M6.admits] at hps
    | cons p ps => rfl
  | case3 t a u b ih =>
    cases ps with
    | nil => cases hps
    | cons p ps =>
      simp only [M6.admits, and_eq_true] at hps ⊢
      exact ⟨h.1 ▸ hps.1, ih h.2 hps.2⟩
  | case4 t a n b ih =>
    cases ps with
    | nil => cases hps
    | cons p ps =>
      simp only [M6.admits, and_eq_true] at hps ⊢
      exact ih h hps.2
  | case5 n a m b ih =>
    cases ps with
    | nil => cases hps
    | cons p ps => exact ih h hps
  | case6 => exact h.elim

/-! ## Inclusion is refinement -/

/-- A path of a pattern, with one text for each capture. -/
def instantiate (x : Str) (segs : List Segment) : List Str :=
  segs.map fun seg => match seg with
    | .literal t => t
    | _ => x

theorem admits_instantiate (x : Str) {a : List Segment} (ha : WildcardLast a) :
    admits a (instantiate x a) = true ∧
      (trailingWildcard a = true → admits a (instantiate x a ++ [x]) = true) := by
  induction a with
  | nil => exact ⟨rfl, fun h => by cases h⟩
  | cons seg a ih =>
    cases seg with
    | literal t =>
      obtain ⟨hone, hmore⟩ := ih ha
      rw [trailingWildcard_cons (by simp)]
      refine ⟨?_, fun h => ?_⟩
      · simpa [instantiate, admits] using hone
      · simpa [instantiate, admits] using hmore h
    | param n =>
      obtain ⟨hone, hmore⟩ := ih ha
      rw [trailingWildcard_cons (by simp)]
      exact ⟨hone, hmore⟩
    | wildcard n =>
      obtain rfl := ha
      exact ⟨rfl, fun _ => rfl⟩

theorem refines_of_instantiate {x : Str} (ha : WildcardLast a)
    (hx : ∀ u, Segment.literal u ∈ b → x ≠ u) (h : admits b (instantiate x a) = true)
    (hmore : trailingWildcard a = true → admits b (instantiate x a ++ [x]) = true) :
    Refines a b := by
  induction a generalizing b with
  | nil =>
    cases b with
    | nil => trivial
    | cons seg b => cases seg <;> cases b <;> cases h
  | cons seg a ih =>
    cases b with
    | nil => cases seg <;> cases h
    | cons first b =>
      have hxb : ∀ u, Segment.literal u ∈ b → x ≠ u := fun u hu => hx u (mem_cons_of_mem _ hu)
      cases first with
      | wildcard name =>
        cases b with
        | nil => cases seg <;> trivial
        | cons _ _ => cases seg <;> cases h
      | literal u =>
        have hxu := hx u mem_cons_self
        cases seg with
        | literal t =>
          simp only [instantiate, map_cons, admits, and_eq_true, beq_iff_eq] at h hmore
          rw [trailingWildcard_cons (by simp)] at hmore
          refine ⟨h.1, ih ha hxb h.2 fun htrail => ?_⟩
          have hthis := hmore htrail
          simp only [cons_append, admits, and_eq_true] at hthis
          exact hthis.2
        | param n | wildcard n =>
          simp only [instantiate, map_cons, admits, and_eq_true, beq_iff_eq] at h
          exact absurd h.1 hxu
      | param m =>
        cases seg with
        | literal t | param n =>
          rw [trailingWildcard_cons (by simp)] at hmore
          exact ih ha hxb h hmore
        | wildcard n =>
          -- a single parameter does not take the two segments that a wildcard may
          obtain rfl := ha
          have hthis := hmore rfl
          cases b with
          | nil => cases hthis
          | cons s b => cases s <;> cases b <;> cases h

theorem exists_length_bound (l : List Str) : ∃ n : Nat, ∀ s ∈ l, s.length ≤ n := by
  induction l with
  | nil => exact ⟨0, fun s hs => absurd hs not_mem_nil⟩
  | cons t l ih =>
    obtain ⟨n, hn⟩ := ih
    refine ⟨max n t.length, fun s hs => ?_⟩
    rcases mem_cons.mp hs with rfl | hs
    · exact le_max_right _ _
    · exact (hn s hs).trans (le_max_left _ _)

theorem exists_fresh (segs : List Segment) :
    ∃ x : Str, x ≠ [] ∧ '/' ∉ x ∧ ∀ u, Segment.literal u ∈ segs → x ≠ u := by
  obtain ⟨n, hn⟩ := exists_length_bound (segs.filterMap fun seg => match seg with
    | .literal t => some t
    | _ => none)
  refine ⟨List.replicate (n + 1) 'x', by simp, by simp, ?_⟩
  rintro u hu rfl
  have hlength := hn _ (mem_filterMap.mpr ⟨_, hu, rfl⟩)
  rw [length_replicate] at hlength
  omega

/-! ## Paths -/

def IsSegments (parts : List Str) : Prop := ∀ p ∈ parts, p ≠ [] ∧ '/' ∉ p

theorem isSegments_pathSegments (path : Str) : IsSegments (pathSegments path) := by
  intro p hp
  obtain ⟨hp, hne⟩ := mem_filter.mp hp
  exact ⟨by simpa using hne, Text.not_mem_of_mem_splitOn hp⟩

theorem pathSegments_intercalate {parts : List Str} (h : IsSegments parts) :
    pathSegments (['/'].intercalate parts) = parts := by
  cases parts with
  | nil => rfl
  | cons p parts =>
    rw [pathSegments, splitOn_intercalate '/' (fun q hq => (h q hq).2) (by simp)]
    exact filter_eq_self.mpr fun q hq => by simpa using (h q hq).1

theorem literal_of_compileSegments {l : List Str} {t : Str}
    (h : Segment.literal t ∈ compileSegments l) : t ∈ l := by
  have hone : ∀ last s, compileSegment last s = .literal t → s = t := by
    intro last s hs
    rw [compileSegment] at hs
    by_cases hbraces : s.head? = some '{' ∧ s.getLast? = some '}'
    · rw [if_pos hbraces] at hs
      dsimp only at hs
      split at hs
      · split_ifs at hs
      · cases hs
    · rw [if_neg hbraces] at hs
      exact Segment.literal.inj hs
  induction l with
  | nil => cases h
  | cons s l ih =>
    cases l with
    | nil =>
      rw [compileSegments, mem_singleton] at h
      rw [hone _ _ h.symm]
      exact mem_singleton_self t
    | cons u rest =>
      rw [compileSegments] at h
      rcases mem_cons.mp h with h | h
      · rw [hone _ _ h.symm]
        exact mem_cons_self
      · exact mem_cons_of_mem _ (ih h)

theorem isSegments_instantiate {x : Str} (hne : x ≠ []) (hslash : '/' ∉ x) (pattern : Str) :
    IsSegments (instantiate x (compilePattern pattern)) := by
  intro p hp
  obtain ⟨seg, hseg, rfl⟩ := mem_map.mp hp
  cases seg with
  | literal t => exact isSegments_pathSegments pattern t (literal_of_compileSegments hseg)
  | param _ | wildcard _ => exact ⟨hne, hslash⟩

/-! ## What is found -/

namespace CompiledRoute

def paths (r : CompiledRoute) : Set Str :=
  {path | (matchRoute (pathSegments path) r.segments).isSome = true}

theorem wildcardLast (r : CompiledRoute) : WildcardLast r.segments := by
  rw [r.segments_eq]
  exact wildcardLast_compileSegments _

theorem mem_paths {r : CompiledRoute} {parts : List Str} (h : IsSegments parts) :
    ['/'].intercalate parts ∈ r.paths ↔ admits r.segments parts = true := by
  rw [paths, Set.mem_ofPred_eq, pathSegments_intercalate h, isSome_matchRoute r.wildcardLast]

/-- **Inclusion is refinement.** A route whose paths another route matches as well refines it. -/
theorem refines_of_subset {r b : CompiledRoute} (h : r.paths ⊆ b.paths) :
    Refines r.segments b.segments := by
  obtain ⟨x, hne, hslash, hfresh⟩ := exists_fresh b.segments
  obtain ⟨hone, hmore⟩ := admits_instantiate x r.wildcardLast
  have hparts : IsSegments (instantiate x r.segments) := by
    rw [r.segments_eq]
    exact isSegments_instantiate hne hslash r.pattern
  refine refines_of_instantiate r.wildcardLast hfresh ((mem_paths hparts).mp ?_) fun htrail => ?_
  · exact h ((mem_paths hparts).mpr hone)
  · have hlonger : IsSegments (instantiate x r.segments ++ [x]) := by
      intro p hp
      rcases mem_append.mp hp with hp | hp
      · exact hparts p hp
      · rw [mem_singleton.mp hp]
        exact ⟨hne, hslash⟩
    exact (mem_paths hlonger).mp (h ((mem_paths hlonger).mpr (hmore htrail)))

theorem specificity_lt_of_ssubset {r b : CompiledRoute} (h : r.paths ⊂ b.paths) :
    b.specificity < r.specificity := by
  obtain ⟨hle, hback⟩ := (refines_of_subset h.subset).score
  rw [b.specificity_eq, r.specificity_eq]
  refine lt_of_le_of_ne hle fun heq => h.not_subset fun path hpath => ?_
  have hrefines := hback heq.symm
  rw [paths, Set.mem_ofPred_eq, isSome_matchRoute b.wildcardLast] at hpath
  rw [paths, Set.mem_ofPred_eq, isSome_matchRoute r.wildcardLast]
  exact hrefines.admits hpath

end CompiledRoute

/-- Put the captures back in the place of the parameters, each under its name. -/
def substitute : List Segment → PathParams → Option (List Str)
  | [], [] => some []
  | .literal t :: segs, params => (substitute segs params).map (t :: ·)
  | .param name :: segs, (k, v) :: params =>
    if k = name then (substitute segs params).map (v :: ·) else none
  | .wildcard name :: segs, (k, v) :: params =>
    if k = name then (substitute segs params).map (v :: ·) else none
  | _, _ => none

theorem substitute_matchRoute (h : WildcardLast segs) {ps : List Str}
    {params : PathParams} (hmatch : matchRoute ps segs = some params) :
    ∃ parts, substitute segs params = some parts ∧
      ['/'].intercalate parts = ['/'].intercalate ps ∧ (parts = [] ↔ ps = []) := by
  induction segs generalizing ps params with
  | nil =>
    rw [matchRoute_nil] at hmatch
    split_ifs at hmatch with hps
    cases hmatch
    exact ⟨[], rfl, by rw [hps], by simp [hps]⟩
  | cons seg segs ih =>
    cases ps with
    | nil =>
      rw [matchRoute_nil_cons] at hmatch
      cases hmatch
    | cons p ps =>
      -- a part in front of parts that make the same path
      have hcons : ∀ {parts : List Str}, ['/'].intercalate parts = ['/'].intercalate ps →
          (parts = [] ↔ ps = []) →
          ['/'].intercalate (p :: parts) = ['/'].intercalate (p :: ps) := by
        intro parts hjoin hempty
        cases parts with
        | nil => rw [hempty.mp rfl]
        | cons q parts =>
          cases ps with
          | nil => exact absurd (hempty.mpr rfl) (by simp)
          | cons p' ps =>
            rw [intercalate_cons_cons, intercalate_cons_cons, hjoin]
      cases seg with
      | literal t =>
        rw [matchRoute_literal] at hmatch
        split_ifs at hmatch with hp
        obtain ⟨parts, hparts, hjoin, hempty⟩ := ih h hmatch
        refine ⟨t :: parts, ?_, hp ▸ hcons hjoin hempty, by simp⟩
        rw [substitute, hparts]
        rfl
      | param name =>
        rw [matchRoute_param] at hmatch
        obtain ⟨rest, hrest, rfl⟩ := map_eq_some_iff.mp hmatch
        obtain ⟨parts, hparts, hjoin, hempty⟩ := ih h hrest
        refine ⟨p :: parts, ?_, hcons hjoin hempty, by simp⟩
        rw [substitute, if_pos rfl, hparts]
        rfl
      | wildcard name =>
        obtain rfl := h
        rw [matchRoute_wildcard] at hmatch
        cases hmatch
        refine ⟨[['/'].intercalate (p :: ps)], ?_, intercalate_singleton, by simp⟩
        rw [substitute, if_pos rfl]
        rfl

/-- **What is found is the narrowest, and says what the path was.** No other route of its method
matches the path and strictly fewer besides; and the captures, put back into the pattern, make the
path without its empty segments. -/
theorem findRoute_narrowest {path method : Str} {routes : List CompiledRoute} {b : CompiledRoute}
    {params : PathParams} (h : findRoute path method routes = some (b, params)) :
    (∀ r ∈ routes, r.method = b.method → path ∈ r.paths → ¬ r.paths ⊂ b.paths) ∧
      ∃ parts, substitute b.segments params = some parts ∧
        ['/'].intercalate parts = ['/'].intercalate (pathSegments path) := by
  have hwinner := (findRoute_spec path method routes).winner b params h
  refine ⟨fun r hr hmethod hpath hinclusion => ?_, ?_⟩
  · obtain ⟨p, hp⟩ := isSome_iff_exists.mp hpath
    have hcand : Candidate path method r p := ⟨hmethod ▸ hwinner.candidate.1, hp⟩
    exact absurd (hwinner.specificity_le hr hcand)
      (not_le.mpr (CompiledRoute.specificity_lt_of_ssubset hinclusion))
  · obtain ⟨parts, hparts, hjoin, -⟩ := substitute_matchRoute b.wildcardLast hwinner.candidate.2
    exact ⟨parts, hparts, hjoin⟩

/-- The routes of a blog, without settings. -/
def routeAt (pattern : String) : CompiledRoute :=
  .compile pattern.toList .get [] .empty .empty

theorem findRoute_feed : findRoute "/blog//feed".toList "GET".toList
      [routeAt "/blog/{stem}", routeAt "/blog/feed"] = some (routeAt "/blog/feed", []) ∧
    ((∀ r ∈ [routeAt "/blog/{stem}", routeAt "/blog/feed"], r.method =
      (routeAt "/blog/feed").method →
        "/blog//feed".toList ∈ r.paths → ¬ r.paths ⊂ (routeAt "/blog/feed").paths) ∧
      ∃ parts, substitute (routeAt "/blog/feed").segments [] = some parts ∧
        ['/'].intercalate parts = ['/'].intercalate (pathSegments "/blog//feed".toList)) := by
  have hfound : findRoute "/blog//feed".toList "GET".toList
      [routeAt "/blog/{stem}", routeAt "/blog/feed"] = some (routeAt "/blog/feed", []) := rfl
  exact ⟨hfound, findRoute_narrowest hfound⟩

/-! ## The order of the table -/

def Top (path method : Str) (routes : List CompiledRoute) (r : CompiledRoute) : Prop :=
  r ∈ routes ∧ (∃ params, Candidate path method r params) ∧
    ∀ s ∈ routes, ∀ params, Candidate path method s params → s.specificity ≤ r.specificity

variable {path method : Str}

theorem Winner.top {routes : List CompiledRoute} {b : CompiledRoute}
    {params : PathParams} (h : Winner path method routes b params) : Top path method routes b :=
  ⟨h.mem, ⟨params, h.candidate⟩, fun _ hs _ hc => h.specificity_le hs hc⟩

theorem Top.perm {routes routes' : List CompiledRoute} {r : CompiledRoute}
    (h : Top path method routes r) (hperm : routes.Perm routes') : Top path method routes' r :=
  ⟨hperm.mem_iff.mp h.1, h.2.1, fun s hs => h.2.2 s (hperm.mem_iff.mpr hs)⟩

theorem findRoute_of_top_first {rest : List CompiledRoute} {r : CompiledRoute}
    (h : Top path method (r :: rest) r) :
    (findRoute path method (r :: rest)).map Prod.fst = some r := by
  obtain ⟨params, hcand⟩ := h.2.1
  have hspec := findRoute_spec path method (r :: rest)
  cases hfound : findRoute path method (r :: rest) with
  | none => exact absurd hcand (hspec.no_candidate hfound r mem_cons_self params)
  | some found =>
    obtain ⟨b, p⟩ := found
    have hwinner := hspec.winner b p hfound
    obtain ⟨before, after, hsplit, hbefore, -⟩ := hwinner.split
    cases before with
    | nil => exact congrArg some (List.cons.inj hsplit).1.symm
    | cons s before =>
      -- what stands before the winner is beaten by it, and the first route is not
      obtain ⟨rfl, -⟩ := List.cons.inj hsplit
      have hlt := hbefore r mem_cons_self params hcand
      exact absurd (h.2.2 b hwinner.mem p hwinner.candidate) (not_le.mpr hlt)

/-- **When the order of the table does not matter.** Every order of the routes finds the same one
for a request exactly if the matching routes have one at the top. -/
theorem findRoute_perm_iff (path method : Str) (routes : List CompiledRoute) :
    (∀ routes', routes.Perm routes' →
        (findRoute path method routes').map Prod.fst =
          (findRoute path method routes).map Prod.fst) ↔
      ∀ r s, Top path method routes r → Top path method routes s → r = s := by
  constructor
  · intro h r s hr hs
    have hfirst : ∀ t, Top path method routes t →
        (findRoute path method routes).map Prod.fst = some t := by
      intro t ht
      obtain ⟨before, after, hsplit⟩ := append_of_mem ht.1
      have hperm : routes.Perm (t :: (before ++ after)) := hsplit ▸ perm_middle
      rw [← h _ hperm]
      exact findRoute_of_top_first (ht.perm hperm)
    exact some.inj ((hfirst r hr).symm.trans (hfirst s hs))
  · intro h routes' hperm
    have hspec := findRoute_spec path method routes
    have hspec' := findRoute_spec path method routes'
    cases hfound : findRoute path method routes with
    | none =>
      cases hfound' : findRoute path method routes' with
      | none => rfl
      | some found =>
        have hwinner := hspec'.winner found.1 found.2 hfound'
        exact absurd hwinner.candidate
          (hspec.no_candidate hfound _ (hperm.mem_iff.mpr hwinner.mem) _)
    | some found =>
      have hwinner := hspec.winner found.1 found.2 hfound
      cases hfound' : findRoute path method routes' with
      | none =>
        exact absurd hwinner.candidate
          (hspec'.no_candidate hfound' _ (hperm.mem_iff.mp hwinner.mem) _)
      | some found' =>
        have hwinner' := hspec'.winner found'.1 found'.2 hfound'
        exact congrArg some (h _ _ (hwinner'.top.perm hperm.symm) hwinner.top)

def Segment.unnamed : Segment → Segment
  | .literal t => .literal t
  | .param _ => .param []
  | .wildcard _ => .wildcard []

theorem order_decides : ¬ ∀ (routes routes' : List CompiledRoute) (path method : Str),
    (routes.Pairwise fun r s => r.segments.map Segment.unnamed ≠ s.segments.map Segment.unnamed) →
    (∀ r ∈ routes, ∀ s ∈ routes, r.method = s.method) → routes.Perm routes' →
      (findRoute path method routes').map Prod.fst =
        (findRoute path method routes).map Prod.fst := by
  intro h
  have hone : ((findRoute "/a/b".toList "GET".toList [routeAt "/{a}/b", routeAt "/a/{b}"]).map
      Prod.fst).map CompiledRoute.pattern = some "/{a}/b".toList := by decide
  have htwo : ((findRoute "/a/b".toList "GET".toList [routeAt "/a/{b}", routeAt "/{a}/b"]).map
      Prod.fst).map CompiledRoute.pattern = some "/a/{b}".toList := by decide
  have hmethod : ∀ pattern, (routeAt pattern).method = .get := fun _ => rfl
  have hsame := h [routeAt "/{a}/b", routeAt "/a/{b}"] [routeAt "/a/{b}", routeAt "/{a}/b"]
    "/a/b".toList "GET".toList (by simp; decide) (by simp [hmethod]) (List.Perm.swap ..)
  rw [hsame, hone] at htwo
  exact absurd htwo (by decide)

end M6
