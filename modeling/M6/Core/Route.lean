import M6.Core.Dict

/-!
# Core's router

Route patterns, their specificity and the matcher of `app.rs`, and the check of
path parameters of `path.rs`.

A path is split at its slashes once and **empty segments are dropped**, both from
patterns and from request paths. Among the routes that match, the first one with
the highest specificity wins (`findRoute`); `findRoute_spec` says so without the
loop.
-/

namespace M6

open List

/-! ## Path parameters -/

inductive PathParamError where
  | traversal
  | invalidChars
  deriving DecidableEq

def PathParamError.message : PathParamError → Str
  | traversal => "path traversal attempt".toList
  | invalidChars => "invalid characters in path parameter".toList

/-- What a handler or the framework fails with. -/
inductive Error where
  | notFound
  | forbidden
  | badRequest (text : Str)
  | other (context : Str)
  deriving DecidableEq

/-- The character class the parameter check takes from the Unicode tables. Only
its values on ASCII are used. -/
structure Unicode where
  isAlphanumeric : Char → Bool
  ascii : ∀ c : Char, c.toNat < 128 → isAlphanumeric c = c.isAlphanum

def Unicode.asciiOnly : Unicode := ⟨Char.isAlphanum, fun _ _ => rfl⟩

def validatePathParam (u : Unicode) (value : Str) (allowSlash : Bool) : Except PathParamError Str :=
  if value = [] then .ok value
  else if "..".toList <:+: value then .error .traversal
  else if allowSlash then
    if value.head? = some '/' ∨ value.getLast? = some '/' then .error .invalidChars
    else if value.all fun ch =>
        u.isAlphanumeric ch || ch == '-' || ch == '_' || ch == '.' || ch == '/' then .ok value
    else .error .invalidChars
  else if value.all fun ch => u.isAlphanumeric ch || ch == '-' || ch == '_' || ch == '.' then
    .ok value
  else .error .invalidChars

/-- The status a refused parameter carries: traversal is a 404, the rest a
400. -/
def paramError (name : Str) : PathParamError → Error
  | .traversal => .notFound
  | .invalidChars =>
    .badRequest ("path param ".toList ++ ['\x60'] ++ name ++ ['\x60'] ++ " is invalid: ".toList ++
      PathParamError.invalidChars.message)

/-- What an accepted value is: free of `..`, and not absolute. -/
theorem validatePathParam_ok {u : Unicode} {value v : Str} {allowSlash : Bool}
    (h : validatePathParam u value allowSlash = .ok v) :
    v = value ∧ ¬ "..".toList <:+: value ∧ value.head? ≠ some '/' := by
  rw [validatePathParam] at h
  split_ifs at h with hnil hdots hslash hends hall hall
  · cases h
    exact ⟨rfl, hnil ▸ by decide, hnil ▸ by decide⟩
  · cases h
    exact ⟨rfl, hdots, fun hhead => hends (Or.inl hhead)⟩
  · cases h
    refine ⟨rfl, hdots, fun hhead => ?_⟩
    -- a slash is no letter, so the character check has refused it
    have hmem : '/' ∈ value := mem_of_mem_head? hhead
    have hchar := all_eq_true.mp hall _ hmem
    have hascii := u.ascii '/' (by decide)
    simp [hascii] at hchar

/-! ## Patterns -/

inductive Segment where
  | literal (text : Str)
  | param (name : Str)
  /-- `{*name}`: this segment and every one after it -/
  | wildcard (name : Str)
  deriving DecidableEq

def pathSegments (path : Str) : List Str := (path.splitOn '/').filter fun s => s ≠ []

def compileSegment (last : Bool) (s : Str) : Segment :=
  if s.head? = some '{' ∧ s.getLast? = some '}' then
    let inner := (s.drop 1).dropLast
    match Text.stripPrefix ['*'] inner with
    | some name => if last then .wildcard name else .param name
    | none => .param inner
  else .literal s

def compileSegments : List Str → List Segment
  | [] => []
  | [s] => [compileSegment true s]
  | s :: t :: rest => compileSegment false s :: compileSegments (t :: rest)

def compilePattern (pattern : Str) : List Segment := compileSegments (pathSegments pattern)

/-- How specific a route is: two for each segment, plus one for each literal,
minus one for each wildcard. -/
def routeSpecificity (segments : List Segment) : Int :=
  segments.foldl (fun score seg =>
    match seg with
    | .literal _ => score + 1
    | .param _ => score
    | .wildcard _ => score - 1) ((segments.length : Int) * 2)

inductive RouteMethod where
  | any | get | post | put | patch | delete
  deriving DecidableEq

/-- Whether a request method is answered; `GET` covers `HEAD`. -/
def RouteMethod.matches : RouteMethod → Str → Bool
  | any, _ => true
  | get, m => m == "GET".toList || m == "HEAD".toList
  | post, m => m == "POST".toList
  | put, m => m == "PUT".toList
  | patch, m => m == "PATCH".toList
  | delete, m => m == "DELETE".toList

structure CompiledRoute where
  pattern : Str
  method : RouteMethod
  segments : List Segment
  /-- the params files of the route, static and templated -/
  paramsFiles : List Str
  specificity : Int
  /-- the route's own config keys that core does not define -/
  settings : DictMap
  /-- the part of the dictionary that is the same for every request -/
  baseDict : DictMap
  segments_eq : segments = compilePattern pattern
  /-- the score is that of the segments -/
  specificity_eq : specificity = routeSpecificity segments

def CompiledRoute.compile (pattern : Str) (method : RouteMethod) (paramsFiles : List Str)
    (settings baseDict : DictMap) : CompiledRoute where
  pattern := pattern
  method := method
  segments := compilePattern pattern
  paramsFiles := paramsFiles
  specificity := routeSpecificity (compilePattern pattern)
  settings := settings
  baseDict := baseDict
  segments_eq := rfl
  specificity_eq := rfl

def CompiledRoute.isWildcardParam (route : CompiledRoute) (name : Str) : Bool :=
  route.segments.any fun s => s == .wildcard name

/-! ## Matching -/

abbrev PathParams : Type := List (Str × Str)

def matchSegments : List Segment → List Str → Option PathParams
  | [], _ => some []
  | .literal lit :: segs, p :: ps => if p = lit then matchSegments segs ps else none
  | .param name :: segs, p :: ps => (matchSegments segs ps).map ((name, p) :: ·)
  | .wildcard name :: segs, p :: ps =>
    (matchSegments segs ps).map ((name, ['/'].intercalate (p :: ps)) :: ·)
  | _ :: _, [] => none

def trailingWildcard (segments : List Segment) : Bool :=
  match segments.getLast? with
  | some (.wildcard _) => true
  | _ => false

/-- Match the segments of a path against a route. A trailing wildcard takes one
or more segments; otherwise the counts must agree. -/
def matchRoute (pathSegs : List Str) (segments : List Segment) : Option PathParams :=
  if trailingWildcard segments then
    if pathSegs.length < segments.length then none else matchSegments segments pathSegs
  else if pathSegs.length ≠ segments.length then none
  else matchSegments segments pathSegs

theorem matchRoute_nil_cons (seg : Segment) (segs : List Segment) :
    matchRoute [] (seg :: segs) = none := by
  have hlt : ([] : List Str).length < (seg :: segs).length := Nat.zero_lt_succ _
  rw [matchRoute, if_pos hlt, if_pos hlt.ne, ite_self]

def findStep (method : Str) (pathSegs : List Str) (best : Option (CompiledRoute × PathParams))
    (route : CompiledRoute) : Option (CompiledRoute × PathParams) :=
  if route.method.matches method then
    match matchRoute pathSegs route.segments with
    | some params =>
      match best with
      | some (bestRoute, bestParams) =>
        if route.specificity ≤ bestRoute.specificity then some (bestRoute, bestParams)
        else some (route, params)
      | none => some (route, params)
    | none => best
  else best

def findRoute (path method : Str) (routes : List CompiledRoute) :
    Option (CompiledRoute × PathParams) :=
  routes.foldl (findStep method (pathSegments path)) none

def Candidate (path method : Str) (route : CompiledRoute) (params : PathParams) : Prop :=
  route.method.matches method = true ∧
    matchRoute (pathSegments path) route.segments = some params

/-- The first candidate that no candidate beats: those before it are less specific, and
those after it are not more so. -/
structure Winner (path method : Str) (seen : List CompiledRoute) (b : CompiledRoute)
    (params : PathParams) : Prop where
  candidate : Candidate path method b params
  split : ∃ before after, seen = before ++ b :: after ∧
    (∀ r ∈ before, ∀ p, Candidate path method r p → r.specificity < b.specificity) ∧
    ∀ r ∈ after, ∀ p, Candidate path method r p → r.specificity ≤ b.specificity

namespace Winner

variable {path method : Str} {seen : List CompiledRoute} {b : CompiledRoute} {params : PathParams}

theorem mem (h : Winner path method seen b params) : b ∈ seen := by
  obtain ⟨before, after, rfl, -, -⟩ := h.split
  exact mem_append_right _ (mem_cons_self ..)

theorem specificity_le (h : Winner path method seen b params) {r : CompiledRoute} (hr : r ∈ seen)
    {p : PathParams} (hc : Candidate path method r p) : r.specificity ≤ b.specificity := by
  obtain ⟨before, after, rfl, hbefore, hafter⟩ := h.split
  obtain hr | hr := mem_append.mp hr
  · exact le_of_lt (hbefore r hr p hc)
  · obtain rfl | hr := mem_cons.mp hr
    · exact le_refl _
    · exact hafter r hr p hc

theorem beats (h : Winner path method seen b params) {before after : List CompiledRoute}
    {r : CompiledRoute} {p : PathParams} (hsplit : seen = before ++ r :: after)
    (hc : Candidate path method r p) (hne : r ≠ b) :
    r.specificity < b.specificity ∨ (b ∈ before ∧ r.specificity ≤ b.specificity) := by
  have hr : r ∈ seen := by
    rw [hsplit]
    exact mem_append_cons_self
  obtain ⟨before', after', hsplit', hbefore, -⟩ := h.split
  obtain ⟨mid, hmid, hrest⟩ | ⟨mid, hmid, hrest⟩ :=
    append_eq_append_iff.mp (hsplit.symm.trans hsplit')
  · cases mid with
    | nil => exact (hne (List.cons.inj hrest).1).elim
    | cons x mid =>
      obtain ⟨rfl, -⟩ := List.cons.inj hrest
      refine Or.inl (hbefore r ?_ p hc)
      rw [hmid]
      exact mem_append_cons_self
  · cases mid with
    | nil => exact (hne (List.cons.inj hrest).1.symm).elim
    | cons x mid =>
      obtain ⟨rfl, -⟩ := List.cons.inj hrest
      refine Or.inr ⟨?_, h.specificity_le hr hc⟩
      rw [hmid]
      exact mem_append_cons_self

theorem append (h : Winner path method seen b params) {route : CompiledRoute}
    (hroute : ∀ p, Candidate path method route p → route.specificity ≤ b.specificity) :
    Winner path method (seen ++ [route]) b params := by
  obtain ⟨before, after, rfl, hbefore, hafter⟩ := h.split
  refine ⟨h.candidate, before, after ++ [route], ?_, hbefore, fun r hr => ?_⟩
  · rw [append_assoc, cons_append]
  · obtain hr | hr := mem_append.mp hr
    · exact hafter r hr
    · rw [mem_singleton.mp hr]
      exact hroute

end Winner

/-- What the search holds after a part of the table: nothing if no route matched so far,
else the winner. -/
structure Best (path method : Str) (seen : List CompiledRoute)
    (best : Option (CompiledRoute × PathParams)) : Prop where
  no_candidate : best = none → ∀ r ∈ seen, ∀ params, ¬ Candidate path method r params
  winner : ∀ b params, best = some (b, params) → Winner path method seen b params

variable {seen : List CompiledRoute} {path method : Str}

theorem Best.skip {best : Option (CompiledRoute × PathParams)} (h : Best path method seen best)
    {route : CompiledRoute} (hno : ∀ params, ¬ Candidate path method route params) :
    Best path method (seen ++ [route]) best := by
  refine ⟨fun hnone r hr => ?_, fun b params hb => ?_⟩
  · obtain hr | hr := mem_append.mp hr
    · exact h.no_candidate hnone r hr
    · rw [mem_singleton.mp hr]
      exact hno
  · exact (h.winner b params hb).append fun p hp => (hno p hp).elim

theorem Best.take {route : CompiledRoute}
    {params : PathParams} (hc : Candidate path method route params)
    (hlt : ∀ r ∈ seen, ∀ p, Candidate path method r p → r.specificity < route.specificity) :
    Best path method (seen ++ [route]) (some (route, params)) := by
  refine ⟨fun h => (Option.some_ne_none _ h).elim, fun b p hb => ?_⟩
  cases hb
  exact ⟨hc, seen, [], rfl, hlt, fun r hr => (not_mem_nil hr).elim⟩

theorem best_step {best : Option (CompiledRoute × PathParams)} (h : Best path method seen best)
    (route : CompiledRoute) :
    Best path method (seen ++ [route]) (findStep method (pathSegments path) best route) := by
  rw [findStep]
  split_ifs with hm
  · cases hp : matchRoute (pathSegments path) route.segments with
    | none =>
      refine h.skip fun params hc => ?_
      rw [hc.2] at hp
      cases hp
    | some params =>
      have hcand : Candidate path method route params := ⟨hm, hp⟩
      cases best with
      | none => exact Best.take hcand fun r hr p hc => (h.no_candidate rfl r hr p hc).elim
      | some best =>
        obtain ⟨b, bp⟩ := best
        have hwinner := h.winner b bp rfl
        dsimp only
        split_ifs with hle
        · -- the best so far stays
          refine ⟨fun hnone => (Option.some_ne_none _ hnone).elim, fun b' p' hb => ?_⟩
          cases hb
          exact hwinner.append fun _ _ => hle
        · exact Best.take hcand fun r hr p hc =>
            (hwinner.specificity_le hr hc).trans_lt (not_le.mp hle)
  · exact h.skip fun params hc => hm hc.1

/-- **What the search returns.** The first candidate of the table that no candidate
beats; and nothing only when there is no candidate. -/
theorem findRoute_spec (path method : Str) (routes : List CompiledRoute) :
    Best path method routes (findRoute path method routes) := by
  have hrun : ∀ (rest seen : List CompiledRoute) (best : Option (CompiledRoute × PathParams)),
      Best path method seen best →
        Best path method (seen ++ rest)
          (rest.foldl (findStep method (pathSegments path)) best) := by
    intro rest
    induction rest with
    | nil =>
      intro seen best h
      rw [append_nil]
      exact h
    | cons route rest ih =>
      intro seen best h
      have hnext := ih (seen ++ [route]) _ (best_step h route)
      rw [append_assoc, singleton_append] at hnext
      exact hnext
  refine hrun routes [] none ⟨fun _ r hr => ?_, fun b params hb => ?_⟩
  · cases hr
  · cases hb

end M6
