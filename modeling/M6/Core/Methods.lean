import M6.Core.Generation
import M6.Core.Specificity
import M6.Lib.Failing

/-!
# The methods of a config route

A `[[route]]` may list the methods it answers. `FrameworkState::build` of `app.rs` compiles the list
to one `RouteMethod`: that of a single method that it knows, else `Any`. `methodsEnforced_iff` says
for which lists a route is found for the methods of its list alone.
-/

namespace M6.App

/-- The methods with a `RouteMethod` of their own. -/
def knownMethods : List Str :=
  ["GET".toList, "POST".toList, "PUT".toList, "PATCH".toList, "DELETE".toList]

/-- A list has the method of a request. One with `GET` has `HEAD`. -/
def Lists (methods : List Str) (method : Str) : Prop :=
  method ∈ methods ∨ (method = "HEAD".toList ∧ "GET".toList ∈ methods)

def routeTable (disk : Disk) (siteDir : Str) (config : RendererConfig) (inputs : Inputs)
    (bound : List (Str × RouteMethod)) : List AppRoute :=
  bound.map (compileCodeRoute config inputs) ++
    config.routes.map (compileConfigRoute disk siteDir config inputs)

/-- **The methods of a route are enforced**: whatever else its config and the service have, it is
found for the methods of its list alone. -/
def MethodsEnforced (rc : RouteConfig) : Prop :=
  ∀ methods, rc.methods = some methods →
    ∀ (disk : Disk) (siteDir : Str) (config : RendererConfig) (inputs : Inputs)
      (bound : List (Str × RouteMethod)) (path method : Str) (params : PathParams),
      rc ∈ config.routes →
      findAppRoute path method (routeTable disk siteDir config inputs bound) =
        some (compileConfigRoute disk siteDir config inputs rc, params) →
      Lists methods method

theorem lists_of_matches {m : Str} (hm : m ∈ knownMethods) {method : Str}
    (h : (routeMethod (some [m])).matches method = true) : Lists [m] method := by
  have hone : ∀ m' ∈ knownMethods, routeMethod (some [m']) ≠ .any ∧
      ((routeMethod (some [m'])) = .get ↔ m' = "GET".toList) ∧
      ((routeMethod (some [m'])) = .post ↔ m' = "POST".toList) ∧
      ((routeMethod (some [m'])) = .put ↔ m' = "PUT".toList) ∧
      ((routeMethod (some [m'])) = .patch ↔ m' = "PATCH".toList) ∧
      ((routeMethod (some [m'])) = .delete ↔ m' = "DELETE".toList) := by
    decide
  obtain ⟨hany, hget, hpost, hput, hpatch, hdelete⟩ := hone m hm
  cases hr : routeMethod (some [m]) with
  | any => exact absurd hr hany
  | get =>
    rw [hr, RouteMethod.matches, Bool.or_eq_true, beq_iff_eq, beq_iff_eq] at h
    obtain rfl := hget.mp hr
    rcases h with rfl | rfl
    · exact .inl (List.mem_singleton_self _)
    · exact .inr ⟨rfl, List.mem_singleton_self _⟩
  | post =>
    rw [hr, RouteMethod.matches, beq_iff_eq] at h
    exact .inl (by rw [h, hpost.mp hr]; exact List.mem_singleton_self _)
  | put =>
    rw [hr, RouteMethod.matches, beq_iff_eq] at h
    exact .inl (by rw [h, hput.mp hr]; exact List.mem_singleton_self _)
  | patch =>
    rw [hr, RouteMethod.matches, beq_iff_eq] at h
    exact .inl (by rw [h, hpatch.mp hr]; exact List.mem_singleton_self _)
  | delete =>
    rw [hr, RouteMethod.matches, beq_iff_eq] at h
    exact .inl (by rw [h, hdelete.mp hr]; exact List.mem_singleton_self _)

/-- Any other list is compiled to `Any`. -/
theorem routeMethod_of_unknown {methods : List Str} (h : ¬ ∃ m ∈ knownMethods, methods = [m]) :
    routeMethod (some methods) = .any := by
  rcases methods with _ | ⟨m, _ | ⟨n, rest⟩⟩
  · rfl
  · have hm : m ∉ knownMethods := fun hm => h ⟨m, hm, rfl⟩
    simp only [knownMethods, List.mem_cons, List.not_mem_nil, or_false, not_or] at hm
    obtain ⟨hget, hpost, hput, hpatch, hdelete⟩ := hm
    rw [routeMethod, if_neg hget, if_neg hpost, if_neg hput, if_neg hpatch, if_neg hdelete]
  · rfl

theorem candidate_of_findAppRoute {path method : Str} {routes : List AppRoute} {route : AppRoute}
    {params : PathParams} (h : findAppRoute path method routes = some (route, params)) :
    Candidate path method route.toCompiledRoute params := by
  have hmap := findAppRoute_map path method routes
  rw [h] at hmap
  exact ((findRoute_spec path method _).winner _ _ hmap.symm).candidate

theorem findAppRoute_singleton {path method : Str} {route : AppRoute} {params : PathParams}
    (h : Candidate path method route.toCompiledRoute params) :
    findAppRoute path method [route] = some (route, params) := by
  rw [findAppRoute, List.foldl_cons, List.foldl_nil, findAppStep, if_pos h.1, h.2]

theorem exists_unlisted (methods : List Str) : ∃ method, ¬ Lists methods method := by
  obtain ⟨n, hn⟩ := exists_length_bound methods
  refine ⟨List.replicate (n + 1) 'X', ?_⟩
  rintro (h | ⟨h, -⟩)
  · have hlength := hn _ h
    rw [List.length_replicate] at hlength
    omega
  · rw [List.replicate_succ] at h
    exact absurd (List.cons.inj h).1 (by decide)

/-- **When the declared methods are enforced.** Whatever the list, exactly if there is none, or it
is one of the five methods that `RouteMethod` knows, alone. -/
theorem methodsEnforced_iff (rc : RouteConfig) :
    MethodsEnforced rc ↔
      ∀ methods, rc.methods = some methods → ∃ m ∈ knownMethods, methods = [m] := by
  constructor
  · intro h methods hmethods
    by_contra hunknown
    obtain ⟨method, hmethod⟩ := exists_unlisted methods
    refine hmethod ?_
    -- alone in a table, the route is found on a path of its own for any method
    let config : RendererConfig := { plainConfig with routes := [rc] }
    let inputs : Inputs := ⟨fun _ _ => .error .notFound, .empty, .empty⟩
    let route := compileConfigRoute (configDisk []) [] config inputs rc
    obtain ⟨hpath, -⟩ := admits_instantiate "x".toList route.toCompiledRoute.wildcardLast
    have hparts : IsSegments (instantiate "x".toList route.segments) :=
      isSegments_instantiate (by decide) (by decide) rc.path
    obtain ⟨params, hparams⟩ := Option.isSome_iff_exists.mp
      ((CompiledRoute.mem_paths (r := route.toCompiledRoute) hparts).mpr hpath)
    have hany : route.method = .any := by
      change routeMethod rc.methods = .any
      rw [hmethods]
      exact routeMethod_of_unknown hunknown
    refine h methods hmethods (configDisk []) [] config inputs []
      (['/'].intercalate (instantiate "x".toList route.segments)) method params
      List.mem_cons_self ?_
    exact findAppRoute_singleton ⟨by rw [hany]; rfl, hparams⟩
  · intro h methods hmethods disk siteDir config inputs bound path method params _ hfound
    obtain ⟨m, hm, rfl⟩ := h methods hmethods
    have hcand := (candidate_of_findAppRoute hfound).1
    change (routeMethod rc.methods).matches method = true at hcand
    rw [hmethods] at hcand
    exact lists_of_matches hm hcand

def readRoute : RouteConfig where
  path := "/page".toList
  template := none
  params := []
  status := 200
  cache := "public".toList
  methods := some ["GET".toList, "HEAD".toList]
  headers := []
  handler := none
  settings := .empty

/-- It is found for `DELETE`. -/
theorem read_route_deletes : ¬ MethodsEnforced readRoute := by
  intro h
  have hfound := h _ rfl (configDisk []) [] { plainConfig with routes := [readRoute] }
    ⟨fun _ _ => .error .notFound, .empty, .empty⟩ [] "/page".toList "DELETE".toList []
    List.mem_cons_self (findAppRoute_singleton ⟨rfl, rfl⟩)
  rcases hfound with hfound | ⟨hhead, -⟩
  · exact absurd hfound (by decide)
  · exact absurd hhead (by decide)

end M6.App
