import Mathlib.Data.List.Sort

/-!
# Selecting from tables

Rows in the order of a key (`orderBy`), and rows joined with what an id names (`joinOn`). Selecting
some of the rows before or after they are put in order comes to the same (`filter_orderBy`), and a
join of which every id names something keeps each row once (`map_fst_joinOn`).

The children of several rows may be read at once and handed out by id (`handOut`): each row then has
its own, in the order they were read in (`foldlM_handOut`).
-/

namespace Select

open List

universe u v w

variable {R : Type u} {K : Type v} [LinearOrder K] (key : R → K)

abbrev KeyLe (a b : R) : Prop := key a ≤ key b

instance : Std.Total (KeyLe key) := ⟨fun a b => le_total (key a) (key b)⟩

instance : IsTrans R (KeyLe key) := ⟨fun _ _ _ => le_trans⟩

def orderBy (rows : List R) : List R := rows.insertionSort (KeyLe key)

variable {key}

theorem orderBy_perm (rows : List R) : (orderBy key rows).Perm rows :=
  perm_insertionSort (KeyLe key) rows

@[simp] theorem mem_orderBy {r : R} {rows : List R} : r ∈ orderBy key rows ↔ r ∈ rows :=
  (orderBy_perm rows).mem_iff

theorem orderBy_le (rows : List R) : (orderBy key rows).Pairwise (KeyLe key) :=
  pairwise_insertionSort (KeyLe key) rows

theorem orderBy_lt {rows : List R} (h : (rows.map key).Nodup) :
    (orderBy key rows).Pairwise fun a b => key a < key b := by
  have hnodup : ((orderBy key rows).map key).Nodup := ((orderBy_perm rows).map key).nodup_iff.mpr h
  have hne : (orderBy key rows).Pairwise fun a b => key a ≠ key b := pairwise_map.mp hnodup
  exact (orderBy_le rows).imp₂ (fun _ _ hle hlt => lt_of_le_of_ne hle hlt) hne

theorem filter_orderedInsert (p : R → Bool) (a : R) {rows : List R}
    (h : rows.Pairwise (KeyLe key)) : (rows.orderedInsert (KeyLe key) a).filter p =
      if p a then (rows.filter p).orderedInsert (KeyLe key) a else rows.filter p := by
  induction rows with
  | nil => cases hp : p a <;> simp [hp]
  | cons b rows ih =>
    obtain ⟨hb, hrows⟩ := pairwise_cons.mp h
    by_cases hle : KeyLe key a b
    · -- `a` comes first, and before all that is selected of the rest
      rw [orderedInsert_cons_of_le _ _ hle, filter_cons]
      cases hp : p a with
      | false => simp
      | true =>
        simp only [if_true]
        cases hsel : (b :: rows).filter p with
        | nil => rfl
        | cons c sel =>
          have hsel' : c ∈ (b :: rows).filter p := by
            rw [hsel]
            exact mem_cons_self ..
          have hc : c ∈ b :: rows := (mem_filter.mp hsel').1
          have hac : KeyLe key a c := by
            obtain rfl | hc := mem_cons.mp hc
            · exact hle
            · exact le_trans hle (hb c hc)
          rw [orderedInsert_cons_of_le _ _ hac]
    · rw [orderedInsert_of_not_le _ _ hle, filter_cons, ih hrows]
      cases hp : p a with
      | false => simp [filter_cons]
      | true =>
        cases hpb : p b with
        | false => simp [hpb]
        | true => simp [hpb, hle]

theorem filter_orderBy (p : R → Bool) (rows : List R) :
    (orderBy key rows).filter p = orderBy key (rows.filter p) := by
  induction rows with
  | nil => rfl
  | cons a rows ih =>
    have hstep : orderBy key (a :: rows) = (orderBy key rows).orderedInsert (KeyLe key) a := rfl
    rw [hstep, filter_orderedInsert p a (orderBy_le rows), ih, filter_cons]
    split_ifs
    · rfl
    · rfl

/-! ## Joins -/

variable {I : Type v} {V : Type w} [DecidableEq I]

def named (table : List (I × V)) (id : I) : Option V :=
  (table.find? fun e => e.1 = id).map Prod.snd

def joinOn (id : R → I) (table : List (I × V)) (rows : List R) : List (R × V) :=
  rows.filterMap fun r => (named table (id r)).map fun v => (r, v)

theorem mem_joinOn {id : R → I} {table : List (I × V)} {rows : List R} {r : R} {v : V} :
    (r, v) ∈ joinOn id table rows ↔ r ∈ rows ∧ named table (id r) = some v := by
  rw [joinOn, mem_filterMap]
  constructor
  · rintro ⟨r', hr', hv⟩
    obtain ⟨v', hv', heq⟩ := Option.map_eq_some_iff.mp hv
    cases heq
    exact ⟨hr', hv'⟩
  · rintro ⟨hr, hv⟩
    exact ⟨r, hr, by rw [hv, Option.map_some]⟩

theorem map_fst_joinOn {id : R → I} {table : List (I × V)} {rows : List R}
    (h : ∀ r ∈ rows, (named table (id r)).isSome = true) :
    (joinOn id table rows).map Prod.fst = rows := by
  induction rows with
  | nil => rfl
  | cons r rows ih =>
    obtain ⟨v, hv⟩ := Option.isSome_iff_exists.mp (h r (mem_cons_self ..))
    have hrest := ih fun x hx => h x (mem_cons_of_mem _ hx)
    rw [joinOn] at hrest ⊢
    rw [filterMap_cons, hv, Option.map_some, map_cons, hrest]

theorem filter_joinOn (p : R → Bool) (id : R → I) (table : List (I × V)) (rows : List R) :
    (joinOn id table rows).filter (fun e => p e.1) = joinOn id table (rows.filter p) := by
  induction rows with
  | nil => rfl
  | cons r rows ih =>
    rw [joinOn] at ih ⊢
    rw [filterMap_cons, filter_cons]
    cases hv : named table (id r) with
    | none =>
      rw [Option.map_none, ih]
      split_ifs
      · rw [joinOn, joinOn, filterMap_cons, hv, Option.map_none]
      · rfl
    | some v =>
      rw [Option.map_some, filter_cons, ih]
      split_ifs
      · rw [joinOn, joinOn, filterMap_cons, hv, Option.map_some]
      · rfl

/-! ## Children -/

section Children

variable {O : Type u} {C : Type v} {D : Type w} {E I : Type*} [DecidableEq I] (idOf : O → I)
  (ownerOf : C → I) (push : O → D → O)

def handTo (out : List O) (owner : I) (d : D) : List O :=
  out.map fun r => if idOf r = owner then push r d else r

def handOut (conv : C → Except E D) (out : List O) (c : C) : Except E (List O) :=
  if out.any fun r => idOf r = ownerOf c then (conv c).map (handTo idOf push out (ownerOf c))
  else .ok out

variable {idOf ownerOf push}

variable (ownerOf) in
theorem filter_owner {ids : List I} {id : I} (h : id ∈ ids) (cs : List C) :
    ((cs.filter fun c => ownerOf c ∈ ids).filter fun c => id = ownerOf c) =
      cs.filter fun c => ownerOf c ∈ [id] := by
  rw [filter_filter]
  refine filter_congr fun c _ => ?_
  by_cases hc : id = ownerOf c
  · subst hc
    simp [h]
  · have hne : ownerOf c ≠ id := fun heq => hc heq.symm
    simp [hc, hne]

variable (ownerOf) in
theorem filter_children {K' : Type*} [LinearOrder K'] {J V : Type*} [DecidableEq J]
    (key : C × V → K') (ref : C → J) (table : List (J × V)) {ids : List I} {id : I} (h : id ∈ ids)
    (cs : List C) :
    ((orderBy key (joinOn ref table (cs.filter fun c => ownerOf c ∈ ids))).filter
        fun e => id = ownerOf e.1) =
      orderBy key (joinOn ref table (cs.filter fun c => ownerOf c ∈ [id])) := by
  rw [filter_orderBy, filter_joinOn (fun c => decide (id = ownerOf c)), filter_owner ownerOf h]

theorem mapM_uniform {conv : C → Except E D} {p : C → Prop} [DecidablePred p] {g : C → D} {e : E}
    (h : ∀ c, conv c = if p c then .ok (g c) else .error e) (cs : List C) :
    cs.mapM conv = if ∀ c ∈ cs, p c then .ok (cs.map g) else .error e := by
  induction cs with
  | nil => rfl
  | cons c cs ih =>
    rw [mapM_cons, h c, ih]
    by_cases hc : p c
    · by_cases hcs : ∀ x ∈ cs, p x
      · rw [if_pos hc, if_pos hcs, if_pos (forall_mem_cons.mpr ⟨hc, hcs⟩)]
        rfl
      · rw [if_pos hc, if_neg hcs, if_neg fun hall => hcs (forall_mem_cons.mp hall).2]
        rfl
    · rw [if_neg hc, if_neg fun hall => hc (forall_mem_cons.mp hall).1]
      rfl

variable (idOf ownerOf push) in
theorem foldlM_handOut {conv : C → Except E D} {p : C → Prop} [DecidablePred p] {g : C → D} {e : E}
    (h : ∀ c, conv c = if p c then .ok (g c) else .error e)
    (hid : ∀ r d, idOf (push r d) = idOf r) (cs : List C) {out : List O}
    (howner : ∀ c ∈ cs, ∃ r ∈ out, idOf r = ownerOf c) :
    cs.foldlM (handOut idOf ownerOf push conv) out =
      if ∀ c ∈ cs, p c then
        .ok (out.map fun r =>
          ((cs.filter fun c => idOf r = ownerOf c).map g).foldl push r)
      else .error e := by
  induction cs generalizing out with
  | nil =>
    simp only [foldlM_nil, not_mem_nil, false_implies, implies_true, if_true,
      filter_nil, map_nil, foldl_nil, map_id']
    rfl
  | cons c cs ih =>
    obtain ⟨hc, hcs⟩ := forall_mem_cons.mp howner
    have hany : (out.any fun r => idOf r = ownerOf c) = true := by
      obtain ⟨r, hr, heq⟩ := hc
      exact any_eq_true.mpr ⟨r, hr, decide_eq_true heq⟩
    have hkept : ∀ d r, idOf (if idOf r = ownerOf c then push r d else r) = idOf r := by
      intro d r
      split_ifs
      · exact hid r d
      · rfl
    rw [foldlM_cons, handOut, if_pos hany, h c]
    by_cases hp : p c
    · have hnext : ∀ x ∈ cs, ∃ r ∈ handTo idOf push out (ownerOf c) (g c), idOf r = ownerOf x := by
        intro x hx
        obtain ⟨r, hr, heq⟩ := hcs x hx
        exact ⟨_, mem_map_of_mem hr, (hkept (g c) r).trans heq⟩
      rw [if_pos hp]
      refine (ih hnext).trans ?_
      by_cases hall : ∀ x ∈ cs, p x
      · rw [if_pos hall, if_pos (forall_mem_cons.mpr ⟨hp, hall⟩), handTo, map_map]
        refine congrArg Except.ok (map_congr_left fun r _ => ?_)
        simp only [Function.comp_apply, hkept, filter_cons]
        by_cases howned : idOf r = ownerOf c
        · simp [howned]
        · simp [howned]
      · rw [if_neg hall, if_neg fun hboth => hall (forall_mem_cons.mp hboth).2]
    · rw [if_neg hp, if_neg fun hboth => hp (forall_mem_cons.mp hboth).1]
      rfl

end Children

end Select
