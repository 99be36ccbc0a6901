import M6.Lib.Failing
import M6.Lib.Select
import M6.Lib.SortedMap

/-!
# Names and their ids

A lookup table with a cache of the ids it has handed out (`Interner`). A name that the table does
not hold is entered under a fresh id, and the id is remembered by a key of the name. Every id that
is handed out names what it was asked for, now and when the table has grown (`id_spec`).

Rows of an owner may refer to names, each of them to another one (`link`). A list of rows is linked
only if no two of them have one name (`foldlM_link_spec`), and then it is, where there is room for
the names (`foldlM_link_ok`).
-/

namespace Interning

open List Option

open Select (named)

universe u

/-! ## Tables of names -/

section Tables

variable {I K : Type u} [DecidableEq I]

theorem mem_of_named {table : List (I × K)} {i : I} {k : K} (h : named table i = some k) :
    (i, k) ∈ table := by
  rw [named, map_eq_some_iff] at h
  obtain ⟨e, hfind, rfl⟩ := h
  have hid : e.1 = i := by simpa using find?_some hfind
  rw [← hid]
  exact mem_of_find?_eq_some hfind

theorem named_of_mem {table : List (I × K)} (hnodup : (table.map Prod.fst).Nodup) {i : I} {k : K}
    (h : (i, k) ∈ table) : named table i = some k := by
  induction table with
  | nil => cases h
  | cons e table ih =>
    rw [map_cons, nodup_cons] at hnodup
    obtain rfl | hmem := mem_cons.mp h
    · simp [named]
    · have hne : ¬ e.1 = i := by
        rintro rfl
        exact hnodup.1 (mem_map.mpr ⟨_, hmem, rfl⟩)
      have hrest := ih hnodup.2 hmem
      rw [named] at hrest ⊢
      rwa [find?_cons_of_neg (by simpa using hne)]

theorem named_mono {table table' : List (I × K)} (hgrow : table <+: table') {i : I} {k : K}
    (h : named table i = some k) : named table' i = some k := by
  obtain ⟨more, rfl⟩ := hgrow
  rw [named, map_eq_some_iff] at h
  obtain ⟨e, hfind, rfl⟩ := h
  rw [named, find?_append, hfind, some_or, map_some]

theorem isSome_named_mono {table table' : List (I × K)} (hgrow : table <+: table') {i : I}
    (h : (named table i).isSome = true) : (named table' i).isSome = true := by
  obtain ⟨k, hk⟩ := isSome_iff_exists.mp h
  rw [named_mono hgrow hk, isSome_some]

theorem id_unique {table : List (I × K)} (hnodup : (table.map Prod.snd).Nodup) {i i' : I} {k : K}
    (h : named table i = some k) (h' : named table i' = some k) : i = i' :=
  congrArg Prod.fst (inj_on_of_nodup_map hnodup (mem_of_named h) (mem_of_named h') rfl)

end Tables

/-! ## Interners -/

variable {I K C : Type u} {E : Type*} [LinearOrder C]

/-- **A lookup table with a cache of the ids it has handed out.** -/
structure Interner (I K C : Type u) [LinearOrder C] where
  table : List (I × K)
  ids : SortedMap C I

namespace Interner

variable [DecidableEq K]

def idOf (table : List (I × K)) (k : K) : Option I :=
  (table.find? fun e => e.2 = k).map Prod.fst

def enter (fresh : List I → Except E I) (table : List (I × K)) (k : K) : Except E (List (I × K)) :=
  if (idOf table k).isSome then .ok table
  else do
    let i ← fresh (table.map Prod.fst)
    .ok (table ++ [(i, k)])

def id (keyOf : K → C) (fresh : List I → Except E I) (missing : E) (n : Interner I K C) (k : K) :
    Except E (I × Interner I K C) :=
  match n.ids.get? (keyOf k) with
  | some i => .ok (i, n)
  | none => do
    let table ← enter fresh n.table k
    match idOf table k with
    | some i => .ok (i, ⟨table, n.ids.insert (keyOf k) i⟩)
    | none => .error missing

variable {keyOf : K → C} {fresh : List I → Except E I} {missing : E} {n n' : Interner I K C} {k : K}
  {i : I}

theorem mem_of_idOf {table : List (I × K)} (h : idOf table k = some i) : (i, k) ∈ table := by
  rw [idOf, map_eq_some_iff] at h
  obtain ⟨e, hfind, rfl⟩ := h
  have hname : e.2 = k := by simpa using find?_some hfind
  rw [← hname]
  exact mem_of_find?_eq_some hfind

theorem not_mem_of_idOf {table : List (I × K)} (h : ¬ (idOf table k).isSome = true) :
    k ∉ table.map Prod.snd := by
  intro hmem
  obtain ⟨e, he, hname⟩ := mem_map.mp hmem
  have hsome : (table.find? fun e => e.2 = k).isSome = true :=
    find?_isSome.mpr ⟨e, he, decide_eq_true hname⟩
  rw [idOf, isSome_map] at h
  exact h hsome

theorem enter_cases {table table' : List (I × K)} (h : enter fresh table k = .ok table') :
    (table' = table ∧ (idOf table k).isSome = true) ∨
      ∃ i, fresh (table.map Prod.fst) = .ok i ∧ k ∉ table.map Prod.snd ∧
        table' = table ++ [(i, k)] := by
  rw [enter] at h
  split_ifs at h with hin
  · cases h
    exact .inl ⟨rfl, hin⟩
  · cases hfresh : fresh (table.map Prod.fst) with
    | error e =>
      rw [hfresh] at h
      cases h
    | ok i =>
      rw [hfresh] at h
      cases h
      exact .inr ⟨i, rfl, not_mem_of_idOf hin, rfl⟩

theorem idOf_append_self (table : List (I × K)) : (idOf (table ++ [(i, k)]) k).isSome = true := by
  rw [idOf, isSome_map, find?_isSome]
  exact ⟨(i, k), mem_append_right _ (mem_singleton_self _), decide_eq_true rfl⟩

/-- **What asking for an id comes to**: it is remembered, or the name is entered and found. -/
theorem id_cases (h : n.id keyOf fresh missing k = .ok (i, n')) :
    (n.ids.get? (keyOf k) = some i ∧ n' = n) ∨
      ∃ table, enter fresh n.table k = .ok table ∧ idOf table k = some i ∧
        n' = ⟨table, n.ids.insert (keyOf k) i⟩ := by
  rw [id] at h
  cases hc : n.ids.get? (keyOf k) with
  | some j =>
    rw [hc] at h
    cases h
    exact .inl ⟨rfl, rfl⟩
  | none =>
    rw [hc] at h
    cases ht : enter fresh n.table k with
    | error e =>
      rw [ht] at h
      cases h
    | ok table =>
      cases hi : idOf table k with
      | none =>
        simp [ht, bind, Except.bind, hi] at h
      | some j =>
        simp only [ht, bind, Except.bind, hi] at h
        cases h
        exact .inr ⟨table, rfl, hi, rfl⟩

theorem prefix_of_enter {table table' : List (I × K)} (h : enter fresh table k = .ok table') :
    table <+: table' := by
  obtain ⟨rfl, -⟩ | ⟨i, -, -, rfl⟩ := enter_cases h
  · exact prefix_refl _
  · exact prefix_append _ _

theorem grows_of_id (h : n.id keyOf fresh missing k = .ok (i, n')) : n.table <+: n'.table := by
  obtain ⟨-, rfl⟩ | ⟨table, ht, -, rfl⟩ := id_cases h
  · exact prefix_refl _
  · exact prefix_of_enter ht

/-! ## Room -/

/-- What it means that so many names can still be entered. -/
structure IsRoom (fresh : List I → Except E I) (room : Nat → List I → Prop) : Prop where
  take : ∀ m is, room (m + 1) is → ∃ i, fresh is = .ok i ∧ room m (is ++ [i])
  less : ∀ m is, room (m + 1) is → room m is

theorem IsRoom.mono {room : Nat → List I → Prop} (hr : IsRoom fresh room) {m l : Nat} (hle : m ≤ l)
    {is : List I} (h : room l is) : room m is := by
  induction hle with
  | refl => exact h
  | step _ ih => exact ih (hr.less _ _ h)

theorem id_ok {room : Nat → List I → Prop} (hr : IsRoom fresh room) {m : Nat}
    (h : room (m + 1) (n.table.map Prod.fst)) (k : K) :
    ∃ i n', n.id keyOf fresh missing k = .ok (i, n') ∧ room m (n'.table.map Prod.fst) := by
  rw [id]
  cases n.ids.get? (keyOf k) with
  | some i => exact ⟨i, n, rfl, hr.less _ _ h⟩
  | none =>
    have henter : ∃ table, enter fresh n.table k = .ok table ∧ (idOf table k).isSome = true ∧
        room m (table.map Prod.fst) := by
      rw [enter]
      split_ifs with hin
      · exact ⟨n.table, rfl, hin, hr.less _ _ h⟩
      · obtain ⟨i, hi, hroom⟩ := hr.take _ _ h
        refine ⟨n.table ++ [(i, k)], by rw [hi]; rfl, idOf_append_self _, ?_⟩
        rwa [map_append]
    obtain ⟨table, ht, hsome, hroom⟩ := henter
    obtain ⟨i, hi⟩ := isSome_iff_exists.mp hsome
    exact ⟨i, ⟨table, n.ids.insert (keyOf k) i⟩, by simp [ht, bind, Except.bind, hi], hroom⟩

open Failing (Avoids)

theorem id_avoids {e : E} (hfresh : ∀ is, Avoids e (fresh is)) (hmissing : missing ≠ e)
    (n : Interner I K C) (k : K) : Avoids e (n.id keyOf fresh missing k) := by
  have henter : ∀ table : List (I × K), Avoids e (enter fresh table k) := by
    intro table
    rw [enter]
    split_ifs
    · exact Avoids.of_ok _
    · exact (hfresh _).bind fun i => Avoids.of_ok _
  rw [id]
  cases n.ids.get? (keyOf k) with
  | some i => exact Avoids.of_ok _
  | none =>
    refine (henter n.table).bind fun table => ?_
    cases idOf table k with
    | some i => exact Avoids.of_ok _
    | none => exact Avoids.of_error hmissing

/-! ## Soundness -/

variable [DecidableEq I]

/-- Each name has one id, each id one name, and what is remembered is so. -/
structure Sound (keyOf : K → C) (n : Interner I K C) : Prop where
  ids_nodup : (n.table.map Prod.fst).Nodup
  names_nodup : (n.table.map Prod.snd).Nodup
  cached : ∀ c i, n.ids.get? c = some i → ∃ k, named n.table i = some k ∧ keyOf k = c

def forget (n : Interner I K C) : Interner I K C := { n with ids := .empty }

omit [DecidableEq K] in
theorem Sound.forget (h : n.Sound keyOf) : n.forget.Sound keyOf where
  ids_nodup := h.ids_nodup
  names_nodup := h.names_nodup
  cached := fun c i hc => by
    rw [Interner.forget, SortedMap.get?_empty] at hc
    cases hc

/-- **An id names what it was asked for**, and the interner stays sound. -/
theorem id_spec (hfresh : ∀ is i, fresh is = .ok i → i ∉ is) (hs : n.Sound keyOf)
    (h : n.id keyOf fresh missing k = .ok (i, n')) :
    n'.Sound keyOf ∧ ∃ k', named n'.table i = some k' ∧ keyOf k' = keyOf k := by
  obtain ⟨hc, rfl⟩ | ⟨table, ht, hi, rfl⟩ := id_cases h
  · exact ⟨hs, hs.cached _ _ hc⟩
  have hnodup : (table.map Prod.fst).Nodup ∧ (table.map Prod.snd).Nodup := by
    obtain ⟨rfl, -⟩ | ⟨j, hj, hk, rfl⟩ := enter_cases ht
    · exact ⟨hs.ids_nodup, hs.names_nodup⟩
    · rw [map_append, map_append]
      exact ⟨hs.ids_nodup.append (nodup_singleton _) (disjoint_singleton.mpr (hfresh _ _ hj)),
        hs.names_nodup.append (nodup_singleton _) (disjoint_singleton.mpr hk)⟩
  have hnamed : named table i = some k := named_of_mem hnodup.1 (mem_of_idOf hi)
  refine ⟨⟨hnodup.1, hnodup.2, fun c j hj => ?_⟩, k, hnamed, rfl⟩
  rw [SortedMap.get?_insert] at hj
  split_ifs at hj with hc
  · cases hj
    exact ⟨k, hnamed, hc.symm⟩
  · obtain ⟨k', hk', hkey⟩ := hs.cached c j hj
    exact ⟨k', named_mono (prefix_of_enter ht) hk', hkey⟩

end Interner

/-! ## Rows that refer to names -/

section Links

variable {R O D : Type u} [DecidableEq I] [LinearOrder K] [DecidableEq O]
  (fresh : List I → Except E I) (missing conflict : E) (ownerOf : R → O) (refOf : R → I)

def link (name : D → K) (row : D → I → R) (st : Interner I K K × List R) (d : D) :
    Except E (Interner I K K × List R) := do
  let (i, n) ← st.1.id (fun k => k) fresh missing (name d)
  if st.2.any fun r => ownerOf r = ownerOf (row d i) ∧ refOf r = i then .error conflict
  else .ok (n, st.2 ++ [row d i])

variable {fresh missing conflict ownerOf refOf} {o : O} {name : D → K} {row : D → I → R}
  {st st' : Interner I K K × List R} {d : D} {ds : List D}

def RowsOf (ownerOf : R → O) (refOf : R → I) (row : D → I → R) (o : O) : Prop :=
  ∀ d i, ownerOf (row d i) = o ∧ refOf (row d i) = i

theorem link_avoids {e : E} (hfresh : ∀ is, Failing.Avoids e (fresh is)) (hmissing : missing ≠ e)
    (hconflict : conflict ≠ e) (st : Interner I K K × List R) (d : D) :
    Failing.Avoids e (link fresh missing conflict ownerOf refOf name row st d) := by
  rw [link]
  refine (Interner.id_avoids hfresh hmissing _ _).bind fun res => ?_
  dsimp only
  split_ifs
  · exact Failing.Avoids.of_error hconflict
  · exact Failing.Avoids.of_ok _

theorem link_spec (hfresh : ∀ is i, fresh is = .ok i → i ∉ is) (hrow : RowsOf ownerOf refOf row o)
    (hs : st.1.Sound fun k => k)
    (h : link fresh missing conflict ownerOf refOf name row st d = .ok st') :
    (st'.1.Sound fun k => k) ∧ st.1.table <+: st'.1.table ∧
      ∃ i, named st'.1.table i = some (name d) ∧ st'.2 = st.2 ++ [row d i] ∧
        ∀ r ∈ st.2, ownerOf r = o → refOf r ≠ i := by
  rw [link] at h
  cases hid : st.1.id (fun k => k) fresh missing (name d) with
  | error e =>
    rw [hid] at h
    cases h
  | ok res =>
    obtain ⟨i, n⟩ := res
    simp only [hid, bind, Except.bind] at h
    split_ifs at h with hany
    cases h
    obtain ⟨hsound, k, hk, hname⟩ := Interner.id_spec hfresh hs hid
    refine ⟨hsound, Interner.grows_of_id hid, i, hname ▸ hk, rfl, fun r hr ho href => hany ?_⟩
    exact any_eq_true.mpr ⟨r, hr, decide_eq_true ⟨ho.trans (hrow d i).1.symm, href⟩⟩

/-- **Rows that are linked have different names**, and each refers to its own. -/
theorem foldlM_link_spec (hfresh : ∀ is i, fresh is = .ok i → i ∉ is)
    (hrow : RowsOf ownerOf refOf row o) (hs : st.1.Sound fun k => k)
    (h : ds.foldlM (link fresh missing conflict ownerOf refOf name row) st = .ok st') :
    (st'.1.Sound fun k => k) ∧ st.1.table <+: st'.1.table ∧ (ds.map name).Nodup ∧
      (∀ r ∈ st.2, ownerOf r = o → ∀ k ∈ ds.map name, named st.1.table (refOf r) ≠ some k) ∧
      ∃ rs, st'.2 = st.2 ++ rs ∧
        List.Forall₂ (fun d r => ∃ i, r = row d i ∧ named st'.1.table i = some (name d)) ds rs := by
  induction ds generalizing st with
  | nil =>
    cases h
    exact ⟨hs, prefix_refl _, nodup_nil, fun _ _ _ k hk => absurd hk not_mem_nil,
      [], (append_nil _).symm, .nil⟩
  | cons d ds ih =>
    rw [foldlM_cons] at h
    cases hfirst : link fresh missing conflict ownerOf refOf name row st d with
    | error e =>
      rw [hfirst] at h
      cases h
    | ok st₁ =>
      rw [hfirst] at h
      obtain ⟨hs₁, hgrow₁, i, hi, hrows₁, honly⟩ := link_spec hfresh hrow hs hfirst
      obtain ⟨hs', hgrow, hnodup, hother, rs, hrows, hall⟩ := ih hs₁ h
      have hmem : row d i ∈ st₁.2 := hrows₁ ▸ mem_append_right _ (mem_singleton_self _)
      have hown := hrow d i
      have hnew : name d ∉ ds.map name := fun hin =>
        hother _ hmem hown.1 _ hin (hown.2.symm ▸ hi)
      refine ⟨hs', hgrow₁.trans hgrow, nodup_cons.mpr ⟨hnew, hnodup⟩, ?_, row d i :: rs, ?_,
        .cons ⟨i, rfl, named_mono hgrow hi⟩ hall⟩
      · intro r hr ho k hk hnamed
        obtain rfl | hk := mem_cons.mp hk
        · exact honly r hr ho (id_unique hs₁.names_nodup (named_mono hgrow₁ hnamed) hi)
        · exact hother r (hrows₁ ▸ mem_append_left _ hr) ho k hk (named_mono hgrow₁ hnamed)
      · rw [hrows, hrows₁, append_assoc, singleton_append]

/-- **Rows of different names can be linked** where there is room for the names, and the owner has
none of them yet. -/
theorem foldlM_link_ok {room : Nat → List I → Prop} (hr : Interner.IsRoom fresh room)
    (hfresh : ∀ is i, fresh is = .ok i → i ∉ is) (hrow : RowsOf ownerOf refOf row o)
    (hs : st.1.Sound fun k => k) (hnodup : (ds.map name).Nodup)
    (hfree : ∀ r ∈ st.2, ownerOf r = o → ∃ k, named st.1.table (refOf r) = some k ∧ k ∉ ds.map name)
    {m : Nat} (hroom : room (m + ds.length) (st.1.table.map Prod.fst)) :
    ∃ st', ds.foldlM (link fresh missing conflict ownerOf refOf name row) st = .ok st' ∧
      room m (st'.1.table.map Prod.fst) := by
  induction ds generalizing st with
  | nil => exact ⟨st, rfl, hroom⟩
  | cons d ds ih =>
    rw [map_cons, nodup_cons] at hnodup
    have hentered : ∃ i n, st.1.id (fun k => k) fresh missing (name d) = .ok (i, n) ∧
        room (m + ds.length) (n.table.map Prod.fst) := Interner.id_ok hr hroom (name d)
    obtain ⟨i, n, hid, hroom₁⟩ := hentered
    obtain ⟨hsound, k, hk, hname⟩ := Interner.id_spec hfresh hs hid
    have hgrow := Interner.grows_of_id hid
    have hany : ¬ (st.2.any fun r => ownerOf r = ownerOf (row d i) ∧ refOf r = i) = true := by
      intro hany
      obtain ⟨r, hr, hboth⟩ := any_eq_true.mp hany
      obtain ⟨ho, rfl⟩ := of_decide_eq_true hboth
      obtain ⟨k', hk', hnot⟩ := hfree r hr (ho.trans (hrow d _).1)
      have hsame : k' = name d := (some.inj ((named_mono hgrow hk').symm.trans hk)).trans hname
      exact hnot (hsame ▸ mem_cons_self ..)
    have hfirst : link fresh missing conflict ownerOf refOf name row st d =
        .ok (n, st.2 ++ [row d i]) := by
      rw [link, hid]
      exact if_neg hany
    rw [foldlM_cons, hfirst]
    refine ih hsound hnodup.2 ?_ hroom₁
    intro r hr ho
    obtain hr | hr := mem_append.mp hr
    · obtain ⟨k', hk', hnot⟩ := hfree r hr ho
      exact ⟨k', named_mono hgrow hk', fun hin => hnot (mem_cons_of_mem _ hin)⟩
    · rw [mem_singleton.mp hr, (hrow d i).2]
      exact ⟨name d, hname ▸ hk, hnodup.1⟩

end Links

end Interning
