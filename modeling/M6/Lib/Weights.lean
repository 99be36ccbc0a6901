import M6.Lib.SortedMap

/-!
# The weight of a map, and eviction by age

A map whose values weigh something weighs what they weigh together (`weight`). An insertion takes
the weight of what it replaces away and adds its own; a filter divides the weight.

A bounded store that must lose weight drops what is oldest. `cutoff` walks the ages and weights of
the entries, oldest first, until few enough remain, and says which ages go. Everything younger than
what goes stays, and what stays weighs no more than it may (`weight_above_cutoff`).
-/

universe u v

namespace SortedMap

variable {K : Type u} {V : Type v} [LinearOrder K]

/-! ## Weight -/

def weight (f : V → Nat) (m : SortedMap K V) : Nat := (m.entries.map fun e => f e.2).sum

@[simp] theorem weight_empty (f : V → Nat) : (empty : SortedMap K V).weight f = 0 := rfl

theorem lookup_eq_none {k : K} {l : List (K × V)} (h : ∀ e ∈ l, k < e.1) : lookup k l = none := by
  induction l with
  | nil => rfl
  | cons a l ih =>
    rw [lookup, if_neg (h a List.mem_cons_self).ne]
    exact ih fun e he => h e (List.mem_cons_of_mem _ he)

theorem weight_insertEntry (f : V → Nat) (k : K) (v : V) {l : List (K × V)}
    (hl : l.Pairwise fun a b => a.1 < b.1) :
    ((insertEntry k v l).map fun e => f e.2).sum + ((lookup k l).map f).getD 0 =
      (l.map fun e => f e.2).sum + f v := by
  induction l with
  | nil => simp [insertEntry, lookup]
  | cons a l ih =>
    obtain ⟨ha, hl⟩ := List.pairwise_cons.mp hl
    rw [insertEntry, lookup]
    obtain hlt | rfl | hgt := lt_trichotomy k a.1
    · have hnone : lookup k l = none := lookup_eq_none fun e he => hlt.trans (ha e he)
      simp [hlt, hlt.ne, hnone, Nat.add_comm]
    · simp only [lt_irrefl, if_false, if_true, List.map_cons, List.sum_cons, Option.map_some,
        Option.getD_some]
      omega
    · have hrest := ih hl
      simp only [hgt.not_gt, hgt.ne', if_false, List.map_cons, List.sum_cons]
      omega

theorem weight_insert (f : V → Nat) (m : SortedMap K V) (k : K) (v : V) :
    (m.insert k v).weight f + ((m.get? k).map f).getD 0 = m.weight f + f v :=
  weight_insertEntry f k v m.sorted

theorem weight_get?_le (f : V → Nat) (m : SortedMap K V) (k : K) :
    ((m.get? k).map f).getD 0 ≤ m.weight f := by
  cases hget : m.get? k with
  | none => exact Nat.zero_le _
  | some v =>
    obtain ⟨before, after, hsplit⟩ := List.append_of_mem (mem_entries.mpr hget)
    simp only [weight, hsplit, List.map_append, List.sum_append, List.map_cons, List.sum_cons,
      Option.map_some, Option.getD_some]
    omega

theorem weight_filter (f : V → Nat) (m : SortedMap K V) (p : K × V → Bool) :
    (m.filter p).weight f + ((m.entries.filter fun e => !p e).map fun e => f e.2).sum =
      m.weight f := by
  have hperm := (List.filter_append_perm p m.entries).map fun e => f e.2
  have hsum := hperm.sum_nat
  rw [List.map_append, List.sum_append] at hsum
  exact hsum

end SortedMap

/-! ## Eviction by age -/

namespace Eviction

/-- The age below which entries go, so that few enough weigh more than `target`: `held` is the
weight now, and the entries are ages with weights, oldest first. -/
def cutoff (target : Nat) : List (Nat × Nat) → Nat → Nat → Nat
  | [], _, age => age
  | e :: rest, held, age =>
    if held ≤ target then age else cutoff target rest (held - e.2) (e.1 + 1)

theorem le_cutoff {target : Nat} {l : List (Nat × Nat)} (hl : l.Pairwise fun a b => a.1 ≤ b.1)
    {held age : Nat} (hage : ∀ e ∈ l, age ≤ e.1 + 1) : age ≤ cutoff target l held age := by
  induction l generalizing held age with
  | nil => exact le_rfl
  | cons e rest ih =>
    obtain ⟨he, hrest⟩ := List.pairwise_cons.mp hl
    rw [cutoff]
    split_ifs
    · exact le_rfl
    · exact (hage e List.mem_cons_self).trans
        (ih hrest fun e' he' => Nat.succ_le_succ (he e' he'))

theorem held_sub_cutoff (target : Nat) {l : List (Nat × Nat)}
    (hl : l.Pairwise fun a b => a.1 ≤ b.1) {held : Nat} (hheld : held ≤ (l.map Prod.snd).sum)
    (age : Nat) :
    held - ((l.filter fun e => e.1 < cutoff target l held age).map Prod.snd).sum ≤ target := by
  induction l generalizing held age with
  | nil =>
    have hzero : held = 0 := Nat.le_zero.mp hheld
    simp [hzero]
  | cons e rest ih =>
    obtain ⟨he, hrest⟩ := List.pairwise_cons.mp hl
    rw [cutoff]
    split_ifs with hfew
    · exact (Nat.sub_le _ _).trans hfew
    · have hgoes : e.1 < cutoff target rest (held - e.2) (e.1 + 1) :=
        le_cutoff hrest fun e' he' => Nat.succ_le_succ (he e' he')
      have hrestHeld : held - e.2 ≤ (rest.map Prod.snd).sum := by
        rw [List.map_cons, List.sum_cons] at hheld
        omega
      have hleft := ih hrest hrestHeld (e.1 + 1)
      rw [List.filter_cons, if_pos (decide_eq_true hgoes), List.map_cons, List.sum_cons]
      omega

end Eviction
