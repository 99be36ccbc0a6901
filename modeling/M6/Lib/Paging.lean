import Mathlib.Order.Lattice
import Mathlib.Data.List.Basic

/-!
# Pages of ordered rows

A reader gets the rows of a table in pages. Each page begins at the key where the one before it
ended, and each is of the table as it is at that time. Rows come and go between two pages.

`IsPage` is what one page is: the rows from a key on, up to some row, whose key is where the next
page begins. A page is not empty unless there is nothing left. `Covers` is what pages in a row come
to, whatever the tables were: no key is sent twice, and a key that was there throughout is sent. If
the table stays as it is, the pages are the table (`IsPage.rest`), and each of them leaves fewer
rows (`IsPage.shorter`).
-/

namespace Paging

open List

universe u v

variable {R : Type u} {K : Type v} [LinearOrder K] (key : R → K)

abbrev Ordered (rows : List R) : Prop := rows.Pairwise fun a b => key a < key b

def onward (after : Option K) (rows : List R) : List R :=
  rows.filter fun r => after.all fun k => k ≤ key r

/-- **One page** of a table, from a key on: a piece of the rest, and the key of what comes next. -/
def IsPage (rows : List R) (after : Option K) (page : List R) (next : Option K) : Prop :=
  ∃ rest, onward key after rows = page ++ rest ∧ next = rest.head?.map key ∧ (page = [] → rest = [])

variable {key}

@[simp] theorem onward_none (rows : List R) : onward key none rows = rows :=
  filter_eq_self.mpr fun _ _ => rfl

theorem mem_onward_some {k : K} {rows : List R} {r : R} :
    r ∈ onward key (some k) rows ↔ r ∈ rows ∧ k ≤ key r := by
  simp [onward]

theorem Ordered.onward {rows : List R} (h : Ordered key rows) (after : Option K) :
    Ordered key (onward key after rows) :=
  h.filter _

theorem onward_of_split {rows : List R} (h : Ordered key rows) {after : Option K}
    {page rest : List R} {r : R} (hsplit : onward key after rows = page ++ r :: rest) :
    onward key (some (key r)) rows = r :: rest := by
  have hsorted : Ordered key (page ++ r :: rest) := hsplit ▸ h.onward after
  obtain ⟨_, hrest, hpage⟩ := pairwise_append.mp hsorted
  have hmem : r ∈ Paging.onward key after rows := by
    rw [hsplit]
    exact mem_append_right _ (mem_cons_self ..)
  have hafter : after.all (fun k => k ≤ key r) = true := (mem_filter.mp hmem).2
  -- nothing is lost by looking among the rows after `after` only
  have hwithin : Paging.onward key (some (key r)) rows =
      Paging.onward key (some (key r)) (Paging.onward key after rows) := by
    rw [Paging.onward, Paging.onward, Paging.onward, filter_filter]
    refine filter_congr fun x _ => ?_
    cases after with
    | none => simp
    | some k =>
      have hk : k ≤ key r := by simpa using hafter
      by_cases hx : key r ≤ key x
      · simp [hx, hk.trans hx]
      · simp [hx]
  rw [hwithin, hsplit, Paging.onward, filter_append]
  have hbefore : page.filter (fun x => (some (key r)).all fun k => k ≤ key x) = [] := by
    refine filter_eq_nil_iff.mpr fun x hx => ?_
    have hlt := hpage x hx r (mem_cons_self ..)
    simpa using hlt
  have hfrom : (r :: rest).filter (fun x => (some (key r)).all fun k => k ≤ key x) = r :: rest := by
    refine filter_eq_self.mpr fun x hx => ?_
    obtain rfl | hx := mem_cons.mp hx
    · simp
    · have hlt := (pairwise_cons.mp hrest).1 x hx
      simpa using hlt.le
  rw [hbefore, hfrom, nil_append]

/-! ## The same table -/

theorem IsPage.rest {rows sent page : List R} {after next : Option K} (hrows : Ordered key rows)
    (h : IsPage key rows after page next) (hsent : sent ++ onward key after rows = rows) :
    (∀ k, next = some k → (sent ++ page) ++ onward key (some k) rows = rows) ∧
      (next = none → sent ++ page = rows) := by
  obtain ⟨rest, hsplit, hnext, _⟩ := h
  rw [hsplit, ← append_assoc] at hsent
  cases rest with
  | nil =>
    rw [hnext]
    refine ⟨(fun k hk => nomatch hk), fun _ => ?_⟩
    rwa [append_nil] at hsent
  | cons r rest =>
    rw [hnext]
    refine ⟨?_, fun hk => nomatch hk⟩
    rintro _ ⟨⟩
    rw [onward_of_split hrows hsplit]
    exact hsent

theorem IsPage.shorter {rows page : List R} {after : Option K} {k : K} (hrows : Ordered key rows)
    (h : IsPage key rows after page (some k)) :
    (onward key (some k) rows).length < (onward key after rows).length := by
  obtain ⟨rest, hsplit, hnext, hpage⟩ := h
  cases rest with
  | nil => exact nomatch hnext
  | cons r rest =>
    cases hnext
    have hne : page ≠ [] := fun hnil => nomatch hpage hnil
    rw [onward_of_split hrows hsplit, hsplit, length_append]
    have hpos := length_pos_iff.mpr hne
    omega

/-! ## Tables that change -/

/-- Where a reader is. -/
inductive Position (K : Type v) where
  | start
  | upTo (k : K)
  | finished

namespace Position

def after : Position K → Option K
  | .upTo k => some k
  | _ => none

def ofNext : Option K → Position K
  | some k => .upTo k
  | none => .finished

def IsPast : Position K → K → Prop
  | .start, _ => False
  | .upTo c, k => k < c
  | .finished, _ => True

end Position

/-- **What pages come to** that are each of another table: keys are sent in order, and what was
there throughout, and is passed, was sent. -/
structure Covers (key : R → K) (tables : List (List R)) (sent : List R) (p : Position K) :
    Prop where
  ordered : Ordered key sent
  passed : ∀ r ∈ sent, p.IsPast (key r)
  complete : ∀ k, p.IsPast k → (∀ rows ∈ tables, ∃ r ∈ rows, key r = k) → ∃ r ∈ sent, key r = k

theorem covers_start : Covers key [] [] .start where
  ordered := .nil
  passed := fun _ h => nomatch h
  complete := fun _ h => h.elim

/-- **One more page**, of whatever the table is now. -/
theorem Covers.page {tables : List (List R)} {sent page rows : List R} {p : Position K}
    {next : Option K} (h : Covers key tables sent p) (hp : p ≠ .finished) (hrows : Ordered key rows)
    (hpage : IsPage key rows p.after page next) :
    Covers key (tables ++ [rows]) (sent ++ page) (.ofNext next) := by
  obtain ⟨rest, hsplit, hnext, _⟩ := hpage
  have hsorted : Ordered key (page ++ rest) := hsplit ▸ hrows.onward p.after
  have hmem : ∀ r ∈ page, r ∈ onward key p.after rows := fun r hr => by
    rw [hsplit]
    exact mem_append_left _ hr
  -- what was passed before comes before all that is sent now
  have hsent : ∀ k, p.IsPast k → ∀ r ∈ page, k < key r := by
    intro k hk r hr
    cases p with
    | start => exact hk.elim
    | upTo c => exact lt_of_lt_of_le hk (mem_onward_some.mp (hmem r hr)).2
    | finished => exact absurd rfl hp
  have hpast : ∀ k, (p.IsPast k ∨ ∃ r ∈ page, key r = k) → (Position.ofNext next).IsPast k := by
    intro k hk
    cases rest with
    | nil =>
      rw [hnext]
      trivial
    | cons c rest =>
      rw [hnext]
      obtain hk | ⟨r, hr, rfl⟩ := hk
      · have hc : c ∈ onward key p.after rows := by
          rw [hsplit]
          exact mem_append_right _ (mem_cons_self ..)
        cases p with
        | start => exact hk.elim
        | upTo d => exact lt_of_lt_of_le hk (mem_onward_some.mp hc).2
        | finished => exact absurd rfl hp
      · exact (pairwise_append.mp hsorted).2.2 r hr c (mem_cons_self ..)
  refine ⟨?_, ?_, ?_⟩
  · refine pairwise_append.mpr ⟨h.ordered, (pairwise_append.mp hsorted).1, ?_⟩
    exact fun a ha b hb => hsent (key a) (h.passed a ha) b hb
  · intro r hr
    obtain hr | hr := mem_append.mp hr
    · exact hpast _ (Or.inl (h.passed r hr))
    · exact hpast _ (Or.inr ⟨r, hr, rfl⟩)
  · intro k hk hthere
    by_cases hbefore : p.IsPast k
    · obtain ⟨r, hr, hkey⟩ := h.complete k hbefore fun t ht =>
        hthere t (mem_append_left _ ht)
      exact ⟨r, mem_append_left _ hr, hkey⟩
    · obtain ⟨r, hr, rfl⟩ := hthere rows (mem_append_right _ (mem_singleton_self _))
      -- the row is not passed yet, so it is among those the page begins with
      have hon : r ∈ onward key p.after rows := by
        cases p with
        | start => simpa [Position.after] using hr
        | upTo c => exact mem_onward_some.mpr ⟨hr, not_lt.mp hbefore⟩
        | finished => exact absurd rfl hp
      rw [hsplit] at hon
      obtain hr | hr := mem_append.mp hon
      · exact ⟨r, mem_append_right _ hr, rfl⟩
      · cases rest with
        | nil => exact nomatch hr
        | cons c rest =>
          rw [hnext] at hk
          obtain rfl | hr := mem_cons.mp hr
          · exact absurd hk (lt_irrefl _)
          · have hlt := (pairwise_cons.mp (pairwise_append.mp hsorted).2.1).1 r hr
            exact absurd hk hlt.not_gt

end Paging
