import Mathlib.Logic.Function.Basic

/-!
# Programs that share a world

Several programs run beside each other. Each makes one call at a time; a call is answered by the
world, which is changed by it, and between the calls of one program there may be any number of calls
of the others. The world need not say what it answers: `answers i op w a w'` is everything that may
come of a call.

A program is proved on its own (`Safe`): it relies on what the others do to the world, it guarantees
what its own calls do to it, and it ends with what it has promised. `reachable_safe` puts such
programs together, where everyone's guarantee is what the others rely on.
-/

universe u v

namespace Sharing

/-- A program that makes calls, and goes on with their answers. -/
inductive Prog (Op : Type u) (Ans : Op → Type u) (R : Type u) where
  | ret (r : R)
  | call (op : Op) (k : Ans op → Prog Op Ans R)

variable {Op : Type u} {Ans : Op → Type u} {R S : Type u} {W : Type v}

namespace Prog

def bind : Prog Op Ans R → (R → Prog Op Ans S) → Prog Op Ans S
  | ret r, f => f r
  | call op k, f => call op fun a => (k a).bind f

end Prog

/-! ## One program -/

section Safe

variable (answers : (op : Op) → W → Ans op → W → Prop) (rely guarantee : W → W → Prop)

/-- **A program that keeps to its promises**, from a world on: whatever the others have done before
a call and whatever comes of it, the call does what it may, and at the end the promise is kept. -/
def Safe (post : R → W → Prop) : Prog Op Ans R → W → Prop
  | .ret r, w => post r w
  | .call op k, w => ∀ w₁ a w₂, rely w w₁ → answers op w₁ a w₂ →
      guarantee w₁ w₂ ∧ Safe post (k a) w₂

variable {answers rely guarantee}

theorem Safe.mono {post post' : R → W → Prop} (h : ∀ r w, post r w → post' r w)
    {p : Prog Op Ans R} {w : W} (hp : Safe answers rely guarantee post p w) :
    Safe answers rely guarantee post' p w := by
  induction p generalizing w with
  | ret r => exact h r w hp
  | call op k ih =>
    intro w₁ a w₂ hrely hans
    obtain ⟨hguar, hrest⟩ := hp w₁ a w₂ hrely hans
    exact ⟨hguar, ih a hrest⟩

theorem safe_bind {post : S → W → Prop} {p : Prog Op Ans R} {f : R → Prog Op Ans S} {w : W} :
    Safe answers rely guarantee post (p.bind f) w ↔
      Safe answers rely guarantee (fun r => Safe answers rely guarantee post (f r)) p w := by
  induction p generalizing w with
  | ret r => exact Iff.rfl
  | call op k ih =>
    refine forall₃_congr fun w₁ a w₂ => ?_
    refine forall₂_congr fun _ _ => and_congr_right fun _ => ?_
    exact ih a

theorem Safe.bind {post : S → W → Prop} {mid : R → W → Prop} {p : Prog Op Ans R}
    {f : R → Prog Op Ans S} {w : W} (hp : Safe answers rely guarantee mid p w)
    (hf : ∀ r w', mid r w' → Safe answers rely guarantee post (f r) w') :
    Safe answers rely guarantee post (p.bind f) w :=
  safe_bind.mpr (hp.mono hf)

theorem Safe.relied {post : R → W → Prop}
    (htrans : ∀ w₁ w₂ w₃, rely w₁ w₂ → rely w₂ w₃ → rely w₁ w₃) {op : Op}
      {k : Ans op → Prog Op Ans R}
    {w w' : W} (hp : Safe answers rely guarantee post (.call op k) w) (h : rely w w') :
    Safe answers rely guarantee post (.call op k) w' :=
  fun w₁ a w₂ hrely hans => hp w₁ a w₂ (htrans w w' w₁ h hrely) hans

end Safe

/-! ## All of them -/

variable {ι : Type u} [DecidableEq ι]

/-- What is left of each program, and the world. -/
structure State (ι : Type u) (Op : Type u) (Ans : Op → Type u) (R : Type u) (W : Type v) where
  progs : ι → Prog Op Ans R
  world : W

variable (answers : ι → (op : Op) → W → Ans op → W → Prop)

inductive Step (i : ι) : State ι Op Ans R W → State ι Op Ans R W → Prop where
  | call {s : State ι Op Ans R W} {op : Op} {k : Ans op → Prog Op Ans R} {a : Ans op} {w : W}
      (next : s.progs i = .call op k) (answered : answers i op s.world a w) :
      Step i s ⟨Function.update s.progs i (k a), w⟩

/-- What a run may come to. -/
inductive Reachable (s₀ : State ι Op Ans R W) : State ι Op Ans R W → Prop where
  | start : Reachable s₀ s₀
  | step {s s' : State ι Op Ans R W} {i : ι} (before : Reachable s₀ s)
      (step : Step answers i s s') :
      Reachable s₀ s'

variable {answers} {rely guarantee : ι → W → W → Prop} {post : ι → R → W → Prop}

def SafeOrDone (answers : ι → (op : Op) → W → Ans op → W → Prop) (rely guarantee : ι → W → W → Prop)
    (post : ι → R → W → Prop) (i : ι) (s : State ι Op Ans R W) : Prop :=
  (∃ r, s.progs i = .ret r) ∨
    Safe (answers i) (rely i) (guarantee i) (post i) (s.progs i) s.world

/-- **One step** is what its program guarantees, leaves everything safe, and keeps the promise if it
is the last. -/
theorem step_safe (hrefl : ∀ i w, rely i w w)
    (htrans : ∀ i w₁ w₂ w₃, rely i w₁ w₂ → rely i w₂ w₃ → rely i w₁ w₃)
    (hothers : ∀ i j w w', i ≠ j → guarantee i w w' → rely j w w')
      {s s' : State ι Op Ans R W} {i : ι}
    (hsafe : ∀ j, SafeOrDone answers rely guarantee post j s) (hstep : Step answers i s s') :
    guarantee i s.world s'.world ∧ (∀ j, SafeOrDone answers rely guarantee post j s') ∧
      ∀ r, s'.progs i = .ret r → post i r s'.world := by
  obtain ⟨hnext, hans⟩ := hstep
  rename_i op k a w
  have hi : Safe (answers i) (rely i) (guarantee i) (post i) (.call op k) s.world := by
    obtain ⟨r, hr⟩ | hi := hsafe i
    · exact nomatch hr.symm.trans hnext
    · rwa [hnext] at hi
  obtain ⟨hguar, hrest⟩ := hi s.world a w (hrefl i s.world) hans
  have hself : Function.update s.progs i (k a) i = k a := Function.update_self ..
  refine ⟨hguar, fun j => ?_, fun r hr => ?_⟩
  · by_cases hij : j = i
    · subst hij
      refine .inr ?_
      change Safe _ _ _ _ (Function.update s.progs j (k a) j) w
      rwa [hself]
    · have hother : Function.update s.progs i (k a) j = s.progs j := Function.update_of_ne hij ..
      change (∃ r, Function.update s.progs i (k a) j = .ret r) ∨
        Safe _ _ _ _ (Function.update s.progs i (k a) j) w
      rw [hother]
      cases hprog : s.progs j with
      | ret r => exact .inl ⟨r, rfl⟩
      | call op k =>
        obtain ⟨r, hr⟩ | hj := hsafe j
        · exact nomatch hr.symm.trans hprog
        · rw [hprog] at hj
          exact .inr (hj.relied (htrans j) (hothers i j _ _ (Ne.symm hij) hguar))
  · have hret : k a = .ret r := hself.symm.trans hr
    rwa [hret] at hrest

/-- **Safe programs beside each other.** Whatever a run has come to, everything is safe, and each
step from there is what its program guarantees, and keeps the promise if it is the last. -/
theorem reachable_safe (hrefl : ∀ i w, rely i w w)
    (htrans : ∀ i w₁ w₂ w₃, rely i w₁ w₂ → rely i w₂ w₃ → rely i w₁ w₃)
    (hothers : ∀ i j w w', i ≠ j → guarantee i w w' → rely j w w') {s₀ s : State ι Op Ans R W}
    (h₀ : ∀ i, Safe (answers i) (rely i) (guarantee i) (post i) (s₀.progs i) s₀.world)
    (hs : Reachable answers s₀ s) :
    (∀ i, SafeOrDone answers rely guarantee post i s) ∧ ∀ i s', Step answers i s s' →
        guarantee i s.world s'.world ∧ ∀ r, s'.progs i = .ret r → post i r s'.world := by
  have hsafe : ∀ i, SafeOrDone answers rely guarantee post i s := by
    induction hs with
    | start => exact fun i => .inr (h₀ i)
    | step before step ih => exact (step_safe hrefl htrans hothers ih step).2.1
  refine ⟨hsafe, fun i s' hstep => ?_⟩
  obtain ⟨hguar, -, hpost⟩ := step_safe hrefl htrans hothers hsafe hstep
  exact ⟨hguar, hpost⟩

/-- What holds at the start and is kept by what is guaranteed holds of the world at all times. -/
theorem reachable_inv {I : W → Prop} (hrefl : ∀ i w, rely i w w)
    (htrans : ∀ i w₁ w₂ w₃, rely i w₁ w₂ → rely i w₂ w₃ → rely i w₁ w₃)
    (hothers : ∀ i j w w', i ≠ j → guarantee i w w' → rely j w w')
    (hkeeps : ∀ i w w', I w → guarantee i w w' → I w') {s₀ s : State ι Op Ans R W}
    (h₀ : ∀ i, Safe (answers i) (rely i) (guarantee i) (post i) (s₀.progs i) s₀.world)
    (hI : I s₀.world) (hs : Reachable answers s₀ s) : I s.world := by
  induction hs with
  | start => exact hI
  | step before step ih =>
    exact hkeeps _ _ _ ih ((reachable_safe hrefl htrans hothers h₀ before).2 _ _ step).1

end Sharing
