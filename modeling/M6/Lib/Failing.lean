import Mathlib.Logic.Basic

/-!
# Computations that fail in one way

A computation that can fail in one way only comes to something on a condition, and fails without it
(`Yields`). Steps that are taken one after the other, and loops, come to what they come to if no
step fails (`Yields.bind`, `Yields.foldlM`, `Yields.mapM`). One that can fail in several ways may
avoid one of them (`Avoids`).
-/

namespace Failing

universe u v w

variable {E : Type u} {A B C : Type v} {e : E}

/-- **A computation that comes to a value if a condition holds**, and fails if it does not. -/
structure Yields (e : E) (x : Except E A) (p : Prop) (a : A) : Prop where
  ok : p → x = .ok a
  error : ¬ p → x = .error e

/-- What a computation comes to, where it comes to something. -/
def value [Inhabited A] (x : Except E A) : A := x.toOption.getD default

namespace Yields

variable {x : Except E A}

theorem of_value [Inhabited A] {p : Prop} (hok : p → ∃ a, x = .ok a)
    (herror : ¬ p → x = .error e) : Yields e x p (value x) := by
  constructor
  · intro hp
    obtain ⟨a, rfl⟩ := hok hp
    rfl
  · exact herror

theorem of_ok (a : A) : Yields e (.ok a) True a := ⟨fun _ => rfl, fun h => absurd trivial h⟩

theorem of_error (a : A) : Yields e (.error e) False a := ⟨False.elim, fun _ => rfl⟩

theorem congr {p q : Prop} {a : A} (h : Yields e x p a) (hpq : p ↔ q) : Yields e x q a :=
  ⟨fun hq => h.ok (hpq.mpr hq), fun hq => h.error (mt hpq.mp hq)⟩

theorem bind {f : A → Except E B} {p q : Prop} {a : A} {b : B}
    (hx : Yields e x p a) (hf : p → Yields e (f a) q b) : Yields e (x >>= f) (p ∧ q) b := by
  constructor
  · rintro ⟨hp, hq⟩
    rw [hx.ok hp]
    exact (hf hp).ok hq
  · intro hpq
    by_cases hp : p
    · rw [hx.ok hp]
      exact (hf hp).error fun hq => hpq ⟨hp, hq⟩
    · rw [hx.error hp]
      rfl

theorem bind_ok {f : A → Except E B} {p : Prop} {a : A} {b : B}
    (hx : Yields e x p a) (hf : f a = .ok b) : Yields e (x >>= f) p b := by
  have hlast : p → Yields e (f a) True b := fun _ => hf ▸ of_ok b
  exact (hx.bind hlast).congr (and_iff_left trivial)

theorem isOk_iff {p : Prop} {a : A} (h : Yields e x p a) : (∃ b, x = .ok b) ↔ p := by
  constructor
  · rintro ⟨b, hb⟩
    refine Classical.byContradiction fun hp => ?_
    rw [h.error hp] at hb
    cases hb
  · exact fun hp => ⟨a, h.ok hp⟩

theorem eq_ok_iff {p : Prop} {a b : A} (h : Yields e x p a) : x = .ok b ↔ p ∧ a = b := by
  constructor
  · intro hb
    have hp := h.isOk_iff.mp ⟨b, hb⟩
    rw [h.ok hp] at hb
    exact ⟨hp, Except.ok.inj hb⟩
  · rintro ⟨hp, rfl⟩
    exact h.ok hp

variable {f : A → C → Except E A} {g : A → C → A} {p : C → Prop}

/-- **A loop fails if one of its steps does.** -/
theorem foldlM (h : ∀ s c, Yields e (f s c) (p c) (g s c)) (cs : List C) (s : A) :
    Yields e (cs.foldlM f s) (∀ c ∈ cs, p c) (cs.foldl g s) := by
  induction cs generalizing s with
  | nil => exact (of_ok s).congr ⟨fun _ c hc => absurd hc List.not_mem_nil, fun _ => trivial⟩
  | cons c cs ih =>
    rw [List.foldlM_cons, List.foldl_cons]
    exact ((h s c).bind fun _ => ih (g s c)).congr List.forall_mem_cons.symm

theorem mapM {f : C → Except E B} {g : C → B} (h : ∀ c, Yields e (f c) (p c) (g c))
    (cs : List C) : Yields e (cs.mapM f) (∀ c ∈ cs, p c) (cs.map g) := by
  induction cs with
  | nil => exact (of_ok []).congr ⟨fun _ c hc => absurd hc List.not_mem_nil, fun _ => trivial⟩
  | cons c cs ih =>
    rw [List.mapM_cons]
    exact ((h c).bind fun _ =>
      ih.bind_ok (f := fun bs => .ok (g c :: bs)) rfl).congr List.forall_mem_cons.symm

theorem option_mapM {f : C → Except E B} {g : C → B} (h : ∀ c, Yields e (f c) (p c) (g c))
    (o : Option C) : Yields e (o.mapM f) (∀ c ∈ o, p c) (o.map g) := by
  cases o with
  | none => exact (of_ok none).congr ⟨fun _ c hc => (nomatch hc), fun _ => trivial⟩
  | some c =>
    have hsome : Yields e (some <$> f c) (p c) (some (g c)) :=
      ⟨fun hp => by rw [(h c).ok hp]; rfl, fun hp => by rw [(h c).error hp]; rfl⟩
    rw [Option.mapM_some]
    exact hsome.congr ⟨fun hp _ hc => Option.mem_some_iff.mp hc ▸ hp, fun hall => hall c rfl⟩

end Yields

/-! ## What comes of a computation -/

theorem bind_eq_ok {x : Except E A} {f : A → Except E B} {b : B} :
    x >>= f = .ok b ↔ ∃ a, x = .ok a ∧ f a = .ok b := by
  cases x with
  | error e => exact ⟨fun h => (nomatch h), fun ⟨_, h, _⟩ => (nomatch h)⟩
  | ok a =>
    constructor
    · exact fun h => ⟨a, rfl, h⟩
    · rintro ⟨_, ⟨⟩, h⟩
      exact h

/-! ## Failures that do not happen -/

/-- A computation that does not fail in some way. -/
def Avoids (e : E) (x : Except E A) : Prop := x ≠ .error e

namespace Avoids

theorem of_ok (a : A) : Avoids e (.ok a) := fun h => nomatch h

theorem of_error {e' : E} (h : e' ≠ e) : Avoids e (.error e' : Except E A) :=
  fun heq => h (Except.error.inj heq)

theorem bind {x : Except E A} {f : A → Except E B} (hx : Avoids e x) (hf : ∀ a, Avoids e (f a)) :
    Avoids e (x >>= f) := by
  cases x with
  | error e' => exact of_error fun h => hx (congrArg Except.error h)
  | ok a => exact hf a

theorem foldlM {f : A → C → Except E A} (hf : ∀ s c, Avoids e (f s c)) (cs : List C) (s : A) :
    Avoids e (cs.foldlM f s) := by
  induction cs generalizing s with
  | nil => exact of_ok s
  | cons c cs ih =>
    rw [List.foldlM_cons]
    exact (hf s c).bind ih

end Avoids

end Failing
