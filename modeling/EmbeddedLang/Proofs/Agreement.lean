import Mathlib.Data.List.Forall2

/-!
Two computations that end alike: both succeed with related values, or both fail with related
errors.
-/

namespace EmbeddedLang

universe u

variable {ε α β γ δ : Type u} {E : ε → ε → Prop} {R : α → β → Prop} {S : γ → δ → Prop}

inductive Agree (E : ε → ε → Prop) (R : α → β → Prop) : Except ε α → Except ε β → Prop where
  | ok {a : α} {b : β} (h : R a b) : Agree E R (.ok a) (.ok b)
  | error {e e' : ε} (h : E e e') : Agree E R (.error e) (.error e')

namespace Agree

theorem pure {a : α} {b : β} (h : R a b) : Agree E R (Pure.pure a) (Pure.pure b) :=
  .ok h

theorem bind {x : Except ε α} {y : Except ε β} {f : α → Except ε γ} {g : β → Except ε δ}
    (h : Agree E R x y) (hfg : ∀ a b, R a b → Agree E S (f a) (g b)) :
    Agree E S (x >>= f) (y >>= g) := by
  cases h with
  | ok hr => exact hfg _ _ hr
  | error he => exact .error he

theorem mapM {f : α → Except ε γ} {g : β → Except ε δ} {xs : List α} {ys : List β}
    (h : List.Forall₂ R xs ys) (hfg : ∀ a b, R a b → Agree E S (f a) (g b)) :
    Agree E (List.Forall₂ S) (xs.mapM f) (ys.mapM g) := by
  induction h with
  | nil => exact .ok .nil
  | cons hr _ ih =>
    rw [List.mapM_cons, List.mapM_cons]
    apply bind (hfg _ _ hr)
    intro c d hs
    apply bind ih
    intro cs ds hss
    exact .ok (.cons hs hss)

theorem mapM_map {f : α → Except ε γ} {g : β → Except ε δ} (k : α → β) (xs : List α)
    (h : ∀ a, Agree E S (f a) (g (k a))) :
    Agree E (List.Forall₂ S) (xs.mapM f) ((xs.map k).mapM g) := by
  apply mapM (R := fun a b => k a = b)
  · exact List.forall₂_map_right_iff.mpr (List.forall₂_same.mpr fun _ _ => rfl)
  · rintro a _ rfl
    exact h a

theorem mapError {ε' : Type u} {F : ε' → ε' → Prop} {g : ε → ε'} {x : Except ε α}
    {y : Except ε β} (h : Agree E R x y) (hg : ∀ e e', E e e' → F (g e) (g e')) :
    Agree F R (x.mapError g) (y.mapError g) := by
  cases h with
  | ok hr => exact .ok hr
  | error he => exact .error (hg _ _ he)

/-- The same computation twice. -/
theorem refl (hE : ∀ e, E e e) {R : α → α → Prop} (hR : ∀ a, R a a) (x : Except ε α) :
    Agree E R x x := by
  cases x with
  | ok a => exact .ok (hR a)
  | error e => exact .error (hE e)

theorem imp {E' : ε → ε → Prop} {R' : α → β → Prop} {x : Except ε α} {y : Except ε β}
    (h : Agree E R x y) (hE : ∀ e e', E e e' → E' e e') (hR : ∀ a b, R a b → R' a b) :
    Agree E' R' x y := by
  cases h with
  | ok hr => exact .ok (hR _ _ hr)
  | error he => exact .error (hE _ _ he)

/-- Two computations that agree with a third. -/
theorem trans_left {R : α → β → Prop} {R' : γ → β → Prop} {T : α → γ → Prop} {x : Except ε α}
    {y : Except ε β} {z : Except ε γ} (h : Agree Eq R x y) (h' : Agree Eq R' z y)
    (hT : ∀ a b c, R a b → R' c b → T a c) : Agree Eq T x z := by
  cases h with
  | ok hr =>
    cases h' with
    | ok hr' => exact .ok (hT _ _ _ hr hr')
  | error he =>
    cases h' with
    | error he' => exact .error (he.trans he'.symm)

end Agree

end EmbeddedLang
