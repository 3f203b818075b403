import EmbeddedLang.CompileError

/-!
What a computation returns, if it succeeds, and which places its errors name.
-/

namespace EmbeddedLang

universe u

section returns

variable {ε α β : Type u} {P : α → Prop} {Q : β → Prop}

structure Returns (P : α → Prop) (x : Except ε α) : Prop where
  of_ok : ∀ a, x = .ok a → P a

namespace Returns

theorem ok {a : α} (h : P a) : Returns P (.ok a : Except ε α) where
  of_ok b hb := by
    cases hb
    exact h

theorem pure {a : α} (h : P a) : Returns P (Pure.pure a : Except ε α) :=
  ok h

theorem error (e : ε) : Returns P (.error e : Except ε α) where
  of_ok a h := by cases h

theorem bind {x : Except ε α} {f : α → Except ε β} (h : Returns P x)
    (hf : ∀ a, P a → Returns Q (f a)) : Returns Q (x >>= f) := by
  cases x with
  | error e => exact error e
  | ok a => exact hf a (h.of_ok a rfl)

theorem imp {P' : α → Prop} {x : Except ε α} (h : Returns P x) (hp : ∀ a, P a → P' a) :
    Returns P' x :=
  ⟨fun a ha => hp a (h.of_ok a ha)⟩

theorem mapM {f : α → Except ε β} {xs : List α} (h : ∀ x ∈ xs, Returns Q (f x)) :
    Returns (fun ys => ∀ y ∈ ys, Q y) (xs.mapM f) := by
  induction xs with
  | nil =>
    apply ok
    intro y hy
    cases hy
  | cons x xs ih =>
    rw [List.mapM_cons]
    apply bind (h x List.mem_cons_self)
    intro y hy
    apply bind (ih fun x hx => h x (List.mem_cons_of_mem _ hx))
    intro ys hys
    exact ok (List.forall_mem_cons.mpr ⟨hy, hys⟩)

/-- What is seen of the results, if each result is seen as its argument is. -/
theorem mapM_map {γ : Type u} {f : α → Except ε β} {xs : List α} {view : β → γ} {of : α → γ}
    (h : ∀ x ∈ xs, Returns (fun y => view y = of x) (f x)) :
    Returns (fun ys => ys.map view = xs.map of) (xs.mapM f) := by
  induction xs with
  | nil => exact ok rfl
  | cons x xs ih =>
    rw [List.mapM_cons]
    apply bind (h x List.mem_cons_self)
    intro y hy
    apply bind (ih fun x hx => h x (List.mem_cons_of_mem _ hx))
    intro ys hys
    exact ok (by rw [List.map_cons, List.map_cons, hy, hys])

theorem mapError {ε' : Type u} {g : ε → ε'} {x : Except ε α} (h : Returns P x) :
    Returns P (x.mapError g) := by
  cases x with
  | error e => exact error (g e)
  | ok a => exact ok (h.of_ok a rfl)

/-- All that there is to know of a result. -/
theorem self (x : Except ε α) : Returns (fun a => x = .ok a) x :=
  ⟨fun _ h => h⟩

/-- What holds of the result, and where it comes from. -/
theorem of_self {x : Except ε α} (h : Returns P x) : Returns (fun a => x = .ok a ∧ P a) x :=
  ⟨fun a ha => ⟨ha, h.of_ok a ha⟩⟩

end Returns

/-- A result that is checked is a result. -/
theorem exists_ok_of_any {x : Except ε α} {p : α → Bool} (h : x.toOption.any p) :
    ∃ a, x = .ok a ∧ p a := by
  cases x with
  | error e => cases h
  | ok a => exact ⟨a, rfl, h⟩

theorem exists_ok_of_isSome {x : Except ε α} (h : x.toOption.isSome) : ∃ a, x = .ok a := by
  cases x with
  | error e => cases h
  | ok a => exact ⟨a, rfl⟩

end returns

/-! ### Errors -/

/-- The error has a place, and one of these. -/
def CompileError.At (P : Position → Prop) (e : CompileError) : Prop :=
  ∃ p, e.position? = some p ∧ P p

/-- An error of the computation has a place, and one of these. -/
structure Blames {α : Type u} (P : Position → Prop) (x : Except CompileError α) : Prop where
  of_error : ∀ e, x = .error e → e.At P

namespace Blames

variable {α β : Type} {P : Position → Prop}

theorem ok (a : α) : Blames P (.ok a : Except CompileError α) where
  of_error e h := by cases h

theorem pure (a : α) : Blames P (Pure.pure a : Except CompileError α) :=
  ok a

theorem error {e : CompileError} (h : e.At P) : Blames P (.error e : Except CompileError α) where
  of_error e' he := by
    cases he
    exact h

theorem throw {e : CompileError} (h : e.At P) : Blames P (throw e : Except CompileError α) :=
  error h

theorem bind {x : Except CompileError α} {f : α → Except CompileError β} (h : Blames P x)
    (hf : ∀ a, Blames P (f a)) : Blames P (x >>= f) := by
  cases x with
  | error e => exact error (h.of_error e rfl)
  | ok a => exact hf a

theorem mapM {f : α → Except CompileError β} {xs : List α} (h : ∀ x ∈ xs, Blames P (f x)) :
    Blames P (xs.mapM f) := by
  induction xs with
  | nil => exact ok []
  | cons x xs ih =>
    obtain ⟨hx, hxs⟩ := List.forall_mem_cons.mp h
    rw [List.mapM_cons]
    exact hx.bind fun y => (ih hxs).bind fun ys => pure _

theorem mapError {ε : Type} {x : Except ε α} {g : ε → CompileError} (h : ∀ e, (g e).At P) :
    Blames P (x.mapError g) := by
  cases x with
  | error e => exact error (h e)
  | ok a => exact ok a

theorem imp {Q : Position → Prop} {x : Except CompileError α} (h : Blames P x)
    (hP : ∀ p, P p → Q p) : Blames Q x where
  of_error e he := by
    obtain ⟨p, hp, hP'⟩ := h.of_error e he
    exact ⟨p, hp, hP p hP'⟩

end Blames

end EmbeddedLang
