import EmbeddedLang.Proofs.Render.Congruence
import EmbeddedLang.Proofs.Render.Unrolled

/-!
Scopes that a run does not touch, whether it succeeds or not.
-/

namespace EmbeddedLang.Render

open Template (Instruction walkInstructions)

variable {α β : Type} {A B C : String → Prop}

/-- What a run leaves, also when it fails. -/
def sessionOf : EStateM.Result RenderError Session α → Session
  | .ok _ s | .error _ s => s

/-- The value of a variable in one of the scopes, of which the innermost is the first. -/
def binding (i : Nat) (name : String) (scopes : List Scope) : Option Value :=
  scopes[i]?.bind (Dictionary.get? name)

@[simp] theorem binding_zero (name : String) (scope : Scope) (outer : List Scope) :
    binding 0 name (scope :: outer) = Dictionary.get? name scope := rfl

@[simp] theorem binding_succ (i : Nat) (name : String) (scope : Scope) (outer : List Scope) :
    binding (i + 1) name (scope :: outer) = binding i name outer := rfl

/-- Scopes before and after a run that assigns to the names in `A`: none is opened or closed, no
variable is lost, and what is new about a name stands in the innermost scope that had it, if one
had. -/
structure Frame (A : String → Prop) (before after : List Scope) : Prop where
  length : after.length = before.length
  bound : ∀ i name, (binding i name before).isSome → (binding i name after).isSome
  changed : ∀ i name, binding i name after ≠ binding i name before →
    A name ∧ ∀ j < i, binding j name before = none

namespace Frame

variable {xs ys zs : List Scope}

theorem of_eq (h : ys = xs) : Frame A xs ys where
  length := h ▸ rfl
  bound _ _ hb := h ▸ hb
  changed _ _ hne := absurd (h ▸ rfl) hne

theorem mono (h : Frame A xs ys) (hAB : ∀ name, A name → B name) : Frame B xs ys where
  length := h.length
  bound := h.bound
  changed i name hne := ⟨hAB name (h.changed i name hne).1, (h.changed i name hne).2⟩

theorem trans (h : Frame A xs ys) (h' : Frame A ys zs) : Frame A xs zs where
  length := h'.length.trans h.length
  bound i name hb := h'.bound i name (h.bound i name hb)
  changed i name hne := by
    by_cases hfirst : binding i name ys = binding i name xs
    · rw [← hfirst] at hne
      obtain ⟨hA, hinner⟩ := h'.changed i name hne
      -- what an inner scope had it would have kept
      refine ⟨hA, fun j hj => Option.not_isSome_iff_eq_none.mp fun hsome => ?_⟩
      have hkept := h.bound j name hsome
      rw [hinner j hj] at hkept
      cases hkept
    · exact h.changed i name hfirst

/-- Names of the innermost scope are not touched outside of it. -/
theorem tail {scope : Scope} (h : Frame A (scope :: xs) ys) :
    Frame (fun name => A name ∧ Dictionary.get? name scope = none) xs ys.tail := by
  cases ys with
  | nil => cases h.length
  | cons inner ys =>
    refine ⟨Nat.succ.inj h.length, fun i name hb => h.bound (i + 1) name hb, ?_⟩
    intro i name hne
    obtain ⟨hA, hinner⟩ := h.changed (i + 1) name hne
    exact ⟨⟨hA, hinner 0 (Nat.succ_pos i)⟩, fun j hj => hinner (j + 1) (Nat.succ_lt_succ hj)⟩

theorem assign (name : String) (v : Value) (scopes : List Scope) :
    Frame (· = name) scopes (assign name v scopes) := by
  induction scopes with
  | nil => exact of_eq rfl
  | cons scope outer ih =>
    unfold Render.assign
    split
    · refine ⟨rfl, fun i other hb => ?_, fun i other hne => ?_⟩
      · cases i with
        | succ i => exact hb
        | zero =>
          have hhas : Dictionary.has other (Dictionary.put name v scope) =
              (other == name || Dictionary.has other scope) := Dictionary.has_put _ _ _ _
          rw [binding_zero] at hb
          exact hhas.trans (by rw [Dictionary.has, hb, Bool.or_true])
      · cases i with
        | succ i => exact absurd rfl hne
        | zero =>
          refine ⟨Decidable.byContradiction fun hother => ?_,
            fun j hj => absurd hj (Nat.not_lt_zero j)⟩
          exact hne (Dictionary.get?_put_ne hother v scope)
    · rename_i hcond
      have hmiss : Dictionary.get? name scope = none := by
        simpa [Dictionary.has] using (not_or.mp (fun h => hcond (Bool.or_eq_true_iff.mpr h))).1
      refine ⟨congrArg (· + 1) ih.length, fun i other hb => ?_, fun i other hne => ?_⟩
      · cases i with
        | zero => exact hb
        | succ i => exact ih.bound i other hb
      · cases i with
        | zero => exact absurd rfl hne
        | succ i =>
          obtain ⟨rfl, hinner⟩ := ih.changed i other hne
          refine ⟨rfl, fun j hj => ?_⟩
          cases j with
          | zero => exact hmiss
          | succ j => exact hinner j (Nat.lt_of_succ_lt_succ hj)

end Frame

theorem sessionOf_withScopes {a : Rendering α} (enter leave : List Scope → List Scope)
    (s : Session) : (sessionOf (withScopes enter leave a s)).scopes =
      leave (sessionOf (a { s with scopes := enter s.scopes })).scopes := by
  unfold withScopes
  split
  · next ha => rw [ha]; rfl
  · next ha => rw [ha]; rfl

/-- Run in `s`, the action assigns at most to the names in `A`. -/
def FramedAt (A : String → Prop) (s : Session) (a : Rendering α) : Prop :=
  Frame A s.scopes (sessionOf (a s)).scopes

/-- The action leaves all scopes as they were. -/
def Restores (a : Rendering α) : Prop :=
  ∀ s, (sessionOf (a s)).scopes = s.scopes

theorem Restores.framedAt {a : Rendering α} (h : Restores a) (s : Session) : FramedAt A s a :=
  .of_eq (h s)

namespace FramedAt

variable {a : Rendering α} {f : α → Rendering β} {s : Session}

theorem pure (x : α) : FramedAt A s (Pure.pure x : Rendering α) :=
  .of_eq rfl

theorem bind (h : FramedAt A s a) (hf : ∀ x t, a s = .ok x t → FramedAt A t (f x)) :
    FramedAt A s (a >>= f) := by
  unfold FramedAt at h ⊢
  cases ha : a s with
  | error e t =>
    rw [bind_of_error ha]
    rwa [ha] at h
  | ok x t =>
    rw [bind_of_ok ha]
    rw [ha] at h
    exact h.trans (hf x t ha)

theorem mono (h : FramedAt A s a) (hAB : ∀ name, A name → B name) : FramedAt B s a :=
  Frame.mono h hAB

theorem inScope {scope : Scope}
    (h : FramedAt A { s with scopes := scope :: s.scopes } a) :
    FramedAt (fun name => A name ∧ Dictionary.get? name scope = none) s (inScope scope a) := by
  unfold FramedAt Render.inScope
  rw [sessionOf_withScopes]
  exact Frame.tail h

end FramedAt

namespace Restores

variable {a : Rendering α}

theorem scopes_of_ok (h : Restores a) {s t : Session} {x : α} (ha : a s = .ok x t) :
    t.scopes = s.scopes := by
  have hscopes := h s
  rwa [ha] at hscopes

theorem pure (x : α) : Restores (Pure.pure x : Rendering α) := fun _ => rfl

theorem throw (e : RenderError) : Restores (throw e : Rendering α) := fun _ => rfl

theorem bind {f : α → Rendering β} (h : Restores a) (hf : ∀ x, Restores (f x)) :
    Restores (a >>= f) := by
  intro s
  have hs := h s
  cases ha : a s with
  | error e t =>
    rw [bind_of_error ha]
    rwa [ha] at hs
  | ok x t =>
    rw [bind_of_ok ha]
    rw [ha] at hs
    exact (hf x t).trans hs

theorem liftResult (x : Except RenderError α) : Restores (liftResult x) := by
  cases x with
  | ok x => exact pure x
  | error e => exact throw e

theorem get : Restores (MonadState.get : Rendering Session) := fun _ => rfl

theorem inScope (scope : Scope) (h : Restores a) : Restores (inScope scope a) := fun s =>
  (sessionOf_withScopes _ _ s).trans (congrArg List.tail (h _))

theorem inFreshScope (scope : Scope) (a : Rendering α) : Restores (inFreshScope scope a) :=
  fun s => sessionOf_withScopes (a := a) (fun _ => [scope]) (fun _ => s.scopes) s

theorem closed : Closed fun _ => Restores where
  lift := liftResult
  bind := bind
  reading hf := get.bind fun s => hf s.scopes
  inScope := inScope

theorem fragment? (key : String) : Restores (fragment? key) := by
  intro s
  rw [fragment?_eq]
  split
  · split <;> rfl
  · rfl

theorem keepFragment (key text : String) (lifetime : Option Nat) (start : Nat) :
    Restores (keepFragment key text lifetime start) := fun _ => rfl

end Restores

/-- Macro calls and includes have scopes of their own. -/
theorem restores_deeperOf (r : Renderer) (depth : Nat) (p : Program) :
    ∀ d ∈ deeperOf r depth p, d.Keeps fun _ => Restores := by
  cases depth with
  | zero => exact nofun
  | succ depth =>
    rintro d ⟨⟩
    refine ⟨fun name scope => .inFreshScope scope _, fun name scope => ?_⟩
    exact (Restores.liftResult _).bind fun t => (Restores.liftResult _).bind fun q =>
      .inFreshScope scope _

/-! ### Instructions that assign nothing -/

/-- Neither an assignment nor a block, for which others may stand. -/
def isStill : Instruction → Bool
  | .assign .. | .block .. => false
  | _ => true

namespace Context

variable {c : Context} (hd : ∀ d ∈ c.deeper, d.Keeps fun _ => Restores)

include hd

theorem cached_restores (key : Expr) (lifetime : Option Nat) {body : Rendering Outcome}
    (h : Restores body) : Restores (c.cached key lifetime body) := by
  refine (value_keeps Restores.closed hd key).bind fun v => Restores.get.bind fun s => ?_
  refine (Restores.fragment? v.display).bind fun found => ?_
  cases found with
  | some text => exact .pure _
  | none => exact h.bind fun made => (Restores.keepFragment _ _ _ _).bind fun _ => .pure made

theorem exec_restores (is : List Instruction) (his : ∀ i ∈ walkInstructions is, isStill i) :
    Restores (c.exec is) := by
  refine exec_keeps Restores.closed hd is fun i hi => ?_
  have hstill := his i hi
  cases i with
  | assign | block => cases hstill
  | fragment key lifetime body => exact cached_restores hd key lifetime
  | _ => trivial

end Context

end EmbeddedLang.Render
