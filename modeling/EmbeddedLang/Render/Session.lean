import EmbeddedLang.Render.Error
import EmbeddedLang.Value.Basic

/-!
What changes while a template is rendered: its variables, and the fragments kept for later.
-/

namespace EmbeddedLang.Render

abbrev Scope := Dictionary Value

/-- The value of a variable in the innermost scope that has it. -/
def lookup? (name : String) (scopes : List Scope) : Option Value :=
  scopes.findSome? (Dictionary.get? name)

/-- Sets a variable in the innermost scope that has it, or else in the innermost of all. -/
def assign (name : String) (v : Value) : List Scope → List Scope
  | [] => []
  | scope :: outer =>
    if Dictionary.has name scope || !outer.any (Dictionary.has name) then
      Dictionary.put name v scope :: outer
    else scope :: assign name v outer

/-- All variables that can be seen, in one scope. -/
def flatten (scopes : List Scope) : Scope :=
  scopes.foldr (fun inner outer => Dictionary.extend outer inner) []

theorem length_assign (name : String) (v : Value) (scopes : List Scope) :
    (assign name v scopes).length = scopes.length := by
  induction scopes with
  | nil => rfl
  | cons scope outer ih => unfold assign; split <;> simp [ih]

theorem lookup?_assign_self (name : String) (v : Value) {scopes : List Scope} (h : scopes ≠ []) :
    lookup? name (assign name v scopes) = some v := by
  induction scopes with
  | nil => exact absurd rfl h
  | cons scope outer ih =>
    unfold assign
    split
    · simp [lookup?, Dictionary.get?_put_self]
    · next c =>
      simp only [Bool.or_eq_true, Bool.not_eq_true', not_or] at c
      have : outer ≠ [] := by
        rintro rfl
        simp at c
      have miss : Dictionary.get? name scope = none := by simpa [Dictionary.has] using c.1
      simpa [lookup?, miss] using ih this

theorem lookup?_assign_ne {name other : String} (h : other ≠ name) (v : Value)
    (scopes : List Scope) : lookup? other (assign name v scopes) = lookup? other scopes := by
  induction scopes with
  | nil => rfl
  | cons scope outer ih =>
    unfold assign
    split
    · simp [lookup?, List.findSome?_cons, Dictionary.get?_put_ne h]
    · simp only [lookup?, List.findSome?_cons] at ih ⊢
      rw [ih]

/-- Output that may be used again, until a time if one is given. -/
structure Fragment where
  text : String
  expiry : Option Nat
deriving DecidableEq

/-- Scopes stand innermost first. Times are in seconds. -/
structure Session where
  scopes : List Scope
  fragments : Dictionary Fragment
  now : Nat

abbrev Rendering := EStateM RenderError Session

def liftResult {α : Type} : Except RenderError α → Rendering α
  | .ok a => return a
  | .error e => throw e

/-- Runs `action` with other scopes, and then makes new ones of those that it leaves. -/
def withScopes {α : Type} (enter leave : List Scope → List Scope) (action : Rendering α) :
    Rendering α := fun s =>
  match action { s with scopes := enter s.scopes } with
  | .ok a s => .ok a { s with scopes := leave s.scopes }
  | .error e s => .error e { s with scopes := leave s.scopes }

/-- Runs `action` in a scope of its own inside those there are. -/
def inScope {α : Type} (scope : Scope) (action : Rendering α) : Rendering α :=
  withScopes (scope :: ·) List.tail action

/-- Runs `action` in nothing but a scope of its own, as macros and includes are run. -/
def inFreshScope {α : Type} (scope : Scope) (action : Rendering α) : Rendering α := do
  let saved := (← get).scopes
  withScopes (fun _ => [scope]) (fun _ => saved) action

def Fragment.isLive (f : Fragment) (now : Nat) : Bool :=
  match f.expiry with
  | some time => now < time
  | none => true

/-- The text kept under a key; one that has expired is dropped. -/
def fragment? (key : String) : Rendering (Option String) := do
  let s ← get
  match Dictionary.get? key s.fragments with
  | some f =>
    if f.isLive s.now then return some f.text
    else
      set { s with fragments := Dictionary.erase key s.fragments }
      return none
  | none => return none

def keepFragment (key text : String) (lifetime : Option Nat) (start : Nat) : Rendering Unit :=
  modify fun s =>
    { s with fragments := Dictionary.put key ⟨text, lifetime.map (start + ·)⟩ s.fragments }

end EmbeddedLang.Render
