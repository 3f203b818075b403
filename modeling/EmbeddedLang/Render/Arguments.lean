import EmbeddedLang.Render.Error
import EmbeddedLang.Value.Basic

/-!
Evaluated arguments of a call.
-/

namespace EmbeddedLang.Render

structure Arguments where
  positional : List Value
  named : Dictionary Value

namespace Arguments

def empty : Arguments :=
  ⟨[], []⟩

def ofList (values : List Value) : Arguments :=
  ⟨values, []⟩

def add (args : Arguments) (label : Option String) (v : Value) : Arguments :=
  match label with
  | some name => { args with named := Dictionary.put name v args.named }
  | none => { args with positional := args.positional ++ [v] }

/-- The argument with this name, or else in this place. -/
def get? (args : Arguments) (index : Nat) (name : String) : Option Value :=
  (Dictionary.get? name args.named).orElse fun _ => args.positional[index]?

def isEmpty (args : Arguments) : Bool :=
  args.positional.isEmpty && args.named.isEmpty

end Arguments

abbrev Filter := Value → Arguments → Except RenderError Value
abbrev Test := Value → Arguments → Except RenderError Bool
abbrev Function := Arguments → Except RenderError Value

/-- Runs a custom directive on its arguments and, if it is a block, the output of its body. -/
abbrev Handler := Arguments → Option String → Except RenderError String

end EmbeddedLang.Render
