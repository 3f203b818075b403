import EmbeddedLang.Render.Error
import EmbeddedLang.Template.Lowering

/-!
Templates by name, for includes and parents.
-/

namespace EmbeddedLang.Render

open Template (CompiledTemplate)

abbrev Library := Dictionary CompiledTemplate

namespace Library

def load (l : Library) (name : String) : Except RenderError CompiledTemplate :=
  match Dictionary.get? name l with
  | some t => .ok t
  | none => .error (.templateNotFound name)

/-- Adds a template from its source, compiled with the usual options. -/
def addSource (l : Library) (name source : String) : Except RenderError Library :=
  match Template.compile {} source with
  | .ok t => .ok (Dictionary.put name t l)
  | .error e => .error (.compile name e)

end Library

end EmbeddedLang.Render
