import EmbeddedLang.Render.Filters
import EmbeddedLang.Render.Functions
import EmbeddedLang.Render.Tests
import EmbeddedLang.Template.Instruction

/-!
What templates are rendered with: handlers for the names in them, and a source of other templates.
-/

namespace EmbeddedLang.Render

open Template (CompiledTemplate)

abbrev Loader := String → Except RenderError CompiledTemplate

structure Renderer where
  filters : Dictionary Filter
  tests : Dictionary Test
  functions : Dictionary Function
  handlers : Dictionary Handler
  loader : Option Loader
  /-- How many macro calls and includes may be in progress at a time. -/
  maxDepth : Nat

namespace Renderer

def standard : Renderer :=
  ⟨Render.filters, Render.tests, Render.functions, [], none, 64⟩

def load (r : Renderer) (name : String) : Except RenderError CompiledTemplate :=
  match r.loader with
  | some loader => loader name
  | none => .error (.templateNotFound name)

def describe (r : Renderer) : String :=
  "Renderer \x7b filters: " ++ toString r.filters.length
    ++ ", tests: " ++ toString r.tests.length
    ++ ", functions: " ++ toString r.functions.length
    ++ ", extensions: " ++ toString r.handlers.length
    ++ ", has_loader: " ++ toString r.loader.isSome
    ++ ", max_depth: " ++ toString r.maxDepth ++ " \x7d"

end Renderer

end EmbeddedLang.Render
