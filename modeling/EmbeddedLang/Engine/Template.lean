import EmbeddedLang.Engine.Basic
import EmbeddedLang.Settings.Basic
import EmbeddedLang.Template.Lowering

/-!
Engines for templates.
-/

namespace EmbeddedLang

namespace Template

/-- The escaping mode and all extensions. -/
def Options.variant (o : Options) : String :=
  "autoescape=" ++ toString o.autoescape ++ ";extensions=" ++ signature o.extensions

def language : Language Options CompiledTemplate :=
  ⟨"template", Options.variant, compile⟩

end Template

abbrev TemplateEngine := Engine Template.Options Template.CompiledTemplate

namespace TemplateEngine

/-- Escapes, unless told otherwise. -/
def make (extensions : Template.ExtensionTable) : TemplateEngine :=
  Engine.make Template.language { extensions }

def ofSettings (s : Settings) : TemplateEngine :=
  ⟨Template.language, s.template, s.cache.cache? Template.CompiledTemplate⟩

/-- Changes the escaping mode and keeps the cache. -/
def withAutoescape (e : TemplateEngine) (autoescape : Bool) : TemplateEngine :=
  { e with config := { e.config with autoescape } }

end TemplateEngine

end EmbeddedLang
