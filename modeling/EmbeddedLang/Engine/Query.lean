import EmbeddedLang.Engine.Basic
import EmbeddedLang.Query.Sql
import EmbeddedLang.Settings.Basic

/-!
Engines for queries.
-/

namespace EmbeddedLang

namespace Query

/-- What queries are compiled against. -/
structure Setup where
  metadata : Metadata
  dialect : Dialect

def language : Language Setup CompiledQuery :=
  ⟨"query", fun s => s.dialect.signature, fun s => compile s.metadata s.dialect⟩

end Query

abbrev QueryEngine := Engine Query.Setup Query.CompiledQuery

namespace QueryEngine

def make (m : Query.Metadata) (d : Query.Dialect) : QueryEngine :=
  Engine.make Query.language ⟨m, d⟩

def ofSettings (m : Query.Metadata) (s : Settings) : Except SettingsError QueryEngine := do
  let d ← dialectNamed s.dialect
  return ⟨Query.language, ⟨m, d⟩, s.cache.cache? Query.CompiledQuery⟩

end QueryEngine

end EmbeddedLang
