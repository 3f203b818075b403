import EmbeddedLang.CompileError
import EmbeddedLang.Expr.Basic
import EmbeddedLang.Query.Fragment

/-!
What names mean inside a statement.

Each select has a scope of its own, and a subquery sees the scopes around it, innermost first.
-/

namespace EmbeddedLang.Query

/-- The aliases are those of projections, and stand here once they can be referred to. -/
structure Scope where
  sources : List ScopeSource
  aliases : List String

abbrev Scopes := List Scope

namespace Scope

def ofSources (sources : List ScopeSource) : Scope :=
  ⟨sources, []⟩

def holders (s : Scope) (column : String) : List ScopeSource :=
  s.sources.filter fun source => (source.table.column? column).isSome

end Scope

def resolveSource (m : Metadata) (s : Source) : Except CompileError ScopeSource :=
  match m.table? s.model with
  | some table => .ok ⟨s.referenceName, s.aliasName, table⟩
  | none => .error (.unknownEntity s.model s.position)

/-- Sources after those in `known`; no two of one statement may go by one name. -/
def resolveSources (m : Metadata) (known : List ScopeSource) :
    List Source → Except CompileError (List ScopeSource)
  | [] => .ok known
  | s :: rest => do
    let found ← resolveSource m s
    if known.any (·.reference == found.reference) then
      throw (.invalidConstruct s.position
        ("source name '" ++ found.reference ++ "' is used more than once"))
    resolveSources m (known ++ [found]) rest

namespace Scopes

/-- The source of the innermost scope that has one of that name, and how far out that scope is. -/
def sourceNamed? (reference : String) (depth : Nat) : Scopes → Option (Nat × ScopeSource)
  | [] => none
  | scope :: outer =>
    match scope.sources.find? (·.reference == reference) with
    | some source => some (depth, source)
    | none => sourceNamed? reference (depth + 1) outer

/-- What a column name stands for. -/
inductive Meaning where
  /-- A projection of the innermost select. -/
  | projected
  | column (reference : Reference)
  | ambiguous (sources : List ScopeSource)
  | unknown

/-- The innermost scope that knows the name decides. A column is written with its source unless it
belongs to the only source of the innermost scope. -/
def meaning (name : String) (depth : Nat) : Scopes → Meaning
  | [] => .unknown
  | scope :: outer =>
    match scope.holders name with
    | [] =>
      if depth == 0 && scope.aliases.contains name then .projected
      else meaning name (depth + 1) outer
    | [source] => .column ⟨depth, source, depth != 0 || 1 < scope.sources.length, name⟩
    | sources => .ambiguous sources

/-- The model that an unknown column is reported on. -/
def mainModel (scopes : Scopes) : String :=
  ((scopes.head?.bind (·.sources.head?)).map (·.table.model)).getD ""

/-- A column by its name alone: how it is written, and its type if it has one. -/
def column (q : Quotes) (scopes : Scopes) (name : String) (position : Position) :
    Except CompileError (Fragment × Option ColumnType) :=
  match meaning name 0 scopes with
  | .projected => .ok (.name q name, none)
  | .column r => .ok (.column q r, r.source.table.column? name)
  | .ambiguous sources => .error (.ambiguousColumn name (sources.map (·.reference)) position)
  | .unknown => .error (.unknownColumn scopes.mainModel name position)

def qualifiedColumn (q : Quotes) (scopes : Scopes) (reference name : String)
    (position : Position) : Except CompileError (Fragment × Option ColumnType) :=
  match scopes.sourceNamed? reference 0 with
  | none => .error (.unknownEntity reference position)
  | some (depth, source) =>
    match source.table.column? name with
    | none => .error (.unknownColumn source.table.model name position)
    | some type => .ok (.column q ⟨depth, source, true, name⟩, some type)

/-- The type of a column in any number of parentheses. -/
def typeOf (q : Quotes) (scopes : Scopes) (e : Expr) : Option ColumnType :=
  match e.ungrouped with
  | .identifier p name => (scopes.column q name p).toOption.bind (·.2)
  | .member p object property =>
    object.identifier?.bind fun reference =>
      (scopes.qualifiedColumn q reference property p).toOption.bind (·.2)
  | _ => none

end Scopes

end EmbeddedLang.Query
