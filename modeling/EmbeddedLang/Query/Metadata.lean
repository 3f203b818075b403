import EmbeddedLang.Dictionary

/-!
What is known of the models that queries name: their tables, their columns and how they join.
-/

namespace EmbeddedLang.Query

inductive ColumnType where
  | integer | float | decimal | text | boolean | date | dateTime | binary | json
deriving DecidableEq

structure Column where
  name : String
  type : ColumnType
deriving DecidableEq

/-- Queries name the model, SQL names the table. -/
structure Table where
  model : String
  table : String
  columns : List Column
deriving DecidableEq

def Table.column? (t : Table) (name : String) : Option ColumnType :=
  (t.columns.find? (·.name == name)).map (·.type)

/-- Columns that have to be equal, pair by pair, for two rows to belong together. -/
structure JoinPath where
  near : List String
  far : List String
deriving DecidableEq

def JoinPath.reversed (p : JoinPath) : JoinPath :=
  ⟨p.far, p.near⟩

@[simp] theorem JoinPath.reversed_reversed (p : JoinPath) : p.reversed.reversed = p := rfl

structure Relationship where
  source : String
  target : String
  path : JoinPath
deriving DecidableEq

/-- The path that `r` offers between two models, from either of its ends. -/
def Relationship.path? (r : Relationship) (a b : String) : Option JoinPath :=
  if r.source = a ∧ r.target = b then some r.path
  else if r.source = b ∧ r.target = a then some r.path.reversed
  else none

structure Metadata where
  tables : Dictionary Table
  relationships : List Relationship

namespace Metadata

def empty : Metadata :=
  ⟨[], []⟩

/-- A later table of a model takes the place of an earlier one. -/
def addTable (m : Metadata) (t : Table) : Metadata :=
  { m with tables := Dictionary.put t.model t m.tables }

def addRelationship (m : Metadata) (r : Relationship) : Metadata :=
  { m with relationships := m.relationships ++ [r] }

def models (m : Metadata) : List String :=
  Dictionary.keys m.tables

def table? (m : Metadata) (model : String) : Option Table :=
  Dictionary.get? model m.tables

def column? (m : Metadata) (model column : String) : Option ColumnType :=
  (m.table? model).bind (·.column? column)

/-- The path of the first relationship between two models. -/
def path? (m : Metadata) (a b : String) : Option JoinPath :=
  m.relationships.findSome? (·.path? a b)

end Metadata

end EmbeddedLang.Query
