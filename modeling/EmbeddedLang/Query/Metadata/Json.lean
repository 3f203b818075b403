import EmbeddedLang.Query.Metadata
import EmbeddedLang.Value.Basic

/-!
Metadata as JSON data.

A record is an object with its fields by name, or an array of them in order. Fields that a record
does not have are skipped in an object, and the two fields of the metadata itself may be left out.
-/

namespace EmbeddedLang.Query

def ColumnType.name : ColumnType → String
  | .integer => "integer"
  | .float => "float"
  | .decimal => "decimal"
  | .text => "text"
  | .boolean => "boolean"
  | .date => "date"
  | .dateTime => "date_time"
  | .binary => "binary"
  | .json => "json"

def ColumnType.all : List ColumnType :=
  [.integer, .float, .decimal, .text, .boolean, .date, .dateTime, .binary, .json]

def ColumnType.ofName? (name : String) : Option ColumnType :=
  all.find? (·.name == name)

theorem ColumnType.ofName?_name (t : ColumnType) : ofName? t.name = some t := by
  cases t <;> decide

def text? : Value → Option String
  | .string s => some s
  | _ => none

def listOf? {α : Type} (item : Value → Option α) : Value → Option (List α)
  | .array items => items.mapM item
  | _ => none

/-- The fields of a record by name, each absent or a value. -/
def fields? (names : List String) : Value → Option (List (Option Value))
  | .object fields => some (names.map fun name => fields.lookup name)
  | .array items =>
    if items.length ≤ names.length then
      some ((List.range names.length).map fun i => items[i]?)
    else none
  | _ => none

/-- The name of a case without content: a string, or an object with null under that name. -/
def caseName? : Value → Option String
  | .string s => some s
  | .object [(name, .null)] => some name
  | _ => none

def ColumnType.ofValue? (v : Value) : Option ColumnType :=
  (caseName? v).bind ofName?

def Column.ofValue? (v : Value) : Option Column := do
  let [some name, some type] ← fields? ["name", "type"] v | none
  return ⟨← text? name, ← ColumnType.ofValue? type⟩

def Table.ofValue? (v : Value) : Option Table := do
  let [some model, some table, some columns] ← fields? ["model", "table", "columns"] v | none
  return ⟨← text? model, ← text? table, ← listOf? Column.ofValue? columns⟩

def JoinPath.ofValue? (v : Value) : Option JoinPath := do
  let [some near, some far] ← fields? ["from_columns", "to_columns"] v | none
  return ⟨← listOf? text? near, ← listOf? text? far⟩

def Relationship.ofValue? (v : Value) : Option Relationship := do
  let [some source, some target, some path] ← fields? ["from", "to", "path"] v | none
  return ⟨← text? source, ← text? target, ← JoinPath.ofValue? path⟩

def tablesOf? : Value → Option (Dictionary Table)
  | .object fields => fields.mapM fun (name, v) => do return (name, ← Table.ofValue? v)
  | _ => none

def Metadata.ofValue? (v : Value) : Option Metadata := do
  let [tables, relationships] ← fields? ["tables", "relationships"] v | none
  return {
    tables := ← tablesOf? (tables.getD (.object []))
    relationships := ← listOf? Relationship.ofValue? (relationships.getD (.array [])) }

def texts (names : List String) : Value :=
  .array (names.map .string)

def Column.toValue (c : Column) : Value :=
  .object [("name", .string c.name), ("type", .string c.type.name)]

def Table.toValue (t : Table) : Value :=
  .object [("columns", .array (t.columns.map Column.toValue)), ("model", .string t.model),
    ("table", .string t.table)]

def JoinPath.toValue (p : JoinPath) : Value :=
  .object [("from_columns", texts p.near), ("to_columns", texts p.far)]

def Relationship.toValue (r : Relationship) : Value :=
  .object [("from", .string r.source), ("path", r.path.toValue), ("to", .string r.target)]

def Metadata.toValue (m : Metadata) : Value :=
  .object [("relationships", .array (m.relationships.map Relationship.toValue)),
    ("tables", .object (m.tables.map fun (name, t) => (name, t.toValue)))]

end EmbeddedLang.Query
