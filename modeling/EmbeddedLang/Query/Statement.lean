import EmbeddedLang.Query.Grammar

/-!
Statements of the query language.
-/

namespace EmbeddedLang.Query

open Parse

/-- Without columns, the values are those of every column in the order of the table. -/
structure Insert where
  source : Source
  columns : List (String × Position)
  rows : List (List Expr)
  position : Position

structure Assignment where
  column : String
  position : Position
  value : Expr

structure Update where
  source : Source
  assignments : List Assignment
  filter : Option Expr
  limit : Option Expr
  position : Position

structure Delete where
  source : Source
  filter : Option Expr
  limit : Option Expr
  position : Position

/-- A source of blanks and comments is the empty statement. -/
inductive Statement where
  | select (select : Select)
  | insert (insert : Insert)
  | update (update : Update)
  | delete (delete : Delete)
  | empty

/-- The expressions of a statement from its front to its end, but for its limits. -/
def Statement.expressions : Statement → List Expr
  | .select s => s.projections.map (·.expr) ++ s.joins.filterMap (·.condition) ++ s.filter.toList
      ++ s.groupBy ++ s.having.toList ++ s.orderBy.map (·.expr)
  | .insert s => s.rows.flatten
  | .update s => s.assignments.map (·.value) ++ s.filter.toList
  | .delete s => s.filter.toList
  | .empty => []

def expression : Parse Expr :=
  grammar.expression 0

def columnNames : Parse (List (String × Position)) := do
  if ← eatOperator "(" then
    let columns ← commaSeparated expectIdentifier
    let _ ← expectOperator ")"
    return columns
  else return []

def row : Parse (List Expr) := do
  let _ ← expectOperator "("
  let values ← commaSeparated expression
  let _ ← expectOperator ")"
  return values

def insert : Parse Insert := do
  let start ← expectKeyword "INSERT"
  let _ ← expectKeyword "INTO"
  let source ← sourceName
  let columns ← columnNames
  let _ ← expectKeyword "VALUES"
  let rows ← commaSeparated row
  return ⟨source, columns, rows, start.position⟩

def assignment : Parse Assignment := do
  let (column, position) ← expectIdentifier
  let _ ← expectOperator "="
  return ⟨column, position, ← expression⟩

def update : Parse Update := do
  let start ← expectKeyword "UPDATE"
  let source ← sourceName
  let _ ← expectKeyword "SET"
  let assignments ← commaSeparated assignment
  let filter ← optionalAfter expression "WHERE"
  let limit ← optionalAfter expression "LIMIT"
  return ⟨source, assignments, filter, limit, start.position⟩

def delete : Parse Delete := do
  let start ← expectKeyword "DELETE"
  let _ ← expectKeyword "FROM"
  let source ← sourceName
  let filter ← optionalAfter expression "WHERE"
  let limit ← optionalAfter expression "LIMIT"
  return ⟨source, filter, limit, start.position⟩

def endOfInput {α : Type} (a : α) : Parse α := do
  if ← isEof then return a else failExpected ["end of input"]

def nonemptyStatement (first : Token) : Parse Statement := do
  let statement ←
    if first.isKeyword "SELECT" then .select <$> select expression
    else if first.isKeyword "INSERT" then .insert <$> insert
    else if first.isKeyword "UPDATE" then .update <$> update
    else if first.isKeyword "DELETE" then .delete <$> delete
    else failExpected ["SELECT", "INSERT", "UPDATE", "DELETE"]
  let _ ← eatOperator ";"
  endOfInput statement

def statement : Parse Statement := do
  match ← peek with
  | none => return .empty
  | some token =>
    if token.isOperator ";" then
      let _ ← next
      endOfInput .empty
    else nonemptyStatement token

def parse (source : String) : Except CompileError Statement :=
  Parse.run? statement (Cursor.ofSource table source)

end EmbeddedLang.Query
