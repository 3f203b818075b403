import EmbeddedLang.Parser.Grammar

/-!
Parsing the clauses of a select, given the parser for the expressions in them.
-/

namespace EmbeddedLang.Query

open Parse

variable (expr : Parse Expr)

/-- `AS name`, or just a name. -/
def aliasName? : Parse (Option String) := do
  if ← eatKeyword "AS" then return some (← expectIdentifier).1
  else if ← atIdentifier then return some (← expectIdentifier).1
  else return none

def sourceName : Parse Source := do
  let (model, position) ← expectIdentifier
  return ⟨model, none, position⟩

def aliasedSource : Parse Source := do
  let source ← sourceName
  return { source with aliasName := ← aliasName? }

def optionalAfter (word : String) : Parse (Option Expr) := do
  if ← eatKeyword word then return some (← expr) else return none

def projection : Parse Projection := do
  let e ← expr
  return ⟨e, ← aliasName?⟩

def outerJoin (kind : JoinKind) : Parse (Option JoinKind) := do
  let _ ← eatKeyword "OUTER"
  return some kind

/-- The words that may stand before `JOIN`. -/
def joinWords? : Parse (Option JoinKind) := do
  if ← eatKeyword "INNER" then return some .inner
  else if ← eatKeyword "CROSS" then return some .cross
  else if ← eatKeyword "LEFT" then outerJoin .left
  else if ← eatKeyword "RIGHT" then outerJoin .right
  else if ← eatKeyword "FULL" then outerJoin .full
  else return none

/-- The kind of the join ahead, through its word `JOIN`. -/
def joinKind? : Parse (Option JoinKind) := do
  if ← eatKeyword "JOIN" then return some .inner
  let kind ← joinWords?
  if kind.isSome then
    let _ ← expectKeyword "JOIN"
  return kind

def join? : Parse (Option Join) := do
  let position ← Parse.position
  match ← joinKind? with
  | none => return none
  | some kind =>
    let source ← aliasedSource
    let condition ← if kind = .cross then pure none else optionalAfter expr "ON"
    return some ⟨kind, source, condition, position⟩

def joins : Parse (List Join) :=
  whileSome
    (fun found => do
      match ← join? expr with
      | some join => return some (found ++ [join])
      | none => return none)
    []

/-- A list of items after two words, or none. -/
def listAfter {α : Type} (first second : String) (item : Parse α) : Parse (List α) := do
  if ← eatKeyword first then
    let _ ← expectKeyword second
    commaSeparated item
  else return []

def direction? : Parse (Option Direction) := do
  if ← eatKeyword "ASC" then return some .asc
  else if ← eatKeyword "DESC" then return some .desc
  else return none

def orderItem : Parse OrderItem := do
  let e ← expr
  return ⟨e, ← direction?⟩

/-- `LIMIT count`, `LIMIT count OFFSET offset` or `LIMIT offset, count`. -/
def limit? : Parse (Option Limit) := do
  if ← eatKeyword "LIMIT" then
    let first ← expr
    if ← eatKeyword "OFFSET" then return some ⟨first, some (← expr)⟩
    else if ← eatOperator "," then return some ⟨← expr, some first⟩
    else return some ⟨first, none⟩
  else return none

def distinct : Parse Bool := do
  if ← eatKeyword "DISTINCT" then return true
  let _ ← eatKeyword "ALL"
  return false

def select : Parse Select := do
  let start ← expectKeyword "SELECT"
  let distinct ← distinct
  let projections ← commaSeparated (projection expr)
  let _ ← expectKeyword "FROM"
  let sources ← commaSeparated aliasedSource
  let joins ← joins expr
  let filter ← optionalAfter expr "WHERE"
  let groupBy ← listAfter "GROUP" "BY" expr
  let having ← optionalAfter expr "HAVING"
  let orderBy ← listAfter "ORDER" "BY" (orderItem expr)
  let limit ← limit? expr
  return ⟨distinct, projections, sources, joins, filter, groupBy, having, orderBy, limit,
    start.position⟩

end EmbeddedLang.Query
