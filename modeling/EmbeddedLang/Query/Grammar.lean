import EmbeddedLang.Parser.Expression
import EmbeddedLang.Query.Select

/-!
The words, operators and special forms of the query language.

From the loosest: `OR`, `AND`, `NOT`, comparisons with `LIKE`, `IN`, `BETWEEN` and `IS`, `|` and
`^`, `&`, sums and `||`, products, signs.
-/

namespace EmbeddedLang.Query

open Parse

def table : LanguageTable where
  name := "query"
  keywords := [
    "SELECT", "DISTINCT", "ALL", "FROM", "AS", "WHERE", "GROUP", "BY", "HAVING", "ORDER", "ASC",
    "DESC", "LIMIT", "OFFSET", "INSERT", "INTO", "VALUES", "UPDATE", "SET", "DELETE", "JOIN",
    "INNER", "LEFT", "RIGHT", "FULL", "OUTER", "CROSS", "ON", "AND", "OR", "NOT", "LIKE", "ILIKE",
    "IN", "BETWEEN", "IS", "NULL", "TRUE", "FALSE", "CASE", "WHEN", "THEN", "ELSE", "END", "CAST",
    "EXISTS"]
  keywordCase := .insensitive
  operators := [
    ",", ".", "(", ")", "*", "/", "%", "+", "-", "=", "<>", "!=", "<", "<=", ">", ">=", "||", "&",
    "|", "^", "~", ";"]
  quotes := ['\'', '"']
  escape := some '\\'
  lineComment := some "--"
  blockComment := some ("/*", "*/")
  bracketIdentifiers := true
  placeholders := true
  delimiters := none
  nullKeyword := "NULL"
  trueKeyword := "TRUE"
  falseKeyword := "FALSE"
  namedArguments := false
  distinctKeyword := some "DISTINCT"
  listLiterals := false
  subscripts := false
  callsOnExpressions := false

def comparison : Nat := 4

def binaryOps : List OperatorSpec := [
  ⟨["OR"], .or, 1, .left⟩,
  ⟨["AND"], .and, 2, .left⟩,
  ⟨["="], .eq, comparison, .left⟩,
  ⟨["<>"], .notEq, comparison, .left⟩,
  ⟨["!="], .notEq, comparison, .left⟩,
  ⟨["<"], .lt, comparison, .left⟩,
  ⟨["<="], .ltEq, comparison, .left⟩,
  ⟨[">"], .gt, comparison, .left⟩,
  ⟨[">="], .gtEq, comparison, .left⟩,
  ⟨["LIKE"], .like, comparison, .left⟩,
  ⟨["NOT", "LIKE"], .notLike, comparison, .left⟩,
  ⟨["ILIKE"], .iLike, comparison, .left⟩,
  ⟨["NOT", "ILIKE"], .notILike, comparison, .left⟩,
  ⟨["|"], .bitOr, 5, .left⟩,
  ⟨["^"], .bitXor, 5, .left⟩,
  ⟨["&"], .bitAnd, 6, .left⟩,
  ⟨["+"], .add, 7, .left⟩,
  ⟨["-"], .sub, 7, .left⟩,
  ⟨["||"], .concat, 7, .left⟩,
  ⟨["*"], .mul, 8, .left⟩,
  ⟨["/"], .div, 8, .left⟩,
  ⟨["%"], .mod, 8, .left⟩]

def prefixOps : List PrefixSpec :=
  [⟨"NOT", .not, 3⟩, ⟨"-", .neg, 9⟩, ⟨"+", .plus, 9⟩, ⟨"~", .bitNot, 9⟩]

def placeholderOf (token : Token) : Parse Placeholder := do
  match token.lexeme.toList with
  | '?' :: digits =>
    match (Decimal.natural? digits).filter (· < Nat.pow 2 32) with
    | some n => return .numbered n
    | none => throw (.invalidConstruct token.position "placeholder index out of range")
  | cs => return .named (String.ofList (cs.filter (· != ':')))

/-- A select in parentheses, after the opening one. -/
def selectInside (below : Nat → Parse Expr) : Parse Select := do
  let inner ← select (below 0)
  let _ ← expectOperator ")"
  return inner

def whens (below : Nat → Parse Expr) : Parse (List When) :=
  whileSome
    (fun found => do
      if ← eatKeyword "WHEN" then
        let condition ← below 0
        let _ ← expectKeyword "THEN"
        let result ← below 0
        return some (found ++ [⟨condition, result⟩])
      else return none)
    []

/-- `CASE`, after its first word. -/
def caseForm (below : Nat → Parse Expr) (position : Position) : Parse Expr := do
  let operand ← if ← atKeyword "WHEN" then pure none else some <$> below 0
  let branches ← whens below
  if branches.isEmpty then failExpected ["WHEN"]
  let otherwise ← optionalAfter (below 0) "ELSE"
  if ← eatKeyword "END" then return .cases position operand branches otherwise
  else failExpected (if otherwise.isSome then ["END"] else ["WHEN", "ELSE", "END"])

/-- A type name in upper case, perhaps with sizes. -/
def castTarget : Parse String := do
  let (name, _) ← expectIdentifier
  let name := name.map Char.toUpper
  if ← eatOperator "(" then
    let sizes ← commaSeparated (expectKind .integer)
    let _ ← expectOperator ")"
    return name ++ "(" ++ ", ".intercalate (sizes.map Token.lexeme) ++ ")"
  else return name

/-- `CAST`, after its first word. -/
def castForm (below : Nat → Parse Expr) (position : Position) : Parse Expr := do
  let _ ← expectOperator "("
  let e ← below 0
  let _ ← expectKeyword "AS"
  let target ← castTarget
  let _ ← expectOperator ")"
  return .cast position e target

def primaryForm (below : Nat → Parse Expr) : Parse (Option Expr) := do
  let some token ← peek | return none
  let position := token.position
  match token.kind with
  | .placeholder =>
    let _ ← next
    return some (.placeholder position (← placeholderOf token))
  | .identifier | .quotedIdentifier =>
    let dot := ((← peekNth 1).map (·.isOperator ".")).getD false
    let star := ((← peekNth 2).map (·.isOperator "*")).getD false
    if dot && star then
      Grammar.takeTokens 3
      return some (.qualifiedStar position token.name)
    else return none
  | .keyword word =>
    if word = "CASE" then
      let _ ← next
      some <$> caseForm below position
    else if word = "CAST" then
      let _ ← next
      some <$> castForm below position
    else if word = "EXISTS" then
      let _ ← next
      let _ ← expectOperator "("
      return some (.existence position (← selectInside below))
    else return none
  | .operator op =>
    if op = "*" then
      let _ ← next
      return some (.star position)
    else if op = "(" then
      if ((← peekNth 1).map (·.isKeyword "SELECT")).getD false then
        let _ ← next
        return some (.subquery position (← selectInside below))
      else return none
    else return none
  | _ => return none

/-- A subquery or a list of expressions in parentheses. -/
def inOperand (below : Nat → Parse Expr) : Parse Expr := do
  let start ← expectOperator "("
  if ← atKeyword "SELECT" then
    return .subquery start.position (← selectInside below)
  let items ← commaSeparated do return (⟨none, ← below 0⟩ : Item)
  let _ ← expectOperator ")"
  return .list start.position items

def betweenForm (below : Nat → Parse Expr) (left : Expr) (negated : Bool) : Parse Expr := do
  let low ← below (comparison + 1)
  let _ ← expectKeyword "AND"
  let high ← below (comparison + 1)
  return .between left.position left low high negated

def isNullForm (left : Expr) : Parse Expr := do
  let _ ← next
  let negated ← eatKeyword "NOT"
  let _ ← expectKeyword "NULL"
  return .isNull left.position left negated

/-- `BETWEEN`, `IN` and `IS`; `NOT` may stand before the first two. -/
def infixForm (below : Nat → Parse Expr) (left : Expr) (floor : Nat) : Parse (Option Expr) := do
  if comparison < floor then return none
  let some token ← peek | return none
  let negated := token.isKeyword "NOT"
  let some operator ← (if negated then peekNth 1 else pure (some token)) | return none
  let width := if negated then 2 else 1
  if operator.isKeyword "BETWEEN" then
    Grammar.takeTokens width
    some <$> betweenForm below left negated
  else if operator.isKeyword "IN" then
    Grammar.takeTokens width
    return some (.binary left.position (if negated then .notIn else .in) left (← inOperand below))
  else if operator.isKeyword "IS" && !negated then
    some <$> isNullForm left
  else return none

def grammar : Grammar := ⟨table, binaryOps, prefixOps, primaryForm, infixForm⟩

end EmbeddedLang.Query
