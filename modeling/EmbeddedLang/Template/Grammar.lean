import EmbeddedLang.Parser.Expression

/-!
The words, operators and special forms of template expressions.

From the loosest: `? :`, `or`, `and`, `not`, comparisons with `in` and `is`, `..`, sums and `~`,
products, `**`, signs, filters.
-/

namespace EmbeddedLang.Template

open Parse

def table : LanguageTable where
  name := "template"
  keywords := [
    "if", "elseif", "else", "endif", "for", "in", "endfor", "elsefor", "set", "macro", "endmacro",
    "block", "endblock", "extends", "include", "with", "cache", "endcache", "autoescape",
    "endautoescape", "do", "break", "continue", "and", "or", "not", "is", "defined", "null",
    "true", "false"]
  keywordCase := .sensitive
  operators := [
    "|", ".", "..", ",", ":", "?", "(", ")", "[", "]", "\x7b", "\x7d", "+", "-", "*", "**", "/",
    "//", "%", "~", "=", "==", "!=", "===", "!==", "<", ">", "<=", ">=", "+=", "-=", "*=", "/="]
  quotes := ['\'', '"']
  escape := some '\\'
  lineComment := none
  blockComment := none
  bracketIdentifiers := false
  placeholders := false
  delimiters := some .braces
  nullKeyword := "null"
  trueKeyword := "true"
  falseKeyword := "false"
  namedArguments := true
  distinctKeyword := none
  listLiterals := true
  subscripts := true
  callsOnExpressions := true

def choice : Nat := 1
def comparison : Nat := 5
def filtering : Nat := 11

def binaryOps : List OperatorSpec := [
  ⟨["or"], .or, 2, .left⟩,
  ⟨["and"], .and, 3, .left⟩,
  ⟨["=="], .eq, comparison, .left⟩,
  ⟨["!="], .notEq, comparison, .left⟩,
  ⟨["==="], .identical, comparison, .left⟩,
  ⟨["!=="], .notIdentical, comparison, .left⟩,
  ⟨["<"], .lt, comparison, .left⟩,
  ⟨[">"], .gt, comparison, .left⟩,
  ⟨["<="], .ltEq, comparison, .left⟩,
  ⟨[">="], .gtEq, comparison, .left⟩,
  ⟨["in"], .in, comparison, .left⟩,
  ⟨["not", "in"], .notIn, comparison, .left⟩,
  ⟨[".."], .range, 6, .left⟩,
  ⟨["~"], .concat, 7, .left⟩,
  ⟨["+"], .add, 7, .left⟩,
  ⟨["-"], .sub, 7, .left⟩,
  ⟨["*"], .mul, 8, .left⟩,
  ⟨["/"], .div, 8, .left⟩,
  ⟨["//"], .floorDiv, 8, .left⟩,
  ⟨["%"], .mod, 8, .left⟩,
  ⟨["**"], .pow, 9, .right⟩]

def prefixOps : List PrefixSpec :=
  [⟨"not", .not, 4⟩, ⟨"-", .neg, 10⟩, ⟨"+", .plus, 10⟩]

/-- A list with keys, in braces. -/
def primaryForm (below : Nat → Parse Expr) : Parse (Option Expr) := do
  if ← atOperator "\x7b" then
    let start ← expectOperator "\x7b"
    return some (.list start.position (← listItems table (below 0) "\x7d"))
  else return none

def optionalArguments (below : Nat → Parse Expr) : Parse (List Item) := do
  if ← eatOperator "(" then return (← arguments table (below 0)).1 else return []

def testName : Parse String := do
  let some token ← peek | failExpected ["defined", "test name"]
  if token.kind == .identifier || token.isKeyword "null" then
    let _ ← next
    return token.lexeme
  else failExpected ["defined", "test name"]

/-- A test of `left`, after `is`. -/
def testForm (below : Nat → Parse Expr) (left : Expr) : Parse Expr := do
  let negated ← eatKeyword "not"
  if ← eatKeyword "defined" then return .defined left.position left negated
  let name ← testName
  return .test left.position left name (← optionalArguments below) negated

/-- Filters, tests and choices. -/
def infixForm (below : Nat → Parse Expr) (left : Expr) (floor : Nat) : Parse (Option Expr) := do
  let some token ← peek | return none
  if token.isOperator "|" && floor ≤ filtering then
    let _ ← next
    let (name, _) ← expectIdentifier
    return some (.filter left.position left name (← optionalArguments below))
  else if token.isKeyword "is" && floor ≤ comparison then
    let _ ← next
    some <$> testForm below left
  else if token.isOperator "?" && floor ≤ choice then
    let _ ← next
    let yes ← below 0
    let _ ← expectOperator ":"
    let no ← below choice
    return some (.conditional left.position left yes no)
  else return none

def grammar : Grammar := ⟨table, binaryOps, prefixOps, primaryForm, infixForm⟩

end EmbeddedLang.Template
