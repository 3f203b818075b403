import EmbeddedLang.Expr.Basic
import EmbeddedLang.Parser.Cursor

/-!
The description of a language's expressions.
-/

namespace EmbeddedLang

inductive Assoc where
  | left | right
deriving DecidableEq

/-- A binary operator, written as one or more tokens. A higher precedence binds tighter. -/
structure OperatorSpec where
  tokens : List String
  op : BinaryOp
  precedence : Nat
  assoc : Assoc

/-- A prefix operator; its operand holds only operators of this precedence or above. -/
structure PrefixSpec where
  token : String
  op : UnaryOp
  precedence : Nat

/-- Operator tables, and two rules for what no table can say. Both rules are given the parser for
nested expressions, which takes the least precedence it may use. `primaryForm` comes before the
common primary forms; `infixForm` comes where no operator of the table follows, and has to respect
the least precedence itself. -/
structure Grammar where
  table : LanguageTable
  binaryOps : List OperatorSpec
  prefixOps : List PrefixSpec
  primaryForm : (Nat → Parse Expr) → Parse (Option Expr)
  infixForm : (Nat → Parse Expr) → Expr → Nat → Parse (Option Expr)

def noPrimaryForm (_ : Nat → Parse Expr) : Parse (Option Expr) :=
  return none

def noInfixForm (_ : Nat → Parse Expr) (_ : Expr) (_ : Nat) : Parse (Option Expr) :=
  return none

namespace Parse

/-- The key of a list element: a string, a name or a number with a colon after it. -/
def itemKey (t : LanguageTable) : Parse (Option String) := do
  match ← peek, ← peekNth 1 with
  | some first, some second =>
    if second.isOperator ":" then
      let key := match first.kind with
        | .string => some (t.unescape first.lexeme)
        | .identifier | .integer => some first.lexeme
        | _ => none
      if key.isSome then
        let _ ← next
        let _ ← next
      return key
    else return none
  | _, _ => return none

/-- List elements up to and including the closer. -/
def listItems (t : LanguageTable) (expr : Parse Expr) (closer : String) : Parse (List Item) := do
  if ← eatOperator closer then return []
  let items ← commaSeparated do
    let key ← itemKey t
    return ⟨key, ← expr⟩
  let _ ← expectOperator closer
  return items

/-- The name of a call argument: a plain name with a colon after it. -/
def argumentName (t : LanguageTable) : Parse (Option String) := do
  if t.namedArguments then
    match ← peek, ← peekNth 1 with
    | some first, some second =>
      if first.kind == .identifier && second.isOperator ":" then
        let _ ← next
        let _ ← next
        return some first.lexeme
      else return none
    | _, _ => return none
  else return none

/-- Call arguments after the opening parenthesis through the closing one, and whether the word
for distinct values came before them. -/
def arguments (t : LanguageTable) (expr : Parse Expr) : Parse (List Item × Bool) := do
  if ← eatOperator ")" then return ([], false)
  let distinct ← match t.distinctKeyword with
    | some word => eatKeyword word
    | none => pure false
  let args ← commaSeparated do
    let name ← argumentName t
    return ⟨name, ← expr⟩
  let _ ← expectOperator ")"
  return (args, distinct)

end Parse

end EmbeddedLang
