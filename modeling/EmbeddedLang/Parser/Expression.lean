import EmbeddedLang.Decimal.Reading
import EmbeddedLang.Parser.Grammar

/-!
Parsing expressions by precedence.

Every rule below takes the parser `below` for the expressions nested in it. `Grammar.nested` ties
the knot: it may nest as deep as there are tokens, and since every rule takes a token before it
parses something nested, that bound is never met.
-/

namespace EmbeddedLang

namespace Grammar

variable (g : Grammar) (below : Nat → Parse Expr)

/-- Whether the tokens from the `n`-th on spell `symbols`. -/
def spells : Nat → List String → Parse Bool
  | _, [] => return true
  | n, symbol :: rest => do
    if (← Parse.peekNth n).bind Token.symbol? = some symbol then spells (n + 1) rest
    else return false

def isLonger (spec : OperatorSpec) (best : Option OperatorSpec) : Bool :=
  match best with
  | some b => b.tokens.length < spec.tokens.length
  | none => true

/-- The operator ahead that takes the most tokens, the first of equals. -/
def longestOf : Option OperatorSpec → List OperatorSpec → Parse (Option OperatorSpec)
  | best, [] => return best
  | best, spec :: rest => do
    if isLonger spec best then
      if ← spells 0 spec.tokens then longestOf (some spec) rest else longestOf best rest
    else longestOf best rest

def operatorAhead : Parse (Option OperatorSpec) :=
  longestOf none g.binaryOps

def takeTokens : Nat → Parse Unit
  | 0 => return
  | n + 1 => do
    let _ ← Parse.next
    takeTokens n

def rightFloor (spec : OperatorSpec) : Nat :=
  match spec.assoc with
  | .left => spec.precedence + 1
  | .right => spec.precedence

/-- One more operator after `left`, if it binds at least as tight as `floor`. -/
def extendRight (floor : Nat) (left : Expr) : Parse (Option Expr) := do
  match ← g.operatorAhead with
  | some spec =>
    if spec.precedence < floor then return none
    takeTokens spec.tokens.length
    let right ← below (rightFloor spec)
    return some (.binary left.position spec.op left right)
  | none => g.infixForm below left floor

def integerLiteral (token : Token) : Parse Expr := do
  match Decimal.natural? token.lexeme.toList with
  | some n =>
    if n < Nat.pow 2 63 then return .literal token.position (.integer (Int64.ofNat n))
    else throw (.invalidConstruct token.position "integer literal out of range")
  | none => throw (.invalidConstruct token.position "integer literal out of range")

def floatLiteral (token : Token) : Parse Expr := do
  match Decimal.float? token.lexeme.toList with
  | some x => return .literal token.position (.float x)
  | none => throw (.invalidConstruct token.position "malformed number")

def keywordLiteral? (t : LanguageTable) (word : String) : Option Literal :=
  if word = t.nullKeyword then some .null
  else if word = t.trueKeyword then some (.boolean true)
  else if word = t.falseKeyword then some (.boolean false)
  else none

/-- The common primary forms, without what may follow them. -/
def commonPrimary : Parse Expr := do
  let some token ← Parse.peek | Parse.failExpected ["expression"]
  match token.kind with
  | .integer =>
    let e ← integerLiteral token
    let _ ← Parse.next
    return e
  | .float =>
    let e ← floatLiteral token
    let _ ← Parse.next
    return e
  | .string =>
    let _ ← Parse.next
    return .literal token.position (.string (g.table.unescape token.lexeme))
  | .identifier | .quotedIdentifier =>
    let _ ← Parse.next
    return .identifier token.position token.name
  | .keyword word =>
    match keywordLiteral? g.table word with
    | some literal =>
      let _ ← Parse.next
      return .literal token.position literal
    | none => Parse.failExpected ["expression"]
  | .operator op =>
    if op = "(" then
      let _ ← Parse.next
      let inner ← below 0
      let _ ← Parse.expectOperator ")"
      return .grouped token.position inner
    else if op = "[" ∧ g.table.listLiterals then
      let _ ← Parse.next
      return .list token.position (← Parse.listItems g.table (below 0) "]")
    else Parse.failExpected ["expression"]
  | _ => Parse.failExpected ["expression"]

def isCallable (e : Expr) : Bool :=
  g.table.callsOnExpressions || match e with
    | .identifier .. | .member .. => true
    | _ => false

def memberName : Parse String := do
  match ← Parse.peek with
  | some token =>
    match token.kind with
    | .identifier | .quotedIdentifier | .keyword _ =>
      let _ ← Parse.next
      return token.name
    | _ => Parse.failExpected ["identifier"]
  | none => Parse.failExpected ["identifier"]

/-- An expression, left out where the operator `absent` stands in its place. -/
def optionalBefore (absent : String) : Parse (Option Expr) := do
  if ← Parse.atOperator absent then return none else return some (← below 0)

/-- A subscript or a slice, after its opening bracket. -/
def subscript (object : Expr) : Parse Expr := do
  let first ← optionalBefore below ":"
  if ← Parse.eatOperator ":" then
    let last ← optionalBefore below "]"
    let _ ← Parse.expectOperator "]"
    return .slice object.position object first last
  else
    let _ ← Parse.expectOperator "]"
    match first with
    | some e => return .index object.position object e
    | none => Parse.failExpected ["expression"]

/-- One more call, member or subscript after `e`. -/
def extendPostfix (e : Expr) : Parse (Option Expr) := do
  if ← (if g.isCallable e then Parse.atOperator "(" else pure false) then
    let _ ← Parse.next
    let (args, distinct) ← Parse.arguments g.table (below 0)
    return some (.call e.position e args distinct)
  else if ← Parse.eatOperator "." then
    return some (.member e.position e (← memberName))
  else if ← (if g.table.subscripts then Parse.eatOperator "[" else pure false) then
    return some (← subscript below e)
  else return none

def primaryWith : Parse Expr := do
  let e ← match ← g.primaryForm below with
    | some e => pure e
    | none => g.commonPrimary below
  Parse.whileSome (g.extendPostfix below) e

/-- A prefix operator before an operand; a minus before a number is part of the number. -/
def applyPrefix (position : Position) (op : UnaryOp) (operand : Expr) : Expr :=
  match op, operand with
  | .neg, .literal _ (.integer n) => .literal position (.integer (-n))
  | .neg, .literal _ (.float x) => .literal position (.float (-x))
  | _, _ => .unary position op operand

def prefixOf (token : Token) : Option PrefixSpec :=
  token.symbol?.bind fun symbol => g.prefixOps.find? (·.token == symbol)

def unaryWith : Parse Expr := do
  let some token ← Parse.peek | Parse.failExpected ["expression"]
  match g.prefixOf token with
  | some spec =>
    let _ ← Parse.next
    return applyPrefix token.position spec.op (← below spec.precedence)
  | none => g.primaryWith below

def expressionWith (floor : Nat) : Parse Expr := do
  let left ← g.unaryWith below
  Parse.whileSome (g.extendRight below floor) left

/-- Expressions nested at most `depth` deep, of operators that bind at least as tight as
`floor`. -/
def nested : (depth floor : Nat) → Parse Expr
  | 0, _ => do throw (.invalidConstruct (← Parse.position) "expression is nested too deeply")
  | depth + 1, floor => g.expressionWith (nested depth) floor

/-- Gives a rule the parser for what is nested in it, to any depth that the tokens left allow. -/
def withNested {α : Type} (rule : (Nat → Parse Expr) → Parse α) : Parse α := fun c =>
  rule (g.nested (c.tokens.length + 1)) c

def expression (floor : Nat) : Parse Expr :=
  g.withNested fun below => below floor

def unary : Parse Expr :=
  g.withNested g.unaryWith

def primary : Parse Expr :=
  g.withNested g.primaryWith

end Grammar

/-- One expression and nothing after it. -/
def parseExpression (g : Grammar) (source : String) : Except CompileError Expr :=
  Parse.run? (do
    let e ← g.expression 0
    if ← Parse.isEof then return e else Parse.failExpected ["end of input"])
    (Cursor.ofSource g.table source)

end EmbeddedLang
