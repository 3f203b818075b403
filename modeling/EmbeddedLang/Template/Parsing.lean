import EmbeddedLang.Template.Grammar
import EmbeddedLang.Template.Node
import EmbeddedLang.Text.Blank

/-!
Parsing templates.

A directive with a body is given the parser `inner` for bodies. `bodyTo` ties the knot: bodies nest
as deep as there are tokens, and since a directive takes a token before its body begins, that bound
is never met.
-/

namespace EmbeddedLang.Template

open Parse

def expression : Parse Expr :=
  grammar.expression 0

def closing : Parse Unit := do
  let _ ← expectKind .closeStatement

/-- Where a body stands. -/
structure Place where
  inLoop : Bool
  inBlock : Bool

/-- Parses a body through the word that closes it, one of those given. -/
abbrev BodyParser := Place → List String → Parse (List Node × String)

def endTemplate : String := "end of template"

/-- Words that end a body and nothing else. -/
def closers : List String :=
  ["elseif", "else", "elsefor", "endif", "endfor", "endblock", "endmacro", "endcache",
    "endautoescape"]

/-- A filter `raw` around all of an output expression marks it and is not part of it. -/
def stripRaw (e : Expr) : Expr × Bool :=
  match e with
  | .filter _ subject name args =>
    if name = "raw" ∧ args.isEmpty then (subject, true) else (e, false)
  | _ => (e, false)

def echo (position : Position) : Parse Node := do
  let (e, raw) := stripRaw (← expression)
  let _ ← expectKind .closeEcho
  return .echo position e raw

section Directives

variable (inner : BodyParser) (place : Place) (position : Position)

/-- A condition, the body under it, and the word after that. -/
def branch : Parse (Branch × String) := do
  let condition ← expression
  closing
  let (body, closer) ← inner place ["elseif", "else", "endif"]
  return (⟨condition, body⟩, closer)

def moreBranches (found : List Branch × String) : Parse (Option (List Branch × String)) := do
  if found.2 = "elseif" then
    let (b, closer) ← branch inner place
    return some (found.1 ++ [b], closer)
  else return none

def finalBody (closer : String) : Parse (List Node) := do
  closing
  return (← inner place [closer]).1

def choiceDirective : Parse Node := do
  let (first, closer) ← branch inner place
  let (branches, closer) ← whileSome (moreBranches inner place) ([first], closer)
  if closer = "else" then
    return .choice position branches (some (← finalBody inner place "endif"))
  else return .choice position branches none

/-- `value` or `key, value`. -/
def loopNames : Parse (Option String × String) := do
  let (first, _) ← expectIdentifier
  if ← eatOperator "," then return (some first, (← expectIdentifier).1)
  else return (none, first)

def expressionAfter (word : String) : Parse (Option Expr) := do
  if ← eatKeyword word then return some (← expression) else return none

def loopDirective : Parse Node := do
  let (key, value) ← loopNames
  let _ ← expectKeyword "in"
  let iterable ← expression
  let filter ← expressionAfter "if"
  closing
  let (body, closer) ← inner { place with inLoop := true } ["else", "elsefor", "endfor"]
  if closer = "endfor" then return .loop position key value iterable filter body none
  else
    let otherwise ← finalBody inner place "endfor"
    return .loop position key value iterable filter body (some otherwise)

def assignOp? (token : Token) : Option AssignOp :=
  [("=", AssignOp.assign), ("+=", .add), ("-=", .sub), ("*=", .mul), ("/=", .div)].findSome?
    fun (op, found) => if token.isOperator op then some found else none

def assignment : Parse Assignment := do
  let (target, position) ← expectIdentifier
  let some token ← next | failExpected ["'='"]
  match assignOp? token with
  | some op => return ⟨target, op, ← expression, position⟩
  | none =>
    throw (.unexpectedToken token.position ["'='", "'+='", "'-='", "'*='", "'/='"] token.describe)

def blockDirective : Parse Node := do
  if place.inBlock then
    throw (.invalidConstruct position "blocks cannot be nested in other blocks")
  let (name, _) ← expectIdentifier
  closing
  let (body, _) ← inner { place with inBlock := true } ["endblock"]
  return .block position name body

def literal : Parse Literal := do
  match ← expression with
  | .literal _ l => return l
  | e => throw (.invalidConstruct e.position "macro parameter defaults must be literals")

def param : Parse Param := do
  let (name, _) ← expectIdentifier
  if ← eatOperator "=" then return ⟨name, some (← literal)⟩ else return ⟨name, none⟩

def params : Parse (List Param) := do
  let _ ← expectOperator "("
  if ← eatOperator ")" then return []
  let found ← commaSeparated param
  let _ ← expectOperator ")"
  return found

def definitionDirective : Parse Node := do
  let (name, _) ← expectIdentifier
  let params ← params
  closing
  let (body, _) ← inner { place with inLoop := false } ["endmacro"]
  return .definition position name params body

def lifetime? : Parse (Option Nat) := do
  let some token ← peek | return none
  if token.kind == .integer then
    let _ ← next
    match (Decimal.natural? token.lexeme.toList).filter (· < Nat.pow 2 63) with
    | some n => return some n
    | none => throw (.invalidConstruct token.position "cache lifetime out of range")
  else return none

def fragmentDirective : Parse Node := do
  let key ← expression
  let lifetime ← lifetime?
  closing
  let (body, _) ← inner place ["endcache"]
  return .fragment position key lifetime body

def switch : Parse Bool := do
  if ← eatKeyword "true" then return true
  else if ← eatKeyword "false" then return false
  else failExpected ["true", "false"]

def autoescapeDirective : Parse Node := do
  let enabled ← switch
  closing
  let (body, _) ← inner place ["endautoescape"]
  return .autoescape position enabled body

def inclusionDirective : Parse Node := do
  let template ← expression
  return .inclusion position template (← expressionAfter "with")

def jump (word : String) (node : Node) : Parse Node := do
  if place.inLoop then return node
  else throw (.invalidConstruct position ("'" ++ word ++ "' must be used inside a for loop"))

/-- A directive that the language does not know, by its name. -/
def tagDirective (name : String) : Parse Node := do
  let opened := name.toList.drop 3
  if name.startsWith "end" && !opened.isEmpty then
    return .endTag position (String.ofList opened)
  let args ← if ← atKind .closeStatement then pure [] else commaSeparated expression
  return .tag position name args

/-- A directive after its first token; only `extends` is none of these. -/
def directive (token : Token) : Parse Node :=
  match token.kind with
  | .identifier => tagDirective position token.lexeme
  | .keyword "if" => choiceDirective inner place position
  | .keyword "for" => loopDirective inner place position
  | .keyword "set" => .assignments position <$> commaSeparated assignment
  | .keyword "block" => blockDirective inner place position
  | .keyword "include" => inclusionDirective position
  | .keyword "macro" => definitionDirective inner place position
  | .keyword "cache" => fragmentDirective inner place position
  | .keyword "autoescape" => autoescapeDirective inner place position
  | .keyword "do" => .evaluation position <$> expression
  | .keyword "break" => jump place position "break" (.leave position)
  | .keyword "continue" => jump place position "continue" (.proceed position)
  | _ => throw (.unexpectedToken position ["directive"] token.describe)

end Directives

/-- A body so far. `started` says that something stands before, `child` that the template extends
another; in a nested body the first always holds and the second never. -/
structure Body where
  nodes : List Node
  started : Bool
  child : Bool
  closer : Option String

def Body.top : Body := ⟨[], false, false, none⟩

def Body.nested : Body := ⟨[], true, false, none⟩

def Body.push (b : Body) (node : Node) : Body :=
  { b with nodes := b.nodes ++ [node] }

def childContent (position : Position) : CompileError :=
  .invalidConstruct position "child templates may only contain blocks"

/-- What a template may contain once it extends another. -/
def allowedInChild (token : Token) : Bool :=
  token.isKeyword "extends" || token.isKeyword "block" || token.isKeyword "macro"

def parentDirective (position : Position) (b : Body) : Parse Body := do
  if b.started || b.child then
    throw (.invalidConstruct position "'extends' must be the first statement in the template")
  let (template, _) ← expectString table
  return { b.push (.parent position template) with child := true }

section Steps

variable (inner : BodyParser) (place : Place) (expected : List String)

/-- The statement after its opener, if it does not end the body. -/
def innerStatement (b : Body) (token : Token) : Parse Body := do
  let position := token.position
  if b.child && !allowedInChild token then throw (childContent position)
  let _ ← next
  let b ←
    if token.isKeyword "extends" then parentDirective position b
    else do
      let node ← directive inner place position token
      pure { b.push node with started := true }
  closing
  return b

def statement (b : Body) : Parse Body := do
  let some token ← peek | failExpected ["directive"]
  match token.kind with
  | .closeStatement =>
    let _ ← next
    return b
  | .keyword word =>
    if expected.contains word then
      let _ ← next
      return { b with closer := some word }
    else if closers.contains word then
      throw (.unbalancedBlock token.position (expected.getLast?.getD endTemplate) word)
    else innerStatement inner place b token
  | _ => innerStatement inner place b token

def rawText (b : Body) (token : Token) : Parse Body := do
  let blank := token.lexeme.toList.all Text.isBlank
  if b.child && !blank then throw (childContent token.position)
  return { b.push (.text token.position token.lexeme) with started := b.started || !blank }

/-- The end of the source, which only the top level may meet. -/
def finished : Parse (Option Body) := do
  match expected.getLast? with
  | some closer => throw (.unbalancedBlock (← Parse.position) closer endTemplate)
  | none => return none

def bodyStep (b : Body) : Parse (Option Body) := do
  if b.closer.isSome then return none
  let some token ← next | finished expected
  match token.kind with
  | .rawText => some <$> rawText b token
  | .openEcho =>
    if b.child then throw (childContent token.position)
    let node ← echo token.position
    return some { b.push node with started := true }
  | .openStatement => some <$> statement inner place expected b
  | _ =>
    throw (.unexpectedToken token.position ["text", "\x7b\x7b", "\x7b%"] token.describe)

end Steps

/-- A body through its closing word, with bodies nested in it at most `depth` deep. -/
def bodyTo : (depth : Nat) → BodyParser
  | 0, _, _ => do throw (.invalidConstruct (← Parse.position) "template is nested too deeply")
  | depth + 1, place, expected => do
    let b ← whileSome (bodyStep (bodyTo depth) place expected) .nested
    return (b.nodes, b.closer.getD "")

def topLevel : Parse (List Node) := fun c =>
  (Body.nodes <$> whileSome (bodyStep (bodyTo (c.tokens.length + 1)) ⟨false, false⟩ []) .top) c

def parse (source : String) : Except CompileError (List Node) :=
  Parse.run? topLevel (Cursor.ofSource table source)

end EmbeddedLang.Template
