import EmbeddedLang.Position

/-!
Tokens, each an exact piece of the source.
-/

namespace EmbeddedLang

/-- Keywords and operators carry their spelling in the language table. -/
inductive TokenKind where
  | keyword (canonical : String)
  | identifier
  | quotedIdentifier
  | string
  | integer
  | float
  | operator (canonical : String)
  | placeholder
  | rawText
  | openStatement
  | closeStatement
  | openEcho
  | closeEcho
deriving DecidableEq

def TokenKind.describe : TokenKind → String
  | keyword word => "keyword " ++ word
  | identifier | quotedIdentifier => "identifier"
  | string => "string"
  | integer => "integer"
  | float => "number"
  | operator op => "'" ++ op ++ "'"
  | placeholder => "placeholder"
  | rawText => "text"
  | openStatement => "statement opener"
  | closeStatement => "statement closer"
  | openEcho => "echo opener"
  | closeEcho => "echo closer"

structure Token where
  kind : TokenKind
  lexeme : String
  position : Position
deriving DecidableEq

namespace Token

def isKeyword (t : Token) (word : String) : Bool :=
  t.kind == .keyword word

def isOperator (t : Token) (op : String) : Bool :=
  t.kind == .operator op

def isIdentifier (t : Token) : Bool :=
  t.kind == .identifier || t.kind == .quotedIdentifier

def symbol? (t : Token) : Option String :=
  match t.kind with
  | .keyword s | .operator s => some s
  | _ => none

/-- How an error names the token it met. -/
def describe (t : Token) : String :=
  match t.kind with
  | .rawText => "text"
  | .keyword word => "'" ++ word ++ "'"
  | _ => "'" ++ t.lexeme ++ "'"

/-- The name that an identifier spells; brackets around it do not belong to it. -/
def name (t : Token) : String :=
  match t.kind with
  | .quotedIdentifier =>
    let inner := t.lexeme.toList.dropWhile (· == '[')
    String.ofList (inner.reverse.dropWhile (· == ']')).reverse
  | _ => t.lexeme

end Token

end EmbeddedLang
