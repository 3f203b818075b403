import EmbeddedLang.Lexical.LanguageTable
import EmbeddedLang.Query.Construct
import EmbeddedLang.Query.SyntaxTemplate

/-!
How a database spells identifiers, placeholders and constructs. What a dialect has no template for,
it does not support.
-/

namespace EmbeddedLang.Query

structure Dialect where
  name : String
  quotes : Quotes
  style : PlaceholderStyle
  constructs : List (Construct × SyntaxTemplate)

def PlaceholderStyle.key : PlaceholderStyle → String
  | .question => "Question"
  | .numbered => "Numbered"
  | .named => "Named"

namespace Dialect

def bare (name : String) (quotes : Quotes) (style : PlaceholderStyle) : Dialect :=
  ⟨name, quotes, style, []⟩

def remove (d : Dialect) (c : Construct) : Dialect :=
  { d with constructs := d.constructs.filter fun entry => entry.1 ≠ c }

/-- A later template for a construct takes the place of an earlier one. -/
def define (d : Dialect) (c : Construct) (template : String) : Dialect :=
  { d with constructs := (c, .parse template) :: (d.remove c).constructs }

def named (d : Dialect) (name : String) : Dialect :=
  { d with name }

def template? (d : Dialect) (c : Construct) : Option SyntaxTemplate :=
  (d.constructs.find? fun entry => entry.1 = c).map (·.2)

def supports (d : Dialect) (c : Construct) : Bool :=
  (d.template? c).isSome

def quote (d : Dialect) (identifier : String) : String :=
  d.quotes.quote identifier

def render (d : Dialect) (c : Construct) (args : List Fragment) (position : Position) :
    Except CompileError Fragment :=
  match d.template? c with
  | some t => t.apply args position
  | none => .error (.unsupported c.describe d.name position)

/-- All that decides how the dialect writes a statement, in one text. -/
def signature (d : Dialect) : String :=
  let entries := d.constructs.map fun (c, t) => c.key ++ "=" ++ t.source
  let sorted := entries.mergeSort fun a b => a ≤ b
  d.name ++ "|" ++ String.ofList [d.quotes.opening, d.quotes.closing] ++ "|" ++ d.style.key ++ "|"
    ++ ";".intercalate sorted

def defineAll (d : Dialect) (entries : List (Construct × String)) : Dialect :=
  entries.foldl (fun d (c, template) => d.define c template) d

/-- Two operands with `words` between them. -/
def between (words : String) : String :=
  "\x7b0\x7d " ++ words ++ " \x7b1\x7d"

/-- One operand after `words`. -/
def after (words : String) : String :=
  words ++ "\x7b0\x7d"

/-- A call of one operand. -/
def callOfOne (name : String) : String :=
  name ++ "(\x7b0\x7d)"

/-- A call of all operands. -/
def callOfAll (name : String) : String :=
  name ++ "(\x7b*\x7d)"

def joinOn (words : String) : String :=
  words ++ " \x7b0\x7d ON \x7b1\x7d"

/-- Operators that every dialect writes by their own names. -/
def standardBinary : List BinaryOp :=
  [.or, .and, .eq, .notEq, .lt, .gt, .ltEq, .gtEq, .like, .notLike, .in, .notIn, .add, .sub, .mul,
    .div, .mod, .concat, .bitAnd, .bitOr, .bitXor]

def standard : List (Construct × String) :=
  standardBinary.map (fun op => (.binary op, between op.name)) ++ [
    (.unary .not, after "NOT "),
    (.unary .neg, after "-"),
    (.unary .plus, after "+"),
    (.unary .bitNot, after "~"),
    (.function "COUNT", callOfAll "COUNT"),
    (.function "SUM", callOfAll "SUM"),
    (.function "AVG", callOfAll "AVG"),
    (.function "MIN", callOfAll "MIN"),
    (.function "MAX", callOfAll "MAX"),
    (.function "LOWER", callOfOne "LOWER"),
    (.function "UPPER", callOfOne "UPPER"),
    (.function "LENGTH", callOfOne "LENGTH"),
    (.function "ABS", callOfOne "ABS"),
    (.function "ROUND", callOfAll "ROUND"),
    (.function "COALESCE", callOfAll "COALESCE"),
    (.function "NOW", "NOW()"),
    (.join .inner, joinOn "INNER JOIN"),
    (.join .left, joinOn "LEFT JOIN"),
    (.join .cross, "CROSS JOIN \x7b0\x7d"),
    (.limit, after "LIMIT "),
    (.limitOffset, "LIMIT \x7b0\x7d OFFSET \x7b1\x7d")]

def ignoringCase : List (Construct × String) :=
  [(.binary .iLike, between "ILIKE"), (.binary .notILike, between "NOT ILIKE")]

def limitedChanges : List (Construct × String) :=
  [(.updateLimit, after "LIMIT "), (.deleteLimit, after "LIMIT ")]

def doubleQuotes : Quotes :=
  ⟨'"', '"'⟩

def graveAccent : Char := '\x60'

def generic : Dialect :=
  (bare "generic" doubleQuotes .question).defineAll
    (standard ++ ignoringCase ++ limitedChanges ++
      [(.join .right, joinOn "RIGHT JOIN"), (.join .full, joinOn "FULL JOIN")])

def postgres : Dialect :=
  (bare "postgres" doubleQuotes .numbered).defineAll
    (standard ++ ignoringCase ++
      [(.binary .bitXor, between "#"), (.join .right, joinOn "RIGHT JOIN"),
        (.join .full, joinOn "FULL JOIN")])

def mysql : Dialect :=
  (bare "mysql" ⟨graveAccent, graveAccent⟩ .question).defineAll
    (standard ++ limitedChanges ++
      [(.binary .concat, "CONCAT(\x7b0\x7d, \x7b1\x7d)"),
        (.join .right, joinOn "RIGHT JOIN"),
        (.limitOffset, "LIMIT \x7b1\x7d, \x7b0\x7d"),
        (.function "LENGTH", callOfOne "CHAR_LENGTH")])

def sqlite : Dialect :=
  (bare "sqlite" doubleQuotes .question).defineAll
    (standard ++ [(.function "NOW", "CURRENT_TIMESTAMP")])

/-- A built-in dialect, by its name in any case. -/
def byName? (name : String) : Option Dialect :=
  match lowerAscii name with
  | "generic" => some generic
  | "postgres" => some postgres
  | "postgresql" => some postgres
  | "mysql" => some mysql
  | "sqlite" => some sqlite
  | _ => none

end Dialect

end EmbeddedLang.Query
