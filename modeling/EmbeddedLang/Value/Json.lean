import EmbeddedLang.Decimal.Layout
import EmbeddedLang.Value.Basic

/-!
Values written as compact JSON, and as template output.
-/

namespace EmbeddedLang

def hexDigit (n : Nat) : Char :=
  Nat.digitChar (n % 16)

/-- Control characters are written by code, unless they have a letter. -/
def jsonChar (c : Char) : List Char :=
  match c with
  | '"' => ['\\', '"']
  | '\\' => ['\\', '\\']
  | '\x08' => ['\\', 'b']
  | '\x0c' => ['\\', 'f']
  | '\n' => ['\\', 'n']
  | '\r' => ['\\', 'r']
  | '\t' => ['\\', 't']
  | _ =>
    if c.toNat < 0x20 then ['\\', 'u', '0', '0', hexDigit (c.toNat / 16), hexDigit c.toNat]
    else [c]

def jsonString (s : String) : String :=
  "\"" ++ String.ofList (s.toList.flatMap jsonChar) ++ "\""

def Number.text : Number → String
  | integer n => toString n
  | float x => Decimal.Layout.data.text x

namespace Value

mutual

def toJson : Value → String
  | null => "null"
  | boolean b => if b then "true" else "false"
  | number n => n.text
  | string s => jsonString s
  | array items => "[" ++ ",".intercalate (itemsToJson items) ++ "]"
  | object fields => "\x7b" ++ ",".intercalate (fieldsToJson fields) ++ "\x7d"

def itemsToJson : List Value → List String
  | [] => []
  | v :: rest => toJson v :: itemsToJson rest

def fieldsToJson : List (String × Value) → List String
  | [] => []
  | (k, v) :: rest => (jsonString k ++ ":" ++ toJson v) :: fieldsToJson rest

end

/-- Text of a value in the output of a template. -/
def display : Value → String
  | null => ""
  | string s => s
  | v => v.toJson

end Value

end EmbeddedLang
