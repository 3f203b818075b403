import EmbeddedLang.Dictionary
import EmbeddedLang.Expr.Basic

/-!
The values that templates compute with: JSON data.
-/

namespace EmbeddedLang

/-- An integer lies between `-2 ^ 63` and `2 ^ 64 - 1`, and a float is finite. -/
inductive Number where
  | integer (value : Int)
  | float (value : Float)

/-- The fields of an object are sorted by name. -/
inductive Value where
  | null
  | boolean (value : Bool)
  | number (value : Number)
  | string (value : String)
  | array (items : List Value)
  | object (fields : List (String × Value))

instance : Inhabited Value := ⟨.null⟩

def Number.toFloat : Number → Float
  | integer n => Float.ofInt n
  | float x => x

/-- Two numbers of one form with one value. -/
def Number.same : Number → Number → Bool
  | integer a, integer b => a == b
  | float a, float b => a == b
  | _, _ => false

namespace Value

def ofInt (n : Int) : Value :=
  number (.integer n)

def ofNat (n : Nat) : Value :=
  ofInt n

/-- There are no infinite or undefined numbers; null stands for them. -/
def ofFloat (x : Float) : Value :=
  if x.isFinite then number (.float x) else null

def ofLiteral : Literal → Value
  | .null => null
  | .boolean b => boolean b
  | .integer n => ofInt n.toInt
  | .float x => ofFloat x
  | .string s => string s

def fitsSigned (n : Int) : Bool :=
  -(Nat.pow 2 63 : Nat) ≤ n && n < (Nat.pow 2 63 : Nat)

/-- The integers that signed arithmetic is done on. -/
def signed? : Value → Option Int
  | number (.integer n) => if fitsSigned n then some n else none
  | _ => none

def string? : Value → Option String
  | string s => some s
  | _ => none

def isTruthy : Value → Bool
  | null => false
  | boolean b => b
  | number n => n.toFloat != 0
  | string s => !s.isEmpty
  | array items => !items.isEmpty
  | object fields => !fields.isEmpty

def typeName : Value → String
  | null => "null"
  | boolean _ => "boolean"
  | number (.integer _) => "integer"
  | number (.float _) => "float"
  | string _ => "string"
  | array _ => "array"
  | object _ => "object"

/-- Number of characters, elements or fields. -/
def length? : Value → Option Nat
  | string s => some s.length
  | array items => some items.length
  | object fields => some fields.length
  | null => some 0
  | _ => none

mutual

def identical : Value → Value → Bool
  | null, null => true
  | boolean a, boolean b => a == b
  | number a, number b => a.same b
  | string a, string b => a == b
  | array xs, array ys => identicalItems xs ys
  | object fs, object gs => identicalFields fs gs
  | _, _ => false

def identicalItems : List Value → List Value → Bool
  | [], [] => true
  | x :: xs, y :: ys => identical x y && identicalItems xs ys
  | _, _ => false

def identicalFields : List (String × Value) → List (String × Value) → Bool
  | [], [] => true
  | (k, x) :: fs, (l, y) :: gs => k == l && identical x y && identicalFields fs gs
  | _, _ => false

end

end Value

end EmbeddedLang
