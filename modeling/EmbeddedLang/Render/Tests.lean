import EmbeddedLang.Decimal.Reading
import EmbeddedLang.Render.Arguments
import EmbeddedLang.Text.Blank
import EmbeddedLang.Value.Basic

/-!
The tests that every renderer has.
-/

namespace EmbeddedLang.Render

open Value

/-- Zero is not empty. -/
def isEmpty : Value → Bool
  | number _ => false
  | v => !v.isTruthy

def integer? (test : String) (v : Value) : Except RenderError Int :=
  match v.signed? with
  | some n => .ok n
  | none => .error (.type (test ++ " test requires an integer, found " ++ v.typeName))

def isNumeric : Value → Bool
  | number _ => true
  | string s => (Decimal.float? (Text.trim s.toList)).isSome
  | _ => false

def isScalar : Value → Bool
  | boolean _ | number _ | string _ => true
  | _ => false

def isIterable : Value → Bool
  | array _ | object _ => true
  | _ => false

def isNull : Value → Bool
  | null => true
  | _ => false

def divisible : Test := fun v args => do
  let n ← integer? "divisibleby" v
  match (args.get? 0 "num").bind signed? with
  | none => throw (.type "divisibleby test requires an integer argument")
  | some d => if d = 0 then throw .divisionByZero else return n.tmod d == 0

def hasType : Test := fun v args =>
  match (args.get? 0 "name").bind string? with
  | some name => .ok (v.typeName == name)
  | none => .error (.type "type test requires a type name")

def same : Test := fun v args =>
  .ok (((args.get? 0 "other").map (identical · v)).getD false)

def tests : Dictionary Test :=
  Dictionary.ofList [
    ("empty", fun v _ => .ok (isEmpty v)),
    ("even", fun v _ => return (← integer? "even" v) % 2 == 0),
    ("odd", fun v _ => return (← integer? "odd" v) % 2 != 0),
    ("numeric", fun v _ => .ok (isNumeric v)),
    ("scalar", fun v _ => .ok (isScalar v)),
    ("iterable", fun v _ => .ok (isIterable v)),
    ("null", fun v _ => .ok (isNull v)),
    ("divisibleby", divisible),
    ("sameas", same),
    ("type", hasType)]

end EmbeddedLang.Render
