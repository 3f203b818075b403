import EmbeddedLang.Render.Error
import EmbeddedLang.Value.Basic

/-!
Ranges of integers and of characters, both ends included.
-/

namespace EmbeddedLang.Value

/-- From `a` toward `b` in steps of `step`, as far as `b` allows. -/
def stepped (a b : Int) (step : Nat) : List Int :=
  (List.range ((b - a).natAbs / step + 1)).map fun (i : Nat) =>
    if a ≤ b then a + step * i else a - step * i

/-- The most steps that a range may take, and one more. -/
def rangeLimit : Nat := 100000

def span (a b : Int) (step : Nat) : Except RenderError (List Int) :=
  if (b - a).natAbs / step < rangeLimit then .ok (stepped a b step)
  else .error (.type "range is too large")

def integerRange (a b : Int) (step : Nat) : Except RenderError Value := do
  return array ((← span a b step).map ofInt)

/-- The character of a code, which half of a pair does not have. -/
def character? (code : Int) : Option Value :=
  if h : code.toNat.isValidChar then some (string (Char.ofNatAux code.toNat h).toString) else none

def characterRange (a b : Char) : Except RenderError Value := do
  return array ((← span a.toNat b.toNat 1).filterMap character?)

def singleCharacter? : Value → Option Char
  | string s =>
    match s.toList with
    | [c] => some c
    | _ => none
  | _ => none

def range (start stop : Value) : Except RenderError Value :=
  match signed? start, signed? stop with
  | some a, some b => integerRange a b 1
  | _, _ =>
    match singleCharacter? start, singleCharacter? stop with
    | some a, some b => characterRange a b
    | _, _ =>
      .error (.type ("cannot build a range from " ++ start.typeName ++ " to " ++ stop.typeName))

end EmbeddedLang.Value
