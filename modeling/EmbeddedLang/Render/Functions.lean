import EmbeddedLang.Render.Arguments
import EmbeddedLang.Value.Order
import EmbeddedLang.Value.Range

/-!
The functions that every renderer has.
-/

namespace EmbeddedLang.Render

open Value

/-- One bound is the end of a range from zero; an argument that is no integer counts as absent. -/
def rangeBounds (start stop : Option Int) : Except RenderError (Int × Int) :=
  match start, stop with
  | some a, some b => .ok (a, b)
  | some b, none => .ok (0, b)
  | none, _ => .error (.type "range requires integer bounds")

def rangeFunction : Function := fun args => do
  let integer := fun index name => (args.get? index name).bind signed?
  let (a, b) ← rangeBounds (integer 0 "start") (integer 1 "end")
  let step := (integer 2 "step").getD 1
  if step ≤ 0 then throw (.type "range step must be positive")
  integerRange a b step.toNat

/-- The values that `max` and `min` choose from: those of the only argument, if it is an array. -/
def choices : List Value → List Value
  | [array items] => items
  | values => values

/-- The first of the values that no other exceeds in the direction `wanted`. -/
def extremeFrom (wanted : Ordering) (best : Value) : List Value → Except RenderError Value
  | [] => .ok best
  | v :: rest =>
    match compare? v best with
    | some order => extremeFrom wanted (if order == wanted then v else best) rest
    | none => .error (.type ("cannot compare " ++ v.typeName ++ " with " ++ best.typeName))

def extreme (wanted : Ordering) : Function := fun args =>
  match choices args.positional with
  | [] => .ok null
  | v :: rest => extremeFrom wanted v rest

def inArray : Function := fun args =>
  match args.get? 0 "needle", args.get? 1 "haystack" with
  | some needle, some (array items) => .ok (boolean (items.any (looselyEqual · needle)))
  | _, _ => .error (.type "in_array requires a value and an array")

def functions : Dictionary Function :=
  Dictionary.ofList [
    ("range", rangeFunction),
    ("max", extreme .gt),
    ("min", extreme .lt),
    ("in_array", inArray)]

end EmbeddedLang.Render
