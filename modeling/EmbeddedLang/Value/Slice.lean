import EmbeddedLang.Decimal.Reading
import EmbeddedLang.Render.Error
import EmbeddedLang.Value.Json

/-!
Parts of strings, arrays and objects.
-/

namespace EmbeddedLang.Value

/-- A negative index counts from the end. -/
def fromStart (i : Int) (length : Nat) : Int :=
  if i < 0 then length + i else i

/-- The place that `i` names in something of a given length. Lengths beyond the signed integers
have no places. -/
def normalizeIndex (i : Int) (length : Nat) : Option Nat :=
  let place := fromStart i length
  if length < Nat.pow 2 63 ∧ 0 ≤ place ∧ place < length then some place.toNat else none

def clampBound (i : Int) (length : Nat) : Nat :=
  min (fromStart i length).toNat length

/-- Where a slice begins and ends; an absent bound is the end on its side. -/
def sliceBounds (first last : Option Int) (length : Nat) : Nat × Nat :=
  let start := (first.map (clampBound · length)).getD 0
  let stop := (last.map (clampBound · length)).getD length
  (start, max start stop)

theorem sliceBounds_le (first last : Option Int) (length : Nat) :
    (sliceBounds first last length).1 ≤ (sliceBounds first last length).2 ∧
      (sliceBounds first last length).2 ≤ length := by
  simp only [sliceBounds, clampBound]
  cases first <;> cases last <;> simp only [Option.map, Option.getD] <;> omega

def part {α : Type} (first last : Option Int) (items : List α) : List α :=
  let (start, stop) := sliceBounds first last items.length
  (items.take stop).drop start

def slice (first last : Option Int) : Value → Except RenderError Value
  | array items => .ok (array (part first last items))
  | string s => .ok (string (String.ofList (part first last s.toList)))
  | null => .ok null
  | v => .error (.type ("cannot slice " ++ v.typeName))

def member? (property : String) : Value → Option Value
  | object fields => Dictionary.get? property fields
  | array items => (Decimal.unsigned? (Nat.pow 2 64) property.toList).bind (items[·]?)
  | _ => none

def placeOf? (index : Value) (length : Nat) : Option Nat :=
  index.signed?.bind (normalizeIndex · length)

def subscript? (index : Value) : Value → Option Value
  | array items => (placeOf? index items.length).bind (items[·]?)
  | object fields => Dictionary.get? index.display fields
  | string s =>
    (placeOf? index s.toList.length).bind fun i => s.toList[i]?.map fun c => string c.toString
  | _ => none

end EmbeddedLang.Value
