import EmbeddedLang.Render.Error
import EmbeddedLang.Text.Search
import EmbeddedLang.Value.Json

/-!
Comparison of values, membership, and sorting.

Two signed integers compare exactly. All other numbers compare as floats, and equality takes every
number as a float.

Not all values can be compared. In sorting, each element moves left past those greater than it, and
stops at the first that is not. So elements that are equal or incomparable keep their order.
-/

namespace EmbeddedLang.Value

def orderOf (less same : Bool) : Ordering :=
  if less then .lt else if same then .eq else .gt

def compareFloats (a b : Float) : Option Ordering :=
  if a < b then some .lt else if a == b then some .eq else if b < a then some .gt else none

/-- The order of two values of one kind, if the kind is ordered. -/
def compare? : Value → Value → Option Ordering
  | number a, number b =>
    match signed? (number a), signed? (number b) with
    | some x, some y => some (orderOf (x < y) (x == y))
    | _, _ => compareFloats a.toFloat b.toFloat
  | string a, string b => some (orderOf (a < b) (a == b))
  | boolean a, boolean b => some (orderOf (!a && b) (a == b))
  | _, _ => none

def looselyEqual : Value → Value → Bool
  | number a, number b => a.toFloat == b.toFloat
  | a, b => identical a b

def contains (haystack needle : Value) : Except RenderError Bool :=
  match haystack with
  | array items => .ok (items.any (looselyEqual · needle))
  | object fields => .ok (Dictionary.has needle.display fields)
  | string s => .ok (Text.contains s.toList needle.display.toList)
  | null => .ok false
  | v => .error (.type ("cannot test membership in " ++ v.typeName))

def isLess (a b : Value) : Bool :=
  compare? a b == some .lt

/-- Puts `v` among elements that stand last to first. -/
def insertBack (v : Value) : List Value → List Value
  | [] => [v]
  | w :: rest => if isLess v w then w :: insertBack v rest else v :: w :: rest

def sortList (items : List Value) : List Value :=
  (items.foldl (fun sorted v => insertBack v sorted) []).reverse

theorem insertBack_perm (v : Value) (items : List Value) :
    (insertBack v items).Perm (v :: items) := by
  induction items with
  | nil => exact .refl _
  | cons w rest ih =>
    unfold insertBack
    split
    · exact (ih.cons w).trans (.swap v w rest)
    · exact .refl _

theorem sortList_perm (items : List Value) : (sortList items).Perm items := by
  have hfrom (sorted : List Value) :
      (items.foldl (fun sorted v => insertBack v sorted) sorted).Perm (items ++ sorted) := by
    induction items generalizing sorted with
    | nil => exact .refl _
    | cons v rest ih =>
      have hinsert := (insertBack_perm v sorted).append_left rest
      exact (ih (insertBack v sorted)).trans (hinsert.trans List.perm_middle)
  exact (List.reverse_perm _).trans ((hfrom []).trans (.of_eq (List.append_nil _)))

end EmbeddedLang.Value
