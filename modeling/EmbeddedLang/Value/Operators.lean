import EmbeddedLang.Decimal.Shortest
import EmbeddedLang.Expr.Basic
import EmbeddedLang.Render.Error
import EmbeddedLang.Value.Basic
import EmbeddedLang.Value.Order
import EmbeddedLang.Value.Range

/-!
The operators of template expressions.

Sums, products and powers of signed integers stay integers as long as the result is one that fits;
everything else is done on floats.
-/

namespace EmbeddedLang.Value

def fit? (n : Int) : Option Int :=
  if fitsSigned n then some n else none

/-- The quotient, rounded toward zero. -/
def quotient? (a b : Int) : Option Int :=
  fit? (a.tdiv b)

/-- A remainder is taken only where the quotient is in range. -/
def remainder? (a b : Int) : Option Int :=
  (quotient? a b).map fun _ => a.tmod b

/-- The quotient is corrected where it was rounded up. -/
def floorQuotient? (a b : Int) : Option Int :=
  (quotient? a b).map fun q => if a.tmod b ≠ 0 ∧ ¬(a < 0 ↔ b < 0) then q - 1 else q

/-- Exponents from 64 on leave only the powers of 0, 1 and -1 in range. -/
def power? (a : Int) (b : Nat) : Option Int :=
  if Nat.pow 2 32 ≤ b then none
  else if b < 64 then fit? (Int.pow a b)
  else if a.natAbs ≤ 1 then some (Int.pow a (b % 2 + 2))
  else none

/-- The result on integers, the divisor not being zero, if it is an integer in range. -/
def onIntegers? (op : BinaryOp) (a b : Int) : Option Int :=
  match op with
  | .add => fit? (a + b)
  | .sub => fit? (a - b)
  | .mul => fit? (a * b)
  | .div => if remainder? a b = some 0 then quotient? a b else none
  | .floorDiv => floorQuotient? a b
  | .mod => remainder? a b
  | .pow => if 0 ≤ b then power? a b.toNat else none
  | _ => none

def isDivision (op : BinaryOp) : Bool :=
  op == .div || op == .floorDiv || op == .mod

def onFloats (op : BinaryOp) (a b : Float) : Float :=
  match op with
  | .add => a + b
  | .sub => a - b
  | .mul => a * b
  | .div => a / b
  | .floorDiv => (a / b).floor
  | .mod => Decimal.remainder a b
  | _ => a ^ b

def arithmetic (op : BinaryOp) (left right : Value) : Except RenderError Value :=
  match left, right with
  | number x, number y =>
    if isDivision op && y.toFloat == 0 then .error .divisionByZero
    else
      let exact := do onIntegers? op (← signed? left) (← signed? right)
      match exact with
      | some n => .ok (ofInt n)
      | none => .ok (ofFloat (onFloats op x.toFloat y.toFloat))
  | _, _ =>
    .error (.type ("operator " ++ op.name ++ " expects numbers, found " ++ left.typeName ++ " and "
      ++ right.typeName))

def ordered (accept : Ordering → Bool) (left right : Value) : Except RenderError Value :=
  match compare? left right with
  | some order => .ok (boolean (accept order))
  | none => .error (.type ("cannot compare " ++ left.typeName ++ " with " ++ right.typeName))

def binary (op : BinaryOp) (left right : Value) : Except RenderError Value :=
  match op with
  | .eq => .ok (boolean (looselyEqual left right))
  | .notEq => .ok (boolean !(looselyEqual left right))
  | .identical => .ok (boolean (identical left right))
  | .notIdentical => .ok (boolean !(identical left right))
  | .lt => ordered Ordering.isLT left right
  | .gt => ordered Ordering.isGT left right
  | .ltEq => ordered Ordering.isLE left right
  | .gtEq => ordered Ordering.isGE left right
  | .in => return boolean (← contains right left)
  | .notIn => return boolean !(← contains right left)
  | .concat => .ok (string (left.display ++ right.display))
  | .range => range left right
  | .and => .ok (boolean (left.isTruthy && right.isTruthy))
  | .or => .ok (boolean (left.isTruthy || right.isTruthy))
  | .add | .sub | .mul | .div | .floorDiv | .mod | .pow => arithmetic op left right
  | .like | .notLike | .iLike | .notILike | .bitAnd | .bitOr | .bitXor =>
    .error (.type ("operator " ++ op.name ++ " is not supported in templates"))

def unary (op : UnaryOp) (operand : Value) : Except RenderError Value :=
  match op, operand with
  | .not, v => .ok (boolean !v.isTruthy)
  | .neg, v => binary .sub (ofInt 0) v
  | .plus, number n => .ok (number n)
  | _, v => .error (.type ("operator " ++ op.name ++ " cannot be applied to " ++ v.typeName))

end EmbeddedLang.Value
