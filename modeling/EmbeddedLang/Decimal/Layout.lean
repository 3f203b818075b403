import EmbeddedLang.Decimal.Shortest

/-!
Writing decimal numbers.
-/

namespace EmbeddedLang.Decimal

/-- How a number is laid out: the powers of ten written without an exponent, if there is a limit,
whether a whole number keeps `.0`, and which of two equally near digits is written. -/
structure Layout where
  plain : Option (Int × Int)
  pointZero : Bool
  tie : Tie

/-- Numbers in data: magnitudes below `10 ^ -5`, and those from `10 ^ 16` on, take an exponent, and
a tie goes to the even digit. -/
def Layout.data : Layout := ⟨some (-5, 15), true, .toEven⟩

/-- Numbers in messages never take an exponent, and a tie goes to the greater magnitude. -/
def Layout.prose : Layout := ⟨none, false, .up⟩

def zeros (n : Nat) : List Char :=
  List.replicate n '0'

/-- Digits with a point before the last `-exponent` of them. -/
def Layout.positional (l : Layout) (ds : List Char) (exponent : Int) : List Char :=
  if 0 ≤ exponent then
    ds ++ zeros exponent.toNat ++ (if l.pointZero then ['.', '0'] else [])
  else
    let places := (-exponent).toNat
    if places < ds.length then
      ds.take (ds.length - places) ++ '.' :: ds.drop (ds.length - places)
    else
      '0' :: '.' :: zeros (places - ds.length) ++ ds

def scientific (ds : List Char) (power : Int) : List Char :=
  let fraction := ds.drop 1
  ds.take 1 ++ (if fraction.isEmpty then [] else '.' :: fraction)
    ++ 'e' :: (if 0 ≤ power then '+' else '-') :: Nat.toDigits 10 power.natAbs

def Layout.write (l : Layout) (d : Digits) : List Char :=
  let ds := Nat.toDigits 10 d.digits
  let power := d.exponent + (ds.length - 1 : Nat)
  match l.plain with
  | none => l.positional ds d.exponent
  | some (least, most) =>
    if least ≤ power ∧ power ≤ most then l.positional ds d.exponent else scientific ds power

def isNegative (x : Float) : Bool :=
  x.toBits.toNat ≥ Nat.pow 2 63

/-- Text of a number that is neither infinite nor undefined. -/
def Layout.finite (l : Layout) (x : Float) : String :=
  String.ofList
    ((if isNegative x then ['-'] else []) ++ l.write (shortest l.tie (Dyadic.ofFloat x)))

def Layout.text (l : Layout) (x : Float) : String :=
  if x.isNaN then "NaN"
  else if x.isFinite then l.finite x
  else if isNegative x then "-inf" else "inf"

end EmbeddedLang.Decimal
