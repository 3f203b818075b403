import EmbeddedLang.Decimal.Reading
import EmbeddedLang.Toml.Item

/-!
Numbers and truth values of TOML.
-/

namespace EmbeddedLang.Toml

/-- Digits, with single underscores between some of them. -/
def grouped? (isDigit : Char → Bool) : List Char → Option (List Char)
  | [] => none
  | [c] => if isDigit c then some [c] else none
  | c :: '_' :: rest => if isDigit c then (grouped? isDigit rest).map (c :: ·) else none
  | c :: rest => if isDigit c then (grouped? isDigit rest).map (c :: ·) else none

def digitValue (c : Char) : Nat :=
  if c.isDigit then c.toNat - '0'.toNat
  else 10 + (c.toLower.toNat - 'a'.toNat)

def isDigitOf (base : Nat) (c : Char) : Bool :=
  c.isAlphanum && digitValue c < base

def ofDigits (base : Nat) (digits : List Char) : Nat :=
  digits.foldl (fun n c => base * n + digitValue c) 0

def digits? (base : Nat) (text : List Char) : Option Nat :=
  (grouped? (isDigitOf base) text).map (ofDigits base)

/-- Decimal digits without a zero in front. -/
def whole? (text : List Char) : Option (List Char) :=
  (grouped? Char.isDigit text).filter fun digits => digits.head? != some '0' || digits.length == 1

/-- A sign, positive if it is not written, and what it applies to. -/
def signed (text : List Char) : Int × List Char :=
  match text with
  | '-' :: rest => (-1, rest)
  | '+' :: rest => (1, rest)
  | _ => (1, text)

def integer? (text : List Char) : Option Int :=
  match text with
  | '0' :: 'x' :: digits => (digits? 16 digits).map Int.ofNat
  | '0' :: 'o' :: digits => (digits? 8 digits).map Int.ofNat
  | '0' :: 'b' :: digits => (digits? 2 digits).map Int.ofNat
  | _ =>
    let (sign, digits) := signed text
    (whole? digits).map fun digits => sign * ofDigits 10 digits

/-- The largest and the least integer are those of 128 bits, without and with a sign. -/
def fits (n : Int) : Bool :=
  -(Nat.pow 2 127 : Nat) ≤ n && n < (Nat.pow 2 128 : Nat)

/-- The exponent with its letter in front, zero if there is none. -/
def exponent? : List Char → Option Int
  | [] => some 0
  | _ :: text =>
    let (sign, digits) := signed text
    (grouped? Char.isDigit digits).map fun digits => sign * ofDigits 10 digits

/-- The digits behind a point, none without it. -/
def fraction? : List Char → Option (List Char)
  | [] => some []
  | _ :: digits => grouped? Char.isDigit digits

def magnitude? (text : List Char) : Option Float :=
  if text = ['i', 'n', 'f'] then some (Float.ofBits 0x7FF0000000000000)
  else if text = ['n', 'a', 'n'] then some (Float.ofBits 0x7FF8000000000000)
  else do
    let (decimal, exponent) := text.span fun c => c != 'e' && c != 'E'
    let (whole, fraction) := decimal.span (· != '.')
    let whole ← whole? whole
    let fraction ← fraction? fraction
    let exponent ← exponent? exponent
    let x := Decimal.nearest (ofDigits 10 (whole ++ fraction)) (exponent - fraction.length)
    if x.isInf then none else some x

def float? (text : List Char) : Option Float :=
  let (sign, magnitude) := signed text
  (magnitude? magnitude).map fun x => if sign < 0 then -x else x

/-- The value that a word stands for. -/
def scalar? (word : List Char) : Option Item :=
  if word = ['t', 'r', 'u', 'e'] then some (.boolean true)
  else if word = ['f', 'a', 'l', 's', 'e'] then some (.boolean false)
  else match integer? word with
    | some n => if fits n then some (.integer n) else none
    | none => (float? word).map .float

end EmbeddedLang.Toml
