/-!
The fewest decimal digits that read back as a given binary number.

A positive finite `Float` is `mantissa * 2 ^ exponent`. The reals that round to it form an interval
around it, and the digits sought are those of the coarsest decimal grid with a point inside.

The remainder of two such numbers needs no rounding either.
-/

namespace EmbeddedLang.Decimal

/-- The number `mantissa * 2 ^ exponent`. -/
structure Dyadic where
  mantissa : Nat
  exponent : Int
deriving DecidableEq

/-- The magnitude of a finite `Float`. -/
def Dyadic.ofFloat (x : Float) : Dyadic :=
  let bits := x.toBits.toNat
  let fraction := bits % Nat.pow 2 52
  let biased := (bits / Nat.pow 2 52) % Nat.pow 2 11
  if biased = 0 then ⟨fraction, -1074⟩ else ⟨Nat.pow 2 52 + fraction, Int.ofNat biased - 1075⟩

/-- The number `digits * 10 ^ exponent`. -/
structure Digits where
  digits : Nat
  exponent : Int
deriving DecidableEq

def powerOver (base : Nat) (n : Int) : Nat × Nat :=
  if 0 ≤ n then (Nat.pow base n.toNat, 1) else (1, Nat.pow base (-n).toNat)

/-- Number of decimal digits of `n`; none for zero. -/
def decimalLength (n : Nat) : Nat :=
  if n = 0 then 0 else (Nat.toDigits 10 n).length

/-- The least `k` with `numerator / denominator < 10 ^ k`. -/
def magnitude (numerator denominator : Nat) : Int :=
  if denominator ≤ numerator then decimalLength (numerator / denominator)
  else 1 - decimalLength ((denominator + numerator - 1) / numerator - 1)

/-- The points of the interval that rounds to a number, in quarters of its last place. -/
structure Rounding where
  low : Nat
  middle : Nat
  high : Nat
  closed : Bool

def Dyadic.rounding (x : Dyadic) : Rounding :=
  let m := x.mantissa
  { low := if m = Nat.pow 2 52 && x.exponent != -1074 then 4 * m - 1 else 4 * m - 2
    middle := 4 * m
    high := 4 * m + 2
    closed := m % 2 == 0 }

/-- Which of two neighbours that are equally near is taken. -/
inductive Tie where
  | toEven
  | up
deriving DecidableEq

def Tie.takesBelow (t : Tie) (below : Nat) : Bool :=
  match t with
  | .toEven => below % 2 == 0
  | .up => false

/-- The point nearest to the number among its two neighbours on the grid of multiples of
`10 ^ exponent`, if one of them rounds to it. -/
def Dyadic.onGrid (x : Dyadic) (tie : Tie) (exponent : Int) : Option Nat :=
  let r := x.rounding
  let (twos, perTwos) := powerOver 2 x.exponent
  let (tens, perTens) := powerOver 10 exponent
  -- a quarter of a last place is `unit` and a grid step is `step`, in a common measure
  let unit := twos * perTens
  let step := 4 * perTwos * tens
  let below := r.middle * unit / step
  let inside (n : Nat) : Bool :=
    if r.closed then r.low * unit ≤ n * step && n * step ≤ r.high * unit
    else r.low * unit < n * step && n * step < r.high * unit
  let gapBelow := r.middle * unit - below * step
  let gapAbove := (below + 1) * step - r.middle * unit
  let belowFirst := gapBelow < gapAbove || (gapBelow == gapAbove && tie.takesBelow below)
  let (near, far) := if belowFirst then (below, below + 1) else (below + 1, below)
  if inside near then some near else if inside far then some far else none

def stripZeros : Nat → Digits → Digits
  | 0, d => d
  | fuel + 1, d =>
    if d.digits ≠ 0 ∧ d.digits % 10 = 0 then stripZeros fuel ⟨d.digits / 10, d.exponent + 1⟩ else d

/-- Seventeen digits always suffice. -/
def shortest (tie : Tie) (x : Dyadic) : Digits :=
  if x.mantissa = 0 then ⟨0, 0⟩ else
  let (twos, perTwos) := powerOver 2 x.exponent
  let top := magnitude (x.mantissa * twos) perTwos
  let found := (List.range 17).findSome? fun n =>
    (x.onGrid tie (top - (n + 1 : Nat))).map fun d => (⟨d, top - (n + 1 : Nat)⟩ : Digits)
  stripZeros 20 (found.getD ⟨0, 0⟩)

/-- What is left of the magnitude of `x` after as many magnitudes of `y` as fit into it. -/
def Dyadic.remainder (x y : Dyadic) : Dyadic :=
  let low := min x.exponent y.exponent
  let scaled := fun (d : Dyadic) => d.mantissa * Nat.pow 2 (d.exponent - low).toNat
  ⟨scaled x % scaled y, low⟩

def Dyadic.toFloat (d : Dyadic) : Float :=
  (Float.ofNat d.mantissa).scaleB d.exponent

/-- The remainder of `x` by `y`, with the sign of `x`. The numbers are finite and `y` is not
zero. -/
def remainder (x y : Float) : Float :=
  let r := ((Dyadic.ofFloat x).remainder (Dyadic.ofFloat y)).toFloat
  if x.toBits.toNat < Nat.pow 2 63 then r else -r

end EmbeddedLang.Decimal
