/-!
Reading numbers from text.
-/

namespace EmbeddedLang.Decimal

/-- Value of a run of ASCII digits, at least one. -/
def natural? (text : List Char) : Option Nat :=
  if text.isEmpty || !text.all Char.isDigit then none
  else some (text.foldl (fun n c => 10 * n + (c.toNat - '0'.toNat)) 0)

/-- Digits, perhaps after a plus sign, of a number below `bound`. -/
def unsigned? (bound : Nat) (text : List Char) : Option Nat :=
  let digits := match text with
    | '+' :: rest => rest
    | _ => text
  (natural? digits).filter (· < bound)

def spanDigits (text : List Char) : List Char × List Char :=
  (text.takeWhile Char.isDigit, text.dropWhile Char.isDigit)

/-- `coefficient * 10 ^ exponent`, correctly rounded. Exponents far outside the range of `Float`
are settled at once. -/
def nearest (coefficient : Nat) (exponent : Int) : Float :=
  let size := (Nat.toDigits 10 coefficient).length
  if coefficient = 0 || size + exponent < -400 then Float.ofScientific 0 false 0
  else if size + exponent > 400 then Float.ofBits 0x7FF0000000000000
  else Float.ofScientific coefficient (exponent < 0) exponent.natAbs

/-- The exponent written at the end of a number, zero if nothing is left. -/
def exponent? : List Char → Option Int
  | [] => some 0
  | e :: rest =>
    if e != 'e' && e != 'E' then none
    else match rest with
      | '-' :: digits => (natural? digits).map fun n => -(n : Int)
      | '+' :: digits => (natural? digits).map fun n => (n : Int)
      | digits => (natural? digits).map fun n => (n : Int)

def magnitude? (text : List Char) : Option Float :=
  match (String.ofList text).toLower with
  | "inf" | "infinity" => some (Float.ofBits 0x7FF0000000000000)
  | "nan" => some (Float.ofBits 0x7FF8000000000000)
  | _ =>
    let (whole, afterWhole) := spanDigits text
    let (fraction, rest) := match afterWhole with
      | '.' :: rest => spanDigits rest
      | _ => ([], afterWhole)
    match natural? (whole ++ fraction), exponent? rest with
    | some coefficient, some e => some (nearest coefficient (e - fraction.length))
    | _, _ => none

/-- A decimal number: digits with an optional point among them, an optional exponent and sign. -/
def float? (text : List Char) : Option Float :=
  match text with
  | '-' :: rest => (magnitude? rest).map (- ·)
  | '+' :: rest => magnitude? rest
  | _ => magnitude? text

/-! ### Decimal digits read back -/

theorem isDigit_of_natural? {cs : List Char} {n : Nat} (h : natural? cs = some n) :
    ∀ c ∈ cs, c.isDigit := by
  unfold natural? at h
  split at h
  · cases h
  · rename_i hdigits
    simp only [Bool.or_eq_true, Bool.not_eq_true', not_or, Bool.not_eq_false] at hdigits
    exact List.all_eq_true.mp hdigits.2

theorem isDigit_of_mem_toString {n : Nat} {c : Char} (h : c ∈ (toString n).toList) :
    c.isDigit := by
  rw [Nat.toString_eq_repr, Nat.toList_repr] at h
  exact Nat.isDigit_of_mem_toDigits (by decide) (by decide) h

theorem toList_toString_ne_nil (n : Nat) : (toString n).toList ≠ [] := by
  rw [Nat.toString_eq_repr, Nat.toList_repr]
  exact Nat.toDigits_ne_nil

theorem natural?_toString (n : Nat) : natural? (toString n).toList = some n := by
  have hall : (toString n).toList.all Char.isDigit :=
    List.all_eq_true.mpr fun c hc => isDigit_of_mem_toString hc
  have hne : (toString n).toList.isEmpty = false :=
    List.isEmpty_eq_false_iff.mpr (toList_toString_ne_nil n)
  have hvalue : Nat.ofDigitChars 10 (toString n).toList 0 = n := by
    rw [Nat.toString_eq_repr, Nat.toList_repr]
    exact Nat.ofDigitChars_toDigits (by decide) (by decide)
  unfold natural?
  rw [hne, hall]
  exact congrArg some hvalue

theorem unsigned?_toString {bound n : Nat} (h : n < bound) :
    unsigned? bound (toString n).toList = some n := by
  have hdigits : ∀ c ∈ (toString n).toList, c.isDigit := fun c hc => isDigit_of_mem_toString hc
  unfold unsigned?
  split
  · rename_i rest hplus
    exact absurd (hdigits '+' (hplus ▸ List.mem_cons_self)) (by decide)
  · dsimp only
    rw [natural?_toString, Option.filter_some, if_pos (decide_eq_true h)]

end EmbeddedLang.Decimal
