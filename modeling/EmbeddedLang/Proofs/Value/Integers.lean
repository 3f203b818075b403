import EmbeddedLang.Proofs.Value.Floats
import EmbeddedLang.Value.Operators
import Mathlib.Data.Rat.Floor

/-!
Arithmetic on signed integers gives the integer that mathematics gives, where there is one in range,
except for two kinds of operands that the steps of the computation leave out.
-/

namespace EmbeddedLang.Value

theorem fitsSigned_iff {n : Int} : fitsSigned n = true ↔ -2 ^ 63 ≤ n ∧ n < 2 ^ 63 := by
  unfold fitsSigned
  simp

theorem natAbs_le_of_fitsSigned {n : Int} (h : fitsSigned n) : n.natAbs ≤ 2 ^ 64 := by
  rw [fitsSigned_iff] at h
  omega

theorem fit?_eq_some {n m : Int} : fit? n = some m ↔ fitsSigned n = true ∧ n = m := by
  unfold fit?
  split <;> simp_all

/-! ### What the operators mean -/

/-- Operators with an integer result on integers. -/
def isArithmetic : BinaryOp → Bool
  | .add | .sub | .mul | .div | .floorDiv | .mod | .pow => true
  | _ => false

/-- The integer that the operator means, the divisor of a division not being zero. -/
def meant? (op : BinaryOp) (a b : Int) : Option Int :=
  match op with
  | .add => some (a + b)
  | .sub => some (a - b)
  | .mul => some (a * b)
  | .div => if b ∣ a then some (a / b) else none
  | .floorDiv => some ⌊(a / b : ℚ)⌋
  | .mod => some (a.sign * (a.natAbs % b.natAbs : Nat))
  | .pow => if 0 ≤ b then some (a ^ b.toNat) else none
  | _ => none

/-- Operands for which the result is in range and is not found all the same: the least integer by
-1, where the quotient is out of range, and exponents of more than 32 bits. -/
def missed (op : BinaryOp) (a b : Int) : Bool :=
  match op with
  | .mod => a = -2 ^ 63 ∧ b = -1
  | .pow => a.natAbs ≤ 1 ∧ 2 ^ 32 ≤ b
  | _ => false

theorem floor_div (a b : Int) : ⌊(a / b : ℚ)⌋ = a.fdiv b := by
  obtain ⟨n, rfl | rfl⟩ := Int.eq_nat_or_neg b
  · rw [Int.fdiv_eq_ediv_of_nonneg _ (Int.natCast_nonneg n), Int.cast_natCast]
    exact Rat.floor_intCast_div_natCast a n
  · rw [← Int.neg_fdiv_neg, Int.neg_neg, Int.fdiv_eq_ediv_of_nonneg _ (Int.natCast_nonneg n),
      Int.cast_neg, Int.cast_natCast, div_neg, ← neg_div, ← Int.cast_neg]
    exact Rat.floor_intCast_div_natCast (-a) n

theorem tmod_eq (a b : Int) : a.tmod b = a.sign * (a.natAbs % b.natAbs : Nat) := by
  rw [← Int.sign_mul_natAbs (a.tmod b), Int.natAbs_tmod, Int.sign_tmod]
  split
  · rename_i hdvd
    rw [Nat.mod_eq_zero_of_dvd (Int.natAbs_dvd_natAbs.mpr hdvd), Int.zero_mul]
    exact (Int.mul_zero _).symm
  · rfl

/-! ### Quotients -/

theorem quotient?_least : quotient? (-2 ^ 63) (-1) = none := by
  decide

theorem natAbs_tdiv_le {a b : Int} (hb : b ≠ 0) (hone : b.natAbs ≠ 1) :
    (a.tdiv b).natAbs ≤ a.natAbs / 2 := by
  rw [Int.natAbs_tdiv]
  exact Nat.div_le_div_left (by omega) Nat.two_pos

/-- Only the least integer divided by -1 is out of range. -/
theorem fitsSigned_tdiv {a b : Int} (ha : fitsSigned a) (hb : b ≠ 0)
    (h : ¬(a = -2 ^ 63 ∧ b = -1)) : fitsSigned (a.tdiv b) := by
  rw [fitsSigned_iff] at ha ⊢
  by_cases hone : b.natAbs = 1
  · rcases Int.natAbs_eq_iff.mp hone with rfl | rfl
    · rw [Nat.cast_one, Int.tdiv_one]
      exact ha
    · rw [Nat.cast_one, Int.tdiv_neg, Int.tdiv_one]
      omega
  · have hhalf : (a.tdiv b).natAbs ≤ a.natAbs / 2 := natAbs_tdiv_le hb hone
    omega

theorem quotient?_eq {a b : Int} (ha : fitsSigned a) (hb : b ≠ 0)
    (h : ¬(a = -2 ^ 63 ∧ b = -1)) : quotient? a b = some (a.tdiv b) :=
  fit?_eq_some.mpr ⟨fitsSigned_tdiv ha hb h, rfl⟩

theorem remainder?_eq {a b : Int} (ha : fitsSigned a) (hb : b ≠ 0) (h : ¬(a = -2 ^ 63 ∧ b = -1)) :
    remainder? a b = some (a.tmod b) := by
  rw [remainder?, quotient?_eq ha hb h, Option.map_some]

theorem fdiv_eq_ite (a : Int) {b : Int} (hb : b ≠ 0) :
    a.fdiv b = if a.tmod b ≠ 0 ∧ ¬(a < 0 ↔ b < 0) then a.tdiv b - 1 else a.tdiv b := by
  rw [Int.fdiv_eq_tdiv]
  by_cases hdvd : b ∣ a
  · have hmod : a.tmod b = 0 := Int.dvd_iff_tmod_eq_zero.mp hdvd
    rw [if_pos hdvd, if_neg fun h => h.1 hmod, Int.sub_zero]
  · have hmod : a.tmod b ≠ 0 := fun h => hdvd (Int.dvd_iff_tmod_eq_zero.mpr h)
    have hzero : a ≠ 0 := fun h => hdvd (h ▸ Int.dvd_zero b)
    rw [if_neg hdvd]
    rcases Int.lt_or_gt_of_ne hb with hneg | hpos
    · rw [Int.sign_eq_neg_one_of_neg hneg]
      split_ifs <;> omega
    · rw [Int.sign_eq_one_of_pos hpos]
      split_ifs <;> omega

theorem floorQuotient?_eq {a b : Int} (ha : fitsSigned a) (hb : b ≠ 0)
    (h : ¬(a = -2 ^ 63 ∧ b = -1)) : floorQuotient? a b = some (a.fdiv b) := by
  rw [floorQuotient?, quotient?_eq ha hb h, Option.map_some, fdiv_eq_ite a hb]

/-- Where the quotient is corrected it is at most half of the dividend. -/
theorem fitsSigned_fdiv {a b : Int} (ha : fitsSigned a) (hb : b ≠ 0)
    (h : ¬(a = -2 ^ 63 ∧ b = -1)) : fitsSigned (a.fdiv b) := by
  rw [fdiv_eq_ite a hb]
  split
  · rename_i hmod
    have hone : b.natAbs ≠ 1 := by
      intro hone
      have hdvd : b ∣ a := Int.natAbs_dvd_natAbs.mp (hone ▸ Nat.one_dvd _)
      exact hmod.1 (Int.dvd_iff_tmod_eq_zero.mp hdvd)
    have hhalf : (a.tdiv b).natAbs ≤ a.natAbs / 2 := natAbs_tdiv_le hb hone
    rw [fitsSigned_iff] at ha ⊢
    omega
  · exact fitsSigned_tdiv ha hb h

theorem natAbs_tmod_lt (a : Int) {b : Int} (hb : b ≠ 0) : (a.tmod b).natAbs < b.natAbs := by
  rw [Int.natAbs_tmod]
  exact Nat.mod_lt _ (Int.natAbs_pos.mpr hb)

theorem fitsSigned_tmod (a : Int) {b : Int} (hfits : fitsSigned b) (hb : b ≠ 0) :
    fitsSigned (a.tmod b) := by
  have hlt : (a.tmod b).natAbs < b.natAbs := natAbs_tmod_lt a hb
  rw [fitsSigned_iff] at hfits ⊢
  omega

/-! ### Powers -/

theorem not_fitsSigned_pow {a : Int} {n : Nat} (ha : 2 ≤ a.natAbs) (hn : 64 ≤ n) :
    fitsSigned (a ^ n) = false := by
  have hlarge : 2 ^ 64 ≤ (a ^ n).natAbs := by
    rw [Int.natAbs_pow]
    exact Nat.le_trans (Nat.pow_le_pow_right Nat.two_pos hn) (Nat.pow_le_pow_left ha n)
  rw [← Bool.not_eq_true, fitsSigned_iff]
  omega

theorem fitsSigned_pow {a : Int} {n : Nat} (ha : a.natAbs ≤ 1) : fitsSigned (a ^ n) = true := by
  have hsmall : (a ^ n).natAbs ≤ 1 := by
    rw [Int.natAbs_pow]
    exact pow_le_one₀ (Nat.zero_le _) ha
  rw [fitsSigned_iff]
  omega

/-- Of an exponent that is not zero only the parity counts. -/
theorem pow_parity {a : Int} {n : Nat} (ha : a.natAbs ≤ 1) (hn : n ≠ 0) :
    a ^ (n % 2 + 2) = a ^ n := by
  have hcases : a = 0 ∨ a = 1 ∨ a = -1 := by omega
  rcases hcases with rfl | rfl | rfl
  · rw [zero_pow hn, zero_pow (by omega)]
  · rw [one_pow, one_pow]
  · rw [neg_one_pow_eq_pow_mod_two, Nat.add_mod_right, Nat.mod_mod, ← neg_one_pow_eq_pow_mod_two]

theorem power?_of_lt {a : Int} {n : Nat} (hn : n < 2 ^ 32) : power? a n = fit? (a ^ n) := by
  have hshort : ¬Nat.pow 2 32 ≤ n := Nat.not_le.mpr hn
  rw [power?, if_neg hshort]
  split
  · rfl
  · split
    · rename_i hlarge hsmall
      rw [fit?, if_pos (fitsSigned_pow hsmall), ← pow_parity hsmall (by omega)]
      rfl
    · rw [fit?, not_fitsSigned_pow (by omega) (by omega)]
      rfl

theorem power?_of_le {a : Int} {n : Nat} (hn : 2 ^ 32 ≤ n) : power? a n = none :=
  if_pos hn

/-! ### Results -/

/-- What the operator means, where it is in range and not missed. -/
def found? (op : BinaryOp) (a b : Int) : Option Int :=
  (meant? op a b).filter fun n => fitsSigned n && !missed op a b

theorem found?_of_not_missed (op : BinaryOp) (a b : Int) (h : missed op a b = false) :
    found? op a b = (meant? op a b).bind fit? := by
  rw [found?, h]
  cases meant? op a b with
  | none => rfl
  | some n =>
    rw [Option.filter_some, Option.bind_some, fit?, Bool.not_false, Bool.and_true]

theorem found?_of_missed (op : BinaryOp) (a b : Int) (h : missed op a b = true) :
    found? op a b = none := by
  rw [found?, h]
  cases meant? op a b with
  | none => rfl
  | some n => rw [Option.filter_some, Bool.not_true, Bool.and_false, if_neg Bool.false_ne_true]

theorem div_found {a b : Int} (ha : fitsSigned a) (hb : b ≠ 0) :
    onIntegers? .div a b = found? .div a b := by
  rw [found?_of_not_missed .div a b rfl]
  by_cases hleast : a = -2 ^ 63 ∧ b = -1
  · obtain ⟨rfl, rfl⟩ := hleast
    decide
  · rw [onIntegers?, remainder?_eq ha hb hleast, quotient?_eq ha hb hleast, meant?]
    by_cases hdvd : b ∣ a
    · rw [if_pos (congrArg some (Int.dvd_iff_tmod_eq_zero.mp hdvd)), if_pos hdvd, Option.bind_some,
        ← Int.tdiv_eq_ediv_of_dvd hdvd]
      exact (quotient?_eq ha hb hleast).symm
    · rw [if_neg fun h => hdvd (Int.dvd_iff_tmod_eq_zero.mpr (Option.some.inj h)), if_neg hdvd]
      rfl

theorem floorDiv_found {a b : Int} (ha : fitsSigned a) (hb : b ≠ 0) :
    onIntegers? .floorDiv a b = found? .floorDiv a b := by
  rw [found?_of_not_missed .floorDiv a b rfl, meant?, floor_div, Option.bind_some]
  by_cases hleast : a = -2 ^ 63 ∧ b = -1
  · obtain ⟨rfl, rfl⟩ := hleast
    decide
  · rw [onIntegers?, floorQuotient?_eq ha hb hleast]
    exact (fit?_eq_some.mpr ⟨fitsSigned_fdiv ha hb hleast, rfl⟩).symm

theorem mod_found {a b : Int} (ha : fitsSigned a) (hfits : fitsSigned b) (hb : b ≠ 0) :
    onIntegers? .mod a b = found? .mod a b := by
  by_cases hleast : a = -2 ^ 63 ∧ b = -1
  · rw [found?_of_missed .mod a b (decide_eq_true hleast)]
    obtain ⟨rfl, rfl⟩ := hleast
    decide
  · rw [found?_of_not_missed .mod a b (decide_eq_false hleast), meant?, ← tmod_eq, onIntegers?,
      remainder?_eq ha hb hleast, Option.bind_some]
    exact (fit?_eq_some.mpr ⟨fitsSigned_tmod a hfits hb, rfl⟩).symm

theorem pow_found (a b : Int) : onIntegers? .pow a b = found? .pow a b := by
  rw [onIntegers?]
  by_cases hneg : 0 ≤ b
  · rw [if_pos hneg]
    by_cases hwide : 2 ^ 32 ≤ b
    · rw [power?_of_le (by omega)]
      by_cases hsmall : a.natAbs ≤ 1
      · rw [found?_of_missed .pow a b (decide_eq_true ⟨hsmall, hwide⟩)]
      · rw [found?_of_not_missed .pow a b (decide_eq_false fun h => hsmall h.1), meant?, if_pos hneg,
          Option.bind_some, fit?, not_fitsSigned_pow (by omega) (by omega)]
        rfl
    · rw [found?_of_not_missed .pow a b (decide_eq_false fun h => hwide h.2), power?_of_lt (by omega), meant?,
        if_pos hneg, Option.bind_some]
  · rw [if_neg hneg, found?, meant?, if_neg hneg]
    rfl

theorem onIntegers?_eq {op : BinaryOp} {a b : Int} (ha : fitsSigned a) (hfits : fitsSigned b)
    (hdiv : isDivision op = true → b ≠ 0) : onIntegers? op a b = found? op a b := by
  cases op with
  | div => exact div_found ha (hdiv rfl)
  | floorDiv => exact floorDiv_found ha (hdiv rfl)
  | mod => exact mod_found ha hfits (hdiv rfl)
  | pow => exact pow_found a b
  | add => exact (found?_of_not_missed .add a b rfl).symm
  | sub => exact (found?_of_not_missed .sub a b rfl).symm
  | mul => exact (found?_of_not_missed .mul a b rfl).symm
  | _ => rfl

theorem binary_of_isArithmetic {op : BinaryOp} (hop : isArithmetic op) (left right : Value) :
    binary op left right = arithmetic op left right := by
  cases op <;> first | rfl | cases hop

theorem signed?_ofInt {n : Int} (hn : fitsSigned n) : signed? (ofInt n) = some n :=
  if_pos hn

theorem signed?_eq_some {v : Value} {n : Int} (h : signed? v = some n) :
    v = ofInt n ∧ fitsSigned n := by
  unfold signed? at h
  split at h
  · obtain ⟨hfits, heq⟩ := Option.ite_none_right_eq_some.mp h
    obtain rfl := Option.some.inj heq
    exact ⟨rfl, hfits⟩
  · cases h

theorem arithmetic_ofInt (op : BinaryOp) {a b : Int} (ha : fitsSigned a) (hb : fitsSigned b) :
    arithmetic op (ofInt a) (ofInt b) =
      if isDivision op && decide (b = 0) then .error .divisionByZero
      else
        match onIntegers? op a b with
        | some n => .ok (ofInt n)
        | none => .ok (ofFloat (onFloats op (Float.ofInt a) (Float.ofInt b))) := by
  rw [← ofInt_beq_zero (natAbs_le_of_fitsSigned hb)]
  change (if _ then _ else match (do onIntegers? op (← signed? (ofInt a)) (← signed? (ofInt b))) with
    | some n => _ | none => _) = _
  rw [signed?_ofInt ha, signed?_ofInt hb]
  rfl

theorem ofFloat_ne_ofInt (x : Float) (n : Int) : ofFloat x ≠ ofInt n := by
  unfold ofFloat ofInt
  split <;> intro h <;> cases h

/-- An integer is given exactly where one is found. -/
theorem binary_eq_ofInt_iff {op : BinaryOp} {a b : Int} (hop : isArithmetic op)
    (ha : fitsSigned a) (hb : fitsSigned b) (hdiv : isDivision op = true → b ≠ 0) (n : Int) :
    binary op (ofInt a) (ofInt b) = .ok (ofInt n) ↔ onIntegers? op a b = some n := by
  have hzero : ¬(isDivision op && decide (b = 0)) = true := by simpa using hdiv
  rw [binary_of_isArithmetic hop, arithmetic_ofInt op ha hb, if_neg hzero]
  cases onIntegers? op a b with
  | none =>
    refine iff_of_false (fun h => ?_) (Option.some_ne_none n).symm
    exact ofFloat_ne_ofInt _ n (Except.ok.inj h)
  | some m =>
    constructor
    · intro h
      rw [Number.integer.inj (Value.number.inj (Except.ok.inj h))]
    · intro h
      rw [Option.some.inj h]

theorem fitsSigned_of_found? {op : BinaryOp} {a b n : Int} (h : found? op a b = some n) :
    fitsSigned n := by
  have hfits := (Option.filter_eq_some_iff.mp h).2
  exact (Bool.and_eq_true_iff.mp hfits).1

/-- Where there is a quotient, what is computed from it without a check is in range. -/
theorem fitsSigned_corrected {a b q : Int} (ha : fitsSigned a) (hb : b ≠ 0)
    (hq : quotient? a b = some q) (hup : a.tmod b ≠ 0 ∧ ¬(a < 0 ↔ b < 0)) :
    fitsSigned (q - 1) := by
  have hleast : ¬(a = -2 ^ 63 ∧ b = -1) := by
    rintro ⟨rfl, rfl⟩
    rw [quotient?_least] at hq
    cases hq
  have hfloor : fitsSigned (a.fdiv b) := fitsSigned_fdiv ha hb hleast
  rw [fdiv_eq_ite a hb, if_pos hup, (fit?_eq_some.mp hq).2] at hfloor
  exact hfloor

theorem integers_exact {op : BinaryOp} {a b : Int} (hop : isArithmetic op) (ha : fitsSigned a)
    (hb : fitsSigned b) :
    (binary op (ofInt a) (ofInt b) =
      if isDivision op ∧ b = 0 then .error .divisionByZero
      else
        match found? op a b with
        | some n => .ok (ofInt n)
        | none => .ok (ofFloat (onFloats op (Float.ofInt a) (Float.ofInt b)))) ∧
    ((isDivision op → b ≠ 0) → ∀ n, onIntegers? op a b = some n → fitsSigned n) ∧
    (b ≠ 0 → ∀ q, quotient? a b = some q →
      fitsSigned q ∧ fitsSigned (a.tmod b) ∧
        (a.tmod b ≠ 0 ∧ ¬(a < 0 ↔ b < 0) → fitsSigned (q - 1))) := by
  refine ⟨?_, ?_, ?_⟩
  · rw [binary_of_isArithmetic hop, arithmetic_ofInt op ha hb]
    by_cases hzero : isDivision op ∧ b = 0
    · rw [if_pos hzero, hzero.1, hzero.2]
      rfl
    · have hdiv : isDivision op = true → b ≠ 0 := fun h h' => hzero ⟨h, h'⟩
      rw [if_neg hzero, if_neg (by simpa using hdiv), onIntegers?_eq ha hb hdiv]
  · intro hdiv n hn
    rw [onIntegers?_eq ha hb hdiv] at hn
    exact fitsSigned_of_found? hn
  · intro hzero q hq
    obtain ⟨hfits, rfl⟩ := fit?_eq_some.mp hq
    exact ⟨hfits, fitsSigned_tmod a hb hzero, fitsSigned_corrected ha hzero hq⟩

theorem integers_exact_floored :
    binary .floorDiv (ofInt (-7)) (ofInt 2) = .ok (ofInt (-4)) ∧ fitsSigned (-4) := by
  have hexact := @integers_exact .floorDiv (-7) 2 rfl (by decide) (by decide)
  have hfound : found? .floorDiv (-7) 2 = some (-4) := by decide +kernel
  rw [hfound] at hexact
  exact ⟨hexact.1, hexact.2.1 (by decide) (-4) (by decide)⟩

/-- The remainder is 0 and the power is 1, and neither is found. -/
theorem least_remainder_not_integer :
    (meant? .mod (-2 ^ 63) (-1) = some 0 ∧
      ∀ n, binary .mod (ofInt (-2 ^ 63)) (ofInt (-1)) ≠ .ok (ofInt n)) ∧
    (meant? .pow 1 (2 ^ 32) = some 1 ∧
      ∀ n, binary .pow (ofInt 1) (ofInt (2 ^ 32)) ≠ .ok (ofInt n)) := by
  refine ⟨⟨by decide, fun n => ?_⟩, congrArg some (one_pow _), fun n => ?_⟩
  · rw [ne_eq, binary_eq_ofInt_iff rfl (by decide) (by decide) (by decide)]
    have hnone : onIntegers? .mod (-2 ^ 63) (-1) = none := by decide
    rw [hnone]
    exact (Option.some_ne_none n).symm
  · rw [ne_eq, binary_eq_ofInt_iff rfl (by decide) (by decide) (by decide)]
    rw [onIntegers?, if_pos (by decide), power?_of_le (by decide)]
    exact (Option.some_ne_none n).symm

/-! ### Floor division and remainder -/

/-- The quotient is rounded down, and the remainder is that of the quotient rounded toward zero. -/
theorem floorDiv_mod {a b q r : Int} (ha : fitsSigned a) (hb : fitsSigned b) (hzero : b ≠ 0)
    (hq : binary .floorDiv (ofInt a) (ofInt b) = .ok (ofInt q))
    (hr : binary .mod (ofInt a) (ofInt b) = .ok (ofInt r)) :
    b * q + r = (if b ∣ a ∨ (a < 0 ↔ b < 0) then a else a - b) ∧
      (r = 0 ∨ r.sign = a.sign) ∧ r.natAbs < b.natAbs := by
  have hfloor : floorQuotient? a b = some q :=
    (binary_eq_ofInt_iff rfl ha hb (fun _ => hzero) q).mp hq
  have hrest : remainder? a b = some r := (binary_eq_ofInt_iff rfl ha hb (fun _ => hzero) r).mp hr
  have hleast : ¬(a = -2 ^ 63 ∧ b = -1) := by
    rintro ⟨rfl, rfl⟩
    rw [remainder?, quotient?_least] at hrest
    cases hrest
  rw [floorQuotient?_eq ha hzero hleast, fdiv_eq_ite a hzero] at hfloor
  rw [remainder?_eq ha hzero hleast] at hrest
  obtain rfl := Option.some.inj hfloor
  obtain rfl := Option.some.inj hrest
  have hdvd : b ∣ a ↔ a.tmod b = 0 := Int.dvd_iff_tmod_eq_zero
  have hwhole : b * a.tdiv b + a.tmod b = a := Int.mul_tdiv_add_tmod a b
  refine ⟨?_, ?_, natAbs_tmod_lt a hzero⟩
  · simp only [hdvd]
    split_ifs with hup hwithin hwithin
    · exact absurd hwithin (not_or.mpr hup)
    · rw [Int.mul_sub, Int.mul_one]
      omega
    · exact hwhole
    · exact absurd (not_or.mp hwithin) hup
  · rw [Int.sign_tmod, ← hdvd]
    by_cases h : b ∣ a
    · exact .inl h
    · exact .inr (if_neg h)

theorem floorDiv_mod_alike :
    binary .floorDiv (ofInt (-7)) (ofInt (-2)) = .ok (ofInt 3) ∧
      binary .mod (ofInt (-7)) (ofInt (-2)) = .ok (ofInt (-1)) ∧
      (-2 * 3 + -1 : Int) = -7 ∧ (-1 : Int).sign = (-7 : Int).sign := by
  have hq : binary .floorDiv (ofInt (-7)) (ofInt (-2)) = .ok (ofInt 3) :=
    (binary_eq_ofInt_iff rfl (by decide) (by decide) (by decide) 3).mpr (by decide)
  have hr : binary .mod (ofInt (-7)) (ofInt (-2)) = .ok (ofInt (-1)) :=
    (binary_eq_ofInt_iff rfl (by decide) (by decide) (by decide) (-1)).mpr (by decide)
  have hboth := floorDiv_mod (by decide) (by decide) (by decide) hq hr
  exact ⟨hq, hr, hboth.1, hboth.2.1.resolve_left (by decide)⟩

theorem floorDiv_mod_apart :
    binary .floorDiv (ofInt (-7)) (ofInt 2) = .ok (ofInt (-4)) ∧
      binary .mod (ofInt (-7)) (ofInt 2) = .ok (ofInt (-1)) ∧
      (2 * -4 + -1 : Int) ≠ -7 ∧ (-1 : Int).sign ≠ (2 : Int).sign := by
  refine ⟨?_, ?_, by decide, by decide⟩
  · exact (binary_eq_ofInt_iff rfl (by decide) (by decide) (by decide) (-4)).mpr (by decide)
  · exact (binary_eq_ofInt_iff rfl (by decide) (by decide) (by decide) (-1)).mpr (by decide)

end EmbeddedLang.Value
