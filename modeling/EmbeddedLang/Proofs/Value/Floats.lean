import EmbeddedLang.Value.Order
import Mathlib

/-!
Floats are ordered by their places, and integers are rounded to floats in order.

The exponent and the mantissa of a float spell its place among the floats of one sign: what follows
the greatest mantissa is the least mantissa of the next exponent. So a mantissa that is rounded up
to one bit too many stands at the right place all the same.
-/

namespace EmbeddedLang

open Float.Model Float.Model.UnpackedFloat

abbrev double : Format := Format.binary64

theorem targetExponent_double (t : Int) : double.targetExponent t = max (t - 53) (-1074) := rfl

/-- A mantissa and an exponent as the bits of a float hold them. -/
structure InRange (mantissa : Nat) (exponent : Int) : Prop where
  pos : 0 < mantissa
  lt : mantissa < 2 ^ 53
  least : -1074 ≤ exponent
  full : mantissa < 2 ^ 52 → exponent = -1074

/-! ### Places -/

def unpackedPlace : UnpackedFloat → Int
  | .finite .positive mantissa exponent _ => (exponent + 1074) * 2 ^ 52 + mantissa
  | .finite .negative mantissa exponent _ => -((exponent + 1074) * 2 ^ 52 + mantissa)
  | _ => 0

def IsCanonical : UnpackedFloat → Prop
  | .finite _ mantissa exponent _ => InRange mantissa exponent
  | _ => True

theorem isCanonical_unpack (b : BitVec double.numBits) : IsCanonical (UnpackedFloat.unpack double b) := by
  have hlt : (unpackMantissa b).toNat < 2 ^ 52 := (unpackMantissa b).isLt
  have hbias : double.exponentBias = 1023 := rfl
  have hbits : double.mantissaBitsWithoutImplicit = 52 := rfl
  fun_cases UnpackedFloat.unpack double b with
  | case1 => trivial
  | case2 => trivial
  | case3 => trivial
  | case4 mantissa exponent e _ _ _ hexponent hmantissa =>
    have hzero : exponent.toNat = 0 := congrArg BitVec.toNat hexponent
    refine ⟨?_, Nat.lt_trans hlt (by decide), by omega, fun _ => by omega⟩
    exact Nat.pos_of_ne_zero fun h => hmantissa (BitVec.eq_of_toNat_eq h)
  | case5 mantissa exponent e _ _ _ hexponent =>
    have hpos : exponent.toNat ≠ 0 := fun h => hexponent (BitVec.eq_of_toNat_eq h)
    have hleading : 2 ^ 52 ≤ (1#1 ++ mantissa).toNat := by
      rw [BitVec.toNat_append]
      exact Nat.left_le_or
    exact ⟨by omega, (1#1 ++ mantissa).isLt, by omega, fun h => by omega⟩

theorem compare_places {m n : Nat} {d e : Int} (hm : InRange m d) (hn : InRange n e) :
    (compare d e).then (compare m n) =
      compare ((d + 1074) * 2 ^ 52 + (m : Int)) ((e + 1074) * 2 ^ 52 + n) := by
  obtain ⟨-, hm, hd, hfull⟩ := hm
  obtain ⟨-, hn, he, hfull'⟩ := hn
  rcases Int.lt_trichotomy d e with h | rfl | h
  · rw [Int.compare_eq_lt.mpr h, Int.compare_eq_lt.mpr (by omega)]
    rfl
  · rw [Int.compare_eq_eq.mpr rfl, Ordering.then]
    rcases Nat.lt_trichotomy m n with h | rfl | h
    · rw [Nat.compare_eq_lt.mpr h, Int.compare_eq_lt.mpr (by omega)]
    · rw [Nat.compare_eq_eq.mpr rfl, Int.compare_eq_eq.mpr rfl]
    · rw [Nat.compare_eq_gt.mpr h, Int.compare_eq_gt.mpr (by omega)]
  · rw [Int.compare_eq_gt.mpr h, Int.compare_eq_gt.mpr (by omega)]
    rfl

theorem place_pos {m : Nat} {e : Int} (h : InRange m e) : 0 < (e + 1074) * 2 ^ 52 + (m : Int) := by
  have hpos : 0 < m := h.pos
  have he : -1074 ≤ e := h.least
  omega

theorem compare_swap_neg (a b : Int) : (compare a b).swap = compare (-a) (-b) := by
  rcases Int.lt_trichotomy a b with h | rfl | h
  · rw [Int.compare_eq_lt.mpr h, Int.compare_eq_gt.mpr (Int.neg_lt_neg h), Ordering.swap_lt]
  · rw [Int.compare_eq_eq.mpr rfl, Int.compare_eq_eq.mpr rfl, Ordering.swap_eq]
  · rw [Int.compare_eq_gt.mpr h, Int.compare_eq_lt.mpr (Int.neg_lt_neg h), Ordering.swap_gt]

theorem compare_eq_place {u v : UnpackedFloat} (hu : IsCanonical u) (hv : IsCanonical v)
    (hfinite : u.isFinite) (hfinite' : v.isFinite) :
    UnpackedFloat.compare u v = some (compare (unpackedPlace u) (unpackedPlace v)) := by
  match u, v with
  | .infinity _, _ | .notANumber, _ => cases hfinite
  | _, .infinity _ | _, .notANumber => cases hfinite'
  | .zero _, .zero _ => rfl
  | .zero _, .finite .positive n e h =>
    exact congrArg some (Int.compare_eq_lt.mpr (place_pos hv)).symm
  | .zero _, .finite .negative n e h =>
    exact congrArg some (Int.compare_eq_gt.mpr (Int.neg_neg_of_pos (place_pos hv))).symm
  | .finite .positive m d h, .zero _ =>
    exact congrArg some (Int.compare_eq_gt.mpr (place_pos hu)).symm
  | .finite .negative m d h, .zero _ =>
    exact congrArg some (Int.compare_eq_lt.mpr (Int.neg_neg_of_pos (place_pos hu))).symm
  | .finite .positive m d h, .finite .positive n e h' =>
    exact congrArg some (compare_places hu hv)
  | .finite .negative m d h, .finite .negative n e h' =>
    exact congrArg some ((congrArg Ordering.swap (compare_places hu hv)).trans (compare_swap_neg _ _))
  | .finite .positive m d h, .finite .negative n e h' =>
    have hm := place_pos hu
    have hn := place_pos hv
    exact congrArg some (Int.compare_eq_gt.mpr (by dsimp only [unpackedPlace]; omega)).symm
  | .finite .negative m d h, .finite .positive n e h' =>
    have hm := place_pos hu
    have hn := place_pos hv
    exact congrArg some (Int.compare_eq_lt.mpr (by dsimp only [unpackedPlace]; omega)).symm

/-! ### Comparison of floats -/

def place (x : Float) : Int :=
  unpackedPlace x.toModel.unpack

theorem compare_unpack {a b : Float} (ha : a.isFinite) (hb : b.isFinite) :
    UnpackedFloat.compare a.toModel.unpack b.toModel.unpack =
      some (compare (place a) (place b)) :=
  compare_eq_place (isCanonical_unpack _) (isCanonical_unpack _) ha hb

theorem lt_iff_place {a b : Float} (ha : a.isFinite) (hb : b.isFinite) :
    a < b ↔ place a < place b := by
  have hlt : a < b ↔ UnpackedFloat.lt a.toModel.unpack b.toModel.unpack := decide_eq_true_iff
  rw [hlt, UnpackedFloat.lt, compare_unpack ha hb, beq_iff_eq, Option.some.injEq,
    Int.compare_eq_lt]

theorem beq_eq_place {a b : Float} (ha : a.isFinite) (hb : b.isFinite) :
    (a == b) = decide (place a = place b) := by
  change UnpackedFloat.beq a.toModel.unpack b.toModel.unpack = _
  rw [UnpackedFloat.beq, compare_unpack ha hb]
  rw [Bool.eq_iff_iff, beq_iff_eq, Option.some.injEq, Int.compare_eq_eq, decide_eq_true_iff]

theorem compareFloats_eq {a b : Float} (ha : a.isFinite) (hb : b.isFinite) :
    Value.compareFloats a b = some (compare (place a) (place b)) := by
  unfold Value.compareFloats
  simp only [lt_iff_place ha hb, lt_iff_place hb ha, beq_eq_place ha hb, decide_eq_true_eq]
  rcases Int.lt_trichotomy (place a) (place b) with h | h | h
  · rw [if_pos h, Int.compare_eq_lt.mpr h]
  · rw [if_neg (by omega), if_pos h, Int.compare_eq_eq.mpr h]
  · rw [if_neg (by omega), if_neg (by omega), if_pos h, Int.compare_eq_gt.mpr h]

/-! ### Rounding in order -/

/-- The order of mantissas with the bits that are to be rounded away. -/
def scale (em : ExtendedMantissa) : Nat :=
  4 * em.mantissa + 2 * em.roundBit.toNat + em.stickyBit.toNat

theorem scale_shiftRightOne (em : ExtendedMantissa) :
    scale em.shiftRightOne = 2 * (scale em / 4) + min (scale em % 4) 1 := by
  rcases em with ⟨m, r, s⟩
  unfold scale ExtendedMantissa.shiftRightOne
  rcases Nat.mod_two_eq_zero_or_one m with hm | hm <;> cases r <;> cases s <;>
    simp [hm] <;> omega

theorem scale_shift_mono {a b : ExtendedMantissa} (h : scale a ≤ scale b) (n : Nat) :
    scale (a >>> n) ≤ scale (b >>> n) := by
  induction n with
  | zero => exact h
  | succ n ih =>
    change scale (a >>> n).shiftRightOne ≤ scale (b >>> n).shiftRightOne
    rw [scale_shiftRightOne, scale_shiftRightOne]
    omega

theorem roundedMantissa_mono {a b : ExtendedMantissa} (h : scale a ≤ scale b) :
    a.roundedMantissa ≤ b.roundedMantissa := by
  rcases a with ⟨m, r, s⟩
  rcases b with ⟨n, r', s'⟩
  unfold scale at h
  cases r <;> cases s <;> cases r' <;> cases s' <;>
    simp only [ExtendedMantissa.roundedMantissa, ExtendedMantissa.accuracy,
      Accuracy.roundToNearestEven, Bool.toNat_true, Bool.toNat_false] at h ⊢ <;> omega

/-- Without its last bits, rounded to the nearest, and a tie to the even one. -/
def rounded (m bits : Nat) : Nat :=
  (ExtendedMantissa.ofMantissaAndAccuracy m .exact >>> bits).roundedMantissa

theorem rounded_mono {m n : Nat} (h : m ≤ n) (bits : Nat) : rounded m bits ≤ rounded n bits :=
  roundedMantissa_mono (scale_shift_mono (by simp [scale, ExtendedMantissa.ofMantissaAndAccuracy]; omega) bits)

theorem shift_mul_two_pow (m bits : Nat) :
    ExtendedMantissa.ofMantissaAndAccuracy (m * 2 ^ bits) .exact >>> bits =
      ExtendedMantissa.ofMantissaAndAccuracy m .exact := by
  induction bits generalizing m with
  | zero => rw [pow_zero, Nat.mul_one]; rfl
  | succ bits ih =>
    change (ExtendedMantissa.ofMantissaAndAccuracy _ .exact >>> bits).shiftRightOne = _
    rw [pow_succ', ← Nat.mul_assoc, ih]
    simp [ExtendedMantissa.ofMantissaAndAccuracy, ExtendedMantissa.shiftRightOne]

theorem rounded_mul_two_pow (m bits : Nat) : rounded (m * 2 ^ bits) bits = m := by
  rw [rounded, shift_mul_two_pow]
  rfl

theorem rounded_bounds {m bits : Nat} (hm : m ≠ 0) (hlog : m.log2 = 52 + bits) :
    2 ^ 52 ≤ rounded m bits ∧ rounded m bits ≤ 2 ^ 53 := by
  have hlow : 2 ^ 52 * 2 ^ bits ≤ m := by
    rw [← pow_add, ← hlog]
    exact Nat.log2_self_le hm
  have hhigh : m ≤ 2 ^ 53 * 2 ^ bits := by
    rw [← pow_add, show 53 + bits = m.log2 + 1 by omega]
    exact Nat.le_of_lt Nat.lt_log2_self
  constructor
  · exact (rounded_mul_two_pow (2 ^ 52) bits).ge.trans (rounded_mono hlow bits)
  · exact (rounded_mono hhigh bits).trans (rounded_mul_two_pow (2 ^ 53) bits).le

/-! ### Places of integers -/

/-- A positive float at `p` whose mantissa has all of its bits, below infinity. -/
def StandsAt (p : Int) (u : UnpackedFloat) : Prop :=
  ∃ m e h, u = .finite .positive m e h ∧ (2 ^ 52 ≤ m ∧ m < 2 ^ 53) ∧ -1074 ≤ e ∧
    p = (e + 1074) * 2 ^ 52 + m ∧ p < 2047 * 2 ^ 52

theorem shiftToTargetExponent_eq {m bits : Nat} {e : Int} (hlog : m.log2 = 52 + bits)
    (he : -1074 ≤ e + bits) :
    shiftToTargetExponent double m e .exact =
      (ExtendedMantissa.ofMantissaAndAccuracy m .exact >>> bits, e + bits) := by
  have hshift : (double.targetExponent (totalExponent m e) - e).toNat = bits := by
    rw [targetExponent_double, totalExponent, hlog]
    omega
  rw [shiftToTargetExponent, shiftToExponent, hshift]

theorem standsAt_round {m bits : Nat} {e : Int} (hm : m ≠ 0) (hlog : m.log2 = 52 + bits)
    (he : -1074 ≤ e + bits) (hp : (e + bits + 1074) * 2 ^ 52 + rounded m bits < 2047 * 2 ^ 52) :
    StandsAt ((e + bits + 1074) * 2 ^ 52 + rounded m bits)
      (roundWithAccuracy double .positive m e .exact) := by
  obtain ⟨hlow, hhigh⟩ := rounded_bounds hm hlog
  have hround : (ExtendedMantissa.ofMantissaAndAccuracy m .exact >>> bits).roundedMantissa =
    rounded m bits := rfl
  unfold roundWithAccuracy
  rw [shiftToTargetExponent_eq hlog he]
  dsimp only
  rw [hround]
  generalize rounded m bits = r at hlow hhigh hp ⊢
  by_cases hcarry : r = 2 ^ 53
  · subst hcarry
    rw [@shiftToTargetExponent_eq _ 1 _ (by decide) (by omega)]
    exact ⟨2 ^ 52, _, by decide, rfl, ⟨by decide, by decide⟩, by omega, by omega, hp⟩
  · have hlog' : r.log2 = 52 + 0 := (Nat.log2_eq_iff (by omega)).mpr ⟨hlow, by omega⟩
    rw [shiftToTargetExponent_eq hlog' (by omega)]
    have hpos : r ≠ 0 := by omega
    exact ⟨r, _, by omega, dif_neg hpos, ⟨hlow, by omega⟩, by omega, by omega, hp⟩

theorem unpack_pack_normal (s : Sign) {m : Nat} {e : Int} (h : 0 < m)
    (hm : 2 ^ 52 ≤ m ∧ m < 2 ^ 53) (he : -1074 ≤ e ∧ e ≤ 971) :
    (Float.Model.pack (.finite s m e h)).unpack = .finite s m e h := by
  have hbits : m.log2 + 1 = double.mantissaBits := by
    rw [(Nat.log2_eq_iff h.ne').mpr hm]
    rfl
  have hbiased : (e + double.exponentBias + double.mantissaBitsWithoutImplicit).toNat =
      (e + 1075).toNat := by
    change (e + 1023 + 52).toNat = _
    omega
  have hfits : ¬2 ^ double.exponentBits ≤ (e + 1075).toNat + 1 := by
    change ¬2 ^ 11 ≤ _
    omega
  have hexponent : (BitVec.ofNat 11 (e + 1075).toNat).toNat = (e + 1075).toNat := by
    rw [BitVec.toNat_ofNat, Nat.mod_eq_of_lt (by omega)]
  have hmantissa : (1#1 ++ BitVec.ofNat 52 m).toNat = m := by
    rw [BitVec.toNat_append, ← Nat.shiftLeft_add_eq_or_of_lt (BitVec.isLt _), BitVec.toNat_ofNat]
    change 2 ^ 52 + m % 2 ^ 52 = m
    omega
  have hpack : UnpackedFloat.pack double (.finite s m e h) = packComponents double s
      (BitVec.ofNat 11 (e + 1075).toNat) (BitVec.ofNat 52 m) := by
    unfold UnpackedFloat.pack
    dsimp only
    rw [hbiased, if_neg hfits, if_pos hbits]
  change UnpackedFloat.unpack double (UnpackedFloat.pack double (.finite s m e h)) = _
  rw [hpack]
  unfold UnpackedFloat.unpack
  simp only [unpackExponent_packComponents, unpackMantissa_packComponents,
    unpackSign_packComponents, Sign.ofBitVec_toBitVec]
  generalize BitVec.ofNat 11 (e + 1075).toNat = stored at hexponent ⊢
  have hinfinite : stored ≠ -1#11 := by
    rintro rfl
    change 2047 = _ at hexponent
    omega
  have hleast : stored ≠ 0#11 := by
    rintro rfl
    change 0 = _ at hexponent
    omega
  have hbias : double.exponentBias = 1023 := rfl
  simp only [if_neg hinfinite, if_neg hleast, hmantissa, hexponent, finite.injEq, true_and]
  omega

theorem StandsAt.pack {p : Int} {u : UnpackedFloat} (h : StandsAt p u) :
    StandsAt p (Float.Model.pack u).unpack := by
  obtain ⟨m, e, hpos, rfl, hm, he, hp, hlt⟩ := h
  rw [unpack_pack_normal .positive hpos hm (by omega)]
  exact ⟨m, e, hpos, rfl, hm, he, hp, hlt⟩

theorem unpack_one :
    (Float.ofBits 0x3FF0000000000000).toModel.unpack = .finite .positive (2 ^ 52) (-52) (by decide) :=
  rfl

theorem StandsAt.mul_one {p : Int} {x : Float} (h : StandsAt p x.toModel.unpack) :
    StandsAt p (x * Float.ofBits 0x3FF0000000000000).toModel.unpack := by
  apply StandsAt.pack
  rw [unpack_one]
  obtain ⟨m, e, hpos, hx, hm, he, rfl, hlt⟩ := h
  rw [hx]
  have hlog : (m * 2 ^ 52).log2 = 52 + 52 := by
    rw [Nat.log2_eq_iff (by omega)]
    omega
  have hexponent : e + -52 + (52 : Nat) = e := by omega
  have hround := @standsAt_round (m * 2 ^ 52) 52 (e + -52) (by omega) hlog (by omega)
  rw [rounded_mul_two_pow, hexponent] at hround
  exact hround hlt

/-- The mantissa that a positive integer is rounded to, perhaps with a bit too many. -/
def significand (n : Nat) : Nat :=
  if n < 2 ^ 53 then n * 2 ^ (52 - n.log2) else rounded (n * 2 ^ 53) (n.log2 + 1)

theorem log2_mul_two_pow {n : Nat} (hn : n ≠ 0) (k : Nat) : (n * 2 ^ k).log2 = n.log2 + k := by
  rw [Nat.log2_eq_iff (Nat.mul_ne_zero hn (Nat.two_pow_pos k).ne'), pow_add, Nat.add_right_comm,
    pow_add]
  have hlow : 2 ^ n.log2 ≤ n := Nat.log2_self_le hn
  have hhigh : n < 2 ^ (n.log2 + 1) := Nat.lt_log2_self
  exact ⟨Nat.mul_le_mul_right _ hlow, Nat.mul_lt_mul_of_pos_right hhigh (Nat.two_pow_pos k)⟩

/-- An integer that keeps all of its bits. -/
theorem significand_of_lt {n : Nat} (hn : n ≠ 0) (hsmall : n < 2 ^ 53) :
    significand n = n * 2 ^ (52 - n.log2) ∧ 2 ^ 52 ≤ significand n ∧ significand n < 2 ^ 53 := by
  have hlog : n.log2 < 53 := (Nat.log2_lt hn).mpr hsmall
  have hshifted : (n * 2 ^ (52 - n.log2)).log2 = 52 := by
    rw [log2_mul_two_pow hn]
    omega
  rw [significand, if_pos hsmall]
  exact ⟨rfl, (Nat.log2_eq_iff (by positivity)).mp hshifted⟩

theorem significand_bounds {n : Nat} (hn : n ≠ 0) :
    2 ^ 52 ≤ significand n ∧ significand n ≤ 2 ^ 53 := by
  by_cases hsmall : n < 2 ^ 53
  · obtain ⟨-, hlow, hhigh⟩ := significand_of_lt hn hsmall
    exact ⟨hlow, hhigh.le⟩
  · have hlog : 53 ≤ n.log2 := (Nat.le_log2 hn).mpr (by omega)
    rw [significand, if_neg hsmall]
    refine rounded_bounds (by positivity) ?_
    rw [log2_mul_two_pow hn]
    omega

theorem significand_mono {m n : Nat} (h : m ≤ n) (hlog : m.log2 = n.log2) (hm : m ≠ 0) :
    significand m ≤ significand n := by
  have hsmall : m < 2 ^ 53 ↔ n < 2 ^ 53 := by
    rw [← Nat.log2_lt hm, ← Nat.log2_lt (by omega), hlog]
  unfold significand
  simp only [hsmall, hlog]
  split
  · exact Nat.mul_le_mul_right _ h
  · exact rounded_mono (Nat.mul_le_mul_right _ h) _

/-- Where a natural number is rounded to. -/
def placeOfNat (n : Nat) : Int :=
  if n = 0 then 0 else (n.log2 + 1022 : Int) * 2 ^ 52 + significand n

theorem placeOfNat_of_ne_zero {n : Nat} (hn : n ≠ 0) :
    placeOfNat n = (n.log2 + 1022 : Int) * 2 ^ 52 + significand n :=
  if_neg hn

theorem placeOfNat_nonneg (n : Nat) : 0 ≤ placeOfNat n := by
  unfold placeOfNat
  split <;> omega

theorem placeOfNat_eq_zero_iff {n : Nat} : placeOfNat n = 0 ↔ n = 0 := by
  unfold placeOfNat
  split <;> omega

theorem placeOfNat_mono {m n : Nat} (h : m ≤ n) : placeOfNat m ≤ placeOfNat n := by
  by_cases hm : m = 0
  · subst hm
    exact placeOfNat_nonneg n
  · have hn : n ≠ 0 := by omega
    have hlog : m.log2 ≤ n.log2 := (Nat.le_log2 hn).mpr ((Nat.log2_self_le hm).trans h)
    have hbounds := significand_bounds hm
    have hbounds' := significand_bounds hn
    rw [placeOfNat_of_ne_zero hm, placeOfNat_of_ne_zero hn]
    rcases hlog.eq_or_lt with heq | hlt
    · have hmono := significand_mono h heq hm
      omega
    · omega

theorem placeOfNat_ne {m n : Nat} (hm : m < 2 ^ 53) (hne : m ≠ n) :
    placeOfNat m ≠ placeOfNat n := by
  have hlt {k l : Nat} (hk : k < 2 ^ 53) (h : k < l) : placeOfNat k < placeOfNat l := by
    have hl : l ≠ 0 := by omega
    by_cases hzero : k = 0
    · subst hzero
      exact (placeOfNat_nonneg l).lt_of_ne fun h => hl (placeOfNat_eq_zero_iff.mp h.symm)
    · have hlog : k.log2 ≤ l.log2 := (Nat.le_log2 hl).mpr ((Nat.log2_self_le hzero).trans h.le)
      have hbounds := significand_bounds hl
      obtain ⟨hexact, -, hfull⟩ := significand_of_lt hzero hk
      rw [placeOfNat_of_ne_zero hzero, placeOfNat_of_ne_zero hl]
      rcases hlog.eq_or_lt with heq | hlogs
      · have hsmall : l < 2 ^ 53 := by
          rw [← Nat.log2_lt hl, ← heq, Nat.log2_lt hzero]
          exact hk
        have hstrict : significand k < significand l := by
          rw [hexact, (significand_of_lt hl hsmall).1, ← heq]
          exact Nat.mul_lt_mul_of_pos_right h (Nat.two_pow_pos _)
        omega
      · omega
  rcases Nat.lt_or_gt_of_ne hne with h | h
  · exact (hlt hm h).ne
  · exact (hlt (h.trans hm) h).ne'

theorem standsAt_ofNat_small {n : Nat} (hn : n ≠ 0) (hsmall : n < 2 ^ 53) :
    StandsAt (placeOfNat n) (UnpackedFloat.ofNat double n) := by
  have hpos : compare (n : Int) 0 = .gt := Int.compare_eq_gt.mpr (by omega)
  have hlog : n.log2 < 53 := (Nat.log2_lt hn).mpr hsmall
  have hshift : (0 - double.targetExponent (totalExponent n 0)).toNat = 52 - n.log2 := by
    rw [targetExponent_double, totalExponent]
    omega
  have hshifted : (n * 2 ^ (52 - n.log2)).log2 = 52 + 0 := by
    rw [log2_mul_two_pow hn]
    omega
  have hexact : rounded (n * 2 ^ (52 - n.log2)) 0 = n * 2 ^ (52 - n.log2) := rfl
  have hbounds := (significand_bounds hn).2
  have hround := @standsAt_round (n * 2 ^ (52 - n.log2)) 0 (0 - (52 - n.log2 : Nat))
    (by positivity) hshifted (by omega)
  rw [UnpackedFloat.ofNat, UnpackedFloat.ofInt, UnpackedFloat.normalize, hpos]
  dsimp only
  rw [Int.toNat_natCast, UnpackedFloat.round, decreaseExponent, hshift, Nat.shiftLeft_eq]
  rw [significand, if_pos hsmall] at hbounds
  rw [placeOfNat_of_ne_zero hn, significand, if_pos hsmall]
  rw [hexact] at hround
  have hplace : (0 - (52 - n.log2 : Nat) + (0 : Nat) + 1074 : Int) = n.log2 + 1022 := by omega
  rw [hplace] at hround
  exact hround (by omega)

theorem ofScientific_integer {n : Nat} (hn : n ≠ 0) :
    UnpackedFloat.ofScientific double n 0 =
      roundWithAccuracy double .positive (n * 2 ^ 53) (-53) .exact := by
  have hlimit : (0 : Int) < 2 ^ double.exponentBits := Int.pow_pos (by decide)
  unfold UnpackedFloat.ofScientific
  rw [dif_neg hn, if_neg (by omega), if_neg (by omega), if_pos (Int.le_refl 0)]
  change roundWithAccuracy double .positive (n <<< 53 * 1) (-53 + 0) .exact = _
  rw [Nat.shiftLeft_eq, Nat.mul_one, Int.add_zero]

theorem standsAt_ofNat_large {n : Nat} (hn : n ≠ 0) (hlog : n.log2 ≤ 1000) (hlarge : ¬n < 2 ^ 53) :
    StandsAt (placeOfNat n) (UnpackedFloat.ofScientific double n 0) := by
  have hbounds := (significand_bounds hn).2
  have hshifted : (n * 2 ^ 53).log2 = 52 + (n.log2 + 1) := by
    rw [log2_mul_two_pow hn]
    omega
  have hround := @standsAt_round (n * 2 ^ 53) (n.log2 + 1) (-53) (by positivity) hshifted (by omega)
  have hplace : (-53 + (n.log2 + 1 : Nat) + 1074 : Int) = n.log2 + 1022 := by omega
  rw [ofScientific_integer hn, placeOfNat_of_ne_zero hn]
  rw [significand, if_neg hlarge] at hbounds ⊢
  rw [hplace] at hround
  exact hround (by omega)

theorem standsAt_ofNat {n : Nat} (hn : n ≠ 0) (hlog : n.log2 ≤ 1000) :
    StandsAt (placeOfNat n) (Float.ofNat n).toModel.unpack := by
  change StandsAt _ (Float.ofScientific n false 0).toModel.unpack
  unfold Float.ofScientific
  split
  · rename_i hsmall
    apply StandsAt.mul_one
    apply StandsAt.pack
    change StandsAt _ (UnpackedFloat.ofNat double n.toUInt64.toNat)
    rw [Nat.toUInt64_eq, UInt64.toNat_ofNat', Nat.mod_eq_of_lt (by omega)]
    exact standsAt_ofNat_small hn hsmall.1
  · rename_i hlarge
    apply StandsAt.pack
    exact standsAt_ofNat_large hn hlog (fun h => hlarge ⟨h, by decide⟩)

theorem StandsAt.place_eq {p : Int} {u : UnpackedFloat} (h : StandsAt p u) : unpackedPlace u = p := by
  obtain ⟨m, e, hpos, rfl, -, -, rfl, -⟩ := h
  rfl

theorem StandsAt.isFinite {p : Int} {u : UnpackedFloat} (h : StandsAt p u) : u.isFinite := by
  obtain ⟨m, e, hpos, rfl, -⟩ := h
  rfl

/-- The opposite of a float at `p`. -/
theorem StandsAt.pack_neg {p : Int} {u : UnpackedFloat} (h : StandsAt p u) :
    unpackedPlace (Float.Model.pack u.neg).unpack = -p ∧ (Float.Model.pack u.neg).unpack.isFinite := by
  obtain ⟨m, e, hpos, rfl, hm, he, rfl, hlt⟩ := h
  have hunpack := unpack_pack_normal .negative hpos hm (e := e) (by omega)
  change unpackedPlace (Float.Model.pack (.finite .negative m e hpos)).unpack = _ ∧
    (Float.Model.pack (.finite .negative m e hpos)).unpack.isFinite
  rw [hunpack]
  exact ⟨rfl, rfl⟩

/-- Where an integer is rounded to. -/
def placeOfInt : Int → Int
  | .ofNat n => placeOfNat n
  | .negSucc n => -placeOfNat (n + 1)

theorem log2_le_of_le {n : Nat} (h : n ≤ 2 ^ 64) : n.log2 ≤ 1000 := by
  by_cases hn : n = 0
  · subst hn
    decide
  · have hlog : n.log2 < 65 := (Nat.log2_lt hn).mpr (by omega)
    omega

theorem ofNat_placed {n : Nat} (h : n ≤ 2 ^ 64) :
    place (Float.ofNat n) = placeOfNat n ∧ (Float.ofNat n).isFinite := by
  by_cases hn : n = 0
  · subst hn
    exact ⟨rfl, rfl⟩
  · have hstands := standsAt_ofNat hn (log2_le_of_le h)
    exact ⟨hstands.place_eq, hstands.isFinite⟩

theorem ofInt_placed {n : Int} (h : n.natAbs ≤ 2 ^ 64) :
    place (Float.ofInt n) = placeOfInt n ∧ (Float.ofInt n).isFinite := by
  cases n with
  | ofNat n => exact ofNat_placed h
  | negSucc n => exact (standsAt_ofNat n.succ_ne_zero (log2_le_of_le h)).pack_neg

theorem placeOfInt_mono {m n : Int} (h : m ≤ n) : placeOfInt m ≤ placeOfInt n := by
  match m, n with
  | .ofNat m, .ofNat n => exact placeOfNat_mono (Int.ofNat_le.mp h)
  | .negSucc m, .negSucc n => exact Int.neg_le_neg (placeOfNat_mono (by omega))
  | .negSucc m, .ofNat n =>
    have hm := placeOfNat_nonneg (m + 1)
    have hn := placeOfNat_nonneg n
    change -placeOfNat (m + 1) ≤ placeOfNat n
    omega
  | .ofNat m, .negSucc n => exact absurd h (not_le_of_gt (Int.lt_of_lt_of_le (Int.negSucc_lt_zero n) (Int.natCast_nonneg m)))

theorem placeOfInt_ne {m n : Int} (hm : m.natAbs < 2 ^ 53) (hne : m ≠ n) :
    placeOfInt m ≠ placeOfInt n := by
  have hpos (k : Nat) : 0 < placeOfNat (k + 1) :=
    (placeOfNat_nonneg _).lt_of_ne fun h => k.succ_ne_zero (placeOfNat_eq_zero_iff.mp h.symm)
  match m, n with
  | .ofNat m, .ofNat n => exact placeOfNat_ne hm fun h => hne (congrArg Int.ofNat h)
  | .negSucc m, .negSucc n =>
    have hother : m + 1 ≠ n + 1 := fun h => hne (congrArg Int.negSucc (Nat.succ.inj h))
    exact fun h => placeOfNat_ne hm hother (Int.neg_inj.mp h)
  | .ofNat m, .negSucc n =>
    have hm := placeOfNat_nonneg m
    have hn := hpos n
    change placeOfNat m ≠ -placeOfNat (n + 1)
    omega
  | .negSucc m, .ofNat n =>
    have hm := hpos m
    have hn := placeOfNat_nonneg n
    change -placeOfNat (m + 1) ≠ placeOfNat n
    omega

theorem placeOfInt_eq_zero_iff {n : Int} : placeOfInt n = 0 ↔ n = 0 := by
  cases n with
  | ofNat n => exact placeOfNat_eq_zero_iff.trans Int.ofNat_eq_zero.symm
  | negSucc n =>
    have hpos : placeOfNat (n + 1) ≠ 0 := mt placeOfNat_eq_zero_iff.mp n.succ_ne_zero
    exact iff_of_false (fun h => hpos (Int.neg_eq_zero.mp h)) nofun

theorem ofInt_beq_zero {n : Int} (h : n.natAbs ≤ 2 ^ 64) :
    (Float.ofInt n == 0) = decide (n = 0) := by
  obtain ⟨hplace, hfinite⟩ := ofInt_placed h
  have hzero : place 0 = 0 := rfl
  rw [beq_eq_place hfinite rfl, hplace, hzero]
  simp only [placeOfInt_eq_zero_iff]

end EmbeddedLang
