import EmbeddedLang.Proofs.Value.Integers

/-!
What ranges list: integers in even steps, as far as the end allows, and the characters between two
characters in their order.
-/

namespace EmbeddedLang.Value

/-- From `a` toward `b` in steps of `step`, as long as `b` is not passed. -/
def Counts (a b : Int) (step : Nat) (ns : List Int) : Prop :=
  ∀ k : Nat, ns[k]? =
    if a ≤ b then if a + step * k ≤ b then some (a + step * k) else none
    else if b ≤ a - step * k then some (a - step * k) else none

theorem length_stepped (a b : Int) (step : Nat) :
    (stepped a b step).length = (b - a).natAbs / step + 1 := by
  rw [stepped, List.length_map, List.length_range]

theorem getElem_stepped {a b : Int} {step k : Nat} (h : k < (stepped a b step).length) :
    (stepped a b step)[k] = if a ≤ b then a + step * k else a - step * k := by
  simp only [stepped, List.getElem_map, List.getElem_range]

theorem counts_stepped (a b : Int) {step : Nat} (hstep : 0 < step) :
    Counts a b step (stepped a b step) := by
  intro k
  have hlength : k < (stepped a b step).length ↔ k * step ≤ (b - a).natAbs := by
    rw [length_stepped, Nat.lt_succ_iff, Nat.le_div_iff_mul_le hstep]
  have hproduct : (step : Int) * k = (k * step : Nat) := by
    rw [Int.natCast_mul, Int.mul_comm]
  rw [hproduct]
  by_cases hk : k < (stepped a b step).length
  · have hreach := hlength.mp hk
    rw [List.getElem?_eq_getElem hk, getElem_stepped, hproduct]
    split
    · rw [if_pos (by omega)]
    · rw [if_pos (by omega)]
  · have hreach := mt hlength.mpr hk
    rw [List.getElem?_eq_none (Nat.le_of_not_lt hk)]
    split
    · rw [if_neg (by omega)]
    · rw [if_neg (by omega)]

theorem Counts.mem_bounds {a b : Int} {step : Nat} {ns : List Int} (h : Counts a b step ns) {n : Int}
    (hn : n ∈ ns) : (a ≤ n ∧ n ≤ b) ∨ (b ≤ n ∧ n ≤ a) := by
  obtain ⟨k, hk⟩ := List.mem_iff_getElem?.mp hn
  have hnonneg : 0 ≤ (step : Int) * k := Int.mul_nonneg (Int.natCast_nonneg _) (Int.natCast_nonneg _)
  rw [h k] at hk
  generalize (step : Int) * k = reach at hk hnonneg
  split_ifs at hk <;> obtain rfl := Option.some.inj hk <;> omega

/-! ### Steps of one -/

theorem reverse_stepped_one (a b : Int) : (stepped a b 1).reverse = stepped b a 1 := by
  refine List.ext_getElem ?_ fun k hk hk' => ?_
  · rw [List.length_reverse, length_stepped, length_stepped]
    omega
  · rw [List.getElem_reverse, getElem_stepped, getElem_stepped]
    rw [length_stepped] at hk' ⊢
    split <;> split <;> omega

theorem mem_stepped_one {a b n : Int} (hab : a ≤ b) : n ∈ stepped a b 1 ↔ a ≤ n ∧ n ≤ b := by
  rw [stepped, List.mem_map]
  constructor
  · rintro ⟨k, hk, rfl⟩
    rw [List.mem_range] at hk
    rw [if_pos hab]
    omega
  · rintro ⟨hlow, hhigh⟩
    refine ⟨(n - a).toNat, List.mem_range.mpr (by omega), ?_⟩
    rw [if_pos hab]
    omega

theorem pairwise_stepped_one {a b : Int} (hab : a ≤ b) : (stepped a b 1).Pairwise (· < ·) := by
  rw [stepped, List.pairwise_map]
  refine List.pairwise_lt_range.imp fun {i j} hij => ?_
  rw [if_pos hab, if_pos hab]
  omega

/-! ### Characters -/

def character (c : Char) : Value :=
  string c.toString

def ofCode? (code : Int) : Option Char :=
  if h : code.toNat.isValidChar then some (Char.ofNatAux code.toNat h) else none

theorem character?_eq (code : Int) : character? code = (ofCode? code).map character := by
  unfold character? ofCode?
  split <;> rfl

theorem ofCode?_eq_some {code : Nat} {c : Char} : ofCode? code = some c ↔ c.toNat = code := by
  unfold ofCode?
  constructor
  · intro h
    obtain ⟨hvalid, heq⟩ := Option.dite_none_right_eq_some.mp h
    rw [← Option.some.inj heq]
    rfl
  · rintro rfl
    exact dif_pos c.valid

theorem le_iff_toNat {c d : Char} : c ≤ d ↔ c.toNat ≤ d.toNat := by
  rw [Char.le_def, UInt32.le_iff_toNat_le]
  rfl

theorem lt_iff_toNat {c d : Char} : c < d ↔ c.toNat < d.toNat := by
  rw [Char.lt_def, UInt32.lt_iff_toNat_lt]
  rfl

theorem natCast_of_mem_codes {c d : Char} {code : Int} (h : code ∈ stepped c.toNat d.toNat 1) :
    ∃ n : Nat, code = n := by
  have hbounds := (counts_stepped c.toNat d.toNat Nat.one_pos).mem_bounds h
  exact Int.eq_ofNat_of_zero_le (by omega)

/-- The codes from one to the other that are characters. -/
def characters (c d : Char) : List Char :=
  (stepped c.toNat d.toNat 1).filterMap ofCode?

theorem filterMap_character? (c d : Char) :
    (stepped c.toNat d.toNat 1).filterMap character? = (characters c d).map character := by
  rw [characters, List.map_filterMap]
  exact List.filterMap_congr fun code _ => character?_eq code

theorem reverse_characters (c d : Char) : (characters c d).reverse = characters d c := by
  rw [characters, ← List.filterMap_reverse, reverse_stepped_one, characters]

theorem mem_characters_of_le {c d x : Char} (hcd : c ≤ d) : x ∈ characters c d ↔ c ≤ x ∧ x ≤ d := by
  have hcodes : (c.toNat : Int) ≤ d.toNat := Int.ofNat_le.mpr (le_iff_toNat.mp hcd)
  rw [characters, List.mem_filterMap, le_iff_toNat, le_iff_toNat]
  constructor
  · rintro ⟨code, hcode, hx⟩
    obtain ⟨hlow, hhigh⟩ := (mem_stepped_one hcodes).mp hcode
    obtain ⟨code, rfl⟩ := natCast_of_mem_codes hcode
    rw [ofCode?_eq_some.mp hx]
    exact ⟨Int.ofNat_le.mp hlow, Int.ofNat_le.mp hhigh⟩
  · rintro ⟨hlow, hhigh⟩
    refine ⟨x.toNat, (mem_stepped_one hcodes).mpr ?_, ofCode?_eq_some.mpr rfl⟩
    exact ⟨Int.ofNat_le.mpr hlow, Int.ofNat_le.mpr hhigh⟩

theorem pairwise_characters {c d : Char} (hcd : c ≤ d) : (characters c d).Pairwise (· < ·) := by
  have hcodes : (c.toNat : Int) ≤ d.toNat := Int.ofNat_le.mpr (le_iff_toNat.mp hcd)
  rw [characters, List.pairwise_filterMap]
  refine (pairwise_stepped_one hcodes).imp_of_mem fun {m n} hm hn hmn x hx y hy => ?_
  obtain ⟨m, rfl⟩ := natCast_of_mem_codes hm
  obtain ⟨n, rfl⟩ := natCast_of_mem_codes hn
  rw [lt_iff_toNat, ofCode?_eq_some.mp hx, ofCode?_eq_some.mp hy]
  exact Int.ofNat_lt.mp hmn

theorem mem_characters {c d x : Char} :
    x ∈ characters c d ↔ (c ≤ x ∧ x ≤ d) ∨ (d ≤ x ∧ x ≤ c) := by
  rcases le_total c d with h | h
  · rw [mem_characters_of_le h]
    refine ⟨.inl, fun hx => hx.elim id fun hx => ?_⟩
    exact ⟨h.trans hx.1, hx.2.trans h⟩
  · rw [← reverse_characters, List.mem_reverse, mem_characters_of_le h]
    refine ⟨.inr, fun hx => hx.elim (fun hx => ?_) id⟩
    exact ⟨h.trans hx.1, hx.2.trans h⟩

/-! ### Limits -/

theorem span_eq (a b : Int) (step : Nat) :
    span a b step = if 100000 ≤ (a - b).natAbs / step then .error (.type "range is too large")
      else .ok (stepped a b step) := by
  have hdistance : (b - a).natAbs = (a - b).natAbs := by omega
  unfold span rangeLimit
  rw [hdistance]
  split
  · rw [if_neg (by omega)]
  · rw [if_pos (by omega)]

theorem integerRange_eq (a b : Int) (step : Nat) :
    integerRange a b step =
      if 100000 ≤ (a - b).natAbs / step then .error (.type "range is too large")
      else .ok (array ((stepped a b step).map ofInt)) := by
  rw [integerRange, span_eq]
  split <;> rfl

theorem characterRange_eq (c d : Char) :
    characterRange c d =
      if 100000 ≤ ((c.toNat : Int) - d.toNat).natAbs then .error (.type "range is too large")
      else .ok (array ((characters c d).map character)) := by
  rw [characterRange, span_eq, Nat.div_one, ← filterMap_character?]
  split <;> rfl

theorem range_ofInt {a b : Int} (ha : fitsSigned a) (hb : fitsSigned b) :
    range (ofInt a) (ofInt b) = integerRange a b 1 := by
  unfold range
  rw [signed?_ofInt ha, signed?_ofInt hb]

theorem range_character (c d : Char) : range (character c) (character d) = characterRange c d := by
  have hsingle (x : Char) : singleCharacter? (character x) = some x := by
    unfold singleCharacter? character
    dsimp only
    rw [Char.toString_eq_singleton, String.toList_singleton]
  unfold range
  rw [hsingle, hsingle]
  rfl

theorem range_integers {a b : Int} (ha : fitsSigned a) (hb : fitsSigned b) :
    binary .range (ofInt a) (ofInt b) =
      if 100000 ≤ (a - b).natAbs then .error (.type "range is too large")
      else .ok (array ((stepped a b 1).map ofInt)) := by
  change range _ _ = _
  rw [range_ofInt ha hb, integerRange_eq, Nat.div_one]

theorem range_characters (c d : Char) :
    binary .range (character c) (character d) =
      if 100000 ≤ ((c.toNat : Int) - d.toNat).natAbs then .error (.type "range is too large")
      else .ok (array ((characters c d).map character)) :=
  (range_character c d).trans (characterRange_eq c d)

end EmbeddedLang.Value
