import EmbeddedLang.Proofs.Value.Integers

/-!
Comparison and sorting.

The result of sorting values that can be compared with one another is in order, and where only equal
values compare as equal, it is the only arrangement that is.

Two signed integers compare exactly, and all other numbers by the floats that they are rounded to.
Equality rounds every number, so it takes some distinct signed integers for equal.
-/

namespace EmbeddedLang.Value

/-- Comparison is a total order of these values, up to those that compare as equal. -/
structure Comparable (P : Value → Prop) : Prop where
  swap {v w : Value} : P v → P w →
    ∃ order, compare? v w = some order ∧ compare? w v = some order.swap
  trans {u v w : Value} : P u → P v → P w →
    isLess v u = false → isLess w v = false → isLess w u = false

/-- Only equal values compare as equal. -/
structure Distinguished (P : Value → Prop) : Prop extends Comparable P where
  eq_of_compare {v w : Value} : P v → P w → compare? v w = some .eq → v = w

theorem isLess_iff {v w : Value} : isLess v w = true ↔ compare? v w = some .lt :=
  beq_iff_eq

theorem isLess_eq_false_iff {v w : Value} : isLess v w = false ↔ compare? v w ≠ some .lt := by
  rw [ne_eq, ← isLess_iff, Bool.not_eq_true]

def Ascending (items : List Value) : Prop :=
  items.Pairwise fun v w => isLess w v = false

namespace Comparable

variable {P : Value → Prop}

theorem compare?_self (h : Comparable P) {v : Value} (hv : P v) : compare? v v = some .eq := by
  obtain ⟨order, horder, hswap⟩ := h.swap hv hv
  rw [horder] at hswap ⊢
  revert hswap
  cases order <;> decide

theorem compare?_eq_gt_iff (h : Comparable P) {v w : Value} (hv : P v) (hw : P w) :
    compare? v w = some .gt ↔ isLess w v = true := by
  obtain ⟨order, horder, hswap⟩ := h.swap hv hw
  rw [isLess_iff, horder, hswap]
  cases order <;> decide

/-- Of two values that do not compare as equal, one exceeds the other in the direction `wanted`. -/
theorem compare?_eq_of_ne (h : Comparable P) {wanted : Ordering} (hwanted : wanted ≠ .eq)
    {v w : Value} (hv : P v) (hw : P w) (hvw : compare? v w ≠ some wanted)
    (hwv : compare? w v ≠ some wanted) : compare? v w = some .eq := by
  obtain ⟨order, horder, hswap⟩ := h.swap hv hw
  rw [horder] at hvw ⊢
  rw [hswap] at hwv
  revert hwanted hvw hwv
  cases order <;> cases wanted <;> decide

/-- Not to exceed in one direction is transitive. -/
theorem compare?_ne_trans (h : Comparable P) {wanted : Ordering} (hwanted : wanted ≠ .eq)
    {u v w : Value} (hu : P u) (hv : P v) (hw : P w) (huv : compare? u v ≠ some wanted)
    (hvw : compare? v w ≠ some wanted) : compare? u w ≠ some wanted := by
  cases wanted with
  | lt =>
    rw [← isLess_eq_false_iff] at huv hvw ⊢
    exact h.trans hw hv hu hvw huv
  | eq => exact absurd rfl hwanted
  | gt =>
    rw [ne_eq, h.compare?_eq_gt_iff hu hv, Bool.not_eq_true] at huv
    rw [ne_eq, h.compare?_eq_gt_iff hv hw, Bool.not_eq_true] at hvw
    rw [ne_eq, h.compare?_eq_gt_iff hu hw, Bool.not_eq_true]
    exact h.trans hu hv hw huv hvw

theorem not_isLess (h : Comparable P) {v w : Value} (hv : P v) (hw : P w)
    (hless : isLess v w = true) : isLess w v = false := by
  obtain ⟨order, horder, hswap⟩ := h.swap hv hw
  rw [isLess_iff.mp hless] at horder
  obtain rfl := Option.some.inj horder
  rw [isLess, hswap]
  rfl

theorem insertBack_ascending (h : Comparable P) {v : Value} {items : List Value} (hv : P v)
    (hitems : ∀ w ∈ items, P w) (hsorted : items.Pairwise fun v w => isLess v w = false) :
    (insertBack v items).Pairwise fun v w => isLess v w = false := by
  induction items with
  | nil => exact List.pairwise_singleton _ v
  | cons w rest ih =>
    obtain ⟨hfirst, hrest⟩ := List.pairwise_cons.mp hsorted
    obtain ⟨hw, hothers⟩ := List.forall_mem_cons.mp hitems
    unfold insertBack
    split
    · rename_i hless
      refine List.pairwise_cons.mpr ⟨fun x hx => ?_, ih hothers hrest⟩
      rcases List.mem_cons.mp ((insertBack_perm v rest).mem_iff.mp hx) with rfl | hx
      · exact h.not_isLess hv hw hless
      · exact hfirst x hx
    · rename_i hless
      have hnot : isLess v w = false := Bool.not_eq_true _ ▸ hless
      refine List.pairwise_cons.mpr ⟨fun x hx => ?_, hsorted⟩
      rcases List.mem_cons.mp hx with rfl | hx
      · exact hnot
      · exact h.trans (hothers x hx) hw hv (hfirst x hx) hnot

theorem ascending_sortList (h : Comparable P) {items : List Value} (hitems : ∀ v ∈ items, P v) :
    Ascending (sortList items) := by
  have hfrom (sorted : List Value) (hall : ∀ v ∈ sorted, P v)
      (hsorted : sorted.Pairwise fun v w => isLess v w = false) :
      (items.foldl (fun sorted v => insertBack v sorted) sorted).Pairwise
        fun v w => isLess v w = false := by
    induction items generalizing sorted with
    | nil => exact hsorted
    | cons v rest ih =>
      obtain ⟨hv, hrest⟩ := List.forall_mem_cons.mp hitems
      refine ih hrest _ (fun w hw => ?_) (h.insertBack_ascending hv hall hsorted)
      rcases List.mem_cons.mp ((insertBack_perm v sorted).mem_iff.mp hw) with rfl | hw
      · exact hv
      · exact hall w hw
  exact List.pairwise_reverse.mpr (hfrom [] nofun .nil)

end Comparable

namespace Distinguished

variable {P : Value → Prop}

theorem eq_of_ascending (h : Distinguished P) {items others : List Value}
    (hitems : ∀ v ∈ items, P v) (hperm : items.Perm others) (hsorted : Ascending items)
    (hsorted' : Ascending others) : items = others := by
  refine hperm.eq_of_pairwise (fun v w hv hw hless hless' => ?_) hsorted hsorted'
  have hlt : Ordering.lt ≠ .eq := by decide
  rw [isLess_eq_false_iff] at hless hless'
  have hw' : P w := hitems w (hperm.mem_iff.mpr hw)
  exact h.eq_of_compare (hitems v hv) hw' (h.compare?_eq_of_ne hlt (hitems v hv) hw' hless' hless)

theorem sortList_eq_of_perm (h : Distinguished P) {items others : List Value}
    (hitems : ∀ v ∈ items, P v) (hperm : others.Perm items) :
    sortList others = sortList items := by
  have hothers : ∀ v ∈ others, P v := fun v hv => hitems v (hperm.mem_iff.mp hv)
  refine h.eq_of_ascending (fun v hv => hothers v ((sortList_perm others).mem_iff.mp hv)) ?_
    (h.ascending_sortList hothers) (h.ascending_sortList hitems)
  exact (sortList_perm others).trans (hperm.trans (sortList_perm items).symm)

end Distinguished

/-! ### Values of one kind -/

theorem orderOf_eq_compare {α : Type} [LinearOrder α] (a b : α) :
    orderOf (decide (a < b)) (decide (a = b)) = compare a b := by
  rw [LinearOrder.compare_eq_compareOfLessAndEq, compareOfLessAndEq]
  unfold orderOf
  simp only [decide_eq_true_eq]

theorem comparable_of_compare {α β : Type} [LinearOrder α] {value : β → Value} {key : β → α}
    {P : β → Prop} (hcompare : ∀ a b, P a → P b →
      compare? (value a) (value b) = some (compare (key a) (key b))) :
    Comparable fun v => ∃ b, P b ∧ v = value b where
  swap := by
    rintro _ _ ⟨a, ha, rfl⟩ ⟨b, hb, rfl⟩
    have hswap : compare (key b) (key a) = (compare (key a) (key b)).swap :=
      Std.OrientedCmp.eq_swap
    exact ⟨_, hcompare a b ha hb, hswap ▸ hcompare b a hb ha⟩
  trans := by
    rintro _ _ _ ⟨a, ha, rfl⟩ ⟨b, hb, rfl⟩ ⟨c, hc, rfl⟩
    simp only [isLess_eq_false_iff, hcompare, ha, hb, hc, ne_eq, Option.some.injEq,
      compare_lt_iff_lt, not_lt]
    exact le_trans

theorem distinguished_of_compare {α : Type} [LinearOrder α] {value : α → Value} {P : α → Prop}
    (hcompare : ∀ a b, P a → P b → compare? (value a) (value b) = some (compare a b)) :
    Distinguished fun v => ∃ a, P a ∧ v = value a where
  toComparable := comparable_of_compare hcompare
  eq_of_compare := by
    rintro _ _ ⟨a, ha, rfl⟩ ⟨b, hb, rfl⟩ heq
    rw [hcompare a b ha hb, Option.some.injEq, compare_eq_iff_eq] at heq
    rw [heq]

theorem compare?_ofInt {a b : Int} (ha : fitsSigned a) (hb : fitsSigned b) :
    compare? (ofInt a) (ofInt b) = some (compare a b) := by
  have ha : signed? (number (.integer a)) = some a := signed?_ofInt ha
  have hb : signed? (number (.integer b)) = some b := signed?_ofInt hb
  unfold ofInt compare?
  dsimp only
  rw [ha, hb]
  exact congrArg some (orderOf_eq_compare a b)

theorem compare?_string (a b : String) : compare? (string a) (string b) = some (compare a b) := by
  rw [← orderOf_eq_compare]
  rfl

theorem compare?_boolean (a b : Bool) :
    compare? (boolean a) (boolean b) = some (compare a b) := by
  cases a <;> cases b <;> rfl

/-- Signed integers, strings or booleans throughout. -/
def IsUniform (items : List Value) : Prop :=
  (∀ v ∈ items, ∃ n, fitsSigned n ∧ v = ofInt n) ∨ (∀ v ∈ items, ∃ s, v = string s) ∨
    ∀ v ∈ items, ∃ b, v = boolean b

theorem IsUniform.distinguished {items : List Value} (h : IsUniform items) :
    ∃ P, Distinguished P ∧ ∀ v ∈ items, P v := by
  rcases h with h | h | h
  · exact ⟨_, distinguished_of_compare fun a b ha hb => compare?_ofInt ha hb, h⟩
  · refine ⟨fun v => ∃ s, True ∧ v = string s,
      distinguished_of_compare fun a b _ _ => compare?_string a b, fun v hv => ?_⟩
    obtain ⟨s, rfl⟩ := h v hv
    exact ⟨s, trivial, rfl⟩
  · refine ⟨fun v => ∃ b, True ∧ v = boolean b,
      distinguished_of_compare fun a b _ _ => compare?_boolean a b, fun v hv => ?_⟩
    obtain ⟨b, rfl⟩ := h v hv
    exact ⟨b, trivial, rfl⟩

end EmbeddedLang.Value

namespace EmbeddedLang

open Value

namespace Number

/-- What a number can be. -/
def IsValid : Number → Prop
  | integer n => -2 ^ 63 ≤ n ∧ n < 2 ^ 64
  | float x => x.isFinite

def floatPlace (n : Number) : Int :=
  place n.toFloat

/-- Distinct signed integers that are rounded to one float. -/
def blurred (a b : Number) : Bool :=
  match signed? (.number a), signed? (.number b) with
  | some m, some n => m != n && a.toFloat == b.toFloat
  | _, _ => false

def order (a b : Number) : Ordering :=
  match signed? (.number a), signed? (.number b) with
  | some m, some n => compare m n
  | _, _ => compare a.floatPlace b.floatPlace

variable {a b c : Number}

theorem eq_integer_of_signed? {n : Int} (h : signed? (.number a) = some n) :
    a = integer n ∧ fitsSigned n := by
  obtain ⟨heq, hfits⟩ := signed?_eq_some h
  exact ⟨Value.number.inj heq, hfits⟩

theorem floatPlace_integer {n : Int} (h : n.natAbs ≤ 2 ^ 64) :
    (integer n).floatPlace = placeOfInt n :=
  (ofInt_placed h).1

theorem IsValid.isFinite (h : a.IsValid) : a.toFloat.isFinite := by
  cases a with
  | integer n =>
    obtain ⟨hleast, hmost⟩ := h
    exact (ofInt_placed (by omega)).2
  | float x => exact h

theorem IsValid.toFloat_beq (ha : a.IsValid) (hb : b.IsValid) :
    (a.toFloat == b.toFloat) = decide (a.floatPlace = b.floatPlace) :=
  beq_eq_place ha.isFinite hb.isFinite

theorem IsValid.compare? (ha : a.IsValid) (hb : b.IsValid) :
    Value.compare? (.number a) (.number b) = some (a.order b) := by
  have hfloats : compareFloats a.toFloat b.toFloat = some (compare a.floatPlace b.floatPlace) :=
    compareFloats_eq ha.isFinite hb.isFinite
  unfold Value.compare? order
  dsimp only
  rcases signed? (.number a) with _ | m <;> rcases signed? (.number b) with _ | n
  · exact hfloats
  · exact hfloats
  · exact hfloats
  · exact congrArg some (orderOf_eq_compare m n)

theorem order_swap (a b : Number) : b.order a = (a.order b).swap := by
  have hswap (m n : Int) : compare n m = (compare m n).swap := Std.OrientedCmp.eq_swap
  unfold order
  cases signed? (.number a) <;> cases signed? (.number b) <;> exact hswap _ _

/-! ### Rounding -/

/-- Rounding keeps the order, but may make equal what is not. -/
theorem floatPlace_le (h : a.order b ≠ .gt) : a.floatPlace ≤ b.floatPlace := by
  unfold order at h
  split at h
  · rename_i m n hm hn
    obtain ⟨rfl, hfits⟩ := eq_integer_of_signed? hm
    obtain ⟨rfl, hfits'⟩ := eq_integer_of_signed? hn
    rw [floatPlace_integer (natAbs_le_of_fitsSigned hfits),
      floatPlace_integer (natAbs_le_of_fitsSigned hfits')]
    exact placeOfInt_mono (not_lt.mp (mt compare_gt_iff_gt.mpr h))
  · exact not_lt.mp (mt compare_gt_iff_gt.mpr h)

theorem toFloat_beq_eq (ha : a.IsValid) (hb : b.IsValid) :
    (a.toFloat == b.toFloat) = (a.order b == .eq || a.blurred b) := by
  unfold order blurred
  split
  · rename_i m n hm hn
    obtain ⟨rfl, -⟩ := eq_integer_of_signed? hm
    obtain ⟨rfl, -⟩ := eq_integer_of_signed? hn
    have hsame : (compare m n == .eq) = decide (m = n) := by
      rw [Bool.eq_iff_iff, beq_iff_eq, compare_eq_iff_eq, decide_eq_true_iff]
    rw [hsame]
    by_cases heq : m = n
    · subst heq
      rw [ha.toFloat_beq hb, decide_eq_true rfl, decide_eq_true rfl, Bool.true_or]
    · rw [decide_eq_false heq, bne_iff_ne.mpr heq, Bool.false_or, Bool.true_and]
  · rw [ha.toFloat_beq hb, Bool.or_false, Bool.eq_iff_iff, decide_eq_true_iff, beq_iff_eq,
      compare_eq_iff_eq]

theorem order_of_not_blurred (ha : a.IsValid) (hb : b.IsValid) (h : a.blurred b = false) :
    a.order b = compare a.floatPlace b.floatPlace := by
  have hequal := toFloat_beq_eq ha hb
  rw [h, Bool.or_false, ha.toFloat_beq hb, Bool.eq_iff_iff, decide_eq_true_iff, beq_iff_eq] at hequal
  cases horder : a.order b with
  | eq => exact (compare_eq_iff_eq.mpr (hequal.mpr horder)).symm
  | lt =>
    have hle : a.floatPlace ≤ b.floatPlace := floatPlace_le (by rw [horder]; decide)
    have hne : a.floatPlace ≠ b.floatPlace := fun heq => by
      rw [hequal.mp heq] at horder
      cases horder
    exact (compare_lt_iff_lt.mpr (hle.lt_of_ne hne)).symm
  | gt =>
    have hle : b.floatPlace ≤ a.floatPlace := floatPlace_le (by rw [order_swap, horder]; decide)
    have hne : b.floatPlace ≠ a.floatPlace := fun heq => by
      rw [hequal.mp heq.symm] at horder
      cases horder
    exact (compare_gt_iff_gt.mpr (hle.lt_of_ne hne)).symm

/-- Only integers that do not keep all of their bits are blurred. -/
theorem large_of_blurred (h : a.blurred b = true) :
    ∃ m n : Int, a = integer m ∧ b = integer n ∧ m ≠ n ∧ 2 ^ 53 ≤ m.natAbs ∧ 2 ^ 53 ≤ n.natAbs := by
  unfold blurred at h
  split at h
  · rename_i m n hm hn
    obtain ⟨rfl, hfits⟩ := eq_integer_of_signed? hm
    obtain ⟨rfl, hfits'⟩ := eq_integer_of_signed? hn
    obtain ⟨hm, hfinite⟩ := ofInt_placed (natAbs_le_of_fitsSigned hfits)
    obtain ⟨hn, hfinite'⟩ := ofInt_placed (natAbs_le_of_fitsSigned hfits')
    obtain ⟨hne, hfloats⟩ := Bool.and_eq_true_iff.mp h
    have hne : m ≠ n := bne_iff_ne.mp hne
    have hplaces : placeOfInt m = placeOfInt n := by
      rw [← hm, ← hn]
      exact of_decide_eq_true ((beq_eq_place hfinite hfinite').symm.trans hfloats)
    refine ⟨m, n, rfl, rfl, hne, ?_, ?_⟩
    · exact not_lt.mp fun hsmall => placeOfInt_ne hsmall hne hplaces
    · exact not_lt.mp fun hsmall => placeOfInt_ne hsmall hne.symm hplaces.symm
  · cases h

/-- What stands between two blurred integers may be a float, or an integer that is not signed. -/
theorem order_trans (ha : a.IsValid) (hc : c.IsValid)
    (h : a.blurred c = true → (signed? (.number b)).isSome)
    (hab : a.order b ≠ .gt) (hbc : b.order c ≠ .gt) : a.order c ≠ .gt := by
  have hplaces : a.floatPlace ≤ c.floatPlace := (floatPlace_le hab).trans (floatPlace_le hbc)
  cases hblurred : a.blurred c with
  | false =>
    rw [order_of_not_blurred ha hc hblurred]
    exact mt compare_gt_iff_gt.mp (not_lt.mpr hplaces)
  | true =>
    obtain ⟨n, hn⟩ := Option.isSome_iff_exists.mp (h hblurred)
    unfold order at hab hbc ⊢
    unfold blurred at hblurred
    split at hblurred
    · rename_i l m hl hm
      rw [hl, hn] at hab
      rw [hn, hm] at hbc
      dsimp only at hab hbc ⊢
      simp only [ne_eq, compare_gt_iff_gt, not_lt] at hab hbc ⊢
      exact hab.trans hbc
    · cases hblurred

/-! ### Several numbers -/

/-- No two of the numbers are blurred. -/
structure Apart (numbers : List Number) : Prop where
  valid : ∀ n ∈ numbers, n.IsValid
  not_blurred : ∀ m ∈ numbers, ∀ n ∈ numbers, m.blurred n = false

theorem Apart.comparable {numbers : List Number} (h : Apart numbers) :
    Comparable fun v => ∃ n, n ∈ numbers ∧ v = .number n := by
  refine @comparable_of_compare _ _ _ _ floatPlace _ fun m n hm hn => ?_
  rw [(h.valid m hm).compare? (h.valid n hn),
    order_of_not_blurred (h.valid m hm) (h.valid n hn) (h.not_blurred m hm n hn)]

theorem Apart.looselyEqual {numbers : List Number} (h : Apart numbers) {v w : Value}
    (hv : ∃ m, m ∈ numbers ∧ v = .number m) (hw : ∃ n, n ∈ numbers ∧ w = .number n) :
    looselyEqual v w = (Value.compare? v w == some .eq) := by
  obtain ⟨m, hm, rfl⟩ := hv
  obtain ⟨n, hn, rfl⟩ := hw
  have hequal := toFloat_beq_eq (h.valid m hm) (h.valid n hn)
  rw [h.not_blurred m hm n hn, Bool.or_false] at hequal
  rw [(h.valid m hm).compare? (h.valid n hn)]
  exact hequal

end Number

end EmbeddedLang
