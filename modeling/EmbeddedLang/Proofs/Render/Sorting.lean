import EmbeddedLang.Proofs.Render.Builtins
import EmbeddedLang.Proofs.Value.Comparison

/-!
Sorted arrays and the values at their ends: what `min` and `max` choose among values that can be
compared is first and last in the sorted array. Numbers can be compared with one another as long as
no two of them are blurred.
-/

namespace EmbeddedLang.Render

open Value

variable {P : Value → Prop}

theorem extremeFrom_extreme (h : Comparable P) {wanted : Ordering} (hwanted : wanted ≠ .eq)
    {best : Value} {rest : List Value} (hbest : P best) (hrest : ∀ v ∈ rest, P v) :
    ∃ m ∈ best :: rest, extremeFrom wanted best rest = .ok m ∧
      ∀ v ∈ best :: rest, compare? v m ≠ some wanted := by
  induction rest generalizing best with
  | nil =>
    refine ⟨best, List.mem_singleton_self best, rfl, List.forall_mem_singleton.mpr ?_⟩
    rw [h.compare?_self hbest]
    exact fun heq => hwanted (Option.some.inj heq).symm
  | cons v rest ih =>
    obtain ⟨hv, hothers⟩ := List.forall_mem_cons.mp hrest
    obtain ⟨order, horder, hswap⟩ := h.swap hv hbest
    unfold extremeFrom
    rw [horder]
    dsimp only
    split
    · -- `v` is further than the best so far, which then does not exceed `v`
      rename_i hnew
      obtain rfl := eq_of_beq hnew
      obtain ⟨m, hm, hok, hmost⟩ := ih hv hothers
      have hPm : P m := List.forall_mem_cons.mpr ⟨hv, hothers⟩ m hm
      have hback : compare? best v ≠ some order := by
        rw [hswap]
        revert hwanted
        cases order <;> decide
      refine ⟨m, List.mem_cons_of_mem best hm, hok, List.forall_mem_cons.mpr ⟨?_, hmost⟩⟩
      exact h.compare?_ne_trans hwanted hbest hv hPm hback (hmost v List.mem_cons_self)
    · rename_i hold
      obtain ⟨m, hm, hok, hmost⟩ := ih hbest hothers
      have hPm : P m := List.forall_mem_cons.mpr ⟨hbest, hothers⟩ m hm
      obtain ⟨hmostBest, hmostOthers⟩ := List.forall_mem_cons.mp hmost
      have hback : compare? v best ≠ some wanted := by
        rw [horder]
        exact fun heq => hold (beq_iff_eq.mpr (Option.some.inj heq))
      refine ⟨m, ?_, hok, ?_⟩
      · exact List.cons_subset_cons best (List.subset_cons_self v rest) hm
      · refine List.forall_mem_cons.mpr ⟨hmostBest, List.forall_mem_cons.mpr ⟨?_, hmostOthers⟩⟩
        exact h.compare?_ne_trans hwanted hv hbest hPm hback hmostBest

theorem extreme_array (h : Comparable P) {wanted : Ordering} (hwanted : wanted ≠ .eq)
    {items : List Value} (hitems : ∀ v ∈ items, P v) (hne : items ≠ []) (named : Dictionary Value) :
    ∃ m ∈ items, extreme wanted ⟨[array items], named⟩ = .ok m ∧
      ∀ v ∈ items, compare? v m ≠ some wanted := by
  cases items with
  | nil => exact absurd rfl hne
  | cons best rest =>
    obtain ⟨hbest, hrest⟩ := List.forall_mem_cons.mp hitems
    exact extremeFrom_extreme h hwanted hbest hrest

/-! ### Ends of sorted arrays -/

theorem extreme_compare (h : Comparable P) {wanted : Ordering} (hwanted : wanted ≠ .eq)
    {items : List Value} (hitems : ∀ v ∈ items, P v) {v : Value} (hv : v ∈ items)
    (hmost : ∀ w ∈ items, compare? w v ≠ some wanted) (named : Dictionary Value) :
    ∃ m ∈ items, extreme wanted ⟨[array items], named⟩ = .ok m ∧ compare? m v = some .eq := by
  obtain ⟨m, hm, hok, hmost'⟩ := extreme_array h hwanted hitems (List.ne_nil_of_mem hv) named
  exact ⟨m, hm, hok,
    h.compare?_eq_of_ne hwanted (hitems m hm) (hitems v hv) (hmost m hm) (hmost' v hv)⟩

section Ends

variable {sorted items : List Value} (hitems : ∀ v ∈ items, P v) (hperm : sorted.Perm items)
  (hsorted : Ascending sorted) (named : Dictionary Value)

include hitems hperm hsorted

theorem extreme_lt_head (h : Comparable P) {v : Value} (hv : v ∈ sorted.head?) :
    ∃ m ∈ items, extreme .lt ⟨[array items], named⟩ = .ok m ∧ compare? m v = some .eq := by
  obtain ⟨rest, rfl⟩ := List.head?_eq_some_iff.mp hv
  have hmem : v ∈ items := hperm.mem_iff.mp List.mem_cons_self
  refine extreme_compare h (by decide) hitems hmem (fun w hw => ?_) named
  rcases List.mem_cons.mp (hperm.mem_iff.mpr hw) with rfl | hw
  · rw [h.compare?_self (hitems w hw)]
    decide
  · exact isLess_eq_false_iff.mp (List.rel_of_pairwise_cons hsorted hw)

theorem extreme_gt_getLast (h : Comparable P) {v : Value} (hv : v ∈ sorted.getLast?) :
    ∃ m ∈ items, extreme .gt ⟨[array items], named⟩ = .ok m ∧ compare? m v = some .eq := by
  obtain ⟨front, rfl⟩ := List.getLast?_eq_some_iff.mp hv
  have hmem : v ∈ items := hperm.mem_iff.mp List.mem_concat_self
  refine extreme_compare h (by decide) hitems hmem (fun w hw => ?_) named
  rcases List.mem_append.mp (hperm.mem_iff.mpr hw) with hfront | hlast
  · rw [ne_eq, h.compare?_eq_gt_iff (hitems w hw) (hitems v hmem), Bool.not_eq_true]
    exact (List.pairwise_append.mp hsorted).2.2 w hfront v (List.mem_singleton_self v)
  · rw [List.mem_singleton.mp hlast, h.compare?_self (hitems v hmem)]
    decide

theorem extreme_lt_eq_head (h : Distinguished P) :
    extreme .lt ⟨[array items], named⟩ = .ok (sorted.head?.getD null) := by
  cases hhead : sorted.head? with
  | none =>
    obtain rfl := List.head?_eq_none_iff.mp hhead
    rw [hperm.nil_eq.symm]
    rfl
  | some v =>
    obtain ⟨m, hm, hok, heq⟩ := extreme_lt_head hitems hperm hsorted named h.toComparable hhead
    have hv : v ∈ items := hperm.mem_iff.mp (List.mem_of_head? hhead)
    rw [hok, h.eq_of_compare (hitems m hm) (hitems v hv) heq]
    rfl

theorem extreme_gt_eq_getLast (h : Distinguished P) :
    extreme .gt ⟨[array items], named⟩ = .ok (sorted.getLast?.getD null) := by
  cases hlast : sorted.getLast? with
  | none =>
    obtain rfl := List.getLast?_eq_none_iff.mp hlast
    rw [hperm.nil_eq.symm]
    rfl
  | some v =>
    obtain ⟨m, hm, hok, heq⟩ := extreme_gt_getLast hitems hperm hsorted named h.toComparable hlast
    have hv : v ∈ items := hperm.mem_iff.mp (List.mem_of_getLast? hlast)
    rw [hok, h.eq_of_compare (hitems m hm) (hitems v hv) heq]
    rfl

end Ends

theorem sorting_agrees {items : List Value} (h : IsUniform items) (named : Dictionary Value)
    (args : Arguments) :
    ∃ sorted, filtered "sort" (array items) args = some (.ok (array sorted)) ∧
      sorted.Perm items ∧ Ascending sorted ∧
      (∀ others, others.Perm items →
        filtered "sort" (array others) args = some (.ok (array sorted))) ∧
      filtered "sort" (array sorted) args = some (.ok (array sorted)) ∧
      called "min" ⟨[array items], named⟩ = some (.ok (sorted.head?.getD null)) ∧
      filtered "first" (array sorted) args = some (.ok (sorted.head?.getD null)) ∧
      called "max" ⟨[array items], named⟩ = some (.ok (sorted.getLast?.getD null)) ∧
      filtered "last" (array sorted) args = some (.ok (sorted.getLast?.getD null)) ∧
      ∃ reversed, filtered "reverse" (array items) args = some (.ok (array reversed)) ∧
        filtered "reverse" (array reversed) args = some (.ok (array items)) := by
  obtain ⟨P, hP, hitems⟩ := h.distinguished
  have hperm : (sortList items).Perm items := sortList_perm items
  have hsorted : Ascending (sortList items) := hP.ascending_sortList hitems
  have hsort (others : List Value) (hothers : others.Perm items) :
      filtered "sort" (array others) args = some (.ok (array (sortList items))) := by
    rw [← hP.sortList_eq_of_perm hitems hothers]
    rfl
  refine ⟨sortList items, rfl, hperm, hsorted, hsort, hsort _ hperm, ?_, rfl, ?_, rfl,
    items.reverse, rfl, ?_⟩
  · exact congrArg some (extreme_lt_eq_head hitems hperm hsorted named hP)
  · exact congrArg some (extreme_gt_eq_getLast hitems hperm hsorted named hP)
  · change some (Except.ok (array items.reverse.reverse)) = _
    rw [List.reverse_reverse]

theorem sorting_agrees_swapped :
    IsUniform [ofInt 3, ofInt 1, ofInt 2] ∧
      ∃ sorted, filtered "sort" (array [ofInt 3, ofInt 1, ofInt 2]) .empty =
          some (.ok (array sorted)) ∧ sorted = [ofInt 1, ofInt 2, ofInt 3] ∧
        called "max" ⟨[array [ofInt 3, ofInt 1, ofInt 2]], []⟩ = some (.ok (ofInt 3)) := by
  have h : IsUniform [ofInt 3, ofInt 1, ofInt 2] := by
    refine .inl fun v hv => ?_
    simp only [List.mem_cons, List.not_mem_nil, or_false] at hv
    rcases hv with rfl | rfl | rfl
    · exact ⟨3, by decide, rfl⟩
    · exact ⟨1, by decide, rfl⟩
    · exact ⟨2, by decide, rfl⟩
  obtain ⟨sorted, hsort, -, -, -, -, -, -, hmax, -⟩ := sorting_agrees h [] .empty
  have heq : sorted = [ofInt 1, ofInt 2, ofInt 3] :=
    (Value.array.inj (Except.ok.inj (Option.some.inj hsort))).symm
  rw [heq] at hmax
  exact ⟨h, sorted, hsort, heq, hmax⟩

/-! ### Numbers -/

theorem any_looselyEqual {a : Number} {items : List Number} (h : Number.Apart (a :: items)) :
    (items.map number).any (looselyEqual · (number a)) =
      (items.map number).any fun v => compare? v (number a) == some .eq := by
  rw [Bool.eq_iff_iff, List.any_eq_true, List.any_eq_true]
  refine exists_congr fun v => and_congr_right fun hv => ?_
  obtain ⟨n, hn, rfl⟩ := List.mem_map.mp hv
  rw [h.looselyEqual ⟨n, List.mem_cons_of_mem a hn, rfl⟩ ⟨a, List.mem_cons_self, rfl⟩]

theorem ordered_number {a b : Number} (ha : a.IsValid) (hb : b.IsValid) (accept : Ordering → Bool) :
    ordered accept (number a) (number b) = .ok (boolean (accept (a.order b))) := by
  rw [ordered, ha.compare? hb]

theorem ltEq_iff {a b : Number} (ha : a.IsValid) (hb : b.IsValid) :
    binary .ltEq (number a) (number b) = .ok (boolean true) ↔ a.order b ≠ .gt := by
  change ordered _ _ _ = _ ↔ _
  rw [ordered_number ha hb]
  cases a.order b <;> simp [Ordering.isLE]

/-- Of two numbers that are not blurred exactly one is less, or they are equal. The order is
transitive where no two blurred integers have something else between them, and the arrays in which
no two are blurred are those on which sorting, membership and extremes agree. -/
theorem numbers_ordered {a b : Number} (ha : a.IsValid) (hb : b.IsValid) :
    (∃ order, compare? (number a) (number b) = some order ∧
      compare? (number b) (number a) = some order.swap ∧
      binary .lt (number a) (number b) = .ok (boolean (order == .lt)) ∧
      binary .eq (number a) (number b) = .ok (boolean (order == .eq || a.blurred b)) ∧
      binary .gt (number a) (number b) = .ok (boolean (order == .gt))) ∧
    (a.blurred b = true → ∃ m n : Int, a = .integer m ∧ b = .integer n ∧ m ≠ n ∧
      2 ^ 53 ≤ m.natAbs ∧ 2 ^ 53 ≤ n.natAbs) ∧
    (∀ c : Number, c.IsValid → (a.blurred c = true → (signed? (number b)).isSome) →
      binary .ltEq (number a) (number b) = .ok (boolean true) →
      binary .ltEq (number b) (number c) = .ok (boolean true) →
      binary .ltEq (number a) (number c) = .ok (boolean true)) ∧
    ∀ (items : List Number) (named : Dictionary Value), Number.Apart (a :: items) →
      ∃ sorted, filtered "sort" (array (items.map number)) .empty = some (.ok (array sorted)) ∧
        sorted.Perm (items.map number) ∧ Ascending sorted ∧
        binary .in (number a) (array (items.map number)) =
          .ok (boolean (sorted.any fun v => compare? v (number a) == some .eq)) ∧
        called "in_array" (.ofList [number a, array (items.map number)]) =
          some (.ok (boolean (sorted.any fun v => compare? v (number a) == some .eq))) ∧
        (∀ v ∈ sorted.head?, ∃ m ∈ sorted,
          called "min" ⟨[array (items.map number)], named⟩ = some (.ok m) ∧
          compare? m v = some .eq ∧ binary .eq m v = .ok (boolean true)) ∧
        ∀ v ∈ sorted.getLast?, ∃ m ∈ sorted,
          called "max" ⟨[array (items.map number)], named⟩ = some (.ok m) ∧
          compare? m v = some .eq ∧ binary .eq m v = .ok (boolean true) := by
  refine ⟨?_, Number.large_of_blurred, ?_, ?_⟩
  · refine ⟨a.order b, ha.compare? hb, ?_, ?_, ?_, ?_⟩
    · rw [hb.compare? ha, Number.order_swap]
    · refine (ordered_number ha hb _).trans ?_
      cases a.order b <;> rfl
    · exact congrArg (fun same => Except.ok (boolean same)) (Number.toFloat_beq_eq ha hb)
    · refine (ordered_number ha hb _).trans ?_
      cases a.order b <;> rfl
  · intro c hc hbetween hab hbc
    rw [ltEq_iff ha hb] at hab
    rw [ltEq_iff hb hc] at hbc
    rw [ltEq_iff ha hc]
    exact Number.order_trans ha hc hbetween hab hbc
  · intro items named h
    have hperm : (sortList (items.map number)).Perm (items.map number) := sortList_perm _
    have hitems : ∀ v ∈ items.map number, ∃ n, n ∈ a :: items ∧ v = number n := by
      intro v hv
      obtain ⟨n, hn, rfl⟩ := List.mem_map.mp hv
      exact ⟨n, List.mem_cons_of_mem a hn, rfl⟩
    have hsorted := h.comparable.ascending_sortList hitems
    have hequal {v w : Value} (hv : v ∈ items.map number) (hw : w ∈ sortList (items.map number))
        (heq : compare? v w = some .eq) : binary .eq v w = .ok (boolean true) := by
      change Except.ok (boolean (looselyEqual v w)) = _
      rw [h.looselyEqual (hitems v hv) (hitems w (hperm.mem_iff.mp hw)), heq]
      rfl
    refine ⟨sortList (items.map number), rfl, hperm, hsorted, ?_, ?_, fun v hv => ?_, fun v hv => ?_⟩
    · rw [hperm.any_eq, ← any_looselyEqual h]
      rfl
    · rw [hperm.any_eq, ← any_looselyEqual h]
      rfl
    · obtain ⟨m, hm, hok, heq⟩ := extreme_lt_head hitems hperm hsorted named h.comparable hv
      exact ⟨m, hperm.mem_iff.mpr hm, congrArg some hok, heq, hequal hm (List.mem_of_head? hv) heq⟩
    · obtain ⟨m, hm, hok, heq⟩ := extreme_gt_getLast hitems hperm hsorted named h.comparable hv
      exact ⟨m, hperm.mem_iff.mpr hm, congrArg some hok, heq, hequal hm (List.mem_of_getLast? hv) heq⟩

theorem numbers_ordered_mixed :
    let half : Number := .float (Float.ofBits 0x3FE0000000000000)
    (binary .lt (number half) (ofInt 1) = .ok (boolean true) ∧
      binary .eq (number half) (ofInt 1) = .ok (boolean false)) ∧
    binary .ltEq (number half) (ofInt (2 ^ 63)) = .ok (boolean true) ∧
    ∃ sorted, filtered "sort" (array [ofInt 1, number half]) .empty = some (.ok (array sorted)) ∧
      Ascending sorted ∧
      binary .in (number half) (array [ofInt 1, number half]) =
        .ok (boolean (sorted.any fun v => compare? v (number half) == some .eq)) := by
  intro half
  have hhalf : half.IsValid := rfl
  have hone : (Number.integer 1).IsValid := ⟨by decide, by decide⟩
  have hwide : (Number.integer (2 ^ 63)).IsValid := ⟨by decide, by decide⟩
  obtain ⟨⟨order, horder, -, hlt, heq, -⟩, -, htrans, hsort⟩ := numbers_ordered hhalf hone
  obtain rfl : order = .lt := Option.some.inj (horder.symm.trans (by decide +kernel))
  have happart : Number.Apart (half :: [.integer 1, half]) := by
    constructor <;> simp only [List.forall_mem_cons, List.not_mem_nil, false_imp_iff, implies_true,
      and_true]
    · exact ⟨hhalf, hone, hhalf⟩
    · decide +kernel
  obtain ⟨sorted, hsorted, -, hascending, hin, -⟩ := hsort [.integer 1, half] [] happart
  refine ⟨⟨hlt, heq⟩, ?_, sorted, hsorted, hascending, hin⟩
  exact htrans (.integer (2 ^ 63)) hwide (fun _ => rfl)
    ((ltEq_iff hhalf hone).mpr (by decide +kernel)) ((ltEq_iff hone hwide).mpr (by decide +kernel))

/-- One more than `2 ^ 53` is rounded to `2 ^ 53`, and so is both equal to it and greater; as a float
it stands between them and is equal to both. -/
theorem numbers_not_ordered :
    (binary .lt (ofInt (2 ^ 53)) (ofInt (2 ^ 53 + 1)) = .ok (boolean true) ∧
      binary .eq (ofInt (2 ^ 53)) (ofInt (2 ^ 53 + 1)) = .ok (boolean true)) ∧
    (binary .ltEq (ofInt (2 ^ 53 + 1)) (number (.float (Float.ofInt (2 ^ 53)))) =
        .ok (boolean true) ∧
      binary .ltEq (number (.float (Float.ofInt (2 ^ 53)))) (ofInt (2 ^ 53)) = .ok (boolean true) ∧
      binary .ltEq (ofInt (2 ^ 53 + 1)) (ofInt (2 ^ 53)) = .ok (boolean false)) := by
  refine ⟨⟨rfl, rfl⟩, rfl, rfl, rfl⟩

end EmbeddedLang.Render
