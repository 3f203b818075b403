import EmbeddedLang.Proofs.Render.Ensures
import EmbeddedLang.Proofs.Value.Ranges
import EmbeddedLang.Render.Evaluation

/-!
Members and parts of arrays and strings.

A subscript and the bounds of a slice all count from the end where they are negative. A subscript
then has to name a member, while a bound is moved to the nearest end. What holds of lists is carried
over to both kinds of values at once, and from values to the expressions that have them.
-/

namespace EmbeddedLang.Value

variable {β : Type} {whole : List β → Value} {member : β → Value}

/-- How values are made of the members that subscripts count, and how a member is a value. -/
inductive Sequence : {β : Type} → (List β → Value) → (β → Value) → Prop
  | array : Sequence array id
  | string : Sequence (fun cs => string (String.ofList cs)) character

theorem Sequence.ne_null (h : Sequence whole member) (xs : List β) : whole xs ≠ null := by
  cases h <;> exact nofun

/-- The end or place that is nearest to the one that a bound names. -/
def nearest (bound : Int) (length : Nat) : Int :=
  max 0 (min (if bound < 0 then length + bound else bound) length)

/-- The members from one place up to another; none if the other does not come after it. -/
def IsPart (xs : List β) (start stop : Int) (part : List β) : Prop :=
  ∃ front back, xs = front ++ part ++ back ∧ (front.length : Int) = start ∧
    (part.length : Int) = max 0 (stop - start)

/-! ### Subscripts -/

theorem normalizeIndex_of_place {i : Int} {length k : Nat} (hlength : length < 2 ^ 63)
    (hk : k < length) (hplace : (if i < 0 then length + i else i) = k) :
    normalizeIndex i length = some k := by
  have hstart : fromStart i length = k := hplace
  unfold normalizeIndex
  dsimp only
  rw [hstart, if_pos ⟨hlength, Int.natCast_nonneg k, Int.ofNat_lt.mpr hk⟩, Int.toNat_natCast]

theorem normalizeIndex_of_outside {i : Int} {length : Nat}
    (houtside : ∀ k < length, (if i < 0 then length + i else i) ≠ (k : Int)) :
    normalizeIndex i length = none := by
  unfold normalizeIndex
  refine if_neg fun ⟨_, hnonneg, hlt⟩ => ?_
  obtain ⟨k, hk⟩ := Int.eq_ofNat_of_zero_le hnonneg
  rw [hk] at hlt
  exact houtside k (Int.ofNat_lt.mp hlt) hk

theorem subscript?_whole (h : Sequence whole member) (xs : List β) {i : Int} (hi : fitsSigned i) :
    subscript? (ofInt i) (whole xs) =
      (normalizeIndex i xs.length).bind fun k => xs[k]?.map member := by
  have hplace (length : Nat) : placeOf? (ofInt i) length = normalizeIndex i length := by
    rw [placeOf?, signed?_ofInt hi, Option.bind_some]
  cases h with
  | array =>
    simp only [subscript?, hplace, Option.map_id_fun, id_eq]
  | string =>
    simp only [subscript?, hplace, String.toList_ofList]
    rfl

/-! ### Slices -/

theorem clampBound_eq (bound : Int) (length : Nat) :
    (clampBound bound length : Int) = nearest bound length := by
  unfold clampBound nearest fromStart
  split <;> omega

theorem slice_whole (h : Sequence whole member) (first last : Option Int) (xs : List β) :
    slice first last (whole xs) = .ok (whole (part first last xs)) := by
  cases h with
  | array => rfl
  | string => simp only [slice, String.toList_ofList]

theorem sliceBounds_eq (first last : Option Int) (length : Nat) :
    ((sliceBounds first last length).1 : Int) = first.elim 0 (nearest · length) ∧
      ((sliceBounds first last length).2 : Int) =
        max (first.elim 0 (nearest · length)) (last.elim (length : Int) (nearest · length)) := by
  have hbound (bound : Option Int) (side : Nat) :
      (((bound.map (clampBound · length)).getD side : Nat) : Int) =
        bound.elim (side : Int) (nearest · length) := by
    cases bound with
    | none => rfl
    | some i => exact clampBound_eq i length
  have hfirst := hbound first 0
  have hlast := hbound last length
  refine ⟨hfirst, ?_⟩
  change ((max _ _ : Nat) : Int) = _
  rw [Nat.cast_max, hfirst, hlast, Nat.cast_zero]

theorem isPart_part (first last : Option Int) (xs : List β) :
    IsPart xs (first.elim 0 (nearest · xs.length))
      (last.elim (xs.length : Int) (nearest · xs.length)) (part first last xs) := by
  obtain ⟨hstart, hstop⟩ := sliceBounds_le first last xs.length
  obtain ⟨hfirst, hlast⟩ := sliceBounds_eq first last xs.length
  unfold part
  dsimp only
  generalize (sliceBounds first last xs.length).1 = start at *
  generalize (sliceBounds first last xs.length).2 = stop at *
  refine ⟨xs.take start, xs.drop stop, ?_, ?_, ?_⟩
  · have htake : (xs.take stop).take start = xs.take start := by
      rw [List.take_take, Nat.min_eq_left hstart]
    rw [← htake, List.take_append_drop, List.take_append_drop]
  · rw [List.length_take, Nat.min_eq_left (hstart.trans hstop), hfirst]
  · rw [List.length_drop, List.length_take, Nat.min_eq_left hstop]
    omega

theorem part_append_part (k : Int) (xs : List β) :
    part none (some k) xs ++ part (some k) none xs = xs := by
  have hle : clampBound k xs.length ≤ xs.length := Nat.min_le_right _ _
  have hfront : part none (some k) xs = xs.take (clampBound k xs.length) := by
    simp [part, sliceBounds]
  have hback : part (some k) none xs = xs.drop (clampBound k xs.length) := by
    simp [part, sliceBounds, Nat.max_eq_right hle]
  rw [hfront, hback, List.take_append_drop]

/-- No step of the reckoning leaves the signed integers. -/
theorem fitsSigned_fromStart {i : Int} {length : Nat} (hi : fitsSigned i)
    (hlength : length < 2 ^ 63) : fitsSigned length ∧ fitsSigned (fromStart i length) := by
  unfold fromStart
  rw [fitsSigned_iff] at hi
  rw [fitsSigned_iff, fitsSigned_iff]
  split <;> omega

end EmbeddedLang.Value

namespace EmbeddedLang.Render

open Value

namespace Surroundings

/-- What a bound says if it is left out, null or a signed integer. -/
inductive Bounds (c : Surroundings) : Option Expr → Option Int → Session → Session → Prop
  | omitted (s : Session) : Bounds c none none s s
  | null {e : Expr} {s t : Session} (h : c.value e s = .ok null t) : Bounds c (some e) none s t
  | integer {e : Expr} {i : Int} {s t : Session} (hi : fitsSigned i)
      (h : c.value e s = .ok (ofInt i) t) : Bounds c (some e) (some i) s t

variable {c : Surroundings} {e : Expr} {s t u w : Session} {v : Value}

theorem exists_of_value (h : c.value e s = .ok v t) :
    ∃ found, c.find? e s = .ok found t ∧ found.getD null = v := by
  unfold value at h
  rw [map_eq_pure_bind] at h
  cases hfind : c.find? e s with
  | error err t' =>
    rw [bind_of_error hfind] at h
    cases h
  | ok found t' =>
    rw [bind_of_ok hfind] at h
    cases h
    exact ⟨found, rfl, rfl⟩

theorem value_of_find? {found : Option Value} (h : c.find? e s = .ok found t) :
    c.value e s = .ok (found.getD null) t := by
  rw [value, map_eq_pure_bind, bind_of_ok h]
  rfl

theorem value_index (he : c.value e s = .ok v t) (hv : v ≠ null) {index : Expr} {i : Value}
    (hi : c.value index t = .ok i u) (p : Position) :
    c.value (.index p e index) s = .ok ((subscript? i v).getD null) u := by
  obtain ⟨found, hfound, hget⟩ := exists_of_value he
  obtain ⟨named, hnamed, rfl⟩ := exists_of_value hi
  obtain rfl : found = some v := by
    cases found with
    | none => exact absurd hget.symm hv
    | some x => exact congrArg some hget
  apply value_of_find?
  rw [find?, bind_of_ok hfound]
  dsimp only
  rw [bind_of_ok hnamed]
  rfl

theorem Bounds.sliceBound {bound : Option Expr} {i : Option Int} (h : c.Bounds bound i s t) :
    c.sliceBound bound s = .ok i t := by
  cases h with
  | omitted => rfl
  | null h =>
    obtain ⟨found, hfound, hget⟩ := exists_of_value h
    rw [Surroundings.sliceBound, bind_of_ok hfound, hget]
    rfl
  | integer hi h =>
    obtain ⟨found, hfound, hget⟩ := exists_of_value h
    rw [Surroundings.sliceBound, bind_of_ok hfound, hget, ofInt, bound]
    · rw [← ofInt, signed?_ofInt hi]
      rfl
    · exact nofun

theorem value_slice (he : c.value e s = .ok v t) {first last : Option Expr} {a b : Option Int}
    (hfirst : c.Bounds first a t u) (hlast : c.Bounds last b u w) {x : Value}
    (hx : slice a b v = .ok x) (p : Position) : c.value (.slice p e first last) s = .ok x w := by
  obtain ⟨found, hfound, rfl⟩ := exists_of_value he
  have hslice : c.find? (.slice p e first last) s = .ok (some x) w := by
    rw [find?, bind_of_ok hfound, bind_of_ok hfirst.sliceBound, bind_of_ok hlast.sliceBound, hx]
    rfl
  exact value_of_find? hslice

end Surroundings

/-- A subscript names a member or nothing, a slice is a part that lies between its bounds, and the
two slices at one place make up the whole. All is reckoned within signed integers, and a part is
never cut outside of the whole. -/
theorem indexing_consistent {β : Type} {whole : List β → Value} {member : β → Value}
    (h : Sequence whole member) {xs : List β} (hlength : xs.length < 2 ^ 63) {c : Surroundings}
    {e : Expr} {s t : Session} (he : c.value e s = .ok (whole xs) t) (p : Position) :
    (∀ index i u, fitsSigned i → c.value index t = .ok (ofInt i) u →
      (∀ k (hk : k < xs.length), (if i < 0 then xs.length + i else i) = (k : Int) →
        c.value (.index p e index) s = .ok (member xs[k]) u) ∧
      ((∀ k < xs.length, (if i < 0 then xs.length + i else i) ≠ (k : Int)) →
        c.value (.index p e index) s = .ok null u)) ∧
    (∀ first last a b u w, c.Bounds first a t u → c.Bounds last b u w →
      ∃ part, c.value (.slice p e first last) s = .ok (whole part) w ∧
        IsPart xs (a.elim 0 (nearest · xs.length)) (b.elim (xs.length : Int) (nearest · xs.length))
          part) ∧
    (∀ k i u, fitsSigned i → c.value k t = .ok (ofInt i) u →
      ∃ front back, c.value (.slice p e none (some k)) s = .ok (whole front) u ∧
        c.value (.slice p e (some k) none) s = .ok (whole back) u ∧ front ++ back = xs) ∧
    (∀ i, fitsSigned i → fitsSigned xs.length ∧ fitsSigned (fromStart i xs.length)) ∧
    ∀ a b, (sliceBounds a b xs.length).1 ≤ (sliceBounds a b xs.length).2 ∧
      (sliceBounds a b xs.length).2 ≤ xs.length := by
  refine ⟨fun index i u hi hindex => ⟨fun k hk hplace => ?_, fun houtside => ?_⟩,
    fun first last a b u w hfirst hlast => ?_, fun k i u hi hk => ?_,
    fun i hi => fitsSigned_fromStart hi hlength, fun a b => sliceBounds_le a b xs.length⟩
  · rw [Surroundings.value_index he (h.ne_null xs) hindex, subscript?_whole h xs hi,
      normalizeIndex_of_place hlength hk hplace, Option.bind_some, List.getElem?_eq_getElem hk]
    rfl
  · rw [Surroundings.value_index he (h.ne_null xs) hindex, subscript?_whole h xs hi,
      normalizeIndex_of_outside houtside]
    rfl
  · exact ⟨part a b xs, Surroundings.value_slice he hfirst hlast (slice_whole h a b xs) p,
      isPart_part a b xs⟩
  · have hbound : c.Bounds (some k) (some i) t u := .integer hi hk
    refine ⟨part none (some i) xs, part (some i) none xs, ?_, ?_, part_append_part i xs⟩
    · exact Surroundings.value_slice he (.omitted t) hbound (slice_whole h none (some i) xs) p
    · exact Surroundings.value_slice he hbound (.omitted u) (slice_whole h (some i) none xs) p

/-- The last character of a text is found from the end, nothing is found before the first, and a
bound as low as can be is moved there. -/
theorem indexing_consistent_from_end :
    let c : Surroundings := ⟨.standard, [], none⟩
    let s : Session := ⟨[[("low", ofInt (-2 ^ 63)), ("last", ofInt (-1))]], [], 0⟩
    let e : Expr := .literal .start (.string (String.ofList ['a', 'é', 'z']))
    let low : Expr := .identifier .start "low"
    let last : Expr := .identifier .start "last"
    (fitsSigned (-2 ^ 63) ∧ fitsSigned (-1)) ∧
      c.value (.index .start e last) s = .ok (character 'z') s ∧
      c.value (.index .start e low) s = .ok null s ∧
      (∃ part, c.value (.slice .start e (some low) (some last)) s =
          .ok (string (String.ofList part)) s ∧ IsPart ['a', 'é', 'z'] 0 2 part) ∧
      ∃ front back, c.value (.slice .start e none (some last)) s =
          .ok (string (String.ofList front)) s ∧
        c.value (.slice .start e (some last) none) s = .ok (string (String.ofList back)) s ∧
        front ++ back = ['a', 'é', 'z'] := by
  intro c s e low last
  have hfits : fitsSigned (-2 ^ 63) ∧ fitsSigned (-1) := by decide
  have he : c.value e s = .ok (string (String.ofList ['a', 'é', 'z'])) s := rfl
  have hlow : c.value low s = .ok (ofInt (-2 ^ 63)) s := by rfl
  have hlast : c.value last s = .ok (ofInt (-1)) s := by rfl
  have hlength : ['a', 'é', 'z'].length < 2 ^ 63 := by decide
  obtain ⟨hindex, hslice, happend, -⟩ := indexing_consistent .string hlength he .start
  refine ⟨hfits, ?_, ?_, ?_, ?_⟩
  · exact (hindex last (-1) s hfits.2 hlast).1 2 (by decide) (by decide)
  · exact (hindex low (-2 ^ 63) s hfits.1 hlow).2 (by decide)
  · exact hslice _ _ _ _ s s (.integer hfits.1 hlow) (.integer hfits.2 hlast)
  · exact happend last (-1) s hfits.2 hlast

end EmbeddedLang.Render
