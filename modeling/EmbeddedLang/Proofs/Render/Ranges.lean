import EmbeddedLang.Proofs.Render.Builtins
import EmbeddedLang.Proofs.Value.Ranges

/-!
The range operator and the range function list the same, and the function runs over the integers
that it is given.
-/

namespace EmbeddedLang.Render

open Value

/-- The bounds and the step that the function is given. A bound that is given alone is the end. -/
structure Supplied (args : Arguments) (a b s : Int) : Prop where
  bounds : args.get? 0 "start" = some (ofInt a) ∧ args.get? 1 "end" = some (ofInt b) ∨
    a = 0 ∧ args.get? 0 "start" = some (ofInt b) ∧ args.get? 1 "end" = none
  step : args.get? 2 "step" = some (ofInt s) ∨ args.get? 2 "step" = none ∧ s = 1
  fits : fitsSigned a ∧ fitsSigned b ∧ fitsSigned s

theorem rangeFunction_supplied {args : Arguments} {a b s : Int} (h : Supplied args a b s) :
    rangeFunction args =
      if s ≤ 0 then .error (.type "range step must be positive") else integerRange a b s.toNat := by
  obtain ⟨hgiven, hstep, ha, hb, hs⟩ := h
  have hbounds : rangeBounds ((args.get? 0 "start").bind signed?)
      ((args.get? 1 "end").bind signed?) = .ok (a, b) := by
    rcases hgiven with ⟨hstart, hend⟩ | ⟨rfl, hstart, hend⟩
    · rw [hstart, hend, Option.bind_some, Option.bind_some, signed?_ofInt ha, signed?_ofInt hb]
      rfl
    · rw [hstart, hend, Option.bind_some, signed?_ofInt hb]
      rfl
  have hstep : ((args.get? 2 "step").bind signed?).getD 1 = s := by
    rcases hstep with hstep | ⟨hstep, rfl⟩
    · rw [hstep, Option.bind_some, signed?_ofInt hs]
      rfl
    · rw [hstep]
      rfl
  unfold rangeFunction
  dsimp only
  rw [hbounds, hstep]
  change (if s ≤ 0 then _ else _) = _
  split <;> rfl

theorem rangeFunction_no_start {args : Arguments}
    (h : ∀ v ∈ args.get? 0 "start", signed? v = none) :
    rangeFunction args = .error (.type "range requires integer bounds") := by
  have hstart : (args.get? 0 "start").bind signed? = none := Option.bind_eq_none_iff.mpr h
  unfold rangeFunction
  dsimp only
  rw [hstart]
  rfl

theorem supplied_of_signed {args : Arguments} {n : Int}
    (hstart : args.get? 0 "start" = some (ofInt n)) (hn : fitsSigned n)
    (hend : ∀ v ∈ args.get? 1 "end", (signed? v).isSome)
    (hstep : ∀ v ∈ args.get? 2 "step", (signed? v).isSome) : ∃ a b s, Supplied args a b s := by
  have hsigned {v : Option Value} (h : ∀ w ∈ v, (signed? w).isSome) :
      v = none ∨ ∃ n, v = some (ofInt n) ∧ fitsSigned n := by
    cases v with
    | none => exact .inl rfl
    | some w =>
      obtain ⟨n, hn⟩ := Option.isSome_iff_exists.mp (h w rfl)
      obtain ⟨rfl, hfits⟩ := signed?_eq_some hn
      exact .inr ⟨n, rfl, hfits⟩
  have hstep : ∃ s, (args.get? 2 "step" = some (ofInt s) ∨ args.get? 2 "step" = none ∧ s = 1) ∧
      fitsSigned s := by
    rcases hsigned hstep with hnone | ⟨s, hs, hfits⟩
    · exact ⟨1, .inr ⟨hnone, rfl⟩, by decide⟩
    · exact ⟨s, .inl hs, hfits⟩
  obtain ⟨s, hs, hfits⟩ := hstep
  rcases hsigned hend with hnone | ⟨b, hb, hfits'⟩
  · exact ⟨0, n, s, .inr ⟨rfl, hstart, hnone⟩, hs, by decide, hn, hfits⟩
  · exact ⟨n, b, s, .inl ⟨hstart, hb⟩, hs, hn, hfits', hfits⟩

theorem called_range {args : Arguments} {a b s : Int} (h : Supplied args a b s) :
    called "range" args =
      some (if s ≤ 0 then .error (.type "range step must be positive")
        else if 100000 ≤ (a - b).natAbs / s.toNat then .error (.type "range is too large")
        else .ok (array ((stepped a b s.toNat).map ofInt))) := by
  rw [← integerRange_eq, ← rangeFunction_supplied h]
  rfl

/-- The function refuses a start that is no signed integer, and runs over what it is supplied with.
Where an end and a step that are supplied are signed integers too, every result is such a run. -/
theorem range_uses_arguments (args : Arguments) :
    ((∀ v ∈ args.get? 0 "start", signed? v = none) →
      called "range" args = some (.error (.type "range requires integer bounds"))) ∧
    (∀ a b s, Supplied args a b s →
      (s ≤ 0 → called "range" args = some (.error (.type "range step must be positive"))) ∧
      (0 < s → 100000 ≤ (a - b).natAbs / s.toNat →
        called "range" args = some (.error (.type "range is too large"))) ∧
      (0 < s → (a - b).natAbs / s.toNat < 100000 →
        ∃ ns, called "range" args = some (.ok (array (ns.map ofInt))) ∧ Counts a b s.toNat ns)) ∧
    ((∀ v ∈ args.get? 1 "end", (signed? v).isSome) →
      (∀ v ∈ args.get? 2 "step", (signed? v).isSome) →
      ∀ result, called "range" args = some (.ok result) →
        ∃ a b s ns, Supplied args a b s ∧ 0 < s ∧ result = array (ns.map ofInt) ∧
          Counts a b s.toNat ns) := by
  have hrefused (h : ∀ v ∈ args.get? 0 "start", signed? v = none) :
      called "range" args = some (.error (.type "range requires integer bounds")) :=
    congrArg some (rangeFunction_no_start h)
  refine ⟨hrefused, fun a b s h => ?_, fun hend hstep result hresult => ?_⟩
  · rw [called_range h]
    refine ⟨fun hs => ?_, fun hs hlarge => ?_, fun hs hsmall => ?_⟩
    · rw [if_pos hs]
    · rw [if_neg (by omega), if_pos hlarge]
    · rw [if_neg (by omega), if_neg (by omega)]
      exact ⟨_, rfl, counts_stepped a b (by omega)⟩
  · by_cases hstart : ∀ v ∈ args.get? 0 "start", signed? v = none
    · rw [hrefused hstart] at hresult
      cases hresult
    · obtain ⟨v, hstart⟩ := not_forall.mp hstart
      obtain ⟨hv, hsigned⟩ := Classical.not_imp.mp hstart
      obtain ⟨n, hn⟩ := Option.ne_none_iff_exists'.mp hsigned
      obtain ⟨rfl, hfits⟩ := signed?_eq_some hn
      obtain ⟨a, b, s, h⟩ := supplied_of_signed hv hfits hend hstep
      rw [called_range h] at hresult
      split_ifs at hresult with hs hlarge
      · cases hresult
      · cases hresult
      · exact ⟨a, b, s, _, h, by omega, (Except.ok.inj (Option.some.inj hresult)).symm,
          counts_stepped a b (by omega)⟩

theorem range_uses_arguments_named :
    let args : Arguments := ⟨[ofInt 1], [("end", ofInt 7), ("step", ofInt 3)]⟩
    Supplied args 1 7 3 ∧
      ∃ ns, called "range" args = some (.ok (array (ns.map ofInt))) ∧ Counts 1 7 3 ns ∧
        ∃ a b s ns', Supplied args a b s ∧ 0 < s ∧
          array (ns.map ofInt) = array (ns'.map ofInt) ∧ Counts a b s.toNat ns' := by
  intro args
  have hsupplied : Supplied args 1 7 3 := ⟨.inl ⟨rfl, rfl⟩, .inl rfl, by decide⟩
  obtain ⟨-, hexact, hrun⟩ := range_uses_arguments args
  obtain ⟨ns, hok, hcounts⟩ := (hexact 1 7 3 hsupplied).2.2 (by decide) (by decide)
  refine ⟨hsupplied, ns, hok, hcounts, hrun ?_ ?_ _ hok⟩
  · exact fun v hv => Option.some.inj hv ▸ rfl
  · exact fun v hv => Option.some.inj hv ▸ rfl

/-- A text is given for the end, and one for the step. -/
theorem range_ignores_arguments :
    called "range" (.ofList [ofInt 1, string "x"]) = some (.ok (array [ofInt 0, ofInt 1])) ∧
      called "range" (.ofList [ofInt 1, ofInt 2, string "x"]) =
        some (.ok (array [ofInt 1, ofInt 2])) :=
  ⟨rfl, rfl⟩

/-! ### Operator and function -/

theorem ranges_agree {a b s : Int} (ha : fitsSigned a) (hb : fitsSigned b) (hs : fitsSigned s)
    (hpos : 1 ≤ s) (c d : Char) :
    (called "range" (.ofList [ofInt a, ofInt b]) = some (binary .range (ofInt a) (ofInt b)) ∧
      (100000 ≤ (a - b).natAbs →
        binary .range (ofInt a) (ofInt b) = .error (.type "range is too large")) ∧
      ((a - b).natAbs < 100000 →
        ∃ ns, binary .range (ofInt a) (ofInt b) = .ok (array (ns.map ofInt)) ∧
          Counts a b 1 ns ∧ ns.length = (a - b).natAbs + 1 ∧
          binary .range (ofInt b) (ofInt a) = .ok (array (ns.map ofInt).reverse))) ∧
    ((100000 ≤ (a - b).natAbs / s.toNat →
        called "range" (.ofList [ofInt a, ofInt b, ofInt s]) =
          some (.error (.type "range is too large"))) ∧
      ((a - b).natAbs / s.toNat < 100000 →
        ∃ ns, called "range" (.ofList [ofInt a, ofInt b, ofInt s]) =
            some (.ok (array (ns.map ofInt))) ∧
          Counts a b s.toNat ns ∧ ∀ n ∈ ns, fitsSigned n) ∧
      (a - b).natAbs < 2 ^ 64) ∧
    (100000 ≤ ((c.toNat : Int) - d.toNat).natAbs →
      binary .range (character c) (character d) = .error (.type "range is too large")) ∧
    (((c.toNat : Int) - d.toNat).natAbs < 100000 →
      ∃ cs : List Char, binary .range (character c) (character d) = .ok (array (cs.map character)) ∧
        (∀ x, x ∈ cs ↔ (c ≤ x ∧ x ≤ d) ∨ (d ≤ x ∧ x ≤ c)) ∧
        (c ≤ d → cs.Pairwise (· < ·)) ∧
        binary .range (character d) (character c) = .ok (array (cs.map character).reverse)) := by
  have hsupplied : Supplied (.ofList [ofInt a, ofInt b]) a b 1 :=
    ⟨.inl ⟨rfl, rfl⟩, .inr ⟨rfl, rfl⟩, ha, hb, by decide⟩
  have hsupplied' : Supplied (.ofList [ofInt a, ofInt b, ofInt s]) a b s :=
    ⟨.inl ⟨rfl, rfl⟩, .inl rfl, ha, hb, hs⟩
  refine ⟨⟨?_, fun hlarge => ?_, fun hsmall => ?_⟩, ⟨fun hlarge => ?_, fun hsmall => ?_, ?_⟩,
    fun hlarge => ?_, fun hsmall => ?_⟩
  · rw [called_range hsupplied, range_integers ha hb, if_neg (by decide), Int.toNat_one, Nat.div_one]
  · rw [range_integers ha hb, if_pos hlarge]
  · refine ⟨stepped a b 1, ?_, counts_stepped a b Nat.one_pos, ?_, ?_⟩
    · rw [range_integers ha hb, if_neg (by omega)]
    · rw [length_stepped, Nat.div_one]
      omega
    · rw [range_integers hb ha, if_neg (by omega), ← List.map_reverse, reverse_stepped_one]
  · rw [called_range hsupplied', if_neg (by omega), if_pos hlarge]
  · refine ⟨stepped a b s.toNat, ?_, counts_stepped a b (by omega), fun n hn => ?_⟩
    · rw [called_range hsupplied', if_neg (by omega), if_neg (by omega)]
    · have hbounds := (counts_stepped a b (by omega)).mem_bounds hn
      rw [fitsSigned_iff] at ha hb ⊢
      omega
  · rw [fitsSigned_iff] at ha hb
    omega
  · rw [range_characters, if_pos hlarge]
  · refine ⟨characters c d, ?_, fun x => mem_characters, pairwise_characters, ?_⟩
    · rw [range_characters, if_neg (by omega)]
    · rw [range_characters, if_neg (by omega), ← List.map_reverse, reverse_characters]

theorem ranges_agree_at_limits :
    binary .range (ofInt (-2 ^ 63)) (ofInt (2 ^ 63 - 1)) = .error (.type "range is too large") ∧
      (∃ ns, called "range" (.ofList [ofInt (-2 ^ 63), ofInt (2 ^ 63 - 1), ofInt (2 ^ 63 - 1)]) =
          some (.ok (array (ns.map ofInt))) ∧
        Counts (-2 ^ 63) (2 ^ 63 - 1) (2 ^ 63 - 1) ns ∧ ∀ n ∈ ns, fitsSigned n) ∧
      ∃ cs : List Char, binary .range (character 'z') (character 'x') =
          .ok (array (cs.map character)) ∧ 'y' ∈ cs := by
  obtain ⟨⟨-, hlarge, -⟩, ⟨-, hsteps, -⟩, -, hcharacters⟩ :=
    @ranges_agree (-2 ^ 63) (2 ^ 63 - 1) (2 ^ 63 - 1) (by decide) (by decide) (by decide) (by decide)
      'z' 'x'
  obtain ⟨cs, hok, hmem, -⟩ := hcharacters (by decide)
  exact ⟨hlarge (by decide), hsteps (by decide), cs, hok, (hmem 'y').mpr (by decide)⟩

end EmbeddedLang.Render
