import EmbeddedLang.Lexical.Scanner

/-!
What the lexemes of names and of numbers look like.
-/

namespace EmbeddedLang

/-- ASCII letters, digits and underscores, with no digit in front. -/
def IsWord (s : String) : Prop :=
  (∃ c ∈ s.toList.head?, isWordStart c) ∧ ∀ c ∈ s.toList, isWordChar c

instance (s : String) : Decidable (IsWord s) :=
  decidable_of_iff (s.toList.head?.any isWordStart ∧ s.toList.all isWordChar) <| by
    rw [Option.any_eq_true, List.all_eq_true]
    rfl

def IsNumber (s : String) : Prop :=
  s.toList ≠ [] ∧ ∀ c ∈ s.toList, c.isDigit

/-- What is read as a name is a word, and what is read as an integer a number. -/
structure Token.WellShaped (t : Token) : Prop where
  word : t.kind = .identifier → IsWord t.lexeme
  number : t.kind = .integer → IsNumber t.lexeme

/-- Tokens of the other kinds may have any lexeme. -/
theorem Token.WellShaped.of_kind {t : Token} (hw : t.kind ≠ .identifier)
    (hn : t.kind ≠ .integer) : t.WellShaped :=
  ⟨fun h => absurd h hw, fun h => absurd h hn⟩

/-! ### Upper case -/

theorem isUpper_toUpper {c : Char} (h : c.isLower) : c.toUpper.isUpper := by
  have hc : 97 ≤ c.toNat ∧ c.toNat ≤ 122 := by
    unfold Char.isLower at h
    simpa [UInt32.le_iff_toNat_le] using h
  unfold Char.toUpper Char.isUpper
  split
  · simp [UInt32.le_iff_toNat_le, UInt32.toNat_add]
    omega
  · rename_i hn
    simp [UInt32.le_iff_toNat_le] at hn
    omega

theorem toUpper_eq_self {c : Char} (h : c.isLower = false) : c.toUpper = c := by
  apply dif_neg
  unfold Char.isLower at h
  simpa using h

theorem isAlpha_toUpper (c : Char) : c.toUpper.isAlpha = c.isAlpha := by
  cases h : c.isLower with
  | false => rw [toUpper_eq_self h]
  | true =>
    unfold Char.isAlpha
    rw [isUpper_toUpper h, h, Bool.true_or, Bool.or_true]

theorem toUpper_eq_self_of_not_isAlpha {c : Char} (h : c.isAlpha = false) : c.toUpper = c :=
  toUpper_eq_self (Bool.or_eq_false_iff.mp h).2

theorem isWordStart_toUpper {c : Char} (h : isWordStart c) : isWordStart c.toUpper := by
  unfold isWordStart at h ⊢
  rw [isAlpha_toUpper]
  cases ha : c.isAlpha with
  | true => rfl
  | false =>
    rw [toUpper_eq_self_of_not_isAlpha ha]
    rwa [ha] at h

theorem isWordChar_toUpper {c : Char} (h : isWordChar c) : isWordChar c.toUpper := by
  unfold isWordChar Char.isAlphanum at h ⊢
  rw [isAlpha_toUpper]
  cases ha : c.isAlpha with
  | true => rfl
  | false =>
    rw [toUpper_eq_self_of_not_isAlpha ha]
    rwa [ha] at h

theorem IsWord.map_toUpper {s : String} (h : IsWord s) : IsWord (s.map Char.toUpper) := by
  obtain ⟨⟨c, hc, hstart⟩, hchars⟩ := h
  unfold IsWord
  rw [String.toList_map]
  refine ⟨⟨c.toUpper, ?_, isWordStart_toUpper hstart⟩, ?_⟩
  · rw [List.head?_map, hc]
    rfl
  · intro c hc
    obtain ⟨c, hmem, rfl⟩ := List.mem_map.mp hc
    exact isWordChar_toUpper (hchars c hmem)

/-! ### Readings -/

theorem take_length_takeWhile {α : Type} (p : α → Bool) (xs : List α) :
    xs.take (xs.takeWhile p).length = xs.takeWhile p :=
  (List.prefix_iff_eq_take.mp (List.takeWhile_prefix p)).symm

variable {t : LanguageTable} {c : Char} {rest : List Char} {kind : TokenKind} {n : Nat}

theorem isWordChar_of_isWordStart (hc : isWordStart c) : isWordChar c := by
  unfold isWordStart at hc
  unfold isWordChar Char.isAlphanum
  rcases Bool.or_eq_true_iff.mp hc with h | h <;> simp [h]

theorem isWord_takeWhile (hc : isWordStart c) :
    IsWord (String.ofList ((c :: rest).takeWhile isWordChar)) := by
  have hchar : isWordChar c := isWordChar_of_isWordStart hc
  unfold IsWord
  rw [String.toList_ofList]
  refine ⟨⟨c, ?_, hc⟩, List.all_eq_true.mp List.all_takeWhile⟩
  rw [List.takeWhile_cons_of_pos hchar]
  rfl

theorem isNumber_takeWhile (hc : c.isDigit) :
    IsNumber (String.ofList ((c :: rest).takeWhile Char.isDigit)) := by
  unfold IsNumber
  rw [String.toList_ofList]
  refine ⟨?_, List.all_eq_true.mp List.all_takeWhile⟩
  rw [List.takeWhile_cons_of_pos hc]
  exact List.cons_ne_nil _ _

theorem readWord_wellShaped (hc : isWordStart c)
    (h : readWord t (c :: rest) = .token kind n) (p : Position) :
    Token.WellShaped ⟨kind, String.ofList ((c :: rest).take n), p⟩ := by
  unfold readWord at h
  dsimp only at h
  split at h
  · cases h
    exact .of_kind (by simp) (by simp)
  · cases h
    refine ⟨fun _ => ?_, fun h => TokenKind.noConfusion h⟩
    dsimp only
    rw [take_length_takeWhile]
    exact isWord_takeWhile hc

theorem numberLength_wellShaped (hc : c.isDigit) (p : Position) :
    Token.WellShaped ⟨(numberLength (c :: rest)).1,
      String.ofList ((c :: rest).take (numberLength (c :: rest)).2), p⟩ := by
  unfold numberLength
  dsimp only
  split
  · rename_i hnone
    refine ⟨fun h => TokenKind.noConfusion h, fun _ => ?_⟩
    dsimp only
    rw [hnone.2, hnone.1, Nat.add_zero]
    unfold runLength
    rw [take_length_takeWhile]
    exact isNumber_takeWhile hc
  · exact .of_kind (by simp) (by simp)

theorem read_wellShaped (h : read t c rest = .token kind n) (p : Position) :
    Token.WellShaped ⟨kind, String.ofList ((c :: rest).take n), p⟩ := by
  unfold read at h
  split at h
  · unfold readString at h
    split at h <;> cases h
    exact .of_kind (by simp) (by simp)
  split at h
  · rename_i hdigit
    cases h
    exact numberLength_wellShaped hdigit p
  split at h
  · rename_i hword
    exact readWord_wellShaped hword h p
  split at h
  · unfold readBracketed at h
    dsimp only at h
    split at h <;> cases h
    exact .of_kind (by simp) (by simp)
  split at h
  · cases h
    exact .of_kind (by simp) (by simp)
  · unfold readOperator at h
    split at h <;> cases h
    exact .of_kind (by simp) (by simp)

/-! ### The scanner -/

namespace Scanner

/-- The token of a step, if there is one, has the shape of its kind. -/
def Shaped (step : Step) : Prop :=
  ∀ token, step.1 = .ok (some token) → token.WellShaped

theorem shaped_of_kind {s s' : Scanner} (hw : kind ≠ .identifier) (hn : kind ≠ .integer) :
    Shaped (.ok (some (s.cut kind n)), s') := by
  intro token h
  cases h
  exact .of_kind hw hn

theorem shaped_none {s : Scanner} : Shaped (.ok none, s) := by
  intro token h
  cases h

theorem shaped_error {s : Scanner} {e : CompileError} : Shaped (.error e, s) := by
  intro token h
  cases h

theorem nextRaw_shaped (d : Delimiters) (fuel : Nat) (s : Scanner) :
    Shaped (nextRaw d fuel s) := by
  induction fuel generalizing s with
  | zero => exact shaped_none
  | succ fuel ih =>
    rw [nextRaw]
    dsimp only
    generalize (if s.trimNextRaw then { s.skipBlanks with trimNextRaw := false } else s) = s
    split
    · exact shaped_none
    split
    · exact shaped_of_kind (by simp) (by simp)
    rename_i m marker _
    generalize ((s.rest.drop (m + marker.length)).head? == some d.trim) = trims
    generalize (if trims then Text.trimEnd (s.rest.take m) else s.rest.take m) = text
    split
    · exact shaped_of_kind (by simp) (by simp)
    split
    · split
      · exact shaped_error
      · exact ih _
    · apply shaped_of_kind <;> split <;> simp

theorem closer?_kind {d : Delimiters} {cs : List Char} {trims : Bool}
    (h : closer? d cs = some (kind, n, trims)) : kind ≠ .identifier ∧ kind ≠ .integer := by
  unfold closer? at h
  dsimp only at h
  rcases Option.or_eq_some_iff.mp h with h | ⟨_, h⟩ <;> split at h <;> try split at h
  all_goals cases h
  all_goals simp

theorem nextToken_shaped (s : Scanner) : Shaped (s.nextToken t) := by
  unfold nextToken
  split
  · exact shaped_none
  · rename_i c rest hrest
    dsimp only
    split
    · rename_i kind n trims hcloser
      have hkind : ∃ d, closer? d s.rest = some (kind, n, trims) := by
        split at hcloser
        · cases hcloser
        · obtain ⟨d, _, hd⟩ := Option.bind_eq_some_iff.mp hcloser
          exact ⟨d, hd⟩
      obtain ⟨d, hd⟩ := hkind
      exact shaped_of_kind (closer?_kind hd).1 (closer?_kind hd).2
    · cases hread : read t c rest with
      | unterminated n => exact shaped_error
      | unexpected c => exact shaped_error
      | token kind n =>
        intro token h
        cases h
        unfold cut
        rw [hrest]
        exact read_wellShaped hread s.position

theorem step_shaped (s : Scanner) : Shaped (s.step t) := by
  unfold step
  split
  · exact nextRaw_shaped _ _ s
  · unfold nextLanguage
    split
    · exact shaped_error
    · exact nextToken_shaped _

end Scanner

/-- What holds of the tokens of single steps holds of all tokens. -/
theorem scanFrom_forall {P : Token → Prop}
    (h : ∀ (s s' : Scanner) (token : Token), s.step t = (.ok (some token), s') → P token)
    (fuel : Nat) (s : Scanner) : ∀ token ∈ (scanFrom t fuel s).tokens, P token := by
  induction fuel generalizing s with
  | zero => simp [scanFrom]
  | succ fuel ih =>
    rw [scanFrom, Scanner.next]
    by_cases hfinished : s.finished
    · simp [hfinished]
    · rw [if_neg hfinished]
      cases hstep : s.step t with
      | mk outcome s' =>
        cases outcome with
        | error e => simp
        | ok token =>
          cases token with
          | none => simp
          | some token => exact List.forall_mem_cons.mpr ⟨h s s' token hstep, ih s'⟩

theorem scan_wellShaped (t : LanguageTable) (source : String) :
    ∀ token ∈ (scan t source).tokens, token.WellShaped :=
  scanFrom_forall (fun s _ token h => Scanner.step_shaped s token (congrArg Prod.fst h)) _ _

end EmbeddedLang
