import EmbeddedLang.Proofs.Lexical.Respacing

/-!
One step of the scanner, in code and in front of a token.
-/

namespace EmbeddedLang

variable {t : LanguageTable} {c : Char} {cs : List Char} {kind : TokenKind} {n : Nat}

/-! ### No closing marker -/

theorem startsWith_cons_of_ne {marker : String} {d : Char} (hmarker : marker.toList.head? = some d)
    (hc : c ≠ d) : Text.startsWith (c :: cs) marker = false := by
  obtain ⟨tail, htail⟩ := List.head?_eq_some_iff.mp hmarker
  rw [Text.startsWith, htail, List.isPrefixOf_cons_cons, beq_false_of_ne hc.symm]
  rfl

theorem closer?_braces (hminus : c ≠ '-') (hpercent : c ≠ '%') (hbrace : c ≠ '\x7d') :
    closer? .braces (c :: cs) = none := by
  have hstatement : Text.startsWith (c :: cs) "%\x7d" = false := startsWith_cons_of_ne rfl hpercent
  have hecho : Text.startsWith (c :: cs) "\x7d\x7d" = false := startsWith_cons_of_ne rfl hbrace
  simp [closer?, Delimiters.braces, hminus, hstatement, hecho]

/-- What trims in front of a closing marker closes nothing by itself. -/
theorem closer?_minus (hpercent : c ≠ '%') (hbrace : c ≠ '\x7d') :
    closer? .braces ('-' :: c :: cs) = none := by
  have hstatement : Text.startsWith (c :: cs) "%\x7d" = false := startsWith_cons_of_ne rfl hpercent
  have hecho : Text.startsWith (c :: cs) "\x7d\x7d" = false := startsWith_cons_of_ne rfl hbrace
  have hstatement' : Text.startsWith ('-' :: c :: cs) "%\x7d" = false :=
    startsWith_cons_of_ne rfl (by decide)
  have hecho' : Text.startsWith ('-' :: c :: cs) "\x7d\x7d" = false :=
    startsWith_cons_of_ne rfl (by decide)
  simp [closer?, Delimiters.braces, hstatement, hecho, hstatement', hecho']

/-! ### Steps -/

namespace Scanner

/-- The scanner is in code, and its next token begins where the second one stands. -/
structure Ahead (t : LanguageTable) (s u : Scanner) : Prop where
  finished : s.finished = false
  mode : s.mode = .language
  trivia : skipTrivia t (s.rest.length + 1) s = (none, u)

variable {s u : Scanner}

theorem skipBlanks_eq_self (h : ∀ c ∈ s.rest.head?, Text.isBlank c = false) :
    s.skipBlanks = s := by
  have hrun : runLength Text.isBlank s.rest = 0 := by
    cases hrest : s.rest with
    | nil => rfl
    | cons c cs =>
      rw [hrest] at h
      rw [runLength, List.takeWhile_cons_of_neg (by simp [h c rfl]), List.length_nil]
  rw [skipBlanks, hrun, skip_zero]

/-- In front of a token there is nothing to pass over. -/
theorem Ahead.self (hfinished : s.finished = false) (hmode : s.mode = .language)
    (hblank : ∀ c ∈ s.rest.head?, Text.isBlank c = false)
    (hcomment : comment t s.rest = .absent) : Ahead t s s where
  finished := hfinished
  mode := hmode
  trivia := by rw [skipTrivia, skipBlanks_eq_self hblank, hcomment]

theorem Ahead.space (hfinished : s.finished = false) (hmode : s.mode = .language)
    (hs : s.rest = ' ' :: c :: cs) (hblank : Text.isBlank c = false)
    (hcomment : comment t (c :: cs) = .absent) :
    Ahead t s { s with rest := c :: cs, position := s.position.advance ' ' } := by
  have hrun : runLength Text.isBlank s.rest = 1 := by
    rw [hs, runLength, List.takeWhile_cons_of_pos (by decide),
      List.takeWhile_cons_of_neg (by simp [hblank]), List.length_singleton]
  have hskip : s.skipBlanks = { s with rest := c :: cs, position := s.position.advance ' ' } := by
    rw [skipBlanks, hrun, skip, hs]
    rfl
  refine ⟨hfinished, hmode, ?_⟩
  rw [skipTrivia, hskip, hcomment]

theorem Ahead.kept (h : Ahead t s u) : u.finished = false ∧ u.mode = .language := by
  obtain ⟨rest, position, hstate, -, -⟩ := covers_skipTrivia t (s.rest.length + 1) s
  rw [h.trivia] at hstate
  obtain rfl : u = _ := hstate
  exact ⟨h.finished, h.mode⟩

theorem Ahead.length_le (h : Ahead t s u) : u.rest.length ≤ s.rest.length := by
  obtain ⟨rest, position, hstate, hcovers, -⟩ := covers_skipTrivia t (s.rest.length + 1) s
  rw [h.trivia] at hstate
  obtain rfl : u = _ := hstate
  exact hcovers.length_le

theorem Ahead.step_eq (h : Ahead t s u) : s.step t = u.nextToken t := by
  rw [step, h.mode]
  change s.nextLanguage t = _
  rw [nextLanguage, h.trivia]

theorem next_of_step {token : Token} (hfinished : s.finished = false)
    (hstep : s.step t = (.ok (some token), u)) : s.next t = (some (.ok token), u) := by
  rw [next, hfinished, hstep]
  rfl

/-- The scanner behind a token, in front of `rest`. -/
def behind (u : Scanner) (token : Token) (rest : List Char) : Scanner :=
  { u with
    rest := rest
    position := u.position.advanceAll token.lexeme.toList
    openBraces := bracesAfter token.kind u.openBraces }

theorem Ahead.next_eq {lexeme : String} {rest : List Char} (h : Ahead t s u)
    (hu : u.rest = lexeme.toList ++ rest) (hlexeme : lexeme.toList = c :: cs)
    (hcloser : t.delimiters.bind (closer? · (c :: (cs ++ rest))) = none)
    (hread : read t c (cs ++ rest) = .token kind lexeme.length) :
    s.next t = (some (.ok ⟨kind, lexeme, u.position⟩),
      u.behind ⟨kind, lexeme, u.position⟩ rest) := by
  have hstep : s.step t = u.accept (.token kind lexeme.length) := by
    rw [h.step_eq, nextToken, hu, hlexeme]
    simp only [List.cons_append, hcloser, ite_self, hread]
  have htake : u.rest.take lexeme.length = lexeme.toList := by
    rw [hu, ← String.length_toList, List.take_left]
  have hdrop : u.rest.drop lexeme.length = rest := by
    rw [hu, ← String.length_toList, List.drop_left]
  rw [accept, cut, skip, htake, hdrop, String.ofList_toList] at hstep
  exact next_of_step h.finished hstep

theorem next_nil (ht : t.Marked) (hfinished : s.finished = false) (hmode : s.mode = .language)
    (hrest : s.rest = []) : s.next t = (none, { s with finished := true }) := by
  have hself : s.Ahead t s := by
    apply Ahead.self hfinished hmode
    · rw [hrest]
      simp
    · rw [hrest]
      exact comment_nil ht
  have hstep : s.step t = (.ok none, s) := by rw [hself.step_eq, nextToken, hrest]
  rw [next, hfinished, hstep]
  rfl

/-! ### Runs -/

/-- Some tokens, one after the other, and the scanner behind them. -/
inductive Emits (t : LanguageTable) : Scanner → List Token → Scanner → Prop where
  | nil (s : Scanner) : Emits t s [] s
  | cons {s s' u : Scanner} {token : Token} {ts : List Token}
      (h : s.next t = (some (.ok token), s')) (hlt : s'.rest.length < s.rest.length)
      (hs : Emits t s' ts u) : Emits t s (token :: ts) u

theorem Emits.append {v : Scanner} {ts us : List Token} (h : Emits t s ts u)
    (h' : Emits t u us v) : Emits t s (ts ++ us) v := by
  induction h with
  | nil => exact h'
  | cons h hlt _ ih => exact .cons h hlt (ih h')

/-- Enough steps are allowed, as each takes a character. -/
theorem Emits.scanFrom_eq {ts : List Token} {last : Scanner} (h : Emits t s ts u)
    (hend : u.next t = (none, last)) {fuel : Nat} (hfuel : s.rest.length < fuel) :
    scanFrom t fuel s = ⟨ts, none, last.position⟩ := by
  induction h generalizing fuel with
  | nil s =>
    obtain ⟨fuel, rfl⟩ := Nat.exists_eq_succ_of_ne_zero (Nat.ne_zero_of_lt hfuel)
    rw [scanFrom, hend]
  | cons h hlt _ ih =>
    obtain ⟨fuel, rfl⟩ := Nat.exists_eq_succ_of_ne_zero (Nat.ne_zero_of_lt hfuel)
    rw [scanFrom, h]
    dsimp only
    rw [ih hend (by omega)]

end Scanner

end EmbeddedLang
