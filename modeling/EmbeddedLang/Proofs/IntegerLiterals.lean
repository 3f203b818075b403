import EmbeddedLang.Proofs.Parser.Integers
import EmbeddedLang.Proofs.Template.Markers
import EmbeddedLang.Template.Parsing

/-!
Integers in the three languages.

In a template an integer stands between the marks of an output.
-/

namespace EmbeddedLang

open Parse

/-! ### The grammars -/

theorem Arithmetic.grammar_readsIntegers : Arithmetic.grammar.ReadsIntegers where
  operators := by decide
  minus := ⟨_, rfl, rfl⟩
  primaryForm _ {c token ts} _ := .pure none (c.before (token :: ts))
  infixForm _ _ _ {c} _ := .pure none c

theorem Query.grammar_readsIntegers : Query.grammar.ReadsIntegers where
  operators := by decide
  minus := ⟨_, rfl, rfl⟩
  primaryForm below {c token ts} h := by
    apply peek_before.bind
    dsimp only
    rw [h]
    exact .pure none _
  infixForm below e floor {c} h := by
    change Gives (Query.infixForm below e floor) c none c
    unfold Query.infixForm
    split
    · exact .pure none c
    · apply (peek_gives h.fault).bind
      cases htoken : c.tokens.head? with
      | none => exact .pure none c
      | some token =>
        have hkeyword := token.isKeyword_eq_false (h.symbol? token htoken)
        dsimp only
        rw [hkeyword, if_neg Bool.false_ne_true, pure_bind]
        dsimp only
        rw [hkeyword, hkeyword, hkeyword]
        exact .pure none c

theorem Template.grammar_readsIntegers : Template.grammar.ReadsIntegers where
  operators := by decide
  minus := ⟨_, rfl, rfl⟩
  primaryForm below {c token ts} h := by
    have hat : Gives (atOperator "\x7b") (c.before (token :: ts)) false
        (c.before (token :: ts)) := by
      apply peek_before.bind
      change Gives (pure (token.kind == .operator "\x7b")) _ _ _
      rw [h]
      exact .pure false _
    exact hat.bind (.pure none _)
  infixForm below e floor {c} h := by
    apply (peek_gives h.fault).bind
    cases htoken : c.tokens.head? with
    | none => exact .pure none c
    | some token =>
      have hoperator := token.isOperator_eq_false (h.symbol? token htoken)
      have hkeyword := token.isKeyword_eq_false (h.symbol? token htoken)
      dsimp only
      rw [hoperator, hkeyword, hoperator]
      exact .pure none c

/-! ### Outputs -/

namespace Template

theorem scan_output (i : Int64) : ∃ p q,
    scan table ("\x7b\x7b " ++ toString i ++ " \x7d\x7d") =
      ⟨⟨.openEcho, "\x7b\x7b", .start⟩ ::
        (integerTokens ⟨1, 4, 3⟩ i ++ [⟨.closeEcho, "\x7d\x7d", p⟩]), none, q⟩ := by
  have hsource : ("\x7b\x7b " ++ toString i ++ " \x7d\x7d").toList =
      '\x7b' :: '\x7b' :: ' ' :: ((toString i).toList ++ [' ', '\x7d', '\x7d']) := by
    rw [String.toList_append, String.toList_append]
    rfl
  rw [scan, hsource]
  -- the scanner at the start, behind the opening mark, behind the digits, and at the closing mark
  let s₀ : Scanner := .start table
    ('\x7b' :: '\x7b' :: ' ' :: ((toString i).toList ++ [' ', '\x7d', '\x7d']))
  let s₁ : Scanner := { s₀ with
    rest := ' ' :: ((toString i).toList ++ [' ', '\x7d', '\x7d'])
    position := ⟨1, 3, 2⟩
    mode := .language }
  let s₂ : Scanner := { s₁ with
    rest := [' ', '\x7d', '\x7d']
    position := Position.advanceAll ⟨1, 4, 3⟩ (toString i).toList }
  let s₃ : Scanner := { s₂ with
    rest := ['\x7d', '\x7d']
    position := s₂.position.advance ' ' }
  have hopen : s₀.next table = (some (.ok ⟨.openEcho, "\x7b\x7b", .start⟩), s₁) := by
    have htext : InText s₀
        ('\x7b' :: '\x7b' :: ' ' :: ((toString i).toList ++ [' ', '\x7d', '\x7d'])) :=
      ⟨rfl, rfl, rfl, rfl⟩
    exact htext.next_opener (by simp) (by decide)
  have hdigits : Scanner.Emits table s₁ (integerTokens ⟨1, 4, 3⟩ i) s₂ :=
    Scanner.emits_integer template_counts
      (Scanner.ahead_spaced_integer template_counts rfl rfl rfl) rfl (separated_cons _)
  let s₄ : Scanner := { s₃ with
    rest := []
    position := (s₃.position.advance '\x7d').advance '\x7d'
    mode := .raw }
  have hclose : s₂.next table = (some (.ok ⟨.closeEcho, "\x7d\x7d", s₃.position⟩), s₄) := by
    have hmarker : '\x7d' ∈ ['%', '\x7d'] := by decide
    have hahead : s₂.Ahead table s₃ := .space rfl rfl rfl (by decide) rfl
    exact next_closer hmarker hahead rfl rfl
  have hemits := Scanner.Emits.cons hopen (by simp [s₀, s₁, Scanner.start])
    (hdigits.append (.cons hclose (by simp [s₂, s₄]) (.nil _)))
  have htext : InText s₄ [] := ⟨rfl, rfl, rfl, rfl⟩
  exact ⟨s₃.position, _, hemits.scanFrom_eq htext.next_nil (Nat.lt_succ_self _)⟩

end Template

/-! ### Literals -/

/-- What an integer is read as that is written at `p`. -/
def integerAt (p : Position) (i : Int64) : Except CompileError Expr :=
  if i = Int64.minValue then
    .error (.invalidConstruct (p.advance '-') "integer literal out of range")
  else .ok (.literal p (.integer i))

theorem parseExpression_integer {g : Grammar} (hg : g.ReadsIntegers) (ht : g.table.Counts)
    (hd : g.table.delimiters = none) (i : Int64) :
    parseExpression g (toString i) = integerAt .start i := by
  let c : Cursor := ⟨[], none, Position.start.advanceAll (toString i).toList⟩
  have hsource : Cursor.ofSource g.table (toString i) = c.before (integerTokens .start i) := by
    rw [Cursor.ofSource, scan_integer ht hd]
    simp [Cursor.before, c]
  have hc : NoSymbol c := ⟨rfl, by simp [c]⟩
  rw [integerAt]
  split
  · next hi =>
    rw [parseExpression, hsource, hi]
    exact (Grammar.expression_least hg c .start 0).bind.run?_eq
  · next hi =>
    have hexpression := Grammar.expression_integer hg hc .start hi 0
    exact parseExpression_of_gives (hsource ▸ hexpression) rfl rfl

namespace Template

variable {c : Cursor} {i : Int64} {p close : Position}

theorem echo_integer (hf : c.fault = none) (hi : i ≠ Int64.minValue) (position : Position) :
    Gives (echo position)
      (c.before (integerTokens p i ++ [⟨.closeEcho, "\x7d\x7d", close⟩]))
      (.echo position (.literal p (.integer i)) false) c := by
  have hsymbol : NoSymbol (c.before [⟨.closeEcho, "\x7d\x7d", close⟩]) := by
    refine ⟨hf, ?_⟩
    rintro token ⟨rfl⟩
    rfl
  have hexpression := Grammar.expression_integer grammar_readsIntegers hsymbol p hi 0
  rw [Cursor.before_before] at hexpression
  exact hexpression.bind ((expect_gives rfl).bind (.pure _ c))

theorem echo_least (c : Cursor) (position : Position) :
    Fails (echo position)
      (c.before (integerTokens p Int64.minValue ++ [⟨.closeEcho, "\x7d\x7d", close⟩]))
      (.invalidConstruct (p.advance '-') "integer literal out of range") := by
  have hexpression := Grammar.expression_least grammar_readsIntegers
    (c.before [⟨.closeEcho, "\x7d\x7d", close⟩]) p 0
  rw [Cursor.before_before] at hexpression
  exact hexpression.bind

theorem topLevel_eq (c : Cursor) : topLevel c =
    (whileSome (bodyStep (bodyTo (c.tokens.length + 1)) ⟨false, false⟩ []) .top >>=
      fun b => pure b.nodes) c := by
  rw [topLevel, map_eq_pure_bind]

theorem parse_output (i : Int64) :
    parse ("\x7b\x7b " ++ toString i ++ " \x7d\x7d") =
      (integerAt ⟨1, 4, 3⟩ i).map fun e => [.echo .start e false] := by
  obtain ⟨close, stop, hscan⟩ := scan_output i
  let c : Cursor := ⟨[], none, stop⟩
  let ts : List Token := integerTokens ⟨1, 4, 3⟩ i ++ [⟨.closeEcho, "\x7d\x7d", close⟩]
  have hsource : Cursor.ofSource table ("\x7b\x7b " ++ toString i ++ " \x7d\x7d") =
      c.before (⟨.openEcho, "\x7b\x7b", .start⟩ :: ts) := by
    rw [Cursor.ofSource, hscan]
    simp [Cursor.before, c, ts]
  rw [parse, hsource, integerAt]
  split
  · next hi =>
    have hstep (inner : BodyParser) : Fails (bodyStep inner ⟨false, false⟩ [] .top)
        (c.before (⟨.openEcho, "\x7b\x7b", .start⟩ :: ts))
        (.invalidConstruct ⟨1, 5, 4⟩ "integer literal out of range") := by
      apply next_gives.bind_fails
      have hecho : Fails (echo .start) (c.before ts) _ := hi ▸ echo_least c .start
      exact hecho.bind
    apply Fails.run?_eq
    unfold Fails
    rw [topLevel_eq]
    exact (whileSome_fails (hstep _)).bind
  · next hi =>
    let b : Body := { Body.top.push (.echo .start (.literal ⟨1, 4, 3⟩ (.integer i)) false) with
      started := true }
    have hstep (inner : BodyParser) : Gives (bodyStep inner ⟨false, false⟩ [] .top)
        (c.before (⟨.openEcho, "\x7b\x7b", .start⟩ :: ts)) (some b) c :=
      next_gives.bind ((echo_integer rfl hi .start).bind (.pure _ c))
    have hend (inner : BodyParser) : Gives (bodyStep inner ⟨false, false⟩ [] b) c none c := rfl
    have hsteps (inner : BodyParser) : Steps (bodyStep inner ⟨false, false⟩ []) .top
        (c.before (⟨.openEcho, "\x7b\x7b", .start⟩ :: ts)) b c :=
      .head (hstep inner) (Nat.succ_pos _) (.refl b c)
    apply Gives.run?_eq
    unfold Gives
    rw [topLevel_eq]
    exact (whileSome_gives (hsteps _) (hend _)).bind (.pure _ c)

end Template

/-- Every integer but the least is read back from its digits. -/
theorem integers_read_back (i : Int64) :
    parseExpression Arithmetic.grammar (toString i) = integerAt .start i ∧
      parseExpression Query.grammar (toString i) = integerAt .start i ∧
      Template.parse ("\x7b\x7b " ++ toString i ++ " \x7d\x7d") =
        (integerAt ⟨1, 4, 3⟩ i).map fun e => [.echo .start e false] :=
  ⟨parseExpression_integer Arithmetic.grammar_readsIntegers arithmetic_counts rfl i,
    parseExpression_integer Query.grammar_readsIntegers query_counts rfl i,
    Template.parse_output i⟩

/-- The least integer has a text, but the text is not read back. -/
theorem least_integer_refused :
    toString Int64.minValue = "-9223372036854775808" ∧
      ∀ p, parseExpression Arithmetic.grammar "-9223372036854775808" ≠
        .ok (.literal p (.integer Int64.minValue)) := by
  have hrefused : (parseExpression Arithmetic.grammar "-9223372036854775808").isOk = false := by
    decide +kernel
  refine ⟨by decide +kernel, fun p h => ?_⟩
  rw [h] at hrefused
  cases hrefused

end EmbeddedLang
