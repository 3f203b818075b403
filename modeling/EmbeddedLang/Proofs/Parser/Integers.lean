import EmbeddedLang.Proofs.Lexical.Literals
import EmbeddedLang.Proofs.Parser.Gives

/-!
Expressions that are one operand, and what is read from the digits of an integer.

Where neither an operator nor a keyword is ahead, nothing goes on with the operand.

The digits of an integer are read on their own, and a minus in front of them negates what was read.
So the range of the digits has to be that of the magnitudes, and one magnitude is too great for it.
-/

namespace EmbeddedLang

/-! ### No operator ahead -/

theorem Token.isOperator_eq_false {token : Token} (h : token.symbol? = none) (op : String) :
    token.isOperator op = false := by
  rw [isOperator, beq_eq_false_iff_ne]
  intro hkind
  rw [symbol?, hkind] at h
  cases h

theorem Token.isKeyword_eq_false {token : Token} (h : token.symbol? = none) (word : String) :
    token.isKeyword word = false := by
  rw [isKeyword, beq_eq_false_iff_ne]
  intro hkind
  rw [symbol?, hkind] at h
  cases h

/-- Neither an operator nor a keyword is ahead. -/
structure NoSymbol (c : Cursor) : Prop where
  fault : c.fault = none
  symbol? : ∀ token ∈ c.tokens.head?, token.symbol? = none

variable {c : Cursor} {token : Token}

theorem NoSymbol.notAhead (h : NoSymbol c) (op : String) :
    Parse.NotAhead (·.isOperator op) c :=
  ⟨h.fault, fun token htoken => token.isOperator_eq_false (h.symbol? token htoken) op⟩

namespace Grammar

open Parse

/-- The tables and the rule for what they cannot say need an operator or a keyword to go on. -/
structure EndsPlainly (g : Grammar) : Prop where
  operators : ∀ spec ∈ g.binaryOps, spec.tokens ≠ []
  infixForm (below : Nat → Parse Expr) (e : Expr) (floor : Nat) {c : Cursor} (h : NoSymbol c) :
    Gives (g.infixForm below e floor) c none c

variable {g : Grammar}

theorem spells_noSymbol (h : NoSymbol c) {symbols : List String} (hne : symbols ≠ []) :
    Gives (spells 0 symbols) c false c := by
  cases symbols with
  | nil => exact absurd rfl hne
  | cons symbol rest =>
    have hnone : c.tokens.head?.bind Token.symbol? = none :=
      Option.bind_eq_none_iff.mpr h.symbol?
    apply (peek_gives h.fault).bind
    rw [hnone, if_neg (by simp)]
    exact .pure false c

theorem longestOf_noSymbol (h : NoSymbol c) {specs : List OperatorSpec}
    (hs : ∀ spec ∈ specs, spec.tokens ≠ []) : Gives (longestOf none specs) c none c := by
  induction specs with
  | nil => exact .pure none c
  | cons spec rest ih =>
    obtain ⟨hspec, hrest⟩ := List.forall_mem_cons.mp hs
    rw [longestOf, isLonger, if_pos rfl]
    apply (spells_noSymbol h hspec).bind
    rw [if_neg Bool.false_ne_true]
    exact ih hrest

theorem extendRight_noSymbol (hg : g.EndsPlainly) (h : NoSymbol c) (below : Nat → Parse Expr)
    (floor : Nat) (e : Expr) : Gives (g.extendRight below floor e) c none c :=
  (longestOf_noSymbol h hg.operators).bind (hg.infixForm below e floor h)

theorem extendPostfix_noSymbol (h : NoSymbol c) (below : Nat → Parse Expr) (e : Expr) :
    Gives (g.extendPostfix below e) c none c := by
  have hcall : Gives (if g.isCallable e then atOperator "(" else pure false) c false c := by
    split
    · exact at?_false (h.notAhead "(")
    · exact .pure false c
  have hsubscript :
      Gives (if g.table.subscripts then eatOperator "[" else pure false) c false c := by
    split
    · exact eat_false (h.notAhead "[")
    · exact .pure false c
  apply hcall.bind
  rw [if_neg Bool.false_ne_true]
  apply (eat_false (h.notAhead ".")).bind
  rw [if_neg Bool.false_ne_true]
  apply hsubscript.bind
  exact .pure none c

/-! ### Operands -/

variable {c₀ : Cursor} {e : Expr} {ts : List Token}

theorem primaryWith_of_common (h : NoSymbol c) {below : Nat → Parse Expr}
    (hform : Gives (g.primaryForm below) c₀ none c₀)
    (hcommon : Gives (g.commonPrimary below) c₀ e c) : Gives (g.primaryWith below) c₀ e c := by
  apply hform.bind
  apply hcommon.bind
  exact whileSome_gives (.refl e c) (extendPostfix_noSymbol h below e)

theorem nested_of_unary (hg : g.EndsPlainly) (h : NoSymbol c) (depth floor : Nat)
    (hunary : Gives (g.unaryWith (g.nested depth)) c₀ e c) :
    Gives (g.nested (depth + 1) floor) c₀ e c :=
  hunary.bind (whileSome_gives (.refl e c) (extendRight_noSymbol hg h _ floor e))

theorem unaryWith_of_primary (hbare : g.prefixOf token = none) {below : Nat → Parse Expr}
    (hprimary : Gives (g.primaryWith below) (c.before (token :: ts)) e c) :
    Gives (g.unaryWith below) (c.before (token :: ts)) e c := by
  apply peek_before.bind
  dsimp only
  rw [hbare]
  exact hprimary

theorem expression_of_primary (hg : g.EndsPlainly) (h : NoSymbol c)
    (hbare : g.prefixOf token = none) (floor : Nat)
    (hprimary : ∀ below, Gives (g.primaryWith below) (c.before (token :: ts)) e c) :
    Gives (g.expression floor) (c.before (token :: ts)) e c :=
  nested_of_unary hg h (c.before (token :: ts)).tokens.length floor
    (unaryWith_of_primary hbare (hprimary _))

end Grammar

theorem parseExpression_of_gives {g : Grammar} {source : String} {e : Expr}
    (h : Gives (g.expression 0) (Cursor.ofSource g.table source) e c) (hc : c.tokens = [])
    (hf : c.fault = none) : parseExpression g source = .ok e := by
  have hend : Gives Parse.isEof c true c := Parse.isEof_gives hc hf
  apply Gives.run?_eq
  exact h.bind (hend.bind (.pure e c))

/-! ### Magnitudes -/

theorem ofNat_natAbs_of_nonneg {i : Int64} (h : ¬ i < 0) : Int64.ofNat i.toInt.natAbs = i := by
  have hpos : 0 ≤ i.toInt := by
    rw [Int64.lt_iff_toInt_lt] at h
    exact Int.not_lt.mp h
  rw [← Int64.ofInt_eq_ofNat, Int.natAbs_of_nonneg hpos, Int64.ofInt_toInt]

theorem neg_ofNat_natAbs_of_neg {i : Int64} (h : i < 0) :
    -Int64.ofNat i.toInt.natAbs = i := by
  have hneg : i.toInt < 0 := Int64.lt_iff_toInt_lt.mp h
  have habs : (i.toInt.natAbs : Int) = -i.toInt := Int.ofNat_natAbs_of_nonpos hneg.le
  rw [Int64.neg_ofNat, habs, Int.neg_neg, Int64.ofInt_toInt]

theorem natAbs_lt_iff {i : Int64} : i.toInt.natAbs < Nat.pow 2 63 ↔ i ≠ Int64.minValue := by
  have hle : -2 ^ 63 ≤ i.toInt := i.le_toInt
  have hlt : i.toInt < 2 ^ 63 := i.toInt_lt
  rw [ne_eq, ← Int64.toInt_inj, Int64.toInt_minValue]
  change i.toInt.natAbs < 2 ^ 63 ↔ _
  omega

namespace Grammar

open Parse

/-- The tables and the rules of a grammar leave an integer and a minus in front of it alone. -/
structure ReadsIntegers (g : Grammar) : Prop extends g.EndsPlainly where
  minus : ∃ spec, g.prefixOps.find? (·.token == "-") = some spec ∧ spec.op = .neg
  primaryForm (below : Nat → Parse Expr) {c : Cursor} {token : Token} {ts : List Token}
    (h : token.kind = .integer) :
    Gives (g.primaryForm below) (c.before (token :: ts)) none (c.before (token :: ts))

variable {g : Grammar}

/-! ### Integers -/

theorem integerLiteral_gives {n : Nat} (hlexeme : token.lexeme = toString n)
    (hn : n < Nat.pow 2 63) (c : Cursor) :
    Gives (integerLiteral token) c (.literal token.position (.integer (Int64.ofNat n))) c := by
  unfold integerLiteral
  rw [hlexeme, Decimal.natural?_toString]
  dsimp only
  rw [if_pos hn]
  exact .pure _ c

theorem integerLiteral_fails {n : Nat} (hlexeme : token.lexeme = toString n)
    (hn : ¬ n < Nat.pow 2 63) (c : Cursor) : Fails (integerLiteral token) c
      (.invalidConstruct token.position "integer literal out of range") := by
  unfold integerLiteral
  rw [hlexeme, Decimal.natural?_toString]
  dsimp only
  rw [if_neg hn]
  exact ⟨c, rfl⟩

theorem prefixOf_minus (hg : g.ReadsIntegers) (p : Position) :
    ∃ spec, g.prefixOf ⟨.operator "-", "-", p⟩ = some spec ∧ spec.op = .neg :=
  hg.minus

variable {n : Nat}

theorem primaryWith_digits (hg : g.ReadsIntegers) (q : Position) (h : NoSymbol c)
    (hn : n < Nat.pow 2 63) (below : Nat → Parse Expr) :
    Gives (g.primaryWith below) (c.before [⟨.integer, toString n, q⟩])
      (.literal q (.integer (Int64.ofNat n))) c := by
  apply primaryWith_of_common h (hg.primaryForm below rfl)
  apply peek_before.bind
  exact (integerLiteral_gives rfl hn _).bind (next_gives.bind (.pure _ c))

theorem primaryWith_fails (hg : g.ReadsIntegers) (q : Position) (hn : ¬ n < Nat.pow 2 63)
    (below : Nat → Parse Expr) :
    Fails (g.primaryWith below) (c.before [⟨.integer, toString n, q⟩])
      (.invalidConstruct q "integer literal out of range") := by
  have hcommon : Fails (g.commonPrimary below) (c.before [⟨.integer, toString n, q⟩])
      (.invalidConstruct q "integer literal out of range") := by
    apply peek_before.bind_fails
    exact (integerLiteral_fails rfl hn _).bind
  apply (hg.primaryForm below rfl).bind_fails
  exact hcommon.bind

theorem nested_digits (hg : g.ReadsIntegers) (q : Position) (h : NoSymbol c)
    (hn : n < Nat.pow 2 63) (depth floor : Nat) :
    Gives (g.nested (depth + 1) floor) (c.before [⟨.integer, toString n, q⟩])
      (.literal q (.integer (Int64.ofNat n))) c :=
  nested_of_unary hg.toEndsPlainly h depth floor
    (unaryWith_of_primary rfl (primaryWith_digits hg q h hn _))

theorem nested_digits_fails (hg : g.ReadsIntegers) (q : Position) (hn : ¬ n < Nat.pow 2 63)
    (depth floor : Nat) :
    Fails (g.nested (depth + 1) floor) (c.before [⟨.integer, toString n, q⟩])
      (.invalidConstruct q "integer literal out of range") := by
  have hunary : Fails (g.unaryWith (g.nested depth)) (c.before [⟨.integer, toString n, q⟩])
      (.invalidConstruct q "integer literal out of range") := by
    apply peek_before.bind_fails
    exact primaryWith_fails hg q hn _
  exact hunary.bind

theorem nested_minus (hg : g.ReadsIntegers) (p q : Position) (h : NoSymbol c)
    (hn : n < Nat.pow 2 63) (depth floor : Nat) : Gives (g.nested (depth + 2) floor)
      (c.before [⟨.operator "-", "-", p⟩, ⟨.integer, toString n, q⟩])
      (.literal p (.integer (-Int64.ofNat n))) c := by
  obtain ⟨spec, hspec, hneg⟩ := prefixOf_minus hg p
  apply nested_of_unary hg.toEndsPlainly h
  apply peek_before.bind
  dsimp only
  rw [hspec]
  apply next_gives.bind
  apply (nested_digits hg q h hn depth spec.precedence).bind
  rw [hneg]
  exact .pure _ c

theorem nested_minus_fails (hg : g.ReadsIntegers) (p q : Position) (hn : ¬ n < Nat.pow 2 63)
    (depth floor : Nat) : Fails (g.nested (depth + 2) floor)
      (c.before [⟨.operator "-", "-", p⟩, ⟨.integer, toString n, q⟩])
      (.invalidConstruct q "integer literal out of range") := by
  obtain ⟨spec, hspec, -⟩ := prefixOf_minus hg p
  have hunary : Fails (g.unaryWith (g.nested (depth + 1)))
      (c.before [⟨.operator "-", "-", p⟩, ⟨.integer, toString n, q⟩])
      (.invalidConstruct q "integer literal out of range") := by
    apply peek_before.bind_fails
    dsimp only
    rw [hspec]
    apply next_gives.bind_fails
    exact (nested_digits_fails hg q hn depth spec.precedence).bind
  exact hunary.bind

theorem expression_integer (hg : g.ReadsIntegers) (h : NoSymbol c) (p : Position) {i : Int64}
    (hi : i ≠ Int64.minValue) (floor : Nat) :
    Gives (g.expression floor) (c.before (integerTokens p i)) (.literal p (.integer i)) c := by
  have hlt : i.toInt.natAbs < Nat.pow 2 63 := natAbs_lt_iff.mpr hi
  unfold integerTokens
  split
  · next hneg =>
    have hnested := nested_minus hg p (p.advance '-') h hlt (c.tokens.length + 1) floor
    rw [neg_ofNat_natAbs_of_neg hneg] at hnested
    exact hnested
  · next hneg =>
    have hnested := nested_digits hg p h hlt (c.tokens.length + 1) floor
    rw [ofNat_natAbs_of_nonneg hneg] at hnested
    exact hnested

/-- The digits of the least integer are no integer, and the minus is not read yet. -/
theorem expression_least (hg : g.ReadsIntegers) (c : Cursor) (p : Position) (floor : Nat) :
    Fails (g.expression floor) (c.before (integerTokens p Int64.minValue))
      (.invalidConstruct (p.advance '-') "integer literal out of range") :=
  nested_minus_fails hg p _ (mt natAbs_lt_iff.mp (not_not_intro rfl)) (c.tokens.length + 1) floor

end Grammar

end EmbeddedLang
