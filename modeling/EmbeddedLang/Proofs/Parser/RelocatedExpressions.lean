import EmbeddedLang.Parser.Expression
import EmbeddedLang.Proofs.Parser.Relocation

/-!
Expressions at other places.

A grammar passes places on if the two rules do that no table can say.
-/

namespace EmbeddedLang

variable {f : Position → Position} {strict : Bool}

/-- With a parser for nested expressions that passes places on, the rules do so as well. -/
structure Grammar.PassesPlaces (g : Grammar) (f : Position → Position) (strict : Bool) : Prop where
  primaryForm : ∀ below, (∀ floor, Moves f strict (Expr.relocate f) (below floor) (below floor)) →
    Moves f strict (Option.map (Expr.relocate f)) (g.primaryForm below) (g.primaryForm below)
  infixForm : ∀ below, (∀ floor, Moves f strict (Expr.relocate f) (below floor) (below floor)) →
    ∀ left floor, Moves f strict (Option.map (Expr.relocate f)) (g.infixForm below left floor)
      (g.infixForm below (left.relocate f) floor)

namespace Parse

/-! ### Items -/

theorem skipTwo_relocates {α : Type} (b : Bool) (a : α) : Keeps f strict
    (do
      if b then
        let _ ← next
        let _ ← next
      return a)
    (do
      if b then
        let _ ← next
        let _ ← next
      return a) := by
  cases b with
  | true => exact take_bind (take_bind (.pure rfl))
  | false => exact .pure rfl

theorem itemKey_relocates (t : LanguageTable) : Keeps f strict (itemKey t) (itemKey t) := by
  apply peek_relocates.bind
  rintro _ _ (hab | _)
  · next a b =>
    apply (peekNth_relocates 1).bind
    rintro _ _ (hsecond | _)
    · dsimp only
      rw [hab.kind, hsecond.isOperator]
      split
      · cases hk : a.kind with
        | string | identifier | integer =>
          rw [hab.lexeme_of_kind (by rw [hk]; rfl)]
          exact skipTwo_relocates _ _
        | _ => exact skipTwo_relocates _ _
      · exact .pure rfl
    · exact .pure rfl
  · exact (peekNth_relocates 1).bind fun _ _ _ => .pure rfl

theorem argumentName_relocates (t : LanguageTable) :
    Keeps f strict (argumentName t) (argumentName t) := by
  unfold argumentName
  split
  · apply peek_relocates.bind
    rintro _ _ (hab | _)
    · next a b =>
      apply (peekNth_relocates 1).bind
      rintro _ _ (hsecond | _)
      · dsimp only
        rw [hab.kind, hsecond.isOperator]
        split
        · next h =>
          have hk : a.kind = .identifier := by simp_all
          rw [hab.lexeme_of_kind (by rw [hk]; rfl)]
          exact take_bind (take_bind (.pure rfl))
        · exact .pure rfl
      · exact .pure rfl
    · exact (peekNth_relocates 1).bind fun _ _ _ => .pure rfl
  · exact .pure rfl

section items

variable {expr : Parse Expr} (he : Moves f strict (Expr.relocate f) expr expr)

include he

theorem labelled_relocates {label : Parse (Option String)} (hl : Keeps f strict label label) :
    Moves f strict (relocateItems f)
      (commaSeparated do
        let name ← label
        return (⟨name, ← expr⟩ : Item))
      (commaSeparated do
        let name ← label
        return (⟨name, ← expr⟩ : Item)) := by
  rw [relocateItems_eq_map]
  apply commaSeparated_relocates
  apply hl.bind
  intro name
  exact he.bind fun e => .pure rfl

theorem listItems_relocates (t : LanguageTable) (closer : String) :
    Moves f strict (relocateItems f) (listItems t expr closer) (listItems t expr closer) := by
  apply (eatOperator_relocates closer).bind
  intro found
  cases found with
  | true => exact .pure rfl
  | false =>
    apply (labelled_relocates he (itemKey_relocates t)).bind
    intro items
    exact (expectOperator_relocates closer).bind fun _ _ _ => .pure rfl

theorem arguments_relocates (t : LanguageTable) :
    Moves f strict (Prod.map (relocateItems f) id) (arguments t expr) (arguments t expr) := by
  apply (eatOperator_relocates ")").bind
  intro found
  cases found with
  | true => exact .pure rfl
  | false =>
    have hargs (distinct : Bool) : Moves f strict (Prod.map (relocateItems f) id)
        (do
          let args ← commaSeparated do
            let name ← argumentName t
            return (⟨name, ← expr⟩ : Item)
          let _ ← expectOperator ")"
          return (args, distinct))
        (do
          let args ← commaSeparated do
            let name ← argumentName t
            return (⟨name, ← expr⟩ : Item)
          let _ ← expectOperator ")"
          return (args, distinct)) := by
      apply (labelled_relocates he (argumentName_relocates t)).bind
      intro items
      exact (expectOperator_relocates ")").bind fun _ _ _ => .pure rfl
    dsimp only
    cases t.distinctKeyword with
    | some word => exact (eatKeyword_relocates word).bind hargs
    | none => exact hargs false

end items

end Parse

namespace Grammar

open Parse

/-! ### Operators -/

theorem spells_relocates (n : Nat) (symbols : List String) :
    Keeps f strict (spells n symbols) (spells n symbols) := by
  induction symbols generalizing n with
  | nil => exact .pure rfl
  | cons symbol rest ih =>
    apply (peekNth_relocates n).bind
    intro a b hab
    have hsymbol : b.bind Token.symbol? = a.bind Token.symbol? := by
      cases hab with
      | some hab => exact hab.symbol?
      | none => rfl
    rw [hsymbol]
    split
    · exact ih (n + 1)
    · exact .pure rfl

theorem longestOf_relocates (specs : List OperatorSpec) (best : Option OperatorSpec) :
    Keeps f strict (longestOf best specs) (longestOf best specs) := by
  induction specs generalizing best with
  | nil => exact .pure rfl
  | cons spec rest ih =>
    rw [longestOf]
    split
    · apply (spells_relocates 0 spec.tokens).bind
      intro found
      split
      · exact ih (some spec)
      · exact ih best
    · exact ih best

theorem takeTokens_relocates (n : Nat) : Keeps f strict (takeTokens n) (takeTokens n) := by
  induction n with
  | zero => exact .pure rfl
  | succ n ih => exact take_bind ih

/-! ### Primary expressions -/

theorem integerLiteral_relocates {a b : Token} (hab : a.Alike f strict b)
    (hlexeme : b.lexeme = a.lexeme) :
    Moves f strict (Expr.relocate f) (integerLiteral a) (integerLiteral b) := by
  unfold integerLiteral
  rw [hlexeme, hab.position]
  split
  · split
    · exact .pure rfl
    · exact .throw rfl rfl
  · exact .throw rfl rfl

theorem floatLiteral_relocates {a b : Token} (hab : a.Alike f strict b)
    (hlexeme : b.lexeme = a.lexeme) :
    Moves f strict (Expr.relocate f) (floatLiteral a) (floatLiteral b) := by
  unfold floatLiteral
  rw [hlexeme, hab.position]
  split
  · exact .pure rfl
  · exact .throw rfl rfl

/-- Behind a dot a keyword is a name, and is spelt alike in both sources. -/
theorem memberName_relocates :
    RelocatesAfterDot f strict (fun a b => b = a) memberName memberName := by
  apply peek_relocatesAfterDot.bind
  rintro _ _ (hab | _)
  · next a b =>
    dsimp only
    rw [hab.kind, hab.name fun _ => rfl]
    split
    · exact take_bind (.pure rfl)
    · exact take_bind (.pure rfl)
    · exact take_bind (.pure rfl)
    · exact failExpected_relocates _
  · exact failExpected_relocates _

section rules

variable {g : Grammar} {below : Nat → Parse Expr}
  (hb : ∀ floor, Moves f strict (Expr.relocate f) (below floor) (below floor))

theorem isCallable_relocate (e : Expr) : g.isCallable (e.relocate f) = g.isCallable e := by
  cases e <;> rfl

theorem applyPrefix_relocate (p : Position) (op : UnaryOp) (e : Expr) :
    applyPrefix (f p) op (e.relocate f) = (applyPrefix p op e).relocate f := by
  cases op with
  | neg => cases e with
    | literal p l => cases l <;> rfl
    | _ => rfl
  | _ => rfl

include hb

theorem commonPrimary_relocates :
    Moves f strict (Expr.relocate f) (g.commonPrimary below) (g.commonPrimary below) := by
  apply peek_relocates.bind
  rintro _ _ (hab | _)
  · next a b =>
    dsimp only
    rw [hab.kind]
    cases hk : a.kind with
    | integer =>
      apply (integerLiteral_relocates hab (hab.lexeme_of_kind (by rw [hk]; rfl))).bind
      exact fun e => take_bind (.pure rfl)
    | float =>
      apply (floatLiteral_relocates hab (hab.lexeme_of_kind (by rw [hk]; rfl))).bind
      exact fun e => take_bind (.pure rfl)
    | string =>
      rw [hab.lexeme_of_kind (by rw [hk]; rfl), hab.position]
      exact take_bind (.pure rfl)
    | identifier | quotedIdentifier =>
      rw [hab.name (by rw [hk]; exact Bool.noConfusion), hab.position]
      exact take_bind (.pure rfl)
    | keyword word =>
      rw [hab.position]
      dsimp only
      split
      · exact take_bind (.pure rfl)
      · exact failExpected_relocates _
    | operator op =>
      rw [hab.position]
      dsimp only
      split
      · apply take_bind
        apply (hb 0).bind
        intro inner
        exact (expectOperator_relocates ")").bind fun _ _ _ => .pure rfl
      split
      · apply take_bind
        exact (listItems_relocates (hb 0) g.table "]").bind fun items => .pure rfl
      · exact failExpected_relocates _
    | _ => exact failExpected_relocates _
  · exact failExpected_relocates _

theorem optionalBefore_relocates (absent : String) :
    Moves f strict (relocateOption f) (optionalBefore below absent)
      (optionalBefore below absent) := by
  apply (atOperator_relocates absent).bind
  intro found
  cases found with
  | true => exact .pure rfl
  | false => exact (hb 0).bind fun e => .pure rfl

theorem subscript_relocates (object : Expr) :
    Moves f strict (Expr.relocate f) (subscript below object)
      (subscript below (object.relocate f)) := by
  unfold subscript
  rw [object.position_relocate]
  apply (optionalBefore_relocates hb ":").bind
  intro first
  apply (eatOperator_relocates ":").bind
  intro found
  cases found with
  | true =>
    apply (optionalBefore_relocates hb "]").bind
    intro last
    exact (expectOperator_relocates "]").bind fun _ _ _ => .pure rfl
  | false =>
    apply (expectOperator_relocates "]").bind
    intro _ _ _
    cases first with
    | none => exact failExpected_relocates _
    | some e => exact .pure rfl

theorem extendPostfix_relocates (e : Expr) :
    Moves f strict (Option.map (Expr.relocate f)) (g.extendPostfix below e)
      (g.extendPostfix below (e.relocate f)) := by
  have hcall : Keeps f strict (if g.isCallable e then atOperator "(" else pure false)
      (if g.isCallable e then atOperator "(" else pure false) := by
    split
    · exact atOperator_relocates _
    · exact .pure rfl
  have hsubscript : Keeps f strict (if g.table.subscripts then eatOperator "[" else pure false)
      (if g.table.subscripts then eatOperator "[" else pure false) := by
    split
    · exact eatOperator_relocates _
    · exact .pure rfl
  unfold extendPostfix
  rw [isCallable_relocate, e.position_relocate]
  apply hcall.bind
  intro found
  split
  · apply take_bind
    exact (arguments_relocates (hb 0) g.table).bind fun args => .pure rfl
  apply eatDot_relocates
  · apply memberName_relocates.bind
    rintro name _ rfl
    exact .pure rfl
  · apply hsubscript.bind
    intro found
    split
    · exact (subscript_relocates hb e).bind fun e' => .pure rfl
    · exact .pure rfl

/-! ### Operands and operators -/

variable (hg : g.PassesPlaces f strict)

include hg

theorem primaryWith_relocates :
    Moves f strict (Expr.relocate f) (g.primaryWith below) (g.primaryWith below) := by
  have hpostfix (e : Expr) : Moves f strict (Expr.relocate f)
      (Parse.whileSome (g.extendPostfix below) e)
      (Parse.whileSome (g.extendPostfix below) (e.relocate f)) :=
    whileSome_relocates (extendPostfix_relocates hb) e
  apply (hg.primaryForm below hb).bind
  intro found
  cases found with
  | some e => exact hpostfix e
  | none => exact (commonPrimary_relocates hb).bind hpostfix

omit hb hg in
theorem prefixOf_of_alike {a b : Token} (hab : a.Alike f strict b) :
    g.prefixOf b = g.prefixOf a := by
  rw [prefixOf, prefixOf, hab.symbol?]

theorem unaryWith_relocates :
    Moves f strict (Expr.relocate f) (g.unaryWith below) (g.unaryWith below) := by
  apply peek_relocates.bind
  rintro _ _ (hab | _)
  · next a b =>
    dsimp only
    rw [prefixOf_of_alike hab, hab.position]
    split
    · next spec _ =>
      apply take_bind
      exact (hb spec.precedence).bind fun e => .pure (applyPrefix_relocate ..)
    · exact primaryWith_relocates hb hg
  · exact failExpected_relocates _

theorem extendRight_relocates (floor : Nat) (left : Expr) :
    Moves f strict (Option.map (Expr.relocate f)) (g.extendRight below floor left)
      (g.extendRight below floor (left.relocate f)) := by
  unfold extendRight
  rw [left.position_relocate]
  apply (longestOf_relocates _ _).bind
  intro found
  cases found with
  | none => exact hg.infixForm below hb left floor
  | some spec =>
    dsimp only
    split
    · exact .pure rfl
    · apply (takeTokens_relocates _).bind
      intro _
      exact (hb (rightFloor spec)).bind fun right => .pure rfl

theorem expressionWith_relocates (floor : Nat) :
    Moves f strict (Expr.relocate f) (g.expressionWith below floor)
      (g.expressionWith below floor) := by
  apply (unaryWith_relocates hb hg).bind
  exact whileSome_relocates (extendRight_relocates hb hg floor)

omit hb in
theorem nested_relocates (depth floor : Nat) :
    Moves f strict (Expr.relocate f) (g.nested depth floor) (g.nested depth floor) := by
  induction depth generalizing floor with
  | zero => exact position_relocates.bind fun p => .throw rfl rfl
  | succ depth ih => exact expressionWith_relocates ih hg floor

omit hb in
theorem expression_relocates (floor : Nat) :
    Moves f strict (Expr.relocate f) (g.expression floor) (g.expression floor) :=
  .of_length (fun n => nested_relocates hg (n + 1) floor) (fun _ => rfl) fun _ => rfl

end rules

end Grammar

end EmbeddedLang
