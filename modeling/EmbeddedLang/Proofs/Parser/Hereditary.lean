import EmbeddedLang.Parser.Expression
import EmbeddedLang.Proofs.Parser.Yields

/-!
Classes of trees that parsing does not leave.

The rules of a grammar are given the parser for nested expressions. If what that parser gives is in
the class, so is what the rules make of it.
-/

namespace EmbeddedLang

/-- A class of expressions and one of selects, to which a form that is made without operators
belongs if its parts do. The types that it casts to are in `CastType`; a cross join is without a
condition. -/
structure PrimaryClass where
  Holds : Expr → Prop
  HoldsSelect : Select → Prop
  CastType : String → Prop
  literal (p : Position) (l : Literal) : Holds (.literal p l)
  identifier (p : Position) (name : String) : Holds (.identifier p name)
  call {callee : Expr} {args : List Item} (p : Position) (distinct : Bool) (hc : Holds callee)
    (ha : ∀ a ∈ args, Holds a.value) : Holds (.call p callee args distinct)
  member {x : Expr} (p : Position) (name : String) (hx : Holds x) : Holds (.member p x name)
  index {x y : Expr} (p : Position) (hx : Holds x) (hy : Holds y) : Holds (.index p x y)
  slice {x : Expr} {first last : Option Expr} (p : Position) (hx : Holds x)
    (hf : ∀ e ∈ first, Holds e) (hl : ∀ e ∈ last, Holds e) : Holds (.slice p x first last)
  list {items : List Item} (p : Position) (h : ∀ item ∈ items, Holds item.value) :
    Holds (.list p items)
  grouped {x : Expr} (p : Position) (hx : Holds x) : Holds (.grouped p x)
  placeholder (p : Position) (value : Placeholder) : Holds (.placeholder p value)
  star (p : Position) : Holds (.star p)
  qualifiedStar (p : Position) (source : String) : Holds (.qualifiedStar p source)
  cases {operand otherwise : Option Expr} {branches : List When} (p : Position)
    (ho : ∀ e ∈ operand, Holds e) (hb : ∀ w ∈ branches, Holds w.condition ∧ Holds w.result)
    (he : ∀ e ∈ otherwise, Holds e) : Holds (.cases p operand branches otherwise)
  cast {x : Expr} {target : String} (p : Position) (hx : Holds x) (ht : CastType target) :
    Holds (.cast p x target)
  existence {s : Select} (p : Position) (hs : HoldsSelect s) : Holds (.existence p s)
  subquery {s : Select} (p : Position) (hs : HoldsSelect s) : Holds (.subquery p s)
  select {s : Select} (hp : ∀ p ∈ s.projections, Holds p.expr)
    (hj : ∀ j ∈ s.joins, (j.kind = .cross → j.condition = none) ∧ ∀ e ∈ j.condition, Holds e)
    (hf : ∀ e ∈ s.filter, Holds e) (hg : ∀ e ∈ s.groupBy, Holds e) (hh : ∀ e ∈ s.having, Holds e)
    (ho : ∀ o ∈ s.orderBy, Holds o.expr)
    (hl : ∀ l ∈ s.limit, Holds l.count ∧ ∀ e ∈ l.offset, Holds e) : HoldsSelect s

/-- A class to which an expression belongs if its operands do. -/
structure Hereditary extends PrimaryClass where
  unary {x : Expr} (p : Position) (op : UnaryOp) (hx : Holds x) : Holds (.unary p op x)
  binary {x y : Expr} (p : Position) (op : BinaryOp) (hx : Holds x) (hy : Holds y) :
    Holds (.binary p op x y)
  between {x low high : Expr} (p : Position) (negated : Bool) (hx : Holds x) (hl : Holds low)
    (hh : Holds high) : Holds (.between p x low high negated)
  isNull {x : Expr} (p : Position) (negated : Bool) (hx : Holds x) : Holds (.isNull p x negated)

def PrimaryClass.HoldsJoin (I : PrimaryClass) (j : Join) : Prop :=
  (j.kind = .cross → j.condition = none) ∧ ∀ e ∈ j.condition, I.Holds e

variable {ts : List Token}

/-- The primary forms that a grammar adds do not leave the class. -/
abbrev Grammar.KeepsPrimary (g : Grammar) (I : PrimaryClass) (ts : List Token) : Prop :=
  ∀ below, (∀ floor, Yields ts I.Holds (below floor)) →
    Yields ts (fun o => ∀ e ∈ o, I.Holds e) (g.primaryForm below)

/-- The two rules that no table can say do not leave the class. -/
structure Grammar.Keeps (g : Grammar) (I : Hereditary) (ts : List Token) : Prop where
  primaryForm : g.KeepsPrimary I.toPrimaryClass ts
  infixForm : ∀ below, (∀ floor, Yields ts I.Holds (below floor)) → ∀ left floor, I.Holds left →
    Yields ts (fun o => ∀ e ∈ o, I.Holds e) (g.infixForm below left floor)

namespace Parse

theorem skipTwo_yields {α : Type} (b : Bool) (a : α) : Passes ts (do
    if b then
      let _ ← next
      let _ ← next
    return a) := by
  cases b with
  | true =>
    apply next_yields.bind
    intro _ _
    exact next_yields.bind fun _ _ => .pure trivial
  | false => exact .pure trivial

theorem itemKey_yields (t : LanguageTable) : Passes ts (itemKey t) := by
  apply peek_yields.bind
  intro first _
  apply (peekNth_yields 1).bind
  intro second _
  split
  · split
    · split <;> exact skipTwo_yields _ _
    · exact .pure trivial
  · exact .pure trivial

theorem argumentName_yields (t : LanguageTable) : Passes ts (argumentName t) := by
  unfold argumentName
  split
  · apply peek_yields.bind
    intro first _
    apply (peekNth_yields 1).bind
    intro second _
    split
    · split
      · apply next_yields.bind
        intro _ _
        exact next_yields.bind fun _ _ => .pure trivial
      · exact .pure trivial
    · exact .pure trivial
  · exact .pure trivial

theorem labelled_yields {P : Expr → Prop} {label : Parse (Option String)} {expr : Parse Expr}
    (hl : Passes ts label) (he : Yields ts P expr) :
    Yields ts (fun items : List Item => ∀ item ∈ items, P item.value)
      (commaSeparated do
        let name ← label
        return (⟨name, ← expr⟩ : Item)) := by
  apply commaSeparated_yields
  apply hl.bind
  intro name _
  apply he.bind
  intro e he
  exact .pure he

theorem listItems_yields {P : Expr → Prop} (t : LanguageTable) {expr : Parse Expr}
    (he : Yields ts P expr) (closer : String) :
    Yields ts (fun items => ∀ item ∈ items, P item.value) (listItems t expr closer) := by
  apply (eatOperator_yields closer).bind
  intro b _
  cases b with
  | true => exact .pure (List.forall_mem_nil _)
  | false =>
    apply (labelled_yields (itemKey_yields t) he).bind
    intro items hitems
    exact (expectOperator_yields closer).bind fun _ _ => .pure hitems

theorem arguments_yields {P : Expr → Prop} (t : LanguageTable) {expr : Parse Expr}
    (he : Yields ts P expr) :
    Yields ts (fun found => ∀ item ∈ found.1, P item.value) (arguments t expr) := by
  apply (eatOperator_yields ")").bind
  intro b _
  cases b with
  | true => exact .pure (List.forall_mem_nil _)
  | false =>
    have hargs (distinct : Bool) : Yields ts (fun found : List Item × Bool =>
        ∀ item ∈ found.1, P item.value) (do
          let args ← commaSeparated do
            let name ← argumentName t
            return (⟨name, ← expr⟩ : Item)
          let _ ← expectOperator ")"
          return (args, distinct)) := by
      apply (labelled_yields (argumentName_yields t) he).bind
      intro items hitems
      exact (expectOperator_yields ")").bind fun _ _ => .pure hitems
    dsimp only
    cases t.distinctKeyword with
    | some word => exact (eatKeyword_yields word).bind fun distinct _ => hargs distinct
    | none => exact hargs false

end Parse

namespace Grammar

open Parse

/-! ### Operators -/

theorem spells_yields (n : Nat) (symbols : List String) : Passes ts (spells n symbols) := by
  induction symbols generalizing n with
  | nil => exact .pure trivial
  | cons symbol rest ih =>
    apply (peekNth_yields n).bind
    intro o _
    split
    · exact ih (n + 1)
    · exact .pure trivial

theorem longestOf_yields (specs : List OperatorSpec) (best : Option OperatorSpec) :
    Passes ts (longestOf best specs) := by
  induction specs generalizing best with
  | nil => exact .pure trivial
  | cons spec rest ih =>
    rw [longestOf]
    split
    · apply (spells_yields 0 spec.tokens).bind
      intro b _
      split
      · exact ih (some spec)
      · exact ih best
    · exact ih best

theorem takeTokens_yields (n : Nat) : Passes ts (takeTokens n) := by
  induction n with
  | zero => exact .pure trivial
  | succ n ih => exact next_yields.bind fun _ _ => ih

/-! ### Primary forms over nested expressions -/

section primaries

variable {g : Grammar} {I : PrimaryClass} (hp : g.KeepsPrimary I ts) {below : Nat → Parse Expr}
  (hb : ∀ floor, Yields ts I.Holds (below floor))

theorem integerLiteral_yields (token : Token) : Yields ts I.Holds (integerLiteral token) := by
  unfold integerLiteral
  split
  · split
    · exact .pure (I.literal _ _)
    · exact .throw _
  · exact .throw _

theorem floatLiteral_yields (token : Token) : Yields ts I.Holds (floatLiteral token) := by
  unfold floatLiteral
  split
  · exact .pure (I.literal _ _)
  · exact .throw _

theorem memberName_yields : Passes ts memberName := by
  apply peek_yields.bind
  intro o _
  cases o with
  | none => exact failExpected_yields _
  | some token =>
    dsimp only
    split
    · exact next_yields.bind fun _ _ => .pure trivial
    · exact next_yields.bind fun _ _ => .pure trivial
    · exact next_yields.bind fun _ _ => .pure trivial
    · exact failExpected_yields _

include hb

theorem commonPrimary_yields : Yields ts I.Holds (g.commonPrimary below) := by
  apply peek_yields.bind
  intro o _
  cases o with
  | none => exact failExpected_yields _
  | some token =>
    dsimp only
    split
    · apply (integerLiteral_yields token).bind
      intro e he
      exact next_yields.bind fun _ _ => .pure he
    · apply (floatLiteral_yields token).bind
      intro e he
      exact next_yields.bind fun _ _ => .pure he
    · exact next_yields.bind fun _ _ => .pure (I.literal _ _)
    · exact next_yields.bind fun _ _ => .pure (I.identifier _ _)
    · exact next_yields.bind fun _ _ => .pure (I.identifier _ _)
    · split
      · exact next_yields.bind fun _ _ => .pure (I.literal _ _)
      · exact failExpected_yields _
    · split
      · apply next_yields.bind
        intro _ _
        apply (hb 0).bind
        intro inner hinner
        exact (expectOperator_yields ")").bind fun _ _ => .pure (I.grouped _ hinner)
      split
      · apply next_yields.bind
        intro _ _
        apply (listItems_yields g.table (hb 0) "]").bind
        intro items hitems
        exact .pure (I.list _ hitems)
      · exact failExpected_yields _
    · exact failExpected_yields _

theorem optionalBefore_yields (absent : String) :
    Yields ts (fun o => ∀ e ∈ o, I.Holds e) (optionalBefore below absent) := by
  apply (at?_yields _).bind
  intro b _
  cases b with
  | true => exact .pure forall_mem_none
  | false =>
    apply (hb 0).bind
    intro e he
    exact .pure (forall_mem_some he)

theorem subscript_yields {object : Expr} (ho : I.Holds object) :
    Yields ts I.Holds (subscript below object) := by
  apply (optionalBefore_yields hb ":").bind
  intro first hfirst
  apply (eatOperator_yields ":").bind
  intro b _
  cases b with
  | true =>
    apply (optionalBefore_yields hb "]").bind
    intro last hlast
    apply (expectOperator_yields "]").bind
    intro _ _
    exact .pure (I.slice _ ho hfirst hlast)
  | false =>
    apply (expectOperator_yields "]").bind
    intro _ _
    cases first with
    | none => exact failExpected_yields _
    | some e => exact .pure (I.index _ ho (hfirst e rfl))

theorem extendPostfix_yields {e : Expr} (he : I.Holds e) :
    Yields ts (fun o => ∀ e ∈ o, I.Holds e) (g.extendPostfix below e) := by
  have hcall : Passes ts (if g.isCallable e then atOperator "(" else pure false) := by
    split
    · exact at?_yields _
    · exact .pure trivial
  have hsubscript : Passes ts (if g.table.subscripts then eatOperator "[" else pure false) := by
    split
    · exact eatOperator_yields _
    · exact .pure trivial
  apply hcall.bind
  intro b _
  split
  · apply next_yields.bind
    intro _ _
    apply (arguments_yields g.table (hb 0)).bind
    rintro ⟨args, distinct⟩ hargs
    exact .pure (forall_mem_some (I.call _ _ he hargs))
  · apply (eatOperator_yields ".").bind
    intro b _
    split
    · exact memberName_yields.bind fun name _ => .pure (forall_mem_some (I.member _ _ he))
    · apply hsubscript.bind
      intro b _
      split
      · apply (subscript_yields hb he).bind
        intro e' he'
        exact .pure (forall_mem_some he')
      · exact .pure forall_mem_none

include hp

theorem primaryWith_yields : Yields ts I.Holds (g.primaryWith below) := by
  have hpostfix {e : Expr} (he : I.Holds e) :
      Yields ts I.Holds (Parse.whileSome (g.extendPostfix below) e) :=
    whileSome_yields (fun _ he => extendPostfix_yields hb he) he
  apply (hp below hb).bind
  intro o ho
  cases o with
  | some e => exact hpostfix (ho e rfl)
  | none => exact (commonPrimary_yields hb).bind fun e he => hpostfix he

end primaries

/-! ### Rules over nested expressions -/

section rules

variable {g : Grammar} {I : Hereditary} (hg : g.Keeps I ts) {below : Nat → Parse Expr}
  (hb : ∀ floor, Yields ts I.Holds (below floor))

theorem holds_applyPrefix (p : Position) (op : UnaryOp) {e : Expr} (he : I.Holds e) :
    I.Holds (applyPrefix p op e) := by
  unfold applyPrefix
  split
  · exact I.literal _ _
  · exact I.literal _ _
  · exact I.unary _ _ he

include hg hb

theorem unaryWith_yields : Yields ts I.Holds (g.unaryWith below) := by
  apply peek_yields.bind
  intro o _
  cases o with
  | none => exact failExpected_yields _
  | some token =>
    dsimp only
    split
    · rename_i spec _
      apply next_yields.bind
      intro _ _
      apply (hb spec.precedence).bind
      intro e he
      exact .pure (holds_applyPrefix _ _ he)
    · exact primaryWith_yields hg.primaryForm hb

theorem extendRight_yields (floor : Nat) {left : Expr} (hl : I.Holds left) :
    Yields ts (fun o => ∀ e ∈ o, I.Holds e) (g.extendRight below floor left) := by
  apply (longestOf_yields _ _).bind
  intro o _
  cases o with
  | none => exact hg.infixForm below hb left floor hl
  | some spec =>
    dsimp only
    split
    · exact .pure forall_mem_none
    · apply (takeTokens_yields _).bind
      intro _ _
      apply (hb (rightFloor spec)).bind
      intro right hr
      exact .pure (forall_mem_some (I.binary _ _ hl hr))

theorem expressionWith_yields (floor : Nat) :
    Yields ts I.Holds (g.expressionWith below floor) := by
  apply (unaryWith_yields hg hb).bind
  intro left hl
  exact whileSome_yields (fun e he => extendRight_yields hg hb floor he) hl

omit hb in
theorem nested_yields (depth floor : Nat) : Yields ts I.Holds (g.nested depth floor) := by
  induction depth generalizing floor with
  | zero => exact position_yields.bind fun _ _ => .throw _
  | succ depth ih => exact expressionWith_yields hg ih floor

omit hb in
theorem expression_yields (floor : Nat) : Yields ts I.Holds (g.expression floor) :=
  .of_start (fun c => nested_yields hg (c.tokens.length + 1) floor) fun _ => rfl

end rules

end Grammar

end EmbeddedLang
