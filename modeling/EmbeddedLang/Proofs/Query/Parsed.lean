import EmbeddedLang.Proofs.Parser.Hereditary
import EmbeddedLang.Query.Statement

/-!
Statements that are parsed belong to every class of trees that their parts belong to.

What is left to show of a class is that it has the types that the parser lets a statement cast to.
-/

namespace EmbeddedLang.Query

open Parse

variable {ts : List Token}

/-- A statement is in the class if its parts are. -/
def HoldsStatement (I : PrimaryClass) : Statement → Prop
  | .select s => I.HoldsSelect s
  | .insert s => ∀ row ∈ s.rows, ∀ e ∈ row, I.Holds e
  | .update s =>
    (∀ a ∈ s.assignments, I.Holds a.value) ∧ (∀ e ∈ s.filter, I.Holds e) ∧ ∀ e ∈ s.limit, I.Holds e
  | .delete s => (∀ e ∈ s.filter, I.Holds e) ∧ ∀ e ∈ s.limit, I.Holds e
  | .empty => True

/-! ### Clauses -/

section clauses

variable {I : PrimaryClass} {expr : Parse Expr} (he : Yields ts I.Holds expr)

theorem aliasName?_yields : Passes ts aliasName? := by
  apply (eatKeyword_yields "AS").bind
  intro b _
  split
  · exact expectIdentifier_yields.bind fun _ _ => .pure trivial
  · apply (at?_yields _).bind
    intro b _
    split
    · exact expectIdentifier_yields.bind fun _ _ => .pure trivial
    · exact .pure trivial

theorem sourceName_yields : Passes ts sourceName :=
  expectIdentifier_yields.bind fun _ _ => .pure trivial

theorem aliasedSource_yields : Passes ts aliasedSource := by
  apply sourceName_yields.bind
  intro source _
  exact aliasName?_yields.bind fun _ _ => .pure trivial

theorem direction?_yields : Passes ts direction? := by
  apply (eatKeyword_yields "ASC").bind
  intro b _
  split
  · exact .pure trivial
  · apply (eatKeyword_yields "DESC").bind
    intro b _
    split
    · exact .pure trivial
    · exact .pure trivial

theorem distinct_yields : Passes ts distinct := by
  apply (eatKeyword_yields "DISTINCT").bind
  intro b _
  split
  · exact .pure trivial
  · exact (eatKeyword_yields "ALL").bind fun _ _ => .pure trivial

theorem outerJoin_yields (kind : JoinKind) : Passes ts (outerJoin kind) :=
  (eatKeyword_yields "OUTER").bind fun _ _ => .pure trivial

theorem joinWords?_yields : Passes ts joinWords? := by
  apply (eatKeyword_yields "INNER").bind
  intro b _
  split
  · exact .pure trivial
  apply (eatKeyword_yields "CROSS").bind
  intro b _
  split
  · exact .pure trivial
  apply (eatKeyword_yields "LEFT").bind
  intro b _
  split
  · exact outerJoin_yields .left
  apply (eatKeyword_yields "RIGHT").bind
  intro b _
  split
  · exact outerJoin_yields .right
  apply (eatKeyword_yields "FULL").bind
  intro b _
  split
  · exact outerJoin_yields .full
  · exact .pure trivial

theorem joinKind?_yields : Passes ts joinKind? := by
  apply (eatKeyword_yields "JOIN").bind
  intro b _
  split
  · exact .pure trivial
  apply joinWords?_yields.bind
  intro kind _
  dsimp only
  split
  · exact (expectKeyword_yields "JOIN").bind fun _ _ => .pure trivial
  · exact .pure trivial

include he

theorem optionalAfter_yields (word : String) :
    Yields ts (fun o => ∀ e ∈ o, I.Holds e) (optionalAfter expr word) := by
  apply (eatKeyword_yields word).bind
  intro b _
  split
  · exact he.bind fun e he => .pure (forall_mem_some he)
  · exact .pure forall_mem_none

theorem projection_yields :
    Yields ts (fun p : Projection => I.Holds p.expr) (projection expr) := by
  apply he.bind
  intro e he
  exact aliasName?_yields.bind fun _ _ => .pure he

theorem join?_yields : Yields ts (fun o => ∀ j ∈ o, I.HoldsJoin j) (join? expr) := by
  apply position_yields.bind
  intro p _
  apply joinKind?_yields.bind
  intro o _
  cases o with
  | none => exact .pure fun _ h => by cases h
  | some kind =>
    apply aliasedSource_yields.bind
    intro source _
    dsimp only
    split
    · exact .pure (forall_mem_some ⟨fun _ => rfl, forall_mem_none⟩)
    · rename_i hcross
      apply (optionalAfter_yields he "ON").bind
      intro condition hcondition
      refine .pure (forall_mem_some ⟨fun hkind => ?_, hcondition⟩)
      exact absurd hkind hcross

theorem joins_yields : Yields ts (fun js => ∀ j ∈ js, I.HoldsJoin j) (joins expr) := by
  refine whileSome_yields (fun found hfound => ?_) (List.forall_mem_nil _)
  apply (join?_yields he).bind
  intro o ho
  cases o with
  | none => exact .pure fun _ h => by cases h
  | some j =>
    apply Yields.pure
    apply forall_mem_some
    exact List.forall_mem_append.mpr ⟨hfound, List.forall_mem_singleton.mpr (ho j rfl)⟩

theorem orderItem_yields : Yields ts (fun o : OrderItem => I.Holds o.expr) (orderItem expr) := by
  apply he.bind
  intro e he
  exact direction?_yields.bind fun _ _ => .pure he

omit he in
theorem listAfter_yields {α : Type} {P : α → Prop} {item : Parse α} (hi : Yields ts P item)
    (first second : String) :
    Yields ts (fun items => ∀ a ∈ items, P a) (listAfter first second item) := by
  apply (eatKeyword_yields first).bind
  intro b _
  split
  · apply (expectKeyword_yields second).bind
    intro _ _
    exact commaSeparated_yields hi
  · exact .pure (List.forall_mem_nil _)

theorem limit?_yields :
    Yields ts (fun o => ∀ l ∈ o, I.Holds l.count ∧ ∀ e ∈ l.offset, I.Holds e) (limit? expr) := by
  apply (eatKeyword_yields "LIMIT").bind
  intro b _
  split
  · apply he.bind
    intro first hfirst
    apply (eatKeyword_yields "OFFSET").bind
    intro b _
    split
    · apply he.bind
      intro offset hoffset
      exact .pure (forall_mem_some ⟨hfirst, forall_mem_some hoffset⟩)
    · apply (eatOperator_yields ",").bind
      intro b _
      split
      · apply he.bind
        intro count hcount
        exact .pure (forall_mem_some ⟨hcount, forall_mem_some hfirst⟩)
      · exact .pure (forall_mem_some ⟨hfirst, forall_mem_none⟩)
  · exact .pure forall_mem_none

theorem select_yields : Yields ts I.HoldsSelect (select expr) := by
  apply (expectKeyword_yields "SELECT").bind
  intro start _
  apply distinct_yields.bind
  intro distinct _
  apply (commaSeparated_yields (projection_yields he)).bind
  intro ps hps
  apply (expectKeyword_yields "FROM").bind
  intro _ _
  apply (commaSeparated_yields aliasedSource_yields).bind
  intro sources _
  apply (joins_yields he).bind
  intro js hjs
  apply (optionalAfter_yields he "WHERE").bind
  intro filter hfilter
  apply (listAfter_yields he "GROUP" "BY").bind
  intro groupBy hgroup
  apply (optionalAfter_yields he "HAVING").bind
  intro having hhaving
  apply (listAfter_yields (orderItem_yields he) "ORDER" "BY").bind
  intro orderBy horder
  apply (limit?_yields he).bind
  intro limit hlimit
  exact .pure (I.select hps hjs hfilter hgroup hhaving horder hlimit)

end clauses

/-! ### Expressions -/

section forms

variable {I : PrimaryClass} {below : Nat → Parse Expr}
  (hb : ∀ floor, Yields ts I.Holds (below floor))

theorem placeholderOf_yields (token : Token) : Passes ts (placeholderOf token) := by
  unfold placeholderOf
  split
  · split
    · exact .pure trivial
    · exact .throw _
  · exact .pure trivial

include hb

theorem selectInside_yields :
    Yields ts I.HoldsSelect (selectInside below) := by
  apply (select_yields (hb 0)).bind
  intro s hs
  exact (expectOperator_yields ")").bind fun _ _ => .pure hs

theorem whens_yields :
    Yields ts (fun ws => ∀ w ∈ ws, I.Holds w.condition ∧ I.Holds w.result) (whens below) := by
  refine whileSome_yields ?_ (List.forall_mem_nil _)
  intro found hfound
  apply (eatKeyword_yields "WHEN").bind
  intro b _
  split
  · apply (hb 0).bind
    intro condition hc
    apply (expectKeyword_yields "THEN").bind
    intro _ _
    apply (hb 0).bind
    intro result hr
    apply Yields.pure
    apply forall_mem_some
    exact List.forall_mem_append.mpr ⟨hfound, List.forall_mem_singleton.mpr ⟨hc, hr⟩⟩
  · exact .pure forall_mem_none

theorem caseForm_yields (p : Position) : Yields ts I.Holds (caseForm below p) := by
  have hrest (operand : Option Expr) (ho : ∀ e ∈ operand, I.Holds e) :
      Yields ts I.Holds (do
        let branches ← whens below
        if branches.isEmpty then failExpected ["WHEN"]
        let otherwise ← optionalAfter (below 0) "ELSE"
        if ← eatKeyword "END" then return .cases p operand branches otherwise
        else failExpected (if otherwise.isSome then ["END"] else ["WHEN", "ELSE", "END"])) := by
    apply (whens_yields hb).bind
    intro branches hbranches
    have hend : Yields ts I.Holds (do
        let otherwise ← optionalAfter (below 0) "ELSE"
        if ← eatKeyword "END" then return .cases p operand branches otherwise
        else failExpected (if otherwise.isSome then ["END"] else ["WHEN", "ELSE", "END"])) := by
      apply (optionalAfter_yields (hb 0) "ELSE").bind
      intro otherwise hotherwise
      apply (eatKeyword_yields "END").bind
      intro b _
      split
      · exact .pure (I.cases p ho hbranches hotherwise)
      · exact failExpected_yields _
    dsimp only
    split
    · exact (failExpected_yields (P := fun _ => True) _).bind fun _ _ => hend
    · exact hend
  apply (at?_yields _).bind
  intro b _
  split
  · exact hrest none forall_mem_none
  · have hoperand : Yields ts (fun o => ∀ e ∈ o, I.Holds e) (some <$> below 0) :=
      (hb 0).map fun _ he => forall_mem_some he
    exact hoperand.bind hrest

theorem inOperand_yields : Yields ts I.Holds (inOperand below) := by
  have hitem : Yields ts (fun item : Item => I.Holds item.value) (do
      return (⟨none, ← below 0⟩ : Item)) :=
    (hb 0).bind fun _ he => .pure he
  apply (expect_yields _ _).bind
  intro start _
  apply (at?_yields _).bind
  intro b _
  split
  · exact (selectInside_yields hb).bind fun _ hs => .pure (I.subquery _ hs)
  · apply (commaSeparated_yields hitem).bind
    intro items hitems
    apply (expectOperator_yields ")").bind
    intro _ _
    exact .pure (I.list _ hitems)

end forms

/-! ### Operators that no table says -/

section operators

variable {I : Hereditary} {below : Nat → Parse Expr}
  (hb : ∀ floor, Yields ts I.Holds (below floor))

include hb in
theorem betweenForm_yields {left : Expr} (hl : I.Holds left) (negated : Bool) :
    Yields ts I.Holds (betweenForm below left negated) := by
  apply (hb _).bind
  intro low hlow
  apply (expectKeyword_yields "AND").bind
  intro _ _
  apply (hb _).bind
  intro high hhigh
  exact .pure (I.between _ _ hl hlow hhigh)

theorem isNullForm_yields {left : Expr} (hl : I.Holds left) :
    Yields ts I.Holds (isNullForm left) := by
  apply next_yields.bind
  intro _ _
  apply (eatKeyword_yields "NOT").bind
  intro negated _
  exact (expectKeyword_yields "NULL").bind fun _ _ => .pure (I.isNull _ _ hl)

include hb in
theorem infixForm_yields {left : Expr} (hl : I.Holds left) (floor : Nat) :
    Yields ts (fun o => ∀ e ∈ o, I.Holds e) (infixForm below left floor) := by
  unfold infixForm
  split
  · exact .pure forall_mem_none
  apply peek_yields.bind
  intro o _
  cases o with
  | none => exact .pure forall_mem_none
  | some token =>
    dsimp only
    have hoperator : Passes ts
        (if token.isKeyword "NOT" then peekNth 1 else pure (some token)) := by
      split
      · exact (peekNth_yields 1).imp fun _ _ => trivial
      · exact .pure trivial
    apply hoperator.bind
    intro o _
    cases o with
    | none => exact .pure forall_mem_none
    | some operator =>
      dsimp only
      generalize (if token.isKeyword "NOT" = true then 2 else 1) = width
      split
      · apply (Grammar.takeTokens_yields width).bind
        intro _ _
        exact (betweenForm_yields hb hl _).map fun _ he => forall_mem_some he
      split
      · apply (Grammar.takeTokens_yields width).bind
        intro _ _
        apply (inOperand_yields hb).bind
        intro right hr
        exact .pure (forall_mem_some (I.binary _ _ hl hr))
      split
      · exact (isNullForm_yields hl).map fun _ he => forall_mem_some he
      · exact .pure forall_mem_none

end operators

/-! ### Forms with a type -/

theorem castTarget_passes : Passes ts castTarget := by
  apply expectIdentifier_yields.bind
  intro _ _
  apply (eatOperator_yields "(").bind
  intro b _
  split
  · apply (commaSeparated_yields (expect_yields _ _)).bind
    intro _ _
    exact (expectOperator_yields ")").bind fun _ _ => .pure trivial
  · exact .pure trivial

section types

variable {I : PrimaryClass} (ht : Yields ts I.CastType castTarget)

include ht

theorem castForm_yields {below : Nat → Parse Expr}
    (hb : ∀ floor, Yields ts I.Holds (below floor)) (p : Position) :
    Yields ts I.Holds (castForm below p) := by
  apply (expectOperator_yields "(").bind
  intro _ _
  apply (hb 0).bind
  intro e he
  apply (expectKeyword_yields "AS").bind
  intro _ _
  apply ht.bind
  intro target htarget
  apply (expectOperator_yields ")").bind
  intro _ _
  exact .pure (I.cast p he htarget)

theorem primaryForm_yields {below : Nat → Parse Expr}
    (hb : ∀ floor, Yields ts I.Holds (below floor)) :
    Yields ts (fun o => ∀ e ∈ o, I.Holds e) (primaryForm below) := by
  apply peek_yields.bind
  intro o _
  cases o with
  | none => exact .pure forall_mem_none
  | some token =>
    dsimp only
    have hname : Yields ts (fun o => ∀ e ∈ o, I.Holds e) (do
        let dot := ((← peekNth 1).map (·.isOperator ".")).getD false
        let star := ((← peekNth 2).map (·.isOperator "*")).getD false
        if dot && star then
          Grammar.takeTokens 3
          return some (.qualifiedStar token.position token.name)
        else return none) := by
      apply (peekNth_yields 1).bind
      intro _ _
      apply (peekNth_yields 2).bind
      intro _ _
      dsimp only
      split
      · apply (Grammar.takeTokens_yields 3).bind
        intro _ _
        exact .pure (forall_mem_some (I.qualifiedStar _ _))
      · exact .pure forall_mem_none
    split
    · apply next_yields.bind
      intro _ _
      apply (placeholderOf_yields token).bind
      intro _ _
      exact .pure (forall_mem_some (I.placeholder _ _))
    · exact hname
    · exact hname
    · split
      · apply next_yields.bind
        intro _ _
        exact (caseForm_yields hb _).map fun _ he => forall_mem_some he
      split
      · apply next_yields.bind
        intro _ _
        exact (castForm_yields ht hb _).map fun _ he => forall_mem_some he
      split
      · apply next_yields.bind
        intro _ _
        apply (expectOperator_yields "(").bind
        intro _ _
        apply (selectInside_yields hb).bind
        intro s hs
        exact .pure (forall_mem_some (I.existence _ hs))
      · exact .pure forall_mem_none
    · split
      · apply next_yields.bind
        intro _ _
        exact .pure (forall_mem_some (I.star _))
      split
      · apply (peekNth_yields 1).bind
        intro _ _
        split
        · apply next_yields.bind
          intro _ _
          apply (selectInside_yields hb).bind
          intro s hs
          exact .pure (forall_mem_some (I.subquery _ hs))
        · exact .pure forall_mem_none
      · exact .pure forall_mem_none
    · exact .pure forall_mem_none

end types

section statements

variable {I : Hereditary} (ht : Yields ts I.CastType castTarget)

include ht

theorem grammar_keeps : grammar.Keeps I ts where
  primaryForm _ hb := primaryForm_yields ht hb
  infixForm _ hb _ floor hl := infixForm_yields hb hl floor

theorem expression_yields : Yields ts I.Holds expression :=
  Grammar.expression_yields (grammar_keeps ht) 0

/-! ### Statements -/

theorem row_yields :
    Yields ts (fun values => ∀ e ∈ values, I.Holds e) row := by
  apply (expectOperator_yields "(").bind
  intro _ _
  apply (commaSeparated_yields (expression_yields ht)).bind
  intro values hvalues
  exact (expectOperator_yields ")").bind fun _ _ => .pure hvalues

omit ht in
theorem columnNames_yields : Passes ts columnNames := by
  apply (eatOperator_yields "(").bind
  intro b _
  split
  · apply (commaSeparated_yields expectIdentifier_yields).bind
    intro columns _
    exact (expectOperator_yields ")").bind fun _ _ => .pure trivial
  · exact .pure trivial

theorem insert_yields :
    Yields ts (fun s => HoldsStatement I.toPrimaryClass (.insert s)) insert := by
  apply (expectKeyword_yields "INSERT").bind
  intro start _
  apply (expectKeyword_yields "INTO").bind
  intro _ _
  apply sourceName_yields.bind
  intro source _
  apply columnNames_yields.bind
  intro columns _
  apply (expectKeyword_yields "VALUES").bind
  intro _ _
  apply (commaSeparated_yields (row_yields ht)).bind
  intro rows hrows
  exact .pure hrows

theorem assignment_yields :
    Yields ts (fun a : Assignment => I.Holds a.value) assignment := by
  apply expectIdentifier_yields.bind
  rintro ⟨column, p⟩ _
  apply (expectOperator_yields "=").bind
  intro _ _
  exact (expression_yields ht).bind fun _ he => .pure he

theorem update_yields :
    Yields ts (fun s => HoldsStatement I.toPrimaryClass (.update s)) update := by
  apply (expectKeyword_yields "UPDATE").bind
  intro start _
  apply sourceName_yields.bind
  intro source _
  apply (expectKeyword_yields "SET").bind
  intro _ _
  apply (commaSeparated_yields (assignment_yields ht)).bind
  intro assignments ha
  apply (optionalAfter_yields (expression_yields ht) "WHERE").bind
  intro filter hf
  apply (optionalAfter_yields (expression_yields ht) "LIMIT").bind
  intro limit hl
  exact .pure ⟨ha, hf, hl⟩

theorem delete_yields :
    Yields ts (fun s => HoldsStatement I.toPrimaryClass (.delete s)) delete := by
  apply (expectKeyword_yields "DELETE").bind
  intro start _
  apply (expectKeyword_yields "FROM").bind
  intro _ _
  apply sourceName_yields.bind
  intro source _
  apply (optionalAfter_yields (expression_yields ht) "WHERE").bind
  intro filter hf
  apply (optionalAfter_yields (expression_yields ht) "LIMIT").bind
  intro limit hl
  exact .pure ⟨hf, hl⟩

omit ht in
theorem endOfInput_yields {α : Type} {P : α → Prop} {a : α} (h : P a) :
    Yields ts P (endOfInput a) := by
  apply isEof_yields.bind
  intro b _
  split
  · exact .pure h
  · exact failExpected_yields _

theorem nonemptyStatement_yields (first : Token) :
    Yields ts (HoldsStatement I.toPrimaryClass) (nonemptyStatement first) := by
  have hend (s : Statement) (hs : HoldsStatement I.toPrimaryClass s) :
      Yields ts (HoldsStatement I.toPrimaryClass) (do
        let _ ← eatOperator ";"
        endOfInput s) := by
    apply (eatOperator_yields ";").bind
    intro _ _
    exact endOfInput_yields hs
  unfold nonemptyStatement
  dsimp only
  split
  · refine .bind ?_ hend
    exact (select_yields (expression_yields ht)).map fun _ hs => hs
  split
  · refine .bind ?_ hend
    exact (insert_yields ht).map fun _ hs => hs
  split
  · refine .bind ?_ hend
    exact (update_yields ht).map fun _ hs => hs
  split
  · refine .bind ?_ hend
    exact (delete_yields ht).map fun _ hs => hs
  · exact (failExpected_yields _).bind hend

theorem statement_yields :
    Yields ts (HoldsStatement I.toPrimaryClass) statement := by
  apply peek_yields.bind
  intro o _
  cases o with
  | none => exact .pure trivial
  | some token =>
    dsimp only
    split
    · exact next_yields.bind fun _ _ => endOfInput_yields trivial
    · exact nonemptyStatement_yields ht token

end statements

theorem parse_holds {I : Hereditary} {source : String} {s : Statement}
    (ht : Yields (scan table source).tokens I.CastType castTarget) (h : parse source = .ok s) :
    HoldsStatement I.toPrimaryClass s := by
  obtain ⟨c', hrun⟩ := exists_of_run? h
  exact ((statement_yields ht).of_ok _ List.suffix_rfl s c' hrun).2

end EmbeddedLang.Query
