import EmbeddedLang.Proofs.Parser.RelocatedExpressions
import EmbeddedLang.Query.Statement

/-!
Statements at other places.
-/

namespace EmbeddedLang.Query

open Parse

section relocate

variable (f : Position → Position)

def Insert.relocate (s : Insert) : Insert where
  source := s.source.relocate f
  columns := s.columns.map (Prod.map id f)
  rows := s.rows.map (relocateExprs f)
  position := f s.position

def Assignment.relocate (a : Assignment) : Assignment where
  column := a.column
  position := f a.position
  value := a.value.relocate f

def Update.relocate (s : Update) : Update where
  source := s.source.relocate f
  assignments := s.assignments.map (Assignment.relocate f)
  filter := relocateOption f s.filter
  limit := relocateOption f s.limit
  position := f s.position

def Delete.relocate (s : Delete) : Delete where
  source := s.source.relocate f
  filter := relocateOption f s.filter
  limit := relocateOption f s.limit
  position := f s.position

def Statement.relocate : Statement → Statement
  | .select s => .select (s.relocate f)
  | .insert s => .insert (s.relocate f)
  | .update s => .update (s.relocate f)
  | .delete s => .delete (s.relocate f)
  | .empty => .empty

end relocate

/-! ### The places that a statement names -/

def Insert.positions (s : Insert) : List Position :=
  s.position :: s.source.position :: (s.columns.map Prod.snd ++ s.rows.flatMap positionsOfExprs)

def Assignment.positions (a : Assignment) : List Position :=
  a.position :: a.value.positions

def Update.positions (s : Update) : List Position :=
  s.position :: s.source.position :: (s.assignments.flatMap Assignment.positions ++
    positionsOfOption s.filter ++ positionsOfOption s.limit)

def Delete.positions (s : Delete) : List Position :=
  s.position :: s.source.position :: (positionsOfOption s.filter ++ positionsOfOption s.limit)

def Statement.positions : Statement → List Position
  | .select s => s.positions
  | .insert s => s.positions
  | .update s => s.positions
  | .delete s => s.positions
  | .empty => []

variable {f : Position → Position} {strict : Bool}

theorem Insert.positions_relocate (s : Insert) :
    (s.relocate f).positions = s.positions.map f := by
  simp [relocate, positions, Source.relocate, List.flatMap_map, List.map_flatMap,
    positionsOfExprs_relocate]

theorem Assignment.positions_relocate (a : Assignment) :
    (a.relocate f).positions = a.positions.map f := by
  simp [relocate, positions, Expr.positions_relocate]

theorem Update.positions_relocate (s : Update) :
    (s.relocate f).positions = s.positions.map f := by
  simp [relocate, positions, Source.relocate, List.flatMap_map, List.map_flatMap,
    Assignment.positions_relocate, positionsOfOption_relocate]

theorem Delete.positions_relocate (s : Delete) :
    (s.relocate f).positions = s.positions.map f := by
  simp [relocate, positions, Source.relocate, positionsOfOption_relocate]

theorem Statement.positions_relocate (s : Statement) :
    (s.relocate f).positions = s.positions.map f := by
  cases s with
  | select s => exact s.positions_relocate f
  | insert s => exact s.positions_relocate
  | update s => exact s.positions_relocate
  | delete s => exact s.positions_relocate
  | empty => rfl

/-! ### Moving twice -/

section relocate_relocate

variable (f g : Position → Position)

theorem Insert.relocate_relocate (s : Insert) :
    (s.relocate f).relocate g = s.relocate (g ∘ f) := by
  simp [relocate, Source.relocate, relocateExprs_relocateExprs]

theorem Assignment.relocate_relocate (a : Assignment) :
    (a.relocate f).relocate g = a.relocate (g ∘ f) := by
  simp [relocate, Expr.relocate_relocate]

theorem Update.relocate_relocate (s : Update) :
    (s.relocate f).relocate g = s.relocate (g ∘ f) := by
  simp [relocate, Source.relocate, Assignment.relocate_relocate, relocateOption_relocateOption]

theorem Delete.relocate_relocate (s : Delete) :
    (s.relocate f).relocate g = s.relocate (g ∘ f) := by
  simp [relocate, Source.relocate, relocateOption_relocateOption]

theorem Statement.relocate_relocate (s : Statement) :
    (s.relocate f).relocate g = s.relocate (g ∘ f) := by
  cases s with
  | select s => exact congrArg Statement.select (s.relocate_relocate f g)
  | insert s => exact congrArg Statement.insert (s.relocate_relocate f g)
  | update s => exact congrArg Statement.update (s.relocate_relocate f g)
  | delete s => exact congrArg Statement.delete (s.relocate_relocate f g)
  | empty => rfl

end relocate_relocate

/-! ### Clauses -/

theorem aliasName?_relocates : Keeps f strict aliasName? aliasName? := by
  apply (eatKeyword_relocates "AS").bind
  intro found
  split
  · exact expectIdentifier_relocates.bind fun name => .pure rfl
  · apply atIdentifier_relocates.bind
    intro found
    split
    · exact expectIdentifier_relocates.bind fun name => .pure rfl
    · exact .pure rfl

theorem sourceName_relocates : Moves f strict (Source.relocate f) sourceName sourceName :=
  expectIdentifier_relocates.bind fun _ => .pure rfl

theorem aliasedSource_relocates :
    Moves f strict (Source.relocate f) aliasedSource aliasedSource := by
  apply sourceName_relocates.bind
  intro source
  exact aliasName?_relocates.bind fun aliasName => .pure rfl

theorem direction?_relocates : Keeps f strict direction? direction? := by
  apply (eatKeyword_relocates "ASC").bind
  intro found
  split
  · exact .pure rfl
  · apply (eatKeyword_relocates "DESC").bind
    intro found
    split
    · exact .pure rfl
    · exact .pure rfl

theorem distinct_relocates : Keeps f strict distinct distinct := by
  apply (eatKeyword_relocates "DISTINCT").bind
  intro found
  split
  · exact .pure rfl
  · exact (eatKeyword_relocates "ALL").bind fun _ => .pure rfl

theorem outerJoin_relocates (kind : JoinKind) :
    Keeps f strict (outerJoin kind) (outerJoin kind) :=
  (eatKeyword_relocates "OUTER").bind fun _ => .pure rfl

theorem joinWords?_relocates : Keeps f strict joinWords? joinWords? := by
  apply (eatKeyword_relocates "INNER").bind
  intro found
  split
  · exact .pure rfl
  apply (eatKeyword_relocates "CROSS").bind
  intro found
  split
  · exact .pure rfl
  apply (eatKeyword_relocates "LEFT").bind
  intro found
  split
  · exact outerJoin_relocates .left
  apply (eatKeyword_relocates "RIGHT").bind
  intro found
  split
  · exact outerJoin_relocates .right
  apply (eatKeyword_relocates "FULL").bind
  intro found
  split
  · exact outerJoin_relocates .full
  · exact .pure rfl

theorem joinKind?_relocates : Keeps f strict joinKind? joinKind? := by
  apply (eatKeyword_relocates "JOIN").bind
  intro found
  split
  · exact .pure rfl
  apply joinWords?_relocates.bind
  intro kind
  dsimp only
  split
  · exact (expectKeyword_relocates "JOIN").bind fun _ _ _ => .pure rfl
  · exact .pure rfl

section clauses

variable {expr : Parse Expr} (he : Moves f strict (Expr.relocate f) expr expr)

theorem listAfter_relocates {α : Type} {r : α → α} {item : Parse α}
    (hi : Moves f strict r item item) (first second : String) :
    Moves f strict (List.map r) (listAfter first second item) (listAfter first second item) := by
  apply (eatKeyword_relocates first).bind
  intro found
  split
  · apply (expectKeyword_relocates second).bind
    intro _ _ _
    exact commaSeparated_relocates hi
  · exact .pure rfl

include he

theorem optionalAfter_relocates (word : String) :
    Moves f strict (relocateOption f) (optionalAfter expr word) (optionalAfter expr word) := by
  apply (eatKeyword_relocates word).bind
  intro found
  split
  · exact he.bind fun e => .pure rfl
  · exact .pure rfl

theorem projection_relocates :
    Moves f strict (Projection.relocate f) (projection expr) (projection expr) := by
  apply he.bind
  intro e
  exact aliasName?_relocates.bind fun aliasName => .pure rfl

theorem join?_relocates :
    Moves f strict (Option.map (Join.relocate f)) (join? expr) (join? expr) := by
  apply position_relocates.bind
  intro p
  apply joinKind?_relocates.bind
  intro kind
  cases kind with
  | none => exact .pure rfl
  | some kind =>
    apply aliasedSource_relocates.bind
    intro source
    dsimp only
    split
    · exact .pure rfl
    · exact (optionalAfter_relocates he "ON").bind fun condition => .pure rfl

theorem joins_relocates : Moves f strict (relocateJoins f) (joins expr) (joins expr) := by
  rw [relocateJoins_eq_map]
  apply whileSome_relocates _ []
  intro found
  apply (join?_relocates he).bind
  intro join
  cases join with
  | none => exact .pure rfl
  | some join => exact .pure (by simp)

theorem orderItem_relocates :
    Moves f strict (OrderItem.relocate f) (orderItem expr) (orderItem expr) := by
  apply he.bind
  intro e
  exact direction?_relocates.bind fun direction => .pure rfl

theorem limit?_relocates : Moves f strict (relocateLimit f) (limit? expr) (limit? expr) := by
  apply (eatKeyword_relocates "LIMIT").bind
  intro found
  split
  · apply he.bind
    intro first
    apply (eatKeyword_relocates "OFFSET").bind
    intro found
    split
    · exact he.bind fun offset => .pure rfl
    · apply (eatOperator_relocates ",").bind
      intro found
      split
      · exact he.bind fun count => .pure rfl
      · exact .pure rfl
  · exact .pure rfl

theorem select_relocates : Moves f strict (Select.relocate f) (select expr) (select expr) := by
  apply (expectKeyword_relocates "SELECT").bind
  intro start start' hstart
  apply distinct_relocates.bind
  intro distinct
  apply (commaSeparated_relocates (projection_relocates he)).bind
  intro projections
  apply (expectKeyword_relocates "FROM").bind
  intro _ _ _
  apply (commaSeparated_relocates aliasedSource_relocates).bind
  intro sources
  apply (joins_relocates he).bind
  intro joins
  apply (optionalAfter_relocates he "WHERE").bind
  intro filter
  apply (listAfter_relocates he "GROUP" "BY").bind
  intro groupBy
  apply (optionalAfter_relocates he "HAVING").bind
  intro having
  apply (listAfter_relocates (orderItem_relocates he) "ORDER" "BY").bind
  intro orderBy
  apply (limit?_relocates he).bind
  intro limit
  apply Relocates.pure
  rw [hstart, Select.relocate, relocateProjections_eq_map, relocateExprs_eq_map,
    relocateOrders_eq_map]

end clauses

/-! ### Expressions -/

section forms

variable {below : Nat → Parse Expr}
  (hb : ∀ floor, Moves f strict (Expr.relocate f) (below floor) (below floor))

theorem placeholderOf_relocates {a b : Token} (hab : a.Alike f strict b)
    (hlexeme : b.lexeme = a.lexeme) : Keeps f strict (placeholderOf a) (placeholderOf b) := by
  unfold placeholderOf
  rw [hlexeme, hab.position]
  split
  · split
    · exact .pure rfl
    · exact .throw rfl rfl
  · exact .pure rfl

theorem castTarget_relocates : Keeps f strict castTarget castTarget := by
  apply expectIdentifier_relocates.bind
  intro name
  apply (eatOperator_relocates "(").bind
  intro found
  split
  · have hsize : Moves f strict (fun a : Token => { a with position := f a.position })
        (expectKind .integer) (expectKind .integer) := by
      apply (expectKind_relocates .integer).imp
      rintro ⟨kind, lexeme, p⟩ ⟨kind', lexeme', p'⟩ ⟨hab, rfl⟩
      obtain rfl : kind' = .integer := hab.kind
      obtain rfl : p' = f p := hab.position
      obtain rfl : lexeme' = lexeme := hab.lexeme_of_kind rfl
      rfl
    apply (commaSeparated_relocates hsize).bind
    intro sizes
    refine (expectOperator_relocates ")").bind fun _ _ _ => .pure ?_
    rw [List.map_map]
    rfl
  · exact .pure rfl

theorem isNullForm_relocates (left : Expr) :
    Moves f strict (Expr.relocate f) (isNullForm left) (isNullForm (left.relocate f)) := by
  unfold isNullForm
  rw [left.position_relocate]
  apply take_bind
  apply (eatKeyword_relocates "NOT").bind
  intro negated
  exact (expectKeyword_relocates "NULL").bind fun _ _ _ => .pure rfl

/-- A name with a dot and a star behind it. -/
theorem qualifiedStarForm_relocates {a b : Token} (hab : a.Alike f strict b)
    (hname : b.name = a.name) :
    Moves f strict (Option.map (Expr.relocate f))
      (do
        let dot := ((← peekNth 1).map (·.isOperator ".")).getD false
        let star := ((← peekNth 2).map (·.isOperator "*")).getD false
        if dot && star then
          Grammar.takeTokens 3
          return some (.qualifiedStar a.position a.name)
        else return none)
      (do
        let dot := ((← peekNth 1).map (·.isOperator ".")).getD false
        let star := ((← peekNth 2).map (·.isOperator "*")).getD false
        if dot && star then
          Grammar.takeTokens 3
          return some (.qualifiedStar b.position b.name)
        else return none) := by
  have hoperator {o o' : Option Token} (h : Option.Rel (Token.Alike f strict) o o') (op : String) :
      (o'.map (·.isOperator op)).getD false = (o.map (·.isOperator op)).getD false := by
    cases h with
    | some h => simp [h.isOperator]
    | none => rfl
  rw [hname, hab.position]
  apply (peekNth_relocates 1).bind
  intro dot dot' hdot
  apply (peekNth_relocates 2).bind
  intro star star' hstar
  dsimp only
  rw [hoperator hdot, hoperator hstar]
  split
  · exact (Grammar.takeTokens_relocates 3).bind fun _ => .pure rfl
  · exact .pure rfl

include hb

theorem selectInside_relocates :
    Moves f strict (Select.relocate f) (selectInside below) (selectInside below) := by
  apply (select_relocates (hb 0)).bind
  intro inner
  exact (expectOperator_relocates ")").bind fun _ _ _ => .pure rfl

theorem whens_relocates : Moves f strict (relocateWhens f) (whens below) (whens below) := by
  rw [relocateWhens_eq_map]
  apply whileSome_relocates _ []
  intro found
  apply (eatKeyword_relocates "WHEN").bind
  intro ahead
  split
  · apply (hb 0).bind
    intro condition
    apply (expectKeyword_relocates "THEN").bind
    intro _ _ _
    apply (hb 0).bind
    intro result
    exact .pure (by simp [When.relocate])
  · exact .pure rfl

theorem caseForm_relocates (p : Position) :
    Moves f strict (Expr.relocate f) (caseForm below p) (caseForm below (f p)) := by
  have hend (operand : Option Expr) (branches : List When) : Moves f strict (Expr.relocate f)
      (do
        let otherwise ← optionalAfter (below 0) "ELSE"
        if ← eatKeyword "END" then return .cases p operand branches otherwise
        else failExpected (if otherwise.isSome then ["END"] else ["WHEN", "ELSE", "END"]))
      (do
        let otherwise ← optionalAfter (below 0) "ELSE"
        if ← eatKeyword "END" then
          return .cases (f p) (relocateOption f operand) (relocateWhens f branches) otherwise
        else failExpected (if otherwise.isSome then ["END"] else ["WHEN", "ELSE", "END"])) := by
    apply (optionalAfter_relocates (hb 0) "ELSE").bind
    intro otherwise
    have hsome : (relocateOption f otherwise).isSome = otherwise.isSome := by
      cases otherwise <;> rfl
    rw [hsome]
    apply (eatKeyword_relocates "END").bind
    intro found
    split
    · exact .pure rfl
    · exact failExpected_relocates _
  have hrest (operand : Option Expr) : Moves f strict (Expr.relocate f)
      (do
        let branches ← whens below
        if branches.isEmpty then failExpected ["WHEN"]
        let otherwise ← optionalAfter (below 0) "ELSE"
        if ← eatKeyword "END" then return .cases p operand branches otherwise
        else failExpected (if otherwise.isSome then ["END"] else ["WHEN", "ELSE", "END"]))
      (do
        let branches ← whens below
        if branches.isEmpty then failExpected ["WHEN"]
        let otherwise ← optionalAfter (below 0) "ELSE"
        if ← eatKeyword "END" then
          return .cases (f p) (relocateOption f operand) branches otherwise
        else failExpected (if otherwise.isSome then ["END"] else ["WHEN", "ELSE", "END"])) := by
    apply (whens_relocates hb).bind
    intro branches
    have hempty : (relocateWhens f branches).isEmpty = branches.isEmpty := by
      cases branches <;> rfl
    dsimp only
    rw [hempty]
    split
    · exact (failExpected_relocates (S := fun _ _ => True) _).bind fun _ _ _ => hend operand branches
    · exact hend operand branches
  apply (atKeyword_relocates "WHEN").bind
  intro found
  split
  · exact hrest none
  · have hoperand : Moves f strict (relocateOption f) (some <$> below 0) (some <$> below 0) :=
      (hb 0).map fun _ => rfl
    exact hoperand.bind hrest

theorem castForm_relocates (p : Position) :
    Moves f strict (Expr.relocate f) (castForm below p) (castForm below (f p)) := by
  apply (expectOperator_relocates "(").bind
  intro _ _ _
  apply (hb 0).bind
  intro e
  apply (expectKeyword_relocates "AS").bind
  intro _ _ _
  apply castTarget_relocates.bind
  intro target
  exact (expectOperator_relocates ")").bind fun _ _ _ => .pure rfl

theorem inOperand_relocates :
    Moves f strict (Expr.relocate f) (inOperand below) (inOperand below) := by
  have hitem : Moves f strict (Item.relocate f) (do return (⟨none, ← below 0⟩ : Item))
      (do return (⟨none, ← below 0⟩ : Item)) :=
    (hb 0).bind fun e => .pure rfl
  apply (expectOperator_relocates "(").bind
  intro start start' hstart
  rw [hstart]
  apply (atKeyword_relocates "SELECT").bind
  intro found
  split
  · exact (selectInside_relocates hb).bind fun inner => .pure rfl
  · apply (commaSeparated_relocates hitem).bind
    intro items
    refine (expectOperator_relocates ")").bind fun _ _ _ => .pure ?_
    rw [Expr.relocate, relocateItems_eq_map]

theorem betweenForm_relocates (left : Expr) (negated : Bool) :
    Moves f strict (Expr.relocate f) (betweenForm below left negated)
      (betweenForm below (left.relocate f) negated) := by
  unfold betweenForm
  rw [left.position_relocate]
  apply (hb (comparison + 1)).bind
  intro low
  apply (expectKeyword_relocates "AND").bind
  intro _ _ _
  exact (hb (comparison + 1)).bind fun high => .pure rfl

theorem primaryForm_relocates :
    Moves f strict (Option.map (Expr.relocate f)) (primaryForm below) (primaryForm below) := by
  apply peek_relocates.bind
  rintro _ _ (hab | _)
  · next a b =>
    dsimp only
    rw [hab.kind]
    cases hk : a.kind with
    | placeholder =>
      dsimp only
      rw [hab.position]
      apply take_bind
      apply (placeholderOf_relocates hab (hab.lexeme_of_kind (by rw [hk]; rfl))).bind
      exact fun value => .pure rfl
    | identifier | quotedIdentifier =>
      exact qualifiedStarForm_relocates hab (hab.name (by rw [hk]; exact Bool.noConfusion))
    | keyword word =>
      dsimp only
      rw [hab.position]
      split
      · apply take_bind
        exact (caseForm_relocates hb _).map fun _ => rfl
      split
      · apply take_bind
        exact (castForm_relocates hb _).map fun _ => rfl
      split
      · apply take_bind
        apply (expectOperator_relocates "(").bind
        intro _ _ _
        exact (selectInside_relocates hb).bind fun inner => .pure rfl
      · exact .pure rfl
    | operator op =>
      dsimp only
      rw [hab.position]
      split
      · exact take_bind (.pure rfl)
      split
      · apply (peekNth_relocates 1).bind
        intro second second' hsecond
        have hselect : (second'.map (·.isKeyword "SELECT")).getD false =
            (second.map (·.isKeyword "SELECT")).getD false := by
          cases hsecond with
          | some h => simp [h.isKeyword]
          | none => rfl
        rw [hselect]
        split
        · apply take_bind
          exact (selectInside_relocates hb).bind fun inner => .pure rfl
        · exact .pure rfl
      · exact .pure rfl
    | _ => exact .pure rfl
  · exact .pure rfl

theorem infixForm_relocates (left : Expr) (floor : Nat) :
    Moves f strict (Option.map (Expr.relocate f)) (infixForm below left floor)
      (infixForm below (left.relocate f) floor) := by
  unfold infixForm
  rw [left.position_relocate]
  split
  · exact .pure rfl
  apply peek_relocates.bind
  rintro _ _ (hab | _)
  · next a b =>
    dsimp only
    rw [hab.isKeyword]
    have hoperator : Relocates f strict (Option.Rel (Token.Alike f strict))
        (if a.isKeyword "NOT" then peekNth 1 else pure (some a))
        (if a.isKeyword "NOT" then peekNth 1 else pure (some b)) := by
      split
      · exact peekNth_relocates 1
      · exact .pure (.some hab)
    apply hoperator.bind
    rintro _ _ (hop | _)
    · dsimp only
      simp only [hop.isKeyword]
      generalize (if a.isKeyword "NOT" = true then 2 else 1) = width
      split
      · apply (Grammar.takeTokens_relocates width).bind
        intro _
        exact (betweenForm_relocates hb left _).map fun _ => rfl
      split
      · apply (Grammar.takeTokens_relocates width).bind
        intro _
        exact (inOperand_relocates hb).bind fun right => .pure rfl
      split
      · exact (isNullForm_relocates left).map fun _ => rfl
      · exact .pure rfl
    · exact .pure rfl
  · exact .pure rfl

end forms

theorem grammar_passesPlaces : grammar.PassesPlaces f strict where
  primaryForm _ hb := primaryForm_relocates hb
  infixForm _ hb := infixForm_relocates hb

theorem expression_relocates : Moves f strict (Expr.relocate f) expression expression :=
  Grammar.expression_relocates grammar_passesPlaces 0

/-! ### Statements -/

theorem row_relocates : Moves f strict (relocateExprs f) row row := by
  rw [relocateExprs_eq_map]
  apply (expectOperator_relocates "(").bind
  intro _ _ _
  apply (commaSeparated_relocates expression_relocates).bind
  intro values
  exact (expectOperator_relocates ")").bind fun _ _ _ => .pure rfl

theorem columnNames_relocates :
    Moves f strict (List.map (Prod.map id f)) columnNames columnNames := by
  apply (eatOperator_relocates "(").bind
  intro found
  split
  · apply (commaSeparated_relocates expectIdentifier_relocates).bind
    intro columns
    exact (expectOperator_relocates ")").bind fun _ _ _ => .pure rfl
  · exact .pure rfl

theorem insert_relocates : Moves f strict (Insert.relocate f) insert insert := by
  apply (expectKeyword_relocates "INSERT").bind
  intro start start' hstart
  apply (expectKeyword_relocates "INTO").bind
  intro _ _ _
  apply sourceName_relocates.bind
  intro source
  apply columnNames_relocates.bind
  intro columns
  apply (expectKeyword_relocates "VALUES").bind
  intro _ _ _
  apply (commaSeparated_relocates row_relocates).bind
  intro rows
  exact .pure (by rw [hstart]; rfl)

theorem assignment_relocates : Moves f strict (Assignment.relocate f) assignment assignment := by
  apply expectIdentifier_relocates.bind
  intro column
  apply (expectOperator_relocates "=").bind
  intro _ _ _
  exact expression_relocates.bind fun value => .pure rfl

theorem update_relocates : Moves f strict (Update.relocate f) update update := by
  apply (expectKeyword_relocates "UPDATE").bind
  intro start start' hstart
  apply sourceName_relocates.bind
  intro source
  apply (expectKeyword_relocates "SET").bind
  intro _ _ _
  apply (commaSeparated_relocates assignment_relocates).bind
  intro assignments
  apply (optionalAfter_relocates expression_relocates "WHERE").bind
  intro filter
  apply (optionalAfter_relocates expression_relocates "LIMIT").bind
  intro limit
  exact .pure (by rw [hstart]; rfl)

theorem delete_relocates : Moves f strict (Delete.relocate f) delete delete := by
  apply (expectKeyword_relocates "DELETE").bind
  intro start start' hstart
  apply (expectKeyword_relocates "FROM").bind
  intro _ _ _
  apply sourceName_relocates.bind
  intro source
  apply (optionalAfter_relocates expression_relocates "WHERE").bind
  intro filter
  apply (optionalAfter_relocates expression_relocates "LIMIT").bind
  intro limit
  exact .pure (by rw [hstart]; rfl)

theorem endOfInput_relocates {α β : Type} {r : α → β} (a : α) :
    Moves f strict r (endOfInput a) (endOfInput (r a)) := by
  apply isEof_relocates.bind
  intro found
  split
  · exact .pure rfl
  · exact failExpected_relocates _

theorem nonemptyStatement_relocates {a b : Token} (hab : a.Alike f strict b) :
    Moves f strict (Statement.relocate f) (nonemptyStatement a) (nonemptyStatement b) := by
  have hend (s : Statement) : Moves f strict (Statement.relocate f)
      (do
        let _ ← eatOperator ";"
        endOfInput s)
      (do
        let _ ← eatOperator ";"
        endOfInput (s.relocate f)) :=
    (eatOperator_relocates ";").bind fun _ => endOfInput_relocates s
  unfold nonemptyStatement
  simp only [hab.isKeyword]
  split
  · refine Moves.bind ?_ hend
    exact (select_relocates expression_relocates).map fun _ => rfl
  split
  · refine Moves.bind ?_ hend
    exact insert_relocates.map fun _ => rfl
  split
  · refine Moves.bind ?_ hend
    exact update_relocates.map fun _ => rfl
  split
  · refine Moves.bind ?_ hend
    exact delete_relocates.map fun _ => rfl
  · exact Moves.bind (failExpected_relocates _) hend

theorem statement_relocates : Moves f strict (Statement.relocate f) statement statement := by
  apply peek_relocates.bind
  rintro _ _ (hab | _)
  · next a b =>
    dsimp only
    rw [hab.isOperator]
    split
    · exact take_bind (endOfInput_relocates Statement.empty)
    · exact nonemptyStatement_relocates hab
  · exact .pure rfl

end EmbeddedLang.Query
