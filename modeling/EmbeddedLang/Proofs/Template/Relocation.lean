import EmbeddedLang.Proofs.Parser.RelocatedExpressions
import EmbeddedLang.Template.Parsing

/-!
Template trees at other places.

A test of a value may bear the name of a keyword, and so the cursors here are strictly alike.
-/

namespace EmbeddedLang.Template

open Parse

section relocate

variable (f : Position → Position)

def Assignment.relocate (a : Assignment) : Assignment :=
  { a with value := a.value.relocate f, position := f a.position }

mutual

def Node.relocate : Node → Node
  | .text p text => .text (f p) text
  | .echo p e raw => .echo (f p) (e.relocate f) raw
  | .choice p branches otherwise =>
    .choice (f p) (relocateBranches branches) (relocateOptional otherwise)
  | .loop p key value iterable filter body otherwise =>
    .loop (f p) key value (iterable.relocate f) (relocateOption f filter) (relocateNodes body)
      (relocateOptional otherwise)
  | .assignments p as => .assignments (f p) (as.map (Assignment.relocate f))
  | .block p name body => .block (f p) name (relocateNodes body)
  | .parent p template => .parent (f p) template
  | .inclusion p template context =>
    .inclusion (f p) (template.relocate f) (relocateOption f context)
  | .definition p name params body => .definition (f p) name params (relocateNodes body)
  | .fragment p key lifetime body => .fragment (f p) (key.relocate f) lifetime (relocateNodes body)
  | .autoescape p enabled body => .autoescape (f p) enabled (relocateNodes body)
  | .evaluation p e => .evaluation (f p) (e.relocate f)
  | .leave p => .leave (f p)
  | .proceed p => .proceed (f p)
  | .tag p name args => .tag (f p) name (relocateExprs f args)
  | .endTag p name => .endTag (f p) name

def relocateNodes : List Node → List Node
  | [] => []
  | n :: rest => n.relocate :: relocateNodes rest

def relocateOptional : Option (List Node) → Option (List Node)
  | none => none
  | some body => some (relocateNodes body)

def Branch.relocate : Branch → Branch
  | ⟨condition, body⟩ => ⟨condition.relocate f, relocateNodes body⟩

def relocateBranches : List Branch → List Branch
  | [] => []
  | b :: rest => b.relocate :: relocateBranches rest

end

theorem relocateNodes_append (nodes rest : List Node) :
    relocateNodes f (nodes ++ rest) = relocateNodes f nodes ++ relocateNodes f rest := by
  induction nodes with
  | nil => rfl
  | cons n nodes ih => rw [List.cons_append, relocateNodes, relocateNodes, ih, List.cons_append]

theorem relocateBranches_append (branches rest : List Branch) :
    relocateBranches f (branches ++ rest) = relocateBranches f branches ++ relocateBranches f rest
    := by
  induction branches with
  | nil => rfl
  | cons b branches ih =>
    rw [List.cons_append, relocateBranches, relocateBranches, ih, List.cons_append]

def Body.relocate (b : Body) : Body :=
  { b with nodes := relocateNodes f b.nodes }

@[simp]
theorem Body.started_relocate (b : Body) : (b.relocate f).started = b.started := rfl

@[simp]
theorem Body.child_relocate (b : Body) : (b.relocate f).child = b.child := rfl

@[simp]
theorem Body.closer_relocate (b : Body) : (b.relocate f).closer = b.closer := rfl

theorem Body.push_relocate (b : Body) (n : Node) :
    (b.relocate f).push (n.relocate f) = (b.push n).relocate f := by
  simp [relocate, push, relocateNodes_append, relocateNodes]

end relocate

/-! ### The places that a tree names -/

def Assignment.positions (a : Assignment) : List Position :=
  a.position :: a.value.positions

mutual

def Node.positions : Node → List Position
  | .text p _ | .parent p _ | .leave p | .proceed p | .endTag p _ => [p]
  | .echo p e _ | .evaluation p e => p :: e.positions
  | .choice p branches otherwise =>
    p :: (positionsOfBranches branches ++ positionsOfOptional otherwise)
  | .loop p _ _ iterable filter body otherwise =>
    p :: (iterable.positions ++ positionsOfOption filter ++ positionsOfNodes body ++
      positionsOfOptional otherwise)
  | .assignments p as => p :: as.flatMap Assignment.positions
  | .block p _ body | .definition p _ _ body | .autoescape p _ body => p :: positionsOfNodes body
  | .inclusion p template context => p :: (template.positions ++ positionsOfOption context)
  | .fragment p key _ body => p :: (key.positions ++ positionsOfNodes body)
  | .tag p _ args => p :: positionsOfExprs args

def positionsOfNodes : List Node → List Position
  | [] => []
  | n :: rest => n.positions ++ positionsOfNodes rest

def positionsOfOptional : Option (List Node) → List Position
  | none => []
  | some body => positionsOfNodes body

def Branch.positions : Branch → List Position
  | ⟨condition, body⟩ => condition.positions ++ positionsOfNodes body

def positionsOfBranches : List Branch → List Position
  | [] => []
  | b :: rest => b.positions ++ positionsOfBranches rest

end

section positions

variable (f : Position → Position)

theorem Assignment.positions_relocate (a : Assignment) :
    (a.relocate f).positions = a.positions.map f := by
  simp [relocate, positions, Expr.positions_relocate]

mutual

theorem Node.positions_relocate : ∀ n : Node, (n.relocate f).positions = n.positions.map f
  | .text .. | .parent .. | .leave _ | .proceed _ | .endTag .. => rfl
  | .echo _ e _ | .evaluation _ e => by
    simp [Node.relocate, Node.positions, e.positions_relocate]
  | .choice _ branches otherwise => by
    simp [Node.relocate, Node.positions, positionsOfBranches_relocate branches,
      positionsOfOptional_relocate otherwise]
  | .loop _ _ _ iterable filter body otherwise => by
    simp [Node.relocate, Node.positions, iterable.positions_relocate,
      positionsOfOption_relocate, positionsOfNodes_relocate body,
      positionsOfOptional_relocate otherwise]
  | .assignments _ as => by
    simp [Node.relocate, Node.positions, List.flatMap_map, List.map_flatMap,
      Assignment.positions_relocate]
  | .block _ _ body | .definition _ _ _ body | .autoescape _ _ body => by
    simp [Node.relocate, Node.positions, positionsOfNodes_relocate body]
  | .inclusion _ template context => by
    simp [Node.relocate, Node.positions, template.positions_relocate, positionsOfOption_relocate]
  | .fragment _ key _ body => by
    simp [Node.relocate, Node.positions, key.positions_relocate, positionsOfNodes_relocate body]
  | .tag _ _ args => by simp [Node.relocate, Node.positions, positionsOfExprs_relocate]

theorem positionsOfNodes_relocate : ∀ nodes : List Node,
    positionsOfNodes (relocateNodes f nodes) = (positionsOfNodes nodes).map f
  | [] => rfl
  | n :: rest => by
    simp [relocateNodes, positionsOfNodes, n.positions_relocate, positionsOfNodes_relocate rest]

theorem positionsOfOptional_relocate : ∀ body : Option (List Node),
    positionsOfOptional (relocateOptional f body) = (positionsOfOptional body).map f
  | none => rfl
  | some body => positionsOfNodes_relocate body

theorem Branch.positions_relocate : ∀ b : Branch, (b.relocate f).positions = b.positions.map f
  | ⟨condition, body⟩ => by
    simp [Branch.relocate, Branch.positions, condition.positions_relocate,
      positionsOfNodes_relocate body]

theorem positionsOfBranches_relocate : ∀ branches : List Branch,
    positionsOfBranches (relocateBranches f branches) = (positionsOfBranches branches).map f
  | [] => rfl
  | b :: rest => by
    simp [relocateBranches, positionsOfBranches, b.positions_relocate,
      positionsOfBranches_relocate rest]

end

end positions

variable {f : Position → Position}

/-! ### Expressions -/

section forms

variable {below : Nat → Parse Expr}
  (hb : ∀ floor, Moves f true (Expr.relocate f) (below floor) (below floor))

theorem testName_relocates : Keeps f true testName testName := by
  apply peek_relocates.bind
  rintro _ _ (hab | _)
  · next a b =>
    dsimp only
    rw [hab.kind, hab.isKeyword, hab.lexeme fun _ => rfl]
    split
    · exact take_bind (.pure rfl)
    · exact failExpected_relocates _
  · exact failExpected_relocates _

include hb

theorem primaryForm_relocates :
    Moves f true (Option.map (Expr.relocate f)) (primaryForm below) (primaryForm below) := by
  apply (atOperator_relocates _).bind
  intro found
  split
  · apply (expectOperator_relocates _).bind
    intro start start' hstart
    rw [hstart]
    exact (listItems_relocates (hb 0) table _).bind fun items => .pure rfl
  · exact .pure rfl

theorem optionalArguments_relocates :
    Moves f true (relocateItems f) (optionalArguments below) (optionalArguments below) := by
  apply (eatOperator_relocates "(").bind
  intro found
  split
  · exact (arguments_relocates (hb 0) table).bind fun args => .pure rfl
  · exact .pure rfl

theorem testForm_relocates (left : Expr) :
    Moves f true (Expr.relocate f) (testForm below left) (testForm below (left.relocate f)) := by
  unfold testForm
  rw [left.position_relocate]
  apply (eatKeyword_relocates "not").bind
  intro negated
  apply (eatKeyword_relocates "defined").bind
  intro found
  split
  · exact .pure rfl
  · apply testName_relocates.bind
    intro name
    exact (optionalArguments_relocates hb).bind fun args => .pure rfl

theorem infixForm_relocates (left : Expr) (floor : Nat) :
    Moves f true (Option.map (Expr.relocate f)) (infixForm below left floor)
      (infixForm below (left.relocate f) floor) := by
  unfold infixForm
  rw [left.position_relocate]
  apply peek_relocates.bind
  rintro _ _ (hab | _)
  · next a b =>
    dsimp only
    simp only [hab.isKeyword, hab.isOperator]
    split
    · apply take_bind
      apply expectIdentifier_relocates.bind
      intro name
      exact (optionalArguments_relocates hb).bind fun args => .pure rfl
    split
    · apply take_bind
      exact (testForm_relocates hb left).map fun _ => rfl
    split
    · apply take_bind
      apply (hb 0).bind
      intro yes
      apply (expectOperator_relocates ":").bind
      intro _ _ _
      exact (hb choice).bind fun no => .pure rfl
    · exact .pure rfl
  · exact .pure rfl

end forms

theorem grammar_passesPlaces : grammar.PassesPlaces f true where
  primaryForm _ hb := primaryForm_relocates hb
  infixForm _ hb := infixForm_relocates hb

theorem expression_relocates : Moves f true (Expr.relocate f) expression expression :=
  Grammar.expression_relocates grammar_passesPlaces 0

/-! ### Directives without a body -/

theorem closing_relocates : Keeps f true closing closing :=
  (expectKind_relocates _).bind fun _ _ _ => .pure rfl

theorem stripRaw_relocate (e : Expr) :
    stripRaw (e.relocate f) = Prod.map (Expr.relocate f) id (stripRaw e) := by
  cases e with
  | filter p subject name args =>
    have hempty : (relocateItems f args).isEmpty = args.isEmpty := by cases args <;> rfl
    unfold stripRaw
    rw [Expr.relocate]
    dsimp only
    rw [hempty]
    split <;> rfl
  | _ => rfl

theorem echo_relocates (p : Position) : Moves f true (Node.relocate f) (echo p) (echo (f p)) := by
  apply expression_relocates.bind
  intro e
  rw [stripRaw_relocate]
  exact (expectKind_relocates _).bind fun _ _ _ => .pure rfl

theorem loopNames_relocates : Keeps f true loopNames loopNames := by
  apply expectIdentifier_relocates.bind
  intro first
  apply (eatOperator_relocates ",").bind
  intro found
  split
  · exact expectIdentifier_relocates.bind fun second => .pure rfl
  · exact .pure rfl

theorem expressionAfter_relocates (word : String) :
    Moves f true (relocateOption f) (expressionAfter word) (expressionAfter word) := by
  apply (eatKeyword_relocates word).bind
  intro found
  split
  · exact expression_relocates.bind fun e => .pure rfl
  · exact .pure rfl

theorem assignOp?_of_alike {a b : Token} (hab : a.Alike f true b) :
    assignOp? b = assignOp? a := by
  unfold assignOp?
  simp only [hab.isOperator]

theorem assignment_relocates : Moves f true (Assignment.relocate f) assignment assignment := by
  apply expectIdentifier_relocates.bind
  intro target
  apply next_relocates.bind
  rintro _ _ (hab | _)
  · dsimp only
    rw [assignOp?_of_alike hab, hab.position, hab.describe]
    split
    · exact expression_relocates.bind fun value => .pure rfl
    · exact .throw rfl rfl
  · exact failExpected_relocates _

theorem literal_relocates : Keeps f true literal literal := by
  apply expression_relocates.bind
  intro e
  cases e with
  | literal p l => exact .pure rfl
  | _ => exact .throw rfl rfl

theorem param_relocates : Keeps f true param param := by
  apply expectIdentifier_relocates.bind
  intro name
  apply (eatOperator_relocates "=").bind
  intro found
  split
  · exact literal_relocates.bind fun l => .pure rfl
  · exact .pure rfl

theorem params_relocates : Keeps f true params params := by
  apply (expectOperator_relocates "(").bind
  intro _ _ _
  apply (eatOperator_relocates ")").bind
  intro found
  split
  · exact .pure rfl
  · apply (commaSeparated_relocates param_relocates).bind
    intro found
    rw [List.map_id]
    exact (expectOperator_relocates ")").bind fun _ _ _ => .pure rfl

theorem lifetime?_relocates : Keeps f true lifetime? lifetime? := by
  apply peek_relocates.bind
  rintro _ _ (hab | _)
  · next a b =>
    dsimp only
    rw [hab.kind, hab.position, hab.lexeme fun _ => rfl]
    split
    · apply take_bind
      split
      · exact .pure rfl
      · exact .throw rfl rfl
    · exact .pure rfl
  · exact .pure rfl

theorem switch_relocates : Keeps f true switch switch := by
  apply (eatKeyword_relocates "true").bind
  intro found
  split
  · exact .pure rfl
  · apply (eatKeyword_relocates "false").bind
    intro found
    split
    · exact .pure rfl
    · exact failExpected_relocates _

theorem inclusionDirective_relocates (p : Position) :
    Moves f true (Node.relocate f) (inclusionDirective p) (inclusionDirective (f p)) := by
  apply expression_relocates.bind
  intro template
  exact (expressionAfter_relocates "with").bind fun context => .pure rfl

theorem jump_relocates (place : Place) (p : Position) (word : String) (n : Node) :
    Moves f true (Node.relocate f) (jump place p word n)
      (jump place (f p) word (n.relocate f)) := by
  unfold jump
  split
  · exact .pure rfl
  · exact .throw rfl rfl

theorem tagDirective_relocates (p : Position) (name : String) :
    Moves f true (Node.relocate f) (tagDirective p name) (tagDirective (f p) name) := by
  have htag (args : List Expr) : Moves f true (Node.relocate f)
      (pure (.tag p name args)) (pure (.tag (f p) name (args.map (Expr.relocate f)))) :=
    .pure (by rw [Node.relocate, relocateExprs_eq_map])
  unfold tagDirective
  dsimp only
  split
  · exact .pure rfl
  · apply (at?_relocates fun _ _ h => by rw [h.kind]).bind
    intro found
    split
    · exact htag []
    · exact (commaSeparated_relocates expression_relocates).bind htag

/-! ### Directives with a body -/

section directives

variable {inner : BodyParser} (hinner : ∀ place expected,
    Moves f true (Prod.map (relocateNodes f) id) (inner place expected) (inner place expected))
  (place : Place)

include hinner

theorem branch_relocates :
    Moves f true (Prod.map (Branch.relocate f) id) (branch inner place) (branch inner place) := by
  apply expression_relocates.bind
  intro condition
  apply closing_relocates.bind
  intro _
  exact (hinner place _).bind fun body => .pure rfl

theorem moreBranches_relocates (found : List Branch × String) :
    Moves f true (Option.map (Prod.map (relocateBranches f) id)) (moreBranches inner place found)
      (moreBranches inner place (Prod.map (relocateBranches f) id found)) := by
  unfold moreBranches
  dsimp only [Prod.map_snd, id]
  split
  · apply (branch_relocates hinner place).bind
    intro b
    exact .pure (by simp [relocateBranches_append, relocateBranches])
  · exact .pure rfl

theorem finalBody_relocates (closer : String) :
    Moves f true (relocateNodes f) (finalBody inner place closer)
      (finalBody inner place closer) := by
  apply closing_relocates.bind
  intro _
  exact (hinner place _).bind fun body => .pure rfl

theorem choiceDirective_relocates (p : Position) :
    Moves f true (Node.relocate f) (choiceDirective inner place p)
      (choiceDirective inner place (f p)) := by
  apply (branch_relocates hinner place).bind
  intro first
  apply (whileSome_relocates (moreBranches_relocates hinner place) ([first.1], first.2)).bind
  intro found
  dsimp only [Prod.map_snd, id]
  split
  · exact (finalBody_relocates hinner place "endif").bind fun otherwise => .pure rfl
  · exact .pure rfl

theorem loopDirective_relocates (p : Position) :
    Moves f true (Node.relocate f) (loopDirective inner place p)
      (loopDirective inner place (f p)) := by
  apply loopNames_relocates.bind
  intro names
  apply (expectKeyword_relocates "in").bind
  intro _ _ _
  apply expression_relocates.bind
  intro iterable
  apply (expressionAfter_relocates "if").bind
  intro filter
  apply closing_relocates.bind
  intro _
  apply (hinner _ _).bind
  intro body
  dsimp only [Prod.map_snd, id]
  split
  · exact .pure rfl
  · exact (finalBody_relocates hinner place "endfor").bind fun otherwise => .pure rfl

theorem blockDirective_relocates (p : Position) :
    Moves f true (Node.relocate f) (blockDirective inner place p)
      (blockDirective inner place (f p)) := by
  have hname : Moves f true (Node.relocate f)
      (do
        let name ← expectIdentifier
        closing
        let body ← inner { place with inBlock := true } ["endblock"]
        return .block p name.1 body.1)
      (do
        let name ← expectIdentifier
        closing
        let body ← inner { place with inBlock := true } ["endblock"]
        return .block (f p) name.1 body.1) := by
    apply expectIdentifier_relocates.bind
    intro name
    apply closing_relocates.bind
    intro _
    exact (hinner _ _).bind fun body => .pure rfl
  unfold blockDirective
  dsimp only
  split
  · exact .throw_bind rfl rfl
  · exact hname

theorem definitionDirective_relocates (p : Position) :
    Moves f true (Node.relocate f) (definitionDirective inner place p)
      (definitionDirective inner place (f p)) := by
  apply expectIdentifier_relocates.bind
  intro name
  apply params_relocates.bind
  intro params
  apply closing_relocates.bind
  intro _
  exact (hinner _ _).bind fun body => .pure rfl

theorem fragmentDirective_relocates (p : Position) :
    Moves f true (Node.relocate f) (fragmentDirective inner place p)
      (fragmentDirective inner place (f p)) := by
  apply expression_relocates.bind
  intro key
  apply lifetime?_relocates.bind
  intro lifetime
  apply closing_relocates.bind
  intro _
  exact (hinner _ _).bind fun body => .pure rfl

theorem autoescapeDirective_relocates (p : Position) :
    Moves f true (Node.relocate f) (autoescapeDirective inner place p)
      (autoescapeDirective inner place (f p)) := by
  apply switch_relocates.bind
  intro enabled
  apply closing_relocates.bind
  intro _
  exact (hinner _ _).bind fun body => .pure rfl

theorem directive_relocates (p : Position) {a b : Token} (hab : a.Alike f true b) :
    Moves f true (Node.relocate f) (directive inner place p a)
      (directive inner place (f p) b) := by
  unfold directive
  rw [hab.kind, hab.lexeme fun _ => rfl, hab.describe]
  split
  · exact tagDirective_relocates p _
  · exact choiceDirective_relocates hinner place p
  · exact loopDirective_relocates hinner place p
  · exact (commaSeparated_relocates assignment_relocates).map fun _ => rfl
  · exact blockDirective_relocates hinner place p
  · exact inclusionDirective_relocates p
  · exact definitionDirective_relocates hinner place p
  · exact fragmentDirective_relocates hinner place p
  · exact autoescapeDirective_relocates hinner place p
  · exact expression_relocates.map fun _ => rfl
  · exact jump_relocates place p "break" (.leave p)
  · exact jump_relocates place p "continue" (.proceed p)
  · exact .throw rfl rfl

end directives

/-! ### Bodies -/

section bodies

variable {inner : BodyParser} (hinner : ∀ place expected,
    Moves f true (Prod.map (relocateNodes f) id) (inner place expected) (inner place expected))
  (place : Place) (expected : List String)

theorem allowedInChild_of_alike {a b : Token} (hab : a.Alike f true b) :
    allowedInChild b = allowedInChild a := by
  unfold allowedInChild
  simp only [hab.isKeyword]

theorem parentDirective_relocates (p : Position) (b : Body) :
    Moves f true (Body.relocate f) (parentDirective p b)
      (parentDirective (f p) (b.relocate f)) := by
  have hstring : Moves f true (Body.relocate f)
      (do
        let template ← expectString table
        return { b.push (.parent p template.1) with child := true })
      (do
        let template ← expectString table
        return { (b.relocate f).push (.parent (f p) template.1) with child := true }) := by
    apply (expectString_relocates table).bind
    intro template
    have hpush := b.push_relocate f (.parent p template.1)
    exact .pure (congrArg (fun body : Body => { body with child := true }) hpush)
  unfold parentDirective
  rw [Body.started_relocate, Body.child_relocate]
  dsimp only
  split
  · exact .throw_bind rfl rfl
  · exact hstring

theorem rawText_relocates (body : Body) {a b : Token} (hab : a.Alike f true b) :
    Moves f true (Body.relocate f) (rawText body a) (rawText (body.relocate f) b) := by
  have hpush := body.push_relocate f (.text a.position a.lexeme)
  have hstarted (started : Bool) : Moves f true (Body.relocate f)
      (pure { body.push (.text a.position a.lexeme) with started })
      (pure { (body.relocate f).push (.text (f a.position) a.lexeme) with started }) :=
    .pure (congrArg (fun b : Body => { b with started }) hpush)
  unfold rawText
  rw [hab.lexeme fun _ => rfl, hab.position, Body.started_relocate, Body.child_relocate]
  dsimp only
  split
  · exact .throw_bind rfl rfl
  · exact hstarted _

theorem finished_relocates :
    Moves f true (Option.map (Body.relocate f)) (finished expected) (finished expected) := by
  unfold finished
  split
  · exact position_relocates.bind fun p => .throw rfl rfl
  · exact .pure rfl

include hinner

theorem innerStatement_relocates (body : Body) {a b : Token} (hab : a.Alike f true b) :
    Moves f true (Body.relocate f) (innerStatement inner place body a)
      (innerStatement inner place (body.relocate f) b) := by
  have hclose (body : Body) : Moves f true (Body.relocate f)
      (do
        closing
        return body)
      (do
        closing
        return body.relocate f) :=
    closing_relocates.bind fun _ => .pure rfl
  have hrest : Moves f true (Body.relocate f)
      (do
        let _ ← next
        let body ←
          if a.isKeyword "extends" then parentDirective a.position body
          else do
            let node ← directive inner place a.position a
            pure { body.push node with started := true }
        closing
        return body)
      (do
        let _ ← next
        let body ←
          if a.isKeyword "extends" then parentDirective (f a.position) (body.relocate f)
          else do
            let node ← directive inner place (f a.position) b
            pure { (body.relocate f).push node with started := true }
        closing
        return body) := by
    apply take_bind
    dsimp only
    split
    · exact (parentDirective_relocates a.position body).bind hclose
    · apply (directive_relocates hinner place a.position hab).bind
      intro node
      have hpush := body.push_relocate f node
      exact Moves.bind (.pure (congrArg (fun b : Body => { b with started := true }) hpush)) hclose
  unfold innerStatement
  rw [allowedInChild_of_alike hab, hab.isKeyword, hab.position, Body.child_relocate]
  dsimp only
  split
  · exact .throw_bind rfl rfl
  · exact hrest

theorem statement_relocates (body : Body) :
    Moves f true (Body.relocate f) (statement inner place expected body)
      (statement inner place expected (body.relocate f)) := by
  apply peek_relocates.bind
  rintro _ _ (hab | _)
  · next a b =>
    dsimp only
    rw [hab.kind, hab.position]
    split
    · exact take_bind (.pure rfl)
    · split
      · exact take_bind (.pure rfl)
      split
      · exact .throw rfl rfl
      · exact innerStatement_relocates hinner place body hab
    · exact innerStatement_relocates hinner place body hab
  · exact failExpected_relocates _

theorem bodyStep_relocates (body : Body) :
    Moves f true (Option.map (Body.relocate f)) (bodyStep inner place expected body)
      (bodyStep inner place expected (body.relocate f)) := by
  have hecho (p : Position) : Moves f true (Option.map (Body.relocate f))
      (do
        let node ← echo p
        return some { body.push node with started := true })
      (do
        let node ← echo (f p)
        return some { (body.relocate f).push node with started := true }) := by
    apply (echo_relocates p).bind
    intro node
    have hpush := body.push_relocate f node
    exact .pure (congrArg (fun b : Body => some { b with started := true }) hpush)
  unfold bodyStep
  rw [Body.closer_relocate]
  dsimp only
  split
  · exact .pure rfl
  apply next_relocates.bind
  rintro _ _ (hab | _)
  · next a b =>
    dsimp only
    rw [hab.kind, hab.position, hab.describe, Body.child_relocate]
    split
    · exact (rawText_relocates body hab).map fun _ => rfl
    · split
      · exact .throw_bind rfl rfl
      · exact hecho _
    · exact (statement_relocates hinner place expected body).map fun _ => rfl
    · exact .throw rfl rfl
  · exact finished_relocates expected

end bodies

theorem bodyTo_relocates (depth : Nat) (place : Place) (expected : List String) :
    Moves f true (Prod.map (relocateNodes f) id) (bodyTo depth place expected)
      (bodyTo depth place expected) := by
  induction depth generalizing place expected with
  | zero => exact position_relocates.bind fun p => .throw rfl rfl
  | succ depth ih =>
    apply (whileSome_relocates (bodyStep_relocates ih place expected) .nested).bind
    exact fun body => .pure rfl

theorem topLevel_relocates : Moves f true (relocateNodes f) topLevel topLevel := by
  have hlevel (n : Nat) : Moves f true (relocateNodes f)
      (Body.nodes <$> whileSome (bodyStep (bodyTo n) ⟨false, false⟩ []) .top)
      (Body.nodes <$> whileSome (bodyStep (bodyTo n) ⟨false, false⟩ []) .top) := by
    have hstep := bodyStep_relocates (f := f) (bodyTo_relocates n) ⟨false, false⟩ []
    exact (whileSome_relocates hstep .top).map fun _ => rfl
  exact .of_length (fun n => hlevel (n + 1)) (fun _ => rfl) fun _ => rfl

end EmbeddedLang.Template
