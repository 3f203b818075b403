import EmbeddedLang.Proofs.Parser.Yields
import EmbeddedLang.Template.Parsing

/-!
Templates that are parsed belong to every class of trees that their parts belong to.

The parser hands down where a body stands, and that is all it refuses jumps and blocks for. The body
of a macro stands in no loop, whatever is around its definition.
-/

namespace EmbeddedLang.Template

open Parse

/-- The expressions that stand in a node directly. -/
def Node.exprs : Node → List Expr
  | .echo _ e _ | .evaluation _ e => [e]
  | .choice _ branches _ => branches.map (·.condition)
  | .loop _ _ _ iterable filter _ _ => iterable :: filter.toList
  | .assignments _ as => as.map (·.value)
  | .inclusion _ template context => template :: context.toList
  | .fragment _ key _ _ => [key]
  | .tag _ _ args => args
  | .text .. | .block .. | .parent .. | .definition .. | .autoescape .. | .leave _ | .proceed _
  | .endTag .. => []

/-- The defaults of the parameters of a macro. -/
def Node.defaults : Node → List Literal
  | .definition _ _ params _ => params.filterMap (·.default)
  | _ => []

/-- The bodies in a node that stands at `place`, each with its own place. -/
def Node.bodies (place : Place) : Node → List (Place × List Node)
  | .choice _ branches otherwise => (branches.map (·.body) ++ otherwise.toList).map (place, ·)
  | .loop _ _ _ _ _ body otherwise =>
    ({ place with inLoop := true }, body) :: otherwise.toList.map (place, ·)
  | .block _ _ body => [({ place with inBlock := true }, body)]
  | .definition _ _ _ body => [({ place with inLoop := false }, body)]
  | .fragment _ _ _ body | .autoescape _ _ body => [(place, body)]
  | .text .. | .echo .. | .assignments .. | .parent .. | .inclusion .. | .evaluation .. | .leave _
  | .proceed _ | .tag .. | .endTag .. => []

def Node.allowedAt (place : Place) : Node → Bool
  | .leave _ | .proceed _ => place.inLoop
  | .block .. => !place.inBlock
  | _ => true

/-- A class of expressions, one of literals, and one of nodes for each place. A node belongs to it if
what is in it does, and if it is allowed where it stands. -/
structure NodeClass where
  HoldsExpr : Expr → Prop
  HoldsLiteral : Literal → Prop
  Holds : Place → Node → Prop
  value {p : Position} {l : Literal} (h : HoldsExpr (.literal p l)) : HoldsLiteral l
  unfiltered {p : Position} {x : Expr} {name : String} {args : List Item}
    (h : HoldsExpr (.filter p x name args)) : HoldsExpr x
  node {place : Place} {n : Node} (hplace : n.allowedAt place) (he : ∀ e ∈ n.exprs, HoldsExpr e)
    (hd : ∀ l ∈ n.defaults, HoldsLiteral l)
    (hb : ∀ body ∈ n.bodies place, ∀ m ∈ body.2, Holds body.1 m) : Holds place n

variable {I : NodeClass}

/-- The nodes of a body at this place are in the class. -/
def NodeClass.HoldsBody (I : NodeClass) (place : Place) (body : List Node) : Prop :=
  ∀ n ∈ body, I.Holds place n

def NodeClass.HoldsBranch (I : NodeClass) (place : Place) (b : Branch) : Prop :=
  I.HoldsExpr b.condition ∧ I.HoldsBody place b.body

theorem NodeClass.HoldsBody.concat {place : Place} {body : List Node} {n : Node}
    (h : I.HoldsBody place body) (hn : I.Holds place n) : I.HoldsBody place (body ++ [n]) :=
  List.forall_mem_append.mpr ⟨h, List.forall_mem_singleton.mpr hn⟩

theorem NodeClass.HoldsBody.nil {place : Place} : I.HoldsBody place [] :=
  List.forall_mem_nil _

/-- A node with no body in it. -/
theorem NodeClass.flat {place : Place} {n : Node} (hplace : n.allowedAt place)
    (hd : n.defaults = []) (hb : n.bodies place = []) (he : ∀ e ∈ n.exprs, I.HoldsExpr e) :
    I.Holds place n :=
  I.node hplace he (hd ▸ List.forall_mem_nil _) (hb ▸ List.forall_mem_nil _)

/-- A node with one body in it. -/
theorem NodeClass.around {place inside : Place} {n : Node} {body : List Node}
    (hplace : n.allowedAt place) (hd : ∀ l ∈ n.defaults, I.HoldsLiteral l)
    (hb : n.bodies place = [(inside, body)]) (he : ∀ e ∈ n.exprs, I.HoldsExpr e)
    (hbody : I.HoldsBody inside body) : I.Holds place n :=
  I.node hplace he hd (hb ▸ List.forall_mem_singleton.mpr hbody)

section Parsing

variable (he : Finds I.HoldsExpr expression)

/-! ### Directives with no body -/

section Plain

variable (place : Place) (position : Position)

include he

theorem echo_finds : Finds (I.Holds place) (echo position) := by
  apply he.bind
  intro e he
  have hstrip : I.HoldsExpr (stripRaw e).1 := by
    unfold stripRaw
    split
    · split
      · exact I.unfiltered he
      · exact he
    · exact he
  exact .after fun _ => .pure (I.flat rfl rfl rfl (List.forall_mem_singleton.mpr hstrip))

theorem expressionAfter_finds (word : String) :
    Finds (fun o => ∀ e ∈ o, I.HoldsExpr e) (expressionAfter word) := by
  refine .after fun b => ?_
  split
  · exact he.bind fun e he => .pure (forall_mem_some he)
  · exact .pure forall_mem_none

theorem assignment_finds : Finds (fun a => I.HoldsExpr a.value) assignment := by
  refine .after fun target => .after fun token => ?_
  cases token with
  | none => exact .failExpected _
  | some token =>
    dsimp only
    split
    · exact he.bind fun _ he => .pure he
    · exact .throw _

theorem param_finds : Finds (fun param => ∀ l ∈ param.default, I.HoldsLiteral l) param := by
  have hliteral : Finds I.HoldsLiteral literal := by
    apply he.bind
    intro e he
    split
    · exact .pure (I.value he)
    · exact .throw _
  refine .after fun name => .after fun b => ?_
  split
  · exact hliteral.bind fun _ hl => .pure (forall_mem_some hl)
  · exact .pure forall_mem_none

theorem params_finds :
    Finds (fun params => ∀ param ∈ params, ∀ l ∈ param.default, I.HoldsLiteral l) params := by
  refine .after fun _ => .after fun b => ?_
  split
  · exact .pure (List.forall_mem_nil _)
  · exact (Finds.commaSeparated (param_finds he)).bind fun _ h => .after fun _ => .pure h

theorem inclusionDirective_finds : Finds (I.Holds place) (inclusionDirective position) :=
  he.bind fun _ ht => (expressionAfter_finds he "with").bind fun _ hc =>
    .pure (I.flat rfl rfl rfl (List.forall_mem_cons.mpr ⟨ht, by simpa using hc⟩))

omit he in
theorem jump_finds (word : String) {node : Node} (h : place.inLoop → I.Holds place node) :
    Finds (I.Holds place) (jump place position word node) := by
  unfold jump
  split
  · next hloop => exact .pure (h hloop)
  · exact .throw _

theorem tagDirective_finds (name : String) :
    Finds (I.Holds place) (tagDirective position name) := by
  unfold tagDirective
  dsimp only
  split
  · exact .pure (I.flat rfl rfl rfl (List.forall_mem_nil _))
  · refine .after fun empty => ?_
    split
    · exact .pure (I.flat rfl rfl rfl (List.forall_mem_nil _))
    · exact he.commaSeparated.bind fun _ ha => .pure (I.flat rfl rfl rfl ha)

end Plain

/-! ### Directives with bodies -/

section Directives

variable {inner : BodyParser}
  (hinner : ∀ place expected, Finds (fun found => I.HoldsBody place found.1) (inner place expected))
  (place : Place) (position : Position)

include hinner

theorem finalBody_finds (closer : String) :
    Finds (I.HoldsBody place) (finalBody inner place closer) :=
  .after fun _ => (hinner place _).bind fun _ hbody => .pure hbody

theorem blockDirective_finds : Finds (I.Holds place) (blockDirective inner place position) := by
  unfold blockDirective
  split
  · exact .throw _
  · next hblock =>
    have hplace : !place.inBlock := by simpa using hblock
    exact .after fun _ => .after fun _ => (hinner { place with inBlock := true } _).bind
      fun _ hbody => .pure (I.around hplace (List.forall_mem_nil _) rfl (List.forall_mem_nil _) hbody)

theorem autoescapeDirective_finds :
    Finds (I.Holds place) (autoescapeDirective inner place position) :=
  .after fun _ => .after fun _ => (hinner place _).bind fun _ hbody =>
    .pure (I.around rfl (List.forall_mem_nil _) rfl (List.forall_mem_nil _) hbody)

include he

theorem branch_finds : Finds (fun found => I.HoldsBranch place found.1) (branch inner place) :=
  he.bind fun _ hcondition => .after fun _ => (hinner place _).bind fun _ hbody =>
    .pure ⟨hcondition, hbody⟩

theorem moreBranches_finds {found : List Branch × String}
    (hfound : ∀ b ∈ found.1, I.HoldsBranch place b) :
    Finds (fun o => ∀ found ∈ o, ∀ b ∈ found.1, I.HoldsBranch place b)
      (moreBranches inner place found) := by
  unfold moreBranches
  split
  · refine (branch_finds he hinner place).bind fun b hb => .pure (forall_mem_some ?_)
    exact List.forall_mem_append.mpr ⟨hfound, List.forall_mem_singleton.mpr hb⟩
  · exact .pure forall_mem_none

theorem choiceDirective_finds : Finds (I.Holds place) (choiceDirective inner place position) := by
  refine (branch_finds he hinner place).bind fun first hfirst => ?_
  have hmore (found : List Branch × String) (hfound : ∀ b ∈ found.1, I.HoldsBranch place b) :=
    moreBranches_finds he hinner place hfound
  refine (Finds.whileSome hmore (List.forall_mem_singleton.mpr hfirst)).bind fun found hfound => ?_
  have hchoice {otherwise : Option (List Node)} (h : ∀ body ∈ otherwise, I.HoldsBody place body) :
      I.Holds place (.choice position found.1 otherwise) := by
    have hbodies : ∀ body ∈ found.1.map (·.body) ++ otherwise.toList, I.HoldsBody place body :=
      List.forall_mem_append.mpr
        ⟨List.forall_mem_map.mpr fun b hb => (hfound b hb).2, by simpa using h⟩
    refine I.node rfl ?_ (List.forall_mem_nil _) (List.forall_mem_map.mpr hbodies)
    exact List.forall_mem_map.mpr fun b hb => (hfound b hb).1
  dsimp only
  split
  · exact (finalBody_finds hinner place "endif").bind fun _ hotherwise =>
      .pure (hchoice (forall_mem_some hotherwise))
  · exact .pure (hchoice forall_mem_none)

theorem loopDirective_finds : Finds (I.Holds place) (loopDirective inner place position) := by
  refine .after fun names => .after fun _ => he.bind fun iterable hiterable =>
    (expressionAfter_finds he "if").bind fun filter hfilter => .after fun _ => ?_
  refine (hinner { place with inLoop := true } _).bind fun found hbody => ?_
  have hloop {otherwise : Option (List Node)} (h : ∀ body ∈ otherwise, I.HoldsBody place body) :
      I.Holds place (.loop position names.1 names.2 iterable filter found.1 otherwise) := by
    have hothers : ∀ body ∈ otherwise.toList, I.HoldsBody place body := by simpa using h
    refine I.node rfl ?_ (List.forall_mem_nil _) ?_
    · exact List.forall_mem_cons.mpr ⟨hiterable, by simpa using hfilter⟩
    · exact List.forall_mem_cons.mpr ⟨hbody, List.forall_mem_map.mpr hothers⟩
  dsimp only
  split
  · exact .pure (hloop forall_mem_none)
  · exact (finalBody_finds hinner place "endfor").bind fun _ hotherwise =>
      .pure (hloop (forall_mem_some hotherwise))

theorem definitionDirective_finds :
    Finds (I.Holds place) (definitionDirective inner place position) :=
  .after fun _ => (params_finds he).bind fun _ hparams => .after fun _ =>
    (hinner { place with inLoop := false } _).bind fun _ hbody =>
      .pure (I.around rfl (List.forall_mem_filterMap.mpr hparams) rfl (List.forall_mem_nil _) hbody)

theorem fragmentDirective_finds :
    Finds (I.Holds place) (fragmentDirective inner place position) :=
  he.bind fun _ hkey => .after fun _ => .after fun _ => (hinner place _).bind
    fun _ hbody => .pure (I.around rfl (List.forall_mem_nil _) rfl
      (List.forall_mem_singleton.mpr hkey) hbody)

theorem directive_finds (token : Token) :
    Finds (I.Holds place) (directive inner place position token) := by
  unfold directive
  split
  · exact tagDirective_finds he place position _
  · exact choiceDirective_finds he hinner place position
  · exact loopDirective_finds he hinner place position
  · exact (assignment_finds he).commaSeparated.map fun _ ha =>
      I.flat rfl rfl rfl (List.forall_mem_map.mpr ha)
  · exact blockDirective_finds hinner place position
  · exact inclusionDirective_finds he place position
  · exact definitionDirective_finds he hinner place position
  · exact fragmentDirective_finds he hinner place position
  · exact autoescapeDirective_finds hinner place position
  · exact he.map fun _ he => I.flat rfl rfl rfl (List.forall_mem_singleton.mpr he)
  · exact jump_finds place position "break" fun h => I.flat h rfl rfl (List.forall_mem_nil _)
  · exact jump_finds place position "continue" fun h =>
      I.flat h rfl rfl (List.forall_mem_nil _)
  · exact .throw _

/-! ### Bodies -/

omit he hinner in
theorem parentDirective_finds {b : Body} (hb : I.HoldsBody place b.nodes) :
    Finds (fun b => I.HoldsBody place b.nodes) (parentDirective position b) := by
  unfold parentDirective
  split
  · exact .throw _
  · exact .after fun _ => .pure (hb.concat (I.flat rfl rfl rfl (List.forall_mem_nil _)))

theorem innerStatement_finds {b : Body} (hb : I.HoldsBody place b.nodes) (token : Token) :
    Finds (fun b => I.HoldsBody place b.nodes) (innerStatement inner place b token) := by
  have hdone (b : Body) (hb : I.HoldsBody place b.nodes) :
      Finds (fun b => I.HoldsBody place b.nodes) (do
        closing
        return b) :=
    .after fun _ => .pure hb
  unfold innerStatement
  dsimp only
  split
  · exact .throw _
  refine .after fun _ => ?_
  split
  · exact (parentDirective_finds place token.position hb).bind hdone
  · refine (directive_finds he hinner place token.position token).bind fun node hnode => ?_
    exact hdone _ (hb.concat hnode)

theorem statement_finds (expected : List String) {b : Body} (hb : I.HoldsBody place b.nodes) :
    Finds (fun b => I.HoldsBody place b.nodes) (statement inner place expected b) := by
  refine .after fun token => ?_
  cases token with
  | none => exact .failExpected _
  | some token =>
    dsimp only
    split
    · exact .after fun _ => .pure hb
    · split
      · exact .after fun _ => .pure hb
      · split
        · exact .throw _
        · exact innerStatement_finds he hinner place hb token
    · exact innerStatement_finds he hinner place hb token

omit he hinner in
theorem rawText_finds {b : Body} (hb : I.HoldsBody place b.nodes) (token : Token) :
    Finds (fun b => I.HoldsBody place b.nodes) (rawText b token) := by
  unfold rawText
  dsimp only
  split
  · exact .throw _
  · exact .pure (hb.concat (I.flat rfl rfl rfl (List.forall_mem_nil _)))

theorem bodyStep_finds (expected : List String) (b : Body) (hb : I.HoldsBody place b.nodes) :
    Finds (fun o => ∀ b ∈ o, I.HoldsBody place b.nodes) (bodyStep inner place expected b) := by
  unfold bodyStep
  split
  · exact .pure forall_mem_none
  refine .after fun token => ?_
  cases token with
  | none =>
    dsimp only [finished]
    split
    · exact .after fun _ => .throw _
    · exact .pure forall_mem_none
  | some token =>
    dsimp only
    split
    · exact (rawText_finds place hb token).map fun _ hb => forall_mem_some hb
    · split
      · exact .throw _
      · exact (echo_finds he place token.position).bind fun _ hnode =>
          .pure (forall_mem_some (hb.concat hnode))
    · exact (statement_finds he hinner place expected hb).map fun _ hb => forall_mem_some hb
    · exact .throw _

end Directives

include he

theorem bodyTo_finds (depth : Nat) (place : Place) (expected : List String) :
    Finds (fun found => I.HoldsBody place found.1) (bodyTo depth place expected) := by
  induction depth generalizing place expected with
  | zero => exact .after fun _ => .throw _
  | succ depth ih =>
    have hstep := bodyStep_finds he ih place expected
    exact (Finds.whileSome hstep NodeClass.HoldsBody.nil).bind fun b hb => .pure hb

theorem parse_holds {source : String} {nodes : List Node} (h : parse source = .ok nodes) :
    I.HoldsBody ⟨false, false⟩ nodes := by
  obtain ⟨c', hc⟩ := Parse.exists_of_run? h
  have hstep := bodyStep_finds he
    (bodyTo_finds he ((Cursor.ofSource table source).tokens.length + 1)) ⟨false, false⟩ []
  have hlevel : Finds (I.HoldsBody ⟨false, false⟩) (Body.nodes <$> whileSome
      (bodyStep (bodyTo ((Cursor.ofSource table source).tokens.length + 1)) ⟨false, false⟩ [])
      .top) :=
    (Finds.whileSome hstep NodeClass.HoldsBody.nil).map fun _ hb => hb
  exact hlevel.of_ok _ _ _ hc

end Parsing

end EmbeddedLang.Template
