import EmbeddedLang.Proofs.Expr.Nodes
import EmbeddedLang.Proofs.Query.CastTargets
import EmbeddedLang.Proofs.Query.Written

/-!
All expressions of a statement, and the types that they cast to.
-/

namespace EmbeddedLang

def Query.Statement.nodes : Query.Statement → List Expr
  | .select s => s.nodes
  | .insert s => s.rows.flatMap nodesOfExprs
  | .update s =>
    s.assignments.flatMap (·.value.nodes) ++ nodesOfOption s.filter ++ nodesOfOption s.limit
  | .delete s => nodesOfOption s.filter ++ nodesOfOption s.limit
  | .empty => []

/-- If the expression itself is a cast, then to a type in `T`. -/
def Expr.CastsTo (T : String → Prop) : Expr → Prop
  | .cast _ _ target => T target
  | _ => True

def CastTo (T : String → Prop) (es : List Expr) : Prop :=
  ∀ n ∈ es, n.CastsTo T

variable {T : String → Prop}

@[simp]
theorem castTo_nil : CastTo T [] :=
  List.forall_mem_nil _

@[simp]
theorem castTo_cons {e : Expr} {es : List Expr} :
    CastTo T (e :: es) ↔ e.CastsTo T ∧ CastTo T es :=
  List.forall_mem_cons

@[simp]
theorem castTo_append {es es' : List Expr} :
    CastTo T (es ++ es') ↔ CastTo T es ∧ CastTo T es' :=
  List.forall_mem_append

theorem casts_singleton {target : String} : Casts T [target] ↔ T target :=
  List.forall_mem_singleton

mutual

theorem castTo_nodes : ∀ e : Expr, CastTo T e.nodes ↔ Casts T e.castTargets
  | .literal .. | .identifier .. | .placeholder .. | .star _ | .qualifiedStar .. => by
    simp [Expr.nodes, Expr.castTargets, casts_nil, Expr.CastsTo]
  | .unary _ _ x | .member _ x _ | .grouped _ x | .isNull _ x _ | .defined _ x _ => by
    simp [Expr.nodes, Expr.castTargets, Expr.CastsTo, castTo_nodes x]
  | .binary _ _ x y | .index _ x y => by
    simp [Expr.nodes, Expr.castTargets, casts_append, Expr.CastsTo, castTo_nodes x, castTo_nodes y]
  | .call _ x args _ | .filter _ x _ args | .test _ x _ args _ => by
    simp [Expr.nodes, Expr.castTargets, casts_append, Expr.CastsTo, castTo_nodes x,
      castTo_nodesOfItems args]
  | .slice _ x first last => by
    simp [Expr.nodes, Expr.castTargets, casts_append, Expr.CastsTo, castTo_nodes x,
      castTo_nodesOfOption first, castTo_nodesOfOption last]
  | .list _ items => by
    simp [Expr.nodes, Expr.castTargets, Expr.CastsTo, castTo_nodesOfItems items]
  | .conditional _ x y z | .between _ x y z _ => by
    simp [Expr.nodes, Expr.castTargets, casts_append, Expr.CastsTo, castTo_nodes x, castTo_nodes y,
      castTo_nodes z]
  | .cases _ operand branches otherwise => by
    simp [Expr.nodes, Expr.castTargets, casts_append, Expr.CastsTo, castTo_nodesOfOption operand,
      castTo_nodesOfWhens branches, castTo_nodesOfOption otherwise]
  | .cast _ x target => by
    simp [Expr.nodes, Expr.castTargets, casts_append, casts_singleton, Expr.CastsTo,
      castTo_nodes x, and_comm]
  | .existence _ s | .subquery _ s => by
    simp [Expr.nodes, Expr.castTargets, Expr.CastsTo, castTo_nodes_select s]

theorem castTo_nodesOfOption : ∀ o : Option Expr,
    CastTo T (nodesOfOption o) ↔ Casts T (castTargetsOfOption o)
  | none => by simp [nodesOfOption, castTargetsOfOption, casts_nil]
  | some e => castTo_nodes e

theorem castTo_nodesOfExprs : ∀ es : List Expr,
    CastTo T (nodesOfExprs es) ↔ Casts T (castTargetsOfExprs es)
  | [] => by simp [nodesOfExprs, castTargetsOfExprs, casts_nil]
  | e :: rest => by
    simp [nodesOfExprs, castTargetsOfExprs, casts_append, castTo_nodes e,
      castTo_nodesOfExprs rest]

theorem castTo_nodesOfItems : ∀ items : List Item,
    CastTo T (nodesOfItems items) ↔ Casts T (castTargetsOfItems items)
  | [] => by simp [nodesOfItems, castTargetsOfItems, casts_nil]
  | ⟨_, e⟩ :: rest => by
    simp [nodesOfItems, castTargetsOfItems, casts_append, castTo_nodes e,
      castTo_nodesOfItems rest]

theorem castTo_nodesOfWhens : ∀ branches : List When,
    CastTo T (nodesOfWhens branches) ↔ Casts T (castTargetsOfWhens branches)
  | [] => by simp [nodesOfWhens, castTargetsOfWhens, casts_nil]
  | ⟨c, e⟩ :: rest => by
    simp [nodesOfWhens, castTargetsOfWhens, casts_append, castTo_nodes c,
      castTo_nodes e, castTo_nodesOfWhens rest]

theorem castTo_nodesOfProjections : ∀ ps : List Projection,
    CastTo T (nodesOfProjections ps) ↔ Casts T (castTargetsOfProjections ps)
  | [] => by simp [nodesOfProjections, castTargetsOfProjections, casts_nil]
  | ⟨e, _⟩ :: rest => by
    simp [nodesOfProjections, castTargetsOfProjections, casts_append,
      castTo_nodes e, castTo_nodesOfProjections rest]

theorem castTo_nodesOfJoins : ∀ js : List Join,
    CastTo T (nodesOfJoins js) ↔ Casts T (castTargetsOfJoins js)
  | [] => by simp [nodesOfJoins, castTargetsOfJoins, casts_nil]
  | ⟨_, _, condition, _⟩ :: rest => by
    simp [nodesOfJoins, castTargetsOfJoins, casts_append,
      castTo_nodesOfOption condition, castTo_nodesOfJoins rest]

theorem castTo_nodesOfOrders : ∀ os : List OrderItem,
    CastTo T (nodesOfOrders os) ↔ Casts T (castTargetsOfOrders os)
  | [] => by simp [nodesOfOrders, castTargetsOfOrders, casts_nil]
  | ⟨e, _⟩ :: rest => by
    simp [nodesOfOrders, castTargetsOfOrders, casts_append, castTo_nodes e,
      castTo_nodesOfOrders rest]

theorem castTo_nodesOfLimit : ∀ limit : Option Limit,
    CastTo T (nodesOfLimit limit) ↔ Casts T (castTargetsOfLimit limit)
  | none => by simp [nodesOfLimit, castTargetsOfLimit, casts_nil]
  | some ⟨count, offset⟩ => by
    simp [nodesOfLimit, castTargetsOfLimit, casts_append, castTo_nodes count,
      castTo_nodesOfOption offset]

theorem castTo_nodes_select : ∀ s : Select, CastTo T s.nodes ↔ Casts T s.castTargets
  | ⟨_, projections, _, joins, filter, groupBy, having, orderBy, limit, _⟩ => by
    simp only [Select.nodes, Select.castTargets, castTo_append, casts_append,
      castTo_nodesOfProjections projections, castTo_nodesOfJoins joins, castTo_nodesOfOption filter,
      castTo_nodesOfExprs groupBy, castTo_nodesOfOption having, castTo_nodesOfOrders orderBy,
      castTo_nodesOfLimit limit]

end

theorem castTo_flatMap {α : Type} {xs : List α} {nodes : α → List Expr} :
    CastTo T (xs.flatMap nodes) ↔ ∀ x ∈ xs, CastTo T (nodes x) :=
  List.forall_mem_flatMap

/-- Among its expressions are all casts of a statement. -/
theorem castTo_statement (s : Query.Statement) : CastTo T s.nodes ↔ Casts T s.castTargets := by
  cases s with
  | select s => exact castTo_nodes_select s
  | insert s =>
    simp only [Query.Statement.nodes, Query.Statement.castTargets, castTo_flatMap, casts_flatMap,
      castTo_nodesOfExprs]
  | update s =>
    simp only [Query.Statement.nodes, Query.Statement.castTargets, castTo_append, casts_append,
      castTo_flatMap, casts_flatMap, castTo_nodes, castTo_nodesOfOption]
  | delete s =>
    simp only [Query.Statement.nodes, Query.Statement.castTargets, castTo_append, casts_append,
      castTo_nodesOfOption]
  | empty => exact iff_of_true castTo_nil casts_nil

namespace Query

open Parse

variable {α : Type} {g : Grammar} {F : Forms}

/-! ### Gathered from the source -/

theorem expression_written : grammar.ReadsForms QueryForm expression :=
  Grammar.rules_written grammar_forming 0 List.mem_cons_self

theorem row_lists : Lists grammar QueryForm id row := by
  apply (expect_silent _ _).bind
  intro _
  apply (commaSeparated_lists (Gathers.expr expression_written)).bind
  rintro values _ rfl
  exact (expect_silent _ _).bind fun _ => .pure (by simp)

theorem columnNames_silent : Silent g F columnNames := by
  apply (eat_silent _).bind
  intro b
  split
  · apply (commaSeparated_lists expectIdentifier_silent).bind
    rintro columns _ rfl
    exact (expect_silent _ _).bind fun _ => .pure (by simp)
  · exact .pure rfl

theorem insert_lists : Lists grammar QueryForm (·.rows.flatten) insert := by
  apply (expect_silent _ _).bind
  intro start
  apply (expect_silent _ _).bind
  intro _
  apply sourceName_silent.bind
  intro source
  apply columnNames_silent.bind
  intro columns
  apply (expect_silent _ _).bind
  intro _
  apply (commaSeparated_lists row_lists).bind
  rintro rows _ rfl
  exact .pure (by simp)

theorem assignment_lists : Lists grammar QueryForm (fun a => [a.value]) assignment := by
  apply expectIdentifier_silent.bind
  intro target
  apply (expect_silent _ _).bind
  intro _
  exact (Gathers.expr expression_written).bind fun e _ hes => .pure (by simp [hes])

theorem update_lists : Lists grammar QueryForm
    (fun s => s.assignments.map (·.value) ++ s.filter.toList ++ s.limit.toList) update := by
  apply (expect_silent _ _).bind
  intro start
  apply sourceName_silent.bind
  intro source
  apply (expect_silent _ _).bind
  intro _
  apply (commaSeparated_lists assignment_lists).bind
  rintro assignments _ rfl
  apply (optionalAfter_lists expression_written "WHERE").bind
  rintro filter _ rfl
  apply (optionalAfter_lists expression_written "LIMIT").bind
  rintro limit _ rfl
  exact .pure (by simp [List.map_eq_flatMap])

theorem delete_lists :
    Lists grammar QueryForm (fun s => s.filter.toList ++ s.limit.toList) delete := by
  apply (expect_silent _ _).bind
  intro start
  apply (expect_silent _ _).bind
  intro _
  apply sourceName_silent.bind
  intro source
  apply (optionalAfter_lists expression_written "WHERE").bind
  rintro filter _ rfl
  apply (optionalAfter_lists expression_written "LIMIT").bind
  rintro limit _ rfl
  exact .pure (by simp)

/-- The expressions that stand in a statement directly. -/
def Statement.roots : Statement → List Expr
  | .select s => s.roots
  | .insert s => s.rows.flatten
  | .update s => s.assignments.map (·.value) ++ s.filter.toList ++ s.limit.toList
  | .delete s => s.filter.toList ++ s.limit.toList
  | .empty => []

/-- The expressions of the statement are gathered, perhaps in another order. -/
abbrev GathersRoots (p : Parse Statement) : Prop :=
  Gathers grammar QueryForm (fun s es => es.Perm s.roots) p

theorem select_gathers : GathersRoots (.select <$> select expression) := by
  have hselect : Gathers grammar QueryForm (fun s es => es.Perm s.roots) (select expression) := by
    constructor
    intro c
    apply (select_written expression_written).imp
    rintro s ts ⟨_, ⟨-, -, hroots⟩, hparts⟩
    refine ⟨_, ?_, hparts⟩
    exact hroots
  exact hselect.bind fun s es h => .pure (by simpa [Statement.roots] using h)

theorem Gathers.statement {p : Parse α} {exprs : α → List Expr} {make : α → Statement}
    (h : Lists grammar QueryForm exprs p) (hmake : ∀ a, (make a).roots = exprs a) :
    GathersRoots (make <$> p) := by
  rw [map_eq_pure_bind]
  apply h.bind
  rintro a _ rfl
  exact .pure (by rw [hmake, List.append_nil])

theorem endOfInput_gathers {s : Statement} :
    Gathers grammar QueryForm (fun s' es => s' = s ∧ es = []) (endOfInput s) := by
  apply Silent.bind (.of_reads fun _ => isEof_reads)
  intro b
  split
  · exact .pure ⟨rfl, rfl⟩
  · exact .failExpected _

theorem nonemptyStatement_gathers (first : Token) : GathersRoots (nonemptyStatement first) := by
  have hend (s : Statement) (es : List Expr) (hs : es.Perm s.roots) :
      Gathers grammar QueryForm (fun s' es' => (es ++ es').Perm s'.roots) (do
        let _ ← eatOperator ";"
        endOfInput s) := by
    apply (eat_silent _).bind
    intro _
    exact endOfInput_gathers.imp fun s' es' ⟨hs', hes'⟩ => by simpa [hs', hes'] using hs
  unfold nonemptyStatement
  dsimp only
  split
  · exact select_gathers.bind hend
  split
  · exact (Gathers.statement insert_lists fun _ => rfl).bind hend
  split
  · exact (Gathers.statement update_lists fun _ => rfl).bind hend
  split
  · exact (Gathers.statement delete_lists fun _ => rfl).bind hend
  · exact (Gathers.failExpected _).bind hend

theorem statement_gathers : GathersRoots statement := by
  apply Silent.bind (.of_reads fun _ => peekNth_reads 0)
  intro o
  cases o with
  | none => exact .pure .nil
  | some token =>
    dsimp only
    split
    · apply Silent.bind (.of_reads fun _ => next_reads)
      intro _
      exact endOfInput_gathers.imp fun s es ⟨hs, hes⟩ => by simp [hs, hes, Statement.roots]
    · exact nonemptyStatement_gathers token

/-- The expressions of a statement are written as tokens of its source, limits among them. -/
theorem parse_written {source : String} {s : Statement} (h : parse source = .ok s) :
    ∃ parts ts, ts <+: (scan table source).tokens ∧ EmbeddedLang.Written grammar QueryForm parts ts ∧
      (exprsOf parts).Perm s.roots := by
  obtain ⟨c', hrun⟩ := exists_of_run? h
  obtain ⟨ts, hts, parts, hroots, hparts⟩ := (statement_gathers.reads _).of_ok s c' hrun
  refine ⟨parts, ts, ?_, hparts, hroots⟩
  have htokens : (scan table source).tokens = ts ++ c'.tokens := congrArg Cursor.tokens hts
  rw [htokens]
  exact List.prefix_append ts c'.tokens

end Query

end EmbeddedLang
