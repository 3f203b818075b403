import EmbeddedLang.Proofs.Query.BindOrder

/-!
The types that a statement asks for its binds.

A comparison asks that all its operands be bound with the type of the column that is among them, and
a change that a value be bound with the type of the column that it fills. What is asked of an
expression is asked of whatever stands for all of it: what is in its parentheses, the items of a
list, the results of a `CASE`, the operand of a sign.
-/

namespace EmbeddedLang

namespace Query

/-- The type of a value that is written out. A parameter has none of its own. -/
def BindSource.ownType? (s : BindSource) : Option ColumnType :=
  s.literal?.map BindValue.naturalType

/-- What is asked of the type of a bind. -/
inductive Demand where
  | free
  /-- To be of this type, or of its own where there is none. -/
  | typed (type : Option ColumnType)
deriving DecidableEq

structure Asked where
  source : BindSource
  demand : Demand

def Asked.Met (x : Asked) (bind : BindSource × Option ColumnType) : Prop :=
  bind.1 = x.source ∧
    ∀ type, x.demand = .typed type → bind.2 = type.orElse fun _ => x.source.ownType?

/-! ### Columns among the operands -/

/-- The type of the column that stands in any number of parentheses. -/
def Scopes.columnType? (scopes : Scopes) : Expr → Option ColumnType
  | .grouped _ e => columnType? scopes e
  | .identifier _ name =>
    match Scopes.meaning name 0 scopes with
    | .column r => r.source.table.column? name
    | _ => none
  | .member _ object property =>
    match object.identifier? with
    | some reference => (Scopes.sourceNamed? reference 0 scopes).bind (·.2.table.column? property)
    | none => none
  | _ => none

theorem Scopes.typeOf_eq_columnType? (q : Quotes) (scopes : Scopes) :
    ∀ e : Expr, scopes.typeOf q e = scopes.columnType? e
  | .grouped _ e => typeOf_eq_columnType? q scopes e
  | .identifier p name => by
    unfold typeOf columnType?
    simp only [Expr.ungrouped, column]
    cases meaning name 0 scopes <;> rfl
  | .member p object property => by
    unfold typeOf columnType?
    simp only [Expr.ungrouped]
    cases object.identifier? with
    | none => rfl
    | some reference =>
      simp only [Option.bind_some, qualifiedColumn]
      cases sourceNamed? reference 0 scopes with
      | none => rfl
      | some found =>
        obtain ⟨depth, source⟩ := found
        simp only [Option.bind_some]
        cases source.table.column? property <;> rfl
  | .literal .. | .unary .. | .binary .. | .call .. | .index .. | .slice .. | .list .. => rfl
  | .conditional .. | .placeholder .. | .star _ | .qualifiedStar .. | .between .. => rfl
  | .isNull .. | .cases .. | .cast .. | .existence .. | .subquery .. => rfl
  | .filter .. | .defined .. | .test .. => rfl

-- none where there is no column, and none where columns differ
def commonType? : List ColumnType → Option ColumnType
  | [] => none
  | type :: rest => if ∀ other ∈ rest, other = type then some type else none

def Scopes.commonType? (scopes : Scopes) (operands : List Expr) : Option ColumnType :=
  Query.commonType? (operands.filterMap scopes.columnType?)

/-! ### Comparisons -/

def comparisons : List BinaryOp :=
  [.eq, .notEq, .lt, .gt, .ltEq, .gtEq, .like, .notLike, .iLike, .notILike]

/-- What `IN` with a list and `BETWEEN` ask of their operands, from the type of the subject and the
one type of all columns among the operands. -/
abbrev Rule := Option ColumnType → Option ColumnType → Demand

/-- To be of the type of the columns, wherever they stand. -/
def Rule.always : Rule := fun _ common => .typed common

/-- The same, as long as the subject tells what the columns are. -/
def Rule.bySubject : Rule := fun subject common =>
  if common = subject then .typed common else .free

/-- The items of a list in any number of parentheses. -/
def items? (e : Expr) : Option (List Expr) :=
  match e.ungrouped with
  | .list _ items => some (items.map Item.value)
  | _ => none

def Scopes.askedBy (scopes : Scopes) (rule : Rule) (op : BinaryOp) (x y : Expr) : Demand :=
  if op ∈ comparisons then .typed (scopes.commonType? [x, y])
  else if op = .in ∨ op = .notIn then
    match items? y with
    | some items => rule (scopes.columnType? x) (scopes.commonType? (x :: items))
    | none => .free
  else .free

/-! ### Statements

The operands of an expression with what is asked of each, in the order in which the dialect writes
them. -/

/-- What the operands of a construct come to in the order of its template. -/
def Dialect.arrange {α : Type} (d : Dialect) (c : Construct) (xss : List (List α)) : List α :=
  match d.template? c with
  | some template => template.arrange xss
  | none => []

def Metadata.sourcesOf (m : Metadata) (sources : List Source) (joins : List Join) :
    List ScopeSource :=
  (resolveSources m [] (sources ++ joins.map Join.source)).toOption.getD []

theorem Metadata.sourcesOf_eq {m : Metadata} {sources : List Source} {joins : List Join}
    {found : List ScopeSource}
    (h : resolveSources m [] (sources ++ joins.map Join.source) = .ok found) :
    m.sourcesOf sources joins = found := by
  rw [sourcesOf, h]
  rfl

end Query

open Query

section asked

variable (t : Target) (rule : Rule)

mutual

def Expr.asked (scopes : Scopes) (demand : Demand) : Expr → List Asked
  | .literal _ l =>
    ((BindValue.ofLiteral? l).map fun value => Asked.mk (.literal value) demand).toList
  | .placeholder _ p => [⟨.ofPlaceholder p, demand⟩]
  | .grouped _ x => x.asked scopes demand
  | .list _ items => (askedOfItems scopes demand items).flatten
  | .unary _ op x => t.dialect.arrange (.unary op) [x.asked scopes demand]
  | .binary _ op x y =>
    let both := scopes.askedBy rule op x y
    t.dialect.arrange (.binary op) [x.asked scopes both, y.asked scopes both]
  | .between _ x low high _ =>
    let all := rule (scopes.columnType? x) (scopes.commonType? [x, low, high])
    x.asked scopes all ++ low.asked scopes all ++ high.asked scopes all
  | .cases _ operand branches otherwise =>
    (askedOfOption scopes .free operand).flatten ++ askedOfWhens scopes demand branches
      ++ (askedOfOption scopes demand otherwise).flatten
  | .call _ callee args _ =>
    t.dialect.arrange (.function callee.functionName) (askedOfItems scopes .free args)
  | .isNull _ x _ | .cast _ x _ => x.asked scopes .free
  | .existence _ s | .subquery _ s => s.asked scopes
  | .identifier .. | .member .. | .star _ | .qualifiedStar .. => []
  -- these are for templates
  | .index .. | .slice .. | .conditional .. | .filter .. | .defined .. | .test .. => []

def askedOfOption (scopes : Scopes) (demand : Demand) : Option Expr → List (List Asked)
  | none => []
  | some e => [e.asked scopes demand]

def askedOfExprs (scopes : Scopes) : List Expr → List (List Asked)
  | [] => []
  | e :: rest => e.asked scopes .free :: askedOfExprs scopes rest

def askedOfItems (scopes : Scopes) (demand : Demand) : List Item → List (List Asked)
  | [] => []
  | ⟨_, e⟩ :: rest => e.asked scopes demand :: askedOfItems scopes demand rest

def askedOfWhens (scopes : Scopes) (demand : Demand) : List When → List Asked
  | [] => []
  | ⟨c, e⟩ :: rest =>
    c.asked scopes .free ++ e.asked scopes demand ++ askedOfWhens scopes demand rest

def askedOfProjections (scopes : Scopes) : List Projection → List (List Asked)
  | [] => []
  | ⟨e, _⟩ :: rest => e.asked scopes .free :: askedOfProjections scopes rest

def askedOfJoins (scopes : Scopes) : List Join → List Asked
  | [] => []
  | ⟨kind, _, condition, _⟩ :: rest =>
    t.dialect.arrange (.join kind) ([] :: askedOfOption scopes .free condition)
      ++ askedOfJoins scopes rest

def askedOfOrders (scopes : Scopes) : List OrderItem → List (List Asked)
  | [] => []
  | ⟨e, _⟩ :: rest => e.asked scopes .free :: askedOfOrders scopes rest

def askedOfLimit (scopes : Scopes) : Option Limit → List Asked
  | none => []
  | some ⟨count, offset⟩ =>
    t.dialect.arrange (if offset.isSome then .limitOffset else .limit)
      (count.asked scopes .free :: askedOfOption scopes .free offset)

/-- The aliases of the projections can be referred to from `GROUP BY` on. -/
def Select.asked (outer : Scopes) : Select → List Asked
  | ⟨_, projections, sources, joins, filter, groupBy, having, orderBy, limit, _⟩ =>
    let found := t.metadata.sourcesOf sources joins
    let scopes : Scopes := .ofSources found :: outer
    let named : Scopes := ⟨found, projections.filterMap Projection.aliasName⟩ :: outer
    (askedOfProjections scopes projections).flatten ++ askedOfJoins scopes joins
      ++ (askedOfOption scopes .free filter).flatten ++ (askedOfExprs named groupBy).flatten
      ++ (askedOfOption named .free having).flatten ++ (askedOfOrders named orderBy).flatten
      ++ askedOfLimit named limit

end

namespace Query

/-- A value asks for the type of the column that it fills. -/
def askedOfRow (scopes : Scopes) (columns : List Column) (row : List Expr) : List Asked :=
  (row.zip columns).flatMap fun value =>
    value.1.asked t rule scopes (.typed (some value.2.type))

def askedOfAssignment (scopes : Scopes) (table : Table) (a : Assignment) : List Asked :=
  a.value.asked t rule scopes (.typed (table.column? a.column))

def askedOfBound (scopes : Scopes) (c : Construct) : Option Expr → List Asked
  | none => []
  | some e => t.dialect.arrange c [e.asked t rule scopes .free]

def Insert.asked (s : Insert) (target : ScopeSource) : List Asked :=
  let columns := (Target.insertColumns target.table s).toOption.getD []
  s.rows.flatMap (askedOfRow t rule [.ofSources [target]] columns)

def Update.asked (s : Update) (target : ScopeSource) : List Asked :=
  let scopes : Scopes := [.ofSources [target]]
  s.assignments.flatMap (askedOfAssignment t rule scopes target.table)
    ++ (askedOfOption t rule scopes .free s.filter).flatten
    ++ askedOfBound t rule scopes .updateLimit s.limit

def Delete.asked (s : Delete) (target : ScopeSource) : List Asked :=
  let scopes : Scopes := [.ofSources [target]]
  (askedOfOption t rule scopes .free s.filter).flatten
    ++ askedOfBound t rule scopes .deleteLimit s.limit

def Metadata.withSource {α : Type} (m : Metadata) (s : Source) (asked : ScopeSource → List α) :
    List α :=
  (resolveSource m s).toOption.elim [] asked

theorem Metadata.withSource_eq {α : Type} {m : Metadata} {s : Source} {target : ScopeSource}
    (h : resolveSource m s = .ok target) (asked : ScopeSource → List α) :
    m.withSource s asked = asked target := by
  rw [withSource, h]
  rfl

def Statement.asked : Statement → List Asked
  | .select s => s.asked t rule []
  | .insert s => t.metadata.withSource s.source (s.asked t rule)
  | .update s => t.metadata.withSource s.source (s.asked t rule)
  | .delete s => t.metadata.withSource s.source (s.asked t rule)
  | .empty => []

end Query

end asked

end EmbeddedLang
