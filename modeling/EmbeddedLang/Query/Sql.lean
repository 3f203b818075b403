import EmbeddedLang.Query.Dialect
import EmbeddedLang.Query.Scope
import EmbeddedLang.Query.Statement

/-!
Statements as SQL of a dialect.

A literal becomes a bind, and so no value that a query spells out reaches the text.
-/

namespace EmbeddedLang.Query

structure CompiledQuery where
  sql : String
  binds : List Bind
  dialect : String

namespace CompiledQuery

def literalValues (q : CompiledQuery) : List BindValue :=
  q.binds.filterMap (·.source.literal?)

def isEmpty (q : CompiledQuery) : Bool :=
  q.sql.isEmpty

end CompiledQuery

/-- What statements are compiled for. -/
structure Target where
  metadata : Metadata
  dialect : Dialect

namespace Target

abbrev Result := Except CompileError Fragment

variable (t : Target)

def name (identifier : String) : Fragment :=
  .name t.dialect.quotes identifier

def typeOf (scopes : Scopes) (e : Expr) : Option ColumnType :=
  scopes.typeOf t.dialect.quotes e

/-- The types that two operands ask of each other. -/
def operandTypes (scopes : Scopes) (op : BinaryOp) (left right : Expr)
    (hint : Option ColumnType) : Option ColumnType × Option ColumnType :=
  match op with
  | .and | .or => (none, none)
  | .concat => (some .text, some .text)
  | .add | .sub | .mul | .div | .mod | .bitAnd | .bitOr | .bitXor =>
    ((t.typeOf scopes right).orElse fun _ => hint, (t.typeOf scopes left).orElse fun _ => hint)
  | _ => (t.typeOf scopes right, t.typeOf scopes left)

def aliased (f : Fragment) : Option String → Fragment
  | some aliasName => f.push " AS " ++ t.name aliasName
  | none => f

def sourceSql (s : Source) : Result := do
  return .source t.dialect.quotes (← resolveSource t.metadata s)

def pairsSql (a b : ScopeSource) (path : JoinPath) : Fragment :=
  let q := t.dialect.quotes
  .joined " AND " ((path.near.zip path.far).map fun (near, far) =>
    .column q ⟨0, a, true, near⟩ ++ .text " = " ++ .column q ⟨0, b, true, far⟩)

/-- The condition that joins `target` to the first earlier source that it has a relationship
with. -/
def relationshipCondition (earlier : List ScopeSource) (target : ScopeSource)
    (position : Position) : Result :=
  let found := earlier.findSome? fun source =>
    (t.metadata.path? source.table.model target.table.model).map fun path => (source, path)
  match found with
  | some (source, path) => .ok (t.pairsSql source target path)
  | none =>
    let first := (earlier.head?.map (·.table.model)).getD target.table.model
    .error (.noRelationship first target.table.model position)

def distinctFirst (distinct : Bool) : List Fragment → List Fragment
  | f :: rest => if distinct then (.text "DISTINCT " ++ f) :: rest else f :: rest
  | [] => []

def directionSql : Option Direction → String
  | some .asc => " ASC"
  | some .desc => " DESC"
  | none => ""

def clause (f : Fragment) (words : String) (body : Fragment) : Fragment :=
  (f.keyword words).space ++ body

def selectWords (distinct : Bool) : String :=
  if distinct then "SELECT DISTINCT" else "SELECT"

def unsupportedForm (position : Position) : CompileError :=
  .invalidConstruct position "expression is not supported in queries"

mutual

/-- The SQL of an expression; a bind that stands for all of it takes the type `hint`. -/
def expr (scopes : Scopes) (hint : Option ColumnType) : Expr → Result
  | .literal _ l => return .literal l hint
  | .identifier p name => return (← scopes.column t.dialect.quotes name p).1
  | .member p object property =>
    match object.identifier? with
    | some reference =>
      return (← scopes.qualifiedColumn t.dialect.quotes reference property p).1
    | none => throw (.invalidConstruct p "only model members can be accessed")
  | .unary p op operand => do
    t.dialect.render (.unary op) [← expr scopes hint operand] p
  | .binary p op left right => do
    let (leftHint, rightHint) := t.operandTypes scopes op left right hint
    let l ← expr scopes leftHint left
    let r ← expr scopes rightHint right
    t.dialect.render (.binary op) [l, r] p
  | .call p callee args distinct =>
    match callee.identifier? with
    | some name => do
      let rendered ← items scopes none args
      t.dialect.render (.function (name.map Char.toUpper)) (distinctFirst distinct rendered) p
    | none => throw (.invalidConstruct p "only named functions can be called")
  | .grouped _ inner => return .text "(" ++ (← expr scopes hint inner) ++ .text ")"
  | .list _ elements =>
    return .text "(" ++ .joined ", " (← items scopes hint elements) ++ .text ")"
  | .placeholder _ p => return .bind (.ofPlaceholder p) hint
  | .star _ => return .text "*"
  | .qualifiedStar p reference =>
    match scopes.sourceNamed? reference 0 with
    | some (_, source) => return t.name source.qualifier ++ .text ".*"
    | none => throw (.unknownEntity reference p)
  | .between _ subject low high negated => do
    let type := t.typeOf scopes subject
    let s ← expr scopes none subject
    let l ← expr scopes type low
    let h ← expr scopes type high
    return s.push (if negated then " NOT BETWEEN " else " BETWEEN ") ++ l ++ .text " AND " ++ h
  | .isNull _ subject negated =>
    return (← expr scopes none subject).push (if negated then " IS NOT NULL" else " IS NULL")
  | .cases _ operand branches otherwise => do
    let type := operand.bind (t.typeOf scopes)
    let f ← subject scopes operand (.text "CASE")
    let f ← whens scopes type hint branches f
    let f ← optionalClause scopes hint "ELSE" otherwise f
    return f.keyword "END"
  | .cast _ subject target =>
    return .text "CAST(" ++ (← expr scopes none subject) ++ .text " AS " ++ .text target
      ++ .text ")"
  | .existence _ inner => return .text "EXISTS (" ++ (← select scopes inner) ++ .text ")"
  | .subquery _ inner => return .text "(" ++ (← select scopes inner) ++ .text ")"
  | .index p .. | .slice p .. | .conditional p .. | .filter p .. | .defined p .. | .test p .. =>
    throw (unsupportedForm p)

def items (scopes : Scopes) (hint : Option ColumnType) :
    List Item → Except CompileError (List Fragment)
  | [] => return []
  | ⟨_, e⟩ :: rest => do
    let f ← expr scopes hint e
    return f :: (← items scopes hint rest)

def exprs (scopes : Scopes) : List Expr → Except CompileError (List Fragment)
  | [] => return []
  | e :: rest => do
    let f ← expr scopes none e
    return f :: (← exprs scopes rest)

def subject (scopes : Scopes) : Option Expr → Fragment → Result
  | none, f => return f
  | some e, f => return f.space ++ (← expr scopes none e)

def optionalClause (scopes : Scopes) (hint : Option ColumnType) (words : String) :
    Option Expr → Fragment → Result
  | none, f => return f
  | some e, f => return clause f words (← expr scopes hint e)

def whens (scopes : Scopes) (type hint : Option ColumnType) : List When → Fragment → Result
  | [], f => return f
  | ⟨condition, result⟩ :: rest, f => do
    let c ← expr scopes type condition
    let r ← expr scopes hint result
    whens scopes type hint rest (clause (clause f "WHEN" c) "THEN" r)

def projections (scopes : Scopes) : List Projection → Except CompileError (List Fragment)
  | [] => return []
  | ⟨e, aliasName⟩ :: rest => do
    let f ← expr scopes none e
    return t.aliased f aliasName :: (← projections scopes rest)

/-- Joins after the sources `earlier`. -/
def joins (scopes : Scopes) (earlier : List ScopeSource) : List Join → Fragment → Result
  | [], f => return f
  | ⟨kind, source, condition, position⟩ :: rest, f => do
    let target ← resolveSource t.metadata source
    let sourceText ← t.sourceSql source
    let on ← joinCondition scopes earlier kind target position condition
    let rendered ← t.dialect.render (.join kind) (sourceText :: on) position
    joins scopes (earlier ++ [target]) rest (f.space ++ rendered)

def joinCondition (scopes : Scopes) (earlier : List ScopeSource) (kind : JoinKind)
    (target : ScopeSource) (position : Position) :
    Option Expr → Except CompileError (List Fragment)
  | some e => return [← expr scopes none e]
  | none =>
    if kind = .cross then return []
    else return [← t.relationshipCondition earlier target position]

def orders (scopes : Scopes) : List OrderItem → Except CompileError (List Fragment)
  | [] => return []
  | ⟨e, direction⟩ :: rest => do
    let f ← expr scopes none e
    return f.push (directionSql direction) :: (← orders scopes rest)

def limit (scopes : Scopes) : Option Limit → Fragment → Result
  | none, f => return f
  | some ⟨count, offset⟩, f => do
    let c ← expr scopes (some .integer) count
    let os ← offsetOf scopes offset
    let construct := if os.isEmpty then .limit else .limitOffset
    let rendered ← t.dialect.render construct (c :: os) count.position
    return f.space ++ rendered

def offsetOf (scopes : Scopes) : Option Expr → Except CompileError (List Fragment)
  | none => return []
  | some e => return [← expr scopes (some .integer) e]

def select (outer : Scopes) : Select → Result
  | ⟨distinct, ps, sources, js, filter, groupBy, having, orderBy, bound, _⟩ => do
    let found ← resolveSources t.metadata [] (sources ++ js.map Join.source)
    let scopes := .ofSources found :: outer
    let projected ← projections scopes ps
    let f := clause [] (selectWords distinct) (.joined ", " projected)
    let f := clause f "FROM" (.joined ", " (← sources.mapM t.sourceSql))
    let f ← joins scopes (found.take sources.length) js f
    let f ← optionalClause scopes none "WHERE" filter f
    let scopes := ⟨found, ps.filterMap Projection.aliasName⟩ :: outer
    let grouped ← exprs scopes groupBy
    let f := (if groupBy.isEmpty then f else clause f "GROUP BY" (.joined ", " grouped))
    let f ← optionalClause scopes none "HAVING" having f
    let ordered ← orders scopes orderBy
    let f := (if orderBy.isEmpty then f else clause f "ORDER BY" (.joined ", " ordered))
    return .enclosed (← limit scopes bound f)

end

def namedColumns (table : Table) : List (String × Position) →
    Except CompileError (List Column)
  | [] => return []
  | (name, position) :: rest =>
    match table.column? name with
    | some type => return ⟨name, type⟩ :: (← namedColumns table rest)
    | none => throw (.unknownColumn table.model name position)

/-- The columns that a row of values fills. -/
def insertColumns (table : Table) (s : Insert) : Except CompileError (List Column) :=
  if s.columns.isEmpty then .ok table.columns else namedColumns table s.columns

def valueSql (scopes : Scopes) (value : Expr × Column) : Result :=
  t.expr scopes (some value.2.type) value.1

def rowSql (scopes : Scopes) (columns : List Column) (position : Position) (row : List Expr) :
    Result := do
  if row.length ≠ columns.length then
    throw (.invalidConstruct ((row.head?.map Expr.position).getD position)
      ("expected " ++ toString columns.length ++ " values, found " ++ toString row.length))
  let values ← (row.zip columns).mapM (t.valueSql scopes)
  return .text "(" ++ .joined ", " values ++ .text ")"

def insert (s : Insert) : Result := do
  let target ← resolveSource t.metadata s.source
  let scopes : Scopes := [.ofSources [target]]
  let table := target.table
  let columns ← insertColumns table s
  let rows ← s.rows.mapM (t.rowSql scopes columns s.position)
  return .text "INSERT INTO " ++ t.name table.table ++ .text " ("
    ++ .joined ", " (columns.map fun column => t.name column.name) ++ .text ") VALUES "
    ++ .joined ", " rows

def assignmentSql (scopes : Scopes) (table : Table) (a : Assignment) : Result := do
  match table.column? a.column with
  | some type =>
    return t.name a.column ++ .text " = " ++ (← t.expr scopes (some type) a.value)
  | none => throw (.unknownColumn table.model a.column a.position)

/-- The limit of an update or a delete. -/
def changeLimit (scopes : Scopes) (c : Construct) (f : Fragment) : Option Expr → Result
  | none => return f
  | some e => do
    let count ← t.expr scopes (some .integer) e
    return f.space ++ (← t.dialect.render c [count] e.position)

def update (s : Update) : Result := do
  let target ← resolveSource t.metadata s.source
  let scopes : Scopes := [.ofSources [target]]
  let table := target.table
  let assignments ← s.assignments.mapM (t.assignmentSql scopes table)
  let f := .text "UPDATE " ++ .source t.dialect.quotes target.unaliased ++ .text " SET "
    ++ .joined ", " assignments
  let f ← t.optionalClause scopes none "WHERE" s.filter f
  return .enclosed (← t.changeLimit scopes .updateLimit f s.limit)

def delete (s : Delete) : Result := do
  let target ← resolveSource t.metadata s.source
  let scopes : Scopes := [.ofSources [target]]
  let f := .text "DELETE FROM " ++ .source t.dialect.quotes target.unaliased
  let f ← t.optionalClause scopes none "WHERE" s.filter f
  return .enclosed (← t.changeLimit scopes .deleteLimit f s.limit)

def statement : Statement → Result
  | .select s => t.select [] s
  | .insert s => t.insert s
  | .update s => t.update s
  | .delete s => t.delete s
  | .empty => return []

end Target

def lower (m : Metadata) (d : Dialect) (s : Statement) : Except CompileError CompiledQuery := do
  let (sql, binds) := (← Target.statement ⟨m, d⟩ s).finish d.style
  return ⟨sql, binds, d.name⟩

def compile (m : Metadata) (d : Dialect) (source : String) : Except CompileError CompiledQuery := do
  lower m d (← parse source)

end EmbeddedLang.Query
