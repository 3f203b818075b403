import EmbeddedLang.Proofs.Query.Numbering
import EmbeddedLang.Proofs.Query.Operands

/-!
The binds of a statement are its operands, in the order in which the dialect writes them.

A fragment binds what its parts bind, and a template what its slots pick. So the binds of a
statement follow from what the templates of the dialect do to their operands.
-/

namespace EmbeddedLang.Query

/-! ### Fragments -/

def Piece.bound? : Piece → Option BindSource
  | .bind s _ => some s
  | _ => none

namespace Fragment

/-- What a fragment binds, from its front to its end. -/
def bound (f : Fragment) : List BindSource :=
  f.filterMap Piece.bound?

variable {f g : Fragment}

@[simp]
theorem bound_nil : bound [] = [] :=
  rfl

@[simp]
theorem bound_append : (f ++ g).bound = f.bound ++ g.bound :=
  List.filterMap_append

@[simp]
theorem bound_text (s : String) : (text s).bound = [] := by
  unfold text
  split <;> rfl

@[simp]
theorem bound_word (s : String) : bound [.text s] = [] :=
  rfl

@[simp]
theorem bound_name (q : Quotes) (identifier : String) : (name q identifier).bound = [] :=
  rfl

@[simp]
theorem bound_source (q : Quotes) (s : ScopeSource) : (source q s).bound = [] :=
  rfl

@[simp]
theorem bound_column (q : Quotes) (r : Reference) : (column q r).bound = [] :=
  rfl

@[simp]
theorem bound_bind (s : BindSource) (type : Option ColumnType) : (bind s type).bound = [s] :=
  rfl

@[simp]
theorem bound_enclosed : (enclosed f).bound = f.bound := by
  change bound (f ++ [.leave]) = f.bound
  rw [bound_append]
  exact List.append_nil _

@[simp]
theorem bound_push (s : String) : (f.push s).bound = f.bound := by
  rw [push, bound_append, bound_text, List.append_nil]

@[simp]
theorem bound_space : f.space.bound = f.bound := by
  unfold space
  split
  · rfl
  · split
    · rfl
    · exact bound_push " "

@[simp]
theorem bound_keyword (word : String) : (f.keyword word).bound = f.bound := by
  rw [keyword, bound_push, bound_space]

@[simp]
theorem bound_literal (l : Literal) (type : Option ColumnType) :
    (literal l type).bound = ((BindValue.ofLiteral? l).map BindSource.literal).toList := by
  unfold literal
  cases BindValue.ofLiteral? l <;> simp

@[simp]
theorem bound_joined (separator : String) (fs : List Fragment) :
    (joined separator fs).bound = (fs.map bound).flatten := by
  induction fs with
  | nil => rfl
  | cons f rest ih =>
    cases rest with
    | nil => simp [joined]
    | cons g rest =>
      rw [joined, bound_append, bound_append, bound_text, List.append_nil]
      · exact congrArg (f.bound ++ ·) ih
      · intro h
        cases h

theorem bound_finishFrom (style : PlaceholderStyle) (index : Nat) (f : Fragment) :
    (f.finishFrom style index).2.map (·.source) = f.bound := by
  induction f generalizing index with
  | nil => rfl
  | cons piece rest ih =>
    cases piece with
    | bind source type => rw [finishFrom_bind, List.map_cons, ih]; rfl
    | _ => rw [finishFrom_cons style index rfl, ih]; rfl

end Fragment

open Fragment (bound)

theorem Target.bound_clause (f g : Fragment) (words : String) :
    (clause f words g).bound = f.bound ++ g.bound := by
  simp [clause]

theorem Target.bound_listClause {absent : Bool} {fs : List Fragment} (f : Fragment)
    (words : String) (h : absent = true → (fs.map bound).flatten = []) :
    bound (if absent then f else clause f words (.joined ", " fs)) =
      f.bound ++ (fs.map bound).flatten := by
  cases absent with
  | true => simp [h rfl]
  | false => simp [bound_clause]

theorem Target.bound_distinctFirst (distinct : Bool) (fs : List Fragment) :
    (distinctFirst distinct fs).map bound = fs.map bound := by
  cases fs with
  | nil => rfl
  | cons f rest => cases distinct <;> simp [distinctFirst]

/-! ### Templates -/

/-- What a part of a template takes from the operands. -/
def TemplatePart.pick {α : Type} (xss : List (List α)) : TemplatePart → List α
  | .text _ => []
  | .slot i => (xss[i]?).getD []
  | .all => xss.flatten

namespace SyntaxTemplate

/-- The parts that are not text. -/
def slots (t : SyntaxTemplate) : List TemplatePart :=
  t.parts.filter fun
    | .text _ => false
    | _ => true

def arrange {α : Type} (t : SyntaxTemplate) (xss : List (List α)) : List α :=
  t.slots.flatMap (TemplatePart.pick xss)

theorem fill_bound (fs : List Fragment) (part : TemplatePart) :
    Returns (fun f => f.bound = part.pick (fs.map bound)) (fill fs part) := by
  cases part with
  | text s => exact .ok (Fragment.bound_text s)
  | all => exact .ok (Fragment.bound_joined ", " fs)
  | slot i =>
    rw [fill]
    cases hi : fs[i]? with
    | none => exact .error _
    | some f =>
      apply Returns.ok
      rw [TemplatePart.pick, List.getElem?_map, hi]
      rfl

theorem fillAll_bound (fs : List Fragment) (parts : List TemplatePart) :
    Returns (fun f => f.bound = parts.flatMap (TemplatePart.pick (fs.map bound)))
      (fillAll fs parts) := by
  induction parts with
  | nil => exact .ok rfl
  | cons part rest ih =>
    apply (fill_bound fs part).bind
    intro f hf
    apply ih.bind
    intro g hg
    apply Returns.pure
    rw [Fragment.bound_append, hf, hg, List.flatMap_cons]

theorem arrange_eq {α : Type} (t : SyntaxTemplate) (xss : List (List α)) :
    t.arrange xss = t.parts.flatMap (TemplatePart.pick xss) := by
  unfold arrange slots
  induction t.parts with
  | nil => rfl
  | cons part rest ih =>
    cases part with
    | text s => exact ih
    | slot i => exact congrArg ((xss[i]?).getD [] ++ ·) ih
    | all => exact congrArg (xss.flatten ++ ·) ih

theorem pick_concat_nil {α : Type} (xss : List (List α)) (part : TemplatePart) :
    part.pick (xss ++ [[]]) = part.pick xss := by
  cases part with
  | text s => rfl
  | all => simp [TemplatePart.pick]
  | slot i =>
    simp only [TemplatePart.pick, List.getElem?_append]
    split
    · rfl
    · rename_i hi
      rw [List.getElem?_eq_none (Nat.le_of_not_lt hi)]
      cases i - xss.length <;> rfl

/-- A last operand that binds nothing makes no difference. -/
theorem arrange_concat_nil {α : Type} (t : SyntaxTemplate) (xss : List (List α)) :
    t.arrange (xss ++ [[]]) = t.arrange xss :=
  congrArg t.slots.flatMap (funext (pick_concat_nil xss))

end SyntaxTemplate

/-- A dialect writes the operands of whatever it supports in the order `o`. -/
def Dialect.Writes (d : Dialect) (o : Order) : Prop :=
  ∀ c template, d.template? c = some template → ∀ xss, template.arrange xss = o c xss

namespace Target

variable {t : Target} {o : Order} (hd : t.dialect.Writes o)

include hd in
theorem render_bound (c : Construct) (fs : List Fragment) (p : Position) :
    Returns (fun f => f.bound = o c (fs.map bound)) (t.dialect.render c fs p) := by
  unfold Dialect.render
  cases h : t.dialect.template? c with
  | none => exact .error _
  | some template =>
    rw [← hd c template h, template.arrange_eq]
    exact (SyntaxTemplate.fillAll_bound fs template.parts).mapError

include hd in
theorem render_bound_of_concat (c : Construct) {fs : List Fragment} {xss : List (List BindSource)}
    (h : fs.map bound = xss ∨ fs.map bound = xss ++ [[]]) (p : Position) :
    Returns (fun f => f.bound = o c xss) (t.dialect.render c fs p) := by
  rcases h with h | h
  · rw [← h]
    exact render_bound hd c fs p
  · unfold Dialect.render
    cases ht : t.dialect.template? c with
    | none => exact .error _
    | some template =>
      rw [← hd c template ht, ← template.arrange_concat_nil, ← h, template.arrange_eq]
      exact (SyntaxTemplate.fillAll_bound fs template.parts).mapError

theorem sourceSql_bound (s : Source) : Returns (fun f => f.bound = []) (t.sourceSql s) := by
  unfold sourceSql
  exact (Returns.self _).bind fun _ _ => .pure (Fragment.bound_source _ _)

theorem sourceList_bound (sources : List Source) :
    Returns (fun fs => (fs.map bound).flatten = []) (sources.mapM t.sourceSql) := by
  apply (Returns.mapM fun s _ => sourceSql_bound s).imp
  intro fs hfs
  apply List.flatten_eq_nil_iff.mpr
  intro xs hxs
  obtain ⟨f, hf, rfl⟩ := List.mem_map.mp hxs
  exact hfs f hf

theorem pairsSql_bound (a b : ScopeSource) (path : JoinPath) :
    (t.pairsSql a b path).bound = [] := by
  unfold pairsSql
  simp [Function.comp_def]

theorem relationshipCondition_bound (earlier : List ScopeSource) (target : ScopeSource)
    (p : Position) : Returns (fun f => f.bound = []) (t.relationshipCondition earlier target p) := by
  unfold relationshipCondition
  dsimp only
  split
  · exact .ok (pairsSql_bound _ _ _)
  · exact .error _

theorem aliased_bound (f : Fragment) (aliasName : Option String) :
    (t.aliased f aliasName).bound = f.bound := by
  cases aliasName <;> simp [aliased, name]

/-! ### Expressions and selects

The induction is on the tree, case by case as the translation goes down. -/

include hd

-- the lemmas of the block use the hypothesis only through each other
set_option linter.unusedSectionVars false

mutual

theorem expr_bound (scopes : Scopes) (hint : Option ColumnType) : ∀ e : Expr,
    Returns (fun f => f.bound = e.operands o) (t.expr scopes hint e)
  | .literal _ l => by
    simp only [expr]
    exact .pure (Fragment.bound_literal l hint)
  | .identifier p name => by
    simp only [expr]
    unfold Scopes.column
    cases Scopes.meaning name 0 scopes with
    | projected => exact .ok rfl
    | column r => exact .ok rfl
    | ambiguous sources => exact .error _
    | unknown => exact .error _
  | .member p object property => by
    simp only [expr]
    cases hobject : object.identifier? with
    | none => exact .error _
    | some reference =>
      -- an object that is a name has no operands
      obtain ⟨p', rfl⟩ := Expr.eq_identifier hobject
      dsimp only
      unfold Scopes.qualifiedColumn
      cases Scopes.sourceNamed? reference 0 scopes with
      | none => exact .error _
      | some found =>
        obtain ⟨depth, source⟩ := found
        dsimp only
        cases source.table.column? property with
        | none => exact .error _
        | some type => exact .ok rfl
  | .unary p op x => by
    simp only [expr, Expr.operands]
    apply (expr_bound scopes hint x).bind
    intro f hf
    rw [← hf]
    exact render_bound hd (.unary op) [f] p
  | .binary p op x y => by
    simp only [expr, Expr.operands]
    apply (expr_bound scopes _ x).bind
    intro f hf
    apply (expr_bound scopes _ y).bind
    intro g hg
    rw [← hf, ← hg]
    exact render_bound hd (.binary op) [f, g] p
  | .call p callee args distinct => by
    simp only [expr, Expr.operands]
    cases hcallee : callee.identifier? with
    | none => exact .error _
    | some name =>
      obtain ⟨p', rfl⟩ := Expr.eq_identifier hcallee
      apply (items_bound scopes none args).bind
      intro fs hfs
      rw [← hfs, ← bound_distinctFirst distinct fs]
      exact render_bound hd _ _ p
  | .grouped _ x => by
    simp only [expr, Expr.operands]
    apply (expr_bound scopes hint x).bind
    intro f hf
    exact .pure (by simp [hf])
  | .list _ elements => by
    simp only [expr, Expr.operands]
    apply (items_bound scopes hint elements).bind
    intro fs hfs
    exact .pure (by simp [hfs])
  | .placeholder _ p => by
    simp only [expr, Expr.operands]
    exact .pure (Fragment.bound_bind _ _)
  | .star _ => by
    simp only [expr, Expr.operands]
    exact .pure (Fragment.bound_text _)
  | .qualifiedStar p reference => by
    simp only [expr, Expr.operands]
    cases Scopes.sourceNamed? reference 0 scopes with
    | none => exact .error _
    | some found => exact .ok (by simp [name])
  | .between _ x low high negated => by
    simp only [expr, Expr.operands]
    apply (expr_bound scopes none x).bind
    intro f hf
    apply (expr_bound scopes _ low).bind
    intro l hl
    apply (expr_bound scopes _ high).bind
    intro h hh
    exact .pure (by simp [hf, hl, hh])
  | .isNull _ x negated => by
    simp only [expr, Expr.operands]
    apply (expr_bound scopes none x).bind
    intro f hf
    exact .pure (by simp [hf])
  | .cases _ operand branches otherwise => by
    simp only [expr, Expr.operands]
    apply (subject_bound scopes operand (.text "CASE")).bind
    intro f hf
    apply (whens_bound scopes _ hint branches f).bind
    intro g hg
    apply (optionalClause_bound scopes hint "ELSE" otherwise g).bind
    intro h hh
    exact .pure (by simp [hh, hg, hf])
  | .cast _ x target => by
    simp only [expr, Expr.operands]
    apply (expr_bound scopes none x).bind
    intro f hf
    exact .pure (by simp [hf])
  | .existence _ s => by
    simp only [expr, Expr.operands]
    apply (select_bound scopes s).bind
    intro f hf
    exact .pure (by simp [hf])
  | .subquery _ s => by
    simp only [expr, Expr.operands]
    apply (select_bound scopes s).bind
    intro f hf
    exact .pure (by simp [hf])
  | .index .. | .slice .. | .conditional .. | .filter .. | .defined .. | .test .. => by
    simp only [expr]
    exact .error _

theorem items_bound (scopes : Scopes) (hint : Option ColumnType) : ∀ items : List Item,
    Returns (fun fs => fs.map bound = operandsOfItems o items) (t.items scopes hint items)
  | [] => by
    simp only [items]
    exact .pure rfl
  | ⟨_, e⟩ :: rest => by
    simp only [items]
    apply (expr_bound scopes hint e).bind
    intro f hf
    apply (items_bound scopes hint rest).bind
    intro fs hfs
    exact .pure (by rw [List.map_cons, hf, hfs, operandsOfItems])

theorem exprs_bound (scopes : Scopes) : ∀ es : List Expr,
    Returns (fun fs => fs.map bound = operandsOfExprs o es) (t.exprs scopes es)
  | [] => by
    simp only [exprs]
    exact .pure rfl
  | e :: rest => by
    simp only [exprs]
    apply (expr_bound scopes none e).bind
    intro f hf
    apply (exprs_bound scopes rest).bind
    intro fs hfs
    exact .pure (by rw [List.map_cons, hf, hfs, operandsOfExprs])

theorem subject_bound (scopes : Scopes) : ∀ (e : Option Expr) (f : Fragment),
    Returns (fun g => g.bound = f.bound ++ (operandsOfOption o e).flatten) (t.subject scopes e f)
  | none, f => by
    simp only [subject]
    exact .pure (by simp [operandsOfOption])
  | some e, f => by
    simp only [subject]
    apply (expr_bound scopes none e).bind
    intro g hg
    exact .pure (by simp [operandsOfOption, hg])

theorem optionalClause_bound (scopes : Scopes) (hint : Option ColumnType) (words : String) :
    ∀ (e : Option Expr) (f : Fragment),
      Returns (fun g => g.bound = f.bound ++ (operandsOfOption o e).flatten)
        (t.optionalClause scopes hint words e f)
  | none, f => by
    simp only [optionalClause]
    exact .pure (by simp [operandsOfOption])
  | some e, f => by
    simp only [optionalClause]
    apply (expr_bound scopes hint e).bind
    intro g hg
    exact .pure (by simp [operandsOfOption, bound_clause, hg])

theorem whens_bound (scopes : Scopes) (type hint : Option ColumnType) :
    ∀ (branches : List When) (f : Fragment),
      Returns (fun g => g.bound = f.bound ++ operandsOfWhens o branches)
        (t.whens scopes type hint branches f)
  | [], f => by
    simp only [whens]
    exact .pure (by simp [operandsOfWhens])
  | ⟨condition, result⟩ :: rest, f => by
    simp only [whens]
    apply (expr_bound scopes type condition).bind
    intro c hc
    apply (expr_bound scopes hint result).bind
    intro r hr
    apply (whens_bound scopes type hint rest _).imp
    intro g hg
    simp [hg, bound_clause, hc, hr, operandsOfWhens]

theorem projections_bound (scopes : Scopes) : ∀ ps : List Projection,
    Returns (fun fs => fs.map bound = operandsOfProjections o ps) (t.projections scopes ps)
  | [] => by
    simp only [projections]
    exact .pure rfl
  | ⟨e, aliasName⟩ :: rest => by
    simp only [projections]
    apply (expr_bound scopes none e).bind
    intro f hf
    apply (projections_bound scopes rest).bind
    intro fs hfs
    exact .pure (by rw [List.map_cons, aliased_bound, hf, hfs, operandsOfProjections])

theorem joins_bound (scopes : Scopes) :
    ∀ (earlier : List ScopeSource) (js : List Join) (f : Fragment),
      Returns (fun g => g.bound = f.bound ++ operandsOfJoins o js) (t.joins scopes earlier js f)
  | _, [], f => by
    simp only [joins]
    exact .pure (by simp [operandsOfJoins])
  | earlier, ⟨kind, source, condition, p⟩ :: rest, f => by
    simp only [joins]
    apply (Returns.self _).bind
    intro target _
    apply (sourceSql_bound source).bind
    intro g hg
    apply (joinCondition_bound scopes earlier kind target p condition).bind
    intro on hon
    have hoperands : (g :: on).map bound = [] :: operandsOfOption o condition ∨
        (g :: on).map bound = ([] :: operandsOfOption o condition) ++ [[]] := by
      rw [List.map_cons, hg]
      exact hon.imp (congrArg _) (congrArg _)
    apply (render_bound_of_concat hd (.join kind) hoperands p).bind
    intro j hj
    apply (joins_bound scopes (earlier ++ [target]) rest _).imp
    intro result hresult
    simp [hresult, hj, operandsOfJoins]

/-- A condition that the relationship supplies binds nothing, and is no operand of the tree. -/
theorem joinCondition_bound (scopes : Scopes) (earlier : List ScopeSource) (kind : JoinKind)
    (target : ScopeSource) (p : Position) : ∀ condition : Option Expr,
      Returns (fun fs => fs.map bound = operandsOfOption o condition ∨
          fs.map bound = operandsOfOption o condition ++ [[]])
        (t.joinCondition scopes earlier kind target p condition)
  | some e => by
    simp only [joinCondition]
    apply (expr_bound scopes none e).bind
    intro f hf
    exact .pure (.inl (by simp [operandsOfOption, hf]))
  | none => by
    simp only [joinCondition]
    split
    · exact .pure (.inl rfl)
    · apply (relationshipCondition_bound earlier target p).bind
      intro f hf
      exact .pure (.inr (by simp [operandsOfOption, hf]))

theorem orders_bound (scopes : Scopes) : ∀ os : List OrderItem,
    Returns (fun fs => fs.map bound = operandsOfOrders o os) (t.orders scopes os)
  | [] => by
    simp only [orders]
    exact .pure rfl
  | ⟨e, direction⟩ :: rest => by
    simp only [orders]
    apply (expr_bound scopes none e).bind
    intro f hf
    apply (orders_bound scopes rest).bind
    intro fs hfs
    exact .pure (by rw [List.map_cons, Fragment.bound_push, hf, hfs, operandsOfOrders])

theorem limit_bound (scopes : Scopes) : ∀ (bounds : Option Limit) (f : Fragment),
    Returns (fun g => g.bound = f.bound ++ operandsOfLimit o bounds) (t.limit scopes bounds f)
  | none, f => by
    simp only [limit]
    exact .pure (by simp [operandsOfLimit])
  | some ⟨count, offset⟩, f => by
    simp only [limit]
    apply (expr_bound scopes _ count).bind
    intro c hc
    apply (offsetOf_bound scopes offset).bind
    rintro os ⟨hos, hempty⟩
    apply (render_bound hd _ (c :: os) _).bind
    intro g hg
    rw [List.map_cons, hc, hos, hempty] at hg
    apply Returns.pure
    cases offset <;> simp_all [operandsOfLimit]

theorem offsetOf_bound (scopes : Scopes) : ∀ offset : Option Expr,
    Returns (fun fs => fs.map bound = operandsOfOption o offset ∧ fs.isEmpty = offset.isNone)
      (t.offsetOf scopes offset)
  | none => by
    simp only [offsetOf]
    exact .pure ⟨rfl, rfl⟩
  | some e => by
    simp only [offsetOf]
    apply (expr_bound scopes _ e).bind
    intro f hf
    exact .pure ⟨by simp [operandsOfOption, hf], rfl⟩

theorem select_bound (outer : Scopes) : ∀ s : Select,
    Returns (fun f => f.bound = s.operands o) (t.select outer s)
  | ⟨distinct, ps, sources, js, filter, groupBy, having, orderBy, bounds, p⟩ => by
    simp only [select]
    apply (Returns.self _).bind
    intro found _
    apply (projections_bound (.ofSources found :: outer) ps).bind
    intro projected hp
    apply (sourceList_bound sources).bind
    intro froms hfroms
    apply (joins_bound (.ofSources found :: outer) _ js _).bind
    intro f hf
    apply (optionalClause_bound (.ofSources found :: outer) none "WHERE" filter f).bind
    intro g hg
    let scopes : Scopes := ⟨found, ps.filterMap Projection.aliasName⟩ :: outer
    apply (exprs_bound scopes groupBy).bind
    intro grouped hgrouped
    apply (optionalClause_bound scopes none "HAVING" having _).bind
    intro h hh
    apply (orders_bound scopes orderBy).bind
    intro ordered hordered
    apply (limit_bound scopes bounds _).bind
    intro result hresult
    have hgroup : groupBy.isEmpty = true → (grouped.map bound).flatten = [] := by
      intro hempty
      rw [hgrouped, List.isEmpty_iff.mp hempty]
      rfl
    have horder : orderBy.isEmpty = true → (ordered.map bound).flatten = [] := by
      intro hempty
      rw [hordered, List.isEmpty_iff.mp hempty]
      rfl
    apply Returns.pure
    rw [Fragment.bound_enclosed, hresult, bound_listClause h "ORDER BY" horder, hh,
      bound_listClause g "GROUP BY" hgroup, hg, hf, bound_clause, bound_clause,
      Fragment.bound_joined, Fragment.bound_joined, hp, hfroms, hgrouped, hordered]
    simp only [Fragment.bound_nil, List.nil_append, List.append_nil, Select.operands]

end

/-! ### Statements -/

theorem rowSql_bound (scopes : Scopes) (columns : List Column) (p : Position) (row : List Expr) :
    Returns (fun f => f.bound = (operandsOfExprs o row).flatten)
      (t.rowSql scopes columns p row) := by
  unfold rowSql
  split
  · exact .error _
  · rename_i hlength
    have hvalue : ∀ value ∈ row.zip columns,
        Returns (fun f => f.bound = value.1.operands o) (t.valueSql scopes value) :=
      fun value _ => expr_bound hd scopes _ value.1
    apply (Returns.mapM_map hvalue).bind
    intro fs hfs
    have hrow : (row.zip columns).map (fun value => value.1.operands o) =
        row.map (Expr.operands o) := by
      change (row.zip columns).map (Expr.operands o ∘ Prod.fst) = _
      rw [← List.map_map, List.map_fst_zip]
      omega
    apply Returns.pure
    simp [hfs, hrow, operandsOfExprs_eq]

theorem insert_bound (s : Insert) :
    Returns (fun f => f.bound = (Statement.insert s).operands o) (t.insert s) := by
  unfold insert
  apply (Returns.self _).bind
  intro target _
  apply (Returns.self _).bind
  intro columns _
  apply (Returns.mapM_map fun row _ => rowSql_bound hd _ columns s.position row).bind
  intro rows hrows
  apply Returns.pure
  simp [hrows, name, Function.comp_def, Statement.operands, List.flatMap_def]

theorem assignmentSql_bound (scopes : Scopes) (table : Table) (a : Assignment) :
    Returns (fun f => f.bound = a.value.operands o) (t.assignmentSql scopes table a) := by
  unfold assignmentSql
  cases table.column? a.column with
  | none => exact .error _
  | some type =>
    apply (expr_bound hd scopes (some type) a.value).bind
    intro f hf
    exact .pure (by simp [name, hf])

theorem changeLimit_bound (scopes : Scopes) (c : Construct) (f : Fragment) (e : Option Expr) :
    Returns (fun g => g.bound = f.bound ++ operandsOfBound o c e)
      (t.changeLimit scopes c f e) := by
  cases e with
  | none => exact .pure (by simp [operandsOfBound])
  | some e =>
    apply (expr_bound hd scopes _ e).bind
    intro count hcount
    apply (render_bound hd c [count] e.position).bind
    intro g hg
    exact .pure (by simp [hg, hcount, operandsOfBound])

theorem update_bound (s : Update) :
    Returns (fun f => f.bound = (Statement.update s).operands o) (t.update s) := by
  unfold update
  apply (Returns.self _).bind
  intro target _
  apply (Returns.mapM_map fun a _ => assignmentSql_bound hd _ target.table a).bind
  intro fs hfs
  apply (optionalClause_bound hd _ none "WHERE" s.filter _).bind
  intro f hf
  apply (changeLimit_bound hd _ .updateLimit f s.limit).bind
  intro g hg
  apply Returns.pure
  simp [hg, hf, hfs, Statement.operands, List.flatMap_def]

theorem delete_bound (s : Delete) :
    Returns (fun f => f.bound = (Statement.delete s).operands o) (t.delete s) := by
  unfold delete
  apply (Returns.self _).bind
  intro target _
  apply (optionalClause_bound hd _ none "WHERE" s.filter _).bind
  intro f hf
  apply (changeLimit_bound hd _ .deleteLimit f s.limit).bind
  intro g hg
  apply Returns.pure
  simp [hg, hf, Statement.operands]

theorem statement_bound (s : Statement) :
    Returns (fun f => f.bound = s.operands o) (t.statement s) := by
  cases s with
  | select s => exact select_bound hd [] s
  | insert s => exact insert_bound hd s
  | update s => exact update_bound hd s
  | delete s => exact delete_bound hd s
  | empty => exact .pure rfl

end Target

/-- Whatever the order in which the dialect writes operands, that is the order of the binds. -/
theorem lower_bound {m : Metadata} {d : Dialect} {o : Order} {s : Statement} {q : CompiledQuery}
    (hd : d.Writes o) (h : lower m d s = .ok q) : q.binds.map (·.source) = s.operands o := by
  obtain ⟨f, hf, rfl⟩ := lower_eq_ok_iff.mp h
  have hbound := (Target.statement_bound (t := ⟨m, d⟩) hd s).of_ok f hf
  exact (Fragment.bound_finishFrom d.style 1 f).trans hbound

/-! ### The built-in dialects -/

/-- The slots of a construct that has a place for every operand it takes, in the order of the
tree. -/
def Construct.slots (c : Construct) : List TemplatePart :=
  match c.capacity? with
  | some n => (List.range n).map .slot
  | none => [.all]

/-- The slots of MySQL, which has the offset of a select before its count. -/
def Construct.offsetFirstSlots (c : Construct) : List TemplatePart :=
  match c with
  | .limitOffset => [.slot 1, .slot 0]
  | c => c.slots

theorem pick_range {α : Type} (n : Nat) (xss : List (List α)) :
    ((List.range n).map TemplatePart.slot).flatMap (TemplatePart.pick xss) =
      (xss.take n).flatten := by
  induction n with
  | zero => rfl
  | succ n ih =>
    rw [List.range_succ, List.map_append, List.flatMap_append, ih, List.take_add_one,
      List.flatten_append]
    congr 1
    simp only [List.map_cons, List.map_nil, List.flatMap_singleton, TemplatePart.pick]
    cases xss[n]? <;> simp

theorem Construct.pick_slots {α : Type} (c : Construct) (xss : List (List α)) :
    c.slots.flatMap (TemplatePart.pick xss) = (c.within xss).flatten := by
  unfold slots within
  cases c.capacity? with
  | some n => exact pick_range n xss
  | none => exact List.append_nil _

namespace Dialect

theorem mem_of_template? {d : Dialect} {c : Construct} {template : SyntaxTemplate}
    (h : d.template? c = some template) : (c, template) ∈ d.constructs := by
  obtain ⟨entry, he, rfl⟩ := Option.map_eq_some_iff.mp h
  have hc : entry.1 = c := by simpa using List.find?_some he
  rw [← hc]
  exact List.mem_of_find?_eq_some he

theorem writes_ofTree {d : Dialect}
    (h : ∀ entry ∈ d.constructs, entry.2.slots = entry.1.slots) :
    d.Writes Order.ofTree.withoutSurplus := by
  intro c template ht xss
  rw [SyntaxTemplate.arrange, h _ (mem_of_template? ht)]
  exact c.pick_slots xss

theorem writes_offsetFirst {d : Dialect}
    (h : ∀ entry ∈ d.constructs, entry.2.slots = entry.1.offsetFirstSlots) :
    d.Writes Order.offsetFirst.withoutSurplus := by
  intro c template ht xss
  rw [SyntaxTemplate.arrange, h _ (mem_of_template? ht)]
  have hslots := c.pick_slots xss
  cases c with
  | limitOffset =>
    match xss with
    | [] => rfl
    | [x] => simp [Construct.offsetFirstSlots, TemplatePart.pick, Order.withoutSurplus,
        Construct.within, Construct.capacity?, Order.offsetFirst]
    | x :: y :: rest => simp [Construct.offsetFirstSlots, TemplatePart.pick, Order.withoutSurplus,
        Construct.within, Construct.capacity?, Order.offsetFirst]
  | _ => exact hslots

theorem generic_writes : generic.Writes Order.ofTree.withoutSurplus :=
  writes_ofTree (by decide +kernel)

theorem postgres_writes : postgres.Writes Order.ofTree.withoutSurplus :=
  writes_ofTree (by decide +kernel)

theorem sqlite_writes : sqlite.Writes Order.ofTree.withoutSurplus :=
  writes_ofTree (by decide +kernel)

theorem mysql_writes : mysql.Writes Order.offsetFirst.withoutSurplus :=
  writes_offsetFirst (by decide +kernel)

/-- The dialects that come with the translator. -/
def builtIn : List Dialect :=
  [generic, postgres, mysql, sqlite]

theorem builtIn_writes {d : Dialect} (h : d ∈ builtIn) :
    ∃ o : Order, (o = .ofTree ∨ o = .offsetFirst) ∧ d.Writes o.withoutSurplus := by
  simp only [builtIn, List.mem_cons, List.not_mem_nil, or_false] at h
  rcases h with rfl | rfl | rfl | rfl
  · exact ⟨Order.ofTree, .inl rfl, generic_writes⟩
  · exact ⟨Order.ofTree, .inl rfl, postgres_writes⟩
  · exact ⟨Order.offsetFirst, .inr rfl, mysql_writes⟩
  · exact ⟨Order.ofTree, .inl rfl, sqlite_writes⟩

end Dialect

/-- A page of authors, with operands in a call and in a subquery. -/
def paged : String :=
  "SELECT UPPER('x') FROM Author WHERE born IN (SELECT year FROM Book LIMIT 1) LIMIT 2 OFFSET :n:"

/-- A call or a join binds what its operands bind, but for those that it has no place for. -/
theorem lower_operands_withoutSurplus {m : Metadata} {d : Dialect} {s : Statement}
    {q : CompiledQuery} (hd : d ∈ Dialect.builtIn) (h : lower m d s = .ok q) :
    ∃ o : Order, (o = .ofTree ∨ o = .offsetFirst) ∧
      q.binds.map (·.source) = s.operands o.withoutSurplus ∧
      (Fit s.counted → q.binds.map (·.source) = s.operands o) := by
  obtain ⟨o, ho, hwrites⟩ := Dialect.builtIn_writes hd
  have hbound := lower_bound hwrites h
  refine ⟨o, ho, hbound, fun hfit => ?_⟩
  rw [hbound, Statement.operands_withoutSurplus hfit]

/-- A call with one argument too many. -/
def surplus : String :=
  "SELECT LOWER(name, 'x') FROM Author"

theorem lower_operands_surplus : ∃ s q, parse surplus = .ok s ∧
    lower library .generic s = .ok q ∧ ∃ o : Order, (o = .ofTree ∨ o = .offsetFirst) ∧
      q.binds.map (·.source) = s.operands o.withoutSurplus ∧
      (Fit s.counted → q.binds.map (·.source) = s.operands o) := by
  have hs : (parse surplus).toOption.any fun s => (lower library .generic s).toOption.isSome := by
    decide +kernel
  obtain ⟨s, hparse, hlower⟩ := exists_ok_of_any hs
  obtain ⟨q, hq⟩ := exists_ok_of_isSome hlower
  exact ⟨s, q, hparse, hq, lower_operands_withoutSurplus List.mem_cons_self hq⟩

def BindSource.text? : BindSource → Option String
  | .literal (.string s) => some s
  | _ => none

theorem BindSource.eq_of_text? {source : BindSource} {s : String} (h : source.text? = some s) :
    source = .literal (.string s) := by
  unfold text? at h
  split at h
  · rw [Option.some.inj h]
  · cases h

/-- What the second argument binds is nowhere among the binds. -/
theorem surplus_lost : ∃ s q, parse surplus = .ok s ∧ lower library .generic s = .ok q ∧
    .literal (.string "x") ∈ s.operands .ofTree ∧ q.binds = [] := by
  have hs : (parse surplus).toOption.any fun s =>
      ((s.operands .ofTree).any fun source => source.text? == some "x")
      && ((lower library .generic s).toOption.any fun q => q.binds.isEmpty) := by
    decide +kernel
  obtain ⟨s, hparse, hall⟩ := exists_ok_of_any hs
  obtain ⟨hsome, hlower⟩ := Bool.and_eq_true_iff.mp hall
  obtain ⟨q, hq, hempty⟩ := exists_ok_of_any hlower
  obtain ⟨source, hmem, hsource⟩ := List.any_eq_true.mp hsome
  refine ⟨s, q, hparse, hq, ?_, List.isEmpty_iff.mp hempty⟩
  rwa [← BindSource.eq_of_text? (beq_iff_eq.mp hsource)]

end EmbeddedLang.Query
