import EmbeddedLang.Proofs.Returns
import EmbeddedLang.Proofs.Query.Relocation
import EmbeddedLang.Query.Sql

/-!
Errors of the translation to SQL are at places that the statement names.
-/

namespace EmbeddedLang.Query

variable {P : Position → Prop} {p : Position}

/-! ### Names -/

theorem resolveSource_blames (m : Metadata) {s : Source} (h : P s.position) :
    Blames P (resolveSource m s) := by
  unfold resolveSource
  split
  · exact .ok _
  · exact .error ⟨_, rfl, h⟩

theorem resolveSources_blames (m : Metadata) (sources : List Source) (known : List ScopeSource)
    (h : ∀ s ∈ sources, P s.position) : Blames P (resolveSources m known sources) := by
  induction sources generalizing known with
  | nil => exact .ok known
  | cons s rest ih =>
    obtain ⟨hs, hrest⟩ := List.forall_mem_cons.mp h
    apply (resolveSource_blames m hs).bind
    intro found
    dsimp only
    split
    · exact Blames.bind (.throw ⟨_, rfl, hs⟩) fun _ => ih _ hrest
    · exact ih _ hrest

theorem Scopes.column_blames (q : Quotes) (scopes : Scopes) (name : String) (h : P p) :
    Blames P (scopes.column q name p) := by
  unfold Scopes.column
  split
  · exact .ok _
  · exact .ok _
  · exact .error ⟨p, rfl, h⟩
  · exact .error ⟨p, rfl, h⟩

theorem Scopes.qualifiedColumn_blames (q : Quotes) (scopes : Scopes) (reference name : String)
    (h : P p) : Blames P (scopes.qualifiedColumn q reference name p) := by
  unfold Scopes.qualifiedColumn
  split
  · exact .error ⟨p, rfl, h⟩
  · split
    · exact .error ⟨p, rfl, h⟩
    · exact .ok _

theorem Dialect.render_blames (d : Dialect) (c : Construct) (args : List Fragment) (h : P p) :
    Blames P (d.render c args p) := by
  unfold Dialect.render
  split
  · exact .mapError fun _ => ⟨p, rfl, h⟩
  · exact .error ⟨p, rfl, h⟩

namespace Target

variable (t : Target)

theorem sourceSql_blames {s : Source} (h : P s.position) : Blames P (t.sourceSql s) :=
  (resolveSource_blames t.metadata h).bind fun _ => .pure _

theorem namedColumns_blames (table : Table) (columns : List (String × Position))
    (h : ∀ c ∈ columns, P c.2) : Blames P (namedColumns table columns) := by
  induction columns with
  | nil => exact .pure []
  | cons c rest ih =>
    obtain ⟨hc, hrest⟩ := List.forall_mem_cons.mp h
    rw [namedColumns]
    split
    · exact (ih hrest).bind fun _ => .pure _
    · exact .throw ⟨_, rfl, hc⟩

theorem relationshipCondition_blames (earlier : List ScopeSource) (target : ScopeSource)
    (h : P p) : Blames P (t.relationshipCondition earlier target p) := by
  unfold relationshipCondition
  dsimp only
  split
  · exact .ok _
  · exact .error ⟨p, rfl, h⟩

/-! ### Expressions and selects -/

mutual

theorem expr_blames (scopes : Scopes) (hint : Option ColumnType) : ∀ e : Expr,
    (∀ p ∈ e.positions, P p) → Blames P (t.expr scopes hint e)
  | .literal .., _ => by
    rw [expr]
    exact .pure _
  | .identifier p name, h => by
    rw [expr]
    exact (scopes.column_blames _ name (h p (by simp [Expr.positions]))).bind fun _ => .pure _
  | .member p object property, h => by
    have hp : P p := h p (by simp [Expr.positions])
    rw [expr]
    split
    · exact (scopes.qualifiedColumn_blames _ _ property hp).bind fun _ => .pure _
    · exact .throw ⟨p, rfl, hp⟩
  | .unary p op x, h => by
    simp only [Expr.positions, List.forall_mem_cons] at h
    rw [expr]
    exact (expr_blames scopes hint x h.2).bind fun _ => t.dialect.render_blames _ _ h.1
  | .binary p op x y, h => by
    simp only [Expr.positions, List.forall_mem_cons, List.forall_mem_append] at h
    rw [expr]
    apply (expr_blames scopes _ x h.2.1).bind
    intro left
    apply (expr_blames scopes _ y h.2.2).bind
    exact fun right => t.dialect.render_blames _ _ h.1
  | .call p callee args distinct, h => by
    simp only [Expr.positions, List.forall_mem_cons, List.forall_mem_append] at h
    rw [expr]
    split
    · exact (items_blames scopes none args h.2.2).bind fun _ => t.dialect.render_blames _ _ h.1
    · exact .throw ⟨p, rfl, h.1⟩
  | .grouped _ x, h => by
    simp only [Expr.positions, List.forall_mem_cons] at h
    rw [expr]
    exact (expr_blames scopes hint x h.2).bind fun _ => .pure _
  | .list _ elements, h => by
    simp only [Expr.positions, List.forall_mem_cons] at h
    rw [expr]
    exact (items_blames scopes hint elements h.2).bind fun _ => .pure _
  | .placeholder .., _ => by
    rw [expr]
    exact .pure _
  | .star _, _ => by
    rw [expr]
    exact .pure _
  | .qualifiedStar p reference, h => by
    rw [expr]
    split
    · exact .pure _
    · exact .throw ⟨p, rfl, h p (by simp [Expr.positions])⟩
  | .between _ x low high _, h => by
    simp only [Expr.positions, List.forall_mem_cons, List.forall_mem_append] at h
    rw [expr]
    apply (expr_blames scopes none x h.2.1.1).bind
    intro subject
    apply (expr_blames scopes _ low h.2.1.2).bind
    intro first
    exact (expr_blames scopes _ high h.2.2).bind fun _ => .pure _
  | .isNull _ x _, h => by
    simp only [Expr.positions, List.forall_mem_cons] at h
    rw [expr]
    exact (expr_blames scopes none x h.2).bind fun _ => .pure _
  | .cases _ operand branches otherwise, h => by
    simp only [Expr.positions, List.forall_mem_cons, List.forall_mem_append] at h
    rw [expr]
    apply (subject_blames scopes operand _ h.2.1.1).bind
    intro f
    apply (whens_blames scopes _ hint branches f h.2.1.2).bind
    intro f
    exact (optionalClause_blames scopes hint "ELSE" otherwise f h.2.2).bind fun _ => .pure _
  | .cast _ x _, h => by
    simp only [Expr.positions, List.forall_mem_cons] at h
    rw [expr]
    exact (expr_blames scopes none x h.2).bind fun _ => .pure _
  | .existence _ s, h => by
    simp only [Expr.positions, List.forall_mem_cons] at h
    rw [expr]
    exact (select_blames scopes s h.2).bind fun _ => .pure _
  | .subquery _ s, h => by
    simp only [Expr.positions, List.forall_mem_cons] at h
    rw [expr]
    exact (select_blames scopes s h.2).bind fun _ => .pure _
  | .index p .., h | .slice p .., h | .conditional p .., h | .filter p .., h | .defined p .., h
  | .test p .., h => by
    rw [expr]
    exact .throw ⟨p, rfl, h p (by simp [Expr.positions])⟩

theorem items_blames (scopes : Scopes) (hint : Option ColumnType) : ∀ items : List Item,
    (∀ p ∈ positionsOfItems items, P p) → Blames P (t.items scopes hint items)
  | [], _ => by
    rw [items]
    exact .pure _
  | ⟨_, e⟩ :: rest, h => by
    obtain ⟨he, hrest⟩ := List.forall_mem_append.mp h
    rw [items]
    apply (expr_blames scopes hint e he).bind
    intro f
    exact (items_blames scopes hint rest hrest).bind fun _ => .pure _

theorem exprs_blames (scopes : Scopes) : ∀ es : List Expr,
    (∀ p ∈ positionsOfExprs es, P p) → Blames P (t.exprs scopes es)
  | [], _ => by
    rw [exprs]
    exact .pure _
  | e :: rest, h => by
    obtain ⟨he, hrest⟩ := List.forall_mem_append.mp h
    rw [exprs]
    apply (expr_blames scopes none e he).bind
    intro f
    exact (exprs_blames scopes rest hrest).bind fun _ => .pure _

theorem subject_blames (scopes : Scopes) : ∀ (o : Option Expr) (f : Fragment),
    (∀ p ∈ positionsOfOption o, P p) → Blames P (t.subject scopes o f)
  | none, _, _ => by
    rw [subject]
    exact .pure _
  | some e, _, h => by
    rw [subject]
    exact (expr_blames scopes none e h).bind fun _ => .pure _

theorem optionalClause_blames (scopes : Scopes) (hint : Option ColumnType) (words : String) :
    ∀ (o : Option Expr) (f : Fragment), (∀ p ∈ positionsOfOption o, P p) →
      Blames P (t.optionalClause scopes hint words o f)
  | none, _, _ => by
    rw [optionalClause]
    exact .pure _
  | some e, _, h => by
    rw [optionalClause]
    exact (expr_blames scopes hint e h).bind fun _ => .pure _

theorem whens_blames (scopes : Scopes) (type hint : Option ColumnType) :
    ∀ (branches : List When) (f : Fragment), (∀ p ∈ positionsOfWhens branches, P p) →
      Blames P (t.whens scopes type hint branches f)
  | [], _, _ => by
    rw [whens]
    exact .pure _
  | ⟨condition, result⟩ :: rest, _, h => by
    simp only [positionsOfWhens, List.forall_mem_append] at h
    rw [whens]
    apply (expr_blames scopes type condition h.1.1).bind
    intro c
    apply (expr_blames scopes hint result h.1.2).bind
    intro r
    exact whens_blames scopes type hint rest _ h.2

theorem projections_blames (scopes : Scopes) : ∀ ps : List Projection,
    (∀ p ∈ positionsOfProjections ps, P p) → Blames P (t.projections scopes ps)
  | [], _ => by
    rw [projections]
    exact .pure _
  | ⟨e, _⟩ :: rest, h => by
    obtain ⟨he, hrest⟩ := List.forall_mem_append.mp h
    rw [projections]
    apply (expr_blames scopes none e he).bind
    intro f
    exact (projections_blames scopes rest hrest).bind fun _ => .pure _

theorem joins_blames (scopes : Scopes) : ∀ (earlier : List ScopeSource) (js : List Join)
    (f : Fragment), (∀ p ∈ positionsOfJoins js, P p) → Blames P (t.joins scopes earlier js f)
  | _, [], _, _ => by
    rw [joins]
    exact .pure _
  | earlier, ⟨kind, source, condition, p⟩ :: rest, _, h => by
    simp only [positionsOfJoins, List.forall_mem_cons, List.forall_mem_append] at h
    obtain ⟨hp, hsource, hcondition, hrest⟩ := h
    rw [joins]
    apply (resolveSource_blames t.metadata hsource).bind
    intro target
    apply (t.sourceSql_blames hsource).bind
    intro text
    apply (joinCondition_blames scopes earlier kind target hp condition hcondition).bind
    intro on
    apply (t.dialect.render_blames _ _ hp).bind
    intro rendered
    exact joins_blames scopes _ rest _ hrest

theorem joinCondition_blames (scopes : Scopes) (earlier : List ScopeSource) (kind : JoinKind)
    (target : ScopeSource) {p : Position} (hp : P p) : ∀ condition : Option Expr,
      (∀ q ∈ positionsOfOption condition, P q) →
        Blames P (t.joinCondition scopes earlier kind target p condition)
  | some e, h => by
    rw [joinCondition]
    exact (expr_blames scopes none e h).bind fun _ => .pure _
  | none, _ => by
    rw [joinCondition]
    split
    · exact .pure _
    · exact (t.relationshipCondition_blames earlier target hp).bind fun _ => .pure _

theorem orders_blames (scopes : Scopes) : ∀ os : List OrderItem,
    (∀ p ∈ positionsOfOrders os, P p) → Blames P (t.orders scopes os)
  | [], _ => by
    rw [orders]
    exact .pure _
  | ⟨e, _⟩ :: rest, h => by
    obtain ⟨he, hrest⟩ := List.forall_mem_append.mp h
    rw [orders]
    apply (expr_blames scopes none e he).bind
    intro f
    exact (orders_blames scopes rest hrest).bind fun _ => .pure _

theorem limit_blames (scopes : Scopes) : ∀ (bound : Option Limit) (f : Fragment),
    (∀ p ∈ positionsOfLimit bound, P p) → Blames P (t.limit scopes bound f)
  | none, _, _ => by
    rw [limit]
    exact .pure _
  | some ⟨count, offset⟩, _, h => by
    obtain ⟨hcount, hoffset⟩ := List.forall_mem_append.mp h
    rw [limit]
    apply (expr_blames scopes _ count hcount).bind
    intro c
    apply (offsetOf_blames scopes offset hoffset).bind
    intro os
    apply (t.dialect.render_blames _ _ (hcount _ count.position_mem_positions)).bind
    exact fun rendered => .pure _

theorem offsetOf_blames (scopes : Scopes) : ∀ offset : Option Expr,
    (∀ p ∈ positionsOfOption offset, P p) → Blames P (t.offsetOf scopes offset)
  | none, _ => by
    rw [offsetOf]
    exact .pure _
  | some e, h => by
    rw [offsetOf]
    exact (expr_blames scopes _ e h).bind fun _ => .pure _

theorem select_blames (outer : Scopes) : ∀ s : Select,
    (∀ p ∈ s.positions, P p) → Blames P (t.select outer s)
  | ⟨distinct, ps, sources, js, filter, groupBy, having, orderBy, bound, p⟩, h => by
    simp only [Select.positions, List.forall_mem_cons, List.forall_mem_append] at h
    obtain ⟨-, ⟨⟨⟨⟨⟨⟨hps, hsources⟩, hjs⟩, hfilter⟩, hgroup⟩, hhaving⟩, horder⟩, hbound⟩ := h
    have hjoined : ∀ s ∈ js.map Join.source, P s.position := by
      intro s hs
      obtain ⟨join, hjoin, rfl⟩ := List.mem_map.mp hs
      exact hjs _ (source_mem_positionsOfJoins hjoin)
    have hfrom : ∀ s ∈ sources, P s.position := fun s hs => hsources _ (List.mem_map_of_mem hs)
    rw [select]
    apply (resolveSources_blames t.metadata _ [] (List.forall_mem_append.mpr ⟨hfrom, hjoined⟩)).bind
    intro found
    apply (projections_blames _ ps hps).bind
    intro projected
    apply (Blames.mapM fun s hs => t.sourceSql_blames (hfrom s hs)).bind
    intro froms
    apply (joins_blames _ _ js _ hjs).bind
    intro f
    apply (optionalClause_blames _ none "WHERE" filter f hfilter).bind
    intro f
    apply (exprs_blames _ groupBy hgroup).bind
    intro grouped
    apply (optionalClause_blames _ none "HAVING" having _ hhaving).bind
    intro f
    apply (orders_blames _ orderBy horder).bind
    intro ordered
    exact (limit_blames _ bound _ hbound).bind fun _ => .pure _

end

/-! ### Statements -/

theorem rowSql_blames (scopes : Scopes) (columns : List Column) (hp : P p) {row : List Expr}
    (h : ∀ q ∈ positionsOfExprs row, P q) : Blames P (t.rowSql scopes columns p row) := by
  have hvalues : Blames P (do
      let values ← (row.zip columns).mapM (t.valueSql scopes)
      return .text "(" ++ .joined ", " values ++ .text ")" : Result) := by
    apply Blames.bind (.mapM fun value hvalue => ?_) fun _ => .pure _
    have hmem : value.1 ∈ row := (List.of_mem_zip hvalue).1
    exact t.expr_blames scopes _ value.1 fun q hq => h q (mem_positionsOfExprs hmem hq)
  have hfirst : P ((row.head?.map Expr.position).getD p) := by
    cases row with
    | nil => exact hp
    | cons e rest => exact h _ (List.mem_append_left _ e.position_mem_positions)
  unfold rowSql
  dsimp only
  split
  · exact Blames.bind (.throw ⟨_, rfl, hfirst⟩) fun _ => hvalues
  · exact hvalues

theorem insert_blames {s : Insert} (h : ∀ q ∈ s.positions, P q) : Blames P (t.insert s) := by
  simp only [Insert.positions, List.forall_mem_cons, List.forall_mem_append] at h
  obtain ⟨hp, hsource, hcolumns, hrows⟩ := h
  apply (resolveSource_blames t.metadata hsource).bind
  intro target
  have hfilled : Blames P (insertColumns target.table s) := by
    unfold insertColumns
    split
    · exact .ok _
    · exact namedColumns_blames _ _ fun c hc => hcolumns _ (List.mem_map_of_mem hc)
  apply hfilled.bind
  intro columns
  refine (Blames.mapM fun row hrow => t.rowSql_blames _ columns hp fun q hq => ?_).bind
    fun _ => .pure _
  exact hrows q (List.mem_flatMap.mpr ⟨row, hrow, hq⟩)

theorem assignmentSql_blames (scopes : Scopes) (table : Table) {a : Assignment}
    (h : ∀ q ∈ a.positions, P q) : Blames P (t.assignmentSql scopes table a) := by
  obtain ⟨hp, hvalue⟩ := List.forall_mem_cons.mp h
  unfold assignmentSql
  split
  · exact (t.expr_blames scopes _ a.value hvalue).bind fun _ => .pure _
  · exact .throw ⟨_, rfl, hp⟩

theorem changeLimit_blames (scopes : Scopes) (c : Construct) (f : Fragment) {limit : Option Expr}
    (h : ∀ q ∈ positionsOfOption limit, P q) : Blames P (t.changeLimit scopes c f limit) := by
  cases limit with
  | none => exact .pure f
  | some e =>
    apply (t.expr_blames scopes _ e h).bind
    intro count
    exact (t.dialect.render_blames c _ (h _ e.position_mem_positions)).bind fun _ => .pure _

theorem update_blames {s : Update} (h : ∀ q ∈ s.positions, P q) : Blames P (t.update s) := by
  simp only [Update.positions, List.forall_mem_cons, List.forall_mem_append] at h
  obtain ⟨-, hsource, ⟨hassignments, hfilter⟩, hlimit⟩ := h
  apply (resolveSource_blames t.metadata hsource).bind
  intro target
  refine (Blames.mapM fun a ha => t.assignmentSql_blames _ target.table fun q hq => ?_).bind
    fun assignments => ?_
  · exact hassignments q (List.mem_flatMap.mpr ⟨a, ha, hq⟩)
  apply (t.optionalClause_blames _ none "WHERE" s.filter _ hfilter).bind
  intro f
  exact (t.changeLimit_blames _ .updateLimit f hlimit).bind fun _ => .pure _

theorem delete_blames {s : Delete} (h : ∀ q ∈ s.positions, P q) : Blames P (t.delete s) := by
  simp only [Delete.positions, List.forall_mem_cons, List.forall_mem_append] at h
  obtain ⟨-, hsource, hfilter, hlimit⟩ := h
  apply (resolveSource_blames t.metadata hsource).bind
  intro target
  apply (t.optionalClause_blames _ none "WHERE" s.filter _ hfilter).bind
  intro f
  exact (t.changeLimit_blames _ .deleteLimit f hlimit).bind fun _ => .pure _

theorem statement_blames {s : Statement} (h : ∀ q ∈ s.positions, P q) :
    Blames P (t.statement s) := by
  cases s with
  | select s => exact t.select_blames [] s h
  | insert s => exact t.insert_blames h
  | update s => exact t.update_blames h
  | delete s => exact t.delete_blames h
  | empty => exact .pure []

end Target

/-- An error of the translation is at a place that the statement names. -/
theorem lower_blames (m : Metadata) (d : Dialect) (s : Statement) :
    Blames (· ∈ s.positions) (lower m d s) := by
  have hstatement : Blames (· ∈ s.positions) (Target.statement ⟨m, d⟩ s) :=
    Target.statement_blames ⟨m, d⟩ fun _ h => h
  exact hstatement.bind fun _ => .pure _

end EmbeddedLang.Query
