import EmbeddedLang.Proofs.Agreement
import EmbeddedLang.Proofs.Query.Literals
import EmbeddedLang.Query.Dialect

/-!
Translation follows a change of literals and does not depend on the name of the dialect, on its
style of placeholders or on the order of its constructs. Of the metadata only what is looked up
matters.

The way fragments are put together does not look at what they bind, so fragments that differ only in
their literals stay alike.
-/

namespace EmbeddedLang.Query

variable {r : Literal → Literal}

/-- Equal pieces, or the binds of a literal and of what `r` puts in its place. -/
inductive Piece.Mapped (r : Literal → Literal) : Piece → Piece → Prop where
  | same {p : Piece} (h : p.isBind = false) : Mapped r p p
  | parameter (p : Placeholder) (type : Option ColumnType) :
      Mapped r (.bind (.ofPlaceholder p) type) (.bind (.ofPlaceholder p) type)
  | literal {l : Literal} {v w : BindValue} (hint : Option ColumnType)
      (hv : BindValue.ofLiteral? l = some v) (hw : BindValue.ofLiteral? (r l) = some w) :
      Mapped r (.bind (.literal v) (hint.orElse fun _ => some v.naturalType))
        (.bind (.literal w) (hint.orElse fun _ => some w.naturalType))

theorem Piece.Mapped.endsInSpace {p q : Piece} (h : Mapped r p q) :
    p.endsInSpace = q.endsInSpace := by
  cases h <;> rfl

namespace Fragment

def Mapped (r : Literal → Literal) : Fragment → Fragment → Prop :=
  List.Forall₂ (Piece.Mapped r)

theorem Mapped.append {f f' g g' : Fragment} (hf : Mapped r f f') (hg : Mapped r g g') :
    Mapped r (f ++ g) (f' ++ g') :=
  List.rel_append hf hg

theorem Mapped.text (s : String) : Mapped r (text s) (text s) := by
  unfold Fragment.text
  split
  · exact .nil
  · exact .cons (.same rfl) .nil

theorem Mapped.name (q : Quotes) (identifier : String) :
    Mapped r (name q identifier) (name q identifier) :=
  .cons (.same rfl) .nil

theorem Mapped.source (q : Quotes) (s : ScopeSource) : Mapped r (source q s) (source q s) :=
  .cons (.same rfl) .nil

theorem Mapped.column (q : Quotes) (c : Reference) : Mapped r (column q c) (column q c) :=
  .cons (.same rfl) .nil

theorem Mapped.parameter (p : Placeholder) (type : Option ColumnType) :
    Mapped r (bind (.ofPlaceholder p) type) (bind (.ofPlaceholder p) type) :=
  .cons (.parameter p type) .nil

theorem Mapped.literal (hr : ∀ l, r l = .null ↔ l = .null) (l : Literal)
    (hint : Option ColumnType) : Mapped r (literal l hint) (literal (r l) hint) := by
  have hn : ∀ l', BindValue.ofLiteral? l' = none ↔ l' = .null := by
    intro l'
    cases l' <;> simp [BindValue.ofLiteral?]
  unfold Fragment.literal
  cases hv : BindValue.ofLiteral? l with
  | none =>
    have hw : BindValue.ofLiteral? (r l) = none := (hn _).mpr ((hr l).mpr ((hn l).mp hv))
    simp only [hw]
    exact .text "NULL"
  | some v =>
    cases hw : BindValue.ofLiteral? (r l) with
    | none => simp [(hr l).mp ((hn _).mp hw), BindValue.ofLiteral?] at hv
    | some w => exact .cons (.literal hint hv hw) .nil

theorem Mapped.enclosed {f f' : Fragment} (h : Mapped r f f') :
    Mapped r (enclosed f) (enclosed f') :=
  .cons (.same rfl) (h.append (.cons (.same rfl) .nil))

theorem Mapped.push {f f' : Fragment} (h : Mapped r f f') (s : String) :
    Mapped r (f.push s) (f'.push s) :=
  h.append (.text s)

theorem Mapped.endsInSpace {f f' : Fragment} (h : Mapped r f f') :
    f.getLast?.map Piece.endsInSpace = f'.getLast?.map Piece.endsInSpace := by
  induction h with
  | nil => rfl
  | cons hp ht ih =>
    cases ht with
    | nil => simp [hp.endsInSpace]
    | cons hq ht => simpa only [List.getLast?_cons_cons] using ih

theorem space_eq (f : Fragment) :
    f.space = if f.getLast?.map Piece.endsInSpace = some false then f.push " " else f := by
  unfold space
  cases f.getLast? with
  | none => rfl
  | some p => cases hp : p.endsInSpace <;> simp [hp]

theorem Mapped.space {f f' : Fragment} (h : Mapped r f f') : Mapped r f.space f'.space := by
  rw [space_eq, space_eq, h.endsInSpace]
  split
  · exact h.push " "
  · exact h

theorem Mapped.keyword {f f' : Fragment} (h : Mapped r f f') (word : String) :
    Mapped r (f.keyword word) (f'.keyword word) :=
  h.space.push word

theorem Mapped.joined {fs fs' : List Fragment} (separator : String)
    (h : List.Forall₂ (Mapped r) fs fs') : Mapped r (joined separator fs) (joined separator fs') := by
  induction h with
  | nil => exact .nil
  | cons hf ht ih =>
    cases ht with
    | nil => exact hf
    | cons hg ht => exact (hf.append (.text separator)).append ih

end Fragment

/-! ### Templates -/

variable {E : CompileError → CompileError → Prop}

namespace SyntaxTemplate

open Fragment (Mapped)

theorem fill_agree {args args' : List Fragment} (h : List.Forall₂ (Mapped r) args args')
    (part : TemplatePart) : Agree Eq (Mapped r) (fill args part) (fill args' part) := by
  cases part with
  | text s => exact .ok (.text s)
  | all => exact .ok (.joined ", " h)
  | slot i =>
    induction h generalizing i with
    | nil => exact .error rfl
    | cons hf _ ih =>
      cases i with
      | zero => exact .ok hf
      | succ i =>
        have hi := ih i
        simp only [fill, List.getElem?_cons_succ] at hi ⊢
        split at hi <;> split at hi <;> cases hi
        · exact .ok ‹_›
        · exact .error rfl

theorem fillAll_agree {args args' : List Fragment} (h : List.Forall₂ (Mapped r) args args')
    (parts : List TemplatePart) :
    Agree Eq (Mapped r) (fillAll args parts) (fillAll args' parts) := by
  induction parts with
  | nil => exact .ok .nil
  | cons part rest ih =>
    apply (fill_agree h part).bind
    intro f f' hf
    apply ih.bind
    intro g g' hg
    exact .pure (hf.append hg)

theorem apply_agree (hE : ∀ e, E e e) (t : SyntaxTemplate) {args args' : List Fragment}
    (h : List.Forall₂ (Mapped r) args args') (position : Position) :
    Agree E (Mapped r) (t.apply args position) (t.apply args' position) := by
  apply (fillAll_agree h t.parts).mapError
  rintro e _ rfl
  exact hE _

end SyntaxTemplate

end EmbeddedLang.Query

namespace EmbeddedLang.Query

open Fragment (Mapped)

/-- Equal errors, or the same construct missed in dialects of these names. -/
inductive SameError (name name' : String) : CompileError → CompileError → Prop where
  | refl (e : CompileError) : SameError name name' e e
  | unsupported (c : String) (p : Position) :
      SameError name name' (.unsupported c name p) (.unsupported c name' p)

theorem SameError.eq {name : String} {e e' : CompileError} (h : SameError name name e e') :
    e = e' := by
  cases h <;> rfl

/-- All that a translation asks of the metadata. -/
def Metadata.lookups (m : Metadata) :
    (String → Option Table) × (String → String → Option JoinPath) :=
  (m.table?, m.path?)

namespace Target

/-- Targets that differ at most in metadata that is not looked up, in the name of the dialect, its
style of placeholders and the order of its constructs. -/
structure Similar (t t' : Target) : Prop where
  metadata : t'.metadata.lookups = t.metadata.lookups
  quotes : t'.dialect.quotes = t.dialect.quotes
  templates : ∀ c, t'.dialect.template? c = t.dialect.template? c

variable {t t' : Target} {r : Literal → Literal}

def SameResult (t t' : Target) (r : Literal → Literal) :
    Except CompileError Fragment → Except CompileError Fragment → Prop :=
  Agree (SameError t.dialect.name t'.dialect.name) (Mapped r)

def SameResults (t t' : Target) (r : Literal → Literal) :
    Except CompileError (List Fragment) → Except CompileError (List Fragment) → Prop :=
  Agree (SameError t.dialect.name t'.dialect.name) (List.Forall₂ (Mapped r))

section parts

variable (h : Similar t t')
include h

theorem Similar.path? : t'.metadata.path? = t.metadata.path? :=
  congrArg Prod.snd h.metadata

theorem Similar.resolveSource : resolveSource t'.metadata = resolveSource t.metadata := by
  have htable : t'.metadata.table? = t.metadata.table? := congrArg Prod.fst h.metadata
  funext s
  unfold Query.resolveSource
  rw [htable]

theorem Similar.resolveSources : resolveSources t'.metadata = resolveSources t.metadata := by
  funext known sources
  induction sources generalizing known with
  | nil => rfl
  | cons s rest ih =>
    rw [Query.resolveSources, Query.resolveSources, h.resolveSource]
    simp only [ih]

theorem render_same (c : Construct) {args args' : List Fragment}
    (ha : List.Forall₂ (Mapped r) args args') (p : Position) :
    SameResult t t' r (t.dialect.render c args p) (t'.dialect.render c args' p) := by
  unfold Dialect.render
  rw [h.templates]
  cases t.dialect.template? c with
  | none => exact .error (.unsupported _ p)
  | some template => exact template.apply_agree .refl ha p

theorem typeOf_same (scopes : Scopes) (e : Expr) :
    t'.typeOf scopes (e.mapLiterals r) = t.typeOf scopes e := by
  unfold typeOf
  rw [h.quotes, Scopes.typeOf_mapLiterals]

theorem operandTypes_same (scopes : Scopes) (op : BinaryOp) (x y : Expr)
    (hint : Option ColumnType) :
    t'.operandTypes scopes op (x.mapLiterals r) (y.mapLiterals r) hint =
      t.operandTypes scopes op x y hint := by
  unfold operandTypes
  rw [typeOf_same h, typeOf_same h]

theorem operandType_same (scopes : Scopes) (o : Option Expr) :
    (mapOption r o).bind (t'.typeOf scopes) = o.bind (t.typeOf scopes) := by
  cases o with
  | none => rfl
  | some e => exact typeOf_same h scopes e

theorem name_same (identifier : String) :
    Mapped r (t.name identifier) (t'.name identifier) := by
  unfold name
  rw [h.quotes]
  exact .name _ identifier

theorem aliased_same {f f' : Fragment} (hf : Mapped r f f') (aliasName : Option String) :
    Mapped r (t.aliased f aliasName) (t'.aliased f' aliasName) := by
  cases aliasName with
  | none => exact hf
  | some a => exact (hf.push " AS ").append (name_same h a)

theorem sourceSql_same (s : Source) : SameResult t t' r (t.sourceSql s) (t'.sourceSql s) := by
  unfold sourceSql
  rw [h.resolveSource, h.quotes]
  apply (Agree.refl .refl (R := Eq) (fun _ => rfl) (resolveSource t.metadata s)).bind
  rintro found _ rfl
  exact .pure (.source _ found)

theorem sourceList_same (sources : List Source) :
    SameResults t t' r (sources.mapM t.sourceSql) (sources.mapM t'.sourceSql) := by
  have hs := Agree.mapM_map id sources (sourceSql_same (r := r) h)
  rwa [List.map_id] at hs

theorem pairsSql_same (a b : ScopeSource) (path : JoinPath) :
    Mapped r (t.pairsSql a b path) (t'.pairsSql a b path) := by
  unfold pairsSql
  rw [h.quotes]
  apply Mapped.joined
  apply List.forall₂_map_left_iff.mpr
  apply List.forall₂_map_right_iff.mpr
  apply List.forall₂_same.mpr
  rintro ⟨near, far⟩ _
  exact ((Mapped.column _ _).append (.text " = ")).append (.column _ _)

theorem relationshipCondition_same (earlier : List ScopeSource) (target : ScopeSource)
    (p : Position) :
    SameResult t t' r (t.relationshipCondition earlier target p)
      (t'.relationshipCondition earlier target p) := by
  unfold relationshipCondition
  rw [h.path?]
  dsimp only
  split
  · exact .ok (pairsSql_same h _ _ _)
  · exact .error (.refl _)

end parts

theorem distinctFirst_same {fs fs' : List Fragment} (hf : List.Forall₂ (Mapped r) fs fs')
    (distinct : Bool) :
    List.Forall₂ (Mapped r) (distinctFirst distinct fs) (distinctFirst distinct fs') := by
  cases hf with
  | nil => exact .nil
  | cons hf ht =>
    cases distinct with
    | false => exact .cons hf ht
    | true => exact .cons ((Mapped.text "DISTINCT ").append hf) ht

theorem clause_same {f f' g g' : Fragment} (hf : Mapped r f f') (words : String)
    (hg : Mapped r g g') : Mapped r (clause f words g) (clause f' words g') :=
  (hf.keyword words).space.append hg

/-! ### Expressions and selects

The induction is on the tree, case by case as the translation goes down. -/

variable (h : Similar t t') (hr : ∀ l, r l = .null ↔ l = .null)
include h hr

-- the lemmas of the block use the hypotheses only through each other
set_option linter.unusedSectionVars false

mutual

theorem expr_same (scopes : Scopes) (hint : Option ColumnType) : ∀ e : Expr,
    SameResult t t' r (t.expr scopes hint e) (t'.expr scopes hint (e.mapLiterals r))
  | .literal _ l => by
    simp only [expr, Expr.mapLiterals]
    exact .pure (.literal hr l hint)
  | .identifier p name => by
    simp only [expr, Expr.mapLiterals, h.quotes]
    unfold Scopes.column
    cases Scopes.meaning name 0 scopes with
    | projected => exact .ok (.name _ name)
    | column c => exact .ok (.column _ c)
    | ambiguous sources => exact .error (.refl _)
    | unknown => exact .error (.refl _)
  | .member p object property => by
    simp only [expr, Expr.mapLiterals, Expr.identifier?_mapLiterals, h.quotes]
    cases object.identifier? with
    | none => exact .error (.refl _)
    | some reference =>
      dsimp only
      unfold Scopes.qualifiedColumn
      cases Scopes.sourceNamed? reference 0 scopes with
      | none => exact .error (.refl _)
      | some found =>
        obtain ⟨depth, source⟩ := found
        dsimp only
        cases source.table.column? property with
        | none => exact .error (.refl _)
        | some type => exact .ok (.column _ _)
  | .unary p op x => by
    simp only [expr, Expr.mapLiterals]
    apply (expr_same scopes hint x).bind
    intro f f' hf
    exact render_same h _ (.cons hf .nil) p
  | .binary p op x y => by
    simp only [expr, Expr.mapLiterals, operandTypes_same h]
    apply (expr_same scopes _ x).bind
    intro f f' hf
    apply (expr_same scopes _ y).bind
    intro g g' hg
    exact render_same h _ (.cons hf (.cons hg .nil)) p
  | .call p callee args distinct => by
    simp only [expr, Expr.mapLiterals, Expr.identifier?_mapLiterals]
    cases callee.identifier? with
    | none => exact .error (.refl _)
    | some name =>
      apply (items_same scopes none args).bind
      intro fs fs' hfs
      exact render_same h _ (distinctFirst_same hfs distinct) p
  | .grouped _ x => by
    simp only [expr, Expr.mapLiterals]
    apply (expr_same scopes hint x).bind
    intro f f' hf
    exact .pure (((Mapped.text "(").append hf).append (.text ")"))
  | .list _ elements => by
    simp only [expr, Expr.mapLiterals]
    apply (items_same scopes hint elements).bind
    intro fs fs' hfs
    exact .pure (((Mapped.text "(").append (.joined ", " hfs)).append (.text ")"))
  | .placeholder _ p => by
    simp only [expr, Expr.mapLiterals]
    exact .pure (.parameter p hint)
  | .star _ => by
    simp only [expr, Expr.mapLiterals]
    exact .pure (.text "*")
  | .qualifiedStar p reference => by
    simp only [expr, Expr.mapLiterals]
    cases Scopes.sourceNamed? reference 0 scopes with
    | none => exact .error (.refl _)
    | some found => exact .ok ((name_same h _).append (.text ".*"))
  | .between _ x low high negated => by
    simp only [expr, Expr.mapLiterals, typeOf_same h]
    apply (expr_same scopes none x).bind
    intro f f' hf
    apply (expr_same scopes _ low).bind
    intro l l' hl
    apply (expr_same scopes _ high).bind
    intro g g' hg
    exact .pure ((((hf.push _).append hl).append (.text " AND ")).append hg)
  | .isNull _ x negated => by
    simp only [expr, Expr.mapLiterals]
    apply (expr_same scopes none x).bind
    intro f f' hf
    exact .pure (hf.push _)
  | .cases _ operand branches otherwise => by
    simp only [expr, Expr.mapLiterals, operandType_same h]
    apply (subject_same scopes operand (.text "CASE")).bind
    intro f f' hf
    apply (whens_same scopes _ hint branches hf).bind
    intro f f' hf
    apply (optionalClause_same scopes hint "ELSE" otherwise hf).bind
    intro f f' hf
    exact .pure (hf.keyword "END")
  | .cast _ x target => by
    simp only [expr, Expr.mapLiterals]
    apply (expr_same scopes none x).bind
    intro f f' hf
    exact .pure (((((Mapped.text "CAST(").append hf).append (.text " AS ")).append
      (.text target)).append (.text ")"))
  | .existence _ inner => by
    simp only [expr, Expr.mapLiterals]
    apply (select_same scopes inner).bind
    intro f f' hf
    exact .pure (((Mapped.text "EXISTS (").append hf).append (.text ")"))
  | .subquery _ inner => by
    simp only [expr, Expr.mapLiterals]
    apply (select_same scopes inner).bind
    intro f f' hf
    exact .pure (((Mapped.text "(").append hf).append (.text ")"))
  | .index .. | .slice .. | .conditional .. | .filter .. | .defined .. | .test .. => by
    simp only [expr, Expr.mapLiterals]
    exact .error (.refl _)

theorem items_same (scopes : Scopes) (hint : Option ColumnType) : ∀ items : List Item,
    SameResults t t' r (t.items scopes hint items) (t'.items scopes hint (mapItems r items))
  | [] => by
    simp only [items, mapItems]
    exact .pure .nil
  | ⟨_, e⟩ :: rest => by
    simp only [items, mapItems]
    apply (expr_same scopes hint e).bind
    intro f f' hf
    apply (items_same scopes hint rest).bind
    intro fs fs' hfs
    exact .pure (.cons hf hfs)

theorem exprs_same (scopes : Scopes) : ∀ es : List Expr,
    SameResults t t' r (t.exprs scopes es) (t'.exprs scopes (mapExprs r es))
  | [] => by
    simp only [exprs, mapExprs]
    exact .pure .nil
  | e :: rest => by
    simp only [exprs, mapExprs]
    apply (expr_same scopes none e).bind
    intro f f' hf
    apply (exprs_same scopes rest).bind
    intro fs fs' hfs
    exact .pure (.cons hf hfs)

theorem subject_same (scopes : Scopes) : ∀ (o : Option Expr) {f f' : Fragment}, Mapped r f f' →
    SameResult t t' r (t.subject scopes o f) (t'.subject scopes (mapOption r o) f')
  | none, _, _, hf => by
    simp only [subject, mapOption]
    exact .pure hf
  | some e, _, _, hf => by
    simp only [subject, mapOption]
    apply (expr_same scopes none e).bind
    intro g g' hg
    exact .pure (hf.space.append hg)

theorem optionalClause_same (scopes : Scopes) (hint : Option ColumnType) (words : String) :
    ∀ (o : Option Expr) {f f' : Fragment}, Mapped r f f' →
      SameResult t t' r (t.optionalClause scopes hint words o f)
        (t'.optionalClause scopes hint words (mapOption r o) f')
  | none, _, _, hf => by
    simp only [optionalClause, mapOption]
    exact .pure hf
  | some e, _, _, hf => by
    simp only [optionalClause, mapOption]
    apply (expr_same scopes hint e).bind
    intro g g' hg
    exact .pure (clause_same hf words hg)

theorem whens_same (scopes : Scopes) (type hint : Option ColumnType) :
    ∀ (branches : List When) {f f' : Fragment}, Mapped r f f' →
      SameResult t t' r (t.whens scopes type hint branches f)
        (t'.whens scopes type hint (mapWhens r branches) f')
  | [], _, _, hf => by
    simp only [whens, mapWhens]
    exact .pure hf
  | ⟨condition, result⟩ :: rest, _, _, hf => by
    simp only [whens, mapWhens]
    apply (expr_same scopes type condition).bind
    intro c c' hc
    apply (expr_same scopes hint result).bind
    intro g g' hg
    exact whens_same scopes type hint rest (clause_same (clause_same hf "WHEN" hc) "THEN" hg)

theorem projections_same (scopes : Scopes) : ∀ ps : List Projection,
    SameResults t t' r (t.projections scopes ps) (t'.projections scopes (mapProjections r ps))
  | [] => by
    simp only [projections, mapProjections]
    exact .pure .nil
  | ⟨e, aliasName⟩ :: rest => by
    simp only [projections, mapProjections]
    apply (expr_same scopes none e).bind
    intro f f' hf
    apply (projections_same scopes rest).bind
    intro fs fs' hfs
    exact .pure (.cons (aliased_same h hf aliasName) hfs)

theorem joins_same (scopes : Scopes) : ∀ (earlier : List ScopeSource) (js : List Join)
    {f f' : Fragment}, Mapped r f f' →
      SameResult t t' r (t.joins scopes earlier js f) (t'.joins scopes earlier (mapJoins r js) f')
  | _, [], _, _, hf => by
    simp only [joins, mapJoins]
    exact .pure hf
  | earlier, ⟨kind, source, condition, p⟩ :: rest, _, _, hf => by
    simp only [joins, mapJoins, h.resolveSource]
    apply (Agree.refl .refl (R := Eq) (fun _ => rfl) (resolveSource t.metadata source)).bind
    rintro target _ rfl
    apply (sourceSql_same h source).bind
    intro g g' hg
    apply (joinCondition_same scopes earlier kind target p condition).bind
    intro on on' hon
    apply (render_same h _ (.cons hg hon) p).bind
    intro j j' hj
    exact joins_same scopes _ rest (hf.space.append hj)

theorem joinCondition_same (scopes : Scopes) (earlier : List ScopeSource) (kind : JoinKind)
    (target : ScopeSource) (p : Position) : ∀ condition : Option Expr,
      SameResults t t' r (t.joinCondition scopes earlier kind target p condition)
        (t'.joinCondition scopes earlier kind target p (mapOption r condition))
  | some e => by
    simp only [joinCondition, mapOption]
    apply (expr_same scopes none e).bind
    intro f f' hf
    exact .pure (.cons hf .nil)
  | none => by
    simp only [joinCondition, mapOption]
    split
    · exact .pure .nil
    · apply (relationshipCondition_same h earlier target p).bind
      intro f f' hf
      exact .pure (.cons hf .nil)

theorem orders_same (scopes : Scopes) : ∀ os : List OrderItem,
    SameResults t t' r (t.orders scopes os) (t'.orders scopes (mapOrders r os))
  | [] => by
    simp only [orders, mapOrders]
    exact .pure .nil
  | ⟨e, direction⟩ :: rest => by
    simp only [orders, mapOrders]
    apply (expr_same scopes none e).bind
    intro f f' hf
    apply (orders_same scopes rest).bind
    intro fs fs' hfs
    exact .pure (.cons (hf.push _) hfs)

theorem limit_same (scopes : Scopes) : ∀ (bound : Option Limit) {f f' : Fragment},
    Mapped r f f' →
      SameResult t t' r (t.limit scopes bound f) (t'.limit scopes (mapLimit r bound) f')
  | none, _, _, hf => by
    simp only [limit, mapLimit]
    exact .pure hf
  | some ⟨count, offset⟩, _, _, hf => by
    simp only [limit, mapLimit, Expr.position_mapLiterals]
    apply (expr_same scopes _ count).bind
    intro c c' hc
    apply (offsetOf_same scopes offset).bind
    intro os os' hos
    have he : os'.isEmpty = os.isEmpty := by cases hos <;> rfl
    rw [he]
    apply (render_same h _ (.cons hc hos) _).bind
    intro g g' hg
    exact .pure (hf.space.append hg)

theorem offsetOf_same (scopes : Scopes) : ∀ offset : Option Expr,
    SameResults t t' r (t.offsetOf scopes offset) (t'.offsetOf scopes (mapOption r offset))
  | none => by
    simp only [offsetOf, mapOption]
    exact .pure .nil
  | some e => by
    simp only [offsetOf, mapOption]
    apply (expr_same scopes _ e).bind
    intro f f' hf
    exact .pure (.cons hf .nil)

theorem select_same (outer : Scopes) : ∀ s : Select,
    SameResult t t' r (t.select outer s) (t'.select outer (s.mapLiterals r))
  | ⟨distinct, ps, sources, js, filter, groupBy, having, orderBy, bound, p⟩ => by
    simp only [select, Select.mapLiterals, sources_mapJoins, aliases_mapProjections,
      isEmpty_mapExprs, isEmpty_mapOrders, h.resolveSources]
    apply (Agree.refl .refl (R := Eq) (fun _ => rfl) _).bind
    rintro found _ rfl
    apply (projections_same _ ps).bind
    intro projected projected' hp
    apply (sourceList_same h sources).bind
    intro froms froms' hfroms
    have hhead := clause_same (clause_same .nil (selectWords distinct) (.joined ", " hp)) "FROM"
      (.joined ", " hfroms)
    apply (joins_same _ _ js hhead).bind
    intro f f' hf
    apply (optionalClause_same _ none "WHERE" filter hf).bind
    intro f f' hf
    apply (exprs_same _ groupBy).bind
    intro grouped grouped' hg
    have hgroup : Mapped r
        (if groupBy.isEmpty then f else clause f "GROUP BY" (.joined ", " grouped))
        (if groupBy.isEmpty then f' else clause f' "GROUP BY" (.joined ", " grouped')) := by
      split
      · exact hf
      · exact clause_same hf "GROUP BY" (.joined ", " hg)
    apply (optionalClause_same _ none "HAVING" having hgroup).bind
    intro f f' hf
    apply (orders_same _ orderBy).bind
    intro ordered ordered' ho
    have horder : Mapped r
        (if orderBy.isEmpty then f else clause f "ORDER BY" (.joined ", " ordered))
        (if orderBy.isEmpty then f' else clause f' "ORDER BY" (.joined ", " ordered')) := by
      split
      · exact hf
      · exact clause_same hf "ORDER BY" (.joined ", " ho)
    apply (limit_same _ bound horder).bind
    intro f f' hf
    exact .pure hf.enclosed

end

/-! ### Statements -/

theorem rowSql_same (scopes : Scopes) (columns : List Column) (p : Position) (row : List Expr) :
    SameResult t t' r (t.rowSql scopes columns p row)
      (t'.rowSql scopes columns p (mapExprs r row)) := by
  unfold rowSql
  rw [mapExprs_eq_map, List.length_map, List.head?_map, Option.map_map, List.zip_map_left]
  have hp : Expr.position ∘ Expr.mapLiterals r = Expr.position :=
    funext (Expr.position_mapLiterals r)
  rw [hp]
  split
  · exact .error (.refl _)
  · have hvalue (value : Expr × Column) : SameResult t t' r (t.valueSql scopes value)
        (t'.valueSql scopes (Prod.map (Expr.mapLiterals r) id value)) :=
      expr_same h hr scopes _ value.1
    apply (Agree.mapM_map _ (row.zip columns) hvalue).bind
    intro fs fs' hfs
    exact .pure (((Mapped.text "(").append (.joined ", " hfs)).append (.text ")"))

theorem insert_same (s : Insert) :
    SameResult t t' r (t.insert s) (t'.insert (s.mapLiterals r)) := by
  unfold insert Insert.mapLiterals
  dsimp only
  rw [h.resolveSource]
  apply (Agree.refl .refl (R := Eq) (fun _ => rfl) (resolveSource t.metadata s.source)).bind
  rintro target _ rfl
  apply (Agree.refl .refl (R := Eq) (fun _ => rfl) (insertColumns target.table s)).bind
  rintro columns _ rfl
  apply (Agree.mapM_map (mapExprs r) s.rows (rowSql_same h hr _ columns s.position)).bind
  intro rows rows' hrows
  have hnames : List.Forall₂ (Mapped r) (columns.map fun column => t.name column.name)
      (columns.map fun column => t'.name column.name) := by
    apply List.forall₂_map_left_iff.mpr
    apply List.forall₂_map_right_iff.mpr
    exact List.forall₂_same.mpr fun column _ => name_same h column.name
  exact .pure ((((((Mapped.text "INSERT INTO ").append (name_same h _)).append (.text " (")).append
    (.joined ", " hnames)).append (.text ") VALUES ")).append (.joined ", " hrows))

theorem assignmentSql_same (scopes : Scopes) (table : Table) (a : Assignment) :
    SameResult t t' r (t.assignmentSql scopes table a)
      (t'.assignmentSql scopes table (a.mapLiterals r)) := by
  unfold assignmentSql Assignment.mapLiterals
  dsimp only
  cases table.column? a.column with
  | none => exact .error (.refl _)
  | some type =>
    apply (expr_same h hr scopes (some type) a.value).bind
    intro f f' hf
    exact .pure (((name_same h a.column).append (.text " = ")).append hf)

theorem changeLimit_same (scopes : Scopes) (c : Construct) {f f' : Fragment} (hf : Mapped r f f')
    (bound : Option Expr) :
    SameResult t t' r (t.changeLimit scopes c f bound)
      (t'.changeLimit scopes c f' (mapOption r bound)) := by
  cases bound with
  | none => exact .pure hf
  | some e =>
    simp only [changeLimit, mapOption, Expr.position_mapLiterals]
    apply (expr_same h hr scopes _ e).bind
    intro count count' hc
    apply (render_same h c (.cons hc .nil) e.position).bind
    intro g g' hg
    exact .pure (hf.space.append hg)

theorem update_same (s : Update) :
    SameResult t t' r (t.update s) (t'.update (s.mapLiterals r)) := by
  unfold update Update.mapLiterals
  dsimp only
  rw [h.resolveSource, h.quotes]
  apply (Agree.refl .refl (R := Eq) (fun _ => rfl) (resolveSource t.metadata s.source)).bind
  rintro target _ rfl
  apply (Agree.mapM_map (Assignment.mapLiterals r) s.assignments
    (assignmentSql_same h hr _ target.table)).bind
  intro as as' has
  have hset := (((Mapped.text "UPDATE ").append (.source t.dialect.quotes target.unaliased)).append
    (.text " SET ")).append (.joined ", " has)
  apply (optionalClause_same h hr _ none "WHERE" s.filter hset).bind
  intro f f' hf
  apply (changeLimit_same h hr _ .updateLimit hf s.limit).bind
  intro f f' hf
  exact .pure hf.enclosed

theorem delete_same (s : Delete) :
    SameResult t t' r (t.delete s) (t'.delete (s.mapLiterals r)) := by
  unfold delete Delete.mapLiterals
  dsimp only
  rw [h.resolveSource, h.quotes]
  apply (Agree.refl .refl (R := Eq) (fun _ => rfl) (resolveSource t.metadata s.source)).bind
  rintro target _ rfl
  have hfrom := (Mapped.text (r := r) "DELETE FROM ").append
    (.source t.dialect.quotes target.unaliased)
  apply (optionalClause_same h hr _ none "WHERE" s.filter hfrom).bind
  intro f f' hf
  apply (changeLimit_same h hr _ .deleteLimit hf s.limit).bind
  intro f f' hf
  exact .pure hf.enclosed

theorem statement_same (s : Statement) :
    SameResult t t' r (t.statement s) (t'.statement (s.mapLiterals r)) := by
  cases s with
  | select s => exact select_same h hr [] s
  | insert s => exact insert_same h hr s
  | update s => exact update_same h hr s
  | delete s => exact delete_same h hr s
  | empty => exact .pure .nil

end Target

end EmbeddedLang.Query
