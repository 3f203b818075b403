import EmbeddedLang.Proofs.Query.Demands
import Mathlib.Data.List.Forall2

/-!
Binds have the types that the statement asks for.

A type is handed down to an operand from the other operands of its comparison, and it is what they
ask for unless the operand is a column itself, which binds nothing. `BETWEEN` and `IN` hand down the
type of their subject alone, so that a column among their other operands goes unheard.
-/

namespace EmbeddedLang

namespace Returns

universe u

variable {ε α β : Type u}

/-- Each result stands in a relation to its argument. -/
theorem mapM_forall₂ {R : α → β → Prop} {f : α → Except ε β} {xs : List α}
    (h : ∀ x ∈ xs, Returns (R x) (f x)) : Returns (List.Forall₂ R xs) (xs.mapM f) := by
  induction xs with
  | nil => exact ok .nil
  | cons x xs ih =>
    rw [List.mapM_cons]
    apply bind (h x List.mem_cons_self)
    intro y hy
    apply bind (ih fun x hx => h x (List.mem_cons_of_mem _ hx))
    intro ys hys
    exact ok (.cons hy hys)

end Returns

namespace Query

open Fragment (bound)

/-! ### Fragments -/

def Piece.typed? : Piece → Option (BindSource × Option ColumnType)
  | .bind s type => some (s, type)
  | _ => none

def Bind.typed (b : Bind) : BindSource × Option ColumnType :=
  (b.source, b.type)

namespace Fragment

def typed (f : Fragment) : List (BindSource × Option ColumnType) :=
  f.filterMap Piece.typed?

theorem map_typed (f : Fragment) : f.typed.map Prod.fst = f.bound := by
  unfold typed Fragment.bound
  rw [List.map_filterMap]
  congr 1
  funext piece
  cases piece <;> rfl

theorem typed_finishFrom (style : PlaceholderStyle) (index : Nat) (f : Fragment) :
    (f.finishFrom style index).2.map Bind.typed = f.typed := by
  induction f generalizing index with
  | nil => rfl
  | cons piece rest ih =>
    cases piece with
    | bind source type => rw [finishFrom_bind, List.map_cons, ih]; rfl
    | _ => rw [finishFrom_cons style index rfl, ih]; rfl

/-- The binds of a fragment are those that are asked for, and of such types. -/
def Binds (asked : List Asked) (f : Fragment) : Prop :=
  List.Forall₂ Asked.Met asked f.typed

variable {xs ys : List Asked} {xss : List (List Asked)} {f g : Fragment} {fs : List Fragment}

theorem Binds.silent (h : f.bound = []) : Binds [] f := by
  rw [← map_typed, List.map_eq_nil_iff] at h
  rw [Binds, h]
  exact .nil

theorem Binds.append (hf : Binds xs f) (hg : Binds ys g) : Binds (xs ++ ys) (f ++ g) := by
  unfold Binds typed
  rw [List.filterMap_append]
  exact List.rel_append hf hg

theorem Binds.add (hf : Binds xs f) (hg : g.bound = []) : Binds xs (f ++ g) := by
  have h := hf.append (.silent hg)
  rwa [List.append_nil] at h

theorem Binds.after (hf : f.bound = []) (hg : Binds ys g) : Binds ys (f ++ g) :=
  (Binds.silent hf).append hg

theorem Binds.push (hf : Binds xs f) (s : String) : Binds xs (f.push s) :=
  hf.add (bound_text s)

theorem Binds.space (hf : Binds xs f) : Binds xs f.space := by
  unfold Fragment.space
  split
  · exact hf
  · split
    · exact hf
    · exact hf.push " "

theorem Binds.keyword (hf : Binds xs f) (word : String) : Binds xs (f.keyword word) :=
  hf.space.push word

theorem Binds.enclosed (hf : Binds xs f) : Binds xs f.enclosed :=
  .after (f := [.enter]) rfl (hf.add rfl)

theorem Binds.parenthesized (hf : Binds xs f) : Binds xs (text "(" ++ f ++ text ")") :=
  (Binds.after (bound_text "(") hf).add (bound_text ")")

theorem Binds.joined (hfs : List.Forall₂ Binds xss fs) (separator : String) :
    Binds xss.flatten (Fragment.joined separator fs) := by
  induction hfs with
  | nil => exact .silent rfl
  | cons hf hfs ih =>
    cases hfs with
    | nil =>
      rw [List.flatten_singleton]
      exact hf
    | cons hg hfs => exact (hf.add (bound_text separator)).append ih

end Fragment

open Fragment (Binds)

/-- The type handed down is the one that is asked for, if any is. -/
def Demand.HandedDown (demand : Demand) (hint : Option ColumnType) : Prop :=
  ∀ type, demand = .typed type → hint = type

theorem Demand.free_handedDown (hint : Option ColumnType) : Demand.free.HandedDown hint := by
  intro type h
  cases h

theorem Demand.typed_handedDown {type hint : Option ColumnType} :
    (Demand.typed type).HandedDown hint ↔ hint = type := by
  constructor
  · intro h
    exact h type rfl
  · intro h type' htype
    exact h.trans (Demand.typed.inj htype)

namespace Fragment

variable {demand : Demand} {hint : Option ColumnType}

theorem Binds.bind (h : demand.HandedDown hint) (p : Placeholder) :
    Binds [⟨.ofPlaceholder p, demand⟩] (Fragment.bind (.ofPlaceholder p) hint) := by
  refine List.Forall₂.cons ⟨rfl, ?_⟩ .nil
  intro type htype
  rw [h type htype]
  cases p <;> cases type <;> rfl

theorem Binds.literal (h : demand.HandedDown hint) (l : Literal) :
    Binds ((BindValue.ofLiteral? l).map fun value => Asked.mk (.literal value) demand).toList
      (Fragment.literal l hint) := by
  unfold Fragment.literal
  cases BindValue.ofLiteral? l with
  | none => exact .silent (bound_text "NULL")
  | some value =>
    refine List.Forall₂.cons ⟨rfl, ?_⟩ .nil
    intro type htype
    rw [h type htype]
    rfl

end Fragment

/-! ### Templates -/

section templates

variable {xss : List (List Asked)} {fs : List Fragment}

theorem SyntaxTemplate.fill_binds (hfs : List.Forall₂ Binds xss fs) (part : TemplatePart) :
    Returns (Binds (part.pick xss)) (fill fs part) := by
  cases part with
  | text s => exact .ok (.silent (Fragment.bound_text s))
  | all => exact .ok (.joined hfs ", ")
  | slot i =>
    rw [fill]
    cases hi : fs[i]? with
    | none => exact .error _
    | some f =>
      obtain ⟨hlength, hget⟩ := List.forall₂_iff_get.mp hfs
      obtain ⟨hlt, rfl⟩ := List.getElem?_eq_some_iff.mp hi
      have hx : (TemplatePart.slot i).pick xss = xss[i] := by
        simp only [TemplatePart.pick, List.getElem?_eq_getElem (hlength ▸ hlt), Option.getD_some]
      rw [hx]
      exact .ok (hget i (hlength ▸ hlt) hlt)

theorem SyntaxTemplate.fillAll_binds (hfs : List.Forall₂ Binds xss fs)
    (parts : List TemplatePart) :
    Returns (Binds (parts.flatMap (TemplatePart.pick xss))) (fillAll fs parts) := by
  induction parts with
  | nil => exact .ok (.silent rfl)
  | cons part rest ih =>
    apply (fill_binds hfs part).bind
    intro f hf
    apply ih.bind
    intro g hg
    exact .pure (hf.append hg)

theorem Dialect.render_binds (d : Dialect) (c : Construct) (hfs : List.Forall₂ Binds xss fs)
    (p : Position) : Returns (Binds (d.arrange c xss)) (d.render c fs p) := by
  unfold render arrange
  cases d.template? c with
  | none => exact .error _
  | some template =>
    dsimp only
    rw [template.arrange_eq]
    exact (SyntaxTemplate.fillAll_binds hfs template.parts).mapError

theorem Dialect.arrange_concat_nil {α : Type} (d : Dialect) (c : Construct)
    (yss : List (List α)) : d.arrange c (yss ++ [[]]) = d.arrange c yss := by
  unfold arrange
  cases d.template? c with
  | none => rfl
  | some template => exact template.arrange_concat_nil yss

end templates

/-! ### Operands of comparisons -/

/-- A column binds nothing, so that what is handed down to it does not matter. -/
def Scopes.Answers (scopes : Scopes) (demand : Demand) (hint : Option ColumnType) (e : Expr) :
    Prop :=
  (scopes.columnType? e).isSome ∨ demand.HandedDown hint

namespace Scopes

variable {scopes : Scopes} {hint : Option ColumnType}

theorem answers_free (scopes : Scopes) (hint : Option ColumnType) (e : Expr) :
    scopes.Answers .free hint e :=
  .inr (Demand.free_handedDown hint)

/-- Each of two operands takes the type of the other. -/
theorem answers_pair (scopes : Scopes) (x y : Expr) :
    scopes.Answers (.typed (scopes.commonType? [x, y])) (scopes.columnType? y) x ∧
      scopes.Answers (.typed (scopes.commonType? [x, y])) (scopes.columnType? x) y := by
  unfold Answers commonType?
  cases hx : scopes.columnType? x <;> cases hy : scopes.columnType? y <;>
    simp [hx, hy, Query.commonType?, Demand.typed_handedDown]

theorem answers_bySubject (scopes : Scopes) (common : Option ColumnType) (x e : Expr) :
    scopes.Answers (Rule.bySubject (scopes.columnType? x) common) none x ∧
      scopes.Answers (Rule.bySubject (scopes.columnType? x) common) (scopes.columnType? x) e := by
  unfold Rule.bySubject
  split
  · rename_i h
    refine ⟨?_, .inr (Demand.typed_handedDown.mpr h.symm)⟩
    cases hx : scopes.columnType? x with
    | some type => exact .inl (by rw [hx]; rfl)
    | none => exact .inr (Demand.typed_handedDown.mpr (h.trans hx).symm)
  · exact ⟨answers_free scopes _ _, answers_free scopes _ _⟩

theorem columnType?_of_items? {e : Expr} {items : List Expr} (h : items? e = some items) :
    scopes.columnType? e = none := by
  induction e using Expr.ungrouped.induct with
  | case1 p inner ih => exact ih h
  | case2 e hgrouped =>
    unfold items? at h
    cases e with
    | grouped p inner => exact absurd rfl (hgrouped p inner)
    | list => rfl
    | _ => cases h

end Scopes

open Scopes (answers_free)

namespace Target

variable {t : Target}

theorem typeOf_eq (scopes : Scopes) (e : Expr) : t.typeOf scopes e = scopes.columnType? e :=
  Scopes.typeOf_eq_columnType? t.dialect.quotes scopes e

theorem operandTypes_answer (scopes : Scopes) (op : BinaryOp) (x y : Expr)
    (hint : Option ColumnType) :
    let hints := t.operandTypes scopes op x y hint
    scopes.Answers (scopes.askedBy .bySubject op x y) hints.1 x ∧
      scopes.Answers (scopes.askedBy .bySubject op x y) hints.2 y := by
  unfold Scopes.askedBy
  split
  · rename_i hop
    have hhints : t.operandTypes scopes op x y hint =
        (scopes.columnType? y, scopes.columnType? x) := by
      rw [← t.typeOf_eq, ← t.typeOf_eq]
      simp only [comparisons, List.mem_cons, List.not_mem_nil, or_false] at hop
      rcases hop with rfl | rfl | rfl | rfl | rfl | rfl | rfl | rfl | rfl | rfl <;> rfl
    rw [hhints]
    exact scopes.answers_pair x y
  · split
    · rename_i hop
      have hhints : t.operandTypes scopes op x y hint =
          (scopes.columnType? y, scopes.columnType? x) := by
        rw [← t.typeOf_eq, ← t.typeOf_eq]
        rcases hop with rfl | rfl <;> rfl
      rw [hhints]
      split
      · rename_i items hitems
        rw [Scopes.columnType?_of_items? hitems]
        exact scopes.answers_bySubject _ x y
      · exact ⟨answers_free scopes _ _, answers_free scopes _ _⟩
    · exact ⟨answers_free scopes _ _, answers_free scopes _ _⟩

theorem aliased_binds {xs : List Asked} {f : Fragment} (hf : Binds xs f)
    (aliasName : Option String) : Binds xs (t.aliased f aliasName) := by
  cases aliasName with
  | none => exact hf
  | some a => exact (hf.push " AS ").add (Fragment.bound_name t.dialect.quotes a)

theorem clause_binds {xs ys : List Asked} {f g : Fragment} (hf : Binds xs f) (hg : Binds ys g)
    (words : String) : Binds (xs ++ ys) (clause f words g) :=
  (hf.keyword words).space.append hg

theorem listClause_binds {xs : List Asked} {yss : List (List Asked)} {f : Fragment}
    {fs : List Fragment} {absent : Bool} (hf : Binds xs f) (hfs : List.Forall₂ Binds yss fs)
    (words : String) (h : absent = true → yss = []) :
    Binds (xs ++ yss.flatten) (if absent then f else clause f words (.joined ", " fs)) := by
  cases absent with
  | true =>
    rw [h rfl, List.flatten_nil, List.append_nil]
    exact hf
  | false => exact clause_binds hf (.joined hfs ", ") words

theorem distinctFirst_binds {xss : List (List Asked)} {fs : List Fragment}
    (hfs : List.Forall₂ Binds xss fs) (distinct : Bool) :
    List.Forall₂ Binds xss (distinctFirst distinct fs) := by
  cases hfs with
  | nil => exact .nil
  | cons hf hfs =>
    cases distinct with
    | false => exact .cons hf hfs
    | true => exact .cons (.after (Fragment.bound_text "DISTINCT ") hf) hfs

/-! ### Expressions and selects

The induction is on the tree, case by case as the translation goes down. -/

mutual

theorem expr_binds (scopes : Scopes) {demand : Demand} {hint : Option ColumnType} : ∀ e : Expr,
    scopes.Answers demand hint e →
      Returns (Binds (e.asked t .bySubject scopes demand)) (t.expr scopes hint e)
  | .literal _ l, h => by
    simp only [expr, Expr.asked]
    exact .pure (.literal (h.resolve_left Bool.noConfusion) l)
  | .identifier p name, _ => by
    simp only [expr, Expr.asked]
    unfold Scopes.column
    cases Scopes.meaning name 0 scopes with
    | projected => exact .ok (.silent rfl)
    | column r => exact .ok (.silent rfl)
    | ambiguous sources => exact .error _
    | unknown => exact .error _
  | .member p object property, _ => by
    simp only [expr, Expr.asked]
    cases object.identifier? with
    | none => exact .error _
    | some reference =>
      dsimp only
      unfold Scopes.qualifiedColumn
      cases Scopes.sourceNamed? reference 0 scopes with
      | none => exact .error _
      | some found =>
        obtain ⟨depth, source⟩ := found
        dsimp only
        cases source.table.column? property with
        | none => exact .error _
        | some type => exact .ok (.silent rfl)
  | .unary p op x, h => by
    simp only [expr, Expr.asked]
    apply (expr_binds scopes x (.inr (h.resolve_left Bool.noConfusion))).bind
    intro f hf
    exact t.dialect.render_binds (.unary op) (.cons hf .nil) p
  | .binary p op x y, _ => by
    simp only [expr, Expr.asked]
    obtain ⟨hx, hy⟩ := operandTypes_answer (t := t) scopes op x y hint
    apply (expr_binds scopes x hx).bind
    intro f hf
    apply (expr_binds scopes y hy).bind
    intro g hg
    exact t.dialect.render_binds (.binary op) (.cons hf (.cons hg .nil)) p
  | .call p callee args distinct, _ => by
    simp only [expr, Expr.asked]
    cases hcallee : callee.identifier? with
    | none => exact .error _
    | some name =>
      apply (items_binds scopes args (Demand.free_handedDown none)).bind
      intro fs hfs
      rw [Expr.functionName, hcallee]
      exact t.dialect.render_binds _ (distinctFirst_binds hfs distinct) p
  | .grouped _ x, h => by
    simp only [expr, Expr.asked]
    apply (expr_binds scopes x h).bind
    intro f hf
    exact .pure hf.parenthesized
  | .list _ elements, h => by
    simp only [expr, Expr.asked]
    apply (items_binds scopes elements (h.resolve_left Bool.noConfusion)).bind
    intro fs hfs
    exact .pure (Binds.joined hfs ", ").parenthesized
  | .placeholder _ p, h => by
    simp only [expr, Expr.asked]
    exact .pure (.bind (h.resolve_left Bool.noConfusion) p)
  | .star _, _ => by
    simp only [expr, Expr.asked]
    exact .pure (.silent (Fragment.bound_text "*"))
  | .qualifiedStar p reference, _ => by
    simp only [expr, Expr.asked]
    cases Scopes.sourceNamed? reference 0 scopes with
    | none => exact .error _
    | some found => exact .ok (.silent (by simp [name]))
  | .between _ x low high negated, _ => by
    simp only [expr, Expr.asked, typeOf_eq]
    have hbound := scopes.answers_bySubject (scopes.commonType? [x, low, high]) x
    apply (expr_binds scopes x (hbound x).1).bind
    intro f hf
    apply (expr_binds scopes low (hbound low).2).bind
    intro l hl
    apply (expr_binds scopes high (hbound high).2).bind
    intro g hg
    exact .pure ((((hf.push _).append hl).add (Fragment.bound_text " AND ")).append hg)
  | .isNull _ x negated, _ => by
    simp only [expr, Expr.asked]
    apply (expr_binds scopes x (answers_free scopes none x)).bind
    intro f hf
    exact .pure (hf.push _)
  | .cases _ operand branches otherwise, h => by
    simp only [expr, Expr.asked]
    have hresult := h.resolve_left Bool.noConfusion
    apply (subject_binds scopes operand (.silent (Fragment.bound_text "CASE"))).bind
    intro f hf
    apply (whens_binds scopes _ branches hresult hf).bind
    intro g hg
    apply (optionalClause_binds scopes "ELSE" otherwise hresult hg).bind
    intro g hg
    exact .pure (hg.keyword "END")
  | .cast _ x target, _ => by
    simp only [expr, Expr.asked]
    apply (expr_binds scopes x (answers_free scopes none x)).bind
    intro f hf
    exact .pure ((((Binds.after (Fragment.bound_text "CAST(") hf).add
      (Fragment.bound_text " AS ")).add (Fragment.bound_text target)).add (Fragment.bound_text ")"))
  | .existence _ s, _ => by
    simp only [expr, Expr.asked]
    apply (select_binds scopes s).bind
    intro f hf
    exact .pure ((Binds.after (Fragment.bound_text "EXISTS (") hf).add (Fragment.bound_text ")"))
  | .subquery _ s, _ => by
    simp only [expr, Expr.asked]
    apply (select_binds scopes s).bind
    intro f hf
    exact .pure hf.parenthesized
  | .index .., _ | .slice .., _ | .conditional .., _ | .filter .., _ | .defined .., _
  | .test .., _ => by
    simp only [expr]
    exact .error _

theorem items_binds (scopes : Scopes) {demand : Demand} {hint : Option ColumnType} :
    ∀ items : List Item, demand.HandedDown hint →
      Returns (List.Forall₂ Binds (askedOfItems t .bySubject scopes demand items))
        (t.items scopes hint items)
  | [], _ => by
    simp only [items, askedOfItems]
    exact .pure .nil
  | ⟨_, e⟩ :: rest, h => by
    simp only [items, askedOfItems]
    apply (expr_binds scopes e (.inr h)).bind
    intro f hf
    apply (items_binds scopes rest h).bind
    intro fs hfs
    exact .pure (.cons hf hfs)

theorem exprs_binds (scopes : Scopes) : ∀ es : List Expr,
    Returns (List.Forall₂ Binds (askedOfExprs t .bySubject scopes es)) (t.exprs scopes es)
  | [] => by
    simp only [exprs, askedOfExprs]
    exact .pure .nil
  | e :: rest => by
    simp only [exprs, askedOfExprs]
    apply (expr_binds scopes e (answers_free scopes none e)).bind
    intro f hf
    apply (exprs_binds scopes rest).bind
    intro fs hfs
    exact .pure (.cons hf hfs)

theorem subject_binds (scopes : Scopes) : ∀ (o : Option Expr) {xs : List Asked} {f : Fragment},
    Binds xs f → Returns (Binds (xs ++ (askedOfOption t .bySubject scopes .free o).flatten))
      (t.subject scopes o f)
  | none, xs, _, hf => by
    simp only [subject, askedOfOption, List.flatten_nil, List.append_nil]
    exact .pure hf
  | some e, _, _, hf => by
    simp only [subject, askedOfOption, List.flatten_singleton]
    apply (expr_binds scopes e (answers_free scopes none e)).bind
    intro g hg
    exact .pure (hf.space.append hg)

theorem optionalClause_binds (scopes : Scopes) {demand : Demand} {hint : Option ColumnType}
    (words : String) : ∀ (o : Option Expr) {xs : List Asked} {f : Fragment},
      demand.HandedDown hint → Binds xs f →
        Returns (Binds (xs ++ (askedOfOption t .bySubject scopes demand o).flatten))
          (t.optionalClause scopes hint words o f)
  | none, _, _, _, hf => by
    simp only [optionalClause, askedOfOption, List.flatten_nil, List.append_nil]
    exact .pure hf
  | some e, _, _, h, hf => by
    simp only [optionalClause, askedOfOption, List.flatten_singleton]
    apply (expr_binds scopes e (.inr h)).bind
    intro g hg
    exact .pure (clause_binds hf hg words)

theorem whens_binds (scopes : Scopes) {demand : Demand} (type : Option ColumnType)
    {hint : Option ColumnType} : ∀ (branches : List When) {xs : List Asked} {f : Fragment},
      demand.HandedDown hint → Binds xs f →
        Returns (Binds (xs ++ askedOfWhens t .bySubject scopes demand branches))
          (t.whens scopes type hint branches f)
  | [], _, _, _, hf => by
    simp only [whens, askedOfWhens, List.append_nil]
    exact .pure hf
  | ⟨condition, result⟩ :: rest, _, _, h, hf => by
    simp only [whens, askedOfWhens]
    apply (expr_binds scopes condition (answers_free scopes type condition)).bind
    intro c hc
    apply (expr_binds scopes result (.inr h)).bind
    intro r hr
    apply (whens_binds scopes type rest h (clause_binds (clause_binds hf hc "WHEN") hr "THEN")).imp
    intro g hg
    simpa only [List.append_assoc] using hg

theorem projections_binds (scopes : Scopes) : ∀ ps : List Projection,
    Returns (List.Forall₂ Binds (askedOfProjections t .bySubject scopes ps))
      (t.projections scopes ps)
  | [] => by
    simp only [projections, askedOfProjections]
    exact .pure .nil
  | ⟨e, aliasName⟩ :: rest => by
    simp only [projections, askedOfProjections]
    apply (expr_binds scopes e (answers_free scopes none e)).bind
    intro f hf
    apply (projections_binds scopes rest).bind
    intro fs hfs
    exact .pure (.cons (aliased_binds hf aliasName) hfs)

theorem joins_binds (scopes : Scopes) : ∀ (earlier : List ScopeSource) (js : List Join)
    {xs : List Asked} {f : Fragment}, Binds xs f →
      Returns (Binds (xs ++ askedOfJoins t .bySubject scopes js)) (t.joins scopes earlier js f)
  | _, [], _, _, hf => by
    simp only [joins, askedOfJoins, List.append_nil]
    exact .pure hf
  | earlier, ⟨kind, source, condition, p⟩ :: rest, _, _, hf => by
    simp only [joins, askedOfJoins]
    apply (Returns.self _).bind
    intro target _
    apply (sourceSql_bound source).bind
    intro g hg
    apply (joinCondition_binds scopes earlier kind target p condition).bind
    intro on hon
    have hjoin : Returns (Binds (t.dialect.arrange (.join kind)
        ([] :: askedOfOption t .bySubject scopes .free condition)))
          (t.dialect.render (.join kind) (g :: on) p) := by
      rcases hon with hon | hon
      · exact t.dialect.render_binds (.join kind) (.cons (.silent hg) hon) p
      · rw [← t.dialect.arrange_concat_nil]
        exact t.dialect.render_binds (.join kind) (.cons (.silent hg) hon) p
    apply hjoin.bind
    intro j hj
    apply (joins_binds scopes (earlier ++ [target]) rest (hf.space.append hj)).imp
    intro result hresult
    rwa [← List.append_assoc]

/-- A condition that the relationship supplies is no operand of the tree. -/
theorem joinCondition_binds (scopes : Scopes) (earlier : List ScopeSource) (kind : JoinKind)
    (target : ScopeSource) (p : Position) : ∀ condition : Option Expr,
      Returns (fun fs =>
          List.Forall₂ Binds (askedOfOption t .bySubject scopes .free condition) fs ∨
          List.Forall₂ Binds (askedOfOption t .bySubject scopes .free condition ++ [[]]) fs)
        (t.joinCondition scopes earlier kind target p condition)
  | some e => by
    simp only [joinCondition, askedOfOption]
    apply (expr_binds scopes e (answers_free scopes none e)).bind
    intro f hf
    exact .pure (.inl (.cons hf .nil))
  | none => by
    simp only [joinCondition, askedOfOption]
    split
    · exact .pure (.inl .nil)
    · apply (relationshipCondition_bound earlier target p).bind
      intro f hf
      exact .pure (.inr (.cons (.silent hf) .nil))

theorem orders_binds (scopes : Scopes) : ∀ os : List OrderItem,
    Returns (List.Forall₂ Binds (askedOfOrders t .bySubject scopes os)) (t.orders scopes os)
  | [] => by
    simp only [orders, askedOfOrders]
    exact .pure .nil
  | ⟨e, direction⟩ :: rest => by
    simp only [orders, askedOfOrders]
    apply (expr_binds scopes e (answers_free scopes none e)).bind
    intro f hf
    apply (orders_binds scopes rest).bind
    intro fs hfs
    exact .pure (.cons (hf.push _) hfs)

theorem limit_binds (scopes : Scopes) : ∀ (bounds : Option Limit) {xs : List Asked}
    {f : Fragment}, Binds xs f →
      Returns (Binds (xs ++ askedOfLimit t .bySubject scopes bounds)) (t.limit scopes bounds f)
  | none, _, _, hf => by
    simp only [limit, askedOfLimit, List.append_nil]
    exact .pure hf
  | some ⟨count, offset⟩, _, _, hf => by
    simp only [limit, askedOfLimit]
    apply (expr_binds scopes count (answers_free scopes _ count)).bind
    intro c hc
    apply (offsetOf_binds scopes offset).bind
    rintro os ⟨hos, hempty⟩
    rw [hempty]
    apply (t.dialect.render_binds _ (.cons hc hos) _).bind
    intro g hg
    apply Returns.pure
    refine hf.space.append ?_
    cases offset <;> exact hg

theorem offsetOf_binds (scopes : Scopes) : ∀ offset : Option Expr,
    Returns (fun fs => List.Forall₂ Binds (askedOfOption t .bySubject scopes .free offset) fs ∧
        fs.isEmpty = offset.isNone) (t.offsetOf scopes offset)
  | none => by
    simp only [offsetOf, askedOfOption]
    exact .pure ⟨.nil, rfl⟩
  | some e => by
    simp only [offsetOf, askedOfOption]
    apply (expr_binds scopes e (answers_free scopes _ e)).bind
    intro f hf
    exact .pure ⟨.cons hf .nil, rfl⟩

theorem select_binds (outer : Scopes) : ∀ s : Select,
    Returns (Binds (s.asked t .bySubject outer)) (t.select outer s)
  | ⟨distinct, ps, sources, js, filter, groupBy, having, orderBy, bounds, p⟩ => by
    simp only [select, Select.asked]
    apply (Returns.self _).bind
    intro found hfound
    rw [Metadata.sourcesOf_eq hfound]
    apply (projections_binds (.ofSources found :: outer) ps).bind
    intro projected hp
    apply (sourceList_bound sources).bind
    intro froms hfroms
    have hselect := clause_binds (.silent (f := []) rfl) (.joined hp ", ") (selectWords distinct)
    have hsilent : (Fragment.joined ", " froms).bound = [] := by
      rw [Fragment.bound_joined, hfroms]
    have hfrom := clause_binds hselect (.silent hsilent) "FROM"
    apply (joins_binds (.ofSources found :: outer) _ js hfrom).bind
    intro f hf
    have hfree := Demand.free_handedDown none
    apply (optionalClause_binds (.ofSources found :: outer) "WHERE" filter hfree hf).bind
    intro f hf
    let scopes : Scopes := ⟨found, ps.filterMap Projection.aliasName⟩ :: outer
    apply (exprs_binds scopes groupBy).bind
    intro grouped hgrouped
    have hgroup : groupBy.isEmpty = true → askedOfExprs t .bySubject scopes groupBy = [] := by
      intro hempty
      rw [List.isEmpty_iff.mp hempty]
      rfl
    apply (optionalClause_binds scopes "HAVING" having hfree
      (listClause_binds hf hgrouped "GROUP BY" hgroup)).bind
    intro f hf
    apply (orders_binds scopes orderBy).bind
    intro ordered hordered
    have horder : orderBy.isEmpty = true → askedOfOrders t .bySubject scopes orderBy = [] := by
      intro hempty
      rw [List.isEmpty_iff.mp hempty]
      rfl
    apply (limit_binds scopes bounds (listClause_binds hf hordered "ORDER BY" horder)).bind
    intro f hf
    apply Returns.pure
    simpa only [List.nil_append, List.append_nil, List.append_assoc] using hf.enclosed

end

/-! ### Statements -/

theorem rowSql_binds (scopes : Scopes) (columns : List Column) (p : Position) (row : List Expr) :
    Returns (Binds (askedOfRow t .bySubject scopes columns row))
      (t.rowSql scopes columns p row) := by
  unfold rowSql askedOfRow
  split
  · exact .error _
  · have hvalue : ∀ value ∈ row.zip columns,
        Returns (Binds (value.1.asked t .bySubject scopes (.typed (some value.2.type))))
          (t.valueSql scopes value) := by
      intro value _
      exact expr_binds scopes value.1 (.inr (Demand.typed_handedDown.mpr rfl))
    apply (Returns.mapM_forall₂ hvalue).bind
    intro fs hfs
    rw [List.flatMap_def]
    exact .pure (Binds.joined (List.forall₂_map_left_iff.mpr hfs) ", ").parenthesized

theorem insert_binds (s : Insert) :
    Returns (Binds (t.metadata.withSource s.source (s.asked t .bySubject))) (t.insert s) := by
  unfold insert
  apply (Returns.self _).bind
  intro target htarget
  apply (Returns.self _).bind
  intro columns hcolumns
  apply (Returns.mapM_forall₂ fun row _ =>
    rowSql_binds [.ofSources [target]] columns s.position row).bind
  intro rows hrows
  rw [Metadata.withSource_eq htarget, Insert.asked, hcolumns]
  dsimp only [Except.toOption, Option.getD_some]
  rw [List.flatMap_def]
  apply Returns.pure
  refine .after ?_ (.joined (List.forall₂_map_left_iff.mpr hrows) ", ")
  simp [name, Function.comp_def]

theorem assignmentSql_binds (scopes : Scopes) (table : Table) (a : Assignment) :
    Returns (Binds (askedOfAssignment t .bySubject scopes table a))
      (t.assignmentSql scopes table a) := by
  unfold assignmentSql askedOfAssignment
  cases table.column? a.column with
  | none => exact .error _
  | some type =>
    apply (expr_binds scopes a.value (.inr (Demand.typed_handedDown.mpr rfl))).bind
    intro f hf
    exact .pure (.after (by simp [name]) hf)

theorem changeLimit_binds (scopes : Scopes) (c : Construct) (e : Option Expr) {xs : List Asked}
    {f : Fragment} (hf : Binds xs f) :
    Returns (Binds (xs ++ askedOfBound t .bySubject scopes c e)) (t.changeLimit scopes c f e) := by
  cases e with
  | none =>
    rw [askedOfBound, List.append_nil]
    exact .pure hf
  | some e =>
    apply (expr_binds scopes e (answers_free scopes _ e)).bind
    intro count hcount
    apply (t.dialect.render_binds c (.cons hcount .nil) e.position).bind
    intro g hg
    exact .pure (hf.space.append hg)

theorem update_binds (s : Update) :
    Returns (Binds (t.metadata.withSource s.source (s.asked t .bySubject))) (t.update s) := by
  unfold update
  apply (Returns.self _).bind
  intro target htarget
  rw [Metadata.withSource_eq htarget]
  apply (Returns.mapM_forall₂ fun a _ =>
    assignmentSql_binds [.ofSources [target]] target.table a).bind
  intro fs hfs
  have hset := Binds.after (f := .text "UPDATE " ++ .source t.dialect.quotes target.unaliased
    ++ .text " SET ") (by simp) (.joined (List.forall₂_map_left_iff.mpr hfs) ", ")
  apply (optionalClause_binds [.ofSources [target]] "WHERE" s.filter
    (Demand.free_handedDown none) hset).bind
  intro f hf
  apply (changeLimit_binds [.ofSources [target]] .updateLimit s.limit hf).bind
  intro f hf
  rw [Update.asked, List.flatMap_def]
  exact .pure hf.enclosed

theorem delete_binds (s : Delete) :
    Returns (Binds (t.metadata.withSource s.source (s.asked t .bySubject))) (t.delete s) := by
  unfold delete
  apply (Returns.self _).bind
  intro target htarget
  rw [Metadata.withSource_eq htarget]
  have hfrom : Binds [] (.text "DELETE FROM " ++ .source t.dialect.quotes target.unaliased) :=
    .silent (by simp)
  apply (optionalClause_binds [.ofSources [target]] "WHERE" s.filter
    (Demand.free_handedDown none) hfrom).bind
  intro f hf
  apply (changeLimit_binds [.ofSources [target]] .deleteLimit s.limit hf).bind
  intro f hf
  exact .pure hf.enclosed

theorem statement_binds (s : Statement) :
    Returns (Binds (s.asked t .bySubject)) (t.statement s) := by
  cases s with
  | select s => exact select_binds [] s
  | insert s => exact insert_binds s
  | update s => exact update_binds s
  | delete s => exact delete_binds s
  | empty => exact .pure (.silent rfl)

end Target

/-- Binds are typed as is asked, on whichever side of a comparison they stand; in an `IN` and a
`BETWEEN` as long as the subject tells the type of the columns. -/
theorem lower_typed {m : Metadata} {d : Dialect} {s : Statement} {q : CompiledQuery}
    (h : lower m d s = .ok q) :
    List.Forall₂ Asked.Met (s.asked ⟨m, d⟩ .bySubject) (q.binds.map Bind.typed) := by
  obtain ⟨f, hf, rfl⟩ := lower_eq_ok_iff.mp h
  have hbinds := (Target.statement_binds s).of_ok f hf
  rwa [Fragment.Binds, ← Fragment.typed_finishFrom d.style 1 f] at hbinds

/-- A column to the right of its operand, one before a list, and a comparison without any. -/
def compared : String :=
  "DELETE FROM Author WHERE (:a:) <= born AND (born) IN (2, :b:) AND 'x' LIKE :c:"

theorem lower_typed_compared : ∃ s q, parse compared = .ok s ∧ lower library .generic s = .ok q ∧
    (s.asked ⟨library, .generic⟩ .bySubject).map (·.demand) =
      [.typed (some .integer), .typed (some .integer), .typed (some .integer), .typed none,
        .typed none] ∧
    List.Forall₂ Asked.Met (s.asked ⟨library, .generic⟩ .bySubject) (q.binds.map Bind.typed) := by
  have hs : (parse compared).toOption.any fun s =>
      (s.asked ⟨library, .generic⟩ .bySubject).map (·.demand) =
        [.typed (some .integer), .typed (some .integer), .typed (some .integer), .typed none,
          .typed none]
      && (lower library .generic s).toOption.isSome := by decide +kernel
  obtain ⟨s, hparse, hall⟩ := exists_ok_of_any hs
  obtain ⟨hdemands, hlower⟩ := Bool.and_eq_true_iff.mp hall
  obtain ⟨q, hq⟩ := exists_ok_of_isSome hlower
  exact ⟨s, q, hparse, hq, of_decide_eq_true hdemands, lower_typed hq⟩

/-- What is asked of the first bind decides its type. -/
theorem type_of_head {asked : List Asked} {binds : List Bind} {type : ColumnType}
    (h : List.Forall₂ Asked.Met asked (binds.map Bind.typed))
    (hasked : asked.head?.map (·.demand) = some (.typed (some type))) :
    binds.head?.map (·.type) = some (some type) := by
  cases asked with
  | nil => cases hasked
  | cons x rest =>
    cases binds with
    | nil => cases h
    | cons b binds =>
      cases h with
      | cons hmet _ => exact congrArg some (hmet.2 (some type) (Option.some.inj hasked))

/-- A column that is a bound, with a parameter for the subject. -/
def boundByColumn : String :=
  "SELECT name FROM Author WHERE :year: BETWEEN born AND 1900"

theorem bound_not_heard : ∃ s q, parse boundByColumn = .ok s ∧ lower library .generic s = .ok q ∧
    ¬ List.Forall₂ Asked.Met (s.asked ⟨library, .generic⟩ .always) (q.binds.map Bind.typed) := by
  have hs : (parse boundByColumn).toOption.any fun s =>
      (s.asked ⟨library, .generic⟩ .always).head?.map (·.demand) = some (.typed (some .integer))
      && (lower library .generic s).toOption.any fun q =>
        q.binds.head?.map (·.type) = some none := by
    decide +kernel
  obtain ⟨s, hparse, hall⟩ := exists_ok_of_any hs
  obtain ⟨hasked, hlower⟩ := Bool.and_eq_true_iff.mp hall
  obtain ⟨q, hq, hbound⟩ := exists_ok_of_any hlower
  refine ⟨s, q, hparse, hq, fun hmet => ?_⟩
  have htype := type_of_head hmet (of_decide_eq_true hasked)
  cases htype.symm.trans (of_decide_eq_true hbound)

end Query

end EmbeddedLang
