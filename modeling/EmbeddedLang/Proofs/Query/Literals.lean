import EmbeddedLang.Query.Sql

/-!
Statements with other literals in place of their own.
-/

namespace EmbeddedLang

variable (r : Literal → Literal)

mutual

def Expr.mapLiterals : Expr → Expr
  | .literal p l => .literal p (r l)
  | .identifier p name => .identifier p name
  | .unary p op x => .unary p op x.mapLiterals
  | .binary p op x y => .binary p op x.mapLiterals y.mapLiterals
  | .call p callee args distinct => .call p callee.mapLiterals (mapItems args) distinct
  | .member p x name => .member p x.mapLiterals name
  | .index p x y => .index p x.mapLiterals y.mapLiterals
  | .slice p x first last => .slice p x.mapLiterals (mapOption first) (mapOption last)
  | .list p items => .list p (mapItems items)
  | .grouped p x => .grouped p x.mapLiterals
  | .conditional p x y z => .conditional p x.mapLiterals y.mapLiterals z.mapLiterals
  | .placeholder p value => .placeholder p value
  | .star p => .star p
  | .qualifiedStar p source => .qualifiedStar p source
  | .between p x y z negated => .between p x.mapLiterals y.mapLiterals z.mapLiterals negated
  | .isNull p x negated => .isNull p x.mapLiterals negated
  | .cases p operand branches otherwise =>
    .cases p (mapOption operand) (mapWhens branches) (mapOption otherwise)
  | .cast p x target => .cast p x.mapLiterals target
  | .existence p select => .existence p select.mapLiterals
  | .subquery p select => .subquery p select.mapLiterals
  | .filter p x name args => .filter p x.mapLiterals name (mapItems args)
  | .defined p x negated => .defined p x.mapLiterals negated
  | .test p x name args negated => .test p x.mapLiterals name (mapItems args) negated

def mapOption : Option Expr → Option Expr
  | none => none
  | some e => some e.mapLiterals

def mapExprs : List Expr → List Expr
  | [] => []
  | e :: rest => e.mapLiterals :: mapExprs rest

def mapItems : List Item → List Item
  | [] => []
  | ⟨label, e⟩ :: rest => ⟨label, e.mapLiterals⟩ :: mapItems rest

def mapWhens : List When → List When
  | [] => []
  | ⟨c, e⟩ :: rest => ⟨c.mapLiterals, e.mapLiterals⟩ :: mapWhens rest

def mapProjections : List Projection → List Projection
  | [] => []
  | ⟨e, aliasName⟩ :: rest => ⟨e.mapLiterals, aliasName⟩ :: mapProjections rest

def mapJoins : List Join → List Join
  | [] => []
  | ⟨kind, source, condition, p⟩ :: rest =>
    ⟨kind, source, mapOption condition, p⟩ :: mapJoins rest

def mapOrders : List OrderItem → List OrderItem
  | [] => []
  | ⟨e, direction⟩ :: rest => ⟨e.mapLiterals, direction⟩ :: mapOrders rest

def mapLimit : Option Limit → Option Limit
  | none => none
  | some ⟨count, offset⟩ => some ⟨count.mapLiterals, mapOption offset⟩

def Select.mapLiterals : Select → Select
  | ⟨distinct, projections, sources, joins, filter, groupBy, having, orderBy, limit, p⟩ =>
    ⟨distinct, mapProjections projections, sources, mapJoins joins, mapOption filter,
      mapExprs groupBy, mapOption having, mapOrders orderBy, mapLimit limit, p⟩

end

/-! ### Without a change of literals -/

mutual

theorem Expr.mapLiterals_id : ∀ e : Expr, e.mapLiterals id = e
  | .literal .. | .identifier .. | .placeholder .. | .star _ | .qualifiedStar .. => rfl
  | .unary _ _ x | .member _ x _ | .grouped _ x | .isNull _ x _ | .cast _ x _
  | .defined _ x _ => by rw [Expr.mapLiterals, x.mapLiterals_id]
  | .binary _ _ x y | .index _ x y => by
    rw [Expr.mapLiterals, x.mapLiterals_id, y.mapLiterals_id]
  | .call _ x args _ | .filter _ x _ args | .test _ x _ args _ => by
    rw [Expr.mapLiterals, x.mapLiterals_id, mapItems_id args]
  | .slice _ x first last => by
    rw [Expr.mapLiterals, x.mapLiterals_id, mapOption_id first, mapOption_id last]
  | .list _ items => by rw [Expr.mapLiterals, mapItems_id items]
  | .conditional _ x y z | .between _ x y z _ => by
    rw [Expr.mapLiterals, x.mapLiterals_id, y.mapLiterals_id, z.mapLiterals_id]
  | .cases _ operand branches otherwise => by
    rw [Expr.mapLiterals, mapOption_id operand, mapWhens_id branches, mapOption_id otherwise]
  | .existence _ s | .subquery _ s => by rw [Expr.mapLiterals, s.mapLiterals_id]

theorem mapOption_id : ∀ o : Option Expr, mapOption id o = o
  | none => rfl
  | some e => by rw [mapOption, e.mapLiterals_id]

theorem mapExprs_id : ∀ es : List Expr, mapExprs id es = es
  | [] => rfl
  | e :: rest => by rw [mapExprs, e.mapLiterals_id, mapExprs_id rest]

theorem mapItems_id : ∀ items : List Item, mapItems id items = items
  | [] => rfl
  | ⟨_, e⟩ :: rest => by rw [mapItems, e.mapLiterals_id, mapItems_id rest]

theorem mapWhens_id : ∀ branches : List When, mapWhens id branches = branches
  | [] => rfl
  | ⟨c, e⟩ :: rest => by rw [mapWhens, c.mapLiterals_id, e.mapLiterals_id, mapWhens_id rest]

theorem mapProjections_id : ∀ ps : List Projection, mapProjections id ps = ps
  | [] => rfl
  | ⟨e, _⟩ :: rest => by rw [mapProjections, e.mapLiterals_id, mapProjections_id rest]

theorem mapJoins_id : ∀ js : List Join, mapJoins id js = js
  | [] => rfl
  | ⟨_, _, condition, _⟩ :: rest => by
    rw [mapJoins, mapOption_id condition, mapJoins_id rest]

theorem mapOrders_id : ∀ os : List OrderItem, mapOrders id os = os
  | [] => rfl
  | ⟨e, _⟩ :: rest => by rw [mapOrders, e.mapLiterals_id, mapOrders_id rest]

theorem mapLimit_id : ∀ l : Option Limit, mapLimit id l = l
  | none => rfl
  | some ⟨count, offset⟩ => by rw [mapLimit, count.mapLiterals_id, mapOption_id offset]

theorem Select.mapLiterals_id : ∀ s : Select, s.mapLiterals id = s
  | ⟨_, ps, _, js, filter, groupBy, having, orderBy, limit, _⟩ => by
    rw [Select.mapLiterals, mapProjections_id ps, mapJoins_id js, mapOption_id filter,
      mapExprs_id groupBy, mapOption_id having, mapOrders_id orderBy, mapLimit_id limit]

end

/-! ### What no change of literals touches -/

theorem Expr.position_mapLiterals (e : Expr) : (e.mapLiterals r).position = e.position := by
  cases e <;> rfl

theorem Expr.identifier?_mapLiterals (e : Expr) :
    (e.mapLiterals r).identifier? = e.identifier? := by
  cases e <;> rfl

theorem Expr.ungrouped_mapLiterals (e : Expr) :
    (e.mapLiterals r).ungrouped = e.ungrouped.mapLiterals r := by
  fun_induction Expr.ungrouped e with
  | case1 _ _ ih => rw [Expr.mapLiterals, Expr.ungrouped, ih]
  | case2 e h =>
    cases e with
    | grouped p inner => exact absurd rfl (h p inner)
    | _ => rfl

theorem mapExprs_eq_map (es : List Expr) : mapExprs r es = es.map (Expr.mapLiterals r) := by
  induction es with
  | nil => rfl
  | cons e rest ih => rw [mapExprs, List.map_cons, ih]

theorem isEmpty_mapExprs (es : List Expr) : (mapExprs r es).isEmpty = es.isEmpty := by
  cases es <;> rfl

theorem isEmpty_mapOrders : ∀ os : List OrderItem, (mapOrders r os).isEmpty = os.isEmpty
  | [] => rfl
  | ⟨_, _⟩ :: _ => rfl

theorem aliases_mapProjections : ∀ ps : List Projection,
    (mapProjections r ps).filterMap Projection.aliasName = ps.filterMap Projection.aliasName
  | [] => rfl
  | ⟨_, _⟩ :: rest => by
    rw [mapProjections, List.filterMap_cons, List.filterMap_cons, aliases_mapProjections rest]

theorem sources_mapJoins : ∀ js : List Join,
    (mapJoins r js).map Join.source = js.map Join.source
  | [] => rfl
  | ⟨_, _, _, _⟩ :: rest => by
    rw [mapJoins, List.map_cons, List.map_cons, sources_mapJoins rest]

namespace Query

theorem Scopes.typeOf_mapLiterals (q : Quotes) (scopes : Scopes) (e : Expr) :
    scopes.typeOf q (e.mapLiterals r) = scopes.typeOf q e := by
  unfold Scopes.typeOf
  rw [Expr.ungrouped_mapLiterals]
  cases e.ungrouped with
  | member p object property => simp only [Expr.mapLiterals, Expr.identifier?_mapLiterals]
  | _ => rfl

/-! ### Statements -/

def Insert.mapLiterals (s : Insert) : Insert :=
  { s with rows := s.rows.map (mapExprs r) }

def Assignment.mapLiterals (a : Assignment) : Assignment :=
  { a with value := a.value.mapLiterals r }

def Update.mapLiterals (s : Update) : Update :=
  { s with
    assignments := s.assignments.map (Assignment.mapLiterals r)
    filter := mapOption r s.filter
    limit := mapOption r s.limit }

def Delete.mapLiterals (s : Delete) : Delete :=
  { s with filter := mapOption r s.filter, limit := mapOption r s.limit }

def Statement.mapLiterals : Statement → Statement
  | .select s => .select (s.mapLiterals r)
  | .insert s => .insert (s.mapLiterals r)
  | .update s => .update (s.mapLiterals r)
  | .delete s => .delete (s.mapLiterals r)
  | .empty => .empty

theorem Statement.mapLiterals_id (s : Statement) : s.mapLiterals id = s := by
  cases s with
  | select s => rw [Statement.mapLiterals, s.mapLiterals_id]
  | insert s =>
    have h : mapExprs id = id := funext mapExprs_id
    simp [Statement.mapLiterals, Insert.mapLiterals, h]
  | update s =>
    have h : Assignment.mapLiterals id = id := by
      funext a
      simp [Assignment.mapLiterals, Expr.mapLiterals_id]
    simp [Statement.mapLiterals, Update.mapLiterals, h, mapOption_id]
  | delete s => simp [Statement.mapLiterals, Delete.mapLiterals, mapOption_id]
  | empty => rfl

end Query

end EmbeddedLang
