import EmbeddedLang.Expr.Basic
import EmbeddedLang.Expr.Walk

/-!
An expression and everything below it, the expressions of subqueries with it.

How operators of different rank nest is a condition on each of them. A prefix operator swallows all
that it may hold, also where it stands to the right of a tighter operator. So a prefix operator is
allowed there, and what follows the whole may not be loose enough to belong to it.
-/

namespace EmbeddedLang

mutual

def Expr.nodes : Expr → List Expr
  | e@(.literal ..) | e@(.identifier ..) | e@(.placeholder ..) | e@(.star _)
  | e@(.qualifiedStar ..) => [e]
  | e@(.unary _ _ x) | e@(.member _ x _) | e@(.grouped _ x) | e@(.isNull _ x _)
  | e@(.cast _ x _) | e@(.defined _ x _) => e :: x.nodes
  | e@(.binary _ _ x y) | e@(.index _ x y) => e :: (x.nodes ++ y.nodes)
  | e@(.call _ x args _) | e@(.filter _ x _ args) | e@(.test _ x _ args _) =>
    e :: (x.nodes ++ nodesOfItems args)
  | e@(.slice _ x first last) => e :: (x.nodes ++ nodesOfOption first ++ nodesOfOption last)
  | e@(.list _ items) => e :: nodesOfItems items
  | e@(.conditional _ x y z) | e@(.between _ x y z _) => e :: (x.nodes ++ y.nodes ++ z.nodes)
  | e@(.cases _ operand branches otherwise) =>
    e :: (nodesOfOption operand ++ nodesOfWhens branches ++ nodesOfOption otherwise)
  | e@(.existence _ s) | e@(.subquery _ s) => e :: s.nodes

def nodesOfOption : Option Expr → List Expr
  | none => []
  | some e => e.nodes

def nodesOfExprs : List Expr → List Expr
  | [] => []
  | e :: rest => e.nodes ++ nodesOfExprs rest

def nodesOfItems : List Item → List Expr
  | [] => []
  | ⟨_, e⟩ :: rest => e.nodes ++ nodesOfItems rest

def nodesOfWhens : List When → List Expr
  | [] => []
  | ⟨c, e⟩ :: rest => c.nodes ++ e.nodes ++ nodesOfWhens rest

def nodesOfProjections : List Projection → List Expr
  | [] => []
  | ⟨e, _⟩ :: rest => e.nodes ++ nodesOfProjections rest

def nodesOfJoins : List Join → List Expr
  | [] => []
  | ⟨_, _, condition, _⟩ :: rest => nodesOfOption condition ++ nodesOfJoins rest

def nodesOfOrders : List OrderItem → List Expr
  | [] => []
  | ⟨e, _⟩ :: rest => e.nodes ++ nodesOfOrders rest

def nodesOfLimit : Option Limit → List Expr
  | none => []
  | some ⟨count, offset⟩ => count.nodes ++ nodesOfOption offset

def Select.nodes : Select → List Expr
  | ⟨_, projections, _, joins, filter, groupBy, having, orderBy, limit, _⟩ =>
    nodesOfProjections projections ++ nodesOfJoins joins ++ nodesOfOption filter
      ++ nodesOfExprs groupBy ++ nodesOfOption having ++ nodesOfOrders orderBy
      ++ nodesOfLimit limit

end

/-! ### What holds of all of them -/

variable {P : Expr → Prop}

theorem nodesOfExprs_eq (es : List Expr) : nodesOfExprs es = es.flatMap Expr.nodes := by
  induction es with
  | nil => rfl
  | cons e rest ih => rw [nodesOfExprs, ih, List.flatMap_cons]

theorem nodesOfItems_eq (items : List Item) :
    nodesOfItems items = items.flatMap (·.value.nodes) := by
  induction items with
  | nil => rfl
  | cons item rest ih =>
    obtain ⟨label, e⟩ := item
    rw [nodesOfItems, ih, List.flatMap_cons]

theorem nodesOfWhens_eq (branches : List When) :
    nodesOfWhens branches = branches.flatMap fun w => w.condition.nodes ++ w.result.nodes := by
  induction branches with
  | nil => rfl
  | cons w rest ih =>
    obtain ⟨condition, result⟩ := w
    rw [nodesOfWhens, ih, List.flatMap_cons]

theorem nodesOfProjections_eq (ps : List Projection) :
    nodesOfProjections ps = ps.flatMap (·.expr.nodes) := by
  induction ps with
  | nil => rfl
  | cons p rest ih =>
    obtain ⟨e, aliasName⟩ := p
    rw [nodesOfProjections, ih, List.flatMap_cons]

theorem nodesOfJoins_eq (js : List Join) :
    nodesOfJoins js = js.flatMap fun j => nodesOfOption j.condition := by
  induction js with
  | nil => rfl
  | cons j rest ih =>
    obtain ⟨kind, source, condition, position⟩ := j
    rw [nodesOfJoins, ih, List.flatMap_cons]

theorem nodesOfOrders_eq (os : List OrderItem) :
    nodesOfOrders os = os.flatMap (·.expr.nodes) := by
  induction os with
  | nil => rfl
  | cons o rest ih =>
    obtain ⟨e, direction⟩ := o
    rw [nodesOfOrders, ih, List.flatMap_cons]

theorem forall_nodesOfOption {o : Option Expr} :
    (∀ n ∈ nodesOfOption o, P n) ↔ ∀ e ∈ o, ∀ n ∈ e.nodes, P n := by
  cases o with
  | none => simp [nodesOfOption]
  | some e => simp [nodesOfOption]

theorem forall_nodesOfExprs {es : List Expr} :
    (∀ n ∈ nodesOfExprs es, P n) ↔ ∀ e ∈ es, ∀ n ∈ e.nodes, P n := by
  rw [nodesOfExprs_eq, List.forall_mem_flatMap]

theorem forall_nodesOfItems {items : List Item} :
    (∀ n ∈ nodesOfItems items, P n) ↔ ∀ item ∈ items, ∀ n ∈ item.value.nodes, P n := by
  rw [nodesOfItems_eq, List.forall_mem_flatMap]

theorem forall_nodesOfWhens {branches : List When} : (∀ n ∈ nodesOfWhens branches, P n) ↔
    ∀ w ∈ branches, (∀ n ∈ w.condition.nodes, P n) ∧ ∀ n ∈ w.result.nodes, P n := by
  simp only [nodesOfWhens_eq, List.forall_mem_flatMap, List.forall_mem_append]

theorem forall_nodesOfLimit {limit : Option Limit} : (∀ n ∈ nodesOfLimit limit, P n) ↔
    ∀ l ∈ limit, (∀ n ∈ l.count.nodes, P n) ∧ ∀ e ∈ l.offset, ∀ n ∈ e.nodes, P n := by
  cases limit with
  | none => simp [nodesOfLimit]
  | some l =>
    obtain ⟨count, offset⟩ := l
    rw [nodesOfLimit, List.forall_mem_append, forall_nodesOfOption]
    constructor
    · intro h l hl
      cases hl
      exact h
    · intro h
      exact h _ rfl

theorem forall_nodes_select {s : Select} : (∀ n ∈ s.nodes, P n) ↔
    (∀ p ∈ s.projections, ∀ n ∈ p.expr.nodes, P n) ∧
      (∀ j ∈ s.joins, ∀ e ∈ j.condition, ∀ n ∈ e.nodes, P n) ∧
      (∀ e ∈ s.filter, ∀ n ∈ e.nodes, P n) ∧ (∀ e ∈ s.groupBy, ∀ n ∈ e.nodes, P n) ∧
      (∀ e ∈ s.having, ∀ n ∈ e.nodes, P n) ∧ (∀ o ∈ s.orderBy, ∀ n ∈ o.expr.nodes, P n) ∧
      ∀ l ∈ s.limit, (∀ n ∈ l.count.nodes, P n) ∧ ∀ e ∈ l.offset, ∀ n ∈ e.nodes, P n := by
  obtain ⟨_, projections, _, joins, _, _, _, orderBy, _, _⟩ := s
  simp only [Select.nodes, nodesOfProjections_eq, nodesOfJoins_eq, nodesOfOrders_eq,
    List.forall_mem_append, List.forall_mem_flatMap, forall_nodesOfOption, forall_nodesOfExprs,
    forall_nodesOfLimit, and_assoc]

/-! ### Nodes directly below -/

/-- The expressions that stand in a select directly. -/
def Select.roots : Select → List Expr
  | ⟨_, projections, _, joins, filter, groupBy, having, orderBy, limit, _⟩ =>
    projections.map (·.expr) ++ joins.flatMap (·.condition.toList) ++ filter.toList ++ groupBy
      ++ having.toList ++ orderBy.map (·.expr)
      ++ limit.toList.flatMap fun l => l.count :: l.offset.toList

namespace Expr

/-- The operands of a node, in the order in which they are visited. Those of a subquery are not. -/
def children : Expr → List Expr
  | literal .. | identifier .. | placeholder .. | star .. | qualifiedStar .. | existence ..
  | subquery .. => []
  | unary _ _ x | member _ x _ | grouped _ x | isNull _ x _ | cast _ x _ | defined _ x _ => [x]
  | binary _ _ x y | index _ x y => [x, y]
  | call _ x args _ | filter _ x _ args | test _ x _ args _ => x :: args.map (·.value)
  | slice _ x first last => x :: (first.toList ++ last.toList)
  | list _ items => items.map (·.value)
  | conditional _ x y z | between _ x y z _ => [x, y, z]
  | cases _ operand branches otherwise =>
    operand.toList ++ (branches.flatMap (fun w => [w.condition, w.result]) ++ otherwise.toList)

/-- The operands of a node, or what stands in a subquery directly. -/
def entered : Expr → List Expr
  | existence _ s | subquery _ s => s.roots
  | e => e.children

end Expr

theorem walkOption_eq (o : Option Expr) : walkOption o = o.toList.flatMap Expr.walk := by
  cases o with
  | none => rfl
  | some e => exact (List.flatMap_singleton ..).symm

theorem walkItems_eq (items : List Item) :
    walkItems items = (items.map (·.value)).flatMap Expr.walk := by
  induction items with
  | nil => rfl
  | cons item rest ih =>
    obtain ⟨label, e⟩ := item
    rw [walkItems, ih, List.map_cons, List.flatMap_cons, Item.walk]

theorem walkWhens_eq (branches : List When) : walkWhens branches =
    (branches.flatMap fun w => [w.condition, w.result]).flatMap Expr.walk := by
  induction branches with
  | nil => rfl
  | cons w rest ih =>
    obtain ⟨condition, result⟩ := w
    rw [walkWhens, ih, When.walk]
    simp

theorem nodesOfOption_eq (o : Option Expr) : nodesOfOption o = o.toList.flatMap Expr.nodes := by
  cases o with
  | none => rfl
  | some e => exact (List.flatMap_singleton ..).symm

theorem nodesOfLimit_eq (limit : Option Limit) : nodesOfLimit limit =
    (limit.toList.flatMap fun l => l.count :: l.offset.toList).flatMap Expr.nodes := by
  cases limit with
  | none => rfl
  | some l =>
    obtain ⟨count, offset⟩ := l
    simp [nodesOfLimit, nodesOfOption_eq]

theorem Select.nodes_eq (s : Select) : s.nodes = s.roots.flatMap Expr.nodes := by
  obtain ⟨distinct, projections, sources, joins, filter, groupBy, having, orderBy, limit, p⟩ := s
  simp only [nodes, roots, nodesOfProjections_eq, nodesOfJoins_eq, nodesOfOption_eq,
    nodesOfExprs_eq, nodesOfOrders_eq, nodesOfLimit_eq, List.flatMap_append, List.flatMap_map,
    List.flatMap_assoc]

/-- A node comes before all that is below it, and its operands one after the other. -/
theorem Expr.walk_eq (e : Expr) : e.walk = e :: e.children.flatMap Expr.walk := by
  cases e <;> simp [walk, children, walkOption_eq, walkItems_eq, walkWhens_eq]

theorem Expr.nodes_eq (e : Expr) : e.nodes = e :: e.entered.flatMap Expr.nodes := by
  cases e <;> simp [nodes, entered, children, Select.nodes_eq, nodesOfOption_eq, nodesOfItems_eq,
    nodesOfWhens_eq, List.flatMap_assoc, List.flatMap_map]

/-! ### Precedence -/

namespace Expr

def isPrefix : Expr → Bool
  | unary .. => true
  | _ => false

/-- Operators of the same rank are grouped from the right. -/
def groupsRight : Expr → Bool
  | binary _ op _ _ => op == .pow
  | conditional .. => true
  | _ => false

/-- What ends where `e` ends: its last operand, the last operand of that, and so on. -/
def rightSpine : Expr → List Expr
  | e@(unary _ _ x) | e@(binary _ _ _ x) | e@(between _ _ _ x _) | e@(conditional _ _ _ x) =>
    e :: x.rightSpine
  | e => [e]

/-- The least rank to the left of an operator of rank `p`. -/
def leftLeast (e : Expr) (p : Nat) : Nat :=
  if e.groupsRight then p + 1 else p

/-- The least rank to the right of an operator of rank `p`. -/
def rightLeast (e : Expr) (p : Nat) : Nat :=
  if e.groupsRight then p else p + 1

theorem self_mem_rightSpine (e : Expr) : e ∈ e.rightSpine := by
  cases e <;> exact List.mem_cons_self

end Expr

/-- How tight the operators of a language bind; a higher rank binds tighter. The forms that
`closes` tells have no operand at their end, or a closing bracket there. -/
structure Ranks where
  rank? : Expr → Option Nat
  closes : Expr → Bool

namespace Ranks

variable (r : Ranks)

/-- `x` may stand to the left of an operator of rank `p`. -/
structure OnLeft (p least : Nat) (x : Expr) : Prop where
  tight : r.closes x ∨ ∀ q ∈ r.rank? x, least ≤ q
  spine : ∀ n ∈ x.rightSpine, n.isPrefix → ∀ q ∈ r.rank? n, p < q

/-- `x` may stand to the right of an operator. -/
def OnRight (least : Nat) (x : Expr) : Prop :=
  x.isPrefix ∨ ∀ q ∈ r.rank? x, least ≤ q

/-- The operands of `e`, an operator of rank `p`, are tight enough. -/
def NestsAt (p : Nat) (e : Expr) : Prop :=
  match e with
  | .unary _ _ x => r.OnRight p x
  | .binary _ _ x y | .conditional _ x _ y =>
    r.OnLeft p (e.leftLeast p) x ∧ r.OnRight (e.rightLeast p) y
  | .between _ x low high _ => r.OnLeft p p x ∧ r.OnRight (p + 1) low ∧ r.OnRight (p + 1) high
  | .isNull _ x _ | .defined _ x _ | .test _ x _ _ _ | .filter _ x _ _ => r.OnLeft p p x
  | _ => True

def Nests (e : Expr) : Prop :=
  ∀ p ∈ r.rank? e, r.NestsAt p e

end Ranks

end EmbeddedLang
