import EmbeddedLang.Proofs.Query.Parsed
import EmbeddedLang.Query.Dialect
import Mathlib.Data.List.Basic

/-!
What the operands of a statement bind, in an order of one's choice.

A statement binds its literals, but for null, and its placeholders. In the order of the tree they
come as they are written. A construct that is given more operands than it has a place for may lose
some, and the surplus is counted here.

In statements that are parsed there is no surplus in a join: a condition is read only where its kind
takes one.
-/

namespace EmbeddedLang

namespace Query

/-- How a construct puts together what each of its operands binds. -/
abbrev Order := Construct → List (List BindSource) → List BindSource

/-- The order in which a statement is written. -/
def Order.ofTree : Order := fun _ xss => xss.flatten

/-- The offset of a select before its count, and all else as it is written. -/
def Order.offsetFirst : Order
  | .limitOffset, xss => xss.reverse.flatten
  | _, xss => xss.flatten

/-- How many operands a construct has a place for; none if for any number of them. -/
def Construct.capacity? : Construct → Option Nat
  | .binary _ => some 2
  | .unary _ => some 1
  | .join .cross => some 1
  | .join _ => some 2
  | .limit => some 1
  | .limitOffset => some 2
  | .updateLimit => some 1
  | .deleteLimit => some 1
  | .function name =>
    if name ∈ ["LOWER", "UPPER", "LENGTH", "ABS"] then some 1
    else if name = "NOW" then some 0
    else none

def Construct.isFunction : Construct → Bool
  | .function _ => true
  | _ => false

def Construct.within {α : Type} (c : Construct) (operands : List α) : List α :=
  match c.capacity? with
  | some n => operands.take n
  | none => operands

/-- Operands that a construct has no place for are left out, and all that is in them. -/
def Order.withoutSurplus (o : Order) : Order := fun c xss => o c (c.within xss)

theorem Construct.within_eq {α : Type} {c : Construct} {operands : List α}
    (h : ∀ n ∈ c.capacity?, operands.length ≤ n) : c.within operands = operands := by
  unfold within
  cases hc : c.capacity? with
  | none => rfl
  | some n => exact List.take_of_length_le (h n hc)

theorem Order.withoutSurplus_eq {o : Order} {c : Construct} {xss : List (List BindSource)}
    (h : ∀ n ∈ c.capacity?, xss.length ≤ n) : o.withoutSurplus c xss = o c xss := by
  unfold withoutSurplus
  rw [c.within_eq h]

end Query

open Query

/-! ### Operands -/

/-- The name of a function in upper case, if it is called by a name. -/
def Expr.functionName (callee : Expr) : String :=
  (callee.identifier?.getD "").map Char.toUpper

theorem Expr.eq_identifier {e : Expr} {name : String} (h : e.identifier? = some name) :
    ∃ p, e = .identifier p name := by
  cases e with
  | identifier p name' =>
    cases h
    exact ⟨p, rfl⟩
  | _ => cases h

section operands

variable (o : Order)

mutual

def Expr.operands : Expr → List BindSource
  | .literal _ l => ((BindValue.ofLiteral? l).map BindSource.literal).toList
  | .placeholder _ p => [.ofPlaceholder p]
  | .identifier .. | .star _ | .qualifiedStar .. => []
  | .unary _ op x => o (.unary op) [x.operands]
  | .binary _ op x y => o (.binary op) [x.operands, y.operands]
  | .call _ callee args _ =>
    callee.operands ++ o (.function callee.functionName) (operandsOfItems args)
  | .member _ x _ | .grouped _ x | .isNull _ x _ | .cast _ x _ | .defined _ x _ => x.operands
  | .index _ x y => x.operands ++ y.operands
  | .slice _ x first last =>
    x.operands ++ (operandsOfOption first).flatten ++ (operandsOfOption last).flatten
  | .list _ items => (operandsOfItems items).flatten
  | .conditional _ x y z | .between _ x y z _ => x.operands ++ y.operands ++ z.operands
  | .cases _ operand branches otherwise =>
    (operandsOfOption operand).flatten ++ operandsOfWhens branches
      ++ (operandsOfOption otherwise).flatten
  | .existence _ s | .subquery _ s => s.operands
  | .filter _ x _ args | .test _ x _ args _ => x.operands ++ (operandsOfItems args).flatten

def operandsOfOption : Option Expr → List (List BindSource)
  | none => []
  | some e => [e.operands]

def operandsOfExprs : List Expr → List (List BindSource)
  | [] => []
  | e :: rest => e.operands :: operandsOfExprs rest

def operandsOfItems : List Item → List (List BindSource)
  | [] => []
  | ⟨_, e⟩ :: rest => e.operands :: operandsOfItems rest

def operandsOfWhens : List When → List BindSource
  | [] => []
  | ⟨c, e⟩ :: rest => c.operands ++ e.operands ++ operandsOfWhens rest

def operandsOfProjections : List Projection → List (List BindSource)
  | [] => []
  | ⟨e, _⟩ :: rest => e.operands :: operandsOfProjections rest

/-- A join has what it joins for its first operand, which binds nothing. -/
def operandsOfJoins : List Join → List BindSource
  | [] => []
  | ⟨kind, _, condition, _⟩ :: rest =>
    o (.join kind) ([] :: operandsOfOption condition) ++ operandsOfJoins rest

def operandsOfOrders : List OrderItem → List (List BindSource)
  | [] => []
  | ⟨e, _⟩ :: rest => e.operands :: operandsOfOrders rest

def operandsOfLimit : Option Limit → List BindSource
  | none => []
  | some ⟨count, offset⟩ =>
    o (if offset.isSome then .limitOffset else .limit) (count.operands :: operandsOfOption offset)

def Select.operands : Select → List BindSource
  | ⟨_, projections, _, joins, filter, groupBy, having, orderBy, limit, _⟩ =>
    (operandsOfProjections projections).flatten ++ operandsOfJoins joins
      ++ (operandsOfOption filter).flatten ++ (operandsOfExprs groupBy).flatten
      ++ (operandsOfOption having).flatten ++ (operandsOfOrders orderBy).flatten
      ++ operandsOfLimit limit

end

/-- The limit of an update or a delete. -/
def Query.operandsOfBound (c : Construct) : Option Expr → List BindSource
  | none => []
  | some e => o c [e.operands o]

def Query.Statement.operands : Query.Statement → List BindSource
  | .select s => s.operands o
  | .insert s => s.rows.flatMap fun row => (operandsOfExprs o row).flatten
  | .update s =>
    (s.assignments.flatMap fun a => a.value.operands o) ++ (operandsOfOption o s.filter).flatten
      ++ operandsOfBound o .updateLimit s.limit
  | .delete s => (operandsOfOption o s.filter).flatten ++ operandsOfBound o .deleteLimit s.limit
  | .empty => []

end operands

theorem operandsOfExprs_eq (o : Order) (es : List Expr) :
    operandsOfExprs o es = es.map (Expr.operands o) := by
  induction es with
  | nil => rfl
  | cons e rest ih => rw [operandsOfExprs, ih, List.map_cons]

/-! ### Surplus operands -/

mutual

/-- The calls and the joins of an expression, each with the number of its operands. -/
def Expr.counted : Expr → List (Construct × Nat)
  | .literal .. | .identifier .. | .placeholder .. | .star _ | .qualifiedStar .. => []
  | .unary _ _ x | .member _ x _ | .grouped _ x | .isNull _ x _ | .cast _ x _ | .defined _ x _ =>
    x.counted
  | .binary _ _ x y | .index _ x y => x.counted ++ y.counted
  | .call _ callee args _ =>
    (.function callee.functionName, args.length) :: (callee.counted ++ countedOfItems args)
  | .filter _ x _ args | .test _ x _ args _ => x.counted ++ countedOfItems args
  | .slice _ x first last => x.counted ++ countedOfOption first ++ countedOfOption last
  | .list _ items => countedOfItems items
  | .conditional _ x y z | .between _ x y z _ => x.counted ++ y.counted ++ z.counted
  | .cases _ operand branches otherwise =>
    countedOfOption operand ++ countedOfWhens branches ++ countedOfOption otherwise
  | .existence _ s | .subquery _ s => s.counted

def countedOfOption : Option Expr → List (Construct × Nat)
  | none => []
  | some e => e.counted

def countedOfExprs : List Expr → List (Construct × Nat)
  | [] => []
  | e :: rest => e.counted ++ countedOfExprs rest

def countedOfItems : List Item → List (Construct × Nat)
  | [] => []
  | ⟨_, e⟩ :: rest => e.counted ++ countedOfItems rest

def countedOfWhens : List When → List (Construct × Nat)
  | [] => []
  | ⟨c, e⟩ :: rest => c.counted ++ e.counted ++ countedOfWhens rest

def countedOfProjections : List Projection → List (Construct × Nat)
  | [] => []
  | ⟨e, _⟩ :: rest => e.counted ++ countedOfProjections rest

def countedOfJoins : List Join → List (Construct × Nat)
  | [] => []
  | ⟨kind, _, condition, _⟩ :: rest =>
    (.join kind, 1 + condition.toList.length) :: (countedOfOption condition ++ countedOfJoins rest)

def countedOfOrders : List OrderItem → List (Construct × Nat)
  | [] => []
  | ⟨e, _⟩ :: rest => e.counted ++ countedOfOrders rest

def countedOfLimit : Option Limit → List (Construct × Nat)
  | none => []
  | some ⟨count, offset⟩ => count.counted ++ countedOfOption offset

def Select.counted : Select → List (Construct × Nat)
  | ⟨_, projections, _, joins, filter, groupBy, having, orderBy, limit, _⟩ =>
    countedOfProjections projections ++ countedOfJoins joins ++ countedOfOption filter
      ++ countedOfExprs groupBy ++ countedOfOption having ++ countedOfOrders orderBy
      ++ countedOfLimit limit

end

def Query.Statement.counted : Query.Statement → List (Construct × Nat)
  | .select s => s.counted
  | .insert s => s.rows.flatMap countedOfExprs
  | .update s =>
    (s.assignments.flatMap fun a => a.value.counted) ++ countedOfOption s.filter
      ++ countedOfOption s.limit
  | .delete s => countedOfOption s.filter ++ countedOfOption s.limit
  | .empty => []

/-- There is a place for every operand. -/
def Fits (use : Construct × Nat) : Prop :=
  ∀ n ∈ use.1.capacity?, use.2 ≤ n

instance (use : Construct × Nat) : Decidable (Fits use) :=
  inferInstanceAs (Decidable (∀ n ∈ use.1.capacity?, use.2 ≤ n))

def Fit (uses : List (Construct × Nat)) : Prop :=
  ∀ use ∈ uses, Fits use

def CallsFit (uses : List (Construct × Nat)) : Prop :=
  ∀ use ∈ uses, use.1.isFunction → Fits use

/-- The uses that are not calls are joins. -/
def JoinsFit (uses : List (Construct × Nat)) : Prop :=
  ∀ use ∈ uses, ¬ use.1.isFunction → Fits use

instance (uses : List (Construct × Nat)) : Decidable (Fit uses) :=
  inferInstanceAs (Decidable (∀ use ∈ uses, _))

instance (uses : List (Construct × Nat)) : Decidable (CallsFit uses) :=
  inferInstanceAs (Decidable (∀ use ∈ uses, _))

instance (uses : List (Construct × Nat)) : Decidable (JoinsFit uses) :=
  inferInstanceAs (Decidable (∀ use ∈ uses, _))

theorem fit_of_both {uses : List (Construct × Nat)} (hc : CallsFit uses) (hj : JoinsFit uses) :
    Fit uses := by
  intro use huse
  by_cases h : use.1.isFunction
  · exact hc use huse h
  · exact hj use huse h

theorem fit_append {xs ys : List (Construct × Nat)} : Fit (xs ++ ys) ↔ Fit xs ∧ Fit ys :=
  List.forall_mem_append

theorem fit_cons {use : Construct × Nat} {uses : List (Construct × Nat)} :
    Fit (use :: uses) ↔ Fits use ∧ Fit uses :=
  List.forall_mem_cons

theorem fit_flatMap {α : Type} {xs : List α} {uses : α → List (Construct × Nat)} :
    Fit (xs.flatMap uses) ↔ ∀ x ∈ xs, Fit (uses x) :=
  List.forall_mem_flatMap

section surplus

variable {o : Order}

theorem length_operandsOfItems (items : List Item) :
    (operandsOfItems o items).length = items.length := by
  induction items with
  | nil => rfl
  | cons item rest ih =>
    obtain ⟨label, e⟩ := item
    rw [operandsOfItems, List.length_cons, List.length_cons, ih]

theorem length_operandsOfOption (e : Option Expr) :
    (operandsOfOption o e).length = e.toList.length := by
  cases e <;> rfl

/-! Where there is a place for every operand, none is left out. The induction is on the tree. -/

mutual

theorem Expr.operands_withoutSurplus : ∀ e : Expr, Fit e.counted →
    e.operands o.withoutSurplus = e.operands o
  | .literal .., _ | .identifier .., _ | .placeholder .., _ | .star _, _
  | .qualifiedStar .., _ => rfl
  | .unary _ op x, h => by
    rw [Expr.operands, Expr.operands, x.operands_withoutSurplus h]
    rfl
  | .binary _ op x y, h => by
    obtain ⟨hx, hy⟩ := fit_append.mp h
    rw [Expr.operands, Expr.operands, x.operands_withoutSurplus hx, y.operands_withoutSurplus hy]
    rfl
  | .call _ callee args _, h => by
    obtain ⟨hcall, hrest⟩ := fit_cons.mp h
    obtain ⟨hcallee, hargs⟩ := fit_append.mp hrest
    rw [Expr.operands, Expr.operands, callee.operands_withoutSurplus hcallee,
      operandsOfItems_withoutSurplus args hargs, Order.withoutSurplus_eq]
    rwa [length_operandsOfItems]
  | .member _ x _, h | .grouped _ x, h | .isNull _ x _, h | .cast _ x _, h | .defined _ x _, h => by
    rw [Expr.operands, Expr.operands, x.operands_withoutSurplus h]
  | .index _ x y, h => by
    obtain ⟨hx, hy⟩ := fit_append.mp h
    rw [Expr.operands, Expr.operands, x.operands_withoutSurplus hx, y.operands_withoutSurplus hy]
  | .slice _ x first last, h => by
    simp only [Expr.counted, fit_append] at h
    rw [Expr.operands, Expr.operands, x.operands_withoutSurplus h.1.1,
      operandsOfOption_withoutSurplus first h.1.2, operandsOfOption_withoutSurplus last h.2]
  | .list _ items, h => by
    rw [Expr.operands, Expr.operands, operandsOfItems_withoutSurplus items h]
  | .conditional _ x y z, h | .between _ x y z _, h => by
    simp only [Expr.counted, fit_append] at h
    rw [Expr.operands, Expr.operands, x.operands_withoutSurplus h.1.1,
      y.operands_withoutSurplus h.1.2, z.operands_withoutSurplus h.2]
  | .cases _ operand branches otherwise, h => by
    simp only [Expr.counted, fit_append] at h
    rw [Expr.operands, Expr.operands, operandsOfOption_withoutSurplus operand h.1.1,
      operandsOfWhens_withoutSurplus branches h.1.2, operandsOfOption_withoutSurplus otherwise h.2]
  | .existence _ s, h | .subquery _ s, h => by
    rw [Expr.operands, Expr.operands, s.operands_withoutSurplus h]
  | .filter _ x _ args, h | .test _ x _ args _, h => by
    obtain ⟨hx, hargs⟩ := fit_append.mp h
    rw [Expr.operands, Expr.operands, x.operands_withoutSurplus hx,
      operandsOfItems_withoutSurplus args hargs]

theorem operandsOfOption_withoutSurplus : ∀ e : Option Expr, Fit (countedOfOption e) →
    operandsOfOption o.withoutSurplus e = operandsOfOption o e
  | none, _ => rfl
  | some e, h => by rw [operandsOfOption, operandsOfOption, e.operands_withoutSurplus h]

theorem operandsOfExprs_withoutSurplus : ∀ es : List Expr, Fit (countedOfExprs es) →
    operandsOfExprs o.withoutSurplus es = operandsOfExprs o es
  | [], _ => rfl
  | e :: rest, h => by
    obtain ⟨he, hrest⟩ := fit_append.mp h
    rw [operandsOfExprs, operandsOfExprs, e.operands_withoutSurplus he,
      operandsOfExprs_withoutSurplus rest hrest]

theorem operandsOfItems_withoutSurplus : ∀ items : List Item, Fit (countedOfItems items) →
    operandsOfItems o.withoutSurplus items = operandsOfItems o items
  | [], _ => rfl
  | ⟨_, e⟩ :: rest, h => by
    obtain ⟨he, hrest⟩ := fit_append.mp h
    rw [operandsOfItems, operandsOfItems, e.operands_withoutSurplus he,
      operandsOfItems_withoutSurplus rest hrest]

theorem operandsOfWhens_withoutSurplus : ∀ ws : List When, Fit (countedOfWhens ws) →
    operandsOfWhens o.withoutSurplus ws = operandsOfWhens o ws
  | [], _ => rfl
  | ⟨c, e⟩ :: rest, h => by
    simp only [countedOfWhens, fit_append] at h
    rw [operandsOfWhens, operandsOfWhens, c.operands_withoutSurplus h.1.1,
      e.operands_withoutSurplus h.1.2, operandsOfWhens_withoutSurplus rest h.2]

theorem operandsOfProjections_withoutSurplus : ∀ ps : List Projection,
    Fit (countedOfProjections ps) →
      operandsOfProjections o.withoutSurplus ps = operandsOfProjections o ps
  | [], _ => rfl
  | ⟨e, _⟩ :: rest, h => by
    obtain ⟨he, hrest⟩ := fit_append.mp h
    rw [operandsOfProjections, operandsOfProjections, e.operands_withoutSurplus he,
      operandsOfProjections_withoutSurplus rest hrest]

theorem operandsOfJoins_withoutSurplus : ∀ js : List Join, Fit (countedOfJoins js) →
    operandsOfJoins o.withoutSurplus js = operandsOfJoins o js
  | [], _ => rfl
  | ⟨kind, _, condition, _⟩ :: rest, h => by
    obtain ⟨hjoin, hothers⟩ := fit_cons.mp h
    obtain ⟨hcondition, hrest⟩ := fit_append.mp hothers
    rw [operandsOfJoins, operandsOfJoins, operandsOfOption_withoutSurplus condition hcondition,
      operandsOfJoins_withoutSurplus rest hrest, Order.withoutSurplus_eq]
    rwa [List.length_cons, length_operandsOfOption, Nat.add_comm]

theorem operandsOfOrders_withoutSurplus : ∀ os : List OrderItem, Fit (countedOfOrders os) →
    operandsOfOrders o.withoutSurplus os = operandsOfOrders o os
  | [], _ => rfl
  | ⟨e, _⟩ :: rest, h => by
    obtain ⟨he, hrest⟩ := fit_append.mp h
    rw [operandsOfOrders, operandsOfOrders, e.operands_withoutSurplus he,
      operandsOfOrders_withoutSurplus rest hrest]

theorem operandsOfLimit_withoutSurplus : ∀ limit : Option Limit, Fit (countedOfLimit limit) →
    operandsOfLimit o.withoutSurplus limit = operandsOfLimit o limit
  | none, _ => rfl
  | some ⟨count, none⟩, h => by
    obtain ⟨hcount, _⟩ := fit_append.mp h
    rw [operandsOfLimit, operandsOfLimit, count.operands_withoutSurplus hcount]
    rfl
  | some ⟨count, some offset⟩, h => by
    obtain ⟨hcount, hoffset⟩ := fit_append.mp h
    rw [operandsOfLimit, operandsOfLimit, count.operands_withoutSurplus hcount,
      operandsOfOption_withoutSurplus (some offset) hoffset]
    rfl

theorem Select.operands_withoutSurplus : ∀ s : Select, Fit s.counted →
    s.operands o.withoutSurplus = s.operands o
  | ⟨_, ps, _, js, filter, groupBy, having, orderBy, limit, _⟩, h => by
    simp only [Select.counted, fit_append] at h
    obtain ⟨⟨⟨⟨⟨⟨hps, hjs⟩, hfilter⟩, hgroup⟩, hhaving⟩, horder⟩, hlimit⟩ := h
    rw [Select.operands, Select.operands, operandsOfProjections_withoutSurplus ps hps,
      operandsOfJoins_withoutSurplus js hjs, operandsOfOption_withoutSurplus filter hfilter,
      operandsOfExprs_withoutSurplus groupBy hgroup, operandsOfOption_withoutSurplus having hhaving,
      operandsOfOrders_withoutSurplus orderBy horder, operandsOfLimit_withoutSurplus limit hlimit]

end

theorem Query.operandsOfBound_withoutSurplus {c : Construct} (hc : c.capacity? = some 1)
    {bound : Option Expr} (h : Fit (countedOfOption bound)) :
    operandsOfBound o.withoutSurplus c bound = operandsOfBound o c bound := by
  cases bound with
  | none => rfl
  | some e =>
    rw [operandsOfBound, operandsOfBound, e.operands_withoutSurplus h, Order.withoutSurplus_eq]
    intro n hn
    cases hc.symm.trans hn
    exact Nat.le_refl 1

theorem Query.Statement.operands_withoutSurplus {s : Query.Statement} (h : Fit s.counted) :
    s.operands o.withoutSurplus = s.operands o := by
  cases s with
  | select s => exact s.operands_withoutSurplus h
  | insert s =>
    apply List.flatMap_congr
    intro row hrow
    rw [operandsOfExprs_withoutSurplus row (fit_flatMap.mp h row hrow)]
  | update s =>
    simp only [Query.Statement.counted, fit_append] at h
    have hvalues : (s.assignments.flatMap fun a => a.value.operands o.withoutSurplus) =
        s.assignments.flatMap fun a => a.value.operands o :=
      List.flatMap_congr fun a ha => a.value.operands_withoutSurplus (fit_flatMap.mp h.1.1 a ha)
    simp only [Query.Statement.operands, hvalues, operandsOfOption_withoutSurplus _ h.1.2,
      operandsOfBound_withoutSurplus (c := .updateLimit) rfl h.2]
  | delete s =>
    obtain ⟨hfilter, hlimit⟩ := fit_append.mp h
    simp only [Query.Statement.operands, operandsOfOption_withoutSurplus _ hfilter,
      operandsOfBound_withoutSurplus (c := .deleteLimit) rfl hlimit]
  | empty => rfl

end surplus

end EmbeddedLang

namespace EmbeddedLang.Query

/-! ### Joins in parsed statements -/

open Parse

variable {ts : List Token}

theorem joinsFit_nil : JoinsFit [] :=
  List.forall_mem_nil _

theorem joinsFit_append {xs ys : List (Construct × Nat)} :
    JoinsFit (xs ++ ys) ↔ JoinsFit xs ∧ JoinsFit ys :=
  List.forall_mem_append

theorem joinsFit_flatMap {α : Type} {xs : List α} {uses : α → List (Construct × Nat)} :
    JoinsFit (xs.flatMap uses) ↔ ∀ x ∈ xs, JoinsFit (uses x) :=
  List.forall_mem_flatMap

theorem joinsFit_call {name : String} {n : Nat} {uses : List (Construct × Nat)} :
    JoinsFit ((.function name, n) :: uses) ↔ JoinsFit uses :=
  List.forall_mem_cons.trans (and_iff_right fun h => absurd rfl h)

/-! ### Lists of trees -/

theorem joinsFit_option {e : Option Expr} :
    JoinsFit (countedOfOption e) ↔ ∀ x ∈ e, JoinsFit x.counted := by
  cases e with
  | none => simp [countedOfOption, joinsFit_nil]
  | some e => simp [countedOfOption]

theorem joinsFit_exprs {es : List Expr} :
    JoinsFit (countedOfExprs es) ↔ ∀ e ∈ es, JoinsFit e.counted := by
  induction es with
  | nil => simp [countedOfExprs, joinsFit_nil]
  | cons e rest ih => simp [countedOfExprs, joinsFit_append, ih]

theorem joinsFit_items {items : List Item} :
    JoinsFit (countedOfItems items) ↔ ∀ item ∈ items, JoinsFit item.value.counted := by
  induction items with
  | nil => simp [countedOfItems, joinsFit_nil]
  | cons item rest ih =>
    obtain ⟨label, e⟩ := item
    simp [countedOfItems, joinsFit_append, ih]

theorem joinsFit_whens {branches : List When} : JoinsFit (countedOfWhens branches) ↔
    ∀ w ∈ branches, JoinsFit w.condition.counted ∧ JoinsFit w.result.counted := by
  induction branches with
  | nil => simp [countedOfWhens, joinsFit_nil]
  | cons w rest ih =>
    obtain ⟨condition, result⟩ := w
    simp [countedOfWhens, joinsFit_append, ih, and_assoc]

theorem joinsFit_projections {ps : List Projection} :
    JoinsFit (countedOfProjections ps) ↔ ∀ p ∈ ps, JoinsFit p.expr.counted := by
  induction ps with
  | nil => simp [countedOfProjections, joinsFit_nil]
  | cons p rest ih =>
    obtain ⟨e, aliasName⟩ := p
    simp [countedOfProjections, joinsFit_append, ih]

theorem joinsFit_orders {os : List OrderItem} :
    JoinsFit (countedOfOrders os) ↔ ∀ o ∈ os, JoinsFit o.expr.counted := by
  induction os with
  | nil => simp [countedOfOrders, joinsFit_nil]
  | cons o rest ih =>
    obtain ⟨e, direction⟩ := o
    simp [countedOfOrders, joinsFit_append, ih]

theorem joinsFit_limit {limit : Option Limit} : JoinsFit (countedOfLimit limit) ↔
    ∀ l ∈ limit, JoinsFit l.count.counted ∧ ∀ e ∈ l.offset, JoinsFit e.counted := by
  cases limit with
  | none => simp [countedOfLimit, joinsFit_nil]
  | some l =>
    obtain ⟨count, offset⟩ := l
    simp [countedOfLimit, joinsFit_append, joinsFit_option]

/-- A cross join has a place for what it joins only, every other kind for a condition, too. -/
theorem fits_join {kind : JoinKind} {condition : Option Expr}
    (h : kind = .cross → condition = none) :
    Fits (.join kind, 1 + condition.toList.length) := by
  intro n hn
  cases kind <;> cases hn <;> cases condition <;> simp_all

theorem joinsFit_joins {js : List Join} (h : ∀ j ∈ js,
      (j.kind = .cross → j.condition = none) ∧ ∀ e ∈ j.condition, JoinsFit e.counted) :
    JoinsFit (countedOfJoins js) := by
  induction js with
  | nil => exact joinsFit_nil
  | cons j rest ih =>
    obtain ⟨kind, source, condition, position⟩ := j
    obtain ⟨⟨hcross, hcondition⟩, hrest⟩ := List.forall_mem_cons.mp h
    refine List.forall_mem_cons.mpr ⟨fun _ => fits_join hcross, ?_⟩
    exact joinsFit_append.mpr ⟨joinsFit_option.mpr hcondition, ih hrest⟩

/-! ### Parsing -/

/-- Trees whose joins have a place for their operands. -/
def fitted : Hereditary where
  Holds e := JoinsFit e.counted
  HoldsSelect s := JoinsFit s.counted
  CastType _ := True
  literal _ _ := joinsFit_nil
  identifier _ _ := joinsFit_nil
  unary _ _ hx := hx
  binary _ _ hx hy := joinsFit_append.mpr ⟨hx, hy⟩
  call _ _ hc ha := joinsFit_call.mpr (joinsFit_append.mpr ⟨hc, joinsFit_items.mpr ha⟩)
  member _ _ hx := hx
  index _ hx hy := joinsFit_append.mpr ⟨hx, hy⟩
  slice _ hx hf hl :=
    joinsFit_append.mpr ⟨joinsFit_append.mpr ⟨hx, joinsFit_option.mpr hf⟩, joinsFit_option.mpr hl⟩
  list _ h := joinsFit_items.mpr h
  grouped _ hx := hx
  placeholder _ _ := joinsFit_nil
  star _ := joinsFit_nil
  qualifiedStar _ _ := joinsFit_nil
  between _ _ hx hl hh := joinsFit_append.mpr ⟨joinsFit_append.mpr ⟨hx, hl⟩, hh⟩
  isNull _ _ hx := hx
  cases _ ho hb he :=
    joinsFit_append.mpr ⟨joinsFit_append.mpr ⟨joinsFit_option.mpr ho, joinsFit_whens.mpr hb⟩,
      joinsFit_option.mpr he⟩
  cast _ hx _ := hx
  existence _ hs := hs
  subquery _ hs := hs
  select {s} hp hj hf hg hh ho hl := by
    obtain ⟨_, _, _, _, _, _, _, _, _, _⟩ := s
    simp only [Select.counted, joinsFit_append]
    exact ⟨⟨⟨⟨⟨⟨joinsFit_projections.mpr hp, joinsFit_joins hj⟩, joinsFit_option.mpr hf⟩,
      joinsFit_exprs.mpr hg⟩, joinsFit_option.mpr hh⟩, joinsFit_orders.mpr ho⟩,
      joinsFit_limit.mpr hl⟩

/-- The joins of a statement that is parsed have a place for their operands. -/
theorem parse_joinsFit {source : String} {s : Statement} (h : parse source = .ok s) :
    JoinsFit s.counted := by
  have hs := parse_holds (I := fitted) castTarget_passes h
  cases s with
  | select s => exact hs
  | insert s => exact joinsFit_flatMap.mpr fun row hrow => joinsFit_exprs.mpr (hs row hrow)
  | update s =>
    obtain ⟨ha, hf, hl⟩ := hs
    exact joinsFit_append.mpr ⟨joinsFit_append.mpr ⟨joinsFit_flatMap.mpr ha,
      joinsFit_option.mpr hf⟩, joinsFit_option.mpr hl⟩
  | delete s => exact joinsFit_append.mpr ⟨joinsFit_option.mpr hs.1, joinsFit_option.mpr hs.2⟩
  | empty => exact joinsFit_nil

end EmbeddedLang.Query
