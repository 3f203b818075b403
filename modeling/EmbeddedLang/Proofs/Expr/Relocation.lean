import EmbeddedLang.CompileError
import EmbeddedLang.Expr.Basic

/-!
Trees and errors at other places, and all the places that a tree names.
-/

namespace EmbeddedLang

section relocate

variable (f : Position → Position)

def CompileError.relocate : CompileError → CompileError
  | .unterminatedLiteral p => .unterminatedLiteral (f p)
  | .unterminatedComment p => .unterminatedComment (f p)
  | .unexpectedCharacter c p => .unexpectedCharacter c (f p)
  | .unexpectedToken p expected found => .unexpectedToken (f p) expected found
  | .unbalancedBlock p closer found => .unbalancedBlock (f p) closer found
  | .invalidConstruct p reason => .invalidConstruct (f p) reason
  | .unknownEntity name p => .unknownEntity name (f p)
  | .unknownColumn table name p => .unknownColumn table name (f p)
  | .ambiguousColumn name candidates p => .ambiguousColumn name candidates (f p)
  | .noRelationship source target p => .noRelationship source target (f p)
  | .unknownDirective name p => .unknownDirective name (f p)
  | .unsupported construct dialect p => .unsupported construct dialect (f p)
  | .abandoned fingerprint => .abandoned fingerprint

def Source.relocate (s : Source) : Source :=
  { s with position := f s.position }

mutual

def Expr.relocate : Expr → Expr
  | .literal p l => .literal (f p) l
  | .identifier p name => .identifier (f p) name
  | .unary p op x => .unary (f p) op x.relocate
  | .binary p op x y => .binary (f p) op x.relocate y.relocate
  | .call p callee args distinct => .call (f p) callee.relocate (relocateItems args) distinct
  | .member p x name => .member (f p) x.relocate name
  | .index p x y => .index (f p) x.relocate y.relocate
  | .slice p x first last => .slice (f p) x.relocate (relocateOption first) (relocateOption last)
  | .list p items => .list (f p) (relocateItems items)
  | .grouped p x => .grouped (f p) x.relocate
  | .conditional p x y z => .conditional (f p) x.relocate y.relocate z.relocate
  | .placeholder p value => .placeholder (f p) value
  | .star p => .star (f p)
  | .qualifiedStar p source => .qualifiedStar (f p) source
  | .between p x y z negated => .between (f p) x.relocate y.relocate z.relocate negated
  | .isNull p x negated => .isNull (f p) x.relocate negated
  | .cases p operand branches otherwise =>
    .cases (f p) (relocateOption operand) (relocateWhens branches) (relocateOption otherwise)
  | .cast p x target => .cast (f p) x.relocate target
  | .existence p select => .existence (f p) select.relocate
  | .subquery p select => .subquery (f p) select.relocate
  | .filter p x name args => .filter (f p) x.relocate name (relocateItems args)
  | .defined p x negated => .defined (f p) x.relocate negated
  | .test p x name args negated => .test (f p) x.relocate name (relocateItems args) negated

def relocateOption : Option Expr → Option Expr
  | none => none
  | some e => some e.relocate

def relocateExprs : List Expr → List Expr
  | [] => []
  | e :: rest => e.relocate :: relocateExprs rest

def Item.relocate : Item → Item
  | ⟨label, e⟩ => ⟨label, e.relocate⟩

def relocateItems : List Item → List Item
  | [] => []
  | item :: rest => item.relocate :: relocateItems rest

def When.relocate : When → When
  | ⟨c, e⟩ => ⟨c.relocate, e.relocate⟩

def relocateWhens : List When → List When
  | [] => []
  | branch :: rest => branch.relocate :: relocateWhens rest

def Projection.relocate : Projection → Projection
  | ⟨e, aliasName⟩ => ⟨e.relocate, aliasName⟩

def relocateProjections : List Projection → List Projection
  | [] => []
  | p :: rest => p.relocate :: relocateProjections rest

def Join.relocate : Join → Join
  | ⟨kind, source, condition, p⟩ => ⟨kind, source.relocate f, relocateOption condition, f p⟩

def relocateJoins : List Join → List Join
  | [] => []
  | join :: rest => join.relocate :: relocateJoins rest

def OrderItem.relocate : OrderItem → OrderItem
  | ⟨e, direction⟩ => ⟨e.relocate, direction⟩

def relocateOrders : List OrderItem → List OrderItem
  | [] => []
  | o :: rest => o.relocate :: relocateOrders rest

def Limit.relocate : Limit → Limit
  | ⟨count, offset⟩ => ⟨count.relocate, relocateOption offset⟩

def relocateLimit : Option Limit → Option Limit
  | none => none
  | some limit => some limit.relocate

def Select.relocate : Select → Select
  | ⟨distinct, projections, sources, joins, filter, groupBy, having, orderBy, limit, p⟩ =>
    ⟨distinct, relocateProjections projections, sources.map (Source.relocate f),
      relocateJoins joins, relocateOption filter, relocateExprs groupBy, relocateOption having,
      relocateOrders orderBy, relocateLimit limit, f p⟩

end

theorem relocateExprs_eq_map : relocateExprs f = List.map (Expr.relocate f) := by
  funext list
  induction list with
  | nil => rfl
  | cons first rest ih => rw [relocateExprs, ih, List.map_cons]

theorem relocateItems_eq_map : relocateItems f = List.map (Item.relocate f) := by
  funext list
  induction list with
  | nil => rfl
  | cons first rest ih => rw [relocateItems, ih, List.map_cons]

theorem relocateWhens_eq_map : relocateWhens f = List.map (When.relocate f) := by
  funext list
  induction list with
  | nil => rfl
  | cons first rest ih => rw [relocateWhens, ih, List.map_cons]

theorem relocateProjections_eq_map : relocateProjections f = List.map (Projection.relocate f) := by
  funext list
  induction list with
  | nil => rfl
  | cons first rest ih => rw [relocateProjections, ih, List.map_cons]

theorem relocateJoins_eq_map : relocateJoins f = List.map (Join.relocate f) := by
  funext list
  induction list with
  | nil => rfl
  | cons first rest ih => rw [relocateJoins, ih, List.map_cons]

theorem relocateOrders_eq_map : relocateOrders f = List.map (OrderItem.relocate f) := by
  funext list
  induction list with
  | nil => rfl
  | cons first rest ih => rw [relocateOrders, ih, List.map_cons]

theorem Expr.position_relocate (e : Expr) : (e.relocate f).position = f e.position := by
  cases e <;> rfl

end relocate

/-! ### Moving twice -/

section relocate_relocate

variable (f g : Position → Position)

theorem CompileError.relocate_relocate (e : CompileError) :
    (e.relocate f).relocate g = e.relocate (g ∘ f) := by
  cases e <;> rfl

mutual

theorem Expr.relocate_relocate : ∀ e : Expr, (e.relocate f).relocate g = e.relocate (g ∘ f)
  | .literal .. | .identifier .. | .placeholder .. | .star _ | .qualifiedStar .. => rfl
  | .unary _ _ x | .member _ x _ | .grouped _ x | .isNull _ x _ | .cast _ x _
  | .defined _ x _ => by simp [Expr.relocate, x.relocate_relocate]
  | .binary _ _ x y | .index _ x y => by
    simp [Expr.relocate, x.relocate_relocate, y.relocate_relocate]
  | .call _ x args _ | .filter _ x _ args | .test _ x _ args _ => by
    simp [Expr.relocate, x.relocate_relocate, relocateItems_relocateItems args]
  | .slice _ x first last => by
    simp [Expr.relocate, x.relocate_relocate, relocateOption_relocateOption first,
      relocateOption_relocateOption last]
  | .list _ items => by simp [Expr.relocate, relocateItems_relocateItems items]
  | .conditional _ x y z | .between _ x y z _ => by
    simp [Expr.relocate, x.relocate_relocate, y.relocate_relocate, z.relocate_relocate]
  | .cases _ operand branches otherwise => by
    simp [Expr.relocate, relocateOption_relocateOption operand,
      relocateWhens_relocateWhens branches, relocateOption_relocateOption otherwise]
  | .existence _ s | .subquery _ s => by simp [Expr.relocate, s.relocate_relocate]

theorem relocateOption_relocateOption : ∀ o : Option Expr,
    relocateOption g (relocateOption f o) = relocateOption (g ∘ f) o
  | none => rfl
  | some e => by simp [relocateOption, e.relocate_relocate]

theorem relocateExprs_relocateExprs : ∀ es : List Expr,
    relocateExprs g (relocateExprs f es) = relocateExprs (g ∘ f) es
  | [] => rfl
  | e :: rest => by simp [relocateExprs, e.relocate_relocate, relocateExprs_relocateExprs rest]

theorem relocateItems_relocateItems : ∀ items : List Item,
    relocateItems g (relocateItems f items) = relocateItems (g ∘ f) items
  | [] => rfl
  | ⟨_, e⟩ :: rest => by
    simp [relocateItems, Item.relocate, e.relocate_relocate, relocateItems_relocateItems rest]

theorem relocateWhens_relocateWhens : ∀ branches : List When,
    relocateWhens g (relocateWhens f branches) = relocateWhens (g ∘ f) branches
  | [] => rfl
  | ⟨c, e⟩ :: rest => by
    simp [relocateWhens, When.relocate, c.relocate_relocate, e.relocate_relocate,
      relocateWhens_relocateWhens rest]

theorem relocateProjections_relocateProjections : ∀ ps : List Projection,
    relocateProjections g (relocateProjections f ps) = relocateProjections (g ∘ f) ps
  | [] => rfl
  | ⟨e, _⟩ :: rest => by
    simp [relocateProjections, Projection.relocate, e.relocate_relocate,
      relocateProjections_relocateProjections rest]

theorem relocateJoins_relocateJoins : ∀ js : List Join,
    relocateJoins g (relocateJoins f js) = relocateJoins (g ∘ f) js
  | [] => rfl
  | ⟨_, _, condition, _⟩ :: rest => by
    simp [relocateJoins, Join.relocate, Source.relocate, relocateOption_relocateOption condition,
      relocateJoins_relocateJoins rest]

theorem relocateOrders_relocateOrders : ∀ os : List OrderItem,
    relocateOrders g (relocateOrders f os) = relocateOrders (g ∘ f) os
  | [] => rfl
  | ⟨e, _⟩ :: rest => by
    simp [relocateOrders, OrderItem.relocate, e.relocate_relocate,
      relocateOrders_relocateOrders rest]

theorem relocateLimit_relocateLimit : ∀ l : Option Limit,
    relocateLimit g (relocateLimit f l) = relocateLimit (g ∘ f) l
  | none => rfl
  | some ⟨count, offset⟩ => by
    simp [relocateLimit, Limit.relocate, count.relocate_relocate,
      relocateOption_relocateOption offset]

theorem Select.relocate_relocate : ∀ s : Select,
    (s.relocate f).relocate g = s.relocate (g ∘ f)
  | ⟨_, projections, sources, joins, filter, groupBy, having, orderBy, limit, _⟩ => by
    simp [Select.relocate, Source.relocate, relocateProjections_relocateProjections projections,
      relocateJoins_relocateJoins joins, relocateOption_relocateOption filter,
      relocateExprs_relocateExprs groupBy, relocateOption_relocateOption having,
      relocateOrders_relocateOrders orderBy, relocateLimit_relocateLimit limit]

end

end relocate_relocate

/-! ### The places that a tree names -/

mutual

def Expr.positions : Expr → List Position
  | .literal p _ | .identifier p _ | .placeholder p _ | .star p | .qualifiedStar p _ => [p]
  | .unary p _ x | .member p x _ | .grouped p x | .isNull p x _ | .cast p x _ | .defined p x _ =>
    p :: x.positions
  | .binary p _ x y | .index p x y => p :: (x.positions ++ y.positions)
  | .call p x args _ | .filter p x _ args | .test p x _ args _ =>
    p :: (x.positions ++ positionsOfItems args)
  | .slice p x first last =>
    p :: (x.positions ++ positionsOfOption first ++ positionsOfOption last)
  | .list p items => p :: positionsOfItems items
  | .conditional p x y z | .between p x y z _ => p :: (x.positions ++ y.positions ++ z.positions)
  | .cases p operand branches otherwise =>
    p :: (positionsOfOption operand ++ positionsOfWhens branches ++ positionsOfOption otherwise)
  | .existence p select | .subquery p select => p :: select.positions

def positionsOfOption : Option Expr → List Position
  | none => []
  | some e => e.positions

def positionsOfExprs : List Expr → List Position
  | [] => []
  | e :: rest => e.positions ++ positionsOfExprs rest

def positionsOfItems : List Item → List Position
  | [] => []
  | ⟨_, e⟩ :: rest => e.positions ++ positionsOfItems rest

def positionsOfWhens : List When → List Position
  | [] => []
  | ⟨c, e⟩ :: rest => c.positions ++ e.positions ++ positionsOfWhens rest

def positionsOfProjections : List Projection → List Position
  | [] => []
  | ⟨e, _⟩ :: rest => e.positions ++ positionsOfProjections rest

def positionsOfJoins : List Join → List Position
  | [] => []
  | ⟨_, source, condition, p⟩ :: rest =>
    p :: source.position :: (positionsOfOption condition ++ positionsOfJoins rest)

def positionsOfOrders : List OrderItem → List Position
  | [] => []
  | ⟨e, _⟩ :: rest => e.positions ++ positionsOfOrders rest

def positionsOfLimit : Option Limit → List Position
  | none => []
  | some ⟨count, offset⟩ => count.positions ++ positionsOfOption offset

def Select.positions : Select → List Position
  | ⟨_, projections, sources, joins, filter, groupBy, having, orderBy, limit, p⟩ =>
    p :: (positionsOfProjections projections ++ sources.map Source.position ++
      positionsOfJoins joins ++ positionsOfOption filter ++ positionsOfExprs groupBy ++
      positionsOfOption having ++ positionsOfOrders orderBy ++ positionsOfLimit limit)

end

theorem Expr.position_mem_positions (e : Expr) : e.position ∈ e.positions := by
  cases e <;> simp [Expr.position, Expr.positions]

theorem mem_positionsOfExprs {es : List Expr} {e : Expr} {p : Position} (he : e ∈ es)
    (hp : p ∈ e.positions) : p ∈ positionsOfExprs es := by
  induction es with
  | nil => cases he
  | cons e' rest ih =>
    rcases List.mem_cons.mp he with rfl | he
    · exact List.mem_append_left _ hp
    · exact List.mem_append_right _ (ih he)

theorem source_mem_positionsOfJoins {js : List Join} {join : Join} (h : join ∈ js) :
    join.source.position ∈ positionsOfJoins js := by
  induction js with
  | nil => cases h
  | cons j rest ih =>
    obtain ⟨kind, source, condition, p⟩ := j
    rcases List.mem_cons.mp h with rfl | h
    · simp [positionsOfJoins]
    · simp [positionsOfJoins, ih h]

section positions

variable (f : Position → Position)

mutual

theorem Expr.positions_relocate : ∀ e : Expr, (e.relocate f).positions = e.positions.map f
  | .literal .. | .identifier .. | .placeholder .. | .star _ | .qualifiedStar .. => rfl
  | .unary _ _ x | .member _ x _ | .grouped _ x | .isNull _ x _ | .cast _ x _
  | .defined _ x _ => by simp [Expr.relocate, Expr.positions, x.positions_relocate]
  | .binary _ _ x y | .index _ x y => by
    simp [Expr.relocate, Expr.positions, x.positions_relocate, y.positions_relocate]
  | .call _ x args _ | .filter _ x _ args | .test _ x _ args _ => by
    simp [Expr.relocate, Expr.positions, x.positions_relocate, positionsOfItems_relocate args]
  | .slice _ x first last => by
    simp [Expr.relocate, Expr.positions, x.positions_relocate, positionsOfOption_relocate first,
      positionsOfOption_relocate last]
  | .list _ items => by simp [Expr.relocate, Expr.positions, positionsOfItems_relocate items]
  | .conditional _ x y z | .between _ x y z _ => by
    simp [Expr.relocate, Expr.positions, x.positions_relocate, y.positions_relocate,
      z.positions_relocate]
  | .cases _ operand branches otherwise => by
    simp [Expr.relocate, Expr.positions, positionsOfOption_relocate operand,
      positionsOfWhens_relocate branches, positionsOfOption_relocate otherwise]
  | .existence _ s | .subquery _ s => by
    simp [Expr.relocate, Expr.positions, s.positions_relocate]

theorem positionsOfOption_relocate : ∀ o : Option Expr,
    positionsOfOption (relocateOption f o) = (positionsOfOption o).map f
  | none => rfl
  | some e => e.positions_relocate

theorem positionsOfExprs_relocate : ∀ es : List Expr,
    positionsOfExprs (relocateExprs f es) = (positionsOfExprs es).map f
  | [] => rfl
  | e :: rest => by
    simp [relocateExprs, positionsOfExprs, e.positions_relocate, positionsOfExprs_relocate rest]

theorem positionsOfItems_relocate : ∀ items : List Item,
    positionsOfItems (relocateItems f items) = (positionsOfItems items).map f
  | [] => rfl
  | ⟨_, e⟩ :: rest => by
    simp [relocateItems, Item.relocate, positionsOfItems, e.positions_relocate,
      positionsOfItems_relocate rest]

theorem positionsOfWhens_relocate : ∀ branches : List When,
    positionsOfWhens (relocateWhens f branches) = (positionsOfWhens branches).map f
  | [] => rfl
  | ⟨c, e⟩ :: rest => by
    simp [relocateWhens, When.relocate, positionsOfWhens, c.positions_relocate,
      e.positions_relocate, positionsOfWhens_relocate rest]

theorem positionsOfProjections_relocate : ∀ ps : List Projection,
    positionsOfProjections (relocateProjections f ps) = (positionsOfProjections ps).map f
  | [] => rfl
  | ⟨e, _⟩ :: rest => by
    simp [relocateProjections, Projection.relocate, positionsOfProjections, e.positions_relocate,
      positionsOfProjections_relocate rest]

theorem positionsOfJoins_relocate : ∀ js : List Join,
    positionsOfJoins (relocateJoins f js) = (positionsOfJoins js).map f
  | [] => rfl
  | ⟨_, _, condition, _⟩ :: rest => by
    simp [relocateJoins, Join.relocate, Source.relocate, positionsOfJoins,
      positionsOfOption_relocate condition, positionsOfJoins_relocate rest]

theorem positionsOfOrders_relocate : ∀ os : List OrderItem,
    positionsOfOrders (relocateOrders f os) = (positionsOfOrders os).map f
  | [] => rfl
  | ⟨e, _⟩ :: rest => by
    simp [relocateOrders, OrderItem.relocate, positionsOfOrders, e.positions_relocate,
      positionsOfOrders_relocate rest]

theorem positionsOfLimit_relocate : ∀ l : Option Limit,
    positionsOfLimit (relocateLimit f l) = (positionsOfLimit l).map f
  | none => rfl
  | some ⟨count, offset⟩ => by
    simp [relocateLimit, Limit.relocate, positionsOfLimit, count.positions_relocate,
      positionsOfOption_relocate offset]

theorem Select.positions_relocate : ∀ s : Select, (s.relocate f).positions = s.positions.map f
  | ⟨_, projections, sources, joins, filter, groupBy, having, orderBy, limit, _⟩ => by
    simp [Select.relocate, Select.positions, positionsOfProjections_relocate projections,
      positionsOfJoins_relocate joins, positionsOfOption_relocate filter,
      positionsOfExprs_relocate groupBy, positionsOfOption_relocate having,
      positionsOfOrders_relocate orderBy, positionsOfLimit_relocate limit, Source.relocate]

end

end positions

end EmbeddedLang
