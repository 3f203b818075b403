import EmbeddedLang.Position

/-!
Expressions of the query and the template language.

Both languages share operators, calls, member access, subscripts and lists. Each adds forms of its
own, which the other's compiler refuses. Every node carries the position of its first token.
-/

namespace EmbeddedLang

/-- A value as written in a source. -/
inductive Literal where
  | null
  | boolean (value : Bool)
  | integer (value : Int64)
  | float (value : Float)
  | string (value : String)

inductive BinaryOp where
  | or | and
  | eq | notEq | identical | notIdentical
  | lt | gt | ltEq | gtEq
  | like | notLike | iLike | notILike
  | in | notIn
  | add | sub | mul | div | floorDiv | mod | pow
  | concat | range
  | bitAnd | bitOr | bitXor
deriving DecidableEq

inductive UnaryOp where
  | not | neg | plus | bitNot
deriving DecidableEq

/-- The spelling used in messages, whatever a language writes. -/
def BinaryOp.name : BinaryOp → String
  | .or => "OR"
  | .and => "AND"
  | .eq => "="
  | .notEq => "<>"
  | .identical => "==="
  | .notIdentical => "!=="
  | .lt => "<"
  | .gt => ">"
  | .ltEq => "<="
  | .gtEq => ">="
  | .like => "LIKE"
  | .notLike => "NOT LIKE"
  | .iLike => "ILIKE"
  | .notILike => "NOT ILIKE"
  | .in => "IN"
  | .notIn => "NOT IN"
  | .add => "+"
  | .sub => "-"
  | .mul => "*"
  | .div => "/"
  | .floorDiv => "//"
  | .mod => "%"
  | .pow => "**"
  | .concat => "||"
  | .range => ".."
  | .bitAnd => "&"
  | .bitOr => "|"
  | .bitXor => "^"

def UnaryOp.name : UnaryOp → String
  | .not => "NOT"
  | .neg => "-"
  | .plus => "+"
  | .bitNot => "~"

/-- A parameter of a query whose value the caller supplies. -/
inductive Placeholder where
  | named (name : String)
  | numbered (index : Nat)
deriving DecidableEq

/-- A model that a statement reads from or writes to. -/
structure Source where
  model : String
  aliasName : Option String
  position : Position
deriving DecidableEq

inductive JoinKind where
  | inner | left | right | full | cross
deriving DecidableEq

inductive Direction where
  | asc | desc
deriving DecidableEq

mutual

inductive Expr where
  | literal (position : Position) (value : Literal)
  | identifier (position : Position) (name : String)
  | unary (position : Position) (op : UnaryOp) (operand : Expr)
  | binary (position : Position) (op : BinaryOp) (left right : Expr)
  | call (position : Position) (callee : Expr) (args : List Item) (distinct : Bool)
  | member (position : Position) (object : Expr) (property : String)
  | index (position : Position) (object subscript : Expr)
  | slice (position : Position) (object : Expr) (first last : Option Expr)
  | list (position : Position) (items : List Item)
  | grouped (position : Position) (inner : Expr)
  | conditional (position : Position) (condition yes no : Expr)
  -- queries
  | placeholder (position : Position) (value : Placeholder)
  | star (position : Position)
  | qualifiedStar (position : Position) (source : String)
  | between (position : Position) (subject low high : Expr) (negated : Bool)
  | isNull (position : Position) (subject : Expr) (negated : Bool)
  | cases (position : Position) (operand : Option Expr) (branches : List When)
      (otherwise : Option Expr)
  | cast (position : Position) (subject : Expr) (target : String)
  | existence (position : Position) (select : Select)
  | subquery (position : Position) (select : Select)
  -- templates
  | filter (position : Position) (subject : Expr) (name : String) (args : List Item)
  | defined (position : Position) (subject : Expr) (negated : Bool)
  | test (position : Position) (subject : Expr) (name : String) (args : List Item)
      (negated : Bool)

/-- A call argument or a list element, perhaps with a name or key. -/
structure Item where
  label : Option String
  value : Expr

structure When where
  condition : Expr
  result : Expr

structure Projection where
  expr : Expr
  aliasName : Option String

/-- Without a condition, the relationship between the models supplies one. -/
structure Join where
  kind : JoinKind
  source : Source
  condition : Option Expr
  position : Position

structure OrderItem where
  expr : Expr
  direction : Option Direction

structure Limit where
  count : Expr
  offset : Option Expr

structure Select where
  distinct : Bool
  projections : List Projection
  sources : List Source
  joins : List Join
  filter : Option Expr
  groupBy : List Expr
  having : Option Expr
  orderBy : List OrderItem
  limit : Option Limit
  position : Position

end

namespace Expr

def position : Expr → Position
  | literal p _ | identifier p _ | unary p _ _ | binary p _ _ _ | call p _ _ _ | member p _ _
  | index p _ _ | slice p _ _ _ | list p _ | grouped p _ | conditional p _ _ _
  | placeholder p _ | star p | qualifiedStar p _ | between p _ _ _ _ | isNull p _ _
  | cases p _ _ _ | cast p _ _ | existence p _ | subquery p _ | filter p _ _ _ | defined p _ _
  | test p _ _ _ _ => p

def identifier? : Expr → Option String
  | identifier _ name => some name
  | _ => none

/-- The expression inside any number of parentheses. -/
def ungrouped : Expr → Expr
  | grouped _ inner => inner.ungrouped
  | e => e

theorem ungrouped_ungrouped (e : Expr) : e.ungrouped.ungrouped = e.ungrouped := by
  fun_induction ungrouped e with
  | case1 _ _ ih => exact ih
  | case2 e h => unfold ungrouped; split <;> simp_all

end Expr

def Source.referenceName (s : Source) : String :=
  s.aliasName.getD s.model

end EmbeddedLang
