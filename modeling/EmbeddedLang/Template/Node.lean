import EmbeddedLang.Expr.Basic

/-!
Templates as trees: text, output and directives.
-/

namespace EmbeddedLang.Template

inductive AssignOp where
  | assign | add | sub | mul | div
deriving DecidableEq

structure Assignment where
  target : String
  op : AssignOp
  value : Expr
  position : Position

/-- A parameter of a macro. -/
structure Param where
  name : String
  default : Option Literal

mutual

/-- A directive that the language does not know is a `tag` or an `endTag`; which of them belong
together is settled when the template is lowered. -/
inductive Node where
  | text (position : Position) (text : String)
  /-- Output that is marked as safe is `raw`. -/
  | echo (position : Position) (expr : Expr) (raw : Bool)
  | choice (position : Position) (branches : List Branch) (otherwise : Option (List Node))
  | loop (position : Position) (key : Option String) (value : String) (iterable : Expr)
      (filter : Option Expr) (body : List Node) (otherwise : Option (List Node))
  | assignments (position : Position) (assignments : List Assignment)
  | block (position : Position) (name : String) (body : List Node)
  | parent (position : Position) (template : String)
  | inclusion (position : Position) (template : Expr) (context : Option Expr)
  | definition (position : Position) (name : String) (params : List Param) (body : List Node)
  /-- The lifetime is in seconds. -/
  | fragment (position : Position) (key : Expr) (lifetime : Option Nat) (body : List Node)
  | autoescape (position : Position) (enabled : Bool) (body : List Node)
  | evaluation (position : Position) (expr : Expr)
  | leave (position : Position)
  | proceed (position : Position)
  | tag (position : Position) (name : String) (args : List Expr)
  | endTag (position : Position) (name : String)

structure Branch where
  condition : Expr
  body : List Node

end

def Node.position : Node → Position
  | text p _ | echo p _ _ | choice p _ _ | loop p _ _ _ _ _ _ | assignments p _ | block p _ _
  | parent p _ | inclusion p _ _ | definition p _ _ _ | fragment p _ _ _ | autoescape p _ _
  | evaluation p _ | leave p | proceed p | tag p _ _ | endTag p _ => p

def Node.parent? : Node → Option String
  | parent _ template => some template
  | _ => none

/-- The template that a tree extends. -/
def parentOf? (nodes : List Node) : Option String :=
  nodes.findSome? Node.parent?

mutual

/-- A node and all nodes below it, outermost first and in the order of the source. -/
def Node.walk : Node → List Node
  | n@(.choice _ branches otherwise) => n :: (walkBranches branches ++ walkOptional otherwise)
  | n@(.loop _ _ _ _ _ body otherwise) => n :: (walkNodes body ++ walkOptional otherwise)
  | n@(.block _ _ body) | n@(.definition _ _ _ body) | n@(.fragment _ _ _ body)
  | n@(.autoescape _ _ body) => n :: walkNodes body
  | n@(.text ..) | n@(.echo ..) | n@(.assignments ..) | n@(.parent ..) | n@(.inclusion ..)
  | n@(.evaluation ..) | n@(.leave _) | n@(.proceed _) | n@(.tag ..) | n@(.endTag ..) => [n]

def walkNodes : List Node → List Node
  | [] => []
  | n :: rest => n.walk ++ walkNodes rest

def walkOptional : Option (List Node) → List Node
  | none => []
  | some body => walkNodes body

def walkBranches : List Branch → List Node
  | [] => []
  | b :: rest => b.walk ++ walkBranches rest

def Branch.walk : Branch → List Node
  | ⟨_, body⟩ => walkNodes body

end

theorem walkNodes_eq (nodes : List Node) : walkNodes nodes = nodes.flatMap Node.walk := by
  induction nodes with
  | nil => rfl
  | cons n rest ih => rw [walkNodes, ih, List.flatMap_cons]

theorem walkOptional_eq (otherwise : Option (List Node)) :
    walkOptional otherwise = otherwise.toList.flatMap walkNodes := by
  cases otherwise with
  | none => rfl
  | some body => exact (List.flatMap_singleton ..).symm

theorem walkBranches_eq (branches : List Branch) :
    walkBranches branches = (branches.map (·.body)).flatMap walkNodes := by
  induction branches with
  | nil => rfl
  | cons b rest ih =>
    obtain ⟨condition, body⟩ := b
    rw [walkBranches, ih, List.map_cons, List.flatMap_cons, Branch.walk]

end EmbeddedLang.Template
