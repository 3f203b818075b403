import EmbeddedLang.Dictionary
import EmbeddedLang.Template.Node

/-!
Compiled templates: what remains to be done when a template is rendered.

Whether output is escaped is settled here, macros stand apart, and each custom directive holds its
own body.
-/

namespace EmbeddedLang.Template

mutual

inductive Instruction where
  | literal (text : String)
  | output (expr : Expr) (escape : Bool)
  | choice (branches : List Arm) (otherwise : List Instruction)
  | loop (key : Option String) (value : String) (iterable : Expr) (filter : Option Expr)
      (body otherwise : List Instruction)
  | assign (target : String) (op : AssignOp) (value : Expr)
  | evaluate (expr : Expr)
  | leave
  | proceed
  | block (name : String) (body : List Instruction)
  | inclusion (template : Expr) (context : Option Expr)
  | fragment (key : Expr) (lifetime : Option Nat) (body : List Instruction)
  | extension (name : String) (args : List Expr) (body : Option (List Instruction))

structure Arm where
  condition : Expr
  body : List Instruction

end

mutual

/-- An instruction and all instructions below it, outermost first and in their order. -/
def Instruction.walk : Instruction → List Instruction
  | i@(.choice branches otherwise) => i :: (walkArms branches ++ walkInstructions otherwise)
  | i@(.loop _ _ _ _ body otherwise) => i :: (walkInstructions body ++ walkInstructions otherwise)
  | i@(.block _ body) | i@(.fragment _ _ body) => i :: walkInstructions body
  | i@(.extension _ _ body) => i :: walkInstructionsOf body
  | i@(.literal _) | i@(.output ..) | i@(.assign ..) | i@(.evaluate _) | i@.leave | i@.proceed
  | i@(.inclusion ..) => [i]

def walkInstructions : List Instruction → List Instruction
  | [] => []
  | i :: rest => i.walk ++ walkInstructions rest

def walkInstructionsOf : Option (List Instruction) → List Instruction
  | none => []
  | some body => walkInstructions body

def walkArms : List Arm → List Instruction
  | [] => []
  | arm :: rest => arm.walk ++ walkArms rest

def Arm.walk : Arm → List Instruction
  | ⟨_, body⟩ => walkInstructions body

end

structure Definition where
  params : List Param
  body : List Instruction

/-- Names that a template depends on, sorted. -/
structure References where
  includes : Dictionary Unit
  functions : Dictionary Unit

structure CompiledTemplate where
  instructions : List Instruction
  macros : Dictionary Definition
  parent : Option String
  references : References

/-- Instructions one after the other, with the text on both sides of the seam made one. -/
def Instruction.join : List Instruction → List Instruction → List Instruction
  | [], js => js
  | [.literal a], .literal b :: js => .literal (a ++ b) :: js
  | i :: is, js => i :: join is js

def Instruction.block? : Instruction → Option (String × List Instruction)
  | .block name body => some (name, body)
  | _ => none

namespace CompiledTemplate

/-- Whether the template can only be empty. -/
def isEmpty (t : CompiledTemplate) : Bool :=
  t.instructions.isEmpty && t.parent.isNone

/-- The blocks at the top level, in order. -/
def blocks (t : CompiledTemplate) : List (String × List Instruction) :=
  t.instructions.filterMap Instruction.block?

end CompiledTemplate

/-! ### Joining

It changes nothing but two literals at the seam, of which it makes one. -/

theorem forall_walk_cons {P : Instruction → Prop} {i : Instruction} {is : List Instruction} :
    (∀ j ∈ walkInstructions (i :: is), P j) ↔
      (∀ j ∈ i.walk, P j) ∧ ∀ j ∈ walkInstructions is, P j :=
  List.forall_mem_append

theorem forall_walk_iff {P : Instruction → Prop} {is : List Instruction} :
    (∀ j ∈ walkInstructions is, P j) ↔ ∀ i ∈ is, ∀ j ∈ i.walk, P j := by
  induction is with
  | nil => exact ⟨fun _ => nofun, fun _ => nofun⟩
  | cons i rest ih => rw [forall_walk_cons, List.forall_mem_cons, ih]

/-- What holds of literals with what follows from it holds after joining if it did before. -/
theorem forall_mem_join {P : Instruction → Prop}
    (merge : ∀ a b, P (.literal a) → P (.literal b) → P (.literal (a ++ b)))
    {is js : List Instruction} (h : ∀ i ∈ is, P i) (h' : ∀ i ∈ js, P i) :
    ∀ i ∈ Instruction.join is js, P i := by
  fun_induction Instruction.join is js with
  | case1 js => exact h'
  | case2 a b js =>
    obtain ⟨hb, hjs⟩ := List.forall_mem_cons.mp h'
    exact List.forall_mem_cons.mpr ⟨merge a b (h _ (List.mem_singleton_self _)) hb, hjs⟩
  | case3 js i is _ ih =>
    obtain ⟨hi, his⟩ := List.forall_mem_cons.mp h
    exact List.forall_mem_cons.mpr ⟨hi, ih his h'⟩

theorem forall_walk_join {P : Instruction → Prop}
    (merge : ∀ a b, P (.literal a) → P (.literal b) → P (.literal (a ++ b)))
    {is js : List Instruction} (h : ∀ i ∈ walkInstructions is, P i)
    (h' : ∀ i ∈ walkInstructions js, P i) :
    ∀ i ∈ walkInstructions (Instruction.join is js), P i := by
  rw [forall_walk_iff] at h h' ⊢
  refine forall_mem_join ?_ h h'
  intro a b ha hb i hi
  cases List.mem_singleton.mp hi
  exact merge a b (ha _ (List.mem_singleton_self _)) (hb _ (List.mem_singleton_self _))

theorem blocks_join (is js : List Instruction) :
    (Instruction.join is js).filterMap Instruction.block? =
      is.filterMap Instruction.block? ++ js.filterMap Instruction.block? := by
  fun_induction Instruction.join is js with
  | case1 js => rfl
  | case2 a b js => rfl
  | case3 js i is _ ih =>
    simp only [List.filterMap_cons, ih]
    split
    · rfl
    · rw [List.cons_append]

end EmbeddedLang.Template
