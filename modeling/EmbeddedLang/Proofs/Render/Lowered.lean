import EmbeddedLang.Proofs.Dictionary
import EmbeddedLang.Render.Interpretation

/-!
What lowering gives for trees without custom directives.

The instructions of a tree do not depend on what was lowered before. The macros and the parent are
added to the draft in the order in which they stand.
-/

namespace EmbeddedLang.Render

open Template

mutual

def instructions (escape : Bool) : Node → List Instruction
  | .text _ text => literalText text
  | .echo _ e raw => [.output e (escape && !raw && !endsInEscape e)]
  | .choice _ branches otherwise =>
    [.choice (armsOf escape branches) (instructionsOfOptional escape otherwise)]
  | .loop _ key value iterable filter body otherwise =>
    [.loop key value iterable filter (instructionsOfNodes escape body)
      (instructionsOfOptional escape otherwise)]
  | .assignments _ as => as.map fun a => .assign a.target a.op a.value
  | .block _ name body => [.block name (instructionsOfNodes escape body)]
  | .inclusion _ template context => [.inclusion template context]
  | .fragment _ key lifetime body => [.fragment key lifetime (instructionsOfNodes escape body)]
  | .autoescape _ enabled body => instructionsOfNodes enabled body
  | .evaluation _ e => [.evaluate e]
  | .leave _ => [.leave]
  | .proceed _ => [.proceed]
  | .parent .. | .definition .. | .tag .. | .endTag .. => []

def instructionsOfNodes (escape : Bool) : List Node → List Instruction
  | [] => []
  | n :: rest => Instruction.join (instructions escape n) (instructionsOfNodes escape rest)

def instructionsOfOptional (escape : Bool) : Option (List Node) → List Instruction
  | none => []
  | some body => instructionsOfNodes escape body

def armsOf (escape : Bool) : List Branch → List Arm
  | [] => []
  | b :: rest => armOf escape b :: armsOf escape rest

def armOf (escape : Bool) : Branch → Arm
  | ⟨condition, body⟩ => ⟨condition, instructionsOfNodes escape body⟩

end

def Body.instructions : Body → List Instruction
  | .tree escape nodes => instructionsOfNodes escape nodes
  | .compiled is => is

def Macro.definition (m : Macro) : Definition :=
  ⟨m.params, m.body.instructions⟩

def declare (macros : List (String × Macro)) (d : Dictionary Definition) : Dictionary Definition :=
  macros.foldl (fun d m => Dictionary.put m.1 m.2.definition d) d

def recordParents (names : List String) (parent : Option String) : Option String :=
  names.foldl (fun _ name => some name) parent

/-- A step of lowering that adds these macros, all of them new, and these parents. -/
def Lowers {α : Type} (run : Lowering α) (a : α) (macros : List (String × Macro))
    (parents : List String) : Prop :=
  ∀ d : Draft, (macros.map (·.1)).Nodup →
    (∀ name ∈ macros.map (·.1), Dictionary.has name d.macros = false) →
    ∃ references, run d = .ok (a, ⟨declare macros d.macros, references,
      recordParents parents d.parent⟩)

/-- Not one end of a custom directive. -/
def isBuiltIn : Node → Bool
  | .tag .. | .endTag .. => false
  | _ => true

section Rules

variable {α β : Type} {run : Lowering α} {a : α} {b : β} {macros more : List (String × Macro)}
  {parents further : List String}

theorem has_declare (name : String) (macros : List (String × Macro)) (d : Dictionary Definition) :
    Dictionary.has name (declare macros d) =
      ((macros.map (·.1)).contains name || Dictionary.has name d) := by
  induction macros generalizing d with
  | nil => rfl
  | cons m rest ih =>
    change Dictionary.has name (declare rest (Dictionary.put m.1 m.2.definition d)) = _
    rw [ih, Dictionary.has_put]
    simp only [List.map_cons, List.contains_cons]
    grind

theorem Lowers.pure (a : α) : Lowers (Pure.pure a) a [] [] := by
  intro d _ _
  exact ⟨d.references, rfl⟩

theorem Lowers.note (e : Expr) : Lowers (Template.note e) () [] [] := by
  intro d _ _
  exact ⟨_, rfl⟩

theorem Lowers.bind {f : α → Lowering β} (h : Lowers run a macros parents)
    (hf : Lowers (f a) b more further) :
    Lowers (run >>= f) b (macros ++ more) (parents ++ further) := by
  intro d hnodup hnew
  rw [List.map_append] at hnodup hnew
  obtain ⟨hfirst, hsecond, hdisjoint⟩ := List.nodup_append.mp hnodup
  obtain ⟨references, hrun⟩ := h d hfirst fun name hn => hnew name (List.mem_append_left _ hn)
  -- the names of later macros are new even after the earlier ones are declared
  have hstill : ∀ name ∈ more.map (·.1), Dictionary.has name (declare macros d.macros) = false := by
    intro name hn
    have hnot : name ∉ macros.map (·.1) := fun hm => hdisjoint name hm name hn rfl
    rw [has_declare, hnew name (List.mem_append_right _ hn)]
    simpa using hnot
  obtain ⟨references', hrun'⟩ := hf ⟨declare macros d.macros, references,
    recordParents parents d.parent⟩ hsecond hstill
  refine ⟨references', ?_⟩
  change Except.bind (run d) _ = _
  rw [hrun]
  simpa [Except.bind, declare, recordParents] using hrun'

theorem Lowers.map {f : α → β} (h : Lowers run a macros parents) :
    Lowers (do return f (← run)) (f a) macros parents := by
  have hbind := h.bind (f := fun a => Pure.pure (f a)) (.pure (f a))
  rwa [List.append_nil, List.append_nil] at hbind

theorem Lowers.notes (es : List Expr) : Lowers (es.forM Template.note) () [] [] := by
  induction es with
  | nil => exact .pure ()
  | cons e rest ih => exact (Lowers.note e).bind ih

theorem Lowers.noteInclude (e : Expr) :
    Lowers (modify fun d => d.noteInclude e) () [] [] := by
  intro d _ _
  refine ⟨(d.noteInclude e).references, ?_⟩
  change Except.ok ((), d.noteInclude e) = _
  unfold Draft.noteInclude
  split <;> rfl

theorem Lowers.parent (name : String) :
    Lowers (do modify fun d => { d with parent := some name }; return ([] : List Instruction)) []
      [] [name] := by
  intro d _ _
  exact ⟨d.references, rfl⟩

theorem Lowers.assignments (as : List Assignment) :
    Lowers (as.mapM lowerAssignment) (as.map fun a => .assign a.target a.op a.value) [] [] := by
  induction as with
  | nil => exact .pure []
  | cons a rest ih =>
    have ha : Lowers (lowerAssignment a) (.assign a.target a.op a.value) [] [] :=
      (Lowers.note a.value).bind (.pure _)
    rw [List.mapM_cons]
    exact ha.bind ih.map

/-- A macro whose name is new is added after those inside it. -/
theorem Lowers.define {escape : Bool} {body : List Node} {run : Lowering (List Instruction)}
    (h : Lowers run (instructionsOfNodes escape body) macros parents) (position : Position)
    (name : String) (params : List Param) :
    Lowers (Template.define position name params run) []
      (macros ++ [(name, ⟨params, .tree escape body⟩)]) parents := by
  intro d hnodup hnew
  have hname : Dictionary.has name d.macros = false := hnew name (by simp)
  rw [List.map_append] at hnodup hnew
  obtain ⟨references, hrun⟩ := h d (List.nodup_append.mp hnodup).1 fun other hn =>
    hnew other (List.mem_append_left _ hn)
  have hrun' : StateT.run run d = .ok (instructionsOfNodes escape body,
      ⟨declare macros d.macros, references, recordParents parents d.parent⟩) := hrun
  have hdefine : StateT.run (Template.define position name params run) d =
      (fun a => ([], { a.2 with macros := Dictionary.put name ⟨params, a.1⟩ a.2.macros })) <$>
        StateT.run run d := by
    simp [Template.define, hname]
  refine ⟨references, ?_⟩
  change StateT.run (Template.define position name params run) d = _
  rw [hdefine, hrun']
  simp only [declare, List.foldl_append]
  rfl

end Rules

def parentsIn (nodes : List Node) : List String :=
  nodes.filterMap Node.parent?

theorem parentsIn_append (ns ms : List Node) :
    parentsIn (ns ++ ms) = parentsIn ns ++ parentsIn ms :=
  List.filterMap_append

mutual

theorem lowers_node (t : ExtensionTable) (escape : Bool) : (n : Node) →
    (∀ m ∈ n.walk, isBuiltIn m) →
    ∃ run, lowerNode t escape n = .plain run ∧
      Lowers run (instructions escape n) (definitions escape n) (parentsIn n.walk)
  | .text .., _ => ⟨_, rfl, .pure _⟩
  | .echo _ e raw, _ => ⟨_, rfl, (Lowers.note e).bind (.pure _)⟩
  | .choice _ branches otherwise, h => by
    have hb := lowers_branches t escape branches fun m hm => h m (by simp [Node.walk, hm])
    have ho := lowers_optional t escape otherwise fun m hm => h m (by simp [Node.walk, hm])
    refine ⟨_, rfl, ?_⟩
    change Lowers _ _ _ (parentsIn (walkBranches branches ++ walkOptional otherwise))
    rw [parentsIn_append]
    exact hb.bind ho.map
  | .loop _ key name iterable filter body otherwise, h => by
    have hb := lowers_nodes t escape body fun m hm => h m (by simp [Node.walk, hm])
    have ho := lowers_optional t escape otherwise fun m hm => h m (by simp [Node.walk, hm])
    refine ⟨_, rfl, ?_⟩
    change Lowers _ _ _ (parentsIn (walkNodes body ++ walkOptional otherwise))
    rw [parentsIn_append]
    exact (Lowers.note iterable).bind ((Lowers.notes filter.toList).bind (hb.bind ho.map))
  | .assignments _ as, _ => ⟨_, rfl, .assignments as⟩
  | .block _ name body, h => by
    have hb := lowers_nodes t escape body fun m hm => h m (by simp [Node.walk, hm])
    exact ⟨_, rfl, hb.map⟩
  | .parent _ name, _ => ⟨_, rfl, .parent name⟩
  | .inclusion _ template context, _ =>
    ⟨_, rfl, (Lowers.note template).bind ((Lowers.noteInclude template).bind
      ((Lowers.notes context.toList).bind (.pure _)))⟩
  | .definition position name params body, h => by
    have hb := lowers_nodes t escape body fun m hm => h m (by simp [Node.walk, hm])
    exact ⟨_, rfl, hb.define position name params⟩
  | .fragment _ key lifetime body, h => by
    have hb := lowers_nodes t escape body fun m hm => h m (by simp [Node.walk, hm])
    exact ⟨_, rfl, (Lowers.note key).bind hb.map⟩
  | .autoescape _ enabled body, h => by
    have hb := lowers_nodes t enabled body fun m hm => h m (by simp [Node.walk, hm])
    exact ⟨_, rfl, hb⟩
  | .evaluation _ e, _ => ⟨_, rfl, (Lowers.note e).bind (.pure _)⟩
  | .leave _, _ => ⟨_, rfl, .pure _⟩
  | .proceed _, _ => ⟨_, rfl, .pure _⟩
  | .tag .., h => by simpa [isBuiltIn] using h _ (List.mem_singleton_self _)
  | .endTag .., h => by simpa [isBuiltIn] using h _ (List.mem_singleton_self _)

theorem lowers_nodes (t : ExtensionTable) (escape : Bool) : (ns : List Node) →
    (∀ m ∈ walkNodes ns, isBuiltIn m) →
    Lowers (runSiblings t (lowerNodes t escape ns)) (instructionsOfNodes escape ns)
      (definitionsInNodes escape ns) (parentsIn (walkNodes ns))
  | [], _ => by
    simp only [lowerNodes, runSiblings]
    exact .pure []
  | n :: rest, h => by
    obtain ⟨run, hn, hrun⟩ := lowers_node t escape n fun m hm => h m (by simp [walkNodes, hm])
    have hrest := lowers_nodes t escape rest fun m hm => h m (by simp [walkNodes, hm])
    simp only [lowerNodes, hn, runSiblings]
    rw [walkNodes, parentsIn_append]
    exact hrun.bind hrest.map

theorem lowers_optional (t : ExtensionTable) (escape : Bool) : (body : Option (List Node)) →
    (∀ m ∈ walkOptional body, isBuiltIn m) →
    Lowers (lowerOptional t escape body) (instructionsOfOptional escape body)
      (definitionsInOptional escape body) (parentsIn (walkOptional body))
  | none, _ => .pure []
  | some ns, h => lowers_nodes t escape ns h

theorem lowers_branches (t : ExtensionTable) (escape : Bool) : (bs : List Branch) →
    (∀ m ∈ walkBranches bs, isBuiltIn m) →
    Lowers (lowerBranches t escape bs) (armsOf escape bs) (definitionsInBranches escape bs)
      (parentsIn (walkBranches bs))
  | [], _ => .pure []
  | b :: rest, h => by
    have hb := lowers_branch t escape b fun m hm => h m (by simp [walkBranches, hm])
    have hrest := lowers_branches t escape rest fun m hm => h m (by simp [walkBranches, hm])
    rw [walkBranches, parentsIn_append]
    exact hb.bind hrest.map

theorem lowers_branch (t : ExtensionTable) (escape : Bool) : (b : Branch) →
    (∀ m ∈ b.walk, isBuiltIn m) →
    Lowers (lowerBranch t escape b) (armOf escape b) (definitionsInBranch escape b)
      (parentsIn b.walk)
  | ⟨condition, body⟩, h => (Lowers.note condition).bind (lowers_nodes t escape body h).map

end

end EmbeddedLang.Render
