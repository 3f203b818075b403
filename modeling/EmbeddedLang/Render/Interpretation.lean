import EmbeddedLang.Render.Execution
import EmbeddedLang.Template.Lowering

/-!
Running trees as they are, without compiling them.

Whether output is escaped is settled by the directive around it, and macros are where they are
defined. The templates that a tree extends or includes come compiled.
-/

namespace EmbeddedLang.Render

open Template

/-- One run after the other, unless the first leaves the loop around both. -/
def inTurn (first rest : Rendering Outcome) : Rendering Outcome := do
  let first ← first
  if first.flow = .normal then
    let others ← rest
    return ⟨first.text ++ others.text, others.flow⟩
  else return first

namespace Context

variable (c : Context)

def assignAll : List Assignment → Rendering Outcome
  | [] => return .done ""
  | a :: rest => do
    c.assignTo a.target a.op a.value
    assignAll rest

mutual

/-- Runs a node where output is escaped or not. Custom directives mean nothing here. -/
def interpret (escape : Bool) : Node → Rendering Outcome
  | .text _ text => return .done text
  | .echo _ e raw => return .done (← c.output e (escape && !raw && !endsInEscape e))
  | .choice _ branches otherwise =>
    interpretBranches escape branches (interpretOptional escape otherwise)
  | .loop _ key name iterable filter body otherwise => do
    let found ← liftResult (entries (← c.value iterable))
    let found ← c.kept key name filter [] found
    if found.isEmpty then interpretOptional escape otherwise
    else return .done (← rounds key name (interpretNodes escape body) found.length 0 "" found)
  | .assignments _ as => c.assignAll as
  | .block _ name body =>
    match c.override name with
    | some other => other
    | none => interpretNodes escape body
  | .inclusion _ template context => return .done (← c.inclusion template context)
  | .fragment _ key lifetime body => c.cached key lifetime (interpretNodes escape body)
  | .autoescape _ enabled body => interpretNodes enabled body
  | .evaluation _ e => do
    let _ ← c.value e
    return .done ""
  | .leave _ => return ⟨"", .leave⟩
  | .proceed _ => return ⟨"", .proceed⟩
  | .parent .. | .definition .. | .tag .. | .endTag .. => return .done ""

def interpretNodes (escape : Bool) : List Node → Rendering Outcome
  | [] => return .done ""
  | n :: rest => inTurn (interpret escape n) (interpretNodes escape rest)

def interpretOptional (escape : Bool) : Option (List Node) → Rendering Outcome
  | none => return .done ""
  | some body => interpretNodes escape body

def interpretBranches (escape : Bool) : List Branch → Rendering Outcome → Rendering Outcome
  | [], otherwise => otherwise
  | ⟨condition, body⟩ :: rest, otherwise => do
    if (← c.value condition).isTruthy then interpretNodes escape body
    else interpretBranches escape rest otherwise

end

end Context

/-- What can be run: a tree where output is escaped or not, or what is compiled. -/
inductive Body where
  | tree (escape : Bool) (nodes : List Node)
  | compiled (instructions : List Instruction)

def Context.perform (c : Context) : Body → Rendering Outcome
  | .tree escape nodes => c.interpretNodes escape nodes
  | .compiled instructions => c.exec instructions

structure Macro where
  params : List Param
  body : Body

def Macro.ofDefinition (d : Definition) : Macro :=
  ⟨d.params, .compiled d.body⟩

mutual

/-- The macros that a node defines, wherever in it. One inside another comes first. -/
def definitions (escape : Bool) : Node → List (String × Macro)
  | .choice _ branches otherwise =>
    definitionsInBranches escape branches ++ definitionsInOptional escape otherwise
  | .loop _ _ _ _ _ body otherwise =>
    definitionsInNodes escape body ++ definitionsInOptional escape otherwise
  | .definition _ name params body =>
    definitionsInNodes escape body ++ [(name, ⟨params, .tree escape body⟩)]
  | .block _ _ body | .fragment _ _ _ body => definitionsInNodes escape body
  | .autoescape _ enabled body => definitionsInNodes enabled body
  | .text .. | .echo .. | .assignments .. | .parent .. | .inclusion .. | .evaluation .. | .leave _
  | .proceed _ | .tag .. | .endTag .. => []

def definitionsInNodes (escape : Bool) : List Node → List (String × Macro)
  | [] => []
  | n :: rest => definitions escape n ++ definitionsInNodes escape rest

def definitionsInOptional (escape : Bool) : Option (List Node) → List (String × Macro)
  | none => []
  | some body => definitionsInNodes escape body

def definitionsInBranches (escape : Bool) : List Branch → List (String × Macro)
  | [] => []
  | b :: rest => definitionsInBranch escape b ++ definitionsInBranches escape rest

def definitionsInBranch (escape : Bool) : Branch → List (String × Macro)
  | ⟨_, body⟩ => definitionsInNodes escape body

end

mutual

/-- The blocks at the top level, to which the body of an `autoescape` belongs. -/
def topBlocks (escape : Bool) : Node → List (String × Body)
  | .block _ name body => [(name, .tree escape body)]
  | .autoescape _ enabled body => topBlocksOfNodes enabled body
  | .text .. | .echo .. | .choice .. | .loop .. | .assignments .. | .parent .. | .inclusion ..
  | .definition .. | .fragment .. | .evaluation .. | .leave _ | .proceed _ | .tag .. | .endTag .. =>
    []

def topBlocksOfNodes (escape : Bool) : List Node → List (String × Body)
  | [] => []
  | n :: rest => topBlocks escape n ++ topBlocksOfNodes escape rest

end

/-- The template that a tree extends; the last one counts. -/
def extended? (nodes : List Node) : Option String :=
  ((walkNodes nodes).filterMap Node.parent?).getLast?

/-- A tree with its parents: what runs, and the macros and blocks that count. -/
structure Script where
  main : Body
  macros : Dictionary Macro
  blocks : Dictionary Body

namespace Script

def ofTree (escape : Bool) (nodes : List Node) (parents : List CompiledTemplate) : Script where
  main :=
    match parents.getLast? with
    | some t => .compiled t.instructions
    | none => .tree escape nodes
  macros := parents.foldl
    (fun d t => addMissing d (Dictionary.mapValues .ofDefinition t.macros))
    (addMissing [] (Dictionary.ofList (definitionsInNodes escape nodes)))
  blocks := parents.foldl
    (fun d t => addMissing d (Dictionary.mapValues .compiled t.blocks))
    (addMissing [] (topBlocksOfNodes escape nodes))

def macroBody (p : Script) (name : String) : Body :=
  match Dictionary.get? name p.macros with
  | some m => m.body
  | none => .compiled []

def perform (p : Script) (r : Renderer) (deeper : Option Deeper) (body : Body) :
    Rendering Outcome :=
  let surroundings : Surroundings := ⟨r, Dictionary.mapValues (·.params) p.macros, deeper⟩
  -- blocks inside a block run as they are
  let inner : Context := ⟨surroundings, fun _ => none⟩
  let outer : Context :=
    ⟨surroundings, fun name => (Dictionary.get? name p.blocks).map inner.perform⟩
  outer.perform body

def run (r : Renderer) : (depth : Nat) → Script → Body → Rendering String
  | 0, p, body => return (← p.perform r none body).text
  | depth + 1, p, body => do
    let deeper : Deeper := {
      body := fun name scope => inFreshScope scope (run r depth p (p.macroBody name))
      -- an included template comes compiled
      template := fun name scope => do
        let t ← liftResult (r.load name)
        let q ← liftResult (Program.ofTemplate r t)
        inFreshScope scope (Render.run r depth q q.main) }
    return (← p.perform r (some deeper) body).text

end Script

/-- Renders a tree. The mode of escaping is that outside of all directives that set one. -/
def renderTree (r : Renderer) (escape : Bool) (nodes : List Node) (context : Value) :
    Rendering String := do
  let scope ← liftResult (contextScope context)
  let parents ← liftResult (parentsFrom r maxParents (extended? nodes))
  let p := Script.ofTree escape nodes parents
  inFreshScope scope (p.run r r.maxDepth p.main)

end EmbeddedLang.Render
