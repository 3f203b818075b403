import EmbeddedLang.Render.Evaluation

/-!
Running the instructions of templates.

A macro body and an included template are not part of the instructions at hand, so they are run
through `Surroundings.deeper`. `run` supplies it, by recursion on how many more may be in progress.
-/

namespace EmbeddedLang.Render

open Template (CompiledTemplate Definition Instruction Arm AssignOp)
open Value

/-- How a run of instructions ends: at its end, or in the middle of a loop's body. -/
inductive Flow where
  | normal
  | leave
  | proceed
deriving DecidableEq

structure Outcome where
  text : String
  flow : Flow

def Outcome.done (text : String) : Outcome :=
  ⟨text, .normal⟩

def loopVariable (index length : Nat) : Value :=
  object (Dictionary.ofList [
    ("index", ofNat (index + 1)),
    ("index0", ofNat index),
    ("revindex", ofNat (length - index)),
    ("revindex0", ofNat (length - index - 1)),
    ("first", boolean (index == 0)),
    ("last", boolean (index + 1 == length)),
    ("length", ofNat length)])

/-- What a loop goes over, each element with its key. -/
def entries : Value → Except RenderError (List (Value × Value))
  | array items => .ok (items.mapIdx fun i v => (ofNat i, v))
  | object fields => .ok (fields.map fun (k, v) => (string k, v))
  | null => .ok []
  | v => .error (.type ("cannot iterate over " ++ v.typeName))

/-- The variables of one round of a loop. -/
def roundScope (key : Option String) (name : String) (entry : Value × Value) : Scope :=
  let scope := match key with
    | some key => Dictionary.put key entry.1 []
    | none => []
  Dictionary.put name entry.2 scope

def assignOperator : AssignOp → Option BinaryOp
  | .assign => none
  | .add => some .add
  | .sub => some .sub
  | .mul => some .mul
  | .div => some .div

/-- The value to assign; a variable without one counts as zero. -/
def updated (op : AssignOp) (current : Option Value) (v : Value) : Except RenderError Value :=
  match assignOperator op with
  | none => .ok v
  | some op =>
    match current with
    | none | some null => binary op (ofNat 0) v
    | some old => binary op old v

def included (scopes : List Scope) : Value → Except RenderError Scope
  | object extra => .ok (Dictionary.extend (flatten scopes) extra)
  | null => .ok (flatten scopes)
  | v => .error (.type ("include variables must be an object, found " ++ v.typeName))

/-- Surroundings of instructions, with the blocks that override the ones in them. -/
structure Context extends Surroundings where
  override : String → Option (Rendering Outcome)

namespace Context

variable (c : Context)

def value (e : Expr) : Rendering Value :=
  c.toSurroundings.value e

def output (e : Expr) (escape : Bool) : Rendering String := do
  let text := (← c.value e).display
  return if escape && !c.isSafe e then Text.escapeHtml text else text

def keeps (filter : Option Expr) (scope : Scope) : Rendering Bool :=
  match filter with
  | none => return true
  | some e => return (← inScope scope (c.value e)).isTruthy

/-- The entries of a loop that its filter lets through, after those in `found`, last first. -/
def kept (key : Option String) (name : String) (filter : Option Expr)
    (found : List (Value × Value)) : List (Value × Value) → Rendering (List (Value × Value))
  | [] => return found.reverse
  | entry :: rest => do
    let keep ← c.keeps filter (roundScope key name entry)
    kept key name filter (if keep then entry :: found else found) rest

/-- The rounds of a loop after `index` of them, which wrote `text`. -/
def rounds (key : Option String) (name : String) (body : Rendering Outcome) (length index : Nat)
    (text : String) : List (Value × Value) → Rendering String
  | [] => return text
  | entry :: rest => do
    let scope := Dictionary.put "loop" (loopVariable index length) (roundScope key name entry)
    let round ← inScope scope body
    let text := text ++ round.text
    if round.flow = .leave then return text
    else rounds key name body length (index + 1) text rest

def assignTo (name : String) (op : AssignOp) (e : Expr) : Rendering Unit := do
  let v ← c.value e
  let v ← liftResult (updated op (lookup? name (← get).scopes) v)
  modify fun s => { s with scopes := assign name v s.scopes }

def inclusion (template : Expr) (context : Option Expr) : Rendering String := do
  let name := (← c.value template).display
  let scopes := (← get).scopes
  let extra ← match context with
    | some e => c.value e
    | none => pure null
  let scope ← liftResult (included scopes extra)
  let deeper ← c.enter
  deeper.template name scope

/-- Text kept under a key, or else what `body` writes, which is kept then. -/
def cached (key : Expr) (lifetime : Option Nat) (body : Rendering Outcome) : Rendering Outcome := do
  let key := (← c.value key).display
  let start := (← get).now
  match ← fragment? key with
  | some text => return .done text
  | none =>
    let found ← body
    keepFragment key found.text lifetime start
    return found

def values : List Expr → Rendering (List Value)
  | [] => return []
  | e :: rest => do
    let v ← c.value e
    return v :: (← values rest)

def custom (name : String) (args : List Expr) (body : Option (Rendering Outcome)) :
    Rendering Outcome := do
  match Dictionary.get? name c.renderer.handlers with
  | none => throw (.unknownExtension name)
  | some handler =>
    let args ← c.values args
    match body with
    | none => return .done (← liftResult (handler (.ofList args) none))
    | some body =>
      let inner ← body
      return ⟨← liftResult (handler (.ofList args) (some inner.text)), inner.flow⟩

mutual

def step : Instruction → Rendering Outcome
  | .literal text => return .done text
  | .output e escape => return .done (← c.output e escape)
  | .choice branches otherwise => arms branches (exec otherwise)
  | .loop key name iterable filter body otherwise => do
    let found ← liftResult (entries (← c.value iterable))
    let found ← c.kept key name filter [] found
    if found.isEmpty then exec otherwise
    else return .done (← rounds key name (exec body) found.length 0 "" found)
  | .assign name op e => do
    c.assignTo name op e
    return .done ""
  | .evaluate e => do
    let _ ← c.value e
    return .done ""
  | .leave => return ⟨"", .leave⟩
  | .proceed => return ⟨"", .proceed⟩
  | .block name body =>
    match c.override name with
    | some other => other
    | none => exec body
  | .inclusion template context => return .done (← c.inclusion template context)
  | .fragment key lifetime body => c.cached key lifetime (exec body)
  | .extension name args body => c.custom name args (optional body)

def exec : List Instruction → Rendering Outcome
  | [] => return .done ""
  | i :: rest => do
    let first ← step i
    if first.flow = .normal then
      let others ← exec rest
      return ⟨first.text ++ others.text, others.flow⟩
    else return first

def arms : List Arm → Rendering Outcome → Rendering Outcome
  | [], otherwise => otherwise
  | ⟨condition, body⟩ :: rest, otherwise => do
    if (← c.value condition).isTruthy then exec body else arms rest otherwise

def optional : Option (List Instruction) → Option (Rendering Outcome)
  | none => none
  | some body => some (exec body)

end

end Context

/-- A template with its parents: what runs, and the macros and blocks that count. -/
structure Program where
  main : List Instruction
  macros : Dictionary Definition
  blocks : Dictionary (List Instruction)

/-- How many parents a template may have. -/
def maxParents : Nat := 16

/-- Parents from the one named on, nearest first, if there are at most `limit`. -/
def parentsFrom (r : Renderer) : (limit : Nat) → Option String →
    Except RenderError (List CompiledTemplate)
  | _, none => .ok []
  | 0, some _ => .error (.recursionLimit maxParents)
  | limit + 1, some name => do
    let parent ← r.load name
    return parent :: (← parentsFrom r limit parent.parent)

/-- Entries of `more` under names that `d` does not have. -/
def addMissing {α : Type} (d : Dictionary α) (more : List (String × α)) : Dictionary α :=
  more.foldl (fun d (name, a) => Dictionary.putNew name a d) d

/-- The last template of a chain runs, with the macros and blocks of the first that has them. -/
def Program.ofChain (first : CompiledTemplate) (parents : List CompiledTemplate) : Program :=
  let chain := first :: parents
  { main := (parents.getLast?.getD first).instructions
    macros := chain.foldl (fun d t => addMissing d t.macros) []
    blocks := chain.foldl (fun d t => addMissing d t.blocks) [] }

def Program.ofTemplate (r : Renderer) (t : CompiledTemplate) : Except RenderError Program := do
  return .ofChain t (← parentsFrom r maxParents t.parent)

/-- The parameters of each macro. -/
def signatures (macros : Dictionary Definition) : Dictionary (List Template.Param) :=
  Dictionary.mapValues (·.params) macros

/-- What a call of this macro runs; nothing if there is none. -/
def Program.macroBody (p : Program) (name : String) : List Instruction :=
  match Dictionary.get? name p.macros with
  | some m => m.body
  | none => []

/-- Runs instructions of a program. Blocks inside a block run as they are. -/
def Program.exec (p : Program) (r : Renderer) (deeper : Option Deeper)
    (instructions : List Instruction) : Rendering Outcome :=
  let surroundings : Surroundings := ⟨r, signatures p.macros, deeper⟩
  let inner : Context := ⟨surroundings, fun _ => none⟩
  let outer : Context := ⟨surroundings, fun name => (Dictionary.get? name p.blocks).map inner.exec⟩
  outer.exec instructions

/-- Runs instructions of a program, with at most `depth` macro calls and includes in progress. -/
def run (r : Renderer) : (depth : Nat) → Program → List Instruction → Rendering String
  | 0, p, instructions => return (← p.exec r none instructions).text
  | depth + 1, p, instructions => do
    let deeper : Deeper := {
      body := fun name scope => inFreshScope scope (run r depth p (p.macroBody name))
      template := fun name scope => do
        let t ← liftResult (r.load name)
        let q ← liftResult (Program.ofTemplate r t)
        inFreshScope scope (run r depth q q.main) }
    return (← p.exec r (some deeper) instructions).text

def contextScope : Value → Except RenderError Scope
  | object fields => .ok fields
  | null => .ok []
  | v => .error (.type ("render context must be an object, found " ++ v.typeName))

def renderTemplate (r : Renderer) (t : CompiledTemplate) (context : Value) : Rendering String := do
  let scope ← liftResult (contextScope context)
  let p ← liftResult (Program.ofTemplate r t)
  inFreshScope scope (run r r.maxDepth p p.main)

def renderName (r : Renderer) (name : String) (context : Value) : Rendering String := do
  renderTemplate r (← liftResult (r.load name)) context

/-- The result of rendering with the fragments kept so far, and the fragments kept after it, which
stay also when rendering fails. -/
def perform (action : Rendering String) (fragments : Dictionary Fragment) (now : Nat) :
    Except RenderError String × Dictionary Fragment :=
  match action ⟨[], fragments, now⟩ with
  | .ok text s => (.ok text, s.fragments)
  | .error e s => (.error e, s.fragments)

end EmbeddedLang.Render
