import EmbeddedLang.Expr.Walk
import EmbeddedLang.Template.Extension
import EmbeddedLang.Template.Instruction
import EmbeddedLang.Template.Parsing

/-!
From trees to instructions.

Each node becomes a sibling among siblings: something that runs on its own, or one end of a custom
directive. Ends are paired among the siblings of one body only.
-/

namespace EmbeddedLang.Template

/-- What a template declares outside its instructions. -/
structure Draft where
  macros : Dictionary Definition
  references : References
  parent : Option String

def Draft.empty : Draft :=
  ⟨[], ⟨[], []⟩, none⟩

abbrev Lowering := StateT Draft (Except CompileError)

inductive Sibling where
  | plain (run : Lowering (List Instruction))
  | opening (position : Position) (name : String) (args : List Expr)
  | closing (position : Position) (name : String)

def calledFunction? : Expr → Option String
  | .call _ callee _ _ => callee.identifier?
  | _ => none

/-- Names of the functions called anywhere in an expression. -/
def calledFunctions (e : Expr) : List String :=
  e.walk.filterMap calledFunction?

def noteName (names : Dictionary Unit) (name : String) : Dictionary Unit :=
  Dictionary.put name () names

def Draft.noteCalls (d : Draft) (e : Expr) : Draft :=
  { d with references.functions := (calledFunctions e).foldl noteName d.references.functions }

def Draft.noteInclude (d : Draft) (template : Expr) : Draft :=
  match template.ungrouped with
  | .literal _ (.string name) =>
    { d with references.includes := noteName d.references.includes name }
  | _ => d

def note (e : Expr) : Lowering Unit :=
  modify (·.noteCalls e)

/-- The siblings up to the end of the directive `name`, and those after it. -/
def splitAtClosing (name : String) : (depth : Nat) → List Sibling →
    Option (List Sibling × List Sibling)
  | _, [] => none
  | depth, s :: rest =>
    match s, depth with
    | .opening _ other _, depth =>
      let depth := if other = name then depth + 1 else depth
      (splitAtClosing name depth rest).map fun (body, after) => (s :: body, after)
    | .closing _ other, 0 =>
      if other = name then some ([], rest)
      else (splitAtClosing name 0 rest).map fun (body, after) => (s :: body, after)
    | .closing _ other, depth + 1 =>
      let depth := if other = name then depth else depth + 1
      (splitAtClosing name depth rest).map fun (body, after) => (s :: body, after)
    | .plain _, depth =>
      (splitAtClosing name depth rest).map fun (body, after) => (s :: body, after)

theorem splitAtClosing_length {name : String} {depth : Nat} {all body after : List Sibling}
    (h : splitAtClosing name depth all = some (body, after)) :
    body.length + after.length < all.length := by
  induction all generalizing depth body with
  | nil => simp [splitAtClosing] at h
  | cons s rest ih =>
    have step : ∀ d, (splitAtClosing name d rest).map (fun (b, a) => (s :: b, a)) =
        some (body, after) → body.length + after.length < (s :: rest).length := by
      intro d h
      obtain ⟨⟨b, a⟩, hb, e⟩ := Option.map_eq_some_iff.1 h
      simp only [Prod.mk.injEq] at e
      obtain ⟨rfl, rfl⟩ := e
      have := ih hb
      simp only [List.length_cons]
      omega
    unfold splitAtClosing at h
    split at h
    · exact step _ h
    · split at h
      · cases h
        simp
      · exact step _ h
    · exact step _ h
    · exact step _ h

/-- Why an end directive that nothing opened is wrong. -/
def strayEnd (t : ExtensionTable) (position : Position) (name : String) : CompileError :=
  match Dictionary.get? name t with
  | some .block => .unbalancedBlock position endTemplate ("end" ++ name)
  | _ => .unknownDirective ("end" ++ name) position

/-- The instructions of a whole body. -/
def runSiblings (t : ExtensionTable) : List Sibling → Lowering (List Instruction)
  | [] => return []
  | .plain run :: rest => do
    let first ← run
    return Instruction.join first (← runSiblings t rest)
  | .closing position name :: _ => throw (strayEnd t position name)
  | .opening position name args :: rest =>
    match Dictionary.get? name t with
    | none => throw (.unknownDirective name position)
    | some .inline => do
      args.forM note
      return Instruction.join [.extension name args none] (← runSiblings t rest)
    | some .block =>
      match _split : splitAtClosing name 0 rest with
      | none => throw (.unbalancedBlock position ("end" ++ name) endTemplate)
      | some (body, after) => do
        args.forM note
        let inner ← runSiblings t body
        return Instruction.join [.extension name args (some inner)] (← runSiblings t after)
termination_by siblings => siblings.length
decreasing_by
  all_goals simp only [List.length_cons]
  · omega
  · omega
  · have := splitAtClosing_length _split; omega
  · have := splitAtClosing_length _split; omega

/-- Whether an expression is escaped already by its last filter. -/
def endsInEscape : Expr → Bool
  | .filter _ _ name _ => name == "e" || name == "escape"
  | _ => false

def literalText (text : String) : List Instruction :=
  if text.isEmpty then [] else [.literal text]

def lowerAssignment (a : Assignment) : Lowering Instruction := do
  note a.value
  return .assign a.target a.op a.value

def define (position : Position) (name : String) (params : List Param)
    (body : Lowering (List Instruction)) : Lowering (List Instruction) := do
  if Dictionary.has name (← get).macros then
    throw (.invalidConstruct position ("macro '" ++ name ++ "' is already defined"))
  let body ← body
  modify fun d => { d with macros := Dictionary.put name ⟨params, body⟩ d.macros }
  return []

mutual

def lowerNode (t : ExtensionTable) (escape : Bool) : Node → Sibling
  | .text _ text => .plain (return literalText text)
  | .echo _ e raw => .plain do
    note e
    return [.output e (escape && !raw && !endsInEscape e)]
  | .choice _ branches otherwise => .plain do
    let arms ← lowerBranches t escape branches
    let otherwise ← lowerOptional t escape otherwise
    return [.choice arms otherwise]
  | .loop _ key value iterable filter body otherwise => .plain do
    note iterable
    filter.toList.forM note
    let body ← runSiblings t (lowerNodes t escape body)
    let otherwise ← lowerOptional t escape otherwise
    return [.loop key value iterable filter body otherwise]
  | .assignments _ as => .plain (as.mapM lowerAssignment)
  | .block _ name body => .plain do
    return [.block name (← runSiblings t (lowerNodes t escape body))]
  | .parent _ template => .plain do
    modify fun d => { d with parent := some template }
    return []
  | .inclusion _ template context => .plain do
    note template
    modify (·.noteInclude template)
    context.toList.forM note
    return [.inclusion template context]
  | .definition position name params body =>
    .plain (define position name params (runSiblings t (lowerNodes t escape body)))
  | .fragment _ key lifetime body => .plain do
    note key
    return [.fragment key lifetime (← runSiblings t (lowerNodes t escape body))]
  | .autoescape _ enabled body => .plain (runSiblings t (lowerNodes t enabled body))
  | .evaluation _ e => .plain do
    note e
    return [.evaluate e]
  | .leave _ => .plain (return [.leave])
  | .proceed _ => .plain (return [.proceed])
  | .tag position name args => .opening position name args
  | .endTag position name => .closing position name

def lowerNodes (t : ExtensionTable) (escape : Bool) : List Node → List Sibling
  | [] => []
  | n :: rest => lowerNode t escape n :: lowerNodes t escape rest

def lowerOptional (t : ExtensionTable) (escape : Bool) :
    Option (List Node) → Lowering (List Instruction)
  | none => return []
  | some body => runSiblings t (lowerNodes t escape body)

def lowerBranches (t : ExtensionTable) (escape : Bool) : List Branch → Lowering (List Arm)
  | [] => return []
  | b :: rest => do
    let arm ← lowerBranch t escape b
    return arm :: (← lowerBranches t escape rest)

def lowerBranch (t : ExtensionTable) (escape : Bool) : Branch → Lowering Arm
  | ⟨condition, body⟩ => do
    note condition
    return ⟨condition, ← runSiblings t (lowerNodes t escape body)⟩

end

/-- How templates are compiled: the directives of the host, and whether output is escaped where the
template does not say. -/
structure Options where
  extensions : ExtensionTable := []
  autoescape : Bool := true

def lower (o : Options) (nodes : List Node) : Except CompileError CompiledTemplate := do
  let siblings := lowerNodes o.extensions o.autoescape nodes
  let (instructions, d) ← runSiblings o.extensions siblings Draft.empty
  return ⟨instructions, d.macros, d.parent, d.references⟩

def compile (o : Options) (source : String) : Except CompileError CompiledTemplate := do
  lower o (← parse source)

end EmbeddedLang.Template
