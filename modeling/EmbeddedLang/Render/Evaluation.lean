import EmbeddedLang.Render.Renderer
import EmbeddedLang.Render.Session
import EmbeddedLang.Value.Operators
import EmbeddedLang.Value.Slice

/-!
The values of expressions.

A path of names, members and subscripts may lead nowhere. Its value is then absent, which counts as
null but to the test for being defined.
-/

namespace EmbeddedLang.Render

open Value

/-- What a macro call or an include of this name runs, which are both one level deeper. -/
structure Deeper where
  body : String → Scope → Rendering String
  template : String → Scope → Rendering String

/-- Macros are known here by their parameters. Nothing is deeper where the limit is reached. -/
structure Surroundings where
  renderer : Renderer
  macros : Dictionary (List Template.Param)
  deeper : Option Deeper

namespace Surroundings

variable (c : Surroundings)

def enter : Rendering Deeper :=
  match c.deeper with
  | some d => return d
  | none => throw (.recursionLimit c.renderer.maxDepth)

/-- The variables of a macro body. -/
def frame (name : String) (args : Arguments) (index : Nat) (scope : Scope) :
    List Template.Param → Except RenderError Scope
  | [] => .ok scope
  | p :: rest =>
    match (args.get? index p.name).orElse fun _ => p.default.map ofLiteral with
    | some v => frame name args (index + 1) (Dictionary.put p.name v scope) rest
    | none => .error (.missingArgument name p.name)

/-- Calls a macro, or else a function. Whether the call can be made is settled before the arguments
are looked at. -/
def call (callee : Expr) (args : Rendering Arguments) : Rendering Value := do
  match callee.ungrouped.identifier? with
  | none => throw .notCallable
  | some name =>
    match Dictionary.get? name c.macros with
    | some params =>
      let deeper ← c.enter
      let scope ← liftResult (frame name (← args) 0 [] params)
      return string (← deeper.body name scope)
    | none =>
      match Dictionary.get? name c.renderer.functions with
      | some f => liftResult (f (← args))
      | none => throw (.unknownFunction name)

def applyFilter (name : String) (v : Value) (args : Arguments) : Rendering Value :=
  match Dictionary.get? name c.renderer.filters with
  | some f => liftResult (f v args)
  | none => throw (.unknownFilter name)

def applyTest (name : String) (v : Value) (args : Arguments) : Rendering Bool :=
  match Dictionary.get? name c.renderer.tests with
  | some f => liftResult (f v args)
  | none => throw (.unknownTest name)

/-- Elements that lack a key are numbered among themselves. -/
def keyed (next : Nat) (fields : Scope) : List (Option String × Value) → Scope
  | [] => fields
  | (some key, v) :: rest => keyed next (Dictionary.put key v fields) rest
  | (none, v) :: rest => keyed (next + 1) (Dictionary.put (toString next) v fields) rest

/-- A list without keys is an array. -/
def collection (elements : List (Option String × Value)) : Value :=
  if elements.all (·.1.isNone) then array (elements.map (·.2)) else object (keyed 0 [] elements)

def toArguments (args : List (Option String × Value)) : Arguments :=
  args.foldl (fun found (label, v) => found.add label v) .empty

def bound : Value → Rendering (Option Int)
  | null => return none
  | v =>
    match v.signed? with
    | some n => return some n
    | none => throw (.type "slice bounds must be integers")

def notInTemplates (e : Expr) : RenderError :=
  .type ("expression at " ++ e.position.describe ++ " is not supported in templates")

mutual

/-- The value of an expression, absent for a path that leads nowhere. -/
def find? : Expr → Rendering (Option Value)
  | .literal _ l => return some (ofLiteral l)
  | .identifier _ name => return lookup? name (← get).scopes
  | .unary _ op operand => do
    let v := (← find? operand).getD null
    some <$> liftResult (unary op v)
  | .binary _ op left right => do
    let l := (← find? left).getD null
    if op = .and ∧ !l.isTruthy then return some (boolean false)
    if op = .or ∧ l.isTruthy then return some (boolean true)
    let r := (← find? right).getD null
    some <$> liftResult (binary op l r)
  | .call _ callee args _ => some <$> c.call callee (toArguments <$> elements args)
  | .member _ e property => return (← find? e).bind (member? property)
  | .index _ e subscript => do
    match ← find? e with
    | none => return none
    | some v =>
      let i := (← find? subscript).getD null
      return subscript? i v
  | .slice _ e first last => do
    let v := (← find? e).getD null
    let a ← sliceBound first
    let b ← sliceBound last
    some <$> liftResult (slice a b v)
  | .list _ items => return some (collection (← elements items))
  | .grouped _ inner => find? inner
  | .conditional _ condition yes no => do
    if ((← find? condition).getD null).isTruthy then
      return some ((← find? yes).getD null)
    else return some ((← find? no).getD null)
  | .filter _ subject name args => do
    let v := (← find? subject).getD null
    let found := toArguments (← elements args)
    some <$> c.applyFilter name v found
  | .defined _ subject negated =>
    return some (boolean ((← find? subject).isSome != negated))
  | .test _ subject name args negated => do
    let v := (← find? subject).getD null
    let found := toArguments (← elements args)
    return some (boolean ((← c.applyTest name v found) != negated))
  | e@(.placeholder ..) | e@(.star ..) | e@(.qualifiedStar ..) | e@(.between ..)
  | e@(.isNull ..) | e@(.cases ..) | e@(.cast ..) | e@(.existence ..) | e@(.subquery ..) =>
    throw (notInTemplates e)

/-- The values of arguments or list elements, with their labels. -/
def elements : List Item → Rendering (List (Option String × Value))
  | [] => return []
  | item :: rest => do
    let first ← element item
    return first :: (← elements rest)

def element : Item → Rendering (Option String × Value)
  | ⟨label, e⟩ => return (label, (← find? e).getD null)

def sliceBound : Option Expr → Rendering (Option Int)
  | none => return none
  | some e => do bound ((← find? e).getD null)

end

def value (e : Expr) : Rendering Value :=
  (·.getD null) <$> c.find? e

/-- The last filters of an expression that is safe to write as it is. -/
def safeFilters : List String :=
  ["raw", "e", "escape", "nl2br"]

/-- Whether the value of an expression may be written as it is; the output of a macro may. -/
def isSafe (e : Expr) : Bool :=
  match e.ungrouped with
  | .call _ callee _ _ => (callee.identifier?.map (Dictionary.has · c.macros)).getD false
  | .filter _ _ name _ => safeFilters.contains name
  | _ => false

end Surroundings

end EmbeddedLang.Render
