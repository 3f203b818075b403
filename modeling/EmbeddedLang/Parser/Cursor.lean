import EmbeddedLang.Lexical.Scanner

/-!
A place in the tokens of a source, and the small steps a parser takes from there.

A scan error stands behind the last token. The first look past the tokens reports it, and after
that the source counts as ended.
-/

namespace EmbeddedLang

structure Cursor where
  tokens : List Token
  fault : Option CompileError
  stop : Position

def Cursor.ofSource (t : LanguageTable) (source : String) : Cursor :=
  let found := scan t source
  ⟨found.tokens, found.fault, found.stop⟩

/-- Parsing moves a cursor, also when it fails. -/
abbrev Parse := EStateM CompileError Cursor

namespace Parse

def run? {α : Type} (p : Parse α) (c : Cursor) : Except CompileError α :=
  match p c with
  | .ok a _ => .ok a
  | .error e _ => .error e

theorem exists_of_run? {α : Type} {p : Parse α} {c : Cursor} {a : α} (h : run? p c = .ok a) :
    ∃ c', p c = .ok a c' := by
  unfold run? at h
  split at h
  · rename_i c' hp
    cases h
    exact ⟨c', hp⟩
  · cases h

/-- The token `n` places ahead. -/
def peekNth (n : Nat) : Parse (Option Token) := fun c =>
  match c.tokens[n]?, c.fault with
  | some token, _ => .ok (some token) c
  | none, none => .ok none c
  | none, some error => .error error { c with fault := none }

def peek : Parse (Option Token) :=
  peekNth 0

/-- Takes the next token. -/
def next : Parse (Option Token) := do
  let token ← peek
  modify fun c => { c with tokens := c.tokens.drop 1 }
  return token

def isEof : Parse Bool := do
  return (← peek).isNone

/-- Where the next token stands, or where the source ends. -/
def position : Parse Position := do
  match ← peek with
  | some token => return token.position
  | none => return (← get).stop

/-- The error of meeting the next token where one of `expected` should stand; a scan error ahead
is the error itself. -/
def expectedHere (expected : List String) : Parse CompileError := fun c =>
  match peek c with
  | .ok (some token) c => .ok (.unexpectedToken token.position expected token.describe) c
  | .ok none c => .ok (.unexpectedToken c.stop expected "end of input") c
  | .error error c => .ok error c

def failExpected {α : Type} (expected : List String) : Parse α := do
  throw (← expectedHere expected)

def at? (p : Token → Bool) : Parse Bool := do
  return ((← peek).map p).getD false

def eat (p : Token → Bool) : Parse Bool := do
  if ← at? p then
    let _ ← next
    return true
  else return false

def expect (p : Token → Bool) (expected : List String) : Parse Token := do
  match ← peek with
  | some token =>
    if p token then
      let _ ← next
      return token
    else failExpected expected
  | none => failExpected expected

def atKeyword (word : String) : Parse Bool :=
  at? (·.isKeyword word)

def eatKeyword (word : String) : Parse Bool :=
  eat (·.isKeyword word)

def expectKeyword (word : String) : Parse Token :=
  expect (·.isKeyword word) [word]

def atOperator (op : String) : Parse Bool :=
  at? (·.isOperator op)

def eatOperator (op : String) : Parse Bool :=
  eat (·.isOperator op)

def expectOperator (op : String) : Parse Token :=
  expect (·.isOperator op) ["'" ++ op ++ "'"]

def atKind (kind : TokenKind) : Parse Bool :=
  at? (·.kind == kind)

def expectKind (kind : TokenKind) : Parse Token :=
  expect (·.kind == kind) [kind.describe]

def atIdentifier : Parse Bool :=
  at? (·.isIdentifier)

def expectIdentifier : Parse (String × Position) := do
  let token ← expect (·.isIdentifier) ["identifier"]
  return (token.name, token.position)

/-- The text a string literal stands for. -/
def expectString (t : LanguageTable) : Parse (String × Position) := do
  let token ← expectKind .string
  return (t.unescape token.lexeme, token.position)

/-- Repeats `step` while it yields something new, at most `fuel` times. -/
def iterate {α : Type} (step : α → Parse (Option α)) : Nat → α → Parse α
  | 0, a => return a
  | fuel + 1, a => do
    match ← step a with
    | some b => iterate step fuel b
    | none => return a

/-- Repeats a step of which every success takes a token. -/
def whileSome {α : Type} (step : α → Parse (Option α)) (a : α) : Parse α := fun c =>
  iterate step (c.tokens.length + 1) a c

/-- Items with commas between them, at least one. -/
def commaSeparated {α : Type} (item : Parse α) : Parse (List α) := do
  let first ← item
  whileSome
    (fun items => do
      if ← eatOperator "," then return some (items ++ [← item]) else return none)
    [first]

end Parse

end EmbeddedLang
