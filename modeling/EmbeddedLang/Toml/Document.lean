import EmbeddedLang.Toml.Quoted

/-!
TOML documents.

Dates and arrays of tables are not known here.
-/

namespace EmbeddedLang.Toml

/-- Reads from the front of a text and leaves what follows. -/
abbrev Reading := StateT (List Char) Option

def peek : Reading (Option Char) := fun text =>
  some (text.head?, text)

def accept (c : Char) : Reading Bool := fun text =>
  match text with
  | d :: rest => some (if c == d then (true, rest) else (false, text))
  | [] => some (false, [])

def expect (c : Char) : Reading Unit := do
  guard (← accept c)

def takeWhile (p : Char → Bool) : Reading (List Char) := fun text =>
  some (text.span p)

def blanks : Reading Unit := do
  let _ ← takeWhile fun c => c == ' ' || c == '\t'

/-- Drops blanks, line breaks and comments. -/
def gapFrom (inComment : Bool) : List Char → Option (List Char)
  | [] => some []
  | '\r' :: '\n' :: rest => gapFrom false rest
  | '\n' :: rest => gapFrom false rest
  | c :: rest =>
    if inComment then if isForbidden c then none else gapFrom true rest
    else if c == '#' then gapFrom true rest
    else if c == ' ' || c == '\t' then gapFrom false rest
    else some (c :: rest)

def gap : Reading Unit := fun text =>
  (gapFrom false text).map ((), ·)

/-- Nothing but a comment may follow on a line. -/
def lineEndFrom (inComment : Bool) : List Char → Option (List Char)
  | [] => some []
  | '\r' :: '\n' :: rest => some rest
  | '\n' :: rest => some rest
  | c :: rest =>
    if inComment then if isForbidden c then none else lineEndFrom true rest
    else if c == '#' then lineEndFrom true rest
    else if c == ' ' || c == '\t' then lineEndFrom false rest
    else none

def lineEnd : Reading Unit := fun text =>
  (lineEndFrom false text).map ((), ·)

/-- One item and, as long as `more` says so, further ones. -/
def separated {α : Type} (item : Reading α) (more : Reading Bool) (text : List Char) :
    Option (List α × List Char) :=
  match item text with
  | none => none
  | some (a, rest) =>
    match more rest with
    | none => none
    | some (false, rest) => some ([a], rest)
    | some (true, rest) =>
      if rest.length < text.length then
        (separated item more rest).map fun (others, rest) => (a :: others, rest)
      else none
termination_by text.length

def isBareKey (c : Char) : Bool :=
  c.isAlphanum || c == '_' || c == '-'

def keyPart : Reading String := do
  match ← peek with
  | some '"' => quotedLine
  | some '\'' => quotedLine
  | _ =>
    let name ← takeWhile isBareKey
    guard !name.isEmpty
    return String.ofList name

def anotherPart : Reading Bool := do
  blanks
  let more ← accept '.'
  if more then blanks
  return more

/-- Names with dots between them. -/
def key : Reading Key := do
  let parts ← separated keyPart anotherPart
  return ⟨parts.dropLast, parts.getLastD ""⟩

def entry (value : Reading Item) : Reading (Key × Item) := do
  let k ← key
  expect '='
  blanks
  return (k, ← value)

/-- Whether a further item follows; a last comma may stand before the closing bracket. -/
def another (bracket : Char) : Reading Bool := do
  gap
  if ← accept ',' then
    gap
    return (← peek) != some bracket
  else return false

def items (value : Reading Item) : Reading Item := do
  gap
  if ← accept ']' then return .array []
  let all ← separated value (another ']')
  expect ']'
  return .array all

def addAll (entries : List (Key × Item)) (t : Entries) : Option Entries :=
  entries.foldlM (fun t (k, item) => addEntry k.name item k.qualifiers t) t

def fields (value : Reading Item) : Reading Item := do
  gap
  if ← accept '}' then return .table .value []
  let all ← separated (entry value) (another '}')
  expect '}'
  return .table .value (← addAll all [])

def isWord (c : Char) : Bool :=
  isBareKey c || c == '+' || c == '.'

/-- A value in which arrays and tables are nested no deeper than `depth`. -/
def value (depth : Nat) : Reading Item := do
  match ← peek with
  | some '"' => return .text (← quoted)
  | some '\'' => return .text (← quoted)
  | some '[' =>
    match depth with
    | 0 => failure
    | below + 1 => expect '['; items (value below)
  | some '{' =>
    match depth with
    | 0 => failure
    | below + 1 => expect '{'; fields (value below)
  | _ => scalar? (← takeWhile isWord)

def maxDepth : Nat := 80

inductive Statement where
  | header (key : Key)
  | entry (key : Key) (item : Item)

def statement : Reading Statement := do
  if ← accept '[' then
    blanks
    let k ← key
    expect ']'
    lineEnd
    return .header k
  else
    let (k, item) ← entry (value maxDepth)
    lineEnd
    return .entry k item

def anotherStatement : Reading Bool := do
  gap
  return (← peek).isSome

def statements : Reading (List Statement) := do
  if ← anotherStatement then separated statement anotherStatement
  else return []

/-- The tables so far, and the path of the one that is open. -/
structure Progress where
  root : Entries
  path : List String

def Progress.step (p : Progress) : Statement → Option Progress
  | .header k => (openTable k.name k.qualifiers p.root).map (⟨·, k.qualifiers ++ [k.name]⟩)
  | .entry k item =>
    (within (addEntry k.name item k.qualifiers) p.path p.root).map (⟨·, p.path⟩)

/-- A mark of the byte order may come first. -/
def skipMark : List Char → List Char
  | '\ufeff' :: rest => rest
  | text => text

/-- What a document says, if it is well formed. -/
def parse? (document : String) : Option Entries := do
  let (all, _) ← statements (skipMark document.toList)
  let p ← all.foldlM Progress.step ⟨[], []⟩
  return p.root

end EmbeddedLang.Toml
