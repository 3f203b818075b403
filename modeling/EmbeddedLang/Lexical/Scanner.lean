import EmbeddedLang.CompileError
import EmbeddedLang.Lexical.LanguageTable
import EmbeddedLang.Lexical.Token
import EmbeddedLang.Text.Blank

/-!
Cutting a source text into tokens.

The rules only measure: each says how many characters the text ahead gives to a token. One
function, `Scanner.cut`, takes that many characters for the lexeme, so a lexeme is always the
exact piece of source at its position.
-/

namespace EmbeddedLang

/-! ### Measures -/

def isWordStart (c : Char) : Bool :=
  c.isAlpha || c == '_'

def isWordChar (c : Char) : Bool :=
  c.isAlphanum || c == '_'

def runLength (p : Char → Bool) (rest : List Char) : Nat :=
  (rest.takeWhile p).length

/-- Length of a string after its opening quote, the closing quote included. -/
def stringLength (escape : Option Char) (quote : Char) : List Char → Option Nat
  | [] => none
  | c :: rest =>
    if some c = escape then
      match rest with
      | [] => none
      | _ :: rest => (stringLength escape quote rest).map (· + 2)
    else if c = quote then some 1
    else (stringLength escape quote rest).map (· + 1)

def fractionLength : List Char → Nat
  | '.' :: rest =>
    let digits := runLength Char.isDigit rest
    if digits = 0 then 0 else 1 + digits
  | _ => 0

def signLength : List Char → Nat
  | '+' :: _ | '-' :: _ => 1
  | _ => 0

def exponentLength : List Char → Nat
  | c :: rest =>
    if c = 'e' ∨ c = 'E' then
      let digits := runLength Char.isDigit (rest.drop (signLength rest))
      if digits = 0 then 0 else 1 + signLength rest + digits
    else 0
  | [] => 0

def numberLength (rest : List Char) : TokenKind × Nat :=
  let whole := runLength Char.isDigit rest
  let fraction := fractionLength (rest.drop whole)
  let exponent := exponentLength (rest.drop (whole + fraction))
  (if fraction = 0 ∧ exponent = 0 then .integer else .float, whole + fraction + exponent)

/-- `:name:` or `?` and digits. -/
def placeholderLength : List Char → Option Nat
  | ':' :: rest =>
    if (rest.head?.map isWordStart).getD false then
      let word := runLength isWordChar rest
      if (rest.drop word).head? = some ':' then some (word + 2) else none
    else none
  | '?' :: rest =>
    let digits := runLength Char.isDigit rest
    if digits = 0 then none else some (1 + digits)
  | _ => none

/-- What the text ahead gives: a token, a quoted piece whose end is missing, of which so many
characters were read, or nothing. -/
inductive Reading where
  | token (kind : TokenKind) (length : Nat)
  | unterminated (length : Nat)
  | unexpected (character : Char)

def readString (escape : Option Char) (quote : Char) (rest : List Char) : Reading :=
  match stringLength escape quote rest with
  | some n => .token .string (1 + n)
  | none => .unterminated (1 + rest.length)

/-- A bracketed name ends on its own line. -/
def readBracketed (rest : List Char) : Reading :=
  let inner := runLength (fun c => c != ']' && c != '\n') rest
  match (rest.drop inner).head? with
  | some ']' => .token .quotedIdentifier (inner + 2)
  | some _ => .unterminated (inner + 2)
  | none => .unterminated (inner + 1)

def readWord (t : LanguageTable) (rest : List Char) : Reading :=
  let word := rest.takeWhile isWordChar
  match t.keyword? (String.ofList word) with
  | some keyword => .token (.keyword keyword) word.length
  | none => .token .identifier word.length

def readOperator (t : LanguageTable) (c : Char) (rest : List Char) : Reading :=
  match t.longestOperator? (c :: rest) with
  | some op => .token (.operator op) op.length
  | none => .unexpected c

/-- The token that begins with `c`, which is followed by `rest`. -/
def read (t : LanguageTable) (c : Char) (rest : List Char) : Reading :=
  if t.quotes.contains c then readString t.escape c rest
  else if c.isDigit then
    let (kind, length) := numberLength (c :: rest)
    .token kind length
  else if isWordStart c then readWord t (c :: rest)
  else if c == '[' && t.bracketIdentifiers then readBracketed rest
  else match if t.placeholders then placeholderLength (c :: rest) else none with
    | some n => .token .placeholder n
    | none => readOperator t c rest

/-- A comment ahead, and its length if it ends. -/
inductive Comment where
  | absent
  | closed (length : Nat)
  | unclosed

def blockComment (marks : String × String) (rest : List Char) : Comment :=
  if Text.startsWith rest marks.1 then
    match Text.indexOf marks.2.toList (rest.drop marks.1.length) with
    | some n => .closed (marks.1.length + n + marks.2.length)
    | none => .unclosed
  else .absent

def comment (t : LanguageTable) (rest : List Char) : Comment :=
  if (t.lineComment.map (Text.startsWith rest)).getD false then
    .closed (runLength (· != '\n') rest)
  else (t.blockComment.map (blockComment · rest)).getD .absent

/-- The kind of a closing marker ahead, its length, and whether it trims the text after it. -/
def closer? (d : Delimiters) (rest : List Char) : Option (TokenKind × Nat × Bool) :=
  let closes (kind : TokenKind) (marker : String) : Option (TokenKind × Nat × Bool) :=
    if rest.head? = some d.trim ∧ Text.startsWith (rest.drop 1) marker then
      some (kind, 1 + marker.length, true)
    else if Text.startsWith rest marker then some (kind, marker.length, false)
    else none
  (closes .closeStatement d.closeStatement).or (closes .closeEcho d.closeEcho)

/-- The opening marker that comes first and its distance. Of markers at one place the order is
statement, echo, comment. -/
def firstOpener (d : Delimiters) (rest : List Char) : Option (Nat × String) :=
  [d.openStatement, d.openEcho, d.openComment].foldl
    (fun best marker =>
      match best, Text.indexOf marker.toList rest with
      | some (n, first), some m => if m < n then some (m, marker) else some (n, first)
      | some found, none => some found
      | none, found => found.map fun m => (m, marker))
    none

/-! ### The scanner -/

inductive Mode where
  | raw
  | language
deriving DecidableEq

structure Scanner where
  rest : List Char
  position : Position
  mode : Mode
  trimNextRaw : Bool
  /-- Braces opened inside the current marker pair; a brace that closes one is no marker. -/
  openBraces : Nat
  finished : Bool

namespace Scanner

def start (t : LanguageTable) (source : List Char) : Scanner :=
  ⟨source, .start, if t.delimiters.isSome then .raw else .language, false, 0, false⟩

def skip (s : Scanner) (n : Nat) : Scanner :=
  { s with rest := s.rest.drop n, position := s.position.advanceAll (s.rest.take n) }

def cut (s : Scanner) (kind : TokenKind) (n : Nat) : Token :=
  ⟨kind, String.ofList (s.rest.take n), s.position⟩

def skipBlanks (s : Scanner) : Scanner :=
  s.skip (runLength Text.isBlank s.rest)

/-- A token, an error or the end of the source, and the scanner after it. -/
abbrev Step := Except CompileError (Option Token) × Scanner

/-- The next token of raw text mode; comments are passed over, of which there are fewer than
`fuel`. -/
def nextRaw (d : Delimiters) : Nat → Scanner → Step
  | 0, s => (.ok none, s)
  | fuel + 1, s =>
    let s := if s.trimNextRaw then { s.skipBlanks with trimNextRaw := false } else s
    if s.rest.isEmpty then (.ok none, s) else
    match firstOpener d s.rest with
    | none => (.ok (some (s.cut .rawText s.rest.length)), s.skip s.rest.length)
    | some (n, marker) =>
      let trims := (s.rest.drop (n + marker.length)).head? == some d.trim
      let text := if trims then Text.trimEnd (s.rest.take n) else s.rest.take n
      let opening := s.skip n
      if !text.isEmpty then (.ok (some (s.cut .rawText text.length)), opening) else
      let width := marker.length + if trims then 1 else 0
      let inside := opening.skip width
      if marker = d.openComment then
        match Text.indexOf d.closeComment.toList inside.rest with
        | none => (.error (.unterminatedComment opening.position), inside)
        | some k =>
          nextRaw d fuel
            { inside.skip (k + d.closeComment.length) with
              trimNextRaw := (inside.rest.take k).getLast? == some d.trim }
      else
        let kind := if marker = d.openStatement then .openStatement else .openEcho
        (.ok (some (opening.cut kind width)), { inside with mode := .language, openBraces := 0 })

/-- Passes over white space and comments, of which there are fewer than `fuel`. -/
def skipTrivia (t : LanguageTable) : Nat → Scanner → Option CompileError × Scanner
  | 0, s => (none, s)
  | fuel + 1, s =>
    let s := s.skipBlanks
    match comment t s.rest with
    | .absent => (none, s)
    | .closed n => skipTrivia t fuel (s.skip n)
    | .unclosed => (some (.unterminatedComment s.position), s)

def bracesAfter (kind : TokenKind) (n : Nat) : Nat :=
  match kind with
  | .operator "\x7b" => n + 1
  | .operator "\x7d" => n - 1
  | _ => n

def accept (s : Scanner) : Reading → Step
  | .token kind n =>
    (.ok (some (s.cut kind n)), { s.skip n with openBraces := bracesAfter kind s.openBraces })
  | .unterminated n => (.error (.unterminatedLiteral s.position), s.skip n)
  | .unexpected c => (.error (.unexpectedCharacter c s.position), s)

def nextToken (t : LanguageTable) (s : Scanner) : Step :=
  match s.rest with
  | [] => (.ok none, s)
  | c :: rest =>
    let inBraces := s.openBraces > 0 && c == '\x7d'
    match if inBraces then none else t.delimiters.bind (closer? · s.rest) with
    | some (kind, n, trims) =>
      (.ok (some (s.cut kind n)),
        { s.skip n with mode := .raw, trimNextRaw := trims || s.trimNextRaw })
    | none => s.accept (read t c rest)

def nextLanguage (t : LanguageTable) (s : Scanner) : Step :=
  match skipTrivia t (s.rest.length + 1) s with
  | (some error, s) => (.error error, s)
  | (none, s) => s.nextToken t

def step (t : LanguageTable) (s : Scanner) : Step :=
  match s.mode, t.delimiters with
  | .raw, some d => nextRaw d (s.rest.length + 1) s
  | _, _ => s.nextLanguage t

/-- After the end or an error there is nothing more. -/
def next (t : LanguageTable) (s : Scanner) : Option (Except CompileError Token) × Scanner :=
  if s.finished then (none, s) else
  match s.step t with
  | (.ok (some token), s) => (some (.ok token), s)
  | (.ok none, s) => (none, { s with finished := true })
  | (.error error, s) => (some (.error error), { s with finished := true })

end Scanner

/-! ### Whole sources -/

/-- The tokens of a source up to its end or to the first error, and where that was. -/
structure Scan where
  tokens : List Token
  fault : Option CompileError
  stop : Position

/-- Every token takes at least one character, so `fuel` above the length of the source is never
used up. -/
def scanFrom (t : LanguageTable) : Nat → Scanner → Scan
  | 0, s => ⟨[], none, s.position⟩
  | fuel + 1, s =>
    match s.next t with
    | (none, s) => ⟨[], none, s.position⟩
    | (some (.error error), s) => ⟨[], some error, s.position⟩
    | (some (.ok token), s) =>
      let later := scanFrom t fuel s
      { later with tokens := token :: later.tokens }

def scan (t : LanguageTable) (source : String) : Scan :=
  let cs := source.toList
  scanFrom t (cs.length + 1) (Scanner.start t cs)

end EmbeddedLang
