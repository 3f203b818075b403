import EmbeddedLang.Text.Search

/-!
What a language looks like to its scanner, and which expression forms its parser accepts.
-/

namespace EmbeddedLang

inductive KeywordCase where
  | insensitive
  | sensitive
deriving DecidableEq

/-- Markers between which a template holds code; all else is text. -/
structure Delimiters where
  openStatement : String
  closeStatement : String
  openEcho : String
  closeEcho : String
  openComment : String
  closeComment : String
  /-- Next to a marker, it drops the white space on that side. -/
  trim : Char
deriving DecidableEq

def Delimiters.braces : Delimiters where
  openStatement := "\x7b%"
  closeStatement := "%\x7d"
  openEcho := "\x7b\x7b"
  closeEcho := "\x7d\x7d"
  openComment := "\x7b#"
  closeComment := "#\x7d"
  trim := '-'

structure LanguageTable where
  name : String
  keywords : List String
  keywordCase : KeywordCase
  operators : List String
  quotes : List Char
  escape : Option Char
  lineComment : Option String
  blockComment : Option (String × String)
  bracketIdentifiers : Bool
  placeholders : Bool
  delimiters : Option Delimiters
  nullKeyword : String
  trueKeyword : String
  falseKeyword : String
  namedArguments : Bool
  distinctKeyword : Option String
  listLiterals : Bool
  subscripts : Bool
  callsOnExpressions : Bool
deriving DecidableEq

def lowerAscii (text : String) : String :=
  text.map Char.toLower

namespace LanguageTable

variable (t : LanguageTable)

/-- The reserved word that `word` spells, in the spelling of the table. -/
def keyword? (word : String) : Option String :=
  match t.keywordCase with
  | .sensitive => t.keywords.find? (· == word)
  | .insensitive => t.keywords.find? (lowerAscii · == lowerAscii word)

def longerOf (best : Option String) (op : String) : Option String :=
  match best with
  | none => some op
  | some b => if b.length ≤ op.length then some op else some b

/-- The longest operator with which `rest` begins. -/
def longestOperator? (rest : List Char) : Option String :=
  (t.operators.filter (Text.startsWith rest ·)).foldl longerOf none

def decodeEscape : Char → Char
  | 'n' => '\n'
  | 't' => '\t'
  | 'r' => '\r'
  | '0' => '\x00'
  | c => c

/-- An escape at the very end stands for itself. -/
def decode (escape : Option Char) : List Char → List Char
  | [] => []
  | c :: rest =>
    if some c = escape then
      match rest with
      | [] => [c]
      | d :: rest => decodeEscape d :: decode escape rest
    else c :: decode escape rest

/-- The text that a string lexeme stands for, without its quotes. -/
def unescape (lexeme : String) : String :=
  match lexeme.toList with
  | [] => ""
  | quote :: inner =>
    let inner := if inner.getLast? = some quote then inner.dropLast else inner
    String.ofList (decode t.escape inner)

end LanguageTable

end EmbeddedLang
