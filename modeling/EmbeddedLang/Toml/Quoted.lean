import EmbeddedLang.Toml.Scalar

/-!
Quoted text of TOML.

Each reader is given what follows the opening quotes, and returns the text with what follows the
closing ones.
-/

namespace EmbeddedLang.Toml

/-- Control characters, of which text may hold the tab only. -/
def isForbidden (c : Char) : Bool :=
  (c.toNat < 0x20 && c != '\t') || c.toNat == 0x7F

/-- The character with a code given in hexadecimal. -/
def character? (digits : List Char) : Option Char :=
  let code := ofDigits 16 digits
  if digits.all (isDigitOf 16) && decide code.isValidChar then some (Char.ofNat code) else none

/-- The character that a letter stands for behind a backslash. -/
def escaped? : Char → Option Char
  | 'b' => some '\x08'
  | 't' => some '\t'
  | 'n' => some '\n'
  | 'f' => some '\x0c'
  | 'r' => some '\r'
  | 'e' => some '\x1b'
  | '"' => some '"'
  | '\\' => some '\\'
  | _ => none

def follow (c : Option Char) (text : Option (List Char × List Char)) :
    Option (List Char × List Char) :=
  match c, text with
  | some c, some (text, rest) => some (c :: text, rest)
  | _, _ => none

/-- Text in double quotes, on one line. -/
def basic : List Char → Option (List Char × List Char)
  | '"' :: rest => some ([], rest)
  | '\\' :: 'x' :: a :: b :: rest => follow (character? [a, b]) (basic rest)
  | '\\' :: 'u' :: a :: b :: c :: d :: rest => follow (character? [a, b, c, d]) (basic rest)
  | '\\' :: 'U' :: a :: b :: c :: d :: e :: f :: g :: h :: rest =>
    follow (character? [a, b, c, d, e, f, g, h]) (basic rest)
  | '\\' :: c :: rest => follow (escaped? c) (basic rest)
  | c :: rest => if isForbidden c then none else follow (some c) (basic rest)
  | [] => none

/-- Text in single quotes, on one line and without escapes. -/
def verbatim : List Char → Option (List Char × List Char)
  | '\'' :: rest => some ([], rest)
  | c :: rest => if isForbidden c then none else follow (some c) (verbatim rest)
  | [] => none

/-- Up to two quotes of a text stand directly before the closing three. -/
def closing (quote : Char) : List Char → List Char × List Char
  | a :: b :: rest =>
    if a == quote && b == quote then ([a, b], rest)
    else if a == quote then ([a], b :: rest)
    else ([], a :: b :: rest)
  | [a] => if a == quote then ([a], []) else ([], [a])
  | [] => ([], [])

/-- What follows the blanks and the end of a line. -/
def nextLine? : List Char → Option (List Char)
  | ' ' :: rest => nextLine? rest
  | '\t' :: rest => nextLine? rest
  | '\r' :: '\n' :: rest => some rest
  | '\n' :: rest => some rest
  | _ => none

/-- Text in three double quotes, with its line breaks as they are written. After a backslash at the
end of a line, `joining` is on until the text goes on. -/
def basicLines (joining : Bool) : List Char → Option (List Char × List Char)
  | '"' :: '"' :: '"' :: rest => some (closing '"' rest)
  | '\r' :: '\n' :: rest =>
    if joining then basicLines true rest
    else follow (some '\r') (follow (some '\n') (basicLines false rest))
  | '\n' :: rest =>
    if joining then basicLines true rest else follow (some '\n') (basicLines false rest)
  | '\\' :: 'x' :: a :: b :: rest => follow (character? [a, b]) (basicLines false rest)
  | '\\' :: 'u' :: a :: b :: c :: d :: rest =>
    follow (character? [a, b, c, d]) (basicLines false rest)
  | '\\' :: 'U' :: a :: b :: c :: d :: e :: f :: g :: h :: rest =>
    follow (character? [a, b, c, d, e, f, g, h]) (basicLines false rest)
  | '\\' :: c :: rest =>
    if (nextLine? (c :: rest)).isSome then basicLines true (c :: rest)
    else follow (escaped? c) (basicLines false rest)
  | c :: rest =>
    if joining && (c == ' ' || c == '\t') then basicLines true rest
    else if isForbidden c then none
    else follow (some c) (basicLines false rest)
  | [] => none

/-- Text in three single quotes, with its line breaks as they are written. -/
def verbatimLines : List Char → Option (List Char × List Char)
  | '\'' :: '\'' :: '\'' :: rest => some (closing '\'' rest)
  | '\r' :: '\n' :: rest => follow (some '\r') (follow (some '\n') (verbatimLines rest))
  | '\n' :: rest => follow (some '\n') (verbatimLines rest)
  | c :: rest => if isForbidden c then none else follow (some c) (verbatimLines rest)
  | [] => none

/-- A line break directly behind the opening quotes is not part of a text. -/
def skipLineBreak : List Char → List Char
  | '\r' :: '\n' :: rest => rest
  | '\n' :: rest => rest
  | text => text

/-- A quoted text with its quotes. -/
def quoted (text : List Char) : Option (String × List Char) :=
  (match text with
  | '"' :: '"' :: '"' :: rest => basicLines false (skipLineBreak rest)
  | '"' :: rest => basic rest
  | '\'' :: '\'' :: '\'' :: rest => verbatimLines (skipLineBreak rest)
  | '\'' :: rest => verbatim rest
  | _ => none).map fun (text, rest) => (String.ofList text, rest)

/-- A quoted text on one line, with its quotes. -/
def quotedLine (text : List Char) : Option (String × List Char) :=
  (match text with
  | '"' :: rest => basic rest
  | '\'' :: rest => verbatim rest
  | _ => none).map fun (text, rest) => (String.ofList text, rest)

end EmbeddedLang.Toml
