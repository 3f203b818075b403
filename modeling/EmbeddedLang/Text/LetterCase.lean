import EmbeddedLang.Text.CaseTables
import EmbeddedLang.Text.Blank

/-!
Upper and lower case of characters and of whole texts.
-/

namespace EmbeddedLang.Text

def shift (runs : List (Nat × Nat × Nat × Int)) (n : Nat) : Option Nat :=
  match runs.find? fun (first, last, stride, _) =>
      first ≤ n && n ≤ last && (n - first) % stride == 0 with
  | some (_, _, _, distance) => some (n + distance).toNat
  | none => none

def mapCase (expansions : List (Nat × List Nat)) (runs : List (Nat × Nat × Nat × Int))
    (c : Char) : List Char :=
  match expansions.lookup c.toNat with
  | some codes => codes.map Char.ofNat
  | none => [(shift runs c.toNat).elim c Char.ofNat]

def upperChar (c : Char) : List Char :=
  if c.toNat < 0x80 then [c.toUpper] else mapCase upperExpansions upperRuns c

def lowerChar (c : Char) : List Char :=
  if c.toNat < 0x80 then [c.toLower] else mapCase lowerExpansions lowerRuns c

def isCased (c : Char) : Bool :=
  c.isAlpha || inRanges casedRanges c

/-- Marks that stand between letters without ending a word. -/
def isCaseIgnorable (c : Char) : Bool :=
  c == '\'' || c == '.' || c == ':' || c == '^' || c == '\x60' || inRanges caseIgnorableRanges c

def reachesCased (text : List Char) : Bool :=
  ((text.dropWhile isCaseIgnorable).head?.map isCased).getD false

/-- Lower case of a text of which `before` has been read, last character first. A capital sigma
that ends a word has a form of its own. -/
def lowerFrom (before : List Char) : List Char → List Char
  | [] => []
  | c :: rest =>
    (if c == 'Σ' then
      if reachesCased before && !reachesCased rest then ['ς'] else ['σ']
    else lowerChar c) ++ lowerFrom (c :: before) rest

def lower (text : List Char) : List Char :=
  lowerFrom [] text

def upper (text : List Char) : List Char :=
  text.flatMap upperChar

end EmbeddedLang.Text
