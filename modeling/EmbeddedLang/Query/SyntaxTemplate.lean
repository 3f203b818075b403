import EmbeddedLang.CompileError
import EmbeddedLang.Decimal.Reading
import EmbeddedLang.Query.Fragment

/-!
How a dialect writes one construct: text with slots for the operands.

A slot is a number or a star in braces. All else is text, unmatched braces too.
-/

namespace EmbeddedLang.Query

inductive TemplatePart where
  | text (text : String)
  | slot (index : Nat)
  | all
deriving DecidableEq

structure SyntaxTemplate where
  source : String
  parts : List TemplatePart
deriving DecidableEq

namespace SyntaxTemplate

def slotOf? (inner : List Char) : Option TemplatePart :=
  if inner = ['*'] then some .all
  else (Decimal.unsigned? (Nat.pow 2 64) inner).map .slot

/-- The slot that begins after an opening brace, and how many characters it takes. -/
def slotAhead? (rest : List Char) : Option (TemplatePart × Nat) :=
  let inner := rest.takeWhile (· != '\x7d')
  if inner.length < rest.length then (slotOf? inner).map fun part => (part, inner.length + 1)
  else none

def consText (c : Char) : List TemplatePart → List TemplatePart
  | .text s :: rest => .text (c.toString ++ s) :: rest
  | parts => .text c.toString :: parts

/-- The parts of a template after its next `skip` characters. -/
def split (skip : Nat) : List Char → List TemplatePart
  | [] => []
  | c :: rest =>
    match skip with
    | n + 1 => split n rest
    | 0 =>
      match if c = '\x7b' then slotAhead? rest else none with
      | some (part, width) => part :: split width rest
      | none => consText c (split 0 rest)

def parse (source : String) : SyntaxTemplate :=
  ⟨source, split 0 source.toList⟩

/-- The part filled in, or the number of operands it asks for. -/
def fill (args : List Fragment) : TemplatePart → Except Nat Fragment
  | .text s => .ok (.text s)
  | .slot i =>
    match args[i]? with
    | some arg => .ok arg
    | none => .error (i + 1)
  | .all => .ok (.joined ", " args)

def fillAll (args : List Fragment) : List TemplatePart → Except Nat Fragment
  | [] => .ok []
  | part :: rest => do
    let f ← fill args part
    return f ++ (← fillAll args rest)

def apply (t : SyntaxTemplate) (args : List Fragment) (position : Position) :
    Except CompileError Fragment :=
  (fillAll args t.parts).mapError fun count =>
    .invalidConstruct position
      ("syntax template '" ++ t.source ++ "' expects at least " ++ toString count ++ " operands")

end SyntaxTemplate

end EmbeddedLang.Query
