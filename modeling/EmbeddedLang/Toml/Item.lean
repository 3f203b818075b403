import EmbeddedLang.Dictionary

/-!
The tables that a TOML document builds up.
-/

namespace EmbeddedLang.Toml

/-- How a table came to be, which decides what may be added to it. -/
inductive Origin where
  /-- It has a header of its own. -/
  | header
  /-- The header of a table inside it named it. -/
  | implied
  /-- A dotted key named it. -/
  | dotted
  /-- It was written out as a value. -/
  | value
deriving DecidableEq

inductive Item where
  | text (s : String)
  | integer (n : Int)
  | float (x : Float)
  | boolean (b : Bool)
  | array (items : List Item)
  | table (origin : Origin) (entries : List (String × Item))

abbrev Entries := Dictionary Item

/-- A name with those of the tables around it, outermost first. -/
structure Key where
  qualifiers : List String
  name : String

/-- Opens the table of a header. A table may be opened once, after those inside it or before. -/
def openTable (name : String) : List String → Entries → Option Entries
  | [], t =>
    match Dictionary.get? name t with
    | none => some (Dictionary.put name (.table .header []) t)
    | some (.table .implied inner) => some (Dictionary.put name (.table .header inner) t)
    | some _ => none
  | outer :: path, t =>
    match Dictionary.get? outer t with
    | none => (openTable name path []).map fun inner =>
      Dictionary.put outer (.table .implied inner) t
    | some (.table .value _) => none
    | some (.table origin inner) => (openTable name path inner).map fun inner =>
      Dictionary.put outer (.table origin inner) t
    | some _ => none

/-- Whether a dotted key may lead into a table, the last of its path or not. -/
def Origin.admits (last : Bool) : Origin → Bool
  | .dotted => true
  | .implied => !last
  | _ => false

/-- Adds an entry under a new name. -/
def addEntry (name : String) (item : Item) : List String → Entries → Option Entries
  | [], t => if Dictionary.has name t then none else some (Dictionary.put name item t)
  | outer :: path, t =>
    match Dictionary.get? outer t with
    | none => (addEntry name item path []).map fun inner =>
      Dictionary.put outer (.table .dotted inner) t
    | some (.table origin inner) =>
      if origin.admits path.isEmpty then
        (addEntry name item path inner).map fun inner =>
          Dictionary.put outer (.table origin inner) t
      else none
    | some _ => none

/-- Changes the table that a path leads to. -/
def within (change : Entries → Option Entries) : List String → Entries → Option Entries
  | [], t => change t
  | outer :: path, t =>
    match Dictionary.get? outer t with
    | some (.table origin inner) => (within change path inner).map fun inner =>
      Dictionary.put outer (.table origin inner) t
    | _ => none

namespace Item

def text? : Item → Option String
  | text s => some s
  | _ => none

def boolean? : Item → Option Bool
  | boolean b => some b
  | _ => none

/-- An integer from zero up to a bound. -/
def natural? (bound : Nat) : Item → Option Nat
  | integer n => if 0 ≤ n ∧ n < bound then some n.toNat else none
  | _ => none

def entries? : Item → Option Entries
  | table _ entries => some entries
  | _ => none

end Item

end EmbeddedLang.Toml
