import EmbeddedLang.Expr.Basic
import EmbeddedLang.Query.Metadata

/-!
Pieces of SQL that can be put together in any order before their binds are numbered.

Binds are values that stand beside the SQL text, each for one placeholder in it. A fragment also
keeps what its text does not tell: which source a column belongs to, and from where to where a
select or a change reaches.
-/

namespace EmbeddedLang.Query

/-- A source under the name that the statement uses, which is its model without an alias. -/
structure ScopeSource where
  reference : String
  aliasName : Option String
  table : Table
deriving DecidableEq

namespace ScopeSource

/-- The name of the source in SQL. -/
def qualifier (s : ScopeSource) : String :=
  s.aliasName.getD s.table.table

/-- The source where SQL has no place for an alias. -/
def unaliased (s : ScopeSource) : ScopeSource :=
  { s with aliasName := none }

@[simp]
theorem qualifier_unaliased (s : ScopeSource) : s.unaliased.qualifier = s.table.table :=
  rfl

theorem unaliased_eq_iff {s s' : ScopeSource} :
    s.unaliased = s'.unaliased ↔ s.reference = s'.reference ∧ s.table = s'.table := by
  simp [unaliased]

end ScopeSource

/-- A column of a source that is `depth` selects further out, with the name of the source before it
or without. -/
structure Reference where
  depth : Nat
  source : ScopeSource
  qualified : Bool
  column : String
deriving DecidableEq

inductive BindValue where
  | boolean (value : Bool)
  | integer (value : Int64)
  | float (value : Float)
  | string (value : String)

/-- There is no value for null, which SQL spells out. -/
def BindValue.ofLiteral? : Literal → Option BindValue
  | .null => none
  | .boolean b => some (.boolean b)
  | .integer n => some (.integer n)
  | .float x => some (.float x)
  | .string s => some (.string s)

def BindValue.naturalType : BindValue → ColumnType
  | .boolean _ => .boolean
  | .integer _ => .integer
  | .float _ => .float
  | .string _ => .text

/-- A literal of the query, or a parameter that the caller supplies. -/
inductive BindSource where
  | literal (value : BindValue)
  | named (name : String)
  | numbered (index : Nat)

def BindSource.ofPlaceholder : Placeholder → BindSource
  | .named name => .named name
  | .numbered index => .numbered index

def BindSource.literal? : BindSource → Option BindValue
  | .literal value => some value
  | _ => none

/-- The type is absent where nothing constrains it. -/
structure Bind where
  index : Nat
  source : BindSource
  type : Option ColumnType

inductive PlaceholderStyle where
  | question
  | numbered
  | named
deriving DecidableEq

/-- A placeholder for the bind at `index`, counted from one. -/
def PlaceholderStyle.placeholder (style : PlaceholderStyle) (index : Nat) (source : BindSource) :
    String :=
  match style, source with
  | .question, _ => "?"
  | .numbered, _ => "$" ++ toString index
  | .named, .named name => ":" ++ name
  | .named, _ => ":p" ++ toString index

/-- The marks around an identifier. -/
structure Quotes where
  opening : Char
  closing : Char
deriving DecidableEq

/-- Every closing mark inside an identifier is doubled. -/
def Quotes.double (q : Quotes) : List Char → List Char
  | [] => []
  | c :: rest => if c = q.closing then c :: c :: q.double rest else c :: q.double rest

def Quotes.quote (q : Quotes) (identifier : String) : String :=
  String.ofList (q.opening :: q.double identifier.toList ++ [q.closing])

/-- A source where it is read. -/
def Quotes.source (q : Quotes) (s : ScopeSource) : String :=
  match s.aliasName with
  | some aliasName => q.quote s.table.table ++ " AS " ++ q.quote aliasName
  | none => q.quote s.table.table

def Quotes.column (q : Quotes) (r : Reference) : String :=
  if r.qualified then q.quote r.source.qualifier ++ "." ++ q.quote r.column
  else q.quote r.column

inductive Piece where
  | text (text : String)
  | name (quotes : Quotes) (identifier : String)
  | source (quotes : Quotes) (source : ScopeSource)
  | column (quotes : Quotes) (reference : Reference)
  | bind (source : BindSource) (type : Option ColumnType)
  /-- Here a select or a change begins. -/
  | enter
  /-- Here ends what began last. -/
  | leave

namespace Piece

def isBind : Piece → Bool
  | bind .. => true
  | _ => false

def endsInSpace : Piece → Bool
  | text s => s.toList.getLast? == some ' '
  | name q _ | source q _ | column q _ => q.closing == ' '
  | bind .. | enter | leave => false

/-- What a piece other than a bind adds to the text. -/
def words : Piece → String
  | text s => s
  | name q identifier => q.quote identifier
  | source q s => q.source s
  | column q r => q.column r
  | bind .. | enter | leave => ""

end Piece

abbrev Fragment := List Piece

namespace Fragment

def text (s : String) : Fragment :=
  if s.isEmpty then [] else [.text s]

def push (f : Fragment) (s : String) : Fragment :=
  f ++ text s

/-- A space, unless the fragment is empty or ends in one. -/
def space (f : Fragment) : Fragment :=
  match f.getLast? with
  | none => f
  | some piece => if piece.endsInSpace then f else f.push " "

def keyword (f : Fragment) (word : String) : Fragment :=
  f.space.push word

def name (q : Quotes) (identifier : String) : Fragment :=
  [.name q identifier]

def qualified (q : Quotes) (qualifier identifier : String) : Fragment :=
  name q qualifier ++ text "." ++ name q identifier

def source (q : Quotes) (s : ScopeSource) : Fragment :=
  [.source q s]

def column (q : Quotes) (r : Reference) : Fragment :=
  [.column q r]

def enclosed (f : Fragment) : Fragment :=
  .enter :: f ++ [.leave]

def bind (source : BindSource) (type : Option ColumnType) : Fragment :=
  [.bind source type]

/-- A literal never shows in the text, but for null. -/
def literal (l : Literal) (type : Option ColumnType) : Fragment :=
  match BindValue.ofLiteral? l with
  | none => text "NULL"
  | some value => bind (.literal value) (type.orElse fun _ => some value.naturalType)

def joined (separator : String) : List Fragment → Fragment
  | [] => []
  | [f] => f
  | f :: rest => f ++ text separator ++ joined separator rest

def bindCount (f : Fragment) : Nat :=
  f.countP Piece.isBind

/-- The text and the binds of a fragment, the first bind at `index`. -/
def finishFrom (style : PlaceholderStyle) (index : Nat) : Fragment → String × List Bind
  | [] => ("", [])
  | piece :: rest =>
    match piece with
    | .bind source type =>
      let (sql, binds) := finishFrom style (index + 1) rest
      (style.placeholder index source ++ sql, ⟨index, source, type⟩ :: binds)
    | piece =>
      let (sql, binds) := finishFrom style index rest
      (piece.words ++ sql, binds)

theorem finishFrom_bind (style : PlaceholderStyle) (index : Nat) (source : BindSource)
    (type : Option ColumnType) (rest : Fragment) :
    finishFrom style index (.bind source type :: rest) =
      (style.placeholder index source ++ (finishFrom style (index + 1) rest).1,
        ⟨index, source, type⟩ :: (finishFrom style (index + 1) rest).2) :=
  rfl

theorem finishFrom_cons (style : PlaceholderStyle) (index : Nat) {p : Piece}
    (h : p.isBind = false) (rest : Fragment) :
    finishFrom style index (p :: rest) =
      (p.words ++ (finishFrom style index rest).1, (finishFrom style index rest).2) := by
  cases p with
  | bind => exact Bool.noConfusion h
  | _ => rfl

def finish (style : PlaceholderStyle) (f : Fragment) : String × List Bind :=
  finishFrom style 1 f

theorem length_finishFrom (style : PlaceholderStyle) (index : Nat) (f : Fragment) :
    (finishFrom style index f).2.length = f.bindCount := by
  induction f generalizing index with
  | nil => rfl
  | cons piece rest ih =>
    cases piece <;> simp [finishFrom, bindCount, List.countP_cons, Piece.isBind, ih]

end Fragment

end EmbeddedLang.Query
