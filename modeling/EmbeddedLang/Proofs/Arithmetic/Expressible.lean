import EmbeddedLang.Arithmetic
import EmbeddedLang.Proofs.Lexical.Shapes
import EmbeddedLang.Proofs.Parser.Forms

/-!
Trees that can be written without any parentheses but those that are in them.

An operand stands without parentheses where its own operator binds tight enough. A prefix operator
takes all to its right that binds as tight as itself, so none that binds looser than an operator may
end the left operand of that operator.
-/

namespace EmbeddedLang.Arithmetic

def binarySpec? (op : BinaryOp) : Option OperatorSpec :=
  binaryOps.find? (·.op == op)

def prefixSpec? (op : UnaryOp) : Option PrefixSpec :=
  prefixOps.find? (·.op == op)

/-- The least precedence that the left operand of an operator may have. -/
def leftFloor (spec : OperatorSpec) : Nat :=
  match spec.assoc with
  | .left => spec.precedence
  | .right => spec.precedence + 1

/-- The operator that a tree consists of, if it is one with two operands. -/
def rootSpec? : Expr → Option OperatorSpec
  | .binary _ op _ _ => binarySpec? op
  | _ => none

/-- The prefix operators at the right end of a tree. -/
def endingPrefixes : Expr → List PrefixSpec
  | .unary _ op x => (prefixSpec? op).toList ++ endingPrefixes x
  | .binary _ _ _ y => endingPrefixes y
  | _ => []

/-- The operator of an operand binds at least as tight as `floor`. -/
def BindsAt (floor : Nat) (e : Expr) : Prop :=
  ∀ spec ∈ rootSpec? e, floor ≤ spec.precedence

instance (floor : Nat) (e : Expr) : Decidable (BindsAt floor e) :=
  inferInstanceAs (Decidable (∀ spec ∈ rootSpec? e, floor ≤ spec.precedence))

def isOperation : Expr → Bool
  | .unary .. | .binary .. => true
  | _ => false

def isNumber : Expr → Bool
  | .literal _ (.integer _) | .literal _ (.float _) => true
  | _ => false

def isNamed : Expr → Bool
  | .identifier .. | .member .. => true
  | _ => false

/-- A word that is not reserved. -/
def IsName (s : String) : Prop :=
  IsWord s ∧ s ∉ table.keywords

instance (s : String) : Decidable (IsName s) :=
  inferInstanceAs (Decidable (IsWord s ∧ s ∉ table.keywords))

inductive Expressible : Expr → Prop where
  | null {p : Position} : Expressible (.literal p .null)
  | boolean {p : Position} {b : Bool} : Expressible (.literal p (.boolean b))
  | integer {p : Position} {n : Int64} (h : 0 ≤ n) : Expressible (.literal p (.integer n))
  | string {p : Position} {s : String} : Expressible (.literal p (.string s))
  | identifier {p : Position} {name : String} (h : IsName name) :
      Expressible (.identifier p name)
  | grouped {p : Position} {x : Expr} (hx : Expressible x) : Expressible (.grouped p x)
  | list {p : Position} {items : List Item} (h : ∀ item ∈ items, Expressible item.value) :
      Expressible (.list p items)
  | call {p : Position} {callee : Expr} {args : List Item} (hc : Expressible callee)
      (hnamed : isNamed callee) (hl : ∀ arg ∈ args, ∀ name ∈ arg.label, IsName name)
      (ha : ∀ arg ∈ args, Expressible arg.value) : Expressible (.call p callee args false)
  | member {p : Position} {x : Expr} {property : String} (hx : Expressible x)
      (ho : isOperation x = false) (hp : IsWord property) : Expressible (.member p x property)
  | index {p : Position} {x y : Expr} (hx : Expressible x) (ho : isOperation x = false)
      (hy : Expressible y) : Expressible (.index p x y)
  | slice {p : Position} {x : Expr} {first last : Option Expr} (hx : Expressible x)
      (ho : isOperation x = false) (hf : ∀ e ∈ first, Expressible e)
      (hl : ∀ e ∈ last, Expressible e) : Expressible (.slice p x first last)
  | unary {p : Position} {op : UnaryOp} {x : Expr} {spec : PrefixSpec}
      (hs : prefixSpec? op = some spec) (hx : Expressible x) (hn : op = .neg → isNumber x = false)
      (hb : BindsAt spec.precedence x) : Expressible (.unary p op x)
  | binary {p : Position} {op : BinaryOp} {x y : Expr} {spec : OperatorSpec}
      (hs : binarySpec? op = some spec) (hx : Expressible x) (hy : Expressible y)
      (hl : BindsAt (leftFloor spec) x) (hr : BindsAt (Grammar.rightFloor spec) y)
      (he : ∀ inner ∈ endingPrefixes x, spec.precedence < inner.precedence) :
      Expressible (.binary p op x y)

/-! ### Texts -/

def escaped (c : Char) : List Char :=
  if c = '\'' ∨ c = '\\' then ['\\', c] else [c]

/-- A string literal in single quotes. -/
def quoted (s : String) : String :=
  String.ofList ('\'' :: (s.toList.flatMap escaped ++ ['\'']))

def text : Atom → String
  | .symbol s | .name s | .property s => s
  | .literal .null => table.nullKeyword
  | .literal (.boolean true) => table.trueKeyword
  | .literal (.boolean false) => table.falseKeyword
  | .literal (.integer n) => toString n
  | .literal (.string s) | .key s => quoted s
  | .literal (.float _) | .foreign => ""

/-- The tokens of a tree with blanks between them. -/
def print (e : Expr) : String :=
  " ".intercalate ((e.atoms grammar).map text)

/-! ### Trees without their positions -/

mutual

def forget : Expr → Expr
  | .literal _ l => .literal .start l
  | .identifier _ name => .identifier .start name
  | .unary _ op x => .unary .start op (forget x)
  | .binary _ op x y => .binary .start op (forget x) (forget y)
  | .call _ callee args distinct => .call .start (forget callee) (forgetItems args) distinct
  | .member _ x property => .member .start (forget x) property
  | .index _ x y => .index .start (forget x) (forget y)
  | .slice _ x first last => .slice .start (forget x) (forgetOption first) (forgetOption last)
  | .list _ items => .list .start (forgetItems items)
  | .grouped _ x => .grouped .start (forget x)
  | e => e

def forgetOption : Option Expr → Option Expr
  | none => none
  | some e => some (forget e)

def forgetItems : List Item → List Item
  | [] => []
  | ⟨label, e⟩ :: rest => ⟨label, forget e⟩ :: forgetItems rest

end

theorem isNumber_forget (e : Expr) : isNumber (forget e) = isNumber e := by
  cases e with
  | literal p l => cases l <;> rfl
  | _ => rfl

theorem isNamed_forget (e : Expr) : isNamed (forget e) = isNamed e := by
  cases e <;> rfl

/-! ### The pieces of an expressible tree -/

theorem binarySpec?_cases {op : BinaryOp} {spec : OperatorSpec} (h : binarySpec? op = some spec) :
    ∃ word, spec.tokens = [word] ∧ spec.op = op ∧ spec ∈ binaryOps ∧
      word ∈ table.operators ++ table.keywords ∧ word ∉ ["(", ".", "[", ":"] ∧
      binaryOps.find? (·.tokens == [word]) = some spec := by
  have hmem := List.mem_of_find?_eq_some h
  cases op <;> cases h <;> exact ⟨_, rfl, rfl, hmem, by decide, by decide, rfl⟩

theorem prefixSpec?_cases {op : UnaryOp} {spec : PrefixSpec} (h : prefixSpec? op = some spec) :
    spec.op = op ∧ spec.token ∈ table.operators ++ table.keywords ∧
      prefixOps.find? (·.token == spec.token) = some spec := by
  cases op <;> cases h <;> exact ⟨rfl, by decide, rfl⟩

theorem prefixAtom_eq {op : UnaryOp} {spec : PrefixSpec} (h : prefixSpec? op = some spec) :
    grammar.prefixAtom op = .symbol spec.token := by
  unfold Grammar.prefixAtom
  rw [show grammar.prefixOps.find? (·.op == op) = some spec from h]

theorem binaryAtoms_eq {op : BinaryOp} {spec : OperatorSpec} (h : binarySpec? op = some spec) :
    grammar.binaryAtoms op = spec.tokens.map .symbol := by
  unfold Grammar.binaryAtoms
  rw [show grammar.binaryOps.find? (·.op == op) = some spec from h]

theorem atoms_call (p : Position) (callee : Expr) (args : List Item) :
    (Expr.call p callee args false).atoms grammar =
      callee.atoms grammar ++
        (.symbol "(" :: (atomsOfItems grammar .name args ++ [.symbol ")"])) := rfl

theorem atoms_unary {op : UnaryOp} {spec : PrefixSpec} (h : prefixSpec? op = some spec)
    (p : Position) (x : Expr) :
    (Expr.unary p op x).atoms grammar = .symbol spec.token :: x.atoms grammar := by
  change grammar.prefixAtom op :: x.atoms grammar = _
  rw [prefixAtom_eq h]

theorem atoms_binary {op : BinaryOp} {spec : OperatorSpec} {word : String}
    (h : binarySpec? op = some spec) (hword : spec.tokens = [word]) (p : Position) (x y : Expr) :
    (Expr.binary p op x y).atoms grammar =
      x.atoms grammar ++ (.symbol word :: y.atoms grammar) := by
  change x.atoms grammar ++ (grammar.binaryAtoms op ++ y.atoms grammar) = _
  rw [binaryAtoms_eq h, hword]
  rfl

/-- What an operand begins with. -/
def startsOperand : Atom → Bool
  | .literal _ | .name _ => true
  | .symbol s => s == "(" || s == "["
  | _ => false

/-- What a tree begins with. -/
def starts : Atom → Bool
  | .symbol s => s == "(" || s == "[" || s == "not" || s == "-"
  | a => startsOperand a

theorem starts_of_startsOperand {a : Atom} (h : startsOperand a) : starts a := by
  cases a with
  | symbol s =>
    change (s == "(" || s == "[" || s == "not" || s == "-") = true
    rw [show (s == "(" || s == "[") = true from h, Bool.true_or, Bool.true_or]
  | _ => exact h

theorem isOperation_of_isNamed {e : Expr} (h : isNamed e) : isOperation e = false := by
  cases e with
  | identifier | member => rfl
  | _ => cases h

theorem exists_first {e : Expr} (h : Expressible e) : ∃ a as, e.atoms grammar = a :: as ∧
    starts a ∧ (isOperation e = false → startsOperand a) := by
  have hoperand {a : Atom} (as : List Atom) (ha : startsOperand a) (hp : Prop) :
      ∃ b bs, a :: as = b :: bs ∧ starts b ∧ (hp → startsOperand b) :=
    ⟨a, as, rfl, starts_of_startsOperand ha, fun _ => ha⟩
  have hpostfix {x : Expr} (ho : isOperation x = false) (ih : ∃ a as, x.atoms grammar = a :: as ∧
      starts a ∧ (isOperation x = false → startsOperand a)) (bs : List Atom) (hp : Prop) :
      ∃ a as, x.atoms grammar ++ bs = a :: as ∧ starts a ∧ (hp → startsOperand a) := by
    obtain ⟨a, as, hatoms, hstart, hoperand⟩ := ih
    exact ⟨a, as ++ bs, by rw [hatoms, List.cons_append], hstart, fun _ => hoperand ho⟩
  induction h with
  | null | boolean | integer | string | identifier => exact hoperand [] rfl _
  | grouped | list => exact hoperand _ rfl _
  | call _ hnamed _ _ ih => exact hpostfix (isOperation_of_isNamed hnamed) ih _ _
  | member _ ho _ ih => exact hpostfix ho ih _ _
  | index _ ho _ ih => exact hpostfix ho ih _ _
  | slice _ ho _ _ ih => exact hpostfix ho ih _ _
  | @unary p op x spec hs =>
    refine ⟨_, _, atoms_unary hs p x, ?_, fun h => by cases h⟩
    cases op <;> cases hs <;> rfl
  | @binary p op x y spec hs _ _ _ _ _ ih =>
    obtain ⟨word, hword, _⟩ := binarySpec?_cases hs
    obtain ⟨a, as, hatoms, hstart, _⟩ := ih
    refine ⟨a, as ++ (.symbol word :: y.atoms grammar), ?_, hstart, fun h => by cases h⟩
    rw [atoms_binary hs hword, hatoms, List.cons_append]

theorem ne_of_starts {a : Atom} {s : String} (ha : starts a) (hs : s ∈ [")", "]", ":", ","]) :
    a ≠ .symbol s := by
  rintro rfl
  revert ha
  revert hs
  revert s
  decide

theorem head_items {items : List Item} (h : ∀ item ∈ items, Expressible item.value)
    {label : String → Atom} {a : Atom} (ha : a ∈ (atomsOfItems grammar label items).head?) :
    (∃ text, a = label text) ∨ starts a := by
  cases items with
  | nil => cases ha
  | cons item rest =>
    rw [atomsOfItems_cons] at ha
    obtain ⟨b, bs, hatoms, hstart, _⟩ := exists_first (h item List.mem_cons_self)
    unfold Item.atoms at ha
    rw [hatoms] at ha
    cases hlabel : item.label with
    | none =>
      rw [hlabel] at ha
      cases ha
      exact .inr hstart
    | some text =>
      rw [hlabel] at ha
      cases ha
      exact .inl ⟨text, rfl⟩

/-- A colon never comes second, where it would make a name or a key of what is before it. -/
theorem second_ne_colon {e : Expr} (h : Expressible e) :
    (e.atoms grammar)[1]? ≠ some (.symbol ":") := by
  have hfirst {x : Expr} (hx : Expressible x) (a : Atom) (as : List Atom) :
      (a :: (x.atoms grammar ++ as))[1]? ≠ some (.symbol ":") := by
    obtain ⟨b, bs, hatoms, hstart, _⟩ := exists_first hx
    rw [hatoms]
    exact fun h => ne_of_starts hstart (by decide) (Option.some.inj h)
  have hafter {x : Expr} (hx : Expressible x) (ih : (x.atoms grammar)[1]? ≠ some (.symbol ":"))
      {a : Atom} (ha : a ≠ .symbol ":") (as : List Atom) :
      (x.atoms grammar ++ (a :: as))[1]? ≠ some (.symbol ":") := by
    obtain ⟨b, bs, hatoms, _, _⟩ := exists_first hx
    rw [hatoms] at ih ⊢
    cases bs with
    | nil => exact fun h => ha (Option.some.inj h)
    | cons d bs => exact ih
  have hsymbol {s : String} (hs : s ≠ ":") : Atom.symbol s ≠ .symbol ":" :=
    fun h => hs (Atom.symbol.inj h)
  induction h with
  | null | boolean | integer | string | identifier => exact fun h => by cases h
  | grouped hx => exact hfirst hx _ _
  | @list p items h =>
    intro heq
    change (atomsOfItems grammar .key items ++ [Atom.symbol "]"])[0]? = _ at heq
    rw [← List.head?_eq_getElem?] at heq
    cases hitems : (atomsOfItems grammar .key items).head? with
    | none =>
      rw [List.head?_eq_none_iff.mp hitems] at heq
      exact hsymbol (by decide) (Option.some.inj heq)
    | some a =>
      rw [List.head?_append, hitems] at heq
      cases heq
      rcases head_items h hitems with ⟨text, htext⟩ | hstart
      · cases htext
      · exact ne_of_starts hstart (by decide) rfl
  | call hc _ _ _ ih => exact hafter hc ih (hsymbol (by decide)) _
  | member hx _ _ ih => exact hafter hx ih (hsymbol (by decide)) _
  | index hx _ _ ih => exact hafter hx ih (hsymbol (by decide)) _
  | slice hx _ _ _ ih => exact hafter hx ih (hsymbol (by decide)) _
  | @unary p op x spec hs hx =>
    have h := hfirst hx (.symbol spec.token) []
    rw [List.append_nil] at h
    rwa [atoms_unary hs]
  | @binary p op x y spec hs hx _ _ _ _ ih =>
    obtain ⟨word, hword, _, _, _, hword', _⟩ := binarySpec?_cases hs
    rw [atoms_binary hs hword]
    refine hafter hx ih (hsymbol ?_) _
    rintro rfl
    exact hword' (by decide)

/-- The least precedences that are still open at the end of a tree. -/
def openFloors : Expr → List Nat
  | .unary _ op x => (prefixSpec? op).toList.map (·.precedence) ++ openFloors x
  | .binary _ op _ y => (binarySpec? op).toList.map Grammar.rightFloor ++ openFloors y
  | _ => []

theorem openFloors_unary {op : UnaryOp} {spec : PrefixSpec} (h : prefixSpec? op = some spec)
    (p : Position) (x : Expr) :
    openFloors (.unary p op x) = spec.precedence :: openFloors x := by
  change (prefixSpec? op).toList.map (·.precedence) ++ openFloors x = _
  rw [h]
  rfl

theorem openFloors_binary {op : BinaryOp} {spec : OperatorSpec} (h : binarySpec? op = some spec)
    (p : Position) (x y : Expr) :
    openFloors (.binary p op x y) = Grammar.rightFloor spec :: openFloors y := by
  change (binarySpec? op).toList.map Grammar.rightFloor ++ openFloors y = _
  rw [h]
  rfl

theorem precedence_le_rightFloor (spec : OperatorSpec) :
    spec.precedence ≤ Grammar.rightFloor spec := by
  unfold Grammar.rightFloor
  split <;> omega

/-- Operators of one precedence all go together to the left, or all to the right. -/
theorem lt_rightFloor {outer inner : OperatorSpec} (ho : outer ∈ binaryOps) (hi : inner ∈ binaryOps)
    (h : leftFloor outer ≤ inner.precedence) : outer.precedence < Grammar.rightFloor inner := by
  have hassoc : ∀ outer ∈ binaryOps, ∀ inner ∈ binaryOps,
      outer.precedence = inner.precedence → outer.assoc = inner.assoc := by decide
  have hsame := hassoc outer ho inner hi
  have hle := precedence_le_rightFloor inner
  unfold leftFloor at h
  cases houter : outer.assoc with
  | right =>
    rw [houter] at h
    dsimp only at h
    omega
  | left =>
    rw [houter] at h hsame
    dsimp only at h
    unfold Grammar.rightFloor
    cases hinner : inner.assoc with
    | left => exact Nat.lt_succ_of_le h
    | right =>
      rw [hinner] at hsame
      have hne : outer.precedence ≠ inner.precedence := fun heq => by cases hsame heq
      exact Nat.lt_of_le_of_ne h hne

theorem lt_openFloors {e : Expr} (h : Expressible e) {p : Nat}
    (hroot : ∀ spec ∈ rootSpec? e, p < Grammar.rightFloor spec)
    (hends : ∀ spec ∈ endingPrefixes e, p < spec.precedence) : ∀ floor ∈ openFloors e, p < floor := by
  induction h with
  | @unary _ op x spec hs _ _ hb ih =>
    change ∀ inner ∈ (prefixSpec? op).toList ++ endingPrefixes x, p < inner.precedence at hends
    rw [hs] at hends
    have hspec : p < spec.precedence := hends spec List.mem_cons_self
    rw [openFloors_unary hs]
    refine List.forall_mem_cons.mpr ⟨hspec, ih ?_ ?_⟩
    · intro inner hinner
      exact Nat.lt_of_lt_of_le hspec (Nat.le_trans (hb inner hinner) (precedence_le_rightFloor inner))
    · intro inner hinner
      exact hends inner (List.mem_append_right _ hinner)
  | @binary _ op x y spec hs _ _ _ hr _ _ ih =>
    have hspec : p < Grammar.rightFloor spec := hroot spec hs
    rw [openFloors_binary hs]
    refine List.forall_mem_cons.mpr ⟨hspec, ih ?_ hends⟩
    intro inner hinner
    exact Nat.lt_of_lt_of_le hspec (Nat.le_trans (hr inner hinner) (precedence_le_rightFloor inner))
  | _ => exact List.forall_mem_nil _

end EmbeddedLang.Arithmetic
