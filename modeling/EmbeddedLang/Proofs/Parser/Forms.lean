import EmbeddedLang.Parser.Expression
import EmbeddedLang.Proofs.Expr.Nodes
import EmbeddedLang.Proofs.Parser.Reads

/-!
What every node puts down, what every form is written as, and where its nodes stand.

A form has tokens of its own, and its operands are written between them. It begins with a token of
its own or with its first operand. The forms that all languages share are below; those that a
language adds are a parameter.
-/

namespace EmbeddedLang

/-! ### Trees laid flat -/

/-- A piece of an expression. A form that the tables of a grammar have no word for puts down what no
token is. -/
inductive Atom where
  | symbol (text : String)
  | name (text : String)
  | property (text : String)
  | literal (value : Literal)
  | key (text : String)
  | foreign

def Grammar.binaryAtoms (g : Grammar) (op : BinaryOp) : List Atom :=
  match g.binaryOps.find? (·.op == op) with
  | some spec => spec.tokens.map .symbol
  | none => [.foreign]

def Grammar.prefixAtom (g : Grammar) (op : UnaryOp) : Atom :=
  match g.prefixOps.find? (·.op == op) with
  | some spec => .symbol spec.token
  | none => .foreign

/-- A name or a key with its colon, if there is one. -/
def labelAtoms (label : String → Atom) : Option String → List Atom
  | some text => [label text, .symbol ":"]
  | none => []

section atoms

variable (g : Grammar)

mutual

def Expr.atoms : Expr → List Atom
  | .literal _ l => [.literal l]
  | .identifier _ name => [.name name]
  | .unary _ op x => g.prefixAtom op :: x.atoms
  | .binary _ op x y => x.atoms ++ (g.binaryAtoms op ++ y.atoms)
  | .call _ callee args distinct =>
    callee.atoms ++ (.symbol "(" :: ((if distinct then [.foreign] else []) ++
      (atomsOfItems .name args ++ [.symbol ")"])))
  | .member _ x property => x.atoms ++ [.symbol ".", .property property]
  | .index _ x y => x.atoms ++ (.symbol "[" :: (y.atoms ++ [.symbol "]"]))
  | .slice _ x first last =>
    x.atoms ++ (.symbol "[" :: (atomsOfOption first ++ (.symbol ":" :: (atomsOfOption last ++
      [.symbol "]"]))))
  | .list _ items => .symbol "[" :: (atomsOfItems .key items ++ [.symbol "]"])
  | .grouped _ x => .symbol "(" :: (x.atoms ++ [.symbol ")"])
  | _ => [.foreign]

def atomsOfOption : Option Expr → List Atom
  | none => []
  | some e => e.atoms

/-- Items with commas between them. -/
def atomsOfItems (label : String → Atom) : List Item → List Atom
  | [] => []
  | [⟨text, e⟩] => labelAtoms label text ++ e.atoms
  | ⟨text, e⟩ :: item :: rest =>
    labelAtoms label text ++ e.atoms ++ (.symbol "," :: atomsOfItems label (item :: rest))

end

end atoms

section items

variable {g : Grammar} {label : String → Atom}

def Item.atoms (g : Grammar) (label : String → Atom) (item : Item) : List Atom :=
  labelAtoms label item.label ++ item.value.atoms g

theorem atomsOfItems_singleton (item : Item) :
    atomsOfItems g label [item] = item.atoms g label := by
  obtain ⟨text, e⟩ := item
  rfl

theorem atomsOfItems_cons_cons (item next : Item) (rest : List Item) :
    atomsOfItems g label (item :: next :: rest) =
      item.atoms g label ++ (.symbol "," :: atomsOfItems g label (next :: rest)) := by
  obtain ⟨text, e⟩ := item
  rw [atomsOfItems]
  rfl

theorem atomsOfItems_cons (item : Item) (rest : List Item) :
    atomsOfItems g label (item :: rest) =
      item.atoms g label ++ rest.flatMap fun next => .symbol "," :: next.atoms g label := by
  induction rest generalizing item with
  | nil => rw [atomsOfItems_singleton, List.flatMap_nil, List.append_nil]
  | cons next rest ih =>
    rw [atomsOfItems_cons_cons, ih, List.flatMap_cons]
    rfl

/-- Lists of items are read from the left, so the last item is the one that is added. -/
theorem atomsOfItems_concat {items : List Item} (h : items ≠ []) (item : Item) :
    atomsOfItems g label (items ++ [item]) =
      atomsOfItems g label items ++ (.symbol "," :: item.atoms g label) := by
  obtain ⟨first, rest, rfl⟩ := List.exists_cons_of_ne_nil h
  rw [List.cons_append, atomsOfItems_cons, atomsOfItems_cons, List.flatMap_append,
    List.flatMap_singleton, List.append_assoc]

end items

/-! ### Spelling -/

/-- A numeric literal swallows the minus signs that stand directly before it. -/
inductive Literal.SpelledBy (g : Grammar) : Literal → List Token → Prop where
  | integer {token : Token} {n : Nat} (hk : token.kind = .integer)
      (hn : Decimal.natural? token.lexeme.toList = some n) (hlt : n < Nat.pow 2 63) :
      SpelledBy g (.integer (Int64.ofNat n)) [token]
  | float {token : Token} {x : Float} (hk : token.kind = .float)
      (hx : Decimal.float? token.lexeme.toList = some x) : SpelledBy g (.float x) [token]
  | string {token : Token} (hk : token.kind = .string) :
      SpelledBy g (.string (g.table.unescape token.lexeme)) [token]
  | keyword {token : Token} {word : String} {l : Literal} (hk : token.kind = .keyword word)
      (hl : Grammar.keywordLiteral? g.table word = some l) : SpelledBy g l [token]
  | minusInteger {token : Token} {n : Int64} {ts : List Token}
      (hm : ∃ s, g.prefixAtom .neg = .symbol s ∧ token.symbol? = some s)
      (h : SpelledBy g (.integer n) ts) : SpelledBy g (.integer (-n)) (token :: ts)
  | minusFloat {token : Token} {x : Float} {ts : List Token}
      (hm : ∃ s, g.prefixAtom .neg = .symbol s ∧ token.symbol? = some s)
      (h : SpelledBy g (.float x) ts) : SpelledBy g (.float (-x)) (token :: ts)

inductive Atom.SpelledBy (g : Grammar) : Atom → List Token → Prop where
  | symbol {token : Token} {s : String} (h : token.symbol? = some s) :
      SpelledBy g (.symbol s) [token]
  | name {token : Token} (h : token.isIdentifier) : SpelledBy g (.name token.name) [token]
  | property {token : Token} (h : token.isIdentifier ∨ ∃ word, token.kind = .keyword word) :
      SpelledBy g (.property token.name) [token]
  | literal {l : Literal} {ts : List Token} (h : l.SpelledBy g ts) : SpelledBy g (.literal l) ts
  | stringKey {token : Token} (h : token.kind = .string) :
      SpelledBy g (.key (g.table.unescape token.lexeme)) [token]
  | plainKey {token : Token} (h : token.kind = .identifier ∨ token.kind = .integer) :
      SpelledBy g (.key token.lexeme) [token]

/-- The tokens spell the atoms one after the other. -/
inductive Spelled (g : Grammar) : List Atom → List Token → Prop where
  | nil : Spelled g [] []
  | cons {a : Atom} {as : List Atom} {ts us : List Token} (h : a.SpelledBy g ts)
      (hs : Spelled g as us) : Spelled g (a :: as) (ts ++ us)

variable {g : Grammar}

theorem Spelled.single {a : Atom} {ts : List Token} (h : a.SpelledBy g ts) :
    Spelled g [a] ts := by
  rw [← List.append_nil ts]
  exact .cons h .nil

theorem Spelled.token {a : Atom} {as : List Atom} {token : Token} {us : List Token}
    (h : a.SpelledBy g [token]) (hs : Spelled g as us) : Spelled g (a :: as) (token :: us) :=
  .cons h hs

theorem Spelled.append {as bs : List Atom} {ts us : List Token} (h : Spelled g as ts)
    (h' : Spelled g bs us) : Spelled g (as ++ bs) (ts ++ us) := by
  induction h with
  | nil => exact h'
  | cons ha _ ih =>
    rw [List.append_assoc]
    exact .cons ha ih

theorem Spelled.symbols {symbols : List String} {ts : List Token}
    (h : ts.map Token.symbol? = symbols.map some) : Spelled g (symbols.map .symbol) ts := by
  induction symbols generalizing ts with
  | nil =>
    rw [List.map_eq_nil_iff.mp h]
    exact .nil
  | cons s rest ih =>
    obtain ⟨token, us, rfl, hs, hrest⟩ := List.map_eq_cons_iff.mp h
    exact .cons (.symbol hs) (ih hrest)

theorem Atom.SpelledBy.operator {token : Token} {op : String} (h : token.isOperator op) :
    Atom.SpelledBy g (.symbol op) [token] := by
  apply symbol
  unfold Token.symbol?
  rw [beq_iff_eq.mp h]

/-! ### Parts -/

/-- A piece of a form. -/
inductive Part where
  | own (token : Token)
  | inner (e : Expr)

/-- The expressions among the parts. -/
def exprsOf (parts : List Part) : List Expr :=
  parts.filterMap fun
    | .own _ => none
    | .inner e => some e

def optionParts (o : Option Expr) : List Part :=
  o.toList.map .inner

variable {parts parts' : List Part} {ts us : List Token} {e : Expr}

@[simp] theorem exprsOf_append : exprsOf (parts ++ parts') = exprsOf parts ++ exprsOf parts' :=
  List.filterMap_append

@[simp] theorem exprsOf_own (token : Token) : exprsOf (.own token :: parts) = exprsOf parts := rfl

@[simp] theorem exprsOf_inner : exprsOf (.inner e :: parts) = e :: exprsOf parts := rfl

@[simp] theorem exprsOf_nil : exprsOf [] = [] := rfl

@[simp] theorem exprsOf_tokens (ts : List Token) : exprsOf (ts.map .own) = [] := by
  induction ts with
  | nil => rfl
  | cons token rest ih => exact ih

@[simp] theorem exprsOf_optionParts (o : Option Expr) : exprsOf (optionParts o) = o.toList := by
  cases o <;> rfl

/-! ### Forms -/

/-- A word that may stand here, and whether it does. -/
inductive Flag (p : Token → Bool) : Bool → List Token → Prop where
  | present {token : Token} (h : p token) : Flag p true [token]
  | absent : Flag p false []

section forms

variable (g : Grammar)

/-- Items with commas between them. -/
inductive ItemsForm (label : String → Atom) : List Item → List Part → Prop where
  | single {text : Option String} {e : Expr} {ts : List Token}
      (h : Spelled g (labelAtoms label text) ts) :
      ItemsForm label [⟨text, e⟩] (ts.map .own ++ [.inner e])
  | more {items : List Item} {parts : List Part} {comma : Token} {text : Option String} {e : Expr}
      {ts : List Token} (hitems : ItemsForm label items parts) (hcomma : comma.isOperator ",")
      (h : Spelled g (labelAtoms label text) ts) :
      ItemsForm label (items ++ [⟨text, e⟩])
        (parts ++ .own comma :: (ts.map .own ++ [.inner e]))

/-- Items through the operator that closes their list. -/
inductive ListForm (label : String → Atom) (closer : String) : List Item → List Part → Prop where
  | empty {token : Token} (h : token.isOperator closer) : ListForm label closer [] [.own token]
  | items {items : List Item} {parts : List Part} {token : Token}
      (hitems : ItemsForm g label items parts) (h : token.isOperator closer) :
      ListForm label closer items (parts ++ [.own token])

/-- Arguments through the closing parenthesis, and whether they are distinct. -/
inductive ArgumentsForm : List Item → Bool → List Part → Prop where
  | mk {items : List Item} {distinct : Bool} {word : List Token} {parts : List Part}
      (hword : Flag (fun token => g.table.distinctKeyword.any token.isKeyword) distinct word)
      (hitems : ListForm g .name ")" items parts) :
      ArgumentsForm items distinct (word.map .own ++ parts)

/-- What nodes may be written as. -/
abbrev Forms := Expr → List Part → Prop

variable (F : Forms)

/-- What a node is written as, in a language that adds the forms `F`. -/
inductive Form : Forms where
  | literal {p : Position} {l : Literal} {ts : List Token} (h : l.SpelledBy g ts) :
      Form (.literal p l) (ts.map .own)
  | identifier {p : Position} {token : Token} (h : token.isIdentifier) :
      Form (.identifier p token.name) [.own token]
  | unary {p : Position} {spec : PrefixSpec} {token : Token} {x : Expr} (hspec : spec ∈ g.prefixOps)
      (h : token.symbol? = some spec.token) :
      Form (.unary p spec.op x) [.own token, .inner x]
  | binary {p : Position} {spec : OperatorSpec} {ts : List Token} {x y : Expr}
      (hspec : spec ∈ g.binaryOps) (h : ts.map Token.symbol? = spec.tokens.map some) :
      Form (.binary p spec.op x y) (.inner x :: (ts.map .own ++ [.inner y]))
  | call {p : Position} {callee : Expr} {items : List Item} {distinct : Bool} {opener : Token}
      {parts : List Part} (hopener : opener.isOperator "(")
      (hitems : ArgumentsForm g items distinct parts) :
      Form (.call p callee items distinct) (.inner callee :: .own opener :: parts)
  | member {p : Position} {x : Expr} {name : String} {dot : Token} {ts : List Token}
      (hdot : dot.isOperator ".") (h : Spelled g [.property name] ts) :
      Form (.member p x name) (.inner x :: .own dot :: ts.map .own)
  | index {p : Position} {x y : Expr} {opener closer : Token} (hopener : opener.isOperator "[")
      (hcloser : closer.isOperator "]") :
      Form (.index p x y) [.inner x, .own opener, .inner y, .own closer]
  | slice {p : Position} {x : Expr} {first last : Option Expr} {opener colon closer : Token}
      (hopener : opener.isOperator "[") (hcolon : colon.isOperator ":")
      (hcloser : closer.isOperator "]") :
      Form (.slice p x first last) (.inner x :: .own opener :: (optionParts first ++
        .own colon :: (optionParts last ++ [.own closer])))
  | list {p : Position} {items : List Item} {opener : Token} {parts : List Part}
      (hopener : opener.isOperator "[") (hitems : ListForm g .key "]" items parts) :
      Form (.list p items) (.own opener :: parts)
  | grouped {p : Position} {x : Expr} {opener closer : Token} (hopener : opener.isOperator "(")
      (hcloser : closer.isOperator ")") :
      Form (.grouped p x) [.own opener, .inner x, .own closer]
  | added {e : Expr} {parts : List Part} (h : F e parts) : Form e parts

/-- The parts are written as the tokens, and every node in them has the position of the first token
that it is written as. -/
inductive Written : List Part → List Token → Prop where
  | nil : Written [] []
  | own {token : Token} {parts : List Part} {ts : List Token} (h : Written parts ts) :
      Written (.own token :: parts) (token :: ts)
  | inner {e : Expr} {inside parts : List Part} {ts us : List Token} (hform : Form g F e inside)
      (hinside : Written inside ts) (hfirst : ts.head?.map Token.position = some e.position)
      (h : Written parts us) : Written (.inner e :: parts) (ts ++ us)

/-- The node is written as these tokens. -/
def Expr.WrittenAs (e : Expr) (ts : List Token) : Prop :=
  Written g F [.inner e] ts

end forms

/-- No form but those that all languages share. -/
def noForms : Forms := fun _ _ => False

variable {g : Grammar} {F : Forms}

theorem ItemsForm.exprsOf_eq {label : String → Atom} {items : List Item}
    (h : ItemsForm g label items parts) : exprsOf parts = items.map (·.value) := by
  induction h with
  | single => simp
  | more _ _ _ ih => simp [ih]

theorem ListForm.exprsOf_eq {label : String → Atom} {closer : String} {items : List Item}
    (h : ListForm g label closer items parts) : exprsOf parts = items.map (·.value) := by
  cases h with
  | empty => rfl
  | items hitems => simp [hitems.exprsOf_eq]

theorem ArgumentsForm.exprsOf_eq {items : List Item} {distinct : Bool}
    (h : ArgumentsForm g items distinct parts) : exprsOf parts = items.map (·.value) := by
  obtain ⟨-, hitems⟩ := h
  simp [hitems.exprsOf_eq]

/-- The operands of the node are written in the order in which they are visited. Those that stand in
a subquery are not visited, and may be in any order. -/
def InPlace (e : Expr) (parts : List Part) : Prop :=
  exprsOf parts = e.children ∧ e.entered = e.children ∨
    e.children = [] ∧ (exprsOf parts).Perm e.entered

abbrev Forms.InPlace (F : Forms) : Prop :=
  ∀ e parts, F e parts → EmbeddedLang.InPlace e parts

theorem Form.inPlace (hF : F.InPlace) : (Form g F).InPlace := by
  intro e parts h
  cases h with
  | added h => exact hF e parts h
  | call _ hitems | list _ hitems =>
    exact .inl ⟨by simp [Expr.children, hitems.exprsOf_eq], rfl⟩
  | _ => exact .inl ⟨by simp [Expr.children], rfl⟩

theorem InPlace.entered_perm (h : InPlace e parts) : (exprsOf parts).Perm e.entered := by
  rcases h with ⟨hexprs, hentered⟩ | ⟨-, hexprs⟩
  · rw [hexprs, hentered]
  · exact hexprs

/-- What is visited below a node is written among its parts, in this order. -/
theorem InPlace.walk_sublist (h : InPlace e parts) :
    (e.children.flatMap Expr.walk).Sublist ((exprsOf parts).flatMap Expr.walk) := by
  rcases h with ⟨hexprs, -⟩ | ⟨hchildren, -⟩
  · exact hexprs ▸ List.Sublist.refl _
  · rw [hchildren]
    exact List.nil_sublist _

/-! ### Positions -/

namespace Written

theorem tokens (ts : List Token) : Written g F (ts.map .own) ts := by
  induction ts with
  | nil => exact .nil
  | cons token rest ih => exact .own ih

theorem eq_tokens (h : Written g F (us.map .own) ts) : ts = us := by
  induction us generalizing ts with
  | nil =>
    cases h
    rfl
  | cons token rest ih =>
    cases h with
    | own h => rw [ih h]

theorem append (h : Written g F parts ts) (h' : Written g F parts' us) :
    Written g F (parts ++ parts') (ts ++ us) := by
  induction h with
  | nil => exact h'
  | own _ ih => exact .own ih
  | inner hform hinside hfirst _ _ ih =>
    rw [List.append_assoc]
    exact .inner hform hinside hfirst ih

theorem cons (h : e.WrittenAs g F ts) (h' : Written g F parts us) :
    Written g F (.inner e :: parts) (ts ++ us) :=
  append h h'

end Written

theorem Expr.writtenAs_iff : e.WrittenAs g F ts ↔ ∃ parts, Form g F e parts ∧ Written g F parts ts ∧
    ts.head?.map Token.position = some e.position := by
  constructor
  · intro h
    cases h with
    | inner hform hinside hfirst h =>
      cases h
      rw [List.append_nil]
      exact ⟨_, hform, hinside, hfirst⟩
  · rintro ⟨parts, hform, hinside, hfirst⟩
    rw [← List.append_nil ts]
    exact .inner hform hinside hfirst .nil

namespace Expr.WrittenAs

theorem head?_eq (h : e.WrittenAs g F ts) : ts.head?.map Token.position = some e.position := by
  obtain ⟨-, -, -, hfirst⟩ := writtenAs_iff.mp h
  exact hfirst

theorem literal {p : Position} {l : Literal} (h : l.SpelledBy g ts)
    (hp : ts.head?.map Token.position = some p) : (Expr.literal p l).WrittenAs g F ts :=
  writtenAs_iff.mpr ⟨_, .literal h, .tokens ts, hp⟩

theorem spelledBy {p : Position} {l : Literal} (hF : ∀ parts, ¬ F (.literal p l) parts)
    (h : (Expr.literal p l).WrittenAs g F ts) : l.SpelledBy g ts := by
  obtain ⟨parts, hform, hparts, -⟩ := writtenAs_iff.mp h
  cases hform with
  | literal h => exact hparts.eq_tokens ▸ h
  | added h => exact absurd h (hF parts)

/-- A form that begins with a token of its own. -/
theorem lead {token : Token} (hform : Form g F e (.own token :: parts))
    (hp : e.position = token.position) (h : Written g F parts ts) : e.WrittenAs g F (token :: ts) :=
  writtenAs_iff.mpr ⟨_, hform, .own h, congrArg some hp.symm⟩

/-- A form that begins with its first operand. -/
theorem extend {left : Expr} (hleft : left.WrittenAs g F us)
    (hform : Form g F e (.inner left :: parts)) (hp : e.position = left.position)
    (h : Written g F parts ts) : e.WrittenAs g F (us ++ ts) := by
  refine writtenAs_iff.mpr ⟨_, hform, .cons hleft h, ?_⟩
  have hfirst := hleft.head?_eq
  obtain ⟨first, hhead, hposition⟩ := Option.map_eq_some_iff.mp hfirst
  rw [List.head?_append, hhead, Option.some_or, Option.map_some, hposition, hp]

end Expr.WrittenAs

/-- Every node stands at the first token that it is written as. -/
theorem Written.nodes_at_first (hF : F.InPlace) (h : Written g F parts ts) :
    ∀ n ∈ (exprsOf parts).flatMap Expr.nodes,
      ∃ us, us <:+: ts ∧ n.WrittenAs g F us ∧ us.head?.map Token.position = some n.position := by
  induction h with
  | nil => nofun
  | own _ ih =>
    intro n hn
    obtain ⟨us, hus, hwritten⟩ := ih n hn
    exact ⟨us, List.infix_cons hus, hwritten⟩
  | @inner e inside parts ts us hform hinside hfirst _ ihinside ih =>
    rw [exprsOf_inner, List.flatMap_cons, Expr.nodes_eq]
    intro n hn
    rcases List.mem_append.mp hn with hn | hn
    · rcases List.mem_cons.mp hn with rfl | hn
      · have hwritten := Expr.writtenAs_iff.mpr ⟨_, hform, hinside, hfirst⟩
        exact ⟨ts, (List.prefix_append ts us).isInfix, hwritten, hfirst⟩
      · have hinner := ((Form.inPlace hF _ _ hform).entered_perm.flatMap_right Expr.nodes).mem_iff.mpr hn
        obtain ⟨vs, hvs, hwritten⟩ := ihinside n hinner
        exact ⟨vs, hvs.trans (List.prefix_append ts us).isInfix, hwritten⟩
    · obtain ⟨vs, hvs, hwritten⟩ := ih n hn
      exact ⟨vs, hvs.trans (List.suffix_append ts us).isInfix, hwritten⟩

/-- Nodes that are visited stand at tokens. -/
theorem Written.walk_at_tokens (hF : F.InPlace) (h : Written g F parts ts) :
    ∀ n ∈ (exprsOf parts).flatMap Expr.walk, ∃ token ∈ ts, token.position = n.position := by
  induction h with
  | nil => nofun
  | own _ ih => exact fun n hn => (ih n hn).imp fun _ => And.imp_left (List.mem_cons_of_mem _)
  | @inner e inside parts ts us hform _ hfirst _ ihinside ih =>
    obtain ⟨first, hhead, hposition⟩ := Option.map_eq_some_iff.mp hfirst
    rw [exprsOf_inner, List.flatMap_cons, Expr.walk_eq]
    refine List.forall_mem_append.mpr ⟨List.forall_mem_cons.mpr ⟨?_, fun n hn => ?_⟩, fun n hn => ?_⟩
    · exact ⟨first, List.mem_append_left _ (List.mem_of_head? hhead), hposition⟩
    · have hinside := ihinside n ((Form.inPlace hF _ _ hform).walk_sublist.subset hn)
      exact hinside.imp fun _ => And.imp_left (List.mem_append_left _)
    · exact (ih n hn).imp fun _ => And.imp_left (List.mem_append_right _)

/-- No token stands before an earlier one. -/
abbrev InOrder (ts : List Token) : Prop :=
  ts.Pairwise fun a b => a.position.offset ≤ b.position.offset

theorem InOrder.head_le {first token : Token} (h : InOrder ts) (hfirst : ts.head? = some first)
    (ht : token ∈ ts) : first.position.offset ≤ token.position.offset := by
  obtain ⟨rest, rfl⟩ := List.head?_eq_some_iff.mp hfirst
  rcases List.mem_cons.mp ht with rfl | ht
  · exact Nat.le_refl _
  · exact (List.pairwise_cons.mp h).1 token ht

/-- Nodes are visited in the order of their tokens. -/
theorem Written.walk_inOrder (hF : F.InPlace) (h : Written g F parts ts) (hts : InOrder ts) :
    ((exprsOf parts).flatMap Expr.walk).Pairwise
      fun a b => a.position.offset ≤ b.position.offset := by
  induction h with
  | nil => exact .nil
  | own _ ih => exact ih (List.pairwise_cons.mp hts).2
  | @inner e inside parts ts us hform hinside hfirst hrest ihinside ih =>
    obtain ⟨hts, hus, hacross⟩ := List.pairwise_append.mp hts
    have hnode : Written g F [.inner e] ts := Expr.writtenAs_iff.mpr ⟨_, hform, hinside, hfirst⟩
    rw [exprsOf_inner, List.flatMap_cons]
    refine List.pairwise_append.mpr ⟨?_, ih hus, fun a ha b hb => ?_⟩
    · rw [Expr.walk_eq]
      have hbelow := (Form.inPlace hF _ _ hform).walk_sublist
      refine List.pairwise_cons.mpr ⟨fun n hn => ?_, (ihinside hts).sublist hbelow⟩
      obtain ⟨first, hhead, hposition⟩ := Option.map_eq_some_iff.mp hfirst
      obtain ⟨token, ht, hp⟩ := hinside.walk_at_tokens hF n (hbelow.subset hn)
      rw [← hposition, ← hp]
      exact InOrder.head_le hts hhead ht
    · obtain ⟨token, ht, hp⟩ := hnode.walk_at_tokens hF a (by simpa using ha)
      obtain ⟨token', ht', hp'⟩ := hrest.walk_at_tokens hF b hb
      rw [← hp, ← hp']
      exact hacross token ht token' ht'

end EmbeddedLang
