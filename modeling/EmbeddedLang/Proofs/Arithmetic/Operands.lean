import EmbeddedLang.Proofs.Arithmetic.Lookahead
import EmbeddedLang.Proofs.Parser.Integers

/-!
Operands are parsed from their tokens, given that what is in them is.

The induction on a tree needs to know what comes after it. An operand is followed by anything, as a
longer operand may begin with it. A term is followed by no operator that goes on with an operator at
its right end.
-/

namespace EmbeddedLang.Arithmetic

open Parse

variable {c : Cursor} {token : Token} {ts : List Token}

/-! ### Expressions -/

/-- From the tokens of an operand come a form without anything behind it, and then the rest. -/
def ParsesOperand (e : Expr) : Prop :=
  ∀ {ts : List Token} {depth : Nat} {c : Cursor}, Shown (e.atoms grammar) ts → ts.length ≤ depth →
    c.fault = none → ∃ e₀ c₀ e',
      Gives (grammar.commonPrimary (grammar.nested depth)) (c.before ts) e₀ c₀ ∧
      Steps (grammar.extendPostfix (grammar.nested depth)) e₀ c₀ e' c ∧ forget e' = forget e

/-- From the tokens of a tree come what is left of its first operator, and then the rest. -/
def ParsesTerm (e : Expr) : Prop :=
  ∀ {ts : List Token} {depth floor : Nat} {c : Cursor}, Shown (e.atoms grammar) ts →
    ts.length ≤ depth → Ends c → BindsAt floor e → (∀ inner ∈ openFloors e, Stops inner c) →
    ∃ e₀ c₀ e', Gives (grammar.unaryWith (grammar.nested depth)) (c.before ts) e₀ c₀ ∧
      Steps (grammar.extendRight (grammar.nested depth) floor) e₀ c₀ e' c ∧ forget e' = forget e

structure Parses (e : Expr) : Prop where
  operand : isOperation e = false → ParsesOperand e
  term : ParsesTerm e

theorem Parses.expression {e : Expr} (h : Parses e) {depth floor : Nat}
    (hts : Shown (e.atoms grammar) ts) (hd : ts.length < depth) (hc : Ends c) (hb : BindsAt floor e)
    (hs : ∀ inner ∈ floor :: openFloors e, Stops inner c) :
    ∃ e', Gives (grammar.nested depth floor) (c.before ts) e' c ∧ forget e' = forget e := by
  obtain ⟨depth, rfl⟩ := Nat.exists_eq_succ_of_ne_zero (Nat.ne_zero_of_lt hd)
  obtain ⟨hfloor, hopen⟩ := List.forall_mem_cons.mp hs
  obtain ⟨e₀, c₀, e', hunary, hsteps, hforget⟩ :=
    h.term hts (Nat.le_of_lt_succ hd) hc hb hopen
  have hstop := extendRight_stops hc.fault hfloor (grammar.nested depth) e'
  exact ⟨e', hunary.bind (whileSome_gives hsteps hstop), hforget⟩

theorem Parses.closed {e : Expr} (h : Parses e) {depth : Nat} (hts : Shown (e.atoms grammar) ts)
    (hd : ts.length < depth) (hc : Closed c) :
    ∃ e', Gives (grammar.nested depth 0) (c.before ts) e' c ∧ forget e' = forget e :=
  h.expression hts hd hc.ends (fun _ _ => Nat.zero_le _) fun floor _ => hc.stops floor

theorem parses_of_operand {e : Expr} (he : Expressible e) (ho : isOperation e = false)
    (h : ParsesOperand e) : Parses e where
  operand _ := h
  term {ts depth floor c} hts hd hc hb hs := by
    obtain ⟨e₀, c₀, e', hprimary, hsteps, hforget⟩ := h hts hd hc.fault
    have hwhole : Gives (grammar.primaryWith (grammar.nested depth)) (c.before ts) e' c :=
      hprimary.bind (whileSome_gives hsteps (extendPostfix_ends hc _ _))
    obtain ⟨a, as, hatoms, _, hstart⟩ := exists_first he
    rw [hatoms] at hts
    obtain ⟨token, us, rfl, ⟨hkind, _⟩, _⟩ := shown_cons_iff.mp hts
    have hspec : grammar.prefixOf token = none := prefixOf_of_startsOperand hkind (hstart ho)
    -- the loop over operators has nothing to add
    refine ⟨e', c, e', ?_, .refl _ _, hforget⟩
    apply peek_before.bind
    dsimp only
    rw [hspec]
    exact hwhole

/-! ### Items -/

/-- A rule that takes a label with its colon, and nothing where a colon does not come second. -/
structure LabelRule (label : String → Atom) (rule : Parse (Option String)) : Prop where
  labelled : ∀ {s : String} {first colon : Token} {ts : List Token} {c : Cursor},
    first.kind = kind (label s) → first.lexeme = text (label s) → colon.isOperator ":" →
    Gives rule (c.before (first :: colon :: ts)) (some s) (c.before ts)
  plain : ∀ {c : Cursor}, c.fault = none →
    (∀ second ∈ c.tokens[1]?, second.isOperator ":" = false) → Gives rule c none c

theorem itemKey_labelRule : LabelRule .key (itemKey table) where
  labelled {s first colon ts c} hkind hlexeme hcolon := by
    apply peek_before.bind
    apply peekSecond_before.bind
    dsimp only
    rw [if_pos hcolon, hkind, hlexeme]
    change Gives (do
      let _ ← next
      let _ ← next
      return some (table.unescape (quoted s))) _ _ _
    rw [unescape_quoted]
    exact next_gives.bind (next_gives.bind (.pure _ _))
  plain {c} hf h := by
    apply (peek_gives hf).bind
    apply (peekNth_gives 1 hf).bind
    cases c.tokens.head? with
    | none => exact .pure none c
    | some first =>
      cases hsecond : c.tokens[1]? with
      | none => exact .pure none c
      | some second =>
        dsimp only
        rw [h second hsecond]
        exact .pure none c

theorem argumentName_labelRule : LabelRule .name (argumentName table) where
  labelled {s first colon ts c} hkind hlexeme hcolon := by
    have hname : first.kind == .identifier && colon.isOperator ":" := by
      rw [hkind, hcolon]
      rfl
    apply peek_before.bind
    apply peekSecond_before.bind
    dsimp only
    rw [if_pos hname, hlexeme]
    exact next_gives.bind (next_gives.bind (.pure _ _))
  plain {c} hf h := by
    apply (peek_gives hf).bind
    apply (peekNth_gives 1 hf).bind
    cases c.tokens.head? with
    | none => exact .pure none c
    | some first =>
      cases hsecond : c.tokens[1]? with
      | none => exact .pure none c
      | some second =>
        dsimp only
        rw [h second hsecond, Bool.and_false]
        exact .pure none c

/-- An item can end here. -/
structure ItemEnds (c : Cursor) : Prop where
  closed : Closed c
  colon : NotAhead (·.isOperator ":") c

theorem itemEnds_before {s : String} (hf : c.fault = none) (hs : s ∈ [")", "]", ","])
    (h : token.kind = kind (.symbol s)) : ItemEnds (c.before (token :: ts)) where
  closed := by
    have hsub : [")", "]", ","] ⊆ [")", "]", ":", ","] := by decide
    exact closed_before hf (hsub hs) h
  colon := by
    have hcolon : ∀ s ∈ [")", "]", ","], s ≠ ":" := by decide
    exact notAhead_before hf (isOperator_of_symbol h (hcolon s hs))

theorem second_isOperator_colon {e : Expr} (he : Expressible e) (hts : Shown (e.atoms grammar) ts)
    (hc : ItemEnds c) : ∀ second ∈ (c.before ts).tokens[1]?, second.isOperator ":" = false := by
  intro second hsecond
  obtain ⟨a, as, hatoms, _, _⟩ := exists_first he
  have hcolon := second_ne_colon he
  rw [hatoms] at hts hcolon
  obtain ⟨first, us, rfl, _, hus⟩ := shown_cons_iff.mp hts
  cases as with
  | nil =>
    rw [shown_nil_iff.mp hus] at hsecond
    apply hc.colon.2
    rw [List.head?_eq_getElem?]
    exact hsecond
  | cons b bs =>
    obtain ⟨token, vs, rfl, ⟨hkind, _⟩, _⟩ := shown_cons_iff.mp hus
    cases hsecond
    exact isOperator_of_ne hkind fun h => hcolon (congrArg some h)

def forgetItem (item : Item) : Item :=
  ⟨item.label, forget item.value⟩

theorem forgetItems_eq_map (items : List Item) : forgetItems items = items.map forgetItem := by
  induction items with
  | nil => rfl
  | cons item rest ih =>
    obtain ⟨label, e⟩ := item
    exact congrArg (List.cons (Item.mk label (forget e))) ih

section items

variable {label : String → Atom} {rule : Parse (Option String)} {depth : Nat}

def itemWith (rule : Parse (Option String)) (depth : Nat) : Parse Item := do
  let found ← rule
  return ⟨found, ← grammar.nested depth 0⟩

theorem item_gives (hl : LabelRule label rule) {item : Item} (he : Expressible item.value)
    (h : Parses item.value) (hts : Shown (item.atoms grammar label) ts) (hd : ts.length < depth)
    (hc : ItemEnds c) :
    ∃ found, Gives (itemWith rule depth) (c.before ts) found c ∧
      forgetItem found = forgetItem item := by
  obtain ⟨name, e⟩ := item
  cases name with
  | none =>
    obtain ⟨e', hgives, hforget⟩ := h.closed hts hd hc.closed
    refine ⟨⟨none, e'⟩, ?_, congrArg (Item.mk none) hforget⟩
    have hplain := hl.plain (c := c.before ts) hc.colon.1 (second_isOperator_colon he hts hc)
    exact hplain.bind (hgives.bind (.pure _ _))
  | some name =>
    obtain ⟨first, us, rfl, ⟨hkind, hlexeme⟩, hus⟩ := shown_cons_iff.mp hts
    obtain ⟨colon, vs, rfl, ⟨hcolon, _⟩, hvs⟩ := shown_cons_iff.mp hus
    have hlt : vs.length < depth := by
      rw [List.length_cons, List.length_cons] at hd
      omega
    obtain ⟨e', hgives, hforget⟩ := h.closed hvs hlt hc.closed
    refine ⟨⟨some name, e'⟩, ?_, congrArg (Item.mk (some name)) hforget⟩
    apply (hl.labelled hkind hlexeme (isOperator_of_kind (by decide) hcolon)).bind
    exact hgives.bind (.pure _ _)

theorem itemEnds_rest {rest : List Item}
    (hts : Shown (rest.flatMap fun next => .symbol "," :: next.atoms grammar label) ts)
    (hc : ItemEnds c) : ItemEnds (c.before ts) := by
  cases rest with
  | nil =>
    rw [shown_nil_iff.mp hts]
    exact hc
  | cons next rest =>
    obtain ⟨comma, us, rfl, ⟨hcomma, _⟩, _⟩ := shown_cons_iff.mp hts
    exact itemEnds_before hc.closed.ends.fault (by decide) hcomma

def moreItems (rule : Parse (Option String)) (depth : Nat) (items : List Item) :
    Parse (Option (List Item)) := do
  if ← eatOperator "," then return some (items ++ [← itemWith rule depth]) else return none

theorem moreItems_steps (hl : LabelRule label rule) {rest : List Item}
    (he : ∀ item ∈ rest, Expressible item.value) (h : ∀ item ∈ rest, Parses item.value)
    (hts : Shown (rest.flatMap fun next => .symbol "," :: next.atoms grammar label) ts)
    (hd : ts.length < depth) (hc : ItemEnds c) (items : List Item) :
    ∃ found, Steps (moreItems rule depth) items (c.before ts) found c ∧
      found.map forgetItem = items.map forgetItem ++ rest.map forgetItem := by
  -- the items found so far grow at their end
  induction rest generalizing ts items with
  | nil =>
    rw [shown_nil_iff.mp hts]
    exact ⟨items, .refl _ _, (List.append_nil _).symm⟩
  | cons item rest ih =>
    obtain ⟨heItem, heRest⟩ := List.forall_mem_cons.mp he
    obtain ⟨hItem, hRest⟩ := List.forall_mem_cons.mp h
    obtain ⟨comma, ws, rfl, ⟨hcomma, _⟩, hws⟩ := shown_cons_iff.mp hts
    obtain ⟨us, vs, rfl, hus, hvs⟩ := shown_append_iff.mp hws
    rw [List.length_cons, List.length_append] at hd
    have hus' : us.length < depth := by omega
    have hvs' : vs.length < depth := by omega
    obtain ⟨one, hone, hforget⟩ := item_gives hl heItem hItem hus hus' (itemEnds_rest hvs hc)
    rw [Cursor.before_before] at hone
    obtain ⟨found, hsteps, hfound⟩ := ih heRest hRest hvs hvs' (items ++ [one])
    refine ⟨found, .head ?_ ?_ hsteps, ?_⟩
    · apply (eat_true (isOperator_of_kind (by decide) hcomma)).bind
      exact hone.bind (.pure _ _)
    · simp only [Cursor.tokens_before, List.length_append, List.length_cons]
      omega
    · rw [hfound, List.map_append, List.append_assoc, List.map_singleton, hforget]
      rfl

theorem moreItems_ends {closer : String} (hf : c.fault = none) (hcloser : closer ∈ [")", "]"])
    (h : token.kind = kind (.symbol closer)) (items : List Item) :
    Gives (moreItems rule depth items) (c.before (token :: ts)) none (c.before (token :: ts)) := by
  have hne : ∀ s ∈ [")", "]"], s ≠ "," := by decide
  have hcomma : token.isOperator "," = false := isOperator_of_symbol h (hne closer hcloser)
  exact (eat_false (notAhead_before hf hcomma)).bind (.pure none _)

theorem commaSeparated_gives (hl : LabelRule label rule) {items : List Item} (hne : items ≠ [])
    (he : ∀ item ∈ items, Expressible item.value) (h : ∀ item ∈ items, Parses item.value)
    (hts : Shown (atomsOfItems grammar label items) ts) (hd : ts.length < depth)
    {closer : String} (hf : c.fault = none) (hcloser : closer ∈ [")", "]"])
    (hkind : token.kind = kind (.symbol closer)) :
    ∃ found, Gives (commaSeparated (itemWith rule depth)) (c.before (ts ++ [token])) found
      (c.before [token]) ∧ forgetItems found = forgetItems items := by
  obtain ⟨item, rest, rfl⟩ := List.exists_cons_of_ne_nil hne
  obtain ⟨heItem, heRest⟩ := List.forall_mem_cons.mp he
  obtain ⟨hItem, hRest⟩ := List.forall_mem_cons.mp h
  rw [atomsOfItems_cons] at hts
  obtain ⟨us, vs, rfl, hus, hvs⟩ := shown_append_iff.mp hts
  rw [List.length_append] at hd
  have hus' : us.length < depth := by omega
  have hvs' : vs.length < depth := by omega
  have hsub : [")", "]"] ⊆ [")", "]", ","] := by decide
  have hends : ItemEnds (c.before [token]) := itemEnds_before hf (hsub hcloser) hkind
  obtain ⟨one, hone, hforget⟩ := item_gives hl heItem hItem hus hus' (itemEnds_rest hvs hends)
  obtain ⟨found, hsteps, hfound⟩ := moreItems_steps hl heRest hRest hvs hvs' hends [one]
  refine ⟨found, ?_, ?_⟩
  · rw [Cursor.before_before] at hone
    rw [← Cursor.before_before]
    exact hone.bind (whileSome_gives hsteps (moreItems_ends hf hcloser hkind found))
  · rw [forgetItems_eq_map, forgetItems_eq_map, hfound, List.map_singleton, hforget]
    rfl

end items

theorem notAhead_closer {label : String → Atom} {items : List Item} (hne : items ≠ [])
    (he : ∀ item ∈ items, Expressible item.value)
    (hts : Shown (atomsOfItems grammar label items) ts) {closer : String} (hf : c.fault = none)
    (hlabel : ∀ name, label name ≠ .symbol closer) (hcloser : closer ∈ [")", "]"]) :
    NotAhead (·.isOperator closer) (c.before ts) := by
  cases hatoms : atomsOfItems grammar label items with
  | nil =>
    obtain ⟨item, rest, rfl⟩ := List.exists_cons_of_ne_nil hne
    obtain ⟨a, as, hfirst, _⟩ := exists_first (he item List.mem_cons_self)
    rw [atomsOfItems_cons] at hatoms
    have hnil := (List.append_eq_nil_iff.mp (List.append_eq_nil_iff.mp hatoms).1).2
    rw [hfirst] at hnil
    cases hnil
  | cons a as =>
    rw [hatoms] at hts
    obtain ⟨first, us, rfl, ⟨hkind, _⟩, _⟩ := shown_cons_iff.mp hts
    apply notAhead_before hf
    apply isOperator_of_ne hkind
    have hhead : a ∈ (atomsOfItems grammar label items).head? := by
      rw [hatoms]
      rfl
    rcases head_items he hhead with ⟨name, rfl⟩ | hstart
    · exact hlabel name
    · have hsub : [")", "]"] ⊆ [")", "]", ":", ","] := by decide
      exact ne_of_starts hstart (hsub hcloser)

/-- Items and what closes them: either the closer comes at once, or there are items before it. -/
theorem closedItems_cases {label : String → Atom} {rule : Parse (Option String)}
    (hl : LabelRule label rule) {items : List Item} {depth : Nat} {closer : String}
    (hlabel : ∀ name, label name ≠ .symbol closer) (hcloser : closer ∈ [")", "]"])
    (he : ∀ item ∈ items, Expressible item.value) (h : ∀ item ∈ items, Parses item.value)
    (hts : Shown (atomsOfItems grammar label items ++ [.symbol closer]) ts)
    (hd : ts.length ≤ depth) (hf : c.fault = none) :
    (items = [] ∧ Gives (eatOperator closer) (c.before ts) true c) ∨
    ∃ found token c', Gives (eatOperator closer) (c.before ts) false (c.before ts) ∧
      Gives (commaSeparated (itemWith rule depth)) (c.before ts) found c' ∧
      Gives (expectOperator closer) c' token c ∧ forgetItems found = forgetItems items := by
  obtain ⟨us, vs, rfl, hus, hvs⟩ := shown_append_iff.mp hts
  obtain ⟨token, rfl, hkind, _⟩ := shown_singleton_iff.mp hvs
  have hkeyword : ∀ s ∈ [")", "]"], s ∉ table.keywords := by decide
  have htoken : token.isOperator closer :=
    isOperator_of_kind (hkeyword closer hcloser) hkind
  by_cases hne : items = []
  · rw [hne] at hus
    rw [shown_nil_iff.mp hus, List.nil_append]
    exact .inl ⟨hne, eat_true htoken⟩
  · rw [List.length_append, List.length_singleton] at hd
    obtain ⟨found, hfound, hforget⟩ := commaSeparated_gives hl hne he h hus hd hf hcloser hkind
    have hahead : NotAhead (·.isOperator closer) ((c.before [token]).before us) :=
      notAhead_closer hne he hus hf hlabel hcloser
    rw [Cursor.before_before] at hahead
    exact .inr ⟨found, token, _, eat_false hahead, hfound, expect_gives htoken, hforget⟩

theorem listItems_gives {items : List Item} {depth : Nat}
    (he : ∀ item ∈ items, Expressible item.value) (h : ∀ item ∈ items, Parses item.value)
    (hts : Shown (atomsOfItems grammar .key items ++ [.symbol "]"]) ts) (hd : ts.length ≤ depth)
    (hf : c.fault = none) :
    ∃ found, Gives (listItems table (grammar.nested depth 0) "]") (c.before ts) found c ∧
      forgetItems found = forgetItems items := by
  rcases closedItems_cases itemKey_labelRule (fun _ h => by cases h) (by decide) he h hts hd hf
    with ⟨rfl, hempty⟩ | ⟨found, _, _, hahead, hfound, hcloser, hforget⟩
  · exact ⟨[], hempty.bind (.pure _ _), rfl⟩
  · refine ⟨found, ?_, hforget⟩
    apply hahead.bind
    exact hfound.bind (hcloser.bind (.pure _ _))

theorem arguments_gives {args : List Item} {depth : Nat}
    (he : ∀ arg ∈ args, Expressible arg.value) (h : ∀ arg ∈ args, Parses arg.value)
    (hts : Shown (atomsOfItems grammar .name args ++ [.symbol ")"]) ts) (hd : ts.length ≤ depth)
    (hf : c.fault = none) :
    ∃ found, Gives (arguments table (grammar.nested depth 0)) (c.before ts) (found, false) c ∧
      forgetItems found = forgetItems args := by
  rcases closedItems_cases argumentName_labelRule (fun _ h => by cases h) (by decide) he h hts hd
    hf with ⟨rfl, hempty⟩ | ⟨found, _, _, hahead, hfound, hcloser, hforget⟩
  · exact ⟨[], hempty.bind (.pure _ _), rfl⟩
  · refine ⟨found, ?_, hforget⟩
    apply hahead.bind
    -- the language has no word for distinct values
    apply Gives.bind (.pure false _)
    exact hfound.bind (hcloser.bind (.pure _ _))

/-! ### Operands -/

theorem parsesOperand_of_primary {e : Expr}
    (h : ∀ (ts : List Token) (depth : Nat) (c : Cursor), Shown (e.atoms grammar) ts →
      ts.length ≤ depth → c.fault = none →
      ∃ e', Gives (grammar.commonPrimary (grammar.nested depth)) (c.before ts) e' c ∧
        forget e' = forget e) : ParsesOperand e := by
  intro ts depth c hts hd hf
  obtain ⟨e', hgives, hforget⟩ := h ts depth c hts hd hf
  exact ⟨e', c, e', hgives, .refl _ _, hforget⟩

theorem parsesOperand_of_postfix {x e : Expr} {a : Atom} {as : List Atom} (hx : ParsesOperand x)
    (hatoms : e.atoms grammar = x.atoms grammar ++ (a :: as))
    (h : ∀ (x' : Expr) (ts : List Token) (depth : Nat) (c : Cursor), forget x' = forget x →
      Shown (a :: as) ts → ts.length ≤ depth → c.fault = none →
      ∃ e', Gives (grammar.extendPostfix (grammar.nested depth) x') (c.before ts) (some e') c ∧
        forget e' = forget e) : ParsesOperand e := by
  intro ts depth c hts hd hf
  rw [hatoms] at hts
  obtain ⟨us, vs, rfl, hus, hvs⟩ := shown_append_iff.mp hts
  rw [List.length_append] at hd
  obtain ⟨e₀, c₀, x', hprimary, hsteps, hforget⟩ :=
    hx (c := c.before vs) hus (Nat.le_of_add_right_le hd) hf
  rw [Cursor.before_before] at hprimary
  obtain ⟨e', hstep, hforget'⟩ := h x' vs depth c hforget hvs (by omega) hf
  have hlt : c.tokens.length < (c.before vs).tokens.length := by
    rw [Cursor.tokens_before, List.length_append, hvs.length, List.length_cons]
    omega
  exact ⟨e₀, c₀, e', hprimary, hsteps.tail hstep hlt, hforget'⟩

theorem parsesOperand_keyword {l : Literal} {word : String} (p : Position)
    (hkind : kind (.literal l) = .keyword word)
    (hl : Grammar.keywordLiteral? table word = some l) : ParsesOperand (.literal p l) := by
  apply parsesOperand_of_primary
  intro ts depth c hts _ _
  obtain ⟨token, rfl, htoken, _⟩ := shown_singleton_iff.mp hts
  refine ⟨.literal token.position l, ?_, rfl⟩
  apply peek_before.bind
  dsimp only
  rw [htoken, hkind]
  dsimp only
  rw [show Grammar.keywordLiteral? grammar.table word = some l from hl]
  exact next_gives.bind (.pure _ _)

theorem parsesOperand_integer (p : Position) {n : Int64} (h : 0 ≤ n) :
    ParsesOperand (.literal p (.integer n)) := by
  apply parsesOperand_of_primary
  intro ts depth c hts _ _
  obtain ⟨token, rfl, htoken, hlexeme⟩ := shown_singleton_iff.mp hts
  have hlexeme' : token.lexeme = toString n.toNatClampNeg :=
    hlexeme.trans (toString_of_nonneg h)
  have hlt : n.toNatClampNeg < Nat.pow 2 63 := Int64.toNatClampNeg_lt n
  have hof : Int64.ofNat n.toNatClampNeg = n := Int64.ofNat_toNatClampNeg n h
  have hliteral : Gives (Grammar.integerLiteral token) (c.before [token])
      (.literal token.position (.integer n)) (c.before [token]) := by
    have hgives := Grammar.integerLiteral_gives hlexeme' hlt (c.before [token])
    rwa [hof] at hgives
  refine ⟨.literal token.position (.integer n), ?_, rfl⟩
  apply peek_before.bind
  dsimp only
  rw [htoken]
  exact hliteral.bind (next_gives.bind (.pure _ _))

theorem parsesOperand_string (p : Position) (s : String) :
    ParsesOperand (.literal p (.string s)) := by
  apply parsesOperand_of_primary
  intro ts depth c hts _ _
  obtain ⟨token, rfl, htoken, hlexeme⟩ := shown_singleton_iff.mp hts
  have hvalue : table.unescape token.lexeme = s :=
    (congrArg table.unescape hlexeme).trans (unescape_quoted s)
  refine ⟨.literal token.position (.string (table.unescape token.lexeme)), ?_, ?_⟩
  · apply peek_before.bind
    dsimp only
    rw [htoken]
    exact next_gives.bind (.pure _ _)
  · exact congrArg (fun s => Expr.literal .start (.string s)) hvalue

theorem parsesOperand_identifier (p : Position) (name : String) :
    ParsesOperand (.identifier p name) := by
  apply parsesOperand_of_primary
  intro ts depth c hts _ _
  obtain ⟨token, rfl, htoken, hlexeme⟩ := shown_singleton_iff.mp hts
  have hname : token.name = name := by
    unfold Token.name
    rw [htoken]
    exact hlexeme
  refine ⟨.identifier token.position token.name, ?_, ?_⟩
  · apply peek_before.bind
    dsimp only
    rw [htoken]
    exact next_gives.bind (.pure _ _)
  · exact congrArg (Expr.identifier .start) hname

theorem parsesOperand_grouped (p : Position) {x : Expr} (h : Parses x) :
    ParsesOperand (.grouped p x) := by
  apply parsesOperand_of_primary
  intro ts depth c hts hd hf
  obtain ⟨token, us, rfl, ⟨htoken, _⟩, hus⟩ := shown_cons_iff.mp hts
  obtain ⟨vs, ws, rfl, hvs, hws⟩ := shown_append_iff.mp hus
  obtain ⟨closer, rfl, hcloser, _⟩ := shown_singleton_iff.mp hws
  rw [List.length_cons, List.length_append, List.length_singleton] at hd
  have hlt : vs.length < depth := by omega
  have hc : Closed (c.before [closer]) := closed_before hf (by decide) hcloser
  obtain ⟨x', hx', hforget⟩ := h.closed hvs hlt hc
  rw [Cursor.before_before] at hx'
  refine ⟨.grouped token.position x', ?_, ?_⟩
  · apply peek_before.bind
    dsimp only
    rw [htoken]
    apply next_gives.bind
    apply hx'.bind
    exact (expect_gives (isOperator_of_kind (by decide) hcloser)).bind (.pure _ _)
  · exact congrArg (Expr.grouped .start) hforget

theorem parsesOperand_list (p : Position) {items : List Item}
    (he : ∀ item ∈ items, Expressible item.value) (h : ∀ item ∈ items, Parses item.value) :
    ParsesOperand (.list p items) := by
  apply parsesOperand_of_primary
  intro ts depth c hts hd hf
  obtain ⟨token, us, rfl, ⟨htoken, _⟩, hus⟩ := shown_cons_iff.mp hts
  rw [List.length_cons] at hd
  obtain ⟨found, hfound, hforget⟩ := listItems_gives he h hus (Nat.le_of_succ_le hd) hf
  refine ⟨.list token.position found, ?_, ?_⟩
  · apply peek_before.bind
    dsimp only
    rw [htoken]
    apply next_gives.bind
    exact hfound.bind (.pure _ _)
  · exact congrArg (Expr.list .start) hforget

theorem parsesOperand_call (p : Position) {callee : Expr} {args : List Item}
    (hc : ParsesOperand callee) (hn : isNamed callee)
    (he : ∀ arg ∈ args, Expressible arg.value) (h : ∀ arg ∈ args, Parses arg.value) :
    ParsesOperand (.call p callee args false) := by
  apply parsesOperand_of_postfix hc (atoms_call p callee args)
  intro callee' ts depth c hcallee hts hd hf
  obtain ⟨token, us, rfl, ⟨htoken, _⟩, hus⟩ := shown_cons_iff.mp hts
  rw [List.length_cons] at hd
  obtain ⟨found, hfound, hforget⟩ := arguments_gives he h hus (Nat.le_of_succ_le hd) hf
  have hcallable : grammar.isCallable callee' := by
    have hnamed : isNamed callee' := by
      rw [← isNamed_forget, hcallee, isNamed_forget, hn]
    cases callee' with
    | identifier | member => rfl
    | _ => cases hnamed
  refine ⟨.call callee'.position callee' found false, ?_, ?_⟩
  · have hopen : Gives (if grammar.isCallable callee' then atOperator "(" else pure false)
        (c.before (token :: us)) true (c.before (token :: us)) := by
      rw [if_pos hcallable]
      exact at?_true (isOperator_of_kind (by decide) htoken)
    apply hopen.bind
    apply next_gives.bind
    exact hfound.bind (.pure _ _)
  · exact congrArg₂ (fun f args => Expr.call .start f args false) hcallee hforget

theorem noCall_gives (hf : c.fault = none) {s : String} (hs : s ≠ "(")
    (h : token.kind = kind (.symbol s)) (e : Expr) :
    Gives (if grammar.isCallable e then atOperator "(" else pure false) (c.before (token :: ts))
      false (c.before (token :: ts)) := by
  split
  · apply at?_false
    apply notAhead_before hf
    exact isOperator_of_symbol h hs
  · exact .pure _ _

theorem parsesOperand_member (p : Position) {x : Expr} (hx : ParsesOperand x) (property : String) :
    ParsesOperand (.member p x property) := by
  apply parsesOperand_of_postfix hx rfl
  intro x' ts depth c hforget hts hd hf
  obtain ⟨token, us, rfl, ⟨htoken, _⟩, hus⟩ := shown_cons_iff.mp hts
  obtain ⟨word, rfl, hword, hlexeme⟩ := shown_singleton_iff.mp hus
  have hname : Gives Grammar.memberName (c.before [word]) property c := by
    have hkind : word.kind = if property ∈ table.keywords then .keyword property else .identifier :=
      hword
    have hproperty : word.name = property := by
      unfold Token.name
      rw [hkind]
      split_ifs <;> exact hlexeme
    apply peek_before.bind
    dsimp only
    rw [hkind, hproperty]
    split_ifs <;> exact next_gives.bind (.pure _ _)
  refine ⟨.member x'.position x' property, ?_, ?_⟩
  · apply (noCall_gives hf (by decide) htoken x').bind
    apply (eat_true (isOperator_of_kind (by decide) htoken)).bind
    exact hname.bind (.pure _ _)
  · exact congrArg (fun object => Expr.member .start object property) hforget

/-- What is there does not begin with the operator that stands for its absence. -/
theorem optionalBefore_some {e : Expr} (he : Expressible e) (h : Parses e)
    (hts : Shown (e.atoms grammar) ts) {depth : Nat} (hd : ts.length < depth) (hc : Closed c)
    {absent : String} (habsent : absent ∈ [":", "]"]) :
    ∃ e', Gives (Grammar.optionalBefore (grammar.nested depth) absent) (c.before ts) (some e') c ∧
      forget e' = forget e := by
  obtain ⟨e', he', hforget⟩ := h.closed hts hd hc
  obtain ⟨a, as, hatoms, hstart, _⟩ := exists_first he
  rw [hatoms] at hts
  obtain ⟨first, us, rfl, ⟨hkind, _⟩, _⟩ := shown_cons_iff.mp hts
  have hsub : [":", "]"] ⊆ [")", "]", ":", ","] := by decide
  have hahead : NotAhead (·.isOperator absent) (c.before (first :: us)) :=
    notAhead_before hc.ends.fault (isOperator_of_ne hkind (ne_of_starts hstart (hsub habsent)))
  refine ⟨e', ?_, hforget⟩
  apply (at?_false hahead).bind
  exact he'.bind (.pure _ _)

theorem optionalBefore_gives {o : Option Expr} (he : ∀ e ∈ o, Expressible e)
    (h : ∀ e ∈ o, Parses e) (hts : Shown (atomsOfOption grammar o) ts) {depth : Nat}
    (hd : ts.length < depth) (hf : c.fault = none) {absent : String}
    (habsent : absent ∈ [":", "]"]) (htoken : token.kind = kind (.symbol absent)) (us : List Token) :
    ∃ found, Gives (Grammar.optionalBefore (grammar.nested depth) absent)
      (c.before (ts ++ token :: us)) found (c.before (token :: us)) ∧
      forgetOption found = forgetOption o := by
  cases o with
  | none =>
    rw [shown_nil_iff.mp hts]
    have hkeyword : ∀ s ∈ [":", "]"], s ∉ table.keywords := by decide
    have hahead : token.isOperator absent :=
      isOperator_of_kind (hkeyword absent habsent) htoken
    exact ⟨none, (at?_true hahead).bind (.pure _ _), rfl⟩
  | some e =>
    have hsub : [":", "]"] ⊆ [")", "]", ":", ","] := by decide
    have hc : Closed (c.before (token :: us)) := closed_before hf (hsub habsent) htoken
    obtain ⟨e', he', hforget⟩ := optionalBefore_some (he e rfl) (h e rfl) hts hd hc habsent
    rw [Cursor.before_before] at he'
    exact ⟨some e', he', congrArg some hforget⟩

theorem extendPostfix_subscript {x e : Expr} {depth : Nat} (hf : c.fault = none)
    (htoken : token.kind = kind (.symbol "["))
    (h : Gives (Grammar.subscript (grammar.nested depth) x) (c.before ts) e c) :
    Gives (grammar.extendPostfix (grammar.nested depth) x) (c.before (token :: ts)) (some e) c := by
  have hdot : NotAhead (·.isOperator ".") (c.before (token :: ts)) :=
    notAhead_before hf (isOperator_of_symbol htoken (by decide))
  apply (noCall_gives hf (by decide) htoken x).bind
  apply (eat_false hdot).bind
  apply (eat_true (isOperator_of_kind (by decide) htoken)).bind
  exact h.bind (.pure _ _)

theorem parsesOperand_index (p : Position) {x y : Expr} (hx : ParsesOperand x)
    (hy : Expressible y) (h : Parses y) : ParsesOperand (.index p x y) := by
  apply parsesOperand_of_postfix hx rfl
  intro x' ts depth c hforget hts hd hf
  obtain ⟨token, us, rfl, ⟨htoken, _⟩, hus⟩ := shown_cons_iff.mp hts
  obtain ⟨vs, ws, rfl, hvs, hws⟩ := shown_append_iff.mp hus
  obtain ⟨closer, rfl, hcloser, _⟩ := shown_singleton_iff.mp hws
  rw [List.length_cons, List.length_append, List.length_singleton] at hd
  have hlt : vs.length < depth := by omega
  have hc : Closed (c.before [closer]) := closed_before hf (by decide) hcloser
  have hcolon : NotAhead (·.isOperator ":") (c.before [closer]) :=
    notAhead_before hf (isOperator_of_symbol hcloser (by decide))
  obtain ⟨y', hy', hforget'⟩ :=
    optionalBefore_some hy h hvs hlt hc (List.mem_cons_self : ":" ∈ [":", "]"])
  rw [Cursor.before_before] at hy'
  refine ⟨.index x'.position x' y', extendPostfix_subscript hf htoken ?_, ?_⟩
  · apply hy'.bind
    apply (eat_false hcolon).bind
    exact (expect_gives (isOperator_of_kind (by decide) hcloser)).bind (.pure _ _)
  · exact congrArg₂ (Expr.index .start) hforget hforget'

theorem parsesOperand_slice (p : Position) {x : Expr} {first last : Option Expr}
    (hx : ParsesOperand x) (hfirst : ∀ e ∈ first, Expressible e) (hf : ∀ e ∈ first, Parses e)
    (hlast : ∀ e ∈ last, Expressible e) (hl : ∀ e ∈ last, Parses e) :
    ParsesOperand (.slice p x first last) := by
  apply parsesOperand_of_postfix hx rfl
  intro x' ts depth c hforget hts hd hfault
  obtain ⟨token, us, rfl, ⟨htoken, _⟩, hus⟩ := shown_cons_iff.mp hts
  obtain ⟨fs, vs, rfl, hfs, hvs⟩ := shown_append_iff.mp hus
  obtain ⟨colon, ws, rfl, ⟨hcolon, _⟩, hws⟩ := shown_cons_iff.mp hvs
  obtain ⟨ls, xs, rfl, hls, hxs⟩ := shown_append_iff.mp hws
  obtain ⟨closer, rfl, hcloser, _⟩ := shown_singleton_iff.mp hxs
  simp only [List.length_cons, List.length_append, List.length_nil] at hd
  have hfs' : fs.length < depth := by omega
  have hls' : ls.length < depth := by omega
  obtain ⟨first', hfirst', hforgetFirst⟩ :=
    optionalBefore_gives hfirst hf hfs hfs' hfault (by decide) hcolon (ls ++ [closer])
  obtain ⟨last', hlast', hforgetLast⟩ :=
    optionalBefore_gives hlast hl hls hls' hfault (by decide) hcloser []
  refine ⟨.slice x'.position x' first' last', extendPostfix_subscript hfault htoken ?_, ?_⟩
  · apply hfirst'.bind
    apply (eat_true (isOperator_of_kind (by decide) hcolon)).bind
    apply hlast'.bind
    exact (expect_gives (isOperator_of_kind (by decide) hcloser)).bind (.pure _ _)
  · change Expr.slice .start (forget x') (forgetOption first') (forgetOption last') =
      Expr.slice .start (forget x) (forgetOption first) (forgetOption last)
    rw [hforget, hforgetFirst, hforgetLast]

end EmbeddedLang.Arithmetic
