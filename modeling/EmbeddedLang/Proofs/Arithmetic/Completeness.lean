import EmbeddedLang.Proofs.Arithmetic.Operands

/-!
Parsing gives back the tree that was printed.

An operator takes as its right operand what binds tight enough. What comes after the tree must not go
on with any of the operators at the right end of the tree, and an operator that follows a left
operand does not, since the operand is written without parentheses.
-/

namespace EmbeddedLang.Arithmetic

open Parse

variable {c : Cursor} {token : Token} {ts : List Token}

/-! ### Operators -/

theorem applyPrefix_eq {op : UnaryOp} {x : Expr} (h : op = .neg → isNumber x = false)
    (p : Position) : Grammar.applyPrefix p op x = .unary p op x := by
  unfold Grammar.applyPrefix
  split
  · cases h rfl
  · cases h rfl
  · rfl

theorem parses_unary (p : Position) {op : UnaryOp} {x : Expr} {spec : PrefixSpec}
    (hs : prefixSpec? op = some spec) (h : Parses x) (hn : op = .neg → isNumber x = false)
    (hb : BindsAt spec.precedence x) : Parses (.unary p op x) where
  operand ho := by cases ho
  term {ts depth floor c} hts hd hc _ hstops := by
    obtain ⟨hop, _, hfind⟩ := prefixSpec?_cases hs
    rw [atoms_unary hs] at hts
    obtain ⟨token, us, rfl, ⟨htoken, _⟩, hus⟩ := shown_cons_iff.mp hts
    rw [openFloors_unary hs] at hstops
    have hspec : grammar.prefixOf token = some spec := by
      unfold Grammar.prefixOf
      rw [symbol?_of_kind htoken]
      exact hfind
    obtain ⟨x', hx', hforget⟩ := h.expression hus hd hc hb hstops
    -- a minus before a number would go into the number
    have hnumber : op = .neg → isNumber x' = false := by
      rw [← isNumber_forget x', hforget, isNumber_forget]
      exact hn
    refine ⟨.unary token.position op x', c, .unary token.position op x', ?_, .refl _ _, ?_⟩
    · apply peek_before.bind
      dsimp only
      rw [hspec, ← applyPrefix_eq hnumber, ← hop]
      exact next_gives.bind (hx'.bind (.pure _ _))
    · exact congrArg (Expr.unary .start op) hforget

theorem operator?_before {spec : OperatorSpec} {word : String}
    (hfind : binaryOps.find? (·.tokens == [word]) = some spec)
    (h : token.kind = kind (.symbol word)) : operator? (c.before (token :: ts)) = some spec := by
  change token.symbol?.bind _ = _
  rw [symbol?_of_kind h]
  exact hfind

theorem ends_before {word : String} (hf : c.fault = none) (hword : word ∉ ["(", ".", "[", ":"])
    (h : token.kind = kind (.symbol word)) : Ends (c.before (token :: ts)) := by
  intro s hs
  apply notAhead_before hf
  apply isOperator_of_symbol h
  rintro rfl
  have hsub : ["(", ".", "["] ⊆ ["(", ".", "[", ":"] := by decide
  exact hword (hsub hs)

theorem extendRight_gives (left : Expr) {right : Expr} {spec : OperatorSpec} {word : String}
    {depth floor : Nat} (hf : c.fault = none) (htokens : spec.tokens = [word])
    (hfind : binaryOps.find? (·.tokens == [word]) = some spec)
    (htoken : token.kind = kind (.symbol word)) (hfloor : floor ≤ spec.precedence)
    (h : Gives (grammar.nested depth (Grammar.rightFloor spec)) (c.before ts) right c) :
    Gives (grammar.extendRight (grammar.nested depth) floor left) (c.before (token :: ts))
      (some (.binary left.position spec.op left right)) c := by
  have hahead : Gives grammar.operatorAhead (c.before (token :: ts))
      (operator? (c.before (token :: ts))) (c.before (token :: ts)) := operatorAhead_gives hf
  apply hahead.bind
  rw [operator?_before hfind htoken]
  dsimp only
  rw [if_neg (Nat.not_lt.mpr hfloor), htokens]
  apply (next_gives.bind (.pure () _)).bind
  exact h.bind (.pure _ _)

theorem le_leftFloor (spec : OperatorSpec) : spec.precedence ≤ leftFloor spec := by
  unfold leftFloor
  split <;> omega

theorem rootSpec?_mem {e : Expr} {spec : OperatorSpec} (h : spec ∈ rootSpec? e) :
    spec ∈ binaryOps := by
  cases e with
  | binary _ op _ _ =>
    obtain ⟨_, _, _, hmem, _⟩ := binarySpec?_cases h
    exact hmem
  | _ => cases h

/-- An operator goes on with none that ends its left operand. -/
theorem lt_openFloors_of_left {x : Expr} {spec : OperatorSpec} (hx : Expressible x)
    (hmem : spec ∈ binaryOps) (hl : BindsAt (leftFloor spec) x)
    (he : ∀ inner ∈ endingPrefixes x, spec.precedence < inner.precedence) :
    ∀ floor ∈ openFloors x, spec.precedence < floor := by
  have hroot : ∀ inner ∈ rootSpec? x, spec.precedence < Grammar.rightFloor inner := by
    intro inner hinner
    exact lt_rightFloor hmem (rootSpec?_mem hinner) (hl inner hinner)
  exact lt_openFloors hx hroot he

theorem parses_binary (p : Position) {op : BinaryOp} {x y : Expr} {spec : OperatorSpec}
    (hs : binarySpec? op = some spec) (hx : Expressible x) (hpx : Parses x) (hpy : Parses y)
    (hl : BindsAt (leftFloor spec) x) (hr : BindsAt (Grammar.rightFloor spec) y)
    (he : ∀ inner ∈ endingPrefixes x, spec.precedence < inner.precedence) :
    Parses (.binary p op x y) where
  operand ho := by cases ho
  term {ts depth floor c} hts hd hc hb hstops := by
    obtain ⟨word, htokens, hop, hmem, _, hword, hfind⟩ := binarySpec?_cases hs
    rw [atoms_binary hs htokens] at hts
    obtain ⟨us, ws, rfl, hus, hws⟩ := shown_append_iff.mp hts
    obtain ⟨token, vs, rfl, ⟨htoken, _⟩, hvs⟩ := shown_cons_iff.mp hws
    rw [List.length_append, List.length_cons] at hd
    have hus' : us.length ≤ depth := by omega
    have hvs' : vs.length < depth := by omega
    have hfloor : floor ≤ spec.precedence := hb spec hs
    -- the left operand ends before the operator
    have hends : Ends (c.before (token :: vs)) := ends_before hc.fault hword htoken
    have hbx : BindsAt floor x := fun inner hinner =>
      Nat.le_trans hfloor (Nat.le_trans (le_leftFloor spec) (hl inner hinner))
    have hopen : ∀ inner ∈ openFloors x, Stops inner (c.before (token :: vs)) := by
      intro inner hinner spec' hspec'
      rw [operator?_before hfind htoken] at hspec'
      cases hspec'
      exact lt_openFloors_of_left hx hmem hl he inner hinner
    obtain ⟨e₀, c₀, x', hunary, hsteps, hforget⟩ := hpx.term hus hus' hends hbx hopen
    rw [Cursor.before_before] at hunary
    -- and what follows the operator is the right operand
    rw [openFloors_binary hs] at hstops
    obtain ⟨y', hy', hforget'⟩ := hpy.expression hvs hvs' hc hr hstops
    have hstep := extendRight_gives x' hc.fault htokens hfind htoken hfloor hy'
    have hlt : c.tokens.length < (c.before (token :: vs)).tokens.length := by
      rw [Cursor.tokens_before, List.length_append, List.length_cons]
      omega
    refine ⟨e₀, c₀, _, hunary, hsteps.tail hstep hlt, ?_⟩
    rw [hop]
    exact congrArg₂ (Expr.binary .start op) hforget hforget'

theorem parses_of_expressible {e : Expr} (h : Expressible e) : Parses e := by
  induction h with
  | @null p => exact parses_of_operand .null rfl (parsesOperand_keyword p rfl rfl)
  | @boolean p b =>
    cases b <;> exact parses_of_operand .boolean rfl (parsesOperand_keyword p rfl rfl)
  | @integer p n hn => exact parses_of_operand (.integer hn) rfl (parsesOperand_integer p hn)
  | @string p s => exact parses_of_operand .string rfl (parsesOperand_string p s)
  | @identifier p name hname =>
    exact parses_of_operand (.identifier hname) rfl (parsesOperand_identifier p name)
  | @grouped p x hx ih => exact parses_of_operand (.grouped hx) rfl (parsesOperand_grouped p ih)
  | @list p items hitems ih =>
    exact parses_of_operand (.list hitems) rfl (parsesOperand_list p hitems ih)
  | @call p callee args hc hnamed hl ha ihc iha =>
    have hcallee : ParsesOperand callee := ihc.operand (isOperation_of_isNamed hnamed)
    exact parses_of_operand (.call hc hnamed hl ha) rfl
      (parsesOperand_call p hcallee hnamed ha iha)
  | @member p x property hx ho hp ih =>
    exact parses_of_operand (.member hx ho hp) rfl (parsesOperand_member p (ih.operand ho) property)
  | @index p x y hx ho hy ihx ihy =>
    exact parses_of_operand (.index hx ho hy) rfl (parsesOperand_index p (ihx.operand ho) hy ihy)
  | @slice p x first last hx ho hf hl ihx ihf ihl =>
    exact parses_of_operand (.slice hx ho hf hl) rfl
      (parsesOperand_slice p (ihx.operand ho) hf ihf hl ihl)
  | @unary p op x spec hs _ hn hb ih => exact parses_unary p hs ih hn hb
  | @binary p op x y spec hs hx _ hl hr he ihx ihy => exact parses_binary p hs hx ihx ihy hl hr he

/-! ### Sources -/

theorem expression_gives {e : Expr} (h : Expressible e) (hts : Shown (e.atoms grammar) ts)
    (hc : Closed c) :
    ∃ e', Gives (grammar.expression 0) (c.before ts) e' c ∧ forget e' = forget e := by
  have hlt : ts.length < (c.before ts).tokens.length + 1 := by
    rw [Cursor.tokens_before, List.length_append]
    omega
  exact (parses_of_expressible h).closed hts hlt hc

/-- An expressible tree is what its printed form is parsed to, up to positions, and nothing is left
of that form. -/
theorem parse_print {e : Expr} (h : Expressible e) :
    ∃ e', parseExpression grammar (print e) = .ok e' ∧ forget e' = forget e := by
  obtain ⟨hts, hfault⟩ := scan_print (writable_of_expressible h)
  obtain ⟨stop, hsource⟩ : ∃ stop, Cursor.ofSource table (print e) =
      Cursor.before (scan table (print e)).tokens ⟨[], none, stop⟩ := by
    refine ⟨(scan table (print e)).stop, ?_⟩
    unfold Cursor.ofSource Cursor.before
    rw [List.append_nil, ← hfault]
  obtain ⟨e', he', hforget⟩ :=
    expression_gives h hts (c := ⟨[], none, stop⟩) (closed_eof rfl rfl)
  refine ⟨e', ?_, hforget⟩
  have hwhole := he'.bind (f := fun e => do
    if ← isEof then return e else failExpected ["end of input"])
    ((isEof_gives rfl rfl).bind (.pure e' _))
  unfold parseExpression run?
  rw [show grammar.table = table from rfl, hsource, hwhole]

/-- Both prefix operators, an operator that goes together to the right, and every bracket. -/
def prefixed : Expr :=
  .binary .start .and
    (.unary .start .not (.binary .start .eq
      (.slice .start
        (.call .start (.identifier .start "f")
          [⟨none, .identifier .start "x"⟩, ⟨some "by", .literal .start (.string "a'b")⟩] false)
        (some (.literal .start (.integer 1))) none)
      (.unary .start .neg (.binary .start .pow
        (.index .start (.identifier .start "y") (.literal .start (.integer 0)))
        (.binary .start .pow (.literal .start (.integer 2)) (.literal .start (.boolean true)))))))
    (.member .start
      (.list .start [⟨some "k", .grouped .start (.literal .start .null)⟩]) "and")

theorem expressible_prefixed : Expressible prefixed := by
  have hname {s : String} (h : IsName s) : Expressible (.identifier .start s) := .identifier h
  have hnumber {n : Int64} (h : 0 ≤ n) : Expressible (.literal .start (.integer n)) := .integer h
  have hslice : Expressible (.slice .start
      (.call .start (.identifier .start "f")
        [⟨none, .identifier .start "x"⟩, ⟨some "by", .literal .start (.string "a'b")⟩] false)
      (some (.literal .start (.integer 1))) none) := by
    refine .slice (.call (hname (by decide)) rfl (by decide) ?_) rfl ?_ (fun _ h => by cases h)
    · exact List.forall_mem_cons.mpr
        ⟨hname (by decide), List.forall_mem_singleton.mpr .string⟩
    · rintro _ ⟨⟩
      exact hnumber (by decide)
  have hpower : Expressible (.binary .start .pow
      (.index .start (.identifier .start "y") (.literal .start (.integer 0)))
      (.binary .start .pow (.literal .start (.integer 2)) (.literal .start (.boolean true)))) := by
    refine .binary rfl (.index (hname (by decide)) rfl (hnumber (by decide))) ?_
      (by decide) (by decide) (by decide)
    exact .binary rfl (hnumber (by decide)) .boolean (by decide) (by decide) (by decide)
  have hlist : Expressible
      (.list .start [⟨some "k", .grouped .start (.literal .start .null)⟩]) :=
    .list (List.forall_mem_singleton.mpr (.grouped .null))
  refine .binary rfl (.unary rfl ?_ (by decide) (by decide)) (.member hlist rfl (by decide))
    (by decide) (by decide) (by decide)
  exact .binary rfl hslice (.unary rfl hpower (by decide) (by decide))
    (by decide) (by decide) (by decide)

example : print prefixed =
    "not f ( x , by : 'a\\'b' ) [ 1 : ] == - y [ 0 ] ** 2 ** true and [ 'k' : ( null ) ] . and" := by
  decide +kernel

theorem parse_print_prefixed : Expressible prefixed ∧
    ∃ e, parseExpression grammar (print prefixed) = .ok e ∧ forget e = forget prefixed :=
  ⟨expressible_prefixed, parse_print expressible_prefixed⟩

end EmbeddedLang.Arithmetic
