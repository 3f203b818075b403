import EmbeddedLang.Expr.Text
import EmbeddedLang.Proofs.Query.Nodes
import EmbeddedLang.Proofs.SourceOrder
import EmbeddedLang.Proofs.Template.Parsed

/-!
Integers that a minus can be put before.

A minus before a number is made part of the number. The least integer has no negation, so it must
not get into any expression. A parser that watches each expression for it, and each minus for an
overflow, is the parser itself.
-/

namespace EmbeddedLang

/-! ### Literals -/

/-- An integer between the greatest one, which is `2 ^ 63 - 1`, and the negation of that. -/
def Literal.Negatable : Literal → Prop
  | .integer i => -9223372036854775807 ≤ i.toInt ∧ i.toInt ≤ 9223372036854775807
  | .null | .boolean _ | .float _ | .string _ => True

instance : DecidablePred Literal.Negatable
  | .integer i => inferInstanceAs
    (Decidable (-9223372036854775807 ≤ i.toInt ∧ i.toInt ≤ 9223372036854775807))
  | .null | .boolean _ | .float _ | .string _ => .isTrue trivial

theorem Literal.Negatable.toInt_neg {i : Int64} (h : (Literal.integer i).Negatable) :
    (-i).toInt = -i.toInt := by
  obtain ⟨hlow, hhigh⟩ := h
  rw [Int64.toInt_neg]
  apply Int.bmod_eq_of_le <;> omega

theorem Literal.Negatable.neg {i : Int64} (h : (Literal.integer i).Negatable) :
    (Literal.integer (-i)).Negatable := by
  have hneg : (-i).toInt = -i.toInt := h.toInt_neg
  obtain ⟨hlow, hhigh⟩ := h
  constructor <;> omega

theorem Literal.SpelledBy.negatable {g : Grammar} {l : Literal} {ts : List Token}
    (h : l.SpelledBy g ts) : l.Negatable := by
  induction h with
  | @integer token n hk hn hlt =>
    have hvalue : (Int64.ofNat n).toInt = n := Int64.toInt_ofNat_of_lt hlt
    have hbound : n < 2 ^ 63 := hlt
    constructor <;> omega
  | keyword hk hl =>
    unfold Grammar.keywordLiteral? at hl
    split_ifs at hl <;> cases hl <;> trivial
  | minusInteger hm h ih => exact ih.neg
  | float | string | minusFloat => trivial

/-! ### Expressions -/

def Expr.literal? : Expr → Option Literal
  | .literal _ l => some l
  | _ => none

/-- No literal in the expression, or in a subquery of it, is the least integer. -/
def Expr.Negatable (e : Expr) : Prop :=
  ∀ n ∈ e.nodes, ∀ l ∈ n.literal?, l.Negatable

instance : DecidablePred Expr.Negatable := fun e =>
  inferInstanceAs (Decidable (∀ n ∈ e.nodes, ∀ l ∈ n.literal?, l.Negatable))

theorem Expr.negatable_iff {e : Expr} : e.Negatable ↔
    (∀ l ∈ e.literal?, l.Negatable) ∧ ∀ x ∈ e.entered, x.Negatable := by
  unfold Negatable
  rw [nodes_eq, List.forall_mem_cons, List.forall_mem_flatMap]

theorem Expr.negatable_literal {p : Position} {l : Literal} :
    (Expr.literal p l).Negatable ↔ l.Negatable := by
  rw [Expr.negatable_iff]
  simp [Expr.literal?, Expr.entered, Expr.children]

theorem Expr.Negatable.applyPrefix {e : Expr} (h : e.Negatable) (p : Position) (op : UnaryOp) :
    (Grammar.applyPrefix p op e).Negatable := by
  unfold Grammar.applyPrefix
  split
  · exact Expr.negatable_literal.mpr (Expr.negatable_literal.mp h).neg
  · exact Expr.negatable_literal.mpr trivial
  · rw [Expr.negatable_iff]
    simpa [Expr.literal?, Expr.entered, Expr.children] using h

variable {g : Grammar} {F : Forms}

theorem Written.negatable (hg : g.Forming F) {parts : List Part} {ts : List Token}
    (h : Written g F parts ts) : ∀ e ∈ exprsOf parts, e.Negatable := by
  intro e he n hn l hl
  obtain ⟨us, -, hwritten, -⟩ :=
    h.nodes_at_first hg.inPlace n (List.mem_flatMap.mpr ⟨e, he, hn⟩)
  cases n with
  | literal p =>
    cases hl
    exact (hwritten.spelledBy (hg.literal p l)).negatable
  | _ => cases hl

/-! ### What the rules give -/

def Expr.IsWritten (g : Grammar) (F : Forms) (e : Expr) : Prop :=
  ∃ ts, e.WrittenAs g F ts

theorem Expr.IsWritten.negatable (hg : g.Forming F) {e : Expr} (h : e.IsWritten g F) :
    e.Negatable := by
  obtain ⟨ts, hts⟩ := h
  exact Written.negatable hg hts e (List.mem_singleton.mpr rfl)

theorem Finds.of_readsForms {p : Parse Expr} (h : g.ReadsForms F p) :
    Finds (Expr.IsWritten g F) p where
  of_ok c e c' he := by
    obtain ⟨ts, -, hts⟩ := (h c).of_ok e c' he
    exact ⟨ts, hts⟩

theorem Finds.of_goesOn {p : Parse (Option Expr)} {us : List Token}
    (h : ∀ c, Reads c (GoesOn g F us) p) : Finds (fun o => ∀ e ∈ o, e.IsWritten g F) p where
  of_ok c o c' ho := by
    obtain ⟨ts, -, ⟨e, rfl, he⟩ | ⟨rfl, -⟩⟩ := (h c).of_ok o c' ho
    · rintro _ ⟨⟩
      exact ⟨_, he⟩
    · rintro _ ⟨⟩

/-! ### Watching -/

/-- Raises the alarm where the result fails a test. -/
def Parse.watched {α : Type} (ok : α → Prop) [DecidablePred ok] (alarm : CompileError)
    (p : Parse α) : Parse α := do
  let a ← p
  if ok a then return a else throw alarm

theorem Finds.watched_eq {α : Type} {ok : α → Prop} [DecidablePred ok] {p : Parse α}
    (h : Finds ok p) (alarm : CompileError) : p.watched ok alarm = p := by
  have hpass : p.watched ok alarm = p >>= Pure.pure :=
    h.bind_congr fun a ha => if_pos ha
  rw [hpass, bind_pure]

namespace Grammar

section watching

variable (g : Grammar) (alarm : CompileError) (below : Nat → Parse Expr)

abbrev watchedForm (p : Parse Expr) : Parse Expr :=
  p.watched Expr.Negatable alarm

abbrev watchedStep (p : Parse (Option Expr)) : Parse (Option Expr) :=
  p.watched (fun o => ∀ e ∈ o, e.Negatable) alarm

def watchedPrimaryWith : Parse Expr := do
  let e ← match ← watchedStep alarm (g.primaryForm below) with
    | some e => pure e
    | none => watchedForm alarm (g.commonPrimary below)
  Parse.whileSome (fun e => watchedStep alarm (g.extendPostfix below e)) e

/-- A prefix operator before an operand. The alarm is raised where a minus would overflow. -/
def watchedPrefix (position : Position) (op : UnaryOp) (operand : Expr) : Parse Expr :=
  match op, operand with
  | .neg, .literal _ (.integer i) =>
    if (-i).toInt = -i.toInt then return .literal position (.integer (-i)) else throw alarm
  | _, _ => return applyPrefix position op operand

def watchedUnaryWith : Parse Expr := do
  let some token ← Parse.peek | Parse.failExpected ["expression"]
  match g.prefixOf token with
  | some spec =>
    let _ ← Parse.next
    let operand ← below spec.precedence
    watchedForm alarm (watchedPrefix alarm token.position spec.op operand)
  | none => g.watchedPrimaryWith alarm below

def watchedExpressionWith (floor : Nat) : Parse Expr := do
  let left ← g.watchedUnaryWith alarm below
  Parse.whileSome (fun e => watchedStep alarm (g.extendRight below floor e)) left

/-- The parser that watches each expression that it builds, and each minus. -/
def watchedNested : (depth floor : Nat) → Parse Expr
  | 0, _ => do throw (.invalidConstruct (← Parse.position) "expression is nested too deeply")
  | depth + 1, floor => g.watchedExpressionWith alarm (watchedNested depth) floor

end watching

section unwatched

variable (hg : g.Forming F) (alarm : CompileError) {below : Nat → Parse Expr}
  (hb : ∀ floor, g.ReadsForms F (below floor))

theorem watchedPrefix_eq (p : Position) (op : UnaryOp) {e : Expr} (he : e.Negatable) :
    watchedPrefix alarm p op e = pure (applyPrefix p op e) := by
  unfold watchedPrefix
  split
  · exact if_pos (Expr.negatable_literal.mp he).toInt_neg
  · rfl

-- Off the negatable operands the watch does fire: the least integer has no negation.
example (p q : Position) :
    watchedPrefix alarm p .neg (.literal q (.integer Int64.minValue)) = throw alarm := by
  unfold watchedPrefix
  exact if_neg (by decide)

include hg

theorem watchedForm_eq {p : Parse Expr} (h : g.ReadsForms F p) : watchedForm alarm p = p :=
  ((Finds.of_readsForms h).imp fun _ he => he.negatable hg).watched_eq alarm

theorem watchedStep_eq {p : Parse (Option Expr)} {us : List Token}
    (h : ∀ c, Reads c (GoesOn g F us) p) : watchedStep alarm p = p :=
  ((Finds.of_goesOn h).imp fun _ ho e he => (ho e he).negatable hg).watched_eq alarm

include hb

theorem watchedPrimaryWith_eq : g.watchedPrimaryWith alarm below = g.primaryWith below := by
  have hstep {e : Expr} {us : List Token} (he : e.WrittenAs g F us) (c : Cursor) :
      Reads c (GoesOn g F us) (g.extendPostfix below e) :=
    extendPostfix_written hb he
  -- the loops need only agree on what is written as tokens: on other trees the alarm might go off
  have hpostfix {e : Expr} (he : e.IsWritten g F) :
      Parse.whileSome (fun e => watchedStep alarm (g.extendPostfix below e)) e =
        Parse.whileSome (g.extendPostfix below) e :=
    Finds.whileSome_congr (fun _ ⟨_, he⟩ => .of_goesOn (hstep he))
      (fun _ ⟨_, he⟩ => watchedStep_eq hg alarm (hstep he)) he
  have hform := hg.primaryForm below hb
  unfold watchedPrimaryWith
  rw [watchedStep_eq hg alarm hform, watchedForm_eq hg alarm (commonPrimary_written hb)]
  apply (Finds.of_goesOn hform).bind_congr
  intro o ho
  cases o with
  | some e => exact hpostfix (ho e rfl)
  | none => exact (Finds.of_readsForms (commonPrimary_written hb)).bind_congr fun _ => hpostfix

theorem watchedUnaryWith_eq : g.watchedUnaryWith alarm below = g.unaryWith below := by
  unfold watchedUnaryWith
  rw [watchedPrimaryWith_eq hg alarm hb]
  apply (Finds.any Parse.peek).bind_congr
  intro o _
  cases o with
  | none => rfl
  | some token =>
    dsimp only
    cases g.prefixOf token with
    | none => rfl
    | some spec =>
      apply (Finds.any Parse.next).bind_congr
      intro _ _
      apply (Finds.of_readsForms (hb spec.precedence)).bind_congr
      intro e he
      have hnegatable : e.Negatable := he.negatable hg
      have hpure : Finds Expr.Negatable (pure (applyPrefix token.position spec.op e)) :=
        .pure (hnegatable.applyPrefix token.position spec.op)
      rw [watchedPrefix_eq alarm token.position spec.op hnegatable]
      exact hpure.watched_eq alarm

theorem watchedExpressionWith_eq (floor : Nat) :
    g.watchedExpressionWith alarm below floor = g.expressionWith below floor := by
  have hstep {e : Expr} {us : List Token} (he : e.WrittenAs g F us) (c : Cursor) :
      Reads c (GoesOn g F us) (g.extendRight below floor e) :=
    extendRight_written hg hb he
  unfold watchedExpressionWith
  rw [watchedUnaryWith_eq hg alarm hb]
  apply (Finds.of_readsForms (unaryWith_written hg hb)).bind_congr
  intro e he
  exact Finds.whileSome_congr (fun _ ⟨_, he⟩ => .of_goesOn (hstep he))
    (fun _ ⟨_, he⟩ => watchedStep_eq hg alarm (hstep he)) he

omit hb in
theorem watchedNested_eq (depth : Nat) : g.watchedNested alarm depth = g.nested depth := by
  induction depth with
  | zero => rfl
  | succ depth ih =>
    funext floor
    rw [watchedNested, ih]
    exact watchedExpressionWith_eq hg alarm (nested_written hg depth) floor

end unwatched

/-- The rules for expressions, for operands and for primary forms, all of them watched. -/
def watchedRules (g : Grammar) (alarm : CompileError) (floor : Nat) : List (Parse Expr) :=
  [fun c => g.watchedNested alarm (c.tokens.length + 1) floor c,
    fun c => g.watchedUnaryWith alarm (g.watchedNested alarm (c.tokens.length + 1)) c,
    fun c => g.watchedPrimaryWith alarm (g.watchedNested alarm (c.tokens.length + 1)) c]

theorem watchedRules_eq (hg : g.Forming F) (alarm : CompileError) (floor : Nat) :
    g.watchedRules alarm floor = [g.expression floor, g.unary, g.primary] := by
  have hnested (c : Cursor) := nested_written hg (c.tokens.length + 1)
  unfold watchedRules
  simp only [watchedNested_eq hg, watchedUnaryWith_eq hg alarm (hnested _),
    watchedPrimaryWith_eq hg alarm (hnested _)]
  rfl

end Grammar

/-! ### Whole sources -/

theorem finds_negatable (hg : g.Forming F) {floor : Nat} {rule : Parse Expr}
    (hrule : rule ∈ [g.expression floor, g.unary, g.primary]) : Finds Expr.Negatable rule :=
  (Finds.of_readsForms (Grammar.rules_written hg floor hrule)).imp fun _ he => he.negatable hg

theorem negatable_of_parseExpression (hg : g.Forming F) {source : String} {e : Expr}
    (h : parseExpression g source = .ok e) : e.Negatable := by
  have hwhole : Finds Expr.Negatable (do
      let e ← g.expression 0
      if ← Parse.isEof then return e else Parse.failExpected ["end of input"]) := by
    apply (finds_negatable hg List.mem_cons_self).bind
    intro e he
    refine .after fun b => ?_
    split
    · exact .pure he
    · exact .failExpected _
  obtain ⟨c', hrun⟩ := Parse.exists_of_run? h
  exact hwhole.of_ok _ e c' hrun

theorem Query.negatable_of_parse {source : String} {s : Statement} (h : parse source = .ok s) :
    ∀ e ∈ s.roots, e.Negatable := by
  obtain ⟨parts, ts, -, hparts, hroots⟩ := parse_written h
  intro e he
  exact hparts.negatable grammar_forming e (hroots.mem_iff.mpr he)

namespace Template

def Node.Negatable (n : Node) : Prop :=
  (∀ e ∈ n.exprs, e.Negatable) ∧ ∀ l ∈ n.defaults, l.Negatable

theorem Node.walk_eq (place : Place) (n : Node) :
    n.walk = n :: (n.bodies place).flatMap fun body => walkNodes body.2 := by
  cases n <;> simp [walk, bodies, walkBranches_eq, walkOptional_eq, List.flatMap_map]

/-- The nodes without the least integer in them. -/
def negatable : NodeClass where
  HoldsExpr := Expr.Negatable
  HoldsLiteral := Literal.Negatable
  Holds _ n := ∀ m ∈ n.walk, m.Negatable
  value := Expr.negatable_literal.mp
  unfiltered h := (Expr.negatable_iff.mp h).2 _ List.mem_cons_self
  node {place n} _ he hd hb := by
    rw [n.walk_eq place, List.forall_mem_cons, List.forall_mem_flatMap]
    refine ⟨⟨he, hd⟩, fun body hbody => ?_⟩
    rw [walkNodes_eq, List.forall_mem_flatMap]
    exact hb body hbody

theorem negatable_of_parse {source : String} {nodes : List Node} (h : parse source = .ok nodes) :
    ∀ n ∈ walkNodes nodes, n.Negatable := by
  have hexpression : Finds Expr.Negatable expression :=
    finds_negatable grammar_forming List.mem_cons_self
  rw [walkNodes_eq, List.forall_mem_flatMap]
  exact parse_holds (I := negatable) hexpression h

end Template

/-- Signs, parentheses and nesting notwithstanding, no minus overflows. Watching the rules for
expressions changes none of them at any place, and no tree has the least integer in it. -/
theorem minus_never_overflows (alarm : CompileError) :
    (∀ g F, (g, F) ∈ languages →
      (∀ floor, g.watchedRules alarm floor = [g.expression floor, g.unary, g.primary] ∧
        ∀ rule ∈ [g.expression floor, g.unary, g.primary], Finds Expr.Negatable rule) ∧
      ∀ source e, parseExpression g source = .ok e → e.Negatable) ∧
    (∀ source s, Query.parse source = .ok s → ∀ e ∈ s.roots, e.Negatable) ∧
    ∀ source nodes, Template.parse source = .ok nodes →
      ∀ n ∈ Template.walkNodes nodes, n.Negatable := by
  refine ⟨fun g F hg => ?_, fun _ _ => Query.negatable_of_parse,
    fun _ _ => Template.negatable_of_parse⟩
  have hforming : g.Forming F := (mem_languages hg).1
  refine ⟨fun floor => ⟨Grammar.watchedRules_eq hforming alarm floor, ?_⟩, ?_⟩
  · exact fun rule hrule => finds_negatable hforming hrule
  · exact fun source e => negatable_of_parseExpression hforming

/-- Signs before signs, before parentheses, in a list and in a default of a macro. -/
def signs : String :=
  "\x7b% macro m(a=---9223372036854775807) %\x7d" ++
    "\x7b\x7b -(-9223372036854775807) + [--1] \x7d\x7d\x7b% endmacro %\x7d"

theorem minus_never_overflows_signs : ∃ nodes, Template.parse signs = .ok nodes ∧
    (Template.walkNodes nodes).flatMap (fun n =>
      (n.defaults ++ n.exprs.flatMap fun e => e.nodes.filterMap Expr.literal?).map
        Literal.text) = ["-9223372036854775807", "-9223372036854775807", "1"] ∧
    ∀ n ∈ Template.walkNodes nodes, n.Negatable := by
  have hparse : (Template.parse signs).toOption.any fun nodes =>
      (Template.walkNodes nodes).flatMap (fun n =>
        (n.defaults ++ n.exprs.flatMap fun e => e.nodes.filterMap Expr.literal?).map
          Literal.text) == ["-9223372036854775807", "-9223372036854775807", "1"] := by
    decide +kernel
  obtain ⟨nodes, h, htexts⟩ := exists_ok_of_any hparse
  obtain ⟨-, -, htemplates⟩ := minus_never_overflows (.unexpectedCharacter '-' .start)
  exact ⟨nodes, h, beq_iff_eq.mp htexts, htemplates signs nodes h⟩

end EmbeddedLang
