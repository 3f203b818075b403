import EmbeddedLang.Proofs.Query.Precedence
import EmbeddedLang.Template.Grammar

/-!
Expressions of templates nest by precedence.

A test ends by itself, so `x is defined + 1` adds one to a test. A choice and a power are grouped
from the right.
-/

namespace EmbeddedLang.Template

open Parse

def binaryRank? : BinaryOp → Option Nat
  | .or => some 2
  | .and => some 3
  | .eq | .notEq | .identical | .notIdentical | .lt | .gt | .ltEq | .gtEq | .in | .notIn => some 5
  | .range => some 6
  | .concat | .add | .sub => some 7
  | .mul | .div | .floorDiv | .mod => some 8
  | .pow => some 9
  | .like | .notLike | .iLike | .notILike | .bitAnd | .bitOr | .bitXor => none

def rank? : Expr → Option Nat
  | .conditional .. => some 1
  | .binary _ op _ _ => binaryRank? op
  | .unary _ .not _ => some 4
  | .defined .. | .test .. => some 5
  | .unary .. => some 10
  | .filter .. => some 11
  | _ => none

def closes : Expr → Bool
  | .defined .. | .test .. => true
  | _ => false

def ranks : Ranks := ⟨rank?, closes⟩

theorem groupsRight_iff {e : Expr} {p : Nat} (h : rank? e = some p) :
    e.groupsRight = true ↔ p = 1 ∨ p = 9 := by
  cases e with
  | binary _ op _ _ =>
    cases op with
    | _ => cases h <;> simp [Expr.groupsRight]
  | unary _ op _ =>
    cases op with
    | _ => cases h; simp [Expr.groupsRight]
  | _ => cases h <;> simp [Expr.groupsRight]

theorem rank_le {e : Expr} {p : Nat} (h : rank? e = some p) : p ≤ 11 := by
  cases e with
  | binary _ op _ _ =>
    cases op with
    | _ => cases h <;> decide
  | unary _ op _ =>
    cases op with
    | _ => cases h; decide
  | _ => cases h <;> decide

theorem ranks_coherent : ranks.Coherent where
  operation e h := by
    change rank? e = none
    cases e <;> first | rfl | cases h
  grouping {e e' p} h h' :=
    Bool.eq_iff_iff.mpr ((groupsRight_iff h).trans (groupsRight_iff h').symm)
  tightest {e e' p q} hfloor hcloses hq hp := by
    change rank? e = some q at hq
    change rank? e' = some p at hp
    cases e with
    | unary _ op _ => cases hq.symm.trans hfloor
    | binary _ op x y =>
      unfold Ranks.floor? at hfloor
      simp only [ranks, closes, hq] at hfloor
      cases hfloor
    | conditional _ _ _ _ => cases hfloor
    | filter _ _ _ _ =>
      cases hq
      have hle := rank_le hp
      unfold Expr.leftLeast
      split
      · rename_i hgroups
        have := (groupsRight_iff hp).mp hgroups
        omega
      · exact hle
    | defined _ _ _ => cases hcloses
    | test _ _ _ _ _ => cases hcloses
    | _ => cases hq

/-- The rank of the form ahead that no table says. -/
def form? (c : Cursor) : Option Nat :=
  c.tokens[0]?.bind fun token =>
    if token.isOperator "|" then some filtering
    else if token.isKeyword "is" then some comparison
    else if token.isOperator "?" then some choice
    else none

theorem optionalArguments_yields {ts : List Token} {I : PrimaryClass} {below : Nat → Parse Expr}
    (hb : ∀ floor, Yields ts I.Holds (below floor)) :
    Yields ts (fun items => ∀ item ∈ items, I.Holds item.value) (optionalArguments below) := by
  apply (eatOperator_yields "(").bind
  intro b _
  split
  · exact (arguments_yields table (hb 0)).bind fun _ hargs => .pure hargs
  · exact .pure (List.forall_mem_nil _)

theorem testName_yields {ts : List Token} : Passes ts testName := by
  apply peek_yields.bind
  intro o _
  cases o with
  | none => exact failExpected_yields _
  | some token =>
    dsimp only
    split
    · exact next_yields.bind fun _ _ => .pure trivial
    · exact failExpected_yields _

section forms

variable {c : Cursor} {below : Nat → Parse Expr} {left : Expr} {floor : Nat}
  (hb : grammar.Nested ranks form? below) (hn : ∀ n ∈ left.nodes, ranks.Nests n)

include hb hn

theorem testForm_reaches (hl : ranks.OnLeft comparison comparison left)
    (hfloor : floor ≤ comparison) : Reaches c
      (fun e c' => c'.tokens <:+ c.tokens ∧ grammar.Settled ranks form? floor e c')
      (testForm below left) := by
  have hnests {e : Expr} (h : rank? e = some comparison → ranks.NestsAt comparison e)
      (hrank : rank? e = some comparison) : ranks.Nests e := by
    intro p hp
    cases hrank.symm.trans hp
    exact h hrank
  apply (Reaches.of_yields fun _ => eatKeyword_yields "not").bind
  rintro negated d ⟨hnot, _⟩
  apply (Reaches.of_yields fun _ => eatKeyword_yields "defined").bind
  rintro b d' ⟨hdefined, _⟩
  split
  · refine .pure ⟨hdefined.trans hnot, .of_closed (p := comparison) rfl hfloor ?_ ?_⟩
    · exact List.forall_mem_cons.mpr ⟨hnests (fun _ => hl) rfl, hn⟩
    · exact List.forall_mem_singleton.mpr rfl
  · apply (Reaches.of_yields fun _ => testName_yields).bind
    rintro name d'' ⟨hname, _⟩
    apply (Reaches.of_yields fun ts => optionalArguments_yields (hb.yields ranks_coherent ts)).bind
    rintro args c' ⟨hargs, hitems⟩
    refine .pure ⟨hargs.trans (hname.trans (hdefined.trans hnot)),
      .of_closed (p := comparison) rfl hfloor ?_ ?_⟩
    · exact List.forall_mem_cons.mpr ⟨hnests (fun _ => hl) rfl,
        List.forall_mem_append.mpr ⟨hn, forall_nodesOfItems.mpr hitems⟩⟩
    · exact List.forall_mem_singleton.mpr rfl

theorem filterForm_reaches (hl : ranks.OnLeft filtering filtering left)
    (hfloor : floor ≤ filtering) (hc : c.tokens ≠ []) (S : Cursor → Prop) :
    Reaches c (Advances (grammar.Settled ranks form? floor) S c) (do
      let _ ← next
      let (name, _) ← expectIdentifier
      return some (.filter left.position left name (← optionalArguments below))) := by
  apply next_reaches.bind
  intro _ d hd
  apply (Reaches.of_yields fun _ => expectIdentifier_yields.imp fun _ _ => trivial).bind
  rintro ⟨name, p⟩ d' ⟨hname, _⟩
  apply (Reaches.of_yields fun ts => optionalArguments_yields (hb.yields ranks_coherent ts)).bind
  rintro args c' ⟨hargs, hitems⟩
  refine .pure (.of_drop Nat.one_pos hc (hd ▸ hargs.trans hname)
    (.of_closed (p := filtering) rfl hfloor ?_ ?_))
  · refine List.forall_mem_cons.mpr ⟨fun p hp => ?_, List.forall_mem_append.mpr
      ⟨hn, forall_nodesOfItems.mpr hitems⟩⟩
    cases hp
    exact hl
  · exact List.forall_mem_singleton.mpr rfl

theorem choiceForm_reaches (hl : ranks.OnLeft choice (choice + 1) left) (hfloor : floor ≤ choice)
    (hc : c.tokens ≠ []) (S : Cursor → Prop) :
    Reaches c (Advances (grammar.Settled ranks form? floor) S c) (do
      let _ ← next
      let yes ← below 0
      let _ ← expectOperator ":"
      let no ← below choice
      return some (.conditional left.position left yes no)) := by
  apply next_reaches.bind
  intro _ d hd
  apply (hb 0 d).bind
  rintro yes d' ⟨hyes, hyes', _⟩
  apply (Reaches.of_yields fun _ => expectOperator_yields ":").bind
  rintro _ d'' ⟨hcolon, _⟩
  apply (hb choice d'').bind
  rintro no c' ⟨hno, hno', hstop⟩
  refine .pure (.of_drop Nat.one_pos hc (hd ▸ hno.trans (hcolon.trans hyes)) ⟨?_, ?_, ?_⟩)
  · refine List.forall_mem_cons.mpr ⟨fun p hp => ?_, List.forall_mem_append.mpr
      ⟨List.forall_mem_append.mpr ⟨hn, hyes'.nests⟩, hno'.nests⟩⟩
    cases hp
    exact ⟨hl, hno'.tight⟩
  · refine List.forall_mem_cons.mpr ⟨fun f hf => ?_, hno'.ended⟩
    cases hf
    exact hstop
  · refine .inr fun p hp => ?_
    cases hp
    exact hfloor

theorem infixForm_reaches
    (hl : ∀ e, ∀ p ∈ form? c, rank? e = some p → ranks.OnLeft p (e.leftLeast p) left) :
    Reaches c (Advances (grammar.Settled ranks form? floor) (fun c => ∀ p ∈ form? c, p < floor) c)
      (infixForm below left floor) := by
  apply peek_reaches.bind
  rintro o c' ⟨rfl, ho⟩
  cases o with
  | none =>
    have hform : form? c' = none := by
      rw [form?, ← ho]
      rfl
    refine .pure ⟨rfl, fun p hp => ?_⟩
    rw [hform] at hp
    cases hp
  | some token =>
    have hform : form? c' =
        if token.isOperator "|" then some filtering
        else if token.isKeyword "is" then some comparison
        else if token.isOperator "?" then some choice
        else none := by
      rw [form?, ← ho, Option.bind_some]
    have hne : c'.tokens ≠ [] := List.ne_nil_of_mem (List.mem_of_getElem? ho.symm)
    dsimp only
    split
    · rename_i hfilter
      obtain ⟨hbar, hfloor⟩ : token.isOperator "|" = true ∧ floor ≤ filtering := by
        simpa using hfilter
      rw [if_pos hbar] at hform
      have hleft := hl (.filter left.position left "" []) filtering hform rfl
      exact filterForm_reaches hb hn hleft hfloor hne _
    rename_i hfilter
    split
    · rename_i htest
      obtain ⟨his, hfloor⟩ : token.isKeyword "is" = true ∧ floor ≤ comparison := by
        simpa using htest
      have hbar : ¬ token.isOperator "|" = true := by
        intro h
        exact hfilter (by simp [h, Nat.le_trans hfloor (by decide : comparison ≤ filtering)])
      rw [if_neg hbar, if_pos his] at hform
      apply next_reaches.bind
      intro _ d hd
      have hleft := hl (.defined left.position left false) comparison hform rfl
      apply (testForm_reaches hb hn hleft hfloor).map
      rintro e d' ⟨hsuffix, he⟩
      exact .of_drop Nat.one_pos hne (hd ▸ hsuffix) he
    rename_i htest
    split
    · rename_i hchoice
      obtain ⟨hmark, hfloor⟩ : token.isOperator "?" = true ∧ floor ≤ choice := by
        simpa using hchoice
      have hbar : ¬ token.isOperator "|" = true := by
        intro h
        exact hfilter (by simp [h, Nat.le_trans hfloor (by decide : choice ≤ filtering)])
      have his : ¬ token.isKeyword "is" = true := by
        intro h
        exact htest (by simp [h, Nat.le_trans hfloor (by decide : choice ≤ comparison)])
      rw [if_neg hbar, if_neg his, if_pos hmark] at hform
      have hleft := hl (.conditional left.position left left left) choice hform rfl
      exact choiceForm_reaches hb hn hleft hfloor hne _
    · rename_i hchoice
      refine .pure ⟨rfl, fun p hp => ?_⟩
      rw [hform] at hp
      simp only [Bool.and_eq_true, decide_eq_true_eq, not_and, Nat.not_le] at hfilter htest hchoice
      split at hp
      · rename_i h
        cases hp
        exact hfilter h
      split at hp
      · rename_i h
        cases hp
        exact htest h
      split at hp
      · rename_i h
        cases hp
        exact hchoice h
      · cases hp

end forms

theorem primaryForm_finds (below : Nat → Parse Expr) :
    Finds (fun o => ∀ e ∈ o, e.isOperation = false) (primaryForm below) := by
  refine .after fun b => ?_
  split
  · exact .after fun _ => .after fun _ => .pure (forall_mem_some rfl)
  · exact .pure forall_mem_none

theorem primaryForm_yields (I : PrimaryClass) (ts : List Token) : grammar.KeepsPrimary I ts := by
  intro below hb
  apply (at?_yields _).bind
  intro b _
  split
  · apply (expect_yields _ _).bind
    intro start _
    exact (listItems_yields table (hb 0) _).bind fun _ hitems =>
      .pure (forall_mem_some (I.list _ hitems))
  · exact .pure forall_mem_none

theorem binaryOps_ranked : ∀ spec ∈ binaryOps, spec.tokens ≠ [] ∧
    binaryRank? spec.op = some spec.precedence ∧ (spec.assoc = .right ↔ spec.op = .pow) := by
  decide

theorem grammar_ranked : grammar.RankedBy ranks form? where
  coherent := ranks_coherent
  binary spec hs := by
    obtain ⟨hne, hrank, hassoc⟩ := binaryOps_ranked spec hs
    refine ⟨hne, fun p x y => ⟨hrank, rfl, ?_⟩⟩
    unfold Grammar.rightFloor Expr.rightLeast Expr.groupsRight
    cases h : spec.assoc with
    | right =>
      rw [hassoc.mp h]
      rfl
    | left =>
      have hop : spec.op ≠ .pow := fun hop => by cases h.symm.trans (hassoc.mpr hop)
      rw [if_neg (by simpa using hop)]
  unary := by
    intro spec hs p x
    simp only [grammar, prefixOps, List.mem_cons, List.not_mem_nil, or_false] at hs
    obtain rfl | rfl | rfl := hs <;> rfl
  keeps ts := primaryForm_yields _ ts
  primaryForm := primaryForm_finds
  infixForm _ hb _ _ _ hn hl := infixForm_reaches hb hn hl

end EmbeddedLang.Template

namespace EmbeddedLang

open Parse

/-- In both languages the operands of an operator bind tight enough for it, at any depth. -/
theorem expressions_nest :
    (∀ floor c e c', Query.grammar.expression floor c = .ok e c' →
      ∀ n ∈ e.nodes, Query.ranks.Nests n) ∧
    (∀ floor c e c', Template.grammar.expression floor c = .ok e c' →
      ∀ n ∈ e.nodes, Template.ranks.Nests n) :=
  ⟨fun _ _ _ _ h => Query.grammar_ranked.nests h,
    fun _ _ _ _ h => Template.grammar_ranked.nests h⟩

/-- Where the expression of an output begins that stands at the start of a source. -/
def Template.echoed (source : String) : Cursor :=
  let c := Cursor.ofSource Template.table source
  { c with tokens := c.tokens.drop 1 }

/-- Tests on the left of tighter operators, and a power and a choice that go on to the right. -/
theorem expressions_nest_mixed :
    (∃ e c', Query.grammar.expression 0 (Cursor.ofSource Query.table
        "a IS NULL + 1 * NOT b BETWEEN -c AND d OR e IN (1, 2) - f") = .ok e c' ∧
      ∀ n ∈ e.nodes, Query.ranks.Nests n) ∧
    (∃ e c', Template.grammar.expression 0 (Template.echoed
        "\x7b\x7b not a ** -b ** c | f(x is even + 1) ? d ~ e : g .. h ? i : j \x7d\x7d") =
          .ok e c' ∧
      ∀ n ∈ e.nodes, Template.ranks.Nests n) := by
  have hquery : (run? (Query.grammar.expression 0) (Cursor.ofSource Query.table
      "a IS NULL + 1 * NOT b BETWEEN -c AND d OR e IN (1, 2) - f")).toOption.isSome := by
    decide +kernel
  have htemplate : (run? (Template.grammar.expression 0) (Template.echoed
      "\x7b\x7b not a ** -b ** c | f(x is even + 1) ? d ~ e : g .. h ? i : j \x7d\x7d")
        ).toOption.isSome := by
    decide +kernel
  obtain ⟨e, he⟩ := exists_ok_of_isSome hquery
  obtain ⟨c, hc⟩ := exists_of_run? he
  obtain ⟨e', he'⟩ := exists_ok_of_isSome htemplate
  obtain ⟨c', hc'⟩ := exists_of_run? he'
  exact ⟨⟨e, c, hc, expressions_nest.1 _ _ _ _ hc⟩, ⟨e', c', hc', expressions_nest.2 _ _ _ _ hc'⟩⟩

def isSumOfTest : Expr → Bool
  | .binary _ .add (.isNull ..) _ => true
  | _ => false

/-- If a test had to be tight as other operands have, this one would stand where it may not. -/
theorem test_left_of_sum : ∃ e c', Query.grammar.expression 0 (Cursor.ofSource Query.table
    "born IS NULL + 1") = .ok e c' ∧
      ∃ n ∈ e.nodes, ¬ Ranks.Nests ⟨Query.rank?, fun _ => false⟩ n := by
  have hs : (run? (Query.grammar.expression 0) (Cursor.ofSource Query.table
      "born IS NULL + 1")).toOption.any isSumOfTest := by
    decide +kernel
  obtain ⟨e, he, hshape⟩ := exists_ok_of_any hs
  obtain ⟨c', hparse⟩ := exists_of_run? he
  unfold isSumOfTest at hshape
  split at hshape
  · refine ⟨_, c', hparse, _, List.mem_cons_self, fun h => ?_⟩
    obtain hcloses | htight := (h 7 rfl).1.tight
    · cases hcloses
    · have hle : 7 ≤ 4 := htight 4 rfl
      omega
  · cases hshape

end EmbeddedLang
