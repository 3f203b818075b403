import EmbeddedLang.Arithmetic
import EmbeddedLang.Proofs.Parser.Written
import EmbeddedLang.Proofs.Returns

/-!
A tree laid flat is what its tokens spell.

This is for grammars that say all in their tables. What the tree leaves open is the spelling of
literals and of keys.
-/

namespace EmbeddedLang

variable {g : Grammar}

/-- All rules are in the tables, and each operator stands in them with one spelling. -/
structure Grammar.Plain (g : Grammar) : Prop where
  primaryForm : g.primaryForm = noPrimaryForm
  infixForm : g.infixForm = noInfixForm
  binary : ∀ spec ∈ g.binaryOps,
    (g.binaryOps.find? (·.op == spec.op)).map (·.tokens) = some spec.tokens
  unary : ∀ spec ∈ g.prefixOps,
    (g.prefixOps.find? (·.op == spec.op)).map (·.token) = some spec.token
  distinct : g.table.distinctKeyword = none

theorem Grammar.Plain.binaryAtoms (hg : g.Plain) {spec : OperatorSpec} (h : spec ∈ g.binaryOps) :
    g.binaryAtoms spec.op = spec.tokens.map .symbol := by
  obtain ⟨found, hfind, htokens⟩ := Option.map_eq_some_iff.mp (hg.binary spec h)
  unfold Grammar.binaryAtoms
  rw [hfind, ← htokens]

/-! ### Atoms of parts -/

/-- The parts put down these atoms, each expression those of its tree. -/
inductive PartAtoms (g : Grammar) : List Part → List Atom → Prop where
  | nil : PartAtoms g [] []
  | tokens {ts : List Token} {parts : List Part} {as bs : List Atom} (hs : Spelled g as ts)
      (h : PartAtoms g parts bs) : PartAtoms g (ts.map .own ++ parts) (as ++ bs)
  | inner {e : Expr} {parts : List Part} {as : List Atom} (h : PartAtoms g parts as) :
      PartAtoms g (.inner e :: parts) (e.atoms g ++ as)

namespace PartAtoms

variable {parts parts' : List Part} {as bs : List Atom}

theorem token {token : Token} {a : Atom} (hs : a.SpelledBy g [token]) (h : PartAtoms g parts as) :
    PartAtoms g (.own token :: parts) (a :: as) :=
  tokens (.single hs) h

theorem operator {token : Token} {op : String} (hs : token.isOperator op)
    (h : PartAtoms g parts as) : PartAtoms g (.own token :: parts) (.symbol op :: as) :=
  .token (.operator hs) h

theorem last {ts : List Token} (hs : Spelled g as ts) : PartAtoms g (ts.map .own) as := by
  have h : PartAtoms g (ts.map .own ++ []) (as ++ []) := tokens hs nil
  rwa [List.append_nil, List.append_nil] at h

theorem expr (e : Expr) : PartAtoms g [.inner e] (e.atoms g) := by
  have h : PartAtoms g [.inner e] (e.atoms g ++ []) := inner nil
  rwa [List.append_nil] at h

theorem append (h : PartAtoms g parts as) (h' : PartAtoms g parts' bs) :
    PartAtoms g (parts ++ parts') (as ++ bs) := by
  induction h with
  | nil => exact h'
  | tokens hs _ ih =>
    rw [List.append_assoc, List.append_assoc]
    exact tokens hs ih
  | inner _ ih =>
    rw [List.append_assoc]
    exact inner ih

theorem option (o : Option Expr) : PartAtoms g (optionParts o) (atomsOfOption g o) := by
  cases o with
  | none => exact nil
  | some e => exact expr e

end PartAtoms

theorem ItemsForm.partAtoms {label : String → Atom} {items : List Item} {parts : List Part}
    (h : ItemsForm g label items parts) :
    items ≠ [] ∧ PartAtoms g parts (atomsOfItems g label items) := by
  induction h with
  | single h => exact ⟨List.cons_ne_nil _ _, .tokens h (.expr _)⟩
  | more _ hcomma h ih =>
    obtain ⟨hne, ih⟩ := ih
    refine ⟨List.append_ne_nil_of_left_ne_nil hne _, ?_⟩
    rw [atomsOfItems_concat hne]
    exact ih.append (.operator hcomma (.tokens h (.expr _)))

theorem ListForm.partAtoms {label : String → Atom} {closer : String} {items : List Item}
    {parts : List Part} (h : ListForm g label closer items parts) :
    PartAtoms g parts (atomsOfItems g label items ++ [.symbol closer]) := by
  cases h with
  | empty h => exact .operator h .nil
  | items hitems h => exact hitems.partAtoms.2.append (.operator h .nil)

/-- A form puts down the atoms of its tree. -/
theorem Form.partAtoms (hg : g.Plain) {e : Expr} {parts : List Part}
    (h : Form g noForms e parts) : PartAtoms g parts (e.atoms g) := by
  cases h with
  | literal h => exact .last (.single (.literal h))
  | identifier h => exact .token (.name h) .nil
  | unary hspec h =>
    rw [Expr.atoms, Grammar.prefixAtom_eq_symbol hg.unary hspec]
    exact .token (.symbol h) (.expr _)
  | binary hspec h =>
    rw [Expr.atoms, hg.binaryAtoms hspec]
    exact .inner (.tokens (.symbols h) (.expr _))
  | call hopener hitems =>
    obtain ⟨hword, hitems⟩ := hitems
    rw [hg.distinct] at hword
    cases hword with
    | present h => cases h
    | absent => exact .inner (.operator hopener hitems.partAtoms)
  | member hdot h => exact .inner (.operator hdot (.last h))
  | index hopener hcloser =>
    exact .inner (.operator hopener (.inner (.operator hcloser .nil)))
  | slice hopener hcolon hcloser =>
    exact .inner (.operator hopener ((PartAtoms.option _).append
      (.operator hcolon ((PartAtoms.option _).append (.operator hcloser .nil)))))
  | list hopener hitems => exact .operator hopener hitems.partAtoms
  | grouped hopener hcloser => exact .operator hopener (.inner (.operator hcloser .nil))
  | added h => exact h.elim

/-! ### Spelling of trees -/

/-- The parts stand one after the other, each expression in a relation to its tokens. -/
inductive Laid (R : Expr → List Token → Prop) : List Part → List Token → Prop where
  | nil : Laid R [] []
  | own {token : Token} {parts : List Part} {ts : List Token} (h : Laid R parts ts) :
      Laid R (.own token :: parts) (token :: ts)
  | inner {e : Expr} {parts : List Part} {ts us : List Token} (he : R e ts) (h : Laid R parts us) :
      Laid R (.inner e :: parts) (ts ++ us)

/-- What every form keeps holds of all that is written. -/
theorem Written.laid {R : Expr → List Token → Prop} {F : Forms} {parts : List Part}
    {ts : List Token} (hR : ∀ e inside us, Form g F e inside → Laid R inside us → R e us)
    (h : Written g F parts ts) : Laid R parts ts := by
  induction h with
  | nil => exact .nil
  | own _ ih => exact .own ih
  | inner hform _ _ _ ihinside ih => exact .inner (hR _ _ _ hform ihinside) ih

theorem Laid.of_tokens {R : Expr → List Token → Prop} {parts : List Part} {ts us : List Token}
    (h : Laid R (ts.map .own ++ parts) us) : ∃ vs, us = ts ++ vs ∧ Laid R parts vs := by
  induction ts generalizing us with
  | nil => exact ⟨us, rfl, h⟩
  | cons token rest ih =>
    cases h with
    | own h =>
      obtain ⟨vs, rfl, hvs⟩ := ih h
      exact ⟨vs, rfl, hvs⟩

theorem PartAtoms.spelled {parts : List Part} {as : List Atom} {ts : List Token}
    (h : PartAtoms g parts as)
    (hts : Laid (fun e us => Spelled g (e.atoms g) us) parts ts) : Spelled g as ts := by
  induction h generalizing ts with
  | nil =>
    cases hts
    exact .nil
  | tokens hs _ ih =>
    obtain ⟨vs, rfl, hvs⟩ := hts.of_tokens
    exact hs.append (ih hvs)
  | inner _ ih =>
    cases hts with
    | inner he hvs => exact he.append (ih hvs)

theorem Expr.WrittenAs.spelled (hg : g.Plain) {e : Expr} {ts : List Token}
    (h : e.WrittenAs g noForms ts) : Spelled g (e.atoms g) ts :=
  (PartAtoms.expr e).spelled (Written.laid (fun _ _ _ hform => (hform.partAtoms hg).spelled) h)

theorem Grammar.Plain.forming (hg : g.Plain) : g.Forming noForms where
  unary := hg.unary
  inPlace _ _ := False.elim
  literal _ _ _ := id
  primaryForm _ _ _ := by
    rw [hg.primaryForm]
    exact .pure .none
  infixForm _ _ _ _ _ _ _ := by
    rw [hg.infixForm]
    exact .pure .none

/-- A source that is parsed has no scan error, and its tokens spell the tree. -/
theorem spelled_of_parseExpression {source : String} {e : Expr} (hg : g.Plain)
    (h : parseExpression g source = .ok e) :
    (scan g.table source).fault = none ∧ Spelled g (e.atoms g) (scan g.table source).tokens := by
  have hreads (c : Cursor) : Reads c
      (fun e _ => c.fault = none ∧ Spelled g (e.atoms g) c.tokens) (do
        let e ← g.expression 0
        if ← Parse.isEof then return e else Parse.failExpected ["end of input"]) := by
    apply (Grammar.rules_written hg.forming 0 List.mem_cons_self c).bind
    rintro e ts c' rfl he
    apply Parse.isEof_reads.bind
    rintro b us c'' - ⟨rfl, heof⟩
    split
    · rename_i hb
      obtain ⟨htokens, hfault⟩ := heof hb
      refine .pure ⟨hfault, ?_⟩
      rw [Cursor.tokens_before, htokens, List.append_nil]
      exact he.spelled hg
    · exact Parse.failExpected_reads _
  obtain ⟨c', hrun⟩ := Parse.exists_of_run? h
  obtain ⟨ts, -, hspelled⟩ := (hreads _).of_ok e c' hrun
  exact hspelled

namespace Arithmetic

theorem grammar_plain : grammar.Plain where
  primaryForm := rfl
  infixForm := rfl
  binary := by decide
  unary := by decide
  distinct := rfl

/-- Parsing loses nothing of a source, adds nothing to it and leaves its order as it is. -/
theorem parse_spelled {source : String} {e : Expr} (h : parseExpression grammar source = .ok e) :
    (scan table source).fault = none ∧
      Spelled grammar (e.atoms grammar) (scan table source).tokens :=
  spelled_of_parseExpression grammar_plain h

/-- Signs before numbers, keys of each kind and a slice without its end. -/
def mixed : String :=
  "--1.5 + f(x, y: -2)[1:].not == not ['a': 3, b: c]"

theorem parse_spelled_mixed : ∃ e, parseExpression grammar mixed = .ok e ∧
    (scan table mixed).fault = none ∧ Spelled grammar (e.atoms grammar) (scan table mixed).tokens := by
  have hparse : (parseExpression grammar mixed).toOption.isSome := by decide +kernel
  obtain ⟨e, h⟩ := exists_ok_of_isSome hparse
  exact ⟨e, h, parse_spelled h⟩

end Arithmetic

end EmbeddedLang
