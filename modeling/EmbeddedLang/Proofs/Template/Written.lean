import EmbeddedLang.Proofs.Parser.Written
import EmbeddedLang.Template.Grammar

/-!
The forms that templates add are written as the tokens that the parser takes.
-/

namespace EmbeddedLang.Template

open Parse

/-! ### Forms -/

/-- Arguments in parentheses, or nothing. -/
inductive ParametersForm : List Item → List Part → Prop where
  | none : ParametersForm [] []
  | some {opener : Token} {items : List Item} {distinct : Bool} {parts : List Part}
      (hopener : opener.isOperator "(") (hitems : ArgumentsForm grammar items distinct parts) :
      ParametersForm items (.own opener :: parts)

/-- The forms of templates. -/
inductive TemplateForm : Forms where
  | list {p : Position} {items : List Item} {opener : Token} {parts : List Part}
      (hopener : opener.isOperator "\x7b") (hitems : ListForm grammar .key "\x7d" items parts) :
      TemplateForm (.list p items) (.own opener :: parts)
  | conditional {p : Position} {x y z : Expr} {mark colon : Token} (hmark : mark.isOperator "?")
      (hcolon : colon.isOperator ":") :
      TemplateForm (.conditional p x y z) [.inner x, .own mark, .inner y, .own colon, .inner z]
  | filter {p : Position} {x : Expr} {bar name : Token} {items : List Item} {parts : List Part}
      (hbar : bar.isOperator "|") (hname : name.isIdentifier)
      (hitems : ParametersForm items parts) :
      TemplateForm (.filter p x name.name items) (.inner x :: .own bar :: .own name :: parts)
  | defined {p : Position} {x : Expr} {negated : Bool} {notWord : List Token} {word last : Token}
      (hword : word.isKeyword "is") (hnot : Flag (·.isKeyword "not") negated notWord)
      (hlast : last.isKeyword "defined") :
      TemplateForm (.defined p x negated)
        (.inner x :: .own word :: (notWord.map .own ++ [.own last]))
  | test {p : Position} {x : Expr} {items : List Item} {negated : Bool} {notWord : List Token}
      {word name : Token} {parts : List Part} (hword : word.isKeyword "is")
      (hnot : Flag (·.isKeyword "not") negated notWord)
      (hname : name.kind = .identifier ∨ name.isKeyword "null")
      (hitems : ParametersForm items parts) :
      TemplateForm (.test p x name.lexeme items negated)
        (.inner x :: .own word :: (notWord.map .own ++ .own name :: parts))

theorem ParametersForm.exprsOf_eq {items : List Item} {parts : List Part}
    (h : ParametersForm items parts) : exprsOf parts = items.map (·.value) := by
  cases h with
  | none => rfl
  | some _ hitems => simp [hitems.exprsOf_eq]

theorem templateForm_inPlace : Forms.InPlace TemplateForm := by
  intro e parts h
  cases h with
  | list _ hitems | filter _ _ hitems | test _ _ _ hitems =>
    exact .inl ⟨by simp [Expr.children, hitems.exprsOf_eq], rfl⟩
  | _ => exact .inl ⟨by simp [Expr.children], rfl⟩

/-! ### Rules -/

variable {c : Cursor} {below : Nat → Parse Expr} (hb : ∀ floor, grammar.ReadsForms TemplateForm (below floor))

theorem testName_reads : Reads c (fun text ts => ∃ name, ts = [name] ∧ text = name.lexeme ∧
    (name.kind = .identifier ∨ name.isKeyword "null")) testName := by
  apply peek_bind
  intro o ho _
  cases o with
  | none => exact failExpected_reads _
  | some name =>
    dsimp only
    split
    · rename_i h
      rw [Bool.or_eq_true, beq_iff_eq] at h
      exact next_bind ho.symm fun _ _ _ => .pure ⟨name, rfl, rfl, h⟩
    · exact failExpected_reads _

include hb

theorem primaryForm_written : Reads c (GoesOn grammar TemplateForm []) (primaryForm below) := by
  apply (at?_reads _).bind
  rintro b _ c' - ⟨rfl, -⟩
  split
  · apply (expect_reads _ _).bind
    rintro opener _ c'' - ⟨rfl, hopener⟩
    apply (listItems_written (hb 0) "\x7d").bind_pure
    rintro items ts ⟨parts, hitems, hparts⟩
    exact .some (.lead (.added (.list hopener hitems)) rfl hparts)
  · exact .pure .none

theorem optionalArguments_written :
    Reads c (WrittenBy grammar TemplateForm ParametersForm) (optionalArguments below) := by
  apply (eat_reads _).bind
  rintro b _ c' - (⟨rfl, opener, rfl, hopener⟩ | ⟨rfl, rfl⟩)
  · apply (arguments_written (hb 0)).bind_pure
    rintro ⟨items, distinct⟩ ts ⟨parts, hitems, hparts⟩
    exact ⟨_, .some hopener hitems, .own hparts⟩
  · exact .pure ⟨_, .none, .nil⟩

variable {left : Expr} {us : List Token} (hl : left.WrittenAs grammar TemplateForm us)

include hl

theorem testForm_written {word : Token} (hword : word.isKeyword "is") :
    Reads c (fun e ts => e.WrittenAs grammar TemplateForm (us ++ word :: ts)) (testForm below left) := by
  apply (eat_flag _).bind
  intro negated notWord c₁ _ hnot
  apply (eat_reads _).bind
  rintro b _ c₂ - (⟨rfl, last, rfl, hlast⟩ | ⟨rfl, rfl⟩)
  · refine .pure (.extend hl (.added (.defined hword hnot hlast)) rfl (.own ?_))
    exact (Written.tokens notWord).append (.own .nil)
  · apply testName_reads.bind
    rintro _ _ c₃ - ⟨name, rfl, rfl, hname⟩
    apply (optionalArguments_written hb).bind_pure
    rintro items ts ⟨parts, hitems, hparts⟩
    refine .extend hl (.added (.test hword hnot hname hitems)) rfl (.own ?_)
    exact (Written.tokens notWord).append (.own hparts)

theorem infixForm_written (floor : Nat) :
    Reads c (GoesOn grammar TemplateForm us) (infixForm below left floor) := by
  apply peek_bind
  intro o ho _
  cases o with
  | none => exact .pure .none
  | some token =>
    dsimp only
    split
    · rename_i h
      obtain ⟨hbar, -⟩ := Bool.and_eq_true_iff.mp h
      apply next_bind ho.symm
      intro _ c₁ _
      have hname : Reads c₁ (fun found ts => ∃ name, ts = [name] ∧ found.1 = name.name ∧
          name.isIdentifier) expectIdentifier := by
        apply (expect_reads _ _).bind_pure
        rintro name _ ⟨rfl, hname⟩
        exact ⟨name, rfl, rfl, hname⟩
      apply hname.bind
      rintro ⟨_, _⟩ _ c₂ - ⟨name, rfl, rfl, hname⟩
      apply (optionalArguments_written hb).bind_pure
      rintro items ts ⟨parts, hitems, hparts⟩
      exact .some (.extend hl (.added (.filter hbar hname hitems)) rfl (.own (.own hparts)))
    split
    · rename_i h
      obtain ⟨hword, -⟩ := Bool.and_eq_true_iff.mp h
      apply next_bind ho.symm
      intro _ c₁ _
      exact (testForm_written hb hl hword).map fun _ _ => .some
    split
    · rename_i h
      obtain ⟨hmark, -⟩ := Bool.and_eq_true_iff.mp h
      apply next_bind ho.symm
      intro _ c₁ _
      apply (hb 0 c₁).bind
      intro yes ts c₂ _ hyes
      apply (expect_reads _ _).bind
      rintro colon _ c₃ - ⟨rfl, hcolon⟩
      apply (hb choice c₃).bind_pure
      intro no vs hno
      have hinside : Written grammar TemplateForm [.inner yes, .own colon, .inner no] (ts ++ colon :: vs) :=
        .cons hyes (.own hno)
      exact .some (.extend hl (.added (.conditional hmark hcolon)) rfl (.own hinside))
    · exact .pure .none

omit hb hl

theorem grammar_forming : grammar.Forming TemplateForm where
  unary := by decide
  inPlace := templateForm_inPlace
  literal _ _ _ := nofun
  primaryForm _ hb _ := primaryForm_written hb
  infixForm _ hb _ _ floor hl _ := infixForm_written hb hl floor

end EmbeddedLang.Template
