import EmbeddedLang.Proofs.Parser.Written
import EmbeddedLang.Query.Grammar

/-!
The forms that queries add are written as the tokens that the parser takes.

Of a select, only the expressions in it matter. They are gathered clause by clause.
-/

namespace EmbeddedLang.Query

open Parse

/-! ### Forms -/

/-- Branches of a choice. -/
inductive WhensForm : List When → List Part → Prop where
  | nil : WhensForm [] []
  | more {branches : List When} {parts : List Part} {whenWord thenWord : Token}
      {condition result : Expr} (hbranches : WhensForm branches parts)
      (hwhen : whenWord.isKeyword "WHEN") (hthen : thenWord.isKeyword "THEN") :
      WhensForm (branches ++ [⟨condition, result⟩])
        (parts ++ [.own whenWord, .inner condition, .own thenWord, .inner result])

inductive OtherwiseForm : Option Expr → List Part → Prop where
  | none : OtherwiseForm .none []
  | some {word : Token} {e : Expr} (hword : word.isKeyword "ELSE") :
      OtherwiseForm (.some e) [.own word, .inner e]

/-- A select is left open but for its first word and the expressions in it; the two of a limit may
be in either order. -/
inductive SelectForm : Select → List Part → Prop where
  | mk {s : Select} {word : Token} {parts : List Part} (hword : word.isKeyword "SELECT")
      (hposition : s.position = word.position) (hroots : (exprsOf parts).Perm s.roots) :
      SelectForm s (.own word :: parts)

/-- The forms of queries. The tokens of the type that a cast names are left open, and so is the
value of a placeholder. -/
inductive QueryForm : Forms where
  | placeholder {p : Position} {value : Placeholder} {token : Token} (h : token.kind = .placeholder) :
      QueryForm (.placeholder p value) [.own token]
  | star {p : Position} {token : Token} (h : token.isOperator "*") : QueryForm (.star p) [.own token]
  | qualifiedStar {p : Position} {token dot star : Token} (h : token.isIdentifier)
      (hdot : dot.isOperator ".") (hstar : star.isOperator "*") :
      QueryForm (.qualifiedStar p token.name) [.own token, .own dot, .own star]
  | inclusion {p : Position} {x y : Expr} {negated : Bool} {notWord : List Token} {word : Token}
      (hnot : Flag (·.isKeyword "NOT") negated notWord) (hword : word.isKeyword "IN") :
      QueryForm (.binary p (if negated then .notIn else .in) x y)
        (.inner x :: (notWord.map .own ++ [.own word, .inner y]))
  | list {p : Position} {items : List Item} {opener : Token} {parts : List Part}
      (hopener : opener.isOperator "(") (hitems : ListForm grammar .key ")" items parts) :
      QueryForm (.list p items) (.own opener :: parts)
  | between {p : Position} {x low high : Expr} {negated : Bool} {notWord : List Token}
      {word andWord : Token} (hnot : Flag (·.isKeyword "NOT") negated notWord)
      (hword : word.isKeyword "BETWEEN") (hand : andWord.isKeyword "AND") :
      QueryForm (.between p x low high negated)
        (.inner x :: (notWord.map .own ++ [.own word, .inner low, .own andWord, .inner high]))
  | isNull {p : Position} {x : Expr} {negated : Bool} {notWord : List Token} {word null : Token}
      (hword : word.isKeyword "IS") (hnot : Flag (·.isKeyword "NOT") negated notWord)
      (hnull : null.isKeyword "NULL") :
      QueryForm (.isNull p x negated) (.inner x :: .own word :: (notWord.map .own ++ [.own null]))
  | cases {p : Position} {operand otherwise : Option Expr} {branches : List When}
      {word endWord : Token} {whens others : List Part} (hword : word.isKeyword "CASE")
      (hwhens : WhensForm branches whens) (hothers : OtherwiseForm otherwise others)
      (hend : endWord.isKeyword "END") :
      QueryForm (.cases p operand branches otherwise)
        (.own word :: (optionParts operand ++ (whens ++ (others ++ [.own endWord]))))
  | cast {p : Position} {x : Expr} {target : String} {word opener asWord closer : Token}
      {ts : List Token} (hword : word.isKeyword "CAST") (hopener : opener.isOperator "(")
      (has : asWord.isKeyword "AS") (hcloser : closer.isOperator ")") :
      QueryForm (.cast p x target)
        (.own word :: .own opener :: .inner x :: .own asWord :: (ts.map .own ++ [.own closer]))
  | existence {p : Position} {s : Select} {word opener closer : Token} {parts : List Part}
      (hword : word.isKeyword "EXISTS") (hopener : opener.isOperator "(") (hs : SelectForm s parts)
      (hcloser : closer.isOperator ")") :
      QueryForm (.existence p s) (.own word :: .own opener :: (parts ++ [.own closer]))
  | subquery {p : Position} {s : Select} {opener closer : Token} {parts : List Part}
      (hopener : opener.isOperator "(") (hs : SelectForm s parts) (hcloser : closer.isOperator ")") :
      QueryForm (.subquery p s) (.own opener :: (parts ++ [.own closer]))

theorem WhensForm.exprsOf_eq {branches : List When} {parts : List Part}
    (h : WhensForm branches parts) :
    exprsOf parts = branches.flatMap fun w => [w.condition, w.result] := by
  induction h with
  | nil => rfl
  | more _ _ _ ih => simp [ih]

theorem OtherwiseForm.exprsOf_eq {otherwise : Option Expr} {parts : List Part}
    (h : OtherwiseForm otherwise parts) : exprsOf parts = otherwise.toList := by
  cases h <;> rfl

theorem queryForm_inPlace : Forms.InPlace QueryForm := by
  intro e parts h
  cases h with
  | existence _ _ hs | subquery _ hs =>
    obtain ⟨-, -, hroots⟩ := hs
    exact .inr ⟨rfl, by simpa [Expr.entered] using hroots⟩
  | list _ hitems => exact .inl ⟨by simp [Expr.children, hitems.exprsOf_eq], rfl⟩
  | cases _ hwhens hothers =>
    exact .inl ⟨by simp [Expr.children, hwhens.exprsOf_eq, hothers.exprsOf_eq], rfl⟩
  | _ => exact .inl ⟨by simp [Expr.children], rfl⟩

variable {α β : Type} {g : Grammar} {F : Forms} {c : Cursor}

/-! ### Gathering expressions -/

/-- What `p` gives stands in a relation to the expressions that are written as its tokens. -/
structure Gathers (g : Grammar) (F : Forms) (R : α → List Expr → Prop) (p : Parse α) : Prop where
  reads : ∀ c, Reads c (WrittenBy g F fun a parts => R a (exprsOf parts)) p

namespace Gathers

variable {R : α → List Expr → Prop} {S : β → List Expr → Prop} {p : Parse α} {f : α → Parse β}

theorem pure {a : α} (h : R a []) : Gathers g F R (Pure.pure a) where
  reads _ := .pure ⟨[], h, .nil⟩

theorem bind (hp : Gathers g F R p)
    (hf : ∀ a es, R a es → Gathers g F (fun b es' => S b (es ++ es')) (f a)) :
    Gathers g F S (p >>= f) where
  reads c := by
    apply (hp.reads c).bind
    rintro a ts c' - ⟨parts, ha, hparts⟩
    apply ((hf a _ ha).reads c').imp
    rintro b us ⟨parts', hb, hparts'⟩
    refine ⟨parts ++ parts', ?_, hparts.append hparts'⟩
    dsimp only
    rwa [exprsOf_append]

theorem imp {R' : α → List Expr → Prop} (hp : Gathers g F R p) (h : ∀ a es, R a es → R' a es) :
    Gathers g F R' p where
  reads c := (hp.reads c).imp fun a _ ⟨parts, ha, hparts⟩ => ⟨parts, h a _ ha, hparts⟩

theorem failExpected (expected : List String) : Gathers g F R (Parse.failExpected expected) where
  reads _ := failExpected_reads expected

theorem expr {p : Parse Expr} (h : g.ReadsForms F p) : Gathers g F (fun e es => es = [e]) p where
  reads c := (h c).imp fun e _ he => ⟨[.inner e], rfl, he⟩

theorem whileSome {step : α → Parse (Option α)}
    (hstep : ∀ a es, R a es → Gathers g F (fun o es' => R (o.getD a) (es ++ es')) (step a)) {a : α}
    (ha : R a []) : Gathers g F R (Parse.whileSome step a) where
  reads c := by
    refine whileSome_takes (I := WrittenBy g F fun a parts => R a (exprsOf parts)) ?_ ⟨[], ha, .nil⟩
    rintro a us c ⟨parts, ha, hparts⟩
    apply ((hstep a _ ha).reads c).imp
    rintro o ts ⟨parts', ho, hparts'⟩
    refine ⟨parts ++ parts', ?_, hparts.append hparts'⟩
    dsimp only
    rwa [exprsOf_append]

end Gathers

/-- `p` gives what has these expressions, in the order of the source. -/
abbrev Lists (g : Grammar) (F : Forms) (exprs : α → List Expr) (p : Parse α) : Prop :=
  Gathers g F (fun a es => es = exprs a) p

/-- `p` takes tokens, but no expressions. -/
abbrev Silent (g : Grammar) (F : Forms) (p : Parse α) : Prop :=
  Lists g F (fun _ => []) p

theorem Silent.of_reads {p : Parse α} {P : Cursor → α → List Token → Prop}
    (h : ∀ c, Reads c (P c) p) : Silent g F p where
  reads c := (h c).imp fun _ ts _ => ⟨ts.map .own, exprsOf_tokens ts, .tokens ts⟩

theorem Silent.bind {p : Parse α} {f : α → Parse β} {S : β → List Expr → Prop} (hp : Silent g F p)
    (hf : ∀ a, Gathers g F S (f a)) : Gathers g F S (p >>= f) := by
  apply Gathers.bind hp
  rintro a _ rfl
  exact hf a

theorem eat_silent (p : Token → Bool) : Silent g F (eat p) :=
  .of_reads fun _ => eat_reads p

theorem expect_silent (p : Token → Bool) (expected : List String) : Silent g F (expect p expected) :=
  .of_reads fun _ => expect_reads p expected

theorem commaSeparated_lists {exprs : α → List Expr} {item : Parse α} (h : Lists g F exprs item) :
    Lists g F (·.flatMap exprs) (commaSeparated item) := by
  apply h.bind
  rintro first _ rfl
  have hloop : Gathers g F (fun as es => exprs first ++ es = as.flatMap exprs) (whileSome
      (fun items => do
        if ← eatOperator "," then return some (items ++ [← item]) else return none) [first]) := by
    apply Gathers.whileSome
    · intro as es has
      apply (eat_silent _).bind
      intro b
      cases b with
      | false => exact .pure (by rwa [List.append_nil])
      | true =>
        apply h.bind
        rintro a _ rfl
        apply Gathers.pure
        rw [List.append_nil, Option.getD_some, List.flatMap_append, List.flatMap_singleton, ← has,
          List.append_assoc]
    · rw [List.append_nil, List.flatMap_singleton]
  exact hloop

/-! ### Clauses -/

theorem expectIdentifier_silent : Silent g F expectIdentifier :=
  (expect_silent _ _).bind fun _ => .pure rfl

theorem position_silent : Silent g F Parse.position := by
  apply Silent.of_reads (P := fun _ _ _ => True)
  intro c
  apply peek_bind
  intro o _ _
  cases o with
  | some token => exact .pure trivial
  | none =>
    constructor
    intro a c' h
    cases h
    exact ⟨[], rfl, trivial⟩

theorem aliasName?_silent : Silent g F aliasName? := by
  apply (eat_silent _).bind
  intro b
  split
  · exact expectIdentifier_silent.bind fun _ => .pure rfl
  · apply Silent.bind (.of_reads fun _ => at?_reads _)
    intro b
    split
    · exact expectIdentifier_silent.bind fun _ => .pure rfl
    · exact .pure rfl

theorem sourceName_silent : Silent g F sourceName :=
  expectIdentifier_silent.bind fun _ => .pure rfl

theorem aliasedSource_silent : Silent g F aliasedSource :=
  sourceName_silent.bind fun _ => aliasName?_silent.bind fun _ => .pure rfl

theorem direction?_silent : Silent g F direction? := by
  apply (eat_silent _).bind
  intro b
  split
  · exact .pure rfl
  · apply (eat_silent _).bind
    intro b
    split
    · exact .pure rfl
    · exact .pure rfl

theorem distinct_silent : Silent g F distinct := by
  apply (eat_silent _).bind
  intro b
  split
  · exact .pure rfl
  · exact (eat_silent _).bind fun _ => .pure rfl

theorem joinWords?_silent : Silent g F joinWords? := by
  have houter (kind : JoinKind) : Silent g F (outerJoin kind) :=
    (eat_silent _).bind fun _ => .pure rfl
  unfold joinWords?
  iterate 5
    refine (eat_silent _).bind fun b => ?_
    split
    · first | exact .pure rfl | exact houter _
  exact .pure rfl

theorem joinKind?_silent : Silent g F joinKind? := by
  apply (eat_silent _).bind
  intro b
  split
  · exact .pure rfl
  · apply joinWords?_silent.bind
    intro kind
    dsimp only
    split
    · exact (expect_silent _ _).bind fun _ => .pure rfl
    · exact .pure rfl

section clauses

variable {expr : Parse Expr} (he : g.ReadsForms F expr)

include he

theorem optionalAfter_lists (word : String) : Lists g F Option.toList (optionalAfter expr word) := by
  apply (eat_silent _).bind
  intro b
  split
  · exact (Gathers.expr he).bind fun e _ hes => .pure (by rw [hes]; rfl)
  · exact .pure rfl

theorem projection_lists : Lists g F (fun p => [p.expr]) (projection expr) := by
  apply (Gathers.expr he).bind
  rintro e _ rfl
  exact aliasName?_silent.bind fun _ => .pure rfl

theorem orderItem_lists : Lists g F (fun o => [o.expr]) (orderItem expr) := by
  apply (Gathers.expr he).bind
  rintro e _ rfl
  exact direction?_silent.bind fun _ => .pure rfl

omit he in
theorem listAfter_lists {exprs : α → List Expr} {item : Parse α} (h : Lists g F exprs item)
    (first second : String) : Lists g F (·.flatMap exprs) (listAfter first second item) := by
  apply (eat_silent _).bind
  intro b
  split
  · exact (expect_silent _ _).bind fun _ => commaSeparated_lists h
  · exact .pure rfl

theorem join?_lists : Lists g F (fun o => o.toList.flatMap (·.condition.toList)) (join? expr) := by
  apply position_silent.bind
  intro p
  apply joinKind?_silent.bind
  intro kind
  cases kind with
  | none => exact .pure rfl
  | some kind =>
    apply aliasedSource_silent.bind
    intro source
    dsimp only
    split
    · exact .pure rfl
    · exact (optionalAfter_lists he "ON").bind fun condition _ hes => .pure (by simp [hes])

theorem joins_lists : Lists g F (·.flatMap (·.condition.toList)) (joins expr) := by
  apply Gathers.whileSome
  · rintro found _ rfl
    apply (join?_lists he).bind
    rintro o _ rfl
    cases o with
    | none => exact .pure (by simp)
    | some join => exact .pure (by simp)
  · rfl

/-- In one of its forms, a limit has its two expressions the other way round. -/
theorem limit?_gathers : Gathers g F
    (fun o es => es.Perm (o.toList.flatMap fun l => l.count :: l.offset.toList)) (limit? expr) := by
  apply (eat_silent _).bind
  intro b
  split
  · apply (Gathers.expr he).bind
    rintro first _ rfl
    apply (eat_silent _).bind
    intro b
    split
    · exact (Gathers.expr he).bind fun e _ hes => .pure (by simp [hes])
    · apply (eat_silent _).bind
      intro b
      split
      · exact (Gathers.expr he).bind fun e _ hes => .pure (by simp [hes, List.Perm.swap])
      · exact .pure (by simp)
  · exact .pure .nil

/-- A select is written as its first word and what it gathers. -/
theorem select_written : Reads c (WrittenBy g F SelectForm) (select expr) := by
  apply (expect_reads _ _).bind
  rintro start ts c' - ⟨rfl, hstart⟩
  have hclauses {p : Parse Select}
      (h : Gathers g F (fun s es => s.position = start.position ∧ es.Perm s.roots) p) :
      Reads c' (fun s us => WrittenBy g F SelectForm s (start :: us)) p := by
    apply (h.reads c').imp
    rintro s ts ⟨parts, ⟨hposition, hroots⟩, hparts⟩
    exact ⟨_, .mk hstart hposition hroots, .own hparts⟩
  apply hclauses
  apply distinct_silent.bind
  intro distinct
  apply (commaSeparated_lists (projection_lists he)).bind
  rintro projections _ rfl
  apply (expect_silent _ _).bind
  intro _
  apply (commaSeparated_lists aliasedSource_silent).bind
  rintro sources _ rfl
  apply (joins_lists he).bind
  rintro joins _ rfl
  apply (optionalAfter_lists he "WHERE").bind
  rintro filter _ rfl
  apply (listAfter_lists (Gathers.expr he) "GROUP" "BY").bind
  rintro groupBy _ rfl
  apply (optionalAfter_lists he "HAVING").bind
  rintro having _ rfl
  apply (listAfter_lists (orderItem_lists he) "ORDER" "BY").bind
  rintro orderBy _ rfl
  apply (limit?_gathers he).bind
  rintro limit es hlimit
  have hnone : sources.flatMap (fun _ => ([] : List Expr)) = [] :=
    List.flatMap_eq_nil_iff.mpr fun _ _ => rfl
  apply Gathers.pure
  refine ⟨rfl, ?_⟩
  simpa [hnone, Select.roots, List.map_eq_flatMap, List.perm_append_left_iff] using hlimit

end clauses

/-! ### Rules -/

section rules

variable {below : Nat → Parse Expr} (hb : ∀ floor, grammar.ReadsForms QueryForm (below floor))

include hb

/-- A select in parentheses. -/
theorem selectInside_written : Reads c (fun s ts => ∃ parts closer, SelectForm s parts ∧
    closer.isOperator ")" ∧ Written grammar QueryForm (parts ++ [.own closer]) ts) (selectInside below) := by
  apply (select_written (hb 0)).bind
  rintro s ts _ - ⟨parts, hs, hparts⟩
  apply (expect_reads _ _).bind
  rintro closer _ _ - ⟨rfl, hcloser⟩
  exact .pure ⟨parts, closer, hs, hcloser, hparts.append (.own .nil)⟩

theorem whens_written : Reads c (WrittenBy grammar QueryForm WhensForm) (whens below) := by
  refine whileSome_reads (I := WrittenBy grammar QueryForm WhensForm) ?_ ⟨_, .nil, .nil⟩
  rintro found us c ⟨parts, hfound, hparts⟩
  apply (eat_reads _).bind
  rintro b _ c' - (⟨rfl, whenWord, rfl, hwhen⟩ | ⟨rfl, rfl⟩)
  · apply (hb 0 c').bind
    intro condition ts c'' _ hcondition
    apply (expect_reads _ _).bind
    rintro thenWord _ c3 - ⟨rfl, hthen⟩
    apply (hb 0 c3).bind_pure
    intro result vs hresult
    have hbranch : Written grammar QueryForm [.inner condition, .own thenWord, .inner result]
        (ts ++ thenWord :: vs) :=
      .cons hcondition (.own hresult)
    exact .inl ⟨_, rfl, _, .more hfound hwhen hthen, hparts.append (.own hbranch)⟩
  · exact .pure (.inr ⟨rfl, rfl⟩)

theorem otherwise_written :
    Reads c (WrittenBy grammar QueryForm OtherwiseForm) (optionalAfter (below 0) "ELSE") := by
  apply (eat_reads _).bind
  rintro b _ c' - (⟨rfl, word, rfl, hword⟩ | ⟨rfl, rfl⟩)
  · exact (hb 0 c').bind_pure fun e ts he => ⟨_, .some hword, .own he⟩
  · exact .pure ⟨_, .none, .nil⟩

theorem caseForm_written {word : Token} (hword : word.isKeyword "CASE") :
    Reads c (fun e ts => e.WrittenAs grammar QueryForm (word :: ts)) (caseForm below word.position) := by
  have hbranches {operand : Option Expr} {us : List Token} (c : Cursor)
      (hoperand : Written grammar QueryForm (optionParts operand) us) :
      Reads c (fun (e : Expr) ts => e.WrittenAs grammar QueryForm (word :: (us ++ ts))) (do
        let branches ← whens below
        if branches.isEmpty then failExpected ["WHEN"]
        let otherwise ← optionalAfter (below 0) "ELSE"
        if ← eatKeyword "END" then return .cases word.position operand branches otherwise
        else failExpected (if otherwise.isSome then ["END"] else ["WHEN", "ELSE", "END"])) := by
    apply (whens_written hb).bind
    rintro branches ts c' - ⟨whens, hwhens, hts⟩
    dsimp only
    split
    · exact (failExpected_reads (P := fun _ _ => False) _).bind fun _ _ _ _ h => h.elim
    · apply (otherwise_written hb).bind
      rintro otherwise vs c'' - ⟨others, hothers, hvs⟩
      apply (eat_reads _).bind
      rintro b _ c3 - (⟨rfl, endWord, rfl, hend⟩ | ⟨rfl, rfl⟩)
      · refine .pure (.lead (.added (.cases hword hwhens hothers hend)) rfl (hoperand.append ?_))
        exact hts.append (hvs.append (.own .nil))
      · exact failExpected_reads _
  apply (at?_reads _).bind
  rintro b _ c' - ⟨rfl, -⟩
  dsimp only
  split
  · exact hbranches c' .nil
  · have hoperand : Reads c' (fun o ts => Written grammar QueryForm (optionParts o) ts) (some <$> below 0) :=
      (hb 0 c').map fun _ _ he => he
    apply hoperand.bind
    intro operand us c'' _ ho
    exact hbranches c'' ho

omit hb in
theorem castTarget_silent : Silent grammar QueryForm castTarget := by
  apply expectIdentifier_silent.bind
  intro found
  apply (eat_silent _).bind
  intro b
  split
  · have hsizes : Silent grammar QueryForm (expectKind .integer) := expect_silent _ _
    apply (commaSeparated_lists hsizes).bind
    rintro sizes _ hnone
    apply (expect_silent _ _).bind
    intro _
    apply Gathers.pure
    rw [hnone, List.append_nil]
    exact List.flatMap_eq_nil_iff.mpr fun _ _ => rfl
  · exact .pure rfl

theorem castForm_written {word : Token} (hword : word.isKeyword "CAST") :
    Reads c (fun e ts => e.WrittenAs grammar QueryForm (word :: ts)) (castForm below word.position) := by
  apply (expect_reads _ _).bind
  rintro opener _ c₁ - ⟨rfl, hopener⟩
  apply (hb 0 c₁).bind
  intro e us c₂ _ he
  apply (expect_reads _ _).bind
  rintro asWord _ c₃ - ⟨rfl, has⟩
  have htarget : Reads c₃ (fun _ _ => True) castTarget :=
    (castTarget_silent.reads c₃).imp fun _ _ (_ : WrittenBy grammar QueryForm _ _ _) => trivial
  apply htarget.bind
  intro target ts c₄ _ _
  apply (expect_reads _ _).bind
  rintro closer _ _ - ⟨rfl, hcloser⟩
  have hinside : Written grammar QueryForm (.inner e :: .own asWord :: (ts.map .own ++ [.own closer]))
      (us ++ asWord :: (ts ++ [closer])) :=
    .cons he (.own ((Written.tokens ts).append (.own .nil)))
  exact .pure (.lead (.added (.cast hword hopener has hcloser)) rfl (.own hinside))

/-- A subquery or a list of expressions in parentheses. -/
theorem inOperand_written : Reads c (fun e ts => e.WrittenAs grammar QueryForm ts) (inOperand below) := by
  apply (expect_reads _ _).bind
  rintro opener _ c₁ - ⟨rfl, hopener⟩
  apply (at?_reads _).bind
  rintro b _ c₂ - ⟨rfl, -⟩
  split
  · apply (selectInside_written hb).bind_pure
    rintro s ts ⟨parts, closer, hs, hcloser, hparts⟩
    exact .lead (.added (.subquery hopener hs hcloser)) rfl hparts
  · have hnone : ReadsLabel grammar .key (pure none) := fun _ => .pure .nil
    have hitems : Reads c₂ (WrittenBy grammar QueryForm (ItemsForm grammar .key))
        (commaSeparated do return (⟨none, ← below 0⟩ : Item)) :=
      labelled_written hnone (hb 0)
    apply hitems.bind
    rintro items ts _ - ⟨parts, hitems, hparts⟩
    apply (expect_reads _ _).bind
    rintro closer _ _ - ⟨rfl, hcloser⟩
    refine .pure (.lead (.added (.list hopener (.items hitems hcloser))) rfl (hparts.append (.own .nil)))

theorem betweenForm_written {left : Expr} {us notWord : List Token} {word : Token}
    {negated : Bool} (hl : left.WrittenAs grammar QueryForm us)
    (hnot : Flag (·.isKeyword "NOT") negated notWord) (hword : word.isKeyword "BETWEEN") :
    Reads c (fun e ts => e.WrittenAs grammar QueryForm (us ++ (notWord ++ word :: ts)))
      (betweenForm below left negated) := by
  apply (hb _ c).bind
  intro low ts c' _ hlow
  apply (expect_reads _ _).bind
  rintro andWord _ c'' - ⟨rfl, hand⟩
  apply (hb _ c'').bind_pure
  intro high vs hhigh
  refine .extend hl (.added (.between hnot hword hand)) rfl ((Written.tokens notWord).append (.own ?_))
  exact .cons hlow (.own hhigh)

omit hb in
theorem isNullForm_written {left : Expr} {us : List Token} {word : Token}
    (hl : left.WrittenAs grammar QueryForm us) (hhead : c.tokens.head? = some word) (hword : word.isKeyword "IS") :
    Reads c (fun e ts => e.WrittenAs grammar QueryForm (us ++ ts)) (isNullForm left) := by
  apply next_bind hhead
  intro _ c' _
  apply (eat_flag _).bind
  intro negated notWord c'' _ hnot
  apply (expect_reads _ _).bind
  rintro null _ _ - ⟨rfl, hnull⟩
  refine .pure (.extend hl (.added (.isNull hword hnot hnull)) rfl (.own ?_))
  exact (Written.tokens notWord).append (.own .nil)

omit hb in
/-- `NOT` may stand before the word. -/
theorem wordAhead_reads {token : Token} (h : c.tokens.head? = some token) :
    Reads c (fun o ts => ts = [] ∧ ∀ word ∈ o, ∃ notWord,
      Flag (·.isKeyword "NOT") (token.isKeyword "NOT") notWord ∧
      c.tokens.take (if token.isKeyword "NOT" then 2 else 1) = notWord ++ [word])
      (if token.isKeyword "NOT" then peekNth 1 else pure (some token)) := by
  obtain ⟨rest, htokens⟩ := List.head?_eq_some_iff.mp h
  cases hnot : token.isKeyword "NOT" with
  | true =>
    apply (peekNth_reads 1).imp
    rintro o ts ⟨rfl, ho, -⟩
    refine ⟨rfl, fun word hword => ⟨[token], .present hnot, ?_⟩⟩
    rw [htokens] at ho ⊢
    obtain ⟨more, rfl⟩ : ∃ more, rest = word :: more := by
      rw [← List.head?_eq_some_iff, List.head?_eq_getElem?]
      exact ho.symm.trans hword
    rfl
  | false =>
    refine .pure ⟨rfl, fun word hword => ⟨[], .absent, ?_⟩⟩
    cases hword
    rw [htokens]
    rfl

theorem infixForm_written {left : Expr} {us : List Token} (floor : Nat)
    (hl : left.WrittenAs grammar QueryForm us) : Reads c (GoesOn grammar QueryForm us) (infixForm below left floor) := by
  unfold infixForm
  split
  · exact .pure .none
  apply peek_bind
  intro o ho _
  cases o with
  | none => exact .pure .none
  | some token =>
    apply (wordAhead_reads ho.symm).bind
    rintro o _ c' hc ⟨rfl, hahead⟩
    cases hc
    cases o with
    | none => exact .pure .none
    | some word =>
      obtain ⟨notWord, hnot, htake⟩ := hahead word rfl
      have htakes : Reads c' (fun _ ts => ts = notWord ++ [word])
          (Grammar.takeTokens (if token.isKeyword "NOT" then 2 else 1)) :=
        htake ▸ Grammar.takeTokens_reads _
      dsimp only
      split
      · rename_i hword
        apply htakes.bind
        rintro _ _ c'' - rfl
        refine (betweenForm_written hb hl hnot hword).map fun e ts he => .some ?_
        rwa [List.append_assoc]
      split
      · rename_i hword
        apply htakes.bind
        rintro _ _ c'' - rfl
        apply (inOperand_written hb).bind_pure
        intro right ts hright
        refine .some (.extend hl (.added (.inclusion hnot hword)) rfl ?_)
        rw [List.append_assoc]
        exact (Written.tokens notWord).append (.own hright)
      split
      · rename_i hword
        obtain ⟨hword, hplain⟩ := Bool.and_eq_true_iff.mp hword
        rw [Bool.not_eq_true'] at hplain
        rw [hplain] at hnot htake
        cases hnot
        have hhead : c'.tokens.head? = some word := by
          simpa [List.head?_take] using congrArg List.head? htake
        exact (isNullForm_written hl hhead hword).map fun _ _ => .some
      · exact .pure .none

omit hb in
theorem placeholderOf_reads (token : Token) :
    Reads c (fun _ ts => ts = []) (placeholderOf token) := by
  unfold placeholderOf
  split
  · split
    · exact .pure rfl
    · exact .throw _
  · exact .pure rfl

omit hb in
theorem tokens_qualified {token : Token} (h : c.tokens.head? = some token)
    (hahead : (((c.tokens[1]?).map (·.isOperator ".")).getD false &&
      ((c.tokens[2]?).map (·.isOperator "*")).getD false) = true) :
    ∃ dot star, c.tokens.take 3 = [token, dot, star] ∧ dot.isOperator "." ∧
      star.isOperator "*" := by
  obtain ⟨hdot, hstar⟩ := Bool.and_eq_true_iff.mp hahead
  obtain ⟨rest, htokens⟩ := List.head?_eq_some_iff.mp h
  rw [htokens] at hdot hstar ⊢
  match rest with
  | [] | [_] => cases hstar
  | dot :: star :: _ => exact ⟨dot, star, rfl, hdot, hstar⟩

theorem primaryForm_written : Reads c (GoesOn grammar QueryForm []) (primaryForm below) := by
  apply peek_bind
  intro o ho _
  cases o with
  | none => exact .pure .none
  | some token =>
    have hqualified (hname : token.isIdentifier) : Reads c (GoesOn grammar QueryForm []) (do
        let dot := ((← peekNth 1).map (·.isOperator ".")).getD false
        let star := ((← peekNth 2).map (·.isOperator "*")).getD false
        if dot && star then
          Grammar.takeTokens 3
          return some (.qualifiedStar token.position token.name)
        else return none) := by
      apply peekNth_bind
      intro second hsecond _
      apply peekNth_bind
      intro third hthird _
      dsimp only
      split
      · rename_i hahead
        rw [hsecond, hthird] at hahead
        obtain ⟨dot, star, htake, hdot, hstar⟩ := tokens_qualified ho.symm hahead
        apply (Grammar.takeTokens_reads 3).bind
        rintro _ _ c' - rfl
        rw [htake]
        exact .pure (.some (.lead (.added (.qualifiedStar hname hdot hstar)) rfl (.own (.own .nil))))
      · exact .pure .none
    dsimp only
    split
    · rename_i hk
      apply next_bind ho.symm
      intro _ c' _
      apply (placeholderOf_reads token).bind_pure
      rintro value _ rfl
      exact .some (.lead (.added (.placeholder hk)) rfl .nil)
    · rename_i hk
      exact hqualified (Parse.isIdentifier_of_kind hk).1
    · rename_i hk
      exact hqualified (Grammar.isIdentifier_of_quoted hk)
    · rename_i word hk
      have hword {s : String} (h : word = s) : token.isKeyword s :=
        beq_iff_eq.mpr (hk.trans (congrArg _ h))
      split
      · rename_i h
        apply next_bind ho.symm
        intro _ c' _
        exact (caseForm_written hb (hword h)).map fun e _ he => .inl ⟨e, rfl, he⟩
      split
      · rename_i h
        apply next_bind ho.symm
        intro _ c' _
        exact (castForm_written hb (hword h)).map fun e _ he => .inl ⟨e, rfl, he⟩
      split
      · rename_i h
        apply next_bind ho.symm
        intro _ c' _
        apply (expect_reads _ _).bind
        rintro opener _ c'' - ⟨rfl, hopener⟩
        apply (selectInside_written hb).bind_pure
        rintro s ts ⟨parts, closer, hs, hcloser, hparts⟩
        exact .some (.lead (.added (.existence (hword h) hopener hs hcloser)) rfl (.own hparts))
      · exact .pure .none
    · rename_i op hk
      have hop {s : String} (h : op = s) : token.isOperator s :=
        beq_iff_eq.mpr (hk.trans (congrArg _ h))
      split
      · rename_i h
        exact next_bind ho.symm fun _ _ _ => .pure (.some (.lead (.added (.star (hop h))) rfl .nil))
      split
      · rename_i h
        apply peekNth_bind
        intro second _ _
        split
        · apply next_bind ho.symm
          intro _ c' _
          apply (selectInside_written hb).bind_pure
          rintro s ts ⟨parts, closer, hs, hcloser, hparts⟩
          exact .some (.lead (.added (.subquery (hop h) hs hcloser)) rfl hparts)
        · exact .pure .none
      · exact .pure .none
    · exact .pure .none

end rules

theorem grammar_forming : grammar.Forming QueryForm where
  unary := by decide
  inPlace := queryForm_inPlace
  literal _ _ _ := nofun
  primaryForm _ hb _ := primaryForm_written hb
  infixForm _ hb _ _ floor hl _ := infixForm_written hb floor hl

end EmbeddedLang.Query
