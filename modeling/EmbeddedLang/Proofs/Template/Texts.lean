import EmbeddedLang.Proofs.Parser.RawTexts
import EmbeddedLang.Template.Parsing

/-!
The texts of a tree are those of its source, and so are its statements that extend a template.

What a directive passes are the marks of its bodies, one body after the other. No body inside of a
template extends another.
-/

namespace EmbeddedLang

/-- What stands outside of expressions: texts, and that the template extends another. -/
inductive Mark where
  | text (s : String)
  | parent
deriving DecidableEq

def Mark.text? : Mark → Option String
  | text s => some s
  | parent => none

/-- A statement is known by the word that it begins with. -/
def marks : List Token → List Mark
  | [] => []
  | t :: rest =>
    match t.kind with
    | .rawText => .text t.lexeme :: marks rest
    | .openStatement =>
      if rest.head?.any (·.isKeyword "extends") then .parent :: marks rest else marks rest
    | _ => marks rest

theorem rawTexts_eq (ts : List Token) : rawTexts ts = (marks ts).filterMap Mark.text? := by
  induction ts with
  | nil => rfl
  | cons t rest ih =>
    unfold marks
    split
    · rename_i hk
      have ht : t.rawText? = some t.lexeme := if_pos hk
      rw [rawTexts, List.filterMap_cons_some ht]
      exact congrArg (t.lexeme :: ·) ih
    · rename_i hk
      have ht : t.rawText? = none := if_neg (hk ▸ nofun)
      rw [rawTexts, List.filterMap_cons_none ht]
      split <;> exact ih
    · rename_i hk _
      have ht : t.rawText? = none := if_neg hk
      rw [rawTexts, List.filterMap_cons_none ht]
      exact ih

theorem marks_cons {t : Token} (h : t.kind ≠ .rawText) (h' : t.kind ≠ .openStatement)
    (ts : List Token) : marks (t :: ts) = marks ts := by
  rw [marks]
  split
  · rename_i hk
    exact absurd hk h
  · rename_i hk
    exact absurd hk h'
  · rfl

theorem marks_text {t : Token} (h : t.kind = .rawText) (ts : List Token) :
    marks (t :: ts) = .text t.lexeme :: marks ts := by
  rw [marks, h]

theorem marks_opener {opener : Token} (h : opener.kind = .openStatement) (word : Token)
    (ts : List Token) :
    marks (opener :: word :: ts) =
      (if word.isKeyword "extends" then [.parent] else []) ++ marks (word :: ts) := by
  rw [marks, h]
  change (if word.isKeyword "extends" then _ else _) = _
  by_cases hword : word.isKeyword "extends"
  · rw [if_pos hword, if_pos hword]
    rfl
  · rw [if_neg hword, if_neg hword]
    rfl

theorem marks_inner {ts : List Token} (h : ∀ t ∈ ts, t.kind.isInner) (us : List Token) :
    marks (ts ++ us) = marks us := by
  induction ts with
  | nil => rfl
  | cons t rest ih =>
    obtain ⟨ht, hrest⟩ := List.forall_mem_cons.mp h
    have hraw : t.kind ≠ .rawText := fun hk => by rw [hk] at ht; cases ht
    have hopen : t.kind ≠ .openStatement := fun hk => by rw [hk] at ht; cases ht
    rw [List.cons_append, marks_cons hraw hopen, ih hrest]

/-- A parser that goes on from `c` to `c'` passes these marks. -/
structure Cursor.Moves (c : Cursor) (ms : List Mark) (c' : Cursor) : Prop where
  marks : marks c.tokens = ms ++ marks c'.tokens
  length : c'.tokens.length ≤ c.tokens.length

/-- None of the marks says that the template extends another. -/
structure Cursor.Passes (c : Cursor) (ms : List Mark) (c' : Cursor) : Prop extends
    c.Moves ms c' where
  quiet : .parent ∉ ms

namespace Cursor

theorem passes_refl (c : Cursor) : c.Passes [] c where
  marks := rfl
  length := Nat.le_refl _
  quiet := nofun

variable {c c' c'' : Cursor} {ms ms' : List Mark}

theorem Moves.trans (h : c.Moves ms c') (h' : c'.Moves ms' c'') : c.Moves (ms ++ ms') c'' where
  marks := by rw [h.marks, h'.marks, List.append_assoc]
  length := Nat.le_trans h'.length h.length

theorem Passes.trans (h : c.Passes ms c') (h' : c'.Passes ms' c'') : c.Passes (ms ++ ms') c'' where
  toMoves := h.toMoves.trans h'.toMoves
  quiet hmem := (List.mem_append.mp hmem).elim h.quiet h'.quiet

theorem Inside.passes (h : c.Inside c') : c.Passes [] c' := by
  obtain ⟨ts, hc, hts⟩ := h
  refine ⟨⟨?_, ?_⟩, nofun⟩
  · rw [hc, marks_inner hts]
    rfl
  · rw [hc, List.length_append]
    exact Nat.le_add_left _ _

theorem Passes.skip (h : c.Passes ms c') (h' : c'.Inside c'') : c.Passes ms c'' := by
  have htrans := h.trans h'.passes
  rwa [List.append_nil] at htrans

end Cursor

/-- After a parser that stays between the delimiters, as much has been passed as before. -/
theorem Skips.before {α β : Type} {c start : Cursor} {p : Parse α} {f : α → Parse β}
    {Q : β → Cursor → Prop} {ms : List Mark} (hp : Skips c p) (h : start.Passes ms c)
    (hf : ∀ a c', start.Passes ms c' → Reaches c' Q (f a)) : Reaches c Q (p >>= f) :=
  Reaches.bind hp fun a c' hc' => hf a c' (h.skip hc')

end EmbeddedLang

namespace EmbeddedLang.Template

open Parse

def Node.text? : Node → Option String
  | .text _ s => some s
  | _ => none

/-- The texts of a tree in the order of the source. -/
def textsOf (nodes : List Node) : List String :=
  (walkNodes nodes).filterMap Node.text?

def Node.mark? : Node → Option Mark
  | .text _ s => some (.text s)
  | .parent .. => some .parent
  | _ => none

def Node.marks (n : Node) : List Mark :=
  n.walk.filterMap Node.mark?

def marksOf (nodes : List Node) : List Mark :=
  (walkNodes nodes).filterMap Node.mark?

def marksOfOptional (nodes : Option (List Node)) : List Mark :=
  (walkOptional nodes).filterMap Node.mark?

def marksOfBranches (branches : List Branch) : List Mark :=
  (walkBranches branches).filterMap Node.mark?

theorem textsOf_eq (nodes : List Node) : textsOf nodes = (marksOf nodes).filterMap Mark.text? := by
  rw [textsOf, marksOf, List.filterMap_filterMap]
  congr 1
  funext n
  cases n <;> rfl

theorem walkNodes_append (nodes nodes' : List Node) :
    walkNodes (nodes ++ nodes') = walkNodes nodes ++ walkNodes nodes' := by
  simp only [walkNodes_eq, List.flatMap_append]

theorem walkBranches_append (branches branches' : List Branch) :
    walkBranches (branches ++ branches') = walkBranches branches ++ walkBranches branches' := by
  simp only [walkBranches_eq, List.map_append, List.flatMap_append]

theorem marksOf_push (nodes : List Node) (n : Node) :
    marksOf (nodes ++ [n]) = marksOf nodes ++ n.marks := by
  rw [marksOf, walkNodes_append, List.filterMap_append, walkNodes, walkNodes, List.append_nil,
    marksOf, Node.marks]

theorem marksOfBranches_push (branches : List Branch) (b : Branch) :
    marksOfBranches (branches ++ [b]) = marksOfBranches branches ++ marksOf b.body := by
  obtain ⟨condition, body⟩ := b
  rw [marksOfBranches, walkBranches_append, List.filterMap_append, walkBranches, walkBranches,
    List.append_nil, Branch.walk, marksOfBranches, marksOf]

theorem Node.marks_choice (p : Position) (branches : List Branch)
    (otherwise : Option (List Node)) :
    (Node.choice p branches otherwise).marks =
      marksOfBranches branches ++ marksOfOptional otherwise :=
  List.filterMap_append

theorem Node.marks_loop (p : Position) (key : Option String) (value : String) (iterable : Expr)
    (filter : Option Expr) (body : List Node) (otherwise : Option (List Node)) :
    (Node.loop p key value iterable filter body otherwise).marks =
      marksOf body ++ marksOfOptional otherwise :=
  List.filterMap_append

/-! ### Expressions -/

theorem optionalArguments_skips {below : Nat → Parse Expr} (hb : ∀ floor c, Skips c (below floor))
    (c : Cursor) : Skips c (optionalArguments below) := by
  apply (eatOperator_skips "(").bind
  intro b c'
  split
  · exact (arguments_skips table (hb 0)).bind fun _ _ => .pure _
  · exact .pure _

theorem testName_skips (c : Cursor) : Skips c testName := by
  apply Skips.peek
  intro o ho
  cases o with
  | none => exact failExpected_skips _
  | some token =>
    dsimp only
    split
    · rename_i hname
      have hk : token.kind.isInner := by
        rcases Bool.or_eq_true_iff.mp hname with hi | hnull
        · rw [beq_iff_eq.mp hi]
          rfl
        · exact Token.isInner_of_keyword hnull
      exact .next ho.symm hk fun _ _ => .pure _
    · exact failExpected_skips _

theorem testForm_skips {below : Nat → Parse Expr} (hb : ∀ floor c, Skips c (below floor))
    (left : Expr) (c : Cursor) : Skips c (testForm below left) := by
  apply (eatKeyword_skips "not").bind
  intro negated c'
  apply (eatKeyword_skips "defined").bind
  intro b c'
  split
  · exact .pure _
  · exact (testName_skips c').bind fun _ c' =>
      (optionalArguments_skips hb c').bind fun _ _ => .pure _

theorem grammar_textless : grammar.Textless where
  primaryForm {below} hb c := by
    apply (at?_skips _).bind
    intro b c'
    split
    · exact (expectOperator_skips "\x7b").bind fun _ _ =>
        (listItems_skips table (hb 0) "\x7d").bind fun _ _ => .pure _
    · exact .pure _
  infixForm {below} hb left floor c := by
    apply Skips.peek
    intro o ho
    cases o with
    | none => exact .pure _
    | some token =>
      dsimp only
      split
      · rename_i hfilter
        have hk := Token.isInner_of_operator (Bool.and_eq_true_iff.mp hfilter).1
        exact .next ho.symm hk fun _ _ => expectIdentifier_skips.bind fun _ c' =>
          (optionalArguments_skips hb c').bind fun _ _ => .pure _
      split
      · rename_i htest
        have hk := Token.isInner_of_keyword (Bool.and_eq_true_iff.mp htest).1
        exact .next ho.symm hk fun _ c' => (testForm_skips hb left c').map some
      split
      · rename_i hchoice
        have hk := Token.isInner_of_operator (Bool.and_eq_true_iff.mp hchoice).1
        exact .next ho.symm hk fun _ c' => (hb 0 c').bind fun _ _ =>
          (expectOperator_skips ":").bind fun _ c' => (hb choice c').bind fun _ _ => .pure _
      · exact .pure _

variable {c : Cursor}

theorem expression_skips : Skips c expression :=
  Grammar.expression_skips grammar_textless 0

theorem closing_skips : Skips c closing :=
  (expectKind_skips .closeStatement rfl).bind fun _ _ => .pure _

/-! ### Directives -/

/-- The marks that `p` passes are those of the tree that it gives. -/
abbrev Shows (c : Cursor) (p : Parse Node) : Prop :=
  Reaches c (fun n c' => c.Passes n.marks c') p

abbrev BodyParser.Shows (inner : BodyParser) : Prop :=
  ∀ place expected c, "extends" ∉ expected →
    Reaches c (fun found c' => c.Passes (marksOf found.1) c') (inner place expected)

section bodies

variable {inner : BodyParser} (hi : inner.Shows) (place : Place) (position : Position)

theorem expressionAfter_skips (word : String) : Skips c (expressionAfter word) := by
  apply (eatKeyword_skips word).bind
  intro b c'
  split
  · exact expression_skips.bind fun _ _ => .pure _
  · exact .pure _

theorem loopNames_skips : Skips c loopNames := by
  apply expectIdentifier_skips.bind
  intro first c'
  apply (eatOperator_skips ",").bind
  intro b c'
  split
  · exact expectIdentifier_skips.bind fun _ _ => .pure _
  · exact .pure _

theorem switch_skips : Skips c switch := by
  apply (eatKeyword_skips "true").bind
  intro b c'
  split
  · exact .pure _
  · apply (eatKeyword_skips "false").bind
    intro b c'
    split
    · exact .pure _
    · exact failExpected_skips _

theorem param_skips (c : Cursor) : Skips c param := by
  apply expectIdentifier_skips.bind
  intro found c'
  apply (eatOperator_skips "=").bind
  intro b c'
  split
  · have hliteral : Skips c' literal := by
      apply expression_skips.bind
      intro e c'
      split
      · exact .pure _
      · exact .throw _
    exact hliteral.bind fun _ _ => .pure _
  · exact .pure _

theorem params_skips : Skips c params := by
  apply (expectOperator_skips "(").bind
  intro _ c'
  apply (eatOperator_skips ")").bind
  intro b c'
  split
  · exact .pure _
  · exact (commaSeparated_skips param_skips).bind fun _ _ =>
      (expectOperator_skips ")").bind fun _ _ => .pure _

theorem lifetime?_skips : Skips c lifetime? := by
  apply Skips.peek
  intro o ho
  cases o with
  | none => exact .pure _
  | some token =>
    dsimp only
    split
    · rename_i hk
      apply Skips.next ho.symm (by rw [beq_iff_eq.mp hk]; rfl)
      intro _ c'
      split
      · exact .pure _
      · exact .throw _
    · exact .pure _

theorem isInner_of_assignOp {token : Token} {op : AssignOp} (h : assignOp? token = some op) :
    token.kind.isInner := by
  obtain ⟨⟨symbol, op'⟩, _, hop⟩ := List.exists_of_findSome?_eq_some h
  dsimp only at hop
  split at hop
  · rename_i hsymbol
    exact Token.isInner_of_operator hsymbol
  · cases hop

theorem assignment_skips (c : Cursor) : Skips c assignment := by
  apply expectIdentifier_skips.bind
  intro found c'
  apply next_takes.bind
  rintro o c'' ⟨ho, hc''⟩
  cases o with
  | none => exact .of_fails (.failExpected _)
  | some token =>
    dsimp only
    split
    · rename_i op hop
      have hinside := Cursor.inside_next ho.symm (isInner_of_assignOp hop) hc''
      exact Reaches.bind expression_skips fun _ _ h => .pure (hinside.trans h)
    · exact .throw _

include hi

theorem branch_shows (c : Cursor) :
    Reaches c (fun found c' => c.Passes (marksOf found.1.body) c') (branch inner place) :=
  expression_skips.before c.passes_refl fun _ _ h => closing_skips.before h fun _ c' h =>
    (hi place _ c' (by decide)).bind fun _ _ h' => .pure (h.trans h')

theorem finalBody_shows (closer : String) (hcloser : "extends" ≠ closer) (c : Cursor) :
    Reaches c (fun body c' => c.Passes (marksOf body) c') (finalBody inner place closer) :=
  closing_skips.before c.passes_refl fun _ c' h =>
    (hi place [closer] c' (mt List.mem_singleton.mp hcloser)).bind fun _ _ h' =>
      .pure (h.trans h')

theorem choiceDirective_shows : Shows c (choiceDirective inner place position) := by
  apply (branch_shows hi place c).bind
  rintro ⟨first, closer⟩ c₁ h₁
  have hfirst : marksOfBranches [first] = marksOf first.body := marksOfBranches_push [] first
  have hmore : Reaches c₁ (fun found c' => c.Passes (marksOfBranches found.1) c')
      (whileSome (moreBranches inner place) ([first], closer)) := by
    apply whileSome_keeps (I := fun (found : List Branch × String) c' =>
      c.Passes (marksOfBranches found.1) c')
    · rintro ⟨branches, closer⟩ c' h
      unfold moreBranches
      split
      · apply (branch_shows hi place c').bind
        rintro ⟨b, closer⟩ c'' h'
        refine .pure ?_
        rw [Option.getD_some, marksOfBranches_push]
        exact h.trans h'
      · exact .pure h
    · rw [hfirst]
      exact h₁
  apply hmore.bind
  rintro ⟨branches, closer⟩ c₂ h₂
  dsimp only
  split
  · apply (finalBody_shows hi place "endif" (by decide) c₂).bind
    intro body c' h
    refine .pure ?_
    rw [Node.marks_choice]
    exact h₂.trans h
  · refine .pure ?_
    rw [Node.marks_choice]
    exact h₂.trans (Cursor.passes_refl _)

theorem loopDirective_shows : Shows c (loopDirective inner place position) := by
  apply loopNames_skips.before c.passes_refl
  rintro ⟨key, value⟩ c₁ h
  apply (expectKeyword_skips "in").before h
  intro _ c₂ h
  apply expression_skips.before h
  intro iterable c₃ h
  apply (expressionAfter_skips "if").before h
  intro filter c₄ h
  apply closing_skips.before h
  intro _ c₅ h
  apply (hi _ _ c₅ (by decide)).bind
  rintro ⟨body, closer⟩ c₆ hbody
  have hloop := h.trans hbody
  dsimp only
  split
  · refine .pure ?_
    rw [Node.marks_loop]
    exact hloop.trans (Cursor.passes_refl _)
  · apply (finalBody_shows hi place "endfor" (by decide) c₆).bind
    intro otherwise c' hotherwise
    refine .pure ?_
    rw [Node.marks_loop]
    exact hloop.trans hotherwise

theorem blockDirective_shows : Shows c (blockDirective inner place position) := by
  unfold blockDirective
  split
  · exact .throw _
  · apply expectIdentifier_skips.before c.passes_refl
    rintro ⟨name, _⟩ c₁ h
    apply closing_skips.before h
    intro _ c₂ h
    apply (hi _ _ c₂ (by decide)).bind
    rintro ⟨body, _⟩ c' hbody
    exact .pure (h.trans hbody)

theorem definitionDirective_shows : Shows c (definitionDirective inner place position) := by
  apply expectIdentifier_skips.before c.passes_refl
  rintro ⟨name, _⟩ c₁ h
  apply params_skips.before h
  intro params c₂ h
  apply closing_skips.before h
  intro _ c₃ h
  apply (hi _ _ c₃ (by decide)).bind
  rintro ⟨body, _⟩ c' hbody
  exact .pure (h.trans hbody)

theorem fragmentDirective_shows : Shows c (fragmentDirective inner place position) := by
  apply expression_skips.before c.passes_refl
  intro key c₁ h
  apply lifetime?_skips.before h
  intro lifetime c₂ h
  apply closing_skips.before h
  intro _ c₃ h
  apply (hi _ _ c₃ (by decide)).bind
  rintro ⟨body, _⟩ c' hbody
  exact .pure (h.trans hbody)

theorem autoescapeDirective_shows : Shows c (autoescapeDirective inner place position) := by
  apply switch_skips.before c.passes_refl
  intro enabled c₁ h
  apply closing_skips.before h
  intro _ c₂ h
  apply (hi _ _ c₂ (by decide)).bind
  rintro ⟨body, _⟩ c' hbody
  exact .pure (h.trans hbody)

omit hi in
theorem inclusionDirective_shows : Shows c (inclusionDirective position) :=
  expression_skips.before c.passes_refl fun _ _ h =>
    (expressionAfter_skips "with").before h fun _ _ h => .pure h

omit hi in
theorem jump_shows (word : String) {node : Node} (h : node.marks = []) :
    Shows c (jump place position word node) := by
  unfold jump
  split
  · refine .pure ?_
    rw [h]
    exact c.passes_refl
  · exact .throw _

omit hi in
theorem tagDirective_shows (name : String) : Shows c (tagDirective position name) := by
  unfold tagDirective
  dsimp only
  split
  · exact .pure c.passes_refl
  · apply (at?_skips _).before c.passes_refl
    intro b c' h
    split
    · exact (Skips.pure _).before h fun _ _ h => .pure h
    · exact (commaSeparated_skips fun _ => expression_skips).before h fun _ _ h => .pure h

theorem directive_shows (token : Token) : Shows c (directive inner place position token) := by
  unfold directive
  split
  · exact tagDirective_shows position _
  · exact choiceDirective_shows hi place position
  · exact loopDirective_shows hi place position
  · rw [map_eq_pure_bind]
    exact (commaSeparated_skips assignment_skips).before c.passes_refl fun _ _ h => .pure h
  · exact blockDirective_shows hi place position
  · exact inclusionDirective_shows position
  · exact definitionDirective_shows hi place position
  · exact fragmentDirective_shows hi place position
  · exact autoescapeDirective_shows hi place position
  · rw [map_eq_pure_bind]
    exact expression_skips.before c.passes_refl fun _ _ h => .pure h
  · exact jump_shows place position "break" rfl
  · exact jump_shows place position "continue" rfl
  · exact .throw _

end bodies


/-! ### Bodies -/

/-- What a body has grown by is what has been passed. Only a word that is expected closes it, and
once it has started it does not extend another template. -/
structure Grows (expected : List String) (b : Body) (c : Cursor) (b' : Body) (c' : Cursor) :
    Prop where
  marks : ∃ ms, c.Moves ms c' ∧ marksOf b'.nodes = marksOf b.nodes ++ ms ∧
    (b.started = true → .parent ∉ ms)
  started : b.started = true → b'.started = true
  closer : expected = [] → b.closer = none → b'.closer = none

namespace Grows

variable {expected : List String} {b b' : Body} {c' : Cursor}

theorem same (h : c.Passes [] c') : Grows expected b c b c' where
  marks := ⟨[], h.toMoves, (List.append_nil _).symm, fun _ => nofun⟩
  started hs := hs
  closer _ hb := hb

theorem push {n : Node} (h : c.Passes n.marks c') (hn : b'.nodes = b.nodes ++ [n])
    (hs : b.started = true → b'.started = true) (hb : b'.closer = b.closer) :
    Grows expected b c b' c' where
  marks := ⟨_, h.toMoves, hn ▸ marksOf_push _ _, fun _ => h.quiet⟩
  started := hs
  closer _ hnone := hb.trans hnone

theorem trans {b'' : Body} {c'' : Cursor} (h : Grows expected b c b' c')
    (h' : Grows expected b' c' b'' c'') : Grows expected b c b'' c'' where
  marks := by
    obtain ⟨ms, hmoves, hms, hquiet⟩ := h.marks
    obtain ⟨ms', hmoves', hms', hquiet'⟩ := h'.marks
    refine ⟨ms ++ ms', hmoves.trans hmoves', by rw [hms', hms, List.append_assoc], ?_⟩
    intro hs hmem
    exact (List.mem_append.mp hmem).elim (hquiet hs) (hquiet' (h.started hs))
  started hs := h'.started (h.started hs)
  closer he hb := h'.closer he (h.closer he hb)

theorem length_le (h : Grows expected b c b' c') : c'.tokens.length ≤ c.tokens.length := by
  obtain ⟨_, hmoves, _⟩ := h.marks
  exact hmoves.length

theorem skip {c'' : Cursor} (hb : Grows expected b c b' c') (h : c'.Inside c'') :
    Grows expected b c b' c'' :=
  hb.trans (same h.passes)

end Grows

section steps

variable {inner : BodyParser} (hi : inner.Shows) (place : Place) (expected : List String)

theorem closing_reads :
    Reads c (fun _ ts => ∃ closer, ts = [closer] ∧ closer.kind = .closeStatement) closing :=
  (expect_reads _ _).bind_pure fun closer _ h => ⟨closer, h.1, beq_iff_eq.mp h.2⟩

theorem expectString_reads (t : LanguageTable) :
    Reads c (fun _ ts => ∃ name, ts = [name] ∧ name.kind = .string) (expectString t) := by
  have hkind : Reads c (fun name ts => ts = [name] ∧ name.kind = .string) (expectKind .string) :=
    (expect_reads _ _).imp fun _ _ h => ⟨h.1, beq_iff_eq.mp h.2⟩
  exact hkind.bind_pure fun name _ h => ⟨name, h⟩

theorem parentDirective_puts (position : Position) (b : Body) :
    Reaches c (fun b' c' => b.started = false ∧ b.child = false ∧
      (∃ name, c.tokens = name :: c'.tokens ∧ name.kind = .string) ∧
      ∃ template, b' = { b.push (.parent position template) with child := true })
      (parentDirective position b) := by
  unfold parentDirective
  split
  · exact .throw _
  · rename_i hfirst
    obtain ⟨hstarted, hchild⟩ := Bool.or_eq_false_iff.mp (Bool.eq_false_iff.mpr hfirst)
    apply (Reaches.of_reads (expectString_reads table)).bind
    rintro found c' ⟨_, rfl, name, rfl, hname⟩
    exact .pure ⟨hstarted, hchild, ⟨name, rfl, hname⟩, found.1, rfl⟩

theorem directive_none {token : Token} (hk : token.kind.isInner = false) (position : Position) :
    directive inner place position token =
      throw (.unexpectedToken position ["directive"] token.describe) := by
  unfold directive
  revert hk
  cases token.kind <;> first | (intro _; rfl) | (intro hk; cases hk)

section opened

variable {opener : Token} {start : Cursor} (hopener : opener.kind = .openStatement)
  (hstart : start.tokens = opener :: c.tokens)

omit hopener in
include hstart in
theorem length_opened {c' c'' : Cursor} (hc : c'.tokens = c.tokens.drop 1)
    (h : c''.tokens.length ≤ c'.tokens.length) : c''.tokens.length < start.tokens.length := by
  rw [hc, List.length_drop] at h
  rw [hstart, List.length_cons]
  omega

include hopener hstart

/-- The word of a statement is passed with its opener. -/
theorem moves_opened {token : Token} {c' : Cursor} (ht : c.tokens[0]? = some token)
    (hk : token.kind.isInner) (hc : c'.tokens = c.tokens.drop 1) :
    start.Moves (if token.isKeyword "extends" then [.parent] else []) c' := by
  have hmoves := (Cursor.inside_next ht hk hc).passes
  have htokens := Cursor.tokens_of_next ht hc
  constructor
  · rw [hstart, htokens, marks_opener hopener, ← htokens, hmoves.marks]
    rfl
  · rw [hstart]
    exact Nat.le_succ_of_le hmoves.length

theorem passes_opened {token : Token} {c' : Cursor} (ht : c.tokens[0]? = some token)
    (hk : token.kind.isInner) (hword : ¬token.isKeyword "extends") (hc : c'.tokens = c.tokens.drop 1) :
    start.Passes [] c' where
  toMoves := by
    have hmoves := moves_opened hopener hstart ht hk hc
    rwa [if_neg hword] at hmoves
  quiet := nofun

include hi

theorem innerStatement_grows (b : Body) {token : Token} (ht : c.tokens[0]? = some token) :
    Reaches c (fun b' c' => c'.tokens.length < start.tokens.length ∧ Grows expected b start b' c') (innerStatement inner place b token) := by
  have hrest : Reaches c (fun b' c' => c'.tokens.length < start.tokens.length ∧ Grows expected b start b' c') (do
      let _ ← next
      let b ←
        if token.isKeyword "extends" then parentDirective token.position b
        else do
          let node ← directive inner place token.position token
          pure { b.push node with started := true }
      closing
      return b) := by
    apply next_takes.bind
    rintro _ c₁ ⟨_, hc₁⟩
    -- the statement ends behind the directive
    have hend {b' : Body} {c₂ : Cursor} (hlength : c₂.tokens.length ≤ c₁.tokens.length)
        (h : Grows expected b start b' c₂) :
        Reaches c₂ (fun b' c' => c'.tokens.length < start.tokens.length ∧
          Grows expected b start b' c') (do
          closing
          return b') := by
      apply Reaches.bind closing_skips
      intro _ c' hclosing
      have hle := Nat.le_trans hclosing.passes.length hlength
      exact .pure ⟨length_opened hstart hc₁ hle, h.skip hclosing⟩
    split
    · rename_i hextends
      have hmoves := moves_opened hopener hstart ht (Token.isInner_of_keyword hextends) hc₁
      rw [if_pos hextends] at hmoves
      apply (parentDirective_puts token.position b).bind
      rintro b' c₂ ⟨hstarted, _, ⟨name, htokens, hname⟩, template, rfl⟩
      have hinside : c₁.Inside c₂ :=
        ⟨[name], htokens, List.forall_mem_singleton.mpr (hname ▸ rfl)⟩
      refine hend hinside.passes.length ⟨⟨[.parent], ?_, marksOf_push _ _, ?_⟩, id, fun _ hb => hb⟩
      · exact (List.append_nil [Mark.parent]) ▸ hmoves.trans hinside.passes.toMoves
      · intro hs
        rw [hstarted] at hs
        cases hs
    · rename_i hword
      cases hk : token.kind.isInner with
      | false =>
        rw [directive_none place hk]
        exact .throw _
      | true =>
        apply (directive_shows hi place token.position token).bind
        intro n c₂ hn
        have hpass := (passes_opened hopener hstart ht hk hword hc₁).trans hn
        exact hend hn.length (.push hpass rfl (fun _ => rfl) rfl)
  unfold innerStatement
  dsimp only
  split
  · exact .throw _
  · exact hrest

theorem statement_grows (hexpected : "extends" ∉ expected) (b : Body) :
    Reaches c (fun b' c' => c'.tokens.length < start.tokens.length ∧ Grows expected b start b' c') (statement inner place expected b) := by
  apply peek_reaches.bind
  rintro o c' ⟨rfl, ho⟩
  cases o with
  | none => exact .of_fails (.failExpected _)
  | some token =>
    dsimp only
    split
    · rename_i hk
      apply next_takes.bind
      rintro _ c'' ⟨_, hc''⟩
      have hword : ¬token.isKeyword "extends" := by
        rw [Token.isKeyword, hk]
        decide
      have hpass := passes_opened hopener hstart ho.symm (hk ▸ rfl) hword hc''
      exact .pure ⟨length_opened hstart hc'' (Nat.le_refl _), .same hpass⟩
    · rename_i word hk
      split
      · rename_i hcloses
        apply next_takes.bind
        rintro _ c'' ⟨_, hc''⟩
        have hword : ¬token.isKeyword "extends" := by
          intro hextends
          cases hk.symm.trans (beq_iff_eq.mp hextends)
          exact hexpected (List.contains_iff_mem.mp hcloses)
        have hpass := passes_opened hopener hstart ho.symm (hk ▸ rfl) hword hc''
        refine .pure ⟨length_opened hstart hc'' (Nat.le_refl _),
          ⟨[], hpass.toMoves, (List.append_nil _).symm, fun _ => nofun⟩, id, ?_⟩
        rintro rfl
        cases hcloses
      split
      · exact .throw _
      · exact innerStatement_grows hi place expected hopener hstart b ho.symm
    · exact innerStatement_grows hi place expected hopener hstart b ho.symm

end opened

/-- At the end of the source, the body has been closed or needs no closing. -/
theorem finished_stops :
    Reaches c (fun o c' => o = none ∧ c' = c ∧ expected = []) (finished expected) := by
  unfold finished
  split
  · exact .of_fails (.after fun _ => .throw _)
  · rename_i hlast
    exact .pure ⟨rfl, rfl, List.getLast?_eq_none_iff.mp hlast⟩

theorem rawText_stays (b : Body) (token : Token) :
    Reaches c (fun b' c' => c' = c ∧ b'.nodes = b.nodes ++ [.text token.position token.lexeme] ∧
      (b.started = true → b'.started = true) ∧ b'.closer = b.closer) (rawText b token) := by
  unfold rawText
  dsimp only
  split
  · exact .throw _
  · exact .pure ⟨rfl, rfl, fun hs => by rw [hs]; rfl, rfl⟩

theorem echo_shows (position : Position) : Shows c (echo position) :=
  expression_skips.before c.passes_refl fun _ _ h =>
    (expectKind_skips .closeEcho rfl).before h fun _ _ h => .pure h

include hi

theorem bodyStep_shortens (hexpected : "extends" ∉ expected) (b : Body)
    (hb : expected = [] → b.closer = none) :
    Reaches c (Shortens (Grows expected b c) (fun c' => expected = [] → c'.tokens = []) c b)
      (bodyStep inner place expected b) := by
  unfold bodyStep
  split
  · rename_i hclosed
    refine .pure ⟨.same c.passes_refl, fun he => ?_⟩
    rw [hb he] at hclosed
    cases hclosed
  · apply next_takes.bind
    rintro o c₁ ⟨ho, hc₁⟩
    cases o with
    | none =>
      have hnil : c.tokens = [] := List.head?_eq_none_iff.mp (List.head?_eq_getElem? ▸ ho.symm)
      have hend : c₁.tokens = [] := by rw [hc₁, hnil, List.drop_nil]
      have hinside : c.Inside c₁ := ⟨[], by rw [hnil, hend]; rfl, nofun⟩
      apply (finished_stops expected).imp
      rintro _ c' ⟨rfl, rfl, _⟩
      exact ⟨.same hinside.passes, fun _ => hend⟩
    | some token =>
      have htokens := Cursor.tokens_of_next ho.symm hc₁
      have hlength : c₁.tokens.length < c.tokens.length := by
        rw [htokens]
        exact Nat.lt_succ_self _
      dsimp only
      split
      · rename_i hk
        apply (rawText_stays b token).map
        rintro b' c' ⟨rfl, hnodes, hstarted, hcloser⟩
        have hpass : c.Passes (Node.text token.position token.lexeme).marks c' := by
          refine ⟨⟨?_, Nat.le_of_lt hlength⟩, ?_⟩
          · rw [htokens, marks_text hk]
            rfl
          · exact fun h => nomatch List.mem_singleton.mp h
        exact ⟨hlength, .push hpass hnodes hstarted hcloser⟩
      · rename_i hk
        have hpass : c.Passes [] c₁ := by
          refine ⟨⟨?_, Nat.le_of_lt hlength⟩, nofun⟩
          rw [htokens, marks_cons (hk ▸ nofun) (hk ▸ nofun)]
          rfl
        split
        · exact .throw _
        · apply (echo_shows token.position).bind
          intro n c' hn
          have hgrows : Grows expected b c { b.push n with started := true } c' :=
            .push (hpass.trans hn) rfl (fun _ => rfl) rfl
          exact .pure ⟨Nat.lt_of_le_of_lt hn.length hlength, hgrows⟩
      · rename_i hk
        exact (statement_grows hi place expected hk htokens hexpected b).map fun _ _ h => h
      · exact .throw _

theorem body_grows (hexpected : "extends" ∉ expected) {b : Body} (hb : b.closer = none) :
    Reaches c (fun b' c' => Grows expected b c b' c' ∧ (expected = [] → c'.tokens = []))
      (whileSome (bodyStep inner place expected) b) := by
  apply whileSome_ends (I := fun b' c' => Grows expected b c b' c')
  · intro b' c' h
    apply (bodyStep_shortens hi place expected hexpected b' fun he => h.closer he hb).imp
    rintro (_ | b'') c'' hstep
    · exact ⟨h.trans hstep.1, hstep.2⟩
    · exact ⟨hstep.1, h.trans hstep.2⟩
  · exact .same c.passes_refl

end steps

theorem bodyTo_shows (depth : Nat) : (bodyTo depth).Shows := by
  induction depth with
  | zero => exact fun _ _ _ _ => .of_fails (.after fun _ => .throw _)
  | succ depth ih =>
    intro place expected c hexpected
    apply (body_grows ih place expected hexpected rfl).bind
    rintro b c' ⟨⟨⟨ms, hmoves, hms, hquiet⟩, _, _⟩, _⟩
    refine .pure ⟨?_, ?_⟩
    · rw [hms]
      exact hmoves
    · rw [hms]
      exact hquiet rfl

theorem topLevel_shows :
    Reaches c (fun nodes _ => marks c.tokens = marksOf nodes) topLevel := by
  refine .of_start (fun c => Body.nodes <$> whileSome
    (bodyStep (bodyTo (c.tokens.length + 1)) ⟨false, false⟩ []) .top) ?_ rfl
  apply (body_grows (bodyTo_shows _) ⟨false, false⟩ [] nofun rfl).map
  rintro b c' ⟨⟨⟨ms, hmoves, hms, _⟩, _, _⟩, hend⟩
  rw [hmoves.marks, hend rfl, hms]
  exact List.append_nil ms

/-- What stands outside of expressions is in the tree, each once and in their order. -/
theorem parse_marks {source : String} {nodes : List Node} (h : parse source = .ok nodes) :
    marksOf nodes = marks (scan table source).tokens := by
  obtain ⟨c', hc'⟩ := exists_of_run? h
  exact (topLevel_shows.of_ok nodes c' hc').symm

theorem parse_texts {source : String} {nodes : List Node} (h : parse source = .ok nodes) :
    textsOf nodes = rawTexts (scan table source).tokens := by
  rw [textsOf_eq, parse_marks h, rawTexts_eq]

end EmbeddedLang.Template
