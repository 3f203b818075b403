import EmbeddedLang.Proofs.Returns
import EmbeddedLang.Proofs.Template.Referenced
import EmbeddedLang.Proofs.Template.Texts

/-!
A template that extends another holds blocks.

The statement that extends a template comes first, and what may follow it is checked where it stands:
at the top level, since a body inside of a template has always started already.
-/

namespace EmbeddedLang

/-- Texts of white space, and statements with nothing in them. -/
inductive Hollow : List Token → Prop where
  | nil : Hollow []
  | text {ts : List Token} {t : Token} (h : Hollow ts) (hk : t.kind = .rawText)
      (hblank : t.lexeme.toList.all Text.isBlank) : Hollow (ts ++ [t])
  | statement {ts : List Token} {opener closer : Token} (h : Hollow ts)
      (hopener : opener.kind = .openStatement) (hcloser : closer.kind = .closeStatement) :
      Hollow (ts ++ [opener, closer])

theorem not_isKeyword_of_kind {t : Token} {kind : TokenKind} {word : String} (hk : t.kind = kind)
    (hne : kind ≠ .keyword word) : ¬t.isKeyword word := by
  intro h
  exact hne (hk.symm.trans (beq_iff_eq.mp h))

theorem Hollow.marks_append {ts : List Token} (h : Hollow ts) (us : List Token) :
    ∃ ms, marks (ts ++ us) = ms ++ marks us ∧ .parent ∉ ms := by
  induction h generalizing us with
  | nil => exact ⟨[], rfl, nofun⟩
  | @text ts t _ hk _ ih =>
    obtain ⟨ms, hms, hquiet⟩ := ih (t :: us)
    refine ⟨ms ++ [.text t.lexeme], ?_, ?_⟩
    · rw [List.append_assoc, List.singleton_append, hms, marks_text hk, List.append_assoc]
      rfl
    · exact fun hmem => (List.mem_append.mp hmem).elim hquiet fun h => nomatch List.mem_singleton.mp h
  | @statement ts opener closer _ hopener hcloser ih =>
    obtain ⟨ms, hms, hquiet⟩ := ih (opener :: closer :: us)
    refine ⟨ms, ?_, hquiet⟩
    rw [List.append_assoc]
    change marks (ts ++ opener :: closer :: us) = _
    rw [hms, marks_opener hopener, if_neg (not_isKeyword_of_kind hcloser nofun),
      marks_cons (hcloser ▸ nofun) (hcloser ▸ nofun)]
    rfl

end EmbeddedLang

namespace EmbeddedLang.Template

open Parse

/-! ### At the top level -/

/-- What a template that extends another may have at its top level. -/
def Node.inChild : Node → Bool
  | .text _ s => s.toList.all Text.isBlank
  | .block .. | .definition .. | .parent .. => true
  | _ => false

/-- The tokens from `start` to `c` end in the statement that extends a template, the first that is
not hollow. -/
def Heads (start c : Cursor) : Prop :=
  ∃ before opener word name closer,
    start.tokens = before ++ opener :: word :: name :: closer :: c.tokens ∧ Hollow before ∧
      opener.kind = .openStatement ∧ word.isKeyword "extends" ∧ name.kind = .string ∧
        closer.kind = .closeStatement

theorem count_of_heads {start c c' : Cursor} {ms : List Mark} (h : Heads start c)
    (hpass : c.Passes ms c') (hend : c'.tokens = []) :
    (marks start.tokens).count .parent = 1 := by
  obtain ⟨before, opener, word, name, closer, htokens, hbefore, hopener, hword, hname, hcloser⟩ := h
  have hinner : ∀ t ∈ [word, name, closer], t.kind.isInner := by
    simp only [List.forall_mem_cons, hname, hcloser]
    exact ⟨Token.isInner_of_keyword hword, rfl, rfl, List.forall_mem_nil _⟩
  obtain ⟨ms₀, hms₀, hquiet⟩ := hbefore.marks_append (opener :: word :: name :: closer :: c.tokens)
  have hafter : marks (word :: name :: closer :: c.tokens) = ms :=
    (marks_inner hinner c.tokens).trans (hpass.marks.trans (by rw [hend]; exact List.append_nil ms))
  rw [htokens, hms₀, marks_opener hopener, if_pos hword, hafter, List.count_append,
    List.count_append, List.count_eq_zero.mpr hquiet, List.count_eq_zero.mpr hpass.quiet]
  rfl

/-- How far a parse at the top level has come from `start`. -/
inductive Stage (start : Cursor) (b : Body) (c : Cursor) : Prop where
  | hollow {before : List Token} (hchild : b.child = false) (hstarted : b.started = false)
      (htokens : start.tokens = before ++ c.tokens) (hbefore : Hollow before)
      (hnodes : ∀ n ∈ b.nodes, n.inChild)
  | started {ms : List Mark} (hchild : b.child = false) (hstarted : b.started = true)
      (hpass : start.Passes ms c)
  | child {c' : Cursor} {ms : List Mark} (hchild : b.child = true) (hheads : Heads start c')
      (hpass : c'.Passes ms c) (hnodes : ∀ n ∈ b.nodes, n.inChild)

namespace Stage

variable {start c c' : Cursor} {b b' : Body}

theorem top (c : Cursor) : Stage c .top c :=
  .hollow rfl rfl rfl .nil nofun

theorem exists_passes (h : Stage start b c) (hchild : b.child = false) :
    ∃ ms, start.Passes ms c := by
  cases h with
  | hollow _ _ htokens hbefore =>
    obtain ⟨ms, hms, hquiet⟩ := hbefore.marks_append c.tokens
    refine ⟨ms, ⟨htokens ▸ hms, ?_⟩, hquiet⟩
    rw [htokens, List.length_append]
    exact Nat.le_add_left _ _
  | started _ _ hpass => exact ⟨_, hpass⟩
  | child htrue => exact absurd (hchild.symm.trans htrue) nofun

/-- What is put into a body that extends nothing starts it. -/
theorem push_started {ms : List Mark} (h : Stage start b c) (hchild : b.child = false)
    (hpass : c.Passes ms c') (n : Node) :
    Stage start { b.push n with started := true } c' := by
  obtain ⟨ms', hms'⟩ := h.exists_passes hchild
  exact .started hchild rfl (hms'.trans hpass)

theorem push_child {ms : List Mark} (h : Stage start b c) (hchild : b.child = true)
    (hpass : c.Passes ms c') {n : Node} (hn : n.inChild) (started : Bool) :
    Stage start { b.push n with started := started } c' := by
  cases h with
  | hollow hfalse | started hfalse => exact absurd (hchild.symm.trans hfalse) nofun
  | child _ hheads hpass' hnodes =>
    refine .child hchild hheads (hpass'.trans hpass) ?_
    exact List.forall_mem_append.mpr ⟨hnodes, List.forall_mem_singleton.mpr hn⟩

theorem same (h : Stage start b c) (hc : c'.tokens = c.tokens) : Stage start b c' := by
  have hinside : c.Inside c' := ⟨[], hc.symm, nofun⟩
  cases h with
  | hollow hchild hstarted htokens hbefore hnodes =>
    exact .hollow hchild hstarted (hc ▸ htokens) hbefore hnodes
  | started hchild hstarted hpass => exact .started hchild hstarted (hpass.skip hinside)
  | child hchild hheads hpass hnodes => exact .child hchild hheads (hpass.skip hinside) hnodes

/-- An empty statement changes nothing. -/
theorem statement (h : Stage start b c) {opener closer : Token} (hopener : opener.kind = .openStatement)
    (hcloser : closer.kind = .closeStatement) (hc : c.tokens = opener :: closer :: c'.tokens) :
    Stage start b c' := by
  have hpass : c.Passes [] c' := by
    refine ⟨⟨?_, ?_⟩, nofun⟩
    · rw [hc, marks_opener hopener, if_neg (not_isKeyword_of_kind hcloser nofun),
        marks_cons (hcloser ▸ nofun) (hcloser ▸ nofun)]
    · rw [hc]
      exact Nat.le_add_right _ 2
  cases h with
  | hollow hchild hstarted htokens hbefore hnodes =>
    refine .hollow hchild hstarted ?_ (hbefore.statement hopener hcloser) hnodes
    rw [htokens, hc, List.append_assoc]
    rfl
  | started hchild hstarted hpass' => exact .started hchild hstarted (hpass'.trans hpass)
  | child hchild hheads hpass' hnodes => exact .child hchild hheads (hpass'.trans hpass) hnodes

theorem text (h : Stage start b c) {t : Token} (hk : t.kind = .rawText)
    (hc : c.tokens = t :: c'.tokens)
    (hallowed : (b.child && !t.lexeme.toList.all Text.isBlank) = false) :
    Stage start { b.push (.text t.position t.lexeme) with
      started := b.started || !t.lexeme.toList.all Text.isBlank } c' := by
  have hpass : c.Passes [.text t.lexeme] c' := by
    refine ⟨⟨?_, ?_⟩, fun hmem => nomatch List.mem_singleton.mp hmem⟩
    · rw [hc, marks_text hk]
      rfl
    · rw [hc]
      exact Nat.le_succ _
  generalize hblank : t.lexeme.toList.all Text.isBlank = blank at hallowed ⊢
  cases hchild : b.child with
  | true =>
    rw [hchild, Bool.true_and, Bool.not_eq_false'] at hallowed
    have hn : (Node.text t.position t.lexeme).inChild := hblank.trans hallowed
    exact h.push_child hchild hpass hn _
  | false =>
    cases hs : (b.started || !blank) with
    | true => exact h.push_started hchild hpass _
    | false =>
      obtain ⟨hstarted, hnot⟩ := Bool.or_eq_false_iff.mp hs
      rw [Bool.not_eq_false'] at hnot
      cases h with
      | started _ htrue => exact absurd (hstarted.symm.trans htrue) nofun
      | child htrue => exact absurd (hchild.symm.trans htrue) nofun
      | hollow _ _ htokens hbefore hnodes =>
        refine .hollow hchild rfl ?_ (hbefore.text hk (hblank.trans hnot)) ?_
        · rw [htokens, hc, List.append_assoc]
          rfl
        · refine List.forall_mem_append.mpr ⟨hnodes, List.forall_mem_singleton.mpr ?_⟩
          exact hblank.trans hnot

end Stage

section steps

variable {c : Cursor} {inner : BodyParser} (hi : inner.Shows) (place : Place)

theorem directive_inChild {token : Token} (h : token.isKeyword "block" ∨ token.isKeyword "macro")
    (position : Position) :
    Finds (fun n => n.inChild) (directive inner place position token) := by
  rcases h with h | h
  · have hblock : directive inner place position token = blockDirective inner place position := by
      unfold directive
      rw [beq_iff_eq.mp h]
      rfl
    rw [hblock]
    unfold blockDirective
    split
    · exact .throw _
    · exact .after fun _ => .after fun _ => .after fun _ => .pure rfl
  · have hdefinition : directive inner place position token =
        definitionDirective inner place position := by
      unfold directive
      rw [beq_iff_eq.mp h]
      rfl
    rw [hdefinition]
    exact .after fun _ => .after fun _ => .after fun _ => .after fun _ => .pure rfl

section opened

variable {start c₀ : Cursor} {opener : Token} {b : Body} (hb : Stage start b c₀)
  (hopener : opener.kind = .openStatement) (hc₀ : c₀.tokens = opener :: c.tokens)

include hb hopener hc₀

/-- The statement that extends a template, behind its word. -/
theorem extends_stage {word : Token} {c₁ : Cursor} (hword : word.isKeyword "extends")
    (hc : c.tokens = word :: c₁.tokens) (position : Position) :
    Reaches c₁ (Stage start) (do
      let b ← parentDirective position b
      closing
      return b) := by
  apply (parentDirective_puts position b).bind
  rintro b' c₂ ⟨hstarted, hchild, ⟨name, hc₁, hname⟩, template, rfl⟩
  apply (Reaches.of_reads closing_reads).bind
  rintro _ c₃ ⟨_, rfl, closer, rfl, hcloser⟩
  cases hb with
  | started _ htrue => exact absurd (hstarted.symm.trans htrue) nofun
  | child htrue => exact absurd (hchild.symm.trans htrue) nofun
  | @hollow before _ _ htokens hbefore hnodes =>
    refine .pure (.child rfl ?_ c₃.passes_refl ?_)
    · refine ⟨before, opener, word, name, closer, ?_, hbefore, hopener, hword, hname, hcloser⟩
      rw [htokens, hc₀, hc, hc₁]
      rfl
    · exact List.forall_mem_append.mpr ⟨hnodes, List.forall_mem_singleton.mpr rfl⟩

include hi

theorem innerStatement_stage {token : Token} (ht : c.tokens[0]? = some token) :
    Reaches c (Stage start) (innerStatement inner place b token) := by
  have hrest (hallowed : b.child = true → ¬token.isKeyword "extends" →
      token.isKeyword "block" ∨ token.isKeyword "macro") : Reaches c (Stage start) (do
      let _ ← next
      let b ←
        if token.isKeyword "extends" then parentDirective token.position b
        else do
          let node ← directive inner place token.position token
          pure { b.push node with started := true }
      closing
      return b) := by
    apply next_takes.bind
    rintro _ c₁ ⟨_, hc₁⟩
    split
    · rename_i hextends
      have htokens := Cursor.tokens_of_next ht hc₁
      exact extends_stage hb hopener hc₀ hextends htokens token.position
    · rename_i hword
      cases hk : token.kind.isInner with
      | false =>
        rw [directive_none place hk]
        exact .throw _
      | true =>
        have hpass := passes_opened hopener hc₀ ht hk hword hc₁
        cases hchild : b.child with
        | false =>
          apply (directive_shows hi place token.position token).bind
          intro n c₂ hn
          apply Reaches.bind closing_skips
          intro _ c' hclosing
          exact .pure (hb.push_started hchild ((hpass.trans hn).skip hclosing) n)
        | true =>
          have hfinds : Finds (fun n => n.inChild) (directive inner place token.position token) :=
            directive_inChild place (hallowed hchild hword) token.position
          apply ((directive_shows hi place token.position token).and (.of_finds hfinds)).bind
          rintro n c₂ ⟨hn, hinChild⟩
          apply Reaches.bind closing_skips
          intro _ c' hclosing
          exact .pure (hb.push_child hchild ((hpass.trans hn).skip hclosing) hinChild true)
  unfold innerStatement
  dsimp only
  split
  · exact .throw _
  · rename_i hallowed
    apply hrest
    intro hchild hword
    have hallowed : allowedInChild token = true := by simpa [hchild] using hallowed
    rw [allowedInChild, Bool.or_assoc, Bool.or_eq_true, Bool.or_eq_true] at hallowed
    exact hallowed.resolve_left hword

theorem statement_stage :
    Reaches c (Stage start) (statement inner place [] b) := by
  apply peek_reaches.bind
  rintro o c' ⟨rfl, ho⟩
  cases o with
  | none => exact .of_fails (.failExpected _)
  | some token =>
    dsimp only
    split
    · rename_i hk
      apply next_takes.bind
      rintro _ c₁ ⟨_, hc₁⟩
      refine .pure (hb.statement hopener hk ?_)
      rw [hc₀, Cursor.tokens_of_next ho.symm hc₁]
    · split
      · rename_i hnone
        cases hnone
      split
      · exact .throw _
      · exact innerStatement_stage hi place hb hopener hc₀ ho.symm
    · exact innerStatement_stage hi place hb hopener hc₀ ho.symm

end opened

include hi

theorem bodyStep_stage {start : Cursor} {b : Body} (hb : Stage start b c) :
    Reaches c (fun o c' => Stage start (o.getD b) c') (bodyStep inner place [] b) := by
  unfold bodyStep
  split
  · exact .pure hb
  · apply next_takes.bind
    rintro o c₁ ⟨ho, hc₁⟩
    cases o with
    | none =>
      have hnil : c.tokens = [] := List.head?_eq_none_iff.mp (List.head?_eq_getElem? ▸ ho.symm)
      apply (finished_stops []).imp
      rintro _ c' ⟨rfl, rfl, _⟩
      refine hb.same ?_
      rw [hc₁, hnil, List.drop_nil]
    | some token =>
      have htokens := Cursor.tokens_of_next ho.symm hc₁
      dsimp only
      split
      · rename_i hk
        unfold rawText
        dsimp only
        split
        · exact .throw _
        · rename_i hallowed
          exact .pure (hb.text hk htokens (Bool.eq_false_iff.mpr hallowed))
      · rename_i hk
        split
        · exact .throw _
        · rename_i hchild
          have hpass : c.Passes [] c₁ := by
            refine ⟨⟨?_, ?_⟩, nofun⟩
            · rw [htokens, marks_cons (hk ▸ nofun) (hk ▸ nofun)]
              rfl
            · rw [htokens]
              exact Nat.le_succ _
          apply (echo_shows token.position).bind
          intro n c' hn
          exact .pure (hb.push_started (Bool.eq_false_iff.mpr hchild) (hpass.trans hn) n)
      · rename_i hk
        exact (statement_stage hi place hb hk htokens).map fun _ _ h => h
      · exact .throw _

end steps

/-- The stage that a whole template comes to, with all of its tokens taken. -/
theorem parse_stage {source : String} {nodes : List Node} (h : parse source = .ok nodes) :
    ∃ b c', Stage (Cursor.ofSource table source) b c' ∧ c'.tokens = [] ∧ b.nodes = nodes := by
  obtain ⟨c', hc'⟩ := exists_of_run? h
  have hlevel (c : Cursor) : Reaches c (fun nodes c' => ∃ b, Stage c b c' ∧ c'.tokens = [] ∧
      b.nodes = nodes) topLevel := by
    refine .of_start (fun c => Body.nodes <$> whileSome
      (bodyStep (bodyTo (c.tokens.length + 1)) ⟨false, false⟩ []) .top) ?_ rfl
    have hstep (b : Body) (c' : Cursor) (hb : Stage c b c') :=
      bodyStep_stage (bodyTo_shows (c.tokens.length + 1)) ⟨false, false⟩ hb
    have hend := body_grows (c := c) (bodyTo_shows (c.tokens.length + 1)) ⟨false, false⟩ []
      (b := .top) nofun rfl
    apply ((whileSome_keeps hstep (.top c)).and hend).map
    exact fun b c' hb => ⟨b, hb.1, hb.2.2 rfl, rfl⟩
  obtain ⟨b, hb⟩ := (hlevel _).of_ok nodes c' hc'
  exact ⟨b, c', hb⟩

/-! ### The template that a draft extends -/

/-- The step leaves the template that is extended. -/
structure LeavesParent {α : Type} (run : Lowering α) : Prop where
  of_ok : ∀ d a d', run d = .ok (a, d') → d'.parent = d.parent

namespace LeavesParent

variable {α β : Type} {run : Lowering α}

theorem pure (a : α) : LeavesParent (Pure.pure a) where
  of_ok d b d' h := by
    cases h
    rfl

theorem throw (e : CompileError) : LeavesParent (throw e : Lowering α) where
  of_ok d b d' h := by cases h

theorem bind {f : α → Lowering β} (h : LeavesParent run) (hf : ∀ a, LeavesParent (f a)) :
    LeavesParent (run >>= f) where
  of_ok d b d' hb := by
    obtain ⟨⟨a, d₁⟩, ha, hb⟩ := exists_of_bind hb
    exact ((hf a).of_ok d₁ b d' hb).trans (h.of_ok d a d₁ ha)

theorem update {f : Draft → Draft} (h : ∀ d, (f d).parent = d.parent) :
    LeavesParent (modify f : Lowering Unit) where
  of_ok d a d' ha := by
    cases ha
    exact h d

theorem note (e : Expr) : LeavesParent (Template.note e) :=
  update fun _ => rfl

theorem notes (es : List Expr) : LeavesParent (es.forM Template.note) := by
  induction es with
  | nil => exact pure ()
  | cons e rest ih => exact (note e).bind fun _ => ih

theorem noteInclude (e : Expr) : LeavesParent (modify fun d => d.noteInclude e : Lowering Unit) := by
  apply update
  intro d
  unfold Draft.noteInclude
  split <;> rfl

theorem assignments (as : List Assignment) : LeavesParent (as.mapM lowerAssignment) := by
  induction as with
  | nil => exact pure []
  | cons a rest ih =>
    have ha : LeavesParent (lowerAssignment a) := (note a.value).bind fun _ => pure _
    rw [List.mapM_cons]
    exact ha.bind fun _ => ih.bind fun _ => pure _

theorem define {body : Lowering (List Instruction)} (h : LeavesParent body) (position : Position)
    (name : String) (params : List Param) : LeavesParent (Template.define position name params body) := by
  have hget : LeavesParent (MonadState.get : Lowering Draft) := by
    constructor
    rintro d a d' ⟨⟩
    rfl
  apply hget.bind
  intro d
  have hrest : LeavesParent (do
      let body ← body
      modify fun d => { d with macros := Dictionary.put name ⟨params, body⟩ d.macros }
      return ([] : List Instruction)) := by
    refine h.bind fun is => ?_
    exact (update (f := fun d => { d with macros := Dictionary.put name ⟨params, is⟩ d.macros })
      fun _ => rfl).bind fun _ => pure _
  dsimp only
  split
  · exact (throw _).bind fun _ => hrest
  · exact hrest

end LeavesParent

def Sibling.LeavesParent : Sibling → Prop
  | .plain run => Template.LeavesParent run
  | .opening .. | .closing .. => True

theorem runSiblings_leavesParent (t : ExtensionTable) (siblings : List Sibling)
    (h : ∀ s ∈ siblings, s.LeavesParent) : LeavesParent (runSiblings t siblings) := by
  fun_induction runSiblings t siblings with
  | case1 => exact .pure _
  | case2 run rest ih =>
    obtain ⟨hrun, hrest⟩ := List.forall_mem_cons.mp h
    have hrun : LeavesParent run := hrun
    exact hrun.bind fun _ => (ih hrest).bind fun _ => .pure _
  | case3 | case4 | case6 => exact .throw _
  | case5 p name args rest _ ih =>
    have hrest := (List.forall_mem_cons.mp h).2
    exact (LeavesParent.notes args).bind fun _ => (ih hrest).bind fun _ => .pure _
  | case7 p name args rest _ body after split ihbody ihafter =>
    have hrest := (List.forall_mem_cons.mp h).2
    have hmem := splitAtClosing_mem split
    have hbody := ihbody fun s hs => hrest s (hmem s (.inl hs))
    have hafter := ihafter fun s hs => hrest s (hmem s (.inr hs))
    exact (LeavesParent.notes args).bind fun _ => hbody.bind fun _ => hafter.bind fun _ => .pure _

mutual

theorem lowerNode_leavesParent (t : ExtensionTable) (escape : Bool) : (n : Node) →
    .parent ∉ n.marks → (lowerNode t escape n).LeavesParent
  | .text .., _ | .leave _, _ | .proceed _, _ => .pure _
  | .echo _ e _, _ | .evaluation _ e, _ => (LeavesParent.note e).bind fun _ => .pure _
  | .choice p branches otherwise, h => by
    rw [Node.marks_choice, List.mem_append, not_or] at h
    exact (lowerBranches_leavesParent t escape branches h.1).bind fun _ =>
      (lowerOptional_leavesParent t escape otherwise h.2).bind fun _ => .pure _
  | .loop p key value iterable filter body otherwise, h => by
    rw [Node.marks_loop, List.mem_append, not_or] at h
    exact (LeavesParent.note iterable).bind fun _ => (LeavesParent.notes filter.toList).bind fun _ =>
      (runNodes_leavesParent t escape body h.1).bind fun _ =>
        (lowerOptional_leavesParent t escape otherwise h.2).bind fun _ => .pure _
  | .assignments _ as, _ => .assignments as
  | .block _ _ body, h => (runNodes_leavesParent t escape body h).bind fun _ => .pure _
  | .parent .., h => absurd List.mem_cons_self h
  | .inclusion _ template context, _ =>
    (LeavesParent.note template).bind fun _ => (LeavesParent.noteInclude template).bind fun _ =>
      (LeavesParent.notes context.toList).bind fun _ => .pure _
  | .definition p name params body, h => (runNodes_leavesParent t escape body h).define p name params
  | .fragment _ key _ body, h =>
    (LeavesParent.note key).bind fun _ => (runNodes_leavesParent t escape body h).bind fun _ => .pure _
  | .autoescape _ enabled body, h => runNodes_leavesParent t enabled body h
  | .tag .., _ | .endTag .., _ => trivial

theorem lowerNodes_leavesParent (t : ExtensionTable) (escape : Bool) : (ns : List Node) →
    .parent ∉ marksOf ns → ∀ s ∈ lowerNodes t escape ns, s.LeavesParent
  | [], _ => nofun
  | n :: rest, h => by
    have hsplit : marksOf (n :: rest) = n.marks ++ marksOf rest := List.filterMap_append
    rw [hsplit, List.mem_append, not_or] at h
    exact List.forall_mem_cons.mpr
      ⟨lowerNode_leavesParent t escape n h.1, lowerNodes_leavesParent t escape rest h.2⟩

theorem runNodes_leavesParent (t : ExtensionTable) (escape : Bool) (ns : List Node)
    (h : .parent ∉ marksOf ns) : LeavesParent (runSiblings t (lowerNodes t escape ns)) :=
  runSiblings_leavesParent t _ (lowerNodes_leavesParent t escape ns h)

theorem lowerOptional_leavesParent (t : ExtensionTable) (escape : Bool) :
    (body : Option (List Node)) → .parent ∉ marksOfOptional body →
      LeavesParent (lowerOptional t escape body)
  | none, _ => .pure _
  | some body, h => runNodes_leavesParent t escape body h

theorem lowerBranches_leavesParent (t : ExtensionTable) (escape : Bool) : (bs : List Branch) →
    .parent ∉ marksOfBranches bs → LeavesParent (lowerBranches t escape bs)
  | [], _ => .pure _
  | ⟨condition, body⟩ :: rest, h => by
    have hsplit : marksOfBranches (⟨condition, body⟩ :: rest) = marksOf body ++ marksOfBranches rest :=
      List.filterMap_append
    rw [hsplit, List.mem_append, not_or] at h
    have hbranch : LeavesParent (lowerBranch t escape ⟨condition, body⟩) :=
      (LeavesParent.note condition).bind fun _ => (runNodes_leavesParent t escape body h.1).bind
        fun _ => .pure _
    exact hbranch.bind fun _ => (lowerBranches_leavesParent t escape rest h.2).bind fun _ => .pure _

end

theorem parent_of_lower {o : Options} {nodes : List Node} {t : CompiledTemplate}
    (h : lower o nodes = .ok t) (hquiet : .parent ∉ marksOf nodes) : t.parent = none := by
  obtain ⟨d, hd, -, -, hparent⟩ := exists_draft_of_lower h
  have hleaves := runNodes_leavesParent o.extensions o.autoescape nodes hquiet
  rw [hparent, hleaves.of_ok _ _ d hd]
  rfl

/-! ### Instructions -/

/-- A block, or text of white space. -/
def Instruction.inChild : Instruction → Bool
  | .block .. => true
  | .literal s => s.toList.all Text.isBlank
  | _ => false

theorem inChild_join {is js : List Instruction} (h : ∀ i ∈ is, i.inChild) (h' : ∀ i ∈ js, i.inChild) :
    ∀ i ∈ Instruction.join is js, i.inChild := by
  refine forall_mem_join (fun a b ha hb => ?_) h h'
  change (a ++ b).toList.all Text.isBlank = true
  rw [String.toList_append, List.all_append]
  exact Bool.and_eq_true_iff.mpr ⟨ha, hb⟩

theorem Drafts.any {α : Type} (run : Lowering α) : Drafts (fun _ => True) run fun _ => True where
  of_ok _ _ _ _ _ := ⟨trivial, fun _ _ => trivial⟩

/-- No such node is one end of a custom directive. -/
theorem lowerNode_inChild (t : ExtensionTable) (escape : Bool) {n : Node} (hn : n.inChild) :
    ∃ run, lowerNode t escape n = .plain run ∧
      Drafts (fun _ => True) run fun is => ∀ i ∈ is, i.inChild := by
  cases n with
  | text _ s =>
    refine ⟨_, rfl, .pure ?_⟩
    unfold literalText
    split
    · exact List.forall_mem_nil _
    · exact List.forall_mem_singleton.mpr hn
  | block _ name body =>
    exact ⟨_, rfl, (Drafts.any _).bind fun is _ => .pure (List.forall_mem_singleton.mpr rfl)⟩
  | definition p name params body =>
    refine ⟨_, rfl, ((Drafts.any _).define p name params fun _ _ => trivial).imp ?_⟩
    rintro _ rfl
    exact List.forall_mem_nil _
  | parent _ name => exact ⟨_, rfl, (Drafts.any _).bind fun _ _ => .pure (List.forall_mem_nil _)⟩
  | _ => cases hn

theorem inChild_lower (t : ExtensionTable) (escape : Bool) {nodes : List Node}
    (h : ∀ n ∈ nodes, n.inChild) :
    Drafts (fun _ => True) (runSiblings t (lowerNodes t escape nodes)) fun is =>
      ∀ i ∈ is, i.inChild := by
  induction nodes with
  | nil =>
    rw [lowerNodes, runSiblings]
    exact .pure (List.forall_mem_nil _)
  | cons n rest ih =>
    obtain ⟨hn, hrest⟩ := List.forall_mem_cons.mp h
    obtain ⟨run, hplain, hrun⟩ := lowerNode_inChild t escape hn
    rw [lowerNodes, hplain, runSiblings]
    exact hrun.bind fun is his => (ih hrest).bind fun js hjs => .pure (inChild_join his hjs)

mutual

/-- What is below stands in a block if what is above does. -/
theorem exists_fits_of_mem_walk (place : Place) : (i : Instruction) → i.fits place →
    ∀ j ∈ i.walk, ∃ place', (place.inBlock = true → place'.inBlock = true) ∧ j.fits place'
  | .choice branches otherwise, h => by
    obtain ⟨hb, ho⟩ := Bool.and_eq_true_iff.mp h
    exact List.forall_mem_cons.mpr ⟨⟨place, id, h⟩, List.forall_mem_append.mpr
      ⟨exists_fits_of_mem_arms place branches hb, exists_fits_of_mem_body place otherwise ho⟩⟩
  | .loop _ _ _ _ body otherwise, h => by
    obtain ⟨hb, ho⟩ := Bool.and_eq_true_iff.mp h
    exact List.forall_mem_cons.mpr ⟨⟨place, id, h⟩, List.forall_mem_append.mpr
      ⟨exists_fits_of_mem_body { place with inLoop := true } body hb,
        exists_fits_of_mem_body place otherwise ho⟩⟩
  | .block _ body, h => by
    obtain ⟨-, hb⟩ := Bool.and_eq_true_iff.mp h
    refine List.forall_mem_cons.mpr ⟨⟨place, id, h⟩, fun j hj => ?_⟩
    obtain ⟨place', hplace', hfits⟩ := exists_fits_of_mem_body { place with inBlock := true } body hb j hj
    exact ⟨place', fun _ => hplace' rfl, hfits⟩
  | .fragment _ _ body, h =>
    List.forall_mem_cons.mpr ⟨⟨place, id, h⟩, exists_fits_of_mem_body place body h⟩
  | .extension _ _ none, h => List.forall_mem_cons.mpr ⟨⟨place, id, h⟩, nofun⟩
  | .extension _ _ (some body), h =>
    List.forall_mem_cons.mpr ⟨⟨place, id, h⟩, exists_fits_of_mem_body place body h⟩
  | .literal _, h | .output .., h | .assign .., h | .evaluate _, h | .leave, h | .proceed, h
  | .inclusion .., h => List.forall_mem_singleton.mpr ⟨place, id, h⟩

theorem exists_fits_of_mem_body (place : Place) : (is : List Instruction) → instructionsFit place is →
    ∀ j ∈ walkInstructions is, ∃ place', (place.inBlock = true → place'.inBlock = true) ∧ j.fits place'
  | [], _ => nofun
  | i :: rest, h => by
    obtain ⟨hi, hrest⟩ := instructionsFit_cons.mp h
    exact List.forall_mem_append.mpr
      ⟨exists_fits_of_mem_walk place i hi, exists_fits_of_mem_body place rest hrest⟩

theorem exists_fits_of_mem_arms (place : Place) : (arms : List Arm) → armsFit place arms →
    ∀ j ∈ walkArms arms, ∃ place', (place.inBlock = true → place'.inBlock = true) ∧ j.fits place'
  | [], _ => nofun
  | ⟨_, body⟩ :: rest, h => by
    obtain ⟨hb, hrest⟩ := Bool.and_eq_true_iff.mp h
    exact List.forall_mem_append.mpr
      ⟨exists_fits_of_mem_body place body hb, exists_fits_of_mem_arms place rest hrest⟩

end

theorem no_block_in_block {place : Place} {is : List Instruction} (h : instructionsFit place is)
    {name : String} {body : List Instruction} (hb : .block name body ∈ walkInstructions is) :
    ∀ j ∈ walkInstructions body, j.block? = none := by
  obtain ⟨_, _, hfits⟩ := exists_fits_of_mem_body place is h _ hb
  intro j hj
  obtain ⟨place', hplace', hj⟩ :=
    exists_fits_of_mem_body _ body (Bool.and_eq_true_iff.mp hfits).2 j hj
  cases j with
  | block =>
    have hnot := (Bool.and_eq_true_iff.mp hj).1
    rw [hplace' rfl] at hnot
    cases hnot
  | _ => rfl

theorem CompiledTemplate.IsCompiled.bodies_fit {t : CompiledTemplate} (h : t.IsCompiled) :
    ∀ is ∈ t.bodies, ∃ place, instructionsFit place is := by
  obtain ⟨hmain, hmacros⟩ := h.fits
  refine List.forall_mem_cons.mpr ⟨⟨_, hmain⟩, fun is his => ?_⟩
  obtain ⟨m, hm, rfl⟩ := List.mem_map.mp his
  obtain ⟨inBlock, hfits⟩ := hmacros m hm
  exact ⟨_, hfits⟩

/-- A template that extends another says so once, behind nothing but white space, comments and empty
statements, and its own instructions are blocks and white space. In no template is there a block in
the body of a block. -/
theorem children_hold_blocks {o : Options} {source : String} {t : CompiledTemplate}
    (h : compile o source = .ok t) :
    (t.parent.isSome →
      (∃ before opener word name closer after,
        (scan table source).tokens = before ++ opener :: word :: name :: closer :: after ∧
        Hollow before ∧ opener.kind = .openStatement ∧ word.isKeyword "extends" ∧
        name.kind = .string ∧ closer.kind = .closeStatement) ∧
      (marks (scan table source).tokens).count .parent = 1 ∧
      ∀ i ∈ t.instructions, i.inChild) ∧
    ∀ is ∈ t.bodies, ∀ name body, .block name body ∈ walkInstructions is →
      ∀ j ∈ walkInstructions body, j.block? = none := by
  obtain ⟨nodes, hparse, hlower⟩ := exists_parse_of_compile h
  refine ⟨fun hparent => ?_, fun is his name body hb => ?_⟩
  · obtain ⟨b, c', hstage, hend, rfl⟩ := parse_stage hparse
    cases hchild : b.child with
    | false =>
      -- nothing that has been passed extends a template, and so neither does the draft
      obtain ⟨ms, hpass⟩ := hstage.exists_passes hchild
      have hmarks : marksOf b.nodes = ms := by
        rw [parse_marks hparse]
        exact hpass.marks.trans (by rw [hend]; exact List.append_nil ms)
      rw [parent_of_lower hlower (hmarks ▸ hpass.quiet)] at hparent
      cases hparent
    | true =>
      cases hstage with
      | hollow hfalse | started hfalse => exact absurd (hchild.symm.trans hfalse) nofun
      | @child c ms _ hheads hpass hnodes =>
        refine ⟨?_, ?_, ?_⟩
        · obtain ⟨before, opener, word, name, closer, htokens, hheading⟩ := hheads
          exact ⟨before, opener, word, name, closer, c.tokens, htokens, hheading⟩
        · exact count_of_heads hheads hpass hend
        · exact ((inChild_lower o.extensions o.autoescape hnodes).of_lower hlower).1
  · obtain ⟨place, hfits⟩ := CompiledTemplate.IsCompiled.bodies_fit ⟨o, source, h⟩ is his
    exact no_block_in_block hfits hb

/-- A comment, white space and an empty statement before the statement that extends a template, and a
macro between its blocks. -/
def extending : String :=
  "\x7b# of books #\x7d \x7b% %\x7d\x7b% extends 'base' %\x7d \x7b% block a %\x7dx\x7b% endblock %\x7d"
    ++ "\x7b% macro m() %\x7d\x7b% block b %\x7dy\x7b% endblock %\x7d\x7b% endmacro %\x7d"

theorem children_hold_blocks_extending :
    ∃ t, compile {} extending = .ok t ∧ t.parent = some "base" ∧
      (marks (scan table extending).tokens).count .parent = 1 ∧ ∀ i ∈ t.instructions, i.inChild := by
  have hs : (compile {} extending).toOption.any fun t => t.parent == some "base" := by
    decide +kernel
  obtain ⟨t, ht, hs⟩ := exists_ok_of_any hs
  have hparent : t.parent = some "base" := eq_of_beq hs
  obtain ⟨-, hcount, hinstructions⟩ := (children_hold_blocks ht).1 (by rw [hparent]; rfl)
  exact ⟨t, ht, hparent, hcount, hinstructions⟩

end EmbeddedLang.Template
