import EmbeddedLang.Expr.Basic
import EmbeddedLang.Proofs.Agreement
import EmbeddedLang.Proofs.Dictionary
import EmbeddedLang.Template.Lowering

/-!
Templates without the parentheses in their expressions.

Where output is escaped, those around what it calls are kept: a macro that is called through
parentheses is not known for one. Lowering takes no notice of any others, but in the names of
functions that it collects.

Only what can stand in a template is looked through. Which name a call is of is the one thing that
parentheses hide.
-/

namespace EmbeddedLang

mutual

/-- The same expression without parentheses. Forms that only queries have are left as they are. -/
def Expr.bare : Expr → Expr
  | .unary p op e => .unary p op e.bare
  | .binary p op left right => .binary p op left.bare right.bare
  | .call p callee args distinct => .call p callee.bare (bareItems args) distinct
  | .member p e property => .member p e.bare property
  | .index p e subscript => .index p e.bare subscript.bare
  | .slice p e first last => .slice p e.bare (bareOption first) (bareOption last)
  | .list p items => .list p (bareItems items)
  | .grouped _ inner => inner.bare
  | .conditional p condition yes no => .conditional p condition.bare yes.bare no.bare
  | .filter p e name args => .filter p e.bare name (bareItems args)
  | .defined p e negated => .defined p e.bare negated
  | .test p e name args negated => .test p e.bare name (bareItems args) negated
  | e@(.literal ..) | e@(.identifier ..) | e@(.placeholder ..) | e@(.star ..)
  | e@(.qualifiedStar ..) | e@(.between ..) | e@(.isNull ..) | e@(.cases ..) | e@(.cast ..)
  | e@(.existence ..) | e@(.subquery ..) => e

def bareItems : List Item → List Item
  | [] => []
  | item :: rest => item.bare :: bareItems rest

def Item.bare : Item → Item
  | ⟨label, e⟩ => ⟨label, e.bare⟩

def bareOption : Option Expr → Option Expr
  | none => none
  | some e => some e.bare

end

namespace Expr

theorem bare_ungrouped (e : Expr) : e.ungrouped.bare = e.bare := by
  fun_induction ungrouped e with
  | case1 _ _ ih => rw [ih, bare]
  | case2 e h => rfl

theorem ungrouped_ne_grouped (e : Expr) (p : Position) (inner : Expr) :
    e.ungrouped ≠ .grouped p inner := by
  fun_induction ungrouped e with
  | case1 _ _ ih => exact ih
  | case2 e h => exact h p inner

theorem ungrouped_bare (e : Expr) : e.bare.ungrouped = e.bare := by
  fun_induction ungrouped e with
  | case1 _ inner ih =>
    rw [bare]
    exact ih
  | case2 e h =>
    cases e with
    | grouped p inner => exact absurd rfl (h p inner)
    | _ =>
      rw [bare]
      rfl

theorem identifier?_bare (e : Expr) : e.bare.identifier? = e.ungrouped.identifier? := by
  rw [← bare_ungrouped]
  fun_induction ungrouped e with
  | case1 _ inner ih => exact ih
  | case2 e h =>
    cases e with
    | grouped p inner => exact absurd rfl (h p inner)
    | _ => simp only [bare, identifier?]

/-- Without parentheses, but for those around what is called where the expression is a call. -/
def bareOutput (e : Expr) : Expr :=
  match e.ungrouped with
  | .call p (.grouped _ callee) args distinct =>
    .call p (.grouped callee.ungrouped.position callee.bare) (bareItems args) distinct
  | _ => e.bare

end Expr

end EmbeddedLang

namespace EmbeddedLang.Template

/-! ### Trees -/

def Assignment.bare (a : Assignment) : Assignment :=
  { a with value := a.value.bare }

mutual

/-- A node without parentheses, where output is escaped or not. -/
def Node.bare (escape : Bool) : Node → Node
  | .echo p e raw => .echo p (if escape && !raw then e.bareOutput else e.bare) raw
  | .choice p branches otherwise =>
    .choice p (bareBranches escape branches) (bareOtherwise escape otherwise)
  | .loop p key value iterable filter body otherwise =>
    .loop p key value iterable.bare (bareOption filter) (bareNodes escape body)
      (bareOtherwise escape otherwise)
  | .assignments p as => .assignments p (as.map Assignment.bare)
  | .block p name body => .block p name (bareNodes escape body)
  | .inclusion p template context => .inclusion p template.bare (bareOption context)
  | .definition p name params body => .definition p name params (bareNodes escape body)
  | .fragment p key lifetime body => .fragment p key.bare lifetime (bareNodes escape body)
  | .autoescape p enabled body => .autoescape p enabled (bareNodes enabled body)
  | .evaluation p e => .evaluation p e.bare
  | .tag p name args => .tag p name (args.map Expr.bare)
  | n@(.text ..) | n@(.parent ..) | n@(.leave _) | n@(.proceed _) | n@(.endTag ..) => n

def bareNodes (escape : Bool) : List Node → List Node
  | [] => []
  | n :: rest => n.bare escape :: bareNodes escape rest

def bareOtherwise (escape : Bool) : Option (List Node) → Option (List Node)
  | none => none
  | some body => some (bareNodes escape body)

def bareBranches (escape : Bool) : List Branch → List Branch
  | [] => []
  | b :: rest => b.bare escape :: bareBranches escape rest

def Branch.bare (escape : Bool) : Branch → Branch
  | ⟨condition, body⟩ => ⟨condition.bare, bareNodes escape body⟩

end

/-! ### Instructions -/

mutual

/-- An instruction without parentheses. Whether output is escaped is settled anew: parentheses
around a filter that escapes are no reason to escape its result again. -/
def Instruction.bare : Instruction → Instruction
  | .output e true => .output e.bareOutput (!endsInEscape e.bareOutput)
  | .output e false => .output e.bare false
  | .choice branches otherwise => .choice (bareArms branches) (bareInstructions otherwise)
  | .loop key value iterable filter body otherwise =>
    .loop key value iterable.bare (bareOption filter) (bareInstructions body)
      (bareInstructions otherwise)
  | .assign target op e => .assign target op e.bare
  | .evaluate e => .evaluate e.bare
  | .block name body => .block name (bareInstructions body)
  | .inclusion template context => .inclusion template.bare (bareOption context)
  | .fragment key lifetime body => .fragment key.bare lifetime (bareInstructions body)
  | .extension name args body => .extension name (args.map Expr.bare) (bareBody body)
  | i@(.literal _) | i@.leave | i@.proceed => i

def bareInstructions : List Instruction → List Instruction
  | [] => []
  | i :: rest => i.bare :: bareInstructions rest

def bareBody : Option (List Instruction) → Option (List Instruction)
  | none => none
  | some body => some (bareInstructions body)

def bareArms : List Arm → List Arm
  | [] => []
  | arm :: rest => arm.bare :: bareArms rest

def Arm.bare : Arm → Arm
  | ⟨condition, body⟩ => ⟨condition.bare, bareInstructions body⟩

end

def Definition.bare (m : Definition) : Definition :=
  ⟨m.params, bareInstructions m.body⟩

theorem bare_eq_literal {i : Instruction} {text : String} (h : i.bare = .literal text) :
    i = .literal text := by
  cases i with
  | literal other => exact h
  | output e escape => cases escape <;> cases h
  | _ => cases h

theorem bareInstructions_join (is js : List Instruction) :
    bareInstructions (Instruction.join is js) =
      Instruction.join (bareInstructions is) (bareInstructions js) := by
  fun_induction Instruction.join is js with
  | case1 js => rfl
  | case2 a b js => simp only [bareInstructions, Instruction.bare, Instruction.join]
  | case3 i is js hseam ih =>
    rw [bareInstructions, bareInstructions, ih, Instruction.join.eq_3]
    intro a b rest hjs hi his
    cases is with
    | cons _ _ => cases his
    | nil =>
      cases js with
      | nil => cases hjs
      | cons j js =>
        obtain ⟨hj, -⟩ := List.cons.inj hjs
        exact hseam a b js (by rw [bare_eq_literal hj]) (bare_eq_literal hi) rfl

theorem block?_bare (i : Instruction) :
    i.bare.block? = i.block?.map fun b => (b.1, bareInstructions b.2) := by
  cases i with
  | output e escape => cases escape <;> rfl
  | _ => rfl

theorem blocks_bare (is : List Instruction) :
    (bareInstructions is).filterMap Instruction.block? =
      Dictionary.mapValues bareInstructions (is.filterMap Instruction.block?) := by
  induction is with
  | nil => rfl
  | cons i rest ih =>
    rw [bareInstructions, List.filterMap_cons, List.filterMap_cons, block?_bare, ih]
    cases i.block? <;> rfl

/-! ### Lowering -/

/-- Drafts of a tree and of the tree without parentheses, which may know of more functions. -/
structure Draft.Bare (d d' : Draft) : Prop where
  macros : d'.macros = Dictionary.mapValues Definition.bare d.macros
  parent : d'.parent = d.parent

/-- The second step does to a bare draft what the first does, and gives the image of its result. -/
structure LowersBare {α β : Type} (f : α → β) (run : Lowering α) (run' : Lowering β) : Prop where
  of_run : ∀ d d', d.Bare d' → Agree Eq (fun x y => y.1 = f x.1 ∧ x.2.Bare y.2) (run d) (run' d')

namespace LowersBare

variable {α β γ δ : Type} {f : α → β} {g : γ → δ} {run : Lowering α} {run' : Lowering β}

theorem pure (a : α) : LowersBare f (Pure.pure a) (Pure.pure (f a)) where
  of_run _ _ hd := .ok ⟨rfl, hd⟩

theorem throw (e : CompileError) : LowersBare f (throw e) (throw e) where
  of_run _ _ _ := .error rfl

theorem bind {k : α → Lowering γ} {k' : β → Lowering δ} (h : LowersBare f run run')
    (hk : ∀ a, LowersBare g (k a) (k' (f a))) : LowersBare g (run >>= k) (run' >>= k') where
  of_run d d' hd := by
    apply (h.of_run d d' hd).bind
    rintro ⟨a, d₁⟩ ⟨_, d₁'⟩ ⟨rfl, hd₁⟩
    exact (hk a).of_run d₁ d₁' hd₁

theorem update {h h' : Draft → Draft} (hh : ∀ d d', d.Bare d' → (h d).Bare (h' d')) :
    LowersBare id (modify h : Lowering Unit) (modify h') where
  of_run d d' hd := .ok ⟨rfl, hh d d' hd⟩

theorem note (e e' : Expr) : LowersBare id (Template.note e) (Template.note e') :=
  update fun _ _ hd => ⟨hd.macros, hd.parent⟩

theorem notes (es : List Expr) :
    LowersBare id (es.forM Template.note) ((es.map Expr.bare).forM Template.note) := by
  induction es with
  | nil => exact pure ()
  | cons e rest ih => exact (note e e.bare).bind fun _ => ih

theorem noteInclude (e e' : Expr) :
    LowersBare id (modify (·.noteInclude e) : Lowering Unit) (modify (·.noteInclude e')) := by
  have hkeep (e : Expr) (d : Draft) :
      (d.noteInclude e).macros = d.macros ∧ (d.noteInclude e).parent = d.parent := by
    unfold Draft.noteInclude
    split <;> exact ⟨rfl, rfl⟩
  apply update
  intro d d' hd
  exact ⟨by rw [(hkeep e' d').1, (hkeep e d).1, hd.macros],
    by rw [(hkeep e' d').2, (hkeep e d).2, hd.parent]⟩

theorem assignments (as : List Assignment) :
    LowersBare bareInstructions (as.mapM lowerAssignment)
      ((as.map Assignment.bare).mapM lowerAssignment) := by
  induction as with
  | nil => exact pure []
  | cons a rest ih =>
    rw [List.map_cons, List.mapM_cons, List.mapM_cons]
    have ha : LowersBare Instruction.bare (lowerAssignment a) (lowerAssignment a.bare) :=
      (note _ _).bind fun _ => pure (Instruction.assign a.target a.op a.value)
    exact ha.bind fun i => ih.bind fun is => pure (i :: is)

theorem get_bind {k : Draft → Lowering γ} {k' : Draft → Lowering δ}
    (hk : ∀ d d', d.Bare d' → LowersBare g (k d) (k' d')) :
    LowersBare g (MonadState.get >>= k) (MonadState.get >>= k') where
  of_run d d' hd := (hk d d' hd).of_run d d' hd

theorem define {body body' : Lowering (List Instruction)}
    (h : LowersBare bareInstructions body body') (position : Position) (name : String)
    (params : List Param) :
    LowersBare bareInstructions (Template.define position name params body)
      (Template.define position name params body') := by
  refine get_bind fun d d' hd => ?_
  have hhas : Dictionary.has name d'.macros = Dictionary.has name d.macros := by
    rw [hd.macros, Dictionary.has_mapValues]
  rw [hhas]
  split
  · exact ⟨fun _ _ _ => .error rfl⟩
  · refine h.bind fun is => (update fun d d' hd => ?_).bind fun _ => pure []
    refine ⟨?_, hd.parent⟩
    rw [hd.macros]
    exact (Dictionary.mapValues_put Definition.bare name ⟨params, is⟩ d.macros).symm

end LowersBare

inductive Sibling.Bare : Sibling → Sibling → Prop where
  | plain {run run' : Lowering (List Instruction)} (h : LowersBare bareInstructions run run') :
    Bare (.plain run) (.plain run')
  | opening (p : Position) (name : String) (args : List Expr) :
    Bare (.opening p name args) (.opening p name (args.map Expr.bare))
  | closing (p : Position) (name : String) : Bare (.closing p name) (.closing p name)

/-- Ends are paired by their names alone. -/
theorem splitAtClosing_bare (name : String) (depth : Nat) {all all' : List Sibling}
    (h : List.Forall₂ Sibling.Bare all all') :
    Option.Rel (fun x y => List.Forall₂ Sibling.Bare x.1 y.1 ∧ List.Forall₂ Sibling.Bare x.2 y.2)
      (splitAtClosing name depth all) (splitAtClosing name depth all') := by
  induction h generalizing depth with
  | nil => exact .none
  | @cons s s' rest rest' hs hrest ih =>
    have hlater (depth : Nat) :
        Option.Rel
          (fun x y => List.Forall₂ Sibling.Bare x.1 y.1 ∧ List.Forall₂ Sibling.Bare x.2 y.2)
          ((splitAtClosing name depth rest).map fun found => (s :: found.1, found.2))
          ((splitAtClosing name depth rest').map fun found => (s' :: found.1, found.2)) := by
      have hfound := ih depth
      generalize splitAtClosing name depth rest = x, splitAtClosing name depth rest' = y at hfound
      cases hfound with
      | none => exact .none
      | some hfound => exact .some ⟨.cons hs hfound.1, hfound.2⟩
    cases hs with
    | plain h => exact hlater depth
    | opening p other args =>
      cases depth <;> exact hlater _
    | closing p other =>
      cases depth with
      | zero =>
        unfold splitAtClosing
        dsimp only
        split
        · exact .some ⟨.nil, hrest⟩
        · exact hlater 0
      | succ depth => exact hlater _

theorem LowersBare.join (is js : List Instruction) :
    LowersBare bareInstructions (Pure.pure (Instruction.join is js))
      (Pure.pure (Instruction.join (bareInstructions is) (bareInstructions js))) := by
  rw [← bareInstructions_join]
  exact .pure (Instruction.join is js)

theorem runSiblings_bare (t : ExtensionTable) {siblings siblings' : List Sibling}
    (h : List.Forall₂ Sibling.Bare siblings siblings') :
    LowersBare bareInstructions (runSiblings t siblings) (runSiblings t siblings') := by
  fun_induction runSiblings t siblings generalizing siblings' with
  | case1 =>
    cases h
    rw [runSiblings]
    exact .pure []
  | case2 run rest ih =>
    obtain _ | @⟨_, s', _, rest', hs, hrest⟩ := h
    cases hs with
    | plain hrun =>
      rw [runSiblings]
      exact hrun.bind fun is => (ih hrest).bind fun js => .join is js
  | case3 p name rest =>
    obtain _ | @⟨_, s', _, rest', hs, hrest⟩ := h
    cases hs
    rw [runSiblings]
    exact .throw _
  | case4 p name args rest hname =>
    obtain _ | @⟨_, s', _, rest', hs, hrest⟩ := h
    cases hs
    rw [runSiblings]
    simp only [hname]
    exact .throw _
  | case5 p name args rest hname ih =>
    obtain _ | @⟨_, s', _, rest', hs, hrest⟩ := h
    cases hs
    rw [runSiblings]
    simp only [hname]
    exact (LowersBare.notes args).bind fun _ => (ih hrest).bind fun js =>
      .join [.extension name args none] js
  | case6 p name args rest hname hsplit =>
    obtain _ | @⟨_, s', _, rest', hs, hrest⟩ := h
    cases hs
    have hsplit' := splitAtClosing_bare name 0 hrest
    rw [hsplit] at hsplit'
    rw [runSiblings]
    simp only [hname]
    split
    · exact .throw _
    · next body after h =>
      rw [h] at hsplit'
      cases hsplit'
  | case7 p name args rest hname body after hsplit ihbody ihafter =>
    obtain _ | @⟨_, s', _, rest', hs, hrest⟩ := h
    cases hs
    have hsplit' := splitAtClosing_bare name 0 hrest
    rw [hsplit] at hsplit'
    rw [runSiblings]
    simp only [hname]
    split
    · next h =>
      rw [h] at hsplit'
      cases hsplit'
    · next body' after' h =>
      rw [h] at hsplit'
      obtain ⟨hbody, hafter⟩ := Option.rel_some_some.mp hsplit'
      exact (LowersBare.notes args).bind fun _ => (ihbody hbody).bind fun is =>
        (ihafter hafter).bind fun js => .join [.extension name args (some is)] js

theorem LowersBare.output (e : Expr) (escape : Bool) :
    Instruction.bare (.output e (escape && !endsInEscape e)) =
      .output (if escape then e.bareOutput else e.bare)
        (escape && !endsInEscape (if escape then e.bareOutput else e.bare)) := by
  cases escape with
  | false => simp [Instruction.bare]
  | true =>
    cases h : endsInEscape e with
    | false => simp [Instruction.bare]
    | true =>
      cases e with
      | filter p x name args =>
        have hbare : endsInEscape (Expr.filter p x name args).bare = true := by
          rw [Expr.bare]
          exact h
        simp [Instruction.bare, Expr.bareOutput, Expr.ungrouped, hbare]
      | _ => cases h

mutual

theorem lowerNode_bare (t : ExtensionTable) (escape : Bool) : (n : Node) →
    (lowerNode t escape n).Bare (lowerNode t escape (n.bare escape))
  | .text _ text => by
    rw [Node.bare, lowerNode]
    refine .plain ?_
    have htext : bareInstructions (literalText text) = literalText text := by
      unfold literalText
      split <;> rfl
    have hpure := LowersBare.pure (f := bareInstructions) (literalText text)
    rwa [htext] at hpure
  | .echo _ e raw => by
    rw [Node.bare, lowerNode, lowerNode]
    refine .plain ((LowersBare.note _ _).bind fun _ => ?_)
    have hpure := LowersBare.pure (f := bareInstructions)
      [.output e (escape && !raw && !endsInEscape e)]
    rwa [bareInstructions, LowersBare.output] at hpure
  | .choice _ branches otherwise => by
    rw [Node.bare, lowerNode, lowerNode]
    exact .plain ((lowerBranches_bare t escape branches).bind fun arms =>
      (lowerOptional_bare t escape otherwise).bind fun is => .pure [Instruction.choice arms is])
  | .loop _ key name iterable filter body otherwise => by
    rw [Node.bare, lowerNode, lowerNode]
    refine .plain ((LowersBare.note _ _).bind fun _ => ?_)
    have hfilter : (bareOption filter).toList = filter.toList.map Expr.bare := by
      cases filter <;> rfl
    rw [hfilter]
    exact (LowersBare.notes _).bind fun _ => (lowerBody_bare t escape body).bind fun is =>
      (lowerOptional_bare t escape otherwise).bind fun js =>
        .pure [Instruction.loop key name iterable filter is js]
  | .assignments _ as => by
    rw [Node.bare, lowerNode, lowerNode]
    exact .plain (.assignments as)
  | .block _ name body => by
    rw [Node.bare, lowerNode, lowerNode]
    exact .plain ((lowerBody_bare t escape body).bind fun is => .pure [Instruction.block name is])
  | .parent _ name => by
    rw [Node.bare, lowerNode]
    have hparent (d d' : Draft) (hd : d.Bare d') :
        Draft.Bare { d with parent := some name } { d' with parent := some name } :=
      ⟨hd.macros, rfl⟩
    exact .plain ((LowersBare.update hparent).bind fun _ => .pure [])
  | .inclusion _ template context => by
    rw [Node.bare, lowerNode, lowerNode]
    have hcontext : (bareOption context).toList = context.toList.map Expr.bare := by
      cases context <;> rfl
    rw [hcontext]
    exact .plain ((LowersBare.note _ _).bind fun _ => (LowersBare.noteInclude _ _).bind fun _ =>
      (LowersBare.notes _).bind fun _ => .pure [Instruction.inclusion template context])
  | .definition p name params body => by
    rw [Node.bare, lowerNode, lowerNode]
    exact .plain ((lowerBody_bare t escape body).define p name params)
  | .fragment _ key lifetime body => by
    rw [Node.bare, lowerNode, lowerNode]
    exact .plain ((LowersBare.note _ _).bind fun _ => (lowerBody_bare t escape body).bind fun is =>
      .pure [Instruction.fragment key lifetime is])
  | .autoescape _ enabled body => by
    rw [Node.bare, lowerNode, lowerNode]
    exact .plain (lowerBody_bare t enabled body)
  | .evaluation _ e => by
    rw [Node.bare, lowerNode, lowerNode]
    exact .plain ((LowersBare.note _ _).bind fun _ => .pure [Instruction.evaluate e])
  | .leave _ => .plain (.pure [Instruction.leave])
  | .proceed _ => .plain (.pure [Instruction.proceed])
  | .tag p name args => .opening p name args
  | .endTag p name => .closing p name

theorem lowerNodes_bare (t : ExtensionTable) (escape : Bool) : (ns : List Node) →
    List.Forall₂ Sibling.Bare (lowerNodes t escape ns) (lowerNodes t escape (bareNodes escape ns))
  | [] => .nil
  | n :: rest => .cons (lowerNode_bare t escape n) (lowerNodes_bare t escape rest)

theorem lowerBody_bare (t : ExtensionTable) (escape : Bool) (ns : List Node) :
    LowersBare bareInstructions (runSiblings t (lowerNodes t escape ns))
      (runSiblings t (lowerNodes t escape (bareNodes escape ns))) :=
  runSiblings_bare t (lowerNodes_bare t escape ns)

theorem lowerOptional_bare (t : ExtensionTable) (escape : Bool) : (body : Option (List Node)) →
    LowersBare bareInstructions (lowerOptional t escape body)
      (lowerOptional t escape (bareOtherwise escape body))
  | none => .pure []
  | some ns => lowerBody_bare t escape ns

theorem lowerBranches_bare (t : ExtensionTable) (escape : Bool) : (bs : List Branch) →
    LowersBare bareArms (lowerBranches t escape bs)
      (lowerBranches t escape (bareBranches escape bs))
  | [] => .pure []
  | b :: rest => (lowerBranch_bare t escape b).bind fun arm =>
    (lowerBranches_bare t escape rest).bind fun arms => .pure (arm :: arms)

theorem lowerBranch_bare (t : ExtensionTable) (escape : Bool) : (b : Branch) →
    LowersBare Arm.bare (lowerBranch t escape b) (lowerBranch t escape (b.bare escape))
  | ⟨condition, body⟩ => (LowersBare.note _ _).bind fun _ =>
    (lowerBody_bare t escape body).bind fun is => .pure (Arm.mk condition is)

end

/-! ### Whole templates -/

/-- Equal but for parentheses, and for the names that are referred to. -/
structure CompiledTemplate.SameBare (t u : CompiledTemplate) : Prop where
  instructions : bareInstructions t.instructions = bareInstructions u.instructions
  macros : Dictionary.mapValues Definition.bare t.macros =
    Dictionary.mapValues Definition.bare u.macros
  parent : t.parent = u.parent

/-- Trees that are the same without parentheses are both refused, for the same reason, or are
compiled to templates that are the same without parentheses. -/
theorem lower_sameBare (o : Options) {nodes nodes' : List Node}
    (h : bareNodes o.autoescape nodes = bareNodes o.autoescape nodes') :
    Agree Eq CompiledTemplate.SameBare (lower o nodes) (lower o nodes') := by
  have hbare (nodes : List Node) :
      Agree Eq (fun t u => u.instructions = bareInstructions t.instructions ∧
        u.macros = Dictionary.mapValues Definition.bare t.macros ∧ u.parent = t.parent)
        (lower o nodes) (lower o (bareNodes o.autoescape nodes)) := by
    refine ((lowerBody_bare o.extensions o.autoescape nodes).of_run Draft.empty Draft.empty
      ⟨rfl, rfl⟩).bind ?_
    rintro ⟨is, d⟩ ⟨_, d'⟩ ⟨rfl, hd⟩
    exact .ok ⟨rfl, hd.macros, hd.parent⟩
  have hother := hbare nodes'
  rw [← h] at hother
  refine (hbare nodes).trans_left hother ?_
  rintro t u t' ⟨his, hmacros, hparent⟩ ⟨his', hmacros', hparent'⟩
  exact ⟨his.symm.trans his', hmacros.symm.trans hmacros', hparent.symm.trans hparent'⟩

end EmbeddedLang.Template
