import EmbeddedLang.Proofs.Returns
import EmbeddedLang.Proofs.Template.Guarded
import EmbeddedLang.Proofs.Template.Relocation

/-!
Errors of lowering are at places that the tree names.
-/

namespace EmbeddedLang.Template

variable {α β : Type} {P : Position → Prop}

/-- On every draft, an error of the step is at one of these places. -/
structure LoweringBlames (P : Position → Prop) (run : Lowering α) : Prop where
  of_draft : ∀ d, Blames P (run d)

namespace LoweringBlames

theorem pure (a : α) : LoweringBlames P (Pure.pure a) where
  of_draft _ := .ok _

theorem throw {e : CompileError} (h : e.At P) : LoweringBlames P (throw e : Lowering α) where
  of_draft _ := .error h

theorem bind {run : Lowering α} {f : α → Lowering β} (h : LoweringBlames P run)
    (hf : ∀ a, LoweringBlames P (f a)) : LoweringBlames P (run >>= f) where
  of_draft d := (h.of_draft d).bind fun x => (hf x.1).of_draft x.2

theorem update (f : Draft → Draft) : LoweringBlames P (modify f) where
  of_draft _ := .ok _

theorem notes (es : List Expr) : LoweringBlames P (es.forM note) := by
  induction es with
  | nil => exact pure _
  | cons e rest ih => exact (update _).bind fun _ => ih

theorem define {body : Lowering (List Instruction)} (h : LoweringBlames P body) {p : Position}
    (hp : P p) (name : String) (params : List Param) :
    LoweringBlames P (Template.define p name params body) := by
  have hbody : LoweringBlames P (do
      let is ← body
      modify fun d => { d with macros := Dictionary.put name ⟨params, is⟩ d.macros }
      return []) :=
    h.bind fun is => (update _).bind fun _ => pure ([] : List Instruction)
  have hget : LoweringBlames P (get : Lowering Draft) := ⟨fun d => .ok (d, d)⟩
  apply hget.bind
  intro d
  dsimp only
  split
  · exact bind (throw ⟨p, rfl, hp⟩) fun _ => hbody
  · exact hbody

theorem assignments (as : List Assignment) : LoweringBlames P (as.mapM lowerAssignment) := by
  induction as with
  | nil => exact pure []
  | cons a rest ih =>
    have ha : LoweringBlames P (lowerAssignment a) := (update _).bind fun _ => pure _
    rw [List.mapM_cons]
    exact ha.bind fun i => ih.bind fun is => pure _

end LoweringBlames

/-- An end of a custom directive has an error of its own if its other end is missing. -/
def Sibling.Blames (P : Position → Prop) : Sibling → Prop
  | .plain run => LoweringBlames P run
  | .opening p .. | .closing p _ => P p

theorem strayEnd_at (t : ExtensionTable) {p : Position} (h : P p) (name : String) :
    (strayEnd t p name).At P := by
  unfold strayEnd
  split <;> exact ⟨p, rfl, h⟩

theorem runSiblings_blames (t : ExtensionTable) (siblings : List Sibling)
    (h : ∀ s ∈ siblings, s.Blames P) : LoweringBlames P (runSiblings t siblings) := by
  fun_induction runSiblings t siblings with
  | case1 => exact .pure _
  | case2 run rest ih =>
    obtain ⟨hrun, hrest⟩ := List.forall_mem_cons.mp h
    have hrun : LoweringBlames P run := hrun
    exact hrun.bind fun _ => (ih hrest).bind fun _ => .pure _
  | case3 p name rest => exact .throw (strayEnd_at t (h _ List.mem_cons_self) name)
  | case4 p name args rest => exact .throw ⟨p, rfl, h _ List.mem_cons_self⟩
  | case5 p name args rest _ ih =>
    have hrest := (List.forall_mem_cons.mp h).2
    exact (LoweringBlames.notes args).bind fun _ => (ih hrest).bind fun _ => .pure _
  | case6 p name args rest => exact .throw ⟨p, rfl, h _ List.mem_cons_self⟩
  | case7 p name args rest _ body after split ihbody ihafter =>
    have hrest := (List.forall_mem_cons.mp h).2
    have hmem := splitAtClosing_mem split
    have hbody := ihbody fun s hs => hrest s (hmem s (.inl hs))
    have hafter := ihafter fun s hs => hrest s (hmem s (.inr hs))
    exact (LoweringBlames.notes args).bind fun _ => hbody.bind fun _ => hafter.bind fun _ => .pure _

mutual

theorem lowerNode_blames (t : ExtensionTable) (escape : Bool) : ∀ n : Node,
    (∀ p ∈ n.positions, P p) → (lowerNode t escape n).Blames P
  | .text .., _ | .leave _, _ | .proceed _, _ => .pure _
  | .echo .., _ | .evaluation .., _ | .parent .., _ => (LoweringBlames.update _).bind fun _ => .pure _
  | .choice _ branches otherwise, h => by
    simp only [Node.positions, List.forall_mem_cons, List.forall_mem_append] at h
    apply (lowerBranches_blames t escape branches h.2.1).bind
    intro arms
    exact (lowerOptional_blames t escape otherwise h.2.2).bind fun _ => .pure _
  | .loop _ _ _ iterable filter body otherwise, h => by
    simp only [Node.positions, List.forall_mem_cons, List.forall_mem_append] at h
    apply (LoweringBlames.update _).bind
    intro _
    apply (LoweringBlames.notes filter.toList).bind
    intro _
    apply (lowerBody_blames t escape body h.2.1.2).bind
    intro is
    exact (lowerOptional_blames t escape otherwise h.2.2).bind fun _ => .pure _
  | .assignments _ as, _ => .assignments as
  | .block _ _ body, h => by
    have hbody := (List.forall_mem_cons.mp h).2
    exact (lowerBody_blames t escape body hbody).bind fun _ => .pure _
  | .inclusion _ _ context, _ => by
    apply (LoweringBlames.update _).bind
    intro _
    apply (LoweringBlames.update _).bind
    intro _
    exact (LoweringBlames.notes context.toList).bind fun _ => .pure _
  | .definition _ name params body, h => by
    obtain ⟨hp, hbody⟩ := List.forall_mem_cons.mp h
    exact (lowerBody_blames t escape body hbody).define hp name params
  | .fragment _ _ _ body, h => by
    simp only [Node.positions, List.forall_mem_cons, List.forall_mem_append] at h
    apply (LoweringBlames.update _).bind
    intro _
    exact (lowerBody_blames t escape body h.2.2).bind fun _ => .pure _
  | .autoescape _ enabled body, h =>
    lowerBody_blames t enabled body (List.forall_mem_cons.mp h).2
  | .tag .., h => h _ List.mem_cons_self
  | .endTag .., h => h _ List.mem_cons_self

theorem lowerNodes_blames (t : ExtensionTable) (escape : Bool) : ∀ nodes : List Node,
    (∀ p ∈ positionsOfNodes nodes, P p) → ∀ s ∈ lowerNodes t escape nodes, s.Blames P
  | [], _ => nofun
  | n :: rest, h => by
    obtain ⟨hn, hrest⟩ := List.forall_mem_append.mp h
    exact List.forall_mem_cons.mpr
      ⟨lowerNode_blames t escape n hn, lowerNodes_blames t escape rest hrest⟩

theorem lowerBody_blames (t : ExtensionTable) (escape : Bool) (body : List Node)
    (h : ∀ p ∈ positionsOfNodes body, P p) :
    LoweringBlames P (runSiblings t (lowerNodes t escape body)) :=
  runSiblings_blames t _ (lowerNodes_blames t escape body h)

theorem lowerOptional_blames (t : ExtensionTable) (escape : Bool) : ∀ body : Option (List Node),
    (∀ p ∈ positionsOfOptional body, P p) → LoweringBlames P (lowerOptional t escape body)
  | none, _ => .pure _
  | some body, h => lowerBody_blames t escape body h

theorem lowerBranches_blames (t : ExtensionTable) (escape : Bool) : ∀ branches : List Branch,
    (∀ p ∈ positionsOfBranches branches, P p) → LoweringBlames P (lowerBranches t escape branches)
  | [], _ => .pure _
  | b :: rest, h => by
    obtain ⟨hb, hrest⟩ := List.forall_mem_append.mp h
    apply (lowerBranch_blames t escape b hb).bind
    intro arm
    exact (lowerBranches_blames t escape rest hrest).bind fun _ => .pure _

theorem lowerBranch_blames (t : ExtensionTable) (escape : Bool) : ∀ b : Branch,
    (∀ p ∈ b.positions, P p) → LoweringBlames P (lowerBranch t escape b)
  | ⟨_, body⟩, h => by
    apply (LoweringBlames.update _).bind
    intro _
    exact (lowerBody_blames t escape body (List.forall_mem_append.mp h).2).bind fun _ => .pure _

end

/-- An error of lowering is at a place that the tree names. -/
theorem lower_blames (o : Options) (nodes : List Node) :
    Blames (· ∈ positionsOfNodes nodes) (lower o nodes) := by
  have hbody : LoweringBlames (· ∈ positionsOfNodes nodes)
      (runSiblings o.extensions (lowerNodes o.extensions o.autoescape nodes)) :=
    lowerBody_blames _ _ nodes fun _ h => h
  exact (hbody.of_draft Draft.empty).bind fun _ => .pure _

end EmbeddedLang.Template
