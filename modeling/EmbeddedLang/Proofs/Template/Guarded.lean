import EmbeddedLang.Proofs.Template.Drafting
import EmbeddedLang.Proofs.Text.Escaped

/-!
Templates that write nothing unescaped but text without special characters.

Whether a tree is of this kind is seen at each of its nodes alone. Lowering hands it down to the
instructions, those of macros and of custom directives as well.
-/

namespace EmbeddedLang.Template

/-- Whether an expression ends in a filter whose result is written as it is, whatever is in it. -/
def endsInMarkup : Expr → Bool
  | .filter _ _ name _ => name == "raw" || name == "nl2br"
  | _ => false

def Node.isGuarded : Node → Bool
  | .text _ s => s.toList.all (!Text.isSpecial ·)
  | .echo _ e raw => !raw && !endsInMarkup e.ungrouped
  | .autoescape _ enabled _ => enabled
  | _ => true

/-- The template was compiled from a guarded tree, with output escaped. -/
def CompiledTemplate.IsGuarded (t : CompiledTemplate) : Prop :=
  ∃ (extensions : ExtensionTable) (nodes : List Node),
    lower ⟨extensions, true⟩ nodes = .ok t ∧ ∀ n ∈ walkNodes nodes, n.isGuarded

def Instruction.isGuarded : Instruction → Bool
  | .literal text => Text.isEscaped text
  | .output e escape => (escape || endsInEscape e) && !endsInMarkup e.ungrouped
  | _ => true

def AllGuarded (is : List Instruction) : Prop :=
  ∀ i ∈ walkInstructions is, i.isGuarded

def MacrosGuarded (macros : Dictionary Definition) : Prop :=
  ∀ m ∈ macros, AllGuarded m.2.body

theorem allGuarded_nil : AllGuarded [] := nofun

theorem allGuarded_cons {i : Instruction} {is : List Instruction} :
    AllGuarded (i :: is) ↔ (∀ j ∈ i.walk, j.isGuarded) ∧ AllGuarded is :=
  forall_walk_cons

theorem allGuarded_singleton {i : Instruction} (h : ∀ j ∈ i.walk, j.isGuarded) : AllGuarded [i] :=
  allGuarded_cons.mpr ⟨h, allGuarded_nil⟩

theorem AllGuarded.of_mem_blocks {is : List Instruction} (h : AllGuarded is)
    {b : String × List Instruction} (hb : b ∈ is.filterMap Instruction.block?) :
    AllGuarded b.2 := by
  induction is with
  | nil => cases hb
  | cons i rest ih =>
    obtain ⟨hi, hrest⟩ := allGuarded_cons.mp h
    cases hblock : i.block? with
    | none =>
      rw [List.filterMap_cons_none hblock] at hb
      exact ih hrest hb
    | some x =>
      rw [List.filterMap_cons_some hblock] at hb
      rcases List.mem_cons.mp hb with rfl | hb
      · cases i with
        | block name body =>
          cases hblock
          exact (List.forall_mem_cons.mp hi).2
        | _ => cases hblock
      · exact ih hrest hb

theorem AllGuarded.join {is js : List Instruction} (h : AllGuarded is) (h' : AllGuarded js) :
    AllGuarded (Instruction.join is js) :=
  forall_walk_join (fun _ _ => Text.isEscaped_append) h h'

/-! ### Lowering -/

abbrev Guards {α : Type} (run : Lowering α) (post : α → Prop) : Prop :=
  Drafts (fun m => AllGuarded m.body) run post

theorem gathers_allGuarded : Gathers AllGuarded where
  nil := allGuarded_nil
  join _ _ his hjs := his.join hjs
  inline _ _ := allGuarded_singleton (List.forall_mem_cons.mpr ⟨rfl, nofun⟩)
  block _ _ _ his := allGuarded_singleton (List.forall_mem_cons.mpr ⟨rfl, his⟩)

theorem allGuarded_assignments (as : List Assignment) :
    AllGuarded (as.map fun a => .assign a.target a.op a.value) := by
  induction as with
  | nil => exact allGuarded_nil
  | cons a rest ih => exact allGuarded_cons.mpr ⟨List.forall_mem_cons.mpr ⟨rfl, nofun⟩, ih⟩

/-! ### One lemma for each kind of node -/

def ArmsGuarded (arms : List Arm) : Prop :=
  ∀ i ∈ walkArms arms, i.isGuarded

theorem allGuarded_literalText {text : String} (h : text.toList.all (!Text.isSpecial ·)) :
    AllGuarded (literalText text) := by
  unfold literalText
  split
  · exact allGuarded_nil
  · apply allGuarded_singleton
    intro j hj
    cases List.mem_singleton.mp hj
    apply Text.isEscapedFrom_of_plain
    simpa using h

theorem isGuarded_output {e : Expr} {raw : Bool} (h : !raw && !endsInMarkup e.ungrouped) :
    (Instruction.output e (true && !raw && !endsInEscape e)).isGuarded := by
  simp only [Bool.and_eq_true, Bool.not_eq_true'] at h
  simp [Instruction.isGuarded, h]

theorem allGuarded_leaf {i : Instruction} (hw : i.walk = [i]) (h : i.isGuarded) :
    AllGuarded [i] := by
  apply allGuarded_singleton
  rw [hw]
  intro j hj
  cases List.mem_singleton.mp hj
  exact h

mutual

theorem guards_node (t : ExtensionTable) : (n : Node) → (∀ m ∈ n.walk, m.isGuarded) →
    (lowerNode t true n).Drafts (fun m => AllGuarded m.body) AllGuarded
  | .text .., h => .pure (allGuarded_literalText (h _ (List.mem_singleton_self _)))
  | .echo _ e raw, h =>
    (Drafts.note e).bind fun _ _ =>
      .pure (allGuarded_leaf rfl (isGuarded_output (h _ (List.mem_singleton_self _))))
  | .choice _ branches otherwise, h => by
    have hb := guards_branches t branches fun m hm => h m (by simp [Node.walk, hm])
    have ho := guards_optional t otherwise fun m hm => h m (by simp [Node.walk, hm])
    refine hb.bind fun arms harms => ho.bind fun is his => .pure ?_
    exact allGuarded_singleton
      (List.forall_mem_cons.mpr ⟨rfl, List.forall_mem_append.mpr ⟨harms, his⟩⟩)
  | .loop _ key name iterable filter body otherwise, h => by
    have hb := guards_nodes t body fun m hm => h m (by simp [Node.walk, hm])
    have ho := guards_optional t otherwise fun m hm => h m (by simp [Node.walk, hm])
    refine (Drafts.note iterable).bind fun _ _ => (Drafts.notes filter.toList).bind fun _ _ => ?_
    refine hb.bind fun is his => ho.bind fun js hjs => .pure ?_
    exact allGuarded_singleton
      (List.forall_mem_cons.mpr ⟨rfl, List.forall_mem_append.mpr ⟨his, hjs⟩⟩)
  | .assignments _ as, _ => by
    refine (Drafts.assignments as).imp ?_
    rintro _ rfl
    exact allGuarded_assignments as
  | .block _ name body, h => by
    have hb := guards_nodes t body fun m hm => h m (by simp [Node.walk, hm])
    exact hb.bind fun is his => .pure (allGuarded_singleton (List.forall_mem_cons.mpr ⟨rfl, his⟩))
  | .parent _ name, _ =>
    (Drafts.update (f := fun d => { d with parent := some name }) fun _ hd => hd).bind fun _ _ =>
      .pure allGuarded_nil
  | .inclusion _ template context, _ =>
    (Drafts.note template).bind fun _ _ => (Drafts.noteInclude template).bind fun _ _ =>
      (Drafts.notes context.toList).bind fun _ _ => .pure (allGuarded_leaf rfl rfl)
  | .definition position name params body, h => by
    have hb := guards_nodes t body fun m hm => h m (by simp [Node.walk, hm])
    refine (hb.define position name params fun _ his => his).imp ?_
    rintro _ rfl
    exact allGuarded_nil
  | .fragment _ key lifetime body, h => by
    have hb := guards_nodes t body fun m hm => h m (by simp [Node.walk, hm])
    refine (Drafts.note key).bind fun _ _ => hb.bind fun is his => .pure ?_
    exact allGuarded_singleton (List.forall_mem_cons.mpr ⟨rfl, his⟩)
  | .autoescape _ enabled body, h => by
    have henabled : enabled = true := h _ List.mem_cons_self
    subst henabled
    exact guards_nodes t body fun m hm => h m (by simp [Node.walk, hm])
  | .evaluation _ e, _ => (Drafts.note e).bind fun _ _ => .pure (allGuarded_leaf rfl rfl)
  | .leave _, _ => .pure (allGuarded_leaf rfl rfl)
  | .proceed _, _ => .pure (allGuarded_leaf rfl rfl)
  | .tag .., _ => trivial
  | .endTag .., _ => trivial

theorem lowerNodes_guarded (t : ExtensionTable) : (ns : List Node) →
    (∀ m ∈ walkNodes ns, m.isGuarded) →
      ∀ s ∈ lowerNodes t true ns, s.Drafts (fun m => AllGuarded m.body) AllGuarded
  | [], _ => nofun
  | n :: rest, h => by
    obtain ⟨hn, hrest⟩ := List.forall_mem_append.mp h
    exact List.forall_mem_cons.mpr ⟨guards_node t n hn, lowerNodes_guarded t rest hrest⟩

theorem guards_nodes (t : ExtensionTable) (ns : List Node) (h : ∀ m ∈ walkNodes ns, m.isGuarded) :
    Guards (runSiblings t (lowerNodes t true ns)) AllGuarded :=
  gathers_allGuarded.siblings t _ (lowerNodes_guarded t ns h)

theorem guards_optional (t : ExtensionTable) : (body : Option (List Node)) →
    (∀ m ∈ walkOptional body, m.isGuarded) → Guards (lowerOptional t true body) AllGuarded
  | none, _ => .pure allGuarded_nil
  | some ns, h => guards_nodes t ns h

theorem guards_branches (t : ExtensionTable) : (bs : List Branch) →
    (∀ m ∈ walkBranches bs, m.isGuarded) → Guards (lowerBranches t true bs) ArmsGuarded
  | [], _ => .pure nofun
  | b :: rest, h => by
    obtain ⟨hb, hrest⟩ := List.forall_mem_append.mp h
    refine (guards_branch t b hb).bind fun arm harm => ?_
    refine (guards_branches t rest hrest).bind fun arms harms => .pure ?_
    exact List.forall_mem_append.mpr ⟨harm, harms⟩

theorem guards_branch (t : ExtensionTable) : (b : Branch) → (∀ m ∈ b.walk, m.isGuarded) →
    Guards (lowerBranch t true b) fun arm => ∀ i ∈ arm.walk, i.isGuarded
  | ⟨condition, body⟩, h =>
    (Drafts.note condition).bind fun _ _ => (guards_nodes t body h).bind fun is his => .pure his

end

theorem CompiledTemplate.IsGuarded.guarded {t : CompiledTemplate} (h : t.IsGuarded) :
    AllGuarded t.instructions ∧ MacrosGuarded t.macros := by
  obtain ⟨extensions, nodes, ht, hnodes⟩ := h
  exact (guards_nodes extensions nodes hnodes).of_lower ht

end EmbeddedLang.Template
