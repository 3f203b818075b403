import EmbeddedLang.Proofs.Render.Interpretation
import EmbeddedLang.Proofs.Render.Unrolled
import EmbeddedLang.Proofs.Template.Settling

/-!
Blocks do what stands for them, as if it were written in their place.
-/

namespace EmbeddedLang.Render

open Template

namespace Context

theorem exec_append (c : Context) (is js : List Instruction) :
    c.exec (is ++ js) = inTurn (c.exec is) (c.exec js) := by
  induction is with
  | nil => rw [List.nil_append, exec, empty_inTurn]
  | cons i rest ih => rw [List.cons_append, exec_cons, exec_cons, ih, inTurn_assoc]

variable (s : Surroundings) (bodies : String → Option (List Instruction))

mutual

theorem step_settle : (i : Instruction) →
    (plain s).exec (i.settle bodies) = (replacing s bodies).step i
  | .choice branches otherwise => by
    rw [Instruction.settle, exec_singleton, step, step, exec_settle otherwise,
      arms_settle branches]
  | .loop _ _ _ _ body otherwise => by
    rw [Instruction.settle, exec_singleton, step, step, exec_settle body, exec_settle otherwise]
    simp only [kept_override s _ (replacing s bodies).override]
    rfl
  | .block name body => by
    rw [Instruction.settle, step]
    change _ = match (bodies name).map (plain s).exec with
      | some other => other
      | none => (replacing s bodies).exec body
    cases bodies name with
    | none => exact exec_settle body
    | some other => rfl
  | .fragment _ _ body => by
    rw [Instruction.settle, exec_singleton, step, step, exec_settle body]
    rfl
  | .extension _ _ none => by
    rw [Instruction.settle, exec_singleton, settleBody, step, step, optional, optional,
      custom_override s _ (replacing s bodies).override]
  | .extension _ _ (some body) => by
    rw [Instruction.settle, exec_singleton, settleBody, step, step, optional, optional,
      exec_settle body, custom_override s _ (replacing s bodies).override]
  | .literal _ | .leave | .proceed => by rw [Instruction.settle, exec_singleton, step, step]
  | .output .. | .assign .. | .evaluate _ | .inclusion .. => by
    rw [Instruction.settle, exec_singleton, step, step]
    rfl

theorem exec_settle : (is : List Instruction) →
    (plain s).exec (settleInstructions bodies is) = (replacing s bodies).exec is
  | [] => by rw [settleInstructions, exec, exec]
  | i :: rest => by
    rw [settleInstructions, exec_append, step_settle i, exec_settle rest, exec_cons]

theorem arms_settle : (branches : List Arm) → (otherwise : Rendering Outcome) →
    (plain s).arms (settleArms bodies branches) otherwise =
      (replacing s bodies).arms branches otherwise
  | [], _ => by rw [settleArms, arms, arms]
  | ⟨_, body⟩ :: rest, otherwise => by
    rw [settleArms, Arm.settle, arms, arms, exec_settle body, arms_settle rest otherwise]
    rfl

end

end Context

/-! ### Chains of templates -/

/-- The body of a block in the first template that has it at its top level. -/
def nearestBlock (chain : List CompiledTemplate) (name : String) : Option (List Instruction) :=
  chain.findSome? fun t => t.blocks.lookup name

/-- A macro in the first template that defines it. -/
def nearestMacro (chain : List CompiledTemplate) (name : String) : Option Definition :=
  chain.findSome? fun t => Dictionary.get? name t.macros

section

variable {first : CompiledTemplate} {parents : List CompiledTemplate}

theorem get?_blocks_ofChain (name : String) :
    Dictionary.get? name (Program.ofChain first parents).blocks =
      nearestBlock (first :: parents) name :=
  (get?_foldl_addMissing _ _ name []).trans Option.none_or

theorem get?_macros_ofChain (name : String) :
    Dictionary.get? name (Program.ofChain first parents).macros =
      nearestMacro (first :: parents) name :=
  (get?_foldl_addMissing _ _ name []).trans Option.none_or

theorem sorted_macros_ofChain : (Program.ofChain first parents).macros.Sorted :=
  sorted_foldl_addMissing _ _ List.Pairwise.nil

theorem exec_ofChain (r : Renderer) (deeper : Option Deeper) (is : List Instruction) :
    (Program.ofChain first parents).exec r deeper is =
      (Context.replacing ⟨r, signatures (Program.ofChain first parents).macros, deeper⟩
        (nearestBlock (first :: parents))).exec is := by
  rw [Program.exec_eq]
  simp only [get?_blocks_ofChain]

end

/-- A template that extends nothing, and has what stands for the blocks of a chain's last template
in their place. Macros are those of the first templates that have them, their blocks settled too. -/
structure StandsFor (u first : CompiledTemplate)
    (parents : List CompiledTemplate) : Prop where
  parent : u.parent = none
  instructions : u.instructions = settleInstructions (nearestBlock (first :: parents))
    (parents.getLast?.getD first).instructions
  macros : ∀ name, Dictionary.get? name u.macros =
    (nearestMacro (first :: parents) name).map (Definition.settle (nearestBlock (first :: parents)))

section

variable {u first : CompiledTemplate} {parents : List CompiledTemplate}

/-- What a compiled template has for a block has no blocks in it. -/
theorem blocks_nearestBlock {chain : List CompiledTemplate} (h : ∀ t ∈ chain, t.IsCompiled)
    (name : String) (body : List Instruction) (hbody : nearestBlock chain name = some body) :
    body.filterMap Instruction.block? = [] := by
  obtain ⟨t, ht, hbody⟩ := List.exists_of_findSome?_eq_some hbody
  exact (h t ht).blocks_of_mem (Dictionary.mem_of_get? hbody)

theorem StandsFor.blocks (h : StandsFor u first parents)
    (hchain : ∀ t ∈ first :: parents, t.IsCompiled) : u.blocks = [] := by
  rw [CompiledTemplate.blocks, h.instructions,
    blocks_settleInstructions (blocks_nearestBlock hchain)]

theorem StandsFor.macros_eq (h : StandsFor u first parents) :
    (Program.ofChain u []).macros =
      Dictionary.mapValues (Definition.settle (nearestBlock (first :: parents)))
        (Program.ofChain first parents).macros := by
  apply sorted_macros_ofChain.ext (sorted_macros_ofChain.mapValues _)
  intro name
  rw [get?_macros_ofChain, Dictionary.get?_mapValues, get?_macros_ofChain, ← h.macros]
  rw [nearestMacro, List.findSome?_singleton]

theorem StandsFor.exec_eq (h : StandsFor u first parents)
    (hchain : ∀ t ∈ first :: parents, t.IsCompiled) (r : Renderer) (deeper : Option Deeper)
    (is : List Instruction) :
    (Program.ofChain u []).exec r deeper
        (settleInstructions (nearestBlock (first :: parents)) is) =
      (Program.ofChain first parents).exec r deeper is := by
  have hnone : nearestBlock [u] = fun _ => none := by
    funext name
    rw [nearestBlock, List.findSome?_singleton, h.blocks hchain, List.lookup_nil]
  have hsignatures : signatures (Program.ofChain u []).macros =
      signatures (Program.ofChain first parents).macros := by
    rw [h.macros_eq]
    exact Dictionary.mapValues_mapValues _ _ _
  rw [exec_ofChain, exec_ofChain, hnone, hsignatures]
  exact Context.exec_settle _ _ is

theorem StandsFor.run_eq (h : StandsFor u first parents)
    (hchain : ∀ t ∈ first :: parents, t.IsCompiled) (r : Renderer) (depth : Nat)
    (is : List Instruction) :
    run r depth (Program.ofChain first parents) is = run r depth (Program.ofChain u [])
      (settleInstructions (nearestBlock (first :: parents)) is) := by
  let settled (is is' : List Instruction) : Prop :=
    is' = settleInstructions (nearestBlock (first :: parents)) is
  refine run_congr (S := settled) ?_ ?_ depth rfl
  · rintro deeper is _ rfl
    exact (h.exec_eq hchain r deeper is).symm
  · intro name
    unfold Program.macroBody
    rw [h.macros_eq, Dictionary.get?_mapValues]
    cases Dictionary.get? name (Program.ofChain first parents).macros <;> rfl

theorem StandsFor.renderTemplate_eq (h : StandsFor u first parents)
    (hchain : ∀ t ∈ first :: parents, t.IsCompiled) {r : Renderer}
    (hparents : parentsFrom r maxParents first.parent = .ok parents) (context : Value) :
    renderTemplate r first context = renderTemplate r u context := by
  have hu : parentsFrom r maxParents u.parent = .ok [] := by
    rw [h.parent]
    rfl
  have hmain : (Program.ofChain u []).main = settleInstructions (nearestBlock (first :: parents))
      (Program.ofChain first parents).main := h.instructions
  unfold renderTemplate Program.ofTemplate
  rw [hparents, hu]
  refine liftResult_bind_congr fun scope _ => ?_
  have hrun := h.run_eq hchain r r.maxDepth (Program.ofChain first parents).main
  rw [← hmain] at hrun
  exact congrArg (inFreshScope scope) hrun

end

/-! ### Templates that extend nothing -/

theorem standsFor_settle {t : CompiledTemplate} (hparent : t.parent = none) :
    StandsFor (t.settle (firstBlock t)) t [] := by
  have hnearest : nearestBlock [t] = firstBlock t :=
    funext fun _ => List.findSome?_singleton
  refine ⟨hparent, ?_, fun name => ?_⟩
  · rw [hnearest]
    rfl
  · rw [hnearest, nearestMacro, List.findSome?_singleton]
    exact Dictionary.get?_mapValues _ name t.macros

/-- Where nothing is extended, each block renders as the first one of its name at the top level
would in its place, or as its own body if there is none. So all render as their own bodies as long
as those of one name, with one at the top level, agree. -/
theorem block_renders_in_place {t : CompiledTemplate} (ht : t.IsCompiled)
    (hparent : t.parent = none) (r : Renderer) (context : Value) :
    renderTemplate r t context = renderTemplate r (t.settle (firstBlock t)) context ∧
      ((∀ i ∈ walkInstructions t.instructions, i.GivenOwn (firstBlock t)) →
        (∀ m ∈ t.macros, ∀ i ∈ walkInstructions m.2.body, i.GivenOwn (firstBlock t)) →
        renderTemplate r t context = renderTemplate r (t.settle fun _ => none) context) := by
  have hparents : parentsFrom r maxParents t.parent = .ok [] := by
    rw [hparent]
    rfl
  have hchain : ∀ u ∈ [t], u.IsCompiled := by
    rintro u (_ | ⟨_, ⟨⟩⟩)
    exact ht
  have hfirst := (standsFor_settle hparent).renderTemplate_eq hchain hparents context
  refine ⟨hfirst, fun hmain hmacros => ?_⟩
  rw [hfirst, ht.settle_own hmain hmacros]

/-- Blocks of different names, one of them in a macro and one in a loop. -/
def apart : String :=
  "\x7b% macro m() %\x7d\x7b% block b %\x7d2\x7b% endblock %\x7d\x7b% endmacro %\x7d"
    ++ "\x7b% for x in [1, 2] %\x7d\x7b% block c %\x7d\x7b\x7b x \x7d\x7d\x7b% endblock %\x7d"
    ++ "\x7b% endfor %\x7d\x7b% block a %\x7d1\x7b% endblock %\x7d\x7b\x7b m() \x7d\x7d"

theorem block_renders_in_place_apart :
    ∃ t, Template.compile {} apart = .ok t ∧ t.parent = none ∧
      (t.declared.map (·.1)) = ["c", "a", "b"] ∧ renderTemplate .standard t .null =
        renderTemplate .standard (t.settle fun _ => none) .null := by
  have hs : (Template.compile {} apart).toOption.any fun t => t.parent.isNone &&
      (t.declared.map (·.1)) == ["c", "a", "b"] := by
    decide +kernel
  obtain ⟨t, ht, hs⟩ := exists_ok_of_any hs
  obtain ⟨hparent, hnames⟩ := Bool.and_eq_true_iff.mp hs
  have hparent : t.parent = none := Option.isNone_iff_eq_none.mp hparent
  have hnames : t.declared.map (·.1) = ["c", "a", "b"] := eq_of_beq hnames
  have hnodup : (t.declared.map (·.1)).Nodup := by
    rw [hnames]
    decide
  have hboth := block_renders_in_place ⟨_, _, ht⟩ hparent .standard .null
  exact ⟨t, ht, hparent, hnames, hboth.2 (fun _ hi => givenOwn_of_nodup hnodup (.inl hi))
    fun m hm _ hi => givenOwn_of_nodup hnodup (.inr ⟨m, hm, hi⟩)⟩

/-- Two blocks of one name. -/
def redeclared : String :=
  "\x7b% block a %\x7d1\x7b% endblock %\x7d\x7b% block a %\x7d2\x7b% endblock %\x7d"

/-- The second one renders as the first one. -/
theorem redeclared_not_own :
    ∃ t, Template.compile {} redeclared = .ok t ∧ t.parent = none ∧
      (perform (renderTemplate .standard t .null) [] 0).1 = .ok "11" ∧
      (perform (renderTemplate .standard (t.settle fun _ => none) .null) [] 0).1 = .ok "12" := by
  have hs : (Template.compile {} redeclared).toOption.any fun t => t.parent.isNone &&
      ((perform (renderTemplate .standard t .null) [] 0).1.toOption.any (· == "11") &&
        (perform (renderTemplate .standard (t.settle fun _ => none) .null) [] 0).1.toOption.any
          (· == "12")) := by
    decide +kernel
  obtain ⟨t, ht, hs⟩ := exists_ok_of_any hs
  obtain ⟨hparent, hs⟩ := Bool.and_eq_true_iff.mp hs
  obtain ⟨hfirst, hown⟩ := Bool.and_eq_true_iff.mp hs
  obtain ⟨_, hfirst, htext⟩ := exists_ok_of_any hfirst
  obtain ⟨_, hown, htext'⟩ := exists_ok_of_any hown
  cases eq_of_beq htext
  cases eq_of_beq htext'
  exact ⟨t, ht, Option.isNone_iff_eq_none.mp hparent, hfirst, hown⟩

end EmbeddedLang.Render
