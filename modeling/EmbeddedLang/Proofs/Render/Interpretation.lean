import EmbeddedLang.Proofs.Render.Lowered

/-!
A compiled tree does what the tree does.

Instructions are compared with the nodes they come from under one and the same context, so that
expressions need no proof. Contexts are equal since, by induction on the depth, what is deeper is.
-/

namespace EmbeddedLang.Render

open Template

/-! ### Runs in turn -/

section

variable {a b d : Rendering Outcome}

theorem inTurn_assoc : inTurn (inTurn a b) d = inTurn a (inTurn b d) := by
  unfold inTurn
  rw [bind_assoc]
  apply bind_congr
  intro first
  by_cases hf : first.flow = .normal
  · simp only [hf, ↓reduceIte, bind_assoc, pure_bind]
    apply bind_congr
    intro second
    by_cases hs : second.flow = .normal
    · simp [hs, String.append_assoc]
    · simp [hs]
  · simp [hf]

theorem done_inTurn (text : String) : inTurn (pure (.done text)) a = (do
    let others ← a
    return ⟨text ++ others.text, others.flow⟩) := by
  simp [inTurn, Outcome.done]

theorem empty_inTurn : inTurn (pure (.done "")) a = a := by
  simp [done_inTurn]

theorem inTurn_empty : inTurn a (pure (.done "")) = a := by
  have hkeep : inTurn a (pure (.done "")) = a >>= pure := by
    apply bind_congr
    rintro ⟨text, flow⟩
    by_cases hf : flow = .normal
    · simp [hf, Outcome.done]
    · simp [hf]
  rw [hkeep, bind_pure]

end

namespace Context

variable (c : Context)

theorem exec_cons (i : Instruction) (is : List Instruction) :
    c.exec (i :: is) = inTurn (c.step i) (c.exec is) := by
  rw [exec]
  rfl

theorem exec_singleton (i : Instruction) : c.exec [i] = c.step i := by
  rw [exec_cons, exec, inTurn_empty]

theorem exec_literalText (text : String) : c.exec (literalText text) = pure (.done text) := by
  unfold literalText
  split
  · next h => rw [exec, String.isEmpty_iff.mp h]
  · rw [exec_singleton, step]

/-- Text that is made one at a seam is written all the same. -/
theorem exec_join (is js : List Instruction) :
    c.exec (Instruction.join is js) = inTurn (c.exec is) (c.exec js) := by
  fun_induction Instruction.join is js with
  | case1 js => rw [exec, empty_inTurn]
  | case2 a b js =>
    rw [exec_singleton, exec_cons, exec_cons, ← inTurn_assoc, step, step, step, done_inTurn]
    rfl
  | case3 js i is _ ih => rw [exec_cons, exec_cons, ih, inTurn_assoc]

theorem exec_assignments (as : List Assignment) :
    c.exec (as.map fun a => .assign a.target a.op a.value) = c.assignAll as := by
  induction as with
  | nil => rw [List.map_nil, exec, assignAll]
  | cons a rest ih =>
    rw [List.map_cons, exec_cons, step, assignAll, ih]
    simp [inTurn, Outcome.done]

mutual

theorem exec_instructions (escape : Bool) : (n : Node) →
    c.exec (instructions escape n) = c.interpret escape n
  | .text _ text => by rw [instructions, interpret, exec_literalText]
  | .echo .. => by rw [instructions, interpret, exec_singleton, step]
  | .choice _ branches otherwise => by
    rw [instructions, interpret, exec_singleton, step, exec_optional escape otherwise,
      arms_branches escape branches]
  | .loop _ key name iterable filter body otherwise => by
    rw [instructions, interpret, exec_singleton, step, exec_optional escape otherwise,
      exec_nodes escape body]
  | .assignments _ as => by rw [instructions, interpret, exec_assignments]
  | .block _ name body => by
    rw [instructions, exec_singleton]
    cases ho : c.override name with
    | some other => simp only [step, interpret, ho]
    | none => simp only [step, interpret, ho, exec_nodes escape body]
  | .inclusion .. => by rw [instructions, interpret, exec_singleton, step]
  | .fragment _ key lifetime body => by
    rw [instructions, interpret, exec_singleton, step, exec_nodes escape body]
  | .autoescape _ enabled body => by rw [instructions, interpret, exec_nodes enabled body]
  | .evaluation .. => by rw [instructions, interpret, exec_singleton, step]
  | .leave _ => by rw [instructions, interpret, exec_singleton, step]
  | .proceed _ => by rw [instructions, interpret, exec_singleton, step]
  | .parent .. => by rw [instructions, interpret, exec]
  | .definition .. => by rw [instructions, interpret, exec]
  | .tag .. => by rw [instructions, interpret, exec]
  | .endTag .. => by rw [instructions, interpret, exec]

theorem exec_nodes (escape : Bool) : (ns : List Node) →
    c.exec (instructionsOfNodes escape ns) = c.interpretNodes escape ns
  | [] => by rw [instructionsOfNodes, interpretNodes, exec]
  | n :: rest => by
    rw [instructionsOfNodes, interpretNodes, exec_join, exec_instructions escape n,
      exec_nodes escape rest]

theorem exec_optional (escape : Bool) : (body : Option (List Node)) →
    c.exec (instructionsOfOptional escape body) = c.interpretOptional escape body
  | none => by rw [instructionsOfOptional, interpretOptional, exec]
  | some ns => by rw [instructionsOfOptional, interpretOptional, exec_nodes escape ns]

theorem arms_branches (escape : Bool) : (bs : List Branch) → (otherwise : Rendering Outcome) →
    c.arms (armsOf escape bs) otherwise = c.interpretBranches escape bs otherwise
  | [], otherwise => by rw [armsOf, interpretBranches, arms]
  | ⟨condition, body⟩ :: rest, otherwise => by
    rw [armsOf, armOf, interpretBranches, arms, exec_nodes escape body,
      arms_branches escape rest otherwise]

end

theorem exec_body (b : Body) : c.exec b.instructions = c.perform b := by
  cases b with
  | tree escape nodes => exact c.exec_nodes escape nodes
  | compiled is => rfl

end Context

/-! ### Programs -/

namespace Script

def program (p : Script) : Program where
  main := p.main.instructions
  macros := Dictionary.mapValues Macro.definition p.macros
  blocks := Dictionary.mapValues Body.instructions p.blocks

theorem instructions_macroBody (p : Script) (name : String) :
    (p.macroBody name).instructions = p.program.macroBody name := by
  unfold macroBody Program.macroBody program
  rw [Dictionary.get?_mapValues]
  cases Dictionary.get? name p.macros <;> rfl

theorem exec_program (p : Script) (r : Renderer) (deeper : Option Deeper) (b : Body) :
    p.program.exec r deeper b.instructions = p.perform r deeper b := by
  have hsignatures : signatures p.program.macros = Dictionary.mapValues (·.params) p.macros :=
    Dictionary.mapValues_mapValues _ _ _
  unfold Program.exec perform
  rw [hsignatures]
  dsimp only
  rw [Context.exec_body]
  -- the two contexts differ in the blocks alone, which run alike
  congr 2
  funext name
  rw [program, Dictionary.get?_mapValues, Option.map_map]
  congr 1
  funext body
  exact Context.exec_body _ body

/-- At every depth a program does what its script does. -/
theorem run_program (p : Script) (r : Renderer) (depth : Nat) (b : Body) :
    Render.run r depth p.program b.instructions = p.run r depth b := by
  induction depth generalizing b with
  | zero => rw [Render.run, run, exec_program]
  | succ depth ih =>
    rw [Render.run, run]
    simp only [exec_program, ← instructions_macroBody, ih]

end Script

/-! ### Blocks, macros and parents -/

mutual

theorem blocks_instructions (escape : Bool) : (n : Node) →
    (instructions escape n).filterMap Instruction.block? =
      Dictionary.mapValues Body.instructions (topBlocks escape n)
  | .text _ text => by
    rw [instructions, literalText]
    split <;> rfl
  | .assignments _ as => by
    rw [instructions, List.filterMap_map]
    exact List.filterMap_eq_nil_iff.mpr fun a _ => rfl
  | .autoescape _ enabled body => by rw [instructions, topBlocks, blocks_nodes enabled body]
  | .block .. | .echo .. | .choice .. | .loop .. | .inclusion .. | .fragment .. | .evaluation ..
  | .leave _ | .proceed _ | .parent .. | .definition .. | .tag .. | .endTag .. => rfl

theorem blocks_nodes (escape : Bool) : (ns : List Node) →
    (instructionsOfNodes escape ns).filterMap Instruction.block? =
      Dictionary.mapValues Body.instructions (topBlocksOfNodes escape ns)
  | [] => rfl
  | n :: rest => by
    rw [instructionsOfNodes, topBlocksOfNodes, blocks_join, blocks_instructions escape n,
      blocks_nodes escape rest]
    exact List.map_append.symm

end

section

variable {α β : Type} (f : α → β)

theorem mapValues_addMissing (d : Dictionary α) (more : List (String × α)) :
    Dictionary.mapValues f (addMissing d more) =
      addMissing (Dictionary.mapValues f d) (Dictionary.mapValues f more) := by
  induction more generalizing d with
  | nil => rfl
  | cons entry rest ih =>
    obtain ⟨name, a⟩ := entry
    have hput : Dictionary.mapValues f (Dictionary.putNew name a d) =
        Dictionary.putNew name (f a) (Dictionary.mapValues f d) := by
      unfold Dictionary.putNew
      rw [Dictionary.has_mapValues]
      split
      · rfl
      · exact Dictionary.mapValues_put f name a d
    change Dictionary.mapValues f (addMissing (Dictionary.putNew name a d) rest) = _
    rw [ih, hput]
    rfl

theorem mapValues_foldl_addMissing {γ : Type} (of : γ → Dictionary α) (ts : List γ)
    (d : Dictionary α) :
    Dictionary.mapValues f (ts.foldl (fun d t => addMissing d (of t)) d) =
      ts.foldl (fun d t => addMissing d (Dictionary.mapValues f (of t)))
        (Dictionary.mapValues f d) := by
  induction ts generalizing d with
  | nil => rfl
  | cons t rest ih => rw [List.foldl_cons, List.foldl_cons, ih, mapValues_addMissing]

end

theorem declare_eq (macros : List (String × Macro)) (d : Dictionary Macro) :
    declare macros (Dictionary.mapValues Macro.definition d) =
      Dictionary.mapValues Macro.definition (Dictionary.extend d macros) := by
  induction macros generalizing d with
  | nil => rfl
  | cons m rest ih =>
    obtain ⟨name, m⟩ := m
    change declare rest (Dictionary.put name m.definition _) = _
    rw [← Dictionary.mapValues_put, ih]
    rfl

theorem recordParents_eq (names : List String) (parent : Option String) :
    recordParents names parent = names.getLast?.or parent := by
  induction names generalizing parent with
  | nil => rfl
  | cons name rest ih =>
    change recordParents rest (some name) = _
    rw [ih, List.getLast?_cons]
    cases rest.getLast? <;> rfl

/-- What a tree is compiled to, for some record of the names that it refers to. -/
def compiledTree (escape : Bool) (nodes : List Node) (references : References) :
    CompiledTemplate where
  instructions := instructionsOfNodes escape nodes
  macros := declare (definitionsInNodes escape nodes) []
  parent := extended? nodes
  references := references

theorem lower_eq (o : Options) {nodes : List Node} (hb : ∀ n ∈ walkNodes nodes, isBuiltIn n)
    (hn : ((definitionsInNodes o.autoescape nodes).map (·.1)).Nodup) :
    ∃ references, lower o nodes = .ok (compiledTree o.autoescape nodes references) := by
  obtain ⟨references, hrun⟩ := lowers_nodes o.extensions o.autoescape nodes hb Draft.empty hn
    fun name _ => rfl
  refine ⟨references, ?_⟩
  unfold lower
  dsimp only
  rw [hrun, recordParents_eq, Draft.empty, Option.or_none]
  rfl

theorem program_ofTree (escape : Bool) (nodes : List Node) (references : References)
    (parents : List CompiledTemplate) :
    (Script.ofTree escape nodes parents).program =
      Program.ofChain (compiledTree escape nodes references) parents := by
  have hmacros (t : CompiledTemplate) :
      Dictionary.mapValues Macro.definition (Dictionary.mapValues .ofDefinition t.macros) =
        t.macros := by
    rw [Dictionary.mapValues_mapValues]
    exact List.map_id _
  have hblocks (t : CompiledTemplate) :
      Dictionary.mapValues Body.instructions (Dictionary.mapValues .compiled t.blocks) =
        t.blocks := by
    rw [Dictionary.mapValues_mapValues]
    exact List.map_id _
  unfold Script.program Script.ofTree Program.ofChain
  congr 1
  · cases parents.getLast? <;> rfl
  · rw [mapValues_foldl_addMissing, mapValues_addMissing]
    simp only [hmacros, List.foldl_cons]
    rw [Dictionary.ofList, ← declare_eq]
    rfl
  · rw [mapValues_foldl_addMissing, mapValues_addMissing]
    simp only [hblocks, List.foldl_cons]
    rw [← blocks_nodes]
    rfl

/-- Compiling keeps the meaning of a tree. Whatever stands around it, to render what it is compiled
to is to interpret it. -/
theorem renderTemplate_lower (o : Options) {nodes : List Node}
    (hb : ∀ n ∈ walkNodes nodes, isBuiltIn n)
    (hn : ((definitionsInNodes o.autoescape nodes).map (·.1)).Nodup) :
    ∃ t, lower o nodes = .ok t ∧
      ∀ r context, renderTemplate r t context = renderTree r o.autoescape nodes context := by
  obtain ⟨references, ht⟩ := lower_eq o hb hn
  refine ⟨_, ht, ?_⟩
  intro r context
  have hrun (parents : List CompiledTemplate) :
      run r r.maxDepth (Program.ofChain (compiledTree o.autoescape nodes references) parents)
        (Program.ofChain (compiledTree o.autoescape nodes references) parents).main =
      (Script.ofTree o.autoescape nodes parents).run r r.maxDepth
        (Script.ofTree o.autoescape nodes parents).main := by
    rw [← program_ofTree]
    exact Script.run_program _ r r.maxDepth _
  have hparent : (compiledTree o.autoescape nodes references).parent = extended? nodes := rfl
  unfold renderTemplate renderTree Program.ofTemplate
  apply bind_congr
  intro scope
  rw [hparent]
  cases parentsFrom r maxParents (extended? nodes) with
  | error e => rfl
  | ok parents => exact congrArg (inFreshScope scope) (hrun parents)

/-- A macro that is defined where nothing is escaped, and called where everything is. -/
def bold : List Node :=
  let x : Expr := .identifier .start "x"
  let body : List Node := [.text .start "<b>", .echo .start x false, .text .start "</b>"]
  let call : Expr := .call .start (.identifier .start "bold")
    [⟨none, .literal .start (.string "1 < 2")⟩] false
  [.autoescape .start false [.definition .start "bold" [⟨"x", none⟩] body], .echo .start call false]

theorem renderTemplate_lower_bold :
    (∀ n ∈ walkNodes bold, isBuiltIn n) ∧ ((definitionsInNodes true bold).map (·.1)).Nodup ∧
      ∃ t, lower {} bold = .ok t ∧
        renderTemplate .standard t .null = renderTree .standard true bold .null := by
  have hb : ∀ n ∈ walkNodes bold, isBuiltIn n := by
    simp [bold, walkNodes, Node.walk, isBuiltIn]
  have hn : ((definitionsInNodes true bold).map (·.1)).Nodup := by
    simp [bold, definitionsInNodes, definitions]
  obtain ⟨t, ht, hrender⟩ := renderTemplate_lower {} hb hn
  exact ⟨hb, hn, t, ht, hrender .standard .null⟩

example : (perform (renderTree .standard true bold .null) [] 0).1 = .ok "<b>1 < 2</b>" := by
  rfl

end EmbeddedLang.Render
