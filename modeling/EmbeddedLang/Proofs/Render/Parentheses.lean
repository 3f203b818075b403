import EmbeddedLang.Proofs.Render.Interpretation
import EmbeddedLang.Proofs.Render.Unrolled
import EmbeddedLang.Proofs.Template.Parentheses

/-!
Parentheses change nothing in what is rendered, but around the name of a macro that an escaped
output calls.

What is run is compared with what is run without them under one and the same context.
-/

namespace EmbeddedLang.Render

open Template

namespace Surroundings

variable (c : Surroundings)

mutual

theorem find?_bare : (e : Expr) → c.find? e.bare = c.find? e
  | .literal .. | .identifier .. | .placeholder .. | .star .. | .qualifiedStar .. | .between ..
  | .isNull .. | .cases .. | .cast .. | .existence .. | .subquery .. => by rw [Expr.bare]
  | .unary _ op e => by rw [Expr.bare, find?, find?, find?_bare e]
  | .binary _ op left right => by
    rw [Expr.bare, find?, find?, find?_bare left, find?_bare right]
  | .call _ callee args _ => by
    have hcall (args : Rendering Arguments) : c.call callee.bare args = c.call callee args := by
      unfold call
      rw [Expr.ungrouped_bare, Expr.identifier?_bare]
    rw [Expr.bare, find?, find?, elements_bare args, hcall]
  | .member _ e property => by rw [Expr.bare, find?, find?, find?_bare e]
  | .index _ e subscript => by
    rw [Expr.bare, find?, find?, find?_bare e, find?_bare subscript]
  | .slice _ e first last => by
    rw [Expr.bare, find?, find?, find?_bare e, sliceBound_bare first, sliceBound_bare last]
  | .list _ items => by rw [Expr.bare, find?, find?, elements_bare items]
  | .grouped _ inner => by rw [Expr.bare, find?, find?_bare inner]
  | .conditional _ condition yes no => by
    rw [Expr.bare, find?, find?, find?_bare condition, find?_bare yes, find?_bare no]
  | .filter _ e name args => by
    rw [Expr.bare, find?, find?, find?_bare e, elements_bare args]
  | .defined _ e negated => by rw [Expr.bare, find?, find?, find?_bare e]
  | .test _ e name args negated => by
    rw [Expr.bare, find?, find?, find?_bare e, elements_bare args]

theorem elements_bare : (items : List Item) → c.elements (bareItems items) = c.elements items
  | [] => rfl
  | item :: rest => by rw [bareItems, elements, elements, element_bare item, elements_bare rest]

theorem element_bare : (item : Item) → c.element item.bare = c.element item
  | ⟨label, e⟩ => by rw [Item.bare, element, element, find?_bare e]

theorem sliceBound_bare : (e : Option Expr) → c.sliceBound (bareOption e) = c.sliceBound e
  | none => rfl
  | some e => by rw [bareOption, sliceBound, sliceBound, find?_bare e]

end

theorem value_bare (e : Expr) : c.value e.bare = c.value e := by
  rw [value, value, find?_bare]

theorem find?_ungrouped (e : Expr) : c.find? e.ungrouped = c.find? e := by
  rw [← find?_bare, Expr.bare_ungrouped, find?_bare]

theorem value_bareOutput (e : Expr) : c.value e.bareOutput = c.value e := by
  unfold Expr.bareOutput
  split
  · next p q callee args distinct he =>
    have hcall (f : Rendering Arguments) :
        c.call (.grouped callee.ungrouped.position callee.bare) f = c.call (.grouped q callee) f := by
      unfold call
      rw [Expr.ungrouped, Expr.ungrouped, Expr.ungrouped_bare, Expr.identifier?_bare]
    rw [value, value, ← c.find?_ungrouped e, he, find?, find?, elements_bare, hcall]
  · exact c.value_bare e

/-- Whether an output is safe depends on whether parentheses hide what it calls, and on no others. -/
theorem isSafe_bareOutput (e : Expr) : c.isSafe e.bareOutput = c.isSafe e := by
  have hbare : e.bare = e.ungrouped.bare := e.bare_ungrouped.symm
  unfold isSafe Expr.bareOutput
  rw [hbare]
  cases he : e.ungrouped with
  | grouped p inner => exact absurd he (e.ungrouped_ne_grouped p inner)
  | call p callee args distinct =>
    cases callee with
    | grouped q inner => rfl
    | _ => simp only [Expr.bare, Expr.ungrouped, Expr.identifier?]
  | _ => simp only [Expr.bare, Expr.ungrouped]

theorem isSafe_of_endsInEscape {e : Expr} (h : endsInEscape e) : c.isSafe e := by
  cases e with
  | filter p subject name args =>
    have hname : name = "e" ∨ name = "escape" := by simpa [endsInEscape] using h
    rcases hname with rfl | rfl <;> rfl
  | _ => cases h

end Surroundings

namespace Context

variable (c : Context)

theorem output_bare (e : Expr) : c.output e.bare false = c.output e false := by
  unfold output value
  rw [Surroundings.value_bare]
  rfl

/-- An expression that ends in an escaping filter is safe already. -/
theorem output_bareOutput (e : Expr) :
    c.output e.bareOutput (!endsInEscape e.bareOutput) = c.output e true := by
  unfold output value
  rw [Surroundings.value_bareOutput, Surroundings.isSafe_bareOutput]
  cases h : endsInEscape e.bareOutput with
  | false => rfl
  | true =>
    have hsafe := c.isSafe_of_endsInEscape h
    rw [Surroundings.isSafe_bareOutput] at hsafe
    rw [hsafe]
    rfl

theorem kept_bare (key : Option String) (name : String) (filter : Option Expr)
    (found more : List (Value × Value)) :
    c.kept key name (bareOption filter) found more = c.kept key name filter found more := by
  have hkeeps (scope : Scope) : c.keeps (bareOption filter) scope = c.keeps filter scope := by
    cases filter with
    | none => rfl
    | some e => rw [bareOption, keeps, keeps, value, value, Surroundings.value_bare]
  induction more generalizing found with
  | nil => rfl
  | cons entry rest ih =>
    rw [kept, kept, hkeeps]
    simp only [ih]

theorem inclusion_bare (template : Expr) (context : Option Expr) :
    c.inclusion template.bare (bareOption context) = c.inclusion template context := by
  unfold inclusion value
  rw [Surroundings.value_bare]
  cases context with
  | none => rfl
  | some e =>
    rw [bareOption]
    simp only [Surroundings.value_bare]

theorem custom_bare (name : String) (args : List Expr) (body : Option (Rendering Outcome)) :
    c.custom name (args.map Expr.bare) body = c.custom name args body := by
  have hvalues : c.values (args.map Expr.bare) = c.values args := by
    induction args with
    | nil => rfl
    | cons e rest ih => rw [List.map_cons, values, values, value, value, Surroundings.value_bare, ih]
  unfold custom
  rw [hvalues]

mutual

theorem step_bare : (i : Instruction) → c.step i.bare = c.step i
  | .literal _ | .leave | .proceed => by rw [Instruction.bare]
  | .output e true => by rw [Instruction.bare, step, step, output_bareOutput]
  | .output e false => by rw [Instruction.bare, step, step, output_bare]
  | .choice branches otherwise => by
    rw [Instruction.bare, step, step, exec_bare otherwise, arms_bare branches]
  | .loop key name iterable filter body otherwise => by
    rw [Instruction.bare, step, step, exec_bare body, exec_bare otherwise]
    simp only [value, Surroundings.value_bare, kept_bare]
  | .assign name op e => by
    rw [Instruction.bare, step, step, assignTo, assignTo, value, value, Surroundings.value_bare]
  | .evaluate e => by
    rw [Instruction.bare, step, step, value, value, Surroundings.value_bare]
  | .block name body => by
    rw [Instruction.bare, step, step, exec_bare body]
  | .inclusion template context => by
    rw [Instruction.bare, step, step, inclusion_bare]
  | .fragment key lifetime body => by
    rw [Instruction.bare, step, step, exec_bare body, cached, cached, value, value,
      Surroundings.value_bare]
  | .extension name args none => by
    rw [Instruction.bare, bareBody, step, step, custom_bare]
  | .extension name args (some body) => by
    rw [Instruction.bare, bareBody, step, step, custom_bare, optional, optional, exec_bare body]

theorem exec_bare : (is : List Instruction) → c.exec (bareInstructions is) = c.exec is
  | [] => rfl
  | i :: rest => by rw [bareInstructions, exec, exec, step_bare i, exec_bare rest]

theorem arms_bare : (arms : List Arm) → (otherwise : Rendering Outcome) →
    c.arms (bareArms arms) otherwise = c.arms arms otherwise
  | [], _ => rfl
  | ⟨condition, body⟩ :: rest, otherwise => by
    rw [bareArms, Arm.bare, arms, arms, exec_bare body, arms_bare rest otherwise, value, value,
      Surroundings.value_bare]

end

end Context

/-! ### Programs -/

def Program.bare (p : Program) : Program where
  main := bareInstructions p.main
  macros := Dictionary.mapValues Definition.bare p.macros
  blocks := Dictionary.mapValues bareInstructions p.blocks

theorem Program.macroBody_bare (p : Program) (name : String) :
    p.bare.macroBody name = bareInstructions (p.macroBody name) := by
  unfold Program.macroBody Program.bare
  rw [Dictionary.get?_mapValues]
  cases Dictionary.get? name p.macros <;> rfl

theorem Program.exec_bare (p : Program) (r : Renderer) (deeper : Option Deeper)
    (is : List Instruction) : p.bare.exec r deeper (bareInstructions is) = p.exec r deeper is := by
  have hsignatures : signatures p.bare.macros = signatures p.macros :=
    Dictionary.mapValues_mapValues _ _ _
  unfold Program.exec
  dsimp only
  rw [hsignatures, Context.exec_bare]
  -- the two contexts differ in the blocks alone, which run alike
  congr 2
  funext name
  rw [Program.bare, Dictionary.get?_mapValues, Option.map_map]
  congr 1
  funext body
  exact Context.exec_bare _ body

theorem run_bare (p : Program) (r : Renderer) (depth : Nat) (is : List Instruction) :
    run r depth p is = run r depth p.bare (bareInstructions is) := by
  refine run_congr (S := fun is is' => is' = bareInstructions is) ?_ p.macroBody_bare depth rfl
  rintro deeper is _ rfl
  exact (p.exec_bare r deeper is).symm

theorem bare_ofChain {t u : CompiledTemplate} (h : t.SameBare u) (parents : List CompiledTemplate) :
    (Program.ofChain t parents).bare = (Program.ofChain u parents).bare := by
  have hblocks : Dictionary.mapValues bareInstructions t.blocks =
      Dictionary.mapValues bareInstructions u.blocks := by
    unfold CompiledTemplate.blocks
    rw [← blocks_bare, ← blocks_bare, h.instructions]
  unfold Program.bare Program.ofChain
  congr 1
  · cases parents.getLast? with
    | none => exact h.instructions
    | some root => rfl
  · rw [mapValues_foldl_addMissing, mapValues_foldl_addMissing, List.foldl_cons, List.foldl_cons,
      h.macros]
  · rw [mapValues_foldl_addMissing, mapValues_foldl_addMissing, List.foldl_cons, List.foldl_cons,
      hblocks]

theorem renderTemplate_sameBare {t u : CompiledTemplate} (h : t.SameBare u) (r : Renderer)
    (context : Value) : renderTemplate r t context = renderTemplate r u context := by
  unfold renderTemplate Program.ofTemplate
  rw [h.parent]
  refine liftResult_bind_congr fun scope _ => ?_
  cases parentsFrom r maxParents u.parent with
  | error e => rfl
  | ok parents =>
    have hmain : bareInstructions (Program.ofChain t parents).main =
        bareInstructions (Program.ofChain u parents).main :=
      congrArg Program.main (bare_ofChain h parents)
    have hrun : run r r.maxDepth (Program.ofChain t parents) (Program.ofChain t parents).main =
        run r r.maxDepth (Program.ofChain u parents) (Program.ofChain u parents).main := by
      rw [run_bare, run_bare (Program.ofChain u parents), bare_ofChain h, hmain]
    exact congrArg (inFreshScope scope) hrun

/-- Trees that differ in parentheses are both refused, for the same reason, or both compiled to
templates that render alike. Only those around what an escaped output calls have to be the same. -/
theorem rendering_ignores_parentheses (o : Options) {nodes nodes' : List Node}
    (h : bareNodes o.autoescape nodes = bareNodes o.autoescape nodes') :
    Agree Eq (fun t u => ∀ r context, renderTemplate r t context = renderTemplate r u context)
      (lower o nodes) (lower o nodes') :=
  (lower_sameBare o h).imp (fun _ _ => id) fun _ _ hsame => renderTemplate_sameBare hsame

/-- A macro that is called with a number in parentheses. -/
def wrapped (wrap : Expr → Expr) : List Node :=
  let call : Expr := .call .start (.identifier .start "m")
    [⟨none, wrap (.literal .start (.integer 1))⟩] false
  [.definition .start "m" [⟨"x", none⟩] [.echo .start (wrap (.identifier .start "x")) false],
    .echo .start (wrap (.filter .start (wrap call) "e" [])) false]

theorem rendering_ignores_parentheses_wrapped :
    bareNodes true (wrapped (.grouped .start)) = bareNodes true (wrapped id) ∧
      ∃ t u, lower {} (wrapped (.grouped .start)) = .ok t ∧ lower {} (wrapped id) = .ok u ∧
        renderTemplate .standard t .null = renderTemplate .standard u .null := by
  have h : bareNodes true (wrapped (.grouped .start)) = bareNodes true (wrapped id) := by
    rfl
  have hboth := rendering_ignores_parentheses {} h
  have hok : (lower {} (wrapped id)).toOption.isSome := by
    decide +kernel
  obtain ⟨u, hu⟩ := exists_ok_of_isSome hok
  rw [hu] at hboth
  generalize ht : lower {} (wrapped (.grouped .start)) = result at hboth
  cases hboth with
  | ok hsame => exact ⟨h, _, u, rfl, hu, hsame .standard .null⟩

/-- A macro whose name stands in parentheses where it is called. -/
def veiled : String :=
  "\x7b% macro b() %\x7d<b>\x7b% endmacro %\x7d\x7b\x7b (b)() \x7d\x7d"

/-- The output of that macro is escaped, and is not where all parentheses are erased. -/
theorem veiled_not_same :
    ∃ nodes t u, Template.parse veiled = .ok nodes ∧ lower {} nodes = .ok t ∧
      lower {} (bareNodes false nodes) = .ok u ∧
      (perform (renderTemplate .standard t .null) [] 0).1 = .ok "&lt;b&gt;" ∧
      (perform (renderTemplate .standard u .null) [] 0).1 = .ok "<b>" := by
  have hs : (Template.parse veiled).toOption.any fun nodes =>
      (lower {} nodes).toOption.any fun t =>
        (lower {} (bareNodes false nodes)).toOption.any fun u =>
          ((perform (renderTemplate .standard t .null) [] 0).1.toOption.any (· == "&lt;b&gt;")) &&
            ((perform (renderTemplate .standard u .null) [] 0).1.toOption.any (· == "<b>")) := by
    decide +kernel
  obtain ⟨nodes, hparse, hs⟩ := exists_ok_of_any hs
  obtain ⟨t, ht, hs⟩ := exists_ok_of_any hs
  obtain ⟨u, hu, hs⟩ := exists_ok_of_any hs
  obtain ⟨hescaped, hplain⟩ := Bool.and_eq_true_iff.mp hs
  obtain ⟨_, hescaped, htext⟩ := exists_ok_of_any hescaped
  obtain ⟨_, hplain, htext'⟩ := exists_ok_of_any hplain
  cases eq_of_beq htext
  cases eq_of_beq htext'
  exact ⟨nodes, t, u, hparse, ht, hu, hescaped, hplain⟩

end EmbeddedLang.Render
