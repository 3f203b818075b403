import EmbeddedLang.Proofs.Render.Parentheses
import EmbeddedLang.Proofs.Template.Referenced

/-!
The names that instructions look up as macros or functions.

What a name stands for is asked where a call runs, and where an output settles whether it is safe.
Contexts that give the same answers for the names of all calls in a body run it alike.
-/

namespace EmbeddedLang.Render

open Template

/-! ### Names of calls -/

/-- The name that a call looks up, which may stand in parentheses. -/
def consulted? : Expr → Option String
  | .call _ callee _ _ => callee.ungrouped.identifier?
  | _ => none

/-- All calls in the expressions look up one of these names. -/
def Consult (names : String → Prop) (es : List Expr) : Prop :=
  ∀ e ∈ es, ∀ name ∈ consulted? e, names name

variable {names : String → Prop}

theorem consult_cons {e : Expr} {es : List Expr} :
    Consult names (e :: es) ↔ (∀ name ∈ consulted? e, names name) ∧ Consult names es :=
  List.forall_mem_cons

theorem consult_append {es es' : List Expr} :
    Consult names (es ++ es') ↔ Consult names es ∧ Consult names es' :=
  List.forall_mem_append

/-- All calls of an instruction, but for those of the instructions in it, look up these names. -/
def Consults (names : String → Prop) (i : Instruction) : Prop :=
  ∀ e ∈ i.operands, Consult names e.walk

/-! ### Contexts that agree -/

/-- Names of `names` stand for the same macros and functions, and all else is the same. -/
structure Surroundings.AgreeOn (names : String → Prop) (c c' : Surroundings) : Prop where
  filters : c'.renderer.filters = c.renderer.filters
  tests : c'.renderer.tests = c.renderer.tests
  handlers : c'.renderer.handlers = c.renderer.handlers
  maxDepth : c'.renderer.maxDepth = c.renderer.maxDepth
  deeper : c'.deeper = c.deeper
  macros : ∀ name, names name → Dictionary.get? name c'.macros = Dictionary.get? name c.macros
  functions : ∀ name, names name →
    Dictionary.get? name c'.renderer.functions = Dictionary.get? name c.renderer.functions

structure Context.AgreeOn (names : String → Prop) (c c' : Context) : Prop
    extends Surroundings.AgreeOn names c.toSurroundings c'.toSurroundings where
  override : c'.override = c.override

namespace Surroundings

variable {c c' : Surroundings}

theorem call_stable (hc : c.AgreeOn names c') {callee : Expr}
    (h : ∀ name ∈ callee.ungrouped.identifier?, names name) (args : Rendering Arguments) :
    c'.call callee args = c.call callee args := by
  unfold call enter
  rw [hc.deeper, hc.maxDepth]
  cases hname : callee.ungrouped.identifier? with
  | none => rfl
  | some name =>
    have hknown : names name := h name hname
    dsimp only
    rw [hc.macros name hknown, hc.functions name hknown]

mutual

theorem find?_stable (hc : c.AgreeOn names c') : (e : Expr) → Consult names e.walk →
    c'.find? e = c.find? e
  | .literal .., _ | .identifier .., _ => by rw [find?, find?]
  | .unary _ _ e, h | .member _ e _, h | .grouped _ e, h | .defined _ e _, h => by
    rw [find?, find?, find?_stable hc e (consult_cons.mp h).2]
  | .binary _ _ left right, h | .index _ left right, h => by
    obtain ⟨hleft, hright⟩ := consult_append.mp (consult_cons.mp h).2
    rw [find?, find?, find?_stable hc left hleft, find?_stable hc right hright]
  | .call _ callee args _, h => by
    obtain ⟨hname, hrest⟩ := consult_cons.mp h
    rw [find?, find?, elements_stable hc args (consult_append.mp hrest).2, call_stable hc hname]
  | .slice _ e first last, h => by
    obtain ⟨hfront, hlast⟩ := consult_append.mp (consult_cons.mp h).2
    obtain ⟨he, hfirst⟩ := consult_append.mp hfront
    rw [find?, find?, find?_stable hc e he, sliceBound_stable hc first hfirst,
      sliceBound_stable hc last hlast]
  | .list _ items, h => by
    rw [find?, find?, elements_stable hc items (consult_cons.mp h).2]
  | .conditional _ condition yes no, h => by
    obtain ⟨hfront, hno⟩ := consult_append.mp (consult_cons.mp h).2
    obtain ⟨hcondition, hyes⟩ := consult_append.mp hfront
    rw [find?, find?, find?_stable hc condition hcondition, find?_stable hc yes hyes,
      find?_stable hc no hno]
  | .filter _ e name args, h => by
    obtain ⟨he, hargs⟩ := consult_append.mp (consult_cons.mp h).2
    rw [find?, find?, find?_stable hc e he, elements_stable hc args hargs]
    simp only [applyFilter, hc.filters]
  | .test _ e name args _, h => by
    obtain ⟨he, hargs⟩ := consult_append.mp (consult_cons.mp h).2
    rw [find?, find?, find?_stable hc e he, elements_stable hc args hargs]
    simp only [applyTest, hc.tests]
  | .placeholder .., _ | .star .., _ | .qualifiedStar .., _ | .between .., _ | .isNull .., _
  | .cases .., _ | .cast .., _ | .existence .., _ | .subquery .., _ => by rw [find?, find?]

theorem elements_stable (hc : c.AgreeOn names c') : (items : List Item) →
    Consult names (walkItems items) → c'.elements items = c.elements items
  | [], _ => rfl
  | item :: rest, h => by
    obtain ⟨hitem, hrest⟩ := consult_append.mp h
    rw [elements, elements, element_stable hc item hitem, elements_stable hc rest hrest]

theorem element_stable (hc : c.AgreeOn names c') : (item : Item) → Consult names item.walk →
    c'.element item = c.element item
  | ⟨label, e⟩, h => by rw [element, element, find?_stable hc e h]

theorem sliceBound_stable (hc : c.AgreeOn names c') : (e : Option Expr) →
    Consult names (walkOption e) → c'.sliceBound e = c.sliceBound e
  | none, _ => rfl
  | some e, h => by rw [sliceBound, sliceBound, find?_stable hc e h]

end

theorem value_stable (hc : c.AgreeOn names c') {e : Expr} (h : Consult names e.walk) :
    c'.value e = c.value e := by
  rw [value, value, find?_stable hc e h]

theorem consult_ungrouped : (e : Expr) → Consult names e.walk → Consult names e.ungrouped.walk
  | .grouped _ inner, h => consult_ungrouped inner (consult_cons.mp h).2
  | .literal .., h | .identifier .., h | .unary .., h | .binary .., h | .call .., h | .member .., h
  | .index .., h | .slice .., h | .list .., h | .conditional .., h | .placeholder .., h
  | .star .., h | .qualifiedStar .., h | .between .., h | .isNull .., h | .cases .., h
  | .cast .., h | .existence .., h | .subquery .., h | .filter .., h | .defined .., h
  | .test .., h => h

/-- An output is safe if what it calls without parentheses is a macro. -/
theorem isSafe_stable (hc : c.AgreeOn names c') {e : Expr} (h : Consult names e.walk) :
    c'.isSafe e = c.isSafe e := by
  have hconsult := consult_ungrouped e h
  unfold isSafe
  cases he : e.ungrouped with
  | call p callee args distinct =>
    rw [he] at hconsult
    cases hname : callee.identifier? with
    | none => simp only [hname, Option.map_none]
    | some name =>
      have hknown : names name := by
        refine (consult_cons.mp hconsult).1 name ?_
        cases callee with
        | identifier => exact hname
        | _ => cases hname
      simp only [hname, Option.map_some, Dictionary.has, hc.macros name hknown]
  | _ => rfl

end Surroundings

/-! ### Instructions -/

/-- A body looks up these names alone. -/
def ConsultIn (names : String → Prop) (is : List Instruction) : Prop :=
  ∀ i ∈ is, Consults names i

theorem consultIn_cons {i : Instruction} {is : List Instruction} :
    ConsultIn names (i :: is) ↔ Consults names i ∧ ConsultIn names is :=
  List.forall_mem_cons

theorem consultIn_append {is js : List Instruction} :
    ConsultIn names (is ++ js) ↔ ConsultIn names is ∧ ConsultIn names js :=
  List.forall_mem_append

theorem consults_cons {e : Expr} {es : List Expr} {i : Instruction} (hi : i.operands = e :: es)
    (h : Consults names i) : Consult names e.walk ∧ ∀ x ∈ es, Consult names x.walk := by
  unfold Consults at h
  rw [hi] at h
  exact List.forall_mem_cons.mp h

namespace Context

variable {c c' : Context}

theorem value_stable (hc : c.AgreeOn names c') {e : Expr} (h : Consult names e.walk) :
    c'.value e = c.value e :=
  Surroundings.value_stable hc.toAgreeOn h

theorem output_stable (hc : c.AgreeOn names c') {e : Expr} (h : Consult names e.walk)
    (escape : Bool) : c'.output e escape = c.output e escape := by
  rw [output, output, value_stable hc h, Surroundings.isSafe_stable hc.toAgreeOn h]

theorem kept_stable (hc : c.AgreeOn names c') {filter : Option Expr}
    (h : ∀ e ∈ filter, Consult names e.walk) (key : Option String) (name : String)
    (found more : List (Value × Value)) :
    c'.kept key name filter found more = c.kept key name filter found more := by
  have hkeeps (scope : Scope) : c'.keeps filter scope = c.keeps filter scope := by
    cases filter with
    | none => rfl
    | some e => rw [keeps, keeps, value_stable hc (h e rfl)]
  induction more generalizing found with
  | nil => rfl
  | cons entry rest ih =>
    rw [kept, kept, hkeeps]
    simp only [ih]

theorem inclusion_stable (hc : c.AgreeOn names c') {template : Expr} {context : Option Expr}
    (ht : Consult names template.walk) (h : ∀ e ∈ context, Consult names e.walk) :
    c'.inclusion template context = c.inclusion template context := by
  have henter : c'.enter = c.enter := by
    rw [Surroundings.enter, Surroundings.enter, hc.deeper, hc.maxDepth]
  unfold inclusion
  rw [value_stable hc ht, henter]
  cases context with
  | none => rfl
  | some e => simp only [value_stable hc (h e rfl)]

theorem custom_stable (hc : c.AgreeOn names c') {args : List Expr}
    (h : ∀ e ∈ args, Consult names e.walk) (name : String) (body : Option (Rendering Outcome)) :
    c'.custom name args body = c.custom name args body := by
  have hvalues : c'.values args = c.values args := by
    induction args with
    | nil => rfl
    | cons e rest ih =>
      obtain ⟨he, hrest⟩ := List.forall_mem_cons.mp h
      rw [values, values, value_stable hc he, ih hrest]
  unfold custom
  rw [hvalues, hc.handlers]

mutual

theorem step_stable (hc : c.AgreeOn names c') : (i : Instruction) → ConsultIn names i.walk →
    c'.step i = c.step i
  | .literal _, _ | .leave, _ | .proceed, _ => rfl
  | .output e escape, h => by
    obtain ⟨he, -⟩ := consults_cons rfl (consultIn_cons.mp h).1
    rw [step, step, output_stable hc he]
  | .choice branches otherwise, h => by
    obtain ⟨hown, hrest⟩ := consultIn_cons.mp h
    obtain ⟨hbranches, hotherwise⟩ := consultIn_append.mp hrest
    rw [step, step, exec_stable hc otherwise hotherwise]
    refine arms_stable hc branches ?_ hbranches _
    intro arm harm
    exact hown _ (List.mem_map_of_mem harm)
  | .loop key name iterable filter body otherwise, h => by
    obtain ⟨hown, hrest⟩ := consultIn_cons.mp h
    obtain ⟨hbody, hotherwise⟩ := consultIn_append.mp hrest
    obtain ⟨hiterable, hfilter⟩ := consults_cons rfl hown
    have hfilter : ∀ e ∈ filter, Consult names e.walk := fun e he =>
      hfilter e (Option.mem_toList.mpr he)
    rw [step, step, value_stable hc hiterable, exec_stable hc body hbody,
      exec_stable hc otherwise hotherwise]
    simp only [kept_stable hc hfilter]
  | .assign name op e, h => by
    obtain ⟨he, -⟩ := consults_cons rfl (consultIn_cons.mp h).1
    rw [step, step, assignTo, assignTo, value_stable hc he]
  | .evaluate e, h => by
    obtain ⟨he, -⟩ := consults_cons rfl (consultIn_cons.mp h).1
    rw [step, step, value_stable hc he]
  | .block name body, h => by
    rw [step, step, exec_stable hc body (consultIn_cons.mp h).2, hc.override]
  | .inclusion template context, h => by
    obtain ⟨htemplate, hcontext⟩ := consults_cons rfl (consultIn_cons.mp h).1
    rw [step, step, inclusion_stable hc htemplate fun e he =>
      hcontext e (Option.mem_toList.mpr he)]
  | .fragment key lifetime body, h => by
    obtain ⟨hown, hbody⟩ := consultIn_cons.mp h
    obtain ⟨hkey, -⟩ := consults_cons rfl hown
    rw [step, step, exec_stable hc body hbody, cached, cached, value_stable hc hkey]
  | .extension name args none, h => by
    have hargs : ∀ e ∈ args, Consult names e.walk := (consultIn_cons.mp h).1
    rw [step, step, custom_stable hc hargs]
    rfl
  | .extension name args (some body), h => by
    obtain ⟨hown, hbody⟩ := consultIn_cons.mp h
    have hargs : ∀ e ∈ args, Consult names e.walk := hown
    rw [step, step, custom_stable hc hargs, optional, optional, exec_stable hc body hbody]

theorem exec_stable (hc : c.AgreeOn names c') : (is : List Instruction) →
    ConsultIn names (walkInstructions is) → c'.exec is = c.exec is
  | [], _ => rfl
  | i :: rest, h => by
    obtain ⟨hi, hrest⟩ := consultIn_append.mp h
    rw [exec, exec, step_stable hc i hi, exec_stable hc rest hrest]

theorem arms_stable (hc : c.AgreeOn names c') : (branches : List Arm) →
    (∀ arm ∈ branches, Consult names arm.condition.walk) →
    ConsultIn names (walkArms branches) → (otherwise : Rendering Outcome) →
      c'.arms branches otherwise = c.arms branches otherwise
  | [], _, _, _ => rfl
  | ⟨condition, body⟩ :: rest, hconditions, h, otherwise => by
    obtain ⟨hcondition, hothers⟩ := List.forall_mem_cons.mp hconditions
    obtain ⟨hbody, hrest⟩ := consultIn_append.mp h
    rw [arms, arms, value_stable hc hcondition, exec_stable hc body hbody,
      arms_stable hc rest hothers hrest otherwise]

end

end Context

/-! ### Compiled templates -/

/-- The name of a call that stands in parentheses. -/
def veiledCall? : Expr → Option String
  | .call _ (.grouped _ callee) _ _ => callee.ungrouped.identifier?
  | _ => none

def veiledCalls (t : CompiledTemplate) : List String :=
  (t.bodies.flatMap walkInstructions).flatMap fun i =>
    (i.operands.flatMap Expr.walk).filterMap veiledCall?

theorem consulted?_cases {e : Expr} {name : String} (h : consulted? e = some name) :
    calledFunction? e = some name ∨ veiledCall? e = some name := by
  cases e with
  | call p callee args distinct =>
    cases callee with
    | grouped q inner => exact .inr h
    | _ => exact .inl h
  | _ => cases h

/-- The names that a template says it refers to, and those that it calls in parentheses. -/
def Known (t : CompiledTemplate) (name : String) : Prop :=
  Dictionary.has name t.references.functions ∨ name ∈ veiledCalls t

theorem consultIn_known {t : CompiledTemplate} {body : List Instruction} (hbody : body ∈ t.bodies)
    (h : BodyNoted t.references body) : ConsultIn (Known t) (walkInstructions body) := by
  intro i hi e he x hx name hname
  rcases consulted?_cases hname with hcalled | hveiled
  · exact .inl ((h i hi).calls e he name (List.mem_filterMap.mpr ⟨x, hx, hcalled⟩))
  · refine .inr (List.mem_flatMap.mpr ⟨i, List.mem_flatMap.mpr ⟨body, hbody, hi⟩, ?_⟩)
    exact List.mem_filterMap.mpr ⟨x, List.mem_flatMap.mpr ⟨e, he, hx⟩, hveiled⟩

theorem eq_literal_of_literalName? {e : Expr} {name : String} (h : name ∈ literalName? e) :
    ∃ p, e.ungrouped = .literal p (.string name) := by
  unfold literalName? at h
  split at h
  · next p other he =>
    cases h
    exact ⟨p, he⟩
  · cases h

theorem Context.value_literalName (c : Context) {e : Expr} {name : String}
    (h : name ∈ literalName? e) : c.value e = pure (.string name) := by
  obtain ⟨p, he⟩ := eq_literal_of_literalName? h
  rw [value, Surroundings.value, ← Surroundings.find?_ungrouped, he, Surroundings.find?, map_pure]
  rfl

/-- The references of a template are complete, but for calls whose name stands in parentheses. What
its own bodies do depends on no other macros and functions, and a name under which a template is
included is recorded if it is a literal. -/
theorem references_complete {t : CompiledTemplate} (ht : t.IsCompiled) :
    (∀ body ∈ t.bodies, ∀ c c' : Context,
      c.AgreeOn (fun name => Dictionary.has name t.references.functions ∨ name ∈ veiledCalls t) c' →
        c'.exec body = c.exec body) ∧
    ∀ body ∈ t.bodies, ∀ template context, .inclusion template context ∈ walkInstructions body →
      ∀ name ∈ literalName? template, Dictionary.has name t.references.includes ∧
        ∀ c : Context, c.value template = pure (.string name) := by
  have hnoted := ht.noted
  refine ⟨fun body hbody c c' hc => ?_, fun body hbody template context hi name hname => ?_⟩
  · exact Context.exec_stable hc body (consultIn_known hbody (hnoted body hbody))
  · exact ⟨(hnoted body hbody _ hi).included name hname, fun c => c.value_literalName hname⟩

/-- A host with functions of its own and nothing else around. -/
def hosted (functions : Dictionary Function) : Context :=
  ⟨⟨{ Renderer.standard with functions := functions }, [], none⟩, fun _ => none⟩

/-- One more function that is not recorded makes no difference. -/
theorem references_complete_hosted :
    ∃ t, compile {} "\x7b\x7b f(x|join(g)) \x7d\x7d\x7b% include ('a') %\x7d" = .ok t ∧
      ∀ f g, (hosted [("f", f), ("g", g)]).exec t.instructions =
        (hosted [("f", f)]).exec t.instructions := by
  have hs : (compile {} "\x7b\x7b f(x|join(g)) \x7d\x7d\x7b% include ('a') %\x7d").toOption.any
      fun t => !Dictionary.has "g" t.references.functions && !(veiledCalls t).contains "g" := by
    decide +kernel
  obtain ⟨t, ht, hs⟩ := exists_ok_of_any hs
  simp only [Bool.and_eq_true, Bool.not_eq_true', List.contains_eq_mem, decide_eq_false_iff_not] at hs
  obtain ⟨hrecorded, hveiled⟩ := hs
  refine ⟨t, ht, fun f g => ?_⟩
  apply (references_complete ⟨_, _, ht⟩).1 t.instructions List.mem_cons_self
  refine ⟨⟨rfl, rfl, rfl, rfl, rfl, fun _ _ => rfl, fun name hname => ?_⟩, rfl⟩
  have hne : name ≠ "g" := by
    rintro rfl
    rcases hname with h | h
    · rw [hrecorded] at h
      cases h
    · exact hveiled h
  simp only [hosted, Dictionary.get?, List.lookup_cons, beq_false_of_ne hne]

/-- A function whose name stands in parentheses where it is called. -/
def masked : String :=
  "\x7b\x7b (f)() \x7d\x7d"

/-- That function is looked up, since it decides on the output, but it is not recorded. -/
theorem masked_not_recorded :
    ∃ t, compile {} masked = .ok t ∧ Dictionary.has "f" t.references.functions = false ∧
      ∀ text ∈ ["a", "b"], (perform (renderTemplate { Renderer.standard with
        functions := [("f", fun _ => .ok (.string text))] } t .null) [] 0).1 = .ok text := by
  have hs : (compile {} masked).toOption.any fun t =>
      !Dictionary.has "f" t.references.functions && ["a", "b"].all fun text =>
        (perform (renderTemplate { Renderer.standard with
          functions := [("f", fun _ => .ok (.string text))] } t .null) [] 0).1.toOption.any
            (· == text) := by
    decide +kernel
  obtain ⟨t, ht, hs⟩ := exists_ok_of_any hs
  obtain ⟨hrecorded, hall⟩ := Bool.and_eq_true_iff.mp hs
  refine ⟨t, ht, by simpa using hrecorded, fun text htext => ?_⟩
  obtain ⟨found, hfound, heq⟩ := exists_ok_of_any (List.all_eq_true.mp hall text htext)
  rw [hfound, eq_of_beq heq]

end EmbeddedLang.Render
