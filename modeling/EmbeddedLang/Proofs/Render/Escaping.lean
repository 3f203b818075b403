import EmbeddedLang.Proofs.Render.Ensures
import EmbeddedLang.Proofs.Render.Programs
import EmbeddedLang.Proofs.Template.Guarded

/-!
Guarded templates write only escaped text.

What is written as it is comes out of a macro or a filter that escapes. Both are seen at the
expression, so that its value is known to be escaped wherever it is computed. Fragments are escaped
since only such output is kept.
-/

namespace EmbeddedLang.Render

open Template (Instruction Arm CompiledTemplate AllGuarded MacrosGuarded endsInMarkup endsInEscape
  walkArms)
open Value

/-- Leaves only escaped fragments behind. -/
abbrev Runs {α : Type} (action : Rendering α) : Prop :=
  Ensures (Text.isEscaped ·) action fun _ => True

abbrev Writes (action : Rendering String) : Prop :=
  Ensures (Text.isEscaped ·) action (Text.isEscaped ·)

abbrev Outputs (action : Rendering Outcome) : Prop :=
  Ensures (Text.isEscaped ·) action (Text.isEscaped ·.text)

theorem runs_pure {α : Type} (a : α) : Runs (pure a) :=
  .pure trivial

theorem runs_liftResult {α : Type} (x : Except RenderError α) : Runs (liftResult x) :=
  .liftResult fun _ _ => trivial

namespace Surroundings

variable {c : Surroundings}

/-- The filters are the usual ones, there are no custom directives, and all that is deeper writes
escaped text. -/
structure IsTrusted (c : Surroundings) : Prop where
  filters : c.renderer.filters = Render.filters
  handlers : c.renderer.handlers = []
  body : ∀ d name scope, c.deeper = some d → Writes (d.body name scope)
  template : ∀ d name scope, c.deeper = some d → Writes (d.template name scope)

/-- Whether the value of an expression is escaped, whatever the variables are. -/
def isSealed (c : Surroundings) : Expr → Bool
  | .call _ callee _ _ => (callee.identifier?.map (Dictionary.has · c.macros)).getD false
  | .filter _ _ name _ => name == "e" || name == "escape"
  | _ => false

theorem isSealed_of_isSafe {e : Expr} (h : c.isSafe e) (hm : endsInMarkup e.ungrouped = false) :
    c.isSealed e.ungrouped := by
  unfold isSafe at h
  split at h
  · next he =>
    rw [he]
    exact h
  · next he =>
    rw [he] at hm ⊢
    simp only [safeFilters, endsInMarkup, List.contains_cons, Bool.or_eq_true] at h hm
    simp only [isSealed, Bool.or_eq_true]
    grind
  · cases h

theorem isSealed_of_endsInEscape {e : Expr} (h : endsInEscape e) : c.isSealed e.ungrouped := by
  cases e with
  | filter => exact h
  | _ => cases h

def Seals (c : Surroundings) (e : Expr) (v : Option Value) : Prop :=
  c.isSealed e.ungrouped → ∀ w, v = some w → Text.isEscaped w.display

theorem unsealed {e : Expr} {action : Rendering (Option Value)}
    (he : c.isSealed e.ungrouped = false) (h : Runs action) :
    Ensures (Text.isEscaped ·) action (c.Seals e) := by
  refine h.imp fun v _ hsealed => ?_
  rw [he] at hsealed
  cases hsealed

theorem runs_bound (v : Value) : Runs (bound v) := by
  unfold bound
  split
  · exact runs_pure _
  · split
    · exact runs_pure _
    · exact .throw _

theorem enter_ensures (c : Surroundings) :
    Ensures (Text.isEscaped ·) c.enter fun d => c.deeper = some d := by
  unfold enter
  split
  · next d hd => exact .pure hd
  · exact .throw _

theorem call_ensures (h : c.IsTrusted) (callee : Expr) {args : Rendering Arguments}
    (hargs : Runs args) : Ensures (Text.isEscaped ·) (c.call callee args) fun v =>
      (callee.identifier?.map (Dictionary.has · c.macros)).getD false →
        Text.isEscaped v.display := by
  unfold call
  split
  · exact .throw _
  · next name hname =>
    split
    · next params _ =>
      refine c.enter_ensures.bind fun d hd => hargs.bind fun args _ => ?_
      refine (runs_liftResult _).bind fun scope _ => ?_
      exact (h.body d name scope hd).bind fun text htext => .pure fun _ => htext
    · next hmissing =>
      -- a function takes the call only where there is no such macro
      have hno : (callee.identifier?.map (Dictionary.has · c.macros)).getD false = false := by
        cases callee with
        | identifier _ other =>
          cases hname
          simp [Dictionary.has, hmissing, Expr.identifier?]
        | _ => rfl
      split
      · refine hargs.bind fun args _ => (runs_liftResult _).imp fun v _ hyes => ?_
        rw [hno] at hyes
        cases hyes
      · exact .throw _

theorem applyFilter_ensures (h : c.IsTrusted) (name : String) (v : Value) (args : Arguments) :
    Ensures (Text.isEscaped ·) (c.applyFilter name v args) fun w =>
      (name == "e" || name == "escape") → Text.isEscaped w.display := by
  unfold applyFilter
  rw [h.filters]
  split
  · next f hf =>
    apply Ensures.liftResult
    intro w hw hname
    have hescape : f = onText Text.escapeHtml := by
      rcases Bool.or_eq_true _ _ ▸ hname with he | he
      · rw [eq_of_beq he] at hf
        exact (Option.some.inj hf).symm
      · rw [eq_of_beq he] at hf
        exact (Option.some.inj hf).symm
    subst hescape
    cases hw
    exact Text.isEscaped_escapeHtml _
  · exact .throw _

theorem runs_applyTest (c : Surroundings) (name : String) (v : Value) (args : Arguments) :
    Runs (c.applyTest name v args) := by
  unfold applyTest
  split
  · exact runs_liftResult _
  · exact .throw _

mutual

theorem find?_ensures (h : c.IsTrusted) : (e : Expr) →
    Ensures (Text.isEscaped ·) (c.find? e) (c.Seals e)
  | .literal .. => by
    rw [find?]
    exact unsealed rfl (runs_pure _)
  | .identifier .. => by
    rw [find?]
    exact unsealed rfl (Ensures.get.bind fun _ _ => runs_pure _)
  | .unary _ op operand => by
    rw [find?]
    refine unsealed rfl ((find?_ensures h operand).bind fun _ _ => ?_)
    exact (runs_liftResult _).map fun _ _ => trivial
  | .binary _ op left right => by
    rw [find?]
    refine unsealed rfl ((find?_ensures h left).bind fun _ _ => ?_)
    dsimp only
    split
    · exact runs_pure _
    · split
      · exact runs_pure _
      · refine (find?_ensures h right).bind fun _ _ => ?_
        exact (runs_liftResult _).map fun _ _ => trivial
  | .call _ callee args _ => by
    rw [find?]
    have hargs : Runs (toArguments <$> c.elements args) :=
      (elements_ensures h args).map fun _ _ => trivial
    refine (call_ensures h callee hargs).map fun v hv => ?_
    rintro hsealed w ⟨⟩
    exact hv hsealed
  | .member _ e property => by
    rw [find?]
    exact unsealed rfl ((find?_ensures h e).bind fun _ _ => runs_pure _)
  | .index _ e subscript => by
    rw [find?]
    refine unsealed rfl ((find?_ensures h e).bind fun v _ => ?_)
    cases v with
    | none => exact runs_pure _
    | some v => exact (find?_ensures h subscript).bind fun _ _ => runs_pure _
  | .slice _ e first last => by
    rw [find?]
    refine unsealed rfl ((find?_ensures h e).bind fun _ _ => ?_)
    refine (sliceBound_ensures h first).bind fun _ _ => ?_
    refine (sliceBound_ensures h last).bind fun _ _ => ?_
    exact (runs_liftResult _).map fun _ _ => trivial
  | .list _ items => by
    rw [find?]
    exact unsealed rfl ((elements_ensures h items).bind fun _ _ => runs_pure _)
  | .grouped _ inner => by
    rw [find?]
    exact find?_ensures h inner
  | .conditional _ condition yes no => by
    rw [find?]
    refine unsealed rfl ((find?_ensures h condition).bind fun _ _ => ?_)
    split
    · exact (find?_ensures h yes).bind fun _ _ => runs_pure _
    · exact (find?_ensures h no).bind fun _ _ => runs_pure _
  | .filter _ subject name args => by
    rw [find?]
    refine (find?_ensures h subject).bind fun _ _ => (elements_ensures h args).bind fun _ _ => ?_
    refine (applyFilter_ensures h name _ _).map fun v hv => ?_
    rintro hsealed w ⟨⟩
    exact hv hsealed
  | .defined _ subject negated => by
    rw [find?]
    exact unsealed rfl ((find?_ensures h subject).bind fun _ _ => runs_pure _)
  | .test _ subject name args negated => by
    rw [find?]
    refine unsealed rfl ((find?_ensures h subject).bind fun _ _ => ?_)
    refine (elements_ensures h args).bind fun _ _ => ?_
    exact (runs_applyTest c name _ _).bind fun _ _ => runs_pure _
  | .placeholder .. | .star .. | .qualifiedStar .. | .between .. | .isNull .. | .cases ..
  | .cast .. | .existence .. | .subquery .. => by
    rw [find?]
    exact .throw _

theorem elements_ensures (h : c.IsTrusted) : (items : List Item) → Runs (c.elements items)
  | [] => by
    rw [elements]
    exact runs_pure _
  | item :: rest => by
    rw [elements]
    refine (element_ensures h item).bind fun _ _ => ?_
    exact (elements_ensures h rest).bind fun _ _ => runs_pure _

theorem element_ensures (h : c.IsTrusted) : (item : Item) → Runs (c.element item)
  | ⟨label, e⟩ => by
    rw [element]
    exact (find?_ensures h e).bind fun _ _ => runs_pure _

theorem sliceBound_ensures (h : c.IsTrusted) : (e : Option Expr) → Runs (c.sliceBound e)
  | none => by
    rw [sliceBound]
    exact runs_pure _
  | some e => by
    rw [sliceBound]
    exact (find?_ensures h e).bind fun _ _ => runs_bound _

end

theorem value_ensures (h : c.IsTrusted) (e : Expr) : Ensures (Text.isEscaped ·) (c.value e)
    fun v => c.isSealed e.ungrouped → Text.isEscaped v.display := by
  refine (find?_ensures h e).map fun v hv hsealed => ?_
  cases v with
  | none => rfl
  | some w => exact hv hsealed w rfl

end Surroundings

namespace Context

variable {c : Context}

structure IsTrusted (c : Context) : Prop extends c.toSurroundings.IsTrusted where
  override : ∀ name other, c.override name = some other → Outputs other

theorem runs_value (h : c.IsTrusted) (e : Expr) : Runs (c.value e) :=
  (Surroundings.value_ensures h.toIsTrusted e).imp fun _ _ => trivial

/-- What is not escaped when it is written is escaped before. -/
theorem writes_output (h : c.IsTrusted) {e : Expr} {escape : Bool}
    (hi : (Instruction.output e escape).isGuarded) : Writes (c.output e escape) := by
  simp only [Instruction.isGuarded, Bool.and_eq_true, Bool.or_eq_true, Bool.not_eq_true'] at hi
  obtain ⟨hescape, hmarkup⟩ := hi
  refine (Surroundings.value_ensures h.toIsTrusted e).bind fun v hv => ?_
  dsimp only
  split
  · exact .pure (Text.isEscaped_escapeHtml _)
  · next hnot =>
    apply Ensures.pure
    apply hv
    rcases hescape with hescape | hends
    · have hsafe : c.isSafe e := by simpa [hescape] using hnot
      exact Surroundings.isSealed_of_isSafe hsafe hmarkup
    · exact Surroundings.isSealed_of_endsInEscape hends

theorem runs_keeps (h : c.IsTrusted) (filter : Option Expr) (scope : Scope) :
    Runs (c.keeps filter scope) := by
  cases filter with
  | none => exact runs_pure _
  | some e => exact (runs_value h e).inScope.bind fun _ _ => runs_pure _

theorem runs_kept (h : c.IsTrusted) (key : Option String) (name : String) (filter : Option Expr)
    (found entries : List (Value × Value)) : Runs (c.kept key name filter found entries) := by
  induction entries generalizing found with
  | nil => exact runs_pure _
  | cons entry rest ih => exact (runs_keeps h filter _).bind fun _ _ => ih _

theorem writes_rounds (key : Option String) (name : String) {body : Rendering Outcome}
    (h : Outputs body) (length index : Nat) {text : String} (htext : Text.isEscaped text)
    (entries : List (Value × Value)) : Writes (rounds key name body length index text entries) := by
  induction entries generalizing index text with
  | nil => exact .pure htext
  | cons entry rest ih =>
    refine h.inScope.bind fun round hround => ?_
    have hboth := Text.isEscaped_append htext hround
    dsimp only
    split
    · exact .pure hboth
    · exact ih _ hboth

theorem runs_assignTo (h : c.IsTrusted) (name : String) (op : Template.AssignOp) (e : Expr) :
    Runs (c.assignTo name op e) := by
  refine (runs_value h e).bind fun v _ => Ensures.get.bind fun s _ => ?_
  exact (runs_liftResult _).bind fun v _ => .modify fun s hs => hs

theorem writes_inclusion (h : c.IsTrusted) (template : Expr) (context : Option Expr) :
    Writes (c.inclusion template context) := by
  refine (runs_value h template).bind fun name _ => Ensures.get.bind fun s _ => ?_
  have hafter (extra : Value) : Writes (do
      let scope ← liftResult (included s.scopes extra)
      let deeper ← c.enter
      deeper.template name.display scope) := by
    refine (runs_liftResult _).bind fun scope _ => ?_
    exact c.enter_ensures.bind fun d hd => h.template d _ scope hd
  cases context with
  | none => exact (runs_pure null).bind fun extra _ => hafter extra
  | some e => exact (runs_value h e).bind fun extra _ => hafter extra

theorem outputs_cached (h : c.IsTrusted) (key : Expr) (lifetime : Option Nat)
    {body : Rendering Outcome} (hbody : Outputs body) : Outputs (c.cached key lifetime body) := by
  refine (runs_value h key).bind fun v _ => Ensures.get.bind fun s _ => ?_
  refine (Ensures.fragment? v.display).bind fun found hfound => ?_
  cases found with
  | some text => exact .pure (hfound text rfl)
  | none =>
    refine hbody.bind fun made hmade => ?_
    exact (Ensures.keepFragment _ hmade _ _).bind fun _ _ => .pure hmade

theorem outputs_custom (h : c.IsTrusted) (name : String) (args : List Expr)
    (body : Option (Rendering Outcome)) : Outputs (c.custom name args body) := by
  unfold custom
  rw [h.handlers]
  exact .throw _

theorem outputs_done {action : Rendering String} (h : Writes action) :
    Outputs (do return .done (← action)) :=
  h.bind fun _ htext => .pure htext

mutual

theorem outputs_step (h : c.IsTrusted) : (i : Instruction) → (∀ j ∈ i.walk, j.isGuarded) →
    Outputs (c.step i)
  | .literal text, hi => by
    rw [step]
    exact .pure (hi _ (List.mem_singleton_self _))
  | .output e escape, hi => by
    rw [step]
    exact outputs_done (writes_output h (hi _ (List.mem_singleton_self _)))
  | .choice branches otherwise, hi => by
    rw [step]
    obtain ⟨hb, ho⟩ := List.forall_mem_append.mp (List.forall_mem_cons.mp hi).2
    exact outputs_arms h branches hb (outputs_exec h otherwise ho)
  | .loop key name iterable filter body otherwise, hi => by
    rw [step]
    obtain ⟨hb, ho⟩ := List.forall_mem_append.mp (List.forall_mem_cons.mp hi).2
    refine (runs_value h iterable).bind fun v _ => (runs_liftResult _).bind fun found _ => ?_
    refine (runs_kept h key name filter [] found).bind fun found _ => ?_
    split
    · exact outputs_exec h otherwise ho
    · exact outputs_done (writes_rounds key name (outputs_exec h body hb) _ 0 rfl found)
  | .assign name op e, _ => by
    rw [step]
    exact (runs_assignTo h name op e).bind fun _ _ => .pure rfl
  | .evaluate e, _ => by
    rw [step]
    exact (runs_value h e).bind fun _ _ => .pure rfl
  | .leave, _ => by
    rw [step]
    exact .pure rfl
  | .proceed, _ => by
    rw [step]
    exact .pure rfl
  | .block name body, hi => by
    rw [step]
    split
    · next other ho => exact h.override name other ho
    · exact outputs_exec h body (List.forall_mem_cons.mp hi).2
  | .inclusion template context, _ => by
    rw [step]
    exact outputs_done (writes_inclusion h template context)
  | .fragment key lifetime body, hi => by
    rw [step]
    exact outputs_cached h key lifetime (outputs_exec h body (List.forall_mem_cons.mp hi).2)
  | .extension name args body, _ => by
    rw [step]
    exact outputs_custom h name args _

theorem outputs_exec (h : c.IsTrusted) : (is : List Instruction) → AllGuarded is →
    Outputs (c.exec is)
  | [], _ => by
    rw [exec]
    exact .pure rfl
  | i :: rest, hall => by
    rw [exec]
    obtain ⟨hi, hrest⟩ := Template.allGuarded_cons.mp hall
    refine (outputs_step h i hi).bind fun first hfirst => ?_
    split
    · refine (outputs_exec h rest hrest).bind fun others hothers => .pure ?_
      exact Text.isEscaped_append hfirst hothers
    · exact .pure hfirst

theorem outputs_arms (h : c.IsTrusted) : (arms : List Arm) →
    (∀ i ∈ walkArms arms, i.isGuarded) → {otherwise : Rendering Outcome} → Outputs otherwise →
    Outputs (c.arms arms otherwise)
  | [], _, _, ho => by
    rw [arms]
    exact ho
  | ⟨condition, body⟩ :: rest, hall, _, ho => by
    rw [arms]
    obtain ⟨hbody, hrest⟩ := List.forall_mem_append.mp hall
    refine (runs_value h condition).bind fun v _ => ?_
    split
    · exact outputs_exec h body hbody
    · exact outputs_arms h rest hrest ho

end

end Context

/-! ### Programs -/

structure Program.IsGuarded (p : Program) : Prop where
  main : AllGuarded p.main
  macros : MacrosGuarded p.macros
  blocks : ∀ b ∈ p.blocks, AllGuarded b.2

/-- The usual filters, no custom directives, and guarded templates only. -/
structure Renderer.IsGuarded (r : Renderer) : Prop where
  filters : r.filters = Render.filters
  handlers : r.handlers = []
  templates : ∀ name t, r.load name = .ok t → t.IsGuarded

section

variable {r : Renderer} {p : Program}

theorem Program.IsGuarded.macroBody (hp : p.IsGuarded) (name : String) :
    AllGuarded (p.macroBody name) := by
  rcases p.macroBody_cases name with ⟨m, hm, hbody⟩ | hbody
  · rw [hbody]
    exact hp.macros m hm
  · rw [hbody]
    exact Template.allGuarded_nil

theorem Program.outputs_exec (hp : p.IsGuarded) (hr : r.IsGuarded) {deeper : Option Deeper}
    (hbody : ∀ d name scope, deeper = some d → Writes (d.body name scope))
    (htemplate : ∀ d name scope, deeper = some d → Writes (d.template name scope))
    {is : List Instruction} (his : AllGuarded is) : Outputs (p.exec r deeper is) := by
  have hinner : Context.IsTrusted ⟨⟨r, signatures p.macros, deeper⟩, fun _ => none⟩ :=
    ⟨⟨hr.filters, hr.handlers, hbody, htemplate⟩, nofun⟩
  apply Context.outputs_exec
  · refine ⟨⟨hr.filters, hr.handlers, hbody, htemplate⟩, ?_⟩
    intro name other ho
    obtain ⟨block, hblock, rfl⟩ := Option.map_eq_some_iff.mp ho
    exact Context.outputs_exec hinner block (hp.blocks _ (Dictionary.mem_of_get? hblock))
  · exact his

theorem Program.MadeOf.isGuarded (h : p.MadeOf CompiledTemplate.IsGuarded) : p.IsGuarded := by
  refine ⟨?_, ?_, ?_⟩
  · obtain ⟨t, ht, hmain⟩ := h.main
    rw [hmain]
    exact ht.guarded.1
  · intro m hm
    obtain ⟨t, ht, hm⟩ := h.macros m hm
    exact ht.guarded.2 m hm
  · intro b hb
    obtain ⟨t, ht, hb⟩ := h.blocks b hb
    exact ht.guarded.1.of_mem_blocks hb

theorem ofTemplate_guarded (hr : r.IsGuarded) {t : CompiledTemplate} (ht : t.IsGuarded) :
    Returns (·.IsGuarded) (Program.ofTemplate r t) :=
  (ofTemplate_returns hr.templates ht).imp fun _ h => h.isGuarded

theorem writes_run (hr : r.IsGuarded) (depth : Nat) {p : Program} (hp : p.IsGuarded)
    {is : List Instruction} (his : AllGuarded is) : Writes (run r depth p is) := by
  induction depth generalizing p is with
  | zero =>
    rw [run]
    refine (p.outputs_exec hp hr ?_ ?_ his).bind fun _ h => .pure h
    · intro d name scope hd
      cases hd
    · intro d name scope hd
      cases hd
  | succ depth ih =>
    rw [run]
    refine (p.outputs_exec hp hr ?_ ?_ his).bind fun _ h => .pure h
    · intro d name scope hd
      cases hd
      exact (ih hp (hp.macroBody name)).inFreshScope
    · intro d name scope hd
      cases hd
      refine (Ensures.liftResult (hr.templates name)).bind fun t ht => ?_
      refine (Ensures.liftResult (ofTemplate_guarded hr ht).of_ok).bind fun q hq => ?_
      exact (ih hq hq.main).inFreshScope

theorem writes_renderTemplate (hr : r.IsGuarded) {t : CompiledTemplate} (ht : t.IsGuarded)
    (context : Value) : Writes (renderTemplate r t context) := by
  refine (Ensures.liftResult fun _ _ => trivial).bind fun scope _ => ?_
  refine (Ensures.liftResult (ofTemplate_guarded hr ht).of_ok).bind fun p hp => ?_
  exact (writes_run hr r.maxDepth hp hp.main).inFreshScope

end

/-- With the usual filters and nothing but guarded templates, all that is written is escaped, in
every context; and so is all that is kept, so that this goes on. -/
theorem perform_isEscaped (loader : Option Loader) (maxDepth : Nat) {t : CompiledTemplate}
    (ht : t.IsGuarded)
    (hloader : ∀ load, loader = some load → ∀ name t, load name = .ok t → t.IsGuarded)
    (context : Value) {fragments : Dictionary Fragment}
    (hfragments : ∀ f ∈ fragments, Text.isEscaped f.2.text) (now : Nat) :
    (∀ text, (perform (renderTemplate { Renderer.standard with loader, maxDepth } t context)
        fragments now).1 = .ok text → Text.isEscaped text) ∧
      ∀ f ∈ (perform (renderTemplate { Renderer.standard with loader, maxDepth } t context)
        fragments now).2, Text.isEscaped f.2.text := by
  have hr : Renderer.IsGuarded { Renderer.standard with loader, maxDepth } := by
    refine ⟨rfl, rfl, ?_⟩
    intro name t ht
    cases loader with
    | none => cases ht
    | some load => exact hloader load rfl name t ht
  have hwrites := writes_renderTemplate hr ht context
  unfold perform
  split
  · next text s hs =>
    obtain ⟨htext, hkept⟩ := hwrites.of_ok ⟨[], fragments, now⟩ text s hfragments hs
    refine ⟨?_, hkept⟩
    rintro _ ⟨⟩
    exact htext
  · next e s hs =>
    have hkept := hwrites.of_error ⟨[], fragments, now⟩ e s hfragments hs
    exact ⟨nofun, hkept⟩

/-- A macro that is called in an echo. What it writes is escaped once, in its own body. -/
def greeting : List Template.Node :=
  let name : Expr := .identifier .start "name"
  let call : Expr := .call .start (.identifier .start "greet") [⟨none, name⟩] false
  [.definition .start "greet" [⟨"name", none⟩] [.text .start "Hi ", .echo .start name false],
    .echo .start call false]

def greetingTemplate : CompiledTemplate where
  instructions := [.output (.call .start (.identifier .start "greet")
    [⟨none, .identifier .start "name"⟩] false) true]
  macros := [("greet", ⟨[⟨"name", none⟩],
    [.literal "Hi ", .output (.identifier .start "name") true]⟩)]
  parent := none
  references := ⟨[], [("greet", ())]⟩

theorem perform_isEscaped_greeting :
    greetingTemplate.IsGuarded ∧
      (perform (renderTemplate { Renderer.standard with loader := none, maxDepth := 1 }
        greetingTemplate (.object [("name", .string "<b>")])) [] 0).1 = .ok "Hi &lt;b&gt;" ∧
      Text.isEscaped "Hi &lt;b&gt;" := by
  have ht : greetingTemplate.IsGuarded := by
    refine ⟨[], greeting, ?_, ?_⟩
    · simp only [Template.lower, greeting, Template.lowerNodes, Template.lowerNode,
        Template.runSiblings]
      rfl
    · simp only [greeting, Template.walkNodes, Template.Node.walk]
      decide
  have hrun : (perform (renderTemplate { Renderer.standard with loader := none, maxDepth := 1 }
      greetingTemplate (.object [("name", .string "<b>")])) [] 0).1 = .ok "Hi &lt;b&gt;" := by
    rfl
  have hloader : ∀ load : Loader, none = some load → ∀ name t, load name = .ok t → t.IsGuarded := by
    intro load h
    cases h
  have hall := perform_isEscaped none 1 ht hloader (.object [("name", .string "<b>")])
    (List.forall_mem_nil _) 0
  exact ⟨ht, hrun, hall.1 _ hrun⟩

end EmbeddedLang.Render
