import EmbeddedLang.Proofs.Render.Frame
import EmbeddedLang.Proofs.Render.Settling

/-!
Variables change by the assignments that are executed, and by nothing else.

Which assignments a run executes is told step by step, with the session that each one starts from.
Macros and includes are not entered: what they assign is in scopes of their own.
-/

namespace EmbeddedLang.Render

open Template (Instruction Arm)

namespace Context

variable (c : Context)

/-- The body that a choice goes on with. -/
def chosen : List Arm → List Instruction → Rendering (List Instruction)
  | [], otherwise => return otherwise
  | ⟨condition, body⟩ :: rest, otherwise => do
    if (← c.value condition).isTruthy then return body else chosen rest otherwise

/-- The entries that a loop goes over. -/
def selected (key : Option String) (name : String) (iterable : Expr) (filter : Option Expr) :
    Rendering (List (Value × Value)) := do
  let found ← liftResult (entries (← c.value iterable))
  c.kept key name filter [] found

theorem step_loop (key : Option String) (name : String) (iterable : Expr) (filter : Option Expr)
    (body otherwise : List Instruction) :
    c.step (.loop key name iterable filter body otherwise) = (do
      let found ← c.selected key name iterable filter
      if found.isEmpty then c.exec otherwise
      else return .done (← rounds key name (c.exec body) found.length 0 "" found)) := by
  rw [step, selected]
  simp only [bind_assoc]

end Context

/-- The variables that one round of a loop has for itself. -/
def loopScope (key : Option String) (name : String) (length index : Nat) (entry : Value × Value) :
    Scope :=
  Dictionary.put "loop" (loopVariable index length) (roundScope key name entry)

theorem not_loopVariable {key : Option String} {name n : String} {length index : Nat}
    {entry : Value × Value} (h : Dictionary.get? n (loopScope key name length index entry) = none) :
    n ≠ "loop" ∧ n ≠ name ∧ key ≠ some n := by
  have hhas : Dictionary.has n (loopScope key name length index entry) = false := by
    rw [Dictionary.has, h]
    rfl
  unfold loopScope roundScope at hhas
  rw [Dictionary.has_put, Dictionary.has_put, Bool.or_eq_false_iff, Bool.or_eq_false_iff,
    beq_eq_false_iff_ne, beq_eq_false_iff_ne] at hhas
  obtain ⟨hloop, hname, hkey⟩ := hhas
  refine ⟨hloop, hname, ?_⟩
  rintro rfl
  rw [Dictionary.has_put, Bool.or_eq_false_iff, beq_eq_false_iff_ne] at hkey
  exact hkey.1 rfl

/-- A round of the loop starts in the last of these sessions. -/
inductive RoundStarts (key : Option String) (name : String) (body : Rendering Outcome)
    (length : Nat) : Nat → List (Value × Value) → Session → Session → Prop where
  | here {index : Nat} {entry : Value × Value} {rest : List (Value × Value)} {s : Session} :
      RoundStarts key name body length index (entry :: rest) s
        { s with scopes := loopScope key name length index entry :: s.scopes }
  | next {index : Nat} {entry : Value × Value} {rest : List (Value × Value)} {s t u : Session}
      {round : Outcome}
      (h : inScope (loopScope key name length index entry) body s = .ok round t)
      (hflow : round.flow ≠ .leave) (hs : RoundStarts key name body length (index + 1) rest t u) :
      RoundStarts key name body length index (entry :: rest) s u

/-- What runs the instructions of a program, and inside its blocks those of a block. -/
def Program.context (p : Program) (r : Renderer) (depth : Nat) (inBlock : Bool) : Context :=
  if inBlock then p.inner r depth else p.outer r depth

theorem run_eq_context (p : Program) (r : Renderer) (depth : Nat) (is : List Instruction) :
    run r depth p is = do return (← (p.context r depth false).exec is).text :=
  run_eq r depth p is

variable (p : Program) (r : Renderer) (depth : Nat)

mutual

/-- Run in this session, the instructions execute an assignment to the variable of this name. -/
inductive Assigns : Bool → List Instruction → Session → String → Prop where
  | head {b : Bool} {i : Instruction} {rest : List Instruction} {s : Session} {name : String}
      (h : StepAssigns b i s name) : Assigns b (i :: rest) s name
  | tail {b : Bool} {i : Instruction} {rest : List Instruction} {s t : Session} {text name : String}
      (hi : (p.context r depth b).step i s = .ok ⟨text, .normal⟩ t) (h : Assigns b rest t name) :
      Assigns b (i :: rest) s name

inductive StepAssigns : Bool → Instruction → Session → String → Prop where
  | assign {b : Bool} {name : String} {op : Template.AssignOp} {e : Expr} {s t : Session}
      (h : (p.context r depth b).assignTo name op e s = .ok () t) :
      StepAssigns b (.assign name op e) s name
  | choice {b : Bool} {branches : List Arm} {otherwise body : List Instruction} {s t : Session}
      {name : String} (hb : (p.context r depth b).chosen branches otherwise s = .ok body t)
      (h : Assigns b body t name) : StepAssigns b (.choice branches otherwise) s name
  | round {b : Bool} {key : Option String} {element : String} {iterable : Expr}
      {filter : Option Expr} {body otherwise : List Instruction} {s t u : Session}
      {found : List (Value × Value)} {name : String}
      (hf : (p.context r depth b).selected key element iterable filter s = .ok found t)
      (hr : RoundStarts key element ((p.context r depth b).exec body) found.length 0 found t u)
      (h : Assigns b body u name) :
      StepAssigns b (.loop key element iterable filter body otherwise) s name
  | otherwise {b : Bool} {key : Option String} {element : String} {iterable : Expr}
      {filter : Option Expr} {body otherwise : List Instruction} {s t : Session} {name : String}
      (hf : (p.context r depth b).selected key element iterable filter s = .ok [] t)
      (h : Assigns b otherwise t name) :
      StepAssigns b (.loop key element iterable filter body otherwise) s name
  | block {b : Bool} {block : String} {body : List Instruction} {s : Session} {name : String}
      (hn : (p.context r depth b).override block = none) (h : Assigns b body s name) :
      StepAssigns b (.block block body) s name
  | replaced {block : String} {body other : List Instruction} {s : Session} {name : String}
      (ho : Dictionary.get? block p.blocks = some other) (h : Assigns true other s name) :
      StepAssigns false (.block block body) s name
  | fragment {b : Bool} {key : Expr} {lifetime : Option Nat} {body : List Instruction}
      {s t u : Session} {v : Value} {name : String}
      (hv : (p.context r depth b).value key s = .ok v t) (hm : fragment? v.display t = .ok none u)
      (h : Assigns b body u name) : StepAssigns b (.fragment key lifetime body) s name
  | extension {b : Bool} {tag : String} {args : List Expr} {body : List Instruction}
      {s t : Session} {vs : List Value} {name : String}
      (ht : (Dictionary.get? tag r.handlers).isSome)
      (hv : (p.context r depth b).values args s = .ok vs t) (h : Assigns b body t name) :
      StepAssigns b (.extension tag args (some body)) s name

end

/-! ### What assignments change -/

section frames

variable {p r depth}

theorem FramedAt.of_restores_bind {α β : Type} {A : String → Prop} {s : Session} {a : Rendering α}
    {f : α → Rendering β} (h : Restores a) (hf : ∀ x t, a s = .ok x t → FramedAt A t (f x)) :
    FramedAt A s (a >>= f) :=
  (h.framedAt s).bind hf

namespace Context

variable {c : Context} (hd : ∀ d ∈ c.deeper, d.Keeps fun _ => Restores)

include hd

theorem value_restores (e : Expr) : Restores (c.value e) :=
  value_keeps Restores.closed hd e

theorem kept_restores (key : Option String) (name : String) (filter : Option Expr)
    (found more : List (Value × Value)) : Restores (c.kept key name filter found more) :=
  (kept_related Restores.closed.congruence (related_self Restores.closed hd) key name filter found
    more).2

theorem values_restores (es : List Expr) : Restores (c.values es) :=
  (values_related Restores.closed.congruence (related_self Restores.closed hd) es).2

theorem inclusion_restores (template : Expr) (context : Option Expr) :
    Restores (c.inclusion template context) :=
  (inclusion_related Restores.closed.congruence (related_self Restores.closed hd) template
    context).2

theorem selected_restores (key : Option String) (name : String) (iterable : Expr)
    (filter : Option Expr) : Restores (c.selected key name iterable filter) := by
  refine (value_restores hd iterable).bind fun v => (Restores.liftResult _).bind fun found => ?_
  exact kept_restores hd key name filter [] found

theorem assignTo_framed {A : String → Prop} {s : Session} (name : String) (op : Template.AssignOp)
    (e : Expr) (hA : ∀ t, c.assignTo name op e s = .ok () t → A name) :
    FramedAt A s (c.assignTo name op e) := by
  refine .of_restores_bind (value_restores hd e) fun v t hv => ?_
  have hget : (get : Rendering Session) t = .ok t t := rfl
  refine .of_restores_bind .get fun u t' hu => ?_
  cases hu
  refine .of_restores_bind (Restores.liftResult _) fun w t' hw => ?_
  have hassigned :
      c.assignTo name op e s = .ok () { t' with scopes := assign name w t'.scopes } := by
    rw [assignTo, bind_of_ok hv, bind_of_ok hget, bind_of_ok hw]
    rfl
  refine Frame.mono (Frame.assign name w t'.scopes) ?_
  rintro _ rfl
  exact hA _ hassigned

omit hd in
theorem rounds_framed {A : String → Prop} {key : Option String} {name : String}
    {body : Rendering Outcome} {length : Nat} {more : List (Value × Value)} {index : Nat}
    (text : String) {s : Session}
    (h : ∀ u, RoundStarts key name body length index more s u → FramedAt A u body) :
    FramedAt (fun n => A n ∧ n ≠ "loop" ∧ n ≠ name ∧ key ≠ some n) s
      (rounds key name body length index text more) := by
  induction more generalizing index text s with
  | nil => exact .pure _
  | cons entry rest ih =>
    have hround := (h _ .here).inScope
    refine FramedAt.bind (hround.mono fun n hn => ⟨hn.1, not_loopVariable hn.2⟩) ?_
    intro round t hr
    dsimp only
    split
    · exact .pure _
    · rename_i hflow
      exact ih _ fun u hu => h u (.next hr hflow hu)

end Context

theorem context_restores {b : Bool} :
    ∀ d ∈ (p.context r depth b).deeper, d.Keeps fun _ => Restores := by
  cases b <;> exact restores_deeperOf r depth p

/-- The block that stands for another one assigns as it does. -/
abbrev Replaced (p : Program) (r : Renderer) (depth : Nat) (b : Bool) : Prop :=
  ∀ block body other, (p.context r depth b).override block = some other → ∀ s,
    FramedAt (StepAssigns p r depth b (.block block body) s) s other

mutual

theorem step_framed {b : Bool} (ho : Replaced p r depth b) {A : String → Prop} {s : Session} :
    (i : Instruction) → (∀ name, StepAssigns p r depth b i s name → A name) →
    FramedAt A s ((p.context r depth b).step i)
  | .choice branches otherwise, h => by
    rw [Context.step]
    exact arms_framed ho (exec_framed ho otherwise) branches fun hb hn => h _ (.choice hb hn)
  | .loop key name iterable filter body otherwise, h => by
    rw [Context.step_loop]
    refine .of_restores_bind
      (Context.selected_restores context_restores key name iterable filter) ?_
    intro found t hf
    split
    · rename_i hempty
      cases List.isEmpty_iff.mp hempty
      exact exec_framed ho otherwise fun n hn => h n (.otherwise hf hn)
    · have hrounds := Context.rounds_framed (A := A) "" fun u hu =>
        exec_framed ho body fun n hn => h n (.round hf hu hn)
      exact FramedAt.bind (hrounds.mono fun n hn => hn.1) fun _ _ _ => .pure _
  | .block name body, h => by
    rw [Context.step]
    split
    · rename_i other hother
      exact (ho name body other hother s).mono h
    · rename_i hnone
      exact exec_framed ho body fun n hn => h n (.block hnone hn)
  | .fragment key lifetime body, h => by
    rw [Context.step, Context.cached]
    refine .of_restores_bind (Context.value_restores context_restores key) fun v t hv => ?_
    refine .of_restores_bind .get fun start t' hstart => ?_
    cases hstart
    refine .of_restores_bind (.fragment? v.display) fun kept u hkept => ?_
    cases kept with
    | some text => exact .pure _
    | none =>
      refine (exec_framed ho body fun n hn => h n (.fragment hv hkept hn)).bind ?_
      intro found u' _
      exact .of_restores_bind (.keepFragment _ _ _ _) fun _ _ _ => .pure _
  | .extension name args none, _ => by
    rw [Context.step, Context.optional, Context.custom]
    split
    · exact (Restores.throw _).framedAt s
    · refine .of_restores_bind (Context.values_restores context_restores args) fun vs t _ => ?_
      exact .of_restores_bind (.liftResult _) fun _ _ _ => .pure _
  | .extension name args (some body), h => by
    rw [Context.step, Context.optional, Context.custom]
    split
    · exact (Restores.throw _).framedAt s
    · rename_i handler hhandler
      have hknown : (Dictionary.get? name r.handlers).isSome := by
        cases b <;> exact Option.isSome_of_eq_some hhandler
      refine .of_restores_bind (Context.values_restores context_restores args) fun vs t hvs => ?_
      refine (exec_framed ho body fun n hn => h n (.extension hknown hvs hn)).bind ?_
      exact fun _ _ _ => .of_restores_bind (.liftResult _) fun _ _ _ => .pure _
  | .assign name op e, h => by
    rw [Context.step]
    refine (Context.assignTo_framed context_restores name op e fun t ht =>
      h name (.assign ht)).bind ?_
    exact fun _ _ _ => .pure _
  | .literal _, _ | .leave, _ | .proceed, _ => by
    rw [Context.step]
    exact .pure _
  | .output e escape, _ => by
    rw [Context.step, Context.output]
    refine .of_restores_bind ?_ fun _ _ _ => .pure _
    exact (Context.value_restores context_restores e).bind fun _ => .pure _
  | .evaluate e, _ => by
    rw [Context.step]
    exact .of_restores_bind (Context.value_restores context_restores e) fun _ _ _ => .pure _
  | .inclusion template context, _ => by
    rw [Context.step]
    exact .of_restores_bind (Context.inclusion_restores context_restores template context)
      fun _ _ _ => .pure _

theorem exec_framed {b : Bool} (ho : Replaced p r depth b) {A : String → Prop} {s : Session} :
    (is : List Instruction) → (∀ name, Assigns p r depth b is s name → A name) →
    FramedAt A s ((p.context r depth b).exec is)
  | [], _ => by
    rw [Context.exec]
    exact .pure _
  | i :: rest, h => by
    rw [Context.exec]
    refine (step_framed ho i fun name hi => h name (.head hi)).bind fun first t hi => ?_
    obtain ⟨text, flow⟩ := first
    dsimp only
    split
    · rename_i hflow
      cases hflow
      refine (exec_framed ho rest fun name hrest => h name (.tail hi hrest)).bind ?_
      exact fun _ _ _ => .pure _
    · exact .pure _

theorem arms_framed {b : Bool} (ho : Replaced p r depth b) {A : String → Prop} {s : Session}
    {otherwise : List Instruction} (hother : ∀ {s : Session},
      (∀ name, Assigns p r depth b otherwise s name → A name) →
      FramedAt A s ((p.context r depth b).exec otherwise)) :
    (branches : List Arm) → (∀ {body t name},
      (p.context r depth b).chosen branches otherwise s = .ok body t →
      Assigns p r depth b body t name → A name) →
    FramedAt A s ((p.context r depth b).arms branches ((p.context r depth b).exec otherwise))
  | [], h => by
    rw [Context.arms]
    exact hother fun name hn => h rfl hn
  | ⟨condition, body⟩ :: rest, h => by
    rw [Context.arms]
    refine .of_restores_bind (Context.value_restores context_restores condition) fun v t hv => ?_
    split
    · rename_i htrue
      have hchosen : (p.context r depth b).chosen (⟨condition, body⟩ :: rest) otherwise s =
          .ok body t := by
        rw [Context.chosen, bind_of_ok hv, if_pos htrue]
        rfl
      exact exec_framed ho body fun name hn => h hchosen hn
    · rename_i hfalse
      have hchosen : (p.context r depth b).chosen (⟨condition, body⟩ :: rest) otherwise s =
          (p.context r depth b).chosen rest otherwise t := by
        rw [Context.chosen, bind_of_ok hv, if_neg hfalse]
      exact arms_framed ho hother rest fun hb hn => h (hchosen.trans hb) hn

end

theorem replaced (b : Bool) : Replaced p r depth b := by
  intro block body other hother s
  cases b with
  | true => cases hother
  | false =>
    obtain ⟨instead, hblock, rfl⟩ := Option.map_eq_some_iff.mp hother
    have hinner : Replaced p r depth true := fun _ _ _ h => by cases h
    exact exec_framed hinner instead fun name hn => .replaced hblock hn

end frames

/-! ### Macros apart from the variables around them -/

/-- The same result with other scopes in place of those that it leaves. -/
def inScopes {α : Type} (scopes : List Scope) :
    EStateM.Result RenderError Session α → EStateM.Result RenderError Session α
  | .ok x s => .ok x { s with scopes := scopes }
  | .error e s => .error e { s with scopes := scopes }

/-- Whatever the scopes are, the action does the same and leaves them alone. -/
def Apart {α : Type} (a : Rendering α) : Prop :=
  ∀ s scopes, a { s with scopes := scopes } = inScopes scopes (a s)

namespace Apart

variable {α β : Type} {a : Rendering α}

theorem pure (x : α) : Apart (Pure.pure x : Rendering α) := fun _ _ => rfl

theorem throw (e : RenderError) : Apart (throw e : Rendering α) := fun _ _ => rfl

theorem bind {f : α → Rendering β} (h : Apart a) (hf : ∀ x, Apart (f x)) : Apart (a >>= f) := by
  intro s scopes
  have hs := h s scopes
  cases ha : a s with
  | error e t =>
    rw [ha] at hs
    rw [bind_of_error ha, bind_of_error hs]
    rfl
  | ok x t =>
    rw [ha] at hs
    rw [bind_of_ok ha, bind_of_ok hs]
    exact hf x t scopes

theorem liftResult (x : Except RenderError α) : Apart (liftResult x) := by
  cases x with
  | ok x => exact pure x
  | error e => exact throw e

theorem inFreshScope (scope : Scope) (a : Rendering α) : Apart (inFreshScope scope a) := by
  intro s scopes
  change withScopes (fun _ => [scope]) (fun _ => scopes) a { s with scopes := scopes } =
    inScopes scopes (withScopes (fun _ => [scope]) (fun _ => s.scopes) a s)
  unfold withScopes
  split
  · next ha => rw [ha]; rfl
  · next ha => rw [ha]; rfl

end Apart

/-- Of the variables around it, a call knows its arguments. -/
theorem call_apart {c : Surroundings} (hd : ∀ d ∈ c.deeper, ∀ name scope, Apart (d.body name scope))
    (callee : Expr) (args : Arguments) : Apart (c.call callee (pure args)) := by
  have henter {f : Deeper → Rendering Value} (hf : ∀ d ∈ c.deeper, Apart (f d)) :
      Apart (c.enter >>= f) := by
    unfold Surroundings.enter
    cases hdeeper : c.deeper with
    | some d =>
      dsimp only
      rw [pure_bind]
      exact hf d hdeeper
    | none => exact fun _ _ => rfl
  unfold Surroundings.call
  split
  · exact .throw _
  · split
    · refine henter fun d hdeeper => (Apart.pure args).bind fun args => ?_
      refine (Apart.liftResult _).bind fun scope => ?_
      exact (hd d hdeeper _ scope).bind fun _ => .pure _
    · split
      · exact (Apart.pure args).bind fun args => .liftResult _
      · exact .throw _

theorem deeper_apart {p : Program} {r : Renderer} {depth : Nat} {b : Bool} :
    ∀ d ∈ (p.context r depth b).deeper, ∀ name scope, Apart (d.body name scope) := by
  cases b <;> cases depth <;> rintro d ⟨⟩ <;> exact fun _ scope => .inFreshScope scope _

/-! ### Scopes of a rendering -/

/-- In every session of a rendering, wherever in a program it stands. Expressions leave the scopes
as they are. Instructions change what is assigned on the way, and rounds of a loop leave alone what
has the name of a loop's own variable. A call knows its arguments and no variables around it. What
follows an expression or instructions goes on as deep as they began. -/
theorem scopes_keep (p : Program) (r : Renderer) (depth : Nat) (inBlock : Bool) :
    let c := p.context r depth inBlock
    (∀ e s, (sessionOf (c.value e s)).scopes = s.scopes) ∧
    (∀ is s, Frame (Assigns p r depth inBlock is s) s.scopes (sessionOf (c.exec is s)).scopes) ∧
    (∀ key name body length index text more s,
      Frame (fun n => n ≠ "loop" ∧ n ≠ name ∧ key ≠ some n) s.scopes
        (sessionOf (Context.rounds key name (c.exec body) length index text more s)).scopes) ∧
    (∀ callee args s scopes, c.call callee (pure args) { s with scopes := scopes } =
      inScopes scopes (c.call callee (pure args) s)) ∧
    (∀ e is, c.exec (.evaluate e :: is) = do
      let _ ← c.value e
      c.exec is) ∧
    ∀ is js, c.exec (is ++ js) = inTurn (c.exec is) (c.exec js) := by
  dsimp only
  refine ⟨Context.value_restores context_restores, ?_, ?_, ?_, ?_, Context.exec_append _⟩
  · intro is s
    exact exec_framed (replaced inBlock) is fun _ h => h
  · intro key name body length index text more s
    have hround (u : Session)
        (_ : RoundStarts key name ((p.context r depth inBlock).exec body) length index more s u) :
        FramedAt (fun _ => True) u ((p.context r depth inBlock).exec body) :=
      exec_framed (replaced inBlock) body fun _ _ => trivial
    exact (Context.rounds_framed text hround).mono fun _ h => h.2
  · intro callee args
    exact call_apart deeper_apart callee args
  · intro e is
    rw [Context.exec_cons, Context.step]
    simp [inTurn, Outcome.done]

end EmbeddedLang.Render
