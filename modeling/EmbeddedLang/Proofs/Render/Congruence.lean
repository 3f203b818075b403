import EmbeddedLang.Proofs.Render.Reports

/-!
Relations between two runs that go step by step through the same instructions.

They may differ in the macros and templates that they run on the way and in the blocks that replace
others, as long as these are related. What a relation has to withstand for this is said here once.
-/

namespace EmbeddedLang.Render

open Template (Instruction Arm)
open Value

/-- Keeps actions in sequence, in scopes of their own and with what they read of the variables.
Results that report no limits but those of `K` are related to themselves. -/
structure Congruence (K : Nat → Prop)
    (R : (α : Type) → Rendering α → Rendering α → Prop) : Prop where
  lift {α : Type} {x : Except RenderError α} : Reports K x → R α (liftResult x) (liftResult x)
  bind {α β : Type} {a b : Rendering α} {f g : α → Rendering β} :
    R α a b → (∀ x, R β (f x) (g x)) → R β (a >>= f) (b >>= g)
  reading {α : Type} {f g : List Scope → Rendering α} : (∀ scopes, R α (f scopes) (g scopes)) →
    R α (do f (← get).scopes) (do g (← get).scopes)
  inScope {α : Type} {a b : Rendering α} (scope : Scope) :
    R α a b → R α (inScope scope a) (inScope scope b)

variable {K : Nat → Prop} {R : (α : Type) → Rendering α → Rendering α → Prop}

namespace Congruence

variable {α β : Type} {a b : Rendering α}

theorem pure (h : Congruence K R) (x : α) : R α (Pure.pure x) (Pure.pure x) :=
  h.lift (.ok x)

theorem throw (h : Congruence K R) {e : RenderError} (he : ∀ n, e = .recursionLimit n → K n) :
    R α (throw e) (throw e) :=
  h.lift (.error he)

theorem map (h : Congruence K R) (f : α → β) (hab : R α a b) : R β (f <$> a) (f <$> b) := by
  rw [← bind_pure_comp, ← bind_pure_comp]
  exact h.bind hab fun x => h.pure (f x)

end Congruence

/-- A condition on actions that they keep when they are put together. -/
structure Closed (P : (α : Type) → Rendering α → Prop) : Prop where
  lift {α : Type} (x : Except RenderError α) : P α (liftResult x)
  bind {α β : Type} {a : Rendering α} {f : α → Rendering β} :
    P α a → (∀ x, P β (f x)) → P β (a >>= f)
  reading {α : Type} {f : List Scope → Rendering α} : (∀ scopes, P α (f scopes)) →
    P α (do f (← get).scopes)
  inScope {α : Type} {a : Rendering α} (scope : Scope) : P α a → P α (inScope scope a)

/-- As a relation, such a condition relates actions to themselves. -/
theorem Closed.congruence {P : (α : Type) → Rendering α → Prop} (h : Closed P) :
    Congruence (fun _ => True) fun α a b => a = b ∧ P α a where
  lift _ := ⟨rfl, h.lift _⟩
  bind hab hfg := ⟨by rw [hab.1, funext fun x => (hfg x).1], h.bind hab.2 fun x => (hfg x).2⟩
  reading hfg := ⟨by rw [funext fun s => (hfg s).1], h.reading fun s => (hfg s).2⟩
  inScope scope hab := ⟨by rw [hab.1], h.inScope scope hab.2⟩

/-- Here sessions may be read and written as a whole. -/
structure SessionCongruence (K : Nat → Prop)
    (R : (α : Type) → Rendering α → Rendering α → Prop) : Prop where
  lift {α : Type} {x : Except RenderError α} : Reports K x → R α (liftResult x) (liftResult x)
  bind {α β : Type} {a b : Rendering α} {f g : α → Rendering β} :
    R α a b → (∀ x, R β (f x) (g x)) → R β (a >>= f) (b >>= g)
  session {α : Type} {f g : Session → Rendering α} : (∀ s, R α (f s) (g s)) →
    R α (get >>= f) (get >>= g)
  modify (f : Session → Session) : R Unit (modify f) (modify f)
  inScope {α : Type} {a b : Rendering α} (scope : Scope) :
    R α a b → R α (inScope scope a) (inScope scope b)

namespace SessionCongruence

theorem congruence (h : SessionCongruence K R) : Congruence K R where
  lift := h.lift
  bind := h.bind
  reading hfg := h.session fun s => hfg s.scopes
  inScope := h.inScope

theorem fragment? (h : SessionCongruence K R) (key : String) :
    R (Option String) (fragment? key) (fragment? key) := by
  refine h.session fun s => ?_
  split
  · split
    · exact h.congruence.pure _
    · exact h.bind (h.modify fun _ => _) fun _ => h.congruence.pure _
  · exact h.congruence.pure _

end SessionCongruence

structure Deeper.Related (R : (α : Type) → Rendering α → Rendering α → Prop) (d d' : Deeper) :
    Prop where
  body : ∀ name scope, R String (d.body name scope) (d'.body name scope)
  template : ∀ name scope, R String (d.template name scope) (d'.template name scope)

structure Deeper.Keeps (P : (α : Type) → Rendering α → Prop) (d : Deeper) : Prop where
  body : ∀ name scope, P String (d.body name scope)
  template : ∀ name scope, P String (d.template name scope)

/-- What the renderer is made of reports no limits but those of `K`. -/
structure Renderer.Reports (K : Nat → Prop) (r : Renderer) : Prop where
  filters : ∀ f ∈ r.filters, ∀ v args, Render.Reports K (f.2 v args)
  tests : ∀ f ∈ r.tests, ∀ v args, Render.Reports K (f.2 v args)
  functions : ∀ f ∈ r.functions, ∀ args, Render.Reports K (f.2 args)
  handlers : ∀ f ∈ r.handlers, ∀ args body, Render.Reports K (f.2 args body)

/-- The same names mean the same in both. -/
structure Renderer.SameLibrary (r r' : Renderer) : Prop where
  filters : r'.filters = r.filters
  tests : r'.tests = r.tests
  functions : r'.functions = r.functions
  handlers : r'.handlers = r.handlers

structure Surroundings.Related (K : Nat → Prop) (R : (α : Type) → Rendering α → Rendering α → Prop)
    (c c' : Surroundings) : Prop where
  library : c.renderer.SameLibrary c'.renderer
  reports : c.renderer.Reports K
  macros : c'.macros = c.macros
  enter : ∀ {α : Type} {f g : Deeper → Rendering α},
    (∀ d d', d.Related R d' → R α (f d) (g d')) → R α (c.enter >>= f) (c'.enter >>= g)

theorem Renderer.reports_any (r : Renderer) : r.Reports fun _ => True := by
  refine ⟨?_, ?_, ?_, ?_⟩ <;> intros <;> exact ⟨fun _ _ => trivial⟩

namespace Surroundings

variable {c c' : Surroundings}

/-- At one and the same limit, both are stopped or none is. -/
theorem enter_related (h : Congruence K R) (hlimit : c'.renderer.maxDepth = c.renderer.maxDepth)
    (hK : K c.renderer.maxDepth) (hd : Option.Rel (Deeper.Related R) c.deeper c'.deeper) {α : Type}
    {f g : Deeper → Rendering α} (hfg : ∀ d d', d.Related R d' → R α (f d) (g d')) :
    R α (c.enter >>= f) (c'.enter >>= g) := by
  unfold enter
  rw [hlimit]
  generalize c.deeper = deeper, c'.deeper = deeper' at hd ⊢
  cases hd with
  | some hd => exact hfg _ _ hd
  | none =>
    apply h.throw
    rintro n ⟨⟩
    exact hK

section

variable (h : Congruence K R) (hc : Related K R c c')

include h hc

theorem call_related (callee : Expr) {args args' : Rendering Arguments}
    (hargs : R Arguments args args') : R Value (c.call callee args) (c'.call callee args') := by
  unfold call
  rw [hc.macros, hc.library.functions]
  split
  · exact h.throw nofun
  · next name _ =>
    split
    · next params _ =>
      refine hc.enter fun d d' hd => h.bind hargs fun args => ?_
      refine h.bind (h.lift (reports_frame name args 0 [] params)) fun scope => ?_
      exact h.bind (hd.body name scope) fun _ => h.pure _
    · split
      · next f hf =>
        have hreports := hc.reports.functions _ (Dictionary.mem_of_get? hf)
        exact h.bind hargs fun args => h.lift (hreports args)
      · exact h.throw nofun

theorem applyFilter_related (name : String) (v : Value) (args : Arguments) :
    R Value (c.applyFilter name v args) (c'.applyFilter name v args) := by
  unfold applyFilter
  rw [hc.library.filters]
  split
  · next f hf => exact h.lift (hc.reports.filters _ (Dictionary.mem_of_get? hf) v args)
  · exact h.throw nofun

theorem applyTest_related (name : String) (v : Value) (args : Arguments) :
    R Bool (c.applyTest name v args) (c'.applyTest name v args) := by
  unfold applyTest
  rw [hc.library.tests]
  split
  · next f hf => exact h.lift (hc.reports.tests _ (Dictionary.mem_of_get? hf) v args)
  · exact h.throw nofun

omit hc in
theorem bound_related (v : Value) : R (Option Int) (bound v) (bound v) := by
  unfold bound
  split
  · exact h.pure _
  · split
    · exact h.pure _
    · exact h.throw nofun

end

mutual

theorem find?_related (h : Congruence K R) (hc : Related K R c c') : (e : Expr) →
R (Option Value) (c.find? e) (c'.find? e)
  | .literal .. => by
    rw [find?, find?]
    exact h.pure _
  | .identifier _ name => by
    rw [find?, find?]
    exact h.reading (f := fun scopes => Pure.pure (lookup? name scopes)) fun _ => h.pure _
  | .unary _ op operand => by
    rw [find?, find?]
    exact h.bind (find?_related h hc operand) fun _ => h.map _ (h.lift (reports_unary _ _))
  | .binary _ op left right => by
    rw [find?, find?]
    refine h.bind (find?_related h hc left) fun _ => ?_
    dsimp only
    split
    · exact h.pure _
    · split
      · exact h.pure _
      · exact h.bind (find?_related h hc right) fun _ => h.map _ (h.lift (reports_binary _ _ _))
  | .call _ callee args _ => by
    rw [find?, find?]
    exact h.map some (call_related h hc callee (h.map toArguments (elements_related h hc args)))
  | .member _ e property => by
    rw [find?, find?]
    exact h.bind (find?_related h hc e) fun _ => h.pure _
  | .index _ e subscript => by
    rw [find?, find?]
    refine h.bind (find?_related h hc e) fun v => ?_
    cases v with
    | none => exact h.pure _
    | some v => exact h.bind (find?_related h hc subscript) fun _ => h.pure _
  | .slice _ e first last => by
    rw [find?, find?]
    refine h.bind (find?_related h hc e) fun _ => h.bind (sliceBound_related h hc first) fun _ => ?_
    exact h.bind (sliceBound_related h hc last) fun _ => h.map _ (h.lift (reports_slice _ _ _))
  | .list _ items => by
    rw [find?, find?]
    exact h.bind (elements_related h hc items) fun _ => h.pure _
  | .grouped _ inner => by
    rw [find?, find?]
    exact find?_related h hc inner
  | .conditional _ condition yes no => by
    rw [find?, find?]
    refine h.bind (find?_related h hc condition) fun _ => ?_
    split
    · exact h.bind (find?_related h hc yes) fun _ => h.pure _
    · exact h.bind (find?_related h hc no) fun _ => h.pure _
  | .filter _ subject name args => by
    rw [find?, find?]
    refine h.bind (find?_related h hc subject) fun _ => ?_
    refine h.bind (elements_related h hc args) fun _ => ?_
    exact h.map some (applyFilter_related h hc name _ _)
  | .defined _ subject negated => by
    rw [find?, find?]
    exact h.bind (find?_related h hc subject) fun _ => h.pure _
  | .test _ subject name args negated => by
    rw [find?, find?]
    refine h.bind (find?_related h hc subject) fun _ => ?_
    refine h.bind (elements_related h hc args) fun _ => ?_
    exact h.bind (applyTest_related h hc name _ _) fun _ => h.pure _
  | .placeholder .. | .star .. | .qualifiedStar .. | .between .. | .isNull .. | .cases ..
  | .cast .. | .existence .. | .subquery .. => by
    rw [find?, find?]
    exact h.throw nofun

theorem elements_related (h : Congruence K R) (hc : Related K R c c') : (items : List Item) →
    R (List (Option String × Value)) (c.elements items) (c'.elements items)
  | [] => by
    rw [elements, elements]
    exact h.pure _
  | item :: rest => by
    rw [elements, elements]
    refine h.bind (element_related h hc item) fun _ => ?_
    exact h.bind (elements_related h hc rest) fun _ => h.pure _

theorem element_related (h : Congruence K R) (hc : Related K R c c') : (item : Item) →
    R (Option String × Value) (c.element item) (c'.element item)
  | ⟨label, e⟩ => by
    rw [element, element]
    exact h.bind (find?_related h hc e) fun _ => h.pure _

theorem sliceBound_related (h : Congruence K R) (hc : Related K R c c') : (e : Option Expr) →
    R (Option Int) (c.sliceBound e) (c'.sliceBound e)
  | none => by
    rw [sliceBound, sliceBound]
    exact h.pure _
  | some e => by
    rw [sliceBound, sliceBound]
    exact h.bind (find?_related h hc e) fun _ => bound_related h _

end

theorem value_related (h : Congruence K R) (hc : Related K R c c') (e : Expr) :
    R Value (c.value e) (c'.value e) :=
  h.map _ (find?_related h hc e)

theorem isSafe_related (hc : Related K R c c') (e : Expr) : c'.isSafe e = c.isSafe e := by
  unfold isSafe
  rw [hc.macros]

end Surroundings

namespace Context

variable {c c' : Context}

/-- The last step of an assignment. -/
def assigning (name : String) (v : Value) : Rendering Unit :=
  modify fun s => { s with scopes := assign name v s.scopes }

section

variable (h : Congruence K R)
  (hc : Surroundings.Related K R c.toSurroundings c'.toSurroundings)

include h hc

theorem value_related (e : Expr) : R Value (c.value e) (c'.value e) :=
  Surroundings.value_related h hc e

theorem output_related (e : Expr) (escape : Bool) :
    R String (c.output e escape) (c'.output e escape) := by
  unfold output
  rw [Surroundings.isSafe_related hc]
  exact h.bind (value_related h hc e) fun _ => h.pure _

theorem keeps_related (filter : Option Expr) (scope : Scope) :
    R Bool (c.keeps filter scope) (c'.keeps filter scope) := by
  cases filter with
  | none => exact h.pure _
  | some e => exact h.bind (h.inScope scope (value_related h hc e)) fun _ => h.pure _

theorem kept_related (key : Option String) (name : String) (filter : Option Expr)
    (found more : List (Value × Value)) :
    R (List (Value × Value)) (c.kept key name filter found more)
      (c'.kept key name filter found more) := by
  induction more generalizing found with
  | nil => exact h.pure _
  | cons entry rest ih => exact h.bind (keeps_related h hc filter _) fun _ => ih _

omit hc in
theorem rounds_related (key : Option String) (name : String) {body body' : Rendering Outcome}
    (hbody : R Outcome body body') (length index : Nat) (text : String)
    (more : List (Value × Value)) :
    R String (rounds key name body length index text more)
      (rounds key name body' length index text more) := by
  induction more generalizing index text with
  | nil => exact h.pure _
  | cons entry rest ih =>
    refine h.bind (h.inScope _ hbody) fun round => ?_
    dsimp only
    split
    · exact h.pure _
    · exact ih _ _

theorem assignTo_related (name : String) (op : Template.AssignOp) (e : Expr)
    (hassign : ∀ v, R Unit (assigning name v) (assigning name v)) :
    R Unit (c.assignTo name op e) (c'.assignTo name op e) := by
  refine h.bind (value_related h hc e) fun v => ?_
  let after (scopes : List Scope) : Rendering Unit := do
    assigning name (← liftResult (updated op (lookup? name scopes) v))
  refine h.reading (f := after) (g := after) fun scopes => ?_
  exact h.bind (h.lift (reports_updated _ _ _)) hassign

theorem inclusion_related (template : Expr) (context : Option Expr) :
    R String (c.inclusion template context) (c'.inclusion template context) := by
  refine h.bind (value_related h hc template) fun name => ?_
  have hafter (scopes : List Scope) (extra : Value) : R String
      (do
        let scope ← liftResult (included scopes extra)
        let d ← c.enter
        d.template name.display scope)
      (do
        let scope ← liftResult (included scopes extra)
        let d ← c'.enter
        d.template name.display scope) := by
    refine h.bind (h.lift (reports_included _ _)) fun scope => ?_
    exact hc.enter fun d d' hd => hd.template _ scope
  cases context with
  | none => exact h.reading fun scopes => h.bind (h.pure null) (hafter scopes)
  | some e => exact h.reading fun scopes => h.bind (value_related h hc e) (hafter scopes)

theorem values_related (es : List Expr) : R (List Value) (c.values es) (c'.values es) := by
  induction es with
  | nil => exact h.pure _
  | cons e rest ih => exact h.bind (value_related h hc e) fun _ => h.bind ih fun _ => h.pure _

theorem custom_related (name : String) (args : List Expr)
    {body body' : Option (Rendering Outcome)} (hbody : Option.Rel (R Outcome) body body') :
    R Outcome (c.custom name args body) (c'.custom name args body') := by
  unfold custom
  rw [hc.library.handlers]
  split
  · exact h.throw nofun
  · next handler hhandler =>
    have hreports := hc.reports.handlers _ (Dictionary.mem_of_get? hhandler)
    refine h.bind (values_related h hc args) fun args => ?_
    cases hbody with
    | none => exact h.bind (h.lift (hreports _ _)) fun _ => h.pure _
    | some hbody =>
      exact h.bind hbody fun inner => h.bind (h.lift (hreports _ _)) fun _ => h.pure _


end

/-- What a relation has to withstand besides: assignments, what replaces blocks, and what is kept of
cached bodies. -/
def StepRelated (R : (α : Type) → Rendering α → Rendering α → Prop) (c c' : Context) :
    Instruction → Prop
  | .assign name _ _ => ∀ v, R Unit (assigning name v) (assigning name v)
  | .block name _ => Option.Rel (R Outcome) (c.override name) (c'.override name)
  | .fragment key lifetime body => R Outcome (c.exec body) (c'.exec body) →
    R Outcome (c.cached key lifetime (c.exec body)) (c'.cached key lifetime (c'.exec body))
  | _ => True

theorem stepRelated (h : SessionCongruence K R)
    (hc : Surroundings.Related K R c.toSurroundings c'.toSurroundings)
    (ho : ∀ name, Option.Rel (R Outcome) (c.override name) (c'.override name)) (i : Instruction) :
    StepRelated R c c' i := by
  cases i with
  | assign => exact fun _ => h.modify _
  | block name => exact ho name
  | fragment key lifetime body =>
    intro hbody
    refine h.bind (value_related h.congruence hc key) fun v => h.session fun s => ?_
    refine h.bind (h.fragment? v.display) fun found => ?_
    cases found with
    | some text => exact h.congruence.pure _
    | none =>
      exact h.bind hbody fun made => h.bind (h.modify _) fun _ => h.congruence.pure made
  | _ => trivial

mutual

theorem step_related (h : Congruence K R)
    (hc : Surroundings.Related K R c.toSurroundings c'.toSurroundings) : (i : Instruction) →
    (∀ j ∈ i.walk, StepRelated R c c' j) → R Outcome (c.step i) (c'.step i)
  | .literal _, _ | .leave, _ | .proceed, _ => by
    rw [step, step]
    exact h.pure _
  | .output e escape, _ => by
    rw [step, step]
    exact h.bind (output_related h hc e escape) fun _ => h.pure _
  | .choice branches otherwise, hsteps => by
    rw [step, step]
    obtain ⟨-, hsteps⟩ := List.forall_mem_cons.mp hsteps
    obtain ⟨hb, ho⟩ := List.forall_mem_append.mp hsteps
    exact arms_related h hc branches hb (exec_related h hc otherwise ho)
  | .loop key name iterable filter body otherwise, hsteps => by
    rw [step, step]
    obtain ⟨-, hsteps⟩ := List.forall_mem_cons.mp hsteps
    obtain ⟨hb, ho⟩ := List.forall_mem_append.mp hsteps
    refine h.bind (value_related h hc iterable) fun v => ?_
    refine h.bind (h.lift (reports_entries v)) fun found => ?_
    refine h.bind (kept_related h hc key name filter [] found) fun found => ?_
    split
    · exact exec_related h hc otherwise ho
    · have hbody := exec_related h hc body hb
      exact h.bind (rounds_related h key name hbody _ 0 "" found) fun _ => h.pure _
  | .assign name op e, hsteps => by
    rw [step, step]
    obtain ⟨hassign, -⟩ := List.forall_mem_cons.mp hsteps
    exact h.bind (assignTo_related h hc name op e hassign) fun _ => h.pure _
  | .evaluate e, _ => by
    rw [step, step]
    exact h.bind (value_related h hc e) fun _ => h.pure _
  | .block name body, hsteps => by
    rw [step, step]
    obtain ⟨hname, hb⟩ := List.forall_mem_cons.mp hsteps
    have hname : Option.Rel (R Outcome) (c.override name) (c'.override name) := hname
    generalize c.override name = found, c'.override name = found' at hname ⊢
    cases hname with
    | none => exact exec_related h hc body hb
    | some hother => exact hother
  | .inclusion template context, _ => by
    rw [step, step]
    exact h.bind (inclusion_related h hc template context) fun _ => h.pure _
  | .fragment key lifetime body, hsteps => by
    rw [step, step]
    obtain ⟨hcached, hb⟩ := List.forall_mem_cons.mp hsteps
    exact hcached (exec_related h hc body hb)
  | .extension name args none, _ => by
    rw [step, step, optional, optional]
    exact custom_related h hc name args .none
  | .extension name args (some body), hsteps => by
    rw [step, step, optional, optional]
    obtain ⟨-, hb⟩ := List.forall_mem_cons.mp hsteps
    exact custom_related h hc name args (.some (exec_related h hc body hb))

theorem exec_related (h : Congruence K R)
    (hc : Surroundings.Related K R c.toSurroundings c'.toSurroundings) : (is : List Instruction) →
    (∀ j ∈ Template.walkInstructions is, StepRelated R c c' j) →
    R Outcome (c.exec is) (c'.exec is)
  | [], _ => by
    rw [exec, exec]
    exact h.pure _
  | i :: rest, hsteps => by
    rw [exec, exec]
    obtain ⟨hi, hrest⟩ := List.forall_mem_append.mp hsteps
    refine h.bind (step_related h hc i hi) fun first => ?_
    split
    · exact h.bind (exec_related h hc rest hrest) fun _ => h.pure _
    · exact h.pure _

theorem arms_related (h : Congruence K R)
    (hc : Surroundings.Related K R c.toSurroundings c'.toSurroundings) : (branches : List Arm) →
    (∀ j ∈ Template.walkArms branches, StepRelated R c c' j) →
    {otherwise otherwise' : Rendering Outcome} → R Outcome otherwise otherwise' →
    R Outcome (c.arms branches otherwise) (c'.arms branches otherwise')
  | [], _, _, _, ho => by
    rw [arms, arms]
    exact ho
  | ⟨condition, body⟩ :: rest, hsteps, _, _, ho => by
    rw [arms, arms]
    obtain ⟨hb, hrest⟩ := List.forall_mem_append.mp hsteps
    refine h.bind (value_related h hc condition) fun v => ?_
    split
    · exact exec_related h hc body hb
    · exact arms_related h hc rest hrest ho

end

/-! ### Conditions on one run -/

variable {P : (α : Type) → Rendering α → Prop}

/-- What a condition on actions has to withstand besides. -/
def StepKeeps (c : Context) (P : (α : Type) → Rendering α → Prop) : Instruction → Prop
  | .assign name _ _ => ∀ v, P Unit (assigning name v)
  | .block name _ => ∀ other ∈ c.override name, P Outcome other
  | .fragment key lifetime body =>
    P Outcome (c.exec body) → P Outcome (c.cached key lifetime (c.exec body))
  | _ => True

theorem rel_self {α : Type} {p : α → Prop} {o : Option α} (h : ∀ a ∈ o, p a) :
    Option.Rel (fun a b => a = b ∧ p a) o o := by
  cases o with
  | none => exact .none
  | some a => exact .some ⟨rfl, h a rfl⟩

section

variable (h : Closed P) (hd : ∀ d ∈ c.deeper, d.Keeps P)

include h hd

theorem related_self : Surroundings.Related (fun _ => True) (fun α a b => a = b ∧ P α a)
    c.toSurroundings c.toSurroundings := by
  refine ⟨⟨rfl, rfl, rfl, rfl⟩, c.renderer.reports_any, rfl, ?_⟩
  apply Surroundings.enter_related h.congruence rfl trivial
  cases hdeeper : c.deeper with
  | none => exact .none
  | some d =>
    have hd := hd d hdeeper
    exact .some ⟨fun name scope => ⟨rfl, hd.body name scope⟩,
      fun name scope => ⟨rfl, hd.template name scope⟩⟩

theorem value_keeps (e : Expr) : P Value (c.value e) :=
  (value_related h.congruence (related_self h hd) e).2

theorem exec_keeps (is : List Instruction)
    (his : ∀ i ∈ Template.walkInstructions is, c.StepKeeps P i) : P Outcome (c.exec is) := by
  refine (exec_related h.congruence (related_self h hd) is fun i hi => ?_).2
  have hkeeps := his i hi
  cases i with
  | assign => exact fun v => ⟨rfl, hkeeps v⟩
  | block => exact rel_self hkeeps
  | fragment => exact fun hbody => ⟨rfl, hkeeps hbody.2⟩
  | _ => trivial

end

end Context

end EmbeddedLang.Render
