import EmbeddedLang.Proofs.Render.Assigned
import EmbeddedLang.Proofs.Render.Builtins

/-!
Variables whose values are ordered stay so.

Every value that a template computes is made of its variables by operators, filters and functions,
and so it is ordered if these return ordered values, as the standard ones do.
-/

namespace EmbeddedLang.Render

open Template (Instruction Arm CompiledTemplate)
open Value

def Session.IsOrdered (s : Session) : Prop :=
  ∀ scope ∈ s.scopes, OrderedFields scope

theorem Session.IsOrdered.lookup? {s : Session} (h : s.IsOrdered) (name : String) :
    ∀ v ∈ lookup? name s.scopes, v.IsOrdered := by
  intro v hv
  obtain ⟨scope, hscope, hv⟩ := List.exists_of_findSome?_eq_some hv
  exact (h scope hscope).get? name v hv

/-- Run with ordered variables, the action leaves ordered variables behind if it succeeds, and its
result satisfies `post`. -/
def Orderly {α : Type} (action : Rendering α) (post : α → Prop) : Prop :=
  ∀ s a t, s.IsOrdered → action s = .ok a t → post a ∧ t.IsOrdered

namespace Orderly

variable {α β : Type} {action : Rendering α} {post : α → Prop} {x : Except RenderError α}

theorem pure {a : α} (h : post a) : Orderly (Pure.pure a) post := by
  rintro s _ _ hs ⟨⟩
  exact ⟨h, hs⟩

theorem throw (e : RenderError) : Orderly (throw e : Rendering α) post :=
  nofun

theorem bind {f : α → Rendering β} {next : β → Prop} (h : Orderly action post)
    (hf : ∀ a, post a → Orderly (f a) next) : Orderly (action >>= f) next := by
  intro s b u hs hrun
  cases ha : action s with
  | error e t =>
    rw [bind_of_error ha] at hrun
    cases hrun
  | ok a t =>
    rw [bind_of_ok ha] at hrun
    obtain ⟨hpost, ht⟩ := h s a t hs ha
    exact hf a hpost t b u ht hrun

theorem map {f : α → β} {next : β → Prop} (h : Orderly action post)
    (hf : ∀ a, post a → next (f a)) : Orderly (f <$> action) next := by
  rw [← bind_pure_comp]
  exact h.bind fun a ha => .pure (hf a ha)

theorem liftResult (h : Returns post x) : Orderly (liftResult x) post := by
  cases x with
  | ok a => exact .pure (h.of_ok a rfl)
  | error e => exact .throw e

theorem get : Orderly (MonadState.get : Rendering Session) (·.IsOrdered) := by
  rintro s _ _ hs ⟨⟩
  exact ⟨hs, hs⟩

/-- What leaves the scopes alone leaves them ordered. -/
theorem of_restores (h : Restores action) : Orderly action fun _ => True := by
  intro s a t hs hrun
  exact ⟨trivial, fun scope hscope => hs scope (h.scopes_of_ok hrun ▸ hscope)⟩

theorem inScope {scope : Scope} (hscope : OrderedFields scope) (h : Orderly action post) :
    Orderly (inScope scope action) post := by
  intro s a u hs hrun
  obtain ⟨t, ha, rfl⟩ := exists_of_withScopes_ok hrun
  have hinner : Session.IsOrdered { s with scopes := scope :: s.scopes } :=
    List.forall_mem_cons.mpr ⟨hscope, hs⟩
  obtain ⟨hpost, ht⟩ := h _ a t hinner ha
  exact ⟨hpost, fun scope hscope => ht scope (List.mem_of_mem_tail hscope)⟩

end Orderly

/-! ### Expressions -/

abbrev Computes (action : Rendering (Option Value)) : Prop :=
  Orderly action fun found => ∀ v ∈ found, v.IsOrdered

theorem computes_value {v : Value} (h : v.IsOrdered) : Computes (pure (some v)) :=
  .pure fun _ hv => Option.mem_some.mp hv ▸ h

theorem computes_some {action : Rendering Value} (h : Orderly action (·.IsOrdered)) :
    Computes (some <$> action) :=
  h.map fun _ hv _ hw => Option.mem_some.mp hw ▸ hv

namespace Surroundings

variable {c : Surroundings}

/-- Calls of macros and includes leave the variables alone. -/
structure IsOrdered (c : Surroundings) : Prop where
  renderer : c.renderer.IsOrdered
  deeper : ∀ d ∈ c.deeper, d.Keeps fun _ => Restores

theorem returns_frame (name : String) {args : Arguments} (hargs : args.IsOrdered) (index : Nat)
    {scope : Scope} (hscope : OrderedFields scope) (params : List Template.Param) :
    Returns OrderedFields (frame name args index scope params) := by
  induction params generalizing index scope with
  | nil => exact .ok hscope
  | cons p rest ih =>
    unfold frame
    split
    · next v hv =>
      refine ih _ (hscope.put p.name ?_)
      cases hgiven : args.get? index p.name with
      | some w =>
        rw [hgiven] at hv
        cases hv
        exact hargs.get? index p.name v hgiven
      | none =>
        rw [hgiven] at hv
        obtain ⟨l, -, rfl⟩ := Option.map_eq_some_iff.mp hv
        exact isOrdered_ofLiteral l
    · exact .error _

theorem enter_orderly (h : c.IsOrdered) :
    Orderly c.enter fun d => d.Keeps fun _ => Restores := by
  unfold enter
  split
  · next d hd => exact .pure (h.deeper d hd)
  · exact .throw _

theorem call_orderly (h : c.IsOrdered) (callee : Expr) {args : Rendering Arguments}
    (hargs : Orderly args (·.IsOrdered)) : Orderly (c.call callee args) (·.IsOrdered) := by
  unfold call
  split
  · exact .throw _
  · next name _ =>
    split
    · next params _ =>
      refine (enter_orderly h).bind fun d hd => hargs.bind fun args hargs => ?_
      refine (Orderly.liftResult (returns_frame name hargs 0 .nil params)).bind fun scope _ => ?_
      exact (Orderly.of_restores (hd.body name scope)).bind fun text _ => .pure (.string text)
    · split
      · next f hf =>
        refine hargs.bind fun args hargs => .liftResult ?_
        exact h.renderer.functions _ (Dictionary.mem_of_get? hf) args hargs
      · exact .throw _

theorem applyFilter_orderly (h : c.IsOrdered) (name : String) {v : Value} (hv : v.IsOrdered)
    {args : Arguments} (hargs : args.IsOrdered) :
    Orderly (c.applyFilter name v args) (·.IsOrdered) := by
  unfold applyFilter
  split
  · next f hf => exact .liftResult (h.renderer.filters _ (Dictionary.mem_of_get? hf) v args hv hargs)
  · exact .throw _

theorem applyTest_orderly (c : Surroundings) (name : String) (v : Value) (args : Arguments) :
    Orderly (c.applyTest name v args) fun _ => True := by
  apply Orderly.of_restores
  unfold applyTest
  split
  · exact .liftResult _
  · exact .throw _

theorem bound_orderly (v : Value) : Orderly (bound v) fun _ => True := by
  apply Orderly.of_restores
  unfold bound
  split
  · exact .pure _
  · split
    · exact .pure _
    · exact .throw _

theorem orderedFields_keyed (next : Nat) {fields : Scope} (h : OrderedFields fields)
    {found : List (Option String × Value)} (hfound : ∀ x ∈ found, x.2.IsOrdered) :
    OrderedFields (keyed next fields found) := by
  induction found generalizing next fields with
  | nil => exact h
  | cons x rest ih =>
    obtain ⟨label, v⟩ := x
    obtain ⟨hv, hrest⟩ := List.forall_mem_cons.mp hfound
    cases label with
    | none => exact ih (next + 1) (h.put _ hv) hrest
    | some key => exact ih next (h.put key hv) hrest

theorem isOrdered_collection {found : List (Option String × Value)}
    (h : ∀ x ∈ found, x.2.IsOrdered) : (collection found).IsOrdered := by
  unfold collection
  split
  · exact .array (List.forall_mem_map.mpr h)
  · exact (orderedFields_keyed 0 .nil h).object

mutual

theorem find?_orderly (h : c.IsOrdered) : (e : Expr) → Computes (c.find? e)
  | .literal _ l => by
    rw [find?]
    exact computes_value (isOrdered_ofLiteral l)
  | .identifier _ name => by
    rw [find?]
    exact Orderly.get.bind fun s hs => .pure (hs.lookup? name)
  | .unary _ op operand => by
    rw [find?]
    exact (find?_orderly h operand).bind fun _ _ =>
      computes_some (.liftResult (returns_unary op _))
  | .binary _ op left right => by
    rw [find?]
    refine (find?_orderly h left).bind fun _ _ => ?_
    dsimp only
    split
    · exact computes_value (.boolean _)
    · split
      · exact computes_value (.boolean _)
      · exact (find?_orderly h right).bind fun _ _ =>
          computes_some (.liftResult (returns_binary op _ _))
  | .call _ callee args _ => by
    rw [find?]
    have hargs : Orderly (toArguments <$> c.elements args) (·.IsOrdered) :=
      (elements_orderly h args).map fun _ hfound => isOrdered_toArguments hfound
    exact computes_some (call_orderly h callee hargs)
  | .member _ e property => by
    rw [find?]
    refine (find?_orderly h e).bind fun found hfound => .pure fun w hw => ?_
    obtain ⟨v, hv, hw⟩ := Option.bind_eq_some_iff.mp hw
    exact (hfound v hv).member? property w hw
  | .index _ e subscript => by
    rw [find?]
    refine (find?_orderly h e).bind fun found hfound => ?_
    cases found with
    | none => exact .pure nofun
    | some v =>
      exact (find?_orderly h subscript).bind fun i _ => .pure ((hfound v rfl).subscript? _)
  | .slice _ e first last => by
    rw [find?]
    refine (find?_orderly h e).bind fun found hfound => ?_
    refine (sliceBound_orderly h first).bind fun a _ => ?_
    refine (sliceBound_orderly h last).bind fun b _ => ?_
    exact computes_some (.liftResult ((IsOrdered.getD hfound).slice a b))
  | .list _ items => by
    rw [find?]
    exact (elements_orderly h items).bind fun _ hfound =>
      computes_value (isOrdered_collection hfound)
  | .grouped _ inner => by
    rw [find?]
    exact find?_orderly h inner
  | .conditional _ condition yes no => by
    rw [find?]
    refine (find?_orderly h condition).bind fun _ _ => ?_
    split
    · exact (find?_orderly h yes).bind fun _ hv => computes_value (.getD hv)
    · exact (find?_orderly h no).bind fun _ hv => computes_value (.getD hv)
  | .filter _ subject name args => by
    rw [find?]
    refine (find?_orderly h subject).bind fun v hv => ?_
    refine (elements_orderly h args).bind fun found hfound => ?_
    exact computes_some (applyFilter_orderly h name (.getD hv) (isOrdered_toArguments hfound))
  | .defined _ subject negated => by
    rw [find?]
    exact (find?_orderly h subject).bind fun _ _ => computes_value (.boolean _)
  | .test _ subject name args negated => by
    rw [find?]
    refine (find?_orderly h subject).bind fun _ _ => ?_
    refine (elements_orderly h args).bind fun _ _ => ?_
    exact (applyTest_orderly c name _ _).bind fun _ _ => computes_value (.boolean _)
  | .placeholder .. | .star .. | .qualifiedStar .. | .between .. | .isNull .. | .cases ..
  | .cast .. | .existence .. | .subquery .. => by
    rw [find?]
    exact .throw _

theorem elements_orderly (h : c.IsOrdered) : (items : List Item) →
    Orderly (c.elements items) fun found => ∀ x ∈ found, x.2.IsOrdered
  | [] => by
    rw [elements]
    exact .pure nofun
  | item :: rest => by
    rw [elements]
    refine (element_orderly h item).bind fun first hfirst => ?_
    exact (elements_orderly h rest).bind fun _ hrest =>
      .pure (List.forall_mem_cons.mpr ⟨hfirst, hrest⟩)

theorem element_orderly (h : c.IsOrdered) : (item : Item) →
    Orderly (c.element item) (·.2.IsOrdered)
  | ⟨label, e⟩ => by
    rw [element]
    exact (find?_orderly h e).bind fun _ hv => .pure (.getD hv)

theorem sliceBound_orderly (h : c.IsOrdered) : (e : Option Expr) →
    Orderly (c.sliceBound e) fun _ => True
  | none => by
    rw [sliceBound]
    exact .pure trivial
  | some e => by
    rw [sliceBound]
    exact (find?_orderly h e).bind fun _ _ => bound_orderly _

end

theorem value_orderly (h : c.IsOrdered) (e : Expr) : Orderly (c.value e) (·.IsOrdered) :=
  (find?_orderly h e).map fun _ hv => .getD hv

end Surroundings

/-! ### Instructions -/

/-- The variables of a round, if its key and value are ordered. -/
theorem orderedFields_roundScope (key : Option String) (name : String) {entry : Value × Value}
    (h : entry.1.IsOrdered ∧ entry.2.IsOrdered) : OrderedFields (roundScope key name entry) := by
  cases key with
  | none => exact OrderedFields.nil.put name h.2
  | some key => exact (OrderedFields.nil.put key h.1).put name h.2

theorem isOrdered_loopVariable (index length : Nat) : (loopVariable index length).IsOrdered := by
  refine (OrderedFields.nil.extend fun f hf => ?_).object
  simp only [List.mem_cons, List.not_mem_nil, or_false] at hf
  rcases hf with rfl | rfl | rfl | rfl | rfl | rfl | rfl
  all_goals first
    | exact .number _
    | exact .boolean _

theorem orderedFields_loopScope (key : Option String) (name : String) (index length : Nat)
    {entry : Value × Value} (h : entry.1.IsOrdered ∧ entry.2.IsOrdered) :
    OrderedFields (loopScope key name length index entry) :=
  (orderedFields_roundScope key name h).put "loop" (isOrdered_loopVariable index length)

theorem returns_entries {v : Value} (h : v.IsOrdered) :
    Returns (fun found => ∀ entry ∈ found, entry.1.IsOrdered ∧ entry.2.IsOrdered) (entries v) := by
  cases h with
  | null => exact .ok nofun
  | boolean | number | string => exact .error _
  | array h =>
    refine .ok fun entry hentry => ?_
    obtain ⟨i, hi, rfl⟩ := List.mem_mapIdx.mp hentry
    exact ⟨.number _, h _ (List.getElem_mem hi)⟩
  | object hsorted h =>
    refine .ok (List.forall_mem_map.mpr fun f hf => ?_)
    exact ⟨.string _, h f hf⟩

theorem returns_updated (op : Template.AssignOp) (current : Option Value) {v : Value}
    (h : v.IsOrdered) : Returns IsOrdered (updated op current v) := by
  unfold updated
  split
  · exact .ok h
  · split
    · exact returns_binary _ _ _
    · exact returns_binary _ _ _
    · exact returns_binary _ _ _

theorem orderedFields_assign (name : String) {v : Value} (hv : v.IsOrdered) {scopes : List Scope}
    (h : ∀ scope ∈ scopes, OrderedFields scope) :
    ∀ scope ∈ assign name v scopes, OrderedFields scope := by
  induction scopes with
  | nil => exact nofun
  | cons scope outer ih =>
    obtain ⟨hscope, houter⟩ := List.forall_mem_cons.mp h
    unfold assign
    split
    · exact List.forall_mem_cons.mpr ⟨hscope.put name hv, houter⟩
    · exact List.forall_mem_cons.mpr ⟨hscope, ih houter⟩

namespace Context

variable {c : Context}

structure IsOrdered (c : Context) : Prop extends c.toSurroundings.IsOrdered where
  override : ∀ name, ∀ other ∈ c.override name, Orderly other fun _ => True

theorem value_orderly (h : c.IsOrdered) (e : Expr) : Orderly (c.value e) (·.IsOrdered) :=
  Surroundings.value_orderly h.toIsOrdered e

theorem keeps_orderly (h : c.IsOrdered) (filter : Option Expr) {scope : Scope}
    (hscope : OrderedFields scope) : Orderly (c.keeps filter scope) fun _ => True := by
  cases filter with
  | none => exact .pure trivial
  | some e => exact ((value_orderly h e).inScope hscope).bind fun _ _ => .pure trivial

/-- Of the entries of a loop some are left out, and no others come in. -/
theorem kept_orderly (h : c.IsOrdered) (key : Option String) (name : String)
    (filter : Option Expr) {found more : List (Value × Value)}
    (hfound : ∀ entry ∈ found, entry.1.IsOrdered ∧ entry.2.IsOrdered)
    (hmore : ∀ entry ∈ more, entry.1.IsOrdered ∧ entry.2.IsOrdered) :
    Orderly (c.kept key name filter found more) fun kept =>
      ∀ entry ∈ kept, entry.1.IsOrdered ∧ entry.2.IsOrdered := by
  induction more generalizing found with
  | nil => exact .pure fun entry hentry => hfound entry (List.mem_reverse.mp hentry)
  | cons entry rest ih =>
    obtain ⟨hentry, hrest⟩ := List.forall_mem_cons.mp hmore
    refine (keeps_orderly h filter (orderedFields_roundScope key name hentry)).bind fun keep _ => ?_
    refine ih ?_ hrest
    split
    · exact List.forall_mem_cons.mpr ⟨hentry, hfound⟩
    · exact hfound

theorem rounds_orderly (key : Option String) (name : String) {body : Rendering Outcome}
    (h : Orderly body fun _ => True) (length index : Nat) (text : String)
    {more : List (Value × Value)}
    (hmore : ∀ entry ∈ more, entry.1.IsOrdered ∧ entry.2.IsOrdered) :
    Orderly (rounds key name body length index text more) fun _ => True := by
  induction more generalizing index text with
  | nil => exact .pure trivial
  | cons entry rest ih =>
    obtain ⟨hentry, hrest⟩ := List.forall_mem_cons.mp hmore
    have hround := h.inScope (orderedFields_loopScope key name index length hentry)
    refine hround.bind fun round _ => ?_
    dsimp only
    split
    · exact .pure trivial
    · exact ih _ _ hrest

theorem assignTo_orderly (h : c.IsOrdered) (name : String) (op : Template.AssignOp) (e : Expr) :
    Orderly (c.assignTo name op e) fun _ => True := by
  refine (value_orderly h e).bind fun v hv => Orderly.get.bind fun s _ => ?_
  refine (Orderly.liftResult (returns_updated op _ hv)).bind fun w hw => ?_
  rintro t _ _ ht ⟨⟩
  exact ⟨trivial, orderedFields_assign name hw ht⟩

theorem cached_orderly (h : c.IsOrdered) (key : Expr) (lifetime : Option Nat)
    {body : Rendering Outcome} (hbody : Orderly body fun _ => True) :
    Orderly (c.cached key lifetime body) fun _ => True := by
  refine (value_orderly h key).bind fun v _ => Orderly.get.bind fun s _ => ?_
  refine (Orderly.of_restores (.fragment? v.display)).bind fun found _ => ?_
  cases found with
  | some text => exact .pure trivial
  | none =>
    refine hbody.bind fun made _ => ?_
    exact (Orderly.of_restores (.keepFragment _ _ _ _)).bind fun _ _ => .pure trivial

theorem custom_orderly (h : c.IsOrdered) (name : String) (args : List Expr)
    {body : Option (Rendering Outcome)} (hbody : ∀ b ∈ body, Orderly b fun _ => True) :
    Orderly (c.custom name args body) fun _ => True := by
  unfold custom
  split
  · exact .throw _
  · next handler _ =>
    refine (Orderly.of_restores (values_restores h.deeper args)).bind fun args _ => ?_
    have hhandle (inner : Option String) :
        Orderly (liftResult (handler (.ofList args) inner)) fun _ => True :=
      .of_restores (.liftResult _)
    cases body with
    | none => exact (hhandle none).bind fun _ _ => .pure trivial
    | some body =>
      exact (hbody body rfl).bind fun inner _ => (hhandle _).bind fun _ _ => .pure trivial

mutual

theorem step_orderly (h : c.IsOrdered) : (i : Instruction) → Orderly (c.step i) fun _ => True
  | .choice branches otherwise => by
    rw [step]
    exact arms_orderly h branches (exec_orderly h otherwise)
  | .loop key name iterable filter body otherwise => by
    rw [step]
    refine (value_orderly h iterable).bind fun v hv => ?_
    refine (Orderly.liftResult (returns_entries hv)).bind fun found hfound => ?_
    refine (kept_orderly h key name filter (List.forall_mem_nil _) hfound).bind fun found hfound => ?_
    split
    · exact exec_orderly h otherwise
    · have hbody := exec_orderly h body
      exact (rounds_orderly key name hbody _ 0 "" hfound).bind fun _ _ => .pure trivial
  | .assign name op e => by
    rw [step]
    exact (assignTo_orderly h name op e).bind fun _ _ => .pure trivial
  | .block name body => by
    rw [step]
    split
    · next other hother => exact h.override name other hother
    · exact exec_orderly h body
  | .fragment key lifetime body => by
    rw [step]
    exact cached_orderly h key lifetime (exec_orderly h body)
  | .extension name args none => by
    rw [step, optional]
    exact custom_orderly h name args nofun
  | .extension name args (some body) => by
    rw [step, optional]
    exact custom_orderly h name args fun _ hb => Option.mem_some.mp hb ▸ exec_orderly h body
  | .literal _ | .leave | .proceed => by
    rw [step]
    exact .pure trivial
  | .output e escape => by
    rw [step]
    have hrestores : Restores (c.output e escape) :=
      (value_restores h.deeper e).bind fun _ => .pure _
    exact (Orderly.of_restores hrestores).bind fun _ _ => .pure trivial
  | .evaluate e => by
    rw [step]
    exact (value_orderly h e).bind fun _ _ => .pure trivial
  | .inclusion template context => by
    rw [step]
    have hrestores := inclusion_restores h.deeper template context
    exact (Orderly.of_restores hrestores).bind fun _ _ => .pure trivial

theorem exec_orderly (h : c.IsOrdered) : (is : List Instruction) →
    Orderly (c.exec is) fun _ => True
  | [] => by
    rw [exec]
    exact .pure trivial
  | i :: rest => by
    rw [exec]
    refine (step_orderly h i).bind fun first _ => ?_
    split
    · exact (exec_orderly h rest).bind fun _ _ => .pure trivial
    · exact .pure trivial

theorem arms_orderly (h : c.IsOrdered) : (branches : List Arm) → {otherwise : Rendering Outcome} →
    Orderly otherwise (fun _ => True) → Orderly (c.arms branches otherwise) fun _ => True
  | [], _, ho => by
    rw [arms]
    exact ho
  | ⟨condition, body⟩ :: rest, _, ho => by
    rw [arms]
    refine (value_orderly h condition).bind fun v _ => ?_
    split
    · exact exec_orderly h body
    · exact arms_orderly h rest ho

end

end Context

theorem context_isOrdered {r : Renderer} (hr : r.IsOrdered) (p : Program) (depth : Nat)
    (inBlock : Bool) : (p.context r depth inBlock).IsOrdered := by
  have hinner : (p.context r depth true).IsOrdered :=
    ⟨⟨hr, context_restores⟩, nofun⟩
  cases inBlock with
  | true => exact hinner
  | false =>
    refine ⟨⟨hr, context_restores⟩, fun name other hother => ?_⟩
    obtain ⟨body, -, rfl⟩ := Option.map_eq_some_iff.mp hother
    exact Context.exec_orderly hinner body

end EmbeddedLang.Render
