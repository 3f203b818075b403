import EmbeddedLang.Proofs.Render.Ordered

/-!
An included template sees the variables where it is included, and changes none of them.

The scopes there become one. That they agree on what a name stands for rests on how values are kept:
a name is found once in a scope, and in an object that an include is given.
-/

namespace EmbeddedLang.Render

open Template (CompiledTemplate Instruction)
open Value

theorem get?_flatten {scopes : List Scope} (h : ∀ scope ∈ scopes, scope.Sorted) (name : String) :
    Dictionary.get? name (flatten scopes) = lookup? name scopes := by
  induction scopes with
  | nil => rfl
  | cons scope outer ih =>
    obtain ⟨hscope, houter⟩ := List.forall_mem_cons.mp h
    change Dictionary.get? name (Dictionary.extend (flatten outer) scope) = _
    rw [Dictionary.get?_extend hscope, ih houter, lookup?, lookup?, List.findSome?_cons]
    cases Dictionary.get? name scope <;> rfl

theorem orderedFields_flatten {scopes : List Scope} (h : ∀ scope ∈ scopes, OrderedFields scope) :
    OrderedFields (flatten scopes) := by
  induction scopes with
  | nil => exact .nil
  | cons scope outer ih =>
    obtain ⟨hscope, houter⟩ := List.forall_mem_cons.mp h
    exact (ih houter).extend hscope.values

theorem returns_included {scopes : List Scope} (h : ∀ scope ∈ scopes, OrderedFields scope)
    {extra : Value} (hextra : extra.IsOrdered) :
    Returns OrderedFields (included scopes extra) := by
  have hflat := orderedFields_flatten h
  cases hextra with
  | null => exact .ok hflat
  | boolean | number | string | array => exact .error _
  | object _ hfields => exact .ok (hflat.extend hfields)

theorem returns_contextScope {context : Value} (h : context.IsOrdered) :
    Returns OrderedFields (contextScope context) := by
  cases h with
  | null => exact .ok .nil
  | boolean | number | string | array => exact .error _
  | object hsorted h => exact .ok ⟨hsorted, h⟩

/-- The value that an include is given besides the variables there are. -/
def Context.extras (c : Context) : Option Expr → Rendering Value
  | some e => c.value e
  | none => return null

theorem Context.extras_orderly {c : Context} (h : c.IsOrdered) (context : Option Expr) :
    Orderly (c.extras context) (·.IsOrdered) := by
  cases context with
  | none => exact .pure .null
  | some e => exact value_orderly h e

theorem Context.extras_restores {c : Context} (hd : ∀ d ∈ c.deeper, d.Keeps fun _ => Restores)
    (context : Option Expr) : Restores (c.extras context) := by
  cases context with
  | none => exact .pure null
  | some e => exact value_restores hd e

/-! ### Where a rendering comes to -/

/-- The sessions that a rendering comes to: in which program, with so many calls and includes left,
and whether in a block that replaces another. Nothing is said of the instructions to come: any of
them may be executed next, and any expression evaluated. -/
inductive Reachable (r : Renderer) : Program → (depth : Nat) → (inBlock : Bool) → Session → Prop where
  | start {t : CompiledTemplate} {p : Program} {context : Value} {scope : Scope}
      (hp : Program.ofTemplate r t = .ok p) (hcontext : context.IsOrdered)
      (hscope : contextScope context = .ok scope) (fragments : Dictionary Fragment) (now : Nat) :
      Reachable r p r.maxDepth false ⟨[scope], fragments, now⟩
  | replaced {p : Program} {depth : Nat} {s : Session} (h : Reachable r p depth false s) :
      Reachable r p depth true s
  | evaluated {p : Program} {depth : Nat} {b : Bool} {s t : Session} {e : Expr} {v : Value}
      (h : Reachable r p depth b s) (hv : (p.context r depth b).value e s = .ok v t) :
      Reachable r p depth b t
  | executed {p : Program} {depth : Nat} {b : Bool} {s t : Session} {i : Instruction} {o : Outcome}
      (h : Reachable r p depth b s) (hi : (p.context r depth b).step i s = .ok o t) :
      Reachable r p depth b t
  | missed {p : Program} {depth : Nat} {b : Bool} {s t : Session} {key : String}
      (h : Reachable r p depth b s) (hkey : fragment? key s = .ok none t) : Reachable r p depth b t
  /-- An entry of a loop is filtered, or a round of it starts. -/
  | entered {p : Program} {depth : Nat} {b : Bool} {s t u : Session} {e : Expr} {v : Value}
      {found : List (Value × Value)} {entry : Value × Value} {key : Option String} {name : String}
      {scope : Scope} (hs : Reachable r p depth b s)
      (hv : (p.context r depth b).value e s = .ok v t) (hfound : entries v = .ok found)
      (hentry : entry ∈ found) (hscope : scope = roundScope key name entry ∨
        ∃ length index, scope = loopScope key name length index entry)
      (hu : Reachable r p depth b u) :
      Reachable r p depth b { u with scopes := scope :: u.scopes }
  | left {p : Program} {depth : Nat} {b : Bool} {s : Session} {scope : Scope} {outer : List Scope}
      (h : Reachable r p depth b s) (hs : s.scopes = scope :: outer) :
      Reachable r p depth b { s with scopes := outer }
  | called {p : Program} {depth : Nat} {b : Bool} {s t : Session} {name : String}
      {args : List Item} {found : List (Option String × Value)} {params : List Template.Param}
      {scope : Scope} (h : Reachable r p (depth + 1) b s)
      (hfound : (p.context r (depth + 1) b).elements args s = .ok found t)
      (hscope : Surroundings.frame name (Surroundings.toArguments found) 0 [] params = .ok scope) :
      Reachable r p depth false { t with scopes := [scope] }
  | included {p q : Program} {depth : Nat} {b : Bool} {s t : Session} {context : Option Expr}
      {extra : Value} {scope : Scope} {name : String} (h : Reachable r p (depth + 1) b s)
      (hextra : (p.context r (depth + 1) b).extras context s = .ok extra t)
      (hscope : included s.scopes extra = .ok scope) (hq : r.program name = .ok q) :
      Reachable r q depth false { t with scopes := [scope] }

/-- The variables of a rendering are ordered throughout. -/
theorem Reachable.isOrdered {r : Renderer} (hr : r.IsOrdered) {p : Program} {depth : Nat} {b : Bool}
    {s : Session} (h : Reachable r p depth b s) : s.IsOrdered := by
  induction h with
  | start _ hcontext hscope =>
    exact List.forall_mem_singleton.mpr ((returns_contextScope hcontext).of_ok _ hscope)
  | replaced _ ih => exact ih
  | evaluated _ hv ih =>
    exact (Context.value_orderly (context_isOrdered hr _ _ _) _ _ _ _ ih hv).2
  | executed _ hi ih =>
    exact (Context.step_orderly (context_isOrdered hr _ _ _) _ _ _ _ ih hi).2
  | missed _ hkey ih => exact (Orderly.of_restores (.fragment? _) _ _ _ ih hkey).2
  | @entered _ _ _ _ _ _ _ _ _ _ key name _ _ hv hfound hentry hscope _ ihs ihu =>
    have hv := (Context.value_orderly (context_isOrdered hr _ _ _) _ _ _ _ ihs hv).1
    have hentry := (returns_entries hv).of_ok _ hfound _ hentry
    refine List.forall_mem_cons.mpr ⟨?_, ihu⟩
    rcases hscope with rfl | ⟨length, index, rfl⟩
    · exact orderedFields_roundScope key name hentry
    · exact orderedFields_loopScope key name index length hentry
  | left _ hs ih =>
    rw [Session.IsOrdered, hs] at ih
    exact (List.forall_mem_cons.mp ih).2
  | @called p depth b _ _ name _ _ params _ _ hfound hscope ih =>
    have hc := (context_isOrdered hr p (depth + 1) b).toIsOrdered
    have hargs := (Surroundings.elements_orderly hc _ _ _ _ ih hfound).1
    have hframe := Surroundings.returns_frame name (isOrdered_toArguments hargs) 0 .nil params
    exact List.forall_mem_singleton.mpr (hframe.of_ok _ hscope)
  | included _ hextra hscope _ ih =>
    have hextra := (Context.extras_orderly (context_isOrdered hr _ _ _) _ _ _ _ ih hextra).1
    exact List.forall_mem_singleton.mpr ((returns_included ih hextra).of_ok _ hscope)

/-! ### Includes -/

theorem inFreshScope_eq {α : Type} (scope : Scope) (a : Rendering α) (s : Session) :
    inFreshScope scope a s = inScopes s.scopes (a { s with scopes := [scope] }) := by
  change withScopes (fun _ => [scope]) (fun _ => s.scopes) a s = _
  unfold withScopes
  split
  · next ha => rw [ha]; rfl
  · next ha => rw [ha]; rfl

theorem lookup?_included {scopes : List Scope} (h : ∀ scope ∈ scopes, OrderedFields scope)
    {fields : Dictionary Value} (hfields : fields.Sorted) (name : String) :
    lookup? name [Dictionary.extend (flatten scopes) fields] =
      (Dictionary.get? name fields).or (lookup? name scopes) := by
  rw [lookup?, List.findSome?_singleton, Dictionary.get?_extend hfields,
    get?_flatten fun scope hscope => (h scope hscope).sorted]

theorem Context.inclusion_eq (c : Context) (template : Expr) (context : Option Expr) :
    c.inclusion template context = (do
      let name ← c.value template
      let s ← get
      let extra ← c.extras context
      let scope ← liftResult (included s.scopes extra)
      let deeper ← c.enter
      deeper.template name.display scope) := by
  cases context <;> rfl

section

variable {r : Renderer} {p q : Program} {fewer : Nat} {b : Bool} {s t u : Session}
  {template : Expr} {context : Option Expr} {v extra : Value} {scope : Scope}

theorem inclusion_of_ok (hv : (p.context r (fewer + 1) b).value template s = .ok v t)
    (hextra : (p.context r (fewer + 1) b).extras context t = .ok extra u)
    (hscope : included t.scopes extra = .ok scope) (hq : r.program v.display = .ok q) :
    (p.context r (fewer + 1) b).inclusion template context s =
      inFreshScope scope (run r fewer q q.main) u := by
  have hget : (get : Rendering Session) t = .ok t t := rfl
  have hloaded : (liftResult (r.load v.display) >>= fun t => liftResult (Program.ofTemplate r t) >>=
      fun q => inFreshScope scope (run r fewer q q.main)) =
        inFreshScope scope (run r fewer q q.main) := by
    rw [liftResult_program, hq]
    rfl
  rw [Context.inclusion_eq, bind_of_ok hv, bind_of_ok hget, bind_of_ok hextra, hscope]
  cases b <;> exact congrFun hloaded u

end

/-- Where a template is included, a name stands for what it stands for around it, unless the value
that is given is an object with a field of this name, which counts then. Of the variables around it
none is changed, whether this succeeds or not. -/
theorem included_sees_variables {r : Renderer} (hr : r.IsOrdered) {p : Program} {depth : Nat}
    {inBlock : Bool} {s : Session} (h : Reachable r p depth inBlock s) (template : Expr)
    (context : Option Expr) :
    let c := p.context r depth inBlock
    (∀ v t extra fields u q fewer, c.value template s = .ok v t → c.extras context t = .ok extra u →
      (extra = .object fields ∨ extra = .null ∧ fields = []) → r.program v.display = .ok q →
      depth = fewer + 1 → ∃ scope,
        c.inclusion template context s =
          inScopes s.scopes (run r fewer q q.main { u with scopes := [scope] }) ∧
        ∀ name, lookup? name [scope] =
          (Dictionary.get? name fields).or (lookup? name s.scopes)) ∧
    (sessionOf (c.inclusion template context s)).scopes = s.scopes := by
  intro c
  have hc : c.IsOrdered := context_isOrdered hr p depth inBlock
  have hs : s.IsOrdered := h.isOrdered hr
  refine ⟨?_, Context.inclusion_restores hc.deeper template context s⟩
  rintro v t extra fields u q fewer hv hextra hfields hq rfl
  have htemplate : t.scopes = s.scopes :=
    (Context.value_restores hc.deeper template).scopes_of_ok hv
  have hcontext : u.scopes = t.scopes :=
    (Context.extras_restores hc.deeper context).scopes_of_ok hextra
  have ht : t.IsOrdered := fun scope hscope => hs scope (htemplate ▸ hscope)
  have hordered : extra.IsOrdered := (Context.extras_orderly hc context _ _ _ ht hextra).1
  have hscope : included t.scopes extra = .ok (Dictionary.extend (flatten t.scopes) fields) := by
    rcases hfields with rfl | ⟨rfl, rfl⟩ <;> rfl
  have hsorted : Dictionary.Sorted fields := by
    rcases hfields with rfl | ⟨-, rfl⟩
    · exact hordered.fields.sorted
    · exact List.Pairwise.nil
  refine ⟨Dictionary.extend (flatten t.scopes) fields, ?_, fun name => ?_⟩
  · rw [inclusion_of_ok hv hextra hscope hq, inFreshScope_eq, hcontext, htemplate]
  · rw [lookup?_included ht hsorted, htemplate]

/-- A template that assigns to a variable that those that include it may have. -/
def overwriting : CompiledTemplate where
  instructions := [.output (.identifier .start "x") true,
    .assign "x" .assign (.literal .start (.string "changed"))]
  macros := []
  parent := none
  references := ⟨[], []⟩

def Renderer.overwriting : Renderer :=
  { Renderer.standard with loader := some fun _ => .ok Render.overwriting }

/-- An object with one field. -/
def given : Expr :=
  .list .start [⟨some "y", .literal .start (.string "given")⟩]

/-- The other one is included in a loop over a name that stands for something else around it. -/
def shadowing : CompiledTemplate where
  instructions := [.loop none "x" (.identifier .start "xs") none
    [.inclusion (.literal .start (.string "other")) (some given)] []]
  macros := []
  parent := none
  references := ⟨[("other", ())], []⟩

/-- The variables around the loop. -/
def around : Scope :=
  [("x", .string "outer"), ("xs", .array [.string "inner"])]

/-- In the only round of the loop. -/
def shadowed : Session :=
  ⟨[loopScope none "x" 1 0 (.ofNat 0, .string "inner"), around], [], 0⟩

theorem included_sees_variables_shadowed :
    let p := Program.ofChain shadowing []
    let found := (p.context .overwriting 64 false).inclusion (.literal .start (.string "other"))
      (some given) shadowed
    Reachable .overwriting p 64 false shadowed ∧
      (∃ scope,
        found = inScopes shadowed.scopes (run .overwriting 63 (.ofChain overwriting [])
          overwriting.instructions { shadowed with scopes := [scope] }) ∧
        lookup? "x" [scope] = some (.string "inner") ∧
        lookup? "y" [scope] = some (.string "given") ∧
        lookup? "xs" [scope] = some (.array [.string "inner"])) ∧
      (sessionOf found).scopes = shadowed.scopes := by
  intro p found
  have hr : Renderer.overwriting.IsOrdered :=
    ⟨isOrdered_standard.filters, isOrdered_standard.functions⟩
  have hxs : IsOrdered (.array [.string "inner"]) :=
    .array (List.forall_mem_singleton.mpr (.string "inner"))
  have haround : OrderedFields around :=
    .put (.put .nil "xs" hxs) "x" (.string "outer")
  have hstart : Reachable .overwriting p 64 false ⟨[around], [], 0⟩ :=
    .start (t := shadowing) rfl haround.object rfl [] 0
  have hround : Reachable .overwriting p 64 false shadowed :=
    .entered (e := .identifier .start "xs") hstart rfl rfl List.mem_cons_self (.inr ⟨1, 0, rfl⟩)
      hstart
  obtain ⟨hstarts, hscopes⟩ :=
    included_sees_variables hr hround (.literal .start (.string "other")) (some given)
  obtain ⟨scope, hrun, hlookup⟩ := hstarts _ _ _ _ _ _ 63 rfl rfl (.inl rfl) rfl rfl
  exact ⟨hround, ⟨scope, hrun, hlookup "x", hlookup "y", hlookup "xs"⟩, hscopes⟩

end EmbeddedLang.Render
