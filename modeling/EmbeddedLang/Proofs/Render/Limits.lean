import EmbeddedLang.Proofs.Render.Congruence
import EmbeddedLang.Proofs.Render.Ensures
import EmbeddedLang.Proofs.Render.Unrolled

/-!
Rendering ends, and keeps to its limits.

Whether a run was refused is seen from the number in its error: no other error follows the number
that the renderer is told to report.

Two runs may differ in how many macro calls and includes may be in progress, or in the number that
is reported for it. They do the same until one is refused because it would be one more than the
first run allows, and only there is the number read.
-/

namespace EmbeddedLang.Render

open Template (CompiledTemplate Instruction)

variable {α β : Type} {K : Nat → Prop} {n n' : Nat} {E : Option Nat} {r : Renderer}

/-- Both runs end alike, and the limit they report is one of `K`, or the first is refused. Then so
is the second where `E` says what it reports. -/
structure Alike (K : Nat → Prop) (n : Nat) (E : Option Nat) (a b : Rendering α) : Prop where
  of_run : ∀ s, (a s = b s ∧ ∀ k s', a s = .error (.recursionLimit k) s' → K k) ∨
    (∃ s', a s = .error (.recursionLimit n) s') ∧ ∀ k ∈ E, ∃ s', b s = .error (.recursionLimit k) s'

namespace Alike

variable {a b : Rendering α}

theorem same (h : ∀ s k s', a s = .error (.recursionLimit k) s' → K k) : Alike K n E a a where
  of_run s := .inl ⟨rfl, h s⟩

theorem pure (x : α) : Alike K n E (Pure.pure x) (Pure.pure x) := by
  apply same
  intro s k s' h
  cases h

theorem throw {e : RenderError} (h : ∀ k, e = .recursionLimit k → K k) :
    Alike K n E (throw e : Rendering α) (throw e) := by
  apply same
  intro s k s' he
  cases he
  exact h k rfl

theorem liftResult {x : Except RenderError α} (h : Reports K x) :
    Alike K n E (liftResult x) (liftResult x) := by
  cases x with
  | ok x => exact pure x
  | error e =>
    apply throw
    rintro k rfl
    exact h.of_error k rfl

theorem get : Alike K n E (MonadState.get : Rendering Session) MonadState.get := by
  apply same
  intro s k s' h
  cases h

theorem modify (f : Session → Session) :
    Alike K n E (modify f : Rendering Unit) (modify f) := by
  apply same
  intro s k s' h
  cases h

theorem bind {f g : α → Rendering β} (h : Alike K n E a b) (hfg : ∀ x, Alike K n E (f x) (g x)) :
    Alike K n E (a >>= f) (b >>= g) where
  of_run s := by
    rcases h.of_run s with ⟨hab, hK⟩ | ⟨⟨t, ha⟩, hE⟩
    · cases hs : a s with
      | ok x t =>
        rw [bind_of_ok hs, bind_of_ok (hab ▸ hs)]
        exact (hfg x).of_run t
      | error e t =>
        rw [bind_of_error hs, bind_of_error (hab ▸ hs)]
        refine .inl ⟨rfl, ?_⟩
        rintro k s' ⟨⟩
        exact hK k t hs
    · rw [bind_of_error ha]
      refine .inr ⟨⟨t, rfl⟩, fun k hk => ?_⟩
      obtain ⟨t', hb⟩ := hE k hk
      exact ⟨t', bind_of_error hb⟩

theorem liftResult_bind {x : Except RenderError α} {f g : α → Rendering β} (h : Reports K x)
    (hfg : ∀ y, x = .ok y → Alike K n E (f y) (g y)) :
    Alike K n E (Render.liftResult x >>= f) (Render.liftResult x >>= g) := by
  cases x with
  | ok y => exact hfg y rfl
  | error e =>
    apply throw
    rintro k rfl
    exact h.of_error k rfl

theorem withScopes (enter leave : List Scope → List Scope) (h : Alike K n E a b) :
    Alike K n E (withScopes enter leave a) (withScopes enter leave b) where
  of_run s := by
    unfold Render.withScopes
    rcases h.of_run { s with scopes := enter s.scopes } with ⟨hab, hK⟩ | ⟨⟨t, ha⟩, hE⟩
    · rw [← hab]
      refine .inl ⟨rfl, ?_⟩
      intro k s' hk
      split at hk
      · cases hk
      · next e t he =>
        cases hk
        exact hK k t he
    · rw [ha]
      refine .inr ⟨⟨_, rfl⟩, fun k hk => ?_⟩
      obtain ⟨t', hb⟩ := hE k hk
      rw [hb]
      exact ⟨_, rfl⟩

theorem inScope (scope : Scope) (h : Alike K n E a b) :
    Alike K n E (inScope scope a) (inScope scope b) :=
  h.withScopes _ _

theorem inFreshScope (scope : Scope) (h : Alike K n E a b) :
    Alike K n E (inFreshScope scope a) (inFreshScope scope b) :=
  get.bind fun _ => h.withScopes _ _

theorem sessionCongruence : SessionCongruence K fun _ => Alike K n E where
  lift := .liftResult
  bind := bind
  session hfg := get.bind hfg
  modify := modify
  inScope := inScope

end Alike

/-- A run that is refused whatever number it reports, or else is the same as one that may go on. -/
theorem refused_or_same {a : Nat → Rendering α} {b : Rendering α} (s : Session)
    (ha : ∀ n n', Alike K n (some n') (a n) (a n')) (hb : ∀ n, Alike K n none (a n) b) :
    (∀ n, ∃ s', a n s = .error (.recursionLimit n) s') ∨
      ∀ n, a n s = b s ∧ ∀ k s', a n s = .error (.recursionLimit k) s' → K k := by
  by_cases hall : ∀ n, ∃ s', a n s = .error (.recursionLimit n) s'
  · exact .inl hall
  · right
    obtain ⟨m, hm⟩ := Classical.not_forall.mp hall
    intro n
    obtain ⟨hnm, hK⟩ := ((ha n m).of_run s).resolve_right fun h => hm (h.2 m rfl)
    obtain ⟨hmb, -⟩ := ((hb m).of_run s).resolve_right fun h => hm h.1
    exact ⟨hnm.trans hmb, hK⟩

def Renderer.reporting (r : Renderer) (n : Nat) : Renderer :=
  { r with maxDepth := n }

/-- What is deeper in two runs, of which the first may be at its limit before the second. -/
inductive Room (K : Nat → Prop) (n n' : Nat) (E : Option Nat) : Option Deeper → Option Deeper → Prop
  | room {d d' : Deeper} (h : d.Related (fun _ => Alike K n E) d') :
    Room K n n' E (some d) (some d')
  | full {other : Option Deeper} (h : ∀ k ∈ E, k = n' ∧ other = none) : Room K n n' E none other

theorem enter_alike {macros : Dictionary (List Template.Param)} {deeper deeper' : Option Deeper}
    (h : Room K n n' E deeper deeper') {f g : Deeper → Rendering α}
    (hfg : ∀ d d', d.Related (fun _ => Alike K n E) d' → Alike K n E (f d) (g d')) :
    Alike K n E (Surroundings.enter ⟨r.reporting n, macros, deeper⟩ >>= f)
      (Surroundings.enter ⟨r.reporting n', macros, deeper'⟩ >>= g) := by
  cases h with
  | room hd => exact hfg _ _ hd
  | full hE =>
    constructor
    refine fun s => .inr ⟨⟨s, rfl⟩, fun k hk => ?_⟩
    obtain ⟨rfl, rfl⟩ := hE k hk
    exact ⟨s, rfl⟩

theorem Context.exec_alike (hr : r.Reports K) {macros : Dictionary (List Template.Param)}
    {deeper deeper' : Option Deeper} (hd : Room K n n' E deeper deeper')
    {override override' : String → Option (Rendering Outcome)}
    (ho : ∀ name, Option.Rel (Alike K n E) (override name) (override' name))
    (is : List Instruction) :
    Alike K n E (exec ⟨⟨r.reporting n, macros, deeper⟩, override⟩ is)
      (exec ⟨⟨r.reporting n', macros, deeper'⟩, override'⟩ is) := by
  have h : SessionCongruence K fun _ => Alike K n E := Alike.sessionCongruence
  have hc : Surroundings.Related K (fun _ => Alike K n E) ⟨r.reporting n, macros, deeper⟩
      ⟨r.reporting n', macros, deeper'⟩ := by
    refine ⟨⟨rfl, rfl, rfl, rfl⟩, ?_, rfl, enter_alike hd⟩
    exact ⟨hr.filters, hr.tests, hr.functions, hr.handlers⟩
  exact exec_related h.congruence hc is fun i _ => stepRelated h hc ho i

/-! ### Programs -/

theorem parentsFrom_reporting (r : Renderer) (n limit : Nat) (name : Option String) :
    parentsFrom (r.reporting n) limit name = parentsFrom r limit name := by
  induction limit generalizing name with
  | zero => cases name <;> rfl
  | succ limit ih =>
    cases name with
    | none => rfl
    | some name =>
      rw [parentsFrom, parentsFrom]
      simp only [ih]
      rfl

theorem ofTemplate_reporting (r : Renderer) (n : Nat) (t : CompiledTemplate) :
    Program.ofTemplate (r.reporting n) t = Program.ofTemplate r t := by
  unfold Program.ofTemplate
  rw [parentsFrom_reporting]

theorem Program.exec_alike (p : Program) (hr : r.Reports K) {deeper deeper' : Option Deeper}
    (hd : Room K n n' E deeper deeper') (is : List Instruction) :
    Alike K n E (p.exec (r.reporting n) deeper is) (p.exec (r.reporting n') deeper' is) := by
  refine Context.exec_alike hr hd (fun name => ?_) is
  cases Dictionary.get? name p.blocks with
  | none => exact .none
  | some block => exact .some (Context.exec_alike hr hd (fun _ => .none) block)

/-- The templates that can be had report no limits but those of `K`. -/
structure Renderer.LoadReports (K : Nat → Prop) (r : Renderer) : Prop where
  load : ∀ name, Render.Reports K (r.load name)
  program : ∀ name t, r.load name = .ok t → Render.Reports K (Program.ofTemplate r t)

theorem run_alike (hr : r.Reports K) (hl : r.LoadReports K) {depth depth' : Nat}
    (h : depth ≤ depth') (hE : ∀ k ∈ E, k = n' ∧ depth' = depth) (p : Program)
    (is : List Instruction) :
    Alike K n E (run (r.reporting n) depth p is) (run (r.reporting n') depth' p is) := by
  induction depth generalizing depth' p is with
  | zero =>
    have hfull : Room K n n' E none (deeperOf (r.reporting n') depth' p) := by
      refine .full fun k hk => ?_
      obtain ⟨hk, rfl⟩ := hE k hk
      exact ⟨hk, rfl⟩
    rw [run_eq, run_eq]
    exact (p.exec_alike hr hfull is).bind fun _ => .pure _
  | succ depth ih =>
    obtain ⟨depth', rfl⟩ : ∃ more, depth' = more + 1 := ⟨depth' - 1, by omega⟩
    have hless : ∀ k ∈ E, k = n' ∧ depth' = depth := by
      intro k hk
      obtain ⟨hk, hsame⟩ := hE k hk
      exact ⟨hk, by omega⟩
    have hinner := ih (by omega) hless
    have hroom : Room K n n' E (deeperOf (r.reporting n) (depth + 1) p)
        (deeperOf (r.reporting n') (depth' + 1) p) := by
      refine .room ⟨fun name scope => ?_, fun name scope => ?_⟩
      · exact (hinner p (p.macroBody name)).inFreshScope scope
      · simp only [ofTemplate_reporting]
        refine Alike.liftResult_bind (hl.load name) fun t ht => ?_
        refine (Alike.liftResult (hl.program name t ht)).bind fun q => ?_
        exact (hinner q q.main).inFreshScope scope
    rw [run_eq, run_eq]
    exact (p.exec_alike hr hroom is).bind fun _ => .pure _

theorem renderWithin_alike (hr : r.Reports K) (hl : r.LoadReports K) {limit limit' : Nat}
    (h : limit ≤ limit') (hE : ∀ k ∈ E, k = n' ∧ limit' = limit) {t : CompiledTemplate}
    (ht : Reports K (Program.ofTemplate r t)) (context : Value) :
    Alike K n E (renderWithin (r.reporting n) limit t context)
      (renderWithin (r.reporting n') limit' t context) := by
  unfold renderWithin
  simp only [ofTemplate_reporting]
  refine (Alike.liftResult (reports_contextScope context)).bind fun scope => ?_
  refine (Alike.liftResult ht).bind fun p => ?_
  exact (run_alike hr hl h hE p p.main).inFreshScope scope

/-! ### Refusals and other errors -/

/-- A macro call or an include came where there was no room for it. Only there is the number read
that the renderer has for its limit, so that the error follows whatever number that is. -/
def IsRefused (r : Renderer) (t : CompiledTemplate) (context : Value)
    (fragments : Dictionary Fragment) (now : Nat) : Prop :=
  ∀ n, (perform (renderWithin (r.reporting n) r.maxDepth t context) fragments now).1 =
    .error (.recursionLimit n)

/-- The limits that can be reported without a refusal. -/
def Renderer.OtherLimit (r : Renderer) (t : CompiledTemplate) (limit : Nat) : Prop :=
  (limit = maxParents ∧
      ∃ u, (u = t ∨ ∃ name, r.load name = .ok u) ∧ r.HasMoreParents maxParents u) ∨
    (∃ name, r.load name = .error (.recursionLimit limit)) ∨
      ∃ f ∈ r.handlers, ∃ args body, f.2 args body = .error (.recursionLimit limit)

section

variable {t : CompiledTemplate}

theorem reports_ofTemplate {u : CompiledTemplate} (hu : u = t ∨ ∃ name, r.load name = .ok u) :
    Reports (r.OtherLimit t) (Program.ofTemplate r u) where
  of_error k h := by
    unfold Program.ofTemplate at h
    cases hparents : parentsFrom r maxParents u.parent with
    | ok parents =>
      rw [hparents] at h
      cases h
    | error e =>
      rw [hparents] at h
      cases h
      rcases parentsFrom_error hparents with ⟨he, hmore⟩ | hload
      · cases he
        exact .inl ⟨rfl, u, hu, hmore⟩
      · exact .inr (.inl hload)

theorem loadReports_otherLimit (r : Renderer) (t : CompiledTemplate) :
    r.LoadReports (r.OtherLimit t) where
  load name := ⟨fun _ h => .inr (.inl ⟨name, h⟩)⟩
  program name _ hu := reports_ofTemplate (.inr ⟨name, hu⟩)

theorem reports_otherLimit (loader : Option Loader) (handlers : Dictionary Handler)
    (maxDepth : Nat) (t : CompiledTemplate) :
    let r : Renderer := { Renderer.standard with loader, handlers, maxDepth }
    r.Reports (r.OtherLimit t) where
  filters := reports_filters
  tests := reports_tests
  functions := reports_functions
  handlers f hf args body := ⟨fun _ h => .inr (.inr ⟨f, hf, args, body, h⟩)⟩

theorem renderTemplate_eq (r : Renderer) (t : CompiledTemplate) (context : Value) :
    renderTemplate r t context = renderWithin (r.reporting r.maxDepth) r.maxDepth t context :=
  rfl

theorem perform_of_error {action : Rendering String} {fragments : Dictionary Fragment} {now : Nat}
    {e : RenderError} (h : ∃ s', action ⟨[], fragments, now⟩ = .error e s') :
    (perform action fragments now).1 = .error e := by
  obtain ⟨s', h⟩ := h
  rw [perform, h]

theorem exists_of_perform_error {action : Rendering String} {fragments : Dictionary Fragment}
    {now : Nat} {e : RenderError} (h : (perform action fragments now).1 = .error e) :
    ∃ s', action ⟨[], fragments, now⟩ = .error e s' := by
  unfold perform at h
  split at h
  · cases h
  · next s' hrun =>
    cases h
    exact ⟨s', hrun⟩

/-- A run that is not refused is the same whatever more it may have in progress. -/
theorem isRefused_or_same (hr : r.Reports (r.OtherLimit t)) (context : Value)
    (fragments : Dictionary Fragment) (now : Nat) :
    IsRefused r t context fragments now ∨
      (∀ n limit, r.maxDepth ≤ limit →
        perform (renderWithin (r.reporting n) limit t context) fragments now =
          perform (renderTemplate r t context) fragments now) ∧
        ∀ k, (perform (renderTemplate r t context) fragments now).1 = .error (.recursionLimit k) →
          r.OtherLimit t k := by
  have hl := loadReports_otherLimit r t
  have ht : Reports (r.OtherLimit t) (Program.ofTemplate r t) := reports_ofTemplate (.inl rfl)
  have hnumber (n n' : Nat) : Alike (r.OtherLimit t) n (some n')
      (renderWithin (r.reporting n) r.maxDepth t context)
      (renderWithin (r.reporting n') r.maxDepth t context) := by
    refine renderWithin_alike hr hl (Nat.le_refl _) ?_ ht context
    rintro k ⟨⟩
    exact ⟨rfl, rfl⟩
  have hmore {limit : Nat} (h : r.maxDepth ≤ limit) (n n' : Nat) : Alike (r.OtherLimit t) n none
      (renderWithin (r.reporting n) r.maxDepth t context)
      (renderWithin (r.reporting n') limit t context) :=
    renderWithin_alike hr hl h (fun _ hk => by cases hk) ht context
  by_cases hrefused : IsRefused r t context fragments now
  · exact .inl hrefused
  · right
    have hsame (n' limit : Nat) (h : r.maxDepth ≤ limit) := (refused_or_same
      ⟨[], fragments, now⟩ hnumber fun n => hmore h n n').resolve_left fun hall =>
        hrefused fun n => perform_of_error (hall n)
    constructor
    · intro n limit h
      rw [renderTemplate_eq, perform, perform, (hsame n limit h r.maxDepth).1]
    · intro k hk
      rw [renderTemplate_eq] at hk
      obtain ⟨s', hrun⟩ := exists_of_perform_error hk
      exact (hsame 0 r.maxDepth (Nat.le_refl _) r.maxDepth).2 k s' hrun

theorem ofTemplate_of_hasMoreParents (h : r.HasMoreParents maxParents t) :
    Program.ofTemplate r t = .error (.recursionLimit maxParents) := by
  unfold Program.ofTemplate
  rw [parentsFrom_of_hasMoreParents h]
  rfl

theorem perform_of_ofTemplate {e : RenderError} (h : Program.ofTemplate r t = .error e)
    (context : Value) (fragments : Dictionary Fragment) (now : Nat) :
    (perform (renderTemplate r t context) fragments now).1 =
      (contextScope context).bind fun _ => .error e := by
  unfold renderTemplate
  rw [h]
  cases contextScope context with
  | error e => rfl
  | ok scope => rfl

end

/-- A macro that calls itself. -/
def recurring : String :=
  "\x7b% macro m() %\x7d\x7b\x7b m() \x7d\x7d\x7b% endmacro %\x7d\x7b\x7b m() \x7d\x7d"

/-- A template that extends itself where every name stands for it. -/
def circular : String :=
  "\x7b% extends \"a\" %\x7d"

/-- Two macro calls or includes at most, and one template under every name. -/
def shallow (u : CompiledTemplate) : Renderer :=
  { Renderer.standard with loader := some fun _ => .ok u, handlers := [], maxDepth := 2 }

end EmbeddedLang.Render
