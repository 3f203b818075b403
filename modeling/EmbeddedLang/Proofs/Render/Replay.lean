import EmbeddedLang.Proofs.Render.Flow
import EmbeddedLang.Proofs.Render.Frame

/-!
Rendering once more, with the fragments that were kept the first time.

A fragment is no more than a text, so it stands for a body that did nothing else than write it.
Where all cached bodies are such, the second run goes as the first one did, with fewer bodies run.
-/

namespace EmbeddedLang.Render

open Template (CompiledTemplate Instruction instructionsFit walkInstructions)

/-! ### Fragments -/

/-- All entries of the first dictionary are in the second. -/
def Within {α : Type} (d d' : Dictionary α) : Prop :=
  ∀ name a, Dictionary.get? name d = some a → Dictionary.get? name d' = some a

namespace Within

variable {α : Type} {d d' d'' : Dictionary α}

theorem refl (d : Dictionary α) : Within d d :=
  fun _ _ => id

theorem trans (h : Within d d') (h' : Within d' d'') : Within d d'' :=
  fun name a ha => h' name a (h name a ha)

/-- What is put there displaces nothing that was in the first one. -/
theorem put {name : String} (h : Within d d') (hname : Dictionary.get? name d = none) (a : α) :
    Within d (Dictionary.put name a d') := by
  intro other b hb
  have hne : other ≠ name := by
    rintro rfl
    rw [hname] at hb
    cases hb
  rw [Dictionary.get?_put_ne hne]
  exact h other b hb

end Within

/-- No fragment is kept for a limited time. -/
def Session.Unlimited (s : Session) : Prop :=
  ∀ name f, Dictionary.get? name s.fragments = some f → f.expiry = none

/-- The same variables with other fragments, at another time. -/
def Session.later (s : Session) (kept : Dictionary Fragment) (now : Nat) : Session :=
  ⟨s.scopes, kept, now⟩

/-- Run without limits of time, the action keeps what fragments there are. Run again later with
those that it left, it gives the same and leaves them as they are. This goes for failures too where
they count. -/
structure Replays (failures : Prop) {α : Type} (a : Rendering α) : Prop where
  keeps : ∀ s x s', s.Unlimited → a s = .ok x s' → s'.Unlimited ∧ Within s.fragments s'.fragments
  keeps_failing : ∀ s e s', s.Unlimited → a s = .error e s' → Within s.fragments s'.fragments
  again : ∀ s x s', s.Unlimited → a s = .ok x s' → ∀ kept now, Within s'.fragments kept →
    a (s.later kept now) = .ok x (s'.later kept now)
  again_failing : failures → ∀ s e s', s.Unlimited → a s = .error e s' → ∀ now,
    a (s.later s'.fragments now) = .error e (s'.later s'.fragments now)

namespace Replays

variable {failures : Prop} {α β : Type} {a : Rendering α}

theorem pure (x : α) : Replays failures (Pure.pure x : Rendering α) where
  keeps s y s' hs h := by
    cases h
    exact ⟨hs, .refl _⟩
  keeps_failing s e s' hs h := by cases h
  again s y s' hs h kept now _ := by
    cases h
    rfl
  again_failing _ s e s' hs h := by cases h

theorem throw (e : RenderError) : Replays failures (throw e : Rendering α) where
  keeps s y s' hs h := by cases h
  keeps_failing s e s' hs h := by
    cases h
    exact .refl _
  again s y s' hs h := by cases h
  again_failing _ s e s' hs h now := by
    cases h
    rfl

theorem liftResult (x : Except RenderError α) : Replays failures (liftResult x) := by
  cases x with
  | ok x => exact pure x
  | error e => exact throw e

theorem bind {f : α → Rendering β} (h : Replays failures a) (hf : ∀ x, Replays failures (f x)) :
    Replays failures (a >>= f) := by
  constructor
  · intro s y u hs hrun
    cases ha : a s with
    | error e t =>
      rw [bind_of_error ha] at hrun
      cases hrun
    | ok x t =>
      rw [bind_of_ok ha] at hrun
      obtain ⟨ht, hst⟩ := h.keeps s x t hs ha
      obtain ⟨hu, htu⟩ := (hf x).keeps t y u ht hrun
      exact ⟨hu, hst.trans htu⟩
  · intro s e u hs hrun
    cases ha : a s with
    | error e' t =>
      rw [bind_of_error ha] at hrun
      cases hrun
      exact h.keeps_failing s e u hs ha
    | ok x t =>
      rw [bind_of_ok ha] at hrun
      obtain ⟨ht, hst⟩ := h.keeps s x t hs ha
      exact hst.trans ((hf x).keeps_failing t e u ht hrun)
  · intro s y u hs hrun kept now hkept
    cases ha : a s with
    | error e t =>
      rw [bind_of_error ha] at hrun
      cases hrun
    | ok x t =>
      rw [bind_of_ok ha] at hrun
      obtain ⟨ht, -⟩ := h.keeps s x t hs ha
      obtain ⟨-, htu⟩ := (hf x).keeps t y u ht hrun
      rw [bind_of_ok (h.again s x t hs ha kept now (htu.trans hkept))]
      exact (hf x).again t y u ht hrun kept now hkept
  · intro hfail s e u hs hrun now
    cases ha : a s with
    | error e' t =>
      rw [bind_of_error ha] at hrun
      cases hrun
      exact bind_of_error (h.again_failing hfail s e u hs ha now)
    | ok x t =>
      rw [bind_of_ok ha] at hrun
      obtain ⟨ht, -⟩ := h.keeps s x t hs ha
      have htu := (hf x).keeps_failing t e u ht hrun
      rw [bind_of_ok (h.again s x t hs ha u.fragments now htu)]
      exact (hf x).again_failing hfail t e u ht hrun now

theorem reading {f : List Scope → Rendering α} (h : ∀ scopes, Replays failures (f scopes)) :
    Replays failures (do f (← get).scopes) where
  keeps s := (h s.scopes).keeps s
  keeps_failing s := (h s.scopes).keeps_failing s
  again s := (h s.scopes).again s
  again_failing hfail s := (h s.scopes).again_failing hfail s

theorem modifyScopes (f : List Scope → List Scope) :
    Replays failures (modify fun s => { s with scopes := f s.scopes } : Rendering Unit) where
  keeps s y s' hs h := by
    cases h
    exact ⟨hs, .refl _⟩
  keeps_failing s e s' hs h := by cases h
  again s y s' hs h kept now _ := by
    cases h
    rfl
  again_failing _ s e s' hs h := by cases h

theorem withScopes (enter leave : List Scope → List Scope) (h : Replays failures a) :
    Replays failures (withScopes enter leave a) := by
  constructor
  · intro s x s' hs hrun
    obtain ⟨t, ha, rfl⟩ := exists_of_withScopes_ok hrun
    exact h.keeps { s with scopes := enter s.scopes } x t hs ha
  · intro s e s' hs hrun
    obtain ⟨t, ha, rfl⟩ := exists_of_withScopes_error hrun
    exact h.keeps_failing { s with scopes := enter s.scopes } e t hs ha
  · intro s x s' hs hrun kept now hkept
    obtain ⟨t, ha, rfl⟩ := exists_of_withScopes_ok hrun
    have hagain := h.again { s with scopes := enter s.scopes } x t hs ha kept now hkept
    exact withScopes_of_ok (s := s.later kept now) hagain
  · intro hfail s e s' hs hrun now
    obtain ⟨t, ha, rfl⟩ := exists_of_withScopes_error hrun
    have hagain := h.again_failing hfail { s with scopes := enter s.scopes } e t hs ha now
    exact withScopes_of_error (s := s.later t.fragments now) hagain

theorem inFreshScope (scope : Scope) (h : Replays failures a) :
    Replays failures (inFreshScope scope a) :=
  reading fun saved => h.withScopes (fun _ => [scope]) fun _ => saved

theorem closed : Closed fun _ => Replays failures where
  lift := liftResult
  bind := bind
  reading := reading
  inScope _ h := h.withScopes _ _

end Replays

/-! ### Cached bodies -/

namespace Context

variable (c : Context)

/-- The key has just been found to be `name`, and nothing is kept under it. -/
def Misses (key : Expr) (name : String) (s : Session) : Prop :=
  (∃ before v, c.value key before = .ok v s ∧ v.display = name) ∧
    Dictionary.get? name s.fragments = none

/-- Run because nothing is kept under its key, the body does nothing but write, if it does not fail:
it does not jump out of it, and all variables are what they were. -/
def OnlyWrites (key : Expr) (body : List Instruction) : Prop :=
  ∀ name s, c.Misses key name s → ∀ o s', c.exec body s = .ok o s' →
    o.flow = .normal ∧ s'.scopes = s.scopes

/-- Where the body fails, nothing in it has kept anything under its own key. -/
def FailsUnkept (key : Expr) (body : List Instruction) : Prop :=
  ∀ name s, c.Misses key name s → ∀ e s', c.exec body s = .error e s' →
    Dictionary.get? name s'.fragments = none

variable {c} {key : Expr} {body : Rendering Outcome} {s t u : Session} {v : Value}

theorem cached_of_value_error {e : RenderError} (h : c.value key s = .error e t) :
    c.cached key none body s = .error e t :=
  bind_of_error h

theorem fragment?_of_kept {name : String} {f : Fragment}
    (h : Dictionary.get? name s.fragments = some f) (hf : f.expiry = none) :
    fragment? name s = .ok (some f.text) s := by
  have hlive : f.isLive s.now := by rw [Fragment.isLive, hf]
  rw [fragment?_eq, h]
  exact if_pos hlive

theorem fragment?_of_missing {name : String} (h : Dictionary.get? name s.fragments = none) :
    fragment? name s = .ok none s := by
  rw [fragment?_eq, h]

theorem cached_of_kept {f : Fragment} (h : c.value key s = .ok v t)
    (hf : Dictionary.get? v.display t.fragments = some f) (hexpiry : f.expiry = none) :
    c.cached key none body s = .ok (.done f.text) t := by
  unfold cached
  rw [bind_of_ok h]
  change ((fragment? v.display) >>= _) t = _
  rw [bind_of_ok (fragment?_of_kept hf hexpiry)]
  rfl

theorem cached_of_missing (h : c.value key s = .ok v t)
    (hf : Dictionary.get? v.display t.fragments = none) :
    c.cached key none body s = (do
      let found ← body
      keepFragment v.display found.text none t.now
      return found) t := by
  unfold cached
  rw [bind_of_ok h]
  change ((fragment? v.display) >>= _) t = _
  rw [bind_of_ok (fragment?_of_missing hf)]

theorem cached_of_body_error {e : RenderError} (h : c.value key s = .ok v t)
    (hf : Dictionary.get? v.display t.fragments = none) (hbody : body t = .error e u) :
    c.cached key none body s = .error e u := by
  rw [cached_of_missing h hf]
  exact bind_of_error hbody

theorem cached_of_body_ok {o : Outcome} (h : c.value key s = .ok v t)
    (hf : Dictionary.get? v.display t.fragments = none) (hbody : body t = .ok o u) :
    c.cached key none body s =
      .ok o { u with fragments := Dictionary.put v.display ⟨o.text, none⟩ u.fragments } := by
  rw [cached_of_missing h hf, bind_of_ok hbody]
  rfl

/-- A cached body that ends has been run, or there is a text under its key. -/
theorem cached_cases {o : Outcome} (hkey : ∀ v t, c.value key s = .ok v t → t.Unlimited)
    (h : c.cached key none body s = .ok o u) :
    (∃ v f, c.value key s = .ok v u ∧ Dictionary.get? v.display u.fragments = some f ∧
        o = .done f.text) ∨
      ∃ v t made, c.value key s = .ok v t ∧ Dictionary.get? v.display t.fragments = none ∧
        body t = .ok o made ∧
        u = { made with fragments := Dictionary.put v.display ⟨o.text, none⟩ made.fragments } := by
  cases hv : c.value key s with
  | error e t =>
    rw [cached_of_value_error hv] at h
    cases h
  | ok v t =>
    cases hf : Dictionary.get? v.display t.fragments with
    | some f =>
      rw [cached_of_kept hv hf (hkey v t hv _ f hf)] at h
      cases h
      exact .inl ⟨v, f, rfl, hf, rfl⟩
    | none =>
      cases hb : body t with
      | error e u =>
        rw [cached_of_body_error hv hf hb] at h
        cases h
      | ok o u =>
        rw [cached_of_body_ok hv hf hb] at h
        cases h
        exact .inr ⟨v, t, u, rfl, hf, hb, rfl⟩

theorem cached_error_cases {e : RenderError}
    (hkey : ∀ v t, c.value key s = .ok v t → t.Unlimited)
    (h : c.cached key none body s = .error e u) :
    c.value key s = .error e u ∨
      ∃ v t, c.value key s = .ok v t ∧ Dictionary.get? v.display t.fragments = none ∧
        body t = .error e u := by
  cases hv : c.value key s with
  | error e t =>
    rw [cached_of_value_error hv] at h
    cases h
    exact .inl rfl
  | ok v t =>
    cases hf : Dictionary.get? v.display t.fragments with
    | some f =>
      rw [cached_of_kept hv hf (hkey v t hv _ f hf)] at h
      cases h
    | none =>
      cases hb : body t with
      | ok o u =>
        rw [cached_of_body_ok hv hf hb] at h
        cases h
      | error e u =>
        rw [cached_of_body_error hv hf hb] at h
        cases h
        exact .inr ⟨v, t, rfl, hf, hb⟩

theorem replays_cached {failures : Prop} {body : List Instruction}
    (hkey : Replays failures (c.value key)) (hbody : Replays failures (c.exec body))
    (hwrites : c.OnlyWrites key body) (hfails : failures → c.FailsUnkept key body) :
    Replays failures (c.cached key none (c.exec body)) := by
  have hunlimited {s : Session} (hs : s.Unlimited) (v : Value) (t : Session)
      (hv : c.value key s = .ok v t) : t.Unlimited := (hkey.keeps s v t hs hv).1
  have hput {s t made : Session} {v : Value} {o : Outcome} (hs : s.Unlimited)
      (hv : c.value key s = .ok v t) (hf : Dictionary.get? v.display t.fragments = none)
      (hb : c.exec body t = .ok o made) :
      Within t.fragments (Dictionary.put v.display ⟨o.text, none⟩ made.fragments) :=
    (hbody.keeps t o made (hunlimited hs v t hv) hb).2.put hf _
  constructor
  · intro s o u hs hrun
    rcases cached_cases (hunlimited hs) hrun with ⟨v, f, hv, -, -⟩ | ⟨v, t, made, hv, hf, hb, rfl⟩
    · exact hkey.keeps s v u hs hv
    · obtain ⟨ht, hst⟩ := hkey.keeps s v t hs hv
      obtain ⟨hmade, -⟩ := hbody.keeps t o made ht hb
      refine ⟨fun name f hname => ?_, hst.trans (hput hs hv hf hb)⟩
      by_cases he : name = v.display
      · subst he
        rw [Dictionary.get?_put_self] at hname
        cases hname
        rfl
      · rw [Dictionary.get?_put_ne he] at hname
        exact hmade name f hname
  · intro s e u hs hrun
    rcases cached_error_cases (hunlimited hs) hrun with hv | ⟨v, t, hv, hf, hb⟩
    · exact hkey.keeps_failing s e u hs hv
    · obtain ⟨ht, hst⟩ := hkey.keeps s v t hs hv
      exact hst.trans (hbody.keeps_failing t e u ht hb)
  · intro s o u hs hrun kept now hkept
    rcases cached_cases (hunlimited hs) hrun with
      ⟨v, f, hv, hf, rfl⟩ | ⟨v, t, made, hv, hf, hb, rfl⟩
    · have hagain := hkey.again s v u hs hv kept now hkept
      exact cached_of_kept hagain (hkept _ f hf) (hunlimited hs v u hv _ f hf)
    · -- the body does not run again, and what it did was to write the text
      have hagain := hkey.again s v t hs hv kept now ((hput hs hv hf hb).trans hkept)
      have htext := hkept v.display _ (Dictionary.get?_put_self ..)
      obtain ⟨hflow, hscopes⟩ := hwrites v.display t ⟨⟨s, v, hv, rfl⟩, hf⟩ o made hb
      rw [cached_of_kept hagain htext rfl]
      obtain ⟨text, flow⟩ := o
      cases hflow
      rw [Session.later, ← hscopes]
      rfl
  · intro hfail s e u hs hrun now
    rcases cached_error_cases (hunlimited hs) hrun with hv | ⟨v, t, hv, hf, hb⟩
    · exact cached_of_value_error (hkey.again_failing hfail s e u hs hv now)
    · have ht := hunlimited hs v t hv
      have hagain := hkey.again s v t hs hv u.fragments now (hbody.keeps_failing t e u ht hb)
      have hmissing := hfails hfail v.display t ⟨⟨s, v, hv, rfl⟩, hf⟩ e u hb
      exact cached_of_body_error hagain hmissing (hbody.again_failing hfail t e u ht hb now)

/-- What may hold of a cached body in the context in which it runs. -/
abbrev CacheCondition :=
  Context → (key : Expr) → (lifetime : Option Nat) → (body : List Instruction) → Prop

/-- Kept without a limit of time, the text is all that is lost of the body. -/
def Replaceable (failures : Prop) : CacheCondition := fun c key lifetime body =>
  lifetime = none ∧ c.OnlyWrites key body ∧ (failures → c.FailsUnkept key body)

theorem replays_exec {failures : Prop} (hdeeper : ∀ d ∈ c.deeper, d.Keeps fun _ => Replays failures)
    (hoverride : ∀ name, ∀ other ∈ c.override name, Replays failures other)
    (is : List Instruction)
    (his : ∀ key lifetime body, .fragment key lifetime body ∈ walkInstructions is →
      Replaceable failures c key lifetime body) : Replays failures (c.exec is) := by
  refine exec_keeps Replays.closed hdeeper is fun i hi => ?_
  cases i with
  | assign name => exact fun v => .modifyScopes (assign name v)
  | block name => exact hoverride name
  | fragment key lifetime body =>
    obtain ⟨rfl, hwrites, hfails⟩ := his key lifetime body hi
    exact fun hbody => replays_cached (value_keeps Replays.closed hdeeper key) hbody hwrites hfails
  | _ => trivial

end Context

/-! ### Programs -/

namespace Program

/-- The body is cached under the key somewhere in the program, where it runs in the context `c`. -/
def Caches (p : Program) (r : Renderer) (depth : Nat) : Context.CacheCondition :=
  fun c key lifetime body =>
    (c = p.outer r depth ∧ (.fragment key lifetime body ∈ walkInstructions p.main ∨
        ∃ m ∈ p.macros, .fragment key lifetime body ∈ walkInstructions m.2.body)) ∨
      (c = p.inner r depth ∧ ∃ b ∈ p.blocks, .fragment key lifetime body ∈ walkInstructions b.2)

end Program

/-- The programs that a rendering of `t` can come upon. -/
def Renderer.Reaches (r : Renderer) (t : CompiledTemplate) (p : Program) : Prop :=
  Program.ofTemplate r t = .ok p ∨ ∃ name, r.program name = .ok p

/-- Holds of every cached body that a rendering of `t` can come upon. -/
def Renderer.EachCache (P : Context.CacheCondition) (r : Renderer) (t : CompiledTemplate) : Prop :=
  ∀ p, r.Reaches t p → ∀ depth ≤ r.maxDepth, ∀ c key lifetime body,
    p.Caches r depth c key lifetime body → P c key lifetime body

section

variable {r : Renderer} {t : CompiledTemplate} {failures : Prop}

theorem Program.replays_run {p : Program} {depth : Nat}
    (h : ∀ c key lifetime body, p.Caches r depth c key lifetime body →
      Context.Replaceable failures c key lifetime body)
    (hdeeper : ∀ d ∈ deeperOf r depth p, d.Keeps fun _ => Replays failures) :
    Replays failures (run r depth p p.main) ∧
      ∀ name, Replays failures (run r depth p (p.macroBody name)) := by
  have hblock {b : String × List Instruction} (hb : b ∈ p.blocks) :
      Replays failures ((p.inner r depth).exec b.2) := by
    refine Context.replays_exec hdeeper (fun _ _ h => by cases h) b.2 fun key lifetime body hi => ?_
    exact h _ key lifetime body (.inr ⟨rfl, b, hb, hi⟩)
  have hexec (is : List Instruction)
      (his : ∀ key lifetime body, .fragment key lifetime body ∈ walkInstructions is →
        p.Caches r depth (p.outer r depth) key lifetime body) :
      Replays failures (run r depth p is) := by
    rw [run_eq, Program.exec_eq]
    refine (Context.replays_exec hdeeper (fun name other hother => ?_) is
      fun key lifetime body hi => h _ key lifetime body (his key lifetime body hi)).bind fun _ =>
        .pure _
    obtain ⟨block, hfound, rfl⟩ := Option.map_eq_some_iff.mp hother
    exact hblock (Dictionary.mem_of_get? hfound)
  refine ⟨hexec p.main fun _ _ _ hi => .inl ⟨rfl, .inl hi⟩, fun name => hexec _ ?_⟩
  rcases p.macroBody_cases name with ⟨m, hm, hbody⟩ | hbody
  · rw [hbody]
    exact fun _ _ _ hi => .inl ⟨rfl, .inr ⟨m, hm, hi⟩⟩
  · rw [hbody]
    exact nofun

variable (hcaches : r.EachCache (Context.Replaceable failures) t)

include hcaches

theorem replays_deeperOf {depth : Nat} (hdepth : depth ≤ r.maxDepth) {p : Program}
    (hp : r.Reaches t p) :
    ∀ d ∈ deeperOf r depth p, d.Keeps fun _ => Replays failures := by
  induction depth generalizing p with
  | zero => exact nofun
  | succ depth ih =>
    have hless : depth ≤ r.maxDepth := Nat.le_of_succ_le hdepth
    have hrun {q : Program} (hq : r.Reaches t q) :=
      q.replays_run (hcaches q hq depth hless) (ih hless hq)
    rintro d ⟨⟩
    refine ⟨fun name scope => ((hrun hp).2 name).inFreshScope scope, fun name scope => ?_⟩
    dsimp only
    rw [liftResult_program]
    cases hq : r.program name with
    | error e => exact .throw e
    | ok q => exact (hrun (.inr ⟨name, hq⟩)).1.inFreshScope scope

theorem replays_renderTemplate (context : Value) :
    Replays failures (renderTemplate r t context) := by
  refine (Replays.liftResult _).bind fun scope => ?_
  cases hp : Program.ofTemplate r t with
  | error e => exact .throw e
  | ok p =>
    have hdeeper := replays_deeperOf hcaches (Nat.le_refl _) (.inl hp)
    have hrun := p.replays_run (hcaches p (.inl hp) _ (Nat.le_refl _)) hdeeper
    exact hrun.1.inFreshScope scope

end

/-- Rendering once more gives the same and keeps the same, where fragments are kept without limits
of time and cached bodies do nothing but write. Where the first rendering fails, none of them may
keep anything under its own key before it fails. -/
theorem rendering_again_is_same {r : Renderer} {t : CompiledTemplate}
    (hlasting : r.EachCache (fun _ _ lifetime _ => lifetime = none) t)
    (hwrites : r.EachCache (fun c key _ body => c.OnlyWrites key body) t) (context : Value)
    (now later : Nat)
    (hends : (∃ text, (perform (renderTemplate r t context) [] now).1 = .ok text) ∨
      r.EachCache (fun c key _ body => c.FailsUnkept key body) t) :
    perform (renderTemplate r t context) (perform (renderTemplate r t context) [] now).2 later =
      perform (renderTemplate r t context) [] now := by
  let failures : Prop := r.EachCache (fun c key _ body => c.FailsUnkept key body) t
  have hcaches : r.EachCache (Context.Replaceable failures) t :=
    fun p hp depth hdepth c key lifetime body hbody =>
      ⟨hlasting p hp depth hdepth c key lifetime body hbody,
        hwrites p hp depth hdepth c key lifetime body hbody,
        fun hfails => hfails p hp depth hdepth c key lifetime body hbody⟩
  have hreplays := replays_renderTemplate hcaches context
  have hstart : Session.Unlimited ⟨[], [], now⟩ := by
    intro name f hf
    cases hf
  cases hrun : renderTemplate r t context ⟨[], [], now⟩ with
  | ok text s =>
    have hagain := hreplays.again _ text s hstart hrun s.fragments later (.refl _)
    have hagain : renderTemplate r t context ⟨[], s.fragments, later⟩ = _ := hagain
    simp only [perform, hrun, hagain]
    rfl
  | error e s =>
    have hfail : failures := by
      refine hends.resolve_left ?_
      rintro ⟨text, htext⟩
      rw [perform, hrun] at htext
      cases htext
    have hagain := hreplays.again_failing hfail _ e s hstart hrun later
    have hagain : renderTemplate r t context ⟨[], s.fragments, later⟩ = _ := hagain
    simp only [perform, hrun, hagain]
    rfl

/-! ### Bodies that can be seen to do nothing but write -/

/-- What is cached in it is kept without a limit of time, assigns nothing and has no blocks, and
jumps in loops of its own only. -/
def cachesText : Instruction → Bool
  | .fragment _ lifetime body =>
    lifetime.isNone && instructionsFit ⟨false, true⟩ body && (walkInstructions body).all isStill
  | _ => true

/-- Where this holds of all instructions of the programs, nothing is lost in fragments. -/
def Program.cachesText (p : Program) : Bool :=
  (walkInstructions p.main).all Render.cachesText &&
    (p.macros.all fun m => (walkInstructions m.2.body).all Render.cachesText) &&
      p.blocks.all fun b => (walkInstructions b.2).all Render.cachesText

theorem Context.onlyWrites_of_still {c : Context} (hends : c.OverridesEnd)
    (hd : ∀ d ∈ c.deeper, d.Keeps fun _ => Restores) (key : Expr) {body : List Instruction}
    (hbody : instructionsFit ⟨false, true⟩ body) (hstill : ∀ i ∈ walkInstructions body, isStill i) :
    c.OnlyWrites key body := by
  intro name s _ o s' hrun
  have hconfines := Context.confines_exec hends ⟨false, true⟩ body hbody
  have hflow := (hconfines.of_ok s o s' (fun _ _ => trivial) hrun).1
  have hrestores := Context.exec_restores hd body hstill
  exact ⟨hflow.resolve_right Bool.false_ne_true, hrestores.scopes_of_ok hrun⟩

theorem Program.Caches.onlyWrites {p : Program} (hp : p.Fits) (htext : p.cachesText) {r : Renderer}
    {depth : Nat} {c : Context} {key : Expr} {lifetime : Option Nat} {body : List Instruction}
    (h : p.Caches r depth c key lifetime body) : lifetime = none ∧ c.OnlyWrites key body := by
  obtain ⟨htext, hblocks⟩ := Bool.and_eq_true_iff.mp htext
  obtain ⟨hmain, hmacros⟩ := Bool.and_eq_true_iff.mp htext
  have hd := restores_deeperOf r depth p
  have hall {c : Context} (hends : c.OverridesEnd) (hdeeper : c.deeper = deeperOf r depth p)
      {is : List Instruction} (his : (walkInstructions is).all Render.cachesText)
      (hi : .fragment key lifetime body ∈ walkInstructions is) :
      lifetime = none ∧ c.OnlyWrites key body := by
    obtain ⟨hi, hstill⟩ := Bool.and_eq_true_iff.mp (List.all_eq_true.mp his _ hi)
    obtain ⟨hlifetime, hbody⟩ := Bool.and_eq_true_iff.mp hi
    rw [← hdeeper] at hd
    exact ⟨Option.isNone_iff_eq_none.mp hlifetime,
      Context.onlyWrites_of_still hends hd key hbody (List.all_eq_true.mp hstill)⟩
  rcases h with ⟨rfl, hi | ⟨m, hm, hi⟩⟩ | ⟨rfl, b, hb, hi⟩
  · exact hall (hp.overridesEnd _) rfl hmain hi
  · exact hall (hp.overridesEnd _) rfl (List.all_eq_true.mp hmacros m hm) hi
  · exact hall (Context.plain_overridesEnd _) rfl (List.all_eq_true.mp hblocks b hb) hi

/-- A loop that is left in its first round, within what is cached. -/
def keptLoop : String :=
  "\x7b% cache \"k\" %\x7d\x7b% for x in [1, 2] %\x7d\x7b\x7b x \x7d\x7d\x7b% break %\x7d"
    ++ "\x7b% endfor %\x7d\x7b% endcache %\x7d"

theorem rendering_again_is_same_keptLoop :
    ∃ t, Template.compile {} keptLoop = .ok t ∧
      (perform (renderTemplate .standard t .null) [] 0).1 = .ok "1" ∧
      perform (renderTemplate .standard t .null)
          (perform (renderTemplate .standard t .null) [] 0).2 1 =
        perform (renderTemplate .standard t .null) [] 0 := by
  have hs : (Template.compile {} keptLoop).toOption.any fun t =>
      ((perform (renderTemplate .standard t .null) [] 0).1.toOption.any (· == "1")) &&
        (Program.ofTemplate .standard t).toOption.any (·.cachesText) := by
    decide +kernel
  obtain ⟨t, ht, hs⟩ := exists_ok_of_any hs
  obtain ⟨htext, hs⟩ := Bool.and_eq_true_iff.mp hs
  obtain ⟨text, htext, heq⟩ := exists_ok_of_any htext
  obtain ⟨q, hq, hcaches⟩ := exists_ok_of_any hs
  cases eq_of_beq heq
  have hload : ∀ name u, Renderer.standard.load name = .ok u → u.IsCompiled := by
    rintro name u ⟨⟩
  have hfits : q.Fits := ((ofTemplate_returns hload ⟨_, _, ht⟩).of_ok q hq).fits
  -- nothing but the template itself can be had
  have heach : Renderer.standard.EachCache
      (fun c key lifetime body => lifetime = none ∧ c.OnlyWrites key body) t := by
    rintro p (hp | ⟨name, ⟨⟩⟩) depth - c key lifetime body hbody
    cases hp.symm.trans hq
    exact hbody.onlyWrites hfits hcaches
  have hsame := rendering_again_is_same
    (fun p hp depth hdepth c key lifetime body hbody =>
      (heach p hp depth hdepth c key lifetime body hbody).1)
    (fun p hp depth hdepth c key lifetime body hbody =>
      (heach p hp depth hdepth c key lifetime body hbody).2) .null 0 1 (.inl ⟨_, htext⟩)
  exact ⟨t, ht, htext, hsame⟩

/-- An assignment within what is cached. -/
def keptAssignment : String :=
  "\x7b% cache \"k\" %\x7d\x7b% set x = 1 %\x7d\x7b% endcache %\x7d\x7b\x7b x \x7d\x7d"

/-- The second time it is not made. -/
theorem keptAssignment_not_same :
    ∃ t, Template.compile {} keptAssignment = .ok t ∧
      (perform (renderTemplate .standard t .null) [] 0).1 = .ok "1" ∧
      (perform (renderTemplate .standard t .null)
        (perform (renderTemplate .standard t .null) [] 0).2 0).1 = .ok "" := by
  have hs : (Template.compile {} keptAssignment).toOption.any fun t =>
      ((perform (renderTemplate .standard t .null) [] 0).1.toOption.any (· == "1")) &&
        ((perform (renderTemplate .standard t .null)
          (perform (renderTemplate .standard t .null) [] 0).2 0).1.toOption.any (· == "")) := by
    decide +kernel
  obtain ⟨t, ht, hs⟩ := exists_ok_of_any hs
  obtain ⟨hfirst, hsecond⟩ := Bool.and_eq_true_iff.mp hs
  obtain ⟨_, hfirst, htext⟩ := exists_ok_of_any hfirst
  obtain ⟨_, hsecond, htext'⟩ := exists_ok_of_any hsecond
  cases eq_of_beq htext
  cases eq_of_beq htext'
  exact ⟨t, ht, hfirst, hsecond⟩

end EmbeddedLang.Render
