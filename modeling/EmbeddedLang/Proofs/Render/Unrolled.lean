import EmbeddedLang.Proofs.Render.Flow

/-!
Rendering as it goes when nothing but the limit stops it.

Here the blocks that replace others are looked up again inside themselves, and a body runs another
one whenever it comes to it. What bounds this is that blocks stand in no blocks, so that there are
at most two bodies for each macro call or include in progress.
-/

namespace EmbeddedLang.Render

open Template (CompiledTemplate Instruction Arm instructionsFit armsFit)

section

variable (r : Renderer) (limit : Nat) (started : Nat → Rendering Unit) (cut : Rendering Outcome)

/-- What is deeper than a body where one more may start, whose number is announced. -/
def nextDeeper (body : Nat → Program → List Instruction → Rendering Outcome) (inProgress : Nat)
    (p : Program) : Option Deeper :=
  if inProgress < limit then some {
    body := fun name scope => do
      started (inProgress + 1)
      inFreshScope scope do
        return (← body (inProgress + 1) p (p.macroBody name)).text
    template := fun name scope => do
      let t ← liftResult (r.load name)
      started (inProgress + 1)
      let q ← liftResult (Program.ofTemplate r t)
      inFreshScope scope do
        return (← body (inProgress + 1) q q.main).text }
  else none

/-- Runs a body of a program while so many macro calls and includes are in progress. Below so many
levels of bodies there is only `cut`. -/
def unrolled : (levels inProgress : Nat) → Program → List Instruction → Rendering Outcome
  | 0, _, _, _ => cut
  | levels + 1, inProgress, p, instructions =>
    let deeper := nextDeeper r limit started (unrolled levels) inProgress p
    let c : Context :=
      ⟨⟨r, signatures p.macros, deeper⟩,
        fun name => (Dictionary.get? name p.blocks).map (unrolled levels inProgress p)⟩
    c.exec instructions

def renderUnrolled (levels : Nat) (t : CompiledTemplate) (context : Value) : Rendering String := do
  let scope ← liftResult (contextScope context)
  let p ← liftResult (Program.ofTemplate r t)
  inFreshScope scope do
    return (← unrolled r limit started cut levels 0 p p.main).text

end

/-- Renders with so many in progress at most, whatever number the renderer has for it. -/
def renderWithin (r : Renderer) (limit : Nat) (t : CompiledTemplate) (context : Value) :
    Rendering String := do
  let scope ← liftResult (contextScope context)
  let p ← liftResult (Program.ofTemplate r t)
  inFreshScope scope (run r limit p p.main)

/-! ### Blocks inside blocks -/

namespace Context

variable (s : Surroundings) (override other : String → Option (Rendering Outcome))

theorem kept_override (key : Option String) (name : String) (filter : Option Expr)
    (found more : List (Value × Value)) :
    kept ⟨s, override⟩ key name filter found more = kept ⟨s, other⟩ key name filter found more := by
  induction more generalizing found with
  | nil => rfl
  | cons entry rest ih =>
    rw [kept, kept]
    simp only [ih]
    rfl

theorem values_override (es : List Expr) : values ⟨s, override⟩ es = values ⟨s, other⟩ es := by
  induction es with
  | nil => rfl
  | cons e rest ih =>
    rw [values, values, ih]
    rfl

theorem custom_override (name : String) (args : List Expr) (body : Option (Rendering Outcome)) :
    custom ⟨s, override⟩ name args body = custom ⟨s, other⟩ name args body := by
  unfold custom
  rw [values_override s override other]

mutual

theorem step_override (place : Template.Place) (hplace : place.inBlock) : (i : Instruction) →
    i.fits place → step ⟨s, override⟩ i = step ⟨s, other⟩ i
  | .choice branches otherwise, h => by
    obtain ⟨hb, ho⟩ := Bool.and_eq_true_iff.mp h
    rw [step, step, exec_override place hplace otherwise ho]
    exact arms_override place hplace branches hb _
  | .loop _ _ _ _ body otherwise, h => by
    obtain ⟨hb, ho⟩ := Bool.and_eq_true_iff.mp h
    rw [step, step, exec_override { place with inLoop := true } hplace body hb,
      exec_override place hplace otherwise ho]
    simp only [kept_override s override other]
    rfl
  | .block _ _, h => by
    obtain ⟨hno, -⟩ := Bool.and_eq_true_iff.mp h
    rw [hplace] at hno
    cases hno
  | .fragment _ _ body, h => by
    rw [step, step, exec_override place hplace body h]
    rfl
  | .extension _ _ none, _ => by
    rw [step, step, optional, optional, custom_override s override other]
  | .extension _ _ (some body), h => by
    rw [step, step, optional, optional, exec_override place hplace body h,
      custom_override s override other]
  | .literal _, _ | .leave, _ | .proceed, _ => by rw [step, step]
  | .output .., _ | .assign .., _ | .evaluate _, _ | .inclusion .., _ => by
    rw [step, step]
    rfl

theorem exec_override (place : Template.Place) (hplace : place.inBlock) : (is : List Instruction) →
    instructionsFit place is → exec ⟨s, override⟩ is = exec ⟨s, other⟩ is
  | [], _ => by rw [exec, exec]
  | i :: rest, h => by
    obtain ⟨hi, hrest⟩ := Template.instructionsFit_cons.mp h
    rw [exec, exec, step_override place hplace i hi, exec_override place hplace rest hrest]

theorem arms_override (place : Template.Place) (hplace : place.inBlock) : (branches : List Arm) →
    armsFit place branches → (otherwise : Rendering Outcome) →
    arms ⟨s, override⟩ branches otherwise = arms ⟨s, other⟩ branches otherwise
  | [], _, _ => by rw [arms, arms]
  | ⟨_, body⟩ :: rest, h, otherwise => by
    obtain ⟨hb, hrest⟩ := Bool.and_eq_true_iff.mp h
    rw [arms, arms, exec_override place hplace body hb, arms_override place hplace rest hrest]
    rfl

end

end Context

/-! ### Enough levels -/

/-- What is deeper than a body of `p` with so many more allowed. -/
def deeperOf (r : Renderer) : (depth : Nat) → Program → Option Deeper
  | 0, _ => none
  | depth + 1, p => some {
      body := fun name scope => inFreshScope scope (run r depth p (p.macroBody name))
      template := fun name scope => do
        let t ← liftResult (r.load name)
        let q ← liftResult (Program.ofTemplate r t)
        inFreshScope scope (run r depth q q.main) }

/-- Where the instructions and macros of a program run, with so many calls and includes left. -/
abbrev Program.outer (p : Program) (r : Renderer) (depth : Nat) : Context :=
  .replacing ⟨r, signatures p.macros, deeperOf r depth p⟩ (Dictionary.get? · p.blocks)

/-- Where its blocks run. -/
abbrev Program.inner (p : Program) (r : Renderer) (depth : Nat) : Context :=
  .plain ⟨r, signatures p.macros, deeperOf r depth p⟩

theorem run_eq (r : Renderer) (depth : Nat) (p : Program) (is : List Instruction) :
    run r depth p is = do return (← p.exec r (deeperOf r depth p) is).text := by
  cases depth <;> rfl

theorem liftResult_bind_congr {α β : Type} {x : Except RenderError α} {f g : α → Rendering β}
    (h : ∀ a, x = .ok a → f a = g a) : (liftResult x >>= f) = (liftResult x >>= g) := by
  cases x with
  | ok a => exact h a rfl
  | error e => rfl

section

variable {r : Renderer} {limit : Nat} {started : Nat → Rendering Unit} {cut : Rendering Outcome}
  {levels inProgress : Nat} {p : Program} {deeper : Option Deeper}

/-- A body needs two levels: one for itself, and one for a block that replaces another. -/
theorem unrolled_eq_exec (hp : p.Fits)
    (h : nextDeeper r limit started (unrolled r limit started cut levels) inProgress p = deeper)
    (h' : nextDeeper r limit started (unrolled r limit started cut (levels + 1)) inProgress p =
      deeper) (is : List Instruction) :
    unrolled r limit started cut (levels + 2) inProgress p is = p.exec r deeper is := by
  have hblocks (name : String) :
      (Dictionary.get? name p.blocks).map
          (unrolled r limit started cut (levels + 1) inProgress p) =
        (Dictionary.get? name p.blocks).map
          (Context.exec ⟨⟨r, signatures p.macros, deeper⟩, fun _ => none⟩) := by
    cases hb : Dictionary.get? name p.blocks with
    | none => rfl
    | some body =>
      have hfits := hp.blocks _ (Dictionary.mem_of_get? hb)
      rw [Option.map_some, Option.map_some, unrolled, h]
      exact congrArg some (Context.exec_override _ _ _ ⟨false, true⟩ rfl body hfits)
  rw [unrolled, h', funext hblocks]
  rfl

variable (hr : ∀ name t, r.load name = .ok t → t.IsCompiled)
  (hstarted : ∀ k ≤ limit, started k = pure ())

include hr hstarted

theorem nextDeeper_eq (depth : Nat) (hdepth : inProgress + depth = limit)
    (hlevels : 2 * depth ≤ levels) (hp : p.Fits) :
    nextDeeper r limit started (unrolled r limit started cut levels) inProgress p =
      deeperOf r depth p := by
  induction depth generalizing inProgress levels p with
  | zero =>
    have hfull : ¬ inProgress < limit := by omega
    rw [nextDeeper, if_neg hfull]
    rfl
  | succ depth ih =>
    have hroom : inProgress < limit := by omega
    have hnext : inProgress + 1 + depth = limit := by omega
    obtain ⟨fewer, rfl⟩ : ∃ fewer, levels = fewer + 2 := ⟨levels - 2, by omega⟩
    have hstart : started (inProgress + 1) = pure () := hstarted _ (by omega)
    have hbody (q : Program) (hq : q.Fits) (is : List Instruction) :
        unrolled r limit started cut (fewer + 2) (inProgress + 1) q is =
          q.exec r (deeperOf r depth q) is :=
      unrolled_eq_exec hq (ih hnext (by omega) hq) (ih hnext (by omega) hq) is
    rw [nextDeeper, if_pos hroom, deeperOf]
    congr 2
    · funext name scope
      rw [hstart, hbody p hp, run_eq]
      rfl
    · funext name scope
      refine liftResult_bind_congr fun t ht => ?_
      rw [hstart]
      refine liftResult_bind_congr fun q hq => ?_
      have hfits : q.Fits := ((ofTemplate_returns hr (hr name t ht)).of_ok q hq).fits
      rw [hbody q hfits, run_eq]

theorem renderUnrolled_eq {t : CompiledTemplate} (ht : t.IsCompiled)
    (hlevels : 2 * (limit + 1) ≤ levels) (context : Value) :
    renderUnrolled r limit started cut levels t context = renderWithin r limit t context := by
  obtain ⟨fewer, rfl⟩ : ∃ fewer, levels = fewer + 2 := ⟨levels - 2, by omega⟩
  refine liftResult_bind_congr fun scope _ => liftResult_bind_congr fun p hp => ?_
  have hfits : p.Fits := ((ofTemplate_returns hr ht).of_ok p hp).fits
  have hdeeper (levels : Nat) (h : 2 * limit ≤ levels) :
      nextDeeper r limit started (unrolled r limit started cut levels) 0 p = deeperOf r limit p :=
    nextDeeper_eq hr hstarted limit (Nat.zero_add limit) h hfits
  rw [unrolled_eq_exec hfits (hdeeper fewer (by omega)) (hdeeper _ (by omega)), run_eq]

end

end EmbeddedLang.Render
