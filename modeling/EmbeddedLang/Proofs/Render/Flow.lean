import EmbeddedLang.Proofs.Render.Ensures
import EmbeddedLang.Proofs.Render.Programs
import EmbeddedLang.Proofs.Template.Jumps

/-!
A jump ends at the loop around it.

So neither a whole template nor the body of a macro ends in one. A block may be replaced by one of
another template, but only by one that stands in no loop.
-/

namespace EmbeddedLang.Render

open Template (CompiledTemplate Instruction Arm instructionsFit armsFit outsideLoops)

/-- Where it ends in a jump, it stands in a loop. -/
abbrev Confines (place : Template.Place) (action : Rendering Outcome) : Prop :=
  Ensures (fun _ => True) action fun outcome => outcome.flow = .normal ∨ place.inLoop

theorem ensures_any {α : Type} (action : Rendering α) :
    Ensures (fun _ => True) action fun _ => True where
  of_ok _ _ _ _ _ := ⟨trivial, fun _ _ => trivial⟩
  of_error _ _ _ _ _ _ _ := trivial

theorem confines_done {place : Template.Place} (action : Rendering String) :
    Confines place (do return .done (← action)) :=
  (ensures_any action).bind fun _ _ => .pure (.inl rfl)

namespace Context

variable {c : Context} {place : Template.Place}

theorem confines_cached (key : Expr) (lifetime : Option Nat) {body : Rendering Outcome}
    (h : Confines place body) : Confines place (c.cached key lifetime body) := by
  refine (ensures_any _).bind fun _ _ => (ensures_any _).bind fun _ _ => ?_
  refine (ensures_any _).bind fun found _ => ?_
  cases found with
  | some text => exact .pure (.inl rfl)
  | none => exact h.bind fun made hmade => (ensures_any _).bind fun _ _ => .pure hmade

theorem confines_custom (name : String) (args : List Expr) {body : Option (Rendering Outcome)}
    (h : ∀ b ∈ body, Confines place b) : Confines place (c.custom name args body) := by
  unfold custom
  split
  · exact .throw _
  · refine (ensures_any _).bind fun _ _ => ?_
    cases body with
    | none => exact confines_done _
    | some body =>
      refine (h body rfl).bind fun inner hinner => ?_
      exact (ensures_any _).bind fun _ _ => .pure hinner

def OverridesEnd (c : Context) : Prop :=
  ∀ name, ∀ other ∈ c.override name, Confines ⟨false, true⟩ other

mutual

theorem confines_step (hc : c.OverridesEnd) (place : Template.Place) : (i : Instruction) →
    i.fits place → Confines place (c.step i)
  | .literal _, _ => by
    rw [step]
    exact .pure (.inl rfl)
  | .output e escape, _ => by
    rw [step]
    exact confines_done _
  | .choice branches otherwise, h => by
    rw [step]
    obtain ⟨hb, ho⟩ := Bool.and_eq_true_iff.mp h
    exact confines_arms hc place branches hb (confines_exec hc place otherwise ho)
  | .loop _ _ _ _ _ otherwise, h => by
    rw [step]
    obtain ⟨-, ho⟩ := Bool.and_eq_true_iff.mp h
    refine (ensures_any _).bind fun _ _ => (ensures_any _).bind fun _ _ => ?_
    refine (ensures_any _).bind fun found _ => ?_
    split
    · exact confines_exec hc place otherwise ho
    -- whatever the rounds end in, the loop goes on after them
    · exact confines_done _
  | .assign .., _ | .evaluate _, _ => by
    rw [step]
    exact (ensures_any _).bind fun _ _ => .pure (.inl rfl)
  | .leave, h | .proceed, h => by
    rw [step]
    exact .pure (.inr h)
  | .block name body, h => by
    rw [step]
    obtain ⟨-, hb⟩ := Bool.and_eq_true_iff.mp h
    split
    · next other hother =>
      exact (hc name other hother).imp fun _ hflow => .inl (hflow.resolve_right nofun)
    · exact confines_exec hc { place with inBlock := true } body hb
  | .inclusion .., _ => by
    rw [step]
    exact confines_done _
  | .fragment key lifetime body, h => by
    rw [step]
    exact confines_cached key lifetime (confines_exec hc place body h)
  | .extension name args none, _ => by
    rw [step]
    exact confines_custom name args nofun
  | .extension name args (some body), h => by
    rw [step]
    apply confines_custom
    rintro _ ⟨⟩
    exact confines_exec hc place body h

theorem confines_exec (hc : c.OverridesEnd) (place : Template.Place) : (is : List Instruction) →
    instructionsFit place is → Confines place (c.exec is)
  | [], _ => by
    rw [exec]
    exact .pure (.inl rfl)
  | i :: rest, h => by
    rw [exec]
    obtain ⟨hi, hrest⟩ := Template.instructionsFit_cons.mp h
    refine (confines_step hc place i hi).bind fun first hfirst => ?_
    split
    · exact (confines_exec hc place rest hrest).bind fun others hothers => .pure hothers
    · exact .pure hfirst

theorem confines_arms (hc : c.OverridesEnd) (place : Template.Place) : (arms : List Arm) →
    armsFit place arms → {otherwise : Rendering Outcome} → Confines place otherwise →
    Confines place (c.arms arms otherwise)
  | [], _, _, ho => by
    rw [arms]
    exact ho
  | ⟨condition, body⟩ :: rest, h, _, ho => by
    rw [arms]
    obtain ⟨hb, hrest⟩ := Bool.and_eq_true_iff.mp h
    refine (ensures_any _).bind fun v _ => ?_
    split
    · exact confines_exec hc place body hb
    · exact confines_arms hc place rest hrest ho

end

end Context

/-! ### Programs -/

/-- Made of bodies in no loop; its blocks stand in a block. -/
structure Program.Fits (p : Program) : Prop where
  main : instructionsFit ⟨false, false⟩ p.main
  macros : ∀ m ∈ p.macros, m.2.Fits
  blocks : ∀ b ∈ p.blocks, instructionsFit ⟨false, true⟩ b.2

theorem Program.MadeOf.fits {p : Program} (h : p.MadeOf CompiledTemplate.IsCompiled) : p.Fits := by
  refine ⟨?_, ?_, ?_⟩
  · obtain ⟨t, ht, hmain⟩ := h.main
    rw [hmain]
    exact ht.fits.1
  · intro m hm
    obtain ⟨t, ht, hm⟩ := h.macros m hm
    exact ht.fits.2 m hm
  · intro b hb
    obtain ⟨t, ht, hb⟩ := h.blocks b hb
    exact Template.instructionsFit_of_mem_blocks ht.fits.1 hb

theorem Program.Fits.macroBody {p : Program} (h : p.Fits) (name : String) :
    ∃ inBlock, instructionsFit ⟨false, inBlock⟩ (p.macroBody name) := by
  rcases p.macroBody_cases name with ⟨m, hm, hbody⟩ | hbody
  · rw [hbody]
    exact h.macros m hm
  · rw [hbody]
    exact ⟨false, rfl⟩

theorem Context.plain_overridesEnd (s : Surroundings) : (Context.plain s).OverridesEnd := by
  intro name other hother
  cases hother

theorem Program.Fits.overridesEnd {p : Program} (h : p.Fits) (s : Surroundings) :
    (Context.replacing s (Dictionary.get? · p.blocks)).OverridesEnd := by
  intro name other hother
  obtain ⟨block, hblock, rfl⟩ := Option.map_eq_some_iff.mp hother
  exact Context.confines_exec (Context.plain_overridesEnd s) _ block
    (h.blocks _ (Dictionary.mem_of_get? hblock))

theorem Program.confines_exec {p : Program} (h : p.Fits) (r : Renderer) (deeper : Option Deeper)
    {place : Template.Place} {is : List Instruction} (his : instructionsFit place is) :
    Confines place (p.exec r deeper is) :=
  Context.confines_exec (h.overridesEnd _) place is his

/-- Jumps stand in the bodies of loops, and whole templates and macro bodies end normally. -/
theorem jumps_end_at_loops {o : Template.Options} {source : String} {t : CompiledTemplate}
    (h : Template.compile o source = .ok t) :
    (∀ i ∈ outsideLoops t.instructions, i.isJump = false) ∧
      (∀ m ∈ t.macros, ∀ i ∈ outsideLoops m.2.body, i.isJump = false) ∧
      ∀ r : Renderer, (∀ name u, r.load name = .ok u → u.IsCompiled) →
        ∀ p, Program.ofTemplate r t = .ok p → ∀ deeper s outcome s',
          (p.exec r deeper p.main s = .ok outcome s' → outcome.flow = .normal) ∧
            ∀ name, p.exec r deeper (p.macroBody name) s = .ok outcome s' →
              outcome.flow = .normal := by
  have ht : t.IsCompiled := ⟨o, source, h⟩
  refine ⟨Template.not_isJump_outsideLoops false t.instructions ht.fits.1, ?_, ?_⟩
  · intro m hm
    obtain ⟨inBlock, hbody⟩ := ht.fits.2 m hm
    exact Template.not_isJump_outsideLoops inBlock m.2.body hbody
  · intro r hr p hp deeper s outcome s'
    have hfits : p.Fits := ((ofTemplate_returns hr ht).of_ok p hp).fits
    have hkeeps : s.Keeps fun _ => True := fun _ _ => trivial
    constructor
    · intro hrun
      have hmain := p.confines_exec hfits r deeper hfits.main
      exact (hmain.of_ok s outcome s' hkeeps hrun).1.resolve_right nofun
    · intro name hrun
      obtain ⟨inBlock, hbody⟩ := hfits.macroBody name
      have hcalled := p.confines_exec hfits r deeper hbody
      exact (hcalled.of_ok s outcome s' hkeeps hrun).1.resolve_right nofun

/-- A macro whose loop passes its rounds over, and a loop left in its first round. -/
def leaving : String :=
  "\x7b% macro m(n) %\x7d\x7b% for x in n %\x7d\x7b% continue %\x7d\x7b% endfor %\x7d"
    ++ "\x7b% endmacro %\x7d"
    ++ "\x7b% for x in xs %\x7da\x7b% break %\x7d\x7b% endfor %\x7d"

theorem jumps_end_at_loops_leaving :
    ∃ t p outcome s', Template.compile {} leaving = .ok t ∧
      Program.ofTemplate .standard t = .ok p ∧
      p.exec .standard none p.main ⟨[[("xs", .array [.null, .null])]], [], 0⟩ = .ok outcome s' ∧
      outcome.text = "a" ∧ outcome.flow = .normal := by
  have hs : (Template.compile {} leaving).toOption.any fun t =>
      (Program.ofTemplate .standard t).toOption.any fun p =>
        match p.exec .standard none p.main ⟨[[("xs", .array [.null, .null])]], [], 0⟩ with
        | .ok outcome _ => outcome.text == "a"
        | .error .. => false := by
    decide +kernel
  obtain ⟨t, ht, hs⟩ := exists_ok_of_any hs
  obtain ⟨p, hp, hs⟩ := exists_ok_of_any hs
  have hload : ∀ name u, Renderer.standard.load name = .ok u → u.IsCompiled := by
    intro name u hu
    cases hu
  obtain ⟨-, -, hends⟩ := jumps_end_at_loops ht
  split at hs
  · next outcome s' hrun =>
    exact ⟨t, p, outcome, s', ht, hp, hrun, eq_of_beq hs,
      (hends .standard hload p hp none _ outcome s').1 hrun⟩
  · cases hs

end EmbeddedLang.Render
