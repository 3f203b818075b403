import EmbeddedLang.Proofs.Dictionary
import EmbeddedLang.Proofs.Template.Jumps
import Mathlib.Data.List.Nodup

/-!
Templates whose blocks are settled: each one gives way to the instructions it stands for.

These are given by name. A block whose name has none stands for its own body.
-/

namespace EmbeddedLang.Template

variable (bodies : String → Option (List Instruction))

mutual

def Instruction.settle : Instruction → List Instruction
  | .choice branches otherwise =>
    [.choice (settleArms branches) (settleInstructions otherwise)]
  | .loop key name iterable filter body otherwise =>
    [.loop key name iterable filter (settleInstructions body) (settleInstructions otherwise)]
  | .block name body => (bodies name).getD (settleInstructions body)
  | .fragment key lifetime body => [.fragment key lifetime (settleInstructions body)]
  | .extension name args body => [.extension name args (settleBody body)]
  | i@(.literal _) | i@(.output ..) | i@(.assign ..) | i@(.evaluate _) | i@.leave | i@.proceed
  | i@(.inclusion ..) => [i]

def settleInstructions : List Instruction → List Instruction
  | [] => []
  | i :: rest => i.settle ++ settleInstructions rest

def settleBody : Option (List Instruction) → Option (List Instruction)
  | none => none
  | some body => some (settleInstructions body)

def settleArms : List Arm → List Arm
  | [] => []
  | arm :: rest => arm.settle :: settleArms rest

def Arm.settle : Arm → Arm
  | ⟨condition, body⟩ => ⟨condition, settleInstructions body⟩

end

def Definition.settle (m : Definition) : Definition :=
  { m with body := settleInstructions bodies m.body }

def CompiledTemplate.settle (t : CompiledTemplate) : CompiledTemplate :=
  { t with
    instructions := settleInstructions bodies t.instructions
    macros := Dictionary.mapValues (Definition.settle bodies) t.macros }

section

variable {bodies}

mutual

/-- No block is left, as long as none comes with the given bodies. -/
theorem blocks_settle
    (hbodies : ∀ name body, bodies name = some body → body.filterMap Instruction.block? = []) :
    (i : Instruction) → (i.settle bodies).filterMap Instruction.block? = []
  | .block name body => by
    rw [Instruction.settle]
    cases h : bodies name with
    | none => exact blocks_settleInstructions hbodies body
    | some other => exact hbodies name other h
  | .literal _ | .output .. | .choice .. | .loop .. | .assign .. | .evaluate _ | .leave | .proceed
  | .inclusion .. | .fragment .. | .extension .. => by
    rw [Instruction.settle]
    rfl

theorem blocks_settleInstructions
    (hbodies : ∀ name body, bodies name = some body → body.filterMap Instruction.block? = []) :
    (is : List Instruction) → (settleInstructions bodies is).filterMap Instruction.block? = []
  | [] => rfl
  | i :: rest => by
    rw [settleInstructions, List.filterMap_append, blocks_settle hbodies i,
      blocks_settleInstructions hbodies rest]
    rfl

end

theorem blocks_of_inBlock {place : Place} (hplace : place.inBlock) {is : List Instruction}
    (h : instructionsFit place is) : is.filterMap Instruction.block? = [] := by
  rw [List.filterMap_eq_nil_iff]
  intro i hi
  have hfits := instructionsFit_iff.mp h i hi
  cases i with
  | block name body =>
    obtain ⟨hno, -⟩ := Bool.and_eq_true_iff.mp hfits
    rw [hplace] at hno
    cases hno
  | _ => rfl

/-- A block at the top level of a compiled template has no blocks in it. -/
theorem CompiledTemplate.IsCompiled.blocks_of_mem {t : CompiledTemplate} (h : t.IsCompiled)
    {b : String × List Instruction} (hb : b ∈ t.blocks) :
    b.2.filterMap Instruction.block? = [] :=
  blocks_of_inBlock rfl (instructionsFit_of_mem_blocks h.fits.1 hb)

/-! ### Blocks that stand for their own bodies -/

mutual

theorem settle_inBlock (place : Place) (hplace : place.inBlock) : (i : Instruction) →
    i.fits place → i.settle bodies = [i]
  | .choice branches otherwise, h => by
    obtain ⟨hb, ho⟩ := Bool.and_eq_true_iff.mp h
    rw [Instruction.settle, settleArms_inBlock place hplace branches hb,
      settleInstructions_inBlock place hplace otherwise ho]
  | .loop _ _ _ _ body otherwise, h => by
    obtain ⟨hb, ho⟩ := Bool.and_eq_true_iff.mp h
    rw [Instruction.settle,
      settleInstructions_inBlock { place with inLoop := true } hplace body hb,
      settleInstructions_inBlock place hplace otherwise ho]
  | .block _ _, h => by
    obtain ⟨hno, -⟩ := Bool.and_eq_true_iff.mp h
    rw [hplace] at hno
    cases hno
  | .fragment _ _ body, h => by
    rw [Instruction.settle, settleInstructions_inBlock place hplace body h]
  | .extension _ _ none, _ => by rw [Instruction.settle, settleBody]
  | .extension _ _ (some body), h => by
    rw [Instruction.settle, settleBody, settleInstructions_inBlock place hplace body h]
  | .literal _, _ | .output .., _ | .assign .., _ | .evaluate _, _ | .leave, _ | .proceed, _
  | .inclusion .., _ => by rw [Instruction.settle]

theorem settleInstructions_inBlock (place : Place) (hplace : place.inBlock) :
    (is : List Instruction) → instructionsFit place is → settleInstructions bodies is = is
  | [], _ => rfl
  | i :: rest, h => by
    obtain ⟨hi, hrest⟩ := instructionsFit_cons.mp h
    rw [settleInstructions, settle_inBlock place hplace i hi,
      settleInstructions_inBlock place hplace rest hrest]
    rfl

theorem settleArms_inBlock (place : Place) (hplace : place.inBlock) : (arms : List Arm) →
    armsFit place arms → settleArms bodies arms = arms
  | [], _ => rfl
  | ⟨_, body⟩ :: rest, h => by
    obtain ⟨hb, hrest⟩ := Bool.and_eq_true_iff.mp h
    rw [settleArms, Arm.settle, settleInstructions_inBlock place hplace body hb,
      settleArms_inBlock place hplace rest hrest]

end

end

/-- A block is given its own body, if any. -/
def Instruction.GivenOwn : Instruction → Prop
  | .block name body => ∀ other, bodies name = some other → other = body
  | _ => True

section

variable {bodies}

mutual

theorem settle_own (place : Place) : (i : Instruction) → i.fits place →
    (∀ j ∈ i.walk, j.GivenOwn bodies) → i.settle bodies = i.settle fun _ => none
  | .choice branches otherwise, h, hown => by
    obtain ⟨hb, ho⟩ := Bool.and_eq_true_iff.mp h
    obtain ⟨-, hown⟩ := List.forall_mem_cons.mp hown
    obtain ⟨hownb, howno⟩ := List.forall_mem_append.mp hown
    rw [Instruction.settle, Instruction.settle, settleArms_own place branches hb hownb,
      settleInstructions_own place otherwise ho howno]
  | .loop _ _ _ _ body otherwise, h, hown => by
    obtain ⟨hb, ho⟩ := Bool.and_eq_true_iff.mp h
    obtain ⟨-, hown⟩ := List.forall_mem_cons.mp hown
    obtain ⟨hownb, howno⟩ := List.forall_mem_append.mp hown
    rw [Instruction.settle, Instruction.settle,
      settleInstructions_own { place with inLoop := true } body hb hownb,
      settleInstructions_own place otherwise ho howno]
  | .block name body, h, hown => by
    obtain ⟨-, hb⟩ := Bool.and_eq_true_iff.mp h
    obtain ⟨hname, -⟩ := List.forall_mem_cons.mp hown
    -- what stands in a block is as it is, whatever bodies are given
    rw [Instruction.settle, Instruction.settle, settleInstructions_inBlock _ rfl body hb,
      settleInstructions_inBlock _ rfl body hb]
    cases hbody : bodies name with
    | none => rfl
    | some other => exact hname other hbody
  | .fragment _ _ body, h, hown => by
    obtain ⟨-, hown⟩ := List.forall_mem_cons.mp hown
    rw [Instruction.settle, Instruction.settle, settleInstructions_own place body h hown]
  | .extension _ _ none, _, _ => by
    rw [Instruction.settle, Instruction.settle, settleBody, settleBody]
  | .extension _ _ (some body), h, hown => by
    obtain ⟨-, hown⟩ := List.forall_mem_cons.mp hown
    rw [Instruction.settle, Instruction.settle, settleBody, settleBody,
      settleInstructions_own place body h hown]
  | .literal _, _, _ | .output .., _, _ | .assign .., _, _ | .evaluate _, _, _ | .leave, _, _
  | .proceed, _, _ | .inclusion .., _, _ => by rw [Instruction.settle, Instruction.settle]

theorem settleInstructions_own (place : Place) : (is : List Instruction) →
    instructionsFit place is → (∀ j ∈ walkInstructions is, j.GivenOwn bodies) →
    settleInstructions bodies is = settleInstructions (fun _ => none) is
  | [], _, _ => rfl
  | i :: rest, h, hown => by
    obtain ⟨hi, hrest⟩ := instructionsFit_cons.mp h
    obtain ⟨howni, hownrest⟩ := forall_walk_cons.mp hown
    rw [settleInstructions, settleInstructions, settle_own place i hi howni,
      settleInstructions_own place rest hrest hownrest]

theorem settleArms_own (place : Place) : (arms : List Arm) → armsFit place arms →
    (∀ j ∈ walkArms arms, j.GivenOwn bodies) →
    settleArms bodies arms = settleArms (fun _ => none) arms
  | [], _, _ => rfl
  | ⟨_, body⟩ :: rest, h, hown => by
    obtain ⟨hb, hrest⟩ := Bool.and_eq_true_iff.mp h
    obtain ⟨hownb, hownrest⟩ := List.forall_mem_append.mp hown
    rw [settleArms, settleArms, Arm.settle, Arm.settle, settleInstructions_own place body hb hownb,
      settleArms_own place rest hrest hownrest]

end

/-- The blocks of a template, wherever they stand. -/
def CompiledTemplate.declared (t : CompiledTemplate) : List (String × List Instruction) :=
  (walkInstructions t.instructions ++
    t.macros.flatMap fun m => walkInstructions m.2.body).filterMap Instruction.block?

/-- Where no block is given anything but its own body, none need be given. -/
theorem CompiledTemplate.IsCompiled.settle_own {t : CompiledTemplate} (h : t.IsCompiled)
    (hmain : ∀ j ∈ walkInstructions t.instructions, j.GivenOwn bodies)
    (hmacros : ∀ m ∈ t.macros, ∀ j ∈ walkInstructions m.2.body, j.GivenOwn bodies) :
    t.settle bodies = t.settle fun _ => none := by
  have hbody (m : String × Definition) (hm : m ∈ t.macros) :
      m.2.settle bodies = m.2.settle fun _ => none := by
    obtain ⟨inBlock, hfits⟩ := h.fits.2 m hm
    unfold Definition.settle
    rw [settleInstructions_own _ _ hfits (hmacros m hm)]
  unfold CompiledTemplate.settle
  rw [settleInstructions_own _ _ h.fits.1 hmain]
  congr 1
  apply List.map_congr_left
  intro m hm
  exact congrArg (Prod.mk m.1) (hbody m hm)

end

/-! ### Names of blocks -/

/-- The body of the first block of a name at the top level of a template. -/
def firstBlock (t : CompiledTemplate) (name : String) : Option (List Instruction) :=
  t.blocks.lookup name

theorem mem_walk_self : (i : Instruction) → i ∈ i.walk
  | .literal _ | .output .. | .choice .. | .loop .. | .assign .. | .evaluate _ | .leave | .proceed
  | .block .. | .inclusion .. | .fragment .. | .extension .. => List.mem_cons_self

theorem mem_walkInstructions {i : Instruction} {is : List Instruction} (h : i ∈ is) :
    i ∈ walkInstructions is :=
  forall_walk_iff.mp (fun _ => id) i h i (mem_walk_self i)

/-- Where no name is declared twice, every block is given its own body. -/
theorem givenOwn_of_nodup {t : CompiledTemplate} (h : (t.declared.map (·.1)).Nodup)
    {i : Instruction} (hi : i ∈ walkInstructions t.instructions ∨
      ∃ m ∈ t.macros, i ∈ walkInstructions m.2.body) : i.GivenOwn (firstBlock t) := by
  have hdeclared {name : String} {body : List Instruction}
      (hi : .block name body ∈ walkInstructions t.instructions ∨
        ∃ m ∈ t.macros, .block name body ∈ walkInstructions m.2.body) :
      (name, body) ∈ t.declared := by
    refine List.mem_filterMap.mpr ⟨.block name body, List.mem_append.mpr ?_, rfl⟩
    exact hi.imp_right List.mem_flatMap.mpr
  cases i with
  | block name body =>
    intro other hother
    obtain ⟨j, hj, hblock⟩ := List.mem_filterMap.mp (Dictionary.mem_of_get? hother)
    have hj : .block name other ∈ t.instructions := by
      cases j with
      | block =>
        cases hblock
        exact hj
      | _ => cases hblock
    have hsame := List.inj_on_of_nodup_map h (hdeclared (.inl (mem_walkInstructions hj)))
      (hdeclared hi) rfl
    exact congrArg Prod.snd hsame
  | _ => trivial

end EmbeddedLang.Template
