import EmbeddedLang.Proofs.Template.Drafting
import EmbeddedLang.Proofs.Template.Parsed

/-!
Jumps and blocks of compiled templates stand where those of their trees do.

Siblings are moved into the bodies of custom directives, and the body of an `autoescape` out of it,
but neither is a loop or a block.
-/

namespace EmbeddedLang.Template

/-! ### Trees -/

mutual

def Node.fits (place : Place) : Node → Bool
  | .choice _ branches otherwise => branchesFit place branches && otherwiseFits place otherwise
  | .loop _ _ _ _ _ body otherwise =>
    nodesFit { place with inLoop := true } body && otherwiseFits place otherwise
  | .block _ _ body => !place.inBlock && nodesFit { place with inBlock := true } body
  | .definition _ _ _ body => nodesFit { place with inLoop := false } body
  | .fragment _ _ _ body | .autoescape _ _ body => nodesFit place body
  | .leave _ | .proceed _ => place.inLoop
  | .text .. | .echo .. | .assignments .. | .parent .. | .inclusion .. | .evaluation .. | .tag ..
  | .endTag .. => true

def nodesFit (place : Place) : List Node → Bool
  | [] => true
  | n :: rest => n.fits place && nodesFit place rest

def otherwiseFits (place : Place) : Option (List Node) → Bool
  | none => true
  | some body => nodesFit place body

def branchesFit (place : Place) : List Branch → Bool
  | [] => true
  | b :: rest => b.fits place && branchesFit place rest

def Branch.fits (place : Place) : Branch → Bool
  | ⟨_, body⟩ => nodesFit place body

end

theorem nodesFit_iff {place : Place} {nodes : List Node} :
    nodesFit place nodes ↔ ∀ n ∈ nodes, n.fits place := by
  induction nodes with
  | nil => simp [nodesFit]
  | cons n rest ih => simp [nodesFit, ih]

theorem branchesFit_eq (place : Place) (branches : List Branch) :
    branchesFit place branches = (branches.map (·.body)).all (nodesFit place) := by
  induction branches with
  | nil => rfl
  | cons b rest ih =>
    obtain ⟨condition, body⟩ := b
    rw [branchesFit, ih, List.map_cons, List.all_cons, Branch.fits]

theorem otherwiseFits_eq (place : Place) (otherwise : Option (List Node)) :
    otherwiseFits place otherwise = otherwise.toList.all (nodesFit place) := by
  cases otherwise with
  | none => rfl
  | some body => simp [otherwiseFits]

theorem Node.fits_eq (place : Place) (n : Node) : n.fits place =
    (n.allowedAt place && (n.bodies place).all fun body => nodesFit body.1 body.2) := by
  cases n <;>
    simp [fits, allowedAt, bodies, branchesFit_eq, otherwiseFits_eq, List.all_map, Function.comp_def]

/-- The nodes that fit their places. -/
def fitting : NodeClass where
  HoldsExpr _ := True
  HoldsLiteral _ := True
  Holds place n := n.fits place
  value _ := trivial
  unfiltered _ := trivial
  node {place n} hplace _ _ hb := by
    rw [Node.fits_eq, hplace, Bool.true_and, List.all_eq_true]
    exact fun body hbody => nodesFit_iff.mpr (hb body hbody)

theorem parse_fits {source : String} {nodes : List Node} (h : parse source = .ok nodes) :
    nodesFit ⟨false, false⟩ nodes := by
  have hholds : fitting.HoldsBody ⟨false, false⟩ nodes := parse_holds (.any expression) h
  exact nodesFit_iff.mpr hholds

/-! ### Instructions -/

mutual

def Instruction.fits (place : Place) : Instruction → Bool
  | .choice branches otherwise => armsFit place branches && instructionsFit place otherwise
  | .loop _ _ _ _ body otherwise =>
    instructionsFit { place with inLoop := true } body && instructionsFit place otherwise
  | .block _ body => !place.inBlock && instructionsFit { place with inBlock := true } body
  | .fragment _ _ body => instructionsFit place body
  | .extension _ _ body => extendedFit place body
  | .leave | .proceed => place.inLoop
  | .literal _ | .output .. | .assign .. | .evaluate _ | .inclusion .. => true

def instructionsFit (place : Place) : List Instruction → Bool
  | [] => true
  | i :: rest => i.fits place && instructionsFit place rest

def extendedFit (place : Place) : Option (List Instruction) → Bool
  | none => true
  | some body => instructionsFit place body

def armsFit (place : Place) : List Arm → Bool
  | [] => true
  | arm :: rest => arm.fits place && armsFit place rest

def Arm.fits (place : Place) : Arm → Bool
  | ⟨_, body⟩ => instructionsFit place body

end

/-- The body of a macro stands in no loop. -/
def Definition.Fits (m : Definition) : Prop :=
  ∃ inBlock, instructionsFit ⟨false, inBlock⟩ m.body

variable {place : Place}

theorem instructionsFit_cons {i : Instruction} {is : List Instruction} :
    instructionsFit place (i :: is) ↔ i.fits place ∧ instructionsFit place is :=
  Bool.and_eq_true_iff

theorem instructionsFit_iff {is : List Instruction} :
    instructionsFit place is ↔ ∀ i ∈ is, i.fits place := by
  induction is with
  | nil => exact ⟨fun _ => nofun, fun _ => rfl⟩
  | cons i rest ih => rw [instructionsFit_cons, List.forall_mem_cons, ih]

theorem instructionsFit_singleton {i : Instruction} (h : i.fits place) :
    instructionsFit place [i] :=
  instructionsFit_cons.mpr ⟨h, rfl⟩

theorem instructionsFit_of_mem_blocks {is : List Instruction} (h : instructionsFit place is)
    {b : String × List Instruction} (hb : b ∈ is.filterMap Instruction.block?) :
    instructionsFit { place with inBlock := true } b.2 := by
  obtain ⟨i, hi, hblock⟩ := List.mem_filterMap.mp hb
  have hfits := instructionsFit_iff.mp h i hi
  cases i with
  | block name body =>
    cases hblock
    exact (Bool.and_eq_true_iff.mp hfits).2
  | _ => cases hblock

theorem instructionsFit_join {is js : List Instruction} (h : instructionsFit place is)
    (h' : instructionsFit place js) : instructionsFit place (Instruction.join is js) := by
  rw [instructionsFit_iff] at h h' ⊢
  exact forall_mem_join (fun _ _ _ _ => rfl) h h'

theorem gathers_instructionsFit (place : Place) : Gathers (instructionsFit place ·) where
  nil := rfl
  join _ _ := instructionsFit_join
  inline _ _ := rfl
  block _ _ _ his := instructionsFit_singleton his

theorem instructionsFit_assignments (as : List Assignment) :
    instructionsFit place (as.map fun a => .assign a.target a.op a.value) := by
  induction as with
  | nil => rfl
  | cons a rest ih => exact instructionsFit_cons.mpr ⟨rfl, ih⟩

/-! ### Lowering -/

theorem instructionsFit_literalText (text : String) : instructionsFit place (literalText text) := by
  unfold literalText
  split <;> rfl

mutual

theorem drafts_node (t : ExtensionTable) (escape : Bool) (place : Place) : (n : Node) →
    n.fits place → (lowerNode t escape n).Drafts Definition.Fits (instructionsFit place ·)
  | .text _ text, _ => .pure (instructionsFit_literalText text)
  | .echo _ e _, _ => (Drafts.note e).bind fun _ _ => .pure rfl
  | .choice _ branches otherwise, h => by
    obtain ⟨hb, ho⟩ := Bool.and_eq_true_iff.mp h
    refine (drafts_branches t escape place branches hb).bind fun arms harms => ?_
    refine (drafts_otherwise t escape place otherwise ho).bind fun is his => .pure ?_
    exact instructionsFit_singleton (Bool.and_eq_true_iff.mpr ⟨harms, his⟩)
  | .loop _ _ _ iterable filter body otherwise, h => by
    obtain ⟨hb, ho⟩ := Bool.and_eq_true_iff.mp h
    refine (Drafts.note iterable).bind fun _ _ => (Drafts.notes filter.toList).bind fun _ _ => ?_
    refine (drafts_nodes t escape { place with inLoop := true } body hb).bind fun is his => ?_
    refine (drafts_otherwise t escape place otherwise ho).bind fun js hjs => .pure ?_
    exact instructionsFit_singleton (Bool.and_eq_true_iff.mpr ⟨his, hjs⟩)
  | .assignments _ as, _ => by
    refine (Drafts.assignments as).imp ?_
    rintro _ rfl
    exact instructionsFit_assignments as
  | .block _ name body, h => by
    obtain ⟨hplace, hb⟩ := Bool.and_eq_true_iff.mp h
    have hbody := drafts_nodes t escape { place with inBlock := true } body hb
    refine hbody.bind fun is his => .pure ?_
    exact instructionsFit_singleton (Bool.and_eq_true_iff.mpr ⟨hplace, his⟩)
  | .parent _ name, _ =>
    (Drafts.update (f := fun d => { d with parent := some name }) fun _ hd => hd).bind fun _ _ =>
      .pure rfl
  | .inclusion _ template context, _ =>
    (Drafts.note template).bind fun _ _ => (Drafts.noteInclude template).bind fun _ _ =>
      (Drafts.notes context.toList).bind fun _ _ => .pure rfl
  | .definition position name params body, h => by
    have hb := drafts_nodes t escape { place with inLoop := false } body h
    have hd := hb.define position name params fun is his => ⟨place.inBlock, his⟩
    refine hd.imp ?_
    rintro _ rfl
    rfl
  | .fragment _ key lifetime body, h => by
    refine (Drafts.note key).bind fun _ _ => ?_
    refine (drafts_nodes t escape place body h).bind fun is his => .pure ?_
    exact instructionsFit_singleton his
  | .autoescape _ enabled body, h => drafts_nodes t enabled place body h
  | .evaluation _ e, _ => (Drafts.note e).bind fun _ _ => .pure rfl
  | .leave _, h => .pure (instructionsFit_singleton h)
  | .proceed _, h => .pure (instructionsFit_singleton h)
  | .tag .., _ => trivial
  | .endTag .., _ => trivial

theorem lowerNodes_drafts (t : ExtensionTable) (escape : Bool) (place : Place) :
    (ns : List Node) → nodesFit place ns →
      ∀ s ∈ lowerNodes t escape ns, s.Drafts Definition.Fits (instructionsFit place ·)
  | [], _ => nofun
  | n :: rest, h => by
    obtain ⟨hn, hrest⟩ := Bool.and_eq_true_iff.mp h
    exact List.forall_mem_cons.mpr
      ⟨drafts_node t escape place n hn, lowerNodes_drafts t escape place rest hrest⟩

theorem drafts_nodes (t : ExtensionTable) (escape : Bool) (place : Place) (ns : List Node)
    (h : nodesFit place ns) :
    Drafts Definition.Fits (runSiblings t (lowerNodes t escape ns)) (instructionsFit place ·) :=
  (gathers_instructionsFit place).siblings t _ (lowerNodes_drafts t escape place ns h)

theorem drafts_otherwise (t : ExtensionTable) (escape : Bool) (place : Place) :
    (body : Option (List Node)) → otherwiseFits place body →
      Drafts Definition.Fits (lowerOptional t escape body) (instructionsFit place ·)
  | none, _ => .pure rfl
  | some ns, h => drafts_nodes t escape place ns h

theorem drafts_branches (t : ExtensionTable) (escape : Bool) (place : Place) :
    (bs : List Branch) → branchesFit place bs →
      Drafts Definition.Fits (lowerBranches t escape bs) (armsFit place ·)
  | [], _ => .pure rfl
  | b :: rest, h => by
    obtain ⟨hb, hrest⟩ := Bool.and_eq_true_iff.mp h
    refine (drafts_branch t escape place b hb).bind fun arm harm => ?_
    refine (drafts_branches t escape place rest hrest).bind fun arms harms => .pure ?_
    exact Bool.and_eq_true_iff.mpr ⟨harm, harms⟩

theorem drafts_branch (t : ExtensionTable) (escape : Bool) (place : Place) :
    (b : Branch) → b.fits place →
      Drafts Definition.Fits (lowerBranch t escape b) (Arm.fits place ·)
  | ⟨condition, body⟩, h =>
    (Drafts.note condition).bind fun _ _ =>
      (drafts_nodes t escape place body h).bind fun _ his => .pure his

end

/-- Compiled from source, with any directives of the host. -/
def CompiledTemplate.IsCompiled (t : CompiledTemplate) : Prop :=
  ∃ (o : Options) (source : String), compile o source = .ok t

theorem CompiledTemplate.IsCompiled.fits {t : CompiledTemplate} (h : t.IsCompiled) :
    instructionsFit ⟨false, false⟩ t.instructions ∧ ∀ m ∈ t.macros, m.2.Fits := by
  obtain ⟨o, source, h⟩ := h
  obtain ⟨nodes, hparse, hlower⟩ := exists_parse_of_compile h
  exact (drafts_nodes o.extensions o.autoescape _ nodes (parse_fits hparse)).of_lower hlower

/-! ### Outside of loops -/

def Instruction.isJump : Instruction → Bool
  | .leave | .proceed => true
  | _ => false

mutual

/-- An instruction and those below it that are in the body of no loop. -/
def Instruction.outside : Instruction → List Instruction
  | i@(.choice branches otherwise) => i :: (armsOutside branches ++ outsideLoops otherwise)
  | i@(.loop _ _ _ _ _ otherwise) => i :: outsideLoops otherwise
  | i@(.block _ body) | i@(.fragment _ _ body) => i :: outsideLoops body
  | i@(.extension _ _ body) => i :: extendedOutside body
  | i@(.literal _) | i@(.output ..) | i@(.assign ..) | i@(.evaluate _) | i@.leave | i@.proceed
  | i@(.inclusion ..) => [i]

def outsideLoops : List Instruction → List Instruction
  | [] => []
  | i :: rest => i.outside ++ outsideLoops rest

def extendedOutside : Option (List Instruction) → List Instruction
  | none => []
  | some body => outsideLoops body

def armsOutside : List Arm → List Instruction
  | [] => []
  | arm :: rest => arm.outside ++ armsOutside rest

def Arm.outside : Arm → List Instruction
  | ⟨_, body⟩ => outsideLoops body

end

mutual

theorem not_isJump_outside (inBlock : Bool) : (i : Instruction) → i.fits ⟨false, inBlock⟩ →
    ∀ j ∈ i.outside, j.isJump = false
  | .choice branches otherwise, h => by
    obtain ⟨hb, ho⟩ := Bool.and_eq_true_iff.mp h
    exact List.forall_mem_cons.mpr ⟨rfl, List.forall_mem_append.mpr
      ⟨not_isJump_armsOutside inBlock branches hb, not_isJump_outsideLoops inBlock otherwise ho⟩⟩
  | .loop _ _ _ _ _ otherwise, h => by
    obtain ⟨-, ho⟩ := Bool.and_eq_true_iff.mp h
    exact List.forall_mem_cons.mpr ⟨rfl, not_isJump_outsideLoops inBlock otherwise ho⟩
  | .block _ body, h => by
    obtain ⟨-, hb⟩ := Bool.and_eq_true_iff.mp h
    exact List.forall_mem_cons.mpr ⟨rfl, not_isJump_outsideLoops true body hb⟩
  | .fragment _ _ body, h =>
    List.forall_mem_cons.mpr ⟨rfl, not_isJump_outsideLoops inBlock body h⟩
  | .extension _ _ none, _ => List.forall_mem_cons.mpr ⟨rfl, nofun⟩
  | .extension _ _ (some body), h =>
    List.forall_mem_cons.mpr ⟨rfl, not_isJump_outsideLoops inBlock body h⟩
  | .leave, h | .proceed, h => by cases h
  | .literal _, _ | .output .., _ | .assign .., _ | .evaluate _, _ | .inclusion .., _ =>
    List.forall_mem_cons.mpr ⟨rfl, nofun⟩

theorem not_isJump_outsideLoops (inBlock : Bool) : (is : List Instruction) →
    instructionsFit ⟨false, inBlock⟩ is → ∀ j ∈ outsideLoops is, j.isJump = false
  | [], _ => nofun
  | i :: rest, h => by
    obtain ⟨hi, hrest⟩ := instructionsFit_cons.mp h
    exact List.forall_mem_append.mpr
      ⟨not_isJump_outside inBlock i hi, not_isJump_outsideLoops inBlock rest hrest⟩

theorem not_isJump_armsOutside (inBlock : Bool) : (arms : List Arm) →
    armsFit ⟨false, inBlock⟩ arms → ∀ j ∈ armsOutside arms, j.isJump = false
  | [], _ => nofun
  | ⟨_, body⟩ :: rest, h => by
    obtain ⟨hb, hrest⟩ := Bool.and_eq_true_iff.mp h
    exact List.forall_mem_append.mpr
      ⟨not_isJump_outsideLoops inBlock body hb, not_isJump_armsOutside inBlock rest hrest⟩

end

end EmbeddedLang.Template
