import EmbeddedLang.Proofs.Returns
import EmbeddedLang.Proofs.Template.Declaring
import Mathlib.Data.List.Chain

/-!
Text in compiled templates is merged: none is empty, and no two stand side by side.

Lowering makes a body out of single instructions and of the bodies in them. Where it puts two bodies
together, the text on both sides of the seam becomes one.
-/

namespace EmbeddedLang.Template

/-! ### Sequences -/

/-- The sequences that an instruction holds. -/
def Instruction.bodies : Instruction → List (List Instruction)
  | .choice branches otherwise => branches.map Arm.body ++ [otherwise]
  | .loop _ _ _ _ body otherwise => [body, otherwise]
  | .block _ body | .fragment _ _ body => [body]
  | .extension _ _ body => body.toList
  | .literal _ | .output .. | .assign .. | .evaluate _ | .leave | .proceed | .inclusion .. => []

/-- A sequence is, or is somewhere inside, another one. -/
inductive Contains : List Instruction → List Instruction → Prop
  | self (is : List Instruction) : Contains is is
  | inside {is body js : List Instruction} {i : Instruction} :
    i ∈ is → body ∈ i.bodies → Contains body js → Contains is js

/-- The sequences of a template are its own, those of its macros, and all that are inside these. -/
def CompiledTemplate.Contains (t : CompiledTemplate) (is : List Instruction) : Prop :=
  Template.Contains t.instructions is ∨ ∃ m ∈ t.macros, Template.Contains m.2.body is

/-! ### What lowering composes -/

/-- A condition that holds of a body if it holds of the bodies that it is composed of. -/
structure Composes (P : List Instruction → Prop) : Prop where
  nil : P []
  text : ∀ s, P (literalText s)
  single : ∀ i, i.literal? = none → (∀ body ∈ i.bodies, P body) → P [i]
  join : ∀ is js, P is → P js → P (Instruction.join is js)

namespace Composes

variable {P : List Instruction → Prop}

theorem leaf (h : Composes P) {i : Instruction} (hi : i.literal? = none) (hb : i.bodies = []) :
    P [i] := by
  apply h.single i hi
  rw [hb]
  exact List.forall_mem_nil _

theorem gathers (h : Composes P) : Gathers P where
  nil := h.nil
  join := h.join
  inline _ _ := h.leaf rfl rfl
  block _ _ _ his := h.single _ rfl (List.forall_mem_singleton.mpr his)

theorem assignments (h : Composes P) (as : List Assignment) :
    P (as.map fun a => .assign a.target a.op a.value) := by
  induction as with
  | nil => exact h.nil
  | cons a rest ih => exact h.join [.assign a.target a.op a.value] _ (h.leaf rfl rfl) ih

end Composes

mutual

theorem composes_node {P : List Instruction → Prop} (h : Composes P) (t : ExtensionTable)
    (escape : Bool) : (n : Node) → (lowerNode t escape n).Drafts (P ·.body) P
  | .text _ s => .pure (h.text s)
  | .echo _ e _ => (Drafts.note e).bind fun _ _ => .pure (h.leaf rfl rfl)
  | .choice _ branches otherwise =>
    (composes_branches h t escape branches).bind fun arms harms =>
      (composes_optional h t escape otherwise).bind fun is his => .pure (h.single _ rfl
        (List.forall_mem_append.mpr
          ⟨List.forall_mem_map.mpr harms, List.forall_mem_singleton.mpr his⟩))
  | .loop _ _ _ iterable filter body otherwise =>
    (Drafts.note iterable).bind fun _ _ => (Drafts.notes filter.toList).bind fun _ _ =>
      (composes_nodes h t escape body).bind fun is his =>
        (composes_optional h t escape otherwise).bind fun js hjs => .pure (h.single _ rfl
          (List.forall_mem_cons.mpr ⟨his, List.forall_mem_singleton.mpr hjs⟩))
  | .assignments _ as => (Drafts.assignments as).imp fun _ his => his ▸ h.assignments as
  | .block _ _ body =>
    (composes_nodes h t escape body).bind fun is his =>
      .pure (h.single _ rfl (List.forall_mem_singleton.mpr his))
  | .parent _ name =>
    (Drafts.update (f := fun d => { d with parent := some name }) fun _ hd => hd).bind fun _ _ =>
      .pure h.nil
  | .inclusion _ template context =>
    (Drafts.note template).bind fun _ _ => (Drafts.noteInclude template).bind fun _ _ =>
      (Drafts.notes context.toList).bind fun _ _ => .pure (h.leaf rfl rfl)
  | .definition position name params body =>
    ((composes_nodes h t escape body).define position name params fun _ his => his).imp
      fun _ his => his ▸ h.nil
  | .fragment _ key _ body =>
    (Drafts.note key).bind fun _ _ => (composes_nodes h t escape body).bind fun is his =>
      .pure (h.single _ rfl (List.forall_mem_singleton.mpr his))
  | .autoescape _ enabled body => composes_nodes h t enabled body
  | .evaluation _ e => (Drafts.note e).bind fun _ _ => .pure (h.leaf rfl rfl)
  | .leave _ | .proceed _ => .pure (h.leaf rfl rfl)
  | .tag .. | .endTag .. => trivial

theorem composes_each {P : List Instruction → Prop} (h : Composes P) (t : ExtensionTable)
    (escape : Bool) : (ns : List Node) → ∀ s ∈ lowerNodes t escape ns, s.Drafts (P ·.body) P
  | [] => nofun
  | n :: rest =>
    List.forall_mem_cons.mpr ⟨composes_node h t escape n, composes_each h t escape rest⟩

theorem composes_nodes {P : List Instruction → Prop} (h : Composes P) (t : ExtensionTable)
    (escape : Bool) (ns : List Node) :
    Drafts (P ·.body) (runSiblings t (lowerNodes t escape ns)) P :=
  h.gathers.siblings t _ (composes_each h t escape ns)

theorem composes_optional {P : List Instruction → Prop} (h : Composes P) (t : ExtensionTable)
    (escape : Bool) : (body : Option (List Node)) →
    Drafts (P ·.body) (lowerOptional t escape body) P
  | none => .pure h.nil
  | some ns => composes_nodes h t escape ns

theorem composes_branches {P : List Instruction → Prop} (h : Composes P) (t : ExtensionTable)
    (escape : Bool) : (bs : List Branch) →
    Drafts (P ·.body) (lowerBranches t escape bs) fun arms => ∀ arm ∈ arms, P arm.body
  | [] => .pure nofun
  | b :: rest => (composes_branch h t escape b).bind fun _ harm =>
      (composes_branches h t escape rest).bind
        fun _ harms => .pure (List.forall_mem_cons.mpr ⟨harm, harms⟩)

theorem composes_branch {P : List Instruction → Prop} (h : Composes P) (t : ExtensionTable)
    (escape : Bool) : (b : Branch) →
    Drafts (P ·.body) (lowerBranch t escape b) fun arm => P arm.body
  | ⟨condition, body⟩ => (Drafts.note condition).bind fun _ _ =>
      (composes_nodes h t escape body).bind fun _ his => .pure his

end

theorem Composes.of_lower {P : List Instruction → Prop} (h : Composes P) {o : Options}
    {nodes : List Node} {t : CompiledTemplate} (ht : lower o nodes = .ok t) :
    P t.instructions ∧ ∀ m ∈ t.macros, P m.2.body :=
  (composes_nodes h o.extensions o.autoescape nodes).of_lower ht

/-! ### Merged text -/

/-- One of two neighbours is no text. -/
def Instruction.Apart (i j : Instruction) : Prop :=
  i.literal? = none ∨ j.literal? = none

/-- No text is empty, and no two stand side by side. -/
structure IsMerged (is : List Instruction) : Prop where
  nonempty : .literal "" ∉ is
  apart : is.IsChain Instruction.Apart

theorem isMerged_cons {i : Instruction} {is : List Instruction} : IsMerged (i :: is) ↔
    i ≠ .literal "" ∧ (∀ j ∈ is.head?, i.Apart j) ∧ IsMerged is := by
  constructor
  · rintro ⟨hnonempty, hapart⟩
    obtain ⟨hi, his⟩ := not_or.mp (mt List.mem_cons.mpr hnonempty)
    obtain ⟨hhead, htail⟩ := List.isChain_cons.mp hapart
    exact ⟨Ne.symm hi, hhead, his, htail⟩
  · rintro ⟨hi, hhead, his, htail⟩
    refine ⟨fun hmem => ?_, List.isChain_cons.mpr ⟨hhead, htail⟩⟩
    rcases List.mem_cons.mp hmem with h | h
    · exact hi h.symm
    · exact his h

theorem isMerged_nil : IsMerged [] :=
  ⟨List.not_mem_nil, .nil⟩

theorem isMerged_singleton {i : Instruction} (h : i ≠ .literal "") : IsMerged [i] :=
  isMerged_cons.mpr ⟨h, nofun, isMerged_nil⟩

theorem exists_literal_of_literal? {i : Instruction} (h : i.literal? ≠ none) :
    ∃ s, i = .literal s := by
  cases i with
  | literal s => exact ⟨s, rfl⟩
  | _ => exact absurd rfl h

theorem literal?_head_join {i j : Instruction} {is js : List Instruction}
    (hj : j ∈ (Instruction.join (i :: is) js).head?) :
    j.literal? = none ↔ i.literal? = none := by
  unfold Instruction.join at hj
  split at hj
  · contradiction
  · rename_i h
    cases h
    cases hj
    exact ⟨nofun, nofun⟩
  · rename_i h _
    cases h
    cases hj
    rfl

theorem IsMerged.join {is js : List Instruction} (h : IsMerged is) (h' : IsMerged js) :
    IsMerged (Instruction.join is js) := by
  fun_induction Instruction.join is js with
  | case1 js => exact h'
  | case2 a b js =>
    obtain ⟨ha, -, -⟩ := isMerged_cons.mp h
    obtain ⟨-, hhead, hjs⟩ := isMerged_cons.mp h'
    refine isMerged_cons.mpr ⟨fun hempty => ha ?_, fun j hj => ?_, hjs⟩
    · rw [Instruction.literal.injEq] at hempty ⊢
      exact (String.append_eq_empty_iff.mp hempty).1
    · rcases hhead j hj with hb | hj
      · cases hb
      · exact .inr hj
  | case3 i is js hseam ih =>
    -- there is no seam between texts here, and `i` stays apart from what comes next
    obtain ⟨hi, hhead, his⟩ := isMerged_cons.mp h
    refine isMerged_cons.mpr ⟨hi, fun j hj => ?_, ih his h'⟩
    cases is with
    | nil =>
      cases js with
      | nil => cases hj
      | cons k js =>
        cases hj
        by_cases hi : i.literal? = none
        · exact .inl hi
        · refine .inr (not_not.mp fun hk => ?_)
          obtain ⟨a, ha⟩ := exists_literal_of_literal? hi
          obtain ⟨b, hb⟩ := exists_literal_of_literal? hk
          exact hseam a b js (hb ▸ rfl) ha rfl
    | cons k is =>
      have hk : i.Apart k := hhead k rfl
      exact hk.imp_right (literal?_head_join hj).mpr

/-- Text is merged in a sequence and in all that are inside it. -/
def AllMerged (is : List Instruction) : Prop :=
  ∀ js, Contains is js → IsMerged js

theorem allMerged_iff {is : List Instruction} :
    AllMerged is ↔ IsMerged is ∧ ∀ i ∈ is, ∀ body ∈ i.bodies, AllMerged body := by
  constructor
  · intro h
    exact ⟨h is (.self is), fun i hi body hbody js hjs => h js (.inside hi hbody hjs)⟩
  · rintro ⟨his, hinside⟩ js hjs
    cases hjs with
    | self => exact his
    | inside hi hbody hjs => exact hinside _ hi _ hbody js hjs

theorem composes_allMerged : Composes AllMerged where
  nil := allMerged_iff.mpr ⟨isMerged_nil, nofun⟩
  text s := by
    unfold literalText
    split
    · exact allMerged_iff.mpr ⟨isMerged_nil, nofun⟩
    · next hs =>
      have hs : (.literal s : Instruction) ≠ .literal "" := by
        rintro ⟨⟩
        exact hs rfl
      exact allMerged_iff.mpr ⟨isMerged_singleton hs, List.forall_mem_singleton.mpr nofun⟩
  single i hi hbodies := by
    have hne : i ≠ .literal "" := by
      rintro rfl
      cases hi
    exact allMerged_iff.mpr ⟨isMerged_singleton hne, List.forall_mem_singleton.mpr hbodies⟩
  join is js his hjs := by
    obtain ⟨his, hinside⟩ := allMerged_iff.mp his
    obtain ⟨hjs, hinside'⟩ := allMerged_iff.mp hjs
    refine allMerged_iff.mpr ⟨his.join hjs, forall_mem_join ?_ hinside hinside'⟩
    exact fun a b _ _ => nofun

/-- Whatever stood between two texts and left no instruction, they are one. -/
theorem compiled_text_merged {o : Options} {nodes : List Node} {t : CompiledTemplate}
    (h : lower o nodes = .ok t) : ∀ is, t.Contains is → IsMerged is := by
  obtain ⟨hmain, hmacros⟩ := composes_allMerged.of_lower h
  rintro is (his | ⟨m, hm, his⟩)
  · exact hmain is his
  · exact hmacros m hm is his

/-- Text around a comment, a macro, an empty statement and scopes with and without escaping. -/
def interrupted : String :=
  "a\x7b# one #\x7db\x7b% macro m() %\x7dc\x7b# two #\x7dd\x7b% endmacro %\x7de\x7b% %\x7df"
    ++ "\x7b% autoescape false %\x7dg\x7b% autoescape true %\x7dh\x7b% endautoescape %\x7d"
    ++ "\x7b% endautoescape %\x7di\x7b% note %\x7dj\x7b# three #\x7dk\x7b% endnote %\x7dl"

theorem compiled_text_merged_interrupted :
    ∃ nodes t, parse interrupted = .ok nodes ∧
      lower ⟨[("note", .block)], true⟩ nodes = .ok t ∧
      t.instructions.map Instruction.literal? = [some "abefghi", none, some "l"] ∧
      ∀ is, t.Contains is → IsMerged is := by
  have h : (parse interrupted).toOption.any fun nodes =>
      (lower ⟨[("note", .block)], true⟩ nodes).toOption.any fun t =>
        t.instructions.map Instruction.literal? == [some "abefghi", none, some "l"] := by
    decide +kernel
  obtain ⟨nodes, hparse, h⟩ := exists_ok_of_any h
  obtain ⟨t, hlower, h⟩ := exists_ok_of_any h
  exact ⟨nodes, t, hparse, hlower, eq_of_beq h, compiled_text_merged hlower⟩

end EmbeddedLang.Template
