import EmbeddedLang.Proofs.Dictionary
import EmbeddedLang.Template.Lowering

/-!
What lowering gives where it succeeds, for a condition on bodies and one on the macros declared.

A condition on bodies has to withstand joining and custom directives, which are only found when the
siblings of a body are put together.
-/

namespace EmbeddedLang.Template

variable {α β : Type} {M : Definition → Prop} {run : Lowering α} {post : α → Prop}
  {next : β → Prop}

theorem exists_of_bind {f : α → Lowering β} {d d' : Draft} {b : β}
    (h : (run >>= f) d = .ok (b, d')) : ∃ x, run d = .ok x ∧ f x.1 x.2 = .ok (b, d') := by
  change Except.bind (run d) _ = _ at h
  cases hr : run d with
  | error e =>
    rw [hr] at h
    cases h
  | ok x =>
    rw [hr] at h
    exact ⟨x, rfl, h⟩

/-- Run on a draft whose macros satisfy `M`, the step leaves such a draft, and its result satisfies
`post`. -/
structure Drafts (M : Definition → Prop) (run : Lowering α) (post : α → Prop) : Prop where
  of_ok : ∀ d a d', (∀ m ∈ d.macros, M m.2) → run d = .ok (a, d') →
    post a ∧ ∀ m ∈ d'.macros, M m.2

namespace Drafts

theorem pure {a : α} (h : post a) : Drafts M (Pure.pure a) post where
  of_ok d b d' hd hb := by
    cases hb
    exact ⟨h, hd⟩

theorem throw (e : CompileError) : Drafts M (throw e : Lowering α) post where
  of_ok d b d' hd hb := by cases hb

theorem bind {f : α → Lowering β} (h : Drafts M run post) (hf : ∀ a, post a → Drafts M (f a) next) :
    Drafts M (run >>= f) next where
  of_ok d b d' hd hb := by
    obtain ⟨⟨a, d₁⟩, ha, hb⟩ := exists_of_bind hb
    obtain ⟨hpost, hd₁⟩ := h.of_ok d a d₁ hd ha
    exact (hf a hpost).of_ok d₁ b d' hd₁ hb

theorem imp {weaker : α → Prop} (h : Drafts M run post) (hp : ∀ a, post a → weaker a) :
    Drafts M run weaker where
  of_ok d a d' hd ha := by
    obtain ⟨hpost, hd'⟩ := h.of_ok d a d' hd ha
    exact ⟨hp a hpost, hd'⟩

theorem update {f : Draft → Draft}
    (h : ∀ d, (∀ m ∈ d.macros, M m.2) → ∀ m ∈ (f d).macros, M m.2) :
    Drafts M (modify f : Lowering Unit) fun _ => True where
  of_ok d a d' hd ha := by
    cases ha
    exact ⟨trivial, h d hd⟩

theorem note (e : Expr) : Drafts M (Template.note e) fun _ => True :=
  update fun _ hd => hd

theorem notes (es : List Expr) : Drafts M (es.forM Template.note) fun _ => True := by
  induction es with
  | nil => exact pure trivial
  | cons e rest ih => exact (note e).bind fun _ _ => ih

theorem noteInclude (e : Expr) :
    Drafts M (modify fun d => d.noteInclude e : Lowering Unit) fun _ => True := by
  apply update
  intro d hd
  unfold Draft.noteInclude
  split <;> exact hd

theorem assignments (as : List Assignment) :
    Drafts M (as.mapM lowerAssignment) (· = as.map fun a => .assign a.target a.op a.value) := by
  induction as with
  | nil => exact pure rfl
  | cons a rest ih =>
    rw [List.mapM_cons]
    have ha : Drafts M (lowerAssignment a) (· = .assign a.target a.op a.value) :=
      (note a.value).bind fun _ _ => pure rfl
    refine ha.bind fun i hi => ih.bind fun is his => pure ?_
    rw [hi, his, List.map_cons]

theorem define {P : List Instruction → Prop} {body : Lowering (List Instruction)}
    (h : Drafts M body P) (position : Position) (name : String) (params : List Param)
    (hM : ∀ is, P is → M ⟨params, is⟩) :
    Drafts M (Template.define position name params body) (· = []) := by
  have hget : Drafts M (MonadState.get : Lowering Draft) fun _ => True := by
    constructor
    rintro d a d' hd ⟨⟩
    exact ⟨trivial, hd⟩
  apply hget.bind
  intro d _
  split
  · have hfails (e : CompileError) :
        Drafts M (MonadExcept.throw e : Lowering PUnit) fun _ => False :=
      throw e
    exact (hfails _).bind fun _ h => h.elim
  · apply h.bind
    intro is his
    refine (update ?_).bind fun _ _ => pure rfl
    intro d hd m hm
    rcases Dictionary.mem_of_mem_put hm with rfl | hm
    · exact hM is his
    · exact hd m hm

end Drafts

/-! ### Siblings -/

/-- A condition on bodies that withstands joining and custom directives. -/
structure Gathers (P : List Instruction → Prop) : Prop where
  nil : P []
  join : ∀ is js, P is → P js → P (Instruction.join is js)
  inline : ∀ name args, P [.extension name args none]
  block : ∀ name args is, P is → P [.extension name args (some is)]

/-- The two ends of custom directives are not run by themselves. -/
def Sibling.Drafts (M : Definition → Prop) (P : List Instruction → Prop) : Sibling → Prop
  | .plain run => Template.Drafts M run P
  | .opening .. | .closing .. => True

/-- The siblings are split at the end of the directive, which is itself left out. -/
theorem splitAtClosing_append {name : String} {depth : Nat} {all body after : List Sibling}
    (h : splitAtClosing name depth all = some (body, after)) :
    ∃ position, all = body ++ .closing position name :: after := by
  induction all generalizing depth body with
  | nil => cases h
  | cons first rest ih =>
    have step (d : Nat) (hd : (splitAtClosing name d rest).map (fun x => (first :: x.1, x.2)) =
        some (body, after)) : ∃ position, first :: rest = body ++ .closing position name :: after := by
      obtain ⟨⟨b, a⟩, hb, he⟩ := Option.map_eq_some_iff.mp hd
      cases he
      obtain ⟨position, rfl⟩ := ih hb
      exact ⟨position, rfl⟩
    unfold splitAtClosing at h
    split at h
    · exact step _ h
    · rename_i position other
      split at h
      · next hother =>
        cases h
        exact ⟨position, by rw [hother, List.nil_append]⟩
      · exact step _ h
    · exact step _ h
    · exact step _ h

theorem splitAtClosing_mem {name : String} {depth : Nat} {all body after : List Sibling}
    (h : splitAtClosing name depth all = some (body, after)) :
    ∀ s, s ∈ body ∨ s ∈ after → s ∈ all := by
  obtain ⟨position, rfl⟩ := splitAtClosing_append h
  rintro s (hs | hs)
  · exact List.mem_append_left _ hs
  · exact List.mem_append_right _ (List.mem_cons_of_mem _ hs)

theorem Gathers.siblings {P : List Instruction → Prop} (hP : Gathers P) (t : ExtensionTable)
    (siblings : List Sibling) (h : ∀ s ∈ siblings, s.Drafts M P) :
    Drafts M (runSiblings t siblings) P := by
  fun_induction runSiblings t siblings with
  | case1 => exact .pure hP.nil
  | case2 run rest ih =>
    obtain ⟨hrun, hrest⟩ := List.forall_mem_cons.mp h
    have hrun : Drafts M run P := hrun
    exact hrun.bind fun is his => (ih hrest).bind fun js hjs => .pure (hP.join is js his hjs)
  | case3 | case4 | case6 => exact .throw _
  | case5 position name args rest _ ih =>
    have hrest := (List.forall_mem_cons.mp h).2
    exact (Drafts.notes args).bind fun _ _ => (ih hrest).bind fun js hjs =>
      .pure (hP.join _ js (hP.inline name args) hjs)
  | case7 position name args rest _ body after split ihbody ihafter =>
    have hrest := (List.forall_mem_cons.mp h).2
    have hmem := splitAtClosing_mem split
    have hbody := ihbody fun s hs => hrest s (hmem s (.inl hs))
    have hafter := ihafter fun s hs => hrest s (hmem s (.inr hs))
    exact (Drafts.notes args).bind fun _ _ => hbody.bind fun is his =>
      hafter.bind fun js hjs => .pure (hP.join _ js (hP.block name args is his) hjs)

theorem exists_draft_of_lower {o : Options} {nodes : List Node} {t : CompiledTemplate}
    (h : lower o nodes = .ok t) :
    ∃ d, runSiblings o.extensions (lowerNodes o.extensions o.autoescape nodes) Draft.empty =
      .ok (t.instructions, d) ∧ t.macros = d.macros ∧ t.references = d.references ∧
      t.parent = d.parent := by
  unfold lower at h
  dsimp only at h
  cases hr : runSiblings o.extensions (lowerNodes o.extensions o.autoescape nodes) Draft.empty with
  | error e =>
    rw [hr] at h
    cases h
  | ok x =>
    rw [hr] at h
    cases h
    exact ⟨x.2, rfl, rfl, rfl, rfl⟩

theorem exists_parse_of_compile {o : Options} {source : String} {t : CompiledTemplate}
    (h : compile o source = .ok t) : ∃ nodes, parse source = .ok nodes ∧ lower o nodes = .ok t := by
  unfold compile at h
  cases hparse : parse source with
  | error e =>
    rw [hparse] at h
    cases h
  | ok nodes =>
    rw [hparse] at h
    exact ⟨nodes, rfl, h⟩

theorem Drafts.of_lower {P : List Instruction → Prop} {o : Options} {nodes : List Node}
    {t : CompiledTemplate}
    (h : Drafts M (runSiblings o.extensions (lowerNodes o.extensions o.autoescape nodes)) P)
    (ht : lower o nodes = .ok t) : P t.instructions ∧ ∀ m ∈ t.macros, M m.2 := by
  obtain ⟨d, hd, hmacros, -⟩ := exists_draft_of_lower ht
  rw [hmacros]
  exact h.of_ok Draft.empty _ d nofun hd

end EmbeddedLang.Template
