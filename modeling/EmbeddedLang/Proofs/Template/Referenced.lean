import EmbeddedLang.Proofs.Template.Jumps

/-!
Which names lowering records.

Names are only added to the references of a template. So it is enough that each expression is noted
before it gets into an instruction, wherever that stands in the end.
-/

namespace EmbeddedLang.Template

/-! ### Instructions whose names are recorded -/

/-- The expressions that an instruction has itself. -/
def Instruction.operands : Instruction → List Expr
  | .output e _ | .assign _ _ e | .evaluate e | .fragment e _ _ => [e]
  | .choice branches _ => branches.map (·.condition)
  | .loop _ _ iterable filter _ _ => iterable :: filter.toList
  | .inclusion template context => template :: context.toList
  | .extension _ args _ => args
  | .literal _ | .leave | .proceed | .block .. => []

/-- The name that a string literal gives, in parentheses or not. -/
def literalName? (e : Expr) : Option String :=
  match e.ungrouped with
  | .literal _ (.string name) => some name
  | _ => none

/-- The template that is included by a literal name. -/
def Instruction.included? : Instruction → Option String
  | .inclusion template _ => literalName? template
  | _ => none

/-- The functions that the expression calls are recorded. -/
def CallsNoted (R : References) (e : Expr) : Prop :=
  ∀ name ∈ calledFunctions e, Dictionary.has name R.functions

structure Instruction.Noted (R : References) (i : Instruction) : Prop where
  calls : ∀ e ∈ i.operands, CallsNoted R e
  included : ∀ name ∈ i.included?, Dictionary.has name R.includes

def BodyNoted (R : References) (is : List Instruction) : Prop :=
  ∀ i ∈ walkInstructions is, i.Noted R

def ArmsNoted (R : References) (arms : List Arm) : Prop :=
  (∀ arm ∈ arms, CallsNoted R arm.condition) ∧ ∀ i ∈ walkArms arms, i.Noted R

/-- Everything that is recorded in the second is recorded in the first. -/
structure References.Covers (R R' : References) : Prop where
  includes : ∀ name, Dictionary.has name R'.includes → Dictionary.has name R.includes
  functions : ∀ name, Dictionary.has name R'.functions → Dictionary.has name R.functions

theorem has_foldl_noteName (name : String) (names : List String) (d : Dictionary Unit) :
    Dictionary.has name (names.foldl noteName d) ↔ name ∈ names ∨ Dictionary.has name d := by
  have hextend : names.foldl noteName d = Dictionary.extend d (names.map (·, ())) := by
    rw [Dictionary.extend, List.foldl_map]
    rfl
  rw [hextend, Dictionary.has_extend]
  simp

theorem noteInclude_eq (d : Draft) (template : Expr) : d.noteInclude template =
    match literalName? template with
    | some name => { d with references.includes := noteName d.references.includes name }
    | none => d := by
  unfold Draft.noteInclude literalName?
  cases template.ungrouped with
  | literal _ literal => cases literal <;> rfl
  | _ => rfl

variable {α β : Type} {R : References} {P : Prop} {run : Lowering α} {post : α → Prop}
  {next : β → Prop}

theorem bodyNoted_nil : BodyNoted R [] := nofun

theorem bodyNoted_cons {i : Instruction} {is : List Instruction} :
    BodyNoted R (i :: is) ↔ (∀ j ∈ i.walk, j.Noted R) ∧ BodyNoted R is :=
  forall_walk_cons

theorem bodyNoted_singleton {i : Instruction} (h : ∀ j ∈ i.walk, j.Noted R) : BodyNoted R [i] :=
  bodyNoted_cons.mpr ⟨h, bodyNoted_nil⟩

theorem bodyNoted_leaf {i : Instruction} (hw : i.walk = [i]) (h : i.Noted R) : BodyNoted R [i] := by
  apply bodyNoted_singleton
  rw [hw]
  exact List.forall_mem_singleton.mpr h

theorem noted_literal (text : String) : (Instruction.literal text).Noted R := ⟨nofun, nofun⟩

theorem bodyNoted_literalText (text : String) : BodyNoted R (literalText text) := by
  unfold literalText
  split
  · exact bodyNoted_nil
  · exact bodyNoted_leaf rfl (noted_literal text)

theorem BodyNoted.join {is js : List Instruction} (h : BodyNoted R is) (h' : BodyNoted R js) :
    BodyNoted R (Instruction.join is js) :=
  forall_walk_join (fun a b _ _ => noted_literal (a ++ b)) h h'

/-! ### Steps of lowering -/

def MacrosNoted (R : References) (macros : Dictionary Definition) : Prop :=
  ∀ m ∈ macros, BodyNoted R m.2.body

/-- Names are only added. If all that are recorded behind the step are in `R`, and `P` holds, then
the result satisfies `post`, and the macros declared are noted if they were before. -/
structure Records (R : References) (P : Prop) (run : Lowering α) (post : α → Prop) : Prop where
  of_ok : ∀ d a d', run d = .ok (a, d') → R.Covers d'.references → R.Covers d.references ∧
    (P → MacrosNoted R d.macros → post a ∧ MacrosNoted R d'.macros)

namespace Records

theorem pure {a : α} (h : P → post a) : Records R P (Pure.pure a) post where
  of_ok d b d' hb hR := by
    cases hb
    exact ⟨hR, fun hP hd => ⟨h hP, hd⟩⟩

theorem throw (e : CompileError) : Records R P (throw e : Lowering α) post where
  of_ok d b d' hb := by cases hb

theorem bind {f : α → Lowering β} (h : Records R P run post)
    (hf : ∀ a, Records R (P ∧ post a) (f a) next) : Records R P (run >>= f) next where
  of_ok d b d' hb hR := by
    obtain ⟨⟨a, d₁⟩, ha, hb⟩ := exists_of_bind hb
    obtain ⟨hR₁, hrest⟩ := (hf a).of_ok d₁ b d' hb hR
    obtain ⟨hR₀, hfirst⟩ := h.of_ok d a d₁ ha hR₁
    refine ⟨hR₀, fun hP hd => ?_⟩
    obtain ⟨hpost, hd₁⟩ := hfirst hP hd
    exact hrest ⟨hP, hpost⟩ hd₁

theorem imp {weaker : α → Prop} (h : Records R P run post) (hp : P → ∀ a, post a → weaker a) :
    Records R P run weaker where
  of_ok d a d' ha hR := by
    obtain ⟨hR', hrest⟩ := h.of_ok d a d' ha hR
    exact ⟨hR', fun hP hd => (hrest hP hd).imp_left (hp hP a)⟩

/-- The step leaves the macros as they are. -/
theorem update {f : Draft → Draft} {Q : Prop} (hmacros : ∀ d, (f d).macros = d.macros)
    (h : ∀ d, R.Covers (f d).references → R.Covers d.references ∧ Q) :
    Records R P (modify f : Lowering Unit) fun _ => Q where
  of_ok d _ d' hd hR := by
    cases hd
    obtain ⟨hR', hQ⟩ := h d hR
    exact ⟨hR', fun _ hnoted => ⟨hQ, (hmacros d).symm ▸ hnoted⟩⟩

theorem note (e : Expr) : Records R P (Template.note e) fun _ => CallsNoted R e := by
  refine update (fun _ => rfl) fun d hR => ?_
  have hnoted (name : String) (h : name ∈ calledFunctions e ∨
      Dictionary.has name d.references.functions) : Dictionary.has name R.functions :=
    hR.functions name ((has_foldl_noteName name _ _).mpr h)
  exact ⟨⟨hR.includes, fun name h => hnoted name (.inr h)⟩, fun name h => hnoted name (.inl h)⟩

theorem notes (es : List Expr) :
    Records R P (es.forM Template.note) fun _ => ∀ e ∈ es, CallsNoted R e := by
  induction es generalizing P with
  | nil => exact pure nofun
  | cons e rest ih =>
    exact (note e).bind fun _ => ih.imp fun ⟨_, he⟩ _ hrest =>
      List.forall_mem_cons.mpr ⟨he, hrest⟩

theorem noteInclude (template : Expr) :
    Records R P (modify fun d => d.noteInclude template : Lowering Unit) fun _ =>
      ∀ name ∈ literalName? template, Dictionary.has name R.includes := by
  simp only [noteInclude_eq]
  cases literalName? template with
  | none =>
    refine update (fun _ => rfl) fun d hR => ⟨hR, fun name h => ?_⟩
    cases h
  | some name =>
    refine update (fun _ => rfl) fun d hR => ?_
    have hnoted (other : String) (h : other = name ∨ Dictionary.has other d.references.includes) :
        Dictionary.has other R.includes := by
      refine hR.includes other ?_
      simpa [noteName, Dictionary.has_put] using h
    refine ⟨⟨fun other h => hnoted other (.inr h), hR.functions⟩, ?_⟩
    rintro _ ⟨rfl⟩
    exact hnoted _ (.inl rfl)

theorem assignments (as : List Assignment) :
    Records R P (as.mapM lowerAssignment) (BodyNoted R) := by
  induction as generalizing P with
  | nil => exact pure fun _ => bodyNoted_nil
  | cons a rest ih =>
    rw [List.mapM_cons]
    have ha : Records R P (lowerAssignment a) fun i => ∀ j ∈ i.walk, j.Noted R := by
      refine (note a.value).bind fun _ => pure fun ⟨_, hvalue⟩ => ?_
      exact List.forall_mem_singleton.mpr ⟨List.forall_mem_singleton.mpr hvalue, nofun⟩
    exact ha.bind fun i => ih.bind fun is => pure fun ⟨⟨_, hi⟩, his⟩ => bodyNoted_cons.mpr ⟨hi, his⟩

theorem define {body : Lowering (List Instruction)} (h : ∀ P, Records R P body (BodyNoted R))
    (position : Position) (name : String) (params : List Param) :
    Records R P (Template.define position name params body) (BodyNoted R) := by
  have hget : Records R P (MonadState.get : Lowering Draft) fun _ => True := by
    constructor
    rintro d _ _ ⟨⟩ hR
    exact ⟨hR, fun _ hd => ⟨trivial, hd⟩⟩
  have hput (Q : Prop) (is : List Instruction) : Records R (Q ∧ BodyNoted R is) (modify fun d =>
      { d with macros := Dictionary.put name ⟨params, is⟩ d.macros } : Lowering Unit)
      fun _ => True := by
    constructor
    rintro d _ _ ⟨⟩ hR
    refine ⟨hR, fun ⟨_, his⟩ hd => ⟨trivial, fun m hm => ?_⟩⟩
    rcases Dictionary.mem_of_mem_put hm with rfl | hm
    · exact his
    · exact hd m hm
  apply hget.bind
  intro d
  split
  · exact (throw _ : Records R _ _ fun _ => True).bind fun _ =>
      (h _).bind fun is => (hput _ is).bind fun _ => pure fun _ => bodyNoted_nil
  · exact (h _).bind fun is => (hput _ is).bind fun _ => pure fun _ => bodyNoted_nil

end Records

/-! ### Siblings -/

def Sibling.Records (R : References) : Sibling → Prop
  | .plain run => ∀ P, Template.Records R P run (BodyNoted R)
  | .opening .. | .closing .. => True

theorem noted_extension {name : String} {args : List Expr} {body : Option (List Instruction)}
    (hargs : ∀ e ∈ args, CallsNoted R e) (hbody : ∀ i ∈ walkInstructionsOf body, i.Noted R) :
    BodyNoted R [.extension name args body] :=
  bodyNoted_singleton (List.forall_mem_cons.mpr ⟨⟨hargs, nofun⟩, hbody⟩)

theorem runSiblings_records (t : ExtensionTable) (siblings : List Sibling)
    (h : ∀ s ∈ siblings, s.Records R) (P : Prop) :
    Records R P (runSiblings t siblings) (BodyNoted R) := by
  fun_induction runSiblings t siblings generalizing P with
  | case1 => exact .pure fun _ => bodyNoted_nil
  | case2 run rest ih =>
    obtain ⟨hrun, hrest⟩ := List.forall_mem_cons.mp h
    have hrun : Records R P run (BodyNoted R) := hrun P
    refine hrun.bind fun is => (ih hrest _).bind fun js => .pure ?_
    rintro ⟨⟨-, his⟩, hjs⟩
    exact his.join hjs
  | case3 | case4 | case6 => exact .throw _
  | case5 position name args rest _ ih =>
    have hrest := (List.forall_mem_cons.mp h).2
    refine (Records.notes args).bind fun _ => (ih hrest _).bind fun js => .pure ?_
    rintro ⟨⟨-, hargs⟩, hjs⟩
    exact BodyNoted.join (noted_extension hargs (List.forall_mem_nil _)) hjs
  | case7 position name args rest _ body after split ihbody ihafter =>
    have hrest := (List.forall_mem_cons.mp h).2
    have hmem := splitAtClosing_mem split
    have hbody := ihbody fun s hs => hrest s (hmem s (.inl hs))
    have hafter := ihafter fun s hs => hrest s (hmem s (.inr hs))
    refine (Records.notes args).bind fun _ => (hbody _).bind fun is =>
      (hafter _).bind fun js => .pure ?_
    rintro ⟨⟨⟨-, hargs⟩, his⟩, hjs⟩
    exact BodyNoted.join (noted_extension hargs his) hjs

/-! ### One lemma for each kind of node -/

mutual

theorem node_records (R : References) (t : ExtensionTable) (escape : Bool) : (n : Node) →
    (lowerNode t escape n).Records R
  | .text .. => fun _ => .pure fun _ => bodyNoted_literalText _
  | .echo _ e _ | .evaluation _ e => fun _ =>
    (Records.note e).bind fun _ => .pure fun ⟨_, he⟩ =>
      bodyNoted_leaf rfl ⟨List.forall_mem_singleton.mpr he, nofun⟩
  | .choice _ branches otherwise => by
    intro P
    refine (branches_record R t escape branches P).bind fun arms =>
      (optional_records R t escape otherwise _).bind fun is => .pure ?_
    rintro ⟨⟨-, hconditions, harms⟩, his⟩
    exact bodyNoted_singleton (List.forall_mem_cons.mpr
      ⟨⟨List.forall_mem_map.mpr hconditions, nofun⟩, List.forall_mem_append.mpr ⟨harms, his⟩⟩)
  | .loop _ key name iterable filter body otherwise => by
    intro P
    refine (Records.note iterable).bind fun _ => (Records.notes filter.toList).bind fun _ => ?_
    refine (nodes_record R t escape body _).bind fun is =>
      (optional_records R t escape otherwise _).bind fun js => .pure ?_
    rintro ⟨⟨⟨⟨-, hiterable⟩, hfilter⟩, his⟩, hjs⟩
    exact bodyNoted_singleton (List.forall_mem_cons.mpr
      ⟨⟨List.forall_mem_cons.mpr ⟨hiterable, hfilter⟩, nofun⟩,
        List.forall_mem_append.mpr ⟨his, hjs⟩⟩)
  | .assignments _ as => fun _ => .assignments as
  | .block _ name body => fun P =>
    (nodes_record R t escape body P).bind fun is => .pure fun ⟨_, his⟩ =>
      bodyNoted_singleton (List.forall_mem_cons.mpr ⟨⟨nofun, nofun⟩, his⟩)
  | .parent _ template => by
    intro P
    have hparent : Records R P
        (modify fun d => { d with parent := some template } : Lowering Unit) fun _ => True :=
      .update (fun _ => rfl) fun d hR => ⟨hR, trivial⟩
    exact hparent.bind fun _ => .pure fun _ => bodyNoted_nil
  | .inclusion _ template context => by
    intro P
    refine (Records.note template).bind fun _ => (Records.noteInclude template).bind fun _ =>
      (Records.notes context.toList).bind fun _ => .pure ?_
    rintro ⟨⟨⟨-, htemplate⟩, hincluded⟩, hcontext⟩
    exact bodyNoted_leaf rfl ⟨List.forall_mem_cons.mpr ⟨htemplate, hcontext⟩, hincluded⟩
  | .definition position name params body => fun _ =>
    .define (nodes_record R t escape body) position name params
  | .fragment _ key lifetime body => by
    intro P
    refine (Records.note key).bind fun _ => (nodes_record R t escape body _).bind fun is => .pure ?_
    rintro ⟨⟨-, hkey⟩, his⟩
    exact bodyNoted_singleton
      (List.forall_mem_cons.mpr ⟨⟨List.forall_mem_singleton.mpr hkey, nofun⟩, his⟩)
  | .autoescape _ enabled body => nodes_record R t enabled body
  | .leave _ | .proceed _ => fun _ => .pure fun _ => bodyNoted_leaf rfl ⟨nofun, nofun⟩
  | .tag .. | .endTag .. => trivial

theorem siblings_record (R : References) (t : ExtensionTable) (escape : Bool) : (ns : List Node) →
    ∀ s ∈ lowerNodes t escape ns, s.Records R
  | [] => nofun
  | n :: rest => List.forall_mem_cons.mpr ⟨node_records R t escape n, siblings_record R t escape rest⟩

theorem nodes_record (R : References) (t : ExtensionTable) (escape : Bool) (ns : List Node)
    (P : Prop) : Records R P (runSiblings t (lowerNodes t escape ns)) (BodyNoted R) :=
  runSiblings_records t _ (siblings_record R t escape ns) P

theorem optional_records (R : References) (t : ExtensionTable) (escape : Bool) :
    (body : Option (List Node)) → ∀ P, Records R P (lowerOptional t escape body) (BodyNoted R)
  | none, _ => .pure fun _ => bodyNoted_nil
  | some ns, P => nodes_record R t escape ns P

theorem branches_record (R : References) (t : ExtensionTable) (escape : Bool) :
    (bs : List Branch) → ∀ P, Records R P (lowerBranches t escape bs) (ArmsNoted R)
  | [], _ => .pure fun _ => ⟨nofun, nofun⟩
  | b :: rest, P =>
    (branch_records R t escape b P).bind fun arm => (branches_record R t escape rest _).bind
      fun arms => .pure fun ⟨⟨_, harm⟩, harms⟩ => ⟨List.forall_mem_cons.mpr ⟨harm.1, harms.1⟩,
        List.forall_mem_append.mpr ⟨harm.2, harms.2⟩⟩

theorem branch_records (R : References) (t : ExtensionTable) (escape : Bool) : (b : Branch) →
    ∀ P, Records R P (lowerBranch t escape b) fun arm =>
      CallsNoted R arm.condition ∧ ∀ i ∈ arm.walk, i.Noted R
  | ⟨condition, body⟩, _ => (Records.note condition).bind fun _ =>
    (nodes_record R t escape body _).bind fun _ => .pure fun ⟨⟨_, hcondition⟩, his⟩ =>
      ⟨hcondition, his⟩

end

/-- The bodies that a template has itself: its instructions, and those of its macros. -/
def CompiledTemplate.bodies (t : CompiledTemplate) : List (List Instruction) :=
  t.instructions :: t.macros.map fun m => m.2.body

/-- Whatever stands in a template is recorded in its references. -/
theorem lower_noted {o : Options} {nodes : List Node} {t : CompiledTemplate}
    (h : lower o nodes = .ok t) : ∀ body ∈ t.bodies, BodyNoted t.references body := by
  obtain ⟨d, hd, hmacros, hreferences, -⟩ := exists_draft_of_lower h
  have hrecords := nodes_record t.references o.extensions o.autoescape nodes True
  have hcovers : t.references.Covers d.references := by
    rw [hreferences]
    exact ⟨fun _ => id, fun _ => id⟩
  obtain ⟨-, hnoted⟩ := hrecords.of_ok _ _ d hd hcovers
  obtain ⟨hown, hdefined⟩ := hnoted trivial nofun
  refine List.forall_mem_cons.mpr ⟨hown, List.forall_mem_map.mpr ?_⟩
  rw [hmacros]
  exact hdefined

theorem CompiledTemplate.IsCompiled.noted {t : CompiledTemplate} (h : t.IsCompiled) :
    ∀ body ∈ t.bodies, BodyNoted t.references body := by
  obtain ⟨o, source, h⟩ := h
  obtain ⟨nodes, -, hlower⟩ := exists_parse_of_compile h
  exact lower_noted hlower

end EmbeddedLang.Template
