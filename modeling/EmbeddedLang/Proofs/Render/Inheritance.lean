import EmbeddedLang.Proofs.Render.Congruence
import EmbeddedLang.Proofs.Render.Ensures
import EmbeddedLang.Proofs.Render.Settling

/-!
What a template takes from those that it extends.

A chain of templates renders as one template does that extends nothing. One more that does nothing
but extend the next changes nothing, unless the rendering comes upon a name that only one of both
loaders has a template for.
-/

namespace EmbeddedLang.Render

open Template

/-! ### Chains -/

/-- These are the templates that `t` extends, nearest first, up to one that extends nothing. -/
def Renderer.Extends (r : Renderer) (t : CompiledTemplate) : List CompiledTemplate → Prop
  | [] => t.parent = none
  | u :: rest => (∃ name, t.parent = some name ∧ r.load name = .ok u) ∧ r.Extends u rest

section

variable {r : Renderer} {t : CompiledTemplate} {parents : List CompiledTemplate}

theorem parentsFrom_of_extends {limit : Nat} (h : r.Extends t parents)
    (hlimit : parents.length ≤ limit) : parentsFrom r limit t.parent = .ok parents := by
  induction parents generalizing limit t with
  | nil =>
    have hnone : t.parent = none := h
    rw [hnone]
    cases limit <;> rfl
  | cons u rest ih =>
    obtain ⟨⟨name, hname, hload⟩, hrest⟩ := h
    obtain ⟨limit, rfl⟩ := Nat.exists_eq_add_of_le' hlimit
    have hlimit : rest.length ≤ limit + rest.length := Nat.le_add_left _ _
    rw [hname]
    change parentsFrom r (limit + rest.length + 1) (some name) = _
    rw [parentsFrom, hload]
    change (parentsFrom r (limit + rest.length) u.parent >>= _) = _
    rw [ih hrest hlimit]
    rfl

theorem extends_of_parentsFrom {limit : Nat} (h : parentsFrom r limit t.parent = .ok parents) :
    r.Extends t parents ∧ parents.length ≤ limit := by
  induction limit generalizing t parents with
  | zero =>
    cases hname : t.parent with
    | none =>
      rw [hname] at h
      cases h
      exact ⟨hname, Nat.le_refl 0⟩
    | some name =>
      rw [hname] at h
      cases h
  | succ limit ih =>
    cases hname : t.parent with
    | none =>
      rw [hname] at h
      cases h
      exact ⟨hname, Nat.zero_le _⟩
    | some name =>
      rw [hname, parentsFrom] at h
      cases hload : r.load name with
      | error e =>
        rw [hload] at h
        cases h
      | ok u =>
        rw [hload] at h
        change (parentsFrom r limit u.parent >>= _) = _ at h
        cases hparents : parentsFrom r limit u.parent with
        | error e =>
          rw [hparents] at h
          cases h
        | ok rest =>
          rw [hparents] at h
          cases h
          obtain ⟨hrest, hlength⟩ := ih hparents
          exact ⟨⟨⟨name, hname, hload⟩, hrest⟩, Nat.succ_le_succ hlength⟩

theorem extends_unique {others : List CompiledTemplate} (h : r.Extends t parents)
    (h' : r.Extends t others) : parents = others := by
  have hfirst := parentsFrom_of_extends h (Nat.le_max_left parents.length others.length)
  rw [parentsFrom_of_extends h' (Nat.le_max_right parents.length others.length)] at hfirst
  exact (Except.ok.inj hfirst).symm

theorem ofTemplate_of_extends (h : r.Extends t parents) (hlength : parents.length ≤ maxParents) :
    Program.ofTemplate r t = .ok (.ofChain t parents) := by
  unfold Program.ofTemplate
  rw [parentsFrom_of_extends h hlength]
  rfl

theorem extends_of_ofTemplate {p : Program} (h : Program.ofTemplate r t = .ok p) :
    ∃ parents, r.Extends t parents ∧ parents.length ≤ maxParents ∧ p = .ofChain t parents := by
  unfold Program.ofTemplate at h
  cases hparents : parentsFrom r maxParents t.parent with
  | error e =>
    rw [hparents] at h
    cases h
  | ok parents =>
    rw [hparents] at h
    cases h
    obtain ⟨hextends, hlength⟩ := extends_of_parentsFrom hparents
    exact ⟨parents, hextends, hlength, rfl⟩

/-- Every chain has a template that stands for it. -/
theorem exists_standsFor (first : CompiledTemplate) (parents : List CompiledTemplate) :
    ∃ u, StandsFor u first parents := by
  refine ⟨⟨_, Dictionary.mapValues (Definition.settle (nearestBlock (first :: parents)))
    (Program.ofChain first parents).macros, none, first.references⟩, rfl, rfl, fun name => ?_⟩
  rw [Dictionary.get?_mapValues, get?_macros_ofChain]

end

/-! ### Templates that do nothing but extend another -/

/-- Has no blocks for others and no macros. -/
structure OnlyExtends (u : CompiledTemplate) : Prop where
  blocks : u.blocks = []
  macros : u.macros = []

/-- The second chain is the first one with templates put into it that do nothing but extend the
next. The others stay, but for the names that they extend. -/
inductive Inserted : List CompiledTemplate → List CompiledTemplate → Prop
  | nil : Inserted [] []
  | keep {t t' : CompiledTemplate} {rest rest' : List CompiledTemplate}
    (instructions : t'.instructions = t.instructions) (macros : t'.macros = t.macros)
    (h : Inserted rest rest') : Inserted (t :: rest) (t' :: rest')
  | insert {u t' : CompiledTemplate} {chain rest' : List CompiledTemplate} (hu : OnlyExtends u)
    (h : Inserted chain (t' :: rest')) : Inserted chain (u :: t' :: rest')

theorem Inserted.last {chain chain' : List CompiledTemplate} (h : Inserted chain chain') :
    chain'.getLast?.map (·.instructions) = chain.getLast?.map (·.instructions) := by
  induction h with
  | nil => rfl
  | @keep t t' rest rest' hinstructions _ _ ih =>
    rw [List.getLast?_cons, List.getLast?_cons]
    cases hlast : rest.getLast? <;> cases hlast' : rest'.getLast? <;> rw [hlast, hlast'] at ih
    · exact congrArg some hinstructions
    · cases ih
    · cases ih
    · exact ih
  | insert _ _ ih => rwa [List.getLast?_cons_cons]

theorem Inserted.refl : (chain : List CompiledTemplate) → Inserted chain chain
  | [] => .nil
  | _ :: rest => .keep rfl rfl (.refl rest)

/-- What is put into a chain gives it nothing. -/
theorem Inserted.foldl {α : Type} {of : CompiledTemplate → List (String × α)}
    (hsame : ∀ t t', t'.instructions = t.instructions → t'.macros = t.macros → of t' = of t)
    (hnone : ∀ u, OnlyExtends u → of u = []) {chain chain' : List CompiledTemplate}
    (h : Inserted chain chain') (d : Dictionary α) :
    chain'.foldl (fun d t => addMissing d (of t)) d =
      chain.foldl (fun d t => addMissing d (of t)) d := by
  induction h generalizing d with
  | nil => rfl
  | keep hinstructions hmacros _ ih =>
    rw [List.foldl_cons, List.foldl_cons, ih, hsame _ _ hinstructions hmacros]
  | insert hu _ ih =>
    rw [List.foldl_cons, hnone _ hu]
    exact ih d

theorem Inserted.ofChain {t t' : CompiledTemplate} {parents parents' : List CompiledTemplate}
    (h : Inserted (t :: parents) (t' :: parents')) :
    Program.ofChain t' parents' = Program.ofChain t parents := by
  have hmain := h.last
  rw [List.getLast?_cons, List.getLast?_cons] at hmain
  have hblocks (t t' : CompiledTemplate) (hi : t'.instructions = t.instructions) :
      t'.blocks = t.blocks := congrArg (List.filterMap Instruction.block?) hi
  refine (Program.mk.injEq ..).mpr ⟨Option.some.inj hmain, ?_, ?_⟩
  · exact h.foldl (fun _ _ _ hmacros => hmacros) (fun _ hu => hu.macros) []
  · exact h.foldl (fun t t' hi _ => hblocks t t' hi) (fun _ hu => hu.blocks) []

/-! ### Runs that end where one of them lacks something -/

/-- Both do the same, unless one fails with an error that only it can have. -/
def Unless {α : Type} (E E' : RenderError → Prop) (a b : Rendering α) : Prop :=
  ∀ s, a s = b s ∨ (∃ e s', E e ∧ a s = .error e s') ∨ ∃ e s', E' e ∧ b s = .error e s'

namespace Unless

variable {α β : Type} {E E' : RenderError → Prop} {a b : Rendering α}

theorem refl (a : Rendering α) : Unless E E' a a :=
  fun _ => .inl rfl

theorem bind {f g : α → Rendering β} (h : Unless E E' a b) (hfg : ∀ x, Unless E E' (f x) (g x)) :
    Unless E E' (a >>= f) (b >>= g) := by
  intro s
  rcases h s with hab | ⟨e, t, he, ha⟩ | ⟨e, t, he, hb⟩
  · cases ha : a s with
    | ok x t =>
      rw [bind_of_ok ha, bind_of_ok (hab ▸ ha)]
      exact hfg x t
    | error e t =>
      rw [bind_of_error ha, bind_of_error (hab ▸ ha)]
      exact .inl rfl
  · exact .inr (.inl ⟨e, t, he, bind_of_error ha⟩)
  · exact .inr (.inr ⟨e, t, he, bind_of_error hb⟩)

theorem withScopes (enter leave : List Scope → List Scope) (h : Unless E E' a b) :
    Unless E E' (withScopes enter leave a) (withScopes enter leave b) := by
  intro s
  unfold Render.withScopes
  rcases h { s with scopes := enter s.scopes } with hab | ⟨e, t, he, ha⟩ | ⟨e, t, he, hb⟩
  · rw [hab]
    exact .inl rfl
  · rw [ha]
    exact .inr (.inl ⟨e, _, he, rfl⟩)
  · rw [hb]
    exact .inr (.inr ⟨e, _, he, rfl⟩)

theorem inFreshScope (scope : Scope) (h : Unless E E' a b) :
    Unless E E' (inFreshScope scope a) (inFreshScope scope b) :=
  (refl get).bind fun _ => h.withScopes _ _

theorem sessionCongruence : SessionCongruence (fun _ => True) fun _ => Unless E E' where
  lift _ := refl _
  bind := bind
  session hfg := (refl get).bind hfg
  modify _ := refl _
  inScope _ h := h.withScopes _ _

end Unless

/-! ### Loaders that know of more templates -/

/-- Fails under a name with this error, and the other one does not. -/
def Renderer.Lacks (r r' : Renderer) (e : RenderError) : Prop :=
  ∃ name, r.program name = .error e ∧ r'.program name ≠ .error e

/-- The second renderer differs in its loader alone. Wherever both loaders have a template under a
name, the chain of the second is that of the first with templates put into it. -/
structure Renderer.Inserts (r r' : Renderer) : Prop where
  library : r.SameLibrary r'
  limit : r'.maxDepth = r.maxDepth
  templates : ∀ name t parents t' parents', r.load name = .ok t → r.Extends t parents →
    r'.load name = .ok t' → r'.Extends t' parents' → Inserted (t :: parents) (t' :: parents')

theorem Renderer.Inserts.refl (r : Renderer) : r.Inserts r where
  library := ⟨rfl, rfl, rfl, rfl⟩
  limit := rfl
  templates name t parents t' parents' hload hextends hload' hextends' := by
    cases hload.symm.trans hload'
    cases extends_unique hextends hextends'
    exact .refl _

/-- No renderer lacks what it has itself. -/
theorem Unless.eq {r : Renderer} {α : Type} {a b : Rendering α}
    (h : Unless (r.Lacks r) (r.Lacks r) a b) : a = b := by
  funext s
  rcases h s with hab | ⟨_, _, ⟨_, hlacks, hnot⟩, _⟩ | ⟨_, _, ⟨_, hlacks, hnot⟩, _⟩
  · exact hab
  · exact absurd hlacks hnot
  · exact absurd hlacks hnot

section

variable {r r' : Renderer}

theorem exists_extends_of_program {name : String} {p : Program} (h : r.program name = .ok p) :
    ∃ t parents, r.load name = .ok t ∧ r.Extends t parents ∧ p = .ofChain t parents := by
  unfold Renderer.program at h
  cases hload : r.load name with
  | error e =>
    rw [hload] at h
    cases h
  | ok t =>
    rw [hload] at h
    obtain ⟨parents, hextends, -, hp⟩ := extends_of_ofTemplate h
    exact ⟨t, parents, rfl, hextends, hp⟩

theorem Renderer.Inserts.program (h : r.Inserts r') {name : String} {p p' : Program}
    (hp : r.program name = .ok p) (hp' : r'.program name = .ok p') : p' = p := by
  obtain ⟨t, parents, hload, hextends, rfl⟩ := exists_extends_of_program hp
  obtain ⟨t', parents', hload', hextends', rfl⟩ := exists_extends_of_program hp'
  exact (h.templates name t parents t' parents' hload hextends hload' hextends').ofChain

theorem Program.exec_unless (h : r.Inserts r') {E E' : RenderError → Prop} (p : Program)
    {deeper deeper' : Option Deeper}
    (hd : Option.Rel (Deeper.Related fun _ => Unless E E') deeper deeper')
    (is : List Instruction) :
    Unless E E' (p.exec r deeper is) (p.exec r' deeper' is) := by
  have hR : SessionCongruence (fun _ => True) fun _ => Unless E E' := Unless.sessionCongruence
  have hs : Surroundings.Related (fun _ => True) (fun _ => Unless E E')
      ⟨r, signatures p.macros, deeper⟩ ⟨r', signatures p.macros, deeper'⟩ :=
    ⟨h.library, r.reports_any, rfl, Surroundings.enter_related hR.congruence h.limit trivial hd⟩
  have hexec {override override' : String → Option (Rendering Outcome)}
      (ho : ∀ name, Option.Rel (Unless E E') (override name) (override' name))
      (is : List Instruction) :
      Unless E E' (Context.exec ⟨⟨r, signatures p.macros, deeper⟩, override⟩ is)
        (Context.exec ⟨⟨r', signatures p.macros, deeper'⟩, override'⟩ is) :=
    Context.exec_related hR.congruence hs is fun i _ => Context.stepRelated hR hs ho i
  refine hexec (fun name => ?_) is
  cases Dictionary.get? name p.blocks with
  | none => exact .none
  | some block => exact .some (hexec (fun _ => .none) block)

theorem run_unless (h : r.Inserts r') (depth : Nat) (p : Program) (is : List Instruction) :
    Unless (r.Lacks r') (r'.Lacks r) (run r depth p is) (run r' depth p is) := by
  induction depth generalizing p is with
  | zero =>
    rw [run_eq, run_eq]
    exact (p.exec_unless h .none is).bind fun _ => .refl _
  | succ depth ih =>
    rw [run_eq, run_eq]
    refine (p.exec_unless h (.some ⟨fun name scope => ?_, fun name scope => ?_⟩) is).bind fun _ =>
      .refl _
    · exact (ih p (p.macroBody name)).inFreshScope scope
    · dsimp only
      rw [liftResult_program, liftResult_program]
      cases hp : r.program name with
      | error e =>
        by_cases hp' : r'.program name = .error e
        · rw [hp']
          exact .refl _
        · exact fun s => .inr (.inl ⟨e, s, ⟨name, hp, hp'⟩, rfl⟩)
      | ok q =>
        cases hp' : r'.program name with
        | error e =>
          have hne : r.program name ≠ .error e := by
            rw [hp]
            nofun
          exact fun s => .inr (.inr ⟨e, s, ⟨name, hp', hne⟩, rfl⟩)
        | ok q' =>
          cases h.program hp hp'
          exact (ih q q.main).inFreshScope scope

theorem renderTemplate_unless (h : r.Inserts r') {t t' : CompiledTemplate} {p : Program}
    (ht : Program.ofTemplate r t = .ok p) (ht' : Program.ofTemplate r' t' = .ok p)
    (context : Value) :
    Unless (r.Lacks r') (r'.Lacks r) (renderTemplate r t context)
      (renderTemplate r' t' context) := by
  unfold renderTemplate
  rw [ht, ht', h.limit]
  refine (Unless.refl _).bind fun scope => ?_
  exact (run_unless h r.maxDepth p p.main).inFreshScope scope

end

/-- A chain renders as its last template does, with the nearest bodies in place of the blocks and
the nearest macros under their names. Templates put into it that do nothing but extend the next
change nothing, unless the rendering ends at a name that only one of the loaders has. -/
theorem nearest_block_counts {r : Renderer} {t : CompiledTemplate} {parents : List CompiledTemplate}
    (hextends : r.Extends t parents) (hlength : parents.length ≤ maxParents)
    (hcompiled : ∀ u ∈ t :: parents, u.IsCompiled) (context : Value) :
    (∃ u, StandsFor u t parents) ∧
      (∀ u, StandsFor u t parents → renderTemplate r t context = renderTemplate r u context) ∧
      ∀ r' t' parents', r.Inserts r' → r'.Extends t' parents' → parents'.length ≤ maxParents →
        Inserted (t :: parents) (t' :: parents') →
        Unless (r.Lacks r') (r'.Lacks r) (renderTemplate r t context)
          (renderTemplate r' t' context) := by
  refine ⟨exists_standsFor t parents, fun u hu => ?_, ?_⟩
  · exact hu.renderTemplate_eq hcompiled (parentsFrom_of_extends hextends hlength) context
  · intro r' t' parents' h hextends' hlength' hin
    have ht := ofTemplate_of_extends hextends hlength
    have ht' := ofTemplate_of_extends hextends' hlength'
    rw [hin.ofChain] at ht'
    exact renderTemplate_unless h ht ht' context

/-- A page with a block, one that overrides the block, and one that does no more than extend it. -/
def page : String :=
  "\x7b% block b %\x7d0\x7b% endblock %\x7d"

def ownPage : String :=
  "\x7b% extends \"page\" %\x7d\x7b% block b %\x7d1\x7b% endblock %\x7d"

def samePage : String :=
  "\x7b% extends \"own\" %\x7d"

/-- Has templates for two names. -/
def loading (page own : CompiledTemplate) : Renderer :=
  { Renderer.standard with
    loader := some fun name =>
      if name = "page" then .ok page
      else if name = "own" then .ok own
      else .error (.templateNotFound name) }

theorem nearest_block_counts_page :
    ∃ base own same u, Template.compile {} page = .ok base ∧ Template.compile {} ownPage = .ok own ∧
      Template.compile {} samePage = .ok same ∧ StandsFor u own [base] ∧
      let r := loading base own
      renderTemplate r own .null = renderTemplate r u .null ∧
        renderTemplate r same .null = renderTemplate r own .null := by
  have hs : (Template.compile {} page).toOption.any fun base => base.parent.isNone &&
      (Template.compile {} ownPage).toOption.any fun own => own.parent == some "page" &&
        (Template.compile {} samePage).toOption.any fun same => same.parent == some "own" &&
          (same.blocks.isEmpty && same.macros.isEmpty) := by
    decide +kernel
  obtain ⟨base, hbase, hs⟩ := exists_ok_of_any hs
  obtain ⟨hbaseParent, hs⟩ := Bool.and_eq_true_iff.mp hs
  obtain ⟨own, hown, hs⟩ := exists_ok_of_any hs
  obtain ⟨hownParent, hs⟩ := Bool.and_eq_true_iff.mp hs
  obtain ⟨same, hsame, hs⟩ := exists_ok_of_any hs
  obtain ⟨hsameParent, hs⟩ := Bool.and_eq_true_iff.mp hs
  obtain ⟨hblocks, hmacros⟩ := Bool.and_eq_true_iff.mp hs
  have hextends : (loading base own).Extends own [base] :=
    ⟨⟨"page", eq_of_beq hownParent, rfl⟩, Option.isNone_iff_eq_none.mp hbaseParent⟩
  have hextends' : (loading base own).Extends same [own, base] :=
    ⟨⟨"own", eq_of_beq hsameParent, rfl⟩, hextends⟩
  have hshort : [base].length ≤ maxParents := by simp [maxParents]
  have hshort' : [own, base].length ≤ maxParents := by simp [maxParents]
  have hcompiled : ∀ u ∈ [own, base], u.IsCompiled :=
    List.forall_mem_cons.mpr ⟨⟨_, _, hown⟩, List.forall_mem_singleton.mpr ⟨_, _, hbase⟩⟩
  obtain ⟨⟨u, hu⟩, hstands, hinserts⟩ := nearest_block_counts hextends hshort hcompiled .null
  have honly : OnlyExtends same := ⟨List.isEmpty_iff.mp hblocks, List.isEmpty_iff.mp hmacros⟩
  have hunless := hinserts _ same [own, base] (.refl _) hextends' hshort' (.insert honly (.refl _))
  exact ⟨base, own, same, u, hbase, hown, hsame, hu, hstands u hu, hunless.eq.symm⟩

end EmbeddedLang.Render
