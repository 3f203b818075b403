import EmbeddedLang.Proofs.Template.Literals

/-!
How the ends of custom block directives are paired.

Each opener looks for its own end by its own name only, past the ends of all other directives. Among
siblings that are well nested this finds the partner that bracket matching gives, and among others
it never succeeds.

In lowering, only the definition of a macro looks at what is declared so far. Nothing else depends
on the draft, neither its instructions nor whether it succeeds.
-/

namespace EmbeddedLang.Template

/-! ### Lowering without macros -/

variable {α β : Type}

/-- The step succeeds on every draft, with the same result. -/
inductive Succeeds (run : Lowering α) : Prop where
  | intro (a : α) (change : Draft → Draft) (h : ∀ d, run d = .ok (a, change d))

inductive Steady (run : Lowering α) : Prop where
  | succeeds (h : Succeeds run)
  | fails (e : CompileError) (h : ∀ d, run d = .error e)

theorem bind_of_ok {run : Lowering α} {f : α → Lowering β} {a : α} {d d' : Draft}
    (h : run d = .ok (a, d')) : (run >>= f) d = f a d' := by
  change Except.bind (run d) _ = _
  rw [h]
  rfl

theorem bind_of_error {run : Lowering α} {f : α → Lowering β} {e : CompileError} {d : Draft}
    (h : run d = .error e) : (run >>= f) d = .error e := by
  change Except.bind (run d) _ = _
  rw [h]
  rfl

namespace Succeeds

theorem pure (a : α) : Succeeds (Pure.pure a : Lowering α) :=
  ⟨a, id, fun _ => rfl⟩

theorem update (f : Draft → Draft) : Succeeds (modify f : Lowering Unit) :=
  ⟨(), f, fun _ => rfl⟩

theorem bind {run : Lowering α} {f : α → Lowering β} (h : Succeeds run)
    (hf : ∀ a, Succeeds (f a)) : Succeeds (run >>= f) := by
  obtain ⟨a, change, h⟩ := h
  obtain ⟨b, further, hf⟩ := hf a
  exact ⟨b, further ∘ change, fun d => (bind_of_ok (h d)).trans (hf _)⟩

/-- What follows is reached, and its error is that of the whole. -/
theorem fails {run : Lowering α} {f : α → Lowering β} {e : CompileError} (h : Succeeds run)
    (hf : ∀ a d, f a d = .error e) (d : Draft) : (run >>= f) d = .error e := by
  obtain ⟨a, change, h⟩ := h
  exact (bind_of_ok (h d)).trans (hf a _)

theorem notes (es : List Expr) : Succeeds (es.forM note) := by
  induction es with
  | nil => exact pure ()
  | cons e rest ih => exact (update _).bind fun _ => ih

end Succeeds

namespace Steady

theorem pure (a : α) : Steady (Pure.pure a : Lowering α) :=
  .succeeds (.pure a)

theorem throw (e : CompileError) : Steady (throw e : Lowering α) :=
  .fails e fun _ => rfl

theorem update (f : Draft → Draft) : Steady (modify f : Lowering Unit) :=
  .succeeds (.update f)

theorem bind {run : Lowering α} {f : α → Lowering β} (h : Steady run) (hf : ∀ a, Steady (f a)) :
    Steady (run >>= f) := by
  cases h with
  | fails e h => exact .fails e fun d => bind_of_error (h d)
  | succeeds h =>
    obtain ⟨a, change, h⟩ := h
    cases hf a with
    | fails e hf => exact .fails e fun d => (bind_of_ok (h d)).trans (hf _)
    | succeeds hf =>
      obtain ⟨b, further, hf⟩ := hf
      exact .succeeds ⟨b, further ∘ change, fun d => (bind_of_ok (h d)).trans (hf _)⟩

theorem notes (es : List Expr) : Steady (es.forM note) :=
  .succeeds (.notes es)

theorem assignments (as : List Assignment) : Steady (as.mapM lowerAssignment) := by
  induction as with
  | nil => exact pure []
  | cons a rest ih =>
    have ha : Steady (lowerAssignment a) := (update _).bind fun _ => pure _
    rw [List.mapM_cons]
    exact ha.bind fun i => ih.bind fun is => pure _

end Steady

def Sibling.Steady : Sibling → Prop
  | .plain run => Template.Steady run
  | .opening .. | .closing .. => True

theorem runSiblings_steady (t : ExtensionTable) (siblings : List Sibling)
    (h : ∀ s ∈ siblings, s.Steady) : Steady (runSiblings t siblings) := by
  fun_induction runSiblings t siblings with
  | case1 => exact .pure _
  | case2 run rest ih =>
    obtain ⟨hrun, hrest⟩ := List.forall_mem_cons.mp h
    have hrun : Steady run := hrun
    exact hrun.bind fun _ => (ih hrest).bind fun _ => .pure _
  | case3 | case4 | case6 => exact .throw _
  | case5 p name args rest _ ih =>
    have hrest := (List.forall_mem_cons.mp h).2
    exact (Steady.notes args).bind fun _ => (ih hrest).bind fun _ => .pure _
  | case7 p name args rest _ body after split ihbody ihafter =>
    have hrest := (List.forall_mem_cons.mp h).2
    have hmem := splitAtClosing_mem split
    have hbody := ihbody fun s hs => hrest s (hmem s (.inl hs))
    have hafter := ihafter fun s hs => hrest s (hmem s (.inr hs))
    exact (Steady.notes args).bind fun _ => hbody.bind fun _ => hafter.bind fun _ => .pure _

mutual

theorem lowerNode_steady (t : ExtensionTable) (escape : Bool) : ∀ n : Node,
    n.definitions = [] → (lowerNode t escape n).Steady
  | .text .., _ | .leave _, _ | .proceed _, _ => .pure _
  | .echo .., _ | .evaluation .., _ | .parent .., _ => (Steady.update _).bind fun _ => .pure _
  | .choice _ branches otherwise, h => by
    have hsplit : definitionsOfBranches branches ++ definitionsOfOptional otherwise = [] :=
      List.filter_append _ _ ▸ h
    obtain ⟨hbranches, hotherwise⟩ := List.append_eq_nil_iff.mp hsplit
    exact (lowerBranches_steady t escape branches hbranches).bind fun _ =>
      (lowerOptional_steady t escape otherwise hotherwise).bind fun _ => .pure _
  | .loop _ _ _ iterable filter body otherwise, h => by
    have hsplit : definitionsOf body ++ definitionsOfOptional otherwise = [] :=
      List.filter_append _ _ ▸ h
    obtain ⟨hbody, hotherwise⟩ := List.append_eq_nil_iff.mp hsplit
    exact (Steady.update _).bind fun _ => (Steady.notes filter.toList).bind fun _ =>
      (runNodes_steady t escape body hbody).bind fun _ =>
        (lowerOptional_steady t escape otherwise hotherwise).bind fun _ => .pure _
  | .assignments _ as, _ => .assignments as
  | .block _ _ body, h => (runNodes_steady t escape body h).bind fun _ => .pure _
  | .inclusion _ _ context, _ =>
    (Steady.update _).bind fun _ => (Steady.update _).bind fun _ =>
      (Steady.notes context.toList).bind fun _ => .pure _
  | .fragment _ _ _ body, h =>
    (Steady.update _).bind fun _ => (runNodes_steady t escape body h).bind fun _ => .pure _
  | .autoescape _ enabled body, h => runNodes_steady t enabled body h
  | .tag .., _ | .endTag .., _ => trivial

theorem lowerNodes_steady (t : ExtensionTable) (escape : Bool) : ∀ nodes : List Node,
    definitionsOf nodes = [] → ∀ s ∈ lowerNodes t escape nodes, s.Steady
  | [], _ => nofun
  | n :: rest, h => by
    rw [definitionsOf_cons] at h
    obtain ⟨hn, hrest⟩ := List.append_eq_nil_iff.mp h
    exact List.forall_mem_cons.mpr
      ⟨lowerNode_steady t escape n hn, lowerNodes_steady t escape rest hrest⟩

theorem runNodes_steady (t : ExtensionTable) (escape : Bool) (nodes : List Node)
    (h : definitionsOf nodes = []) : Steady (runSiblings t (lowerNodes t escape nodes)) :=
  runSiblings_steady t _ (lowerNodes_steady t escape nodes h)

theorem lowerOptional_steady (t : ExtensionTable) (escape : Bool) : ∀ body : Option (List Node),
    definitionsOfOptional body = [] → Steady (lowerOptional t escape body)
  | none, _ => .pure _
  | some body, h => runNodes_steady t escape body h

theorem lowerBranches_steady (t : ExtensionTable) (escape : Bool) : ∀ branches : List Branch,
    definitionsOfBranches branches = [] → Steady (lowerBranches t escape branches)
  | [], _ => .pure _
  | ⟨condition, body⟩ :: rest, h => by
    have hsplit : definitionsOf body ++ definitionsOfBranches rest = [] :=
      List.filter_append _ _ ▸ h
    obtain ⟨hbody, hrest⟩ := List.append_eq_nil_iff.mp hsplit
    exact (lowerBranch_steady t escape ⟨condition, body⟩ hbody).bind fun _ =>
      (lowerBranches_steady t escape rest hrest).bind fun _ => .pure _

theorem lowerBranch_steady (t : ExtensionTable) (escape : Bool) : ∀ b : Branch,
    definitionsOf b.body = [] → Steady (lowerBranch t escape b)
  | ⟨_, body⟩, h =>
    (Steady.update _).bind fun _ => (runNodes_steady t escape body h).bind fun _ => .pure _

end

end EmbeddedLang.Template

namespace EmbeddedLang.Template

/-! ### Brackets -/

/-- An end of a custom block directive. -/
inductive Bracket where
  | opens (name : String)
  | closes (name : String)

inductive WellNested : List Bracket → Prop where
  | nil : WellNested []
  | enclose {inner after : List Bracket} (name : String) (hinner : WellNested inner)
      (hafter : WellNested after) : WellNested (.opens name :: (inner ++ .closes name :: after))

def IsBlockName (t : ExtensionTable) (name : String) : Prop :=
  Dictionary.get? name t = some .block

instance (t : ExtensionTable) (name : String) : Decidable (IsBlockName t name) :=
  inferInstanceAs (Decidable (_ = _))

def Node.bracket? (t : ExtensionTable) : Node → Option Bracket
  | .tag _ name _ => if IsBlockName t name then some (.opens name) else none
  | .endTag _ name => if IsBlockName t name then some (.closes name) else none
  | _ => none

def bracketsOf (t : ExtensionTable) (nodes : List Node) : List Bracket :=
  nodes.filterMap (Node.bracket? t)

/-- The node is a template by itself, and one without macros. -/
structure Node.StandsAlone (t : ExtensionTable) (escape : Bool) (n : Node) : Prop where
  compiles : ∃ c, lower ⟨t, escape⟩ [n] = .ok c
  definitions : n.definitions = []

/-! ### Siblings paired up -/

/-- Siblings one after the other, where a custom block directive is one with what it encloses. -/
inductive Forest where
  | nil
  | single (n : Node) (rest : Forest)
  | pair (opens : Position) (name : String) (args : List Expr) (body : Forest) (closes : Position)
      (rest : Forest)

namespace Forest

def nodes : Forest → List Node
  | nil => []
  | single n rest => n :: rest.nodes
  | pair opens name args body closes rest =>
    .tag opens name args :: (body.nodes ++ .endTag closes name :: rest.nodes)

/-- No bracket is left without its partner. -/
def Matched (t : ExtensionTable) : Forest → Prop
  | nil => True
  | single n rest => n.bracket? t = none ∧ rest.Matched t
  | pair _ name _ body _ rest => IsBlockName t name ∧ body.Matched t ∧ rest.Matched t

/-- Each directive becomes an extension around what it encloses, each other node what it becomes by
itself. -/
def lowered (t : ExtensionTable) (escape : Bool) : Forest → Lowering (List Instruction)
  | nil => return []
  | single n rest => do
    let first ← runSiblings t [lowerNode t escape n]
    return Instruction.join first (← rest.lowered t escape)
  | pair _ name args body _ rest => do
    args.forM note
    let inner ← body.lowered t escape
    return Instruction.join [.extension name args (some inner)] (← rest.lowered t escape)

end Forest

section

variable {t : ExtensionTable} {escape : Bool}

theorem bracketsOf_cons (n : Node) (nodes : List Node) :
    bracketsOf t (n :: nodes) = (n.bracket? t).toList ++ bracketsOf t nodes := by
  rw [bracketsOf, List.filterMap_cons]
  cases n.bracket? t <;> rfl

theorem bracket?_tag {name : String} (h : IsBlockName t name) (p : Position) (args : List Expr) :
    (Node.tag p name args).bracket? t = some (.opens name) :=
  if_pos h

theorem bracket?_endTag {name : String} (h : IsBlockName t name) (p : Position) :
    (Node.endTag p name).bracket? t = some (.closes name) :=
  if_pos h

theorem eq_tag_of_bracket? {n : Node} {name : String} (h : n.bracket? t = some (.opens name)) :
    IsBlockName t name ∧ ∃ p args, n = .tag p name args := by
  cases n with
  | tag p other args =>
    obtain ⟨hname, heq⟩ := Option.ite_none_right_eq_some.mp h
    cases heq
    exact ⟨hname, p, args, rfl⟩
  | endTag p other =>
    obtain ⟨hname, heq⟩ := Option.ite_none_right_eq_some.mp h
    cases heq
  | _ => cases h

theorem eq_endTag_of_bracket? {n : Node} {name : String} (h : n.bracket? t = some (.closes name)) :
    IsBlockName t name ∧ ∃ p, n = .endTag p name := by
  cases n with
  | endTag p other =>
    obtain ⟨hname, heq⟩ := Option.ite_none_right_eq_some.mp h
    cases heq
    exact ⟨hname, p, rfl⟩
  | tag p other args =>
    obtain ⟨hname, heq⟩ := Option.ite_none_right_eq_some.mp h
    cases heq
  | _ => cases h

/-- Pairing up gives a well-nested word. -/
theorem Forest.Matched.wellNested : ∀ {f : Forest}, f.Matched t → WellNested (bracketsOf t f.nodes)
  | .nil, _ => .nil
  | .single n rest, ⟨hn, hrest⟩ => by
    rw [Forest.nodes, bracketsOf_cons, hn]
    exact hrest.wellNested
  | .pair opens name args body closes rest, ⟨hname, hbody, hrest⟩ => by
    have h := WellNested.enclose name hbody.wellNested hrest.wellNested
    rw [Forest.nodes, bracketsOf_cons, bracketsOf, List.filterMap_append, List.filterMap_cons,
      bracket?_tag hname, bracket?_endTag hname]
    exact h

/-- Nodes that are no brackets, in front of a forest. -/
theorem exists_forest_of_unbracketed {nodes : List Node} (h : bracketsOf t nodes = []) (f : Forest)
    (hf : f.Matched t) : ∃ g : Forest, g.nodes = nodes ++ f.nodes ∧ g.Matched t := by
  induction nodes with
  | nil => exact ⟨f, rfl, hf⟩
  | cons n rest ih =>
    rw [bracketsOf_cons] at h
    obtain ⟨hn, hrest⟩ := List.append_eq_nil_iff.mp h
    obtain ⟨g, hnodes, hg⟩ := ih hrest
    refine ⟨.single n g, ?_, Option.toList_eq_nil_iff.mp hn, hg⟩
    rw [Forest.nodes, hnodes, List.cons_append]

/-- A well-nested word can be paired up, whatever stands between its brackets. -/
theorem WellNested.exists_forest {word : List Bracket} (h : WellNested word) {nodes : List Node}
    (hnodes : bracketsOf t nodes = word) : ∃ f : Forest, f.nodes = nodes ∧ f.Matched t := by
  induction h generalizing nodes with
  | nil =>
    obtain ⟨f, hf, hmatched⟩ := exists_forest_of_unbracketed hnodes .nil trivial
    exact ⟨f, hf.trans (List.append_nil _), hmatched⟩
  | @enclose inner after name _ _ ihinner ihafter =>
    obtain ⟨before, opener, rest, rfl, hbefore, hopener, hrest⟩ :=
      List.filterMap_eq_cons_iff.mp hnodes
    obtain ⟨inside, behind, rfl, hinside, hbehind⟩ := List.filterMap_eq_append_iff.mp hrest
    obtain ⟨between, closer, others, rfl, hbetween, hcloser, hothers⟩ :=
      List.filterMap_eq_cons_iff.mp hbehind
    obtain ⟨hname, opens, args, rfl⟩ := eq_tag_of_bracket? hopener
    obtain ⟨-, closes, rfl⟩ := eq_endTag_of_bracket? hcloser
    have hbody : bracketsOf t (inside ++ between) = inner := by
      rw [bracketsOf, List.filterMap_append, hinside, List.filterMap_eq_nil_iff.mpr hbetween,
        List.append_nil]
    obtain ⟨body, hbodynodes, hbody⟩ := ihinner hbody
    obtain ⟨tail, htailnodes, htail⟩ := ihafter hothers
    obtain ⟨f, hf, hmatched⟩ := exists_forest_of_unbracketed (List.filterMap_eq_nil_iff.mpr hbefore)
      (.pair opens name args body closes tail) ⟨hname, hbody, htail⟩
    refine ⟨f, ?_, hmatched⟩
    rw [hf, Forest.nodes, hbodynodes, htailnodes]
    simp

/-! ### Siblings that pair with nothing -/

/-- The sibling is neither end of a block directive. -/
inductive Sibling.Whole (t : ExtensionTable) : Sibling → Prop where
  | plain (run : Lowering (List Instruction)) : Whole t (.plain run)
  | inline (p : Position) {name : String} (args : List Expr)
      (h : Dictionary.get? name t = some .inline) : Whole t (.opening p name args)

theorem splitAtClosing_opening (name other : String) (depth : Nat) (p : Position)
    (args : List Expr) (rest : List Sibling) :
    splitAtClosing name depth (.opening p other args :: rest) =
      (splitAtClosing name (if other = name then depth + 1 else depth) rest).map
        fun x => (.opening p other args :: x.1, x.2) := by
  rw [splitAtClosing]

theorem splitAtClosing_partner (name : String) (p : Position) (rest : List Sibling) :
    splitAtClosing name 0 (.closing p name :: rest) = some ([], rest) := by
  rw [splitAtClosing, if_pos rfl]

/-- The end of a directive that was opened on the way. -/
theorem splitAtClosing_closing (name other : String) (depth : Nat) (p : Position)
    (rest : List Sibling) :
    splitAtClosing name (if other = name then depth + 1 else depth) (.closing p other :: rest) =
      (splitAtClosing name depth rest).map fun x => (.closing p other :: x.1, x.2) := by
  by_cases hother : other = name
  · rw [if_pos hother, splitAtClosing, if_pos hother]
  · rw [if_neg hother]
    cases depth with
    | zero => rw [splitAtClosing, if_neg hother]
    | succ depth => rw [splitAtClosing, if_neg hother]

theorem splitAtClosing_whole {s : Sibling} (hs : s.Whole t) {name : String}
    (hname : IsBlockName t name) (depth : Nat) (rest : List Sibling) :
    splitAtClosing name depth (s :: rest) =
      (splitAtClosing name depth rest).map fun x => (s :: x.1, x.2) := by
  cases hs with
  | plain run => cases depth <;> rw [splitAtClosing]
  | @inline p other args hinline =>
    have hother : other ≠ name := by
      rintro rfl
      cases hinline.symm.trans hname
    rw [splitAtClosing_opening, if_neg hother]

theorem join_nil (is : List Instruction) : Instruction.join is [] = is := by
  induction is with
  | nil => rfl
  | cons i rest ih =>
    rw [Instruction.join]
    · rw [ih]
    · simp

theorem runSiblings_whole {s : Sibling} (hs : s.Whole t) (rest : List Sibling) :
    runSiblings t (s :: rest) = (do
      let first ← runSiblings t [s]
      return Instruction.join first (← runSiblings t rest)) := by
  cases hs with
  | plain run => simp [runSiblings, join_nil]
  | inline p args hinline =>
    rw [runSiblings]
    simp [runSiblings, join_nil, hinline]

theorem runSiblings_pair {name : String} (hname : IsBlockName t name) {rest body after : List Sibling}
    (hsplit : splitAtClosing name 0 rest = some (body, after)) (p : Position) (args : List Expr) :
    runSiblings t (.opening p name args :: rest) = (do
      args.forM note
      let inner ← runSiblings t body
      return Instruction.join [.extension name args (some inner)] (← runSiblings t after)) := by
  have hblock : Dictionary.get? name t = some .block := hname
  rw [runSiblings]
  simp only [hblock]
  split
  · next hnone => cases hnone.symm.trans hsplit
  · next hsome =>
    cases hsome.symm.trans hsplit
    rfl

theorem runSiblings_unclosed {name : String} (hname : IsBlockName t name) {rest : List Sibling}
    (hsplit : splitAtClosing name 0 rest = none) (p : Position) (args : List Expr) :
    runSiblings t (.opening p name args :: rest) =
      throw (.unbalancedBlock p ("end" ++ name) endTemplate) := by
  have hblock : Dictionary.get? name t = some .block := hname
  rw [runSiblings]
  simp only [hblock]
  split
  · rfl
  · next hsome => cases hsome.symm.trans hsplit

theorem runSiblings_stray {name : String} (hname : IsBlockName t name) (p : Position)
    (rest : List Sibling) : runSiblings t (.closing p name :: rest) =
      throw (.unbalancedBlock p endTemplate ("end" ++ name)) := by
  have hblock : Dictionary.get? name t = some .block := hname
  rw [runSiblings, strayEnd, hblock]

/-! ### Nodes that stand alone -/

namespace Node.StandsAlone

variable {n : Node}

theorem succeeds (h : n.StandsAlone t escape) : Succeeds (runSiblings t [lowerNode t escape n]) := by
  obtain ⟨c, hc⟩ := h.compiles
  obtain ⟨d, hd, -⟩ := exists_draft_of_lower hc
  have hnone : definitionsOf [n] = [] := by
    rw [definitionsOf_cons, h.definitions]
    rfl
  cases runNodes_steady t escape [n] hnone with
  | succeeds h => exact h
  | fails e h => cases (h Draft.empty).symm.trans hd

theorem whole (h : n.StandsAlone t escape) : (lowerNode t escape n).Whole t := by
  obtain ⟨is, change, hruns⟩ := h.succeeds
  have hok := hruns Draft.empty
  cases hs : lowerNode t escape n with
  | plain run => exact .plain run
  | closing p name =>
    rw [hs, runSiblings] at hok
    cases hok
  | opening p name args =>
    cases hname : Dictionary.get? name t with
    | none =>
      rw [hs, runSiblings] at hok
      simp only [hname] at hok
      cases hok
    | some kind =>
      cases kind with
      | inline => exact .inline p args hname
      | block =>
        rw [hs, runSiblings] at hok
        simp only [hname] at hok
        cases hok

end Node.StandsAlone

/-! ### Well-nested siblings -/

/-- Ends of block directives, among nodes that have nothing to do with them. -/
def Pairable (t : ExtensionTable) (escape : Bool) (nodes : List Node) : Prop :=
  ∀ n ∈ nodes, (n.bracket? t).isSome ∨ n.StandsAlone t escape

theorem Pairable.single {n : Node} {nodes : List Node} (h : Pairable t escape (n :: nodes))
    (hn : n.bracket? t = none) : n.StandsAlone t escape ∧ Pairable t escape nodes := by
  obtain ⟨hfirst, hrest⟩ := List.forall_mem_cons.mp h
  refine ⟨hfirst.resolve_left ?_, hrest⟩
  rw [hn]
  exact Bool.false_ne_true

theorem Pairable.pair {opener closer : Node} {inside after : List Node}
    (h : Pairable t escape (opener :: (inside ++ closer :: after))) :
    Pairable t escape inside ∧ Pairable t escape after := by
  obtain ⟨hinside, hbehind⟩ := List.forall_mem_append.mp (List.forall_mem_cons.mp h).2
  exact ⟨hinside, (List.forall_mem_cons.mp hbehind).2⟩

theorem lowerNodes_append (nodes others : List Node) :
    lowerNodes t escape (nodes ++ others) =
      lowerNodes t escape nodes ++ lowerNodes t escape others := by
  simp only [lowerNodes_eq_map, List.map_append]

theorem lowerNodes_pair (opens : Position) (name : String) (args : List Expr) (body : List Node)
    (closes : Position) (after : List Node) :
    lowerNodes t escape (.tag opens name args :: (body ++ .endTag closes name :: after)) =
      .opening opens name args ::
        (lowerNodes t escape body ++ .closing closes name :: lowerNodes t escape after) := by
  rw [lowerNodes, lowerNodes_append, lowerNodes, lowerNode, lowerNode]

namespace Forest

/-- What is paired up within itself is passed over. -/
theorem Matched.splitAtClosing {name : String} (hname : IsBlockName t name) :
    ∀ {f : Forest}, f.Matched t → Pairable t escape f.nodes → ∀ (depth : Nat) (rest : List Sibling),
      Template.splitAtClosing name depth (lowerNodes t escape f.nodes ++ rest) =
        (Template.splitAtClosing name depth rest).map
          fun x => (lowerNodes t escape f.nodes ++ x.1, x.2)
  | .nil, _, _, depth, rest => by
    rw [nodes, lowerNodes, List.nil_append]
    exact Option.map_id'.symm
  | .single n others, ⟨hn, hothers⟩, hall, depth, rest => by
    obtain ⟨halone, hall⟩ := hall.single hn
    rw [nodes, lowerNodes, List.cons_append, splitAtClosing_whole halone.whole hname,
      hothers.splitAtClosing hname hall, Option.map_map]
    rfl
  | .pair opens other args body closes others, ⟨_, hbody, hothers⟩, hall, depth, rest => by
    obtain ⟨hinside, hafter⟩ := hall.pair
    rw [nodes, lowerNodes_pair, List.cons_append, List.append_assoc, List.cons_append,
      splitAtClosing_opening, hbody.splitAtClosing hname hinside, splitAtClosing_closing,
      hothers.splitAtClosing hname hafter, Option.map_map, Option.map_map, Option.map_map]
    simp only [Function.comp_def, List.append_assoc, List.cons_append]

/-- An opener in front of what is paired up within itself finds the end behind it. -/
theorem Matched.splitAtClosing_zero {name : String} (hname : IsBlockName t name) {f : Forest}
    (hf : f.Matched t) (hall : Pairable t escape f.nodes) (p : Position) (rest : List Sibling) :
    Template.splitAtClosing name 0 (lowerNodes t escape f.nodes ++ .closing p name :: rest) =
      some (lowerNodes t escape f.nodes, rest) := by
  rw [hf.splitAtClosing hname hall, splitAtClosing_partner, Option.map_some, List.append_nil]

/-- Siblings that are paired up are lowered along their pairs. -/
theorem Matched.runSiblings_eq : ∀ {f : Forest}, f.Matched t → Pairable t escape f.nodes →
    runSiblings t (lowerNodes t escape f.nodes) = f.lowered t escape
  | .nil, _, _ => by rw [nodes, lowerNodes, runSiblings, lowered]
  | .single n rest, ⟨hn, hrest⟩, hall => by
    obtain ⟨halone, hall⟩ := hall.single hn
    rw [nodes, lowerNodes, runSiblings_whole halone.whole, lowered, hrest.runSiblings_eq hall]
  | .pair opens name args body closes rest, ⟨hname, hbody, hrest⟩, hall => by
    obtain ⟨hinside, hafter⟩ := hall.pair
    have hsplit := hbody.splitAtClosing_zero hname hinside closes (lowerNodes t escape rest.nodes)
    rw [nodes, lowerNodes_pair, runSiblings_pair hname hsplit, hbody.runSiblings_eq hinside,
      hrest.runSiblings_eq hafter, lowered]

/-- There is only one way to pair up siblings. -/
theorem Matched.unique : ∀ {f g : Forest}, f.Matched t → g.Matched t →
    Pairable t escape f.nodes → f.nodes = g.nodes → f = g
  | .nil, .nil, _, _, _, _ => rfl
  | .single n f, .single m g, ⟨hn, hf⟩, ⟨_, hg⟩, hall, h => by
    obtain ⟨rfl, hrest⟩ := List.cons.inj h
    rw [hf.unique hg (hall.single hn).2 hrest]
  | .single n f, .pair opens name args body closes g, ⟨hn, _⟩, ⟨hname, _⟩, _, h => by
    obtain ⟨rfl, -⟩ := List.cons.inj h
    cases hn.symm.trans (bracket?_tag hname opens args)
  | .pair opens name args body closes f, .single n g, ⟨hname, _⟩, ⟨hn, _⟩, _, h => by
    obtain ⟨rfl, -⟩ := List.cons.inj h
    cases hn.symm.trans (bracket?_tag hname opens args)
  | .pair opens name args body closes f, .pair opens' name' args' body' closes' g,
      ⟨hname, hbody, hf⟩, ⟨_, hbody', hg⟩, hall, h => by
    obtain ⟨hopener, hrest⟩ := List.cons.inj h
    cases hopener
    obtain ⟨hinside, hafter⟩ := hall.pair
    have hall' : Pairable t escape body'.nodes := by
      rw [h] at hall
      exact hall.pair.1
    -- both partners are found by the same search, so what they enclose is equally long
    have hsplit := hbody.splitAtClosing_zero hname hinside closes (lowerNodes t escape f.nodes)
    have hsplit' := hbody'.splitAtClosing_zero hname hall' closes' (lowerNodes t escape g.nodes)
    have hsame := congrArg (lowerNodes t escape) hrest
    simp only [lowerNodes_append, lowerNodes, lowerNode] at hsame
    rw [hsame, hsplit'] at hsplit
    have hlength : body.nodes.length = body'.nodes.length := by
      have hbodies := congrArg (fun x => x.1.length) (Option.some.inj hsplit)
      simpa only [lowerNodes_eq_map, List.length_map] using hbodies.symm
    obtain ⟨hbodies, hbehind⟩ := List.append_inj hrest hlength
    obtain ⟨hcloser, hothers⟩ := List.cons.inj hbehind
    cases hcloser
    rw [hbody.unique hbody' hinside hbodies, hf.unique hg hafter hothers]

theorem Matched.succeeds : ∀ {f : Forest}, f.Matched t → Pairable t escape f.nodes →
    Succeeds (f.lowered t escape)
  | .nil, _, _ => .pure []
  | .single n rest, ⟨hn, hrest⟩, hall => by
    obtain ⟨halone, hall⟩ := hall.single hn
    exact halone.succeeds.bind fun _ => (hrest.succeeds hall).bind fun _ => .pure _
  | .pair opens name args body closes rest, ⟨_, hbody, hrest⟩, hall => by
    obtain ⟨hinside, hafter⟩ := hall.pair
    exact (Succeeds.notes args).bind fun _ => (hbody.succeeds hinside).bind fun _ =>
      (hrest.succeeds hafter).bind fun _ => .pure _

end Forest

/-! ### Other siblings -/

/-- On every draft, the step ends at a bracket without a partner. -/
def LeavesOpen {α : Type} (run : Lowering α) : Prop :=
  ∃ position expected found, ∀ d, run d = .error (.unbalancedBlock position expected found)

theorem LeavesOpen.throw {α : Type} (position : Position) (expected found : String) :
    LeavesOpen (throw (.unbalancedBlock position expected found) : Lowering α) :=
  ⟨position, expected, found, fun _ => rfl⟩

theorem LeavesOpen.bind {α β : Type} {run : Lowering α} (h : LeavesOpen run) (f : α → Lowering β) :
    LeavesOpen (run >>= f) := by
  obtain ⟨position, expected, found, h⟩ := h
  exact ⟨position, expected, found, fun d => bind_of_error (h d)⟩

theorem Succeeds.leavesOpen {α β : Type} {run : Lowering α} {f : α → Lowering β}
    (h : Succeeds run) (hf : ∀ a, LeavesOpen (f a)) : LeavesOpen (run >>= f) := by
  obtain ⟨a, change, h⟩ := h
  obtain ⟨position, expected, found, hf⟩ := hf a
  exact ⟨position, expected, found, fun d => (bind_of_ok (h d)).trans (hf _)⟩

theorem eq_endTag_of_lowerNode {n : Node} {p : Position} {name : String}
    (h : lowerNode t escape n = .closing p name) : n = .endTag p name := by
  cases n with
  | endTag p' name' =>
    rw [lowerNode] at h
    cases h
    rfl
  | _ =>
    rw [lowerNode] at h
    cases h

/-- Where siblings are split, the nodes are. -/
theorem exists_of_splitAtClosing {name : String} {depth : Nat} {nodes : List Node}
    {body after : List Sibling}
    (h : splitAtClosing name depth (lowerNodes t escape nodes) = some (body, after)) :
    ∃ inside p behind, nodes = inside ++ .endTag p name :: behind ∧
      body = lowerNodes t escape inside ∧ after = lowerNodes t escape behind := by
  obtain ⟨p, happend⟩ := splitAtClosing_append h
  rw [lowerNodes_eq_map] at happend
  obtain ⟨inside, others, rfl, rfl, hothers⟩ := List.map_eq_append_iff.mp happend
  obtain ⟨closer, behind, rfl, hcloser, rfl⟩ := List.map_eq_cons_iff.mp hothers
  cases eq_endTag_of_lowerNode hcloser
  exact ⟨inside, p, behind, rfl, (lowerNodes_eq_map ..).symm, (lowerNodes_eq_map ..).symm⟩

/-- The nodes can be paired up, or they are refused. -/
def Decided (t : ExtensionTable) (escape : Bool) (nodes : List Node) : Prop :=
  (∃ f : Forest, f.nodes = nodes ∧ f.Matched t) ∨
    LeavesOpen (runSiblings t (lowerNodes t escape nodes))

namespace Decided

theorem single {n : Node} (hn : n.bracket? t = none) (halone : n.StandsAlone t escape)
    {rest : List Node} (h : Decided t escape rest) : Decided t escape (n :: rest) := by
  rcases h with ⟨f, rfl, hf⟩ | hfails
  · exact .inl ⟨.single n f, rfl, hn, hf⟩
  · right
    rw [lowerNodes, runSiblings_whole halone.whole]
    exact halone.succeeds.leavesOpen fun _ => hfails.bind _

theorem pair {name : String} (hname : IsBlockName t name) {inside after : List Node}
    (hall : Pairable t escape inside) {closes : Position}
    (hsplit : splitAtClosing name 0 (lowerNodes t escape (inside ++ .endTag closes name :: after)) =
      some (lowerNodes t escape inside, lowerNodes t escape after))
    (hinside : Decided t escape inside) (hafter : Decided t escape after) (opens : Position)
    (args : List Expr) :
    Decided t escape (.tag opens name args :: (inside ++ .endTag closes name :: after)) := by
  have hruns := runSiblings_pair hname hsplit opens args
  rcases hinside with ⟨body, rfl, hbody⟩ | hfails
  · rcases hafter with ⟨rest, rfl, hrest⟩ | hfails
    · exact .inl ⟨.pair opens name args body closes rest, rfl, hname, hbody, hrest⟩
    · right
      rw [lowerNodes, lowerNode, hruns, hbody.runSiblings_eq hall]
      exact (Succeeds.notes args).leavesOpen fun _ =>
        (hbody.succeeds hall).leavesOpen fun _ => hfails.bind _
  · right
    rw [lowerNodes, lowerNode, hruns]
    exact (Succeeds.notes args).leavesOpen fun _ => hfails.bind _

theorem unclosed {name : String} (hname : IsBlockName t name) {rest : List Node}
    (hsplit : splitAtClosing name 0 (lowerNodes t escape rest) = none) (opens : Position)
    (args : List Expr) : Decided t escape (.tag opens name args :: rest) := by
  right
  rw [lowerNodes, lowerNode, runSiblings_unclosed hname hsplit]
  exact .throw ..

theorem stray {name : String} (hname : IsBlockName t name) (closes : Position)
    (rest : List Node) : Decided t escape (.endTag closes name :: rest) := by
  right
  rw [lowerNodes, lowerNode, runSiblings_stray hname]
  exact .throw ..

end Decided

theorem Pairable.decided {nodes : List Node} (h : Pairable t escape nodes) :
    Decided t escape nodes := by
  induction hlength : nodes.length using Nat.strongRecOn generalizing nodes with
  | ind length ih =>
    subst hlength
    cases nodes with
    | nil => exact .inl ⟨.nil, rfl, trivial⟩
    | cons n rest =>
      cases hn : n.bracket? t with
      | none =>
        obtain ⟨halone, hrest⟩ := h.single hn
        exact .single hn halone (ih rest.length (Nat.lt_succ_self _) hrest rfl)
      | some bracket =>
        cases bracket with
        | closes name =>
          obtain ⟨hname, p, rfl⟩ := eq_endTag_of_bracket? hn
          exact .stray hname p rest
        | opens name =>
          obtain ⟨hname, p, args, rfl⟩ := eq_tag_of_bracket? hn
          cases hsplit : splitAtClosing name 0 (lowerNodes t escape rest) with
          | none => exact .unclosed hname hsplit p args
          | some parts =>
            obtain ⟨body, behind⟩ := parts
            obtain ⟨inside, closes, after, rfl, rfl, rfl⟩ := exists_of_splitAtClosing hsplit
            obtain ⟨hinside, hafter⟩ := h.pair
            simp only [List.length_cons, List.length_append] at ih
            have hin := ih inside.length (by omega) hinside rfl
            have hout := ih after.length (by omega) hafter rfl
            exact .pair hname hinside hsplit hin hout p args

/-- Custom block directives among siblings are paired like brackets: lowering succeeds if and only
if they are well nested, and goes along the pairs of the one way to match them. -/
theorem lowering_pairs_blocks (t : ExtensionTable) (escape : Bool) (nodes : List Node)
    (h : ∀ n ∈ nodes, (n.bracket? t).isSome ∨ n.StandsAlone t escape) :
    (∀ d, (∃ x, runSiblings t (lowerNodes t escape nodes) d = .ok x) ↔
      WellNested (bracketsOf t nodes)) ∧
    (WellNested (bracketsOf t nodes) → ∃ f : Forest, (f.nodes = nodes ∧ f.Matched t) ∧
      (∀ g : Forest, g.nodes = nodes → g.Matched t → g = f) ∧
      runSiblings t (lowerNodes t escape nodes) = f.lowered t escape) ∧
    (¬ WellNested (bracketsOf t nodes) → ∃ position expected found, ∀ d,
      runSiblings t (lowerNodes t escape nodes) d =
        .error (.unbalancedBlock position expected found)) := by
  have hmatched (hnested : WellNested (bracketsOf t nodes)) :
      ∃ f : Forest, f.nodes = nodes ∧ f.Matched t :=
    hnested.exists_forest rfl
  have hrefused (hnested : ¬ WellNested (bracketsOf t nodes)) :
      LeavesOpen (runSiblings t (lowerNodes t escape nodes)) := by
    refine (Pairable.decided h).resolve_left ?_
    rintro ⟨f, rfl, hf⟩
    exact hnested hf.wellNested
  refine ⟨fun d => ⟨?_, ?_⟩, ?_, hrefused⟩
  · rintro ⟨x, hx⟩
    by_contra hnested
    obtain ⟨position, expected, found, hfails⟩ := hrefused hnested
    cases hx.symm.trans (hfails d)
  · intro hnested
    obtain ⟨f, rfl, hf⟩ := hmatched hnested
    obtain ⟨is, change, hgives⟩ := hf.succeeds h
    exact ⟨_, (congrFun (hf.runSiblings_eq h) d).trans (hgives d)⟩
  · intro hnested
    obtain ⟨f, rfl, hf⟩ := hmatched hnested
    refine ⟨f, ⟨rfl, hf⟩, fun g hnodes hg => ?_, hf.runSiblings_eq h⟩
    exact (hf.unique hg h hnodes.symm).symm

def panelTable : ExtensionTable :=
  [("now", .inline), ("panel", .block), ("row", .block)]

/-- A panel with a row in it, and another panel behind it. -/
def panelNodes : List Node :=
  [.tag .start "panel" [], .text .start "a", .tag .start "row" [], .tag .start "now" [],
    .endTag .start "row", .endTag .start "panel", .tag .start "panel" [], .endTag .start "panel"]

theorem lowering_pairs_blocks_of_panels :
    ∃ x, runSiblings panelTable (lowerNodes panelTable true panelNodes) Draft.empty = .ok x := by
  have hall : ∀ n ∈ panelNodes,
      (n.bracket? panelTable).isSome ∨ n.StandsAlone panelTable true := by
    have htext : (Node.text .start "a").StandsAlone panelTable true :=
      ⟨exists_ok_of_isSome (by decide +kernel), rfl⟩
    have hnow : (Node.tag .start "now" []).StandsAlone panelTable true :=
      ⟨exists_ok_of_isSome (by decide +kernel), rfl⟩
    intro n hn
    simp only [panelNodes, List.mem_cons, List.not_mem_nil, or_false] at hn
    rcases hn with rfl | rfl | rfl | rfl | rfl | rfl | rfl | rfl
    · exact .inl (by decide +kernel)
    · exact .inr htext
    · exact .inl (by decide +kernel)
    · exact .inr hnow
    all_goals exact .inl (by decide +kernel)
  have hnested : WellNested (bracketsOf panelTable panelNodes) :=
    .enclose "panel" (.enclose "row" .nil .nil) (.enclose "panel" .nil .nil)
  exact ((lowering_pairs_blocks panelTable true panelNodes hall).1 Draft.empty).mpr hnested

end

end EmbeddedLang.Template
