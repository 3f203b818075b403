import EmbeddedLang.Proofs.Template.Drafting
import EmbeddedLang.Proofs.Template.Texts
import Mathlib.Data.List.Perm.Basic

/-!
Which macros lowering declares, and with what text.

A macro is declared when its body is lowered, after the macros inside it. Whether its name is taken
is asked before that.
-/

namespace EmbeddedLang.Template

/-! ### Texts of instructions -/

def Instruction.literal? : Instruction → Option String
  | .literal s => some s
  | _ => none

/-- All text that instructions hold. -/
def writtenText (is : List Instruction) : String :=
  String.join ((walkInstructions is).filterMap Instruction.literal?)

theorem writtenText_cons (i : Instruction) (is : List Instruction) :
    writtenText (i :: is) = writtenText [i] ++ writtenText is := by
  simp only [writtenText, walkInstructions, List.filterMap_append, String.join_append,
    List.append_nil]

theorem writtenText_singleton (i : Instruction) :
    writtenText [i] = String.join (i.walk.filterMap Instruction.literal?) := by
  rw [writtenText, walkInstructions, walkInstructions, List.append_nil]

theorem writtenText_literal (s : String) : writtenText [.literal s] = s :=
  (writtenText_singleton _).trans String.empty_append

theorem writtenText_join (is js : List Instruction) :
    writtenText (Instruction.join is js) = writtenText is ++ writtenText js := by
  fun_induction Instruction.join is js with
  | case1 js => exact String.empty_append.symm
  | case2 a b js =>
    rw [writtenText_cons, writtenText_cons (.literal b), writtenText_literal, writtenText_literal,
      writtenText_literal, String.append_assoc]
  | case3 i is js _ ih => rw [writtenText_cons, ih, writtenText_cons i is, String.append_assoc]

/-! ### Texts of trees -/

mutual

/-- The text of a node where it stands. The body of a macro does not stand there. -/
def Node.ownText : Node → String
  | .text _ s => s
  | .choice _ branches otherwise => textOfBranches branches ++ textOfOptional otherwise
  | .loop _ _ _ _ _ body otherwise => textOfNodes body ++ textOfOptional otherwise
  | .block _ _ body | .fragment _ _ _ body | .autoescape _ _ body => textOfNodes body
  | .definition .. | .echo .. | .assignments .. | .parent .. | .inclusion .. | .evaluation ..
  | .leave _ | .proceed _ | .tag .. | .endTag .. => ""

def textOfNodes : List Node → String
  | [] => ""
  | n :: rest => n.ownText ++ textOfNodes rest

def textOfOptional : Option (List Node) → String
  | none => ""
  | some body => textOfNodes body

def textOfBranches : List Branch → String
  | [] => ""
  | b :: rest => b.ownText ++ textOfBranches rest

def Branch.ownText : Branch → String
  | ⟨_, body⟩ => textOfNodes body

end

theorem textOfNodes_append (ns ns' : List Node) :
    textOfNodes (ns ++ ns') = textOfNodes ns ++ textOfNodes ns' := by
  induction ns with
  | nil => exact String.empty_append.symm
  | cons n rest ih => rw [List.cons_append, textOfNodes, textOfNodes, ih, String.append_assoc]

/-! ### Definitions -/

def Node.isDefinition : Node → Bool
  | .definition .. => true
  | _ => false

def Node.defines (name : String) : Node → Bool
  | .definition _ other _ _ => other == name
  | _ => false

/-- The definition of a macro has one of the same name inside it. -/
def Node.redefines : Node → Bool
  | .definition _ name _ body => (walkNodes body).any (Node.defines name)
  | _ => false

/-- The definitions in a node, itself among them. -/
def Node.definitions (n : Node) : List Node :=
  n.walk.filter Node.isDefinition

def definitionsOf (nodes : List Node) : List Node :=
  (walkNodes nodes).filter Node.isDefinition

def definitionsOfOptional (nodes : Option (List Node)) : List Node :=
  (walkOptional nodes).filter Node.isDefinition

def definitionsOfBranches (branches : List Branch) : List Node :=
  (walkBranches branches).filter Node.isDefinition

theorem definitionsOf_cons (n : Node) (ns : List Node) :
    definitionsOf (n :: ns) = n.definitions ++ definitionsOf ns :=
  List.filter_append _ _

theorem definitionsOf_append (ns ns' : List Node) :
    definitionsOf (ns ++ ns') = definitionsOf ns ++ definitionsOf ns' := by
  rw [definitionsOf, walkNodes_append, List.filter_append, definitionsOf, definitionsOf]

def Node.texts (n : Node) : List String :=
  n.walk.filterMap Node.text?

def textsOfOptional (nodes : Option (List Node)) : List String :=
  (walkOptional nodes).filterMap Node.text?

def textsOfBranches (branches : List Branch) : List String :=
  (walkBranches branches).filterMap Node.text?

theorem Node.texts_choice (p : Position) (branches : List Branch)
    (otherwise : Option (List Node)) :
    (Node.choice p branches otherwise).texts =
      textsOfBranches branches ++ textsOfOptional otherwise :=
  List.filterMap_append

theorem Node.texts_loop (p : Position) (key : Option String) (value : String) (iterable : Expr)
    (filter : Option Expr) (body : List Node) (otherwise : Option (List Node)) :
    (Node.loop p key value iterable filter body otherwise).texts =
      textsOf body ++ textsOfOptional otherwise :=
  List.filterMap_append

mutual

/-- All text stands where it is written if there are no macros. -/
theorem Node.ownText_eq : (n : Node) → n.definitions = [] → n.ownText = String.join n.texts
  | .text .., _ => String.empty_append.symm
  | .choice p branches otherwise, h => by
    have hsplit : definitionsOfBranches branches ++ definitionsOfOptional otherwise = [] :=
      List.filter_append _ _ ▸ h
    obtain ⟨hbranches, hotherwise⟩ := List.append_eq_nil_iff.mp hsplit
    rw [Node.texts_choice, String.join_append, Node.ownText, textOfBranches_eq branches hbranches,
      textOfOptional_eq otherwise hotherwise]
  | .loop p key value iterable filter body otherwise, h => by
    have hsplit : definitionsOf body ++ definitionsOfOptional otherwise = [] :=
      List.filter_append _ _ ▸ h
    obtain ⟨hbody, hotherwise⟩ := List.append_eq_nil_iff.mp hsplit
    rw [Node.texts_loop, String.join_append, Node.ownText, textOfNodes_eq body hbody,
      textOfOptional_eq otherwise hotherwise]
  | .block _ _ body, h | .fragment _ _ _ body, h | .autoescape _ _ body, h => textOfNodes_eq body h
  | .echo .., _ | .assignments .., _ | .parent .., _ | .inclusion .., _ | .evaluation .., _
  | .leave _, _ | .proceed _, _ | .tag .., _ | .endTag .., _ => rfl

theorem textOfNodes_eq : (nodes : List Node) → definitionsOf nodes = [] →
    textOfNodes nodes = String.join (textsOf nodes)
  | [], _ => rfl
  | n :: rest, h => by
    rw [definitionsOf_cons] at h
    obtain ⟨hfirst, hrest⟩ := List.append_eq_nil_iff.mp h
    have htexts : textsOf (n :: rest) = n.texts ++ textsOf rest := List.filterMap_append
    rw [htexts, String.join_append, textOfNodes, n.ownText_eq hfirst, textOfNodes_eq rest hrest]

theorem textOfOptional_eq : (body : Option (List Node)) → definitionsOfOptional body = [] →
    textOfOptional body = String.join (textsOfOptional body)
  | none, _ => rfl
  | some body, h => textOfNodes_eq body h

theorem textOfBranches_eq : (branches : List Branch) → definitionsOfBranches branches = [] →
    textOfBranches branches = String.join (textsOfBranches branches)
  | [], _ => rfl
  | ⟨condition, body⟩ :: rest, h => by
    have hsplit : definitionsOf body ++ definitionsOfBranches rest = [] :=
      List.filter_append _ _ ▸ h
    obtain ⟨hbody, hrest⟩ := List.append_eq_nil_iff.mp hsplit
    have htexts : textsOfBranches (⟨condition, body⟩ :: rest) =
        textsOf body ++ textsOfBranches rest := List.filterMap_append
    rw [htexts, String.join_append, textOfBranches, Branch.ownText, textOfNodes_eq body hbody,
      textOfBranches_eq rest hrest]

end

/-- The macro that a definition becomes. -/
def Compiles (n : Node) (m : String × Definition) : Prop :=
  ∃ p body, n = .definition p m.1 m.2.params body ∧ writtenText m.2.body = textOfNodes body

theorem exists_of_mem_compiled {ns : List Node} {made : List (String × Definition)}
    (h : List.Forall₂ Compiles ns made) {m : String × Definition} (hm : m ∈ made) :
    ∃ n ∈ ns, Compiles n m := by
  induction h with
  | nil => cases hm
  | cons hn _ ih =>
    rcases List.mem_cons.mp hm with rfl | hm
    · exact ⟨_, List.mem_cons_self, hn⟩
    · obtain ⟨n, hmem, hc⟩ := ih hm
      exact ⟨n, List.mem_cons_of_mem _ hmem, hc⟩

/-- From the macros `d` to the macros `d'`, what `ns` become has been put: with new names, if none
of these defines a macro that it has inside it. -/
structure Puts (ns : List Node) (made : List (String × Definition)) (d d' : Dictionary Definition) :
    Prop where
  compiled : ∃ ns', ns'.Perm ns ∧ List.Forall₂ Compiles ns' made
  macros : d' = Dictionary.extend d made
  fresh : (∀ n ∈ ns, n.redefines = false) →
    (made.map (·.1)).Nodup ∧ ∀ m ∈ made, Dictionary.has m.1 d = false

namespace Puts

variable {ns ns' : List Node} {made made' : List (String × Definition)}
  {d d' d'' : Dictionary Definition}

theorem nil : Puts [] [] d d where
  compiled := ⟨[], .nil, .nil⟩
  macros := rfl
  fresh _ := ⟨List.nodup_nil, nofun⟩

theorem trans (h : Puts ns made d d') (h' : Puts ns' made' d' d'') :
    Puts (ns ++ ns') (made ++ made') d d'' where
  compiled := by
    obtain ⟨ms, hperm, hms⟩ := h.compiled
    obtain ⟨ms', hperm', hms'⟩ := h'.compiled
    exact ⟨ms ++ ms', hperm.append hperm', List.rel_append hms hms'⟩
  macros := by
    rw [h'.macros, h.macros, Dictionary.extend, Dictionary.extend, Dictionary.extend,
      List.foldl_append]
  fresh hns := by
    obtain ⟨hfirst, hrest⟩ := List.forall_mem_append.mp hns
    obtain ⟨hnodup, hnew⟩ := h.fresh hfirst
    obtain ⟨hnodup', hnew'⟩ := h'.fresh hrest
    -- what is put later is new to what was put before
    have hlater : ∀ m ∈ made', made.any (·.1 == m.1) = false ∧ Dictionary.has m.1 d = false := by
      intro m hm
      have hhas := hnew' m hm
      rw [h.macros, Dictionary.has_extend] at hhas
      exact Bool.or_eq_false_iff.mp hhas
    refine ⟨?_, List.forall_mem_append.mpr ⟨hnew, fun m hm => (hlater m hm).2⟩⟩
    rw [List.map_append]
    refine List.nodup_append.mpr ⟨hnodup, hnodup', ?_⟩
    rintro _ ha _ hb rfl
    obtain ⟨m, hm, hname⟩ := List.mem_map.mp ha
    obtain ⟨m', hm', hname'⟩ := List.mem_map.mp hb
    have hne := List.any_eq_false.mp (hlater m' hm').1 m hm
    exact hne (beq_iff_eq.mpr (hname.trans hname'.symm))

/-- A definition is put after those inside it. -/
theorem define {name : String} {params : List Param} {body : List Node} {is : List Instruction}
    (h : Puts (definitionsOf body) made d d') (hnew : Dictionary.has name d = false)
    (htext : writtenText is = textOfNodes body) (p : Position) :
    Puts (.definition p name params body :: definitionsOf body) (made ++ [(name, ⟨params, is⟩)]) d
      (Dictionary.put name ⟨params, is⟩ d') where
  compiled := by
    obtain ⟨ns, hperm, hns⟩ := h.compiled
    have hcompiles : Compiles (.definition p name params body) (name, ⟨params, is⟩) :=
      ⟨p, body, rfl, htext⟩
    refine ⟨ns ++ [.definition p name params body], ?_, List.rel_append hns (.cons hcompiles .nil)⟩
    exact (List.perm_append_singleton _ _).trans (hperm.cons _)
  macros := by
    rw [h.macros, Dictionary.extend, Dictionary.extend, List.foldl_append]
    rfl
  fresh hns := by
    obtain ⟨hname, hbody⟩ := List.forall_mem_cons.mp hns
    obtain ⟨hnodup, hmade⟩ := h.fresh hbody
    have hinside : ∀ m ∈ made, m.1 ≠ name := by
      rintro m hm rfl
      obtain ⟨ns, hperm, hcompiled⟩ := h.compiled
      obtain ⟨n, hn, _, _, rfl, _⟩ := exists_of_mem_compiled hcompiled hm
      have hwalk := (List.mem_filter.mp (hperm.mem_iff.mp hn)).1
      exact List.any_eq_false.mp hname _ hwalk (beq_self_eq_true _)
    refine ⟨?_, List.forall_mem_append.mpr ⟨hmade, List.forall_mem_singleton.mpr hnew⟩⟩
    rw [List.map_append]
    refine List.nodup_append.mpr ⟨hnodup, List.pairwise_singleton _ _, ?_⟩
    rintro _ ha _ hb rfl
    obtain ⟨m, hm, hm'⟩ := List.mem_map.mp ha
    exact hinside m hm (hm'.trans (List.mem_singleton.mp hb))

end Puts

/-! ### Steps of lowering -/

variable {α β : Type} {ns ns' : List Node} {run : Lowering α} {post : α → Prop} {next : β → Prop}

/-- The step declares what `ns` become, and its result satisfies `post`. -/
structure Declares (ns : List Node) (run : Lowering α) (post : α → Prop) : Prop where
  of_ok : ∀ d a d', run d = .ok (a, d') → post a ∧ ∃ made, Puts ns made d.macros d'.macros

namespace Declares

theorem pure {a : α} (h : post a) : Declares [] (Pure.pure a) post where
  of_ok d b d' hb := by
    cases hb
    exact ⟨h, [], .nil⟩

theorem throw (e : CompileError) : Declares ns (throw e : Lowering α) post where
  of_ok d b d' hb := by cases hb

theorem bind {f : α → Lowering β} (h : Declares ns run post)
    (hf : ∀ a, post a → Declares ns' (f a) next) : Declares (ns ++ ns') (run >>= f) next where
  of_ok d b d' hb := by
    obtain ⟨⟨a, d₁⟩, ha, hb⟩ := exists_of_bind hb
    obtain ⟨hpost, made, hmade⟩ := h.of_ok d a d₁ ha
    obtain ⟨hnext, made', hmade'⟩ := (hf a hpost).of_ok d₁ b d' hb
    exact ⟨hnext, _, hmade.trans hmade'⟩

theorem imp {weaker : α → Prop} (h : Declares ns run post) (hp : ∀ a, post a → weaker a) :
    Declares ns run weaker where
  of_ok d a d' ha := (h.of_ok d a d' ha).imp_left (hp a)

/-- A step that declares nothing. -/
theorem after {f : α → Lowering β} (h : Declares [] run post)
    (hf : ∀ a, post a → Declares ns (f a) next) : Declares ns (run >>= f) next :=
  h.bind hf

theorem bind_pure {f : α → β} (h : Declares ns run post) (hf : ∀ a, post a → next (f a)) :
    Declares ns (run >>= fun a => Pure.pure (f a)) next := by
  have hbind := h.bind fun a ha => pure (hf a ha)
  rwa [List.append_nil] at hbind

theorem update {f : Draft → Draft} (h : ∀ d, (f d).macros = d.macros) :
    Declares [] (modify f : Lowering Unit) fun _ => True where
  of_ok d a d' ha := by
    cases ha
    exact ⟨trivial, [], h d ▸ .nil⟩

theorem note (e : Expr) : Declares [] (Template.note e) fun _ => True :=
  update fun _ => rfl

theorem notes (es : List Expr) : Declares [] (es.forM Template.note) fun _ => True := by
  induction es with
  | nil => exact pure trivial
  | cons e rest ih => exact (note e).after fun _ _ => ih

theorem noteInclude (e : Expr) :
    Declares [] (modify fun d => d.noteInclude e : Lowering Unit) fun _ => True := by
  apply update
  intro d
  unfold Draft.noteInclude
  split <;> rfl

theorem assignments (as : List Assignment) :
    Declares [] (as.mapM lowerAssignment) (writtenText · = "") := by
  induction as with
  | nil => exact pure rfl
  | cons a rest ih =>
    rw [List.mapM_cons]
    have ha : Declares [] (lowerAssignment a) (writtenText [·] = "") :=
      (note a.value).after fun _ _ => pure rfl
    refine ha.after fun i hi => ih.after fun is his => pure ?_
    rw [writtenText_cons, hi, his, String.empty_append]

theorem define {body : List Node} {run : Lowering (List Instruction)}
    (h : Declares (definitionsOf body) run (writtenText · = textOfNodes body)) (p : Position)
    (name : String) (params : List Param) :
    Declares (.definition p name params body :: definitionsOf body)
      (Template.define p name params run) (· = []) where
  of_ok d a d' ha := by
    unfold Template.define at ha
    obtain ⟨⟨_, d₁⟩, hget, ha⟩ := exists_of_bind ha
    cases hget
    split at ha
    · obtain ⟨_, hthrow, _⟩ := exists_of_bind ha
      cases hthrow
    · rename_i hnew
      obtain ⟨⟨is, d₂⟩, hrun, ha⟩ := exists_of_bind ha
      cases ha
      obtain ⟨htext, made, hmade⟩ := h.of_ok d is d₂ hrun
      exact ⟨rfl, _, hmade.define (Bool.eq_false_iff.mpr hnew) htext p⟩

end Declares

/-! ### Siblings -/

def Sibling.Declares (n : Node) : Sibling → Prop
  | .plain run => Template.Declares n.definitions run (writtenText · = n.ownText)
  | .opening .. | .closing .. => n.definitions = [] ∧ n.ownText = ""

theorem Declares.siblings (t : ExtensionTable) (f : Node → Sibling) (ns : List Node)
    (h : ∀ n ∈ ns, (f n).Declares n) :
    Declares (definitionsOf ns) (runSiblings t (ns.map f)) (writtenText · = textOfNodes ns) := by
  generalize hss : ns.map f = siblings
  fun_induction runSiblings t siblings generalizing ns with
  | case1 =>
    cases List.map_eq_nil_iff.mp hss
    exact .pure rfl
  | case2 run rest ih =>
    obtain ⟨n, ns, rfl, hn, hrest⟩ := List.map_eq_cons_iff.mp hss
    obtain ⟨hfirst, hns⟩ := List.forall_mem_cons.mp h
    rw [hn] at hfirst
    rw [definitionsOf_cons]
    have hfirst : Declares n.definitions run (writtenText · = n.ownText) := hfirst
    refine hfirst.bind fun is his => (ih ns hns hrest).bind_pure fun js hjs => ?_
    rw [writtenText_join, his, hjs, textOfNodes]
  | case3 | case4 | case6 => exact .throw _
  | case5 position name args rest _ ih =>
    obtain ⟨n, ns, rfl, hn, hrest⟩ := List.map_eq_cons_iff.mp hss
    obtain ⟨hfirst, hns⟩ := List.forall_mem_cons.mp h
    rw [hn] at hfirst
    obtain ⟨hnone, hempty⟩ := hfirst
    rw [definitionsOf_cons, hnone, List.nil_append]
    refine (Declares.notes args).after fun _ _ => (ih ns hns hrest).bind_pure fun js hjs => ?_
    rw [writtenText_join, hjs, textOfNodes, hempty]
    rfl
  | case7 position name args rest _ body after split ihbody ihafter =>
    obtain ⟨position', rfl⟩ := splitAtClosing_append split
    obtain ⟨n, ns, rfl, hn, hrest⟩ := List.map_eq_cons_iff.mp hss
    obtain ⟨ns, ns', rfl, hbody, hrest⟩ := List.map_eq_append_iff.mp hrest
    obtain ⟨n', ns', rfl, hn', hafter⟩ := List.map_eq_cons_iff.mp hrest
    obtain ⟨hfirst, hns⟩ := List.forall_mem_cons.mp h
    obtain ⟨hns, hclosing⟩ := List.forall_mem_append.mp hns
    obtain ⟨hlast, hns'⟩ := List.forall_mem_cons.mp hclosing
    rw [hn] at hfirst
    rw [hn'] at hlast
    rw [definitionsOf_cons, hfirst.1, List.nil_append, definitionsOf_append, definitionsOf_cons,
      hlast.1, List.nil_append]
    refine (Declares.notes args).after fun _ _ => (ihbody ns hns hbody).bind fun is his =>
      (ihafter ns' hns' hafter).bind_pure fun js hjs => ?_
    have hextension : writtenText [.extension name args (some is)] = writtenText is :=
      writtenText_singleton _
    rw [writtenText_join, hextension, his, hjs, textOfNodes, hfirst.2, String.empty_append,
      textOfNodes_append, textOfNodes, hlast.2, String.empty_append]

end EmbeddedLang.Template
