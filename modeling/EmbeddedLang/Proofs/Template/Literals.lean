import EmbeddedLang.Proofs.Returns
import EmbeddedLang.Proofs.Template.Declaring

/-!
Compiling keeps the text of a template, but for macros that are defined inside macros of their name.
-/

namespace EmbeddedLang.Template

theorem lowerNodes_eq_map (t : ExtensionTable) (escape : Bool) (ns : List Node) :
    lowerNodes t escape ns = ns.map (lowerNode t escape) := by
  induction ns with
  | nil => rfl
  | cons n rest ih => rw [lowerNodes, ih, List.map_cons]

/-- The text of the arms of a choice. -/
def textOfArms (arms : List Arm) : String :=
  String.join ((walkArms arms).filterMap Instruction.literal?)

theorem textOfArms_cons (condition : Expr) (body : List Instruction) (arms : List Arm) :
    textOfArms (⟨condition, body⟩ :: arms) = writtenText body ++ textOfArms arms := by
  rw [textOfArms, walkArms, Arm.walk, List.filterMap_append, String.join_append, writtenText,
    textOfArms]

theorem writtenText_choice (arms : List Arm) (otherwise : List Instruction) :
    writtenText [.choice arms otherwise] = textOfArms arms ++ writtenText otherwise := by
  rw [writtenText_singleton, Instruction.walk, List.filterMap_cons_none rfl, List.filterMap_append,
    String.join_append, textOfArms, writtenText]

theorem writtenText_loop (key : Option String) (value : String) (iterable : Expr)
    (filter : Option Expr) (body otherwise : List Instruction) :
    writtenText [.loop key value iterable filter body otherwise] =
      writtenText body ++ writtenText otherwise := by
  rw [writtenText_singleton, Instruction.walk, List.filterMap_cons_none rfl, List.filterMap_append,
    String.join_append, writtenText, writtenText]

theorem writtenText_literalText (s : String) : writtenText (literalText s) = s := by
  unfold literalText
  split
  · rename_i h
    exact (String.isEmpty_iff.mp h).symm
  · exact writtenText_literal s

mutual

theorem declares_node (t : ExtensionTable) (escape : Bool) :
    (n : Node) → (lowerNode t escape n).Declares n
  | .text _ s => .pure (writtenText_literalText s)
  | .echo _ e _ => (Declares.note e).after fun _ _ => .pure rfl
  | .choice p branches otherwise => by
    have hsplit : (Node.choice p branches otherwise).definitions =
        definitionsOfBranches branches ++ definitionsOfOptional otherwise := List.filter_append _ _
    unfold lowerNode Sibling.Declares
    rw [hsplit]
    refine (declares_branches t escape branches).bind fun arms harms =>
      (declares_optional t escape otherwise).bind_pure fun is his => ?_
    rw [writtenText_choice, harms, his]
    rfl
  | .loop p key value iterable filter body otherwise => by
    have hsplit : (Node.loop p key value iterable filter body otherwise).definitions =
        definitionsOf body ++ definitionsOfOptional otherwise := List.filter_append _ _
    unfold lowerNode Sibling.Declares
    rw [hsplit]
    refine (Declares.note iterable).after fun _ _ => (Declares.notes filter.toList).after
      fun _ _ => (declares_nodes t escape body).bind fun is his =>
        (declares_optional t escape otherwise).bind_pure fun js hjs => ?_
    rw [writtenText_loop, his, hjs]
    rfl
  | .assignments _ as => Declares.assignments as
  | .block _ name body => (declares_nodes t escape body).bind_pure fun is his =>
    (writtenText_singleton _).trans his
  | .parent _ template =>
    (Declares.update (f := fun d => { d with parent := some template }) fun _ => rfl).after
      fun _ _ => .pure rfl
  | .inclusion _ template context => (Declares.note template).after fun _ _ =>
    (Declares.noteInclude template).after fun _ _ =>
      (Declares.notes context.toList).after fun _ _ => .pure rfl
  | .definition p name params body =>
    ((declares_nodes t escape body).define p name params).imp fun is his => his ▸ rfl
  | .fragment _ key lifetime body => (Declares.note key).after fun _ _ =>
    (declares_nodes t escape body).bind_pure fun is his => (writtenText_singleton _).trans his
  | .autoescape _ enabled body => declares_nodes t enabled body
  | .evaluation _ e => (Declares.note e).after fun _ _ => .pure rfl
  | .leave _ | .proceed _ => .pure rfl
  | .tag .. | .endTag .. => ⟨rfl, rfl⟩

theorem declares_all (t : ExtensionTable) (escape : Bool) :
    (ns : List Node) → ∀ n ∈ ns, (lowerNode t escape n).Declares n
  | [] => nofun
  | n :: rest => List.forall_mem_cons.mpr ⟨declares_node t escape n, declares_all t escape rest⟩

theorem declares_nodes (t : ExtensionTable) (escape : Bool) (ns : List Node) :
    Declares (definitionsOf ns) (runSiblings t (lowerNodes t escape ns))
      (writtenText · = textOfNodes ns) := by
  rw [lowerNodes_eq_map]
  exact .siblings t _ ns (declares_all t escape ns)

theorem declares_optional (t : ExtensionTable) (escape : Bool) : (body : Option (List Node)) →
    Declares (definitionsOfOptional body) (lowerOptional t escape body)
      (writtenText · = textOfOptional body)
  | none => .pure rfl
  | some body => declares_nodes t escape body

theorem declares_branches (t : ExtensionTable) (escape : Bool) : (bs : List Branch) →
    Declares (definitionsOfBranches bs) (lowerBranches t escape bs)
      (textOfArms · = textOfBranches bs)
  | [] => .pure rfl
  | ⟨condition, body⟩ :: rest => by
    have hsplit : definitionsOfBranches (⟨condition, body⟩ :: rest) =
        definitionsOf body ++ definitionsOfBranches rest := List.filter_append _ _
    have hbranch : Declares (definitionsOf body) (lowerBranch t escape ⟨condition, body⟩)
        fun arm => ∃ is, arm = ⟨condition, is⟩ ∧ writtenText is = textOfNodes body :=
      (Declares.note condition).after fun _ _ =>
        (declares_nodes t escape body).bind_pure fun is his => ⟨is, rfl, his⟩
    rw [hsplit, lowerBranches]
    refine hbranch.bind fun arm harm => (declares_branches t escape rest).bind_pure
      fun arms harms => ?_
    obtain ⟨is, rfl, his⟩ := harm
    rw [textOfArms_cons, his, harms]
    rfl

end

/-! ### Templates -/

theorem Declares.of_lower {o : Options} {nodes : List Node} {t : CompiledTemplate}
    (h : lower o nodes = .ok t) : writtenText t.instructions = textOfNodes nodes ∧
      ∃ made, Puts (definitionsOf nodes) made Dictionary.empty t.macros := by
  obtain ⟨d, hd, hmacros, -⟩ := exists_draft_of_lower h
  rw [hmacros]
  exact (declares_nodes o.extensions o.autoescape nodes).of_ok Draft.empty _ d hd

theorem Puts.exists_of_mem {ns : List Node} {made : List (String × Definition)}
    {d : Dictionary Definition} (h : Puts ns made Dictionary.empty d) {m : String × Definition}
    (hm : m ∈ d) : ∃ n ∈ ns, Compiles n m := by
  obtain ⟨ns', hperm, hcompiled⟩ := h.compiled
  have hmade : m ∈ made := by
    rw [h.macros] at hm
    exact Dictionary.mem_of_mem_ofList hm
  obtain ⟨n, hn, hc⟩ := exists_of_mem_compiled hcompiled hmade
  exact ⟨n, hperm.mem_iff.mp hn, hc⟩

theorem Puts.exists_perm {ns : List Node} {made : List (String × Definition)}
    {d : Dictionary Definition} (h : Puts ns made Dictionary.empty d)
    (hns : ∀ n ∈ ns, n.redefines = false) :
    ∃ ns', ns'.Perm ns ∧ List.Forall₂ Compiles ns' d := by
  obtain ⟨ns', hperm, hcompiled⟩ := h.compiled
  obtain ⟨hnodup, hnew⟩ := h.fresh hns
  have hmade : made.Perm d := by
    rw [h.macros]
    exact (Dictionary.perm_extend hnodup hnew).symm
  have hmoved : Relation.Comp (List.Forall₂ Compiles) List.Perm ns' d := ⟨made, hcompiled, hmade⟩
  rw [List.forall₂_comp_perm_eq_perm_comp_forall₂] at hmoved
  obtain ⟨ns'', hmoved, hcompiled⟩ := hmoved
  exact ⟨ns'', hmoved.symm.trans hperm, hcompiled⟩

/-- Parsing keeps every text in its place. Lowering keeps that of the template and that of every
macro it declares, and it declares all the macros there are, unless one has another of its name
inside it. -/
theorem texts_kept (source : String) (o : Options) (nodes : List Node) :
    (parse source = .ok nodes → textsOf nodes = rawTexts (scan table source).tokens) ∧
    ∀ t, lower o nodes = .ok t →
      writtenText t.instructions = textOfNodes nodes ∧
      (∀ m ∈ t.macros, ∃ n ∈ definitionsOf nodes, Compiles n m) ∧
      ((∀ n ∈ definitionsOf nodes, n.redefines = false) →
        ∃ ns, ns.Perm (definitionsOf nodes) ∧ List.Forall₂ Compiles ns t.macros) := by
  refine ⟨parse_texts, ?_⟩
  intro t h
  obtain ⟨htext, made, hmade⟩ := Declares.of_lower h
  exact ⟨htext, fun m hm => hmade.exists_of_mem hm, hmade.exists_perm⟩

/-- A macro in one arm of a choice, with a loop for its body. -/
def conditional : String :=
  "a\x7b% if x %\x7db\x7b% macro m(n) %\x7dc\x7b% for y in n %\x7dd\x7b% else %\x7de"
    ++ "\x7b% endfor %\x7d\x7b% endmacro %\x7d\x7b% else %\x7df\x7b% endif %\x7d"

theorem texts_kept_conditional :
    ∃ nodes t, parse conditional = .ok nodes ∧ lower {} nodes = .ok t ∧
      textsOf nodes = ["a", "b", "c", "d", "e", "f"] ∧ writtenText t.instructions = "abf" ∧
      ∃ ns, ns.Perm (definitionsOf nodes) ∧ List.Forall₂ Compiles ns t.macros := by
  have hs : (parse conditional).toOption.any fun nodes => (lower {} nodes).toOption.any fun _ =>
      textOfNodes nodes == "abf" && (definitionsOf nodes).all fun n => !n.redefines := by
    decide +kernel
  obtain ⟨nodes, hnodes, hs⟩ := exists_ok_of_any hs
  obtain ⟨t, ht, hs⟩ := exists_ok_of_any hs
  obtain ⟨htext, hnew⟩ := Bool.and_eq_true_iff.mp hs
  have hnew : ∀ n ∈ definitionsOf nodes, n.redefines = false := by
    intro n hn
    exact Bool.not_eq_true' _ ▸ List.all_eq_true.mp hnew n hn
  obtain ⟨htexts, hlowered⟩ := texts_kept conditional {} nodes
  obtain ⟨hmain, -, hmacros⟩ := hlowered t ht
  have hraw : rawTexts (scan table conditional).tokens = ["a", "b", "c", "d", "e", "f"] := by
    decide +kernel
  exact ⟨nodes, t, hnodes, ht, (htexts hnodes).trans hraw, hmain.trans (eq_of_beq htext),
    hmacros hnew⟩

def Node.macroText : Node → String
  | .definition _ _ _ body => textOfNodes body
  | _ => ""

/-- A macro in the body of another of its name. -/
def shadowed : String :=
  "\x7b% macro m() %\x7da\x7b% macro m() %\x7db\x7b% endmacro %\x7d\x7b% endmacro %\x7d"

/-- The text of the macro inside is in no instruction. -/
theorem shadowed_text_lost :
    ∃ nodes t, parse shadowed = .ok nodes ∧ lower {} nodes = .ok t ∧
      textsOf nodes = ["a", "b"] ∧ writtenText t.instructions = "" ∧
      t.macros.map (fun m => (m.1, writtenText m.2.body)) = [("m", "a")] ∧
      ∃ n ∈ definitionsOf nodes, ∀ m ∈ t.macros, ¬ Compiles n m := by
  have hs : (parse shadowed).toOption.any fun nodes => (lower {} nodes).toOption.any fun t =>
      textsOf nodes == ["a", "b"] && (writtenText t.instructions == "" &&
        (t.macros.map (fun m => (m.1, writtenText m.2.body)) == [("m", "a")] &&
          (definitionsOf nodes).any (·.macroText == "b"))) := by
    decide +kernel
  obtain ⟨nodes, hnodes, hs⟩ := exists_ok_of_any hs
  obtain ⟨t, ht, hs⟩ := exists_ok_of_any hs
  obtain ⟨htexts, hs⟩ := Bool.and_eq_true_iff.mp hs
  obtain ⟨hmain, hs⟩ := Bool.and_eq_true_iff.mp hs
  obtain ⟨hmacros, hs⟩ := Bool.and_eq_true_iff.mp hs
  have hmacros := eq_of_beq hmacros
  refine ⟨nodes, t, hnodes, ht, eq_of_beq htexts, eq_of_beq hmain, hmacros, ?_⟩
  obtain ⟨n, hn, hb⟩ := List.any_eq_true.mp hs
  refine ⟨n, hn, ?_⟩
  rintro m hm ⟨p, body, rfl, htext⟩
  have hbody : textOfNodes body = "b" := eq_of_beq hb
  have hmem : (m.1, writtenText m.2.body) ∈ [("m", "a")] :=
    hmacros ▸ List.mem_map.mpr ⟨m, hm, rfl⟩
  have ha : writtenText m.2.body = "a" := congrArg Prod.snd (List.mem_singleton.mp hmem)
  exact absurd (ha.symm.trans (htext.trans hbody)) (by decide)

end EmbeddedLang.Template
