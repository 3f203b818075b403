import EmbeddedLang.Proofs.Lexical.Tiling
import EmbeddedLang.Proofs.Parser.Soundness
import EmbeddedLang.Proofs.Query.Written
import EmbeddedLang.Proofs.Template.Written

/-!
Positions of expressions are in the order of the source.
-/

namespace EmbeddedLang

/-- The grammars of all languages, each with the forms that it adds. -/
def languages : List (Grammar × Forms) :=
  [(Arithmetic.grammar, noForms), (Query.grammar, Query.QueryForm),
    (Template.grammar, Template.TemplateForm)]

variable {g : Grammar} {F : Forms}

theorem mem_languages (h : (g, F) ∈ languages) : g.Forming F ∧
    g.table ∈ [Query.table, Template.table, Arithmetic.table] := by
  simp only [languages, List.mem_cons, Prod.mk.injEq, List.not_mem_nil, or_false] at h ⊢
  rcases h with ⟨rfl, rfl⟩ | ⟨rfl, rfl⟩ | ⟨rfl, rfl⟩
  · exact ⟨Arithmetic.grammar_plain.forming, .inr (.inr rfl)⟩
  · exact ⟨Query.grammar_forming, .inl rfl⟩
  · exact ⟨Template.grammar_forming, .inr (.inl rfl)⟩

theorem scan_inOrder {t : LanguageTable}
    (ht : t ∈ [Query.table, Template.table, Arithmetic.table]) (source : String) :
    InOrder (scan t source).tokens := by
  obtain ⟨-, hbefore, -⟩ := scan_tiles ht source
  apply hbefore.imp
  intro a b hab
  unfold Token.Before at hab
  omega

/-- Wherever an expression is parsed, each of its nodes stands at the first of the tokens that it is
written as, nodes in subqueries as well. A walk begins with the expression and never goes back. -/
theorem expressions_in_source_order (hg : (g, F) ∈ languages) {source : String} {c c' : Cursor}
    (hc : c.tokens <:+ (scan g.table source).tokens) {floor : Nat} {rule : Parse Expr}
    (hrule : rule ∈ [g.expression floor, g.unary, g.primary]) {e : Expr} (h : rule c = .ok e c') :
    ∃ ts, c = c'.before ts ∧ e.WrittenAs g F ts ∧
      (∀ n ∈ e.nodes, ∃ us, us <:+: ts ∧ n.WrittenAs g F us ∧
        us.head?.map Token.position = some n.position) ∧
      e.walk.head? = some e ∧ (e.walk.map (·.position.offset)).Pairwise (· ≤ ·) := by
  obtain ⟨hforming, ht⟩ := mem_languages hg
  obtain ⟨ts, hbefore, he⟩ := (Grammar.rules_written hforming floor hrule c).of_ok e c' h
  have htaken : ts <+: c.tokens := by
    rw [hbefore]
    exact List.prefix_append ts c'.tokens
  have hts : InOrder ts := (scan_inOrder ht source).sublist (htaken.sublist.trans hc.sublist)
  refine ⟨ts, hbefore, he, ?_, ?_, ?_⟩
  · simpa using Written.nodes_at_first hforming.inPlace he
  · rw [Expr.walk_eq]
    rfl
  · rw [List.pairwise_map]
    simpa using Written.walk_inOrder hforming.inPlace he hts

/-- Tests, a choice, a call and a number with its sign. -/
def assorted : String :=
  "(a.b) IN (1, -2) OR CASE x WHEN 1 THEN f(y) ELSE NOT z END IS NULL"

theorem expressions_in_source_order_assorted :
    ∃ e c' ts, Query.grammar.expression 0 (Cursor.ofSource Query.table assorted) = .ok e c' ∧
      Cursor.ofSource Query.table assorted = c'.before ts ∧
      e.WrittenAs Query.grammar Query.QueryForm ts ∧
      e.walk.map (·.position.offset) =
        [0, 0, 0, 1, 1, 9, 10, 13, 20, 20, 25, 32, 39, 39, 41, 49, 53] ∧
      (e.walk.map (·.position.offset)).Pairwise (· ≤ ·) := by
  have hparse : (Parse.run? (Query.grammar.expression 0)
      (Cursor.ofSource Query.table assorted)).toOption.any fun e =>
        e.walk.map (·.position.offset) ==
          [0, 0, 0, 1, 1, 9, 10, 13, 20, 20, 25, 32, 39, 39, 41, 49, 53] := by
    decide +kernel
  obtain ⟨e, hrun, hwalk⟩ := exists_ok_of_any hparse
  obtain ⟨c', h⟩ := Parse.exists_of_run? hrun
  obtain ⟨ts, hbefore, he, -, -, horder⟩ :=
    expressions_in_source_order (List.mem_of_getElem? (i := 1) rfl) List.suffix_rfl
      List.mem_cons_self h
  exact ⟨e, c', ts, h, hbefore, he, beq_iff_eq.mp hwalk, horder⟩

end EmbeddedLang
