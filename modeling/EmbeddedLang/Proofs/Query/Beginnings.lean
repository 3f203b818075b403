import EmbeddedLang.Proofs.Query.Unquoted

/-!
How the text of an expression begins.

No dialect writes a space after a minus sign. What follows the sign is the text of its operand, and
that text begins with whatever is leftmost in the operand.
-/

namespace EmbeddedLang

/-- A minus sign is leftmost. -/
def Expr.leadsMinus : Expr → Bool
  | .unary _ .neg _ => true
  | .binary _ _ x _ | .between _ x _ _ _ | .isNull _ x _ => x.leadsMinus
  | _ => false

/-- The expression is a minus sign that stands directly before another one. -/
def Expr.doublesMinus : Expr → Bool
  | .unary _ .neg x => x.leadsMinus
  | _ => false

namespace Query

/-- Every minus sign and every slash has a space after it. -/
def spaced : List Char → Bool
  | [] => true
  | c :: rest => (c != '-' && c != '/' || rest.head? == some ' ') && spaced rest

def TemplatePart.isSpaced : TemplatePart → Bool
  | .text s => spaced s.toList
  | .slot _ | .all => true

def Construct.isBinary : Construct → Bool
  | .binary _ => true
  | _ => false

/-- First there is a text without a minus sign in front, or the first of two operands. -/
def leads (c : Construct) : List TemplatePart → Bool
  | .text s :: _ => s.toList.head?.any (· != '-')
  | .slot 0 :: _ => c.isBinary
  | _ => false

/-- The template for the minus sign, or one that is safe beside any text. -/
def signed (c : Construct) (template : SyntaxTemplate) : Bool :=
  if c = .unary .neg then template.parts = [.text "-", .slot 0]
  else leads c template.parts && template.parts.all TemplatePart.isSpaced

/-- Identifiers are marked, and no sign but the minus is written against its operand. -/
structure Dialect.Signs (d : Dialect) : Prop extends d.MarksNames where
  opening : d.quotes.opening ≠ '-'
  signed : ∀ entry ∈ d.constructs, signed entry.1 entry.2

theorem Dialect.signs {name : String} {d : Dialect} (h : byName? name = some d) : d.Signs := by
  refine ⟨marksNames h, ?_, ?_⟩
  all_goals
    have hd := byName?_cases h
    simp only [List.mem_cons, List.not_mem_nil, or_false] at hd
    rcases hd with rfl | rfl | rfl | rfl
    all_goals decide +kernel

namespace Dialect.Signs

variable {d : Dialect} (h : d.Signs)

include h

theorem of_template {c : Construct} {template : SyntaxTemplate}
    (ht : d.template? c = some template) : Query.signed c template := by
  obtain ⟨entry, he, rfl⟩ := Option.map_eq_some_iff.mp ht
  have hc : entry.1 = c := by simpa using List.find?_some he
  rw [← hc]
  exact h.signed entry (List.mem_of_find?_eq_some he)

theorem neg {template : SyntaxTemplate} (ht : d.template? (.unary .neg) = some template) :
    template.parts = [.text "-", .slot 0] := by
  have hs := h.of_template ht
  rw [Query.signed, if_pos rfl] at hs
  exact of_decide_eq_true hs

theorem leads {c : Construct} {template : SyntaxTemplate} (hc : c ≠ .unary .neg)
    (ht : d.template? c = some template) : Query.leads c template.parts := by
  have hs := h.of_template ht
  rw [Query.signed, if_neg hc] at hs
  exact (Bool.and_eq_true_iff.mp hs).1

theorem spaced {c : Construct} {template : SyntaxTemplate} {s : String} (hc : c ≠ .unary .neg)
    (ht : d.template? c = some template) (hs : .text s ∈ template.parts) :
    Query.spaced s.toList := by
  have hsigned := h.of_template ht
  rw [Query.signed, if_neg hc] at hsigned
  exact List.all_eq_true.mp (Bool.and_eq_true_iff.mp hsigned).2 _ hs

/-- The minus sign is written right against its operand. -/
theorem render_neg (f : Fragment) (p : Position) :
    Returns (fun g => g = .text "-" ++ f) (d.render (.unary .neg) [f] p) := by
  unfold Dialect.render
  cases ht : d.template? (.unary .neg) with
  | none => exact .error _
  | some template =>
    apply Returns.mapError
    rw [h.neg ht]
    exact .ok (congrArg (_ ++ ·) (List.append_nil f))

end Dialect.Signs

/-! ### Beginnings -/

namespace Fragment

/-- There is text, and it does not begin with a minus sign. -/
def Begins (style : PlaceholderStyle) (f : Fragment) : Prop :=
  ∀ index, (f.finishFrom style index).1.toList.head?.any (· != '-')

variable {style : PlaceholderStyle} {f : Fragment}

theorem head?_append_any {p : Char → Bool} {s : String} (h : s.toList.head?.any p) (t : String) :
    (s ++ t).toList.head?.any p := by
  rw [String.toList_append, List.head?_append]
  cases hc : s.toList.head? with
  | none =>
    rw [hc] at h
    cases h
  | some c =>
    rw [hc] at h
    exact h

theorem Begins.append (h : f.Begins style) (g : Fragment) : (f ++ g).Begins style := by
  intro index
  rw [finishFrom_append]
  exact head?_append_any (h index) _

theorem begins_text {s : String} (h : s.toList.head?.any (· != '-')) : (text s).Begins style := by
  intro index
  rw [finishFrom_text]
  exact h

theorem Begins.push (h : f.Begins style) (s : String) : (f.push s).Begins style :=
  h.append _

theorem Begins.space (h : f.Begins style) : f.space.Begins style := by
  unfold Fragment.space
  split
  · exact h
  · split
    · exact h
    · exact h.push " "

theorem Begins.keyword (h : f.Begins style) (word : String) : (f.keyword word).Begins style :=
  h.space.push word

theorem Begins.clause (h : f.Begins style) (word : String) (g : Fragment) :
    (Target.clause f word g).Begins style :=
  (h.keyword word).space.append g

theorem begins_name {q : Quotes} (hq : q.opening ≠ '-') (identifier : String) :
    (name q identifier).Begins style := by
  intro index
  rw [name, finishFrom_singleton _ _ rfl, Piece.words, Quotes.quote, String.toList_ofList]
  exact bne_iff_ne.mpr hq

theorem begins_column {q : Quotes} (hq : q.opening ≠ '-') (r : Reference) :
    (column q r).Begins style := by
  intro index
  have hquote (identifier : String) : (q.quote identifier).toList.head?.any (· != '-') := by
    rw [Quotes.quote, String.toList_ofList]
    exact bne_iff_ne.mpr hq
  rw [column, finishFrom_singleton _ _ rfl, Piece.words, Quotes.column]
  split
  · exact head?_append_any (head?_append_any (hquote _) _) _
  · exact hquote _

theorem begins_bind (hs : style ≠ .named) (source : BindSource) (type : Option ColumnType) :
    (bind source type).Begins style := by
  intro index
  rw [bind, finishFrom_bind]
  apply head?_append_any
  cases style with
  | question => exact (rfl : "?".toList.head?.any (· != '-') = true)
  | numbered => exact head?_append_any (s := "$") rfl _
  | named => exact absurd rfl hs

theorem begins_literal (hs : style ≠ .named) (l : Literal) (type : Option ColumnType) :
    (literal l type).Begins style := by
  unfold literal
  split
  · exact begins_text rfl
  · exact begins_bind hs _ _

end Fragment

open Fragment

theorem Dialect.Signs.render_begins {d : Dialect} (h : d.Signs) {c : Construct}
    (hc : c ≠ .unary .neg) {fs : List Fragment} (p : Position)
    (hfs : c.isBinary → ∀ f ∈ fs.head?, f.Begins d.style) :
    Returns (Begins d.style) (d.render c fs p) := by
  unfold Dialect.render
  cases ht : d.template? c with
  | none => exact .error _
  | some template =>
    apply Returns.mapError
    have hleads := h.leads hc ht
    unfold Query.leads at hleads
    split at hleads
    · rename_i s rest hparts
      rw [hparts]
      apply (Returns.self (SyntaxTemplate.fillAll fs rest)).bind
      intro g _
      exact .pure ((begins_text hleads).append g)
    · rename_i rest hparts
      rw [hparts, SyntaxTemplate.fillAll, SyntaxTemplate.fill]
      cases fs with
      | nil => exact .error _
      | cons f fs =>
        apply (Returns.self (SyntaxTemplate.fillAll (f :: fs) rest)).bind
        intro g _
        exact .pure ((hfs hleads f rfl).append g)
    · cases hleads

namespace Target

variable {t : Target}

theorem subject_begins (scopes : Scopes) (o : Option Expr) {f : Fragment}
    (hf : f.Begins t.dialect.style) : Returns (Begins t.dialect.style) (t.subject scopes o f) := by
  cases o with
  | none =>
    rw [Target.subject]
    exact .pure hf
  | some e =>
    rw [Target.subject]
    exact (Returns.self _).bind fun g _ => .pure (hf.space.append g)

theorem optionalClause_begins (scopes : Scopes) (hint : Option ColumnType) (words : String)
    (o : Option Expr) {f : Fragment} (hf : f.Begins t.dialect.style) :
    Returns (Begins t.dialect.style) (t.optionalClause scopes hint words o f) := by
  cases o with
  | none =>
    rw [Target.optionalClause]
    exact .pure hf
  | some e =>
    rw [Target.optionalClause]
    exact (Returns.self _).bind fun g _ => .pure (hf.clause words g)

theorem whens_begins (scopes : Scopes) (type hint : Option ColumnType) (branches : List When)
    {f : Fragment} (hf : f.Begins t.dialect.style) :
    Returns (Begins t.dialect.style) (t.whens scopes type hint branches f) := by
  induction branches generalizing f with
  | nil =>
    rw [Target.whens]
    exact .pure hf
  | cons branch rest ih =>
    obtain ⟨condition, result⟩ := branch
    rw [Target.whens]
    apply (Returns.self _).bind
    intro c _
    apply (Returns.self _).bind
    intro g _
    exact ih ((hf.clause "WHEN" c).clause "THEN" g)

theorem expr_begins (h : t.dialect.Signs) (scopes : Scopes) : ∀ (hint : Option ColumnType)
    (e : Expr), e.leadsMinus = false → Returns (Begins t.dialect.style) (t.expr scopes hint e)
  | hint, .literal _ l, _ => by
    simp only [Target.expr]
    exact .pure (begins_literal h.style l hint)
  | _, .identifier p name, _ => by
    simp only [Target.expr]
    unfold Scopes.column
    cases Scopes.meaning name 0 scopes with
    | projected => exact .ok (begins_name h.opening name)
    | column r => exact .ok (begins_column h.opening r)
    | ambiguous sources => exact .error _
    | unknown => exact .error _
  | _, .member p object property, _ => by
    simp only [Target.expr]
    cases object.identifier? with
    | none => exact .error _
    | some reference =>
      dsimp only
      unfold Scopes.qualifiedColumn
      cases Scopes.sourceNamed? reference 0 scopes with
      | none => exact .error _
      | some found =>
        obtain ⟨depth, source⟩ := found
        dsimp only
        cases source.table.column? property with
        | none => exact .error _
        | some type => exact .ok (begins_column h.opening _)
  | hint, .unary p op x, hm => by
    have hop : Construct.unary op ≠ .unary .neg := by
      intro hop
      rw [Construct.unary.inj hop] at hm
      cases hm
    simp only [Target.expr]
    apply (Returns.self _).bind
    intro f _
    exact h.render_begins hop p fun hb => Bool.noConfusion hb
  | hint, .binary p op x y, hm => by
    simp only [Target.expr]
    apply (expr_begins h scopes _ x hm).bind
    intro f hf
    apply (Returns.self _).bind
    intro g _
    have hfirst : ∀ f' ∈ [f, g].head?, f'.Begins t.dialect.style := forall_mem_some hf
    exact h.render_begins (c := .binary op) (by simp) p fun _ => hfirst
  | hint, .call p callee args distinct, _ => by
    simp only [Target.expr]
    cases callee.identifier? with
    | none => exact .error _
    | some name =>
      apply (Returns.self _).bind
      intro fs _
      exact h.render_begins (c := .function _) (by simp) p fun hb => Bool.noConfusion hb
  | hint, .grouped _ x, _ => by
    simp only [Target.expr]
    apply (Returns.self _).bind
    intro f _
    exact .pure (((begins_text rfl).append f).append _)
  | hint, .list _ elements, _ => by
    simp only [Target.expr]
    apply (Returns.self _).bind
    intro fs _
    exact .pure (((begins_text rfl).append _).append _)
  | hint, .placeholder _ p, _ => by
    simp only [Target.expr]
    exact .pure (begins_bind h.style _ _)
  | _, .star _, _ => by
    simp only [Target.expr]
    exact .pure (begins_text rfl)
  | _, .qualifiedStar p reference, _ => by
    simp only [Target.expr]
    cases Scopes.sourceNamed? reference 0 scopes with
    | none => exact .error _
    | some found => exact .ok ((begins_name h.opening _).append _)
  | _, .between _ x low high negated, hm => by
    simp only [Target.expr]
    apply (expr_begins h scopes none x hm).bind
    intro f hf
    apply (Returns.self _).bind
    intro l _
    apply (Returns.self _).bind
    intro g _
    exact .pure ((((hf.push _).append l).append _).append g)
  | _, .isNull _ x negated, hm => by
    simp only [Target.expr]
    apply (expr_begins h scopes none x hm).bind
    intro f hf
    exact .pure (hf.push _)
  | hint, .cases _ operand branches otherwise, _ => by
    simp only [Target.expr]
    apply (subject_begins scopes operand (begins_text rfl)).bind
    intro f hf
    apply (whens_begins scopes _ hint branches hf).bind
    intro f hf
    apply (optionalClause_begins scopes hint "ELSE" otherwise hf).bind
    intro f hf
    exact .pure (hf.keyword "END")
  | _, .cast _ x target, _ => by
    simp only [Target.expr]
    apply (Returns.self _).bind
    intro f _
    exact .pure (((((begins_text rfl).append f).append _).append _).append _)
  | _, .existence _ inner, _ | _, .subquery _ inner, _ => by
    simp only [Target.expr]
    apply (Returns.self _).bind
    intro f _
    exact .pure (((begins_text rfl).append f).append _)
  | _, .index .., _ | _, .slice .., _ | _, .conditional .., _ | _, .filter .., _
  | _, .defined .., _ | _, .test .., _ => by
    simp only [Target.expr]
    exact .error _

end Target

end Query

end EmbeddedLang
