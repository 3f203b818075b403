import EmbeddedLang.Proofs.Query.Nodes
import EmbeddedLang.Proofs.Query.Resolution
import EmbeddedLang.Query.Sql

/-!
What holds of every fragment that a statement is translated to.

It is enough to look at the pieces that the translation begins with, and at the few ways in which
it puts fragments together.
-/

namespace EmbeddedLang.Query

open Fragment

/-- The first operand of a join, which is what it joins, stands here. -/
def TemplatePart.writesFirst : TemplatePart → Bool
  | .text _ => false
  | .slot i => i == 0
  | .all => true

def Construct.isJoin : Construct → Bool
  | .join _ => true
  | _ => false

/-- What is joined is written exactly once. -/
def Dialect.JoinsOnce (d : Dialect) : Prop :=
  ∀ entry ∈ d.constructs, entry.1.isJoin → entry.2.parts.countP TemplatePart.writesFirst = 1

instance (d : Dialect) : Decidable d.JoinsOnce :=
  inferInstanceAs (Decidable (∀ entry ∈ d.constructs, _))

theorem Dialect.JoinsOnce.template {d : Dialect} (h : d.JoinsOnce) {kind : JoinKind}
    {template : SyntaxTemplate} (ht : d.template? (.join kind) = some template) :
    template.parts.countP TemplatePart.writesFirst = 1 := by
  obtain ⟨entry, he, rfl⟩ := Option.map_eq_some_iff.mp ht
  apply h entry (List.mem_of_find?_eq_some he)
  have hkind : entry.1 = .join kind := by simpa using List.find?_some he
  rw [hkind]
  rfl

namespace Target

/-- The texts that the translation writes, whatever the dialect. -/
def words : List String :=
  [" ", ", ", "(", ")", "*", ".*", " = ", " AS ", " AND ", "NULL", "DISTINCT ", " ASC", " DESC",
    " BETWEEN ", " NOT BETWEEN ", " IS NULL", " IS NOT NULL", "CASE", "WHEN", "THEN", "ELSE", "END",
    "EXISTS (", "SELECT", "SELECT DISTINCT", "FROM", "WHERE", "GROUP BY", "HAVING", "ORDER BY",
    "INSERT INTO ", " (", ") VALUES ", "UPDATE ", " SET ", "DELETE FROM "]

/-- A property of fragments with the sources that they read, which the translation keeps. All
expressions are admitted, and templates are free if their texts may stand beside anything. -/
structure Invariant (t : Target) where
  joinsOnce : t.dialect.JoinsOnce
  Holds : Stack → List ScopeSource → Fragment → Prop
  Admits : Expr → Prop
  Free : Construct → Prop
  free (c : Construct) (h : c ≠ .unary .neg) : Free c
  nil (stack : Stack) : Holds stack [] []
  append {stack : Stack} {xs ys : List ScopeSource} {f g : Fragment} (hf : Holds stack xs f)
    (hg : Holds stack ys g) : Holds stack (xs ++ ys) (f ++ g)
  word {s : String} (stack : Stack) (h : s ∈ words) : Holds stack [] [.text s]
  template {c : Construct} {template : SyntaxTemplate} {s : String} (stack : Stack) (hc : Free c)
    (h : t.dialect.template? c = some template) (hs : .text s ∈ template.parts) :
    Holds stack [] (.text s)
  negated {p : Position} {x : Expr} (h : Admits (.unary p .neg x)) :
    Free (.unary .neg) ∨ ∀ {scopes : Scopes} {hint : Option ColumnType} {f : Fragment},
      t.expr scopes hint x = .ok f → Holds scopes.stack [] f →
        Returns (Holds scopes.stack []) (t.dialect.render (.unary .neg) [f] p)
  name (stack : Stack) (identifier : String) : Holds stack [] (t.name identifier)
  source (stack : Stack) (x : ScopeSource) : Holds stack [x] (.source t.dialect.quotes x)
  column {stack : Stack} {r : Reference} (h : stack.Has r) :
    Holds stack [] (.column t.dialect.quotes r)
  bind (stack : Stack) (source : BindSource) (type : Option ColumnType) :
    Holds stack [] (.bind source type)
  cast {stack : Stack} {f : Fragment} {p : Position} {x : Expr} {target : String}
    (hf : Holds stack [] f) (h : Admits (.cast p x target)) :
    Holds stack [] (.text "CAST(" ++ f ++ .text " AS " ++ .text target ++ .text ")")
  enclosed {stack : Stack} {sources : List ScopeSource} {f : Fragment} (hd : Distinct sources)
    (hf : Holds (sources :: stack) sources f) : Holds stack [] (.enclosed f)

namespace Invariant

variable {t : Target} (I : t.Invariant) {stack : Stack} {xs : List ScopeSource}
  {f g : Fragment} {fs : List Fragment}

theorem add (hf : I.Holds stack xs f) (hg : I.Holds stack [] g) : I.Holds stack xs (f ++ g) := by
  have h := I.append hf hg
  rwa [List.append_nil] at h

theorem text {s : String} (h : s ∈ words) : I.Holds stack [] (.text s) := by
  unfold Fragment.text
  split
  · exact I.nil stack
  · exact I.word stack h

theorem push {s : String} (hf : I.Holds stack xs f) (h : s ∈ words) :
    I.Holds stack xs (f.push s) :=
  I.add hf (I.text h)

theorem space (hf : I.Holds stack xs f) : I.Holds stack xs f.space := by
  unfold Fragment.space
  split
  · exact hf
  · split
    · exact hf
    · exact I.push hf (by decide)

theorem keyword {w : String} (hf : I.Holds stack xs f) (h : w ∈ words) :
    I.Holds stack xs (f.keyword w) :=
  I.push (I.space hf) h

theorem clause {w : String} (hf : I.Holds stack xs f) (h : w ∈ words)
    (hg : I.Holds stack [] g) : I.Holds stack xs (clause f w g) :=
  I.add (I.space (I.keyword hf h)) hg

/-- Fragments with the sources that each of them reads. -/
theorem joinedSources {s : String} {xss : List (List ScopeSource)} (h : s ∈ words)
    (hfs : List.Forall₂ (I.Holds stack) xss fs) :
    I.Holds stack xss.flatten (.joined s fs) := by
  induction hfs with
  | nil => exact I.nil stack
  | cons hf hfs ih =>
    cases hfs with
    | nil =>
      rw [List.flatten_singleton]
      exact hf
    | cons hg hfs => exact I.append (I.add hf (I.text h)) ih

theorem sourceless (hfs : ∀ f ∈ fs, I.Holds stack [] f) :
    List.Forall₂ (I.Holds stack) (fs.map fun _ => []) fs :=
  List.forall₂_map_left_iff.mpr (List.forall₂_same.mpr hfs)

theorem flatten_sourceless (fs : List Fragment) :
    (fs.map fun _ => ([] : List ScopeSource)).flatten = [] :=
  List.flatten_eq_nil_iff.mpr fun _ h => (List.mem_map.mp h).elim fun _ h => h.2.symm

theorem joined {s : String} (h : s ∈ words) (hfs : ∀ f ∈ fs, I.Holds stack [] f) :
    I.Holds stack [] (.joined s fs) := by
  rw [← flatten_sourceless fs]
  exact I.joinedSources h (I.sourceless hfs)

theorem parenthesized (hf : I.Holds stack [] f) :
    I.Holds stack [] (.text "(" ++ f ++ .text ")") :=
  I.add (I.add (I.text (by decide)) hf) (I.text (by decide))

theorem literal (l : Literal) (type : Option ColumnType) :
    I.Holds stack [] (.literal l type) := by
  unfold Fragment.literal
  cases BindValue.ofLiteral? l with
  | none => exact I.text (by decide)
  | some value => exact I.bind stack _ _

theorem aliased (hf : I.Holds stack [] f) (aliasName : Option String) :
    I.Holds stack [] (t.aliased f aliasName) := by
  cases aliasName with
  | none => exact hf
  | some a => exact I.add (I.push hf (by decide)) (I.name stack a)

theorem distinctFirst (hfs : ∀ f ∈ fs, I.Holds stack [] f) (distinct : Bool) :
    ∀ f ∈ distinctFirst distinct fs, I.Holds stack [] f := by
  cases fs with
  | nil => exact hfs
  | cons f fs =>
    cases distinct with
    | false => exact hfs
    | true =>
      obtain ⟨hf, hfs⟩ := List.forall_mem_cons.mp hfs
      exact List.forall_mem_cons.mpr ⟨I.add (I.text (by decide)) hf, hfs⟩

/-! ### Templates -/

/-- What a part of a template reads if the operands read `xss`. -/
def partSources (xss : List (List ScopeSource)) : TemplatePart → List ScopeSource
  | .text _ => []
  | .slot i => (xss[i]?).getD []
  | .all => xss.flatten

theorem fill {c : Construct} {template : SyntaxTemplate} {part : TemplatePart}
    {xss : List (List ScopeSource)} (hc : I.Free c) (h : t.dialect.template? c = some template)
    (hp : part ∈ template.parts) (hfs : List.Forall₂ (I.Holds stack) xss fs) :
    Returns (I.Holds stack (partSources xss part)) (SyntaxTemplate.fill fs part) := by
  cases part with
  | text s => exact .ok (I.template stack hc h hp)
  | all => exact .ok (I.joinedSources (by decide) hfs)
  | slot i =>
    rw [SyntaxTemplate.fill]
    cases hi : fs[i]? with
    | none => exact .error _
    | some f =>
      obtain ⟨hlength, hget⟩ := List.forall₂_iff_get.mp hfs
      obtain ⟨hlt, rfl⟩ := List.getElem?_eq_some_iff.mp hi
      have hx : partSources xss (.slot i) = xss[i] := by
        simp only [partSources, List.getElem?_eq_getElem (hlength ▸ hlt), Option.getD_some]
      rw [hx]
      exact .ok (hget i (hlength ▸ hlt) hlt)

theorem fillAll {c : Construct} {template : SyntaxTemplate} {parts : List TemplatePart}
    {xss : List (List ScopeSource)} (hc : I.Free c) (h : t.dialect.template? c = some template)
    (hp : ∀ part ∈ parts, part ∈ template.parts) (hfs : List.Forall₂ (I.Holds stack) xss fs) :
    Returns (I.Holds stack (parts.flatMap (partSources xss)))
      (SyntaxTemplate.fillAll fs parts) := by
  induction parts with
  | nil => exact .ok (I.nil stack)
  | cons part rest ih =>
    obtain ⟨hpart, hrest⟩ := List.forall_mem_cons.mp hp
    apply (I.fill hc h hpart hfs).bind
    intro f hf
    apply (ih hrest).bind
    intro g hg
    exact .pure (I.append hf hg)

theorem render {c : Construct} (hc : I.Free c) (hfs : ∀ f ∈ fs, I.Holds stack [] f)
    (p : Position) : Returns (I.Holds stack []) (t.dialect.render c fs p) := by
  unfold Dialect.render
  cases h : t.dialect.template? c with
  | none => exact .error _
  | some template =>
    have hnone : template.parts.flatMap (partSources (fs.map fun _ => [])) = [] := by
      apply List.flatMap_eq_nil_iff.mpr
      intro part _
      cases part with
      | text => rfl
      | all => exact flatten_sourceless fs
      | slot i =>
        simp only [partSources, List.getElem?_map]
        cases fs[i]? <;> rfl
    rw [← hnone]
    exact (I.fillAll hc h (fun _ hp => hp) (I.sourceless hfs)).mapError

/-! ### Sources -/

theorem sourceSql {s : Source} {x : ScopeSource} (h : resolveSource t.metadata s = .ok x) :
    Returns (I.Holds stack [x]) (t.sourceSql s) := by
  unfold Target.sourceSql
  rw [h]
  exact .ok (I.source stack x)

theorem sourceList {sources : List Source}
    (h : List.Forall₂ (fun s x => resolveSource t.metadata s = .ok x) sources xs) :
    Returns (List.Forall₂ (I.Holds stack) (xs.map ([·]))) (sources.mapM t.sourceSql) := by
  induction h with
  | nil => exact .ok .nil
  | cons hs _ ih =>
    rw [List.mapM_cons]
    apply (I.sourceSql hs).bind
    intro f hf
    apply ih.bind
    intro fs hfs
    exact .pure (.cons hf hfs)

theorem flatMap_of_countP_eq_one {α β : Type} {p : α → Bool} {x : β} {parts : List α}
    (h : parts.countP p = 1) : (parts.flatMap fun part => if p part then [x] else []) = [x] := by
  have hreplicate : (parts.flatMap fun part => if p part then [x] else []) =
      List.replicate (parts.countP p) x := by
    clear h
    induction parts with
    | nil => rfl
    | cons part rest ih =>
      rw [List.flatMap_cons, List.countP_cons, ih]
      cases p part <;> simp [List.replicate_succ]
  rw [hreplicate, h]
  rfl

theorem renderJoin (kind : JoinKind) {x : ScopeSource}
    (hf : I.Holds stack [x] f) (hfs : ∀ f ∈ fs, I.Holds stack [] f) (p : Position) :
    Returns (I.Holds stack [x]) (t.dialect.render (.join kind) (f :: fs) p) := by
  unfold Dialect.render
  cases h : t.dialect.template? (.join kind) with
  | none => exact .error _
  | some template =>
    have hpart (part : TemplatePart) : partSources ([x] :: fs.map fun _ => []) part =
        if part.writesFirst then [x] else [] := by
      cases part with
      | text => rfl
      | all => exact congrArg ([x] ++ ·) (flatten_sourceless fs)
      | slot i =>
        cases i with
        | zero => rfl
        | succ i =>
          simp only [partSources, List.getElem?_cons_succ, List.getElem?_map]
          cases fs[i]? <;> rfl
    have hone : template.parts.flatMap (partSources ([x] :: fs.map fun _ => [])) = [x] := by
      have hcount := I.joinsOnce.template h
      rw [List.flatMap_congr (fun part _ => hpart part)]
      exact flatMap_of_countP_eq_one hcount
    rw [← hone]
    have hfree := I.free (.join kind) (by simp)
    exact (I.fillAll hfree h (fun _ hp => hp) (.cons hf (I.sourceless hfs))).mapError

theorem pairsSql {found : List ScopeSource} {a b : ScopeSource} (ha : a ∈ found) (hb : b ∈ found)
    (path : JoinPath) : I.Holds (found :: stack) [] (t.pairsSql a b path) := by
  have hcolumn : ∀ s ∈ found, ∀ name,
      I.Holds (found :: stack) [] (.column t.dialect.quotes ⟨0, s, true, name⟩) := by
    intro s hs name
    apply I.column
    exact ⟨⟨found, rfl, hs⟩, fun h => Bool.noConfusion h⟩
  unfold Target.pairsSql
  apply I.joined (by decide)
  intro f hf
  obtain ⟨⟨near, far⟩, _, rfl⟩ := List.mem_map.mp hf
  exact I.add (I.add (hcolumn a ha near) (I.text (by decide))) (hcolumn b hb far)

theorem relationshipCondition {found earlier : List ScopeSource} {target : ScopeSource}
    (he : ∀ s ∈ earlier, s ∈ found) (ht : target ∈ found) (p : Position) :
    Returns (I.Holds (found :: stack) []) (t.relationshipCondition earlier target p) := by
  unfold Target.relationshipCondition
  dsimp only
  split
  · rename_i source path hs
    apply Returns.ok
    obtain ⟨s, hmem, hpath⟩ := List.exists_of_findSome?_eq_some hs
    obtain ⟨q, _, hq⟩ := Option.map_eq_some_iff.mp hpath
    cases hq
    exact I.pairsSql (he source hmem) ht path
  · exact .error _

/-! ### Clauses -/

theorem selectWords_mem (distinct : Bool) : selectWords distinct ∈ words := by
  cases distinct <;> decide

theorem direction (hf : I.Holds stack [] f) (d : Option Direction) :
    I.Holds stack [] (f.push (directionSql d)) := by
  cases d with
  | none => exact I.add hf (I.nil stack)
  | some d => cases d <;> exact I.push hf (by decide)

theorem listClause (hf : I.Holds stack xs f) (absent : Bool) {word : String} (hw : word ∈ words)
    (hfs : ∀ f ∈ fs, I.Holds stack [] f) :
    I.Holds stack xs (if absent then f else Target.clause f word (.joined ", " fs)) := by
  cases absent with
  | true => exact hf
  | false => exact I.clause hf hw (I.joined (by decide) hfs)

theorem fromClause {fs : List Fragment} (hf : I.Holds stack [] f)
    (hfs : List.Forall₂ (I.Holds stack) (xs.map ([·])) fs) :
    I.Holds stack xs (Target.clause f "FROM" (.joined ", " fs)) := by
  have hall := I.joinedSources (s := ", ") (by decide) hfs
  rw [← List.flatMap_def, List.flatMap_singleton'] at hall
  have hfrom := I.append (I.space (I.keyword (w := "FROM") hf (by decide))) hall
  rwa [List.nil_append] at hfrom

/-! ### Expressions and selects -/

def Admitted (es : List Expr) : Prop :=
  ∀ n ∈ es, I.Admits n

theorem admitted_cons {e : Expr} {es : List Expr} :
    I.Admitted (e :: es) ↔ I.Admits e ∧ I.Admitted es :=
  List.forall_mem_cons

theorem admitted_append {es es' : List Expr} :
    I.Admitted (es ++ es') ↔ I.Admitted es ∧ I.Admitted es' :=
  List.forall_mem_append

theorem admitted_flatMap {α : Type} {xs : List α} {nodes : α → List Expr} :
    I.Admitted (xs.flatMap nodes) ↔ ∀ x ∈ xs, I.Admitted (nodes x) :=
  List.forall_mem_flatMap

theorem operator {c : Construct} {x y : Except CompileError Fragment} (hc : I.Free c)
    (p : Position) (hx : Returns (I.Holds stack []) x) (hy : Returns (I.Holds stack []) y) :
    Returns (I.Holds stack []) (do t.dialect.render c [← x, ← y] p) := by
  apply hx.bind
  intro f hf
  apply hy.bind
  intro g hg
  apply I.render hc
  simp [hf, hg]

theorem unary {scopes : Scopes} {hint : Option ColumnType} {p : Position} {op : UnaryOp} {x : Expr}
    (h : I.Admits (.unary p op x)) (hx : Returns (I.Holds scopes.stack []) (t.expr scopes hint x)) :
    Returns (I.Holds scopes.stack [])
      (do t.dialect.render (.unary op) [← t.expr scopes hint x] p) := by
  apply hx.of_self.bind
  rintro f ⟨hok, hf⟩
  have hfree (hc : I.Free (.unary op)) := I.render hc (List.forall_mem_singleton.mpr hf) p
  if hop : op = .neg then
    subst hop
    exact (I.negated h).elim hfree fun hrender => hrender hok hf
  else
    exact hfree (I.free _ fun hc => hop (Construct.unary.inj hc))

mutual

theorem expr (scopes : Scopes) (hint : Option ColumnType) : ∀ e : Expr, I.Admitted e.nodes →
    Returns (I.Holds scopes.stack []) (t.expr scopes hint e)
  | .literal _ l, _ => by
    simp only [Target.expr]
    exact .pure (I.literal l hint)
  | .identifier p name, _ => by
    simp only [Target.expr]
    unfold Scopes.column
    cases hm : Scopes.meaning name 0 scopes with
    | projected => exact .ok (I.name _ name)
    | column r => exact .ok (I.column (Scopes.has_of_meaning hm))
    | ambiguous sources => exact .error _
    | unknown => exact .error _
  | .member p object property, _ => by
    simp only [Target.expr]
    cases object.identifier? with
    | none => exact .error _
    | some reference =>
      dsimp only
      unfold Scopes.qualifiedColumn
      cases hs : Scopes.sourceNamed? reference 0 scopes with
      | none => exact .error _
      | some found =>
        obtain ⟨depth, source⟩ := found
        dsimp only
        cases source.table.column? property with
        | none => exact .error _
        | some type => exact .ok (I.column (Scopes.has_of_sourceNamed? hs property))
  | .unary p op x, h => by
    simp only [Expr.nodes, admitted_cons] at h
    simp only [Target.expr]
    exact I.unary h.1 (expr scopes hint x h.2)
  | .binary p op x y, h => by
    simp only [Expr.nodes, admitted_cons, admitted_append] at h
    simp only [Target.expr]
    exact I.operator (I.free (.binary op) (by simp)) p (expr scopes _ x h.2.1) (expr scopes _ y h.2.2)
  | .call p callee args distinct, h => by
    simp only [Expr.nodes, admitted_cons, admitted_append] at h
    simp only [Target.expr]
    cases callee.identifier? with
    | none => exact .error _
    | some name =>
      apply (items scopes none args h.2.2).bind
      intro fs hfs
      exact I.render (I.free (.function _) (by simp)) (I.distinctFirst hfs distinct) p
  | .grouped _ x, h => by
    simp only [Expr.nodes, admitted_cons] at h
    simp only [Target.expr]
    apply (expr scopes hint x h.2).bind
    intro f hf
    exact .pure (I.parenthesized hf)
  | .list _ elements, h => by
    simp only [Expr.nodes, admitted_cons] at h
    simp only [Target.expr]
    apply (items scopes hint elements h.2).bind
    intro fs hfs
    exact .pure (I.parenthesized (I.joined (by decide) hfs))
  | .placeholder _ p, _ => by
    simp only [Target.expr]
    exact .pure (I.bind _ _ hint)
  | .star _, _ => by
    simp only [Target.expr]
    exact .pure (I.text (by decide))
  | .qualifiedStar p reference, _ => by
    simp only [Target.expr]
    cases Scopes.sourceNamed? reference 0 scopes with
    | none => exact .error _
    | some found => exact .ok (I.add (I.name _ _) (I.text (by decide)))
  | .between _ x low high negated, h => by
    simp only [Expr.nodes, admitted_cons, admitted_append] at h
    simp only [Target.expr]
    apply (expr scopes none x h.2.1.1).bind
    intro f hf
    apply (expr scopes _ low h.2.1.2).bind
    intro l hl
    apply (expr scopes _ high h.2.2).bind
    intro g hg
    have hwords : (if negated then " NOT BETWEEN " else " BETWEEN ") ∈ words := by
      cases negated <;> decide
    exact .pure (I.add (I.add (I.add (I.push hf hwords) hl) (I.text (by decide))) hg)
  | .isNull _ x negated, h => by
    simp only [Expr.nodes, admitted_cons] at h
    simp only [Target.expr]
    apply (expr scopes none x h.2).bind
    intro f hf
    have hwords : (if negated then " IS NOT NULL" else " IS NULL") ∈ words := by
      cases negated <;> decide
    exact .pure (I.push hf hwords)
  | .cases _ operand branches otherwise, h => by
    simp only [Expr.nodes, admitted_cons, admitted_append] at h
    simp only [Target.expr]
    apply (subject scopes operand h.2.1.1 (I.text (by decide))).bind
    intro f hf
    apply (whens scopes _ hint branches h.2.1.2 hf).bind
    intro f hf
    apply (optionalClause scopes hint (by decide) otherwise h.2.2 hf).bind
    intro f hf
    exact .pure (I.keyword hf (by decide))
  | .cast _ x target, h => by
    simp only [Expr.nodes, admitted_cons] at h
    simp only [Target.expr]
    apply (expr scopes none x h.2).bind
    intro f hf
    exact .pure (I.cast hf h.1)
  | .existence _ inner, h => by
    simp only [Expr.nodes, admitted_cons] at h
    simp only [Target.expr]
    apply (select scopes inner h.2).bind
    intro f hf
    exact .pure (I.add (I.add (I.text (by decide)) hf) (I.text (by decide)))
  | .subquery _ inner, h => by
    simp only [Expr.nodes, admitted_cons] at h
    simp only [Target.expr]
    apply (select scopes inner h.2).bind
    intro f hf
    exact .pure (I.parenthesized hf)
  | .index .., _ | .slice .., _ | .conditional .., _ | .filter .., _ | .defined .., _
  | .test .., _ => by
    simp only [Target.expr]
    exact .error _

theorem items (scopes : Scopes) (hint : Option ColumnType) : ∀ items : List Item,
    I.Admitted (nodesOfItems items) →
      Returns (fun fs => ∀ f ∈ fs, I.Holds scopes.stack [] f) (t.items scopes hint items)
  | [], _ => by
    simp only [Target.items]
    exact .pure (List.forall_mem_nil _)
  | ⟨_, e⟩ :: rest, h => by
    simp only [nodesOfItems, admitted_append] at h
    simp only [Target.items]
    apply (expr scopes hint e h.1).bind
    intro f hf
    apply (items scopes hint rest h.2).bind
    intro fs hfs
    exact .pure (List.forall_mem_cons.mpr ⟨hf, hfs⟩)

theorem exprs (scopes : Scopes) : ∀ es : List Expr, I.Admitted (nodesOfExprs es) →
    Returns (fun fs => ∀ f ∈ fs, I.Holds scopes.stack [] f) (t.exprs scopes es)
  | [], _ => by
    simp only [Target.exprs]
    exact .pure (List.forall_mem_nil _)
  | e :: rest, h => by
    simp only [nodesOfExprs, admitted_append] at h
    simp only [Target.exprs]
    apply (expr scopes none e h.1).bind
    intro f hf
    apply (exprs scopes rest h.2).bind
    intro fs hfs
    exact .pure (List.forall_mem_cons.mpr ⟨hf, hfs⟩)

theorem subject (scopes : Scopes) : ∀ (o : Option Expr) {f : Fragment},
    I.Admitted (nodesOfOption o) → I.Holds scopes.stack [] f →
      Returns (I.Holds scopes.stack []) (t.subject scopes o f)
  | none, _, _, hf => by
    simp only [Target.subject]
    exact .pure hf
  | some e, _, h, hf => by
    simp only [nodesOfOption] at h
    simp only [Target.subject]
    apply (expr scopes none e h).bind
    intro g hg
    exact .pure (I.add (I.space hf) hg)

theorem optionalClause (scopes : Scopes) (hint : Option ColumnType) {word : String}
    (hw : word ∈ words) : ∀ (o : Option Expr) {xs : List ScopeSource} {f : Fragment},
      I.Admitted (nodesOfOption o) → I.Holds scopes.stack xs f →
        Returns (I.Holds scopes.stack xs) (t.optionalClause scopes hint word o f)
  | none, _, _, _, hf => by
    simp only [Target.optionalClause]
    exact .pure hf
  | some e, _, _, h, hf => by
    simp only [nodesOfOption] at h
    simp only [Target.optionalClause]
    apply (expr scopes hint e h).bind
    intro g hg
    exact .pure (I.clause hf hw hg)

theorem whens (scopes : Scopes) (type hint : Option ColumnType) :
    ∀ (branches : List When) {f : Fragment},
      I.Admitted (nodesOfWhens branches) → I.Holds scopes.stack [] f →
        Returns (I.Holds scopes.stack []) (t.whens scopes type hint branches f)
  | [], _, _, hf => by
    simp only [Target.whens]
    exact .pure hf
  | ⟨condition, result⟩ :: rest, _, h, hf => by
    simp only [nodesOfWhens, admitted_append] at h
    simp only [Target.whens]
    apply (expr scopes type condition h.1.1).bind
    intro c hc
    apply (expr scopes hint result h.1.2).bind
    intro g hg
    have hwhen := I.clause (w := "WHEN") hf (by decide) hc
    exact whens scopes type hint rest h.2 (I.clause hwhen (by decide) hg)

theorem projections (scopes : Scopes) : ∀ ps : List Projection,
    I.Admitted (nodesOfProjections ps) →
      Returns (fun fs => ∀ f ∈ fs, I.Holds scopes.stack [] f) (t.projections scopes ps)
  | [], _ => by
    simp only [Target.projections]
    exact .pure (List.forall_mem_nil _)
  | ⟨e, aliasName⟩ :: rest, h => by
    simp only [nodesOfProjections, admitted_append] at h
    simp only [Target.projections]
    apply (expr scopes none e h.1).bind
    intro f hf
    apply (projections scopes rest h.2).bind
    intro fs hfs
    exact .pure (List.forall_mem_cons.mpr ⟨I.aliased hf aliasName, hfs⟩)

theorem joins (found : List ScopeSource) (outer : Scopes) :
    ∀ (earlier : List ScopeSource) (js : List Join) {ys : List ScopeSource} {f : Fragment},
      I.Admitted (nodesOfJoins js) → found = earlier ++ ys →
      List.Forall₂ (fun s x => resolveSource t.metadata s = .ok x) (js.map Join.source) ys →
      I.Holds (found :: outer.stack) earlier f →
        Returns (I.Holds (found :: outer.stack) found)
          (t.joins (.ofSources found :: outer) earlier js f)
  | _, [], _, _, _, hfound, hjs, hf => by
    simp only [Target.joins]
    cases hjs
    rw [List.append_nil] at hfound
    rw [hfound] at hf ⊢
    exact .pure hf
  | earlier, ⟨kind, source, condition, p⟩ :: rest, _, _, h, hfound, hjs, hf => by
    simp only [nodesOfJoins, admitted_append] at h
    obtain ⟨target, ys, htarget, hrest, rfl⟩ := List.forall₂_cons_left_iff.mp hjs
    have hmem : target ∈ found := by
      rw [hfound]
      exact List.mem_append_right _ List.mem_cons_self
    have he : ∀ s ∈ earlier, s ∈ found := by
      intro s hs
      rw [hfound]
      exact List.mem_append_left _ hs
    simp only [Target.joins]
    rw [htarget]
    apply (I.sourceSql htarget).bind
    intro g hg
    apply (joinCondition found outer earlier kind target p condition h.1 he hmem).bind
    intro on hon
    apply (I.renderJoin kind hg hon p).bind
    intro j hj
    rw [List.append_cons] at hfound
    exact joins found outer (earlier ++ [target]) rest h.2 hfound hrest
      (I.append (I.space hf) hj)

theorem joinCondition (found : List ScopeSource) (outer : Scopes) (earlier : List ScopeSource)
    (kind : JoinKind) (target : ScopeSource) (p : Position) : ∀ condition : Option Expr,
      I.Admitted (nodesOfOption condition) → (∀ s ∈ earlier, s ∈ found) → target ∈ found →
        Returns (fun fs => ∀ f ∈ fs, I.Holds (found :: outer.stack) [] f)
          (t.joinCondition (.ofSources found :: outer) earlier kind target p condition)
  | some e, h, _, _ => by
    simp only [nodesOfOption] at h
    simp only [Target.joinCondition]
    apply (expr (.ofSources found :: outer) none e h).bind
    intro f hf
    exact .pure (List.forall_mem_singleton.mpr hf)
  | none, _, he, hmem => by
    simp only [Target.joinCondition]
    split
    · exact .pure (List.forall_mem_nil _)
    · apply (I.relationshipCondition he hmem p).bind
      intro f hf
      exact .pure (List.forall_mem_singleton.mpr hf)

theorem orders (scopes : Scopes) : ∀ os : List OrderItem, I.Admitted (nodesOfOrders os) →
    Returns (fun fs => ∀ f ∈ fs, I.Holds scopes.stack [] f) (t.orders scopes os)
  | [], _ => by
    simp only [Target.orders]
    exact .pure (List.forall_mem_nil _)
  | ⟨e, direction⟩ :: rest, h => by
    simp only [nodesOfOrders, admitted_append] at h
    simp only [Target.orders]
    apply (expr scopes none e h.1).bind
    intro f hf
    apply (orders scopes rest h.2).bind
    intro fs hfs
    exact .pure (List.forall_mem_cons.mpr ⟨I.direction hf direction, hfs⟩)

theorem limit (scopes : Scopes) : ∀ (bound : Option Limit) {xs : List ScopeSource}
    {f : Fragment}, I.Admitted (nodesOfLimit bound) → I.Holds scopes.stack xs f →
      Returns (I.Holds scopes.stack xs) (t.limit scopes bound f)
  | none, _, _, _, hf => by
    simp only [Target.limit]
    exact .pure hf
  | some ⟨count, offset⟩, _, _, h, hf => by
    simp only [nodesOfLimit, admitted_append] at h
    simp only [Target.limit]
    apply (expr scopes _ count h.1).bind
    intro c hc
    apply (offsetOf scopes offset h.2).bind
    intro os hos
    have hfree : I.Free (if os.isEmpty then .limit else .limitOffset) := by
      apply I.free
      split <;> simp
    apply (I.render hfree (List.forall_mem_cons.mpr ⟨hc, hos⟩) _).bind
    intro g hg
    exact .pure (I.add (I.space hf) hg)

theorem offsetOf (scopes : Scopes) : ∀ offset : Option Expr,
    I.Admitted (nodesOfOption offset) →
      Returns (fun fs => ∀ f ∈ fs, I.Holds scopes.stack [] f) (t.offsetOf scopes offset)
  | none, _ => by
    simp only [Target.offsetOf]
    exact .pure (List.forall_mem_nil _)
  | some e, h => by
    simp only [nodesOfOption] at h
    simp only [Target.offsetOf]
    apply (expr scopes _ e h).bind
    intro f hf
    exact .pure (List.forall_mem_singleton.mpr hf)

theorem select (outer : Scopes) : ∀ s : Select, I.Admitted s.nodes →
    Returns (I.Holds outer.stack []) (t.select outer s)
  | ⟨distinct, ps, sources, js, filter, groupBy, having, orderBy, bound, p⟩, h => by
    simp only [Select.nodes, admitted_append] at h
    obtain ⟨⟨⟨⟨⟨⟨hps, hjs⟩, hfilter⟩, hgroup⟩, hhaving⟩, horder⟩, hbound⟩ := h
    simp only [Target.select]
    apply (resolveSources_returns t.metadata _ [] List.nodup_nil).bind
    rintro found ⟨hdistinct, more, hmore, hfound⟩
    rw [List.nil_append] at hmore
    subst hmore
    have hsources := List.forall₂_take sources.length hfound
    have hjoined := List.forall₂_drop sources.length hfound
    rw [List.take_left] at hsources
    rw [List.drop_left] at hjoined
    have hfound := (List.take_append_drop sources.length found).symm
    apply (projections (.ofSources found :: outer) ps hps).bind
    intro projected hp
    apply (I.sourceList hsources).bind
    intro froms hfroms
    have hselect := I.clause (I.nil _) (selectWords_mem distinct)
      (I.joined (s := ", ") (by decide) hp)
    have hhead := I.fromClause hselect hfroms
    apply (joins found outer _ js hjs hfound hjoined hhead).bind
    intro f hf
    apply (optionalClause (.ofSources found :: outer) none (by decide) filter hfilter hf).bind
    intro f hf
    -- from here on the aliases can be referred to; the stack is the same
    let scopes : Scopes := ⟨found, ps.filterMap Projection.aliasName⟩ :: outer
    apply (exprs scopes groupBy hgroup).bind
    intro grouped hgrouped
    apply (optionalClause scopes none (by decide) having hhaving
      (I.listClause hf groupBy.isEmpty (by decide) hgrouped)).bind
    intro f hf
    apply (orders scopes orderBy horder).bind
    intro ordered hordered
    apply (limit scopes bound hbound
      (I.listClause hf orderBy.isEmpty (by decide) hordered)).bind
    intro f hf
    exact .pure (I.enclosed hdistinct hf)

end

/-! ### Statements -/

theorem rowSql (scopes : Scopes) (columns : List Column) (p : Position) {row : List Expr}
    (h : I.Admitted (nodesOfExprs row)) :
    Returns (I.Holds scopes.stack []) (t.rowSql scopes columns p row) := by
  rw [nodesOfExprs_eq] at h
  unfold Target.rowSql
  split
  · exact .error _
  · have hvalue : ∀ value ∈ row.zip columns,
        Returns (I.Holds scopes.stack []) (t.valueSql scopes value) := by
      intro value hv
      exact I.expr scopes _ value.1 (I.admitted_flatMap.mp h _ (List.of_mem_zip hv).1)
    apply (Returns.mapM hvalue).bind
    intro fs hfs
    exact .pure (I.parenthesized (I.joined (by decide) hfs))

theorem insert (s : Insert) (h : I.Admitted (s.rows.flatMap nodesOfExprs)) :
    Returns (fun f => ∃ target, resolveSource t.metadata s.source = .ok target ∧
      I.Holds [[target]] [] f) (t.insert s) := by
  unfold Target.insert
  apply (Returns.self (resolveSource t.metadata s.source)).bind
  intro target htarget
  apply (Returns.self (insertColumns target.table s)).bind
  intro columns _
  have hrow : ∀ row ∈ s.rows, Returns (I.Holds [[target]] [])
      (t.rowSql [.ofSources [target]] columns s.position row) :=
    fun row hr => I.rowSql [.ofSources [target]] columns s.position (I.admitted_flatMap.mp h row hr)
  apply (Returns.mapM hrow).bind
  intro rows hrows
  have hnames : ∀ f ∈ columns.map fun column => t.name column.name, I.Holds [[target]] [] f := by
    intro f hf
    obtain ⟨column, _, rfl⟩ := List.mem_map.mp hf
    exact I.name _ column.name
  have hinto := I.add (I.add (I.text (s := "INSERT INTO ") (by decide))
    (I.name [[target]] target.table.table)) (I.text (s := " (") (by decide))
  have hvalues := I.add (I.add hinto (I.joined (s := ", ") (by decide) hnames))
    (I.text (s := ") VALUES ") (by decide))
  exact .pure ⟨target, htarget, I.add hvalues (I.joined (by decide) hrows)⟩

theorem assignmentSql (scopes : Scopes) (table : Table) {a : Assignment}
    (h : I.Admitted a.value.nodes) :
    Returns (I.Holds scopes.stack []) (t.assignmentSql scopes table a) := by
  unfold Target.assignmentSql
  cases table.column? a.column with
  | none => exact .error _
  | some type =>
    apply (I.expr scopes (some type) a.value h).bind
    intro f hf
    exact .pure (I.add (I.add (I.name _ _) (I.text (by decide))) hf)

theorem changeLimit (scopes : Scopes) {c : Construct} (hc : I.Free c)
    (hf : I.Holds scopes.stack xs f) {bound : Option Expr} (h : I.Admitted (nodesOfOption bound)) :
    Returns (I.Holds scopes.stack xs) (t.changeLimit scopes c f bound) := by
  cases bound with
  | none => exact .pure hf
  | some e =>
    simp only [nodesOfOption] at h
    apply (I.expr scopes _ e h).bind
    intro count hcount
    apply (I.render hc (List.forall_mem_singleton.mpr hcount) e.position).bind
    intro g hg
    exact .pure (I.add (I.space hf) hg)

theorem update (s : Update) (h : I.Admitted (Statement.update s).nodes) :
    Returns (fun f => ∃ target, resolveSource t.metadata s.source = .ok target ∧
      ∃ body, f = .enclosed body ∧ I.Holds [[target]] [target.unaliased] body)
      (t.update s) := by
  simp only [Statement.nodes, admitted_append] at h
  unfold Target.update
  apply (Returns.self (resolveSource t.metadata s.source)).bind
  intro target htarget
  have hassignment : ∀ a ∈ s.assignments, Returns (I.Holds [[target]] [])
      (t.assignmentSql [.ofSources [target]] target.table a) :=
    fun a ha =>
      I.assignmentSql [.ofSources [target]] target.table (I.admitted_flatMap.mp h.1.1 a ha)
  apply (Returns.mapM hassignment).bind
  intro fs hfs
  have htable := I.append (I.text (s := "UPDATE ") (by decide))
    (I.source [[target]] target.unaliased)
  have hset := I.add (I.push (s := " SET ") htable (by decide))
    (I.joined (s := ", ") (by decide) hfs)
  apply (I.optionalClause [.ofSources [target]] none (by decide) s.filter h.1.2 hset).bind
  intro f hf
  apply (I.changeLimit [.ofSources [target]] (I.free .updateLimit (by simp)) hf h.2).bind
  intro f hf
  exact .pure ⟨target, htarget, f, rfl, hf⟩

theorem delete (s : Delete) (h : I.Admitted (Statement.delete s).nodes) :
    Returns (fun f => ∃ target, resolveSource t.metadata s.source = .ok target ∧
      ∃ body, f = .enclosed body ∧ I.Holds [[target]] [target.unaliased] body)
      (t.delete s) := by
  simp only [Statement.nodes, admitted_append] at h
  unfold Target.delete
  apply (Returns.self (resolveSource t.metadata s.source)).bind
  intro target htarget
  have hfrom := I.append (I.text (s := "DELETE FROM ") (by decide))
    (I.source [[target]] target.unaliased)
  apply (I.optionalClause [.ofSources [target]] none (by decide) s.filter h.1 hfrom).bind
  intro f hf
  apply (I.changeLimit [.ofSources [target]] (I.free .deleteLimit (by simp)) hf h.2).bind
  intro f hf
  exact .pure ⟨target, htarget, f, rfl, hf⟩

end Invariant

end Target

end EmbeddedLang.Query
