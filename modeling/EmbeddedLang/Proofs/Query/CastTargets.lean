import EmbeddedLang.Proofs.Lexical.Shapes
import EmbeddedLang.Proofs.Query.Parsed
import EmbeddedLang.Query.Statement

/-!
The types that a statement casts to, and how those of a parsed statement are written.
-/

namespace EmbeddedLang

mutual

def Expr.castTargets : Expr → List String
  | .literal .. | .identifier .. | .placeholder .. | .star _ | .qualifiedStar .. => []
  | .unary _ _ x | .member _ x _ | .grouped _ x | .isNull _ x _ | .defined _ x _ => x.castTargets
  | .binary _ _ x y | .index _ x y => x.castTargets ++ y.castTargets
  | .call _ x args _ | .filter _ x _ args | .test _ x _ args _ =>
    x.castTargets ++ castTargetsOfItems args
  | .slice _ x first last =>
    x.castTargets ++ castTargetsOfOption first ++ castTargetsOfOption last
  | .list _ items => castTargetsOfItems items
  | .conditional _ x y z | .between _ x y z _ =>
    x.castTargets ++ y.castTargets ++ z.castTargets
  | .cases _ operand branches otherwise =>
    castTargetsOfOption operand ++ castTargetsOfWhens branches ++ castTargetsOfOption otherwise
  | .cast _ x target => x.castTargets ++ [target]
  | .existence _ s | .subquery _ s => s.castTargets

def castTargetsOfOption : Option Expr → List String
  | none => []
  | some e => e.castTargets

def castTargetsOfExprs : List Expr → List String
  | [] => []
  | e :: rest => e.castTargets ++ castTargetsOfExprs rest

def castTargetsOfItems : List Item → List String
  | [] => []
  | ⟨_, e⟩ :: rest => e.castTargets ++ castTargetsOfItems rest

def castTargetsOfWhens : List When → List String
  | [] => []
  | ⟨c, e⟩ :: rest => c.castTargets ++ e.castTargets ++ castTargetsOfWhens rest

def castTargetsOfProjections : List Projection → List String
  | [] => []
  | ⟨e, _⟩ :: rest => e.castTargets ++ castTargetsOfProjections rest

def castTargetsOfJoins : List Join → List String
  | [] => []
  | ⟨_, _, condition, _⟩ :: rest => castTargetsOfOption condition ++ castTargetsOfJoins rest

def castTargetsOfOrders : List OrderItem → List String
  | [] => []
  | ⟨e, _⟩ :: rest => e.castTargets ++ castTargetsOfOrders rest

def castTargetsOfLimit : Option Limit → List String
  | none => []
  | some ⟨count, offset⟩ => count.castTargets ++ castTargetsOfOption offset

def Select.castTargets : Select → List String
  | ⟨_, projections, _, joins, filter, groupBy, having, orderBy, limit, _⟩ =>
    castTargetsOfProjections projections ++ castTargetsOfJoins joins ++ castTargetsOfOption filter
      ++ castTargetsOfExprs groupBy ++ castTargetsOfOption having ++ castTargetsOfOrders orderBy
      ++ castTargetsOfLimit limit

end

def Query.Statement.castTargets : Query.Statement → List String
  | .select s => s.castTargets
  | .insert s => s.rows.flatMap castTargetsOfExprs
  | .update s =>
    s.assignments.flatMap (·.value.castTargets) ++ castTargetsOfOption s.filter
      ++ castTargetsOfOption s.limit
  | .delete s => castTargetsOfOption s.filter ++ castTargetsOfOption s.limit
  | .empty => []

/-! ### Restricted types -/

def Casts (T : String → Prop) (targets : List String) : Prop :=
  ∀ target ∈ targets, T target

variable {T : String → Prop}

theorem casts_nil : Casts T [] :=
  List.forall_mem_nil T

theorem casts_append {xs ys : List String} : Casts T (xs ++ ys) ↔ Casts T xs ∧ Casts T ys :=
  List.forall_mem_append

theorem casts_flatMap {α : Type} {xs : List α} {targets : α → List String} :
    Casts T (xs.flatMap targets) ↔ ∀ x ∈ xs, Casts T (targets x) :=
  List.forall_mem_flatMap

theorem castTargetsOfExprs_eq (es : List Expr) :
    castTargetsOfExprs es = es.flatMap Expr.castTargets := by
  induction es with
  | nil => rfl
  | cons e rest ih => rw [castTargetsOfExprs, ih, List.flatMap_cons]

theorem castTargetsOfItems_eq (items : List Item) :
    castTargetsOfItems items = items.flatMap (·.value.castTargets) := by
  induction items with
  | nil => rfl
  | cons item rest ih =>
    obtain ⟨label, e⟩ := item
    rw [castTargetsOfItems, ih, List.flatMap_cons]

theorem castTargetsOfWhens_eq (branches : List When) :
    castTargetsOfWhens branches =
      branches.flatMap fun w => w.condition.castTargets ++ w.result.castTargets := by
  induction branches with
  | nil => rfl
  | cons w rest ih =>
    obtain ⟨condition, result⟩ := w
    rw [castTargetsOfWhens, ih, List.flatMap_cons]

theorem castTargetsOfProjections_eq (ps : List Projection) :
    castTargetsOfProjections ps = ps.flatMap (·.expr.castTargets) := by
  induction ps with
  | nil => rfl
  | cons p rest ih =>
    obtain ⟨e, aliasName⟩ := p
    rw [castTargetsOfProjections, ih, List.flatMap_cons]

theorem castTargetsOfJoins_eq (js : List Join) :
    castTargetsOfJoins js = js.flatMap fun j => castTargetsOfOption j.condition := by
  induction js with
  | nil => rfl
  | cons j rest ih =>
    obtain ⟨kind, source, condition, position⟩ := j
    rw [castTargetsOfJoins, ih, List.flatMap_cons]

theorem castTargetsOfOrders_eq (os : List OrderItem) :
    castTargetsOfOrders os = os.flatMap (·.expr.castTargets) := by
  induction os with
  | nil => rfl
  | cons o rest ih =>
    obtain ⟨e, direction⟩ := o
    rw [castTargetsOfOrders, ih, List.flatMap_cons]

theorem casts_option {e : Option Expr} :
    Casts T (castTargetsOfOption e) ↔ ∀ x ∈ e, Casts T x.castTargets := by
  cases e with
  | none => simp [castTargetsOfOption, casts_nil]
  | some e => simp [castTargetsOfOption]

theorem casts_exprs {es : List Expr} :
    Casts T (castTargetsOfExprs es) ↔ ∀ e ∈ es, Casts T e.castTargets := by
  rw [castTargetsOfExprs_eq, casts_flatMap]

theorem casts_items {items : List Item} :
    Casts T (castTargetsOfItems items) ↔ ∀ item ∈ items, Casts T item.value.castTargets := by
  rw [castTargetsOfItems_eq, casts_flatMap]

theorem casts_whens {branches : List When} : Casts T (castTargetsOfWhens branches) ↔
    ∀ w ∈ branches, Casts T w.condition.castTargets ∧ Casts T w.result.castTargets := by
  simp only [castTargetsOfWhens_eq, casts_flatMap, casts_append]

theorem casts_limit {limit : Option Limit} : Casts T (castTargetsOfLimit limit) ↔
    ∀ l ∈ limit, Casts T l.count.castTargets ∧ ∀ e ∈ l.offset, Casts T e.castTargets := by
  cases limit with
  | none => simp [castTargetsOfLimit, casts_nil]
  | some l =>
    obtain ⟨count, offset⟩ := l
    simp [castTargetsOfLimit, casts_append, casts_option]

end EmbeddedLang

namespace EmbeddedLang.Query

open Parse

variable {ts : List Token}

/-- A type is written by its name, perhaps with sizes. -/
inductive TypeText (name : String) : String → Prop where
  | plain : TypeText name name
  | sized {sizes : List String} (hne : sizes ≠ []) (h : ∀ size ∈ sizes, IsNumber size) :
      TypeText name (name ++ "(" ++ ", ".intercalate sizes ++ ")")

/-- A type whose name is that of one of the tokens, in upper case. -/
def NamedBy (ts : List Token) (p : Token → Prop) (target : String) : Prop :=
  ∃ token ∈ ts, p token ∧ TypeText (token.name.map Char.toUpper) target

/-- The types of expressions that are parsed from the tokens `ts`. -/
abbrev Written (ts : List Token) : String → Prop :=
  NamedBy ts fun token => token.isIdentifier

section tokens

variable (hts : ∀ token ∈ ts, token.WellShaped)

include hts

theorem size_yields : Yields ts (fun token => IsNumber token.lexeme) (expectKind .integer) := by
  apply (expect_yields _ _).imp
  rintro token ⟨ht, hk⟩
  exact (hts token ht).number (beq_iff_eq.mp hk)

theorem castTarget_yields : Yields ts (Written ts) castTarget := by
  apply expectIdentifier_yields.bind
  rintro ⟨name, p⟩ ⟨token, ht, hi, rfl⟩
  apply (eatOperator_yields "(").bind
  intro b _
  split
  · apply (commaSeparated_nonempty (size_yields hts)).bind
    rintro sizes ⟨hne, hsizes⟩
    apply (expectOperator_yields ")").bind
    intro _ _
    refine .pure ⟨token, ht, hi, .sized ?_ (List.forall_mem_map.mpr hsizes)⟩
    exact fun h => hne (List.map_eq_nil_iff.mp h)
  · exact .pure ⟨token, ht, hi, .plain⟩

end tokens

/-- Trees with types to cast to in `T`. -/
def typed (T : String → Prop) : Hereditary where
  Holds e := Casts T e.castTargets
  HoldsSelect s := Casts T s.castTargets
  CastType := T
  literal _ _ := casts_nil
  identifier _ _ := casts_nil
  unary _ _ hx := hx
  binary _ _ hx hy := casts_append.mpr ⟨hx, hy⟩
  call _ _ hc ha := casts_append.mpr ⟨hc, casts_items.mpr ha⟩
  member _ _ hx := hx
  index _ hx hy := casts_append.mpr ⟨hx, hy⟩
  slice _ hx hf hl :=
    casts_append.mpr ⟨casts_append.mpr ⟨hx, casts_option.mpr hf⟩, casts_option.mpr hl⟩
  list _ h := casts_items.mpr h
  grouped _ hx := hx
  placeholder _ _ := casts_nil
  star _ := casts_nil
  qualifiedStar _ _ := casts_nil
  between _ _ hx hl hh := casts_append.mpr ⟨casts_append.mpr ⟨hx, hl⟩, hh⟩
  isNull _ _ hx := hx
  cases _ ho hb he :=
    casts_append.mpr ⟨casts_append.mpr ⟨casts_option.mpr ho, casts_whens.mpr hb⟩,
      casts_option.mpr he⟩
  cast _ hx ht := casts_append.mpr ⟨hx, List.forall_mem_singleton.mpr ht⟩
  existence _ hs := hs
  subquery _ hs := hs
  select {s} hp hj hf hg hh ho hl := by
    obtain ⟨_, _, _, _, _, _, _, _, _, _⟩ := s
    simp only [Select.castTargets, casts_append]
    refine ⟨⟨⟨⟨⟨⟨?_, ?_⟩, casts_option.mpr hf⟩, casts_exprs.mpr hg⟩, casts_option.mpr hh⟩, ?_⟩, ?_⟩
    · rw [castTargetsOfProjections_eq]
      exact casts_flatMap.mpr hp
    · rw [castTargetsOfJoins_eq]
      exact casts_flatMap.mpr fun j h => casts_option.mpr (hj j h).2
    · rw [castTargetsOfOrders_eq]
      exact casts_flatMap.mpr ho
    · exact casts_limit.mpr hl

/-- The types of a statement that is parsed are named in its source. -/
theorem parse_castTargets {source : String} {s : Statement} (h : parse source = .ok s) :
    Casts (Written (scan table source).tokens) s.castTargets := by
  have hs := parse_holds (I := typed _) (castTarget_yields (scan_wellShaped table source)) h
  cases s with
  | select s => exact hs
  | insert s => exact casts_flatMap.mpr fun row hrow => casts_exprs.mpr (hs row hrow)
  | update s =>
    obtain ⟨ha, hf, hl⟩ := hs
    exact casts_append.mpr ⟨casts_append.mpr ⟨casts_flatMap.mpr ha, casts_option.mpr hf⟩,
      casts_option.mpr hl⟩
  | delete s => exact casts_append.mpr ⟨casts_option.mpr hs.1, casts_option.mpr hs.2⟩
  | empty => exact casts_nil

end EmbeddedLang.Query
