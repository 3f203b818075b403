import EmbeddedLang.Proofs.Query.Numbering

/-!
What literals a statement has never shows in its SQL.

Both of two such statements translate like the one that has the same literal everywhere, and
fragments that differ in literals only are written alike.
-/

namespace EmbeddedLang

/-- One literal for all, but for null. -/
def Literal.blank : Literal → Literal
  | .null => .null
  | _ => .boolean false

theorem Literal.blank_eq_null_iff (l : Literal) : l.blank = .null ↔ l = .null := by
  cases l <;> simp [blank]

namespace Query

/-- The same statement up to literals other than null, each of which may have any other value and
type. -/
def Statement.SameButLiterals (s s' : Statement) : Prop :=
  s.mapLiterals Literal.blank = s'.mapLiterals Literal.blank

/-- What the caller supplies for a bind; nothing if it is a literal. -/
def BindSource.parameter? : BindSource → Option Placeholder
  | .literal _ => none
  | .named name => some (.named name)
  | .numbered index => some (.numbered index)

/-- A bind up to the value and the type of a literal. -/
def Bind.slot (b : Bind) : Nat × Option (Placeholder × Option ColumnType) :=
  (b.index, b.source.parameter?.map fun p => (p, b.type))

/-- Queries that differ at most in the values of the literals they bind. -/
structure CompiledQuery.SameButLiterals (q q' : CompiledQuery) : Prop where
  sql : q.sql = q'.sql
  binds : q.binds.map Bind.slot = q'.binds.map Bind.slot
  dialect : q.dialect = q'.dialect

theorem placeholder_literal (style : PlaceholderStyle) (index : Nat) (v w : BindValue) :
    style.placeholder index (.literal v) = style.placeholder index (.literal w) := by
  cases style <;> rfl

theorem Fragment.Mapped.finishFrom {r : Literal → Literal} {f f' : Fragment} (h : Mapped r f f')
    (style : PlaceholderStyle) (index : Nat) :
    (f.finishFrom style index).1 = (f'.finishFrom style index).1 ∧
      (f.finishFrom style index).2.map Bind.slot = (f'.finishFrom style index).2.map Bind.slot := by
  induction h generalizing index with
  | nil => exact ⟨rfl, rfl⟩
  | cons hp _ ih =>
    obtain ⟨hsql, hbinds⟩ := ih index
    obtain ⟨hsql', hbinds'⟩ := ih (index + 1)
    cases hp with
    | same hp =>
      rw [Fragment.finishFrom_cons style index hp, Fragment.finishFrom_cons style index hp]
      exact ⟨congrArg (_ ++ ·) hsql, hbinds⟩
    | parameter p type =>
      rw [Fragment.finishFrom_bind, Fragment.finishFrom_bind]
      exact ⟨congrArg (_ ++ ·) hsql', congrArg (_ :: ·) hbinds'⟩
    | @literal l v w hint hv hw =>
      rw [Fragment.finishFrom_bind, Fragment.finishFrom_bind]
      refine ⟨?_, congrArg (_ :: ·) hbinds'⟩
      dsimp only
      rw [hsql', placeholder_literal style index v w]

theorem lower_mapLiterals {r : Literal → Literal} (hr : ∀ l, r l = .null ↔ l = .null)
    (m : Metadata) (d : Dialect) (s : Statement) :
    Agree Eq CompiledQuery.SameButLiterals (lower m d s) (lower m d (s.mapLiterals r)) := by
  unfold lower
  have ht : Target.Similar ⟨m, d⟩ ⟨m, d⟩ := ⟨rfl, rfl, fun _ => rfl⟩
  have hs : Agree Eq (Fragment.Mapped r) (Target.statement ⟨m, d⟩ s)
      (Target.statement ⟨m, d⟩ (s.mapLiterals r)) :=
    (Target.statement_same ht hr s).imp (fun _ _ => SameError.eq) fun _ _ hf => hf
  apply hs.bind
  intro f f' hf
  obtain ⟨hsql, hbinds⟩ := hf.finishFrom d.style 1
  exact .pure ⟨hsql, hbinds, rfl⟩

/-- Statements that differ in literals only fail alike or have the same SQL. -/
theorem lower_sameButLiterals (m : Metadata) (d : Dialect) {s s' : Statement}
    (h : s.SameButLiterals s') :
    Agree Eq CompiledQuery.SameButLiterals (lower m d s) (lower m d s') := by
  have hs := lower_mapLiterals Literal.blank_eq_null_iff m d s
  have hs' := lower_mapLiterals Literal.blank_eq_null_iff m d s'
  rw [← h] at hs'
  apply hs.trans_left hs'
  intro a b c hab hcb
  exact ⟨hab.sql.trans hcb.sql.symm, hab.binds.trans hcb.binds.symm,
    hab.dialect.trans hcb.dialect.symm⟩

/-- Authors whose books were written in the year of a value. -/
def writtenIn (year : Literal) : Statement :=
  let p : Position := .start
  let books : Select := ⟨false, [⟨.member p (.identifier p "b") "author", none⟩],
    [⟨"Book", some "b", p⟩], [], some (.binary p .eq (.identifier p "year") (.literal p year)),
    [], none, [], none, p⟩
  .select ⟨true, [⟨.identifier p "name", none⟩], [⟨"Author", none, p⟩], [],
    some (.binary p .in (.identifier p "name") (.subquery p books)), [], none, [],
    some ⟨.literal p (.integer 10), none⟩, p⟩

theorem lower_sameButLiterals_writtenIn :
    (writtenIn (.integer 1984)).SameButLiterals (writtenIn (.string "' OR 1 = 1")) ∧
      Agree Eq CompiledQuery.SameButLiterals (lower library .postgres (writtenIn (.integer 1984)))
        (lower library .postgres (writtenIn (.string "' OR 1 = 1"))) :=
  ⟨rfl, lower_sameButLiterals library .postgres rfl⟩

end Query

end EmbeddedLang
