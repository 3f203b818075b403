import EmbeddedLang.Proofs.Query.Numbering

/-!
A relationship serves both of its models alike.

Which of the two it is registered for first makes no difference: neither for the path that is found
between them, nor for the translation of a statement.
-/

namespace EmbeddedLang.Query

namespace Relationship

/-- The same relationship, registered from its other end. -/
def reversed (r : Relationship) : Relationship :=
  ⟨r.target, r.source, r.path.reversed⟩

/-- The relationship is one between these two models, in this order or the other. -/
def Connects (r : Relationship) (a b : String) : Prop :=
  r.source = a ∧ r.target = b ∨ r.source = b ∧ r.target = a

instance (r : Relationship) (a b : String) : Decidable (r.Connects a b) :=
  inferInstanceAs (Decidable (_ ∨ _))

/-- The path from a model, which is one of the two. -/
def pathFrom (r : Relationship) (a : String) : JoinPath :=
  if r.source = a then r.path else r.path.reversed

theorem path?_eq (r : Relationship) {a b : String} (hab : a ≠ b) :
    r.path? a b = if r.Connects a b then some (r.pathFrom a) else none := by
  unfold path? Connects pathFrom
  by_cases ha : r.source = a <;> by_cases hb : r.source = b <;> simp_all

theorem path?_comm (r : Relationship) {a b : String} (hab : a ≠ b) :
    r.path? b a = (r.path? a b).map JoinPath.reversed := by
  unfold path?
  by_cases ha : r.source = a <;> by_cases hb : r.source = b <;>
    simp_all [apply_ite (Option.map JoinPath.reversed)]

theorem path?_reversed (r : Relationship) (h : r.source ≠ r.target) :
    r.reversed.path? = r.path? := by
  funext a b
  unfold path? reversed
  by_cases hab : r.source = a ∧ r.target = b
  · obtain ⟨rfl, rfl⟩ := hab
    simp [h.symm]
  · by_cases hba : r.source = b ∧ r.target = a
    · obtain ⟨rfl, rfl⟩ := hba
      simp [h]
    · rw [if_neg hab, if_neg hba, if_neg fun hr => hba hr.symm, if_neg fun hr => hab hr.symm]

end Relationship

/-! ### Registrations -/

/-- What metadata is made of, one after the other. -/
inductive Registration where
  | table (table : Table)
  | relationship (relationship : Relationship)

def Registration.relationship? : Registration → Option Relationship
  | .table _ => none
  | .relationship r => some r

namespace Metadata

def register (m : Metadata) : Registration → Metadata
  | .table t => m.addTable t
  | .relationship r => m.addRelationship r

def build (registrations : List Registration) : Metadata :=
  registrations.foldl register empty

variable {m m' : Metadata} {rs : List Registration}

theorem foldl_relationships :
    (rs.foldl register m).relationships =
      m.relationships ++ rs.filterMap Registration.relationship? := by
  induction rs generalizing m with
  | nil => exact (List.append_nil _).symm
  | cons r rest ih =>
    rw [List.foldl_cons, ih]
    cases r with
    | table t => rfl
    | relationship r => exact List.append_assoc _ [r] _

theorem build_relationships (rs : List Registration) :
    (build rs).relationships = rs.filterMap Registration.relationship? :=
  foldl_relationships

/-- Tables do not depend on relationships. -/
theorem foldl_tables (h : m.tables = m'.tables) :
    (rs.foldl register m).tables = (rs.foldl register m').tables := by
  induction rs generalizing m m' with
  | nil => exact h
  | cons r rest ih =>
    apply ih
    cases r with
    | table t => exact congrArg (Dictionary.put t.model t) h
    | relationship r => exact h

theorem build_path? (rs : List Registration) (a b : String) :
    (build rs).path? a b =
      (rs.filterMap Registration.relationship?).findSome? (·.path? a b) := by
  rw [path?, build_relationships]

theorem path?_build_comm (rs : List Registration) {a b : String} (hab : a ≠ b) :
    (build rs).path? b a = ((build rs).path? a b).map JoinPath.reversed := by
  rw [build_path?, build_path?, List.map_findSome?]
  congr 1
  funext r
  exact r.path?_comm hab

/-- The first relationship between two models counts. -/
theorem path?_build_eq_find? (rs : List Registration) {a b : String} (hab : a ≠ b) :
    (build rs).path? a b =
      ((rs.filterMap Registration.relationship?).find? fun r => r.Connects a b).map
        (·.pathFrom a) := by
  rw [build_path?]
  induction rs.filterMap Registration.relationship? with
  | nil => rfl
  | cons r rest ih =>
    rw [List.findSome?_cons, List.find?_cons, r.path?_eq hab, ih]
    by_cases hr : r.Connects a b <;> simp [hr]

theorem lookups_build_reversed (before after : List Registration) {r : Relationship}
    (h : r.source ≠ r.target) :
    (build (before ++ .relationship r.reversed :: after)).lookups =
      (build (before ++ .relationship r :: after)).lookups := by
  have htables : (build (before ++ .relationship r.reversed :: after)).tables =
      (build (before ++ .relationship r :: after)).tables := by
    unfold build
    rw [List.foldl_append, List.foldl_append, List.foldl_cons, List.foldl_cons]
    exact foldl_tables rfl
  apply Prod.ext
  · funext model
    exact congrArg (Dictionary.get? model) htables
  · funext a b
    change path? _ a b = path? _ a b
    simp only [build_path?, List.filterMap_append, List.filterMap_cons,
      Registration.relationship?, List.findSome?_append, List.findSome?_cons, r.path?_reversed h]

end Metadata

theorem lower_lookups {m m' : Metadata} (h : m'.lookups = m.lookups) (d : Dialect)
    (s : Statement) : lower m' d s = lower m d s := by
  have hsimilar : Target.Similar ⟨m, d⟩ ⟨m', d⟩ := ⟨h, rfl, fun _ => rfl⟩
  unfold lower
  rw [hsimilar.statement_eq rfl s]

/-- Two models are connected by the first relationship that is registered between them, from
whichever end, and each sees it from its own side. Nor does the translation of any statement tell
from which end a relationship is registered. -/
theorem relationships_both_ways {a b : String} (hab : a ≠ b) :
    (∀ rs : List Registration,
      (Metadata.build rs).path? b a =
        ((Metadata.build rs).path? a b).map JoinPath.reversed ∧
      (Metadata.build rs).path? a b =
        ((rs.filterMap Registration.relationship?).find? fun r => r.Connects a b).map
          (·.pathFrom a)) ∧
    ∀ (before after : List Registration) (path : JoinPath) (d : Dialect) (s : Statement),
      lower (.build (before ++ .relationship ⟨b, a, path.reversed⟩ :: after)) d s =
        lower (.build (before ++ .relationship ⟨a, b, path⟩ :: after)) d s := by
  refine ⟨fun rs => ⟨Metadata.path?_build_comm rs hab, Metadata.path?_build_eq_find? rs hab⟩, ?_⟩
  intro before after path d s
  exact lower_lookups (Metadata.lookups_build_reversed before after (r := ⟨a, b, path⟩) hab) d s

/-- Authors and books, without a relationship between them. -/
def shelves : List Registration :=
  [.table ⟨"Author", "authors", [⟨"name", .text⟩]⟩,
    .table ⟨"Book", "books", [⟨"author", .text⟩, ⟨"editor", .text⟩]⟩]

/-- The shelves with two relationships, of which the second is registered for authors first. -/
def catalogue (first : Relationship) : Metadata :=
  .build (shelves ++ .relationship first ::
    [.relationship ⟨"Author", "Book", ⟨["name"], ["editor"]⟩⟩])

/-- Authors with their books, joined by what is known of the two models. -/
def joined : Statement :=
  let p : Position := .start
  .select ⟨false, [⟨.identifier p "name", none⟩], [⟨"Author", none, p⟩],
    [⟨.inner, ⟨"Book", none, p⟩, none, p⟩], none, [], none, [], none, p⟩

theorem relationships_both_ways_catalogue : "Book" ≠ "Author" ∧
    (catalogue ⟨"Book", "Author", ⟨["author"], ["name"]⟩⟩).path? "Author" "Book" =
      ((catalogue ⟨"Book", "Author", ⟨["author"], ["name"]⟩⟩).path? "Book" "Author").map
        JoinPath.reversed ∧
    lower (catalogue ⟨"Author", "Book", ⟨["name"], ["author"]⟩⟩) .generic joined =
      lower (catalogue ⟨"Book", "Author", ⟨["author"], ["name"]⟩⟩) .generic joined ∧
    (lower (catalogue ⟨"Author", "Book", ⟨["name"], ["author"]⟩⟩) .generic joined).toOption.isSome :=
  have hne : "Book" ≠ "Author" := by decide
  ⟨hne, ((relationships_both_ways hne).1 _).1,
    (relationships_both_ways hne).2 shelves _ ⟨["author"], ["name"]⟩ .generic joined,
    by decide +kernel⟩

end EmbeddedLang.Query
