import EmbeddedLang.Proofs.Query.Correspondence
import EmbeddedLang.Proofs.Returns

/-!
Binds are numbered in the order in which their placeholders stand in the SQL.

An outline is a fragment with its text put together. It is what dialects share that differ in their
placeholders only.
-/

namespace EmbeddedLang.Query

/-- A bind without its number, and the text from its placeholder to the next one. -/
structure Slot where
  source : BindSource
  type : Option ColumnType
  after : String

structure Outline where
  head : String
  slots : List Slot

namespace Outline

def written (style : PlaceholderStyle) (index : Nat) : List Slot → String
  | [] => ""
  | slot :: rest =>
    style.placeholder index slot.source ++ (slot.after ++ written style (index + 1) rest)

def numbered (index : Nat) (slots : List Slot) : List Bind :=
  slots.mapIdx fun i slot => ⟨index + i, slot.source, slot.type⟩

theorem numbered_cons (index : Nat) (slot : Slot) (rest : List Slot) :
    numbered index (slot :: rest) =
      ⟨index, slot.source, slot.type⟩ :: numbered (index + 1) rest := by
  unfold numbered
  rw [List.mapIdx_cons]
  refine congrArg (_ :: ·) (congrArg (List.mapIdx · rest) ?_)
  funext i slot
  rw [Nat.add_right_comm]
  rfl

theorem literals_numbered (index : Nat) (slots : List Slot) :
    (numbered index slots).filterMap (·.source.literal?) =
      slots.filterMap (·.source.literal?) := by
  induction slots generalizing index with
  | nil => rfl
  | cons slot rest ih =>
    rw [numbered_cons, List.filterMap_cons, List.filterMap_cons, ih]

/-- The query of an outline: placeholders between its texts, a bind for each, in one order. -/
structure Describes (o : Outline) (style : PlaceholderStyle) (q : CompiledQuery) : Prop where
  sql : q.sql = o.head ++ written style 1 o.slots
  binds : q.binds = numbered 1 o.slots
  literals : q.literalValues = o.slots.filterMap (·.source.literal?)

end Outline

namespace Fragment

def outline : Fragment → Outline
  | [] => ⟨"", []⟩
  | .bind source type :: rest =>
    ⟨"", ⟨source, type, (outline rest).head⟩ :: (outline rest).slots⟩
  | piece :: rest => ⟨piece.words ++ (outline rest).head, (outline rest).slots⟩

theorem outline_cons {p : Piece} (h : p.isBind = false) (rest : Fragment) :
    outline (p :: rest) = ⟨p.words ++ rest.outline.head, rest.outline.slots⟩ := by
  cases p with
  | bind => exact Bool.noConfusion h
  | _ => rfl

theorem finishFrom_eq_outline (style : PlaceholderStyle) (index : Nat) (f : Fragment) :
    f.finishFrom style index =
      (f.outline.head ++ Outline.written style index f.outline.slots,
        Outline.numbered index f.outline.slots) := by
  induction f generalizing index with
  | nil => rfl
  | cons piece rest ih =>
    cases hp : piece.isBind with
    | false =>
      rw [finishFrom_cons style index hp, outline_cons hp, ih, String.append_assoc]
    | true =>
      obtain ⟨source, type, rfl⟩ : ∃ source type, piece = .bind source type := by
        cases piece with
        | bind source type => exact ⟨source, type, rfl⟩
        | _ => exact Bool.noConfusion hp
      rw [finishFrom_bind, ih, outline, Outline.written, Outline.numbered_cons, String.empty_append]

theorem Mapped.eq {f f' : Fragment} (h : Mapped id f f') : f = f' := by
  induction h with
  | nil => rfl
  | cons hp _ ih =>
    cases hp with
    | same => rw [ih]
    | parameter => rw [ih]
    | literal hint hv hw =>
      obtain rfl : _ = _ := Option.some.inj (hv.symm.trans hw)
      rw [ih]

theorem outline_describes (f : Fragment) (style : PlaceholderStyle) (name : String) :
    f.outline.Describes style ⟨(f.finish style).1, (f.finish style).2, name⟩ := by
  unfold finish
  rw [finishFrom_eq_outline]
  exact ⟨rfl, rfl, Outline.literals_numbered 1 f.outline.slots⟩

end Fragment

theorem Target.Similar.statement_eq {t t' : Target} (h : Similar t t')
    (hname : t'.dialect.name = t.dialect.name) (s : Statement) :
    t'.statement s = t.statement s := by
  have hs := Target.statement_same h (r := id) (fun _ => Iff.rfl) s
  rw [Statement.mapLiterals_id] at hs
  generalize t.statement s = result at hs ⊢
  generalize t'.statement s = result' at hs ⊢
  cases hs with
  | ok hf => rw [hf.eq]
  | error he =>
    rw [hname] at he
    rw [he.eq]

theorem Target.statement_restyled {m : Metadata} {d : Dialect} {s : Statement} {f : Fragment}
    (h : Target.statement ⟨m, d⟩ s = .ok f) (name : String) (style : PlaceholderStyle) :
    Target.statement ⟨m, { d with name, style }⟩ s = .ok f := by
  have ht : Target.Similar ⟨m, d⟩ ⟨m, { d with name, style }⟩ := ⟨rfl, rfl, fun _ => rfl⟩
  have hs := Target.statement_same ht (r := id) (fun _ => Iff.rfl) s
  rw [Statement.mapLiterals_id, h] at hs
  generalize Target.statement ⟨m, { d with name, style }⟩ s = result at hs ⊢
  cases hs with
  | ok hf => rw [hf.eq]

theorem lower_eq_ok_iff {m : Metadata} {d : Dialect} {s : Statement} {q : CompiledQuery} :
    lower m d s = .ok q ↔ ∃ f, Target.statement ⟨m, d⟩ s = .ok f ∧
      q = ⟨(f.finish d.style).1, (f.finish d.style).2, d.name⟩ := by
  unfold lower
  cases Target.statement ⟨m, d⟩ s with
  | error e =>
    constructor
    · intro h
      cases h
    · rintro ⟨f, hf, _⟩
      cases hf
  | ok f =>
    constructor
    · intro h
      cases h
      exact ⟨f, rfl, rfl⟩
    · rintro ⟨_, hf, rfl⟩
      cases hf
      rfl

/-- The outline does not depend on how the dialect is called and writes its placeholders. -/
theorem lower_outline {m : Metadata} {d : Dialect} {s : Statement} {q : CompiledQuery}
    (h : lower m d s = .ok q) : ∃ o : Outline, o.Describes d.style q ∧
      ∀ name style, ∃ q', lower m { d with name, style } s = .ok q' ∧ o.Describes style q' := by
  obtain ⟨f, hf, rfl⟩ := lower_eq_ok_iff.mp h
  refine ⟨f.outline, f.outline_describes d.style d.name, ?_⟩
  intro name style
  refine ⟨_, lower_eq_ok_iff.mpr ⟨f, Target.statement_restyled hf name style, rfl⟩, ?_⟩
  exact f.outline_describes style name

/-- The models of the examples: authors and the books that they wrote. -/
def library : Metadata :=
  let authors : Table := ⟨"Author", "authors", [⟨"name", .text⟩, ⟨"born", .integer⟩]⟩
  let books : Table := ⟨"Book", "books", [⟨"title", .text⟩, ⟨"author", .text⟩, ⟨"year", .integer⟩]⟩
  ((Metadata.empty.addTable authors).addTable books).addRelationship
    ⟨"Book", "Author", ⟨["author"], ["name"]⟩⟩

/-- A page of authors, its two numbers in one order or the other. -/
def page : Statement :=
  let p : Position := .start
  .select ⟨false, [⟨.identifier p "name", none⟩], [⟨"Author", none, p⟩], [],
    some (.binary p .gt (.identifier p "born") (.placeholder p (.named "after"))), [], none, [],
    some ⟨.literal p (.integer 10), some (.literal p (.integer 20))⟩, p⟩

theorem lower_outline_page : ∃ q, lower library .mysql page = .ok q ∧
    ∃ o : Outline, o.Describes .question q ∧ ∀ name style, ∃ q',
      lower library { Dialect.mysql with name, style } page = .ok q' ∧ o.Describes style q' := by
  have hs : (lower library .mysql page).toOption.isSome := by decide +kernel
  obtain ⟨q, h⟩ := exists_ok_of_isSome hs
  exact ⟨q, h, lower_outline h⟩

end EmbeddedLang.Query
