import EmbeddedLang.Proofs.Query.Numbering
import Mathlib.Data.List.Nodup

/-!
What a placeholder with a name tells of its bind.

A parameter that the caller names keeps its name, and all other binds are named after their numbers.
No two of these have one name, nor have two parameters. A parameter may have the name of another
bind.
-/

namespace EmbeddedLang.Query

/-! ### Numbers of binds -/

theorem Outline.map_index_numbered (index : Nat) (slots : List Slot) :
    (numbered index slots).map (·.index) = List.range' index slots.length := by
  induction slots generalizing index with
  | nil => rfl
  | cons slot rest ih => rw [numbered_cons, List.map_cons, ih, List.length_cons, List.range'_succ]

/-- A bind is known by its number. -/
theorem Fragment.eq_of_index {f : Fragment} {style : PlaceholderStyle} {b b' : Bind}
    (hb : b ∈ (f.finish style).2) (hb' : b' ∈ (f.finish style).2) (h : b.index = b'.index) :
    b = b' := by
  have hnodup : ((f.finish style).2.map (·.index)).Nodup := by
    unfold finish
    rw [finishFrom_eq_outline, Outline.map_index_numbered]
    exact List.nodup_range'
  exact List.inj_on_of_nodup_map hnodup hb hb' h

theorem toString_index_inj {i j : Nat} (h : toString i = toString j) : i = j := by
  have hdigits := congrArg (fun s => Nat.ofDigitChars 10 s.toList 0) h
  simpa [Nat.toString_eq_ofList_toDigits, Nat.ofDigitChars_ten_toDigits] using hdigits

/-! ### Names -/

/-- The name that the caller has for the bind. -/
def BindSource.name? : BindSource → Option String
  | .named name => some name
  | _ => none

theorem BindSource.eq_named {source : BindSource} {name : String} (h : source.name? = some name) :
    source = .named name := by
  cases source with
  | named name' => exact congrArg BindSource.named (Option.some.inj h)
  | _ => cases h

namespace Bind

/-- The name of the bind in SQL. -/
def spelled (b : Bind) : String :=
  b.source.name?.getD ("p" ++ toString b.index)

theorem placeholder_named (b : Bind) :
    PlaceholderStyle.named.placeholder b.index b.source = ":" ++ b.spelled := by
  have hp : ":p" = ":" ++ "p" := by decide
  unfold spelled
  cases b.source with
  | named name => rfl
  | _ => exact (congrArg (· ++ toString b.index) hp).trans String.append_assoc

/-- A parameter of the caller has the name that is made up for another bind. -/
def Takes (b b' : Bind) : Prop :=
  b.source.name? = some ("p" ++ toString b'.index) ∧ b'.source.name? = none

/-- Two binds have one name if they are one parameter or one bind, or if one takes the name of the
other. -/
theorem spelled_cases {b b' : Bind} (h : b.spelled = b'.spelled) :
    (∃ name, b.source = .named name ∧ b'.source = .named name) ∨ b.index = b'.index ∨
      b.Takes b' ∨ b'.Takes b := by
  unfold spelled at h
  cases hb : b.source.name? with
  | some name =>
    cases hb' : b'.source.name? with
    | some name' =>
      rw [hb, hb'] at h
      obtain rfl : name = name' := h
      exact .inl ⟨name, b.source.eq_named hb, b'.source.eq_named hb'⟩
    | none =>
      rw [hb, hb'] at h
      obtain rfl : name = "p" ++ toString b'.index := h
      exact .inr (.inr (.inl ⟨hb, hb'⟩))
  | none =>
    cases hb' : b'.source.name? with
    | some name' =>
      rw [hb, hb'] at h
      obtain rfl : "p" ++ toString b.index = name' := h
      exact .inr (.inr (.inr ⟨hb', hb⟩))
    | none =>
      rw [hb, hb'] at h
      have hindex := (String.append_right_inj "p").mp h
      exact .inr (.inl (toString_index_inj hindex))

theorem Takes.source_ne {b b' : Bind} (h : b.Takes b') : b.source ≠ b'.source := by
  intro heq
  have hsome := h.1
  rw [heq, h.2] at hsome
  cases hsome

end Bind

/-- Placeholders of one text stand for one source, unless one is a parameter that takes the name of
the other. -/
def TellSources (binds : List Bind) : Prop :=
  ∀ b ∈ binds, ∀ b' ∈ binds,
    PlaceholderStyle.named.placeholder b.index b.source =
        PlaceholderStyle.named.placeholder b'.index b'.source →
      (b.source = b'.source ↔ ¬ (b.Takes b' ∨ b'.Takes b))

theorem Fragment.finish_tellSources (f : Fragment) : TellSources (f.finish .named).2 := by
  intro b hb b' hb' htext
  rw [b.placeholder_named, b'.placeholder_named] at htext
  have hspelled := (String.append_right_inj ":").mp htext
  constructor
  · intro hsource htakes
    rcases htakes with h | h
    · exact h.source_ne hsource
    · exact h.source_ne hsource.symm
  · intro hfree
    rcases Bind.spelled_cases hspelled with ⟨name, hname, hname'⟩ | hindex | htakes
    · rw [hname, hname']
    · rw [eq_of_index hb hb' hindex]
    · exact absurd htakes hfree

/-- In the named style the placeholders of a text tell what they stand for, as far as no parameter
of the caller takes the name of another bind. -/
theorem named_tellSources {d : Dialect} (hd : d.style = .named) :
    (∀ f : Fragment, TellSources (f.finish d.style).2 ∧
      ∀ name, f.outline.Describes .named ⟨(f.finish d.style).1, (f.finish d.style).2, name⟩) ∧
    ∀ m s q, lower m d s = .ok q → TellSources q.binds ∧ ∃ o : Outline, o.Describes .named q := by
  have hfinish (f : Fragment) : TellSources (f.finish d.style).2 ∧
      ∀ name, f.outline.Describes .named ⟨(f.finish d.style).1, (f.finish d.style).2, name⟩ := by
    rw [hd]
    exact ⟨f.finish_tellSources, f.outline_describes .named⟩
  refine ⟨hfinish, ?_⟩
  intro m s q h
  obtain ⟨f, _, rfl⟩ := lower_eq_ok_iff.mp h
  obtain ⟨htell, hdescribes⟩ := hfinish f
  exact ⟨htell, f.outline, hdescribes d.name⟩

/-- A dialect that names its placeholders. -/
def colon : Dialect :=
  .bare "colon" Dialect.doubleQuotes .named

/-- Authors born between a year and a parameter of the caller. -/
def bornBetween (parameter : String) : Statement :=
  let p : Position := .start
  .select ⟨false, [⟨.identifier p "name", none⟩], [⟨"Author", none, p⟩], [],
    some (.between p (.identifier p "born") (.literal p (.integer 1900))
      (.placeholder p (.named parameter)) false), [], none, [], none, p⟩

theorem named_tellSources_bornBetween : colon.style = .named ∧
    ∃ q, lower library colon (bornBetween "p2") = .ok q ∧
      TellSources q.binds ∧ ∃ o : Outline, o.Describes .named q := by
  have hs : (lower library colon (bornBetween "p2")).toOption.isSome := by decide +kernel
  obtain ⟨q, h⟩ := exists_ok_of_isSome hs
  exact ⟨rfl, q, h, (named_tellSources rfl).2 library (bornBetween "p2") q h⟩

/-- The parameter takes the name of the year. -/
theorem taken_name_not_told : ∃ q, lower library colon (bornBetween "p1") = .ok q ∧
    q.sql = "SELECT \"name\" FROM \"authors\" WHERE \"born\" BETWEEN :p1 AND :p1" ∧
    ∃ b ∈ q.binds, ∃ b' ∈ q.binds,
      colon.style.placeholder b.index b.source = colon.style.placeholder b'.index b'.source ∧
        b.source ≠ b'.source := by
  have hs : (lower library colon (bornBetween "p1")).toOption.any fun q =>
      q.sql == "SELECT \"name\" FROM \"authors\" WHERE \"born\" BETWEEN :p1 AND :p1" &&
      q.binds.any fun b => q.binds.any fun b' =>
        colon.style.placeholder b.index b.source == colon.style.placeholder b'.index b'.source &&
          b.source.name? != b'.source.name? := by decide +kernel
  obtain ⟨q, h, hq⟩ := exists_ok_of_any hs
  simp only [Bool.and_eq_true, List.any_eq_true, beq_iff_eq, bne_iff_ne] at hq
  obtain ⟨hsql, b, hb, b', hb', htext, hname⟩ := hq
  exact ⟨q, h, hsql, b, hb, b', hb', htext, fun heq => hname (congrArg _ heq)⟩

end EmbeddedLang.Query
