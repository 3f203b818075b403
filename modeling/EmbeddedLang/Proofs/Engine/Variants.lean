import EmbeddedLang.Engine.Template
import EmbeddedLang.Proofs.Dictionary
import EmbeddedLang.Proofs.Text.PrefixFree

/-!
What the variant of a template engine tells of its configuration.

The mode can always be read from it. The names of directives stand in it as they are, and two tables
can share a variant only if a name of one begins with an entry of the other and a comma.
-/

namespace EmbeddedLang.Template

theorem TagKind.name_prefixFree : Text.PrefixFree fun k : TagKind => k.name.toList := by
  intro k k' s s' h
  cases k <;> cases k' <;> simp_all [TagKind.name]

theorem TagKind.equals_notMem_name (k : TagKind) : '=' ∉ k.name.toList := by
  cases k <;> decide

/-- An entry as the signature has it. -/
def spell (entry : String × TagKind) : List Char :=
  entry.1.toList ++ '=' :: entry.2.name.toList

/-- A name in `t'` begins as an entry of `t` that is not the last. -/
def Imitates (t' t : ExtensionTable) : Prop :=
  ∃ entry ∈ t, ∃ entry' ∈ t', spell entry ++ [','] <+: entry'.1.toList

instance (t' t : ExtensionTable) : Decidable (Imitates t' t) :=
  inferInstanceAs (Decidable (∃ entry ∈ t, ∃ entry' ∈ t', _))

/-! ### Reading a signature -/

/-- The entries with a comma before each. -/
def listed (t : ExtensionTable) : List Char :=
  t.flatMap fun entry => ',' :: spell entry

theorem listed_cons (entry : String × TagKind) (t : ExtensionTable) :
    listed (entry :: t) = ',' :: (spell entry ++ listed t) := by
  simp [listed]

theorem listed_cases (t : ExtensionTable) : listed t = [] ∨ ∃ s, listed t = ',' :: s := by
  cases t with
  | nil => exact .inl rfl
  | cons entry t => exact .inr ⟨_, listed_cons entry t⟩

theorem toList_signature (t : ExtensionTable) :
    (signature t).toList = [','].intercalate (t.map spell) := by
  have hspell : (fun entry : String × TagKind => (entry.1 ++ "=" ++ entry.2.name).toList) = spell := by
    funext entry
    simp [spell]
  rw [signature, String.toList_intercalate, List.map_map, ← hspell]
  rfl

theorem listed_eq {t : ExtensionTable} (h : t ≠ []) : listed t = ',' :: (signature t).toList := by
  rw [toList_signature, Text.cons_intercalate ',' (by simpa using h), listed, List.flatMap_map]

theorem signature_ne_empty {t : ExtensionTable} (h : t ≠ []) : signature t ≠ "" := by
  intro he
  obtain ⟨entry, rest, rfl⟩ := List.exists_cons_of_ne_nil h
  have hlisted := listed_eq h
  rw [he, listed_cons] at hlisted
  simp [spell] at hlisted

theorem listed_eq_of_signature {t t' : ExtensionTable} (h : signature t = signature t') :
    listed t = listed t' := by
  by_cases ht : t = []
  · by_cases ht' : t' = []
    · rw [ht, ht']
    · rw [ht] at h
      exact absurd h.symm (signature_ne_empty ht')
  · by_cases ht' : t' = []
    · rw [ht'] at h
      exact absurd h (signature_ne_empty ht)
    · rw [listed_eq ht, listed_eq ht', h]

/-- Either a name ends where it seems to end, or it goes on as the whole entry and a comma do. -/
theorem longer_name {k k' : TagKind} {u s s' : List Char} (hs : s = [] ∨ ∃ v, s = ',' :: v)
    (h : '=' :: (k.name.toList ++ s) = u ++ '=' :: (k'.name.toList ++ s')) :
    (u = [] ∧ k = k' ∧ s = s') ∨ '=' :: (k.name.toList ++ [',']) <+: u := by
  cases u with
  | nil =>
    obtain ⟨hk, hs'⟩ := TagKind.name_prefixFree k k' s s' (List.cons.inj h).2
    exact .inl ⟨rfl, hk, hs'⟩
  | cons x u =>
    obtain ⟨rfl, hrest⟩ := List.cons.inj h
    right
    rcases List.append_eq_append_iff.mp hrest with ⟨v, rfl, hv⟩ | ⟨v, hv, hw⟩
    · -- the second entry begins after the kind, so after a comma
      rcases hs with rfl | ⟨w, rfl⟩
      · simp at hv
      · cases v with
        | nil => simp at hv
        | cons y v =>
          obtain ⟨rfl, -⟩ := List.cons.inj hv
          exact ⟨v, by simp⟩
    · cases v with
      | nil =>
        rcases hs with rfl | ⟨w, rfl⟩ <;> simp at hw
      | cons y v =>
        obtain ⟨rfl, -⟩ := List.cons.inj hw
        have hmem : '=' ∈ k.name.toList := by simp [hv]
        exact absurd hmem k.equals_notMem_name

theorem spell_cases {entry entry' : String × TagKind} {s s' : List Char}
    (hs : s = [] ∨ ∃ v, s = ',' :: v) (hs' : s' = [] ∨ ∃ v, s' = ',' :: v)
    (h : spell entry ++ s = spell entry' ++ s') :
    (entry = entry' ∧ s = s') ∨ spell entry ++ [','] <+: entry'.1.toList ∨
      spell entry' ++ [','] <+: entry.1.toList := by
  obtain ⟨name, k⟩ := entry
  obtain ⟨name', k'⟩ := entry'
  simp only [spell, List.append_assoc, List.cons_append] at h ⊢
  rcases List.append_eq_append_iff.mp h with ⟨u, hname, hu⟩ | ⟨u, hname, hu⟩
  · rcases longer_name hs hu with ⟨rfl, rfl, rfl⟩ | hlonger
    · left
      simp only [List.append_nil] at hname
      exact ⟨by rw [String.toList_inj.mp hname], rfl⟩
    · right; left
      rw [hname]
      exact List.prefix_append_right_inj _ |>.mpr hlonger
  · rcases longer_name hs' hu with ⟨rfl, rfl, rfl⟩ | hlonger
    · left
      simp only [List.append_nil] at hname
      exact ⟨by rw [String.toList_inj.mp hname], rfl⟩
    · right; right
      rw [hname]
      exact List.prefix_append_right_inj _ |>.mpr hlonger

theorem listed_inj {t t' : ExtensionTable} (ht : ¬ Imitates t t') (ht' : ¬ Imitates t' t)
    (h : listed t = listed t') : t = t' := by
  induction t generalizing t' with
  | nil =>
    cases t' with
    | nil => rfl
    | cons entry' t' => simp [listed] at h
  | cons entry t ih =>
    cases t' with
    | nil => simp [listed] at h
    | cons entry' t' =>
      rw [listed_cons, listed_cons] at h
      rcases spell_cases (listed_cases t) (listed_cases t') (List.cons.inj h).2 with
        ⟨rfl, hrest⟩ | hlonger | hlonger
      · have hrest := ih
          (fun ⟨e, he, e', he', hp⟩ => ht ⟨e, List.mem_cons_of_mem _ he, e', List.mem_cons_of_mem _ he', hp⟩)
          (fun ⟨e, he, e', he', hp⟩ => ht' ⟨e, List.mem_cons_of_mem _ he, e', List.mem_cons_of_mem _ he', hp⟩)
          hrest
        rw [hrest]
      · exact absurd ⟨entry, List.mem_cons_self, entry', List.mem_cons_self, hlonger⟩ ht'
      · exact absurd ⟨entry', List.mem_cons_self, entry, List.mem_cons_self, hlonger⟩ ht

/-! ### Variants -/

theorem mode_inj {b b' : Bool} {s s' : String} (h : toString b ++ s = toString b' ++ s') :
    b = b' ∧ s = s' := by
  have hlist := congrArg String.toList h
  rw [String.toList_append, String.toList_append] at hlist
  have htrue : (toString true).toList = ['t', 'r', 'u', 'e'] := rfl
  have hfalse : (toString false).toList = ['f', 'a', 'l', 's', 'e'] := rfl
  cases b <;> cases b' <;> simp_all

theorem variant_eq_iff {o o' : Options} : o.variant = o'.variant ↔
    o.autoescape = o'.autoescape ∧ signature o.extensions = signature o'.extensions := by
  constructor
  · intro h
    simp only [Options.variant, String.append_assoc, String.append_right_inj] at h
    obtain ⟨hmode, hrest⟩ := mode_inj h
    exact ⟨hmode, by simpa using hrest⟩
  · rintro ⟨hmode, hsignature⟩
    simp [Options.variant, hmode, hsignature]

theorem extensions_eq_of_variant {o o' : Options} (hi : ¬ Imitates o.extensions o'.extensions)
    (hi' : ¬ Imitates o'.extensions o.extensions) (h : o.variant = o'.variant) : o = o' := by
  obtain ⟨hmode, hsignature⟩ := variant_eq_iff.mp h
  have hext := listed_inj hi hi' (listed_eq_of_signature hsignature)
  cases o
  cases o'
  simp_all

end EmbeddedLang.Template

namespace EmbeddedLang.TemplateEngine

open Template

/-- An engine for the directives that were registered, one after the other. -/
def configured (entries : List (String × TagKind)) (autoescape : Bool) : TemplateEngine :=
  (make (.ofList entries)).withAutoescape autoescape

/-- The text that the fingerprints of an engine take for its configuration. -/
def variant (e : TemplateEngine) : String :=
  e.language.variant e.config

/-- Two engines with one variant escape alike and have one signature. Unless a name in one of them
begins with an entry of the other and a comma, they have the same directives, and so they compile every source
alike. -/
theorem variant_exact (entries entries' : List (String × TagKind)) (b b' : Bool) :
    let e := configured entries b
    let e' := configured entries' b'
    let t := e.config.extensions
    let t' := e'.config.extensions
    (e.variant = e'.variant ↔ b = b' ∧ signature t = signature t') ∧
    ((∀ name, Dictionary.get? name t = Dictionary.get? name t') → signature t = signature t') ∧
    (¬ Imitates t t' → ¬ Imitates t' t → e.variant = e'.variant →
      b = b' ∧ (∀ name, Dictionary.get? name t = Dictionary.get? name t') ∧
        ∀ source, e.compile source = e'.compile source) := by
  intro e e' t t'
  refine ⟨variant_eq_iff, fun hsame => ?_, fun hi hi' h => ?_⟩
  · have hext : t = t' :=
      (Dictionary.sorted_ofList entries).ext (Dictionary.sorted_ofList entries') hsame
    rw [hext]
  · have hconfig : e.config = e'.config := extensions_eq_of_variant hi hi' h
    have hext : t = t' := congrArg Options.extensions hconfig
    refine ⟨(variant_eq_iff.mp h).1, fun name => by rw [hext], fun source => ?_⟩
    exact congrArg (fun o => Template.language.compile o source) hconfig

/-- The same directives, registered in another order and once more. -/
theorem variant_exact_reordered :
    let e := configured [("a", .inline), ("b=inline", .block), ("a", .block)] true
    let e' := configured [("b=inline", .block), ("a", .block)] true
    let t := e.config.extensions
    let t' := e'.config.extensions
    (¬ Imitates t t' ∧ ¬ Imitates t' t ∧ e.variant = e'.variant) ∧
      Dictionary.get? "a" t = Dictionary.get? "a" t' ∧
      ∀ source, e.compile source = e'.compile source := by
  intro e e' t t'
  have hi : ¬ Imitates t t' := by decide +kernel
  have hi' : ¬ Imitates t' t := by decide +kernel
  have hvariant : e.variant = e'.variant := by decide +kernel
  obtain ⟨-, hsame, hcompile⟩ := (variant_exact _ _ _ _).2.2 hi hi' hvariant
  exact ⟨⟨hi, hi', hvariant⟩, hsame "a", hcompile⟩

/-- One directive with a name that reads as an entry and the beginning of another. -/
theorem imitation_variant :
    let e := configured [("a", .inline), ("b", .inline)] true
    let e' := configured [("a=inline,b", .inline)] true
    e.variant = e'.variant ∧
      Dictionary.get? "a" e.config.extensions ≠ Dictionary.get? "a" e'.config.extensions ∧
      e.compile "\x7b% a %\x7d" ≠ e'.compile "\x7b% a %\x7d" := by
  intro e e'
  refine ⟨by decide +kernel, by decide +kernel, fun h => ?_⟩
  have hsome := congrArg (fun result => result.toOption.isSome) h
  revert hsome
  decide +kernel

end EmbeddedLang.TemplateEngine
