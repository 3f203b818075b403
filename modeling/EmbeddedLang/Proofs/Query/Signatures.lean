import EmbeddedLang.Proofs.Query.Numbering
import EmbeddedLang.Proofs.Text.PrefixFree
import EmbeddedLang.Query.Construct
import Mathlib.Data.List.Nodup

/-!
What the signature of a dialect tells.

The entries of a signature are sorted, so that their order in the dialect does not matter. They are
read back from it unless a template looks as if another entry began inside it, since nothing in a
template is escaped.

Of all constructs only the functions have names of their own. The others are a table, in which the
keys are compared one with another.
-/

namespace EmbeddedLang.Query

/-! ### Keys -/

namespace Construct

def binaryOps : List BinaryOp :=
  [.or, .and, .eq, .notEq, .identical, .notIdentical, .lt, .gt, .ltEq, .gtEq, .like, .notLike,
    .iLike, .notILike, .in, .notIn, .add, .sub, .mul, .div, .floorDiv, .mod, .pow, .concat, .range,
    .bitAnd, .bitOr, .bitXor]

/-- All constructs but the functions. -/
def fixed : List Construct :=
  binaryOps.map binary ++ [unary .not, unary .neg, unary .plus, unary .bitNot, join .inner,
    join .left, join .right, join .full, join .cross, limit, limitOffset, updateLimit, deleteLimit]

theorem mem_fixed (c : Construct) : c ∈ fixed ∨ ∃ name, c = function name := by
  cases c with
  | function name => exact .inr ⟨name, rfl⟩
  | binary op => cases op <;> exact .inl (by decide)
  | unary op => cases op <;> exact .inl (by decide)
  | join kind => cases kind <;> exact .inl (by decide)
  | _ => exact .inl (by decide)

/-- The key as it stands before a template. -/
def label (c : Construct) : List Char :=
  (c.key ++ "=").toList

theorem label_eq (c : Construct) : c.label = c.key.toList ++ ['='] :=
  String.toList_append

theorem label_function (name : String) :
    (function name).label = "Function(".toList ++ ((Text.quoted name).toList ++ [')', '=']) := by
  simp only [label_eq, key, String.toList_append, List.append_assoc]
  rfl

theorem fixed_key_inj {c c' : Construct} (hc : c ∈ fixed) (hc' : c' ∈ fixed)
    (h : c.key = c'.key) : c = c' := by
  have hall : (fixed.map key).Nodup := by decide +kernel
  exact List.inj_on_of_nodup_map hall hc hc' h

/-- No mark of a signature is in a key of the table, and none begins as those of functions do. -/
theorem fixed_key_plain : ∀ c ∈ fixed,
    '=' ∉ c.key.toList ∧ ';' ∉ c.key.toList ∧ c.key.toList.head? ≠ some 'F' := by
  decide +kernel

theorem fixed_label_prefixFree {c c' : Construct} (hc : c ∈ fixed) (hc' : c' ∈ fixed)
    {s t : List Char} (h : c.label ++ s = c'.label ++ t) : c = c' ∧ s = t := by
  rw [label_eq, label_eq, List.append_assoc, List.append_assoc] at h
  obtain ⟨hkey, hrest⟩ := Text.mark_inj (fixed_key_plain c hc).1 (fixed_key_plain c' hc').1 h
  exact ⟨fixed_key_inj hc hc' (String.toList_inj.mp hkey), hrest⟩

theorem label_ne_function {c : Construct} (hc : c ∈ fixed) (name : String) (s t : List Char) :
    c.label ++ s ≠ (function name).label ++ t := by
  intro h
  have hhead := (fixed_key_plain c hc).2.2
  rw [label_function, label_eq] at h
  cases hkey : c.key.toList with
  | nil =>
    rw [hkey] at h
    exact absurd (List.cons.inj h).1 (by decide)
  | cons x rest =>
    rw [hkey] at h hhead
    exact hhead (congrArg some (List.cons.inj h).1)

theorem label_prefixFree : Text.PrefixFree label := by
  intro c c' s t h
  rcases mem_fixed c with hc | ⟨name, rfl⟩
  · rcases mem_fixed c' with hc' | ⟨name, rfl⟩
    · exact fixed_label_prefixFree hc hc' h
    · exact absurd h (label_ne_function hc name s t)
  · rcases mem_fixed c' with hc' | ⟨name', rfl⟩
    · exact absurd h.symm (label_ne_function hc' name t s)
    · -- the names are told apart by what is quoted, even if one begins the other
      simp only [label_function, List.append_assoc] at h
      obtain ⟨hname, hrest⟩ := Text.quoted_prefixFree name name' _ _ (List.append_cancel_left h)
      exact ⟨congrArg function hname, List.append_cancel_left hrest⟩

/-- The beginning of a label, as far as it is not for a name to choose. -/
def lead : Construct → List Char
  | function _ => "Function(".toList ++ ['"']
  | c => c.label

theorem lead_eq_label {c : Construct} (hc : c ∈ fixed) : c.lead = c.label := by
  cases c with
  | function name => exact absurd rfl (label_ne_function hc name [] [])
  | _ => rfl

theorem lead_isPrefix_label (c : Construct) : c.lead <+: c.label := by
  rcases mem_fixed c with hc | ⟨name, rfl⟩
  · exact ⟨[], (List.append_nil _).trans (lead_eq_label hc)⟩
  · rw [label_function]
    apply List.prefix_append_right_inj _ |>.mpr
    rw [Text.quoted, String.toList_ofList]
    exact List.prefix_append ['"'] _

theorem semicolon_notMem_lead (c : Construct) : ';' ∉ c.lead := by
  rcases mem_fixed c with hc | ⟨name, rfl⟩
  · rw [lead_eq_label hc, label_eq]
    intro h
    rcases List.mem_append.mp h with h | h
    · exact (fixed_key_plain c hc).2.1 h
    · exact absurd h (by decide)
  · have hlead : ';' ∉ "Function(".toList ++ ['"'] := by decide
    exact hlead

end Construct

/-! ### Signatures -/

namespace Dialect

/-- A dialect made from one without constructs, or from a built-in one. -/
inductive Built : Dialect → Prop
  | bare (name : String) (quotes : Quotes) (style : PlaceholderStyle) :
    Built (.bare name quotes style)
  | builtIn {d : Dialect} (h : d ∈ [generic, postgres, mysql, sqlite]) : Built d
  | define {d : Dialect} (h : Built d) (c : Construct) (template : String) :
    Built (d.define c template)
  | remove {d : Dialect} (h : Built d) (c : Construct) : Built (d.remove c)
  | named {d : Dialect} (h : Built d) (name : String) : Built (d.named name)

/-- Each construct has one template, which is that of its source. -/
structure WellFormed (d : Dialect) : Prop where
  distinct : (d.constructs.map (·.1)).Nodup
  parsed : ∀ entry ∈ d.constructs, entry.2 = .parse entry.2.source

namespace WellFormed

variable {d : Dialect}

theorem remove (h : WellFormed d) (c : Construct) : WellFormed (d.remove c) where
  distinct := h.distinct.sublist (List.filter_sublist.map _)
  parsed entry he := h.parsed entry (List.mem_filter.mp he).1

theorem define (h : WellFormed d) (c : Construct) (template : String) :
    WellFormed (d.define c template) where
  distinct := by
    refine List.nodup_cons.mpr ⟨?_, (h.remove c).distinct⟩
    intro hc
    obtain ⟨entry, he, rfl⟩ := List.mem_map.mp hc
    simpa using (List.mem_filter.mp he).2
  parsed := by
    intro entry he
    rcases List.mem_cons.mp he with rfl | he
    · rfl
    · exact (h.remove c).parsed entry he

theorem defineAll (h : WellFormed d) (entries : List (Construct × String)) :
    WellFormed (d.defineAll entries) := by
  induction entries generalizing d with
  | nil => exact h
  | cons e rest ih => exact ih (h.define e.1 e.2)

theorem bare (name : String) (quotes : Quotes) (style : PlaceholderStyle) :
    WellFormed (.bare name quotes style) where
  distinct := List.nodup_nil
  parsed _ h := nomatch h

theorem builtIn (h : d ∈ [generic, postgres, mysql, sqlite]) : WellFormed d := by
  simp only [List.mem_cons, List.not_mem_nil, or_false] at h
  rcases h with rfl | rfl | rfl | rfl <;> exact (bare _ _ _).defineAll _

end WellFormed

theorem Built.wellFormed {d : Dialect} (h : Built d) : WellFormed d := by
  induction h with
  | bare name quotes style => exact .bare name quotes style
  | builtIn h => exact .builtIn h
  | define _ c template ih => exact ih.define c template
  | remove _ c ih => exact ih.remove c
  | named _ name ih => exact ⟨ih.distinct, ih.parsed⟩

/-! ### Constructs and the texts of their templates -/

variable {d d' : Dialect}

theorem template?_eq_some_iff (h : WellFormed d) {c : Construct} {t : SyntaxTemplate} :
    d.template? c = some t ↔ (c, t) ∈ d.constructs := by
  obtain ⟨name, quotes, style, constructs⟩ := d
  have hdistinct := h.distinct
  unfold template?
  dsimp only at hdistinct ⊢
  clear h
  induction constructs with
  | nil => simp
  | cons entry rest ih =>
    obtain ⟨c', t'⟩ := entry
    obtain ⟨hfirst, hrest⟩ := List.nodup_cons.mp hdistinct
    rw [List.find?_cons]
    by_cases hc : c' = c
    · subst hc
      have hnot : (c', t) ∉ rest := fun hm => hfirst (List.mem_map.mpr ⟨_, hm, rfl⟩)
      simp [hnot, eq_comm]
    · simp [hc, Ne.symm hc, ih hrest]

/-- The constructs of a dialect with the texts of their templates, in some order. -/
def entries (d : Dialect) : List (Construct × String) :=
  d.constructs.map fun entry => (entry.1, entry.2.source)

def templateText? (d : Dialect) (c : Construct) : Option String :=
  (d.template? c).map (·.source)

theorem templateText?_eq_some_iff (h : WellFormed d) {c : Construct} {s : String} :
    d.templateText? c = some s ↔ (c, s) ∈ d.entries := by
  simp only [templateText?, entries, Option.map_eq_some_iff, template?_eq_some_iff h, List.mem_map,
    Prod.exists, Prod.mk.injEq]
  constructor
  · rintro ⟨t, ht, rfl⟩
    exact ⟨c, t, ht, rfl, rfl⟩
  · rintro ⟨_, t, ht, rfl, rfl⟩
    exact ⟨t, ht, rfl⟩

theorem WellFormed.nodup_entries (h : WellFormed d) : d.entries.Nodup := by
  apply List.Nodup.of_map (·.1)
  rw [entries, List.map_map]
  exact h.distinct

/-- Two dialects that write everything alike. -/
structure Same (d d' : Dialect) : Prop where
  name : d.name = d'.name
  quotes : d.quotes = d'.quotes
  style : d.style = d'.style
  templates : ∀ c, d.templateText? c = d'.templateText? c

theorem entries_perm_iff (h : WellFormed d) (h' : WellFormed d') :
    d.entries.Perm d'.entries ↔ ∀ c, d.templateText? c = d'.templateText? c := by
  rw [List.perm_ext_iff_of_nodup h.nodup_entries h'.nodup_entries]
  constructor
  · intro hmem c
    apply Option.ext
    intro s
    rw [templateText?_eq_some_iff h, templateText?_eq_some_iff h', hmem]
  · rintro htemplates ⟨c, s⟩
    rw [← templateText?_eq_some_iff h, ← templateText?_eq_some_iff h', htemplates]

theorem Same.template? (hs : Same d d') (h : WellFormed d) (h' : WellFormed d') (c : Construct) :
    d'.template? c = d.template? c := by
  have hparsed {d : Dialect} (h : WellFormed d) :
      d.template? c = (d.templateText? c).map SyntaxTemplate.parse := by
    unfold templateText?
    cases ht : d.template? c with
    | none => rfl
    | some t => exact congrArg some (h.parsed _ ((template?_eq_some_iff h).mp ht))
  rw [hparsed h, hparsed h', hs.templates c]

/-! ### Entries in the signature -/

def spell (entry : Construct × String) : String :=
  entry.1.key ++ "=" ++ entry.2

theorem toList_spell (entry : Construct × String) :
    (spell entry).toList = entry.1.label ++ entry.2.toList :=
  String.toList_append

/-- The entries as the signature has them, sorted by what they are spelled. -/
def sortedEntries (d : Dialect) : List (Construct × String) :=
  d.entries.mergeSort fun a b => spell a ≤ spell b

theorem signature_eq (d : Dialect) : d.signature =
    d.name ++ "|" ++ String.ofList [d.quotes.opening, d.quotes.closing] ++ "|" ++ d.style.key ++ "|"
      ++ ";".intercalate (d.sortedEntries.map spell) := by
  have hsort : d.sortedEntries.map spell =
      (d.entries.map spell).mergeSort fun a b => a ≤ b :=
    List.map_mergeSort fun _ _ _ _ => rfl
  rw [hsort, entries, List.map_map]
  rfl

theorem spell_inj {a b : Construct × String} (h : spell a = spell b) : a = b := by
  have hlist := congrArg String.toList h
  rw [toList_spell, toList_spell] at hlist
  obtain ⟨hc, hs⟩ := Construct.label_prefixFree _ _ _ _ hlist
  exact Prod.ext hc (String.toList_inj.mp hs)

theorem sortedEntries_eq_iff : d.sortedEntries = d'.sortedEntries ↔ d.entries.Perm d'.entries := by
  have hperm (d : Dialect) : d.sortedEntries.Perm d.entries := List.mergeSort_perm _ _
  constructor
  · intro h
    exact ((hperm d).symm.trans (h ▸ List.Perm.refl _)).trans (hperm d')
  · intro h
    have hsorted (d : Dialect) : d.sortedEntries.Pairwise fun a b => spell a ≤ spell b := by
      have htrans (a b c : Construct × String) (hab : decide (spell a ≤ spell b))
          (hbc : decide (spell b ≤ spell c)) : decide (spell a ≤ spell c) :=
        decide_eq_true (String.le_trans (of_decide_eq_true hab) (of_decide_eq_true hbc))
      have htotal (a b : Construct × String) :
          decide (spell a ≤ spell b) || decide (spell b ≤ spell a) := by
        simpa using String.le_total (spell a) (spell b)
      exact (List.pairwise_mergeSort htrans htotal d.entries).imp of_decide_eq_true
    -- no two entries are spelled alike, so that only one permutation is sorted
    apply List.Perm.eq_of_pairwise ?_ (hsorted d) (hsorted d')
      (((hperm d).trans h).trans (hperm d').symm)
    intro a b _ _ hab hba
    exact spell_inj (String.le_antisymm hab hba)

theorem Same.signature (hs : Same d d') (h : WellFormed d) (h' : WellFormed d') :
    d.signature = d'.signature := by
  have hsorted := sortedEntries_eq_iff.mpr ((entries_perm_iff h h').mpr hs.templates)
  rw [signature_eq, signature_eq, hs.name, hs.quotes, hs.style, hsorted]

/-! ### Reading a signature -/

/-- No entry of a signature seems to begin inside the text. -/
def Unbroken (s : List Char) : Prop :=
  ∀ c : Construct, ¬ ';' :: c.lead <:+: s

theorem unbroken_of_notMem {s : List Char} (h : ';' ∉ s) : Unbroken s :=
  fun _ hpart => h (hpart.subset List.mem_cons_self)

/-- The entries with a semicolon before each. -/
def listed (entries : List (Construct × String)) : List Char :=
  entries.flatMap fun entry => ';' :: (spell entry).toList

theorem listed_cons (entry : Construct × String) (entries : List (Construct × String)) :
    listed (entry :: entries) =
      ';' :: (entry.1.label ++ (entry.2.toList ++ listed entries)) := by
  rw [listed, List.flatMap_cons, toList_spell, List.cons_append, List.append_assoc]
  rfl

/-- What seems to be the end of a template is the end of it. -/
theorem eq_nil_of_listed {entries entries' : List (Construct × String)} {s t : List Char}
    (hs : Unbroken (s ++ t)) (h : listed entries = t ++ listed entries') : t = [] := by
  cases t with
  | nil => rfl
  | cons x u =>
    cases entries with
    | nil => cases h
    | cons entry entries =>
      obtain ⟨rest, hlead⟩ := entry.1.lead_isPrefix_label
      rw [listed_cons, ← hlead, List.cons_append, List.append_assoc] at h
      obtain ⟨rfl, hbody⟩ := List.cons.inj h
      -- the next semicolon comes after what begins the entry
      have hprefix : entry.1.lead <+: u := by
        rcases List.append_eq_append_iff.mp hbody with ⟨v, hu, _⟩ | ⟨v, hlead, hv⟩
        · exact ⟨v, hu.symm⟩
        · cases v with
          | nil => exact ⟨[], by simpa using hlead⟩
          | cons y v =>
            cases entries' with
            | nil => cases hv
            | cons entry' entries' =>
              have hy : y = ';' := (List.cons.inj hv).1.symm
              subst hy
              have hmem : ';' ∈ entry.1.lead := by simp [hlead]
              exact absurd hmem entry.1.semicolon_notMem_lead
      obtain ⟨v, rfl⟩ := hprefix
      exact absurd ⟨s, v, by simp⟩ (hs entry.1)

theorem text_inj {entries entries' : List (Construct × String)} {s s' : List Char} (hs : Unbroken s)
    (hs' : Unbroken s') (h : s ++ listed entries = s' ++ listed entries') :
    s = s' ∧ listed entries = listed entries' := by
  rcases List.append_eq_append_iff.mp h with ⟨t, rfl, ht⟩ | ⟨t, rfl, ht⟩
  · obtain rfl := eq_nil_of_listed hs' ht
    exact ⟨(List.append_nil s).symm, ht⟩
  · obtain rfl := eq_nil_of_listed hs ht
    exact ⟨List.append_nil s', ht.symm⟩

theorem listed_inj {entries entries' : List (Construct × String)}
    (hp : ∀ entry ∈ entries, Unbroken entry.2.toList)
    (hp' : ∀ entry ∈ entries', Unbroken entry.2.toList)
    (h : listed entries = listed entries') : entries = entries' := by
  induction entries generalizing entries' with
  | nil =>
    cases entries' with
    | nil => rfl
    | cons entry' entries' => cases h
  | cons entry entries ih =>
    cases entries' with
    | nil => cases h
    | cons entry' entries' =>
      obtain ⟨hfirst, hrest⟩ := List.forall_mem_cons.mp hp
      obtain ⟨hfirst', hrest'⟩ := List.forall_mem_cons.mp hp'
      rw [listed_cons, listed_cons] at h
      obtain ⟨hc, hbody⟩ := Construct.label_prefixFree _ _ _ _ (List.cons.inj h).2
      obtain ⟨hs, hlisted⟩ := text_inj hfirst hfirst' hbody
      rw [ih hrest hrest' hlisted, Prod.ext hc (String.toList_inj.mp hs)]

theorem listed_eq (entries : List (Construct × String)) (h : entries ≠ []) :
    listed entries = ';' :: (";".intercalate (entries.map spell)).toList := by
  rw [String.toList_intercalate, List.map_map]
  refine Eq.trans ?_ (Text.cons_intercalate ';' (by simpa using h)).symm
  rw [List.flatMap_map]
  rfl

theorem intercalate_spell_inj {entries entries' : List (Construct × String)}
    (hp : ∀ entry ∈ entries, Unbroken entry.2.toList)
    (hp' : ∀ entry ∈ entries', Unbroken entry.2.toList)
    (h : ";".intercalate (entries.map spell) = ";".intercalate (entries'.map spell)) :
    entries = entries' := by
  have hne (entry : Construct × String) (rest : List (Construct × String)) :
      ";".intercalate ((entry :: rest).map spell) ≠ "" := by
    intro hempty
    have hlisted := listed_eq (entry :: rest) (List.cons_ne_nil _ _)
    rw [hempty, listed_cons, Construct.label_eq] at hlisted
    simp at hlisted
  cases entries with
  | nil =>
    cases entries' with
    | nil => rfl
    | cons entry' entries' => exact absurd h.symm (hne entry' entries')
  | cons entry entries =>
    cases entries' with
    | nil => exact absurd h (hne entry entries)
    | cons entry' entries' =>
      apply listed_inj hp hp'
      rw [listed_eq _ (List.cons_ne_nil _ _), listed_eq _ (List.cons_ne_nil _ _), h]

/-- The name ends where it seems to end, and so do the templates. -/
structure Legible (d : Dialect) : Prop where
  name : '|' ∉ d.name.toList
  templates : ∀ entry ∈ d.entries, Unbroken entry.2.toList

theorem toList_signature (d : Dialect) : d.signature.toList = d.name.toList ++ '|' ::
    d.quotes.opening :: d.quotes.closing :: '|' :: (d.style.key.toList ++ '|' ::
      (";".intercalate (d.sortedEntries.map spell)).toList) := by
  rw [signature_eq]
  simp only [String.toList_append, String.toList_ofList, List.append_assoc]
  rfl

theorem style_key_inj {s s' : PlaceholderStyle} {t t' : List Char}
    (h : s.key.toList ++ '|' :: t = s'.key.toList ++ '|' :: t') : s = s' ∧ t = t' := by
  have hmark (s : PlaceholderStyle) : '|' ∉ s.key.toList := by
    cases s <;> decide
  obtain ⟨hkey, ht⟩ := Text.mark_inj (hmark s) (hmark s') h
  have hkey := String.toList_inj.mp hkey
  refine ⟨?_, ht⟩
  revert hkey
  cases s <;> cases s' <;> decide

theorem quotes_ext : ∀ {q q' : Quotes}, q.opening = q'.opening → q.closing = q'.closing → q = q'
  | ⟨_, _⟩, ⟨_, _⟩, rfl, rfl => rfl

theorem same_of_signature (h : WellFormed d) (h' : WellFormed d') (hl : Legible d)
    (hl' : Legible d') (he : d.signature = d'.signature) : Same d d' := by
  have hlist := congrArg String.toList he
  rw [toList_signature, toList_signature] at hlist
  obtain ⟨hname, hlist⟩ := Text.mark_inj hl.name hl'.name hlist
  obtain ⟨hopening, hlist⟩ := List.cons.inj hlist
  obtain ⟨hclosing, hlist⟩ := List.cons.inj hlist
  obtain ⟨hstyle, hlist⟩ := style_key_inj (List.cons.inj hlist).2
  have hplain {d : Dialect} (hl : Legible d) : ∀ entry ∈ d.sortedEntries, Unbroken entry.2.toList :=
    fun entry he => hl.templates entry ((List.mergeSort_perm _ _).mem_iff.mp he)
  have hsorted := intercalate_spell_inj (hplain hl) (hplain hl') (String.toList_inj.mp hlist)
  constructor
  · exact String.toList_inj.mp hname
  · exact quotes_ext hopening hclosing
  · exact hstyle
  · exact (entries_perm_iff h h').mp (sortedEntries_eq_iff.mp hsorted)

/-! ### Translations -/

theorem Same.statement (hs : Same d d') (h : WellFormed d) (h' : WellFormed d') (m : Metadata)
    (s : Statement) : Target.statement ⟨m, d'⟩ s = Target.statement ⟨m, d⟩ s := by
  have hsimilar : Target.Similar ⟨m, d⟩ ⟨m, d'⟩ := ⟨rfl, hs.quotes.symm, hs.template? h h'⟩
  exact hsimilar.statement_eq hs.name.symm s

theorem Same.lower (hs : Same d d') (h : WellFormed d) (h' : WellFormed d') (m : Metadata)
    (s : Statement) : lower m d s = lower m d' s := by
  unfold Query.lower
  rw [hs.statement h h', hs.name, hs.style]

/-! ### The order of definitions -/

theorem template?_define (d : Dialect) (c x : Construct) (template : String) :
    (d.define c template).template? x =
      if c = x then some (.parse template) else d.template? x := by
  unfold template? define remove
  rw [List.find?_cons]
  by_cases hc : c = x
  · simp [hc]
  · have hfilter : (d.constructs.filter fun entry => entry.1 ≠ c).find? (fun entry => entry.1 = x) =
        d.constructs.find? fun entry => entry.1 = x := by
      rw [List.find?_filter]
      congr 1
      funext entry
      by_cases he : entry.1 = x
      · simp [he, Ne.symm hc]
      · simp [he]
    simp only [decide_eq_false hc, hfilter, if_neg hc]

theorem Same.define (hs : Same d d') (c : Construct) (template : String) :
    Same (d.define c template) (d'.define c template) where
  name := hs.name
  quotes := hs.quotes
  style := hs.style
  templates x := by
    have ht := hs.templates x
    unfold templateText? at ht ⊢
    rw [template?_define, template?_define]
    split
    · rfl
    · exact ht

theorem Same.defineAll (hs : Same d d') (entries : List (Construct × String)) :
    Same (d.defineAll entries) (d'.defineAll entries) := by
  induction entries generalizing d d' with
  | nil => exact hs
  | cons e rest ih => exact ih (hs.define e.1 e.2)

theorem same_define_define (d : Dialect) {c c' : Construct} (hne : c ≠ c')
    (template template' : String) :
    Same ((d.define c template).define c' template')
      ((d.define c' template').define c template) where
  name := rfl
  quotes := rfl
  style := rfl
  templates x := by
    simp only [templateText?, template?_define]
    by_cases hc : c = x
    · subst hc
      simp [Ne.symm hne]
    · simp [hc]

theorem Same.refl (d : Dialect) : Same d d :=
  ⟨rfl, rfl, rfl, fun _ => rfl⟩

theorem Same.trans {d'' : Dialect} (hs : Same d d') (hs' : Same d' d'') : Same d d'' :=
  ⟨hs.name.trans hs'.name, hs.quotes.trans hs'.quotes, hs.style.trans hs'.style,
    fun c => (hs.templates c).trans (hs'.templates c)⟩

theorem same_defineAll {entries entries' : List (Construct × String)}
    (hp : entries.Perm entries') (hdistinct : (entries.map (·.1)).Nodup) (d : Dialect) :
    Same (d.defineAll entries) (d.defineAll entries') := by
  induction hp generalizing d with
  | nil => exact .refl _
  | cons e _ ih => exact ih (List.nodup_cons.mp hdistinct).2 _
  | swap e e' rest =>
    have hne : e'.1 ≠ e.1 := fun he =>
      (List.nodup_cons.mp hdistinct).1 (List.mem_map.mpr ⟨e, List.mem_cons_self, he.symm⟩)
    exact (same_define_define d hne e'.2 e.2).defineAll rest
  | trans hp hp' ih ih' =>
    exact (ih hdistinct d).trans (ih' ((hp.map _).nodup_iff.mp hdistinct) d)

/-- Legible signatures tell dialects apart exactly, and dialects that they do not tell apart
translate every statement alike. -/
theorem signature_exact {d d' : Dialect} (h : Built d) (h' : Built d') :
    (Same d d' → d.signature = d'.signature ∧ ∀ m s, lower m d s = lower m d' s) ∧
    (Legible d → Legible d' → d.signature = d'.signature → Same d d') ∧
    ∀ entries entries' : List (Construct × String), (entries.map (·.1)).Nodup →
      entries.Perm entries' →
        (d.defineAll entries).signature = (d.defineAll entries').signature := by
  have hd := h.wellFormed
  have hd' := h'.wellFormed
  refine ⟨fun hs => ⟨hs.signature hd hd', hs.lower hd hd'⟩, same_of_signature hd hd', ?_⟩
  intro entries entries' hdistinct hp
  exact (same_defineAll hp hdistinct d).signature (hd.defineAll _) (hd.defineAll _)

/-- A built-in dialect with two more constructs, defined in one order and in the other. -/
theorem signature_exact_reordered :
    let entries := [(Construct.join .right, joinOn "RIGHT JOIN"), (.limit, after "FETCH ")]
    let entries' := [(Construct.limit, after "FETCH "), (.join .right, joinOn "RIGHT JOIN")]
    let d := sqlite.defineAll entries
    let d' := sqlite.defineAll entries'
    (Legible d ∧ Legible d') ∧ d.signature = d'.signature ∧ Same d d' ∧
      ∀ m s, lower m d s = lower m d' s := by
  intro entries entries' d d'
  have hsqlite : Built sqlite := .builtIn (by simp)
  have hd : Built d := (hsqlite.define _ _).define _ _
  have hd' : Built d' := (hsqlite.define _ _).define _ _
  have hplain : ∀ entry ∈ d.entries ++ d'.entries, ';' ∉ entry.2.toList := by decide +kernel
  have hl : Legible d := ⟨by decide +kernel, fun entry he =>
    unbroken_of_notMem (hplain entry (List.mem_append_left _ he))⟩
  have hl' : Legible d' := ⟨by decide +kernel, fun entry he =>
    unbroken_of_notMem (hplain entry (List.mem_append_right _ he))⟩
  have hsignature : d.signature = d'.signature :=
    (signature_exact hsqlite hsqlite).2.2 entries entries' (by decide +kernel) (.swap _ _ _)
  have hsame := (signature_exact hd hd').2.1 hl hl' hsignature
  exact ⟨⟨hl, hl'⟩, hsignature, hsame, ((signature_exact hd hd').1 hsame).2⟩

/-! ### An imitation -/

def tiny : Dialect :=
  .bare "tiny" doubleQuotes .question

def paging : Dialect :=
  (tiny.define .limitOffset "LIMIT \x7b0\x7d OFFSET \x7b1\x7d").define .limit (after "LIMIT ")

/-- A dialect without offsets, the template of which goes on as an entry for them. -/
def imitation : Dialect :=
  tiny.define .limit (after "LIMIT " ++ ";LimitOffset=LIMIT \x7b0\x7d OFFSET \x7b1\x7d")

def secondPage : Statement :=
  let p : Position := .start
  .select ⟨false, [⟨.identifier p "name", none⟩], [⟨"Author", none, p⟩], [], none, [], none, [],
    some ⟨.literal p (.integer 10), some (.literal p (.integer 10))⟩, p⟩

/-- Signatures that are not legible may be equal though the dialects are not. -/
theorem imitation_not_same : Built paging ∧ Built imitation ∧
    paging.signature = imitation.signature ∧ ¬ Same paging imitation ∧
    lower library paging secondPage ≠ lower library imitation secondPage := by
  have hbare : Built tiny := .bare _ _ _
  refine ⟨(hbare.define _ _).define _ _, hbare.define _ _, ?_, ?_, ?_⟩
  · have hsorted : paging.sortedEntries = paging.entries :=
      List.mergeSort_of_pairwise (by decide +kernel)
    rw [signature_eq, hsorted]
    decide +kernel
  · intro hs
    have htext := hs.templates .limitOffset
    revert htext
    decide +kernel
  · intro h
    have hsome := congrArg (fun result => result.toOption.isSome) h
    revert hsome
    decide +kernel

end Dialect

end EmbeddedLang.Query
