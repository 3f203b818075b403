import EmbeddedLang.Proofs.Query.CastTargets
import EmbeddedLang.Proofs.Query.Numbering
import EmbeddedLang.Proofs.Query.Traversal
import EmbeddedLang.Query.Dialect

/-!
What SQL says outside of its identifiers.
-/

namespace EmbeddedLang.Query

/-! ### What templates are made of -/

namespace SyntaxTemplate

variable {s : String} {cs : List Char}

theorem slotAhead?_ne_text {n : Nat} : slotAhead? cs ≠ some (.text s, n) := by
  unfold slotAhead?
  dsimp only
  split
  · intro h
    obtain ⟨part, hpart, heq⟩ := Option.map_eq_some_iff.mp h
    obtain ⟨rfl, -⟩ := Prod.mk.inj heq
    unfold slotOf? at hpart
    split at hpart
    · cases hpart
    · obtain ⟨_, _, hslot⟩ := Option.map_eq_some_iff.mp hpart
      cases hslot
  · intro h
    cases h

theorem subset_of_mem_consText {c : Char} {parts : List TemplatePart}
    (hparts : ∀ s, .text s ∈ parts → s.toList ⊆ cs) (h : .text s ∈ consText c parts) :
    s.toList ⊆ c :: cs := by
  unfold consText at h
  split at h
  · rename_i first rest
    rcases List.mem_cons.mp h with heq | hmem
    · cases heq
      have hfirst := hparts first List.mem_cons_self
      rw [String.toList_append, Char.toString_eq_singleton, String.toList_singleton]
      exact List.cons_subset_cons c hfirst
    · exact List.subset_cons_of_subset c (hparts s (List.mem_cons_of_mem _ hmem))
  · rcases List.mem_cons.mp h with heq | hmem
    · cases heq
      rw [Char.toString_eq_singleton, String.toList_singleton]
      exact List.cons_subset_cons c (List.nil_subset cs)
    · exact List.subset_cons_of_subset c (hparts s hmem)

theorem subset_of_mem_split {skip : Nat} (h : .text s ∈ split skip cs) : s.toList ⊆ cs := by
  induction cs generalizing skip s with
  | nil => cases h
  | cons c rest ih =>
    cases skip with
    | succ n => exact List.subset_cons_of_subset c (ih h)
    | zero =>
      rw [split] at h
      split at h
      · rename_i part width hslot
        rcases List.mem_cons.mp h with heq | hmem
        · subst heq
          split at hslot
          · exact absurd hslot slotAhead?_ne_text
          · cases hslot
        · exact List.subset_cons_of_subset c (ih hmem)
      · exact subset_of_mem_consText (fun _ => ih) h

/-- A template has the texts that its source has. -/
theorem subset_of_mem_parse {source : String} (h : .text s ∈ (parse source).parts) :
    s.toList ⊆ source.toList :=
  subset_of_mem_split h

end SyntaxTemplate

namespace Dialect

variable {d : Dialect}

theorem defineAll_quotes (entries : List (Construct × String)) :
    (d.defineAll entries).quotes = d.quotes := by
  induction entries generalizing d with
  | nil => rfl
  | cons entry rest ih => exact ih

theorem defineAll_style (entries : List (Construct × String)) :
    (d.defineAll entries).style = d.style := by
  induction entries generalizing d with
  | nil => rfl
  | cons entry rest ih => exact ih

theorem mem_defineAll {entries : List (Construct × String)} {entry : Construct × SyntaxTemplate}
    (h : entry ∈ (d.defineAll entries).constructs) :
    entry ∈ d.constructs ∨ ∃ e ∈ entries, entry = (e.1, .parse e.2) := by
  induction entries generalizing d with
  | nil => exact .inl h
  | cons e rest ih =>
    rcases ih h with hd | ⟨e', he', heq⟩
    · rcases List.mem_cons.mp hd with heq | hd
      · exact .inr ⟨e, List.mem_cons_self, heq⟩
      · exact .inl (List.mem_filter.mp hd).1
    · exact .inr ⟨e', List.mem_cons_of_mem _ he', heq⟩

/-- The texts of a dialect without templates of its own come from what is defined. -/
theorem subset_of_template? {name : String} {q : Quotes} {style : PlaceholderStyle}
    {entries : List (Construct × String)} {c : Construct} {template : SyntaxTemplate} {s : String}
    (h : ((bare name q style).defineAll entries).template? c = some template)
    (hs : .text s ∈ template.parts) : ∃ e ∈ entries, s.toList ⊆ e.2.toList := by
  obtain ⟨entry, he, rfl⟩ := Option.map_eq_some_iff.mp h
  rcases mem_defineAll (List.mem_of_find?_eq_some he) with hbare | ⟨e, hmem, rfl⟩
  · cases hbare
  · exact ⟨e, hmem, SyntaxTemplate.subset_of_mem_parse hs⟩

end Dialect

/-! ### SQL without its identifiers -/

/-- Where a reader of SQL stands. After a closing mark, a second one takes it back inside. -/
inductive Reading where
  | outside
  | inside
  | closed

namespace Quotes

/-- The text without its quoted identifiers. -/
def strip (q : Quotes) : Reading → List Char → List Char
  | _, [] => []
  | .outside, c :: rest =>
    if c = q.opening then q.strip .inside rest else c :: q.strip .outside rest
  | .inside, c :: rest => if c = q.closing then q.strip .closed rest else q.strip .inside rest
  | .closed, c :: rest =>
    if c = q.closing then q.strip .inside rest
    else if c = q.opening then q.strip .inside rest
    else c :: q.strip .outside rest

def unquoted (q : Quotes) (sql : String) : String :=
  String.ofList (q.strip .outside sql.toList)

variable {q : Quotes}

/-- With one mark for both, closing twice is closing and opening again. -/
theorem strip_closed (hq : q.opening = q.closing) (cs : List Char) :
    q.strip .closed cs = q.strip .outside cs := by
  cases cs with
  | nil => rfl
  | cons c rest =>
    rw [strip, strip, hq]
    split <;> rfl

theorem strip_append {cs : List Char} (h : q.opening ∉ cs) (rest : List Char) :
    q.strip .outside (cs ++ rest) = cs ++ q.strip .outside rest := by
  induction cs with
  | nil => rfl
  | cons c cs ih =>
    obtain ⟨hc, hcs⟩ := not_or.mp (mt List.mem_cons.mpr h)
    rw [List.cons_append, strip, if_neg (Ne.symm hc), ih hcs, List.cons_append]

theorem strip_double (cs rest : List Char) :
    q.strip .inside (q.double cs ++ q.closing :: rest) = q.strip .closed rest := by
  induction cs with
  | nil => rw [double, List.nil_append, strip, if_pos rfl]
  | cons c cs ih =>
    rw [double]
    split
    · -- the reader closes at the first mark, and is inside again after the second
      rename_i hc
      rw [List.cons_append, List.cons_append, strip, if_pos hc, strip, if_pos hc, ih]
    · rename_i hc
      rw [List.cons_append, strip, if_neg hc, ih]

theorem strip_quote (hq : q.opening = q.closing) (identifier : String) (rest : List Char) :
    q.strip .outside ((q.quote identifier).toList ++ rest) = q.strip .outside rest := by
  rw [quote, String.toList_ofList, List.append_assoc, List.cons_append, strip, if_pos rfl,
    List.singleton_append, strip_double, strip_closed hq]

end Quotes

/-! ### Plain text -/

/-- A word, perhaps with sizes. -/
def IsType (target : String) : Prop :=
  ∃ name, IsWord name ∧ TypeText name target

/-- What a dialect writes besides identifiers, with types in `T`. -/
inductive Dialect.Plain (d : Dialect) (T : String → Prop) : String → Prop where
  | nil : Plain d T ""
  | append {a b : String} (ha : Plain d T a) (hb : Plain d T b) : Plain d T (a ++ b)
  | word {s : String} (h : s ∈ Target.words) : Plain d T s
  | dot : Plain d T "."
  | template {c : Construct} {template : SyntaxTemplate} {s : String}
      (h : d.template? c = some template) (hs : .text s ∈ template.parts) : Plain d T s
  | placeholder (index : Nat) : Plain d T (d.style.placeholder index (.numbered index))
  | cast {a target : String} (ha : Plain d T a) (h : T target) :
      Plain d T ("CAST(" ++ a ++ " AS " ++ target ++ ")")

/-- Letters, digits and the signs that are written around them. -/
def isPlainChar (c : Char) : Bool :=
  isWordChar c || "?$.*=(), ".toList.contains c

theorem isPlainChar_of_isWordChar {c : Char} (h : isWordChar c) : isPlainChar c := by
  unfold isPlainChar
  rw [h, Bool.true_or]

theorem isPlainChar_of_words : ∀ s ∈ Target.words, s.toList.all isPlainChar := by
  decide +kernel

theorem isWordChar_of_isDigit {c : Char} (h : c.isDigit) : isWordChar c := by
  unfold isWordChar Char.isAlphanum
  rw [h, Bool.or_true, Bool.true_or]

theorem isDigit_of_mem_toString {n : Nat} {c : Char} (h : c ∈ (toString n).toList) :
    c.isDigit := by
  rw [Nat.toString_eq_repr, Nat.toList_repr] at h
  exact Nat.isDigit_of_mem_toDigits (by decide) (by decide) h

theorem mem_intercalate {α : Type} {separator : List α} {items : List (List α)} {a : α}
    (h : a ∈ separator.intercalate items) : a ∈ separator ∨ ∃ item ∈ items, a ∈ item := by
  induction items with
  | nil => exact absurd h List.not_mem_nil
  | cons item rest ih =>
    have hitem (hi : a ∈ item) : a ∈ separator ∨ ∃ item' ∈ item :: rest, a ∈ item' :=
      .inr ⟨item, List.mem_cons_self, hi⟩
    cases rest with
    | nil =>
      rw [List.intercalate_singleton] at h
      exact hitem h
    | cons next rest =>
      rw [List.intercalate_cons_cons, List.mem_append, List.mem_append] at h
      rcases h with (h | h) | h
      · exact hitem h
      · exact .inl h
      · exact (ih h).imp id fun ⟨found, hf, ha⟩ => ⟨found, List.mem_cons_of_mem _ hf, ha⟩

theorem TypeText.all_isPlainChar {name target : String} (hname : IsWord name)
    (h : TypeText name target) : target.toList.all isPlainChar := by
  have hword (c : Char) (hc : c ∈ name.toList) : isPlainChar c :=
    isPlainChar_of_isWordChar (hname.2 c hc)
  apply List.all_eq_true.mpr
  intro c hc
  cases h with
  | plain => exact hword c hc
  | sized _ hsizes =>
    have hopen : "(".toList.all isPlainChar := by decide
    have hcomma : ", ".toList.all isPlainChar := by decide
    have hclose : ")".toList.all isPlainChar := by decide
    simp only [String.toList_append, List.mem_append] at hc
    rcases hc with ((hc | hc) | hc) | hc
    · exact hword c hc
    · exact List.all_eq_true.mp hopen c hc
    · rw [String.toList_intercalate] at hc
      rcases mem_intercalate hc with hc | ⟨_, hmem, hc⟩
      · exact List.all_eq_true.mp hcomma c hc
      · obtain ⟨size, hs, rfl⟩ := List.mem_map.mp hmem
        exact isPlainChar_of_isWordChar (isWordChar_of_isDigit ((hsizes size hs).2 c hc))
    · exact List.all_eq_true.mp hclose c hc

/-- A character that a dialect needs for identifiers at most. -/
structure Dialect.Avoids (d : Dialect) (c : Char) : Prop where
  style : d.style ≠ .named
  char : isPlainChar c = false
  template {construct : Construct} {template : SyntaxTemplate} {s : String}
    (h : d.template? construct = some template) (hs : .text s ∈ template.parts) : c ∉ s.toList

namespace Dialect.Avoids

theorem defineAll {name : String} {q : Quotes} {style : PlaceholderStyle}
    {entries : List (Construct × String)} {c : Char} (hstyle : style ≠ .named)
    (hchar : isPlainChar c = false) (hsources : ∀ e ∈ entries, c ∉ e.2.toList) :
    ((bare name q style).defineAll entries).Avoids c where
  style := by rwa [defineAll_style]
  char := hchar
  template h hs := by
    obtain ⟨e, he, hsub⟩ := subset_of_template? h hs
    exact fun hc => hsources e he (hsub hc)

variable {d : Dialect} {c : Char} (h : d.Avoids c)

include h

theorem not_mem {s : String} (hs : s.toList.all isPlainChar) : c ∉ s.toList := by
  intro hc
  have hplain := List.all_eq_true.mp hs c hc
  rw [h.char] at hplain
  cases hplain

theorem placeholder (index : Nat) (source : BindSource) :
    c ∉ (d.style.placeholder index source).toList := by
  cases hs : d.style with
  | question =>
    have hquestion : c ∉ "?".toList := h.not_mem (by decide)
    exact hquestion
  | numbered =>
    have hdollar : c ∉ "$".toList := h.not_mem (by decide)
    have hindex : c ∉ (toString index).toList := by
      apply h.not_mem
      apply List.all_eq_true.mpr
      intro c' hc
      exact isPlainChar_of_isWordChar (isWordChar_of_isDigit (isDigit_of_mem_toString hc))
    exact String.toList_append ▸ List.not_mem_append hdollar hindex
  | named => exact absurd hs h.style

theorem type {target : String} (ht : IsType target) : c ∉ target.toList := by
  obtain ⟨name, hname, htext⟩ := ht
  exact h.not_mem (htext.all_isPlainChar hname)

end Dialect.Avoids

/-- What no dialect text has is not in plain text. -/
theorem Dialect.Plain.not_mem {d : Dialect} {c : Char} (h : d.Avoids c) {s : String}
    (hs : d.Plain IsType s) : c ∉ s.toList := by
  induction hs with
  | nil => exact List.not_mem_nil
  | append _ _ iha ihb =>
    rw [String.toList_append]
    exact List.not_mem_append iha ihb
  | word hw => exact h.not_mem (isPlainChar_of_words _ hw)
  | dot => exact h.not_mem (by decide)
  | template ht hs => exact h.template ht hs
  | placeholder index => exact h.placeholder index _
  | cast _ ht iha =>
    simp only [String.toList_append]
    have hcast : c ∉ "CAST(".toList := h.not_mem (by decide)
    have has : c ∉ " AS ".toList := h.not_mem (by decide)
    have hclose : c ∉ ")".toList := h.not_mem (by decide)
    exact List.not_mem_append (List.not_mem_append (List.not_mem_append
      (List.not_mem_append hcast iha) has) (h.type ht)) hclose

/-! ### Fragments -/

/-- One mark stands around identifiers, and nowhere else. -/
structure Dialect.MarksNames (d : Dialect) : Prop extends d.Avoids d.quotes.opening where
  joinsOnce : d.JoinsOnce
  marks : d.quotes.opening = d.quotes.closing

/-- Without its identifiers the text is plain, whatever follows it. -/
def Dialect.Leaves (d : Dialect) (sql : String) : Prop :=
  ∃ residue, d.Plain IsType residue ∧ ∀ rest,
    d.quotes.strip .outside (sql.toList ++ rest) = residue.toList ++ d.quotes.strip .outside rest

namespace Dialect.Leaves

variable {d : Dialect} {a b : String}

theorem append (ha : d.Leaves a) (hb : d.Leaves b) : d.Leaves (a ++ b) := by
  obtain ⟨x, hx, hstripx⟩ := ha
  obtain ⟨y, hy, hstripy⟩ := hb
  refine ⟨x ++ y, hx.append hy, fun rest => ?_⟩
  rw [String.toList_append, String.toList_append, List.append_assoc, hstripx, hstripy,
    List.append_assoc]

theorem of_plain (h : d.MarksNames) (ha : d.Plain IsType a) : d.Leaves a :=
  ⟨a, ha, Quotes.strip_append (ha.not_mem h.toAvoids)⟩

theorem quote (h : d.MarksNames) (identifier : String) : d.Leaves (d.quotes.quote identifier) :=
  ⟨"", .nil, Quotes.strip_quote h.marks identifier⟩

theorem source (h : d.MarksNames) (s : ScopeSource) : d.Leaves (d.quotes.source s) := by
  unfold Quotes.source
  cases s.aliasName with
  | none => exact quote h _
  | some aliasName =>
    have has : d.Leaves " AS " := of_plain h (.word (by decide))
    exact ((quote h _).append has).append (quote h aliasName)

theorem column (h : d.MarksNames) (r : Reference) : d.Leaves (d.quotes.column r) := by
  unfold Quotes.column
  split
  · exact ((quote h _).append (of_plain h .dot)).append (quote h _)
  · exact quote h _

theorem cast (h : d.MarksNames) (ha : d.Leaves a) {target : String} (ht : IsType target) :
    d.Leaves ("CAST(" ++ a ++ " AS " ++ target ++ ")") := by
  obtain ⟨residue, hr, hstrip⟩ := ha
  -- only the operand loses anything
  refine ⟨_, hr.cast ht, fun rest => ?_⟩
  have hopen (rest : List Char) := Quotes.strip_append (h.not_mem (s := "CAST(") (by decide)) rest
  have has (rest : List Char) := Quotes.strip_append (h.not_mem (s := " AS ") (by decide)) rest
  have htarget (rest : List Char) := Quotes.strip_append (h.type ht) rest
  have hclose (rest : List Char) := Quotes.strip_append (h.not_mem (s := ")") (by decide)) rest
  simp only [String.toList_append, List.append_assoc]
  rw [hopen, hstrip, has, htarget, hclose]

theorem placeholder (h : d.MarksNames) (index : Nat) (source : BindSource) :
    d.Leaves (d.style.placeholder index source) := by
  have hsource : d.style.placeholder index source =
      d.style.placeholder index (.numbered index) := by
    cases hs : d.style with
    | question => rfl
    | numbered => rfl
    | named => exact absurd hs h.style
  rw [hsource]
  exact of_plain h (.placeholder index)

theorem unquoted (ha : d.Leaves a) : d.Plain IsType (d.quotes.unquoted a) := by
  obtain ⟨residue, hr, hstrip⟩ := ha
  have h := hstrip []
  rw [List.append_nil, Quotes.strip, List.append_nil] at h
  rw [Quotes.unquoted, h, String.ofList_toList]
  exact hr

end Dialect.Leaves

namespace Fragment

theorem finishFrom_append (style : PlaceholderStyle) (index : Nat) (f g : Fragment) :
    (finishFrom style index (f ++ g)).1 =
      (finishFrom style index f).1 ++ (finishFrom style (index + f.bindCount) g).1 := by
  induction f generalizing index with
  | nil => exact (String.empty_append).symm
  | cons piece rest ih =>
    rw [List.cons_append]
    cases hp : piece.isBind with
    | false =>
      have hcount : bindCount (piece :: rest) = bindCount rest :=
        List.countP_cons_of_neg (Bool.not_eq_true _ ▸ hp)
      rw [finishFrom_cons style index hp, finishFrom_cons style index hp, hcount]
      exact (congrArg (_ ++ ·) (ih index)).trans (String.append_assoc).symm
    | true =>
      have hcount : bindCount (piece :: rest) = bindCount rest + 1 :=
        List.countP_cons_of_pos hp
      cases piece with
      | bind source type =>
        have hrest := ih (index + 1)
        rw [Nat.add_assoc, Nat.add_comm 1, ← hcount] at hrest
        rw [finishFrom_bind, finishFrom_bind]
        exact (congrArg (_ ++ ·) hrest).trans (String.append_assoc).symm
      | _ => exact Bool.noConfusion hp

theorem finishFrom_singleton (style : PlaceholderStyle) (index : Nat) {p : Piece}
    (h : p.isBind = false) : (finishFrom style index [p]).1 = p.words := by
  rw [finishFrom_cons style index h]
  exact String.append_empty

theorem finishFrom_text (style : PlaceholderStyle) (index : Nat) (s : String) :
    (finishFrom style index (text s)).1 = s := by
  unfold text
  split
  · rename_i h
    exact (String.isEmpty_iff.mp h).symm
  · exact String.append_empty

theorem finishFrom_enclosed (style : PlaceholderStyle) (index : Nat) (f : Fragment) :
    (finishFrom style index (enclosed f)).1 = (finishFrom style index f).1 := by
  rw [enclosed, List.cons_append, finishFrom_cons _ _ rfl, finishFrom_append,
    finishFrom_singleton _ _ rfl]
  exact (String.empty_append).trans String.append_empty

end Fragment

open Fragment Dialect in
def Target.unquoting {t : Target} (h : t.dialect.MarksNames) : t.Invariant where
  joinsOnce := h.joinsOnce
  Holds _ _ f := ∀ index, t.dialect.Leaves (f.finishFrom t.dialect.style index).1
  Admits := Expr.CastsTo IsType
  Free _ := True
  free _ _ := trivial
  negated _ := .inl trivial
  nil _ _ := .of_plain h .nil
  append hf hg index := by
    rw [finishFrom_append]
    exact (hf index).append (hg _)
  word _ hs index := by
    rw [finishFrom_singleton _ _ rfl]
    exact .of_plain h (.word hs)
  template _ _ ht hs index := by
    rw [finishFrom_text]
    exact .of_plain h (.template ht hs)
  name _ identifier index := by
    rw [Target.name, Fragment.name, finishFrom_singleton _ _ rfl]
    exact .quote h identifier
  source _ x index := by
    rw [Fragment.source, finishFrom_singleton _ _ rfl]
    exact .source h x
  column _ index := by
    rw [Fragment.column, finishFrom_singleton _ _ rfl]
    exact .column h _
  bind _ source type index := by
    rw [Fragment.bind, finishFrom_bind]
    exact (Leaves.placeholder h index source).append (.of_plain h .nil)
  cast hf ht index := by
    simp only [finishFrom_append, finishFrom_text]
    exact .cast h (hf _) ht
  enclosed _ hf index := by
    rw [finishFrom_enclosed]
    exact hf index

open Fragment in
theorem Target.statement_leaves {t : Target} (h : t.dialect.MarksNames) {s : Statement}
    {f : Fragment} (hf : t.statement s = .ok f) (ht : Casts IsType s.castTargets) :
    t.dialect.Leaves (f.finish t.dialect.style).1 := by
  replace ht := (castTo_statement s).mpr ht
  cases s with
  | select s => exact ((unquoting h).select [] s ht).of_ok f hf 1
  | insert s =>
    obtain ⟨_, _, hs⟩ := ((unquoting h).insert s ht).of_ok f hf
    exact hs 1
  | update s =>
    obtain ⟨_, _, body, rfl, hs⟩ := ((unquoting h).update s ht).of_ok f hf
    rw [finish, finishFrom_enclosed]
    exact hs 1
  | delete s =>
    obtain ⟨_, _, body, rfl, hs⟩ := ((unquoting h).delete s ht).of_ok f hf
    rw [finish, finishFrom_enclosed]
    exact hs 1
  | empty =>
    cases hf
    exact .of_plain h .nil

/-! ### Sources -/

theorem Dialect.byName?_cases {name : String} {d : Dialect} (h : byName? name = some d) :
    d ∈ [generic, postgres, mysql, sqlite] := by
  unfold byName? at h
  split at h <;> cases h <;> simp

theorem Dialect.MarksNames.defineAll {name : String} {q : Quotes} {style : PlaceholderStyle}
    {entries : List (Construct × String)} (hq : q.opening = q.closing) (hstyle : style ≠ .named)
    (hchar : isPlainChar q.opening = false) (hsources : ∀ e ∈ entries, q.opening ∉ e.2.toList)
    (hj : ((bare name q style).defineAll entries).JoinsOnce) :
    ((bare name q style).defineAll entries).MarksNames where
  toAvoids := by
    rw [defineAll_quotes]
    exact .defineAll hstyle hchar hsources
  joinsOnce := hj
  marks := by
    rw [defineAll_quotes]
    exact hq

theorem Dialect.marksNames {name : String} {d : Dialect} (h : byName? name = some d) :
    d.MarksNames := by
  have hd := byName?_cases h
  simp only [List.mem_cons, List.not_mem_nil, or_false] at hd
  rcases hd with rfl | rfl | rfl | rfl
  all_goals
    exact .defineAll rfl (by decide) (by decide +kernel) (by decide +kernel) (by decide +kernel)

/-- An identifier in brackets. -/
def Token.Bracketed (token : Token) : Prop :=
  token.kind = .quotedIdentifier

theorem isType_or_bracketed {t : LanguageTable} {source target : String}
    (h : Written (scan t source).tokens target) :
    IsType target ∨ NamedBy (scan t source).tokens Token.Bracketed target := by
  obtain ⟨token, ht, hi, htext⟩ := h
  rcases Bool.or_eq_true_iff.mp hi with hk | hk
  · have hword : IsWord token.name := by
      unfold Token.name
      rw [beq_iff_eq.mp hk]
      exact (scan_wellShaped t source token ht).word (beq_iff_eq.mp hk)
    exact .inl ⟨_, hword.map_toUpper, htext⟩
  · exact .inr ⟨token, ht, beq_iff_eq.mp hk, htext⟩

/-- Outside of quoted identifiers SQL is plain, unless the type of a cast is written in brackets and
is not of the shape of a type. -/
theorem compile_unquoted {m : Metadata} {name source : String} {d : Dialect} {q : CompiledQuery}
    (hd : Dialect.byName? name = some d) (h : compile m d source = .ok q) :
    ∃ s, parse source = .ok s ∧
      (∀ target ∈ s.castTargets,
        IsType target ∨ NamedBy (scan table source).tokens Token.Bracketed target) ∧
      ((∀ target ∈ s.castTargets, IsType target) →
        d.Plain IsType (d.quotes.unquoted q.sql)) := by
  cases hs : parse source with
  | error e =>
    rw [compile, hs] at h
    cases h
  | ok s =>
    rw [compile, hs] at h
    refine ⟨s, rfl, ?_, ?_⟩
    · intro target ht
      exact isType_or_bracketed (parse_castTargets hs target ht)
    · intro ht
      obtain ⟨f, hf, rfl⟩ := lower_eq_ok_iff.mp h
      exact (Target.statement_leaves (Dialect.marksNames hd) hf ht).unquoted

/-- A cast beside names that have blanks and the mark itself in them. -/
def oldest : String :=
  "SELECT CAST(born AS decimal(10, 2)) AS [oldest \x60 born] FROM Author [the authors] LIMIT 1"

theorem isType_decimal : IsType "DECIMAL(10, 2)" := by
  have hword : IsWord "DECIMAL" := ⟨⟨'D', rfl, rfl⟩, List.all_eq_true.mp (by decide)⟩
  have hsizes : ∀ size ∈ ["10", "2"], IsNumber size := by
    intro size hs
    rcases List.mem_pair.mp hs with rfl | rfl
    · exact ⟨by decide, List.all_eq_true.mp (by decide)⟩
    · exact ⟨by decide, List.all_eq_true.mp (by decide)⟩
  have htext : "DECIMAL(10, 2)" = "DECIMAL" ++ "(" ++ ", ".intercalate ["10", "2"] ++ ")" := by
    decide +kernel
  rw [htext]
  exact ⟨"DECIMAL", hword, .sized (by decide) hsizes⟩

theorem compile_unquoted_oldest : Dialect.byName? "mysql" = some .mysql ∧
    ∃ q, compile library .mysql oldest = .ok q ∧
      Dialect.mysql.Plain IsType (Dialect.mysql.quotes.unquoted q.sql) := by
  have hname : lowerAscii "mysql" = "mysql" := by decide +kernel
  have hd : Dialect.byName? "mysql" = some .mysql := by
    unfold Dialect.byName?
    rw [hname]
    rfl
  have hs : (compile library .mysql oldest).toOption.isSome := by decide +kernel
  have htargets : (parse oldest).toOption.map (·.castTargets) = some ["DECIMAL(10, 2)"] := by
    decide +kernel
  obtain ⟨q, h⟩ := exists_ok_of_isSome hs
  obtain ⟨s, hparse, _, hplain⟩ := compile_unquoted hd h
  rw [hparse] at htargets
  have hcasts : s.castTargets = ["DECIMAL(10, 2)"] := Option.some.inj htargets
  refine ⟨hd, q, h, hplain ?_⟩
  rw [hcasts]
  exact List.forall_mem_singleton.mpr isType_decimal

/-- A type with a statement in it. -/
def injected : String :=
  "SELECT CAST(born AS [int); DROP TABLE authors; --]) FROM Author"

theorem injected_not_plain : Dialect.byName? "generic" = some .generic ∧
    ∃ q, compile library .generic injected = .ok q ∧
      ¬ Dialect.generic.Plain IsType (Dialect.generic.quotes.unquoted q.sql) := by
  have hname : lowerAscii "generic" = "generic" := by decide +kernel
  have hd : Dialect.byName? "generic" = some .generic := by
    unfold Dialect.byName?
    rw [hname]
    rfl
  have hs : (compile library .generic injected).toOption.any fun q =>
      (Dialect.generic.quotes.unquoted q.sql).toList.contains ';' := by decide +kernel
  have havoids : Dialect.generic.Avoids ';' :=
    .defineAll (by decide) (by decide +kernel) (by decide +kernel)
  obtain ⟨q, h, hsemicolon⟩ := exists_ok_of_any hs
  exact ⟨hd, q, h, fun hplain => hplain.not_mem havoids (List.contains_iff_mem.mp hsemicolon)⟩

end EmbeddedLang.Query
