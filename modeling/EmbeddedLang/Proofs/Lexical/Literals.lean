import EmbeddedLang.Proofs.Lexical.Ahead
import EmbeddedLang.Text.Escape

/-!
Texts and integers as literals.

Where the scanner looks for the end of a string and where its text is taken back, an escape takes
the same two characters. So a text is found again if each of its characters is written as itself or
as an escape that stands for it. An integer is its digits, with a minus in front of them or without.
-/

namespace EmbeddedLang

section strings

/-! ### Escapes -/

/-- How a text may be written between quotes. -/
inductive Spells (escape quote : Char) : List Char → List Char → Prop where
  | nil : Spells escape quote [] []
  | plain {c : Char} {text written : List Char} (hescape : c ≠ escape) (hquote : c ≠ quote)
      (h : Spells escape quote text written) : Spells escape quote (c :: text) (c :: written)
  | escaped {c d : Char} {text written : List Char} (hd : LanguageTable.decodeEscape d = c)
      (h : Spells escape quote text written) :
      Spells escape quote (c :: text) (escape :: d :: written)

namespace Spells

variable {escape quote : Char} {text written : List Char}

theorem append {text' written' : List Char} (h : Spells escape quote text written)
    (h' : Spells escape quote text' written') :
    Spells escape quote (text ++ text') (written ++ written') := by
  induction h with
  | nil => exact h'
  | plain hescape hquote _ ih => exact .plain hescape hquote ih
  | escaped hd _ ih => exact .escaped hd ih

theorem flatMap {write : Char → List Char} (h : ∀ c, Spells escape quote [c] (write c))
    (text : List Char) : Spells escape quote text (text.flatMap write) := by
  induction text with
  | nil => exact .nil
  | cons c text ih => exact (h c).append ih

/-- No character of the text ends the literal. -/
theorem stringLength_eq (h : Spells escape quote text written) (hne : quote ≠ escape)
    (rest : List Char) :
    stringLength (some escape) quote (written ++ quote :: rest) = some (written.length + 1) := by
  induction h with
  | nil => simp [stringLength.eq_def _ _ (_ :: _), hne]
  | plain hescape hquote _ ih =>
    rw [List.cons_append, stringLength.eq_def]
    simp [hescape, hquote, ih]
  | escaped _ _ ih =>
    simp [stringLength, ih]

theorem decode_eq (h : Spells escape quote text written) :
    LanguageTable.decode (some escape) written = text := by
  induction h with
  | nil => rfl
  | plain hescape _ _ ih => simp [LanguageTable.decode.eq_def _ (_ :: _), hescape, ih]
  | escaped hd _ ih => simp [LanguageTable.decode, hd, ih]

theorem unescape_eq {t : LanguageTable} (ht : t.escape = some escape)
    (h : Spells escape quote text written) :
    t.unescape (String.ofList (quote :: written ++ [quote])) = String.ofList text := by
  rw [LanguageTable.unescape, String.toList_ofList]
  simp [ht, h.decode_eq]

end Spells

/-! ### Texts between quotes -/

namespace Text

/-- A text between quotes, made safe for them. -/
def scriptLiteral (quote : Char) (s : String) : String :=
  String.ofList (quote :: (escapeScript s).toList ++ [quote])

theorem spells_scriptChar {quote : Char} (hquote : quote ∈ ['\'', '"']) (c : Char) :
    Spells '\\' quote [c] (scriptChar c) := by
  unfold scriptChar
  split
  all_goals try exact .escaped rfl .nil
  rename_i hdouble hsingle hescape _ _ _
  refine .plain hescape ?_ .nil
  rintro rfl
  rcases List.mem_pair.mp hquote with rfl | rfl
  · exact hsingle rfl
  · exact hdouble rfl

theorem spells_escapeScript {quote : Char} (hquote : quote ∈ ['\'', '"']) (s : String) :
    Spells '\\' quote s.toList (escapeScript s).toList := by
  rw [escapeScript, String.toList_ofList]
  exact .flatMap (spells_scriptChar hquote) s.toList

end Text

/-! ### Strings as tokens -/

variable {t : LanguageTable} {quote : Char}

/-- No table has a closing marker or a comment that begins with a quote. -/
theorem quoted_of_mem (ht : t ∈ [Query.table, Template.table, Arithmetic.table])
    (hquote : quote ∈ ['\'', '"']) :
    t.escape = some '\\' ∧ t.quotes.contains quote ∧ ∀ rest,
      t.delimiters.bind (closer? · (quote :: rest)) = none ∧
        comment t (quote :: rest) = .absent := by
  have hcloser (rest : List Char) : closer? .braces (quote :: rest) = none := by
    apply closer?_braces
    all_goals
      rintro rfl
      exact absurd hquote (by decide)
  have hcomment (rest : List Char) : comment Query.table (quote :: rest) = .absent := by
    rcases List.mem_pair.mp hquote with rfl | rfl <;> rfl
  simp only [List.mem_cons, List.not_mem_nil, or_false] at ht
  rcases ht with rfl | rfl | rfl
  · exact ⟨rfl, List.contains_iff_mem.mpr hquote, fun rest => ⟨rfl, hcomment rest⟩⟩
  · exact ⟨rfl, List.contains_iff_mem.mpr hquote, fun rest => ⟨hcloser rest, rfl⟩⟩
  · exact ⟨rfl, List.contains_iff_mem.mpr hquote, fun _ => ⟨rfl, rfl⟩⟩

theorem readString_spells {escape : Char} {text written : List Char}
    (h : Spells escape quote text written) (hne : quote ≠ escape) (rest : List Char) :
    readString (some escape) quote (written ++ quote :: rest) =
      .token .string (quote :: written ++ [quote]).length := by
  rw [readString, h.stringLength_eq hne]
  simp
  omega

theorem toList_scriptLiteral (quote : Char) (s : String) :
    (Text.scriptLiteral quote s).toList = quote :: ((Text.escapeScript s).toList ++ [quote]) :=
  String.toList_ofList

/-- The literal is one token, whatever follows, and the text is taken back from it. -/
theorem literal_is_one_string (ht : t ∈ [Query.table, Template.table, Arithmetic.table])
    (hquote : quote ∈ ['\'', '"']) (text : String) (following : List Char) {s u : Scanner}
    (hs : s.Ahead t u) (hu : u.rest = (Text.scriptLiteral quote text).toList ++ following) :
    ∃ s', s.next t = (some (.ok ⟨.string, Text.scriptLiteral quote text, u.position⟩), s') ∧
      s'.rest = following ∧ s'.mode = .language ∧ s'.finished = false ∧
      s'.position = u.position.advanceAll (Text.scriptLiteral quote text).toList ∧
      t.unescape (Text.scriptLiteral quote text) = text := by
  have hspells := Text.spells_escapeScript hquote text
  have hne : quote ≠ '\\' := by
    rintro rfl
    exact absurd hquote (by decide)
  obtain ⟨hescape, hcontains, hcloser⟩ := quoted_of_mem ht hquote
  have hliteral := toList_scriptLiteral quote text
  have hread : read t quote ((Text.escapeScript text).toList ++ [quote] ++ following) =
      .token .string (Text.scriptLiteral quote text).length := by
    rw [List.append_assoc, List.singleton_append, read_quote hcontains, hescape,
      readString_spells hspells hne, ← String.length_toList, hliteral, List.cons_append]
  refine ⟨_, hs.next_eq hu hliteral (hcloser _).1 hread, rfl, hs.kept.2, hs.kept.1, rfl, ?_⟩
  rw [Text.scriptLiteral, hspells.unescape_eq hescape, String.ofList_toList]

theorem literal_is_one_string_behind_comment :
    let s : Scanner := ⟨" /* x */ \"a\\\"\\\\\" b".toList, .start, .language, false, 0, false⟩
    ∃ u s', s.Ahead Query.table u ∧
      s.next Query.table = (some (.ok ⟨.string, "\"a\\\"\\\\\"", u.position⟩), s') ∧
      s'.rest = " b".toList ∧ Query.table.unescape "\"a\\\"\\\\\"" = "a\"\\" := by
  intro s
  have hs : s.Ahead Query.table (s.skip 9) := ⟨rfl, rfl, rfl⟩
  have hquote : '"' ∈ ['\'', '"'] := by decide
  obtain ⟨s', hnext, hrest, -, -, -, hunescape⟩ :=
    literal_is_one_string (by simp) hquote "a\"\\" " b".toList hs (by decide)
  exact ⟨s.skip 9, s', hs, hnext, hrest, hunescape⟩

end strings

section integers

variable {t : LanguageTable} {d : Char} {cs rest : List Char}

/-! ### Digits -/

theorem toNat_of_isDigit (hd : d.isDigit) : 48 ≤ d.toNat ∧ d.toNat ≤ 57 := by
  simpa [Char.isDigit, UInt32.le_iff_toNat_le] using hd

theorem ne_of_isDigit {c : Char} (hd : d.isDigit) (hc : c.isDigit = false) : d ≠ c := by
  rintro rfl
  exact Bool.noConfusion (hc.symm.trans hd)

theorem isBlank_of_isDigit (hd : d.isDigit) : Text.isBlank d = false := by
  have hcode := toNat_of_isDigit hd
  unfold Text.isBlank
  simp
  omega

/-- In front of a number, and of a minus before one, there is neither a comment nor a marker. -/
structure LanguageTable.Counts (t : LanguageTable) : Prop where
  marked : t.Marked
  quotes : t.quotes = ['\'', '"']
  comment {d : Char} (hd : d.isDigit) (cs : List Char) : comment t (d :: cs) = .absent
  comment_minus {d : Char} (hd : d.isDigit) (cs : List Char) :
    EmbeddedLang.comment t ('-' :: d :: cs) = .absent
  closer {d : Char} (hd : d.isDigit) (cs : List Char) :
    t.delimiters.bind (closer? · (d :: cs)) = none
  closer_minus {d : Char} (hd : d.isDigit) (cs : List Char) :
    t.delimiters.bind (closer? · ('-' :: d :: cs)) = none
  read_minus {d : Char} (hd : d.isDigit) (cs : List Char) :
    read t '-' (d :: cs) = .token (.operator "-") 1

theorem arithmetic_counts : Arithmetic.table.Counts where
  marked := marked_of_mem (by simp)
  quotes := rfl
  comment _ _ := rfl
  comment_minus _ _ := rfl
  closer _ _ := rfl
  closer_minus _ _ := rfl
  read_minus _ _ := rfl

theorem query_counts : Query.table.Counts where
  marked := marked_of_mem (by simp)
  quotes := rfl
  comment {d} hd cs := by
    have hminus : '-' ≠ d := (ne_of_isDigit hd rfl).symm
    have hslash : '/' ≠ d := (ne_of_isDigit hd rfl).symm
    rw [comment_absent_iff]
    simp [LanguageTable.commentMarks, Query.table, List.cons_prefix_cons, hminus, hslash]
  comment_minus {d} hd cs := by
    have hminus : '-' ≠ d := (ne_of_isDigit hd rfl).symm
    rw [comment_absent_iff]
    simp [LanguageTable.commentMarks, Query.table, List.cons_prefix_cons, hminus]
  closer _ _ := rfl
  closer_minus _ _ := rfl
  read_minus _ _ := rfl

theorem template_counts : Template.table.Counts where
  marked := marked_of_mem (by simp)
  quotes := rfl
  comment _ _ := rfl
  comment_minus _ _ := rfl
  closer hd _ := closer?_braces (ne_of_isDigit hd rfl) (ne_of_isDigit hd rfl) (ne_of_isDigit hd rfl)
  closer_minus hd _ := closer?_minus (ne_of_isDigit hd rfl) (ne_of_isDigit hd rfl)
  read_minus {d} hd cs := by
    have hequals : '=' ≠ d := (ne_of_isDigit hd rfl).symm
    have hlongest : Template.table.longestOperator? ('-' :: d :: cs) = some "-" := by
      simp [LanguageTable.longestOperator?, Template.table, Text.startsWith, LanguageTable.longerOf,
        hequals]
    change readOperator Template.table '-' (d :: cs) = _
    rw [readOperator, hlongest]
    rfl

/-! ### Integers as text -/

/-- The digits of an integer, with a minus in front if it is negative. -/
theorem toList_toString_int64 (i : Int64) : (toString i).toList =
    if i < 0 then '-' :: (toString i.toInt.natAbs).toList
    else (toString i.toInt.natAbs).toList := by
  have hneg : i < 0 ↔ i.toInt < 0 := Int64.lt_iff_toInt_lt
  change (toString i.toInt).toList = _
  cases hi : i.toInt with
  | ofNat n =>
    rw [if_neg (by rw [hneg, hi]; exact Int.not_lt.mpr (Int.natCast_nonneg n))]
    rfl
  | negSucc n =>
    rw [if_pos (by rw [hneg, hi]; exact Int.negSucc_lt_zero n)]
    change ("-" ++ toString (n + 1)).toList = _
    rw [String.toList_append]
    rfl

/-- The tokens of an integer that is written at `p`. -/
def integerTokens (p : Position) (i : Int64) : List Token :=
  if i < 0 then
    [⟨.operator "-", "-", p⟩, ⟨.integer, toString i.toInt.natAbs, p.advance '-'⟩]
  else [⟨.integer, toString i.toInt.natAbs, p⟩]

theorem exists_digits (n : Nat) :
    ∃ d ds, (toString n).toList = d :: ds ∧ d.isDigit ∧ ∀ c ∈ ds, c.isDigit := by
  obtain ⟨d, ds, hds⟩ := List.exists_cons_of_ne_nil (Decimal.toList_toString_ne_nil n)
  have hdigits : ∀ c ∈ d :: ds, c.isDigit := by
    rw [← hds]
    exact fun c hc => Decimal.isDigit_of_mem_toString hc
  exact ⟨d, ds, hds, List.forall_mem_cons.mp hdigits⟩

theorem read_digits (hquotes : t.quotes = ['\'', '"']) {n : Nat} {ds : List Char}
    (hds : (toString n).toList = d :: ds) (hd : d.isDigit) (hdigits : ∀ c ∈ ds, c.isDigit)
    (hrest : Separated rest) :
    read t d (ds ++ rest) = .token .integer (toString n).length := by
  have hquote : ¬ t.quotes.contains d := by
    rw [hquotes, List.contains_iff_mem, List.mem_pair, not_or]
    exact ⟨ne_of_isDigit hd rfl, ne_of_isDigit hd rfl⟩
  rw [read_digit hquote hd, ← List.cons_append,
    numberLength_separated (List.forall_mem_cons.mpr ⟨hd, hdigits⟩) hrest, ← hds,
    String.length_toList]

namespace Scanner

variable {s u : Scanner}

theorem Ahead.next_digits (ht : t.Counts) {n : Nat} (hs : s.Ahead t u)
    (hu : u.rest = (toString n).toList ++ rest) (hrest : Separated rest) :
    s.next t = (some (.ok ⟨.integer, toString n, u.position⟩),
      { u with rest := rest, position := u.position.advanceAll (toString n).toList }) := by
  obtain ⟨d, ds, hds, hd, hdigits⟩ := exists_digits n
  exact hs.next_eq hu hds (ht.closer hd _) (read_digits ht.quotes hds hd hdigits hrest)

theorem Ahead.next_minus (ht : t.Counts) (hs : s.Ahead t u) (hu : u.rest = '-' :: d :: cs)
    (hd : d.isDigit) : s.next t = (some (.ok ⟨.operator "-", "-", u.position⟩),
      { u with rest := d :: cs, position := u.position.advance '-' }) := by
  have hrest : u.rest = "-".toList ++ (d :: cs) := hu
  have hbraces : bracesAfter (.operator "-") u.openBraces = u.openBraces := by
    simp [bracesAfter]
  rw [hs.next_eq hrest rfl (ht.closer_minus hd cs) (ht.read_minus hd cs), behind, hbraces]
  dsimp only
  rw [show "-".toList = ['-'] from rfl]
  rfl

/-- In front of an integer there is nothing to pass over. -/
theorem exists_front (ht : t.Counts) (i : Int64) (rest : List Char) :
    ∃ c cs, (toString i).toList ++ rest = c :: cs ∧ Text.isBlank c = false ∧
      comment t (c :: cs) = .absent := by
  obtain ⟨d, ds, hds, hd, -⟩ := exists_digits i.toInt.natAbs
  rw [toList_toString_int64, hds]
  split
  · exact ⟨'-', _, rfl, by decide, ht.comment_minus hd _⟩
  · exact ⟨d, _, rfl, isBlank_of_isDigit hd, ht.comment hd _⟩

theorem ahead_integer (ht : t.Counts) {i : Int64} (hfinished : s.finished = false)
    (hmode : s.mode = .language) (hs : s.rest = (toString i).toList ++ rest) : s.Ahead t s := by
  obtain ⟨c, cs, hfront, hblank, hcomment⟩ := exists_front ht i rest
  rw [hfront] at hs
  apply Ahead.self hfinished hmode
  · rw [hs]
    rintro c ⟨rfl⟩
    exact hblank
  · rw [hs]
    exact hcomment

theorem ahead_spaced_integer (ht : t.Counts) {i : Int64} (hfinished : s.finished = false)
    (hmode : s.mode = .language) (hs : s.rest = ' ' :: ((toString i).toList ++ rest)) :
    s.Ahead t
      { s with rest := (toString i).toList ++ rest, position := s.position.advance ' ' } := by
  obtain ⟨c, cs, hfront, hblank, hcomment⟩ := exists_front ht i rest
  rw [hfront] at hs ⊢
  exact .space hfinished hmode hs hblank hcomment

theorem emits_digits (ht : t.Counts) {n : Nat} (hs : s.Ahead t u)
    (hu : u.rest = (toString n).toList ++ rest) (hrest : Separated rest) :
    Emits t s [⟨.integer, toString n, u.position⟩]
      { u with rest := rest, position := u.position.advanceAll (toString n).toList } := by
  refine .cons (hs.next_digits ht hu hrest) ?_ (.nil _)
  have hle : u.rest.length ≤ s.rest.length := hs.length_le
  have hpos : 0 < (toString n).toList.length :=
    List.length_pos_iff.mpr (Decimal.toList_toString_ne_nil n)
  rw [hu, List.length_append] at hle
  change rest.length < s.rest.length
  omega

theorem emits_integer (ht : t.Counts) {i : Int64} (hs : s.Ahead t u)
    (hu : u.rest = (toString i).toList ++ rest) (hrest : Separated rest) :
    Emits t s (integerTokens u.position i)
      { u with rest := rest, position := u.position.advanceAll (toString i).toList } := by
  rw [toList_toString_int64] at hu ⊢
  rw [integerTokens]
  split
  · next hneg =>
    rw [if_pos hneg] at hu
    obtain ⟨d, ds, hds, hd, -⟩ := exists_digits i.toInt.natAbs
    rw [hds] at hu
    let v : Scanner := { u with rest := d :: (ds ++ rest), position := u.position.advance '-' }
    have hminus : s.next t = (some (.ok ⟨.operator "-", "-", u.position⟩), v) :=
      hs.next_minus ht hu hd
    have hlt : v.rest.length < s.rest.length := by
      have hle : u.rest.length ≤ s.rest.length := hs.length_le
      rw [hu] at hle
      exact hle
    have hv : v.Ahead t v := by
      have hfinished : v.finished = false := hs.kept.1
      apply Ahead.self hfinished hs.kept.2 _ (ht.comment hd _)
      rintro c ⟨rfl⟩
      exact isBlank_of_isDigit hd
    refine .cons hminus hlt ?_
    rw [Position.advanceAll_cons]
    apply emits_digits ht hv _ hrest
    rw [hds]
    rfl
  · next hneg =>
    rw [if_neg hneg] at hu
    exact emits_digits ht hs hu hrest

end Scanner

/-! ### Integers in sources -/

theorem scan_integer (ht : t.Counts) (hd : t.delimiters = none) (i : Int64) :
    scan t (toString i) = ⟨integerTokens .start i, none,
      Position.start.advanceAll (toString i).toList⟩ := by
  let s : Scanner := Scanner.start t (toString i).toList
  have hs : s.rest = (toString i).toList ++ [] := (List.append_nil _).symm
  have hmode : s.mode = .language := by
    change (if t.delimiters.isSome then Mode.raw else .language) = _
    rw [hd]
    rfl
  have hemits := Scanner.emits_integer ht (Scanner.ahead_integer ht rfl hmode hs) hs separated_nil
  exact hemits.scanFrom_eq (Scanner.next_nil ht.marked rfl hmode rfl) (Nat.lt_succ_self _)

end integers

end EmbeddedLang
