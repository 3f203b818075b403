import EmbeddedLang.Proofs.Lexical.Spacing

/-!
Every token can stand in front of a blank.

The reading of a token is cut out of the text around it: it is the same when a blank, or the end,
comes directly after it. So a source without its white space and its comments, written with one blank
between any two tokens, has the same tokens.
-/

namespace EmbeddedLang

/-! ### Cutting readings short -/

theorem stringLength_cut {escape : Option Char} {quote : Char} {text : List Char} {n : Nat}
    (h : stringLength escape quote text = some n) : ∃ cs tail, text = cs ++ tail ∧ cs.length = n ∧
      ∀ later, stringLength escape quote (cs ++ later) = some n := by
  fun_induction stringLength generalizing n with
  | case1 => simp at h
  | case2 => simp at h
  | case3 c hc d rest ih =>
    obtain ⟨m, hm, rfl⟩ := Option.map_eq_some_iff.mp h
    obtain ⟨cs, tail, rfl, rfl, hlater⟩ := ih hm
    exact ⟨c :: d :: cs, tail, rfl, rfl, fun later => by simp [stringLength, hc, hlater]⟩
  | case4 rest hc =>
    cases h
    exact ⟨[quote], rest, rfl, rfl, fun later => by simp [stringLength.eq_def _ _ (_ :: _), hc]⟩
  | case5 c rest hc hquote ih =>
    obtain ⟨m, hm, rfl⟩ := Option.map_eq_some_iff.mp h
    obtain ⟨cs, tail, rfl, rfl, hlater⟩ := ih hm
    refine ⟨c :: cs, tail, rfl, rfl, fun later => ?_⟩
    simp [stringLength.eq_def _ _ (_ :: _), hc, hquote, hlater]

theorem runLength_cut (p : Char → Bool) (text : List Char) : ∃ cs tail, text = cs ++ tail ∧
    cs.length = runLength p text ∧ (∀ c ∈ cs, p c) ∧
      ∀ later, (∀ c ∈ later.head?, p c = false) → runLength p (cs ++ later) = cs.length := by
  refine ⟨text.takeWhile p, text.dropWhile p, List.takeWhile_append_dropWhile.symm, rfl, ?_, ?_⟩
  · exact List.all_eq_true.mp List.all_takeWhile
  · intro later hlater
    rw [runLength, takeWhile_append (List.all_eq_true.mp List.all_takeWhile) hlater]

theorem fractionLength_eq_zero {later : List Char} (h : ∀ c ∈ later.head?, c ≠ '.') :
    fractionLength later = 0 := by
  unfold fractionLength
  split
  · exact absurd rfl (h '.' rfl)
  · rfl

theorem fractionLength_cut (text : List Char) : ∃ cs tail, text = cs ++ tail ∧
    cs.length = fractionLength text ∧ (∀ c ∈ cs.head?, c = '.') ∧
      ∀ later, (∀ c ∈ later.head?, c.isDigit = false ∧ c ≠ '.') →
        fractionLength (cs ++ later) = cs.length := by
  by_cases hzero : fractionLength text = 0
  · exact ⟨[], text, rfl, hzero.symm, by simp,
      fun later hlater => fractionLength_eq_zero fun c hc => (hlater c hc).2⟩
  · obtain ⟨rest, rfl⟩ : ∃ rest, text = '.' :: rest := by
      unfold fractionLength at hzero
      split at hzero
      · exact ⟨_, rfl⟩
      · simp at hzero
    obtain ⟨digits, tail, rfl, hlength, -, hlater⟩ := runLength_cut Char.isDigit rest
    have hdigits : digits.length ≠ 0 := by
      intro hnone
      simp [fractionLength, ← hlength, hnone] at hzero
    refine ⟨'.' :: digits, tail, rfl, ?_, by simp, fun later h => ?_⟩
    · simp [fractionLength, ← hlength, hdigits, Nat.add_comm]
    · have hrun := hlater later fun c hc => (h c hc).1
      simp [fractionLength, hrun, hdigits, Nat.add_comm]

/-- A sign is read by itself, and what begins with a digit has none. -/
theorem signLength_cut (text : List Char) : ∃ cs tail, text = cs ++ tail ∧
    cs.length = signLength text ∧
      ∀ later, (∀ c ∈ later.head?, c.isDigit) → signLength (cs ++ later) = cs.length := by
  by_cases hsign : ∃ c rest, text = c :: rest ∧ (c = '+' ∨ c = '-')
  · obtain ⟨c, rest, rfl, hc⟩ := hsign
    have hone (later : List Char) : signLength (c :: later) = 1 := by
      rcases hc with rfl | rfl <;> rfl
    exact ⟨[c], rest, rfl, (hone rest).symm, fun later _ => hone later⟩
  · have hnone (later : List Char) (h : ∀ c ∈ later.head?, c ≠ '+' ∧ c ≠ '-') :
        signLength later = 0 := by
      unfold signLength
      split <;> simp_all
    refine ⟨[], text, rfl, ?_, fun later h => ?_⟩
    · refine (hnone text fun c hc => ?_).symm
      obtain ⟨rest, rfl⟩ := List.head?_eq_some_iff.mp hc
      exact not_or.mp fun h => hsign ⟨c, rest, rfl, h⟩
    · refine hnone later fun c hc => ⟨?_, ?_⟩ <;> rintro rfl <;> exact absurd (h _ hc) (by decide)

theorem exponentLength_eq_zero {later : List Char} (h : Separated later) :
    exponentLength later = 0 := by
  rcases h.cases with rfl | ⟨tail, rfl⟩ <;> rfl

theorem exponentLength_mark {c : Char} {sign unsigned : List Char} (hc : c = 'e' ∨ c = 'E')
    (hsign : signLength (sign ++ unsigned) = sign.length) :
    exponentLength (c :: (sign ++ unsigned)) =
      if runLength Char.isDigit unsigned = 0 then 0
      else 1 + sign.length + runLength Char.isDigit unsigned := by
  simp [exponentLength, hc, hsign]

theorem exponentLength_cut (text : List Char) : ∃ cs tail, text = cs ++ tail ∧
    cs.length = exponentLength text ∧ (∀ c ∈ cs.head?, c = 'e' ∨ c = 'E') ∧
      ∀ later, Separated later → exponentLength (cs ++ later) = cs.length := by
  by_cases hzero : exponentLength text = 0
  · exact ⟨[], text, rfl, hzero.symm, by simp, fun later hlater => exponentLength_eq_zero hlater⟩
  · obtain ⟨c, rest, rfl, hc⟩ : ∃ c rest, text = c :: rest ∧ (c = 'e' ∨ c = 'E') := by
      unfold exponentLength at hzero
      split at hzero
      · next c rest => exact ⟨c, rest, rfl, by by_contra h; simp [h] at hzero⟩
      · simp at hzero
    obtain ⟨sign, unsigned, rfl, hsign, hsigned⟩ := signLength_cut rest
    obtain ⟨digits, tail, hunsigned, hlength, hdigits, hlater⟩ :=
      runLength_cut Char.isDigit unsigned
    have hlengthText := exponentLength_mark hc hsign.symm
    rw [← hlength] at hlengthText
    have hne : digits ≠ [] := by
      rintro rfl
      simp [hlengthText] at hzero
    refine ⟨c :: (sign ++ digits), tail, by simp [hunsigned], ?_, by simpa using hc, fun later h => ?_⟩
    · simp [hlengthText, hne]
      omega
    · have hrun := hlater later fun d hd => by rw [h d hd]; rfl
      have hsigned' := hsigned (digits ++ later) fun d hd => by
        obtain ⟨first, others, rfl⟩ := List.exists_cons_of_ne_nil hne
        exact hdigits d (by simp_all)
      have hlengthLater := exponentLength_mark hc hsigned'
      rw [hrun] at hlengthLater
      simp [hlengthLater, hne]
      omega

theorem forall_head?_append {P : Char → Prop} {cs ds : List Char} (hcs : ∀ c ∈ cs.head?, P c)
    (hds : ∀ c ∈ ds.head?, P c) : ∀ c ∈ (cs ++ ds).head?, P c := by
  cases cs with
  | nil => exact hds
  | cons c cs => exact hcs

/-- The part before the fraction, the fraction and the exponent go on as far as they can, and none of
them can go on with what the next begins with. -/
theorem numberLength_cut (text : List Char) : ∃ cs tail, text = cs ++ tail ∧
    cs.length = (numberLength text).2 ∧
      ∀ later, Separated later → numberLength (cs ++ later) = numberLength text := by
  obtain ⟨whole, afterWhole, rfl, hwhole, -, hwhole'⟩ := runLength_cut Char.isDigit text
  obtain ⟨fraction, afterFraction, rfl, hfraction, hdot, hfraction'⟩ := fractionLength_cut afterWhole
  obtain ⟨exponent, tail, rfl, hexponent, hmark, hexponent'⟩ := exponentLength_cut afterFraction
  have hvalue : numberLength (whole ++ (fraction ++ (exponent ++ tail))) =
      (if fraction.length = 0 ∧ exponent.length = 0 then .integer else .float,
        whole.length + fraction.length + exponent.length) := by
    simp [numberLength, ← hwhole, ← hfraction, ← hexponent]
  refine ⟨whole ++ (fraction ++ exponent), tail, by simp, ?_, fun later h => ?_⟩
  · rw [hvalue]
    simp [Nat.add_assoc]
  · have hafter : ∀ c ∈ (exponent ++ later).head?, c.isDigit = false ∧ c ≠ '.' := by
      refine forall_head?_append (fun c hc => ?_) fun c hc => ?_
      · rcases hmark c hc with rfl | rfl <;> decide
      · rw [h c hc]
        decide
    have hafter' : ∀ c ∈ (fraction ++ (exponent ++ later)).head?, c.isDigit = false := by
      refine forall_head?_append (fun c hc => ?_) fun c hc => (hafter c hc).1
      rw [hdot c hc]
      rfl
    rw [hvalue]
    simp [numberLength, hwhole' _ hafter', hfraction' _ hafter, hexponent' _ h]

theorem placeholderLength_cut {text : List Char} {n : Nat} (h : placeholderLength text = some n) :
    ∃ cs tail, text = cs ++ tail ∧ cs.length = n ∧
      ∀ later, Separated later → placeholderLength (cs ++ later) = some n := by
  unfold placeholderLength at h
  split at h
  · next rest =>
    obtain ⟨word, afterWord, rfl, hlength, hword, hlater⟩ := runLength_cut isWordChar rest
    simp only [← hlength, List.drop_left] at h
    split at h
    · next hstart =>
      split at h
      · next hcolon =>
        cases h
        obtain ⟨tail, rfl⟩ := List.head?_eq_some_iff.mp hcolon
        obtain ⟨first, others, rfl⟩ : ∃ first others, word = first :: others := by
          apply List.exists_cons_of_ne_nil
          rintro rfl
          simp [isWordStart] at hstart
        refine ⟨':' :: (first :: others ++ [':']), tail, by simp, by simp, fun later _ => ?_⟩
        have hfirst : isWordStart first := hstart
        have hrun := hlater (':' :: later) (by simp; decide)
        simp only [List.cons_append] at hrun
        simp [placeholderLength, hfirst, hrun]
      · cases h
    · cases h
  · next rest =>
    obtain ⟨digits, tail, rfl, hlength, -, hlater⟩ := runLength_cut Char.isDigit rest
    simp only [← hlength] at h
    split at h
    · cases h
    · next hne =>
      cases h
      refine ⟨'?' :: digits, tail, rfl, by simp [Nat.add_comm], fun later hseparated => ?_⟩
      have hrun := hlater later fun c hc => by rw [hseparated c hc]; rfl
      simp [placeholderLength, hrun, hne]
  · cases h

/-! ### Reading a token -/

/-- What makes the tokens of a table independent of what comes after a blank. -/
structure LanguageTable.SelfDelimiting (t : LanguageTable) : Prop where
  marked : t.Marked
  delimiters : t.delimiters = none
  unspaced : ∀ mark ∈ t.operators ++ t.commentMarks, ' ' ∉ mark.toList
  longest : ∀ op ∈ t.operators, t.longestOperator? op.toList = some op
  /-- No operator begins as a placeholder does. -/
  operator_ne : t.placeholders → ∀ op ∈ t.operators, op.toList.head? ∉ [some ':', some '?']

variable {t : LanguageTable} {c : Char} {rest : List Char} {kind : TokenKind} {n : Nat}

theorem read_quote (hquote : t.quotes.contains c) : read t c rest = readString t.escape c rest :=
  if_pos hquote

theorem read_digit (hquote : ¬ t.quotes.contains c) (hdigit : c.isDigit) :
    read t c rest = .token (numberLength (c :: rest)).1 (numberLength (c :: rest)).2 := by
  rw [read, if_neg hquote, if_pos hdigit]

theorem read_wordStart (hquote : ¬ t.quotes.contains c) (hdigit : ¬ c.isDigit)
    (hword : isWordStart c) : read t c rest = readWord t (c :: rest) := by
  rw [read, if_neg hquote, if_neg hdigit, if_pos hword]

theorem read_bracket (hquote : ¬ t.quotes.contains c) (hdigit : ¬ c.isDigit)
    (hword : ¬ isWordStart c) (hbracket : c == '[' && t.bracketIdentifiers) :
    read t c rest = readBracketed rest := by
  rw [read, if_neg hquote, if_neg hdigit, if_neg hword, if_pos hbracket]

theorem read_symbol (hquote : ¬ t.quotes.contains c) (hdigit : ¬ c.isDigit)
    (hword : ¬ isWordStart c) (hbracket : ¬ (c == '[' && t.bracketIdentifiers)) :
    read t c rest = match if t.placeholders then placeholderLength (c :: rest) else none with
      | some n => .token .placeholder n
      | none => readOperator t c rest := by
  rw [read, if_neg hquote, if_neg hdigit, if_neg hword]
  exact if_neg hbracket

/-- The cut text begins with the character that was read first. -/
theorem exists_cut_tail {cs tail : List Char} (h : c :: rest = cs ++ tail) (hcs : 0 < cs.length) :
    ∃ ds, cs = c :: ds ∧ rest = ds ++ tail := by
  cases cs with
  | nil => simp at hcs
  | cons d ds =>
    rw [List.cons_append, List.cons.injEq] at h
    exact ⟨ds, by rw [h.1], h.2⟩

theorem read_cut (ht : t.SelfDelimiting) (h : read t c rest = .token kind n) :
    ∃ cs tail, rest = cs ++ tail ∧ cs.length + 1 = n ∧
      ∀ later, Separated later → read t c (cs ++ later) = .token kind n := by
  by_cases hquote : t.quotes.contains c
  · rw [read_quote hquote, readString] at h
    split at h
    · next m hm =>
      cases h
      obtain ⟨cs, tail, rfl, rfl, hlater⟩ := stringLength_cut hm
      refine ⟨cs, tail, rfl, Nat.add_comm .., fun later _ => ?_⟩
      rw [read_quote hquote, readString, hlater]
    · cases h
  by_cases hdigit : c.isDigit
  · rw [read_digit hquote hdigit] at h
    cases h
    obtain ⟨number, tail, htext, hlength, hlater⟩ := numberLength_cut (c :: rest)
    have hpos : 0 < number.length := hlength ▸ (numberLength_ofCode hdigit).2
    obtain ⟨cs, rfl, rfl⟩ := exists_cut_tail htext hpos
    refine ⟨cs, tail, rfl, hlength, fun later hseparated => ?_⟩
    rw [read_digit hquote hdigit, ← List.cons_append, hlater later hseparated]
  by_cases hword : isWordStart c
  · have hread (later : List Char) : read t c later =
        .token ((t.keyword? (String.ofList ((c :: later).takeWhile isWordChar))).elim .identifier
          .keyword) ((c :: later).takeWhile isWordChar).length := by
      rw [read_wordStart hquote hdigit hword, readWord]
      cases t.keyword? (String.ofList ((c :: later).takeWhile isWordChar)) <;> rfl
    have htext : c :: rest = (c :: rest).takeWhile isWordChar ++ (c :: rest).dropWhile isWordChar :=
      List.takeWhile_append_dropWhile.symm
    have hpos : 0 < ((c :: rest).takeWhile isWordChar).length := by
      simp [isWordChar_of_isWordStart hword]
    obtain ⟨cs, hcs, hrest⟩ := exists_cut_tail htext hpos
    have hchars : ∀ d ∈ c :: cs, isWordChar d := by
      rw [← hcs]
      exact List.all_eq_true.mp List.all_takeWhile
    rw [hread rest, hcs] at h
    refine ⟨cs, _, hrest, by cases h; rfl, fun later hseparated => ?_⟩
    rw [hread, ← List.cons_append, takeWhile_separated (by decide) hchars hseparated, h]
  by_cases hbracket : c == '[' && t.bracketIdentifiers
  · rw [read_bracket hquote hdigit hword hbracket] at h
    obtain ⟨inner, tail, rfl, hlength, -, hlater⟩ :=
      runLength_cut (fun c => c != ']' && c != '\n') rest
    simp only [readBracketed, ← hlength, List.drop_left] at h
    split at h
    · next hclose =>
      cases h
      obtain ⟨tail, rfl⟩ := List.head?_eq_some_iff.mp hclose
      refine ⟨inner ++ [']'], tail, by simp, by simp, fun later _ => ?_⟩
      have hrun := hlater (']' :: later) (by simp)
      simp [read_bracket hquote hdigit hword hbracket, readBracketed, hrun]
    · cases h
    · cases h
  rw [read_symbol hquote hdigit hword hbracket] at h
  split at h
  · next m hm =>
    cases h
    split at hm
    · next hplaceholders =>
      obtain ⟨text, tail, htext, rfl, hlater⟩ := placeholderLength_cut hm
      have hpos : 0 < text.length := by
        rw [List.length_pos_iff]
        rintro rfl
        have hempty := hlater [] separated_nil
        simp [placeholderLength] at hempty
      obtain ⟨cs, rfl, rfl⟩ := exists_cut_tail htext hpos
      refine ⟨cs, tail, rfl, rfl, fun later hseparated => ?_⟩
      rw [read_symbol hquote hdigit hword hbracket, if_pos hplaceholders, ← List.cons_append,
        hlater later hseparated]
    · cases hm
  · next hnone =>
    rw [readOperator] at h
    split at h
    · next op hop =>
      cases h
      obtain ⟨hmem, tail, htail⟩ := longestOperator?_mem hop
      have hpos : 0 < op.toList.length := by
        rw [String.length_toList]
        exact longestOperator?_length ht.marked hop
      obtain ⟨cs, hcs, rfl⟩ := exists_cut_tail htail.symm hpos
      refine ⟨cs, tail, rfl, by rw [← String.length_toList, hcs]; rfl, fun later hseparated => ?_⟩
      have hplaceholder : (if t.placeholders then placeholderLength (c :: (cs ++ later)) else none) =
          none := by
        split
        · next hplaceholders =>
          have hfirst := ht.operator_ne hplaceholders op hmem
          rw [hcs] at hfirst
          unfold placeholderLength
          split <;> simp_all
        · rfl
      have hlongest : t.longestOperator? (c :: (cs ++ later)) = some op := by
        rw [← List.cons_append, ← hcs, longestOperator?_separated _ hseparated, ht.longest op hmem]
        exact fun o ho => ht.unspaced o (List.mem_append_left _ ho)
      rw [read_symbol hquote hdigit hword hbracket, hplaceholder, readOperator, hlongest]
    · cases h

theorem readAs_of_read (ht : t.SelfDelimiting) (hblank : Text.isBlank c = false)
    (habsent : comment t (c :: rest) = .absent) (h : read t c rest = .token kind n) :
    ReadAs t kind (String.ofList ((c :: rest).take n)) := by
  obtain ⟨cs, tail, rfl, rfl, hlater⟩ := read_cut ht h
  have htake : (c :: (cs ++ tail)).take (cs.length + 1) = c :: cs := by simp
  rw [htake]
  refine ⟨c, cs, String.toList_ofList, hblank, fun later hseparated => ⟨?_, ?_⟩⟩
  · rw [comment_absent_iff] at habsent ⊢
    intro mark hmark hprefix
    apply habsent mark hmark
    have hblanks : ' ' ∉ mark.toList := ht.unspaced mark (List.mem_append_right _ hmark)
    have hcut : mark.toList <+: c :: cs := by
      rw [← List.isPrefixOf_iff_prefix, ← List.cons_append, isPrefixOf_separated hblanks hseparated]
        at hprefix
      exact List.isPrefixOf_iff_prefix.mp hprefix
    exact hcut.trans (List.prefix_append (c :: cs) tail)
  · rw [hlater later hseparated, String.length_ofList, List.length_cons]

/-! ### Whole sources -/

theorem isComment_ne_nil (ht : t.Marked) {cs : List Char} (h : IsComment t cs rest)
    (hhead : ∀ c ∈ (cs ++ rest).head?, Text.isBlank c = false) : cs ≠ [] := by
  cases h with
  | @line mark _ _ hline hmark _ hend =>
    rintro rfl
    have hne : mark ≠ "" := ht.lineComment_ne hline
    obtain ⟨tail, htail⟩ := hmark
    cases rest with
    | nil => simp_all
    | cons c rest =>
      have hnewline : c = '\n' := hend c rfl
      have hblank := hhead c rfl
      rw [hnewline] at hblank
      exact absurd hblank (by decide)
  | @block opening closing body _ hmarks _ =>
    have hne : opening ≠ "" := ht.blockComment_ne hmarks
    simp [hne]

namespace Scanner

variable {s s' : Scanner}

theorem skipBlanks_head (s : Scanner) : ∀ c ∈ s.skipBlanks.rest.head?, Text.isBlank c = false :=
  fun _ hc => head?_drop_runLength hc

theorem skipTrivia_stops (ht : t.Marked) {fuel : Nat} (hfuel : s.rest.length < fuel)
    (h : skipTrivia t fuel s = (none, s')) :
    comment t s'.rest = .absent ∧ ∀ c ∈ s'.rest.head?, Text.isBlank c = false := by
  induction fuel generalizing s with
  | zero => omega
  | succ fuel ih =>
    rw [skipTrivia] at h
    split at h
    · next habsent =>
      cases h
      exact ⟨habsent, skipBlanks_head s⟩
    · next n hclosed =>
      refine ih ?_ h
      have hcomment := isComment_of_closed hclosed
      have hne : s.skipBlanks.rest.take n ≠ [] := by
        apply isComment_ne_nil ht hcomment
        rw [List.take_append_drop]
        exact skipBlanks_head s
      have hle : s.skipBlanks.rest.length ≤ s.rest.length := (covers_skipBlanks (t := t) s).length_le
      have hpos : 0 < n ∧ 0 < s.skipBlanks.rest.length := by
        constructor <;> rw [Nat.pos_iff_ne_zero] <;> intro hzero <;> simp_all
      change (s.skipBlanks.rest.drop n).length < fuel
      rw [List.length_drop]
      omega
    · cases h

theorem step_readAs (ht : t.SelfDelimiting) {token : Token}
    (h : s.step t = (.ok (some token), s')) : ReadAs t token.kind token.lexeme := by
  have hlanguage : s.step t = s.nextLanguage t := by
    rw [step]
    cases s.mode <;> simp [ht.delimiters]
  rw [hlanguage, nextLanguage] at h
  split at h
  · cases h
  · next s₁ hskip =>
    obtain ⟨habsent, hblank⟩ := skipTrivia_stops ht.marked (Nat.lt_succ_self _) hskip
    rw [nextToken] at h
    split at h
    · cases h
    · next c rest hrest =>
      rw [hrest] at habsent hblank
      simp only [ht.delimiters, Option.bind_none, ite_self] at h
      cases hread : read t c rest with
      | unterminated n => simp [hread, accept] at h
      | unexpected c => simp [hread, accept] at h
      | token kind n =>
        rw [hread] at h
        cases h
        rw [cut, hrest]
        exact readAs_of_read ht (hblank c rfl) habsent hread

end Scanner

theorem scan_readAs (ht : t.SelfDelimiting) (source : String) :
    ∀ token ∈ (scan t source).tokens, ReadAs t token.kind token.lexeme :=
  scanFrom_forall (fun _ _ _ => Scanner.step_readAs ht) _ _

theorem selfDelimiting_of_mem (ht : t ∈ [Arithmetic.table, Query.table]) : t.SelfDelimiting := by
  simp only [List.mem_cons, List.not_mem_nil, or_false] at ht
  rcases ht with rfl | rfl
  · exact ⟨by decide +kernel, rfl, by decide +kernel, by decide +kernel, by decide +kernel⟩
  · exact ⟨by decide +kernel, rfl, by decide +kernel, by decide +kernel, by decide +kernel⟩

/-- The tokens of a source, written with one blank between any two of them, are scanned again as they
are, in kind and text and without an error. -/
theorem scan_respaced (ht : t ∈ [Arithmetic.table, Query.table]) (source : String) :
    let tokens := (scan t source).tokens
    let result := scan t (" ".intercalate (tokens.map Token.lexeme))
    result.fault = none ∧ result.tokens.map Token.piece = tokens.map Token.piece := by
  intro tokens result
  have hself := selfDelimiting_of_mem ht
  have hread : ∀ piece ∈ tokens.map Token.piece, ReadAs t piece.1 piece.2 := by
    intro piece hpiece
    obtain ⟨token, htoken, rfl⟩ := List.mem_map.mp hpiece
    exact scan_readAs hself source token htoken
  have hscan := scan_spaced hself.marked hself.delimiters hread
  rw [List.map_map] at hscan
  exact ⟨hscan.2, hscan.1⟩

/-- Numbers, placeholders and names in brackets that touch one another, and a comment. -/
theorem scan_respaced_touching :
    let source := "[a b]1.5e2:x:--c\n-- d\n<='e f'"
    let tokens := (scan Query.table source).tokens
    let respaced := " ".intercalate (tokens.map Token.lexeme)
    Query.table ∈ [Arithmetic.table, Query.table] ∧ respaced = "[a b] 1.5e2 :x: <= 'e f'" ∧
      (scan Query.table respaced).fault = none ∧
      (scan Query.table respaced).tokens.map Token.piece = tokens.map Token.piece := by
  intro source tokens respaced
  have ht : Query.table ∈ [Arithmetic.table, Query.table] := by simp
  exact ⟨ht, by decide +kernel, scan_respaced ht source⟩

end EmbeddedLang
