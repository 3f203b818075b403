import EmbeddedLang.Proofs.Lexical.Shapes
import EmbeddedLang.Proofs.Lexical.Tiling
import Mathlib.Data.List.Basic

/-!
Scanning what is written with blanks between its tokens.

A reading of a token only depends on what follows if that could go on with the token, and a blank
never does.
-/

namespace EmbeddedLang

/-- The end of a text, or a blank. -/
def Separated (rest : List Char) : Prop :=
  ∀ c ∈ rest.head?, c = ' '

theorem separated_nil : Separated [] := by
  intro c h
  cases h

theorem separated_cons (rest : List Char) : Separated (' ' :: rest) := by
  intro c h
  cases h
  rfl

theorem Separated.cases {rest : List Char} (h : Separated rest) :
    rest = [] ∨ ∃ tail, rest = ' ' :: tail := by
  cases rest with
  | nil => exact .inl rfl
  | cons c tail => exact .inr ⟨tail, by rw [h c rfl]⟩

variable {rest : List Char} {c : Char}

theorem takeWhile_append {p : Char → Bool} {cs : List Char} (hcs : ∀ c ∈ cs, p c)
    (h : ∀ c ∈ rest.head?, p c = false) : (cs ++ rest).takeWhile p = cs := by
  rw [List.takeWhile_append_of_pos hcs]
  cases rest with
  | nil => simp
  | cons c rest => simp [h c rfl]

theorem takeWhile_separated {p : Char → Bool} {cs : List Char} (hp : p ' ' = false)
    (hcs : ∀ c ∈ cs, p c) (h : Separated rest) : (cs ++ rest).takeWhile p = cs := by
  apply takeWhile_append hcs
  intro c hc
  rw [h c hc, hp]

/-! ### Words -/

/-- A letter or an underscore lies between the digits and the blanks beyond ASCII. -/
theorem toNat_of_isWordStart (h : isWordStart c) : 65 ≤ c.toNat ∧ c.toNat ≤ 122 := by
  unfold isWordStart Char.isAlpha Char.isUpper Char.isLower at h
  simp [UInt32.le_iff_toNat_le] at h
  rcases h with (h | h) | rfl
  · omega
  · omega
  · decide

theorem isDigit_of_isWordStart (h : isWordStart c) : c.isDigit = false := by
  have hc := toNat_of_isWordStart h
  unfold Char.isDigit
  simp [UInt32.le_iff_toNat_le]
  omega

theorem isBlank_of_isWordStart (h : isWordStart c) : Text.isBlank c = false := by
  have hc := toNat_of_isWordStart h
  unfold Text.isBlank
  simp
  omega

theorem readWord_separated {t : LanguageTable} {w : String} (hw : ∀ c ∈ w.toList, isWordChar c)
    (h : Separated rest) : readWord t (w.toList ++ rest) =
      .token ((t.keyword? w).elim .identifier .keyword) w.toList.length := by
  unfold readWord
  dsimp only
  rw [takeWhile_separated (by decide) hw h, String.ofList_toList]
  cases t.keyword? w <;> rfl

theorem find?_beq {α : Type} [DecidableEq α] (xs : List α) (a : α) :
    xs.find? (· == a) = if a ∈ xs then some a else none := by
  induction xs with
  | nil => rfl
  | cons x xs ih =>
    rw [List.find?_cons]
    by_cases h : x = a
    · rw [h, beq_self_eq_true, if_pos List.mem_cons_self]
    · rw [beq_false_of_ne h, ih]
      simp [Ne.symm h]

/-- Where case matters, a word is a keyword or a name. -/
theorem read_word {t : LanguageTable} (hcase : t.keywordCase = .sensitive)
    (hquotes : t.quotes.all (!isWordStart ·)) {w : String} (hw : IsWord w) {cs : List Char}
    (hcs : w.toList = c :: cs) (h : Separated rest) : read t c (cs ++ rest) =
      .token (if w ∈ t.keywords then .keyword w else .identifier) w.length := by
  obtain ⟨⟨d, hd, hstart⟩, hchars⟩ := hw
  obtain rfl : c = d := by simpa [hcs] using hd
  have hquote : t.quotes.contains c = false := by
    rw [← Bool.not_eq_true, List.contains_iff_mem]
    intro hmem
    simpa [hstart] using List.all_eq_true.mp hquotes c hmem
  have hword : t.keyword? w = if w ∈ t.keywords then some w else none := by
    rw [LanguageTable.keyword?, hcase]
    exact find?_beq t.keywords w
  unfold read
  rw [hquote, isDigit_of_isWordStart hstart, hstart]
  simp only [if_true, Bool.false_eq_true, if_false]
  rw [← List.cons_append, ← hcs, readWord_separated hchars h, hword, String.length_toList]
  by_cases hk : w ∈ t.keywords
  · rw [if_pos hk, if_pos hk, Option.elim_some]
  · rw [if_neg hk, if_neg hk, Option.elim_none]

/-! ### Numbers -/

theorem numberLength_separated {cs : List Char} (hcs : ∀ c ∈ cs, c.isDigit) (h : Separated rest) :
    numberLength (cs ++ rest) = (.integer, cs.length) := by
  have hwhole : runLength Char.isDigit (cs ++ rest) = cs.length := by
    unfold runLength
    rw [takeWhile_separated (by decide) hcs h]
  have hfraction : fractionLength rest = 0 := by
    rcases h.cases with rfl | ⟨tail, rfl⟩ <;> rfl
  have hexponent : exponentLength rest = 0 := by
    rcases h.cases with rfl | ⟨tail, rfl⟩ <;> rfl
  unfold numberLength
  dsimp only
  rw [hwhole, List.drop_left, hfraction, Nat.add_zero, List.drop_left, hexponent]
  rfl

/-! ### Operators -/

theorem isPrefixOf_separated {op cs : List Char} (hop : ' ' ∉ op) (h : Separated rest) :
    op.isPrefixOf (cs ++ rest) = op.isPrefixOf cs := by
  induction op generalizing cs with
  | nil => rfl
  | cons c op ih =>
    obtain ⟨hc, hop⟩ := not_or.mp (mt List.mem_cons.mpr hop)
    cases cs with
    | cons d cs => rw [List.cons_append, List.isPrefixOf_cons_cons, List.isPrefixOf_cons_cons, ih hop]
    | nil =>
      rcases h.cases with rfl | ⟨tail, rfl⟩
      · rfl
      · rw [List.nil_append, List.isPrefixOf_cons_cons, beq_false_of_ne (Ne.symm hc)]
        rfl

theorem longestOperator?_separated {t : LanguageTable} {cs : List Char}
    (ht : ∀ op ∈ t.operators, ' ' ∉ op.toList) (h : Separated rest) :
    t.longestOperator? (cs ++ rest) = t.longestOperator? cs := by
  unfold LanguageTable.longestOperator?
  congr 1
  apply List.filter_congr
  intro op hop
  exact isPrefixOf_separated (ht op hop) h

/-! ### Comments -/

/-- The texts that begin a comment. -/
def LanguageTable.commentMarks (t : LanguageTable) : List String :=
  t.lineComment.toList ++ t.blockComment.toList.map Prod.fst

theorem comment_absent_iff {t : LanguageTable} {cs : List Char} :
    comment t cs = .absent ↔ ∀ mark ∈ t.commentMarks, ¬ mark.toList <+: cs := by
  have hblock (marks : String × String) :
      blockComment marks cs = .absent ↔ Text.startsWith cs marks.1 = false := by
    rw [blockComment]
    split
    · split <;> simp_all
    · simp_all
  simp only [← startsWith_iff, comment, LanguageTable.commentMarks]
  cases t.lineComment with
  | none => cases t.blockComment <;> simp [hblock]
  | some mark => cases hmark : Text.startsWith cs mark <;> cases t.blockComment <;> simp [hmark, hblock]

theorem comment_nil {t : LanguageTable} (ht : t.Marked) : comment t [] = .absent := by
  rw [comment_absent_iff]
  intro mark hmark hprefix
  have hempty : mark = "" := by simpa using hprefix
  subst hempty
  apply ht
  simp only [LanguageTable.commentMarks, LanguageTable.marks, List.mem_append, List.mem_map] at hmark ⊢
  grind

/-! ### Texts with blanks between them -/

/-- What the scanner makes of a text, whatever comes after a blank. -/
def ReadAs (t : LanguageTable) (kind : TokenKind) (text : String) : Prop :=
  ∃ c cs, text.toList = c :: cs ∧ Text.isBlank c = false ∧ ∀ rest, Separated rest →
    comment t (c :: (cs ++ rest)) = .absent ∧ read t c (cs ++ rest) = .token kind text.length

def Token.piece (token : Token) : TokenKind × String :=
  (token.kind, token.lexeme)

def spaced (pieces : List (TokenKind × String)) : List Char :=
  [' '].intercalate (pieces.map fun piece => piece.2.toList)

/-- What is left after a text that is not the last one. -/
def following (pieces : List (TokenKind × String)) : List Char :=
  if pieces.isEmpty then [] else ' ' :: spaced pieces

variable {t : LanguageTable} {piece : TokenKind × String} {pieces : List (TokenKind × String)}

theorem spaced_cons (piece : TokenKind × String) (pieces : List (TokenKind × String)) :
    spaced (piece :: pieces) = piece.2.toList ++ following pieces := by
  rw [spaced, following]
  cases pieces with
  | nil => simp
  | cons next rest =>
    rw [List.map_cons, List.map_cons, List.intercalate_cons_cons, List.append_assoc]
    rfl

theorem separated_following (pieces : List (TokenKind × String)) : Separated (following pieces) := by
  rw [following]
  split
  · exact separated_nil
  · exact separated_cons _

theorem skipBlanks_rest (s : Scanner) : s.skipBlanks.rest = s.rest.dropWhile Text.isBlank := by
  change s.rest.drop (s.rest.takeWhile Text.isBlank).length = _
  have happend : s.rest.takeWhile Text.isBlank ++ s.rest.drop (s.rest.takeWhile Text.isBlank).length =
      s.rest.takeWhile Text.isBlank ++ s.rest.dropWhile Text.isBlank := by
    rw [List.takeWhile_append_dropWhile]
    nth_rewrite 1 [← take_length_takeWhile]
    exact List.take_append_drop _ _
  exact List.append_cancel_left happend

theorem dropWhile_spaced (h : ReadAs t piece.1 piece.2) :
    (spaced (piece :: pieces)).dropWhile Text.isBlank = spaced (piece :: pieces) := by
  obtain ⟨c, cs, hcs, hblank, -⟩ := h
  simp [spaced_cons, hcs, hblank]

theorem dropWhile_following (h : ∀ piece ∈ pieces, ReadAs t piece.1 piece.2) :
    (following pieces).dropWhile Text.isBlank = spaced pieces := by
  cases pieces with
  | nil => rfl
  | cons piece pieces =>
    have hhead : ReadAs t piece.1 piece.2 := h piece List.mem_cons_self
    rw [following, if_neg (by simp), List.dropWhile_cons_of_pos (by decide), dropWhile_spaced hhead]

/-- In front of a token there are only blanks to pass over. -/
theorem step_of_absent (hd : t.delimiters = none) {s : Scanner}
    (h : comment t s.skipBlanks.rest = .absent) : s.step t = s.skipBlanks.nextToken t := by
  have hstep : s.step t = s.nextLanguage t := by
    rw [Scanner.step]
    cases s.mode <;> simp [hd]
  rw [hstep, Scanner.nextLanguage, Scanner.skipTrivia, h]

theorem step_token (hd : t.delimiters = none) {s : Scanner} (h : ReadAs t piece.1 piece.2)
    (hs : s.skipBlanks.rest = spaced (piece :: pieces)) :
    ∃ token s', s.step t = (.ok (some token), s') ∧ token.piece = piece ∧
      s'.finished = s.finished ∧ s'.rest = following pieces := by
  obtain ⟨c, cs, hcs, -, hread⟩ := h
  obtain ⟨habsent, htoken⟩ := hread (following pieces) (separated_following pieces)
  have hrest : s.skipBlanks.rest = piece.2.toList ++ following pieces := by rw [hs, spaced_cons]
  have hrest' : s.skipBlanks.rest = c :: (cs ++ following pieces) := by rw [hrest, hcs]; rfl
  have haccept : s.skipBlanks.nextToken t = s.skipBlanks.accept (.token piece.1 piece.2.length) := by
    rw [Scanner.nextToken, hrest', ← htoken]
    simp [hd]
  have hlength : piece.2.length = piece.2.toList.length := String.length_toList.symm
  refine ⟨_, _, (step_of_absent hd (hrest' ▸ habsent)).trans haccept, ?_, rfl, ?_⟩
  · change (piece.1, String.ofList (s.skipBlanks.rest.take _)) = piece
    rw [hrest, hlength, List.take_left, String.ofList_toList]
  · change s.skipBlanks.rest.drop _ = following pieces
    rw [hrest, hlength, List.drop_left]

theorem scanFrom_spaced (ht : t.Marked) (hd : t.delimiters = none)
    (h : ∀ piece ∈ pieces, ReadAs t piece.1 piece.2) {fuel : Nat} {s : Scanner}
    (hf : s.finished = false) (hs : s.skipBlanks.rest = spaced pieces)
    (hfuel : pieces.length < fuel) :
    (scanFrom t fuel s).tokens.map Token.piece = pieces ∧ (scanFrom t fuel s).fault = none := by
  -- one unit of fuel for each token, and one to see the end
  induction pieces generalizing fuel s with
  | nil =>
    obtain ⟨fuel, rfl⟩ := Nat.exists_eq_succ_of_ne_zero (Nat.ne_zero_of_lt hfuel)
    have hrest : s.skipBlanks.rest = [] := hs
    have hstep : s.step t = (.ok none, s.skipBlanks) := by
      rw [step_of_absent hd (hrest ▸ comment_nil ht), Scanner.nextToken, hrest]
    rw [scanFrom, Scanner.next, hf, hstep]
    exact ⟨rfl, rfl⟩
  | cons piece pieces ih =>
    obtain ⟨fuel, rfl⟩ := Nat.exists_eq_succ_of_ne_zero (Nat.ne_zero_of_lt hfuel)
    obtain ⟨hpiece, hpieces⟩ := List.forall_mem_cons.mp h
    obtain ⟨token, s', hstep, htoken, hf', hrest⟩ := step_token hd hpiece hs
    have hs' : s'.skipBlanks.rest = spaced pieces := by
      rw [skipBlanks_rest, hrest, dropWhile_following hpieces]
    obtain ⟨htokens, hfault⟩ := ih hpieces (hf'.trans hf) hs' (Nat.lt_of_succ_lt_succ hfuel)
    rw [scanFrom, Scanner.next, hf, hstep]
    exact ⟨by simp [htoken, htokens], hfault⟩

theorem length_le_spaced (h : ∀ piece ∈ pieces, ReadAs t piece.1 piece.2) :
    pieces.length ≤ (spaced pieces).length := by
  induction pieces with
  | nil => exact Nat.zero_le _
  | cons piece pieces ih =>
    obtain ⟨⟨c, cs, hcs, -⟩, hpieces⟩ := List.forall_mem_cons.mp h
    have hlength := ih hpieces
    have hfollowing : (spaced pieces).length ≤ (following pieces).length := by
      rw [following]
      split
      · next hnil => simp [List.isEmpty_iff.mp hnil, spaced]
      · simp
    simp only [spaced_cons, hcs, List.length_append, List.length_cons]
    omega

/-- Texts that are read the same in front of every blank are the tokens of what they make up
together. -/
theorem scan_spaced (ht : t.Marked) (hd : t.delimiters = none)
    (h : ∀ piece ∈ pieces, ReadAs t piece.1 piece.2) :
    (scan t (" ".intercalate (pieces.map Prod.snd))).tokens.map Token.piece = pieces ∧
      (scan t (" ".intercalate (pieces.map Prod.snd))).fault = none := by
  have hsource : (" ".intercalate (pieces.map Prod.snd)).toList = spaced pieces := by
    rw [String.toList_intercalate, List.map_map]
    rfl
  rw [scan, hsource]
  refine scanFrom_spaced ht hd h rfl ?_ (Nat.lt_succ_of_le (length_le_spaced h))
  rw [skipBlanks_rest]
  change (spaced pieces).dropWhile Text.isBlank = _
  cases pieces with
  | nil => rfl
  | cons piece pieces => exact dropWhile_spaced (h piece List.mem_cons_self)

end EmbeddedLang
