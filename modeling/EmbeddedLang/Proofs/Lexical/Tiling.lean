import EmbeddedLang.Arithmetic
import EmbeddedLang.Proofs.Lexical.Shapes
import EmbeddedLang.Proofs.Lexical.Tiles
import EmbeddedLang.Query.Grammar
import EmbeddedLang.Template.Grammar

/-!
The scanner lays out every source.

What each rule passes over is accounted for: one step lays the token it returns behind the white
space and the comments that it skips, and a whole scan goes on to the end or to the place of its
error.
-/

namespace EmbeddedLang

/-- All that a table can recognize by its text. -/
def LanguageTable.marks (t : LanguageTable) : List String :=
  t.operators ++ t.lineComment.toList ++ t.blockComment.toList.flatMap (fun (o, c) => [o, c]) ++
    t.delimiters.toList.flatMap fun d =>
      [d.openStatement, d.closeStatement, d.openEcho, d.closeEcho, d.openComment, d.closeComment]

/-- No operator, comment marker or delimiter is empty. -/
def LanguageTable.Marked (t : LanguageTable) : Prop :=
  "" ∉ t.marks

instance (t : LanguageTable) : Decidable t.Marked :=
  inferInstanceAs (Decidable ("" ∉ t.marks))

namespace LanguageTable.Marked

variable {t : LanguageTable} {d : Delimiters} {marker : String}

theorem operator_ne (ht : t.Marked) (h : marker ∈ t.operators) : marker ≠ "" := by
  rintro rfl
  exact ht (by simp [marks, h])

theorem lineComment_ne (ht : t.Marked) (h : t.lineComment = some marker) : marker ≠ "" := by
  rintro rfl
  exact ht (by simp [marks, h])

theorem blockComment_ne {closing : String} (ht : t.Marked)
    (h : t.blockComment = some (marker, closing)) : marker ≠ "" := by
  rintro rfl
  exact ht (by simp [marks, h])

theorem delimiter_ne (ht : t.Marked) (hd : t.delimiters = some d)
    (h : marker ∈ [d.openStatement, d.closeStatement, d.openEcho, d.closeEcho, d.openComment,
      d.closeComment]) : marker ≠ "" := by
  rintro rfl
  exact ht (by simp [marks, hd, -List.mem_cons, h])

end LanguageTable.Marked

/-! ### Measures -/

theorem Text.exists_of_indexOf {needle text : List Char} {n : Nat}
    (h : Text.indexOf needle text = some n) :
    ∃ before after, text = before ++ needle ++ after ∧ before.length = n := by
  induction text generalizing n with
  | nil =>
    cases needle <;> simp_all [Text.indexOf]
  | cons c text ih =>
    rw [Text.indexOf] at h
    split at h
    · next hprefix =>
      cases h
      obtain ⟨after, hafter⟩ := List.isPrefixOf_iff_prefix.mp hprefix
      exact ⟨[], after, hafter.symm, rfl⟩
    · obtain ⟨k, hk, rfl⟩ := Option.map_eq_some_iff.mp h
      obtain ⟨before, after, htext, hlength⟩ := ih hk
      exact ⟨c :: before, after, by simp [htext], by simp [hlength]⟩

theorem Text.exists_trimEnd (text : List Char) :
    ∃ blanks, text = Text.trimEnd text ++ blanks ∧ ∀ c ∈ blanks, Text.isBlank c := by
  refine ⟨(text.reverse.takeWhile Text.isBlank).reverse, ?_, fun c hc => ?_⟩
  · rw [Text.trimEnd, ← List.reverse_append, List.takeWhile_append_dropWhile, List.reverse_reverse]
  · exact List.all_eq_true.mp List.all_takeWhile c (List.mem_reverse.mp hc)

theorem take_runLength (p : Char → Bool) (cs : List Char) :
    ∀ c ∈ cs.take (runLength p cs), p c := by
  rw [runLength, take_length_takeWhile]
  exact List.all_eq_true.mp List.all_takeWhile

theorem head?_drop_runLength {p : Char → Bool} {cs : List Char} {c : Char}
    (h : c ∈ (cs.drop (runLength p cs)).head?) : p c = false := by
  induction cs with
  | nil => simp at h
  | cons d cs ih =>
    cases hd : p d with
    | true => exact ih (by simpa [runLength, hd] using h)
    | false =>
      have hc : d = c := by simpa [runLength, hd] using h
      rw [← hc, hd]

theorem startsWith_iff {text : List Char} {opening : String} :
    Text.startsWith text opening ↔ opening.toList <+: text :=
  List.isPrefixOf_iff_prefix

theorem longestOperator?_mem {t : LanguageTable} {cs : List Char} {op : String}
    (h : t.longestOperator? cs = some op) : op ∈ t.operators ∧ op.toList <+: cs := by
  have hmem (ops : List String) (best : Option String)
      (hfold : ops.foldl LanguageTable.longerOf best = some op) : op ∈ ops ∨ best = some op := by
    induction ops generalizing best with
    | nil => exact .inr hfold
    | cons o ops ih =>
      rcases ih _ hfold with hop | hop
      · exact .inl (List.mem_cons_of_mem _ hop)
      · cases best <;> simp only [LanguageTable.longerOf] at hop <;> grind
  rcases hmem _ _ h with hop | hop
  · obtain ⟨hop, hstarts⟩ := List.mem_filter.mp hop
    exact ⟨hop, startsWith_iff.mp hstarts⟩
  · cases hop

variable {t : LanguageTable}

theorem firstOpener_mem {d : Delimiters} {cs : List Char} {n : Nat} {marker : String}
    (h : firstOpener d cs = some (n, marker)) :
    marker ∈ [d.openStatement, d.openEcho, d.openComment] ∧
      ∃ before after, cs = before ++ (marker.toList ++ after) ∧ before.length = n := by
  have hmarker : marker ∈ [d.openStatement, d.openEcho, d.openComment] ∧
      Text.indexOf marker.toList cs = some n := by
    simp only [firstOpener, List.foldl_cons, List.foldl_nil] at h
    cases hs : Text.indexOf d.openStatement.toList cs <;>
      cases he : Text.indexOf d.openEcho.toList cs <;>
      cases hc : Text.indexOf d.openComment.toList cs <;>
      simp only [hs, he, hc, Option.map_some, Option.map_none] at h <;>
      grind
  obtain ⟨before, after, hcs, hlength⟩ := Text.exists_of_indexOf hmarker.2
  exact ⟨hmarker.1, before, after, by simpa using hcs, hlength⟩

theorem longestOperator?_length {cs : List Char} {op : String} (ht : t.Marked)
    (h : t.longestOperator? cs = some op) : 0 < op.length := by
  have hne : op ≠ "" := ht.operator_ne (longestOperator?_mem h).1
  have hlist : op.toList ≠ [] := by simpa using hne
  rw [← String.length_toList]
  exact List.length_pos_iff.mpr hlist

theorem numberLength_ofCode {c : Char} {rest : List Char} (hc : c.isDigit) :
    (numberLength (c :: rest)).1.ofCode ∧ 0 < (numberLength (c :: rest)).2 := by
  have hwhole : 0 < runLength Char.isDigit (c :: rest) := by simp [runLength, hc]
  refine ⟨?_, ?_⟩
  · simp only [numberLength]
    split <;> rfl
  · simp only [numberLength]
    omega

theorem read_ofCode {c : Char} {rest : List Char} {kind : TokenKind} {n : Nat} (ht : t.Marked)
    (h : read t c rest = .token kind n) : kind.ofCode ∧ 0 < n := by
  unfold read at h
  split at h
  · rw [readString] at h
    split at h <;> cases h
    exact ⟨rfl, by omega⟩
  split at h
  · next hdigit =>
    cases h
    exact numberLength_ofCode hdigit
  split at h
  · next hstart =>
    have hword : 0 < ((c :: rest).takeWhile isWordChar).length := by
      simp [isWordChar_of_isWordStart hstart]
    rw [readWord] at h
    split at h <;> cases h <;> exact ⟨rfl, hword⟩
  split at h
  · simp only [readBracketed] at h
    split at h <;> cases h
    exact ⟨rfl, by omega⟩
  split at h
  · next hplaceholder =>
    cases h
    refine ⟨rfl, ?_⟩
    split at hplaceholder
    · simp only [placeholderLength] at hplaceholder
      grind
    · cases hplaceholder
  · rw [readOperator] at h
    split at h
    · next hoperator =>
      cases h
      exact ⟨rfl, longestOperator?_length ht hoperator⟩
    · cases h

theorem mem_of_closers {d : Delimiters} {kind : TokenKind} {marker : String}
    (h : (kind, marker) ∈ d.closers) : marker ∈ [d.openStatement, d.closeStatement, d.openEcho,
      d.closeEcho, d.openComment, d.closeComment] := by
  simp only [Delimiters.closers, List.mem_cons, Prod.mk.injEq] at h
  grind

theorem closer?_mem {d : Delimiters} {cs : List Char} {kind : TokenKind} {n : Nat} {trims : Bool}
    (h : closer? d cs = some (kind, n, trims)) :
    ∃ marker, (kind, marker) ∈ d.closers ∧ cs.take n = d.mark trims ++ marker.toList := by
  have hmarker (kind' : TokenKind) (marker : String)
      (h : (if cs.head? = some d.trim ∧ Text.startsWith (cs.drop 1) marker then
          some (kind', 1 + marker.length, true)
        else if Text.startsWith cs marker then some (kind', marker.length, false)
        else none) = some (kind, n, trims)) :
      kind' = kind ∧ cs.take n = d.mark trims ++ marker.toList := by
    split at h
    · next htrim =>
      cases h
      obtain ⟨tail, rfl⟩ := List.head?_eq_some_iff.mp htrim.1
      obtain ⟨rest, rfl⟩ := startsWith_iff.mp htrim.2
      simp [Delimiters.mark, Nat.add_comm 1, ← String.length_toList]
    split at h
    · next hstarts =>
      cases h
      obtain ⟨rest, rfl⟩ := startsWith_iff.mp hstarts
      simp [Delimiters.mark, ← String.length_toList]
    · cases h
  rw [closer?] at h
  rcases Option.or_eq_some_iff.mp h with h | ⟨-, h⟩
  · obtain ⟨rfl, htake⟩ := hmarker _ _ h
    exact ⟨d.closeStatement, by simp [Delimiters.closers], htake⟩
  · obtain ⟨rfl, htake⟩ := hmarker _ _ h
    exact ⟨d.closeEcho, by simp [Delimiters.closers], htake⟩

theorem isComment_of_closed {cs : List Char} {n : Nat} (h : comment t cs = .closed n) :
    IsComment t (cs.take n) (cs.drop n) := by
  rw [comment] at h
  split at h
  · next hline =>
    cases h
    obtain ⟨mark, hmark, hstarts⟩ : ∃ mark, t.lineComment = some mark ∧ Text.startsWith cs mark := by
      cases hcomment : t.lineComment <;> simp_all
    refine .line hmark ?_ (fun hmem => ?_) fun c hc => ?_
    · rw [List.take_append_drop]
      exact startsWith_iff.mp hstarts
    · simpa using take_runLength _ cs _ hmem
    · simpa using head?_drop_runLength hc
  · obtain ⟨opening, closing, hmarks, hblock⟩ : ∃ opening closing,
        t.blockComment = some (opening, closing) ∧
          blockComment (opening, closing) cs = .closed n := by
      cases hcomment : t.blockComment with
      | none => simp [hcomment] at h
      | some marks => exact ⟨marks.1, marks.2, rfl, by simpa [hcomment] using h⟩
    rw [blockComment] at hblock
    split at hblock
    · next hstarts =>
      obtain ⟨inner, rfl⟩ := startsWith_iff.mp hstarts
      simp only [← String.length_toList, List.drop_left] at hblock
      split at hblock
      · next k hk =>
        cases hblock
        obtain ⟨body, after, rfl, rfl⟩ := Text.exists_of_indexOf hk
        have hcs : opening.toList ++ (body ++ closing.toList ++ after) =
            (opening.toList ++ body ++ closing.toList) ++ after := by simp
        have hlength : opening.toList.length + body.length + closing.toList.length =
            (opening.toList ++ body ++ closing.toList).length := by simp [Nat.add_assoc]
        rw [hcs, hlength, List.take_left, List.drop_left]
        exact .block hmarks hk
      · cases hblock
    · cases hblock

namespace Scanner

/-- Where a scanner is. -/
def spotIn (place : Place) (s : Scanner) : Spot :=
  ⟨place, s.position, s.rest⟩

def place (t : LanguageTable) (s : Scanner) : Place :=
  if s.mode = .raw ∧ t.delimiters.isSome then .text s.trimNextRaw else .code

def spot (t : LanguageTable) (s : Scanner) : Spot :=
  s.spotIn (s.place t)

/-- What holds of a scanner that has not come to its end. -/
structure Tidy (s : Scanner) : Prop where
  unfinished : s.finished = false
  untrimmed : s.mode = .language → s.trimNextRaw = false

/-- How a step accounts for the text behind a spot. -/
inductive Accounts (t : LanguageTable) (a : Spot) : Step → Prop where
  | token {token : Token} {s : Scanner} (h : Covers t a [token] (s.spot t)) (hs : s.Tidy) :
      Accounts t a (.ok (some token), s)
  | finish {s : Scanner} (h : Covers t a [] (s.spot t)) (hrest : s.rest = []) :
      Accounts t a (.ok none, s)
  | fault {e : CompileError} {s : Scanner} {b : Spot} (h : Covers t a [] b)
      (he : e.position? = some b.position) : Accounts t a (.error e, s)

variable {s : Scanner} {a b : Spot} {n : Nat} {step : Step}

theorem Accounts.after (h : Covers t a [] b) (hstep : Accounts t b step) : Accounts t a step := by
  cases hstep with
  | token htoken hs => exact .token (h.trans htoken) hs
  | finish hend hrest => exact .finish (h.trans hend) hrest
  | fault hfault he => exact .fault (h.trans hfault) he

@[simp] theorem toList_cut (s : Scanner) (kind : TokenKind) (n : Nat) :
    (s.cut kind n).lexeme.toList = s.rest.take n :=
  String.toList_ofList

theorem covers_cut {kind : TokenKind} {place place' : Place} (hn : 0 < n) (hrest : s.rest ≠ [])
    (h : Tile.Fits t place (.token (s.cut kind n)) (s.rest.drop n) place') :
    Covers t (s.spotIn place) [s.cut kind n] ((s.skip n).spotIn place') := by
  refine Covers.of_take (.token (s.cut kind n)) (by simp [spotIn, Tile.text]) ?_ h
  rintro token ⟨rfl⟩
  refine ⟨fun hempty => ?_, rfl⟩
  have hlexeme := congrArg String.toList hempty
  simp [hrest] at hlexeme
  omega

theorem covers_skip (tile : Tile) {place place' : Place} (htoken : tile.token? = none)
    (htext : s.rest.take n = tile.text) (h : Tile.Fits t place tile (s.rest.drop n) place') :
    Covers t (s.spotIn place) [] ((s.skip n).spotIn place') := by
  have hcovers := Covers.of_take (t := t) (a := s.spotIn place) (n := n) tile htext (by simp [htoken]) h
  simpa [htoken, spotIn, skip] using hcovers

theorem covers_skipBlanks (s : Scanner) :
    Covers t (s.spotIn .code) [] (s.skipBlanks.spotIn .code) := by
  apply covers_skip (.blank _) rfl rfl
  exact .codeBlank (take_runLength Text.isBlank s.rest)

/-! ### Code -/

theorem covers_skipTrivia (t : LanguageTable) (fuel : Nat) (s : Scanner) :
    ∃ rest position, (skipTrivia t fuel s).2 = { s with rest := rest, position := position } ∧
      Covers t (s.spotIn .code) [] ⟨.code, position, rest⟩ ∧
      ∀ e ∈ (skipTrivia t fuel s).1, e.position? = some position := by
  induction fuel generalizing s with
  | zero => exact ⟨s.rest, s.position, rfl, .refl t _, by simp [skipTrivia]⟩
  | succ fuel ih =>
    have hblanks : Covers t (s.spotIn .code) [] (s.skipBlanks.spotIn .code) := covers_skipBlanks s
    rw [skipTrivia]
    split
    · exact ⟨s.skipBlanks.rest, s.skipBlanks.position, rfl, hblanks, by simp⟩
    · next n hclosed =>
      have hcomment : Covers t (s.skipBlanks.spotIn .code) []
          ((s.skipBlanks.skip n).spotIn .code) :=
        covers_skip (.comment _) rfl rfl (.codeComment (isComment_of_closed hclosed))
      obtain ⟨rest, position, hstate, hcovers, herror⟩ := ih (s.skipBlanks.skip n)
      exact ⟨rest, position, hstate, (hblanks.trans hcomment).trans hcovers, herror⟩
    · refine ⟨s.skipBlanks.rest, s.skipBlanks.position, rfl, hblanks, ?_⟩
      rintro e ⟨rfl⟩
      rfl

theorem nextToken_accounts (ht : t.Marked) (hs : s.Tidy) (hplace : s.place t = .code) :
    Accounts t (s.spotIn .code) (s.nextToken t) := by
  have hspot : s.spot t = s.spotIn .code := by rw [spot, hplace]
  unfold nextToken
  split
  · next hrest =>
    refine .finish ?_ hrest
    rw [hspot]
    exact .refl t _
  · next c rest hrest =>
    have hne : s.rest ≠ [] := by simp [hrest]
    dsimp only
    split
    · next kind n trims hcloser =>
      obtain ⟨d, hd, hclose⟩ : ∃ d, t.delimiters = some d ∧
          closer? d s.rest = some (kind, n, trims) := by
        split at hcloser
        · cases hcloser
        · exact Option.bind_eq_some_iff.mp hcloser
      obtain ⟨marker, hmarker, htake⟩ := closer?_mem hclose
      have hmode : s.mode = .language := by
        cases hmode : s.mode with
        | language => rfl
        | raw => simp [place, hmode, hd] at hplace
      have htrim : s.trimNextRaw = false := hs.untrimmed hmode
      have hn : 0 < n := by
        have hmarks : marker.toList ≠ [] := by
          simpa using ht.delimiter_ne hd (mem_of_closers hmarker)
        rw [Nat.pos_iff_ne_zero]
        rintro rfl
        simp [hmarks] at htake
      have hcut : Covers t (s.spotIn .code) [s.cut kind n] ((s.skip n).spotIn (.text trims)) :=
        covers_cut hn hne (.closer hd hmarker (by simpa using htake))
      refine .token ?_ ⟨hs.unfinished, by simp⟩
      simpa [spot, place, hd, htrim, spotIn] using hcut
    · cases hread : read t c rest with
      | unterminated n => exact .fault (.refl t _) rfl
      | unexpected c => exact .fault (.refl t _) rfl
      | token kind n =>
        obtain ⟨hkind, hn⟩ := read_ofCode ht hread
        have hcut : Covers t (s.spotIn .code) [s.cut kind n] ((s.skip n).spotIn .code) :=
          covers_cut hn hne (.code hkind)
        refine .token ?_ ⟨hs.unfinished, hs.untrimmed⟩
        change Covers t _ _ ((s.skip n).spotIn (s.place t))
        rw [hplace]
        exact hcut

theorem nextLanguage_accounts (ht : t.Marked) (hs : s.Tidy) (hplace : s.place t = .code) :
    Accounts t (s.spotIn .code) (s.nextLanguage t) := by
  obtain ⟨rest, position, hstate, hcovers, herror⟩ := covers_skipTrivia t (s.rest.length + 1) s
  rw [nextLanguage]
  split
  · next e s' hskip =>
    rw [hskip] at herror
    exact .fault hcovers (herror e rfl)
  · next s' hskip =>
    rw [hskip] at hstate
    dsimp only at hstate
    rw [hstate]
    exact .after hcovers (nextToken_accounts (s := { s with rest := rest, position := position }) ht
      ⟨hs.unfinished, hs.untrimmed⟩ hplace)

/-! ### Text -/

theorem skip_zero (s : Scanner) : s.skip 0 = s := by
  simp [skip]

theorem skip_skip (s : Scanner) (m n : Nat) : (s.skip m).skip n = s.skip (m + n) := by
  simp [skip, List.drop_drop, List.take_add, Position.advanceAll_append]

theorem covers_trimStart {s' : Scanner}
    (h : (if s.trimNextRaw then { s.skipBlanks with trimNextRaw := false } else s) = s') :
    Covers t (s.spotIn (.text s.trimNextRaw)) [] (s'.spotIn (.text false)) ∧
      s'.mode = s.mode ∧ s'.trimNextRaw = false ∧ s'.finished = s.finished := by
  split at h
  · next htrim =>
    subst h
    refine ⟨?_, rfl, rfl, rfl⟩
    rw [htrim]
    exact covers_skip (.blank _) rfl rfl (.trimmedStart (take_runLength _ s.rest))
  · next htrim =>
    subst h
    have hfalse : s.trimNextRaw = false := Bool.eq_false_iff.mpr htrim
    exact ⟨by rw [hfalse]; exact .refl t _, rfl, hfalse, rfl⟩

/-- The text in front of a marker: white space next to it belongs to no token if it trims. -/
theorem covers_text {d : Delimiters} {marker : String} {before after : List Char}
    (hd : t.delimiters = some d) (hmarker : marker ∈ [d.openStatement, d.openEcho, d.openComment])
    (hrest : s.rest = before ++ (marker.toList ++ after)) {text : List Char}
    (htext : text = if after.head? == some d.trim then Text.trimEnd before else before) :
    Covers t (s.spotIn (.text false)) (if text.isEmpty then [] else [s.cut .rawText text.length])
      ((s.skip before.length).spotIn (.text false)) := by
  obtain ⟨blanks, hbefore, hblanks, hnone⟩ : ∃ blanks, before = text ++ blanks ∧
      (∀ c ∈ blanks, Text.isBlank c) ∧ (blanks ≠ [] → after.head? = some d.trim) := by
    split at htext
    · next htrim =>
      obtain ⟨blanks, hbefore, hblanks⟩ := Text.exists_trimEnd before
      exact ⟨blanks, htext ▸ hbefore, hblanks, fun _ => beq_iff_eq.mp htrim⟩
    · exact ⟨[], by simp [htext], by simp, by simp⟩
  have hcut : Covers t (s.spotIn (.text false))
      (if text.isEmpty then [] else [s.cut .rawText text.length])
      ((s.skip text.length).spotIn (.text false)) := by
    cases text with
    | nil =>
      rw [List.length_nil, skip_zero]
      exact .refl t _
    | cons c text => exact covers_cut (by simp) (by simp [hrest, hbefore]) (.text rfl)
  have hgap : Covers t ((s.skip text.length).spotIn (.text false)) []
      (((s.skip text.length).skip blanks.length).spotIn (.text false)) := by
    have hskipped : (s.skip text.length).rest = blanks ++ (marker.toList ++ after) := by
      simp [skip, hrest, hbefore]
    cases hcases : blanks with
    | nil =>
      rw [List.length_nil, skip_zero]
      exact .refl t _
    | cons c cs =>
      have htrim : after.head? = some d.trim := hnone (by simp [hcases])
      obtain ⟨tail, rfl⟩ := List.head?_eq_some_iff.mp htrim
      rw [← hcases]
      refine covers_skip (.blank blanks) rfl (by simp [hskipped, Tile.text]) ?_
      refine .trimmedEnd hd hmarker ?_ hblanks
      rw [hskipped, List.drop_left]
      exact ⟨tail, by simp⟩
  have hlength : text.length + blanks.length = before.length := by simp [hbefore]
  rw [skip_skip, hlength] at hgap
  simpa using hcut.trans hgap

theorem take_width {d : Delimiters} {marker : String} {after : List Char} {trims : Bool}
    (h : trims = (after.head? == some d.trim)) :
    (marker.toList ++ after).take (marker.length + if trims then 1 else 0) =
      marker.toList ++ d.mark trims := by
  cases trims with
  | false => simp [Delimiters.mark, ← String.length_toList]
  | true =>
    obtain ⟨tail, rfl⟩ := List.head?_eq_some_iff.mp (beq_iff_eq.mp h.symm)
    have hafter : marker.toList ++ d.trim :: tail = (marker.toList ++ [d.trim]) ++ tail := by simp
    rw [hafter]
    exact List.take_left' (by simp [← String.length_toList])

theorem covers_opener {d : Delimiters} {marker : String} {after : List Char} {trims : Bool}
    (ht : t.Marked) (hd : t.delimiters = some d)
    (hmarker : marker ∈ [d.openStatement, d.openEcho, d.openComment])
    (hcomment : marker ≠ d.openComment) (hrest : s.rest = marker.toList ++ after)
    (htrims : trims = (after.head? == some d.trim)) :
    let width := marker.length + if trims then 1 else 0
    let kind := if marker = d.openStatement then .openStatement else .openEcho
    Covers t (s.spotIn (.text false)) [s.cut kind width] ((s.skip width).spotIn .code) := by
  intro width kind
  have hne : marker.toList ≠ [] := by
    have hmarks : marker ≠ "" := ht.delimiter_ne hd (by grind)
    simpa using hmarks
  have hwidth : 0 < width := by
    have hlength : 0 < marker.toList.length := List.length_pos_iff.mpr hne
    rw [String.length_toList] at hlength
    omega
  have hkind : (kind, marker) ∈ d.openers := by
    simp only [Delimiters.openers, kind]
    grind
  have hlexeme : (s.cut kind width).lexeme.toList = marker.toList ++ d.mark trims := by
    rw [toList_cut, hrest]
    exact take_width htrims
  exact covers_cut hwidth (by simp [hrest, hne]) (.opener hd hkind hlexeme)

theorem covers_comment {d : Delimiters} {after : List Char} {trims : Bool} {k : Nat}
    (ht : t.Marked) (hd : t.delimiters = some d) (hrest : s.rest = d.openComment.toList ++ after)
    (htrims : trims = (after.head? == some d.trim)) :
    let width := d.openComment.length + if trims then 1 else 0
    let inside := s.skip width
    Text.indexOf d.closeComment.toList inside.rest = some k →
    Covers t (s.spotIn (.text false)) [] ((inside.skip (k + d.closeComment.length)).spotIn
        (.text ((inside.rest.take k).getLast? == some d.trim))) ∧
      (inside.skip (k + d.closeComment.length)).rest.length < s.rest.length := by
  intro width inside hclose
  obtain ⟨body, rest, hinside, rfl⟩ := Text.exists_of_indexOf hclose
  have hopen : s.rest.take width = d.openComment.toList ++ d.mark trims := by
    rw [hrest]
    exact take_width htrims
  have hall : s.rest =
      (d.openComment.toList ++ d.mark trims ++ body ++ d.closeComment.toList) ++ rest := by
    have hsplit : s.rest = s.rest.take width ++ inside.rest := (List.take_append_drop ..).symm
    rw [hsplit, hopen, hinside]
    simp
  have hwidth : (d.openComment.toList ++ d.mark trims).length = width := by
    cases trims <;> simp [width, Delimiters.mark, String.length_toList]
  have hlength : width + (body.length + d.closeComment.length) =
      (d.openComment.toList ++ d.mark trims ++ body ++ d.closeComment.toList).length := by
    rw [List.length_append, List.length_append, hwidth, String.length_toList]
    omega
  have hdrop : s.rest.drop (width + (body.length + d.closeComment.length)) = rest := by
    rw [hlength, hall, List.drop_left]
  have hbody : inside.rest.take body.length = body := by simp [hinside]
  have hskip : inside.skip (body.length + d.closeComment.length) =
      s.skip (width + (body.length + d.closeComment.length)) := skip_skip ..
  rw [hbody, hskip]
  constructor
  · have htext : s.rest.take (width + (body.length + d.closeComment.length)) =
        d.openComment.toList ++ d.mark trims ++ body ++ d.closeComment.toList := by
      rw [hlength, hall, List.take_left]
    refine covers_skip (.comment _) rfl htext (.textComment hd ?_)
    rw [hdrop, ← hinside, hclose]
  · have hne : d.openComment.toList ≠ [] := by
      have hmarks : d.openComment ≠ "" := ht.delimiter_ne hd (by simp)
      simpa using hmarks
    have hpos : 0 < d.openComment.toList.length := List.length_pos_iff.mpr hne
    change (s.rest.drop _).length < _
    rw [hdrop, hall]
    simp only [List.length_append]
    omega

theorem nextRaw_accounts {d : Delimiters} (ht : t.Marked) (hd : t.delimiters = some d) (fuel : Nat)
    (hmode : s.mode = .raw) (hs : s.finished = false) (hfuel : s.rest.length < fuel) :
    Accounts t (s.spot t) (nextRaw d fuel s) := by
  induction fuel generalizing s with
  | zero => omega
  | succ fuel ih =>
    rw [nextRaw]
    dsimp only
    generalize hs' : (if s.trimNextRaw then { s.skipBlanks with trimNextRaw := false } else s) = s'
    obtain ⟨hstart, hmode', htrim', hfinished'⟩ := covers_trimStart (t := t) hs'
    rw [hmode] at hmode'
    rw [hs] at hfinished'
    have hplace : s.spot t = s.spotIn (.text s.trimNextRaw) := by simp [spot, place, hmode, hd]
    rw [hplace]
    apply Accounts.after hstart
    have hspot : s'.spot t = s'.spotIn (.text false) := by
      simp [spot, place, hmode', htrim', hd]
    split
    · next hempty =>
      exact .finish (hspot ▸ .refl t _) (List.isEmpty_iff.mp hempty)
    next hne =>
    have hne' : s'.rest ≠ [] := by simpa using hne
    split
    · next hnone =>
      refine .token ?_ ⟨hfinished', fun hlanguage => ?_⟩
      · have hcut : Covers t (s'.spotIn (.text false)) [s'.cut .rawText s'.rest.length]
            ((s'.skip s'.rest.length).spotIn (.text false)) :=
          covers_cut (List.length_pos_iff.mpr hne') hne' (.text rfl)
        simpa [spot, place, skip, hmode', htrim', hd] using hcut
      · simp [skip, hmode'] at hlanguage
    next n marker hopener =>
    obtain ⟨hmarker, before, after, hrest, rfl⟩ := firstOpener_mem hopener
    have hbefore : s'.rest.take before.length = before := by simp [hrest]
    have hafter : s'.rest.drop (before.length + marker.length) = after := by
      simp [hrest, ← String.length_toList, List.drop_append]
    rw [hbefore, hafter]
    generalize htrims : (after.head? == some d.trim) = trims
    generalize htext : (if trims then Text.trimEnd before else before) = text
    have htext' : text = if after.head? == some d.trim then Text.trimEnd before else before := by
      rw [htrims, htext]
    have hgap := covers_text hd hmarker hrest htext'
    have hopening : (s'.skip before.length).spot t = (s'.skip before.length).spotIn (.text false) := by
      simp [spot, place, skip, hmode', htrim', hd]
    split
    · next htoken =>
      have hnonempty : text.isEmpty = false := by simpa using htoken
      rw [hnonempty] at hgap
      refine .token ?_ ⟨hfinished', fun hlanguage => ?_⟩
      · rw [hopening]
        exact hgap
      · simp [skip, hmode'] at hlanguage
    next hempty =>
    have hnone : text.isEmpty = true := by simpa using hempty
    rw [hnone] at hgap
    apply Accounts.after hgap
    have hrest' : (s'.skip before.length).rest = marker.toList ++ after := by simp [skip, hrest]
    split
    · next hcomment =>
      subst hcomment
      split
      · exact .fault (.refl t _) rfl
      · next k hclose =>
        obtain ⟨hcovers, hlength⟩ := covers_comment ht hd hrest' htrims.symm hclose
        refine .after ?_ (ih hmode' hfinished' ?_)
        · simpa [spot, place, skip, spotIn, hmode', hd] using hcovers
        · have hle := hstart.length_le
          have hle' := hgap.length_le
          simp only [spotIn] at hle hle'
          refine Nat.lt_of_lt_of_le hlength ?_
          omega
    · next hcomment =>
      refine .token ?_ ⟨hfinished', fun _ => htrim'⟩
      exact covers_opener ht hd hmarker hcomment hrest' htrims.symm

/-! ### Whole sources -/

theorem step_accounts (ht : t.Marked) (hs : s.Tidy) : Accounts t (s.spot t) (s.step t) := by
  rw [step]
  split
  · next d hmode hd => exact nextRaw_accounts ht hd _ hmode hs.unfinished (by omega)
  · next hraw =>
    have hplace : s.place t = .code := by
      rw [place, if_neg]
      rintro ⟨hmode, hsome⟩
      obtain ⟨d, hd⟩ := Option.isSome_iff_exists.mp hsome
      exact hraw d hmode hd
    rw [spot, hplace]
    exact nextLanguage_accounts ht hs hplace

end Scanner

/-- The scan goes on to this spot: to the end of the source, or to the place of the error. -/
def Scan.EndsAt (result : Scan) (last : Spot) : Prop :=
  match result.fault with
  | none => last.rest = []
  | some e => e.position? = some last.position

theorem scanFrom_covers (ht : t.Marked) (fuel : Nat) (s : Scanner) (hs : s.Tidy)
    (hfuel : s.rest.length < fuel) :
    ∃ last, Covers t (s.spot t) (scanFrom t fuel s).tokens last ∧ (scanFrom t fuel s).EndsAt last ∧
      ((scanFrom t fuel s).fault = none → (scanFrom t fuel s).stop = last.position) := by
  induction fuel generalizing s with
  | zero => omega
  | succ fuel ih =>
    have hstep := Scanner.step_accounts ht hs
    rw [scanFrom, Scanner.next, if_neg (by simp [hs.unfinished])]
    cases hnext : s.step t with
    | mk outcome s' =>
      rw [hnext] at hstep
      cases hstep with
      | @token token _ hcovers hs' =>
        have hshorter : s'.rest.length < s.rest.length := hcovers.length_lt
        obtain ⟨last, hlater, hends⟩ := ih s' hs' (by omega)
        exact ⟨last, hcovers.trans hlater, hends⟩
      | finish hcovers hrest => exact ⟨_, hcovers, hrest, fun _ => rfl⟩
      | @fault e _ b hcovers he => exact ⟨b, hcovers, he, fun hnone => by cases hnone⟩

/-- The beginning of a source. -/
def Spot.start (t : LanguageTable) (source : String) : Spot :=
  ⟨if t.delimiters.isSome then .text false else .code, .start, source.toList⟩

theorem scan_covers (ht : t.Marked) (source : String) :
    ∃ last, Covers t (Spot.start t source) (scan t source).tokens last ∧
      (scan t source).EndsAt last ∧
      ((scan t source).fault = none → (scan t source).stop = last.position) := by
  have hstart : (Scanner.start t source.toList).spot t = Spot.start t source := by
    cases hd : t.delimiters <;>
      simp [Scanner.start, Scanner.spot, Scanner.place, Scanner.spotIn, Spot.start, hd]
  rw [← hstart]
  refine scanFrom_covers ht _ _ ⟨rfl, fun _ => rfl⟩ ?_
  simp [Scanner.start]

/-- The tokens of a source and its end stand at different places. -/
theorem scan_places_nodup (ht : t.Marked) {source : String} (h : (scan t source).fault = none) :
    ((scan t source).tokens.map Token.position ++ [(scan t source).stop]).Nodup := by
  obtain ⟨last, ⟨tiles, htiles, htokens⟩, hends, hstop⟩ := scan_covers ht source
  have hrest : last.rest = [] := by simpa [Scan.EndsAt, h] using hends
  have hsource : source.toList = tiles.flatMap Tile.text := by
    simpa [Spot.start, hrest] using htiles.rest_eq
  have hlast : (scan t source).stop.offset = (String.ofList source.toList).utf8ByteSize := by
    rw [hstop h, htiles.position_eq, Position.offset_advanceAll, hsource]
    simp [Spot.start, Position.start]
  have hcut (token : Token) (hmem : token ∈ (scan t source).tokens) :
      0 < token.lexeme.utf8ByteSize ∧
        token.position.offset + token.lexeme.utf8ByteSize ≤ (scan t source).stop.offset := by
    obtain ⟨hne, before, after, hslice, hposition⟩ :=
      htiles.cutFrom (Tiling.mem_tokens.mp (htokens ▸ hmem))
    have hpos : 0 < token.lexeme.utf8ByteSize := by
      rw [Nat.pos_iff_ne_zero]
      simpa using hne
    have hslice : source.toList = before ++ token.lexeme.toList ++ after := hslice
    refine ⟨hpos, ?_⟩
    rw [hlast, hslice, hposition, Position.offset_advanceAll]
    simp only [Spot.start, Position.start, String.ofList_append, String.utf8ByteSize_append,
      String.ofList_toList]
    omega
  refine List.nodup_append.mpr ⟨?_, by simp, ?_⟩
  · refine List.pairwise_map.mpr ((htokens ▸ htiles.pairwise_before).imp_of_mem ?_)
    intro a b ha _ hbefore heq
    have hpos := (hcut a ha).1
    rw [Token.Before, heq] at hbefore
    omega
  · intro p hp q hq heq
    obtain ⟨token, hmem, rfl⟩ := List.mem_map.mp hp
    obtain ⟨hpos, hle⟩ := hcut token hmem
    rw [heq, List.mem_singleton.mp hq] at hle
    omega

theorem marked_of_mem (ht : t ∈ [Query.table, Template.table, Arithmetic.table]) : t.Marked := by
  simp only [List.mem_cons, List.not_mem_nil, or_false] at ht
  rcases ht with rfl | rfl | rfl <;> decide +kernel

/-- Every token is a piece of the source at its own offset, the tokens follow one another, and what
lies between them up to the end or the error is laid out as white space and comments. -/
theorem scan_tiles (ht : t ∈ [Query.table, Template.table, Arithmetic.table]) (source : String) :
    (∀ token ∈ (scan t source).tokens, token.lexeme ≠ "" ∧ ∃ before after : String,
      source = before ++ token.lexeme ++ after ∧
      token.position = Position.start.advanceAll before.toList ∧
      token.position.offset = before.utf8ByteSize) ∧
    (scan t source).tokens.Pairwise Token.Before ∧
    ∃ tiles last, Tiling t (Spot.start t source) tiles last ∧
      tiles.filterMap Tile.token? = (scan t source).tokens ∧ (scan t source).EndsAt last := by
  obtain ⟨last, ⟨tiles, htiles, htokens⟩, hends, -⟩ := scan_covers (marked_of_mem ht) source
  refine ⟨fun token hmem => ?_, htokens ▸ htiles.pairwise_before, tiles, last, htiles, htokens, hends⟩
  rw [← htokens] at hmem
  obtain ⟨hne, before, after, hsource, hposition⟩ := htiles.cutFrom (Tiling.mem_tokens.mp hmem)
  refine ⟨hne, String.ofList before, String.ofList after, ?_, ?_, ?_⟩
  · apply String.toList_injective
    simpa [Spot.start] using hsource
  · simpa [Spot.start] using hposition
  · simp [hposition, Spot.start, Position.offset_advanceAll, Position.start]

/-- White space is left out in front of a marker that trims and behind a comment that does. -/
theorem scan_tiles_trimmed :
    let source := "a \x7b%- x %\x7d\x7b# c -#\x7d b"
    let result := scan Template.table source
    Template.table ∈ [Query.table, Template.table, Arithmetic.table] ∧
      result.tokens.map Token.lexeme = ["a", "\x7b%-", "x", "%\x7d", "b"] ∧
      result.tokens.Pairwise Token.Before ∧
      ∃ tiles last, Tiling Template.table (Spot.start Template.table source) tiles last ∧
        tiles.filterMap Tile.token? = result.tokens ∧ result.EndsAt last := by
  intro source result
  have ht : Template.table ∈ [Query.table, Template.table, Arithmetic.table] := by simp
  exact ⟨ht, by decide +kernel, (scan_tiles ht source).2⟩

end EmbeddedLang
