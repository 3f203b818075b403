import EmbeddedLang.Proofs.Lexical.Respacing
import EmbeddedLang.Proofs.Query.Relocation

/-!
Queries do not depend on their layout, nor on the spelling of their keywords.

Two sources with the same words have their tokens at different places. Since no two tokens of a
source stand at one place, some function takes the places of the first source to those of the
second, and parsers pass places on.
-/

namespace EmbeddedLang

/-- Words that agree in kind and text. A keyword may be spelt in another way, unless it stands
directly behind a dot; `dot` tells so of the first word. -/
def sameWords : (dot : Bool) → List (TokenKind × String) → List (TokenKind × String) → Bool
  | _, [], [] => true
  | dot, a :: as, b :: bs =>
    (a.1 == b.1) && (a.2 == b.2 || a.1.isKeyword && !dot) &&
      sameWords (a.1 == .operator ".") as bs
  | _, _, _ => false

def Scan.words (result : Scan) : List (TokenKind × String) :=
  result.tokens.map Token.piece

def CompileError.unplaced (e : CompileError) : CompileError :=
  e.relocate fun _ => .start

theorem CompileError.unplaced_relocate (f : Position → Position) (e : CompileError) :
    (e.relocate f).unplaced = e.unplaced :=
  e.relocate_relocate f _

theorem exists_map_eq {α β : Type} [DecidableEq α] [Inhabited β] {as : List α} {bs : List β}
    (hnodup : as.Nodup) (hlength : bs.length = as.length) : ∃ f : α → β, as.map f = bs := by
  induction as generalizing bs with
  | nil => exact ⟨fun _ => default, (List.length_eq_zero_iff.mp hlength).symm⟩
  | cons a as ih =>
    obtain ⟨ha, has⟩ := List.nodup_cons.mp hnodup
    cases bs with
    | nil => simp at hlength
    | cons b bs =>
      obtain ⟨f, hf⟩ := ih has (by simpa using hlength)
      refine ⟨fun x => if x = a then b else f x, ?_⟩
      have hothers : as.map (fun x => if x = a then b else f x) = as.map f := by
        apply List.map_congr_left
        intro x hx
        have hne : x ≠ a := fun heq => ha (heq ▸ hx)
        simp [hne]
      simp [hothers, hf]

theorem sameWords_length {dot : Bool} {as bs : List (TokenKind × String)}
    (h : sameWords dot as bs) : bs.length = as.length := by
  fun_induction sameWords dot as bs with
  | case1 => rfl
  | case2 dot a as b bs ih =>
    have hrest := ih (Bool.and_eq_true_iff.mp h).2
    simp [hrest]
  | case3 => simp at h

theorem tokensAlike_of_sameWords {f : Position → Position} {dot : Bool} {as bs : List Token}
    (h : sameWords dot (as.map Token.piece) (bs.map Token.piece))
    (hplaces : (as.map Token.position).map f = bs.map Token.position) :
    TokensAlike f false dot as bs := by
  induction as generalizing bs dot with
  | nil =>
    have hlength := sameWords_length h
    cases bs with
    | nil => exact .nil
    | cons b bs => simp at hlength
  | cons a as ih =>
    cases bs with
    | nil => simp at hplaces
    | cons b bs =>
      simp only [List.map_cons, List.cons.injEq] at hplaces
      simp only [List.map_cons, sameWords, Token.piece, Bool.and_eq_true, beq_iff_eq,
        Bool.or_eq_true, Bool.not_eq_true'] at h
      obtain ⟨⟨hkind, hlexeme⟩, hrest⟩ := h
      refine .cons ⟨hkind.symm, hplaces.1.symm, fun hexact => ?_⟩ (ih hrest hplaces.2)
      rcases hlexeme with hlexeme | ⟨hkeyword, hdot⟩
      · exact hlexeme.symm
      · have hbehind := hexact hkeyword
        simp [hdot] at hbehind

/-- The first source at the places of the second. -/
theorem Cursor.exists_alike {t : LanguageTable} (ht : t.Marked) {source source' : String}
    (hscan : (scan t source).fault = none) (hscan' : (scan t source').fault = none)
    (hwords : sameWords false (scan t source).words (scan t source').words) :
    ∃ f, (Cursor.ofSource t source).Alike f false (Cursor.ofSource t source') := by
  have hcount : (scan t source').tokens.length = (scan t source).tokens.length := by
    simpa [Scan.words] using sameWords_length hwords
  have hlength : ((scan t source').tokens.map Token.position ++ [(scan t source').stop]).length =
      ((scan t source).tokens.map Token.position ++ [(scan t source).stop]).length := by
    simp [hcount]
  obtain ⟨f, hf⟩ := exists_map_eq (scan_places_nodup ht hscan) hlength
  rw [List.map_append] at hf
  obtain ⟨htokens, hstop⟩ := List.append_inj hf (by simp [hcount])
  refine ⟨f, false, tokensAlike_of_sameWords hwords htokens, ?_, ?_, fun _ => ?_⟩
  · simp [ofSource, hscan, hscan']
  · intro e he
    have hnone : (ofSource t source).fault = none := hscan
    rw [hnone] at he
    cases he
  · simpa [ofSource] using hstop.symm

namespace Query

def Statement.unplaced (s : Statement) : Statement :=
  s.relocate fun _ => .start

theorem Statement.unplaced_relocate (f : Position → Position) (s : Statement) :
    (s.relocate f).unplaced = s.unplaced :=
  s.relocate_relocate f _

/-- White space, comments and the case of keywords change neither the statement that is read nor
the error, but for the places in them. -/
theorem parse_sameWords {source source' : String} (hscan : (scan table source).fault = none)
    (hscan' : (scan table source').fault = none)
    (hwords : sameWords false (scan table source).words (scan table source').words) :
    ((parse source').map Statement.unplaced).mapError CompileError.unplaced =
      ((parse source).map Statement.unplaced).mapError CompileError.unplaced := by
  obtain ⟨f, halike⟩ := Cursor.exists_alike (marked_of_mem (by simp)) hscan hscan' hwords
  have hrun := statement_relocates.run _ _ halike
  unfold parse Parse.run?
  generalize statement (Cursor.ofSource table source) = x,
    statement (Cursor.ofSource table source') = y at hrun ⊢
  cases hrun with
  | ok hs _ =>
    subst hs
    exact congrArg Except.ok (Statement.unplaced_relocate f _)
  | error _ => exact congrArg Except.error (CompileError.unplaced_relocate f _)

theorem keyword?_lowercase : table.keyword? "select" = some "SELECT" := by
  have hcase : lowerAscii "SELECT" = lowerAscii "select" :=
    String.toList_injective (by decide +kernel)
  have hfind : table.keyword? "select" =
      table.keywords.find? (lowerAscii · == lowerAscii "select") := rfl
  rw [hfind, ← hcase]
  exact List.find?_cons_of_pos (beq_self_eq_true _)

theorem readAs_lowercase : ReadAs table (.keyword "SELECT") "select" := by
  have hread : read table 's' "elect".toList = .token (.keyword "SELECT") 6 := by
    have hword : String.ofList (('s' :: "elect".toList).takeWhile isWordChar) = "select" := by
      decide +kernel
    rw [read_wordStart (by decide) (by decide) (by decide), readWord, hword, keyword?_lowercase]
    rfl
  exact readAs_of_read (selfDelimiting_of_mem (by simp)) (by decide) rfl hread

/-- The keyword is spelt in another way; behind the dot stands a name. -/
theorem parse_sameWords_recased :
    let source := "SELECT/* one */'a'.ALL--"
    let source' := "select 'a' . ALL"
    (scan table source).fault = none ∧ (scan table source').fault = none ∧
      sameWords false (scan table source).words (scan table source').words ∧
      ((parse source').map Statement.unplaced).mapError CompileError.unplaced =
        ((parse source).map Statement.unplaced).mapError CompileError.unplaced := by
  intro source source'
  have hself : table.SelfDelimiting := selfDelimiting_of_mem (by simp)
  have hwords : (scan table source).words =
      [(.keyword "SELECT", "SELECT"), (.string, "'a'"), (.operator ".", "."),
        (.keyword "ALL", "ALL")] := by
    decide +kernel
  have hread : ∀ piece ∈ (.keyword "SELECT", "select") :: (scan table source).words.tail,
      ReadAs table piece.1 piece.2 := by
    refine List.forall_mem_cons.mpr ⟨readAs_lowercase, fun piece hpiece => ?_⟩
    obtain ⟨token, hmem, rfl⟩ := List.mem_map.mp (List.mem_of_mem_tail hpiece)
    exact scan_readAs hself source token hmem
  rw [hwords, List.tail_cons] at hread
  obtain ⟨hwords', hscan'⟩ := scan_spaced hself.marked hself.delimiters hread
  have hsource : " ".intercalate
      (List.map Prod.snd [(.keyword "SELECT", "select"), (.string, "'a'"),
        (TokenKind.operator ".", "."), (.keyword "ALL", "ALL")]) = source' := by
    decide +kernel
  rw [hsource] at hwords' hscan'
  have hscan : (scan table source).fault = none := by decide +kernel
  have hsame : sameWords false (scan table source).words (scan table source').words := by
    rw [hwords, Scan.words, hwords']
    decide
  exact ⟨hscan, hscan', hsame, parse_sameWords hscan hscan' hsame⟩

end Query

end EmbeddedLang
