import EmbeddedLang.Proofs.IntegerLiterals
import Mathlib.Data.List.TakeWhile

/-!
Names in brackets.

Between brackets stands whatever is not the closing one, on one line. The parser takes off all
brackets that it finds at the front, so a name keeps its own ones only behind its first character.
-/

namespace EmbeddedLang.Query

open Parse

/-- What can be written between brackets. -/
structure Enclosable (t : String) : Prop where
  closing : ']' ∉ t.toList
  line : '\n' ∉ t.toList

instance (t : String) : Decidable (Enclosable t) :=
  decidable_of_iff (']' ∉ t.toList ∧ '\n' ∉ t.toList)
    ⟨fun h => ⟨h.1, h.2⟩, fun h => ⟨h.closing, h.line⟩⟩

def bracketed (t : String) : String :=
  "[" ++ t ++ "]"

theorem toList_bracketed (t : String) : (bracketed t).toList = '[' :: (t.toList ++ [']']) := by
  rw [bracketed, String.toList_append, String.toList_append]
  rfl

/-- The text without the brackets that it begins with. -/
def unbracketed (t : String) : String :=
  String.ofList (t.toList.dropWhile (· == '['))

variable {t : String}

/-! ### Scanning -/

theorem readBracketed_eq (ht : Enclosable t) (rest : List Char) :
    readBracketed (t.toList ++ ']' :: rest) = .token .quotedIdentifier (t.toList.length + 2) := by
  have hrun : runLength (fun c => c != ']' && c != '\n') (t.toList ++ ']' :: rest) =
      t.toList.length := by
    rw [runLength, takeWhile_append]
    · intro c hc
      have hne : c ≠ ']' ∧ c ≠ '\n' :=
        ⟨fun h => ht.closing (h ▸ hc), fun h => ht.line (h ▸ hc)⟩
      simp [hne]
    · rintro c ⟨rfl⟩
      rfl
  rw [readBracketed, hrun, List.drop_left]
  rfl

theorem read_bracketed (ht : Enclosable t) :
    read table '[' (t.toList ++ [']']) = .token .quotedIdentifier (bracketed t).length := by
  rw [read_bracket (by decide) (by decide) (by decide) (by decide), readBracketed_eq ht,
    ← String.length_toList, toList_bracketed]
  simp

theorem scan_bracketed (ht : Enclosable t) :
    scan table (bracketed t) = ⟨[⟨.quotedIdentifier, bracketed t, .start⟩], none,
      Position.start.advanceAll (bracketed t).toList⟩ := by
  let s : Scanner := Scanner.start table (bracketed t).toList
  have hs : s.rest = (bracketed t).toList ++ [] := (List.append_nil _).symm
  have hself : s.Ahead table s := by
    apply Scanner.Ahead.self rfl rfl
    · rw [hs, toList_bracketed]
      rintro c ⟨rfl⟩
      decide
    · rw [hs, toList_bracketed]
      rfl
  have hread : read table '[' (t.toList ++ [']'] ++ []) =
      .token .quotedIdentifier (bracketed t).length := by
    rw [List.append_nil, read_bracketed ht]
  let last : Scanner := s.behind ⟨.quotedIdentifier, bracketed t, .start⟩ []
  have hnext : s.next table =
      (some (.ok ⟨.quotedIdentifier, bracketed t, .start⟩), last) :=
    hself.next_eq hs (toList_bracketed t) rfl hread
  have hlt : last.rest.length < s.rest.length := by
    rw [hs, toList_bracketed]
    exact Nat.succ_pos _
  have hend : last.next table = (none, { last with finished := true }) :=
    Scanner.next_nil query_counts.marked rfl rfl rfl
  exact (Scanner.Emits.cons hnext hlt (.nil last)).scanFrom_eq hend (Nat.lt_succ_self _)

/-! ### Names -/

theorem name_bracketed (ht : Enclosable t) (p : Position) :
    Token.name ⟨.quotedIdentifier, bracketed t, p⟩ = unbracketed t := by
  have hfront : (bracketed t).toList.dropWhile (· == '[') =
      t.toList.dropWhile (· == '[') ++ [']'] := by
    rw [toList_bracketed, List.dropWhile_cons_of_pos rfl, List.dropWhile_append]
    split
    · next hempty =>
      rw [List.isEmpty_iff.mp hempty]
      rfl
    · rfl
  have hback : ((t.toList.dropWhile (· == '[') ++ [']']).reverse.dropWhile (· == ']')).reverse =
      t.toList.dropWhile (· == '[') := by
    have hnone : ∀ c ∈ (t.toList.dropWhile (· == '[')).reverse, ¬ (c == ']') := by
      intro c hc heq
      have hmem : c ∈ t.toList := (List.dropWhile_subset _) (List.mem_reverse.mp hc)
      exact ht.closing (beq_iff_eq.mp heq ▸ hmem)
    rw [List.reverse_append, List.reverse_singleton, List.singleton_append,
      List.dropWhile_cons_of_pos rfl, List.dropWhile_eq_self_iff.mpr, List.reverse_reverse]
    intro hpos
    exact hnone _ (List.getElem_mem hpos)
  rw [Token.name]
  dsimp only
  rw [hfront, hback, unbracketed]

theorem unbracketed_eq_iff : unbracketed t = t ↔ t.toList.head? ≠ some '[' := by
  rw [unbracketed, ← String.toList_inj, String.toList_ofList]
  cases t.toList with
  | nil => simp
  | cons c cs =>
    by_cases hc : c = '['
    · rw [hc, List.dropWhile_cons_of_pos rfl]
      have hle : (cs.dropWhile (· == '[')).length ≤ cs.length :=
        (List.dropWhile_sublist _).length_le
      refine iff_of_false (fun heq => ?_) (not_not_intro rfl)
      rw [heq, List.length_cons] at hle
      omega
    · rw [List.dropWhile_cons_of_neg (by simpa using hc)]
      simp [hc]

/-! ### Parsing -/

section Parsing

variable {c : Cursor} {token : Token} {rest : List Token}

theorem expectIdentifier_quoted (h : token.kind = .quotedIdentifier) :
    Gives expectIdentifier (c.before (token :: rest)) (token.name, token.position)
      (c.before rest) := by
  have hidentifier : token.isIdentifier := by
    rw [Token.isIdentifier, h]
    rfl
  exact (expect_gives hidentifier).bind (.pure _ _)

theorem memberName_quoted (h : token.kind = .quotedIdentifier) :
    Gives Grammar.memberName (c.before (token :: rest)) token.name (c.before rest) := by
  apply peek_before.bind
  dsimp only
  rw [h]
  exact next_gives.bind (.pure _ _)

theorem commonPrimary_quoted {g : Grammar} (h : token.kind = .quotedIdentifier)
    (below : Nat → Parse Expr) : Gives (g.commonPrimary below) (c.before (token :: rest))
      (.identifier token.position token.name) (c.before rest) := by
  apply peek_before.bind
  dsimp only
  rw [h]
  exact next_gives.bind (.pure _ _)

/-- Nothing stands behind the name that makes a qualified star of it. -/
theorem primaryForm_quoted (h : token.kind = .quotedIdentifier) (hf : c.fault = none)
    (hc : c.tokens = []) (below : Nat → Parse Expr) :
    Gives (primaryForm below) (c.before [token]) none (c.before [token]) := by
  have hfault : (c.before [token]).fault = none := hf
  have hsecond : (c.before [token]).tokens[1]? = none := by simp [hc]
  apply peek_before.bind
  dsimp only
  rw [h]
  apply (peekNth_gives 1 hfault).bind
  apply (peekNth_gives 2 hfault).bind
  rw [hsecond]
  exact .pure none _

theorem expression_quoted (h : token.kind = .quotedIdentifier) (hf : c.fault = none)
    (hc : c.tokens = []) (floor : Nat) : Gives (grammar.expression floor) (c.before [token])
      (.identifier token.position token.name) c := by
  have hsymbol : NoSymbol c := ⟨hf, by simp [hc]⟩
  have hbare : grammar.prefixOf token = none := by
    rw [Grammar.prefixOf, Token.symbol?, h]
    rfl
  apply Grammar.expression_of_primary grammar_readsIntegers.toEndsPlainly hsymbol hbare
  intro below
  exact Grammar.primaryWith_of_common hsymbol (primaryForm_quoted h hf hc below)
    (commonPrimary_quoted h below)

theorem parseExpression_bracketed (ht : Enclosable t) :
    parseExpression grammar (bracketed t) = .ok (.identifier .start (unbracketed t)) := by
  let token : Token := ⟨.quotedIdentifier, bracketed t, .start⟩
  let c : Cursor := ⟨[], none, Position.start.advanceAll (bracketed t).toList⟩
  have hsource : Cursor.ofSource table (bracketed t) = c.before [token] := by
    rw [Cursor.ofSource, scan_bracketed ht]
    simp [Cursor.before, c, token]
  have hexpression : Gives (grammar.expression 0) (c.before [token])
      (.identifier .start token.name) c := expression_quoted rfl rfl rfl 0
  rw [name_bracketed ht, ← hsource] at hexpression
  exact parseExpression_of_gives hexpression rfl rfl

end Parsing

/-- A name in brackets is one token, and it is found again unless it begins with a bracket. -/
theorem bracketed_names (ht : Enclosable t) :
    scan table (bracketed t) = ⟨[⟨.quotedIdentifier, bracketed t, .start⟩], none,
      Position.start.advanceAll (bracketed t).toList⟩ ∧
    parseExpression grammar (bracketed t) = .ok (.identifier .start (unbracketed t)) ∧
    (∀ (p : Position) (c : Cursor) (rest : List Token),
      let ahead : Cursor := c.before (⟨.quotedIdentifier, bracketed t, p⟩ :: rest)
      Gives expectIdentifier ahead (unbracketed t, p) (c.before rest) ∧
      Gives Grammar.memberName ahead (unbracketed t) (c.before rest) ∧
      ∀ below, Gives (grammar.commonPrimary below) ahead (.identifier p (unbracketed t))
        (c.before rest)) ∧
    (unbracketed t = t ↔ t.toList.head? ≠ some '[') ∧
    ∀ u, Enclosable u → unbracketed t = unbracketed u → t ≠ u →
      t.toList.head? = some '[' ∨ u.toList.head? = some '[' := by
  refine ⟨scan_bracketed ht, parseExpression_bracketed ht, ?_, unbracketed_eq_iff, ?_⟩
  · intro p c rest ahead
    rw [← name_bracketed ht p]
    exact ⟨expectIdentifier_quoted rfl, memberName_quoted rfl, commonPrimary_quoted rfl⟩
  · intro u _ heq hne
    by_contra hheads
    obtain ⟨hhead, hhead'⟩ := not_or.mp hheads
    rw [unbracketed_eq_iff.mpr hhead, unbracketed_eq_iff.mpr hhead'] at heq
    exact hne heq

theorem bracketed_names_spaced :
    Enclosable "a [b" ∧
      parseExpression grammar (bracketed "a [b") = .ok (.identifier .start (unbracketed "a [b")) ∧
      unbracketed "a [b" = "a [b" := by
  have ht : Enclosable "a [b" := by decide
  have hnames := bracketed_names ht
  exact ⟨ht, hnames.2.1, hnames.2.2.2.1.mpr (by decide)⟩

/-- Two texts, of which one begins with a bracket, are one name. -/
theorem leading_bracket_lost :
    Enclosable "[a" ∧ Enclosable "a" ∧
      (scan table (bracketed "[a")).tokens.map Token.name = ["a"] ∧
      (scan table (bracketed "a")).tokens.map Token.name = ["a"] := by
  decide +kernel

end EmbeddedLang.Query
