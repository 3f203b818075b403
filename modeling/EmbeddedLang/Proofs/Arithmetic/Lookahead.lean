import EmbeddedLang.Proofs.Arithmetic.Scanning
import EmbeddedLang.Proofs.Parser.Gives

/-!
What the tokens of a printed tree are to the parser, and where it stops.

An expression goes on after an operand if what is ahead calls it, subscripts it, takes a member of
it or is an operator that binds at least as tight as the least precedence allowed.
-/

namespace EmbeddedLang.Arithmetic

open Parse

variable {c : Cursor} {token : Token} {ts : List Token}

/-! ### Tokens -/

theorem shown_singleton_iff {a : Atom} : Shown [a] ts ↔
    ∃ token, ts = [token] ∧ token.kind = kind a ∧ token.lexeme = text a := by
  rw [shown_cons_iff]
  simp only [shown_nil_iff]
  constructor
  · rintro ⟨token, _, rfl, htoken, rfl⟩
    exact ⟨token, rfl, htoken⟩
  · rintro ⟨token, rfl, htoken⟩
    exact ⟨token, [], rfl, htoken, rfl⟩

theorem symbol?_of_kind {s : String} (h : token.kind = kind (.symbol s)) :
    token.symbol? = some s := by
  unfold Token.symbol?
  by_cases hs : s ∈ table.keywords
  · rw [h.trans (if_pos hs)]
  · rw [h.trans (if_neg hs)]

theorem isOperator_of_kind {s : String} (hs : s ∉ table.keywords)
    (h : token.kind = kind (.symbol s)) : token.isOperator s := by
  unfold Token.isOperator
  rw [h, show kind (.symbol s) = .operator s from if_neg hs, beq_self_eq_true]

theorem symbol_of_isOperator {a : Atom} {s : String} (h : token.kind = kind a)
    (ho : token.isOperator s) : a = .symbol s := by
  have hkind : kind a = .operator s := h.symm.trans (beq_iff_eq.mp ho)
  cases a with
  | symbol s' =>
    change (if s' ∈ table.keywords then TokenKind.keyword s' else .operator s') = _ at hkind
    split_ifs at hkind
    cases hkind
    rfl
  | property s' =>
    change (if s' ∈ table.keywords then TokenKind.keyword s' else .identifier) = _ at hkind
    split_ifs at hkind
  | literal l =>
    cases l with
    | boolean b => cases b <;> cases hkind
    | _ => cases hkind
  | _ => cases hkind

theorem isOperator_of_ne {a : Atom} {s : String} (h : token.kind = kind a) (ha : a ≠ .symbol s) :
    token.isOperator s = false :=
  Bool.eq_false_iff.mpr fun ho => ha (symbol_of_isOperator h ho)

theorem isOperator_of_symbol {s s' : String} (h : token.kind = kind (.symbol s)) (hne : s ≠ s') :
    token.isOperator s' = false :=
  isOperator_of_ne h fun heq => hne (Atom.symbol.inj heq)

theorem prefixOf_of_startsOperand {a : Atom} (h : token.kind = kind a) (ha : startsOperand a) :
    grammar.prefixOf token = none := by
  cases a with
  | symbol s =>
    unfold Grammar.prefixOf
    rw [symbol?_of_kind h]
    clear h
    rcases (Bool.or_eq_true _ _).mp ha with hs | hs <;> rw [beq_iff_eq.mp hs] <;> rfl
  | literal l =>
    unfold Grammar.prefixOf Token.symbol?
    rw [h]
    cases l with
    | boolean b => cases b <;> rfl
    | _ => rfl
  | name s =>
    unfold Grammar.prefixOf Token.symbol?
    rw [h]
    rfl
  | _ => cases ha

/-! ### What is ahead -/

def operator? (c : Cursor) : Option OperatorSpec :=
  (c.tokens.head?.bind Token.symbol?).bind fun s => binaryOps.find? (·.tokens == [s])

theorem spells_gives (hf : c.fault = none) (word : String) :
    Gives (Grammar.spells 0 [word]) c (c.tokens.head?.bind Token.symbol? == some word) c := by
  apply (peek_gives hf).bind
  split
  · rename_i h
    rw [h, beq_self_eq_true]
    exact .pure true c
  · rename_i h
    rw [beq_false_of_ne h]
    exact .pure false c

theorem longestOf_some {specs : List OperatorSpec} (hs : ∀ spec ∈ specs, spec.tokens.length = 1)
    {best : OperatorSpec} (hb : best.tokens.length = 1) :
    Gives (Grammar.longestOf (some best) specs) c (some best) c := by
  induction specs with
  | nil => exact .pure _ _
  | cons spec rest ih =>
    obtain ⟨hspec, hrest⟩ := List.forall_mem_cons.mp hs
    rw [Grammar.longestOf, Grammar.isLonger, hb, hspec]
    exact ih hrest

theorem longestOf_none (hf : c.fault = none) {specs : List OperatorSpec}
    (hs : ∀ spec ∈ specs, spec.tokens.length = 1) :
    Gives (Grammar.longestOf none specs) c
      ((c.tokens.head?.bind Token.symbol?).bind fun s => specs.find? (·.tokens == [s])) c := by
  induction specs with
  | nil => cases c.tokens.head?.bind Token.symbol? <;> exact .pure none c
  | cons spec rest ih =>
    obtain ⟨hspec, hrest⟩ := List.forall_mem_cons.mp hs
    obtain ⟨word, hword⟩ := List.length_eq_one_iff.mp hspec
    rw [Grammar.longestOf, hword]
    apply (spells_gives hf word).bind
    by_cases hahead : c.tokens.head?.bind Token.symbol? = some word
    · rw [hahead, beq_self_eq_true, Option.bind_some,
        List.find?_cons_of_pos (by rw [hword, beq_self_eq_true])]
      exact longestOf_some hrest hspec
    · rw [beq_false_of_ne hahead]
      have hskip : ((c.tokens.head?.bind Token.symbol?).bind fun s =>
          (spec :: rest).find? (·.tokens == [s])) =
          (c.tokens.head?.bind Token.symbol?).bind fun s => rest.find? (·.tokens == [s]) := by
        cases hsymbol : c.tokens.head?.bind Token.symbol? with
        | none => rfl
        | some s =>
          have hne : word ≠ s := fun h => hahead (hsymbol.trans (congrArg some h.symm))
          rw [Option.bind_some, Option.bind_some, List.find?_cons_of_neg]
          simpa [hword] using hne
      rw [hskip]
      exact ih hrest

theorem operatorAhead_gives (hf : c.fault = none) :
    Gives grammar.operatorAhead c (operator? c) c :=
  longestOf_none hf (by decide)

/-- Going on with operators of this precedence or above is not possible. -/
def Stops (floor : Nat) (c : Cursor) : Prop :=
  ∀ spec ∈ operator? c, spec.precedence < floor

theorem extendRight_stops (hf : c.fault = none) {floor : Nat} (h : Stops floor c)
    (below : Nat → Parse Expr) (e : Expr) :
    Gives (grammar.extendRight below floor e) c none c := by
  apply (operatorAhead_gives hf).bind
  cases ho : operator? c with
  | none => exact .pure none c
  | some spec =>
    dsimp only
    rw [if_pos (h spec ho)]
    exact .pure none c

/-- An operand can end here. -/
def Ends (c : Cursor) : Prop :=
  ∀ s ∈ ["(", ".", "["], NotAhead (·.isOperator s) c

theorem extendPostfix_ends (h : Ends c) (below : Nat → Parse Expr) (e : Expr) :
    Gives (grammar.extendPostfix below e) c none c := by
  have hcall : Gives (if grammar.isCallable e then atOperator "(" else pure false) c false c := by
    split
    · exact at?_false (h "(" (by decide))
    · exact .pure false c
  apply hcall.bind
  apply (eat_false (h "." (by decide))).bind
  exact (eat_false (h "[" (by decide))).bind (.pure none c)

/-- A whole expression can end here. -/
structure Closed (c : Cursor) : Prop where
  ends : Ends c
  operator : operator? c = none

theorem Ends.fault (h : Ends c) : c.fault = none :=
  (h "(" (by decide)).1

theorem Closed.stops (h : Closed c) (floor : Nat) : Stops floor c := by
  intro spec hspec
  rw [h.operator] at hspec
  cases hspec

theorem closed_eof (ht : c.tokens = []) (hf : c.fault = none) : Closed c where
  ends s hs := by
    refine ⟨hf, fun token h => ?_⟩
    rw [ht] at h
    cases h
  operator := by
    unfold operator?
    rw [ht]
    rfl

theorem closed_before {s : String} (hf : c.fault = none) (hs : s ∈ [")", "]", ":", ","])
    (h : token.kind = kind (.symbol s)) : Closed (c.before (token :: ts)) where
  ends s' hs' := by
    have hne : ∀ s ∈ [")", "]", ":", ","], ∀ s' ∈ ["(", ".", "["], s ≠ s' := by decide
    exact notAhead_before hf (isOperator_of_symbol h (hne s hs s' hs'))
  operator := by
    have hnone : ∀ s ∈ [")", "]", ":", ","],
        (binaryOps.find? (·.tokens == [s])).map (·.op) = none := by decide
    change (token.symbol?).bind _ = none
    rw [symbol?_of_kind h, Option.bind_some]
    exact Option.map_eq_none_iff.mp (hnone s hs)

end EmbeddedLang.Arithmetic
