import EmbeddedLang.Proofs.Parser.Reaches

/-!
Expressions stay between the delimiters.

A parser takes a token that it has looked at, and no rule for expressions looks for a text outside of
the delimiters, or for a delimiter that opens.
-/

namespace EmbeddedLang

def Token.rawText? (t : Token) : Option String :=
  if t.kind = .rawText then some t.lexeme else none

/-- The texts outside of the delimiters. -/
def rawTexts (ts : List Token) : List String :=
  ts.filterMap Token.rawText?

/-- Tokens that stand between two delimiters, and those that close. -/
def TokenKind.isInner : TokenKind → Bool
  | .rawText | .openStatement | .openEcho => false
  | _ => true

namespace Token

variable {t : Token}

theorem isInner_of_keyword {word : String} (h : t.isKeyword word) : t.kind.isInner := by
  rw [beq_iff_eq.mp h]
  rfl

theorem isInner_of_operator {op : String} (h : t.isOperator op) : t.kind.isInner := by
  rw [beq_iff_eq.mp h]
  rfl

theorem isInner_of_identifier (h : t.isIdentifier) : t.kind.isInner := by
  rcases Bool.or_eq_true_iff.mp h with hi | hq
  · rw [beq_iff_eq.mp hi]
    rfl
  · rw [beq_iff_eq.mp hq]
    rfl

theorem isInner_of_symbol {s : String} (h : t.symbol? = some s) : t.kind.isInner := by
  unfold symbol? at h
  split at h
  · rename_i hk
    exact hk ▸ rfl
  · rename_i hk
    exact hk ▸ rfl
  · cases h

end Token

/-- From `c` to `c'` only such tokens are taken. -/
def Cursor.Inside (c c' : Cursor) : Prop :=
  ∃ ts, c.tokens = ts ++ c'.tokens ∧ ∀ t ∈ ts, t.kind.isInner

namespace Cursor

theorem inside_refl (c : Cursor) : c.Inside c :=
  ⟨[], rfl, nofun⟩

theorem Inside.trans {c c' c'' : Cursor} (h : c.Inside c') (h' : c'.Inside c'') : c.Inside c'' := by
  obtain ⟨ts, hc, hts⟩ := h
  obtain ⟨us, hc', hus⟩ := h'
  refine ⟨ts ++ us, ?_, List.forall_mem_append.mpr ⟨hts, hus⟩⟩
  rw [hc, hc', List.append_assoc]

theorem inside_drop {c c' : Cursor} {n : Nat} (h : ∀ t ∈ c.tokens.take n, t.kind.isInner)
    (hc : c'.tokens = c.tokens.drop n) : c.Inside c' := by
  refine ⟨c.tokens.take n, ?_, h⟩
  rw [hc, List.take_append_drop]

theorem tokens_of_next {c c' : Cursor} {token : Token} (h : c.tokens[0]? = some token)
    (hc : c'.tokens = c.tokens.drop 1) : c.tokens = token :: c'.tokens := by
  obtain ⟨rest, htokens⟩ := List.head?_eq_some_iff.mp (List.head?_eq_getElem? ▸ h)
  rw [hc, htokens]
  rfl

/-- A token that is taken may be looked at afterwards. -/
theorem inside_next {c c' : Cursor} {token : Token} (h : c.tokens[0]? = some token)
    (hk : token.kind.isInner) (hc : c'.tokens = c.tokens.drop 1) : c.Inside c' :=
  ⟨[token], tokens_of_next h hc, List.forall_mem_singleton.mpr hk⟩

end Cursor

variable {α β : Type} {c : Cursor}

/-- From `c` on, `p` stays between the delimiters. -/
abbrev Skips (c : Cursor) (p : Parse α) : Prop :=
  Reaches c (fun _ c' => c.Inside c') p

namespace Skips

theorem pure (a : α) : Skips c (Pure.pure a) :=
  Reaches.pure c.inside_refl

theorem bind {p : Parse α} {f : α → Parse β} (hp : Skips c p) (hf : ∀ a c', Skips c' (f a)) :
    Skips c (p >>= f) :=
  Reaches.bind hp fun a c' hc' => (hf a c').imp fun _ _ => hc'.trans

theorem map {p : Parse α} (f : α → β) (hp : Skips c p) : Skips c (f <$> p) := by
  rw [map_eq_pure_bind]
  exact hp.bind fun a _ => pure (f a)

theorem peekNth {n : Nat} {f : Option Token → Parse β}
    (hf : ∀ o, o = c.tokens[n]? → Skips c (f o)) : Skips c (Parse.peekNth n >>= f) := by
  apply (Parse.peekNth_reaches n).bind
  rintro o c' ⟨rfl, ho⟩
  exact hf o ho

theorem peek {f : Option Token → Parse β} (hf : ∀ o, o = c.tokens[0]? → Skips c (f o)) :
    Skips c (Parse.peek >>= f) :=
  peekNth hf

theorem next_bind {token : Token} {f : Option Token → Parse β} (h : c.tokens[0]? = some token)
    (hk : token.kind.isInner) (hf : ∀ o c', c'.tokens = c.tokens.drop 1 → Skips c' (f o)) :
    Skips c (Parse.next >>= f) := by
  apply Parse.next_reaches.bind
  intro o c' hc'
  exact (hf o c' hc').imp fun _ _ => (Cursor.inside_next h hk hc').trans

theorem next {token : Token} {f : Option Token → Parse β} (h : c.tokens[0]? = some token)
    (hk : token.kind.isInner) (hf : ∀ o c', Skips c' (f o)) : Skips c (Parse.next >>= f) :=
  next_bind h hk fun o c' _ => hf o c'

theorem next_next {first second : Token} {f : Parse α} (h : c.tokens[0]? = some first)
    (h' : c.tokens[1]? = some second) (hk : first.kind.isInner) (hk' : second.kind.isInner)
    (hf : ∀ c', Skips c' f) : Skips c (do
      let _ ← Parse.next
      let _ ← Parse.next
      f) := by
  apply next_bind h hk
  intro _ c' hc'
  have hsecond : c'.tokens[0]? = some second := by
    rw [hc', List.getElem?_drop]
    exact h'
  exact next hsecond hk' fun _ => hf

theorem whileSome {step : α → Parse (Option α)} (h : ∀ a c, Skips c (step a)) (a : α) :
    Skips c (Parse.whileSome step a) := by
  apply Parse.whileSome_keeps (I := fun _ c' => c.Inside c') _ c.inside_refl
  intro a c' hc'
  exact (h a c').imp fun _ _ => hc'.trans

end Skips

namespace Parse

theorem failExpected_skips (expected : List String) : Skips c (failExpected expected : Parse α) :=
  .of_fails (.failExpected expected)

theorem at?_skips (p : Token → Bool) : Skips c (at? p) :=
  Skips.peek fun _ _ => .pure _

theorem eat_skips {p : Token → Bool} (hp : ∀ t, p t → t.kind.isInner) : Skips c (eat p) := by
  unfold eat at?
  rw [bind_assoc]
  apply Skips.peek
  intro o ho
  rw [pure_bind]
  cases o with
  | none => exact .pure _
  | some token =>
    dsimp only [Option.map_some, Option.getD_some]
    split
    · rename_i hpt
      exact .next ho.symm (hp token hpt) fun _ _ => .pure _
    · exact .pure _

theorem expect_skips {p : Token → Bool} (hp : ∀ t, p t → t.kind.isInner)
    (expected : List String) : Skips c (expect p expected) := by
  apply Skips.peek
  intro o ho
  cases o with
  | none => exact failExpected_skips _
  | some token =>
    dsimp only
    split
    · rename_i hpt
      exact .next ho.symm (hp token hpt) fun _ _ => .pure _
    · exact failExpected_skips _

theorem eatKeyword_skips (word : String) : Skips c (eatKeyword word) :=
  eat_skips fun _ => Token.isInner_of_keyword

theorem eatOperator_skips (op : String) : Skips c (eatOperator op) :=
  eat_skips fun _ => Token.isInner_of_operator

theorem expectKeyword_skips (word : String) : Skips c (expectKeyword word) :=
  expect_skips (fun _ => Token.isInner_of_keyword) _

theorem expectOperator_skips (op : String) : Skips c (expectOperator op) :=
  expect_skips (fun _ => Token.isInner_of_operator) _

theorem expectIdentifier_skips : Skips c expectIdentifier :=
  (expect_skips (fun _ => Token.isInner_of_identifier) _).bind fun _ _ => .pure _

theorem expectKind_skips (kind : TokenKind) (hk : kind.isInner) : Skips c (expectKind kind) := by
  apply expect_skips
  intro token ht
  rw [beq_iff_eq.mp ht]
  exact hk

theorem commaSeparated_skips {item : Parse α} (h : ∀ c, Skips c item) :
    Skips c (commaSeparated item) := by
  apply (h c).bind
  intro first c'
  apply Skips.whileSome
  intro items c
  apply (eatOperator_skips ",").bind
  intro b c'
  split
  · exact (h c').bind fun _ _ => .pure _
  · exact .pure _

theorem itemKey_skips (t : LanguageTable) : Skips c (itemKey t) := by
  apply Skips.peek
  intro o ho
  apply Skips.peekNth
  intro o' ho'
  split
  · rename_i first second
    split
    · rename_i hcolon
      have hsecond := Token.isInner_of_operator hcolon
      have hkey (hk : first.kind.isInner) (key : String) : Skips c (do
          if (some key).isSome then
            let _ ← next
            let _ ← next
          return some key) :=
        .next_next ho.symm ho'.symm hk hsecond fun _ => .pure _
      dsimp only
      split
      · rename_i hk
        exact hkey (hk ▸ rfl) _
      · rename_i hk
        exact hkey (hk ▸ rfl) _
      · rename_i hk
        exact hkey (hk ▸ rfl) _
      · exact .pure _
    · exact .pure _
  · exact .pure _

theorem argumentName_skips (t : LanguageTable) : Skips c (argumentName t) := by
  unfold argumentName
  split
  · apply Skips.peek
    intro o ho
    apply Skips.peekNth
    intro o' ho'
    split
    · rename_i first second
      split
      · rename_i hname
        obtain ⟨hi, hcolon⟩ := Bool.and_eq_true_iff.mp hname
        have hfirst : first.kind.isInner := by
          rw [beq_iff_eq.mp hi]
          rfl
        exact .next_next ho.symm ho'.symm hfirst (Token.isInner_of_operator hcolon)
          fun _ => .pure _
      · exact .pure _
    · exact .pure _
  · exact .pure _

theorem labelled_skips {label : Parse (Option String)} {expr : Parse Expr}
    (hl : ∀ c, Skips c label) (he : ∀ c, Skips c expr) : Skips c (commaSeparated do
      let name ← label
      return (⟨name, ← expr⟩ : Item)) :=
  commaSeparated_skips fun c => (hl c).bind fun _ c' => (he c').bind fun _ _ => .pure _

theorem listItems_skips (t : LanguageTable) {expr : Parse Expr} (he : ∀ c, Skips c expr)
    (closer : String) : Skips c (listItems t expr closer) := by
  apply (eatOperator_skips closer).bind
  intro b c'
  split
  · exact .pure _
  · exact (labelled_skips (fun _ => itemKey_skips t) he).bind fun _ _ =>
      (expectOperator_skips closer).bind fun _ _ => .pure _

theorem arguments_skips (t : LanguageTable) {expr : Parse Expr} (he : ∀ c, Skips c expr) :
    Skips c (arguments t expr) := by
  apply (eatOperator_skips ")").bind
  intro b c'
  split
  · exact .pure _
  · have hargs (distinct : Bool) (c : Cursor) : Skips c (do
        let args ← commaSeparated do
          let name ← argumentName t
          return (⟨name, ← expr⟩ : Item)
        let _ ← expectOperator ")"
        return (args, distinct)) :=
      (labelled_skips (fun _ => argumentName_skips t) he).bind fun _ _ =>
        (expectOperator_skips ")").bind fun _ _ => .pure _
    dsimp only
    cases t.distinctKeyword with
    | some word => exact (eatKeyword_skips word).bind fun distinct c' => hargs distinct c'
    | none => exact hargs false c'

end Parse

namespace Grammar

open Parse

theorem SymbolsAt.isInner {symbols : List String} (h : SymbolsAt c 0 symbols) :
    ∀ t ∈ c.tokens.take symbols.length, t.kind.isInner := by
  intro t ht
  unfold SymbolsAt at h
  rw [List.drop_zero] at h
  have hsymbol : t.symbol? ∈ symbols.map some := h ▸ List.mem_map_of_mem ht
  obtain ⟨symbol, _, hs⟩ := List.mem_map.mp hsymbol
  exact Token.isInner_of_symbol hs.symm

/-- The rules that no table can say stay between the delimiters. -/
structure Textless (g : Grammar) : Prop where
  primaryForm {below : Nat → Parse Expr} (hb : ∀ floor c, Skips c (below floor))
    (c : Cursor) : Skips c (g.primaryForm below)
  infixForm {below : Nat → Parse Expr} (hb : ∀ floor c, Skips c (below floor))
    (left : Expr) (floor : Nat) (c : Cursor) : Skips c (g.infixForm below left floor)

section rules

variable {g : Grammar} (hg : g.Textless) {below : Nat → Parse Expr}
  (hb : ∀ floor c, Skips c (below floor))

theorem integerLiteral_stays (token : Token) :
    Reaches c (fun _ c' => c' = c) (integerLiteral token) := by
  unfold integerLiteral
  split
  · split
    · exact .pure rfl
    · exact .throw _
  · exact .throw _

theorem floatLiteral_stays (token : Token) :
    Reaches c (fun _ c' => c' = c) (floatLiteral token) := by
  unfold floatLiteral
  split
  · exact .pure rfl
  · exact .throw _

theorem memberName_skips : Skips c memberName := by
  apply Skips.peek
  intro o ho
  cases o with
  | none => exact failExpected_skips _
  | some token =>
    dsimp only
    split
    · rename_i hk
      exact .next ho.symm (hk ▸ rfl) fun _ _ => .pure _
    · rename_i hk
      exact .next ho.symm (hk ▸ rfl) fun _ _ => .pure _
    · rename_i hk
      exact .next ho.symm (hk ▸ rfl) fun _ _ => .pure _
    · exact failExpected_skips _

include hb

theorem commonPrimary_skips : Skips c (g.commonPrimary below) := by
  apply Skips.peek
  intro o ho
  cases o with
  | none => exact failExpected_skips _
  | some token =>
    dsimp only
    split
    · rename_i hk
      apply (integerLiteral_stays token).bind
      rintro e c' rfl
      exact Skips.next ho.symm (hk ▸ rfl) fun _ _ => .pure _
    · rename_i hk
      apply (floatLiteral_stays token).bind
      rintro e c' rfl
      exact Skips.next ho.symm (hk ▸ rfl) fun _ _ => .pure _
    · rename_i hk
      exact .next ho.symm (hk ▸ rfl) fun _ _ => .pure _
    · rename_i hk
      exact .next ho.symm (hk ▸ rfl) fun _ _ => .pure _
    · rename_i hk
      exact .next ho.symm (hk ▸ rfl) fun _ _ => .pure _
    · rename_i hk
      split
      · exact .next ho.symm (hk ▸ rfl) fun _ _ => .pure _
      · exact failExpected_skips _
    · rename_i hk
      split
      · exact .next ho.symm (hk ▸ rfl) fun _ c' => (hb 0 c').bind fun _ _ =>
          (expectOperator_skips ")").bind fun _ _ => .pure _
      split
      · exact .next ho.symm (hk ▸ rfl) fun _ _ =>
          (listItems_skips g.table (hb 0) "]").bind fun _ _ => .pure _
      · exact failExpected_skips _
    · exact failExpected_skips _

theorem optionalBefore_skips (absent : String) : Skips c (optionalBefore below absent) := by
  apply (at?_skips _).bind
  intro b c'
  split
  · exact .pure _
  · exact (hb 0 c').bind fun _ _ => .pure _

theorem subscript_skips (object : Expr) : Skips c (subscript below object) := by
  apply (optionalBefore_skips hb ":").bind
  intro first c'
  apply (eatOperator_skips ":").bind
  intro b c'
  split
  · exact (optionalBefore_skips hb "]").bind fun _ _ =>
      (expectOperator_skips "]").bind fun _ _ => .pure _
  · apply (expectOperator_skips "]").bind
    intro _ c'
    cases first with
    | none => exact failExpected_skips _
    | some e => exact .pure _

theorem extendPostfix_skips (e : Expr) : Skips c (g.extendPostfix below e) := by
  have hcall : Reaches c
      (fun b c' => c' = c ∧ (b = true → ∃ token ∈ c.tokens[0]?, token.kind.isInner))
      (if g.isCallable e then atOperator "(" else pure false) := by
    split
    · apply peek_reaches.bind
      rintro o c' ⟨rfl, ho⟩
      refine .pure ⟨rfl, fun hb => ?_⟩
      cases o with
      | none => cases hb
      | some token => exact ⟨token, ho.symm, Token.isInner_of_operator hb⟩
    · exact .pure ⟨rfl, nofun⟩
  have hsubscript (c : Cursor) :
      Skips c (if g.table.subscripts then eatOperator "[" else pure false) := by
    split
    · exact eatOperator_skips _
    · exact .pure _
  apply hcall.bind
  rintro b c' ⟨rfl, hb'⟩
  split
  · rename_i htrue
    obtain ⟨token, ht, hk⟩ := hb' htrue
    exact Skips.next ht hk fun _ _ => (arguments_skips g.table (hb 0)).bind fun _ _ => .pure _
  · apply (eatOperator_skips ".").bind
    intro b c'
    split
    · exact memberName_skips.bind fun _ _ => .pure _
    · apply (hsubscript c').bind
      intro b c'
      split
      · exact (subscript_skips hb e).bind fun _ _ => .pure _
      · exact .pure _

include hg

theorem primaryWith_skips : Skips c (g.primaryWith below) := by
  apply (hg.primaryForm hb c).bind
  intro o c'
  cases o with
  | some e => exact .whileSome (fun e _ => extendPostfix_skips hb e) _
  | none =>
    exact (commonPrimary_skips hb).bind fun e _ =>
      .whileSome (fun e _ => extendPostfix_skips hb e) _

theorem unaryWith_skips : Skips c (g.unaryWith below) := by
  apply Skips.peek
  intro o ho
  cases o with
  | none => exact failExpected_skips _
  | some token =>
    dsimp only
    split
    · rename_i spec hspec
      obtain ⟨symbol, hsymbol, _⟩ := Option.bind_eq_some_iff.mp hspec
      exact .next ho.symm (Token.isInner_of_symbol hsymbol) fun _ c' =>
        (hb spec.precedence c').bind fun _ _ => .pure _
    · exact primaryWith_skips hg hb

theorem extendRight_skips (floor : Nat) (left : Expr) :
    Skips c (g.extendRight below floor left) := by
  apply (Reaches.of_reads operatorAhead_reads).bind
  rintro o c' ⟨ts, hc, rfl, ho⟩
  cases hc
  change Skips c' _
  cases o with
  | none => exact hg.infixForm hb left floor c'
  | some spec =>
    dsimp only
    split
    · exact Skips.pure _
    · have htake : Skips c' (takeTokens spec.tokens.length) := by
        apply (takeTokens_reaches _).imp
        intro _ _ hd
        exact Cursor.inside_drop (ho spec rfl).2.isInner hd
      exact Skips.bind htake fun _ _ => (hb _ _).bind fun _ _ => .pure _

theorem expressionWith_skips (floor : Nat) : Skips c (g.expressionWith below floor) :=
  (unaryWith_skips hg hb).bind fun _ _ => .whileSome (fun e _ => extendRight_skips hg hb floor e) _

end rules

theorem nested_skips {g : Grammar} (hg : g.Textless) (depth floor : Nat) (c : Cursor) :
    Skips c (g.nested depth floor) := by
  induction depth generalizing floor c with
  | zero => exact .of_fails (.after fun _ => .throw _)
  | succ depth ih => exact expressionWith_skips hg ih floor

theorem expression_skips {g : Grammar} (hg : g.Textless) (floor : Nat) :
    Skips c (g.expression floor) :=
  .of_start (fun c => g.nested (c.tokens.length + 1) floor) (nested_skips hg _ floor c) rfl

end Grammar

end EmbeddedLang
