import EmbeddedLang.Proofs.Parser.Forms

/-!
What the parser gives is written as the tokens that it takes.

The rules that all languages share ask this of the parser for nested expressions, and of the two
rules that no table can say.
-/

namespace EmbeddedLang

/-- A parser for expressions takes what its expression is written as. -/
abbrev Grammar.ReadsForms (g : Grammar) (F : Forms) (p : Parse Expr) : Prop :=
  ∀ c, Reads c (fun e ts => e.WrittenAs g F ts) p

/-- A step goes on from what is written as `us`, or takes nothing. -/
abbrev GoesOn (g : Grammar) (F : Forms) (us : List Token) (o : Option Expr) (ts : List Token) : Prop :=
  (∃ e, o = some e ∧ e.WrittenAs g F (us ++ ts)) ∨ (o = none ∧ ts = [])

/-- What a grammar adds to the common rules takes the tokens of the forms `F`. No two prefix operators
are spelled alike. -/
structure Grammar.Forming (g : Grammar) (F : Forms) : Prop where
  unary : ∀ spec ∈ g.prefixOps,
    (g.prefixOps.find? (·.op == spec.op)).map (·.token) = some spec.token
  inPlace : F.InPlace
  literal : ∀ p l parts, ¬ F (.literal p l) parts
  primaryForm : ∀ below, (∀ floor, g.ReadsForms F (below floor)) →
    ∀ c, Reads c (GoesOn g F []) (g.primaryForm below)
  infixForm : ∀ below, (∀ floor, g.ReadsForms F (below floor)) → ∀ left us floor,
    left.WrittenAs g F us → ∀ c, Reads c (GoesOn g F us) (g.infixForm below left floor)

/-- Some parts of this kind are written as the tokens. -/
abbrev WrittenBy (g : Grammar) (F : Forms) {α : Type} (Kind : α → List Part → Prop) (a : α)
    (ts : List Token) : Prop :=
  ∃ parts, Kind a parts ∧ Written g F parts ts

variable {g : Grammar} {F : Forms} {c : Cursor}

theorem GoesOn.none {us : List Token} : GoesOn g F us .none [] :=
  .inr ⟨rfl, rfl⟩

theorem GoesOn.some {us ts : List Token} {e : Expr} (h : e.WrittenAs g F (us ++ ts)) :
    GoesOn g F us (.some e) ts :=
  .inl ⟨e, rfl, h⟩

theorem Grammar.prefixAtom_eq_symbol {spec : PrefixSpec} (hg : ∀ spec ∈ g.prefixOps,
    (g.prefixOps.find? (·.op == spec.op)).map (·.token) = some spec.token)
    (h : spec ∈ g.prefixOps) : g.prefixAtom spec.op = .symbol spec.token := by
  obtain ⟨found, hfind, htoken⟩ := Option.map_eq_some_iff.mp (hg spec h)
  unfold Grammar.prefixAtom
  rw [hfind, ← htoken]

namespace Parse

variable {label : String → Atom} {expr : Parse Expr} {name : Parse (Option String)}

/-! ### Lists of items -/

/-- The name or the key of an item, or nothing. -/
abbrev ReadsLabel (g : Grammar) (label : String → Atom) (name : Parse (Option String)) : Prop :=
  ∀ c, Reads c (fun text ts => Spelled g (labelAtoms label text) ts) name

theorem skipTwo_reads {α : Type} {Q : α → List Token → Prop} {first second : Token} {a : α}
    (h : c.tokens.head? = some first) (h' : c.tokens[1]? = some second) (ha : Q a [first, second]) :
    Reads c Q (do
      let _ ← next
      let _ ← next
      return a) := by
  apply next_bind h
  intro _ c' hc
  have hsecond : c'.tokens.head? = some second := by
    rw [hc] at h'
    rw [List.head?_eq_getElem?]
    exact h'
  apply next_bind hsecond
  intro _ _ _
  exact .pure ha

theorem itemKey_reads : ReadsLabel g .key (itemKey g.table) := by
  intro c
  apply peek_bind
  intro o ho _
  apply peekNth_bind
  intro o' ho' _
  cases o with
  | none => exact .pure .nil
  | some first =>
    cases o' with
    | none => exact .pure .nil
    | some second =>
      dsimp only
      split
      · rename_i hcolon
        have hlabel {s : String} (hs : Atom.SpelledBy g (.key s) [first]) :
            Spelled g (labelAtoms .key (some s)) [first, second] :=
          .cons hs (.single (.operator hcolon))
        cases hk : first.kind with
        | string => exact skipTwo_reads ho.symm ho'.symm (hlabel (.stringKey hk))
        | identifier => exact skipTwo_reads ho.symm ho'.symm (hlabel (.plainKey (.inl hk)))
        | integer => exact skipTwo_reads ho.symm ho'.symm (hlabel (.plainKey (.inr hk)))
        | _ => exact .pure .nil
      · exact .pure .nil

theorem isIdentifier_of_kind {token : Token} (h : token.kind = .identifier) :
    token.isIdentifier ∧ token.name = token.lexeme := by
  unfold Token.isIdentifier Token.name
  rw [h]
  exact ⟨rfl, rfl⟩

theorem argumentName_reads : ReadsLabel g .name (argumentName g.table) := by
  intro c
  unfold argumentName
  split
  · apply peek_bind
    intro o ho _
    apply peekNth_bind
    intro o' ho' _
    cases o with
    | none => exact .pure .nil
    | some first =>
      cases o' with
      | none => exact .pure .nil
      | some second =>
        dsimp only
        split
        · rename_i h
          obtain ⟨hkind, hcolon⟩ := Bool.and_eq_true_iff.mp h
          obtain ⟨hid, hname⟩ := isIdentifier_of_kind (beq_iff_eq.mp hkind)
          have hspelled : Atom.SpelledBy g (.name first.lexeme) [first] := by
            rw [← hname]
            exact .name hid
          exact skipTwo_reads ho.symm ho'.symm (.cons hspelled (.single (.operator hcolon)))
        · exact .pure .nil
  · exact .pure .nil

theorem eat_flag (p : Token → Bool) : Reads c (Flag p) (eat p) := by
  apply (eat_reads p).imp
  rintro b ts (⟨rfl, token, rfl, h⟩ | ⟨rfl, rfl⟩)
  · exact .present h
  · exact .absent

theorem labelled_written (hn : ReadsLabel g label name) (he : g.ReadsForms F expr) :
    Reads c (WrittenBy g F (ItemsForm g label)) (commaSeparated do
      let text ← name
      return (⟨text, ← expr⟩ : Item)) := by
  have hitem (c : Cursor) : Reads c (fun item ts => ∃ us, Spelled g (labelAtoms label item.label) us ∧
      Written g F (us.map .own ++ [.inner item.value]) ts) (do
        let text ← name
        return (⟨text, ← expr⟩ : Item)) := by
    apply (hn c).bind
    intro text us c' _ hus
    exact (he c').bind_pure fun e ts hts => ⟨us, hus, (Written.tokens us).append hts⟩
  apply (hitem c).bind
  rintro ⟨text, e⟩ ts c' - ⟨us, hus, hts⟩
  refine whileSome_reads (I := WrittenBy g F (ItemsForm g label)) ?_ ⟨_, .single hus, hts⟩
  rintro items us c ⟨parts, hitems, hparts⟩
  apply (eat_reads _).bind
  rintro b ts c' - (⟨rfl, comma, rfl, hcomma⟩ | ⟨rfl, rfl⟩)
  · apply (hitem c').bind_pure
    rintro ⟨text, e⟩ ts ⟨us, hus, hts⟩
    exact .inl ⟨_, rfl, _, .more hitems hcomma hus, hparts.append (.own hts)⟩
  · exact .pure (.inr ⟨rfl, rfl⟩)

theorem listItems_written (he : g.ReadsForms F expr) (closer : String) :
    Reads c (WrittenBy g F (ListForm g .key closer)) (listItems g.table expr closer) := by
  apply (eat_reads _).bind
  rintro b ts c' - (⟨rfl, token, rfl, hcloser⟩ | ⟨rfl, rfl⟩)
  · exact .pure ⟨_, .empty hcloser, .own .nil⟩
  · apply (labelled_written itemKey_reads he).bind
    rintro items us _ - ⟨parts, hitems, hparts⟩
    apply (expect_reads _ _).bind
    rintro token _ _ - ⟨rfl, hcloser⟩
    exact .pure ⟨_, .items hitems hcloser, hparts.append (.own .nil)⟩

theorem arguments_written (he : g.ReadsForms F expr) :
    Reads c (WrittenBy g F fun found => ArgumentsForm g found.1 found.2)
      (arguments g.table expr) := by
  have hargs {distinct : Bool} {word : List Token} (c : Cursor)
      (hword : Flag (fun token => g.table.distinctKeyword.any token.isKeyword) distinct word) :
      Reads c (fun found ts => WrittenBy g F (fun found => ArgumentsForm g found.1 found.2) found
        (word ++ ts)) (do
          let args ← commaSeparated do
            let name ← argumentName g.table
            return (⟨name, ← expr⟩ : Item)
          let _ ← expectOperator ")"
          return (args, distinct)) := by
    apply (labelled_written argumentName_reads he).bind
    rintro items us _ - ⟨parts, hitems, hparts⟩
    apply (expect_reads _ _).bind
    rintro token _ _ - ⟨rfl, hcloser⟩
    refine .pure ⟨_, .mk hword (.items hitems hcloser), ?_⟩
    exact (Written.tokens word).append (hparts.append (.own .nil))
  unfold arguments
  apply (eat_reads _).bind
  rintro b ts c' - (⟨rfl, token, rfl, hcloser⟩ | ⟨rfl, rfl⟩)
  · exact .pure ⟨_, .mk .absent (.empty hcloser), .own .nil⟩
  dsimp only
  cases hkeyword : g.table.distinctKeyword with
  | none => exact hargs c' .absent
  | some word =>
    apply (eat_flag (·.isKeyword word)).bind
    intro distinct ts c'' _ hword
    apply hargs c''
    rw [hkeyword]
    exact hword

end Parse

namespace Grammar

open Parse

variable {below : Nat → Parse Expr}

theorem isIdentifier_of_quoted {token : Token} (h : token.kind = .quotedIdentifier) :
    token.isIdentifier := by
  unfold Token.isIdentifier
  rw [h]
  rfl

theorem memberName_reads :
    Reads c (fun name ts => Spelled g [.property name] ts) memberName := by
  apply peek_bind
  intro o ho _
  cases o with
  | none => exact failExpected_reads _
  | some token =>
    have hname (h : token.isIdentifier ∨ ∃ word, token.kind = .keyword word) :
        Reads c (fun name ts => Spelled g [.property name] ts) (do
          let _ ← next
          return token.name) :=
      next_bind ho.symm fun _ _ _ => .pure (.single (.property h))
    dsimp only
    split
    · rename_i hk
      exact hname (.inl (isIdentifier_of_kind hk).1)
    · rename_i hk
      exact hname (.inl (isIdentifier_of_quoted hk))
    · rename_i word hk
      exact hname (.inr ⟨word, hk⟩)
    · exact failExpected_reads _

section rules

variable (hg : g.Forming F) (hb : ∀ floor, g.ReadsForms F (below floor))

/-! ### Primary forms -/

theorem integerLiteral_written {token : Token} (hk : token.kind = .integer) :
    Reads c (fun e ts => ts = [] ∧ e.WrittenAs g F [token]) (integerLiteral token) := by
  unfold integerLiteral
  split
  · rename_i n hn
    split
    · rename_i hlt
      exact .pure ⟨rfl, .literal (.integer hk hn hlt) rfl⟩
    · exact .throw _
  · exact .throw _

theorem floatLiteral_written {token : Token} (hk : token.kind = .float) :
    Reads c (fun e ts => ts = [] ∧ e.WrittenAs g F [token]) (floatLiteral token) := by
  unfold floatLiteral
  split
  · rename_i x hx
    exact .pure ⟨rfl, .literal (.float hk hx) rfl⟩
  · exact .throw _

include hb

theorem commonPrimary_written : g.ReadsForms F (g.commonPrimary below) := by
  intro c
  apply peek_bind
  intro o ho _
  cases o with
  | none => exact failExpected_reads _
  | some token =>
    have hleaf {e : Expr} (h : e.WrittenAs g F [token]) : Reads c (fun e ts => e.WrittenAs g F ts) (do
        let _ ← next
        return e) :=
      next_bind ho.symm fun _ _ _ => .pure h
    dsimp only
    split
    · rename_i hk
      apply (integerLiteral_written hk).bind
      rintro e ts c' rfl ⟨rfl, h⟩
      exact next_bind ho.symm fun _ _ _ => .pure h
    · rename_i hk
      apply (floatLiteral_written hk).bind
      rintro e ts c' rfl ⟨rfl, h⟩
      exact next_bind ho.symm fun _ _ _ => .pure h
    · rename_i hk
      exact hleaf (.literal (.string hk) rfl)
    · rename_i hk
      exact hleaf (.lead (.identifier (isIdentifier_of_kind hk).1) rfl .nil)
    · rename_i hk
      exact hleaf (.lead (.identifier (isIdentifier_of_quoted hk)) rfl .nil)
    · rename_i word hk
      split
      · rename_i l hl
        exact hleaf (.literal (.keyword hk hl) rfl)
      · exact failExpected_reads _
    · rename_i op hk
      have hopen {s : String} (h : op = s) : token.isOperator s :=
        beq_iff_eq.mpr (hk.trans (congrArg _ h))
      split
      · rename_i hop
        apply next_bind ho.symm
        intro _ c' _
        apply (hb 0 c').bind
        intro inner ts c'' _ hinner
        apply (expect_reads _ _).bind
        rintro closer _ _ - ⟨rfl, hcloser⟩
        exact .pure (.lead (.grouped (hopen hop) hcloser) rfl (.cons hinner (.own .nil)))
      split
      · rename_i hop
        apply next_bind ho.symm
        intro _ c' _
        apply (listItems_written (hb 0) "]").bind_pure
        rintro items ts ⟨parts, hitems, hparts⟩
        exact .lead (.list (hopen hop.1) hitems) rfl hparts
      · exact failExpected_reads _
    · exact failExpected_reads _

/-! ### What may follow a primary form -/

theorem optionalBefore_written (absent : String) :
    Reads c (fun o ts => Written g F (optionParts o) ts) (optionalBefore below absent) := by
  apply (at?_reads _).bind
  rintro b ts c' - ⟨rfl, _⟩
  cases b with
  | true => exact .pure .nil
  | false => exact (hb 0 c').bind_pure fun _ _ he => he

theorem subscript_written {object : Expr} {us : List Token} {bracket : Token}
    (ho : object.WrittenAs g F us) (hbracket : bracket.isOperator "[") :
    Reads c (fun e ts => e.WrittenAs g F (us ++ (bracket :: ts))) (subscript below object) := by
  apply (optionalBefore_written hb ":").bind
  intro first ts c' _ hfirst
  apply (eat_reads _).bind
  rintro b _ c'' - (⟨rfl, colon, rfl, hcolon⟩ | ⟨rfl, rfl⟩)
  · apply (optionalBefore_written hb "]").bind
    intro last vs _ _ hlast
    apply (expect_reads _ _).bind
    rintro closer _ _ - ⟨rfl, hcloser⟩
    refine .pure (.extend ho (.slice hbracket hcolon hcloser) rfl (.own (hfirst.append ?_)))
    exact .own (hlast.append (.own .nil))
  · apply (expect_reads _ _).bind
    rintro closer _ _ - ⟨rfl, hcloser⟩
    cases first with
    | none => exact failExpected_reads _
    | some e =>
      refine .pure (.extend ho (.index hbracket hcloser) rfl (.own ?_))
      exact hfirst.append (.own .nil)

theorem extendPostfix_written {e : Expr} {us : List Token} (he : e.WrittenAs g F us) :
    Reads c (GoesOn g F us) (g.extendPostfix below e) := by
  have hcall : Reads c (fun b ts => ts = [] ∧
      (b = true → ∃ token rest, c.tokens = token :: rest ∧ token.isOperator "("))
      (if g.isCallable e then atOperator "(" else pure false) := by
    split
    · exact at?_reads _
    · exact .pure ⟨rfl, fun h => by cases h⟩
  have hsubscript (c : Cursor) : Reads c (fun b ts =>
      (b = true ∧ ∃ token, ts = [token] ∧ token.isOperator "[") ∨ (b = false ∧ ts = []))
      (if g.table.subscripts then eatOperator "[" else pure false) := by
    split
    · exact eat_reads _
    · exact .pure (.inr ⟨rfl, rfl⟩)
  apply hcall.bind
  rintro b ts c' rfl ⟨rfl, hcalls⟩
  split
  · rename_i hopen
    obtain ⟨token, rest, htokens, hparen⟩ := hcalls hopen
    apply next_bind (List.head?_eq_some_iff.mpr ⟨rest, htokens⟩)
    intro _ c'' _
    apply (arguments_written (hb 0)).bind_pure
    rintro ⟨args, distinct⟩ ts ⟨parts, hargs, hparts⟩
    exact .some (.extend he (.call hparen hargs) rfl (.own hparts))
  · apply (eat_reads _).bind
    rintro b _ c'' - (⟨rfl, dot, rfl, hdot⟩ | ⟨rfl, rfl⟩)
    · apply memberName_reads.bind_pure
      intro name ts hname
      exact .some (.extend he (.member hdot hname) rfl (.own (.tokens ts)))
    · apply (hsubscript c'').bind
      rintro b _ c3 - (⟨rfl, bracket, rfl, hbracket⟩ | ⟨rfl, rfl⟩)
      · exact (subscript_written hb he hbracket).bind_pure fun _ _ he' => .some he'
      · exact .pure .none

include hg

theorem primaryWith_written : g.ReadsForms F (g.primaryWith below) := by
  have hpostfix {e : Expr} {us : List Token} {c : Cursor} (he : e.WrittenAs g F us) :
      Reads c (fun e ts => e.WrittenAs g F (us ++ ts)) (whileSome (g.extendPostfix below) e) :=
    whileSome_reads (fun _ _ _ he => extendPostfix_written hb he) he
  intro c
  apply (hg.primaryForm below hb c).bind
  rintro o ts c' - (⟨e, rfl, he⟩ | ⟨rfl, rfl⟩)
  · exact hpostfix he
  · apply (commonPrimary_written hb c').bind
    intro e ts _ _ he
    exact hpostfix he

/-! ### Operators -/

omit hg hb in
/-- A minus before a number is written with it. -/
theorem writtenAs_applyPrefix (hF : ∀ p l parts, ¬ F (.literal p l) parts) {spec : PrefixSpec} {token : Token} {e : Expr} {ts : List Token}
    (hspec : spec ∈ g.prefixOps) (htoken : token.symbol? = some spec.token)
    (hatom : g.prefixAtom spec.op = .symbol spec.token) (he : e.WrittenAs g F ts) :
    (applyPrefix token.position spec.op e).WrittenAs g F (token :: ts) := by
  unfold applyPrefix
  split
  · rename_i hop
    exact .literal (.minusInteger ⟨_, hop ▸ hatom, htoken⟩ (he.spelledBy (hF _ _))) rfl
  · rename_i hop
    exact .literal (.minusFloat ⟨_, hop ▸ hatom, htoken⟩ (he.spelledBy (hF _ _))) rfl
  · exact .lead (.unary hspec htoken) rfl he

theorem unaryWith_written : g.ReadsForms F (g.unaryWith below) := by
  intro c
  apply peek_bind
  intro o ho _
  cases o with
  | none => exact failExpected_reads _
  | some token =>
    dsimp only
    split
    · rename_i spec hspec
      obtain ⟨s, hs, hfind⟩ := Option.bind_eq_some_iff.mp hspec
      have hmem := List.mem_of_find?_eq_some hfind
      have htoken : spec.token = s := by simpa using List.find?_some hfind
      apply next_bind ho.symm
      intro _ c' _
      apply (hb spec.precedence c').bind_pure
      intro e ts he
      exact writtenAs_applyPrefix hg.literal hmem (htoken ▸ hs) (prefixAtom_eq_symbol hg.unary hmem) he
    · exact primaryWith_written hg hb c

theorem extendRight_written {floor : Nat} {left : Expr} {us : List Token}
    (hl : left.WrittenAs g F us) : Reads c (GoesOn g F us) (g.extendRight below floor left) := by
  apply operatorAhead_reads.bind
  rintro o ts c' hc ⟨rfl, ho⟩
  cases hc
  cases o with
  | none => exact hg.infixForm below hb left us floor hl _
  | some spec =>
    obtain ⟨hspec, hsymbols⟩ := ho spec rfl
    dsimp only
    split
    · exact .pure .none
    · apply (takeTokens_reads _).bind
      rintro _ _ c' - rfl
      apply (hb _ c').bind_pure
      intro right vs hright
      exact .some (.extend hl (.binary hspec hsymbols) rfl ((Written.tokens _).append hright))

theorem expressionWith_written (floor : Nat) : g.ReadsForms F (g.expressionWith below floor) := by
  intro c
  apply (unaryWith_written hg hb c).bind
  intro left ts c' _ hl
  exact whileSome_reads (fun _ _ _ hl => extendRight_written hg hb hl) hl

omit hb in
theorem nested_written (depth floor : Nat) : g.ReadsForms F (g.nested depth floor) := by
  induction depth generalizing floor with
  | zero => exact fun c => .bind_throw
  | succ depth ih => exact expressionWith_written hg ih floor

omit hb in
/-- Any rule for expressions takes what its expression is written as. -/
theorem rules_written {p : Parse Expr} (floor : Nat)
    (hp : p ∈ [g.expression floor, g.unary, g.primary]) : g.ReadsForms F p := by
  intro c
  have hnested := nested_written hg (c.tokens.length + 1)
  simp only [List.mem_cons, List.not_mem_nil, or_false] at hp
  rcases hp with rfl | rfl | rfl
  · exact .of_start (fun c => g.nested (c.tokens.length + 1) floor) (hnested floor c) rfl
  · exact .of_start (fun c => g.unaryWith (g.nested (c.tokens.length + 1)))
      (unaryWith_written hg hnested c) rfl
  · exact .of_start (fun c => g.primaryWith (g.nested (c.tokens.length + 1)))
      (primaryWith_written hg hnested c) rfl

end rules

end Grammar

end EmbeddedLang
