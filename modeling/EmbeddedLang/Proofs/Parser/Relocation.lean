import EmbeddedLang.Proofs.Expr.Relocation
import EmbeddedLang.Proofs.Parser.Reads
import Mathlib.Data.List.Forall2
import Mathlib.Data.Option.Basic

/-!
Parsers pass positions on and do not look at them.

Two cursors are alike if one has the tokens of the other at other places. Keywords may differ in their
spelling, but for a keyword behind a dot, which is a name there; in strict likeness they may not. What
a parser does at one of two such cursors it does at the other, with the places in its result or its
error moved in the same way.
-/

namespace EmbeddedLang

variable {f : Position → Position} {strict : Bool}

def TokenKind.isKeyword : TokenKind → Bool
  | keyword _ => true
  | _ => false

/-- The second token is the first at another place; if `exact` fails a keyword may be spelt in
another way. -/
structure Token.Alike (f : Position → Position) (exact : Bool) (a b : Token) : Prop where
  kind : b.kind = a.kind
  position : b.position = f a.position
  lexeme : (a.kind.isKeyword → exact) → b.lexeme = a.lexeme

/-- Tokens behind a dot if `dot` holds. -/
inductive TokensAlike (f : Position → Position) (strict : Bool) :
    Bool → List Token → List Token → Prop where
  | nil {dot : Bool} : TokensAlike f strict dot [] []
  | cons {dot : Bool} {a b : Token} {as bs : List Token} (h : a.Alike f (strict || dot) b)
      (hrest : TokensAlike f strict (a.isOperator ".") as bs) :
      TokensAlike f strict dot (a :: as) (b :: bs)

structure Cursor.AlikeAt (f : Position → Position) (strict dot : Bool) (c d : Cursor) : Prop where
  tokens : TokensAlike f strict dot c.tokens d.tokens
  fault : d.fault = c.fault.map (CompileError.relocate f)
  placed : ∀ e ∈ c.fault, e.position?.isSome
  stop : c.fault = none → d.stop = f c.stop

def Cursor.Alike (f : Position → Position) (strict : Bool) (c d : Cursor) : Prop :=
  ∃ dot, c.AlikeAt f strict dot d

/-- Related values at cursors that are alike, or one error at two places. -/
inductive SameOutcome (f : Position → Position) (strict : Bool) {α β : Type} (S : α → β → Prop) :
    EStateM.Result CompileError Cursor α → EStateM.Result CompileError Cursor β → Prop where
  | ok {a : α} {b : β} {c d : Cursor} (h : S a b) (hc : c.Alike f strict d) :
      SameOutcome f strict S (.ok a c) (.ok b d)
  | error {e : CompileError} {c d : Cursor} (hp : e.position?.isSome) :
      SameOutcome f strict S (.error e c) (.error (e.relocate f) d)

structure Relocates (f : Position → Position) (strict : Bool) {α β : Type} (S : α → β → Prop)
    (p : Parse α) (q : Parse β) : Prop where
  run : ∀ c d, c.Alike f strict d → SameOutcome f strict S (p c) (q d)

/-- As `Relocates`, for cursors behind a dot. -/
structure RelocatesAfterDot (f : Position → Position) (strict : Bool) {α β : Type}
    (S : α → β → Prop) (p : Parse α) (q : Parse β) : Prop where
  run : ∀ c d, c.AlikeAt f strict true d → SameOutcome f strict S (p c) (q d)

/-- What is read is moved by `r`. -/
abbrev Moves (f : Position → Position) (strict : Bool) {α β : Type} (r : α → β) (p : Parse α)
    (q : Parse β) : Prop :=
  Relocates f strict (fun a b => b = r a) p q

/-- What is read names no place. -/
abbrev Keeps (f : Position → Position) (strict : Bool) {α : Type} (p q : Parse α) : Prop :=
  Moves f strict id p q

/-! ### Alike tokens -/

namespace Token.Alike

variable {exact exact' : Bool} {a b : Token}

theorem weaken (h : a.Alike f exact b) (hexact : exact' → exact) : a.Alike f exact' b :=
  ⟨h.kind, h.position, fun hk => h.lexeme fun hkeyword => hexact (hk hkeyword)⟩

theorem lexeme_of_kind (h : a.Alike f exact b) (hk : a.kind.isKeyword = false) :
    b.lexeme = a.lexeme :=
  h.lexeme (by simp [hk])

theorem isKeyword (h : a.Alike f exact b) (word : String) :
    b.isKeyword word = a.isKeyword word := by
  rw [Token.isKeyword, Token.isKeyword, h.kind]

theorem isOperator (h : a.Alike f exact b) (op : String) :
    b.isOperator op = a.isOperator op := by
  rw [Token.isOperator, Token.isOperator, h.kind]

theorem isIdentifier (h : a.Alike f exact b) : b.isIdentifier = a.isIdentifier := by
  rw [Token.isIdentifier, Token.isIdentifier, h.kind]

theorem symbol? (h : a.Alike f exact b) : b.symbol? = a.symbol? := by
  rw [Token.symbol?, Token.symbol?, h.kind]

theorem describe (h : a.Alike f exact b) : b.describe = a.describe := by
  unfold Token.describe
  rw [h.kind]
  cases hk : a.kind with
  | keyword word => rfl
  | _ => rw [h.lexeme_of_kind (by simp [hk, TokenKind.isKeyword])]

theorem name (h : a.Alike f exact b) (hk : a.kind.isKeyword → exact) : b.name = a.name := by
  unfold Token.name
  rw [h.kind, h.lexeme hk]

theorem name_of_isIdentifier (h : a.Alike f exact b) (ha : a.isIdentifier) : b.name = a.name := by
  apply h.name
  rw [Token.isIdentifier] at ha
  cases hk : a.kind <;> simp_all [TokenKind.isKeyword]

end Token.Alike

namespace TokensAlike

variable {dot : Bool} {as bs : List Token}

theorem length_eq (h : TokensAlike f strict dot as bs) : bs.length = as.length := by
  induction h with
  | nil => rfl
  | cons _ _ ih => simp [ih]

theorem getElem? (h : TokensAlike f strict dot as bs) (n : Nat) :
    Option.Rel (Token.Alike f strict) as[n]? bs[n]? := by
  induction h generalizing n with
  | nil => exact .none
  | cons hab _ ih =>
    cases n with
    | zero => exact .some (hab.weaken (by simp +contextual))
    | succ n => exact ih n

theorem drop (h : TokensAlike f strict dot as bs) (n : Nat) :
    ∃ dot', TokensAlike f strict dot' (as.drop n) (bs.drop n) := by
  induction h generalizing n with
  | nil => exact ⟨false, by simpa using .nil⟩
  | @cons dot a b as bs hab hrest ih =>
    cases n with
    | zero => exact ⟨dot, .cons hab hrest⟩
    | succ n => exact ih n

end TokensAlike

/-- What two cursors that are alike have ahead: a token, the end, or an error. -/
theorem Cursor.Alike.ahead {c d : Cursor} (h : c.Alike f strict d) (n : Nat) :
    (∃ a b, c.tokens[n]? = some a ∧ d.tokens[n]? = some b ∧ a.Alike f strict b) ∨
    (c.tokens[n]? = none ∧ d.tokens[n]? = none ∧
      ((c.fault = none ∧ d.fault = none ∧ d.stop = f c.stop) ∨
        ∃ e, c.fault = some e ∧ d.fault = some (e.relocate f) ∧ e.position?.isSome)) := by
  obtain ⟨dot, hat⟩ := h
  have hfault := hat.fault
  have hplaced := hat.placed
  have hn := hat.tokens.getElem? n
  generalize c.tokens[n]? = a, d.tokens[n]? = b at hn ⊢
  cases hn with
  | some hab => exact .inl ⟨_, _, rfl, rfl, hab⟩
  | none =>
    refine .inr ⟨rfl, rfl, ?_⟩
    cases hc : c.fault with
    | none => exact .inl ⟨rfl, by simpa [hc] using hfault, hat.stop hc⟩
    | some e => exact .inr ⟨e, rfl, by simpa [hc] using hfault, hplaced e hc⟩

/-! ### Composition -/

variable {α β γ δ : Type} {S : α → β → Prop} {T : γ → δ → Prop}

theorem SameOutcome.imp {S' : α → β → Prop} {x : EStateM.Result CompileError Cursor α}
    {y : EStateM.Result CompileError Cursor β} (h : SameOutcome f strict S x y)
    (hS : ∀ a b, S a b → S' a b) : SameOutcome f strict S' x y := by
  cases h with
  | ok hab hc => exact .ok (hS _ _ hab) hc
  | error hp => exact .error hp

theorem SameOutcome.bind {p : Parse α} {q : Parse β} {k : α → Parse γ} {k' : β → Parse δ}
    {c d : Cursor} (h : SameOutcome f strict S (p c) (q d))
    (hk : ∀ a b, S a b → Relocates f strict T (k a) (k' b)) :
    SameOutcome f strict T ((p >>= k) c) ((q >>= k') d) := by
  change SameOutcome f strict T (EStateM.bind p k c) (EStateM.bind q k' d)
  unfold EStateM.bind
  generalize p c = x, q d = y at h ⊢
  cases h with
  | ok hab hc => exact (hk _ _ hab).run _ _ hc
  | error hp => exact .error hp

namespace Relocates

theorem pure {a : α} {b : β} (h : S a b) : Relocates f strict S (Pure.pure a) (Pure.pure b) where
  run _ _ hc := .ok h hc

theorem throw {e e' : CompileError} (h : e' = e.relocate f) (hp : e.position?.isSome) :
    Relocates f strict S (throw e) (throw e') where
  run _ _ _ := h ▸ .error hp

/-- What comes behind an error does not matter. -/
theorem throw_bind {e e' : CompileError} {k : α → Parse γ} {k' : β → Parse δ}
    (h : e' = e.relocate f) (hp : e.position?.isSome) :
    Relocates f strict T (MonadExcept.throw e >>= k) (MonadExcept.throw e' >>= k') where
  run _ _ _ := h ▸ .error hp

theorem bind {p : Parse α} {q : Parse β} {k : α → Parse γ} {k' : β → Parse δ}
    (h : Relocates f strict S p q) (hk : ∀ a b, S a b → Relocates f strict T (k a) (k' b)) :
    Relocates f strict T (p >>= k) (q >>= k') where
  run c d hc := (h.run c d hc).bind hk

theorem imp {S' : α → β → Prop} {p : Parse α} {q : Parse β} (h : Relocates f strict S p q)
    (hS : ∀ a b, S a b → S' a b) : Relocates f strict S' p q where
  run c d hc := (h.run c d hc).imp hS

/-- Rules that may count the tokens they start from. -/
theorem of_length {p : Parse α} {q : Parse β} {rule : Nat → Parse α} {rule' : Nat → Parse β}
    (h : ∀ n, Relocates f strict S (rule n) (rule' n)) (hp : ∀ c, p c = rule c.tokens.length c)
    (hq : ∀ c, q c = rule' c.tokens.length c) : Relocates f strict S p q where
  run c d hc := by
    obtain ⟨dot, hat⟩ := hc
    rw [hp, hq, hat.tokens.length_eq]
    exact (h c.tokens.length).run c d ⟨dot, hat⟩

end Relocates

theorem Moves.bind {r : α → β} {p : Parse α} {q : Parse β} {k : α → Parse γ} {k' : β → Parse δ}
    (h : Moves f strict r p q) (hk : ∀ a, Relocates f strict T (k a) (k' (r a))) :
    Relocates f strict T (p >>= k) (q >>= k') :=
  Relocates.bind h fun a _ hb => hb ▸ hk a

theorem Keeps.bind {p q : Parse α} {k : α → Parse γ} {k' : α → Parse δ} (h : Keeps f strict p q)
    (hk : ∀ a, Relocates f strict T (k a) (k' a)) : Relocates f strict T (p >>= k) (q >>= k') :=
  Moves.bind h hk

theorem Moves.map {r : α → β} {r' : γ → δ} {g : α → γ} {g' : β → δ} {p : Parse α} {q : Parse β}
    (h : Moves f strict r p q) (hg : ∀ a, g' (r a) = r' (g a)) :
    Moves f strict r' (g <$> p) (g' <$> q) := by
  rw [map_eq_pure_bind, map_eq_pure_bind]
  exact h.bind fun a => .pure (hg a)

theorem RelocatesAfterDot.bind {p : Parse α} {q : Parse β} {k : α → Parse γ} {k' : β → Parse δ}
    (h : RelocatesAfterDot f strict S p q)
    (hk : ∀ a b, S a b → Relocates f strict T (k a) (k' b)) :
    RelocatesAfterDot f strict T (p >>= k) (q >>= k') where
  run c d hc := (h.run c d hc).bind hk

namespace Parse

/-! ### Tokens -/

theorem peekNth_relocates (n : Nat) :
    Relocates f strict (Option.Rel (Token.Alike f strict)) (peekNth n) (peekNth n) where
  run c d hc := by
    unfold peekNth
    rcases hc.ahead n with ⟨a, b, ha, hb, hab⟩ | ⟨ha, hb, ⟨hf, hf', -⟩ | ⟨e, hf, hf', hp⟩⟩
    · rw [ha, hb]
      exact .ok (.some hab) hc
    · rw [ha, hb, hf, hf']
      exact .ok .none hc
    · rw [ha, hb, hf, hf']
      exact .error hp

theorem peek_relocates :
    Relocates f strict (Option.Rel (Token.Alike f strict)) peek peek :=
  peekNth_relocates 0

theorem drop_relocates (n : Nat) : Keeps f strict
    (modify fun c => { c with tokens := c.tokens.drop n } : Parse Unit)
    (modify fun c => { c with tokens := c.tokens.drop n }) where
  run c d hc := by
    obtain ⟨dot, hat⟩ := hc
    obtain ⟨dot', hdrop⟩ := hat.tokens.drop n
    exact .ok rfl ⟨dot', hdrop, hat.fault, hat.placed, hat.stop⟩

theorem next_relocates : Relocates f strict (Option.Rel (Token.Alike f strict)) next next := by
  apply peek_relocates.bind
  intro a b hab
  exact (drop_relocates 1).bind fun _ => .pure hab

/-- A token that is taken and not looked at. -/
theorem take_bind {k : Parse α} {k' : Parse β} (h : Relocates f strict S k k') :
    Relocates f strict S (next >>= fun _ => k) (next >>= fun _ => k') :=
  next_relocates.bind fun _ _ _ => h

theorem isEof_relocates : Keeps f strict isEof isEof := by
  apply peek_relocates.bind
  rintro _ _ (_ | _) <;> exact .pure rfl

theorem position_eq (c : Cursor) : position c = match c.tokens[0]?, c.fault with
    | some token, _ => .ok token.position c
    | none, none => .ok c.stop c
    | none, some e => .error e { c with fault := none } := by
  change EStateM.bind (peekNth 0) _ c = _
  unfold EStateM.bind peekNth
  cases c.tokens[0]? with
  | some token => rfl
  | none => cases c.fault <;> rfl

theorem failExpected_eq (expected : List String) (c : Cursor) :
    (failExpected expected : Parse α) c = match c.tokens[0]?, c.fault with
      | some token, _ => .error (.unexpectedToken token.position expected token.describe) c
      | none, none => .error (.unexpectedToken c.stop expected "end of input") c
      | none, some e => .error e { c with fault := none } := by
  change EStateM.bind (expectedHere expected) _ c = _
  unfold EStateM.bind expectedHere peek peekNth
  cases c.tokens[0]? with
  | some token => rfl
  | none => cases c.fault <;> rfl

theorem position_relocates : Moves f strict f position position where
  run c d hc := by
    rw [position_eq, position_eq]
    rcases hc.ahead 0 with ⟨a, b, ha, hb, hab⟩ | ⟨ha, hb, ⟨hf, hf', hstop⟩ | ⟨e, hf, hf', hp⟩⟩
    · rw [ha, hb]
      exact .ok hab.position hc
    · rw [ha, hb, hf, hf']
      exact .ok hstop hc
    · rw [ha, hb, hf, hf']
      exact .error hp

theorem failExpected_relocates (expected : List String) :
    Relocates f strict S (failExpected expected) (failExpected expected) where
  run c d hc := by
    rw [failExpected_eq, failExpected_eq]
    rcases hc.ahead 0 with ⟨a, b, ha, hb, hab⟩ | ⟨ha, hb, ⟨hf, hf', hstop⟩ | ⟨e, hf, hf', hp⟩⟩
    · simp only [ha, hb, hab.position, hab.describe]
      exact .error rfl
    · simp only [ha, hb, hf, hf', hstop]
      exact .error rfl
    · rw [ha, hb, hf, hf']
      exact .error hp

theorem at?_relocates {p : Token → Bool} (h : ∀ a b, a.Alike f strict b → p b = p a) :
    Keeps f strict (at? p) (at? p) := by
  apply peek_relocates.bind
  rintro _ _ (hab | _)
  · exact .pure (by simp [h _ _ hab])
  · exact .pure rfl

theorem eat_relocates {p : Token → Bool} (h : ∀ a b, a.Alike f strict b → p b = p a) :
    Keeps f strict (eat p) (eat p) := by
  apply (at?_relocates h).bind
  intro found
  cases found with
  | true => exact take_bind (.pure rfl)
  | false => exact .pure rfl

theorem expect_relocates {p : Token → Bool} (h : ∀ a b, a.Alike f strict b → p b = p a)
    (expected : List String) :
    Relocates f strict (fun a b => a.Alike f strict b ∧ p a) (expect p expected)
      (expect p expected) := by
  apply peek_relocates.bind
  rintro _ _ (hab | _)
  · next a b =>
    dsimp only
    rw [h a b hab]
    split
    · next hp => exact take_bind (.pure ⟨hab, hp⟩)
    · exact failExpected_relocates expected
  · exact failExpected_relocates expected

theorem atKeyword_relocates (word : String) : Keeps f strict (atKeyword word) (atKeyword word) :=
  at?_relocates fun _ _ h => h.isKeyword word

theorem eatKeyword_relocates (word : String) : Keeps f strict (eatKeyword word) (eatKeyword word) :=
  eat_relocates fun _ _ h => h.isKeyword word

theorem atOperator_relocates (op : String) : Keeps f strict (atOperator op) (atOperator op) :=
  at?_relocates fun _ _ h => h.isOperator op

theorem eatOperator_relocates (op : String) : Keeps f strict (eatOperator op) (eatOperator op) :=
  eat_relocates fun _ _ h => h.isOperator op

theorem expectKeyword_relocates (word : String) :
    Relocates f strict (fun a b => b.position = f a.position) (expectKeyword word)
      (expectKeyword word) :=
  (expect_relocates (fun _ _ h => h.isKeyword word) _).imp fun _ _ h => h.1.position

theorem expectOperator_relocates (op : String) :
    Relocates f strict (fun a b => b.position = f a.position) (expectOperator op)
      (expectOperator op) :=
  (expect_relocates (fun _ _ h => h.isOperator op) _).imp fun _ _ h => h.1.position

theorem expectKind_relocates (kind : TokenKind) :
    Relocates f strict (fun a b => a.Alike f strict b ∧ a.kind = kind) (expectKind kind)
      (expectKind kind) :=
  (expect_relocates (fun _ _ h => by rw [h.kind]) _).imp fun _ _ h => ⟨h.1, beq_iff_eq.mp h.2⟩

theorem atIdentifier_relocates : Keeps f strict atIdentifier atIdentifier :=
  at?_relocates fun _ _ h => h.isIdentifier

theorem expectIdentifier_relocates :
    Moves f strict (Prod.map id f) expectIdentifier expectIdentifier := by
  apply (expect_relocates (fun _ _ h => h.isIdentifier) _).bind
  rintro a b ⟨hab, ha⟩
  exact .pure (by rw [hab.position, hab.name_of_isIdentifier ha]; rfl)

theorem expectString_relocates (t : LanguageTable) :
    Moves f strict (Prod.map id f) (expectString t) (expectString t) := by
  apply (expectKind_relocates .string).bind
  rintro a b ⟨hab, ha⟩
  have hlexeme : b.lexeme = a.lexeme := hab.lexeme_of_kind (by rw [ha]; rfl)
  exact .pure (by rw [hab.position, hlexeme]; rfl)

/-! ### Behind a dot -/

theorem peek_relocatesAfterDot :
    RelocatesAfterDot f strict (Option.Rel (Token.Alike f true)) peek peek where
  run c d hc := by
    obtain ⟨tokens, fault, stop⟩ := c
    obtain ⟨tokens', fault', stop'⟩ := d
    have htokens : TokensAlike f strict true tokens tokens' := hc.tokens
    have hfault : fault' = fault.map (CompileError.relocate f) := hc.fault
    cases htokens with
    | cons hab _ => exact .ok (.some (by simpa using hab)) ⟨true, hc⟩
    | nil =>
      subst hfault
      cases fault with
      | none => exact .ok .none ⟨true, hc⟩
      | some e => exact .error (hc.placed e rfl)

theorem alikeAt_of_eatDot {c d c' d' : Cursor} (h : c.Alike f strict d)
    (hc : eatOperator "." c = .ok true c') (hd : eatOperator "." d = .ok true d') :
    c'.AlikeAt f strict true d' := by
  obtain ⟨_, rfl, ⟨-, a, rfl, ha⟩ | ⟨hfalse, -⟩⟩ := (eat_reads _).of_ok _ _ hc
  · obtain ⟨_, rfl, ⟨-, b, rfl, -⟩ | ⟨hfalse, -⟩⟩ := (eat_reads _).of_ok _ _ hd
    · obtain ⟨dot, ⟨htokens, hfault, hplaced, hstop⟩⟩ := h
      cases htokens with
      | cons _ hrest => exact ⟨ha ▸ hrest, hfault, hplaced, hstop⟩
    · cases hfalse
  · cases hfalse

theorem eatDot_relocates {yes no : Parse α} {yes' no' : Parse β}
    (hyes : RelocatesAfterDot f strict S yes yes') (hno : Relocates f strict S no no') :
    Relocates f strict S (do if ← eatOperator "." then yes else no)
      (do if ← eatOperator "." then yes' else no') where
  run c d hc := by
    have heat := (eatOperator_relocates ".").run c d hc
    have hdot : ∀ {c' d'}, eatOperator "." c = .ok true c' → eatOperator "." d = .ok true d' →
        c'.AlikeAt f strict true d' := alikeAt_of_eatDot hc
    change SameOutcome f strict S (EStateM.bind (eatOperator ".") _ c)
      (EStateM.bind (eatOperator ".") _ d)
    unfold EStateM.bind
    generalize eatOperator "." c = x, eatOperator "." d = y at heat hdot ⊢
    cases heat with
    | error hp => exact .error hp
    | @ok found found' _ _ hfound hc' =>
      obtain rfl : found' = found := hfound
      cases found' with
      | true => exact hyes.run _ _ (hdot rfl rfl)
      | false => exact hno.run _ _ hc'

/-! ### Repetition -/

section repetition

variable {r : α → β}

theorem iterate_relocates {step : α → Parse (Option α)} {step' : β → Parse (Option β)}
    (h : ∀ a, Moves f strict (Option.map r) (step a) (step' (r a))) (fuel : Nat) (a : α) :
    Moves f strict r (iterate step fuel a) (iterate step' fuel (r a)) := by
  induction fuel generalizing a with
  | zero => exact .pure rfl
  | succ fuel ih =>
    apply (h a).bind
    intro next
    cases next with
    | some b => exact ih b
    | none => exact .pure rfl

theorem whileSome_relocates {step : α → Parse (Option α)} {step' : β → Parse (Option β)}
    (h : ∀ a, Moves f strict (Option.map r) (step a) (step' (r a))) (a : α) :
    Moves f strict r (whileSome step a) (whileSome step' (r a)) :=
  .of_length (fun n => iterate_relocates h (n + 1) a) (fun _ => rfl) fun _ => rfl

theorem commaSeparated_relocates {item : Parse α} {item' : Parse β}
    (h : Moves f strict r item item') :
    Moves f strict (List.map r) (commaSeparated item) (commaSeparated item') := by
  apply h.bind
  intro first
  apply whileSome_relocates _ [first]
  intro items
  apply (eatOperator_relocates ",").bind
  intro found
  cases found with
  | false => exact .pure rfl
  | true => exact h.bind fun a => .pure (by simp)

end repetition

end Parse

end EmbeddedLang
