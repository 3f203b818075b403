import EmbeddedLang.Proofs.Parser.Reads

/-!
Runs that succeed or fail, step by step.

Where no scan error is ahead, a look past the last token sees that there is none.

A parser decides a grammar where what a production may make of the tokens ahead is a relation between
them, the result and the tokens left: it finds a related result if there is one, and else fails with
an error of a known kind.
-/

namespace EmbeddedLang

variable {α β : Type} {c c' c'' : Cursor} {token : Token} {ts : List Token}

/-- From `c` on, `p` gives `a` and stops at `c'`. -/
def Gives (p : Parse α) (c : Cursor) (a : α) (c' : Cursor) : Prop :=
  p c = .ok a c'

namespace Gives

theorem pure (a : α) (c : Cursor) : Gives (Pure.pure a) c a c := rfl

theorem bind {p : Parse α} {f : α → Parse β} {a : α} {b : β} (hp : Gives p c a c')
    (hf : Gives (f a) c' b c'') : Gives (p >>= f) c b c'' := by
  change EStateM.bind p f c = _
  unfold EStateM.bind
  rw [show p c = .ok a c' from hp]
  exact hf

theorem run?_eq {p : Parse α} {a : α} (h : Gives p c a c') : Parse.run? p c = .ok a := by
  rw [Parse.run?, show p c = .ok a c' from h]

end Gives

/-- From `c` on, `p` ends with this error. -/
def Fails (p : Parse α) (c : Cursor) (e : CompileError) : Prop :=
  ∃ d, p c = .error e d

section Fails

variable {p : Parse α} {f : α → Parse β} {e : CompileError}

theorem Fails.bind (h : Fails p c e) : Fails (p >>= f) c e := by
  obtain ⟨d, hd⟩ := h
  refine ⟨d, ?_⟩
  change EStateM.bind p f c = _
  rw [EStateM.bind, hd]

theorem Gives.bind_fails {a : α} (hp : Gives p c a c') (hf : Fails (f a) c' e) :
    Fails (p >>= f) c e := by
  obtain ⟨d, hd⟩ := hf
  refine ⟨d, ?_⟩
  change EStateM.bind p f c = _
  rw [EStateM.bind, show p c = .ok a c' from hp]
  exact hd

theorem Fails.run?_eq (h : Fails p c e) : Parse.run? p c = .error e := by
  obtain ⟨d, hd⟩ := h
  rw [Parse.run?, hd]

end Fails

namespace Parse

/-! ### Looking ahead -/

theorem peekNth_gives (n : Nat) (h : c.fault = none) : Gives (peekNth n) c c.tokens[n]? c := by
  unfold Gives peekNth
  rw [h]
  cases c.tokens[n]? <;> rfl

theorem peek_gives (h : c.fault = none) : Gives peek c c.tokens.head? c := by
  rw [List.head?_eq_getElem?]
  exact peekNth_gives 0 h

theorem peek_before : Gives peek (c.before (token :: ts)) (some token) (c.before (token :: ts)) :=
  rfl

theorem peekSecond_before {second : Token} : Gives (peekNth 1)
    (c.before (token :: second :: ts)) (some second) (c.before (token :: second :: ts)) :=
  rfl

theorem isEof_gives (h : c.tokens = []) (hf : c.fault = none) : Gives isEof c true c := by
  apply (peek_gives hf).bind
  rw [h]
  exact .pure true c

/-- No token with this property is ahead. -/
def NotAhead (p : Token → Bool) (c : Cursor) : Prop :=
  c.fault = none ∧ ∀ token ∈ c.tokens.head?, p token = false

theorem notAhead_before {p : Token → Bool} (hf : c.fault = none) (hp : p token = false) :
    NotAhead p (c.before (token :: ts)) := by
  refine ⟨hf, fun token' h => ?_⟩
  cases h
  exact hp

theorem at?_true {p : Token → Bool} (hp : p token) :
    Gives (at? p) (c.before (token :: ts)) true (c.before (token :: ts)) := by
  apply peek_before.bind
  change Gives (Pure.pure (p token)) _ _ _
  rw [hp]
  exact .pure true _

theorem at?_false {p : Token → Bool} (h : NotAhead p c) : Gives (at? p) c false c := by
  obtain ⟨hf, hp⟩ := h
  apply (peek_gives hf).bind
  cases hhead : c.tokens.head? with
  | none => exact .pure false c
  | some token =>
    change Gives (Pure.pure (p token)) _ _ _
    rw [hp token hhead]
    exact .pure false c

/-! ### Taking tokens -/

theorem next_gives : Gives next (c.before (token :: ts)) (some token) (c.before ts) := rfl

theorem eat_true {p : Token → Bool} (hp : p token) :
    Gives (eat p) (c.before (token :: ts)) true (c.before ts) := by
  apply (at?_true hp).bind
  exact next_gives.bind (.pure true _)

theorem eat_false {p : Token → Bool} (h : NotAhead p c) : Gives (eat p) c false c :=
  (at?_false h).bind (.pure false c)

theorem expect_gives {p : Token → Bool} {expected : List String} (hp : p token) :
    Gives (expect p expected) (c.before (token :: ts)) token (c.before ts) := by
  apply peek_before.bind
  dsimp only
  rw [if_pos hp]
  exact next_gives.bind (.pure token _)

/-! ### Repetition -/

/-- Steps that all give something new and take at least one token. -/
inductive Steps (step : α → Parse (Option α)) : α → Cursor → α → Cursor → Prop where
  | refl (a : α) (c : Cursor) : Steps step a c a c
  | head {a b a' : α} {c d c' : Cursor} (h : Gives (step a) c (some b) d)
      (hlt : d.tokens.length < c.tokens.length) (hs : Steps step b d a' c') : Steps step a c a' c'

theorem Steps.tail {step : α → Parse (Option α)} {a b b' : α} (hs : Steps step a c b c')
    (h : Gives (step b) c' (some b') c'') (hlt : c''.tokens.length < c'.tokens.length) :
    Steps step a c b' c'' := by
  induction hs with
  | refl => exact .head h hlt (.refl _ _)
  | head h' hlt' _ ih => exact .head h' hlt' (ih h hlt)

theorem iterate_gives {step : α → Parse (Option α)} {a b : α} (hs : Steps step a c b c')
    (h : Gives (step b) c' none c') {fuel : Nat} (hfuel : c.tokens.length < fuel) :
    Gives (iterate step fuel a) c b c' := by
  induction hs generalizing fuel with
  | refl a c =>
    cases fuel with
    | zero => exact absurd hfuel (Nat.not_lt_zero _)
    | succ fuel => exact h.bind (.pure a c)
  | head hstep hlt _ ih =>
    cases fuel with
    | zero => exact absurd hfuel (Nat.not_lt_zero _)
    | succ fuel => exact hstep.bind (ih h (by omega))

/-- Enough steps are allowed, as each takes a token. -/
theorem whileSome_gives {step : α → Parse (Option α)} {a b : α} (hs : Steps step a c b c')
    (h : Gives (step b) c' none c') : Gives (whileSome step a) c b c' :=
  iterate_gives hs h (Nat.lt_succ_self _)

theorem whileSome_fails {step : α → Parse (Option α)} {a : α} {e : CompileError}
    (h : Fails (step a) c e) : Fails (whileSome step a) c e := by
  have hiterate : Fails (iterate step (c.tokens.length + 1) a) c e := h.bind
  exact hiterate

end Parse

/-! ### Parsers that decide a grammar -/

section decides

variable {α β : Type}

/-- On `ts`, which stand before `c`, the parser `p` reads what `good` relates, or fails as `Bad`
says. -/
structure Decides (Bad : CompileError → Prop) (c : Cursor) (p : Parse α) (ts : List Token)
    (good : α → List Token → Prop) : Prop where
  accepts {a : α} {rest : List Token} (h : good a rest) : Gives p (c.before ts) a (c.before rest)
  refuses (h : ∀ a rest, ¬ good a rest) : ∃ e d, p (c.before ts) = .error e d ∧ Bad e

namespace Decides

variable {Bad : CompileError → Prop} {c : Cursor} {p : Parse α} {ts us : List Token}
  {good : α → List Token → Prop}

theorem congr (h : Decides Bad c p ts good) {good' : α → List Token → Prop}
    (heq : ∀ a rest, good a rest ↔ good' a rest) : Decides Bad c p ts good' := by
  have hgood : good = good' := funext fun a => funext fun rest => propext (heq a rest)
  exact hgood ▸ h

theorem of_gives {a : α} (h : Gives p (c.before ts) a (c.before us)) :
    Decides Bad c p ts fun b rest => b = a ∧ rest = us where
  accepts := by
    rintro _ _ ⟨rfl, rfl⟩
    exact h
  refuses hnone := absurd ⟨rfl, rfl⟩ (hnone a us)

theorem pure (a : α) : Decides Bad c (Pure.pure a) ts fun b rest => b = a ∧ rest = ts :=
  of_gives (.pure a _)

theorem error {e : CompileError} {d : Cursor} (hp : p (c.before ts) = .error e d) (he : Bad e)
    (hnone : ∀ a rest, ¬ good a rest) : Decides Bad c p ts good where
  accepts h := absurd h (hnone _ _)
  refuses _ := ⟨e, d, hp, he⟩

/-- Which of the related results is read may be told by an index, on which the rest depends. -/
theorem bind {ι : Type} {f : α → Parse β} {first : ι → α → List Token → Prop}
    (hp : Decides Bad c p ts fun a us => ∃ i, first i a us) (next : ι → β → List Token → Prop)
    (hf : ∀ i a us, first i a us → Decides Bad c (f a) us (next i)) :
    Decides Bad c (p >>= f) ts fun b rest => ∃ i, (∃ a us, first i a us) ∧ next i b rest where
  accepts := by
    rintro b rest ⟨i, ⟨a, us, ha⟩, hb⟩
    exact (hp.accepts ⟨i, ha⟩).bind ((hf i a us ha).accepts hb)
  refuses hnone := by
    change ∃ e d, EStateM.bind p f (c.before ts) = _ ∧ Bad e
    unfold EStateM.bind
    by_cases hfirst : ∃ a us i, first i a us
    · obtain ⟨a, us, i, ha⟩ := hfirst
      rw [show p (c.before ts) = .ok a (c.before us) from hp.accepts ⟨i, ha⟩]
      exact (hf i a us ha).refuses fun b rest hb => hnone b rest ⟨i, ⟨a, us, ha⟩, hb⟩
    · obtain ⟨e, d, herror, he⟩ := hp.refuses fun a us ⟨i, ha⟩ => hfirst ⟨a, us, i, ha⟩
      rw [herror]
      exact ⟨e, d, rfl, he⟩

theorem map (hp : Decides Bad c p ts good) (f : α → β) :
    Decides Bad c (p >>= fun a => Pure.pure (f a)) ts
      fun b rest => ∃ a, good a rest ∧ b = f a := by
  have hindex : Decides Bad c p ts fun a us => ∃ i : α × List Token, good a us ∧ i = (a, us) :=
    hp.congr fun a us => ⟨fun h => ⟨(a, us), h, rfl⟩, fun ⟨_, h, _⟩ => h⟩
  refine (hindex.bind (fun i b rest => b = f i.1 ∧ rest = i.2) ?_).congr fun b rest => ?_
  · rintro _ a us ⟨-, rfl⟩
    exact .pure (f a)
  · constructor
    · rintro ⟨_, ⟨a, us, h, rfl⟩, rfl, rfl⟩
      exact ⟨a, h, rfl⟩
    · rintro ⟨a, h, rfl⟩
      exact ⟨(a, rest), ⟨a, rest, h, rfl⟩, rfl, rfl⟩

theorem after {f : α → Parse β} {a : α} {next : β → List Token → Prop}
    (hp : Gives p (c.before ts) a (c.before us)) (hf : Decides Bad c (f a) us next) :
    Decides Bad c (p >>= f) ts next where
  accepts h := hp.bind (hf.accepts h)
  refuses hnone := by
    obtain ⟨e, d, herror, he⟩ := hf.refuses hnone
    refine ⟨e, d, ?_, he⟩
    change EStateM.bind p f (c.before ts) = _
    unfold EStateM.bind
    rw [show p (c.before ts) = .ok a (c.before us) from hp]
    exact herror

theorem whileSome {step : α → Parse (Option α)} {a : α} {f : α → Parse β}
    {next : β → List Token → Prop}
    (h : Decides Bad c (Parse.iterate step ((ts ++ c.tokens).length + 1) a >>= f) ts next) :
    Decides Bad c (Parse.whileSome step a >>= f) ts next where
  accepts := h.accepts
  refuses := h.refuses

theorem good_of_gives (h : Decides Bad c p ts good) {a : α} {d : Cursor}
    (hp : Gives p (c.before ts) a d) : ∃ rest, good a rest ∧ d = c.before rest := by
  by_cases hgood : ∃ b us, good b us
  · obtain ⟨b, us, hb⟩ := hgood
    have hok : (EStateM.Result.ok b (c.before us) : EStateM.Result CompileError Cursor α) =
        .ok a d := (h.accepts hb).symm.trans hp
    cases hok
    exact ⟨us, hb, rfl⟩
  · obtain ⟨e, d', herror, -⟩ := h.refuses fun b us hb => hgood ⟨b, us, hb⟩
    have hfalse : (EStateM.Result.error e d' : EStateM.Result CompileError Cursor α) = .ok a d :=
      herror.symm.trans hp
    cases hfalse

end Decides

end decides

end EmbeddedLang
