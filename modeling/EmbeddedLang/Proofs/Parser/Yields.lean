import EmbeddedLang.Parser.Cursor
import EmbeddedLang.Parser.Grammar

/-!
What a parser gives, and which tokens it looks at.

A parser only moves forward, so what it leaves is an end of the tokens `ts` that it started in.

Where only the result matters, nothing is asked of the parsers whose results do not. A production is
then gone through at the places where its result is made.
-/

namespace EmbeddedLang

variable {α β : Type} {P : α → Prop} {Q : β → Prop} {ts : List Token}

theorem forall_mem_none {α : Type} {P : α → Prop} : ∀ a ∈ (none : Option α), P a := by
  intro a h
  cases h

theorem forall_mem_some {α : Type} {P : α → Prop} {a : α} (h : P a) : ∀ b ∈ some a, P b := by
  intro b hb
  cases hb
  exact h

structure Yields (ts : List Token) (P : α → Prop) (p : Parse α) : Prop where
  of_ok : ∀ c, c.tokens <:+ ts → ∀ a c', p c = .ok a c' → c'.tokens <:+ ts ∧ P a

/-- Nothing is said of the result. -/
abbrev Passes (ts : List Token) (p : Parse α) : Prop :=
  Yields ts (fun _ => True) p

namespace Yields

theorem pure {a : α} (h : P a) : Yields ts P (Pure.pure a) where
  of_ok c hc b c' hb := by
    cases hb
    exact ⟨hc, h⟩

theorem throw (e : CompileError) : Yields ts P (throw e : Parse α) where
  of_ok c hc b c' hb := by cases hb

theorem bind {p : Parse α} {f : α → Parse β} (hp : Yields ts P p)
    (hf : ∀ a, P a → Yields ts Q (f a)) : Yields ts Q (p >>= f) where
  of_ok c hc b c' h := by
    change EStateM.bind p f c = _ at h
    unfold EStateM.bind at h
    cases hpc : p c with
    | error e d =>
      rw [hpc] at h
      cases h
    | ok a d =>
      rw [hpc] at h
      obtain ⟨hd, ha⟩ := hp.of_ok c hc a d hpc
      exact (hf a ha).of_ok d hd b c' h

theorem imp {P' : α → Prop} {p : Parse α} (hp : Yields ts P p) (h : ∀ a, P a → P' a) :
    Yields ts P' p where
  of_ok c hc a c' ha := by
    obtain ⟨hc', hpa⟩ := hp.of_ok c hc a c' ha
    exact ⟨hc', h a hpa⟩

theorem map {f : α → β} {p : Parse α} (hp : Yields ts P p) (hf : ∀ a, P a → Q (f a)) :
    Yields ts Q (f <$> p) := by
  rw [map_eq_pure_bind]
  apply hp.bind
  intro a ha
  exact pure (hf a ha)

/-- A rule that may look at the cursor it starts from. -/
theorem of_start {p : Parse α} {rule : Cursor → Parse α} (h : ∀ c, Yields ts P (rule c))
    (hp : ∀ c, p c = rule c c) : Yields ts P p where
  of_ok c hc a c' ha := by
    rw [hp] at ha
    exact (h c).of_ok c hc a c' ha

end Yields

namespace Parse

/-! ### Tokens -/

theorem peekNth_yields (n : Nat) : Yields ts (fun o => ∀ token ∈ o, token ∈ ts) (peekNth n) where
  of_ok c hc o c' h := by
    unfold peekNth at h
    split at h
    · rename_i token hn
      cases h
      refine ⟨hc, fun token ht => ?_⟩
      cases ht
      exact hc.subset (List.mem_of_getElem? hn)
    · cases h
      exact ⟨hc, fun token ht => by cases ht⟩
    · cases h

theorem peek_yields : Yields ts (fun o => ∀ token ∈ o, token ∈ ts) peek :=
  peekNth_yields 0

theorem drop_yields (n : Nat) :
    Passes ts (modify fun c => { c with tokens := c.tokens.drop n } : Parse Unit) where
  of_ok c hc _ c' h := by
    cases h
    exact ⟨(List.drop_suffix n c.tokens).trans hc, trivial⟩

theorem next_yields : Yields ts (fun o => ∀ token ∈ o, token ∈ ts) next := by
  apply peek_yields.bind
  intro o ho
  apply (drop_yields 1).bind
  intro _ _
  exact .pure ho

theorem isEof_yields : Passes ts isEof :=
  peek_yields.bind fun _ _ => .pure trivial

theorem get_yields : Passes ts (get : Parse Cursor) where
  of_ok c hc a c' h := by
    cases h
    exact ⟨hc, trivial⟩

theorem position_yields : Passes ts position := by
  apply peek_yields.bind
  intro o _
  cases o with
  | some token => exact .pure trivial
  | none => exact get_yields.bind fun _ _ => .pure trivial

theorem expectedHere_yields (expected : List String) : Passes ts (expectedHere expected) where
  of_ok c hc e c' h := by
    unfold expectedHere at h
    have hpeek : ∀ o d, peek c = .ok o d → d.tokens <:+ ts := by
      intro o d hd
      exact (peek_yields.of_ok c hc o d hd).1
    split at h
    · rename_i token d hd
      cases h
      exact ⟨hpeek _ _ hd, trivial⟩
    · rename_i d hd
      cases h
      exact ⟨hpeek _ _ hd, trivial⟩
    · rename_i e d hd
      cases h
      refine ⟨?_, trivial⟩
      unfold peek peekNth at hd
      split at hd
      · cases hd
      · cases hd
      · cases hd
        exact hc

theorem failExpected_yields (expected : List String) : Yields ts P (failExpected expected) :=
  (expectedHere_yields expected).bind fun e _ => .throw e

theorem at?_yields (p : Token → Bool) : Passes ts (at? p) :=
  peek_yields.bind fun _ _ => .pure trivial

theorem eat_yields (p : Token → Bool) : Passes ts (eat p) := by
  apply (at?_yields p).bind
  intro b _
  cases b with
  | true => exact next_yields.bind fun _ _ => .pure trivial
  | false => exact .pure trivial

theorem expect_yields (p : Token → Bool) (expected : List String) :
    Yields ts (fun token => token ∈ ts ∧ p token) (expect p expected) := by
  apply peek_yields.bind
  intro o ho
  cases o with
  | none => exact failExpected_yields expected
  | some token =>
    dsimp only
    split
    · rename_i hp
      apply next_yields.bind
      intro _ _
      exact .pure ⟨ho token rfl, hp⟩
    · exact failExpected_yields expected

theorem eatKeyword_yields (word : String) : Passes ts (eatKeyword word) :=
  eat_yields _

theorem eatOperator_yields (op : String) : Passes ts (eatOperator op) :=
  eat_yields _

theorem expectKeyword_yields (word : String) : Passes ts (expectKeyword word) :=
  (expect_yields _ _).imp fun _ _ => trivial

theorem expectOperator_yields (op : String) : Passes ts (expectOperator op) :=
  (expect_yields _ _).imp fun _ _ => trivial

theorem expectIdentifier_yields : Yields ts
    (fun found => ∃ token ∈ ts, token.isIdentifier ∧ found.1 = token.name) expectIdentifier := by
  apply (expect_yields _ _).bind
  rintro token ⟨ht, hi⟩
  exact .pure ⟨token, ht, hi, rfl⟩

/-! ### Repetition -/

theorem iterate_yields {step : α → Parse (Option α)}
    (h : ∀ a, P a → Yields ts (fun o => ∀ b ∈ o, P b) (step a)) (fuel : Nat) {a : α} (ha : P a) :
    Yields ts P (iterate step fuel a) := by
  induction fuel generalizing a with
  | zero => exact .pure ha
  | succ fuel ih =>
    apply (h a ha).bind
    intro o ho
    cases o with
    | none => exact .pure ha
    | some b => exact ih (ho b rfl)

theorem whileSome_yields {step : α → Parse (Option α)}
    (h : ∀ a, P a → Yields ts (fun o => ∀ b ∈ o, P b) (step a)) {a : α} (ha : P a) :
    Yields ts P (whileSome step a) := by
  have hrule (c : Cursor) : Yields ts P (iterate step (c.tokens.length + 1) a) :=
    iterate_yields h _ ha
  exact .of_start hrule fun _ => rfl

theorem commaSeparated_nonempty {item : Parse α} (h : Yields ts P item) :
    Yields ts (fun items => items ≠ [] ∧ ∀ a ∈ items, P a) (commaSeparated item) := by
  apply h.bind
  intro first hfirst
  refine whileSome_yields ?_ ⟨List.cons_ne_nil _ _, List.forall_mem_singleton.mpr hfirst⟩
  rintro items ⟨hne, hitems⟩
  apply (eatOperator_yields ",").bind
  intro b _
  cases b with
  | false => exact .pure fun _ h => by cases h
  | true =>
    apply h.bind
    intro a ha
    apply Yields.pure
    intro items' h'
    cases h'
    refine ⟨List.append_ne_nil_of_left_ne_nil hne _, ?_⟩
    exact List.forall_mem_append.mpr ⟨hitems, List.forall_mem_singleton.mpr ha⟩

theorem commaSeparated_yields {item : Parse α} (h : Yields ts P item) :
    Yields ts (fun items => ∀ a ∈ items, P a) (commaSeparated item) :=
  (commaSeparated_nonempty h).imp fun _ hitems => hitems.2

end Parse

/-! ### Results alone -/

structure Finds (P : α → Prop) (p : Parse α) : Prop where
  of_ok : ∀ c a c', p c = .ok a c' → P a

namespace Finds

theorem pure {a : α} (h : P a) : Finds P (Pure.pure a) where
  of_ok c b c' hb := by
    cases hb
    exact h

theorem throw (e : CompileError) : Finds P (throw e : Parse α) where
  of_ok c b c' hb := by cases hb

theorem any (p : Parse α) : Finds (fun _ => True) p where
  of_ok _ _ _ _ := trivial

theorem bind {p : Parse α} {f : α → Parse β} (hp : Finds P p) (hf : ∀ a, P a → Finds Q (f a)) :
    Finds Q (p >>= f) where
  of_ok c b c' h := by
    change EStateM.bind p f c = _ at h
    unfold EStateM.bind at h
    cases hpc : p c with
    | error e d =>
      rw [hpc] at h
      cases h
    | ok a d =>
      rw [hpc] at h
      exact (hf a (hp.of_ok c a d hpc)).of_ok d b c' h

theorem after {p : Parse α} {f : α → Parse β} (hf : ∀ a, Finds Q (f a)) : Finds Q (p >>= f) :=
  (any p).bind fun a _ => hf a

theorem map {f : α → β} {p : Parse α} (hp : Finds P p) (hf : ∀ a, P a → Q (f a)) :
    Finds Q (f <$> p) := by
  rw [map_eq_pure_bind]
  exact hp.bind fun a ha => pure (hf a ha)

theorem imp {P' : α → Prop} {p : Parse α} (hp : Finds P p) (h : ∀ a, P a → P' a) : Finds P' p where
  of_ok c a c' ha := h a (hp.of_ok c a c' ha)

theorem failExpected (expected : List String) : Finds P (Parse.failExpected expected) :=
  after fun _ => throw _

theorem iterate {step : α → Parse (Option α)}
    (h : ∀ a, P a → Finds (fun o => ∀ b ∈ o, P b) (step a)) (fuel : Nat) {a : α} (ha : P a) :
    Finds P (Parse.iterate step fuel a) := by
  induction fuel generalizing a with
  | zero => exact pure ha
  | succ fuel ih =>
    apply (h a ha).bind
    intro o ho
    cases o with
    | none => exact pure ha
    | some b => exact ih (ho b rfl)

theorem whileSome {step : α → Parse (Option α)}
    (h : ∀ a, P a → Finds (fun o => ∀ b ∈ o, P b) (step a)) {a : α} (ha : P a) :
    Finds P (Parse.whileSome step a) where
  of_ok c b c' hb := (iterate h (c.tokens.length + 1) ha).of_ok c b c' hb

theorem commaSeparated {item : Parse α} (h : Finds P item) :
    Finds (fun items => ∀ a ∈ items, P a) (Parse.commaSeparated item) := by
  apply h.bind
  intro first hfirst
  refine whileSome ?_ (List.forall_mem_singleton.mpr hfirst)
  intro items hitems
  apply after
  intro b
  cases b with
  | false => exact pure forall_mem_none
  | true =>
    apply h.bind
    intro a ha
    apply pure
    exact forall_mem_some (List.forall_mem_append.mpr ⟨hitems, List.forall_mem_singleton.mpr ha⟩)

/-! What follows need only be the same for what is found. -/

theorem bind_congr {p : Parse α} {f f' : α → Parse β} (hp : Finds P p)
    (h : ∀ a, P a → f a = f' a) : p >>= f = p >>= f' := by
  funext c
  change EStateM.bind p f c = EStateM.bind p f' c
  unfold EStateM.bind
  cases hc : p c with
  | error e d => rfl
  | ok a d => exact congrFun (h a (hp.of_ok c a d hc)) d

theorem iterate_congr {step step' : α → Parse (Option α)}
    (hstep : ∀ a, P a → Finds (fun o => ∀ b ∈ o, P b) (step a)) (h : ∀ a, P a → step' a = step a)
    (fuel : Nat) {a : α} (ha : P a) :
    Parse.iterate step' fuel a = Parse.iterate step fuel a := by
  induction fuel generalizing a with
  | zero => rfl
  | succ fuel ih =>
    rw [Parse.iterate, Parse.iterate, h a ha]
    apply (hstep a ha).bind_congr
    intro o ho
    cases o with
    | none => rfl
    | some b => exact ih (ho b rfl)

theorem whileSome_congr {step step' : α → Parse (Option α)}
    (hstep : ∀ a, P a → Finds (fun o => ∀ b ∈ o, P b) (step a)) (h : ∀ a, P a → step' a = step a)
    {a : α} (ha : P a) : Parse.whileSome step' a = Parse.whileSome step a :=
  funext fun c => congrFun (iterate_congr hstep h (c.tokens.length + 1) ha) c

end Finds

end EmbeddedLang
