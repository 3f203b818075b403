import EmbeddedLang.Parser.Expression
import EmbeddedLang.Parser.Grammar

/-!
Which tokens a parser takes for what it gives.

A parser that succeeds has taken some tokens off the front, and nothing else of its cursor has
changed: a scan error behind the tokens, once reported, is a failure.
-/

namespace EmbeddedLang

/-- The cursor that is left when `ts` are taken off the front is `c`. -/
def Cursor.before (ts : List Token) (c : Cursor) : Cursor :=
  { c with tokens := ts ++ c.tokens }

@[simp] theorem Cursor.before_nil (c : Cursor) : c.before [] = c := rfl

@[simp] theorem Cursor.tokens_before (ts : List Token) (c : Cursor) :
    (c.before ts).tokens = ts ++ c.tokens := rfl

@[simp] theorem Cursor.fault_before (ts : List Token) (c : Cursor) :
    (c.before ts).fault = c.fault := rfl

@[simp] theorem Cursor.before_before (ts us : List Token) (c : Cursor) :
    (c.before us).before ts = c.before (ts ++ us) := by
  unfold before
  rw [List.append_assoc]

theorem Cursor.tokens_of_before_take {n : Nat} {c c' : Cursor}
    (h : c = c'.before (c.tokens.take n)) : c'.tokens = c.tokens.drop n := by
  have happend : c.tokens.take n ++ c'.tokens = c.tokens.take n ++ c.tokens.drop n := by
    rw [List.take_append_drop]
    exact (congrArg tokens h).symm
  exact List.append_cancel_left happend

theorem Cursor.eq_before_take (n : Nat) (c : Cursor) :
    c = ({ c with tokens := c.tokens.drop n } : Cursor).before (c.tokens.take n) := by
  unfold before
  rw [List.take_append_drop]

variable {α β : Type} {P : α → List Token → Prop} {Q : β → List Token → Prop} {c : Cursor}

/-- From `c` on, what `p` gives stands in a relation to the tokens that it takes. -/
structure Reads (c : Cursor) (P : α → List Token → Prop) (p : Parse α) : Prop where
  of_ok : ∀ a c', p c = .ok a c' → ∃ ts, c = c'.before ts ∧ P a ts

namespace Reads

theorem pure {a : α} (h : P a []) : Reads c P (Pure.pure a) where
  of_ok b c' hb := by
    cases hb
    exact ⟨[], rfl, h⟩

theorem throw (e : CompileError) : Reads c P (throw e : Parse α) where
  of_ok b c' hb := by cases hb

theorem bind {p : Parse α} {f : α → Parse β} (hp : Reads c P p)
    (hf : ∀ a ts c', c = c'.before ts → P a ts → Reads c' (fun b us => Q b (ts ++ us)) (f a)) :
    Reads c Q (p >>= f) where
  of_ok b c'' h := by
    change EStateM.bind p f c = _ at h
    unfold EStateM.bind at h
    cases hpc : p c with
    | error e d =>
      rw [hpc] at h
      cases h
    | ok a d =>
      rw [hpc] at h
      obtain ⟨ts, hc, ha⟩ := hp.of_ok a d hpc
      obtain ⟨us, hd, hb⟩ := (hf a ts d hc ha).of_ok b c'' h
      refine ⟨ts ++ us, ?_, hb⟩
      rw [hc, hd, Cursor.before_before]

theorem bind_throw {p : Parse α} {f : α → CompileError} :
    Reads c Q (p >>= fun a => MonadExcept.throw (f a)) where
  of_ok b c' h := by
    change EStateM.bind _ _ c = _ at h
    unfold EStateM.bind at h
    split at h <;> cases h

theorem imp {P' : α → List Token → Prop} {p : Parse α} (hp : Reads c P p)
    (h : ∀ a ts, P a ts → P' a ts) : Reads c P' p where
  of_ok a c' ha := by
    obtain ⟨ts, hc, hts⟩ := hp.of_ok a c' ha
    exact ⟨ts, hc, h a ts hts⟩

/-- What is made of the last result takes nothing more. -/
theorem bind_pure {f : α → β} {p : Parse α} (hp : Reads c P p)
    (hf : ∀ a ts, P a ts → Q (f a) ts) : Reads c Q (p >>= fun a => Pure.pure (f a)) := by
  apply hp.bind
  intro a ts _ _ ha
  apply pure
  rw [List.append_nil]
  exact hf a ts ha

theorem map {f : α → β} {p : Parse α} (hp : Reads c P p) (hf : ∀ a ts, P a ts → Q (f a) ts) :
    Reads c Q (f <$> p) := by
  rw [map_eq_pure_bind]
  exact hp.bind_pure hf

theorem of_start {p : Parse α} (rule : Cursor → Parse α) (h : Reads c P (rule c))
    (hp : p c = rule c c) : Reads c P p where
  of_ok a c' ha := by
    rw [hp] at ha
    exact h.of_ok a c' ha

end Reads

namespace Parse

/-! ### Looking ahead -/

/-- A look takes nothing. If there is no token to see, there is no scan error either. -/
theorem peekNth_reads (n : Nat) : Reads c
    (fun o ts => ts = [] ∧ o = c.tokens[n]? ∧ (o = none → c.fault = none)) (peekNth n) where
  of_ok o c' ho := by
    unfold peekNth at ho
    split at ho
    · rename_i token hn
      cases ho
      exact ⟨[], rfl, rfl, hn.symm, fun h => by cases h⟩
    · rename_i hn hfault
      cases ho
      exact ⟨[], rfl, rfl, hn.symm, fun _ => hfault⟩
    · cases ho

theorem peekNth_bind {n : Nat} {f : Option Token → Parse β}
    (h : ∀ o, o = c.tokens[n]? → (o = none → c.fault = none) → Reads c Q (f o)) :
    Reads c Q (peekNth n >>= f) := by
  apply (peekNth_reads n).bind
  rintro o ts c' hc ⟨rfl, ho, hfault⟩
  cases hc
  exact h o ho hfault

theorem peek_bind {f : Option Token → Parse β}
    (h : ∀ o, o = c.tokens.head? → (o = none → c.fault = none) → Reads c Q (f o)) :
    Reads c Q (peek >>= f) := by
  apply peekNth_bind
  intro o ho
  rw [← List.head?_eq_getElem?] at ho
  exact h o ho

theorem isEof_reads : Reads c
    (fun b ts => ts = [] ∧ (b = true → c.tokens = [] ∧ c.fault = none)) isEof := by
  apply peek_bind
  intro o ho hfault
  refine .pure ⟨rfl, fun h => ?_⟩
  have hnone : o = none := Option.isNone_iff_eq_none.mp h
  exact ⟨List.head?_eq_none_iff.mp (ho.symm.trans hnone), hfault hnone⟩

theorem at?_reads (p : Token → Bool) : Reads c
    (fun b ts => ts = [] ∧ (b = true → ∃ token rest, c.tokens = token :: rest ∧ p token))
    (at? p) := by
  apply peek_bind
  intro o ho _
  refine .pure ⟨rfl, fun h => ?_⟩
  cases o with
  | none => cases h
  | some token =>
    obtain ⟨rest, htokens⟩ := List.head?_eq_some_iff.mp ho.symm
    exact ⟨token, rest, htokens, h⟩

/-! ### Taking tokens -/

theorem drop_reads (n : Nat) : Reads c (fun _ ts => ts = c.tokens.take n)
    (modify fun c => { c with tokens := c.tokens.drop n } : Parse Unit) where
  of_ok _ c' h := by
    cases h
    exact ⟨c.tokens.take n, c.eq_before_take n, rfl⟩

theorem next_reads : Reads c (fun _ ts => ts = c.tokens.take 1) next := by
  apply peek_bind
  intro o _ _
  apply (drop_reads 1).bind
  intro _ ts c' _ hts
  apply Reads.pure
  rw [List.append_nil, hts]

theorem next_bind {token : Token} {f : Option Token → Parse β} (h : c.tokens.head? = some token)
    (hf : ∀ o c', c = c'.before [token] → Reads c' (fun b us => Q b (token :: us)) (f o)) :
    Reads c Q (next >>= f) := by
  apply next_reads.bind
  intro o ts c' hc hts
  obtain ⟨rest, htokens⟩ := List.head?_eq_some_iff.mp h
  rw [htokens] at hts
  cases hts
  exact hf o c' hc

theorem failExpected_reads (expected : List String) : Reads c P (failExpected expected) :=
  .bind_throw

theorem eat_reads (p : Token → Bool) : Reads c
    (fun b ts => (b = true ∧ ∃ token, ts = [token] ∧ p token) ∨ (b = false ∧ ts = []))
    (eat p) := by
  apply (at?_reads p).bind
  rintro b ts c' hc ⟨rfl, hb⟩
  cases hc
  cases b with
  | false => exact .pure (.inr ⟨rfl, rfl⟩)
  | true =>
    obtain ⟨token, rest, htokens, hp⟩ := hb rfl
    apply next_bind (List.head?_eq_some_iff.mpr ⟨rest, htokens⟩)
    intro _ _ _
    exact .pure (.inl ⟨rfl, token, rfl, hp⟩)

theorem expect_reads (p : Token → Bool) (expected : List String) :
    Reads c (fun token ts => ts = [token] ∧ p token) (expect p expected) := by
  apply peek_bind
  intro o ho _
  cases o with
  | none => exact failExpected_reads expected
  | some token =>
    dsimp only
    split
    · rename_i hp
      apply next_bind ho.symm
      intro _ _ _
      exact .pure ⟨rfl, hp⟩
    · exact failExpected_reads expected

/-! ### Repetition -/

section loops

variable {I : α → List Token → Prop} {step : α → Parse (Option α)} {a : α} {us : List Token}

/-- What a step keeps of what is read so far, given what it reads itself. -/
theorem iterate_takes
    (hstep : ∀ a us c, I a us → Reads c (fun o ts => I (o.getD a) (us ++ ts)) (step a))
    (fuel : Nat) (h : I a us) : Reads c (fun b ts => I b (us ++ ts)) (iterate step fuel a) := by
  induction fuel generalizing a us c with
  | zero =>
    apply Reads.pure
    rwa [List.append_nil]
  | succ fuel ih =>
    apply (hstep a us c h).bind
    intro o ts c' _ ho
    cases o with
    | some b =>
      apply (ih ho).imp
      intro b ws hws
      rwa [← List.append_assoc]
    | none =>
      apply Reads.pure
      rwa [List.append_nil]

theorem whileSome_takes
    (hstep : ∀ a us c, I a us → Reads c (fun o ts => I (o.getD a) (us ++ ts)) (step a))
    (h : I a us) : Reads c (fun b ts => I b (us ++ ts)) (whileSome step a) :=
  .of_start (fun c => iterate step (c.tokens.length + 1) a) (iterate_takes hstep _ h) rfl

/-- A step that gives nothing takes nothing. -/
theorem whileSome_reads
    (hstep : ∀ a us c, I a us → Reads c
      (fun o ts => (∃ b, o = some b ∧ I b (us ++ ts)) ∨ (o = none ∧ ts = [])) (step a))
    (h : I a us) : Reads c (fun b ts => I b (us ++ ts)) (whileSome step a) := by
  refine whileSome_takes (fun a us c ha => ?_) h
  apply (hstep a us c ha).imp
  rintro o ts (⟨b, rfl, hb⟩ | ⟨rfl, rfl⟩)
  · exact hb
  · rwa [List.append_nil]

end loops

end Parse

/-! ### Operators ahead -/

namespace Grammar

open Parse

variable {g : Grammar} {c : Cursor}

/-- The tokens from the `n`-th on are these symbols. -/
def SymbolsAt (c : Cursor) (n : Nat) (symbols : List String) : Prop :=
  ((c.tokens.drop n).take symbols.length).map Token.symbol? = symbols.map some

theorem SymbolsAt.nonempty {symbols : List String} (h : SymbolsAt c 0 symbols)
    (hne : symbols ≠ []) : c.tokens ≠ [] := by
  intro hnil
  unfold SymbolsAt at h
  rw [hnil, List.drop_nil, List.take_nil] at h
  exact hne (List.map_eq_nil_iff.mp h.symm)

theorem spells_reads {n : Nat} {symbols : List String} :
    Reads c (fun b ts => ts = [] ∧ (b = true → SymbolsAt c n symbols)) (spells n symbols) := by
  induction symbols generalizing n with
  | nil => exact .pure ⟨rfl, fun _ => rfl⟩
  | cons symbol rest ih =>
    apply peekNth_bind
    intro o ho _
    split
    · rename_i hsymbol
      obtain ⟨token, rfl, hs⟩ := Option.bind_eq_some_iff.mp hsymbol
      apply ih.imp
      rintro b ts ⟨rfl, h⟩
      refine ⟨rfl, fun hb => ?_⟩
      obtain ⟨hlt, htoken⟩ := List.getElem?_eq_some_iff.mp ho.symm
      have hrest : SymbolsAt c (n + 1) rest := h hb
      unfold SymbolsAt at hrest ⊢
      rw [List.drop_eq_getElem_cons hlt, htoken, List.length_cons, List.take_succ_cons,
        List.map_cons, List.map_cons, hs, hrest]
    · exact .pure ⟨rfl, fun h => by cases h⟩

theorem longestOf_reads {specs : List OperatorSpec} (hs : specs ⊆ g.binaryOps)
    {best : Option OperatorSpec}
    (hbest : ∀ spec ∈ best, spec ∈ g.binaryOps ∧ SymbolsAt c 0 spec.tokens) :
    Reads c (fun o ts => ts = [] ∧
      ∀ spec ∈ o, spec ∈ g.binaryOps ∧ SymbolsAt c 0 spec.tokens) (longestOf best specs) := by
  induction specs generalizing best with
  | nil => exact .pure ⟨rfl, hbest⟩
  | cons spec rest ih =>
    obtain ⟨hspec, hrest⟩ := List.cons_subset.mp hs
    rw [longestOf]
    split
    · apply spells_reads.bind
      rintro b ts c' hc ⟨rfl, hb⟩
      cases hc
      split
      · rename_i hspells
        apply ih hrest
        intro spec' h'
        cases h'
        exact ⟨hspec, hb hspells⟩
      · exact ih hrest hbest
    · exact ih hrest hbest

theorem operatorAhead_reads : Reads c (fun o ts => ts = [] ∧
    ∀ spec ∈ o, spec ∈ g.binaryOps ∧ SymbolsAt c 0 spec.tokens) g.operatorAhead :=
  longestOf_reads (List.Subset.refl _) fun _ h => by cases h

theorem takeTokens_reads (n : Nat) :
    Reads c (fun _ ts => ts = c.tokens.take n) (takeTokens n) := by
  induction n generalizing c with
  | zero => exact .pure rfl
  | succ n ih =>
    apply next_reads.bind
    rintro _ ts c' hc rfl
    apply ih.imp
    rintro _ us rfl
    rw [Cursor.tokens_of_before_take hc, Nat.add_comm n 1, List.take_add]

end Grammar

end EmbeddedLang
