import EmbeddedLang.Proofs.Parser.Reads
import EmbeddedLang.Proofs.Parser.Yields

/-!
What a parser gives, and where it stops.

The other accounts of success follow: tokens taken off the front, or a result whose place does not
matter.
-/

namespace EmbeddedLang

variable {α β : Type} {c : Cursor} {P : α → Cursor → Prop} {Q : β → Cursor → Prop}

/-- From `c` on, what `p` gives stands in a relation to the cursor that it leaves. -/
structure Reaches (c : Cursor) (P : α → Cursor → Prop) (p : Parse α) : Prop where
  of_ok : ∀ a c', p c = .ok a c' → P a c'

namespace Reaches

theorem pure {a : α} (h : P a c) : Reaches c P (Pure.pure a) where
  of_ok b c' hb := by
    cases hb
    exact h

theorem throw (e : CompileError) : Reaches c P (throw e : Parse α) where
  of_ok b c' hb := by cases hb

theorem bind_ok {p : Parse α} {f : α → Parse β}
    (hf : ∀ a c', p c = .ok a c' → Reaches c' Q (f a)) : Reaches c Q (p >>= f) where
  of_ok b c'' h := by
    change EStateM.bind p f c = _ at h
    unfold EStateM.bind at h
    cases hpc : p c with
    | error e d =>
      rw [hpc] at h
      cases h
    | ok a d =>
      rw [hpc] at h
      exact (hf a d hpc).of_ok b c'' h

theorem bind {p : Parse α} {f : α → Parse β} (hp : Reaches c P p)
    (hf : ∀ a c', P a c' → Reaches c' Q (f a)) : Reaches c Q (p >>= f) :=
  bind_ok fun a c' h => hf a c' (hp.of_ok a c' h)

theorem imp {P' : α → Cursor → Prop} {p : Parse α} (hp : Reaches c P p)
    (h : ∀ a c', P a c' → P' a c') : Reaches c P' p where
  of_ok a c' ha := h a c' (hp.of_ok a c' ha)

theorem map {f : α → β} {p : Parse α} (hp : Reaches c P p) (hf : ∀ a c', P a c' → Q (f a) c') :
    Reaches c Q (f <$> p) := by
  rw [map_eq_pure_bind]
  exact hp.bind fun a c' ha => pure (hf a c' ha)

theorem and {P' : α → Cursor → Prop} {p : Parse α} (hp : Reaches c P p) (hp' : Reaches c P' p) :
    Reaches c (fun a c' => P a c' ∧ P' a c') p where
  of_ok a c' h := ⟨hp.of_ok a c' h, hp'.of_ok a c' h⟩

theorem of_finds {P : α → Prop} {p : Parse α} (hp : Finds P p) : Reaches c (fun a _ => P a) p where
  of_ok a c' h := hp.of_ok c a c' h

/-- What never gives anything stops nowhere. -/
theorem of_fails {p : Parse α} (hp : Finds (fun _ => False) p) : Reaches c P p :=
  (of_finds hp).imp fun _ _ h => h.elim

theorem of_yields {P : α → Prop} {p : Parse α} (hp : ∀ ts, Yields ts P p) :
    Reaches c (fun a c' => c'.tokens <:+ c.tokens ∧ P a) p where
  of_ok a c' h := (hp c.tokens).of_ok c List.suffix_rfl a c' h

theorem of_reads {P : α → List Token → Prop} {p : Parse α} (hp : Reads c P p) :
    Reaches c (fun a c' => ∃ ts, c = c'.before ts ∧ P a ts) p where
  of_ok a c' h := hp.of_ok a c' h

theorem of_start {p : Parse α} (rule : Cursor → Parse α) (h : Reaches c P (rule c))
    (hp : p c = rule c c) : Reaches c P p where
  of_ok a c' ha := by
    rw [hp] at ha
    exact h.of_ok a c' ha

/-- What ends somewhere for every start yields. -/
theorem yields {P : α → Prop} {p : Parse α} {ts : List Token}
    (h : ∀ c, Reaches c (fun a c' => c'.tokens <:+ c.tokens ∧ P a) p) : Yields ts P p where
  of_ok c hc a c' ha := by
    obtain ⟨hsuffix, hp⟩ := (h c).of_ok a c' ha
    exact ⟨hsuffix.trans hc, hp⟩

end Reaches

namespace Parse

theorem peekNth_reaches (n : Nat) :
    Reaches c (fun o c' => c' = c ∧ o = c.tokens[n]?) (peekNth n) where
  of_ok o c' h := by
    unfold peekNth at h
    split at h
    · rename_i token hn
      cases h
      exact ⟨rfl, hn.symm⟩
    · rename_i hn _
      cases h
      exact ⟨rfl, hn.symm⟩
    · cases h

theorem peek_reaches : Reaches c (fun o c' => c' = c ∧ o = c.tokens[0]?) peek :=
  peekNth_reaches 0

theorem takeTokens_reaches (n : Nat) :
    Reaches c (fun _ c' => c'.tokens = c.tokens.drop n) (Grammar.takeTokens n) := by
  apply (Reaches.of_reads (Grammar.takeTokens_reads n)).imp
  rintro _ c' ⟨_, hc, rfl⟩
  exact Cursor.tokens_of_before_take hc

theorem next_reaches : Reaches c (fun _ c' => c'.tokens = c.tokens.drop 1) next := by
  apply (Reaches.of_reads next_reads).imp
  rintro _ c' ⟨_, hc, rfl⟩
  exact Cursor.tokens_of_before_take hc

/-- What is taken is what stood ahead. -/
theorem next_takes :
    Reaches c (fun o c' => o = c.tokens[0]? ∧ c'.tokens = c.tokens.drop 1) next := by
  apply peek_reaches.bind
  rintro o c' ⟨rfl, ho⟩
  have hdrop : Reaches c' (fun _ d => d.tokens = c'.tokens.drop 1)
      (modify fun c => { c with tokens := c.tokens.drop 1 } : Parse Unit) := by
    constructor
    intro _ d h
    cases h
    rfl
  exact hdrop.bind fun _ d hd => .pure ⟨ho, hd⟩

/-! ### Repetition -/

variable {I : α → Cursor → Prop} {S : Cursor → Prop} {step : α → Parse (Option α)}

theorem iterate_keeps (hstep : ∀ a c, I a c → Reaches c (fun o c' => I (o.getD a) c') (step a))
    (fuel : Nat) {a : α} (ha : I a c) : Reaches c I (iterate step fuel a) := by
  induction fuel generalizing a c with
  | zero => exact .pure ha
  | succ fuel ih =>
    apply (hstep a c ha).bind
    intro o d ho
    cases o with
    | some b => exact ih ho
    | none => exact .pure ho

/-- What every step keeps holds at the end, whether or not a step takes a token. -/
theorem whileSome_keeps (hstep : ∀ a c, I a c → Reaches c (fun o c' => I (o.getD a) c') (step a))
    {a : α} (ha : I a c) : Reaches c I (whileSome step a) :=
  .of_start (fun c => iterate step (c.tokens.length + 1) a) (iterate_keeps hstep _ ha) rfl

/-- A step that gives something new takes a token and keeps `I`; one that gives nothing keeps it
too, and ends where `S` holds. -/
abbrev Shortens (I : α → Cursor → Prop) (S : Cursor → Prop) (c : Cursor) (a : α) (o : Option α)
    (c' : Cursor) : Prop :=
  match o with
  | some b => c'.tokens.length < c.tokens.length ∧ I b c'
  | none => I a c' ∧ S c'

theorem iterate_ends (hstep : ∀ a c, I a c → Reaches c (Shortens I S c a) (step a)) {fuel : Nat}
    {a : α} (ha : I a c) (hfuel : c.tokens.length < fuel) :
    Reaches c (fun b c' => I b c' ∧ S c') (iterate step fuel a) := by
  induction fuel generalizing a c with
  | zero => exact absurd hfuel (Nat.not_lt_zero _)
  | succ fuel ih =>
    apply (hstep a c ha).bind
    intro o d ho
    cases o with
    | some b => exact ih ho.2 (Nat.lt_of_lt_of_le ho.1 (Nat.le_of_lt_succ hfuel))
    | none => exact .pure ho

/-- The fuel is enough, so the last step gives nothing. -/
theorem whileSome_ends (hstep : ∀ a c, I a c → Reaches c (Shortens I S c a) (step a)) {a : α}
    (ha : I a c) : Reaches c (fun b c' => I b c' ∧ S c') (whileSome step a) :=
  .of_start (fun c => iterate step (c.tokens.length + 1) a)
    (iterate_ends hstep ha (Nat.lt_succ_self _)) rfl

/-- A step that gives something new takes a token and keeps `I`; one that gives nothing stands
still where `S` holds. -/
abbrev Advances (I : α → Cursor → Prop) (S : Cursor → Prop) (c : Cursor) (o : Option α)
    (c' : Cursor) : Prop :=
  match o with
  | some b => c'.tokens <:+ c.tokens ∧ c'.tokens.length < c.tokens.length ∧ I b c'
  | none => c' = c ∧ S c

/-- What stands behind a token that was taken has advanced. -/
theorem Advances.of_drop {n : Nat} {b : α} {c' : Cursor} (hn : 0 < n) (hc : c.tokens ≠ [])
    (h : c'.tokens <:+ c.tokens.drop n) (hb : I b c') : Advances I S c (some b) c' := by
  have hle := h.length_le
  have hpos := List.length_pos_iff.mpr hc
  rw [List.length_drop] at hle
  exact ⟨h.trans (List.drop_suffix _ _), by omega, hb⟩

theorem whileSome_reaches (hstep : ∀ a c, I a c → Reaches c (Advances I S c) (step a)) {a : α}
    (ha : I a c) :
    Reaches c (fun b c' => c'.tokens <:+ c.tokens ∧ I b c' ∧ S c') (whileSome step a) := by
  apply (whileSome_ends (I := fun b c' => c'.tokens <:+ c.tokens ∧ I b c') (S := S) _
    ⟨List.suffix_rfl, ha⟩).imp
  · rintro b c' ⟨⟨hsuffix, hb⟩, hs⟩
    exact ⟨hsuffix, hb, hs⟩
  · rintro a d ⟨hsuffix, ha⟩
    apply (hstep a d ha).imp
    rintro (_ | b) c' h
    · obtain ⟨rfl, hs⟩ := h
      exact ⟨⟨hsuffix, ha⟩, hs⟩
    · exact ⟨h.2.1, h.1.trans hsuffix, h.2.2⟩

end Parse

end EmbeddedLang
