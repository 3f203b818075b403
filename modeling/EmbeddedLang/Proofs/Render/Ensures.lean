import EmbeddedLang.Proofs.Dictionary
import EmbeddedLang.Render.Session

/-!
What holds of the result of a run, and of the fragments that are kept whether it succeeds or not.
-/

namespace EmbeddedLang.Render

variable {α β : Type} {P : String → Prop}

theorem bind_of_ok {a : Rendering α} {f : α → Rendering β} {s t : Session} {x : α}
    (h : a s = .ok x t) : (a >>= f) s = f x t := by
  change EStateM.bind a f s = _
  rw [EStateM.bind, h]

theorem bind_of_error {a : Rendering α} {f : α → Rendering β} {s t : Session} {e : RenderError}
    (h : a s = .error e t) : (a >>= f) s = .error e t := by
  change EStateM.bind a f s = _
  rw [EStateM.bind, h]

section

variable {enter leave : List Scope → List Scope} {a : Rendering α} {s t : Session} {x : α}
  {e : RenderError}

theorem withScopes_of_ok (h : a { s with scopes := enter s.scopes } = .ok x t) :
    withScopes enter leave a s = .ok x { t with scopes := leave t.scopes } := by
  rw [withScopes, h]

theorem withScopes_of_error (h : a { s with scopes := enter s.scopes } = .error e t) :
    withScopes enter leave a s = .error e { t with scopes := leave t.scopes } := by
  rw [withScopes, h]

theorem exists_of_withScopes_ok (h : withScopes enter leave a s = .ok x t) :
    ∃ u, a { s with scopes := enter s.scopes } = .ok x u ∧
      t = { u with scopes := leave u.scopes } := by
  unfold withScopes at h
  split at h
  · next y u hu =>
    cases h
    exact ⟨u, hu, rfl⟩
  · cases h

theorem exists_of_withScopes_error (h : withScopes enter leave a s = .error e t) :
    ∃ u, a { s with scopes := enter s.scopes } = .error e u ∧
      t = { u with scopes := leave u.scopes } := by
  unfold withScopes at h
  split at h
  · cases h
  · next e u hu =>
    cases h
    exact ⟨u, hu, rfl⟩

end

theorem fragment?_eq (key : String) (s : Session) :
    fragment? key s =
      match Dictionary.get? key s.fragments with
      | some f =>
        if f.isLive s.now then .ok (some f.text) s
        else .ok none { s with fragments := Dictionary.erase key s.fragments }
      | none => .ok none s := by
  have hget : (get : Rendering Session) s = .ok s s := rfl
  rw [fragment?, bind_of_ok hget]
  cases Dictionary.get? key s.fragments with
  | none => rfl
  | some f => by_cases hlive : f.isLive s.now <;> simp only [hlive, if_true] <;> rfl

def Session.Keeps (P : String → Prop) (s : Session) : Prop :=
  ∀ x ∈ s.fragments, P x.2.text

/-- Run with fragments that satisfy `P`, the action keeps only such fragments, and its result
satisfies `post`. -/
structure Ensures (P : String → Prop) (action : Rendering α) (post : α → Prop) : Prop where
  of_ok : ∀ s a s', s.Keeps P → action s = .ok a s' → post a ∧ s'.Keeps P
  of_error : ∀ s e s', s.Keeps P → action s = .error e s' → s'.Keeps P

namespace Ensures

variable {action : Rendering α} {post : α → Prop} {x : Except RenderError α}

theorem pure {a : α} (h : post a) : Ensures P (Pure.pure a) post where
  of_ok s b s' hs hb := by
    cases hb
    exact ⟨h, hs⟩
  of_error s e s' hs he := by cases he

theorem throw (e : RenderError) : Ensures P (throw e : Rendering α) post where
  of_ok s b s' hs hb := by cases hb
  of_error s e s' hs he := by
    cases he
    exact hs

theorem bind {f : α → Rendering β} {next : β → Prop} (h : Ensures P action post)
    (hf : ∀ a, post a → Ensures P (f a) next) : Ensures P (action >>= f) next := by
  constructor
  · intro s b s' hs hb
    cases hrun : action s with
    | ok a t =>
      rw [bind_of_ok hrun] at hb
      obtain ⟨hpost, ht⟩ := h.of_ok s a t hs hrun
      exact (hf a hpost).of_ok t b s' ht hb
    | error e t =>
      rw [bind_of_error hrun] at hb
      cases hb
  · intro s e s' hs he
    cases hrun : action s with
    | ok a t =>
      rw [bind_of_ok hrun] at he
      obtain ⟨hpost, ht⟩ := h.of_ok s a t hs hrun
      exact (hf a hpost).of_error t e s' ht he
    | error e' t =>
      rw [bind_of_error hrun] at he
      cases he
      exact h.of_error s e s' hs hrun

theorem imp {weaker : α → Prop} (h : Ensures P action post) (hp : ∀ a, post a → weaker a) :
    Ensures P action weaker where
  of_ok s a s' hs ha := by
    obtain ⟨hpost, hs'⟩ := h.of_ok s a s' hs ha
    exact ⟨hp a hpost, hs'⟩
  of_error := h.of_error

theorem map {f : α → β} {next : β → Prop} (h : Ensures P action post)
    (hf : ∀ a, post a → next (f a)) : Ensures P (f <$> action) next := by
  rw [← bind_pure_comp]
  exact h.bind fun a ha => .pure (hf a ha)

theorem liftResult (h : ∀ a, x = .ok a → post a) : Ensures P (liftResult x) post := by
  cases x with
  | ok a => exact .pure (h a rfl)
  | error e => exact .throw e

theorem get : Ensures P (MonadState.get : Rendering Session) (·.Keeps P) where
  of_ok s a s' hs ha := by
    cases ha
    exact ⟨hs, hs⟩
  of_error s e s' hs he := by cases he

theorem set {s : Session} (h : s.Keeps P) :
    Ensures P (MonadStateOf.set s : Rendering Unit) fun _ => True where
  of_ok s b s' _ hb := by
    cases hb
    exact ⟨trivial, h⟩
  of_error s e s' hs he := by cases he

theorem modify {f : Session → Session} (h : ∀ s, s.Keeps P → (f s).Keeps P) :
    Ensures P (modify f : Rendering Unit) fun _ => True where
  of_ok s b s' hs hb := by
    cases hb
    exact ⟨trivial, h s hs⟩
  of_error s e s' hs he := by cases he

theorem withScopes {enter leave : List Scope → List Scope} (h : Ensures P action post) :
    Ensures P (withScopes enter leave action) post := by
  constructor
  · intro s b s' hs hb
    obtain ⟨t, ht, rfl⟩ := exists_of_withScopes_ok hb
    exact h.of_ok { s with scopes := enter s.scopes } b t hs ht
  · intro s e s' hs he
    obtain ⟨t, ht, rfl⟩ := exists_of_withScopes_error he
    exact h.of_error { s with scopes := enter s.scopes } e t hs ht

theorem inScope {scope : Scope} (h : Ensures P action post) :
    Ensures P (inScope scope action) post :=
  h.withScopes

theorem inFreshScope {scope : Scope} (h : Ensures P action post) :
    Ensures P (inFreshScope scope action) post :=
  get.bind fun _ _ => h.withScopes

theorem fragment? (key : String) :
    Ensures P (fragment? key) fun found => ∀ text, found = some text → P text := by
  apply get.bind
  intro s hs
  split
  · next f hf =>
    split
    · apply pure
      rintro text ⟨⟩
      exact hs _ (Dictionary.mem_of_get? hf)
    · have herase : Session.Keeps P { s with fragments := Dictionary.erase key s.fragments } :=
        fun x hx => hs x (List.mem_filter.mp hx).1
      exact (set herase).bind fun _ _ => pure nofun
  · exact pure nofun

theorem keepFragment (key : String) {text : String} (h : P text) (lifetime : Option Nat)
    (start : Nat) : Ensures P (keepFragment key text lifetime start) fun _ => True := by
  apply modify
  intro s hs x hx
  rcases Dictionary.mem_of_mem_put hx with rfl | hx
  · exact h
  · exact hs x hx

end Ensures

end EmbeddedLang.Render
