import EmbeddedLang.CompileError
import EmbeddedLang.Lexical.Token

/-!
What a parser asks of a cursor, and what it may be told.

A cursor answers by what a scan has at some place, and only how many tokens were taken decides on
the place. A cursor that does so for the next token and for one further ahead does so for all calls.
-/

namespace EmbeddedLang

/-! ### What lies ahead -/

/-- What a scan has at some place in its order: a token, or what it comes to before that. -/
inductive Sight where
  | token (token : Token)
  | ending (place : Position)
  | fault (error : CompileError)
deriving DecidableEq

namespace Sight

def elim {α : Type} (onToken : Token → Except CompileError α)
    (onEnding : Position → Except CompileError α) : Sight → Except CompileError α
  | token a => onToken a
  | ending place => onEnding place
  | fault e => .error e

/-- The error of what is ahead where something else should be. -/
def unexpected (expected : List String) : Sight → CompileError
  | token a => .unexpectedToken a.position expected a.describe
  | ending place => .unexpectedToken place expected "end of input"
  | fault e => e

end Sight

/-! ### Calls -/

/-- What a cursor has to offer to look ahead with. -/
structure Lookahead (σ : Type) where
  peekNth : Nat → EStateM CompileError σ (Option Token)
  next : EStateM CompileError σ (Option Token)
  /-- Where the source ends, once that is seen. -/
  place : σ → Position

namespace Lookahead

variable {σ : Type} (l : Lookahead σ)

def peek : EStateM CompileError σ (Option Token) :=
  l.peekNth 0

def isEof : EStateM CompileError σ Bool := do
  return (← l.peek).isNone

def position : EStateM CompileError σ Position := do
  match ← l.peek with
  | some token => return token.position
  | none => return l.place (← get)

def expectedHere (expected : List String) : EStateM CompileError σ CompileError := fun s =>
  match l.peek s with
  | .ok (some token) s => .ok (.unexpectedToken token.position expected token.describe) s
  | .ok none s => .ok (.unexpectedToken (l.place s) expected "end of input") s
  | .error error s => .ok error s

def failExpected {α : Type} (expected : List String) : EStateM CompileError σ α := do
  throw (← l.expectedHere expected)

def at? (p : Token → Bool) : EStateM CompileError σ Bool := do
  return ((← l.peek).map p).getD false

def eat (p : Token → Bool) : EStateM CompileError σ Bool := do
  if ← l.at? p then
    let _ ← l.next
    return true
  else return false

def expect (p : Token → Bool) (expected : List String) : EStateM CompileError σ Token := do
  match ← l.peek with
  | some token =>
    if p token then
      let _ ← l.next
      return token
    else l.failExpected expected
  | none => l.failExpected expected

/-- Takes some tokens and then one more, which it returns. -/
def nexts : Nat → EStateM CompileError σ (Option Token)
  | 0 => l.next
  | n + 1 => do
    let _ ← l.next
    nexts n

end Lookahead

inductive Call where
  | peekNth (n : Nat)
  | next
  | isEof
  | position
  | at? (p : Token → Bool)
  | eat (p : Token → Bool)
  | expect (p : Token → Bool) (expected : List String)

inductive Answer where
  | token (token : Option Token)
  | truth (holds : Bool)
  | place (place : Position)
deriving DecidableEq

namespace Call

variable {σ : Type} (l : Lookahead σ)

def run : Call → EStateM CompileError σ Answer
  | peekNth n => .token <$> l.peekNth n
  | next => .token <$> l.next
  | isEof => .truth <$> l.isEof
  | position => .place <$> l.position
  | at? p => .truth <$> l.at? p
  | eat p => .truth <$> l.eat p
  | expect p expected => .token <$> some <$> l.expect p expected

def runAll : List Call → EStateM CompileError σ (List Answer)
  | [] => return []
  | call :: rest => do
    let answer ← call.run l
    return answer :: (← runAll rest)

/-- How far ahead of the next token a call looks. -/
def reach : Call → Nat
  | peekNth n => n
  | _ => 0

/-- The answer to a call after `m` tokens were taken, and how many are taken then. -/
def meaning (look : Nat → Sight) (m : Nat) : Call → Except CompileError (Answer × Nat)
  | peekNth n =>
    (look (m + n)).elim (fun token => .ok (.token (some token), m)) fun _ => .ok (.token none, m)
  | next =>
    (look m).elim (fun token => .ok (.token (some token), m + 1)) fun _ => .ok (.token none, m)
  | isEof => (look m).elim (fun _ => .ok (.truth false, m)) fun _ => .ok (.truth true, m)
  | position =>
    (look m).elim (fun token => .ok (.place token.position, m)) fun place => .ok (.place place, m)
  | at? p => (look m).elim (fun token => .ok (.truth (p token), m)) fun _ => .ok (.truth false, m)
  | eat p =>
    (look m).elim (fun token => .ok (.truth (p token), if p token then m + 1 else m))
      fun _ => .ok (.truth false, m)
  | expect p expected =>
    (look m).elim
      (fun token =>
        if p token then .ok (.token (some token), m + 1)
        else .error (.unexpectedToken token.position expected token.describe))
      fun place => .error (.unexpectedToken place expected "end of input")

def meaningAll (look : Nat → Sight) : List Call → Nat → Except CompileError (List Answer × Nat)
  | [], m => .ok ([], m)
  | call :: rest, m => do
    let (answer, m) ← call.meaning look m
    let (answers, m) ← meaningAll look rest m
    return (answer :: answers, m)

end Call

/-! ### Answers -/

/-- What a run says, apart from the cursor that it leaves. -/
def outcome {σ α : Type} : EStateM.Result CompileError σ α → Except CompileError α
  | .ok a _ => .ok a
  | .error e _ => .error e

/-- A run and what it should say; the cursor that it leaves is `R`-related to the tokens taken. -/
inductive Agrees {σ α : Type} (R : σ → Nat → Prop) :
    EStateM.Result CompileError σ α → Except CompileError (α × Nat) → Prop where
  | ok {a : α} {s : σ} {m : Nat} (h : R s m) : Agrees R (.ok a s) (.ok (a, m))
  | error {e : CompileError} {s : σ} : Agrees R (.error e s) (.error e)

/-- A look at what is ahead; if that is a token, `taken` are taken after it, else `m`. -/
inductive Sees {σ : Type} (l : Lookahead σ) (R : σ → Nat → Prop) (m taken : Nat) :
    Sight → EStateM.Result CompileError σ (Option Token) → Prop where
  | token {token : Token} {s : σ} (h : R s taken) :
      Sees l R m taken (.token token) (.ok (some token) s)
  | ending {s : σ} (h : R s m) : Sees l R m taken (.ending (l.place s)) (.ok none s)
  | fault {e : CompileError} {s : σ} : Sees l R m taken (.fault e) (.error e s)

/-- Cursors that see what is there to be seen, if so many tokens were taken as `R` says. -/
structure Lookahead.Follows {σ : Type} (l : Lookahead σ) (look : Nat → Sight)
    (R : σ → Nat → Prop) : Prop where
  peekNth : ∀ s m n, R s m → Sees l R m m (look (m + n)) (l.peekNth n s)
  next : ∀ s m, R s m → Sees l R m (m + 1) (look m) (l.next s)

theorem Agrees.outcome_eq {σ α : Type} {R : σ → Nat → Prop}
    {result : EStateM.Result CompileError σ α} {meant : Except CompileError (α × Nat)}
    (h : Agrees R result meant) : outcome result = meant.map Prod.fst := by
  cases h <;> rfl

theorem Sees.outcome_eq {σ : Type} {l : Lookahead σ} {R : σ → Nat → Prop} {m taken : Nat}
    {sight : Sight} {result : EStateM.Result CompileError σ (Option Token)}
    (h : Sees l R m taken sight result) :
    outcome result = sight.elim (fun token => .ok (some token)) fun _ => .ok none := by
  cases h <;> rfl

section follows

variable {σ α : Type} {l : Lookahead σ} {look : Nat → Sight} {R : σ → Nat → Prop} {s : σ} {m : Nat}

theorem Sees.bind {taken : Nat} {sight : Sight} {x : EStateM CompileError σ (Option Token)}
    {f : Option Token → EStateM CompileError σ α} {onToken : Token → Except CompileError (α × Nat)}
    {onEnding : Position → Except CompileError (α × Nat)} (h : Sees l R m taken sight (x s))
    (htoken : ∀ token s', sight = .token token → R s' taken →
      Agrees R (f (some token) s') (onToken token))
    (hend : ∀ s', sight = .ending (l.place s') → R s' m →
      Agrees R (f none s') (onEnding (l.place s'))) :
    Agrees R ((x >>= f) s) (sight.elim onToken onEnding) := by
  change Agrees R (EStateM.bind x f s) _
  unfold EStateM.bind
  generalize x s = result at h
  cases h with
  | token h => exact htoken _ _ rfl h
  | ending h => exact hend _ rfl h
  | fault => exact .error

theorem Agrees.bind {β : Type} {x : EStateM CompileError σ α} {f : α → EStateM CompileError σ β}
    {meant : Except CompileError (α × Nat)} {next : α × Nat → Except CompileError (β × Nat)}
    (h : Agrees R (x s) meant) (hf : ∀ a s' m', R s' m' → Agrees R (f a s') (next (a, m'))) :
    Agrees R ((x >>= f) s) (meant >>= next) := by
  change Agrees R (EStateM.bind x f s) (Except.bind meant next)
  unfold EStateM.bind
  generalize x s = result at h
  cases h with
  | ok h => exact hf _ _ _ h
  | error => exact .error

theorem Agrees.fails {β : Type} {x : EStateM CompileError σ α} {f : α → EStateM CompileError σ β}
    {e : CompileError} (h : Agrees R (x s) (.error e)) : Agrees R ((x >>= f) s) (.error e) := by
  change Agrees R (EStateM.bind x f s) _
  unfold EStateM.bind
  generalize x s = result at h
  cases h
  exact .error

theorem Lookahead.Follows.failExpected (h : l.Follows look R) (hs : R s m)
    (expected : List String) :
    Agrees R (l.failExpected (α := α) expected s) (.error ((look m).unexpected expected)) := by
  have hpeek : Sees l R m m (look m) (l.peek s) := h.peekNth s m 0 hs
  unfold Lookahead.failExpected
  -- the error is made from a second look, and a scan error is met in it as well
  change Agrees R (EStateM.bind (l.expectedHere expected) _ s) _
  unfold EStateM.bind Lookahead.expectedHere
  generalize l.peek s = result at hpeek
  generalize look m = sight at hpeek
  cases hpeek <;> exact .error

theorem Lookahead.Follows.take (h : l.Follows look R) {token : Token}
    (htoken : look m = .token token) (hs : R s m) {f : Option Token → EStateM CompileError σ α}
    {a : α}
    (hf : ∀ s', R s' (m + 1) → Agrees R (f (some token) s') (.ok (a, m + 1))) :
    Agrees R ((l.next >>= f) s) (.ok (a, m + 1)) := by
  have hnext : Sees l R m (m + 1) (.token token) (l.next s) := htoken ▸ h.next s m hs
  change Agrees R ((l.next >>= f) s)
    ((Sight.token token).elim (fun _ => .ok (a, m + 1)) fun _ => .ok (a, m + 1))
  refine hnext.bind (fun taken s' hsame hs' => ?_) nofun
  cases hsame
  exact hf s' hs'

theorem Lookahead.Follows.run (h : l.Follows look R) (hs : R s m) (call : Call) :
    Agrees R (call.run l s) (call.meaning look m) := by
  have hpeek : Sees l R m m (look m) (l.peek s) := h.peekNth s m 0 hs
  cases call with
  | peekNth n =>
    rw [Call.run, Call.meaning, map_eq_pure_bind]
    exact (h.peekNth s m n hs).bind (fun _ _ _ hs' => .ok hs') fun _ _ hs' => .ok hs'
  | next =>
    rw [Call.run, Call.meaning, map_eq_pure_bind]
    exact (h.next s m hs).bind (fun _ _ _ hs' => .ok hs') fun _ _ hs' => .ok hs'
  | isEof =>
    rw [Call.run, Call.meaning, map_eq_pure_bind, Lookahead.isEof, bind_assoc]
    exact hpeek.bind (fun _ _ _ hs' => .ok hs') fun _ _ hs' => .ok hs'
  | position =>
    rw [Call.run, Call.meaning, map_eq_pure_bind, Lookahead.position, bind_assoc]
    exact hpeek.bind (fun _ _ _ hs' => .ok hs') fun _ _ hs' => .ok hs'
  | at? p =>
    rw [Call.run, Call.meaning, map_eq_pure_bind, Lookahead.at?, bind_assoc]
    exact hpeek.bind (fun _ _ _ hs' => .ok hs') fun _ _ hs' => .ok hs'
  | eat p =>
    rw [Call.run, Call.meaning, map_eq_pure_bind, Lookahead.eat, Lookahead.at?, bind_assoc,
      bind_assoc]
    refine hpeek.bind (fun token s' htoken hs' => ?_) fun _ _ hs' => .ok hs'
    simp only [pure_bind, Option.map_some, Option.getD_some]
    split
    · next hp =>
      rw [bind_assoc, hp]
      exact h.take htoken hs' fun _ hs'' => .ok hs''
    · next hp =>
      rw [Bool.eq_false_iff.mpr hp]
      exact .ok hs'
  | expect p expected =>
    rw [Call.run, Call.meaning, map_eq_pure_bind, map_eq_pure_bind, Lookahead.expect, bind_assoc,
      bind_assoc]
    refine hpeek.bind (fun token s' htoken hs' => ?_) fun s' hend hs' => ?_
    · dsimp only
      split
      · next hp =>
        rw [bind_assoc]
        exact h.take htoken hs' fun _ hs'' => .ok hs''
      · have hfail := h.failExpected (α := Token) hs' expected
        rw [htoken] at hfail
        exact hfail.fails
    · have hfail := h.failExpected (α := Token) hs' expected
      rw [hend] at hfail
      exact hfail.fails

theorem Lookahead.Follows.runAll (h : l.Follows look R) (hs : R s m) (calls : List Call) :
    Agrees R (Call.runAll l calls s) (Call.meaningAll look calls m) := by
  induction calls generalizing s m with
  | nil => exact .ok hs
  | cons call rest ih =>
    rw [Call.runAll, Call.meaningAll]
    refine (h.run hs call).bind fun answer s' m' hs' => ?_
    exact (ih hs').bind fun answers s'' m'' hs'' => .ok hs''

/-- Where the scan has come to an end or an error, it stays. -/
def Stays (look : Nat → Sight) : Prop :=
  ∀ k n, (∀ token, look k ≠ .token token) → look (k + n) = look k

/-- To look ahead is to take tokens on a copy of the cursor. -/
theorem Lookahead.Follows.nexts (h : l.Follows look R) (hlook : Stays look) (hs : R s m) (n : Nat) :
    outcome (l.nexts n s) =
      (look (m + n)).elim (fun token => .ok (some token)) fun _ => .ok none := by
  induction n generalizing s m with
  | zero =>
    exact (h.next s m hs).outcome_eq
  | succ n ih =>
    have hnext := h.next s m hs
    change outcome (EStateM.bind l.next (fun _ => l.nexts n) s) = _
    unfold EStateM.bind
    generalize l.next s = result at hnext
    generalize hsight : look m = sight at hnext
    cases hnext with
    | token hs' =>
      have hrest := ih hs'
      rw [Nat.add_assoc, Nat.add_comm 1] at hrest
      exact hrest
    | @ending s' hs' =>
      have hstays := fun n => hlook m n (by rw [hsight]; exact nofun)
      have hrest := ih hs'
      rw [hstays] at hrest ⊢
      exact hrest
    | fault =>
      have hstays := fun n => hlook m n (by rw [hsight]; exact nofun)
      rw [hstays, hsight]
      rfl

end follows

/-! ### Errors -/

theorem Call.meaning_of_fault {look : Nat → Sight} {m : Nat} {call : Call} {e : CompileError}
    (h : look (m + call.reach) = .fault e) : (call.meaning look m).map Prod.fst = .error e := by
  cases call with
  | peekNth n =>
    rw [meaning, show look (m + n) = _ from h]
    rfl
  | _ =>
    rw [meaning, show look m = _ from h]
    rfl

/-- A call fails where it looks at an error of the scan, or where it expects something else. -/
theorem Call.error_of_meaning {look : Nat → Sight} {m : Nat} {call : Call} {e : CompileError}
    (h : (call.meaning look m).map Prod.fst = .error e) :
    look (m + call.reach) = .fault e ∨
      ∃ p expected, call = .expect p expected ∧ e = (look m).unexpected expected := by
  cases call with
  | expect p expected =>
    rw [meaning] at h
    change look m = _ ∨ _
    cases hsight : look m with
    | token token =>
      rw [hsight, Sight.elim] at h
      split at h
      · cases h
      · cases h
        exact .inr ⟨p, expected, rfl, rfl⟩
    | ending place =>
      rw [hsight] at h
      cases h
      exact .inr ⟨p, expected, rfl, rfl⟩
    | fault e' =>
      rw [hsight] at h
      cases h
      exact .inl rfl
  | peekNth n =>
    rw [meaning] at h
    change look (m + n) = _ ∨ _
    cases hsight : look (m + n) <;> rw [hsight] at h <;> cases h
    exact .inl rfl
  | _ =>
    rw [meaning] at h
    change look m = _ ∨ _
    cases hsight : look m <;> rw [hsight] at h <;> cases h
    exact .inl rfl

end EmbeddedLang
