import EmbeddedLang.Parser.Cursor
import EmbeddedLang.Proofs.Lexical.Ending
import EmbeddedLang.Proofs.Parser.Lookahead

/-!
Cursors that scan as they are asked, and cursors that have all tokens from the beginning.

Both are answered by what the scan has, so a parser cannot tell them apart.
-/

namespace EmbeddedLang

/-! ### Cursors -/

/-- A cursor that has scanned as far as it had to look. -/
structure Buffer where
  scanner : Scanner
  ahead : List Token
  /-- What was taken from it, from the beginning. -/
  taken : List Token

namespace Buffer

def start (t : LanguageTable) (source : String) : Buffer :=
  ⟨.start t source.toList, [], []⟩

/-- Scans so many more tokens, if there are any. -/
def fillBy (t : LanguageTable) : Nat → EStateM CompileError Buffer Unit
  | 0 => return
  | missing + 1 => fun b =>
    match b.scanner.next t with
    | (none, s) => .ok () { b with scanner := s }
    | (some (.error e), s) => .error e { b with scanner := s }
    | (some (.ok token), s) => fillBy t missing { b with scanner := s, ahead := b.ahead ++ [token] }

def fill (t : LanguageTable) (n : Nat) : EStateM CompileError Buffer Unit := fun b =>
  fillBy t (n + 1 - b.ahead.length) b

def peekNth (t : LanguageTable) (n : Nat) : EStateM CompileError Buffer (Option Token) := do
  fill t n
  return (← get).ahead[n]?

def next (t : LanguageTable) : EStateM CompileError Buffer (Option Token) := do
  fill t 0
  let b ← get
  match b.ahead with
  | [] => return none
  | token :: rest =>
    set { b with ahead := rest, taken := b.taken ++ [token] }
    return some token

def lookahead (t : LanguageTable) : Lookahead Buffer :=
  ⟨peekNth t, next t, (·.scanner.position)⟩

end Buffer

def Cursor.lookahead : Lookahead Cursor :=
  ⟨Parse.peekNth, Parse.next, Cursor.stop⟩

/-- The calls as parsers make them. -/
def Call.parse : Call → Parse Answer
  | peekNth n => .token <$> Parse.peekNth n
  | next => .token <$> Parse.next
  | isEof => .truth <$> Parse.isEof
  | position => .place <$> Parse.position
  | at? p => .truth <$> Parse.at? p
  | eat p => .truth <$> Parse.eat p
  | expect p expected => .token <$> some <$> Parse.expect p expected

theorem Cursor.failExpected_lookahead {α : Type} (expected : List String) :
    lookahead.failExpected (α := α) expected = Parse.failExpected expected := by
  have hhere : lookahead.expectedHere expected = Parse.expectedHere expected := by
    funext c
    unfold Lookahead.expectedHere Parse.expectedHere
    have hpeek : lookahead.peek = Parse.peek := rfl
    rw [hpeek]
    rcases Parse.peek c with ⟨_ | token, c'⟩ | ⟨e, c'⟩ <;> rfl
  rw [Lookahead.failExpected, hhere, Parse.failExpected]

theorem Call.run_cursor (call : Call) : call.run Cursor.lookahead = call.parse := by
  cases call with
  | expect p expected =>
    have h : Cursor.lookahead.expect p expected = Parse.expect p expected := by
      unfold Lookahead.expect Parse.expect
      rw [Cursor.failExpected_lookahead]
      rfl
    rw [run, parse, h]
  | _ => rfl

/-! ### The scan from a place -/

def Sight.ofNext : Option (Except CompileError Token) × Scanner → Sight
  | (none, s) => .ending s.position
  | (some (.error e), _) => .fault e
  | (some (.ok a), _) => .token a

namespace Scanner

/-- The scan from here, call after call. -/
def sight (t : LanguageTable) : Nat → Scanner → Sight
  | 0, s => .ofNext (s.next t)
  | n + 1, s =>
    match Sight.ofNext (s.next t) with
    | .token _ => sight t n (s.next t).2
    | last => last

variable {t : LanguageTable}

theorem sight_zero (s : Scanner) : s.sight t 0 = .ofNext (s.next t) :=
  rfl

theorem sight_succ (s : Scanner) (n : Nat) :
    s.sight t (n + 1) = match Sight.ofNext (s.next t) with
      | .token _ => (s.next t).2.sight t n
      | last => last :=
  rfl

theorem sight_succ_of_token {s : Scanner} {token : Token} {s' : Scanner}
    (h : s.next t = (some (.ok token), s')) (n : Nat) : s.sight t (n + 1) = s'.sight t n := by
  rw [sight_succ, h]
  rfl

theorem sight_of_last {s : Scanner} (h : ∀ token, s.sight t 0 ≠ .token token) (n : Nat) :
    s.sight t n = s.sight t 0 := by
  cases n with
  | zero => rfl
  | succ n =>
    rw [sight_zero] at h ⊢
    rw [sight_succ]
    split
    · next token htoken => exact absurd htoken (h token)
    · rfl

theorem sight_of_ended {s s' : Scanner} (h : s.next t = (none, s')) (n : Nat) :
    s.sight t n = .ending s'.position ∧ s'.sight t n = .ending s'.position := by
  have hnone : ¬ IsToken (s.next t).1 := by
    rintro ⟨token, htoken⟩
    rw [h] at htoken
    cases htoken
  have hfinished : s'.finished = true := by
    have hlast := next_finished hnone
    rwa [h] at hlast
  have hzero : s.sight t 0 = .ending s'.position := by
    rw [sight_zero, h]
    rfl
  have hzero' : s'.sight t 0 = .ending s'.position := by
    rw [sight_zero, next_of_finished hfinished]
    rfl
  exact ⟨(sight_of_last (fun _ => by simp [hzero]) n).trans hzero,
    (sight_of_last (fun _ => by simp [hzero']) n).trans hzero'⟩

theorem sight_of_fault {s s' : Scanner} {e : CompileError}
    (h : s.next t = (some (.error e), s')) (n : Nat) : s.sight t n = .fault e := by
  have hzero : s.sight t 0 = .fault e := by
    rw [sight_zero, h]
    rfl
  exact (sight_of_last (fun _ => by simp [hzero]) n).trans hzero

theorem stays_sight (s : Scanner) : Stays fun n => s.sight t n := by
  intro k n h
  induction k generalizing s with
  | zero =>
    rw [Nat.zero_add]
    exact sight_of_last h n
  | succ k ih =>
    dsimp only at h ⊢
    rw [Nat.add_right_comm, sight_succ, sight_succ]
    rw [sight_succ] at h
    split
    · next token htoken =>
      rw [htoken] at h
      exact ih _ h
    · rfl

end Scanner

/-! ### Filling -/

namespace Buffer

variable {t : LanguageTable} {s : Scanner} {b : Buffer}

/-- What was taken and what is ahead come first in a scan, and the scanner goes on behind them. -/
structure Follows (t : LanguageTable) (s : Scanner) (b : Buffer) : Prop where
  tokens : ∀ k token, (b.taken ++ b.ahead)[k]? = some token → s.sight t k = .token token
  rest : ∀ n, s.sight t ((b.taken ++ b.ahead).length + n) = b.scanner.sight t n

/-- What a buffer that was filled has at some place. -/
def sightAt (b : Buffer) (n : Nat) : Sight :=
  match b.ahead[n]? with
  | some token => .token token
  | none => .ending b.scanner.position

theorem Follows.sight_ahead (h : Follows t s b) {n : Nat} (hn : n < b.ahead.length) :
    s.sight t (b.taken.length + n) = b.sightAt n := by
  have htoken : b.ahead[n]? = some b.ahead[n] := List.getElem?_eq_getElem hn
  rw [sightAt, htoken]
  apply h.tokens
  rw [List.getElem?_append_right (Nat.le_add_right ..), Nat.add_sub_cancel_left, htoken]

theorem Follows.sight_behind (h : Follows t s b) (n : Nat) :
    s.sight t (b.taken.length + (b.ahead.length + n)) = b.scanner.sight t n := by
  rw [← h.rest, List.length_append, Nat.add_assoc]

theorem Follows.push (h : Follows t s b) {token : Token} {s' : Scanner}
    (hnext : b.scanner.next t = (some (.ok token), s')) :
    Follows t s { b with scanner := s', ahead := b.ahead ++ [token] } where
  tokens k a ha := by
    have ha : (b.taken ++ b.ahead ++ [token])[k]? = some a := by rwa [List.append_assoc]
    by_cases hk : k < (b.taken ++ b.ahead).length
    · rw [List.getElem?_append_left hk] at ha
      exact h.tokens k a ha
    · have hk' : k = (b.taken ++ b.ahead).length := by
        have hlength := (List.getElem?_eq_some_iff.mp ha).1
        rw [List.length_append, List.length_singleton] at hlength
        omega
      rw [hk', List.getElem?_concat_length] at ha
      cases ha
      have hrest := h.rest 0
      rw [Scanner.sight_zero, hnext] at hrest
      rw [hk']
      exact hrest
  rest n := by
    have hrest := h.rest (n + 1)
    rw [Scanner.sight_succ_of_token hnext] at hrest
    rw [← hrest]
    congr 1
    simp only [List.length_append, List.length_singleton]
    omega

theorem Follows.finish (h : Follows t s b) {s' : Scanner}
    (hnext : b.scanner.next t = (none, s')) : Follows t s { b with scanner := s' } where
  tokens := h.tokens
  rest n := by
    obtain ⟨hbefore, hafter⟩ := Scanner.sight_of_ended hnext n
    exact (h.rest n).trans (hbefore.trans hafter.symm)

theorem Follows.pop {u : Scanner} {token : Token} {rest taken : List Token}
    (h : Follows t s ⟨u, token :: rest, taken⟩) : Follows t s ⟨u, rest, taken ++ [token]⟩ where
  tokens k a ha := by
    apply h.tokens
    rwa [List.append_assoc] at ha
  rest n := by
    have hrest := h.rest n
    rw [← List.singleton_append, ← List.append_assoc] at hrest
    exact hrest

/-- What is known after a buffer was filled up to a size: what is ahead, or an error before that. -/
inductive Filled (t : LanguageTable) (s : Scanner) (b : Buffer) (size : Nat) :
    EStateM.Result CompileError Buffer Unit → Prop where
  | ok {b' : Buffer} (h : Follows t s b') (htaken : b'.taken = b.taken)
      (hsight : ∀ n < size, s.sight t (b.taken.length + n) = b'.sightAt n) :
      Filled t s b size (.ok () b')
  | error {e : CompileError} {b' : Buffer} (hlt : b.ahead.length < size)
      (h : ∀ n, n + 1 = size → s.sight t (b.taken.length + n) = .fault e) :
      Filled t s b size (.error e b')

theorem Follows.fillBy (h : Follows t s b) (missing : Nat) :
    Filled t s b (b.ahead.length + missing) (fillBy t missing b) := by
  induction missing generalizing b with
  | zero => exact .ok h rfl fun n hn => h.sight_ahead hn
  | succ missing ih =>
    unfold Buffer.fillBy
    split
    · next s' hnext =>
      refine .ok (h.finish hnext) rfl fun n _ => ?_
      by_cases hn : n < b.ahead.length
      · exact (h.finish hnext).sight_ahead hn
      · -- behind what is ahead, the scan and the scanner are both at their end
        obtain ⟨k, rfl⟩ := Nat.exists_eq_add_of_le (Nat.le_of_not_lt hn)
        have hnone : b.ahead[b.ahead.length + k]? = none :=
          List.getElem?_eq_none (Nat.le_add_right ..)
        rw [h.sight_behind, (Scanner.sight_of_ended hnext k).1, sightAt, hnone]
    · next e s' hnext =>
      refine .error (by omega) fun n hn => ?_
      obtain rfl : n = b.ahead.length + missing := by omega
      rw [h.sight_behind, Scanner.sight_of_fault hnext]
    · next token s' hnext =>
      have hfilled := ih (h.push hnext)
      have hsize : (b.ahead ++ [token]).length + missing = b.ahead.length + (missing + 1) := by
        rw [List.length_append, List.length_singleton]
        omega
      rw [hsize] at hfilled
      generalize Buffer.fillBy t missing _ = result at hfilled ⊢
      cases hfilled with
      | ok h' htaken hsight => exact .ok h' htaken hsight
      | error hlt hfault =>
        rw [List.length_append, List.length_singleton] at hlt
        exact .error (by omega) hfault

/-- The buffer follows a scan, and so many tokens were taken from it. -/
def Took (t : LanguageTable) (s : Scanner) (b : Buffer) (m : Nat) : Prop :=
  Follows t s b ∧ b.taken.length = m

theorem took_start (t : LanguageTable) (source : String) :
    Took t (.start t source.toList) (start t source) 0 :=
  ⟨⟨nofun, fun n => by rw [start, List.append_nil, List.length_nil, Nat.zero_add]⟩, rfl⟩

theorem follows_lookahead (t : LanguageTable) (s : Scanner) :
    (lookahead t).Follows (fun n => s.sight t n) (Took t s) where
  peekNth b m n hb := by
    obtain ⟨hb, rfl⟩ := hb
    change Sees _ _ _ _ _ (EStateM.bind (fill t n) _ b)
    unfold EStateM.bind
    have hfilled : Filled t s b (b.ahead.length + (n + 1 - b.ahead.length)) (fill t n b) :=
      hb.fillBy _
    generalize fill t n b = result at hfilled
    cases hfilled with
    | @ok b' h htaken hsight =>
      rw [hsight n (by omega)]
      change Sees _ _ _ _ _ (.ok b'.ahead[n]? b')
      unfold sightAt
      split
      · next token htoken =>
        rw [htoken]
        exact .token ⟨h, by rw [htaken]⟩
      · next hnone =>
        rw [hnone]
        exact .ending ⟨h, by rw [htaken]⟩
    | error hlt hfault =>
      rw [hfault n (by omega)]
      exact .fault
  next b m hb := by
    obtain ⟨hb, rfl⟩ := hb
    change Sees _ _ _ _ _ (EStateM.bind (fill t 0) _ b)
    unfold EStateM.bind
    have hfilled : Filled t s b (b.ahead.length + (0 + 1 - b.ahead.length)) (fill t 0 b) :=
      hb.fillBy _
    generalize fill t 0 b = result at hfilled
    cases hfilled with
    | @ok b' h htaken hsight =>
      have hsight := hsight 0 (by omega)
      rw [Nat.add_zero] at hsight
      rw [hsight]
      obtain ⟨u, ahead, taken⟩ := b'
      cases ahead with
      | nil => exact .ending ⟨h, by rw [htaken]⟩
      | cons token rest =>
        have htook : (taken ++ [token]).length = b.taken.length + 1 := by
          rw [List.length_append, ← htaken, List.length_singleton]
        exact .token ⟨h.pop, htook⟩
    | error hlt hfault =>
      have hfault := hfault 0 (by omega)
      rw [Nat.add_zero] at hfault
      rw [hfault]
      exact .fault

end Buffer

/-! ### Cursors with all tokens -/

def Scan.sight (found : Scan) (n : Nat) : Sight :=
  match found.tokens[n]?, found.fault with
  | some token, _ => .token token
  | none, none => .ending found.stop
  | none, some e => .fault e

theorem sight_scanFrom {t : LanguageTable} (ht : t.Marked) {fuel : Nat} {s : Scanner} (hs : s.Tidy)
    (hfuel : s.rest.length < fuel) (n : Nat) : (scanFrom t fuel s).sight n = s.sight t n := by
  induction fuel generalizing s n with
  | zero => omega
  | succ fuel ih =>
    rw [scanFrom]
    split
    · next s' hnext =>
      rw [(Scanner.sight_of_ended hnext n).1]
      rfl
    · next e s' hnext =>
      rw [Scanner.sight_of_fault hnext]
      rfl
    · next token s' hnext =>
      have hanswer : (s.next t).1 = some (.ok token) := by rw [hnext]
      have htoken := Scanner.next_token ht hs hanswer
      rw [hnext] at htoken
      have hs' : s'.Tidy := htoken.2
      have hlength : s'.rest.length < s.rest.length := htoken.1.length_lt
      cases n with
      | zero =>
        rw [Scanner.sight_zero, hnext]
        rfl
      | succ n =>
        rw [Scanner.sight_succ_of_token hnext, ← ih hs' (by omega)]
        rfl

/-- The cursor has what a scan found, but for so many tokens that were taken. -/
structure Cursor.Took (found : Scan) (c : Cursor) (m : Nat) : Prop where
  tokens : c.tokens = found.tokens.drop m
  fault : c.fault = found.fault
  stop : c.stop = found.stop

theorem Cursor.Took.peekNth {found : Scan} {c : Cursor} {m : Nat} (h : c.Took found m) (n : Nat) :
    Sees lookahead (Cursor.Took found) m m (found.sight (m + n)) (Parse.peekNth n c) := by
  have htokens : c.tokens[n]? = found.tokens[m + n]? := by rw [h.tokens, List.getElem?_drop]
  unfold Parse.peekNth Scan.sight
  rw [htokens, h.fault, ← h.stop]
  cases found.tokens[m + n]? with
  | some token => exact .token h
  | none =>
    cases found.fault with
    | none => exact .ending h
    | some e => exact .fault

theorem Cursor.Took.drop {found : Scan} {c : Cursor} {m : Nat} (h : c.Took found m) :
    Took found { c with tokens := c.tokens.drop 1 } (m + 1) where
  tokens := by rw [h.tokens, List.drop_drop]
  fault := h.fault
  stop := h.stop

theorem Cursor.follows_lookahead (found : Scan) :
    lookahead.Follows found.sight (Cursor.Took found) where
  peekNth c m n hc := hc.peekNth n
  next c m hc := by
    have hpeek := hc.peekNth 0
    change Sees _ _ _ _ _ (EStateM.bind Parse.peek _ c)
    unfold EStateM.bind
    change Sees _ _ _ _ _ (Parse.peek c) at hpeek
    rw [Nat.add_zero] at hpeek
    generalize Parse.peek c = result at hpeek
    generalize hsight : found.sight m = sight at hpeek
    cases hpeek with
    | token h => exact .token h.drop
    | @ending c' h =>
      -- a token is dropped here as well, but there is none
      have hnone : found.tokens[m]? = none := by
        cases htoken : found.tokens[m]? with
        | none => rfl
        | some token =>
          rw [Scan.sight, htoken] at hsight
          cases hsight
      have hnil : c'.tokens = [] := by
        rw [h.tokens, List.drop_eq_nil_iff]
        exact List.getElem?_eq_none_iff.mp hnone
      have hsame : Took found { c' with tokens := c'.tokens.drop 1 } m :=
        ⟨by rw [← h.tokens, hnil]; rfl, h.fault, h.stop⟩
      exact .ending hsame
    | fault => exact .fault

/-! ### Transparency -/

/-- A parser's calls are answered the same whether the source was scanned before them or is scanned
as they look further ahead. -/
theorem outcome_runAll_eq {t : LanguageTable} (ht : t.Marked) (source : String)
    (calls : List Call) :
    outcome (Call.runAll Cursor.lookahead calls (.ofSource t source)) =
      outcome (Call.runAll (Buffer.lookahead t) calls (.start t source)) := by
  have hscan : (scan t source).sight = fun n => (Scanner.start t source.toList).sight t n :=
    funext fun n => sight_scanFrom ht (Scanner.tidy_start t _) (Nat.lt_succ_self _) n
  have htook : (Cursor.ofSource t source).Took (scan t source) 0 := ⟨rfl, rfl, rfl⟩
  have heager := (Cursor.follows_lookahead (scan t source)).runAll htook calls
  have hlazy := (Buffer.follows_lookahead t _).runAll (Buffer.took_start t source) calls
  rw [heager.outcome_eq, hlazy.outcome_eq, hscan]

/-- After calls without an error, the tokens taken are the first ones of the scan, and every call
is answered by what the scan has behind them, whatever was looked at before. -/
theorem lookahead_transparent {t : LanguageTable} {source : String} {calls : List Call}
    {answers : List Answer} {b : Buffer}
    (h : Call.runAll (Buffer.lookahead t) calls (.start t source) = .ok answers b) :
    let l := Buffer.lookahead t
    let look n := (Scanner.start t source.toList).sight t n
    let taken := b.taken.length
    (∀ n, (hn : n < taken) → look n = .token b.taken[n]) ∧
    (∀ n, outcome (l.peekNth n b) = outcome (l.nexts n b)) ∧
    outcome (Call.position.run l b) = (look taken).elim (fun token => .ok (.place token.position))
      (fun place => .ok (.place place)) ∧
    (∀ call : Call, outcome (call.run l b) = (call.meaning look taken).map Prod.fst) ∧
    (∀ (call : Call) e, look (taken + call.reach) = .fault e → outcome (call.run l b) = .error e) ∧
    (∀ (call : Call) e, outcome (call.run l b) = .error e → look (taken + call.reach) = .fault e ∨
      ∃ p expected, call = .expect p expected ∧ e = (look taken).unexpected expected) ∧
    (t.Marked →
      outcome (Call.runAll Cursor.lookahead calls (.ofSource t source)) = .ok answers) := by
  intro l look taken
  have hl : l.Follows look (Buffer.Took t (.start t source.toList)) := Buffer.follows_lookahead t _
  have hb : Buffer.Took t (.start t source.toList) b taken := by
    have hrun := hl.runAll (Buffer.took_start t source) calls
    rw [h] at hrun
    generalize Call.meaningAll look calls 0 = meant at hrun
    cases hrun with
    | ok htook => exact ⟨htook.1, rfl⟩
  have hanswer (call : Call) : outcome (call.run l b) = (call.meaning look taken).map Prod.fst :=
    (hl.run hb call).outcome_eq
  refine ⟨fun n hn => ?_, fun n => ?_, ?_, hanswer, fun call e he => ?_, fun call e he => ?_,
    fun ht => ?_⟩
  · apply hb.1.tokens
    rw [List.getElem?_append_left hn, List.getElem?_eq_getElem hn]
  · rw [hl.nexts (Scanner.stays_sight _) hb n]
    exact (hl.peekNth b taken n hb).outcome_eq
  · rw [hanswer, Call.meaning]
    cases look taken <;> rfl
  · rw [hanswer, Call.meaning_of_fault he]
  · rw [hanswer] at he
    exact Call.error_of_meaning he
  · rw [outcome_runAll_eq ht, h, outcome]

/-- A parser looks two tokens further, takes two, and then looks at a string without an end. -/
theorem lookahead_transparent_unterminated :
    let l := Buffer.lookahead Query.table
    let calls := [.peekNth 2, .next, .eat (·.isOperator "="), .position]
    ∃ answers b, Call.runAll l calls (.start Query.table "a = b 'c") = .ok answers b ∧
      b.taken.map Token.lexeme = ["a", "="] ∧
      (∀ n, outcome (l.peekNth n b) = outcome (l.nexts n b)) ∧
      outcome ((Call.peekNth 1).run l b) = .error (.unterminatedLiteral ⟨1, 7, 6⟩) := by
  intro l calls
  have hs : (match Call.runAll l calls (.start Query.table "a = b 'c") with
      | .ok _ b => b.taken.map Token.lexeme == ["a", "="]
      | .error .. => false) = true := by
    decide +kernel
  split at hs
  · next answers b hrun =>
    obtain ⟨-, hnexts, -, -, hfault, -, -⟩ := lookahead_transparent hrun
    have hlexemes : b.taken.map Token.lexeme = ["a", "="] := eq_of_beq hs
    have htaken : b.taken.length = 2 := by
      rw [← b.taken.length_map Token.lexeme, hlexemes]
      rfl
    refine ⟨answers, b, hrun, hlexemes, hnexts, hfault (.peekNth 1) _ ?_⟩
    rw [htaken]
    decide +kernel
  · cases hs

end EmbeddedLang
