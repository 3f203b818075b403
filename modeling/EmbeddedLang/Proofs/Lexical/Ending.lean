import EmbeddedLang.Proofs.Lexical.Tiling

/-!
The scanner comes to an end, and so do the loops in it.

A table without empty marks is all that this needs. What a loop passes over in a round is a comment,
and it begins with a mark; what is returned is a token, and it has at least one character.
-/

namespace EmbeddedLang

/-! ### Loops -/

/-- A loop that starts in a state ends with a result, in its n-th round. -/
inductive Rounds {σ ρ : Type} (round : σ → σ ⊕ ρ) : σ → Nat → ρ → Prop where
  | done {s : σ} {r : ρ} (h : round s = .inr r) : Rounds round s 1 r
  | again {s s' : σ} {n : Nat} {r : ρ} (h : round s = .inl s') (hs : Rounds round s' n r) :
      Rounds round s (n + 1) r

/-- A function that goes through the rounds of a loop, if each of them takes something away. -/
theorem exists_rounds {σ ρ : Type} {round : σ → σ ⊕ ρ} {f : Nat → σ → ρ} (size : σ → Nat)
    (hf : ∀ fuel s, f (fuel + 1) s = (round s).elim (f fuel) id)
    (hsize : ∀ s s', round s = .inl s' → size s' < size s) (s : σ) {fuel : Nat}
    (hfuel : size s < fuel) : ∃ n ≤ size s + 1, Rounds round s n (f fuel s) := by
  induction fuel generalizing s with
  | zero => omega
  | succ fuel ih =>
    rw [hf]
    cases hround : round s with
    | inr r => exact ⟨1, by omega, .done hround⟩
    | inl s' =>
      have hless : size s' < size s := hsize s s' hround
      obtain ⟨n, hn, hs'⟩ := ih s' (by omega)
      exact ⟨n + 1, by omega, .again hround hs'⟩

/-- Passing over characters; with the text ahead, how many these are so far. -/
def runRound (p : Char → Bool) : List Char × Nat → (List Char × Nat) ⊕ Nat
  | ([], n) => .inr n
  | (c :: rest, n) => if p c then .inl (rest, n + 1) else .inr n

/-- Looking for the closing quote, which may not be escaped. -/
def stringRound (escape : Option Char) (quote : Char) :
    List Char × Nat → (List Char × Nat) ⊕ Option Nat
  | ([], _) => .inr none
  | (c :: rest, n) =>
    if some c = escape then
      match rest with
      | [] => .inr none
      | _ :: rest => .inl (rest, n + 2)
    else if c = quote then .inr (some (n + 1))
    else .inl (rest, n + 1)

namespace Scanner

/-- One comment in code, with the white space before it. -/
def triviaRound (t : LanguageTable) (s : Scanner) : Scanner ⊕ (Option CompileError × Scanner) :=
  let s := s.skipBlanks
  match comment t s.rest with
  | .absent => .inr (none, s)
  | .closed n => .inl (s.skip n)
  | .unclosed => .inr (some (.unterminatedComment s.position), s)

/-- One comment in raw text, if no text is before it. -/
def rawRound (d : Delimiters) (s : Scanner) : Scanner ⊕ Step :=
  let s := if s.trimNextRaw then { s.skipBlanks with trimNextRaw := false } else s
  if s.rest.isEmpty then .inr (.ok none, s) else
  match firstOpener d s.rest with
  | none => .inr (.ok (some (s.cut .rawText s.rest.length)), s.skip s.rest.length)
  | some (n, marker) =>
    let trims := (s.rest.drop (n + marker.length)).head? == some d.trim
    let text := if trims then Text.trimEnd (s.rest.take n) else s.rest.take n
    let opening := s.skip n
    if !text.isEmpty then .inr (.ok (some (s.cut .rawText text.length)), opening) else
    let width := marker.length + if trims then 1 else 0
    let inside := opening.skip width
    if marker = d.openComment then
      match Text.indexOf d.closeComment.toList inside.rest with
      | none => .inr (.error (.unterminatedComment opening.position), inside)
      | some k =>
        .inl { inside.skip (k + d.closeComment.length) with
          trimNextRaw := (inside.rest.take k).getLast? == some d.trim }
    else
      let kind := if marker = d.openStatement then .openStatement else .openEcho
      .inr (.ok (some (opening.cut kind width)), { inside with mode := .language, openBraces := 0 })

theorem skipTrivia_succ (t : LanguageTable) (fuel : Nat) (s : Scanner) :
    skipTrivia t (fuel + 1) s = (triviaRound t s).elim (skipTrivia t fuel) id := by
  rw [skipTrivia, triviaRound]
  cases comment t s.skipBlanks.rest <;> rfl

theorem nextRaw_succ (d : Delimiters) (fuel : Nat) (s : Scanner) :
    nextRaw d (fuel + 1) s = (rawRound d s).elim (nextRaw d fuel) id := by
  rw [nextRaw, rawRound]
  generalize (if s.trimNextRaw then { s.skipBlanks with trimNextRaw := false } else s) = s
  dsimp only
  by_cases hrest : s.rest.isEmpty
  · simp only [hrest, if_true, Sum.elim_inr, id]
  simp only [hrest]
  cases firstOpener d s.rest with
  | none => rfl
  | some opener =>
    obtain ⟨n, marker⟩ := opener
    dsimp only
    generalize ((s.rest.drop (n + marker.length)).head? == some d.trim) = trims
    generalize (if trims then Text.trimEnd (s.rest.take n) else s.rest.take n) = text
    generalize (s.skip n).skip (marker.length + if trims then 1 else 0) = inside
    cases hclose : Text.indexOf d.closeComment.toList inside.rest with
    | none => split_ifs <;> rfl
    | some k => split_ifs <;> rfl

/-- A comment is not empty where no white space is ahead, as the end of a line is. -/
theorem ne_nil_of_isComment {t : LanguageTable} {cs rest : List Char} (ht : t.Marked)
    (h : IsComment t cs rest) (hblank : ∀ c ∈ (cs ++ rest).head?, Text.isBlank c = false) :
    cs ≠ [] := by
  cases h with
  | line hmark hstarts hline hend =>
    rintro rfl
    cases rest with
    | nil =>
      have hnil : _ = [] := List.prefix_nil.mp hstarts
      exact ht.lineComment_ne hmark (String.toList_eq_nil_iff.mp hnil)
    | cons c rest =>
      have hc : c = '\n' := hend c rfl
      have hc' : Text.isBlank c = false := hblank c rfl
      rw [hc] at hc'
      cases hc'
  | block hmarks hfirst =>
    have hne := ht.blockComment_ne hmarks
    simp [hne]

theorem length_skip (s : Scanner) (n : Nat) : (s.skip n).rest.length = s.rest.length - n :=
  List.length_drop

theorem length_triviaRound {t : LanguageTable} (ht : t.Marked) {s s' : Scanner}
    (h : triviaRound t s = .inl s') : s'.rest.length < s.rest.length := by
  unfold triviaRound at h
  dsimp only at h
  split at h
  · cases h
  · next n hclosed =>
    cases h
    -- a line comment reaches up to the end of its line, which is white space and was skipped
    have hne : s.skipBlanks.rest.take n ≠ [] := by
      refine ne_nil_of_isComment ht (isComment_of_closed hclosed) ?_
      rw [List.take_append_drop]
      exact fun c hc => head?_drop_runLength hc
    have hpos : 0 < n ∧ 0 < s.skipBlanks.rest.length := by
      simpa [Nat.pos_iff_ne_zero, List.length_pos_iff] using hne
    have hle : s.skipBlanks.rest.length ≤ s.rest.length := by
      rw [skipBlanks, length_skip]
      omega
    rw [length_skip]
    omega
  · cases h

theorem length_rawRound {t : LanguageTable} {d : Delimiters} (ht : t.Marked)
    (hd : t.delimiters = some d) {s s' : Scanner} (h : rawRound d s = .inl s') :
    s'.rest.length < s.rest.length := by
  unfold rawRound at h
  generalize htrimmed :
    (if s.trimNextRaw then { s.skipBlanks with trimNextRaw := false } else s) = trimmed at h
  have hle : trimmed.rest.length ≤ s.rest.length := by
    rw [← htrimmed]
    split
    · exact (length_skip s _).trans_le (Nat.sub_le ..)
    · exact Nat.le_refl _
  dsimp only at h
  split at h
  · cases h
  split at h
  · cases h
  next n marker hopener =>
  obtain ⟨hmarker, before, after, hrest, rfl⟩ := firstOpener_mem hopener
  generalize ((trimmed.rest.drop (before.length + marker.length)).head? == some d.trim) = trims at h
  generalize (if trims then Text.trimEnd (trimmed.rest.take before.length)
    else trimmed.rest.take before.length) = text at h
  split at h
  · cases h
  split at h
  · split at h
    · cases h
    · next hcomment _ k hclose =>
      -- the round has taken at least the mark that opens the comment
      have hpos : 0 < marker.toList.length := by
        have hne : marker ≠ "" := ht.delimiter_ne hd (by simp [hcomment])
        simpa [List.length_pos_iff] using hne
      have hlength := congrArg List.length hrest
      simp only [List.length_append] at hlength
      cases h
      simp only [length_skip, ← String.length_toList]
      omega
  · cases h

/-- The loops that a scanner can be in: runs of characters, comments in code and in text, and
strings, each after its opening quote. -/
structure LoopsEnd (t : LanguageTable) (s : Scanner) : Prop where
  runs : ∀ p, ∃ n ≤ s.rest.length + 1, Rounds (runRound p) (s.rest, 0) n (runLength p s.rest)
  trivia : ∃ n ≤ s.rest.length + 1,
    Rounds (triviaRound t) s n (skipTrivia t (s.rest.length + 1) s)
  raw : ∀ d ∈ t.delimiters, ∃ n ≤ s.rest.length + 1,
    Rounds (rawRound d) s n (nextRaw d (s.rest.length + 1) s)
  strings : ∀ quote, ∃ n ≤ s.rest.length + 1,
    Rounds (stringRound t.escape quote) (s.rest, 0) n (stringLength t.escape quote s.rest)

end Scanner

theorem rounds_runLength (p : Char → Bool) (cs : List Char) (n : Nat) :
    ∃ m ≤ cs.length + 1, Rounds (runRound p) (cs, n) m (n + runLength p cs) := by
  refine exists_rounds (f := fun _ x => x.2 + runLength p x.1) (fun x => x.1.length) ?_ ?_ (cs, n)
    (Nat.lt_succ_self _)
  · rintro - ⟨cs, n⟩
    cases cs with
    | nil => rfl
    | cons c cs =>
      cases hp : p c <;> simp [runRound, runLength, hp]
      omega
  · rintro ⟨cs, n⟩ ⟨cs', n'⟩ h
    cases cs with
    | nil => cases h
    | cons c cs =>
      rw [runRound] at h
      split at h <;> cases h
      exact Nat.lt_succ_self _

theorem stringRound_elim (escape : Option Char) (quote : Char) (cs : List Char) (n : Nat) :
    (stringLength escape quote cs).map (n + ·) =
      (stringRound escape quote (cs, n)).elim
        (fun x => (stringLength escape quote x.1).map (x.2 + ·)) id := by
  cases cs with
  | nil => rfl
  | cons c rest =>
    cases rest with
    | nil =>
      simp only [stringLength, stringRound]
      split_ifs <;> simp [stringLength]
    | cons d rest =>
      simp only [stringLength, stringRound]
      split_ifs <;> simp [Function.comp_def, Nat.add_assoc, Nat.add_comm 1, Nat.add_comm 2]

theorem length_stringRound {escape : Option Char} {quote : Char} {x x' : List Char × Nat}
    (h : stringRound escape quote x = .inl x') : x'.1.length < x.1.length := by
  obtain ⟨cs, n⟩ := x
  cases cs with
  | nil => cases h
  | cons c rest =>
    simp only [stringRound] at h
    split_ifs at h
    · cases rest with
      | nil => cases h
      | cons d rest =>
        cases h
        exact Nat.lt_succ_of_lt (Nat.lt_succ_self _)
    · cases h
      exact Nat.lt_succ_self _

theorem rounds_stringLength (escape : Option Char) (quote : Char) (cs : List Char) (n : Nat) :
    ∃ m ≤ cs.length + 1,
      Rounds (stringRound escape quote) (cs, n) m ((stringLength escape quote cs).map (n + ·)) :=
  exists_rounds (f := fun _ x => (stringLength escape quote x.1).map (x.2 + ·))
    (fun x => x.1.length) (fun _ x => stringRound_elim escape quote x.1 x.2)
    (fun _ _ => length_stringRound) (cs, n) (Nat.lt_succ_self _)

namespace Scanner

variable {t : LanguageTable}

theorem loopsEnd (ht : t.Marked) (s : Scanner) : LoopsEnd t s where
  runs p := by simpa using rounds_runLength p s.rest 0
  trivia := exists_rounds (·.rest.length) (skipTrivia_succ t) (fun _ _ => length_triviaRound ht) s
    (Nat.lt_succ_self _)
  raw d hd := exists_rounds (·.rest.length) (nextRaw_succ d) (fun _ _ => length_rawRound ht hd) s
    (Nat.lt_succ_self _)
  strings quote := by simpa using rounds_stringLength t.escape quote s.rest 0

/-! ### Calls -/

/-- The scanner after some calls, whatever they returned. -/
def after (t : LanguageTable) (s : Scanner) (n : Nat) : Scanner :=
  (fun s => (s.next t).2)^[n] s

/-- What the next call returns, after some calls. -/
def answer (t : LanguageTable) (s : Scanner) (n : Nat) : Option (Except CompileError Token) :=
  ((s.after t n).next t).1

def IsToken (answer : Option (Except CompileError Token)) : Prop :=
  ∃ token, answer = some (.ok token)

theorem after_succ (s : Scanner) (n : Nat) : s.after t (n + 1) = (s.next t).2.after t n :=
  Function.iterate_succ_apply ..

theorem after_succ' (s : Scanner) (n : Nat) : s.after t (n + 1) = ((s.after t n).next t).2 :=
  Function.iterate_succ_apply' ..

theorem answer_succ (s : Scanner) (n : Nat) : s.answer t (n + 1) = (s.next t).2.answer t n := by
  rw [answer, after_succ, answer]

theorem next_of_finished {s : Scanner} (h : s.finished = true) : s.next t = (none, s) :=
  if_pos h

theorem next_token (ht : t.Marked) {s : Scanner} (hs : s.Tidy) {token : Token}
    (h : (s.next t).1 = some (.ok token)) :
    Covers t (s.spot t) [token] ((s.next t).2.spot t) ∧ (s.next t).2.Tidy := by
  have hstep := step_accounts ht hs
  rw [next, if_neg (by simp [hs.unfinished])] at h ⊢
  cases hnext : s.step t with
  | mk outcome s' =>
    rw [hnext] at hstep h
    cases hstep with
    | token hcovers hs' =>
      cases h
      exact ⟨hcovers, hs'⟩
    | finish => cases h
    | fault => cases h

theorem next_finished {s : Scanner} (h : ¬ IsToken (s.next t).1) :
    (s.next t).2.finished = true := by
  rw [next] at h ⊢
  split
  · next hfinished => exact hfinished
  · next hfinished =>
    rw [if_neg hfinished] at h
    split
    · next token s' hstep =>
      rw [hstep] at h
      exact absurd ⟨token, rfl⟩ h
    · rfl
    · rfl

theorem tidy_or_finished_after (ht : t.Marked) {s : Scanner} (hs : s.Tidy) (n : Nat) :
    (s.after t n).Tidy ∨ (s.after t n).finished = true := by
  induction n with
  | zero => exact .inl hs
  | succ n ih =>
    rw [after_succ']
    rcases ih with htidy | hfinished
    · by_cases htoken : IsToken ((s.after t n).next t).1
      · obtain ⟨token, htoken⟩ := htoken
        exact .inl (next_token ht htidy htoken).2
      · exact .inr (next_finished htoken)
    · rw [next_of_finished hfinished]
      exact .inr hfinished

theorem offset_lt_after (ht : t.Marked) {s : Scanner} (hs : s.Tidy) {n : Nat}
    (h : IsToken (s.answer t n)) :
    (s.after t n).position.offset < (s.after t (n + 1)).position.offset := by
  obtain ⟨token, htoken⟩ := h
  rw [after_succ']
  rcases tidy_or_finished_after ht hs n with htidy | hfinished
  · exact (next_token ht htidy htoken).1.offset_lt
  · rw [answer, next_of_finished hfinished] at htoken
    cases htoken

/-- Each token takes a character, so there is a call that returns none. -/
theorem exists_end (ht : t.Marked) {s : Scanner} (hs : s.Tidy) {size : Nat}
    (hsize : s.rest.length ≤ size) :
    ∃ n ≤ size, (∀ k < n, IsToken (s.answer t k)) ∧ ¬ IsToken (s.answer t n) := by
  induction size generalizing s with
  | zero =>
    refine ⟨0, Nat.le_refl 0, nofun, ?_⟩
    rintro ⟨token, htoken⟩
    have hlength : (s.next t).2.rest.length < s.rest.length := (next_token ht hs htoken).1.length_lt
    omega
  | succ size ih =>
    by_cases htoken : IsToken (s.answer t 0)
    · obtain ⟨token, htoken⟩ := htoken
      obtain ⟨hcovers, hs'⟩ := next_token ht hs htoken
      have hlength : (s.next t).2.rest.length < s.rest.length := hcovers.length_lt
      obtain ⟨n, hn, htokens, hend⟩ := ih hs' (by omega)
      refine ⟨n + 1, by omega, fun k hk => ?_, ?_⟩
      · cases k with
        | zero => exact ⟨token, htoken⟩
        | succ k =>
          rw [answer_succ]
          exact htokens k (by omega)
      · rw [answer_succ]
        exact hend
    · exact ⟨0, Nat.zero_le _, nofun, htoken⟩

theorem answer_eq_none {s : Scanner} {n k : Nat} (h : ¬ IsToken (s.answer t n)) (hk : n < k) :
    s.answer t k = none := by
  have hfinished : (s.after t k).finished = true := by
    induction k, hk using Nat.le_induction with
    | base =>
      rw [after_succ']
      exact next_finished h
    | succ k _ ih => rwa [after_succ', next_of_finished ih]
  rw [answer, next_of_finished hfinished]

theorem tidy_start (t : LanguageTable) (source : List Char) : (start t source).Tidy :=
  ⟨rfl, fun _ => rfl⟩

theorem length_le_utf8Len (cs : List Char) : cs.length ≤ String.utf8Len cs := by
  induction cs with
  | nil => exact Nat.zero_le _
  | cons c cs ih =>
    have hsize : 0 < c.utf8Size := c.utf8Size_pos
    rw [List.length_cons, String.utf8Len_cons]
    omega

/-- Every token moves the scanner on, so a source ends after no more tokens than it has bytes, all
loops on the way end, and behind the end or an error there is nothing. -/
theorem scanning_ends (ht : t.Marked) (source : String) :
    let s := start t source.toList
    (∀ n, IsToken (s.answer t n) →
      (s.after t n).position.offset < (s.after t (n + 1)).position.offset) ∧
    (∃ n ≤ source.utf8ByteSize,
      (∀ k < n, IsToken (s.answer t k)) ∧ ¬ IsToken (s.answer t n)) ∧
    (∀ n, ¬ IsToken (s.answer t n) → ∀ k > n, s.answer t k = none) ∧
    ∀ s, LoopsEnd t s := by
  intro s
  have hs : s.Tidy := tidy_start t source.toList
  refine ⟨fun n => offset_lt_after ht hs, ?_, fun n hn k => answer_eq_none hn, loopsEnd ht⟩
  apply exists_end ht hs
  rw [← String.ofList_toList (s := source), String.utf8ByteSize_ofList]
  exact length_le_utf8Len source.toList

/-- One mark opens and closes code, the mark of a line comment begins as the one of a block comment,
white space trims, and a letter is quote and escape. -/
def overlapping : LanguageTable :=
  { Arithmetic.table with
    quotes := ['q'], escape := some 'q', lineComment := some "--", blockComment := some ("-", "-")
    delimiters := some ⟨"|", "|", "|", "+", "|-", "-|", ' '⟩ }

theorem scanning_ends_overlapping :
    let source := "a |-b -| c  | 1 - 2 - 3 --| q"
    let s := start overlapping source.toList
    overlapping.Marked ∧
      (List.range 8).map (fun n =>
        (s.answer overlapping n).bind fun answer => answer.toOption.map Token.lexeme) =
          [some "a ", some "|", some "|", some " c", some "| ", some "1", some "3", none] ∧
      (∀ n, IsToken (s.answer overlapping n) →
        (s.after overlapping n).position.offset < (s.after overlapping (n + 1)).position.offset) ∧
      ∀ s, LoopsEnd overlapping s := by
  intro source s
  have ht : overlapping.Marked := by decide +kernel
  obtain ⟨hforward, -, -, hloops⟩ := scanning_ends ht source
  exact ⟨ht, by decide +kernel, hforward, hloops⟩

end Scanner

end EmbeddedLang
