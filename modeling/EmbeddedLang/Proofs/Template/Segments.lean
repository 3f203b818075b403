import EmbeddedLang.Proofs.Template.Markers

/-!
Sources of templates put together from text and block directives, and what the scanner makes of
them.
-/

namespace EmbeddedLang.Template

open Scanner

/-- A word that the language does not reserve. -/
structure Name where
  text : String
  isWord : IsWord text
  unreserved : text ∉ table.keywords

/-- Text that opens nothing. -/
structure PlainText where
  text : String
  plain : '\x7b' ∉ text.toList

def PlainText.append (t u : PlainText) : PlainText where
  text := t.text ++ u.text
  plain := by simp [t.plain, u.plain]

inductive Opening where
  | choice (condition : Name)
  | loop (value iterable : Name)
  | fragment (key : Name)
  | autoescape (enabled : Bool)

/-- Directives at which a body ends. -/
inductive Closing where
  | elseif (condition : Name)
  | otherwise
  | endif
  | elsefor
  | endfor
  | endcache
  | endautoescape

inductive Segment where
  | text (text : PlainText)
  | opening (directive : Opening)
  | closing (directive : Closing)

/-! ### Tokens and characters -/

def keyword (word : String) : TokenKind × String :=
  (.keyword word, word)

def Name.token (name : Name) : TokenKind × String :=
  (.identifier, name.text)

def Opening.arguments : Opening → List (TokenKind × String)
  | choice e => [e.token]
  | loop x e => [x.token, keyword "in", e.token]
  | fragment e => [e.token]
  | autoescape enabled => [keyword (if enabled then "true" else "false")]

def Opening.word : Opening → String
  | choice _ => "if"
  | loop .. => "for"
  | fragment _ => "cache"
  | autoescape _ => "autoescape"

def Closing.arguments : Closing → List (TokenKind × String)
  | elseif e => [e.token]
  | _ => []

def Closing.word : Closing → String
  | elseif _ => "elseif"
  | otherwise => "else"
  | endif => "endif"
  | elsefor => "elsefor"
  | endfor => "endfor"
  | endcache => "endcache"
  | endautoescape => "endautoescape"

def closeTag : TokenKind × String :=
  (.closeStatement, "%\x7d")

def tag (words : List (TokenKind × String)) : List (TokenKind × String) :=
  (.openStatement, "\x7b%") :: (words ++ [closeTag])

def Segment.tokens : Segment → List (TokenKind × String)
  | text t => [(.rawText, t.text)]
  | opening o => tag (keyword o.word :: o.arguments)
  | closing k => tag (keyword k.word :: k.arguments)

def inTag (words : List (TokenKind × String)) : List Char :=
  words.flatMap (fun w => ' ' :: w.2.toList) ++ [' ', '%', '\x7d']

def Segment.chars : Segment → List Char
  | text t => t.text.toList
  | opening o => '\x7b' :: '%' :: inTag (keyword o.word :: o.arguments)
  | closing k => '\x7b' :: '%' :: inTag (keyword k.word :: k.arguments)

def source (segments : List Segment) : String :=
  String.ofList (segments.flatMap Segment.chars)

/-- Texts side by side are one text, and an empty one is none. -/
def push : Segment → List Segment → List Segment
  | .text t, .text u :: rest => .text (t.append u) :: rest
  | .text t, rest => if t.text = "" then rest else .text t :: rest
  | s, rest => s :: rest

def joined (segments : List Segment) : List Segment :=
  segments.foldr push []

/-! ### Joined texts -/

def Segment.text? : Segment → Option PlainText
  | text t => some t
  | _ => none

/-- No text is empty or beside another. -/
inductive Apart : List Segment → Prop where
  | nil : Apart []
  | directive {s : Segment} {rest : List Segment} (hs : s.text? = none) (hrest : Apart rest) :
      Apart (s :: rest)
  | text {t : PlainText} {rest : List Segment} (ht : t.text ≠ "")
      (hnext : ∀ s ∈ rest.head?, s.text? = none) (hrest : Apart rest) : Apart (.text t :: rest)

theorem chars_push (s : Segment) (rest : List Segment) :
    (push s rest).flatMap Segment.chars = s.chars ++ rest.flatMap Segment.chars := by
  fun_cases push s rest with
  | case1 t u rest => simp [Segment.chars, PlainText.append]
  | case2 t rest _ hempty => simp [Segment.chars, hempty]
  | case3 t rest _ hempty => rfl
  | case4 s rest hs => rfl

theorem chars_joined (segments : List Segment) :
    (joined segments).flatMap Segment.chars = segments.flatMap Segment.chars := by
  induction segments with
  | nil => rfl
  | cons s rest ih =>
    have hpush := chars_push s (joined rest)
    rw [ih] at hpush
    exact hpush

theorem Apart.push {rest : List Segment} (h : Apart rest) (s : Segment) : Apart (push s rest) := by
  fun_cases Template.push s rest with
  | case1 t u rest =>
    cases h with
    | directive hs => cases hs
    | text hu hnext hrest =>
      refine .text (fun hempty => hu ?_) hnext hrest
      exact (String.append_eq_empty_iff.mp hempty).2
  | case2 t rest hother hempty => exact h
  | case3 t rest hother hempty =>
    refine .text hempty (fun s hs => ?_) h
    cases s with
    | text u =>
      obtain ⟨tail, htail⟩ := List.head?_eq_some_iff.mp hs
      exact absurd htail (hother u tail)
    | opening o => rfl
    | closing k => rfl
  | case4 s rest _ hs =>
    refine .directive ?_ h
    cases s with
    | text t => exact (hs t rfl).elim
    | opening o => rfl
    | closing k => rfl

theorem joined_apart (segments : List Segment) : Apart (joined segments) := by
  induction segments with
  | nil => exact .nil
  | cons s rest ih => exact ih.push s

/-! ### Scanning -/

/-- The word is read as what it says it is. -/
def Readable (w : TokenKind × String) : Prop :=
  IsWord w.2 ∧ w.1 = if w.2 ∈ table.keywords then .keyword w.2 else .identifier

theorem Name.readable (name : Name) : Readable name.token :=
  ⟨name.isWord, (if_neg name.unreserved).symm⟩

theorem readable_keyword {word : String} (h : word ∈ table.keywords) : Readable (keyword word) := by
  have hall : ∀ word ∈ table.keywords, IsWord word := by decide +kernel
  exact ⟨hall word h, (if_pos h).symm⟩

theorem Opening.readable (o : Opening) : ∀ w ∈ keyword o.word :: o.arguments, Readable w := by
  have hword : Readable (keyword o.word) := by
    cases o <;> exact readable_keyword (by simp [word, table])
  refine List.forall_mem_cons.mpr ⟨hword, ?_⟩
  cases o with
  | choice e => simp [arguments, e.readable]
  | loop x e =>
    have hin : Readable (keyword "in") := readable_keyword (by decide)
    simp [arguments, x.readable, e.readable, hin]
  | fragment e => simp [arguments, e.readable]
  | autoescape enabled =>
    have hswitch : Readable (keyword (if enabled then "true" else "false")) := by
      cases enabled <;> exact readable_keyword (by decide)
    simpa [arguments] using hswitch

theorem Closing.readable (k : Closing) : ∀ w ∈ keyword k.word :: k.arguments, Readable w := by
  have hword : Readable (keyword k.word) := by
    cases k <;> exact readable_keyword (by simp [word, table])
  refine List.forall_mem_cons.mpr ⟨hword, ?_⟩
  cases k with
  | elseif e => simp [arguments, e.readable]
  | _ => simp [arguments]

/-- Whatever fuel is enough, the scanner reads these tokens and then ends. -/
def Scans (s : Scanner) (words : List (TokenKind × String)) : Prop :=
  ∀ fuel, s.rest.length < fuel →
    (scanFrom table fuel s).tokens.map Token.piece = words ∧ (scanFrom table fuel s).fault = none

theorem Scans.cons {s s' : Scanner} {token : Token} {words : List (TokenKind × String)}
    (hnext : s.next table = (some (.ok token), s')) (h : Scans s' words)
    (hlength : s'.rest.length < s.rest.length) : Scans s (token.piece :: words) := by
  intro fuel hfuel
  obtain ⟨fuel, rfl⟩ := Nat.exists_eq_succ_of_ne_zero (Nat.ne_zero_of_lt hfuel)
  obtain ⟨htokens, hfault⟩ := h fuel (by omega)
  rw [scanFrom, hnext]
  exact ⟨by simp [htokens], hfault⟩

/-- In a directive, with `rest` ahead. -/
structure InCode (s : Scanner) (rest : List Char) : Prop where
  rest : s.rest = rest
  mode : s.mode = .language
  trimNextRaw : s.trimNextRaw = false
  openBraces : s.openBraces = 0
  finished : s.finished = false

theorem InText.scans_nil {s : Scanner} (h : InText s []) : Scans s [] := by
  intro fuel hfuel
  obtain ⟨fuel, rfl⟩ := Nat.exists_eq_succ_of_ne_zero (Nat.ne_zero_of_lt hfuel)
  rw [scanFrom, h.next_nil]
  exact ⟨rfl, rfl⟩

theorem InText.scans_text {s : Scanner} {text : String} {rest : List Char}
    {words : List (TokenKind × String)} (h : InText s (text.toList ++ rest))
    (htext : Unopened text.toList rest) (hne : text ≠ "")
    (hrest : rest = [] ∨ ∃ c after, rest = '\x7b' :: '%' :: c :: after ∧ c ≠ '-')
    (hwords : ∀ s', InText s' rest → Scans s' words) : Scans s ((.rawText, text) :: words) := by
  have hne : text.toList ≠ [] := by simpa using hne
  let token := s.cut .rawText text.toList.length
  let s' := s.skip text.toList.length
  have htoken : token.piece = (.rawText, text) := by
    simp [token, Token.piece, Scanner.cut, h.rest]
  have hs' : InText s' rest := by
    refine ⟨?_, h.mode, h.trimNextRaw, h.finished⟩
    simp [s', Scanner.skip, h.rest]
  have hstep : s.step table = (.ok (some token), s') := by
    rcases hrest with rfl | ⟨c, after, rfl, hc⟩
    · have hfirst := firstOpener_none htext
      simp [Scanner.step, h.mode, table, Scanner.nextRaw, h.trimNextRaw, h.rest, hne, hfirst,
        token, s']
    · have hfirst : firstOpener .braces (text.toList ++ '\x7b' :: '%' :: c :: after) =
          some (text.toList.length, "\x7b%") := by
        rw [firstOpener_append htext, firstOpener_front List.mem_cons_self, Option.map_some,
          moved, Nat.zero_add]
      have hwidth : "\x7b%".length = 2 := by decide
      have htrim : ¬ c = Delimiters.braces.trim := hc
      simp [Scanner.step, h.mode, table, Scanner.nextRaw, h.trimNextRaw, h.rest, hne, hfirst,
        hwidth, htrim, token, s']
  have hlength : s'.rest.length < s.rest.length := by
    have hpos : 0 < text.toList.length := List.length_pos_iff.mpr hne
    rw [hs'.rest, h.rest, List.length_append]
    omega
  exact htoken ▸ Scans.cons (next_of_step h.finished hstep) (hwords s' hs') hlength

theorem InText.scans_tag {s : Scanner} {c : Char} {after : List Char}
    {words : List (TokenKind × String)} (h : InText s ('\x7b' :: '%' :: c :: after)) (hc : c ≠ '-')
    (hwords : ∀ s', InCode s' (c :: after) → Scans s' words) :
    Scans s ((.openStatement, "\x7b%") :: words) := by
  have hnext := h.next_opener List.mem_cons_self hc
  refine Scans.cons hnext (hwords _ ⟨rfl, rfl, h.trimNextRaw, rfl, h.finished⟩) ?_
  simp [h.rest]

/-- There are no comments in a directive. -/
theorem InCode.ahead {s : Scanner} {rest : List Char} (h : InCode s rest) :
    s.Ahead table s.skipBlanks :=
  ⟨h.finished, h.mode, rfl⟩

theorem InCode.skipBlanks_rest {s : Scanner} {c : Char} {rest : List Char}
    (h : InCode s (' ' :: c :: rest)) (hc : Text.isBlank c = false) :
    s.skipBlanks.rest = c :: rest := by
  rw [EmbeddedLang.skipBlanks_rest, h.rest, List.dropWhile_cons_of_pos (by decide),
    List.dropWhile_cons_of_neg (by simp [hc])]

theorem closer?_wordStart {c : Char} {cs : List Char} (hc : isWordStart c) :
    closer? .braces (c :: cs) = none := by
  have hcode := toNat_of_isWordStart hc
  apply closer?_braces
  all_goals
    rintro rfl
    exact absurd hcode (by decide)

theorem InCode.scans_word {s : Scanner} {w : TokenKind × String} {rest : List Char}
    {words : List (TokenKind × String)} (h : InCode s (' ' :: (w.2.toList ++ rest))) (hw : Readable w)
    (hrest : Separated rest) (hwords : ∀ s', InCode s' rest → Scans s' words) :
    Scans s (w :: words) := by
  obtain ⟨c, hc, hstart⟩ := hw.1.1
  obtain ⟨cs, hcs⟩ := List.head?_eq_some_iff.mp hc
  have hskip : s.skipBlanks.rest = w.2.toList ++ rest := by
    rw [hcs] at h ⊢
    exact h.skipBlanks_rest (isBlank_of_isWordStart hstart)
  have hread : read table c (cs ++ rest) = .token w.1 w.2.length := by
    rw [read_word rfl rfl hw.1 hcs hrest, hw.2]
  have hnext := h.ahead.next_eq hskip hcs (closer?_wordStart hstart) hread
  have hbraces : bracesAfter w.1 s.skipBlanks.openBraces = 0 := by
    have hnone : s.skipBlanks.openBraces = 0 := h.openBraces
    rw [hw.2, hnone]
    split <;> rfl
  refine Scans.cons hnext (hwords _ ⟨rfl, h.mode, h.trimNextRaw, hbraces, h.finished⟩) ?_
  rw [h.rest]
  simp only [behind, List.length_cons, List.length_append]
  omega

theorem InCode.scans_close {s : Scanner} {rest : List Char} {words : List (TokenKind × String)}
    (h : InCode s (' ' :: '%' :: '\x7d' :: rest)) (hwords : ∀ s', InText s' rest → Scans s' words) :
    Scans s (closeTag :: words) := by
  have hskip : s.skipBlanks.rest = '%' :: '\x7d' :: rest := h.skipBlanks_rest (by decide)
  have hnext := next_closer List.mem_cons_self h.ahead hskip h.openBraces
  refine Scans.cons hnext (hwords _ ⟨rfl, rfl, h.trimNextRaw, h.finished⟩) ?_
  rw [h.rest]
  simp only [List.length_cons]
  omega

theorem InCode.scans_words {ws : List (TokenKind × String)} (hws : ∀ w ∈ ws, Readable w)
    {s : Scanner} {rest : List Char} {words : List (TokenKind × String)}
    (h : InCode s (inTag ws ++ rest)) (hwords : ∀ s', InText s' rest → Scans s' words) :
    Scans s (ws ++ closeTag :: words) := by
  induction ws generalizing s with
  | nil => exact h.scans_close hwords
  | cons w ws ih =>
    obtain ⟨hw, hws⟩ := List.forall_mem_cons.mp hws
    have hrest : inTag (w :: ws) ++ rest = ' ' :: (w.2.toList ++ (inTag ws ++ rest)) := by
      simp [inTag]
    have hseparated : Separated (inTag ws ++ rest) := by
      cases ws <;> exact separated_cons _
    rw [hrest] at h
    exact h.scans_word hw hseparated fun s' hs' => ih hws hs'

theorem InText.scans_directive {ws : List (TokenKind × String)} (hws : ∀ w ∈ ws, Readable w)
    {s : Scanner} {rest : List Char} {words : List (TokenKind × String)}
    (h : InText s ('\x7b' :: '%' :: (inTag ws ++ rest)))
    (hwords : ∀ s', InText s' rest → Scans s' words) : Scans s (tag ws ++ words) := by
  have hblank : ∃ after, inTag ws ++ rest = ' ' :: after := by
    cases ws <;> exact ⟨_, rfl⟩
  obtain ⟨after, hafter⟩ := hblank
  rw [hafter] at h
  have hcode : ∀ s', InCode s' (' ' :: after) → Scans s' (ws ++ closeTag :: words) := by
    rw [← hafter]
    exact fun s' hs' => hs'.scans_words hws hwords
  have htag := h.scans_tag (by decide) hcode
  simpa [tag] using htag

/-- A template goes on with its end or with a directive. -/
theorem chars_of_directive {segments : List Segment}
    (h : ∀ s ∈ segments.head?, s.text? = none) :
    segments.flatMap Segment.chars = [] ∨ ∃ c after,
      segments.flatMap Segment.chars = '\x7b' :: '%' :: c :: after ∧ c ≠ '-' := by
  cases segments with
  | nil => exact .inl rfl
  | cons s rest =>
    cases s with
    | text t =>
      have htext := h (.text t) rfl
      cases htext
    | opening o => exact .inr ⟨' ', _, rfl, by decide⟩
    | closing k => exact .inr ⟨' ', _, rfl, by decide⟩

theorem Apart.scans {segments : List Segment} (h : Apart segments) {s : Scanner}
    (hs : InText s (segments.flatMap Segment.chars)) :
    Scans s (segments.flatMap Segment.tokens) := by
  induction h generalizing s with
  | nil => exact hs.scans_nil
  | @directive segment rest hdirective _ ih =>
    rw [List.flatMap_cons] at hs ⊢
    cases segment with
    | text t => cases hdirective
    | opening o => exact InText.scans_directive o.readable hs fun _ => ih
    | closing k => exact InText.scans_directive k.readable hs fun _ => ih
  | @text t rest ht hnext _ ih =>
    exact InText.scans_text hs (.of_not_mem t.plain _) ht (chars_of_directive hnext) fun _ => ih

theorem scan_source (segments : List Segment) :
    (scan table (source segments)).tokens.map Token.piece =
        (joined segments).flatMap Segment.tokens ∧
      (scan table (source segments)).fault = none := by
  have hstart : InText (Scanner.start table (source segments).toList)
      ((joined segments).flatMap Segment.chars) := by
    refine ⟨?_, rfl, rfl, rfl⟩
    rw [chars_joined]
    exact String.toList_ofList
  exact (joined_apart segments).scans hstart _ (Nat.lt_succ_self _)

end EmbeddedLang.Template
