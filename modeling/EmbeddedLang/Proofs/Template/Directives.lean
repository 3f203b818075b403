import EmbeddedLang.Proofs.Parser.Gives
import EmbeddedLang.Proofs.Template.Pairing
import EmbeddedLang.Proofs.Template.Segments

/-!
Which names a custom directive can have.

A name is split into opener and closer by its spelling, before anyone asks what is registered. So a
directive whose own name begins as the end of another is taken for that end.
-/

namespace EmbeddedLang.Template

open Parse

/-! ### Names -/

/-- All of the text is read as one identifier. -/
def IsIdentifier (name : String) : Prop :=
  ∃ c cs, name.toList = c :: cs ∧ read table c cs = .token .identifier name.length

theorem isIdentifier_iff {name : String} :
    IsIdentifier name ↔ IsWord name ∧ name ∉ table.keywords := by
  constructor
  · rintro ⟨c, cs, hname, hread⟩
    have hshaped := read_wellShaped hread .start
    rw [← hname, ← String.length_toList, List.take_length, String.ofList_toList] at hshaped
    have hword : IsWord name := hshaped.word rfl
    refine ⟨hword, fun hkeyword => ?_⟩
    have hkind := read_word (t := table) rfl rfl hword hname separated_nil
    rw [List.append_nil, if_pos hkeyword, hread] at hkind
    cases hkind
  · rintro ⟨hword, hunreserved⟩
    obtain ⟨c, hc, -⟩ := hword.1
    obtain ⟨cs, hcs⟩ := List.head?_eq_some_iff.mp hc
    have hread := read_word (t := table) rfl rfl hword hcs separated_nil
    rw [List.append_nil, if_neg hunreserved] at hread
    exact ⟨c, cs, hcs, hread⟩

/-- A name that begins with this ends what is called by the rest of it. -/
def IsEnd (name opened : String) : Prop :=
  name = "end" ++ opened ∧ opened ≠ ""

theorem IsEnd.toList_drop {name opened : String} (h : IsEnd name opened) :
    name.toList.drop 3 = opened.toList := by
  rw [h.1, String.toList_append, List.drop_left' (by decide)]

/-- How the parser tells an end from its spelling. -/
theorem exists_isEnd_iff {name : String} :
    (name.startsWith "end" && !(name.toList.drop 3).isEmpty) ↔ ∃ opened, IsEnd name opened := by
  rw [Bool.and_eq_true, String.startsWith_string_iff, Bool.not_eq_true', List.isEmpty_eq_false_iff]
  constructor
  · rintro ⟨⟨rest, hrest⟩, hne⟩
    have hname : name = "end" ++ String.ofList rest := by
      rw [← String.toList_inj, ← hrest]
      simp
    rw [← hrest, List.drop_left' (by decide)] at hne
    refine ⟨String.ofList rest, hname, fun hempty => hne ?_⟩
    rw [← String.toList_ofList (l := rest), hempty]
    rfl
  · rintro ⟨opened, h⟩
    rw [h.toList_drop]
    refine ⟨?_, by simpa using h.2⟩
    rw [h.1, String.toList_append]
    exact List.prefix_append _ _

theorem IsIdentifier.end {name : String} (h : IsIdentifier name) : IsIdentifier ("end" ++ name) := by
  obtain ⟨hword, hunreserved⟩ := isIdentifier_iff.mp h
  refine isIdentifier_iff.mpr ⟨⟨⟨'e', by simp, by decide⟩, ?_⟩, ?_⟩
  · rw [String.toList_append]
    exact List.forall_mem_append.mpr ⟨List.all_eq_true.mp (by decide), hword.2⟩
  · -- what the reserved ends end is reserved itself
    have hall : ∀ keyword ∈ table.keywords, "end".toList <+: keyword.toList →
        String.ofList (keyword.toList.drop 3) ∈ table.keywords := by decide +kernel
    intro hkeyword
    have hrest := hall _ hkeyword (by simp)
    rw [String.toList_append, List.drop_left' (by decide), String.ofList_toList] at hrest
    exact hunreserved hrest

/-! ### Parsing -/

/-- How a directive without arguments is taken by its name alone. -/
inductive IsNamed (p : Position) : String → Node → Prop where
  | opens {name : String} (h : ∀ opened, ¬ IsEnd name opened) : IsNamed p name (.tag p name [])
  | ends {name opened : String} (h : IsEnd name opened) : IsNamed p name (.endTag p opened)

section

variable {c : Cursor} {ts : List Token} {name : String} {node : Node} {p : Position}

theorem tagDirective_gives (h : IsNamed p name node) {close : Token}
    (hclose : close.kind = .closeStatement) : Gives (tagDirective p name)
      (c.before (close :: ts)) node (c.before (close :: ts)) := by
  unfold tagDirective
  cases h with
  | ends h =>
    rw [if_pos (exists_isEnd_iff.mpr ⟨_, h⟩), h.toList_drop, String.ofList_toList]
    exact .pure _ _
  | opens h =>
    have hno : ¬ (name.startsWith "end" && !(name.toList.drop 3).isEmpty) := fun hend =>
      (exists_isEnd_iff.mp hend).elim h
    rw [if_neg hno]
    have hat : Gives (atKind .closeStatement) (c.before (close :: ts)) true
        (c.before (close :: ts)) := at?_true (p := (·.kind == .closeStatement)) (by simp [hclose])
    exact hat.bind (.pure _ _)

/-- The tokens of a directive without arguments. -/
structure IsDirective (name : String) (first word last : Token) : Prop where
  first : first.kind = .openStatement
  word : word.piece = (.identifier, name)
  last : last.kind = .closeStatement

theorem closing_gives_of_kind {token : Token} (h : token.kind = .closeStatement) :
    Gives closing (c.before (token :: ts)) () (c.before ts) :=
  (expect_gives (p := (·.kind == .closeStatement)) (by simp [h])).bind (.pure () _)

theorem innerStatement_custom {word last : Token} (hword : word.piece = (.identifier, name))
    (hlast : last.kind = .closeStatement) (hnode : IsNamed word.position name node)
    (inner : BodyParser) (place : Place) (nodes : List Node) (started : Bool) :
    Gives (innerStatement inner place ⟨nodes, started, false, none⟩ word)
      (c.before (word :: last :: ts)) ⟨nodes ++ [node], true, false, none⟩ (c.before ts) := by
  obtain ⟨kind, lexeme, p⟩ := word
  cases hword
  have htag : Gives (tagDirective p lexeme) (c.before (last :: ts)) node (c.before (last :: ts)) :=
    tagDirective_gives hnode hlast
  have hrest : Gives (do
      let node ← directive inner place p ⟨.identifier, lexeme, p⟩
      let b := { Body.push ⟨nodes, started, false, none⟩ node with started := true }
      closing
      return b) (c.before (last :: ts)) ⟨nodes ++ [node], true, false, none⟩ (c.before ts) :=
    htag.bind ((closing_gives_of_kind hlast).bind (.pure _ _))
  exact next_gives.bind hrest

theorem bodyStep_directive {first word last : Token} (h : IsDirective name first word last)
    (hnode : IsNamed word.position name node) (inner : BodyParser) (place : Place)
    (nodes : List Node) (started : Bool) :
    Gives (bodyStep inner place [] ⟨nodes, started, false, none⟩)
      (c.before (first :: word :: last :: ts)) (some ⟨nodes ++ [node], true, false, none⟩)
      (c.before ts) := by
  obtain ⟨hfirst, hword, hlast⟩ := h
  have hinside : Gives (innerStatement inner place ⟨nodes, started, false, none⟩ word)
      (c.before (word :: last :: ts)) ⟨nodes ++ [node], true, false, none⟩ (c.before ts) :=
    innerStatement_custom hword hlast hnode inner place nodes started
  obtain ⟨_, _, p⟩ := first
  obtain ⟨_, lexeme, q⟩ := word
  cases hfirst
  cases hword
  have hstatement : Gives (statement inner place [] ⟨nodes, started, false, none⟩)
      (c.before (⟨.identifier, lexeme, q⟩ :: last :: ts)) ⟨nodes ++ [node], true, false, none⟩
      (c.before ts) := peek_before.bind hinside
  exact next_gives.bind (hstatement.bind (.pure _ _))

theorem bodyStep_rawText {token : Token} {text : String} (h : token.piece = (.rawText, text))
    (inner : BodyParser) (place : Place) (nodes : List Node) :
    Gives (bodyStep inner place [] ⟨nodes, true, false, none⟩) (c.before (token :: ts))
      (some ⟨nodes ++ [.text token.position text], true, false, none⟩) (c.before ts) := by
  obtain ⟨kind, lexeme, p⟩ := token
  cases h
  rfl

theorem parse_of_steps {source : String} {nodes : List Node}
    (hfault : (scan table source).fault = none)
    (hsteps : ∀ inner c, Steps (bodyStep inner ⟨false, false⟩ []) .top
      (Cursor.before (scan table source).tokens c) ⟨nodes, true, false, none⟩ c) :
    parse source = .ok nodes := by
  let c : Cursor := ⟨[], none, (scan table source).stop⟩
  have hsource : Cursor.ofSource table source = c.before (scan table source).tokens := by
    simp [Cursor.ofSource, Cursor.before, c, hfault]
  have hend (inner : BodyParser) :
      Gives (bodyStep inner ⟨false, false⟩ [] ⟨nodes, true, false, none⟩) c none c := rfl
  rw [parse, hsource]
  apply Gives.run?_eq
  unfold Gives
  rw [topLevel, map_eq_pure_bind]
  exact (whileSome_gives (hsteps _ c) (hend _)).bind (.pure _ c)

end

/-! ### Sources -/

/-- A directive without arguments. -/
def directiveText (name : String) : String :=
  "\x7b% " ++ name ++ " %\x7d"

def textWords (text : String) : List (TokenKind × String) :=
  if text = "" then [] else [(.rawText, text)]

theorem toList_directiveText (name : String) :
    (directiveText name).toList = '\x7b' :: '%' :: inTag [(.identifier, name)] := by
  simp [directiveText, inTag]

section

variable {name : String}

theorem readable_identifier (h : IsIdentifier name) : ∀ w ∈ [(.identifier, name)], Readable w := by
  obtain ⟨hword, hunreserved⟩ := isIdentifier_iff.mp h
  intro w hw
  cases List.mem_singleton.mp hw
  exact ⟨hword, (if_neg hunreserved).symm⟩

theorem InText.scans_custom (h : IsIdentifier name) {s : Scanner} {rest : List Char}
    {words : List (TokenKind × String)} (hs : InText s ((directiveText name).toList ++ rest))
    (hwords : ∀ s', InText s' rest → Scans s' words) :
    Scans s (tag [(.identifier, name)] ++ words) := by
  rw [toList_directiveText] at hs
  exact InText.scans_directive (readable_identifier h) hs hwords

theorem scan_inline (h : IsIdentifier name) :
    (scan table (directiveText name)).tokens.map Token.piece = tag [(.identifier, name)] ∧
      (scan table (directiveText name)).fault = none := by
  have hstart : InText (Scanner.start table (directiveText name).toList)
      ((directiveText name).toList ++ []) := ⟨(List.append_nil _).symm, rfl, rfl, rfl⟩
  have hscans := hstart.scans_custom h fun _ => InText.scans_nil
  rw [List.append_nil] at hscans
  exact hscans _ (Nat.lt_succ_self _)

theorem scan_block (h : IsIdentifier name) {text : String}
    (htext : Unopened text.toList "\x7b%".toList) :
    let source := directiveText name ++ text ++ directiveText ("end" ++ name)
    (scan table source).tokens.map Token.piece =
        tag [(.identifier, name)] ++ (textWords text ++ tag [(.identifier, "end" ++ name)]) ∧
      (scan table source).fault = none := by
  intro source
  have hsource : source.toList = (directiveText name).toList ++
      (text.toList ++ ((directiveText ("end" ++ name)).toList ++ [])) := by
    simp [source]
  have hend : ∀ s', InText s' ((directiveText ("end" ++ name)).toList ++ []) →
      Scans s' (tag [(.identifier, "end" ++ name)]) := by
    intro s' hs'
    have hscans := hs'.scans_custom h.end fun _ => InText.scans_nil
    rwa [List.append_nil] at hscans
  have hbody : ∀ s', InText s' (text.toList ++ ((directiveText ("end" ++ name)).toList ++ [])) →
      Scans s' (textWords text ++ tag [(.identifier, "end" ++ name)]) := by
    intro s' hs'
    by_cases hne : text = ""
    · subst hne
      exact hend s' hs'
    · rw [textWords, if_neg hne]
      have hshape : ∃ after, (directiveText ("end" ++ name)).toList ++ [] =
          '\x7b' :: '%' :: ' ' :: after := by
        rw [toList_directiveText]
        exact ⟨_, rfl⟩
      obtain ⟨after, hafter⟩ := hshape
      refine hs'.scans_text ?_ hne (.inr ⟨' ', after, hafter, by decide⟩) hend
      rw [hafter]
      exact htext
  have hstart : InText (Scanner.start table source.toList) source.toList := ⟨rfl, rfl, rfl, rfl⟩
  rw [hsource] at hstart
  rw [scan, hsource]
  exact hstart.scans_custom h hbody _ (Nat.lt_succ_self _)

theorem exists_directive_of_pieces {tokens : List Token} {words : List (TokenKind × String)}
    (h : tokens.map Token.piece = tag [(.identifier, name)] ++ words) :
    ∃ first word last rest, tokens = first :: word :: last :: rest ∧
      IsDirective name first word last ∧ rest.map Token.piece = words := by
  obtain ⟨first, others, rfl, hfirst, h⟩ := List.map_eq_cons_iff.mp h
  obtain ⟨word, others, rfl, hword, h⟩ := List.map_eq_cons_iff.mp h
  obtain ⟨last, rest, rfl, hlast, h⟩ := List.map_eq_cons_iff.mp h
  exact ⟨first, word, last, rest, rfl, ⟨congrArg Prod.fst hfirst, hword, congrArg Prod.fst hlast⟩, h⟩

theorem length_before_lt (c : Cursor) (first word last : Token) (rest : List Token) :
    (c.before rest).tokens.length < (c.before (first :: word :: last :: rest)).tokens.length := by
  simp only [Cursor.before, List.length_append, List.length_cons]
  omega

theorem parse_inline (h : IsIdentifier name) :
    ∃ p, ∀ node, IsNamed p name node → parse (directiveText name) = .ok [node] := by
  obtain ⟨hpieces, hfault⟩ := scan_inline h
  obtain ⟨first, word, last, rest, htokens, hdirective, hrest⟩ :=
    exists_directive_of_pieces (hpieces.trans (List.append_nil _).symm)
  obtain rfl := List.map_eq_nil_iff.mp hrest
  refine ⟨word.position, fun node hnode => parse_of_steps hfault fun inner c => ?_⟩
  rw [htokens]
  exact .head (bodyStep_directive hdirective hnode inner _ [] false) (length_before_lt c _ _ _ _)
    (.refl _ c)

def textNodes (p : Position) (text : String) : List Node :=
  if text = "" then [] else [.text p text]

/-- A text is one step, and no text is none. -/
theorem exists_text_of_pieces {text : String} {tokens : List Token}
    {words : List (TokenKind × String)} (h : tokens.map Token.piece = textWords text ++ words) :
    ∃ p rest, rest.map Token.piece = words ∧ ∀ inner place nodes (b : Body) (c : Cursor),
      Steps (bodyStep inner place []) ⟨nodes ++ textNodes p text, true, false, none⟩
        (c.before rest) b c →
      Steps (bodyStep inner place []) ⟨nodes, true, false, none⟩ (c.before tokens) b c := by
  by_cases hempty : text = ""
  · rw [textWords, if_pos hempty] at h
    refine ⟨.start, tokens, h, fun inner place nodes b c hsteps => ?_⟩
    rwa [textNodes, if_pos hempty, List.append_nil] at hsteps
  · rw [textWords, if_neg hempty] at h
    obtain ⟨token, rest, rfl, htoken, hrest⟩ := List.map_eq_cons_iff.mp h
    refine ⟨token.position, rest, hrest, fun inner place nodes b c hsteps => ?_⟩
    rw [textNodes, if_neg hempty] at hsteps
    exact .head (bodyStep_rawText htoken inner place nodes) (by simp [Cursor.before]) hsteps

theorem parse_block (h : IsIdentifier name) {text : String}
    (htext : Unopened text.toList "\x7b%".toList) : ∃ p q r, ∀ node, IsNamed p name node →
      parse (directiveText name ++ text ++ directiveText ("end" ++ name)) =
        .ok (node :: (textNodes q text ++ [.endTag r name])) := by
  obtain ⟨hpieces, hfault⟩ := scan_block h htext
  obtain ⟨first, word, last, rest, htokens, hopener, hrest⟩ := exists_directive_of_pieces hpieces
  obtain ⟨q, rest', hrest', hsteps⟩ := exists_text_of_pieces hrest
  obtain ⟨first', word', last', _, rfl, hcloser, hnil⟩ :=
    exists_directive_of_pieces (hrest'.trans (List.append_nil _).symm)
  obtain rfl := List.map_eq_nil_iff.mp hnil
  have hend : IsEnd ("end" ++ name) name := by
    refine ⟨rfl, ?_⟩
    rintro rfl
    obtain ⟨c, cs, hname, -⟩ := h
    cases hname
  refine ⟨word.position, q, word'.position, fun node hnode => parse_of_steps hfault ?_⟩
  intro inner c
  rw [htokens]
  refine .head (bodyStep_directive hopener hnode inner _ [] false) (length_before_lt ..) ?_
  apply hsteps inner _ [node]
  exact .head (bodyStep_directive hcloser (.ends hend) inner _ _ true) (length_before_lt ..)
    (.refl _ c)

/-! ### Lowering -/

/-- A template that is one custom directive. -/
def extensionOnly (name : String) (body : Option (List Instruction)) : CompiledTemplate :=
  ⟨[.extension name [] body], [], none, ⟨[], []⟩⟩

theorem lower_inline (o : Options) (h : Dictionary.get? name o.extensions = some .inline)
    (p : Position) : lower o [.tag p name []] = .ok (extensionOnly name none) := by
  have hruns : runSiblings o.extensions (lowerNodes o.extensions o.autoescape [.tag p name []]) =
      pure [.extension name [] none] := by
    simp [lowerNodes, lowerNode, runSiblings, h, join_nil]
  rw [lower, hruns]
  rfl

theorem runSiblings_text (t : ExtensionTable) (escape : Bool) (p : Position) (text : String) :
    runSiblings t (lowerNodes t escape (textNodes p text)) = pure (literalText text) := by
  by_cases hempty : text = ""
  · simp [textNodes, hempty, lowerNodes, runSiblings, literalText]
  · simp [textNodes, hempty, lowerNodes, lowerNode, runSiblings, join_nil]

theorem lower_block (o : Options) (h : Dictionary.get? name o.extensions = some .block)
    (p q r : Position) (text : String) :
    lower o (.tag p name [] :: (textNodes q text ++ [.endTag r name])) =
      .ok (extensionOnly name (some (literalText text))) := by
  have hsplit : splitAtClosing name 0
      (lowerNodes o.extensions o.autoescape (textNodes q text) ++ [.closing r name]) =
        some (lowerNodes o.extensions o.autoescape (textNodes q text), []) := by
    by_cases hempty : text = ""
    · simp [textNodes, hempty, lowerNodes, splitAtClosing]
    · simp [textNodes, hempty, lowerNodes, lowerNode, splitAtClosing]
  have hruns : runSiblings o.extensions (lowerNodes o.extensions o.autoescape
      (.tag p name [] :: (textNodes q text ++ [.endTag r name]))) =
        pure [.extension name [] (some (literalText text))] := by
    rw [lowerNodes_pair, lowerNodes, runSiblings_pair h hsplit, runSiblings_text]
    simp [runSiblings, join_nil]
  rw [lower, hruns]
  rfl

theorem lower_ends (o : Options) (p : Position) (opened : String) (rest : List Node) :
    lower o (.endTag p opened :: rest) = .error (strayEnd o.extensions p opened) := by
  rw [lower, lowerNodes, lowerNode, runSiblings]
  rfl

end

/-- A registered directive can be used, unless its name is that of an end by its spelling: then the
template ends something that is not open. -/
theorem registered_usable (o : Options) (name : String) (hname : IsIdentifier name) :
    ((∀ opened, ¬ IsEnd name opened) →
      (Dictionary.get? name o.extensions = some .inline →
        compile o (directiveText name) = .ok (extensionOnly name none)) ∧
      (Dictionary.get? name o.extensions = some .block →
        ∀ text : String, Unopened text.toList "\x7b%".toList →
          compile o (directiveText name ++ text ++ directiveText ("end" ++ name)) =
            .ok (extensionOnly name (some (literalText text))))) ∧
    ∀ opened, IsEnd name opened →
      (∃ p, compile o (directiveText name) = .error (strayEnd o.extensions p opened)) ∧
      ∀ text : String, Unopened text.toList "\x7b%".toList →
        ∃ p, compile o (directiveText name ++ text ++ directiveText ("end" ++ name)) =
          .error (strayEnd o.extensions p opened) := by
  refine ⟨fun hopens => ⟨fun hinline => ?_, fun hblock text htext => ?_⟩,
    fun opened hend => ⟨?_, fun text htext => ?_⟩⟩
  · obtain ⟨p, hparse⟩ := parse_inline hname
    rw [compile, hparse _ (.opens hopens)]
    exact lower_inline o hinline p
  · obtain ⟨p, q, r, hparse⟩ := parse_block hname htext
    rw [compile, hparse _ (.opens hopens)]
    exact lower_block o hblock p q r text
  · obtain ⟨p, hparse⟩ := parse_inline hname
    rw [compile, hparse _ (.ends hend)]
    exact ⟨p, lower_ends o p opened []⟩
  · obtain ⟨p, q, r, hparse⟩ := parse_block hname htext
    rw [compile, hparse _ (.ends hend)]
    exact ⟨p, lower_ends o p opened _⟩

/-- A brace by itself is text. -/
theorem registered_usable_panel :
    compile ⟨[("panel", .block)], true⟩ "\x7b% panel %\x7da \x7b b\x7b% endpanel %\x7d" =
      .ok (extensionOnly "panel" (some [.literal "a \x7b b"])) := by
  have hname : IsIdentifier "panel" := isIdentifier_iff.mpr (by decide)
  have hopens (opened : String) : ¬ IsEnd "panel" opened := by
    intro hend
    have hstarts := exists_isEnd_iff.mpr ⟨opened, hend⟩
    revert hstarts
    decide +kernel
  have hsource : directiveText "panel" ++ "a \x7b b" ++ directiveText ("end" ++ "panel") =
      "\x7b% panel %\x7da \x7b b\x7b% endpanel %\x7d" := by decide +kernel
  have htext : Unopened "a \x7b b".toList "\x7b%".toList := by decide +kernel
  have hpanel := (registered_usable ⟨[("panel", .block)], true⟩ "panel" hname).1 hopens
  rw [← hsource]
  exact hpanel.2 rfl "a \x7b b" htext

/-- An inline directive whose name looks like the end of `less`. -/
theorem endless_not_usable :
    IsIdentifier "endless" ∧ Dictionary.get? "endless" [("endless", TagKind.inline)] = some .inline ∧
      compile ⟨[("endless", .inline)], true⟩ (directiveText "endless") ≠
        .ok (extensionOnly "endless" none) := by
  have hrefused :
      (compile ⟨[("endless", .inline)], true⟩ (directiveText "endless")).isOk = false := by
    decide +kernel
  refine ⟨isIdentifier_iff.mpr (by decide), rfl, fun h => ?_⟩
  rw [h] at hrefused
  cases hrefused

end EmbeddedLang.Template
