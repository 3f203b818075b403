import EmbeddedLang.Proofs.Arithmetic.Expressible
import EmbeddedLang.Proofs.Lexical.Literals

/-!
Scanning what the printer writes: the tokens are the pieces of the tree.
-/

namespace EmbeddedLang

namespace Arithmetic

/-! ### Strings -/

theorem escaped_of_mem {c : Char} (h : c = '\'' ∨ c = '\\') : escaped c = ['\\', c] :=
  if_pos h

theorem escaped_of_not_mem {c : Char} (h : ¬ (c = '\'' ∨ c = '\\')) : escaped c = [c] :=
  if_neg h

theorem spells_escaped (c : Char) : Spells '\\' '\'' [c] (escaped c) := by
  by_cases h : c = '\'' ∨ c = '\\'
  · rw [escaped_of_mem h]
    rcases h with rfl | rfl <;> exact .escaped rfl .nil
  · obtain ⟨hquote, hescape⟩ := not_or.mp h
    rw [escaped_of_not_mem h]
    exact .plain hescape hquote .nil

theorem spells_quoted (s : String) : Spells '\\' '\'' s.toList (s.toList.flatMap escaped) :=
  .flatMap spells_escaped s.toList

theorem unescape_quoted (s : String) : table.unescape (quoted s) = s := by
  have hunescape : table.unescape (quoted s) = String.ofList s.toList :=
    (spells_quoted s).unescape_eq rfl
  rw [hunescape, String.ofList_toList]

/-! ### Integers -/

theorem toString_of_nonneg {n : Int64} (h : 0 ≤ n) : toString n = toString n.toNatClampNeg := by
  have hn : 0 ≤ n.toInt := Int64.le_iff_toInt_le.mp h
  obtain ⟨k, hk⟩ := Int.eq_ofNat_of_zero_le hn
  have hclamp : n.toNatClampNeg = k := by
    change n.toInt.toNat = k
    rw [hk]
    rfl
  change toString n.toInt = _
  rw [hclamp, hk]
  rfl

/-! ### Tokens -/

def kind : Atom → TokenKind
  | .symbol s => if s ∈ table.keywords then .keyword s else .operator s
  | .name _ => .identifier
  | .property s => if s ∈ table.keywords then .keyword s else .identifier
  | .literal .null => .keyword table.nullKeyword
  | .literal (.boolean true) => .keyword table.trueKeyword
  | .literal (.boolean false) => .keyword table.falseKeyword
  | .literal (.integer _) => .integer
  | .literal (.string _) | .key _ => .string
  | .literal (.float _) | .foreign => .rawText

/-- The pieces that a token of the language can be. -/
inductive Writable : Atom → Prop where
  | symbol {s : String} (h : s ∈ table.operators ++ table.keywords) : Writable (.symbol s)
  | name {s : String} (h : IsName s) : Writable (.name s)
  | property {s : String} (h : IsWord s) : Writable (.property s)
  | null : Writable (.literal .null)
  | boolean {b : Bool} : Writable (.literal (.boolean b))
  | integer {n : Int64} (h : 0 ≤ n) : Writable (.literal (.integer n))
  | string {s : String} : Writable (.literal (.string s))
  | key {s : String} : Writable (.key s)

/-- The language has no comments. -/
theorem comment_table (cs : List Char) : comment table cs = .absent := rfl

theorem readAs_word {w : String} (h : IsWord w) :
    ReadAs table (if w ∈ table.keywords then .keyword w else .identifier) w := by
  obtain ⟨c, hc, hstart⟩ := h.1
  obtain ⟨cs, hcs⟩ := List.head?_eq_some_iff.mp hc
  exact ⟨c, cs, hcs, isBlank_of_isWordStart hstart, fun rest hrest =>
    ⟨comment_table _, read_word rfl rfl h hcs hrest⟩⟩

theorem readAs_operator {s : String} (h : s ∈ table.operators) :
    ReadAs table (.operator s) s := by
  have hall : ∀ s ∈ table.operators, table.longestOperator? s.toList = some s ∧
      ' ' ∉ s.toList ∧ s.toList.head?.any fun c => !Text.isBlank c &&
        !table.quotes.contains c && !c.isDigit && !isWordStart c := by
    decide +kernel
  have hblanks : ∀ op ∈ table.operators, ' ' ∉ op.toList := fun op hop => (hall op hop).2.1
  obtain ⟨hlongest, -, hfirst⟩ := hall s h
  obtain ⟨c, hc, hstart⟩ := (Option.any_eq_true _ _).mp hfirst
  simp only [Bool.and_eq_true, Bool.not_eq_true'] at hstart
  obtain ⟨⟨⟨hblank, hquote⟩, hdigit⟩, hword⟩ := hstart
  obtain ⟨cs, hcs⟩ := List.head?_eq_some_iff.mp hc
  refine ⟨c, cs, hcs, hblank, fun rest hrest => ⟨comment_table _, ?_⟩⟩
  have hread : table.longestOperator? (c :: (cs ++ rest)) = some s := by
    rw [← List.cons_append, ← hcs,
      longestOperator?_separated hblanks hrest, hlongest]
  unfold read
  rw [hquote, hdigit, hword]
  simp only [Bool.false_eq_true, if_false]
  have hbracket : (c == '[' && table.bracketIdentifiers) = false := Bool.and_false _
  rw [hbracket]
  change readOperator table c (cs ++ rest) = _
  unfold readOperator
  rw [hread]

theorem readAs_integer {n : Int64} (h : 0 ≤ n) : ReadAs table .integer (toString n) := by
  rw [toString_of_nonneg h]
  obtain ⟨d, ds, hds, hd, hdigits⟩ := exists_digits n.toNatClampNeg
  exact ⟨d, ds, hds, isBlank_of_isDigit hd,
    fun rest hrest => ⟨comment_table _, read_digits rfl hds hd hdigits hrest⟩⟩

theorem readAs_quoted (s : String) : ReadAs table .string (quoted s) := by
  refine ⟨'\'', s.toList.flatMap escaped ++ ['\''], ?_, by decide,
    fun rest hrest => ⟨comment_table _, ?_⟩⟩
  · exact String.toList_ofList
  · change readString (some '\\') '\'' _ = _
    rw [List.append_assoc, List.singleton_append, readString_spells (spells_quoted s) (by decide),
      ← String.length_toList, quoted, String.toList_ofList]
    rfl

theorem readAs_keyword {w : String} (h : w ∈ table.keywords) :
    ReadAs table (.keyword w) w := by
  have hall : ∀ w ∈ table.keywords, IsWord w := by decide +kernel
  have hread := readAs_word (hall w h)
  rwa [if_pos h] at hread

theorem readAs_text {a : Atom} (h : Writable a) :
    ReadAs table (kind a) (text a) := by
  cases h with
  | @symbol s h =>
    change ReadAs table (if s ∈ table.keywords then .keyword s else .operator s) s
    by_cases hk : s ∈ table.keywords
    · rw [if_pos hk]
      exact readAs_keyword hk
    · rw [if_neg hk]
      exact readAs_operator ((List.mem_append.mp h).resolve_right hk)
  | name h =>
    have hread := readAs_word h.1
    rwa [if_neg h.2] at hread
  | property h => exact readAs_word h
  | null => exact readAs_keyword (by decide)
  | @boolean b => cases b <;> exact readAs_keyword (by decide)
  | integer h => exact readAs_integer h
  | string => exact readAs_quoted _
  | key => exact readAs_quoted _

/-! ### The pieces of a tree -/

theorem mem_atomsOfItems {label : String → Atom} {items : List Item} {a : Atom}
    (h : a ∈ atomsOfItems grammar label items) :
    a = .symbol "," ∨ ∃ item ∈ items, a ∈ item.atoms grammar label := by
  cases items with
  | nil => cases h
  | cons item rest =>
    rw [atomsOfItems_cons, List.mem_append, List.mem_flatMap] at h
    rcases h with h | ⟨next, hnext, h⟩
    · exact .inr ⟨item, List.mem_cons_self, h⟩
    · rcases List.mem_cons.mp h with rfl | h
      · exact .inl rfl
      · exact .inr ⟨next, List.mem_cons_of_mem _ hnext, h⟩

theorem writable_symbol {s : String} (h : s ∈ table.operators) : Writable (.symbol s) :=
  .symbol (List.mem_append_left _ h)

theorem writable_items {label : String → Atom} {items : List Item}
    (hl : ∀ item ∈ items, ∀ text ∈ item.label, Writable (label text))
    (h : ∀ item ∈ items, ∀ a ∈ item.value.atoms grammar, Writable a) :
    ∀ a ∈ atomsOfItems grammar label items, Writable a := by
  intro a ha
  rcases mem_atomsOfItems ha with rfl | ⟨item, hitem, ha⟩
  · exact writable_symbol (by decide)
  · rcases List.mem_append.mp ha with ha | ha
    · cases hlabel : item.label with
      | none =>
        rw [hlabel] at ha
        cases ha
      | some text =>
        rw [hlabel] at ha
        rcases List.mem_pair.mp ha with rfl | rfl
        · exact hl item hitem text hlabel
        · exact writable_symbol (by decide)
    · exact h item hitem a ha

theorem writable_of_expressible {e : Expr} (h : Expressible e) :
    ∀ a ∈ e.atoms grammar, Writable a := by
  have hsymbol {s : String} (h : s ∈ table.operators) : ∀ a ∈ [Atom.symbol s], Writable a :=
    List.forall_mem_singleton.mpr (writable_symbol h)
  have hcons {s : String} {as : List Atom} (h : s ∈ table.operators) (has : ∀ a ∈ as, Writable a) :
      ∀ a ∈ Atom.symbol s :: as, Writable a :=
    List.forall_mem_cons.mpr ⟨writable_symbol h, has⟩
  have happend {as bs : List Atom} (has : ∀ a ∈ as, Writable a) (hbs : ∀ a ∈ bs, Writable a) :
      ∀ a ∈ as ++ bs, Writable a :=
    List.forall_mem_append.mpr ⟨has, hbs⟩
  have hoption {o : Option Expr} (h : ∀ e ∈ o, ∀ a ∈ e.atoms grammar, Writable a) :
      ∀ a ∈ atomsOfOption grammar o, Writable a := by
    cases o with
    | none => exact List.forall_mem_nil _
    | some e => exact h e rfl
  induction h with
  | null => exact List.forall_mem_singleton.mpr .null
  | boolean => exact List.forall_mem_singleton.mpr .boolean
  | integer h => exact List.forall_mem_singleton.mpr (.integer h)
  | string => exact List.forall_mem_singleton.mpr .string
  | identifier h => exact List.forall_mem_singleton.mpr (.name h)
  | grouped _ ih => exact hcons (by decide) (happend ih (hsymbol (by decide)))
  | list _ ih =>
    refine hcons (by decide) (happend ?_ (hsymbol (by decide)))
    exact writable_items (fun _ _ _ _ => .key) ih
  | call _ _ hl _ ihc iha =>
    rw [atoms_call]
    refine happend ihc (hcons (by decide) (happend ?_ (hsymbol (by decide))))
    exact writable_items (fun arg harg name hname => .name (hl arg harg name hname)) iha
  | member _ _ hp ih =>
    refine happend ih (hcons (by decide) ?_)
    exact List.forall_mem_singleton.mpr (.property hp)
  | index _ _ _ ihx ihy =>
    exact happend ihx (hcons (by decide) (happend ihy (hsymbol (by decide))))
  | slice _ _ _ _ ihx ihf ihl =>
    refine happend ihx (hcons (by decide) (happend (hoption ihf) (hcons (by decide) ?_)))
    exact happend (hoption ihl) (hsymbol (by decide))
  | unary hs _ _ _ ih =>
    rw [atoms_unary hs]
    exact List.forall_mem_cons.mpr ⟨.symbol (prefixSpec?_cases hs).2.1, ih⟩
  | binary hs _ _ _ _ _ ihx ihy =>
    obtain ⟨word, hword, _, _, hmem, _⟩ := binarySpec?_cases hs
    rw [atoms_binary hs hword]
    exact happend ihx (List.forall_mem_cons.mpr ⟨.symbol hmem, ihy⟩)

/-! ### Sources -/

/-- The tokens are the pieces, in kind and text. -/
def Shown (as : List Atom) (ts : List Token) : Prop :=
  ts.map (fun token => (token.kind, token.lexeme)) = as.map fun a => (kind a, text a)

theorem shown_nil_iff {ts : List Token} : Shown [] ts ↔ ts = [] :=
  List.map_eq_nil_iff

theorem shown_cons_iff {a : Atom} {as : List Atom} {ts : List Token} :
    Shown (a :: as) ts ↔
      ∃ token us, ts = token :: us ∧ (token.kind = kind a ∧ token.lexeme = text a) ∧
        Shown as us := by
  unfold Shown
  rw [List.map_cons, List.map_eq_cons_iff]
  simp only [Prod.mk.injEq]

theorem shown_append_iff {as bs : List Atom} {ts : List Token} :
    Shown (as ++ bs) ts ↔ ∃ us vs, ts = us ++ vs ∧ Shown as us ∧ Shown bs vs := by
  unfold Shown
  rw [List.map_append, List.map_eq_append_iff]

theorem Shown.length {as : List Atom} {ts : List Token} (h : Shown as ts) :
    ts.length = as.length := by
  simpa using congrArg List.length h

theorem scan_print {e : Expr} (h : ∀ a ∈ e.atoms grammar, Writable a) :
    Shown (e.atoms grammar) (scan table (print e)).tokens ∧
      (scan table (print e)).fault = none := by
  have hread : ∀ piece ∈ (e.atoms grammar).map fun a => (kind a, text a),
      ReadAs table piece.1 piece.2 := by
    intro piece hpiece
    obtain ⟨a, ha, rfl⟩ := List.mem_map.mp hpiece
    exact readAs_text (h a ha)
  have hscan := scan_spaced (by decide +kernel) rfl hread
  rwa [List.map_map] at hscan

end Arithmetic

end EmbeddedLang
