import EmbeddedLang.Query.SyntaxTemplate
import Mathlib.Data.List.Chain

/-!
Slots stand where they are written.

Parts that are written down are split into the same parts again. A template that is filled in is its
own text with operands in the place of its slots, also where a slot hides behind a brace that opens
none.
-/

namespace EmbeddedLang.Query

/-! ### Slots in braces -/

/-- What makes a slot of the braces around it: a star, or a number. -/
def IsSlot (inner : List Char) : Prop :=
  inner = ['*'] ∨ ∃ i, Decimal.unsigned? (Nat.pow 2 64) inner = some i

theorem IsSlot.mem {inner : List Char} (h : IsSlot inner) {c : Char} (hc : c ∈ inner) :
    c = '*' ∨ c = '+' ∨ c.isDigit := by
  obtain rfl | ⟨i, hi⟩ := h
  · exact .inl (List.mem_singleton.mp hc)
  · have hdigits := Decimal.isDigit_of_natural? (Option.filter_eq_some_iff.mp hi).1
    split at hdigits
    · rcases List.mem_cons.mp hc with rfl | hc
      · exact .inr (.inl rfl)
      · exact .inr (.inr (hdigits c hc))
    · exact .inr (.inr (hdigits c hc))

theorem IsSlot.ne_close {inner : List Char} (h : IsSlot inner) : ∀ c ∈ inner, c ≠ '\x7d' := by
  rintro c hc rfl
  rcases h.mem hc with h | h | h <;> exact absurd h (by decide)

namespace SyntaxTemplate

theorem isSlot_iff {inner : List Char} : IsSlot inner ↔ ∃ part, slotOf? inner = some part := by
  unfold IsSlot slotOf?
  split
  · rename_i hstar
    exact ⟨fun _ => ⟨.all, rfl⟩, fun _ => .inl hstar⟩
  · rename_i hstar
    rw [or_iff_right hstar]
    constructor
    · rintro ⟨i, hi⟩
      exact ⟨.slot i, Option.map_eq_some_iff.mpr ⟨i, hi, rfl⟩⟩
    · rintro ⟨part, hpart⟩
      obtain ⟨i, hi, -⟩ := Option.map_eq_some_iff.mp hpart
      exact ⟨i, hi⟩

theorem slotOf?_eq_slot_iff {inner : List Char} {i : Nat} :
    slotOf? inner = some (.slot i) ↔ Decimal.unsigned? (Nat.pow 2 64) inner = some i := by
  unfold slotOf?
  split
  · rename_i hstar
    constructor
    · intro h
      cases h
    · rw [hstar]
      intro h
      cases h
  · rw [Option.map_eq_some_iff]
    constructor
    · rintro ⟨j, hj, heq⟩
      rw [hj, TemplatePart.slot.inj heq]
    · exact fun hi => ⟨i, hi, rfl⟩

/-- The text up to the next closing brace decides whether a slot begins. -/
theorem slotAhead?_eq_some_iff {rest : List Char} {part : TemplatePart} {width : Nat} :
    slotAhead? rest = some (part, width) ↔
      ∃ inner after, rest = inner ++ '\x7d' :: after ∧ slotOf? inner = some part ∧
        width = inner.length + 1 := by
  unfold slotAhead?
  dsimp only
  constructor
  · intro h
    split at h
    · rename_i hlt
      obtain ⟨part', hpart, heq⟩ := Option.map_eq_some_iff.mp h
      obtain ⟨rfl, rfl⟩ := Prod.mk.inj heq
      have happend := List.takeWhile_append_dropWhile (p := (· != '\x7d')) (l := rest)
      have hclose := List.head?_dropWhile_not (· != '\x7d') rest
      cases hafter : rest.dropWhile (· != '\x7d') with
      | nil =>
        rw [hafter, List.append_nil] at happend
        rw [happend] at hlt
        exact absurd hlt (Nat.lt_irrefl _)
      | cons c after =>
        rw [hafter] at hclose happend
        obtain rfl : c = '\x7d' := by simpa using hclose
        exact ⟨_, after, happend.symm, hpart, rfl⟩
    · cases h
  · rintro ⟨inner, after, rfl, hpart, rfl⟩
    have hinner : (inner ++ '\x7d' :: after).takeWhile (· != '\x7d') = inner := by
      rw [List.takeWhile_append_of_pos, List.takeWhile_cons_of_neg (by decide), List.append_nil]
      intro c hc
      exact bne_iff_ne.mpr ((isSlot_iff.mpr ⟨part, hpart⟩).ne_close c hc)
    rw [hinner, if_pos (by simp), hpart, Option.map_some]

/-! ### Splitting -/

theorem split_eq_drop (skip : Nat) (cs : List Char) : split skip cs = split 0 (cs.drop skip) := by
  induction cs generalizing skip with
  | nil => simp [split]
  | cons c cs ih =>
    cases skip with
    | zero => rfl
    | succ n => exact ih n

theorem split_slot {inner rest : List Char} {part : TemplatePart} (h : slotOf? inner = some part) :
    split 0 ('\x7b' :: (inner ++ '\x7d' :: rest)) = part :: split 0 rest := by
  have hahead : slotAhead? (inner ++ '\x7d' :: rest) = some (part, inner.length + 1) :=
    slotAhead?_eq_some_iff.mpr ⟨inner, rest, rfl, h, rfl⟩
  have hrest : (inner ++ '\x7d' :: rest).drop (inner.length + 1) = rest := by
    simp
  rw [split, if_pos rfl, hahead]
  dsimp only
  rw [split_eq_drop, hrest]

theorem split_kept {c : Char} {rest : List Char}
    (h : ∀ inner after, IsSlot inner → c :: rest ≠ '\x7b' :: (inner ++ '\x7d' :: after)) :
    split 0 (c :: rest) = consText c (split 0 rest) := by
  have hahead : (if c = '\x7b' then slotAhead? rest else none) = none := by
    split
    · rename_i hc
      rw [Option.eq_none_iff_forall_ne_some]
      rintro ⟨part, width⟩ hpart
      obtain ⟨inner, after, rfl, hinner, -⟩ := slotAhead?_eq_some_iff.mp hpart
      exact h inner after (isSlot_iff.mpr ⟨part, hinner⟩) (by rw [hc])
    · rfl
  rw [split, hahead]

end SyntaxTemplate

/-! ### Writing down -/

namespace TemplatePart

/-- A part as it is written in a template. -/
def chars : TemplatePart → List Char
  | text s => s.toList
  | slot i => '\x7b' :: ((toString i).toList ++ ['\x7d'])
  | all => ['\x7b', '*', '\x7d']

/-- A text that is not empty and opens no brace, and a slot of which the number can be read. -/
def Writable : TemplatePart → Prop
  | text s => s ≠ "" ∧ '\x7b' ∉ s.toList
  | slot i => i < Nat.pow 2 64
  | all => True

instance : (part : TemplatePart) → Decidable part.Writable
  | text s => inferInstanceAs (Decidable (s ≠ "" ∧ '\x7b' ∉ s.toList))
  | slot i => inferInstanceAs (Decidable (i < Nat.pow 2 64))
  | all => isTrue trivial

def isText : TemplatePart → Bool
  | text _ => true
  | _ => false

/-- How many operands the part asks for. -/
def asks : TemplatePart → Nat
  | slot i => i + 1
  | text _ | all => 0

end TemplatePart

namespace SyntaxTemplate

def print (parts : List TemplatePart) : String :=
  String.ofList (parts.flatMap TemplatePart.chars)

/-- No two texts are beside one another, which would be one text. -/
structure Printable (parts : List TemplatePart) : Prop where
  writable : ∀ part ∈ parts, part.Writable
  apart : parts.IsChain fun part next => ¬ (part.isText ∧ next.isText)

theorem slotOf?_toString {i : Nat} (h : i < Nat.pow 2 64) :
    slotOf? (toString i).toList = some (.slot i) :=
  slotOf?_eq_slot_iff.mpr (Decimal.unsigned?_toString h)

theorem split_text (s : List Char) (hs : '\x7b' ∉ s) (rest : List Char) :
    split 0 (s ++ rest) = s.foldr consText (split 0 rest) := by
  induction s with
  | nil => rfl
  | cons c s ih =>
    obtain ⟨hc, hs⟩ := not_or.mp (mt List.mem_cons.mpr hs)
    rw [List.cons_append, List.foldr_cons, ← ih hs]
    apply split_kept
    intro inner after _ heq
    exact hc (List.cons.inj heq).1.symm

theorem foldr_consText {s : List Char} (hs : s ≠ []) {parts : List TemplatePart}
    (h : ∀ part ∈ parts.head?, part.isText = false) :
    s.foldr consText parts = .text (String.ofList s) :: parts := by
  induction s with
  | nil => exact absurd rfl hs
  | cons c s ih =>
    rw [List.foldr_cons]
    cases s with
    | nil =>
      cases parts with
      | nil => rfl
      | cons part parts =>
        cases part with
        | text s => cases h (.text s) rfl
        | _ => rfl
    | cons d s =>
      rw [ih (List.cons_ne_nil d s), consText, Char.toString_eq_singleton,
        ← String.ofList_cons]

theorem split_chars {parts : List TemplatePart} (h : Printable parts) :
    split 0 (parts.flatMap TemplatePart.chars) = parts := by
  obtain ⟨hwritable, hapart⟩ := h
  induction parts with
  | nil => rfl
  | cons part parts ih =>
    obtain ⟨hpart, hparts⟩ := List.forall_mem_cons.mp hwritable
    obtain ⟨hnext, hapart⟩ := List.isChain_cons.mp hapart
    have hrest := ih hparts hapart
    rw [List.flatMap_cons]
    cases part with
    | text s =>
      have hhead : ∀ part ∈ parts.head?, part.isText = false := by
        intro next hnext'
        simpa [TemplatePart.isText] using hnext next hnext'
      have hs : s.toList ≠ [] := by simpa using hpart.1
      rw [TemplatePart.chars, split_text s.toList hpart.2, hrest, foldr_consText hs hhead,
        String.ofList_toList]
    | slot i =>
      rw [TemplatePart.chars, List.cons_append, List.append_assoc, List.singleton_append,
        split_slot (slotOf?_toString hpart), hrest]
    | all =>
      have hstar : slotOf? ['*'] = some .all := rfl
      have hslot : split 0 (TemplatePart.all.chars ++ parts.flatMap TemplatePart.chars) =
          .all :: split 0 (parts.flatMap TemplatePart.chars) := split_slot hstar
      rw [hslot, hrest]

theorem parse_written {parts : List TemplatePart} (h : Printable parts) :
    (parse (print parts)).parts = parts := by
  rw [parse, print, String.toList_ofList]
  exact split_chars h

end SyntaxTemplate

/-! ### Fragments of text alone -/

namespace Fragment

/-- What the pieces add to the text, the binds left out. -/
def letters (f : Fragment) : List Char :=
  f.flatMap fun piece => piece.words.toList

theorem letters_cons (piece : Piece) (f : Fragment) :
    letters (piece :: f) = piece.words.toList ++ f.letters :=
  rfl

theorem letters_append (f g : Fragment) : (f ++ g).letters = f.letters ++ g.letters :=
  List.flatMap_append

/-- The fragment binds nothing and has this text. -/
structure Says (f : Fragment) (cs : List Char) : Prop where
  plain : ∀ piece ∈ f, piece.isBind = false
  letters : f.letters = cs

namespace Says

variable {f g : Fragment} {cs ds : List Char}

theorem nil : Says [] [] :=
  ⟨List.forall_mem_nil _, rfl⟩

theorem append (hf : f.Says cs) (hg : g.Says ds) : Says (f ++ g) (cs ++ ds) where
  plain := List.forall_mem_append.mpr ⟨hf.plain, hg.plain⟩
  letters := by rw [letters_append, hf.letters, hg.letters]

theorem of_append (h : Says (f ++ g) cs) : g.Says g.letters :=
  ⟨fun piece hpiece => h.plain piece (List.mem_append_right f hpiece), rfl⟩

theorem piece (s : String) : Says [.text s] s.toList :=
  ⟨List.forall_mem_singleton.mpr rfl, List.append_nil _⟩

theorem text (s : String) : Says (Fragment.text s) s.toList := by
  unfold Fragment.text
  split
  · rename_i hempty
    rw [String.isEmpty_iff.mp hempty]
    exact nil
  · exact piece s

theorem joined (separator : String) (operands : List String) :
    Says (Fragment.joined separator (operands.map Fragment.text))
      (separator.intercalate operands).toList := by
  rw [String.toList_intercalate]
  induction operands with
  | nil => exact nil
  | cons operand rest ih =>
    cases rest with
    | nil => simpa [Fragment.joined] using text operand
    | cons next rest =>
      have h := ((text operand).append (text separator)).append ih
      simpa [Fragment.joined, List.intercalate_cons_cons] using h

theorem finishFrom (h : f.Says cs) (style : PlaceholderStyle) (index : Nat) :
    f.finishFrom style index = (String.ofList cs, []) := by
  obtain ⟨hplain, rfl⟩ := h
  induction f with
  | nil => rfl
  | cons piece rest ih =>
    obtain ⟨hpiece, hrest⟩ := List.forall_mem_cons.mp hplain
    rw [finishFrom_cons style index hpiece, ih hrest, letters_cons, String.ofList_append,
      String.ofList_toList]

end Says

end Fragment

/-! ### Filling in -/

/-- The text that a slot is replaced by: all operands, or the one of its number. -/
inductive StandsFor (operands : List String) : List Char → String → Prop where
  | all : StandsFor operands ['*'] (", ".intercalate operands)
  | one {inner : List Char} {i : Nat} {operand : String}
      (h : Decimal.unsigned? (Nat.pow 2 64) inner = some i) (hi : operands[i]? = some operand) :
      StandsFor operands inner operand

/-- A text in which, from the left, every slot is replaced and every other character is kept. -/
inductive Filled (operands : List String) : List Char → List Char → Prop where
  | nil : Filled operands [] []
  | slot {inner rest out : List Char} {operand : String} (h : StandsFor operands inner operand)
      (hrest : Filled operands rest out) :
      Filled operands ('\x7b' :: (inner ++ '\x7d' :: rest)) (operand.toList ++ out)
  | kept {c : Char} {rest out : List Char}
      (h : ∀ inner after, IsSlot inner → c :: rest ≠ '\x7b' :: (inner ++ '\x7d' :: after))
      (hrest : Filled operands rest out) : Filled operands (c :: rest) (c :: out)

/-- For every number that stands in braces there is an operand. -/
def Supplied (operands : List String) (cs : List Char) : Prop :=
  ∀ before inner after i, cs = before ++ '\x7b' :: (inner ++ '\x7d' :: after) →
    Decimal.unsigned? (Nat.pow 2 64) inner = some i → i < operands.length

variable {operands : List String} {cs out : List Char}

theorem Supplied.of_append (before : List Char) (h : Supplied operands (before ++ cs)) :
    Supplied operands cs := by
  rintro first inner after i rfl hi
  exact h (before ++ first) inner after i (List.append_assoc ..).symm hi

theorem supplied_cons {c : Char} : Supplied operands (c :: cs) ↔
    (∀ ahead ∈ if c = '\x7b' then SyntaxTemplate.slotAhead? cs else none,
      ahead.1.asks ≤ operands.length) ∧ Supplied operands cs := by
  constructor
  · intro h
    refine ⟨?_, h.of_append [c]⟩
    rintro ⟨part, width⟩ hpart
    split at hpart
    · rename_i hc
      obtain ⟨inner, after, rfl, hslot, -⟩ := SyntaxTemplate.slotAhead?_eq_some_iff.mp hpart
      cases part with
      | slot i =>
        rw [hc] at h
        exact h [] inner after i rfl (SyntaxTemplate.slotOf?_eq_slot_iff.mp hslot)
      | text s => exact Nat.zero_le _
      | all => exact Nat.zero_le _
    · cases hpart
  · rintro ⟨hhead, htail⟩ before inner after i heq hi
    cases before with
    | nil =>
      obtain ⟨rfl, rfl⟩ := List.cons.inj heq
      exact hhead _ (SyntaxTemplate.slotAhead?_eq_some_iff.mpr
        ⟨inner, after, rfl, SyntaxTemplate.slotOf?_eq_slot_iff.mpr hi, rfl⟩)
    | cons d before =>
      obtain ⟨-, rfl⟩ := List.cons.inj heq
      exact htail before inner after i rfl hi

theorem supplied_nil : Supplied operands [] := by
  intro before inner after i h
  cases before <;> cases h

instance decidableSupplied : (cs : List Char) → Decidable (Supplied operands cs)
  | [] => isTrue supplied_nil
  | _ :: cs =>
    have := decidableSupplied cs
    decidable_of_iff _ supplied_cons.symm

theorem Supplied.standsFor {inner after : List Char}
    (h : Supplied operands ('\x7b' :: (inner ++ '\x7d' :: after))) (hs : IsSlot inner) :
    ∃ operand, StandsFor operands inner operand := by
  obtain rfl | ⟨i, hi⟩ := hs
  · exact ⟨_, .all⟩
  · have hlt : i < operands.length := h [] inner after i rfl hi
    exact ⟨operands[i], .one hi (List.getElem?_eq_getElem hlt)⟩

theorem exists_filled (h : Supplied operands cs) : ∃ out, Filled operands cs out := by
  -- a slot takes several characters at once
  induction hn : cs.length using Nat.strong_induction_on generalizing cs with
  | h n ih =>
    subst hn
    cases cs with
    | nil => exact ⟨[], .nil⟩
    | cons c rest =>
      by_cases hslot :
        ∃ inner after, IsSlot inner ∧ c :: rest = '\x7b' :: (inner ++ '\x7d' :: after)
      · obtain ⟨inner, after, hinner, heq⟩ := hslot
        rw [heq] at h ih ⊢
        obtain ⟨operand, hoperand⟩ := h.standsFor hinner
        have hafter : Supplied operands after :=
          Supplied.of_append ('\x7b' :: (inner ++ ['\x7d'])) (by simpa using h)
        obtain ⟨out, hout⟩ := ih after.length (by simp; omega) hafter rfl
        exact ⟨_, .slot hoperand hout⟩
      · have hrest : Supplied operands rest := Supplied.of_append [c] h
        obtain ⟨out, hout⟩ := ih rest.length (by simp) hrest rfl
        refine ⟨c :: out, .kept ?_ hout⟩
        intro inner after hinner heq
        exact hslot ⟨inner, after, hinner, heq⟩

namespace SyntaxTemplate

theorem fillAll_cons_eq_ok {args : List Fragment} {part : TemplatePart} {parts : List TemplatePart}
    {f : Fragment} : fillAll args (part :: parts) = .ok f ↔
      ∃ g h, fill args part = .ok g ∧ fillAll args parts = .ok h ∧ f = g ++ h := by
  rw [fillAll]
  cases fill args part with
  | error e => simp [bind, Except.bind]
  | ok g =>
    cases fillAll args parts with
    | error e => simp [bind, Except.bind]
    | ok h => simp [bind, Except.bind, pure, Except.pure, eq_comm]

theorem fillAll_consText {args : List Fragment} {parts : List TemplatePart} {f : Fragment}
    (c : Char) (hf : fillAll args parts = .ok f) (htext : f.Says out) :
    ∃ g, fillAll args (consText c parts) = .ok g ∧ g.Says (c :: out) := by
  have hc (s : String) : (c.toString ++ s).toList = c :: s.toList := by
    rw [String.toList_append, Char.toString_eq_singleton, String.toList_singleton]
    rfl
  unfold consText
  split
  · rename_i s rest
    obtain ⟨g, h, hg, hrest, rfl⟩ := fillAll_cons_eq_ok.mp hf
    cases hg
    have hout : (Fragment.text (c.toString ++ s) ++ h).Says ((c :: s.toList) ++ h.letters) := by
      rw [← hc s]
      exact (Fragment.Says.text _).append htext.of_append
    have heq : s.toList ++ h.letters = out :=
      ((Fragment.Says.text s).append htext.of_append).letters.symm.trans htext.letters
    rw [List.cons_append, heq] at hout
    exact ⟨_, fillAll_cons_eq_ok.mpr ⟨_, h, rfl, hrest, rfl⟩, hout⟩
  · have hone := (Fragment.Says.text c.toString).append htext
    rw [Char.toString_eq_singleton, String.toList_singleton] at hone
    exact ⟨_, fillAll_cons_eq_ok.mpr ⟨_, f, rfl, hf, rfl⟩, hone⟩

theorem fill_standsFor {inner : List Char} {operand : String}
    (h : StandsFor operands inner operand) :
    ∃ part f, slotOf? inner = some part ∧ fill (operands.map Fragment.text) part = .ok f ∧
      f.Says operand.toList := by
  cases h with
  | all => exact ⟨.all, _, rfl, rfl, .joined ", " operands⟩
  | @one inner i operand h hi =>
    refine ⟨.slot i, .text operand, slotOf?_eq_slot_iff.mpr h, ?_, .text operand⟩
    rw [fill, List.getElem?_map, hi, Option.map_some]

theorem fillAll_of_filled (h : Filled operands cs out) :
    ∃ f, fillAll (operands.map Fragment.text) (split 0 cs) = .ok f ∧ f.Says out := by
  induction h with
  | nil => exact ⟨[], rfl, .nil⟩
  | slot h _ ih =>
    obtain ⟨part, f, hslot, hfill, hf⟩ := fill_standsFor h
    obtain ⟨g, hg, htext⟩ := ih
    rw [split_slot hslot]
    exact ⟨f ++ g, fillAll_cons_eq_ok.mpr ⟨f, g, hfill, hg, rfl⟩, hf.append htext⟩
  | kept h _ ih =>
    obtain ⟨g, hg, htext⟩ := ih
    rw [split_kept h]
    exact fillAll_consText _ hg htext

theorem apply_of_filled {source : String} (h : Filled operands source.toList out)
    (style : PlaceholderStyle) (position : Position) :
    ∃ f, (parse source).apply (operands.map Fragment.text) position = .ok f ∧
      f.finish style = (String.ofList out, []) := by
  obtain ⟨f, hf, htext⟩ := fillAll_of_filled h
  refine ⟨f, ?_, htext.finishFrom style 1⟩
  rw [apply, parse, hf]
  rfl

/-- Whatever a template says is replaced by its slots and by nothing else, in the order of the
text. -/
theorem slots_filled_in_place :
    (∀ parts, Printable parts → (parse (print parts)).parts = parts) ∧
      ∀ (source : String) (operands : List String), Supplied operands source.toList →
        ∀ (style : PlaceholderStyle) (position : Position),
          ∃ f, (parse source).apply (operands.map Fragment.text) position = .ok f ∧
            (f.finish style).2 = [] ∧
            ∀ out, Filled operands source.toList out ↔ out = (f.finish style).1.toList := by
  refine ⟨fun parts hparts => parse_written hparts, ?_⟩
  intro source operands hsupplied style position
  obtain ⟨out, hout⟩ := exists_filled hsupplied
  obtain ⟨f, hf, hfinish⟩ := apply_of_filled hout style position
  refine ⟨f, hf, by rw [hfinish], ?_⟩
  have htext : (f.finish style).1.toList = out := by rw [hfinish, String.toList_ofList]
  rw [htext]
  intro out'
  constructor
  · intro hout'
    obtain ⟨f', hf', hfinish'⟩ := apply_of_filled hout' style position
    obtain rfl : f = f' := Except.ok.inj (hf.symm.trans hf')
    exact String.ofList_injective (congrArg Prod.fst (hfinish'.symm.trans hfinish))
  · rintro rfl
    exact hout

theorem slots_filled_in_place_hidden :
    (parse (print [.text "a\x7d", .slot 10, .text " b", .all, .slot 0])).parts =
        [.text "a\x7d", .slot 10, .text " b", .all, .slot 0] ∧
      ∀ (style : PlaceholderStyle) (position : Position),
        ∃ f, (parse "\x7ba\x7b0\x7d\x7d \x7b+1\x7d \x7b*\x7d \x7b*").apply [.text "x", .text "y"]
            position = .ok f ∧
          (f.finish style).2 = [] ∧
          ∀ out, Filled ["x", "y"] "\x7ba\x7b0\x7d\x7d \x7b+1\x7d \x7b*\x7d \x7b*".toList out ↔
            out = (f.finish style).1.toList := by
  refine ⟨slots_filled_in_place.1 _ ⟨?_, ?_⟩, ?_⟩
  · decide
  · decide
  · exact slots_filled_in_place.2 _ ["x", "y"] (by decide)

end SyntaxTemplate

end EmbeddedLang.Query
