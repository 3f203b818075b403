import EmbeddedLang.Lexical.Scanner
import Mathlib.Data.String.Basic

/-!
A source laid out in tiles: its tokens, and between them the white space and the comments.

The rules say where each kind of tile may stand and do not mention the scanner. In text, white space
belongs to no token only directly behind a marker that trims or directly before one.
-/

namespace EmbeddedLang

theorem Position.offset_advanceAll (p : Position) (cs : List Char) :
    (p.advanceAll cs).offset = p.offset + (String.ofList cs).utf8ByteSize := by
  induction cs generalizing p with
  | nil => simp
  | cons c cs ih =>
    have hadvance : (p.advance c).offset = p.offset + c.utf8Size := by
      rw [Position.advance]
      split <;> rfl
    rw [Position.advanceAll_cons, ih, hadvance]
    simp only [String.utf8ByteSize_ofList, String.utf8Len_cons]
    omega

/-- A token, or a piece of a source that belongs to none. -/
inductive Tile where
  | token (token : Token)
  | blank (text : List Char)
  | comment (text : List Char)

namespace Tile

def text : Tile → List Char
  | token t => t.lexeme.toList
  | blank cs | comment cs => cs

def token? : Tile → Option Token
  | token t => some t
  | blank _ | comment _ => none

end Tile

/-- Code, or text. Text is trimmed if it comes directly behind a marker that says so. -/
inductive Place where
  | code
  | text (trimmed : Bool)

structure Spot where
  place : Place
  position : Position
  rest : List Char

def Delimiters.openers (d : Delimiters) : List (TokenKind × String) :=
  [(.openStatement, d.openStatement), (.openEcho, d.openEcho)]

def Delimiters.closers (d : Delimiters) : List (TokenKind × String) :=
  [(.closeStatement, d.closeStatement), (.closeEcho, d.closeEcho)]

/-- What a marker that trims has on its inner side. -/
def Delimiters.mark (d : Delimiters) (trims : Bool) : List Char :=
  if trims then [d.trim] else []

/-- The kinds of what is neither text nor a marker around code. -/
def TokenKind.ofCode : TokenKind → Bool
  | rawText | openStatement | closeStatement | openEcho | closeEcho => false
  | _ => true

/-- A comment in code, before `rest`: to the end of its line, or to the first closing marker. -/
inductive IsComment (t : LanguageTable) : List Char → List Char → Prop where
  | line {mark : String} {cs rest : List Char} (h : t.lineComment = some mark)
      (hmark : mark.toList <+: cs ++ rest) (hline : '\n' ∉ cs)
      (hend : ∀ c ∈ rest.head?, c = '\n') : IsComment t cs rest
  | block {opening closing : String} {body rest : List Char}
      (h : t.blockComment = some (opening, closing))
      (hfirst : Text.indexOf closing.toList (body ++ closing.toList ++ rest) = some body.length) :
      IsComment t (opening.toList ++ body ++ closing.toList) rest

/-- The tile may stand at the first place, before `rest`, and leads to the second. -/
inductive Tile.Fits (t : LanguageTable) : Place → Tile → List Char → Place → Prop where
  | code {token : Token} {rest : List Char} (h : token.kind.ofCode) :
      Tile.Fits t .code (.token token) rest .code
  | codeBlank {cs rest : List Char} (h : ∀ c ∈ cs, Text.isBlank c) :
      Tile.Fits t .code (.blank cs) rest .code
  | codeComment {cs rest : List Char} (h : IsComment t cs rest) :
      Tile.Fits t .code (.comment cs) rest .code
  | closer {d : Delimiters} {token : Token} {marker : String} {trims : Bool} {rest : List Char}
      (hd : t.delimiters = some d) (hmarker : (token.kind, marker) ∈ d.closers)
      (hlexeme : token.lexeme.toList = d.mark trims ++ marker.toList) :
      Tile.Fits t .code (.token token) rest (.text trims)
  | opener {d : Delimiters} {token : Token} {marker : String} {trimmed trims : Bool}
      {rest : List Char} (hd : t.delimiters = some d) (hmarker : (token.kind, marker) ∈ d.openers)
      (hlexeme : token.lexeme.toList = marker.toList ++ d.mark trims) :
      Tile.Fits t (.text trimmed) (.token token) rest .code
  | text {token : Token} {trimmed : Bool} {rest : List Char} (h : token.kind = .rawText) :
      Tile.Fits t (.text trimmed) (.token token) rest (.text false)
  | trimmedStart {cs rest : List Char} (h : ∀ c ∈ cs, Text.isBlank c) :
      Tile.Fits t (.text true) (.blank cs) rest (.text false)
  | trimmedEnd {d : Delimiters} {marker : String} {trimmed : Bool} {cs rest : List Char}
      (hd : t.delimiters = some d)
      (hmarker : marker ∈ [d.openStatement, d.openEcho, d.openComment])
      (hmark : marker.toList ++ [d.trim] <+: rest) (h : ∀ c ∈ cs, Text.isBlank c) :
      Tile.Fits t (.text trimmed) (.blank cs) rest (.text false)
  | textComment {d : Delimiters} {trimmed trims : Bool} {body rest : List Char}
      (hd : t.delimiters = some d)
      (hfirst : Text.indexOf d.closeComment.toList (body ++ d.closeComment.toList ++ rest) =
        some body.length) :
      Tile.Fits t (.text trimmed)
        (.comment (d.openComment.toList ++ d.mark trims ++ body ++ d.closeComment.toList)) rest
        (.text (body.getLast? == some d.trim))

/-- A tile at the front of what lies ahead. -/
structure Lays (t : LanguageTable) (a : Spot) (tile : Tile) (b : Spot) : Prop where
  rest_eq : a.rest = tile.text ++ b.rest
  position_eq : b.position = a.position.advanceAll tile.text
  token : ∀ token ∈ tile.token?, token.lexeme ≠ "" ∧ token.position = a.position
  fits : Tile.Fits t a.place tile b.rest b.place

inductive Tiling (t : LanguageTable) : Spot → List Tile → Spot → Prop where
  | nil {a : Spot} : Tiling t a [] a
  | cons {a b c : Spot} {tile : Tile} {tiles : List Tile} (h : Lays t a tile b)
      (hrest : Tiling t b tiles c) : Tiling t a (tile :: tiles) c

/-- The token is a piece of the source, whose first character is at `p`. -/
structure Token.CutFrom (token : Token) (source : List Char) (p : Position) : Prop where
  nonempty : token.lexeme ≠ ""
  slice : ∃ before after, source = before ++ token.lexeme.toList ++ after ∧
    token.position = p.advanceAll before

/-- The first token ends where the second begins, or before. -/
def Token.Before (a b : Token) : Prop :=
  a.position.offset + a.lexeme.utf8ByteSize ≤ b.position.offset

namespace Tiling

variable {t : LanguageTable} {a b c : Spot} {tiles tiles' : List Tile}

theorem append (h : Tiling t a tiles b) (h' : Tiling t b tiles' c) :
    Tiling t a (tiles ++ tiles') c := by
  induction h with
  | nil => exact h'
  | cons hlay _ ih => exact .cons hlay (ih h')

theorem rest_eq (h : Tiling t a tiles b) : a.rest = tiles.flatMap Tile.text ++ b.rest := by
  induction h with
  | nil => simp
  | cons hlay _ ih => rw [hlay.rest_eq, ih, List.flatMap_cons, List.append_assoc]

theorem position_eq (h : Tiling t a tiles b) :
    b.position = a.position.advanceAll (tiles.flatMap Tile.text) := by
  induction h with
  | nil => simp
  | cons hlay _ ih => rw [ih, hlay.position_eq, List.flatMap_cons, Position.advanceAll_append]

theorem cutFrom (h : Tiling t a tiles b) {token : Token} (hmem : .token token ∈ tiles) :
    token.CutFrom a.rest a.position := by
  induction h with
  | nil => simp at hmem
  | @cons a b c tile tiles hlay _ ih =>
    rcases List.mem_cons.mp hmem with rfl | hmem
    · obtain ⟨hne, hposition⟩ := hlay.token token rfl
      exact ⟨hne, [], b.rest, by simpa [Tile.text] using hlay.rest_eq, hposition⟩
    · obtain ⟨hne, before, after, hrest, hposition⟩ := ih hmem
      refine ⟨hne, tile.text ++ before, after, ?_, ?_⟩
      · simp [hlay.rest_eq, hrest]
      · rw [hposition, hlay.position_eq, Position.advanceAll_append]

theorem mem_tokens {token : Token} :
    token ∈ tiles.filterMap Tile.token? ↔ .token token ∈ tiles := by
  rw [List.mem_filterMap]
  constructor
  · rintro ⟨tile, hmem, htile⟩
    cases tile <;> simp_all [Tile.token?]
  · exact fun h => ⟨.token token, h, rfl⟩

theorem pairwise_before (h : Tiling t a tiles b) :
    (tiles.filterMap Tile.token?).Pairwise Token.Before := by
  induction h with
  | nil => simp
  | @cons a b c tile tiles hlay htail ih =>
    cases tile with
    | blank cs => exact ih
    | comment cs => exact ih
    | token token =>
      refine List.pairwise_cons.mpr ⟨fun later hlater => ?_, ih⟩
      obtain ⟨-, before, -, -, hlaterPosition⟩ := htail.cutFrom (mem_tokens.mp hlater)
      have hposition : token.position = a.position := (hlay.token token rfl).2
      have hb : b.position.offset = a.position.offset + token.lexeme.utf8ByteSize := by
        simp [hlay.position_eq, Position.offset_advanceAll, Tile.text]
      have hlaterOffset := congrArg Position.offset hlaterPosition
      rw [Position.offset_advanceAll] at hlaterOffset
      rw [Token.Before, hposition]
      omega

end Tiling

/-! ### Tokens between two spots -/

/-- The text from one spot to another can be laid out with just these tokens. -/
def Covers (t : LanguageTable) (a : Spot) (tokens : List Token) (b : Spot) : Prop :=
  ∃ tiles, Tiling t a tiles b ∧ tiles.filterMap Tile.token? = tokens

namespace Covers

variable {t : LanguageTable} {a b c : Spot} {tokens tokens' : List Token}

theorem refl (t : LanguageTable) (a : Spot) : Covers t a [] a :=
  ⟨[], .nil, rfl⟩

theorem trans (h : Covers t a tokens b) (h' : Covers t b tokens' c) :
    Covers t a (tokens ++ tokens') c := by
  obtain ⟨tiles, htiles, rfl⟩ := h
  obtain ⟨tiles', htiles', rfl⟩ := h'
  exact ⟨tiles ++ tiles', htiles.append htiles', List.filterMap_append⟩

theorem of_lays {tile : Tile} (h : Lays t a tile b) : Covers t a tile.token?.toList b := by
  refine ⟨[tile], .cons h .nil, ?_⟩
  cases tile <;> rfl

theorem of_take {n : Nat} (tile : Tile) {place : Place} (htext : a.rest.take n = tile.text)
    (htoken : ∀ token ∈ tile.token?, token.lexeme ≠ "" ∧ token.position = a.position)
    (hfits : Tile.Fits t a.place tile (a.rest.drop n) place) :
    Covers t a tile.token?.toList ⟨place, a.position.advanceAll (a.rest.take n), a.rest.drop n⟩ := by
  apply of_lays
  refine ⟨?_, ?_, htoken, hfits⟩
  · rw [← htext, List.take_append_drop]
  · rw [htext]

theorem length_le (h : Covers t a tokens b) : b.rest.length ≤ a.rest.length := by
  obtain ⟨tiles, htiles, -⟩ := h
  simp [htiles.rest_eq]

/-- What is passed over with a token has the characters of the token. -/
theorem exists_text {token : Token} (h : Covers t a (token :: tokens) b) :
    ∃ text, text ≠ [] ∧ a.rest = text ++ b.rest ∧ b.position = a.position.advanceAll text := by
  obtain ⟨tiles, htiles, htokens⟩ := h
  have hmem : .token token ∈ tiles := Tiling.mem_tokens.mp (by simp [htokens])
  have hlexeme : token.lexeme.toList ≠ [] := by
    simpa using (htiles.cutFrom hmem).nonempty
  refine ⟨tiles.flatMap Tile.text, fun hnil => ?_, htiles.rest_eq, htiles.position_eq⟩
  exact hlexeme (List.flatMap_eq_nil_iff.mp hnil _ hmem)

theorem length_lt {token : Token} (h : Covers t a (token :: tokens) b) :
    b.rest.length < a.rest.length := by
  obtain ⟨text, htext, hrest, -⟩ := h.exists_text
  have hpos : 0 < text.length := List.length_pos_iff.mpr htext
  rw [hrest, List.length_append]
  omega

theorem offset_lt {token : Token} (h : Covers t a (token :: tokens) b) :
    a.position.offset < b.position.offset := by
  obtain ⟨text, htext, -, hposition⟩ := h.exists_text
  have hpos : 0 < (String.ofList text).utf8ByteSize := by
    simpa [Nat.pos_iff_ne_zero] using htext
  rw [hposition, Position.offset_advanceAll]
  omega

end Covers

end EmbeddedLang
