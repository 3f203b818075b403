import EmbeddedLang.Text.Escape

/-!
Escaped text: it cannot be taken for markup or for more than one part of an address, and it is read
back as what it was made from.

Decoders go over a whole text and know nothing of how it was written. One lemma on each says that
what is written for one character is read as that character, whatever follows it.
-/

namespace EmbeddedLang.Text

def entities : List (List Char) :=
  ["&lt;".toList, "&gt;".toList, "&amp;".toList, "&quot;".toList, "&#x27;".toList]

def isSpecial (c : Char) : Bool :=
  ['<', '>', '&', '"', '\''].contains c

/-- The only character with a meaning is the `&` that begins an entity. -/
def isEscapedFrom : List Char → Bool
  | [] => true
  | c :: rest =>
    (!isSpecial c || c == '&' && entities.any (·.isPrefixOf (c :: rest))) && isEscapedFrom rest

def isEscaped (s : String) : Bool :=
  isEscapedFrom s.toList

theorem isEscapedFrom_append {cs ds : List Char} (hc : isEscapedFrom cs) (hd : isEscapedFrom ds) :
    isEscapedFrom (cs ++ ds) := by
  induction cs with
  | nil => exact hd
  | cons c rest ih =>
    simp only [isEscapedFrom, Bool.and_eq_true, Bool.or_eq_true] at hc
    obtain ⟨hfirst, hrest⟩ := hc
    simp only [List.cons_append, isEscapedFrom, Bool.and_eq_true, Bool.or_eq_true]
    refine ⟨?_, ih hrest⟩
    refine hfirst.imp_right fun ⟨hand, hentity⟩ => ⟨hand, ?_⟩
    obtain ⟨entity, hm, hprefix⟩ := List.any_eq_true.mp hentity
    refine List.any_eq_true.mpr ⟨entity, hm, ?_⟩
    have hlonger : entity <+: c :: rest ++ ds :=
      (List.isPrefixOf_iff_prefix.mp hprefix).trans (List.prefix_append (c :: rest) ds)
    exact List.isPrefixOf_iff_prefix.mpr hlonger

theorem isEscaped_append {s t : String} (hs : isEscaped s) (ht : isEscaped t) :
    isEscaped (s ++ t) := by
  unfold isEscaped
  rw [String.toList_append]
  exact isEscapedFrom_append hs ht

theorem isEscapedFrom_of_plain {cs : List Char} (h : ∀ c ∈ cs, isSpecial c = false) :
    isEscapedFrom cs := by
  induction cs with
  | nil => rfl
  | cons c rest ih =>
    have hc := h c List.mem_cons_self
    have hrest := ih fun d hd => h d (List.mem_cons_of_mem _ hd)
    simp [isEscapedFrom, hc, hrest]

theorem isEscapedFrom_htmlChar (c : Char) : isEscapedFrom (htmlChar c) := by
  unfold htmlChar
  split
  iterate 5 decide
  next hlt hgt hamp hquot hapos =>
    apply isEscapedFrom_of_plain
    intro d hd
    cases List.mem_singleton.mp hd
    simpa [isSpecial] using And.intro hlt ⟨hgt, hamp, hquot, hapos⟩

theorem isEscaped_escapeHtml (s : String) : isEscaped (escapeHtml s) := by
  have hall (cs : List Char) : isEscapedFrom (cs.flatMap htmlChar) := by
    induction cs with
    | nil => rfl
    | cons c rest ih => exact isEscapedFrom_append (isEscapedFrom_htmlChar c) ih
  unfold isEscaped
  rw [escapeHtml_eq, String.toList_ofList]
  exact hall s.toList

/-! ### Entities read back -/

/-- Puts characters in the place of entities, from left to right. -/
def decodeHtml : List Char → List Char
  | '&' :: 'l' :: 't' :: ';' :: rest => '<' :: decodeHtml rest
  | '&' :: 'g' :: 't' :: ';' :: rest => '>' :: decodeHtml rest
  | '&' :: 'a' :: 'm' :: 'p' :: ';' :: rest => '&' :: decodeHtml rest
  | '&' :: 'q' :: 'u' :: 'o' :: 't' :: ';' :: rest => '"' :: decodeHtml rest
  | '&' :: '#' :: 'x' :: '2' :: '7' :: ';' :: rest => '\'' :: decodeHtml rest
  | c :: rest => c :: decodeHtml rest
  | [] => []

theorem decodeHtml_cons {c : Char} (h : c ≠ '&') (rest : List Char) :
    decodeHtml (c :: rest) = c :: decodeHtml rest := by
  rw [decodeHtml] <;> intros <;> contradiction

theorem decodeHtml_htmlChar (c : Char) (rest : List Char) :
    decodeHtml (htmlChar c ++ rest) = c :: decodeHtml rest := by
  unfold htmlChar
  split
  iterate 5 rfl
  next hamp _ _ => exact decodeHtml_cons hamp rest

theorem decodeHtml_flatMap (cs : List Char) : decodeHtml (cs.flatMap htmlChar) = cs := by
  induction cs with
  | nil => rfl
  | cons c rest ih => rw [List.flatMap_cons, decodeHtml_htmlChar, ih]

theorem decodeHtml_escapeHtml (s : String) : decodeHtml (escapeHtml s).toList = s.toList := by
  rw [escapeHtml_eq, String.toList_ofList, decodeHtml_flatMap]

/-! ### Addresses -/

/-- What may stand in an address for itself. -/
def unreserved : List Char :=
  "ABCDEFGHIJKLMNOPQRSTUVWXYZabcdefghijklmnopqrstuvwxyz0123456789-._~".toList

def hexDigits : List Char :=
  "0123456789ABCDEF".toList

/-- A text of unreserved characters, and of percent signs with two digits each. -/
def isAddress : List Char → Bool
  | '%' :: a :: b :: rest => hexDigits.contains a && hexDigits.contains b && isAddress rest
  | c :: rest => unreserved.contains c && isAddress rest
  | [] => true

/-- The bytes that a text stands for, where a percent sign and two digits stand for one. -/
def decodePercent : List Char → List UInt8
  | '%' :: a :: b :: rest =>
    match hexDigits.idxOf? a.toUpper, hexDigits.idxOf? b.toUpper with
    | some high, some low => UInt8.ofNat (16 * high + low) :: decodePercent rest
    | _, _ => String.utf8EncodeChar '%' ++ decodePercent (a :: b :: rest)
  | c :: rest => String.utf8EncodeChar c ++ decodePercent rest
  | [] => []

theorem toNat_lt_of_isUnreserved {c : Char} (h : isUnreserved c) : c.toNat < 128 := by
  unfold isUnreserved Char.isAlphanum Char.isAlpha Char.isUpper Char.isLower Char.isDigit at h
  simp only [Bool.or_eq_true, Bool.and_eq_true, decide_eq_true_eq, beq_iff_eq,
    UInt32.le_iff_toNat_le, ge_iff_le] at h
  rcases h with ((((((h | h) | h) | rfl) | rfl) | rfl) | rfl)
  · exact Nat.lt_of_le_of_lt h.2 (by decide)
  · exact Nat.lt_of_le_of_lt h.2 (by decide)
  · exact Nat.lt_of_le_of_lt h.2 (by decide)
  iterate 4 decide

theorem mem_unreserved {c : Char} (h : isUnreserved c) : c ∈ unreserved := by
  have hall : ∀ n < 128, isUnreserved (Char.ofNat n) → Char.ofNat n ∈ unreserved := by
    decide +kernel
  have hc := hall c.toNat (toNat_lt_of_isUnreserved h)
  rw [Char.ofNat_toNat] at hc
  exact hc h

theorem mem_hexDigits (n : Nat) : upperHexDigit n ∈ hexDigits := by
  have hall : ∀ m < 16, (Nat.digitChar m).toUpper ∈ hexDigits := by decide
  exact hall (n % 16) (Nat.mod_lt n (by decide))

theorem idxOf?_upperHexDigit (n : Nat) :
    hexDigits.idxOf? (upperHexDigit n).toUpper = some (n % 16) := by
  have hall : ∀ m < 16, hexDigits.idxOf? (Nat.digitChar m).toUpper.toUpper = some m := by decide
  exact hall (n % 16) (Nat.mod_lt n (by decide))

theorem decodePercent_percentByte (b : UInt8) (rest : List Char) :
    decodePercent (percentByte b ++ rest) = b :: decodePercent rest := by
  have hlt := b.toNat_lt
  have hvalue : 16 * (b.toNat / 16 % 16) + b.toNat % 16 = b.toNat := by omega
  simp only [percentByte, List.cons_append, List.nil_append, decodePercent, idxOf?_upperHexDigit,
    hvalue, UInt8.ofNat_toNat]

theorem decodePercent_flatMap (bytes : List UInt8) (rest : List Char) :
    decodePercent (bytes.flatMap percentByte ++ rest) = bytes ++ decodePercent rest := by
  induction bytes with
  | nil => rfl
  | cons b bytes ih =>
    rw [List.flatMap_cons, List.append_assoc, decodePercent_percentByte, ih, List.cons_append]

theorem decodePercent_cons {c : Char} (h : c ≠ '%') (rest : List Char) :
    decodePercent (c :: rest) = String.utf8EncodeChar c ++ decodePercent rest := by
  rw [decodePercent]
  intros
  contradiction

theorem ne_percent_of_isUnreserved {c : Char} (h : isUnreserved c) : c ≠ '%' := by
  rintro rfl
  cases h

theorem decodePercent_urlChar (c : Char) (rest : List Char) :
    decodePercent (urlChar c ++ rest) = String.utf8EncodeChar c ++ decodePercent rest := by
  unfold urlChar
  split
  · next h => exact decodePercent_cons (ne_percent_of_isUnreserved h) rest
  · exact decodePercent_flatMap _ rest

theorem decodePercent_escapeUrl (s : String) :
    decodePercent (escapeUrl s).toList = s.toList.flatMap String.utf8EncodeChar := by
  unfold escapeUrl
  rw [String.toList_ofList]
  induction s.toList with
  | nil => rfl
  | cons c rest ih => rw [List.flatMap_cons, decodePercent_urlChar, ih, List.flatMap_cons]

theorem fromUTF8?_utf8 (s : String) :
    String.fromUTF8? (s.toList.flatMap String.utf8EncodeChar).toByteArray = some s := by
  have hbytes : (s.toList.flatMap String.utf8EncodeChar).toByteArray = s.toByteArray :=
    String.utf8Encode_toList
  rw [hbytes]
  exact dif_pos s.isValidUTF8

theorem isAddress_percentByte (b : UInt8) {rest : List Char} (h : isAddress rest) :
    isAddress (percentByte b ++ rest) := by
  have hdigit (n : Nat) : hexDigits.contains (upperHexDigit n) = true :=
    List.contains_iff_mem.mpr (mem_hexDigits n)
  simp only [percentByte, List.cons_append, List.nil_append, isAddress, hdigit, h, Bool.and_self]

theorem isAddress_cons {c : Char} (h : isUnreserved c) {rest : List Char} (hrest : isAddress rest) :
    isAddress (c :: rest) := by
  have hc : unreserved.contains c = true := List.contains_iff_mem.mpr (mem_unreserved h)
  rw [isAddress, hc, hrest]
  · rfl
  · intro _ _ _ hpercent
    exact absurd hpercent (ne_percent_of_isUnreserved h)

theorem isAddress_flatMap (bytes : List UInt8) {rest : List Char} (h : isAddress rest) :
    isAddress (bytes.flatMap percentByte ++ rest) := by
  induction bytes with
  | nil => exact h
  | cons b bytes ih =>
    rw [List.flatMap_cons, List.append_assoc]
    exact isAddress_percentByte b ih

theorem isAddress_escapeUrl (s : String) : isAddress (escapeUrl s).toList := by
  unfold escapeUrl
  rw [String.toList_ofList]
  induction s.toList with
  | nil => rfl
  | cons c rest ih =>
    rw [List.flatMap_cons, urlChar]
    split
    · next h => exact isAddress_cons h ih
    · exact isAddress_flatMap _ ih

/-- Nothing is lost and nothing leaks: text escaped for markup or for an address is read back, and
holds nothing but what may stand there. -/
theorem escaping_lossless (s t out : String) :
    decodeHtml (escapeHtml s).toList = s.toList ∧
      isEscaped (escapeHtml s) ∧
      escapeHtml (s ++ t) = escapeHtml s ++ escapeHtml t ∧
      appendHtml out s = out ++ escapeHtml s ∧
      String.fromUTF8? (decodePercent (escapeUrl s).toList).toByteArray = some s ∧
      isAddress (escapeUrl s).toList := by
  have hbytes := fromUTF8?_utf8 s
  rw [← decodePercent_escapeUrl] at hbytes
  exact ⟨decodeHtml_escapeHtml s, isEscaped_escapeHtml s, escapeHtml_append s t,
    appendHtml_eq_append out s, hbytes, isAddress_escapeUrl s⟩

end EmbeddedLang.Text
