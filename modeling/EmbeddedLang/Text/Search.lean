/-!
Looking inside a text, held as a list of characters.
-/

namespace EmbeddedLang.Text

/-- Characters before the first occurrence of `needle`. -/
def indexOf (needle : List Char) : List Char → Option Nat
  | [] => if needle.isEmpty then some 0 else none
  | c :: cs =>
    if needle.isPrefixOf (c :: cs) then some 0 else (indexOf needle cs).map (· + 1)

def contains (text needle : List Char) : Bool :=
  (indexOf needle text).isSome

def startsWith (text : List Char) (opening : String) : Bool :=
  opening.toList.isPrefixOf text

theorem prefix_drop_of_indexOf {needle text : List Char} {n : Nat}
    (h : indexOf needle text = some n) : needle <+: text.drop n := by
  induction text generalizing n with
  | nil =>
    unfold indexOf at h
    split at h <;> simp_all
  | cons c cs ih =>
    unfold indexOf at h
    split at h
    · next p =>
      cases h
      simpa using List.isPrefixOf_iff_prefix.1 p
    · obtain ⟨k, hk, rfl⟩ := Option.map_eq_some_iff.1 h
      simpa using ih hk

end EmbeddedLang.Text
