import EmbeddedLang.Cache.Fingerprint
import EmbeddedLang.Proofs.Text.PrefixFree
import Mathlib.Algebra.Group.Nat.Defs

/-!
What a fingerprint tells of the texts it was made from.

It tells the digest, and nothing more: that different texts have different digests is an assumption,
made of finitely many messages.
-/

namespace EmbeddedLang

namespace Sha256

theorem length_littleEndianBytes (count n : Nat) : (littleEndianBytes count n).length = count := by
  induction count generalizing n with
  | zero => rfl
  | succ count ih => exact congrArg Nat.succ (ih (n / 256))

theorem mod_of_littleEndianBytes {count m n : Nat}
    (h : littleEndianBytes count m = littleEndianBytes count n) :
    m % 256 ^ count = n % 256 ^ count := by
  induction count generalizing m n with
  | zero => rw [Nat.pow_zero, Nat.mod_one, Nat.mod_one]
  | succ count ih =>
    obtain ⟨hfirst, hrest⟩ := List.cons.inj h
    have hfirst : m % 256 = n % 256 := by
      simpa only [UInt8.toNat_ofNat'] using congrArg UInt8.toNat hfirst
    rw [Nat.pow_succ', Nat.mod_mul, Nat.mod_mul, hfirst, ih hrest]

/-- No two of these messages have one digest. -/
def Separates (messages : List (List UInt8)) : Prop :=
  ∀ a ∈ messages, ∀ b ∈ messages, digest a = digest b → a = b

instance (messages : List (List UInt8)) : Decidable (Separates messages) :=
  inferInstanceAs (Decidable (∀ a ∈ messages, ∀ b ∈ messages, digest a = digest b → a = b))

end Sha256

namespace Fingerprint

theorem hexByte_prefixFree : Text.PrefixFree hexByte := by
  intro a b s t h
  obtain ⟨hhigh, h⟩ := List.cons.inj h
  obtain ⟨hlow, hst⟩ := List.cons.inj h
  have ha := a.toNat_lt
  have hb := b.toNat_lt
  have hdiv := Text.digitChar_inj (by omega) (by omega) hhigh
  have hmod := Text.digitChar_inj (by omega) (by omega) hlow
  exact ⟨UInt8.toNat_inj.mp (by omega), hst⟩

theorem ofBytes_eq_iff {a b : List UInt8} :
    ofBytes a = ofBytes b ↔ Sha256.digest a = Sha256.digest b := by
  constructor
  · intro h
    have htext := String.ofList_injective (congrArg Fingerprint.text h)
    exact hexByte_prefixFree.flatMap_inj (fun _ => List.cons_ne_nil _ _) htext
  · intro h
    rw [ofBytes, ofBytes, h]

/-! ### The bytes of a message -/

theorem utf8_toByteArray (s : String) : (utf8 s).toByteArray = s.toByteArray :=
  String.utf8Encode_toList

theorem utf8_inj {s t : String} (h : utf8 s = utf8 t) : s = t := by
  rw [← String.toByteArray_inj, ← utf8_toByteArray, ← utf8_toByteArray, h]

theorem utf8_append (s t : String) : utf8 (s ++ t) = utf8 s ++ utf8 t := by
  simp only [utf8, String.toList_append, List.flatMap_append]

/-- The number of bytes is read back unless the two are at least `2 ^ 64` apart. -/
theorem part_append_inj {s t : String} {x y : List UInt8} (h : part s ++ x = part t ++ y)
    (hs : (utf8 s).length < (utf8 t).length + 2 ^ 64)
    (ht : (utf8 t).length < (utf8 s).length + 2 ^ 64) : s = t ∧ x = y := by
  simp only [part, List.append_assoc] at h
  obtain ⟨hcount, hbytes⟩ := List.append_inj h (by simp only [Sha256.length_littleEndianBytes])
  -- a length is written modulo `2 ^ 64`
  have hmod := Sha256.mod_of_littleEndianBytes hcount
  have hlen : (utf8 s).length = (utf8 t).length := by omega
  obtain ⟨htext, hrest⟩ := List.append_inj hbytes hlen
  exact ⟨utf8_inj htext, hrest⟩

theorem part_inj {s t : String} (h : part s = part t) : s = t := by
  obtain ⟨_, hbytes⟩ := List.append_inj h (by simp only [Sha256.length_littleEndianBytes])
  exact utf8_inj hbytes

/-- Under one version and language, two messages are alike only if they say the same. -/
theorem variant_source_inj {version language variant variant' source source' : String}
    (h : encode version language variant source = encode version language variant' source')
    (hv : (utf8 variant).length < (utf8 variant').length + 2 ^ 64)
    (hv' : (utf8 variant').length < (utf8 variant).length + 2 ^ 64) :
    variant = variant' ∧ source = source' := by
  simp only [encode, List.append_assoc] at h
  have hrest := List.append_cancel_left (List.append_cancel_left h)
  obtain ⟨hvariant, hsource⟩ := part_append_inj hrest hv hv'
  exact ⟨hvariant, part_inj hsource⟩

/-! ### Four parts -/

theorem length_utf8 (s : String) : (utf8 s).length = s.utf8ByteSize := by
  rw [String.utf8ByteSize, ← utf8_toByteArray, List.size_toByteArray]

/-- A text whose number of bytes can be written in eight. -/
abbrev Countable := { s : String // s.utf8ByteSize < 2 ^ 64 }

theorem part_prefixFree : Text.PrefixFree fun s : Countable => part s.val := by
  rintro ⟨a, ha⟩ ⟨b, hb⟩ x y h
  have hlength : (utf8 a).length < 2 ^ 64 ∧ (utf8 b).length < 2 ^ 64 := by
    rw [length_utf8, length_utf8]
    exact ⟨ha, hb⟩
  obtain ⟨rfl, hxy⟩ := part_append_inj (s := a) (t := b) h (by omega) (by omega)
  exact ⟨rfl, hxy⟩

theorem parts_inj {texts texts' : List Countable}
    (h : (texts.flatMap fun s => part s.val) = texts'.flatMap fun s => part s.val) :
    texts = texts' :=
  part_prefixFree.flatMap_inj (fun _ => List.cons_ne_nil _ _) h

theorem encode_inj {version language variant source version' language' variant' source' : Countable}
    (h : encode version.val language.val variant.val source.val =
      encode version'.val language'.val variant'.val source'.val) :
    [version, language, variant, source] = [version', language', variant', source'] := by
  apply parts_inj
  simpa only [encode, List.append_assoc, List.flatMap_cons, List.flatMap_nil,
    List.append_nil] using h

/-- The message tells all four parts, and so does the fingerprint if the two messages have different
digests wherever they differ. -/
theorem fingerprints_exact
    {version language variant source version' language' variant' source' : String}
    (hcountable : ∀ s ∈ [version, language, variant, source, version', language', variant',
      source'], s.utf8ByteSize < 2 ^ 64) :
    let message := encode version language variant source
    let message' := encode version' language' variant' source'
    let alike := version = version' ∧ language = language' ∧ variant = variant' ∧ source = source'
    (message = message' ↔ alike) ∧
      (Sha256.Separates [message, message'] →
        (withVersion version language variant source =
          withVersion version' language' variant' source' ↔ alike)) := by
  intro message message' alike
  have halike : alike → message = message' := by
    rintro ⟨rfl, rfl, rfl, rfl⟩
    rfl
  have hmessage : message = message' → alike := by
    intro h
    simp only [List.forall_mem_cons] at hcountable
    obtain ⟨hv, hl, hr, hs, hv', hl', hr', hs', -⟩ := hcountable
    have hparts := @encode_inj ⟨_, hv⟩ ⟨_, hl⟩ ⟨_, hr⟩ ⟨_, hs⟩ ⟨_, hv'⟩ ⟨_, hl'⟩ ⟨_, hr'⟩ ⟨_, hs'⟩ h
    simpa only [List.cons.injEq, Subtype.mk.injEq, and_true] using hparts
  refine ⟨⟨hmessage, halike⟩, fun hseparates => ⟨fun h => ?_, fun h => ?_⟩⟩
  · apply hmessage
    apply hseparates message List.mem_cons_self message' (List.mem_cons_of_mem _ List.mem_cons_self)
    exact ofBytes_eq_iff.mp h
  · exact congrArg ofBytes (halike h)

/-- The bytes that a language ends with are those that tell the length of an empty variant. -/
theorem fingerprints_exact_imitated :
    let zeros := String.ofList (List.replicate 8 '\x00')
    (∀ s ∈ ["1", "a", zeros, "b", "1", "a" ++ zeros, "", "b"], s.utf8ByteSize < 2 ^ 64) ∧
      Sha256.Separates [encode "1" "a" zeros "b", encode "1" ("a" ++ zeros) "" "b"] ∧
      encode "1" "a" zeros "b" ≠ encode "1" ("a" ++ zeros) "" "b" ∧
      withVersion "1" "a" zeros "b" ≠ withVersion "1" ("a" ++ zeros) "" "b" := by
  intro zeros
  have hcountable :
      ∀ s ∈ ["1", "a", zeros, "b", "1", "a" ++ zeros, "", "b"], s.utf8ByteSize < 2 ^ 64 := by
    decide +kernel
  have hseparates :
      Sha256.Separates [encode "1" "a" zeros "b", encode "1" ("a" ++ zeros) "" "b"] := by
    decide +kernel
  have hdiffer : "a" ≠ "a" ++ zeros := by decide +kernel
  obtain ⟨hmessage, hfingerprint⟩ := fingerprints_exact hcountable
  refine ⟨hcountable, hseparates, fun h => ?_, fun h => ?_⟩
  · exact hdiffer (hmessage.mp h).2.1
  · exact hdiffer ((hfingerprint hseparates).mp h).2.1

end Fingerprint

end EmbeddedLang
