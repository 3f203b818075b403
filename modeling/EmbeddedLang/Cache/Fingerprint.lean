import EmbeddedLang.Digest.Sha256

/-!
Fingerprints of what goes into a compilation.

Every part is preceded by its length, so that no two inputs are one byte sequence.
-/

namespace EmbeddedLang

/-- The hexadecimal form of a digest. -/
structure Fingerprint where
  text : String
deriving DecidableEq

def compilerVersion : String :=
  "0.1.0-alpha.1"

namespace Fingerprint

def utf8 (s : String) : List UInt8 :=
  s.toList.flatMap String.utf8EncodeChar

def part (s : String) : List UInt8 :=
  let bytes := utf8 s
  Sha256.littleEndianBytes 8 bytes.length ++ bytes

/-- The bytes of which the digest is taken. -/
def encode (version language variant source : String) : List UInt8 :=
  part version ++ part language ++ part variant ++ part source

def hexByte (b : UInt8) : List Char :=
  [Nat.digitChar (b.toNat / 16), Nat.digitChar (b.toNat % 16)]

def ofBytes (bytes : List UInt8) : Fingerprint :=
  ⟨String.ofList ((Sha256.digest bytes).flatMap hexByte)⟩

def withVersion (version language variant source : String) : Fingerprint :=
  ofBytes (encode version language variant source)

def of (language variant source : String) : Fingerprint :=
  withVersion compilerVersion language variant source

/-- Enough of a fingerprint to tell it from a few others. -/
def short (f : Fingerprint) : String :=
  String.ofList (f.text.toList.take 12)

end Fingerprint

end EmbeddedLang
