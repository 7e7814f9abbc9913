import ComponentInsight.Fingerprint.Xxh3

/-!
# Fingerprints

A fingerprint is the 64-bit hash of a byte stream; caches are keyed by it. A stream may be built
from several parts: texts and byte strings are written with their length in front, integers with a
fixed width. `stream` is what a fingerprint stands for, up to collisions of the hash. Lists that
have integers at the same places, as the keys of one cache do, have different streams; an integer
and a byte string may have the same one.
-/

namespace ComponentInsight

/-- The `width` lowest bytes of a number, least significant first. -/
def littleEndian : Nat → Nat → List UInt8
  | 0, _ => []
  | width + 1, n => n.toUInt8 :: littleEndian width (n / 256)

/-- The UTF-8 bytes of a text. -/
def utf8Bytes (s : String) : List UInt8 := s.toUTF8.toList

/-- A digest that identifies one state of a file or buffer. -/
structure Fingerprint where
  value : UInt64
  deriving DecidableEq, Repr

namespace Fingerprint

/-- One part of a fingerprinted stream. -/
inductive Part where
  /-- A text. -/
  | text (s : String)
  /-- Raw bytes. -/
  | bytes (data : List UInt8)
  /-- An integer below `2 ^ 128`. -/
  | integer (n : Nat)
  deriving DecidableEq, Repr

/-- Bytes with their count, written in eight bytes, in front. -/
def delimited (data : List UInt8) : List UInt8 := littleEndian 8 data.length ++ data

/-- The bytes a part contributes. -/
def Part.encode : Part → List UInt8
  | .text s => delimited (utf8Bytes s)
  | .bytes data => delimited data
  | .integer n => littleEndian 16 n

/-- The byte stream of a list of parts. -/
def stream (parts : List Part) : List UInt8 := parts.flatMap Part.encode

/-- The fingerprint of raw bytes. -/
def ofBytes (data : List UInt8) : Fingerprint := ⟨Xxh3.hash data.toArray⟩

/-- The fingerprint of a single text, hashed without its length. -/
def ofText (s : String) : Fingerprint := ofBytes (utf8Bytes s)

/-- The fingerprint of several parts. -/
def ofParts (parts : List Part) : Fingerprint := ofBytes (stream parts)

/-- The digit of a number below sixteen. -/
def hexDigit (n : Nat) : Char := (Nat.toDigits 16 (n % 16)).headD '0'

/-- Sixteen lower-case hexadecimal digits of a 64-bit word. -/
def hexOf (w : UInt64) : String :=
  String.ofList ((List.range 16).map fun i => hexDigit (w.toNat / Nat.pow 16 (15 - i)))

/-- The sixteen hexadecimal digits of a fingerprint. -/
def hex (f : Fingerprint) : String := hexOf f.value

/-- The form used in diagnostics. -/
def describe (f : Fingerprint) : String := "Fingerprint(" ++ f.hex ++ ")"

end Fingerprint

end ComponentInsight
