import SpikeMesh.Digest.XXH3
import SpikeMesh.Text.Hex

set_option autoImplicit false

/-! # Content hashes

The 128-bit hash by which two compiled artifacts are compared, as sixteen bytes, lowest byte
first. -/

namespace SpikeMesh

/-- The 128-bit hash of a byte sequence. -/
structure ContentHash where
  bytes : List UInt8
  length_eq : bytes.length = 16
deriving DecidableEq

namespace ContentHash

/-- The eight bytes of a word, lowest first. -/
def littleEndian (w : UInt64) : List UInt8 :=
  (List.range 8).map fun i => (w >>> (8 * i).toUInt64).toUInt8

theorem length_littleEndian (w : UInt64) : (littleEndian w).length = 8 := by
  simp [littleEndian]

/-- The hash of a byte sequence. -/
def ofBytes (bytes : List UInt8) : ContentHash :=
  let wide := Digest.XXH3.hash bytes.toArray
  ⟨littleEndian wide.low ++ littleEndian wide.high, by simp [length_littleEndian]⟩

/-- The hash of a text in UTF-8. -/
def ofString (text : String) : ContentHash := ofBytes text.toUTF8.data.toList

/-- All sixteen bytes in hexadecimal. -/
def text (h : ContentHash) : String := Text.hexBytes h.bytes

/-- The first two bytes, to tell hashes apart in short. -/
def shortText (h : ContentHash) : String :=
  "ContentHash(" ++ Text.hexBytes (h.bytes.take 2) ++ "..)"

end ContentHash

end SpikeMesh
