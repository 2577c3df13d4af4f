set_option autoImplicit false

/-! # The XXH3 hash with 128 bits

XXH3 in its 128-bit form, with seed 0 and the standard secret. Short inputs are mixed in one of
four ways chosen by their length; long ones run through eight accumulators, 64 bytes (a
stripe) at a time and 1024 bytes (a block) between two scramblings. All arithmetic is on
64-bit words, modulo `2 ^ 64`. -/

namespace SpikeMesh.Digest.XXH3

/-! ## Words -/

/-- A 128-bit number as two 64-bit words. -/
structure Wide where
  low : UInt64
  high : UInt64
deriving DecidableEq, Repr

/-- The byte at a position; 0 beyond the end. -/
def byteAt (bytes : Array UInt8) (i : Nat) : UInt64 := (bytes.getD i 0).toUInt64

/-- The number that `width` bytes from a position on denote, lowest byte first. -/
def readLittleEndian (bytes : Array UInt8) (start : Nat) : Nat → UInt64
  | 0 => 0
  | width + 1 => byteAt bytes start ||| (readLittleEndian bytes (start + 1) width <<< 8)

/-- The 64-bit word at a position. -/
def word64 (bytes : Array UInt8) (i : Nat) : UInt64 := readLittleEndian bytes i 8

/-- The 32-bit word at a position. -/
def word32 (bytes : Array UInt8) (i : Nat) : UInt64 := readLittleEndian bytes i 4

/-- The low 32 bits. -/
def low32 (x : UInt64) : UInt64 := x &&& 0xFFFFFFFF

/-- The byte of a word that stands above `shift` bits. -/
def byteAbove (x shift : UInt64) : UInt64 := (x >>> shift) &&& (0xFF : UInt64)

/-- The 32-bit word with its four bytes in reverse order. -/
def swap32 (x : UInt64) : UInt64 :=
  (byteAbove x 0 <<< 24) ||| (byteAbove x 8 <<< 16) ||| (byteAbove x 16 <<< 8)
    ||| byteAbove x 24

/-- The 64-bit word with its eight bytes in reverse order. -/
def swap64 (x : UInt64) : UInt64 := (swap32 (low32 x) <<< 32) ||| swap32 (x >>> 32)

/-- The 32-bit word rotated to the left. -/
def rotate32 (x : UInt64) (n : UInt64) : UInt64 := low32 (x <<< n) ||| (x >>> (32 - n))

/-- The full product of two words. -/
def multiply (a b : UInt64) : Wide :=
  let p := a.toNat * b.toNat
  ⟨UInt64.ofNat p, UInt64.ofNat (p >>> 64)⟩

/-- The exclusive or of the two halves of a product. -/
def foldedProduct (a b : UInt64) : UInt64 :=
  let p := multiply a b
  p.low ^^^ p.high

/-- A word with its high bits mixed into its low ones. -/
def xorShift (x n : UInt64) : UInt64 := x ^^^ (x >>> n)

/-! ## Constants -/

def prime32a : UInt64 := 0x9E3779B1
def prime32b : UInt64 := 0x85EBCA77
def prime32c : UInt64 := 0xC2B2AE3D
def prime64a : UInt64 := 0x9E3779B185EBCA87
def prime64b : UInt64 := 0xC2B2AE3D27D4EB4F
def prime64c : UInt64 := 0x165667B19E3779F9
def prime64d : UInt64 := 0x85EBCA77C2B2AE63
def prime64e : UInt64 := 0x27D4EB2F165667C5
def mixerA : UInt64 := 0x165667919E3779F9
def mixerB : UInt64 := 0x9FB21C651E98DF25

/-- The standard secret: 192 fixed bytes that are mixed into the input. -/
def secret : Array UInt8 := #[
  0xb8, 0xfe, 0x6c, 0x39, 0x23, 0xa4, 0x4b, 0xbe, 0x7c, 0x01, 0x81, 0x2c,
  0xf7, 0x21, 0xad, 0x1c, 0xde, 0xd4, 0x6d, 0xe9, 0x83, 0x90, 0x97, 0xdb,
  0x72, 0x40, 0xa4, 0xa4, 0xb7, 0xb3, 0x67, 0x1f, 0xcb, 0x79, 0xe6, 0x4e,
  0xcc, 0xc0, 0xe5, 0x78, 0x82, 0x5a, 0xd0, 0x7d, 0xcc, 0xff, 0x72, 0x21,
  0xb8, 0x08, 0x46, 0x74, 0xf7, 0x43, 0x24, 0x8e, 0xe0, 0x35, 0x90, 0xe6,
  0x81, 0x3a, 0x26, 0x4c, 0x3c, 0x28, 0x52, 0xbb, 0x91, 0xc3, 0x00, 0xcb,
  0x88, 0xd0, 0x65, 0x8b, 0x1b, 0x53, 0x2e, 0xa3, 0x71, 0x64, 0x48, 0x97,
  0xa2, 0x0d, 0xf9, 0x4e, 0x38, 0x19, 0xef, 0x46, 0xa9, 0xde, 0xac, 0xd8,
  0xa8, 0xfa, 0x76, 0x3f, 0xe3, 0x9c, 0x34, 0x3f, 0xf9, 0xdc, 0xbb, 0xc7,
  0xc7, 0x0b, 0x4f, 0x1d, 0x8a, 0x51, 0xe0, 0x4b, 0xcd, 0xb4, 0x59, 0x31,
  0xc8, 0x9f, 0x7e, 0xc9, 0xd9, 0x78, 0x73, 0x64, 0xea, 0xc5, 0xac, 0x83,
  0x34, 0xd3, 0xeb, 0xc3, 0xc5, 0x81, 0xa0, 0xff, 0xfa, 0x13, 0x63, 0xeb,
  0x17, 0x0d, 0xdd, 0x51, 0xb7, 0xf0, 0xda, 0x49, 0xd3, 0x16, 0x55, 0x26,
  0x29, 0xd4, 0x68, 0x9e, 0x2b, 0x16, 0xbe, 0x58, 0x7d, 0x47, 0xa1, 0xfc,
  0x8f, 0xf8, 0xb8, 0xd1, 0x7a, 0xd0, 0x31, 0xce, 0x45, 0xcb, 0x3a, 0x8f,
  0x95, 0x16, 0x04, 0x28, 0xaf, 0xd7, 0xfb, 0xca, 0xbb, 0x4b, 0x40, 0x7e]

/-! ## Mixing -/

/-- The final mixing of one word for short inputs. -/
def avalancheShort (h : UInt64) : UInt64 :=
  xorShift (xorShift (xorShift h 33 * prime64b) 29 * prime64c) 32

/-- The final mixing of one word for all other inputs. -/
def avalanche (h : UInt64) : UInt64 :=
  xorShift (xorShift h 37 * mixerA) 32

/-- Sixteen bytes folded with sixteen bytes of the secret. -/
def mix16 (bytes : Array UInt8) (i key : Nat) : UInt64 :=
  foldedProduct (word64 bytes i ^^^ word64 secret key)
    (word64 bytes (i + 8) ^^^ word64 secret (key + 8))

/-- Two groups of sixteen bytes mixed into a pair of accumulators. -/
def mix32 (bytes : Array UInt8) (acc : Wide) (i j key : Nat) : Wide :=
  { low := (acc.low + mix16 bytes i key) ^^^ (word64 bytes j + word64 bytes (j + 8))
    high := (acc.high + mix16 bytes j (key + 16)) ^^^ (word64 bytes i + word64 bytes (i + 8)) }

/-! ## Inputs of at most sixteen bytes -/

/-- The hash of no bytes. -/
def hashEmpty : Wide :=
  { low := avalancheShort (word64 secret 64 ^^^ word64 secret 72)
    high := avalancheShort (word64 secret 80 ^^^ word64 secret 88) }

/-- Inputs of 1 to 3 bytes. -/
def hashTo3 (bytes : Array UInt8) : Wide :=
  let n := bytes.size
  let combined := (byteAt bytes 0 <<< 16) ||| (byteAt bytes (n / 2) <<< 24)
    ||| byteAt bytes (n - 1) ||| (n.toUInt64 <<< 8)
  let crossed := rotate32 (swap32 combined) 13
  { low := avalancheShort (combined ^^^ (word32 secret 0 ^^^ word32 secret 4))
    high := avalancheShort (crossed ^^^ (word32 secret 8 ^^^ word32 secret 12)) }

/-- Inputs of 4 to 8 bytes. -/
def hashTo8 (bytes : Array UInt8) : Wide :=
  let n := bytes.size
  let combined := word32 bytes 0 + (word32 bytes (n - 4) <<< 32)
  let keyed := combined ^^^ (word64 secret 16 ^^^ word64 secret 24)
  let p := multiply keyed (prime64a + (n.toUInt64 <<< 2))
  let high := p.high + (p.low <<< 1)
  let low := p.low ^^^ (high >>> 3)
  { low := xorShift (xorShift low 35 * mixerB) 28
    high := avalanche high }

/-- Inputs of 9 to 16 bytes. -/
def hashTo16 (bytes : Array UInt8) : Wide :=
  let n := bytes.size
  let first := word64 bytes 0
  let last := word64 bytes (n - 8)
  let p := multiply (first ^^^ last ^^^ (word64 secret 32 ^^^ word64 secret 40)) prime64a
  let low := p.low + ((n - 1).toUInt64 <<< 54)
  let keyed := last ^^^ (word64 secret 48 ^^^ word64 secret 56)
  let high := p.high + keyed + low32 keyed * (prime32b - 1)
  let q := multiply (low ^^^ swap64 high) prime64b
  { low := avalanche q.low
    high := avalanche (q.high + high * prime64b) }

/-! ## Inputs of at most 240 bytes -/

/-- The last mixing of two accumulators after `n` bytes. -/
def finishMiddle (n : Nat) (acc : Wide) : Wide :=
  { low := avalanche (acc.low + acc.high)
    high := 0 - avalanche
      (acc.low * prime64a + acc.high * prime64d + n.toUInt64 * prime64b) }

/-- Inputs of 17 to 128 bytes: pairs of groups from both ends, the inner ones first. -/
def hashTo128 (bytes : Array UInt8) : Wide :=
  let n := bytes.size
  let pairs := (List.range ((n - 1) / 32 + 1)).reverse
  finishMiddle n <| pairs.foldl
    (fun acc i => mix32 bytes acc (16 * i) (n - 16 * (i + 1)) (32 * i))
    ⟨n.toUInt64 * prime64a, 0⟩

/-- Inputs of 129 to 240 bytes: groups of 32 bytes in order, mixed once after four of them,
    and the last 32 bytes again. -/
def hashTo240 (bytes : Array UInt8) : Wide :=
  let n := bytes.size
  let start : Wide := ⟨n.toUInt64 * prime64a, 0⟩
  let acc := (List.range 4).foldl
    (fun acc i => mix32 bytes acc (32 * i) (32 * i + 16) (32 * i)) start
  let acc : Wide := ⟨avalanche acc.low, avalanche acc.high⟩
  let acc := (List.range' 4 (n / 32 - 4)).foldl
    (fun acc i => mix32 bytes acc (32 * i) (32 * i + 16) (3 + 32 * (i - 4))) acc
  finishMiddle n (mix32 bytes acc (n - 16) (n - 32) 103)

/-! ## Longer inputs -/

/-- The accumulators before the first stripe. -/
def startAccumulators : Array UInt64 :=
  #[prime32c, prime64a, prime64b, prime64c, prime64d, prime32b, prime64e, prime32a]

/-- One lane of a stripe: the word of the neighbouring lane is added, and the product of the
    two halves of the keyed word. -/
def stripeLane (bytes : Array UInt8) (at_ key : Nat) (acc : Array UInt64) (lane : Nat) :
    UInt64 :=
  let keyed := word64 bytes (at_ + 8 * lane) ^^^ word64 secret (key + 8 * lane)
  let neighbour := if lane % 2 == 0 then lane + 1 else lane - 1
  acc.getD lane 0 + word64 bytes (at_ + 8 * neighbour) + low32 keyed * (keyed >>> 32)

/-- The accumulators after the stripe of 64 bytes at a position. -/
def stripe (bytes : Array UInt8) (at_ key : Nat) (acc : Array UInt64) : Array UInt64 :=
  (Array.range 8).map (stripeLane bytes at_ key acc)

/-- The accumulators after the first `count` stripes of the block at a position. -/
def stripes (bytes : Array UInt8) (block count : Nat) (acc : Array UInt64) : Array UInt64 :=
  (List.range count).foldl (fun acc i => stripe bytes (block + 64 * i) (8 * i) acc) acc

/-- The accumulators at the end of a block. -/
def scramble (acc : Array UInt64) : Array UInt64 :=
  (Array.range 8).map fun lane =>
    (xorShift (acc.getD lane 0) 47 ^^^ word64 secret (128 + 8 * lane)) * prime32a

/-- The eight accumulators folded into one word. -/
def merge (acc : Array UInt64) (key : Nat) (start : UInt64) : UInt64 :=
  avalanche <| (List.range 4).foldl
    (fun sum i => sum + foldedProduct (acc.getD (2 * i) 0 ^^^ word64 secret (key + 16 * i))
      (acc.getD (2 * i + 1) 0 ^^^ word64 secret (key + 16 * i + 8)))
    start

/-- Inputs of more than 240 bytes: whole blocks, then the stripes of the last block, then the
    last 64 bytes once more. -/
def hashLong (bytes : Array UInt8) : Wide :=
  let n := bytes.size
  let blocks := (n - 1) / 1024
  let acc := (List.range blocks).foldl
    (fun acc b => scramble (stripes bytes (1024 * b) 16 acc)) startAccumulators
  let acc := stripes bytes (1024 * blocks) ((n - 1) % 1024 / 64) acc
  let acc := stripe bytes (n - 64) 121 acc
  { low := merge acc 11 (n.toUInt64 * prime64a)
    high := merge acc 117 (~~~(n.toUInt64 * prime64b)) }

/-- The hash of a byte sequence. -/
def hash (bytes : Array UInt8) : Wide :=
  let n := bytes.size
  if n == 0 then hashEmpty
  else if n ≤ 3 then hashTo3 bytes
  else if n ≤ 8 then hashTo8 bytes
  else if n ≤ 16 then hashTo16 bytes
  else if n ≤ 128 then hashTo128 bytes
  else if n ≤ 240 then hashTo240 bytes
  else hashLong bytes

end SpikeMesh.Digest.XXH3
