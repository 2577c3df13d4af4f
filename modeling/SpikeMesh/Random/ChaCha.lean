set_option autoImplicit false

/-! # The ChaCha random stream

A stream of random words from the ChaCha block function with twelve rounds, a 64-bit block
counter and stream number 0. A block is sixteen words; the words of the blocks are taken in
order. A 64-bit seed fills the eight words of the key by a congruential generator with a
permuted output. -/

namespace SpikeMesh.Random

/-! ## The block function -/

/-- A word rotated to the left. -/
def rotateLeft (x n : UInt32) : UInt32 := (x <<< n) ||| (x >>> (32 - n))

/-- The quarter round on four words of the state. -/
def quarterRound (s : Vector UInt32 16) (a b c d : Fin 16) : Vector UInt32 16 :=
  let s := s.set a (s[a] + s[b])
  let s := s.set d (rotateLeft (s[d] ^^^ s[a]) 16)
  let s := s.set c (s[c] + s[d])
  let s := s.set b (rotateLeft (s[b] ^^^ s[c]) 12)
  let s := s.set a (s[a] + s[b])
  let s := s.set d (rotateLeft (s[d] ^^^ s[a]) 8)
  let s := s.set c (s[c] + s[d])
  s.set b (rotateLeft (s[b] ^^^ s[c]) 7)

/-- A round on the columns of the state and one on its diagonals. -/
def doubleRound (s : Vector UInt32 16) : Vector UInt32 16 :=
  let s := quarterRound s 0 4 8 12
  let s := quarterRound s 1 5 9 13
  let s := quarterRound s 2 6 10 14
  let s := quarterRound s 3 7 11 15
  let s := quarterRound s 0 5 10 15
  let s := quarterRound s 1 6 11 12
  let s := quarterRound s 2 7 8 13
  quarterRound s 3 4 9 14

/-- The block with a number, under a key of eight words: twelve rounds on the state, then the
    state itself added. -/
def block (key : Vector UInt32 8) (counter : UInt64) : Vector UInt32 16 :=
  let s : Vector UInt32 16 :=
    #v[0x61707865, 0x3320646e, 0x79622d32, 0x6b206574,
      key[0], key[1], key[2], key[3], key[4], key[5], key[6], key[7],
      counter.toUInt32, (counter >>> 32).toUInt32, 0, 0]
  let mixed := Nat.repeat doubleRound 6 s
  Vector.zipWith (· + ·) mixed s

/-! ## Seeds -/

/-- The next state of the generator that fills a key. -/
def nextSeedState (state : UInt64) : UInt64 :=
  state * 6364136223846793005 + 11634580027462260723

/-- The word of the key that a state of the generator gives. -/
def seedWord (state : UInt64) : UInt32 :=
  let x := (((state >>> 18) ^^^ state) >>> 27).toUInt32
  let n := (state >>> 59).toUInt32
  (x >>> n) ||| (x <<< ((32 - n) % 32))

/-- The key that a 64-bit seed gives. -/
def keyOfSeed (seed : UInt64) : Vector UInt32 8 :=
  Vector.ofFn fun i => seedWord (Nat.repeat nextSeedState (i.val + 1) seed)

/-! ## Streams -/

/-- A position in a random stream: the words of the current block that are still to come, and
    the number of the next block. -/
structure Stream where
  key : Vector UInt32 8
  nextBlock : UInt64
  pending : List UInt32

namespace Stream

/-- The stream of a seed, at its start. -/
def ofSeed (seed : UInt64) : Stream := ⟨keyOfSeed seed, 0, []⟩

/-- The next 32-bit word. -/
def nextWord (s : Stream) : UInt32 × Stream :=
  match s.pending with
  | w :: rest => (w, { s with pending := rest })
  | [] =>
    let words := block s.key s.nextBlock
    (words[0], { s with nextBlock := s.nextBlock + 1, pending := words.toList.tail })

/-- The next 64-bit word: two words, the low one first. -/
def nextWord64 (s : Stream) : UInt64 × Stream :=
  let (low, s) := s.nextWord
  let (high, s) := s.nextWord
  (low.toUInt64 ||| (high.toUInt64 <<< 32), s)

/-- The next number of the unit interval, a multiple of `2 ^ -53` below 1. -/
def nextUnit (s : Stream) : Float × Stream :=
  let (w, s) := s.nextWord64
  ((w >>> 11).toFloat * Float.ofBits 0x3CA0000000000000, s)

end Stream

end SpikeMesh.Random
