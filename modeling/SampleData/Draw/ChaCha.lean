import SampleData.Draw.Source

/-!
# ChaCha with twelve rounds as a source

Blocks of sixteen words are made from a key of eight words and the number of the block, and the
words come out in order: first those of block 0, then those of block 1, and so on. A draw of 64
bits takes two words, the first of them the low half; sixteen bytes are four words. No word is
ever skipped.

A seed of 64 bits is made into a key by a congruential generator whose output is permuted.
-/

namespace SampleData

/-! ## Blocks -/

namespace ChaCha

/-- The sixteen words that the rounds work on. -/
abbrev Block := Vector UInt32 16

/-- A word turned left. -/
def rotateLeft (w : UInt32) (n : UInt32) : UInt32 := (w <<< n) ||| (w >>> (32 - n))

/-- A word turned right. -/
def rotateRight (w : UInt32) (n : UInt32) : UInt32 := (w >>> n) ||| (w <<< ((32 - n) % 32))

/-- A quarter round on the four words at `a`, `b`, `c`, `d`. -/
def quarterRound (x : Block) (a b c d : Fin 16) : Block :=
  let x := x.set a (x[a] + x[b])
  let x := x.set d (rotateLeft (x[d] ^^^ x[a]) 16)
  let x := x.set c (x[c] + x[d])
  let x := x.set b (rotateLeft (x[b] ^^^ x[c]) 12)
  let x := x.set a (x[a] + x[b])
  let x := x.set d (rotateLeft (x[d] ^^^ x[a]) 8)
  let x := x.set c (x[c] + x[d])
  x.set b (rotateLeft (x[b] ^^^ x[c]) 7)

/-- A round on the columns and a round on the diagonals. -/
def doubleRound (x : Block) : Block :=
  let x := quarterRound x 0 4 8 12
  let x := quarterRound x 1 5 9 13
  let x := quarterRound x 2 6 10 14
  let x := quarterRound x 3 7 11 15
  let x := quarterRound x 0 5 10 15
  let x := quarterRound x 1 6 11 12
  let x := quarterRound x 2 7 8 13
  quarterRound x 3 4 9 14

/-- Six double rounds. -/
def rounds (x : Block) : Block :=
  doubleRound (doubleRound (doubleRound (doubleRound (doubleRound (doubleRound x)))))

/-- A key. -/
abbrev Key := Vector UInt32 8

/-- The words before the rounds: the constant, the key, the number of the block and two zeros. -/
def start (key : Key) (number : UInt64) : Block :=
  #v[0x61707865, 0x3320646e, 0x79622d32, 0x6b206574,
    key[0], key[1], key[2], key[3], key[4], key[5], key[6], key[7],
    number.toUInt32, (number >>> 32).toUInt32, 0, 0]

/-- The words of a block. -/
def block (key : Key) (number : UInt64) : List UInt32 :=
  let x := start key number
  (Vector.zipWith (· + ·) (rounds x) x).toList

/-! ## Keys from seeds -/

/-- One step of the congruential generator. -/
def seedStep (state : UInt64) : UInt64 :=
  state * 6364136223846793005 + 11634580027462260723

/-- The word that a state gives. -/
def seedWord (state : UInt64) : UInt32 :=
  rotateRight (((state >>> 18) ^^^ state) >>> 27).toUInt32 (state >>> 59).toUInt32

/-- The key of a seed: the words of the next eight states. -/
def keyOfSeed (seed : UInt64) : Key :=
  let s1 := seedStep seed
  let s2 := seedStep s1
  let s3 := seedStep s2
  let s4 := seedStep s3
  let s5 := seedStep s4
  let s6 := seedStep s5
  let s7 := seedStep s6
  let s8 := seedStep s7
  #v[seedWord s1, seedWord s2, seedWord s3, seedWord s4,
    seedWord s5, seedWord s6, seedWord s7, seedWord s8]

end ChaCha

/-! ## The source -/

/-- A key, the number of the next block, and the words of the current block that are left. -/
structure ChaCha where
  key : ChaCha.Key
  next : UInt64
  pending : List UInt32
deriving DecidableEq

namespace ChaCha

/-- The stream of a key, from its first word on. -/
def ofKey (key : Key) : ChaCha := { key := key, next := 0, pending := [] }

/-- The stream of a seed, from its first word on. -/
def ofSeed (seed : UInt64) : ChaCha := ofKey (keyOfSeed seed)

/-- The next word. -/
def word (s : ChaCha) : UInt32 × ChaCha :=
  match s.pending with
  | w :: rest => (w, { s with pending := rest })
  | [] =>
    match block s.key s.next with
    | w :: rest => (w, { s with next := s.next + 1, pending := rest })
    | [] => (0, { s with next := s.next + 1 })

/-- The next two words as one, the first of them the low half. -/
def doubleWord (s : ChaCha) : UInt64 × ChaCha :=
  let (low, s) := s.word
  let (high, s) := s.word
  (high.toUInt64 <<< 32 ||| low.toUInt64, s)

/-- The sixteen bytes of the next four words. -/
def fourWords (s : ChaCha) : Vector UInt8 16 × ChaCha :=
  let (a, s) := s.word
  let (b, s) := s.word
  let (c, s) := s.word
  let (d, s) := s.word
  (⟨(bytesOfWord32 a ++ bytesOfWord32 b ++ bytesOfWord32 c ++ bytesOfWord32 d).toArray,
    by simp [bytesOfWord32]⟩, s)

/-- There are `2 ^ 64` blocks of sixteen words. -/
instance : WordSource ChaCha where
  word32 := word
  word64 := doubleWord
  bytes16 := fourWords
  patience := Nat.pow 2 68

end ChaCha

end SampleData
