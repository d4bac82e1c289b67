import SampleData.Draw.Source

/-!
# An arithmetic progression as a source

The words of a source need not be random: this one counts up by a fixed step, so that the words a
draw meets can be chosen. Each draw takes words of 64 bits; of 32 bits it gives the low half, and
sixteen bytes are two words.
-/

namespace SampleData

/-- The next word and the step to the one after it. -/
structure Progression where
  next : UInt64
  step : UInt64
deriving DecidableEq, Repr

namespace Progression

/-- The next word. -/
def word (s : Progression) : UInt64 × Progression :=
  (s.next, { s with next := s.next + s.step })

/-- The low half of the next word. -/
def halfWord (s : Progression) : UInt32 × Progression :=
  let (w, s) := s.word
  (w.toUInt32, s)

/-- The sixteen bytes of the next two words. -/
def twoWords (s : Progression) : Vector UInt8 16 × Progression :=
  let (a, s) := s.word
  let (b, s) := s.word
  (⟨(bytesOfWord64 a ++ bytesOfWord64 b).toArray, by simp [bytesOfWord64, bytesOfWord32]⟩, s)

/-- There are `2 ^ 64` words. -/
instance : WordSource Progression where
  word32 := halfWord
  word64 := word
  bytes16 := twoWords
  patience := Nat.pow 2 64

end Progression

end SampleData
