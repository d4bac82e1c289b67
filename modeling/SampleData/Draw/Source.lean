/-!
# Sources of words

Random values are drawn from a source of words: 32 bits, 64 bits or sixteen bytes at a time. How
the three share one stream is the source's own affair, so what is drawn from any source depends
on its answers only.

A draw may reject words and ask for more. How often it does that before it gives up is `patience`.
For the sources of this library that is the number of words after which the source repeats itself,
so a draw that gives up would have asked for ever.
-/

namespace SampleData

/-- A source of words. -/
class WordSource (σ : Type) where
  word32 : σ → UInt32 × σ
  word64 : σ → UInt64 × σ
  bytes16 : σ → Vector UInt8 16 × σ
  patience : Nat

/-- Why a draw gives no value. -/
inductive DrawFault where
  /-- A range whose lower bound is above the upper one holds no number. -/
  | emptyRange (low high : Int64)
  /-- Every word was rejected. -/
  | endless
deriving DecidableEq, Repr

/-- A draw from a source. What is left of the source is known also when the draw gives no value:
it is advanced by what was drawn before. -/
abbrev Draw (σ : Type) : Type → Type := EStateM DrawFault σ

/-- A draw with its outcome apart from what is left of the source. -/
def Draw.outcome {σ α : Type} (d : Draw σ α) (s : σ) : Except DrawFault α × σ :=
  match d.run s with
  | .ok a s => (.ok a, s)
  | .error e s => (.error e, s)

/-! ## Bytes of words -/

/-- The four bytes of a word, the low one first. -/
def bytesOfWord32 (w : UInt32) : List UInt8 :=
  [w.toUInt8, (w >>> 8).toUInt8, (w >>> 16).toUInt8, (w >>> 24).toUInt8]

/-- The eight bytes of a word, the low one first. -/
def bytesOfWord64 (w : UInt64) : List UInt8 :=
  bytesOfWord32 w.toUInt32 ++ bytesOfWord32 (w >>> 32).toUInt32

end SampleData
