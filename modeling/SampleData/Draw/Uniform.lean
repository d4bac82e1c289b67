import SampleData.Draw.Source

/-!
# Uniform draws

A number below `n` is drawn from words of `b` bits by widening multiplication: of the product of
the word with `n` the high half is the number, and the low half decides whether the word counts.
It counts if it is below `n` shifted up as far as it fits in `b` bits, so each number has the same
share of the words that count. A word that does not count is thrown away and the next one is
tried.
-/

namespace SampleData

variable {σ : Type} [WordSource σ]

/-! ## One word -/

/-- The zeros before the first one of `n`, written with `b` bits. -/
def leadingZeros (b n : Nat) : Nat := if n = 0 then b else b - 1 - n.log2

/-- The number of low halves that count. -/
def countingWords (b n : Nat) : Nat := n * Nat.pow 2 (leadingZeros b n)

/-- The number below `n` that a word of `b` bits gives, if the word counts. -/
def pickBelow (b n word : Nat) : Option Nat :=
  let product := word * n
  if product % Nat.pow 2 b < countingWords b n then some (product / Nat.pow 2 b) else none

/-! ## Trying words -/

/-- The first number that a word gives, in at most `tries` words. -/
def tryWords (next : σ → Nat × σ) (pick : Nat → Option Nat) : Nat → Draw σ Nat
  | 0 => fun s => .error .endless s
  | tries + 1 => fun s =>
    match pick (next s).1 with
    | some x => .ok x (next s).2
    | none => tryWords next pick tries (next s).2

/-- The next word of 64 bits as a number. -/
def nextNat64 (s : σ) : Nat × σ := ((WordSource.word64 s).1.toNat, (WordSource.word64 s).2)

/-- The next word of 32 bits as a number. -/
def nextNat32 (s : σ) : Nat × σ := ((WordSource.word32 s).1.toNat, (WordSource.word32 s).2)

/-- A number below `n`, for `n` of 64 bits. -/
def drawBelow64 (n : Nat) : Draw σ Nat :=
  tryWords nextNat64 (pickBelow 64 n) (WordSource.patience σ)

/-- A number below `n`, for `n` of 32 bits. -/
def drawBelow32 (n : Nat) : Draw σ Nat :=
  tryWords nextNat32 (pickBelow 32 n) (WordSource.patience σ)

/-! ## Numbers and choices -/

/-- The next word as it stands. -/
def drawWord64 : Draw σ UInt64 := fun s => .ok (WordSource.word64 s).1 (WordSource.word64 s).2

/-- How many numbers lie between the bounds, or zero if that is all of them. -/
def rangeSize (low high : Int64) : UInt64 := (high - low).toUInt64 + 1

/-- A number between the bounds, both included. A range of all numbers takes the word itself. -/
def drawInteger (low high : Int64) : Draw σ Int64 :=
  if high < low then throw (.emptyRange low high)
  else if rangeSize low high = 0 then return (← drawWord64).toInt64
  else return low + (UInt64.ofNat (← drawBelow64 (rangeSize low high).toNat)).toInt64

/-- A place in a list of `n` entries. Short lists take words of 32 bits. -/
def drawIndex (n : Nat) : Draw σ Nat :=
  if n < UInt32.size then drawBelow32 n else drawBelow64 n

/-- One entry of a list, each as likely as the others; an empty list gives nothing and draws
nothing. -/
def drawChoice {α : Type} (xs : List α) : Draw σ (Option α) :=
  if xs.isEmpty then return none
  else return xs[(← drawIndex xs.length)]?

/-- The least value of a free number. -/
def freeLow : Int64 := 0

/-- The greatest value of a free number. -/
def freeHigh : Int64 := 10000

end SampleData
