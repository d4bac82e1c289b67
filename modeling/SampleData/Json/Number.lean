import SampleData.Decimal.Binary64
import SampleData.Json

/-!
# JSON number literals

A literal keeps its digits; what it is worth is asked later, since a value that nobody asks for is
not examined. A literal without fraction and exponent is a whole number if it fits 64 bits, signed
below zero and unsigned above; every other literal, and `-0`, is a double. A double beyond the
range is no value at all, one too small for the range is zero.

The worth of a double is found in two roundings: the leading digits that fit 64 bits are one
double, the power of ten is another, and their product or quotient is the result.
-/

namespace SampleData.Json

/-- A number as it stands: its digits before and after the point, and its exponent. -/
structure NumberLiteral where
  negative : Bool
  whole : List Nat
  fraction : Option (List Nat)
  exponent : Option Int
deriving DecidableEq, Repr

namespace NumberLiteral

/-! ## Leading digits -/

/-- The greatest unsigned 64-bit number. -/
def maxWord : Nat := 18446744073709551615

/-- Takes digits as long as the number fits 64 bits; the number, and the digits left over. -/
def takeDigits (acc : Nat) : List Nat → Nat × List Nat
  | [] => (acc, [])
  | d :: ds => if maxWord < 10 * acc + d then (acc, d :: ds) else takeDigits (10 * acc + d) ds

/-- The leading digits as a number, and the power of ten they are to be taken times. Digits before
the point that do not fit raise the power; digits behind it that do not fit are dropped. -/
def significand (l : NumberLiteral) : Nat × Int :=
  let (n, left) := takeDigits 0 l.whole
  let behind := l.fraction.getD []
  let (m, dropped) := takeDigits n behind
  (m, (left.length : Int) - ((behind.length - dropped.length : Nat) : Int) + l.exponent.getD 0)

/-! ## The worth of a literal -/

/-- The double nearest to a power of ten. -/
def powerOfTen (e : Nat) : Binary64 := Binary64.ofNat (Nat.pow 10 e)

/-- `x · 10 ^ e`, or nothing if that is beyond the range. Below `10 ^ (-308)` the division is done
in two steps; a quotient that is zero by then stays zero. -/
def scale? (x : Binary64) (e : Int) : Option Binary64 :=
  if 0 ≤ e then
    if 308 < e then (if x.isPositive then none else some x)
    else
      let y := Binary64.mul x (powerOfTen e.toNat)
      if y.magnitude?.isSome then some y else none
  else if -308 ≤ e then some (Binary64.div x (powerOfTen e.natAbs))
  else if -616 ≤ e then
    some (Binary64.div (Binary64.div x (powerOfTen 308)) (powerOfTen (e.natAbs - 308)))
  else some Binary64.zero

/-- The double with the sign of the literal. -/
def signed (l : NumberLiteral) (x : Binary64) : Binary64 :=
  if l.negative then { bits := x.bits ||| (1 : UInt64) <<< 63 } else x

/-- The greatest exponent that is told from greater ones. -/
def maxExponent : Nat := 2147483647

/-- The exponent is too large for any digits but zeros to be in range. -/
def farExponent (l : NumberLiteral) : Bool := maxExponent < (l.exponent.getD 0).natAbs

/-- The double a literal stands for, or nothing if it is beyond the range. -/
def double? (l : NumberLiteral) : Option Binary64 :=
  let (m, e) := l.significand
  if l.farExponent then
    if m ≠ 0 ∧ 0 < l.exponent.getD 0 then none else some (l.signed Binary64.zero)
  else (scale? (Binary64.ofNat m) e).map l.signed

/-- The value of a literal. -/
def value? (l : NumberLiteral) : Option Json :=
  let n : Nat := l.whole.foldl (fun acc d => 10 * acc + d) 0
  if l.fraction.isNone ∧ l.exponent.isNone then
    if l.negative then
      if n ≠ 0 ∧ n ≤ 9223372036854775808 then some (.integer (-(n : Int)))
      else (l.double?).map .double
    else if n ≤ maxWord then some (.integer n) else (l.double?).map .double
  else (l.double?).map .double

end NumberLiteral

end SampleData.Json
