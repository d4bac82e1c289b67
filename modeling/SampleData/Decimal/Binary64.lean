/-!
# Doubles as bits

A double is its 64 bits: sign, eleven bits of exponent, fifty-two of fraction. Keeping the bits
and not a machine number keeps the payload and the sign of a NaN, and lets exact arithmetic on
whole numbers say what a double is worth and which double is nearest to a quotient.

What is here: the worth of a finite double as `mantissa · 2 ^ exponent`, the double nearest to a
quotient (ties to the even mantissa, too large ones to infinity), and sums, products and quotients
of doubles that are not negative, each the nearest double to the exact result.
-/

namespace SampleData

/-! ## Magnitudes -/

/-- A finite magnitude: `mantissa · 2 ^ exponent`. -/
structure Magnitude where
  mantissa : Nat
  exponent : Int
deriving DecidableEq, Repr

/-- Numerator and denominator of a magnitude. -/
def Magnitude.ratio (v : Magnitude) : Nat × Nat :=
  if v.exponent < 0 then (v.mantissa, Nat.pow 2 v.exponent.natAbs)
  else (v.mantissa * Nat.pow 2 v.exponent.natAbs, 1)

/-- The whole number nearest to `num / den`; of two, the even one. -/
def roundHalfEven (num den : Nat) : Nat :=
  let q := num / den
  let r := num % den
  if 2 * r < den then q
  else if den < 2 * r then q + 1
  else if q % 2 = 0 then q else q + 1

/-! ## Taking a double apart -/

/-- A double, given by its bits. -/
structure Binary64 where
  bits : UInt64
deriving DecidableEq, Repr, Inhabited

namespace Binary64

/-- The sign bit. -/
def isNegative (x : Binary64) : Bool := x.bits >>> 63 = 1

/-- The eleven bits of the exponent. -/
def exponentField (x : Binary64) : Nat := ((x.bits >>> 52) &&& 0x7FF).toNat

/-- The fifty-two bits of the fraction. -/
def fraction (x : Binary64) : Nat := (x.bits &&& 0xFFFFFFFFFFFFF).toNat

/-- What a finite double is worth, its sign aside; nothing for infinities and NaNs. -/
def magnitude? (x : Binary64) : Option Magnitude :=
  if x.exponentField = 0x7FF then none
  else if x.exponentField = 0 then some { mantissa := x.fraction, exponent := -1074 }
  else some { mantissa := Nat.pow 2 52 + x.fraction, exponent := x.exponentField - 1075 }

/-- The numerator and denominator of a finite double, its sign aside; `0 / 1` for the others. -/
def ratio (x : Binary64) : Nat × Nat :=
  match x.magnitude? with
  | some v => v.ratio
  | none => (0, 1)

/-! ## The nearest double -/

/-- Positive zero. -/
def zero : Binary64 := { bits := 0 }

/-- The bits of an infinity, its sign aside. -/
def infinityBits : Nat := 0x7FF * Nat.pow 2 52

/-- The greatest `e` with `2 ^ e ≤ num / den`, for positive numbers. -/
def floorLog2 (num den : Nat) : Int :=
  let e : Int := (num.log2 : Int) - (den.log2 : Int)
  let reached := if e < 0 then den ≤ num * Nat.pow 2 e.natAbs else den * Nat.pow 2 e.natAbs ≤ num
  if reached then e else e - 1

/-- The bits of the double nearest to `num / den`. -/
def nearestBits (num den : Nat) : Nat :=
  if num = 0 then 0
  else
    let q := max (floorLog2 num den - 52) (-1074)
    let m := if q < 0 then roundHalfEven (num * Nat.pow 2 q.natAbs) den
      else roundHalfEven num (den * Nat.pow 2 q.natAbs)
    let bits := if m < Nat.pow 2 52 then m else (q + 1075).toNat * Nat.pow 2 52 + (m - Nat.pow 2 52)
    min bits infinityBits

/-- The double nearest to `num / den`, with the sign given. -/
def nearest (negative : Bool) (num den : Nat) : Binary64 :=
  { bits := UInt64.ofNat (nearestBits num den) ||| (if negative then (1 : UInt64) <<< 63 else 0) }

/-- The double nearest to a natural number. -/
def ofNat (n : Nat) : Binary64 := nearest false n 1

/-- The double nearest to a whole number. -/
def ofInt (n : Int) : Binary64 := nearest (n < 0) n.natAbs 1

/-! ## Arithmetic -/

/-- The sum of two finite doubles that are not negative. -/
def add (x y : Binary64) : Binary64 :=
  nearest false (x.ratio.1 * y.ratio.2 + y.ratio.1 * x.ratio.2) (x.ratio.2 * y.ratio.2)

/-- The product of two finite doubles. -/
def mul (x y : Binary64) : Binary64 :=
  nearest (x.isNegative != y.isNegative) (x.ratio.1 * y.ratio.1) (x.ratio.2 * y.ratio.2)

/-- The quotient of two finite doubles, the second not zero. -/
def div (x y : Binary64) : Binary64 :=
  nearest (x.isNegative != y.isNegative) (x.ratio.1 * y.ratio.2) (x.ratio.2 * y.ratio.1)

/-- A double above zero. -/
def isPositive (x : Binary64) : Bool := !x.isNegative && x.ratio.1 != 0

end Binary64

end SampleData
