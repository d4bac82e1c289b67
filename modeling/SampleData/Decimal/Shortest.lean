import SampleData.Decimal.Binary64

/-!
# The fewest digits that read back

Of the decimals that are nearer to a double than to its neighbours, the ones with the fewest
digits are looked for, and among those the nearest; of two that are equally near, the one whose
last digit is even. For one, two, … seventeen digits the two decimals around the double are tried,
in exact arithmetic; seventeen always do.
-/

namespace SampleData.Decimal

/-- A decimal `digits · 10 ^ (exponent - places)`, where `digits` has `places + 1` digits: the
first of them stands for `10 ^ exponent`. -/
structure Scientific where
  digits : Nat
  places : Nat
  exponent : Int
deriving DecidableEq, Repr

/-! ## The decimals that a double stands for -/

/-- The numbers nearer to a double than to its neighbours, as multiples of
`2 ^ (exponent - 2)` of the double: the double itself, and the two ends. The lower neighbour of a
power of two is half as far away. The ends belong when the mantissa is even. -/
structure Neighbourhood where
  low : Nat
  centre : Nat
  high : Nat
  closed : Bool
  /-- The unit is `unitNum / unitDen`. -/
  unitNum : Nat
  unitDen : Nat

/-- The neighbourhood of a positive magnitude. -/
def Neighbourhood.of (v : Magnitude) : Neighbourhood :=
  let narrow := v.mantissa = Nat.pow 2 52 ∧ -1074 < v.exponent
  let u := v.exponent - 2
  { low := 4 * v.mantissa - (if narrow then 1 else 2)
    centre := 4 * v.mantissa
    high := 4 * v.mantissa + 2
    closed := v.mantissa % 2 = 0
    unitNum := if u < 0 then 1 else Nat.pow 2 u.natAbs
    unitDen := if u < 0 then Nat.pow 2 u.natAbs else 1 }

/-- The decimal `c · 10 ^ (-p)` lies in the neighbourhood. -/
def Neighbourhood.contains (w : Neighbourhood) (c : Nat) (p : Int) : Bool :=
  let a := c * w.unitDen * (if p < 0 then Nat.pow 10 p.natAbs else 1)
  let scale := w.unitNum * (if p < 0 then 1 else Nat.pow 10 p.natAbs)
  if w.closed then w.low * scale ≤ a && a ≤ w.high * scale
  else w.low * scale < a && a < w.high * scale

/-! ## The search -/

/-- `10 ^ e ≤ num / den`. -/
def reachesPowerOfTen (num den : Nat) (e : Int) : Bool :=
  if e < 0 then den ≤ num * Nat.pow 10 e.natAbs else den * Nat.pow 10 e.natAbs ≤ num

/-- The greatest `e` with `10 ^ e ≤ num / den`, for positive numbers. The binary logarithm gives
it up to one, so three candidates are enough. -/
def floorLog10 (num den : Nat) : Int :=
  let e := (((num.log2 : Int) - (den.log2 : Int)) * 30103).fdiv 100000
  if reachesPowerOfTen num den (e + 1) then e + 1
  else if reachesPowerOfTen num den e then e
  else e - 1

/-- The decimal with `places + 1` digits in the neighbourhood, the nearer one if there are two. -/
def atPlaces (w : Neighbourhood) (e : Int) (places : Nat) : Option Scientific :=
  let p : Int := places - e
  let num := w.centre * w.unitNum * (if p < 0 then 1 else Nat.pow 10 p.natAbs)
  let den := w.unitDen * (if p < 0 then Nat.pow 10 p.natAbs else 1)
  let below := num / den
  let nearer := roundHalfEven num den
  let other := if nearer = below then below + 1 else below
  let found := if w.contains nearer p then some nearer
    else if w.contains other p then some other else none
  found.map fun c =>
    if c = Nat.pow 10 (places + 1) then { digits := 1, places := 0, exponent := e + 1 }
    else { digits := c, places := places, exponent := e }

/-- The shortest decimal of a magnitude; zero is the single digit `0`. -/
def shortest (v : Magnitude) : Scientific :=
  if v.mantissa = 0 then { digits := 0, places := 0, exponent := 0 }
  else
    let w := Neighbourhood.of v
    let e := floorLog10 (w.centre * w.unitNum) w.unitDen
    ((List.range 17).findSome? (atPlaces w e)).getD { digits := 0, places := 0, exponent := 0 }

end SampleData.Decimal
