import SampleData.Decimal.Binary64

/-!
# Moments

A moment is a number of seconds since 1970 and of nanoseconds into that second; during a leap
second, which can only end a minute, the nanoseconds go on past one second. Only moments in the
years that a calendar of 18 bits covers exist. In records a moment is a double: seconds, to the
microsecond that has begun. A clock is what is read off it, look after look.
-/

namespace SampleData

/-- A point in time. -/
structure Moment where
  seconds : Int
  nanos : Nat
deriving DecidableEq, Repr

namespace Moment

/-- The first second there is. -/
def firstSecond : Int := -8334601228800

/-- The last second there is. -/
def lastSecond : Int := 8210266876799

/-- The moment of a second and the nanoseconds into it, if there is one. -/
def of? (seconds : Int) (nanos : Nat) : Option Moment :=
  let leap := seconds.fmod 60 = 59
  let limit := if leap then 2000000000 else 1000000000
  if firstSecond ≤ seconds ∧ seconds ≤ lastSecond ∧ nanos < limit
  then some { seconds := seconds, nanos := nanos }
  else none

/-- The microseconds since 1970 that have begun. -/
def micros (m : Moment) : Int := m.seconds * 1000000 + (m.nanos / 1000 : Nat)

/-- The nanoseconds since 1970 in 64 bits; a moment before it counts as its beginning. -/
def nanosSinceEpoch (m : Moment) : UInt64 :=
  if m.seconds < 0 then 0 else UInt64.ofNat (m.seconds.toNat * 1000000000 + m.nanos)

/-- The moment as it stands in a record: two roundings, of the microseconds and of the quotient. -/
def epochSeconds (m : Moment) : Binary64 :=
  Binary64.div (Binary64.ofInt m.micros) (Binary64.ofNat 1000000)

end Moment

/-! ## Clocks -/

/-- What a clock shows at the first look, at the second one, and so on. -/
abbrev Clock := Nat → Binary64

namespace Clock

/-- The clock that shows zero for ever. -/
def zero : Clock := fun _ => .zero

/-- The clock that shows given readings, and zero when they are used up. -/
def ofList (readings : List Binary64) : Clock := fun i => readings[i]?.getD .zero

/-- The clock after `n` looks. -/
def after (c : Clock) (n : Nat) : Clock := fun i => c (n + i)

end Clock

end SampleData
