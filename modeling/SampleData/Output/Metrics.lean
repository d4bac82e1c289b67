import SampleData.Decimal.Binary64

/-!
# Metrics of output

What was written and how long it took. Durations are whole nanoseconds, so adding runs up gives the
same in every order; rates are doubles, and a run that took no time has the rate zero.
-/

namespace SampleData

/-- Counters and durations of one run or of several. -/
structure Metrics where
  rows : UInt64
  bytes : UInt64
  /-- Nanoseconds in all. -/
  total : Nat
  /-- Nanoseconds spent on drawing records. -/
  generation : Nat
  /-- Nanoseconds spent on writing them. -/
  writing : Nat
deriving DecidableEq, Repr

namespace Metrics

/-- The metrics of nothing. -/
def zero : Metrics := { rows := 0, bytes := 0, total := 0, generation := 0, writing := 0 }

/-- The metrics of two runs together. -/
def add (a b : Metrics) : Metrics where
  rows := a.rows + b.rows
  bytes := a.bytes + b.bytes
  total := a.total + b.total
  generation := a.generation + b.generation
  writing := a.writing + b.writing

/-- The metrics of several runs together. -/
def sum (ms : List Metrics) : Metrics := ms.foldl add zero

/-- Nanoseconds in a second. -/
def nanosPerSecond : Nat := 1000000000

/-- A duration in seconds: the whole seconds and the rest are rounded on their own. -/
def seconds (nanos : Nat) : Binary64 :=
  Binary64.add (Binary64.ofNat (nanos / nanosPerSecond))
    (Binary64.div (Binary64.ofNat (nanos % nanosPerSecond)) (Binary64.ofNat nanosPerSecond))

/-- How many per second. -/
def rate (count : UInt64) (nanos : Nat) : Binary64 :=
  if (seconds nanos).isPositive then Binary64.div (Binary64.ofNat count.toNat) (seconds nanos)
  else Binary64.zero

/-- Records written per second. -/
def rowsPerSecond (m : Metrics) : Binary64 := rate m.rows m.total

/-- Bytes written per second. -/
def bytesPerSecond (m : Metrics) : Binary64 := rate m.bytes m.total

/-- Metrics do not depend on the order of two runs. -/
theorem add_comm (a b : Metrics) : a.add b = b.add a := by
  simp [add, UInt64.add_comm, Nat.add_comm]

/-- Metrics do not depend on how three runs are grouped. -/
theorem add_assoc (a b c : Metrics) : (a.add b).add c = a.add (b.add c) := by
  simp [add, UInt64.add_assoc, Nat.add_assoc]

end Metrics

end SampleData
