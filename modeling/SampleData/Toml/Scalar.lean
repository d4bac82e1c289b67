import SampleData.Toml
import SampleData.Toml.Fault

/-!
# Numbers and moments in TOML

Digits may be grouped by single underscores. A decimal number has no leading zero; numbers in base
sixteen, eight and two have no sign. Whole numbers must fit 64 bits with a sign. A number with a
fraction or an exponent must not round to positive infinity; below, there is no bound.

A date has to be in the calendar. Seconds may not be left out of a time, and may be 60. A date, a
time, and both together are moments; only both together may have an offset.
-/

namespace SampleData.Toml

open Text

/-! ## Digits -/

/-- The value of a digit in a base up to sixteen. -/
def digitIn? (base : Nat) (c : Char) : Option Nat := (hexValue? c).filter (· < base)

/-- Digits behind a digit. An underscore has to have a digit behind it. -/
def moreDigits (base : Nat) : List Char → Reading (List Nat × List Char)
  | [] => .ok ([], [])
  | ['_'] => .error (.broken [])
  | '_' :: c :: cs =>
    match digitIn? base c with
    | some d => (moreDigits base cs).map fun p => (d :: p.1, p.2)
    | none => .error (.broken (c :: cs))
  | c :: cs =>
    match digitIn? base c with
    | some d => (moreDigits base cs).map fun p => (d :: p.1, p.2)
    | none => .ok ([], c :: cs)

/-- One digit or more. -/
def someDigits (base : Nat) : List Char → Reading (List Nat × List Char)
  | [] => .error (.absent [])
  | c :: cs =>
    match digitIn? base c with
    | some d => (moreDigits base cs).map fun p => (d :: p.1, p.2)
    | none => .error (.absent (c :: cs))

/-- The digits before the point: a zero stands alone. -/
def wholeDigits : List Char → Reading (List Nat × List Char)
  | '0' :: cs => .ok ([0], cs)
  | cs => someDigits 10 cs

/-- The number of digits in a base. -/
def ofDigits (base : Nat) (ds : List Nat) : Nat := ds.foldl (fun n d => base * n + d) 0

/-! ## Numbers -/

/-- A whole number that fits 64 bits. -/
def integer? (n : Int) : Option Toml :=
  if leastInt64 ≤ n ∧ n ≤ greatestInt64 then some (.integer n) else none

/-- A value before a rest. One that does not exist is broken where it starts. -/
def valueAt (start : Place) (value : Option Toml) (rest : List Char) : Reading (Toml × List Char) :=
  match value with
  | some v => .ok (v, rest)
  | none => .error (.broken start)

/-- A sign, if there is one. -/
def readSign : List Char → Option Bool × List Char
  | '-' :: cs => (some true, cs)
  | '+' :: cs => (some false, cs)
  | cs => (none, cs)

/-- The fraction, if there is one. -/
def readFraction : List Char → Reading (Option (List Nat) × List Char)
  | '.' :: cs => (insist (someDigits 10 cs)).map fun p => (some p.1, p.2)
  | cs => .ok (none, cs)

/-- The exponent, if there is one. -/
def readExponent : List Char → Reading (Option Int × List Char)
  | [] => .ok (none, [])
  | c :: cs =>
    if c = 'e' ∨ c = 'E' then
      (insist (someDigits 10 (readSign cs).2)).map fun p =>
        let n : Int := ofDigits 10 p.1
        (some (if (readSign cs).1 = some true then -n else n), p.2)
    else .ok (none, c :: cs)

/-- The least number that is rounded to infinity: half a step above the greatest double. -/
def overflowBound : Nat := Nat.pow 2 1024 - Nat.pow 2 970

/-- `n · 10 ^ e` is rounded to infinity; `digits` is the number of digits of `n`. -/
def overflows (n digits : Nat) (e : Int) : Bool :=
  if n = 0 ∨ digits + e < 300 then false
  else if 0 ≤ e then 310 < e || overflowBound ≤ n * Nat.pow 10 e.toNat
  else overflowBound * Nat.pow 10 e.natAbs ≤ n

/-- A number with a fraction or an exponent. -/
def float? (negative : Bool) (whole fraction : List Nat) (exponent : Int) : Option Toml :=
  let ds := (whole ++ fraction).dropWhile (· = 0)
  if !negative && overflows (ofDigits 10 ds) ds.length (exponent - fraction.length) then none
  else some .float

/-- The value of a decimal number. -/
def decimal? (negative : Bool) (whole : List Nat) (fraction : Option (List Nat))
    (exponent : Option Int) : Option Toml :=
  let n : Int := ofDigits 10 whole
  if fraction.isNone ∧ exponent.isNone then integer? (if negative then -n else n)
  else float? negative whole (fraction.getD []) (exponent.getD 0)

/-- A decimal number that starts at `start`, behind its sign. -/
def readDecimal (start : Place) (negative : Bool) (cs : List Char) :
    Reading (Toml × List Char) := do
  let (whole, rest) ← wholeDigits cs
  let (fraction, rest) ← readFraction rest
  let (exponent, rest) ← readExponent rest
  valueAt start (decimal? negative whole fraction exponent) rest

/-- A number that starts at `start`, behind the mark of its base. -/
def readBased (start : Place) (base : Nat) (cs : List Char) : Reading (Toml × List Char) := do
  let (ds, rest) ← insist (someDigits base cs)
  valueAt start (integer? (ofDigits base ds)) rest

/-- A number. -/
def readNumber (cs : List Char) : Reading (Toml × List Char) :=
  match cs with
  | '0' :: 'x' :: rest => readBased cs 16 rest
  | '0' :: 'o' :: rest => readBased cs 8 rest
  | '0' :: 'b' :: rest => readBased cs 2 rest
  | _ =>
    match readSign cs with
    | (_, 'i' :: 'n' :: 'f' :: rest) => .ok (.float, rest)
    | (_, 'n' :: 'a' :: 'n' :: rest) => .ok (.float, rest)
    | (sign, rest) => readDecimal cs (sign = some true) rest

/-! ## Moments -/

/-- A number of exactly `n` digits. -/
def fixedDigits (n acc : Nat) (cs : List Char) : Option (Nat × List Char) :=
  match n, cs with
  | 0, cs => some (acc, cs)
  | _ + 1, [] => none
  | n + 1, c :: cs => (digitValue? c).bind fun d => fixedDigits n (10 * acc + d) cs

/-- A number of two digits between two bounds. -/
def readPart (low high : Nat) (cs : List Char) : Reading (Nat × List Char) :=
  match fixedDigits 2 0 cs with
  | some (n, rest) => if low ≤ n ∧ n ≤ high then .ok (n, rest) else .error (.absent cs)
  | none => .error (.absent cs)

/-- The rest behind a character that has to be there. -/
def readMark (mark : Char) (cs : List Char) : Reading (List Char) :=
  match cs with
  | c :: rest => if c = mark then .ok rest else .error (.absent cs)
  | [] => .error (.absent [])

/-- How many days a month has. -/
def daysIn (year month : Nat) : Nat :=
  if month = 2 then
    if year % 4 = 0 ∧ (year % 100 ≠ 0 ∨ year % 400 = 0) then 29 else 28
  else if month = 4 ∨ month = 6 ∨ month = 9 ∨ month = 11 then 30
  else 31

/-- The rest behind the month and the day of a date. -/
def readDay (year : Nat) (cs : List Char) : Reading (List Char) := do
  let (month, cs) ← readPart 1 12 cs
  let (_, cs) ← readPart 1 (daysIn year month) (← readMark '-' cs)
  return cs

/-- The rest behind a date. It has begun with its first dash. -/
def readDate (cs : List Char) : Reading (List Char) :=
  match fixedDigits 4 0 cs with
  | none => .error (.absent cs)
  | some (year, rest) => do insist (readDay year (← readMark '-' rest))

/-- The rest behind the fraction of a second, if there is one. -/
def readSecondFraction : List Char → List Char
  | '.' :: c :: cs =>
    if (digitValue? c).isSome then cs.dropWhile fun c => (digitValue? c).isSome
    else '.' :: c :: cs
  | cs => cs

/-- The rest behind the minute and the second of a time. -/
def readMinute (cs : List Char) : Reading (List Char) := do
  let (_, cs) ← readPart 0 59 cs
  let (_, cs) ← readPart 0 60 (← readMark ':' cs)
  return readSecondFraction cs

/-- The rest behind a time. It has begun with its first colon. -/
def readTime (cs : List Char) : Reading (List Char) := do
  let (_, cs) ← readPart 0 23 cs
  insist (readMinute (← readMark ':' cs))

/-- The rest behind the hours and minutes of an offset. -/
def readOffsetParts (cs : List Char) : Reading (List Char) := do
  let (_, cs) ← readPart 0 23 cs
  let (_, cs) ← readPart 0 59 (← readMark ':' cs)
  return cs

/-- The rest behind an offset, if there is one. It has begun with its sign. -/
def readOffset (cs : List Char) : Reading (List Char) :=
  match cs with
  | [] => .ok []
  | c :: rest =>
    if c = 'Z' ∨ c = 'z' then .ok rest
    else if c = '+' ∨ c = '-' then insist (readOffsetParts rest)
    else .ok cs

/-- The rest behind a time that follows a date, if there is one. -/
def readTimeOfDay (cs : List Char) : Reading (List Char) :=
  match cs with
  | [] => .ok []
  | c :: rest =>
    if c = 'T' ∨ c = 't' ∨ c = ' ' then
      match readTime rest with
      | .ok rest => readOffset rest
      | .error (.absent _) => .ok cs
      | .error f => .error f
    else .ok cs

/-- The rest behind a moment. -/
def readMoment (cs : List Char) : Reading (List Char) :=
  match readDate cs with
  | .ok rest => readTimeOfDay rest
  | .error (.absent _) => readTime cs
  | .error f => .error f

/-! ## Both -/

/-- A number or a moment. -/
def readScalar (cs : List Char) : Reading (Toml × List Char) :=
  orAbsent ((readMoment cs).map fun rest => (.moment, rest)) (readNumber cs)

end SampleData.Toml
