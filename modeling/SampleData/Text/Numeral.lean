/-!
# Decimal numerals

Whole numbers in text: ASCII digits, a sign where one is allowed, leading zeros as many as there
are. A numeral outside the fixed width of its type is no numeral of that type; nothing wraps and
nothing is clamped. Writing gives the shortest numeral, with a minus sign below zero and never a
plus sign.
-/

namespace SampleData.Text

/-! ## Digits -/

/-- The value of an ASCII digit. -/
def digitValue? (c : Char) : Option Nat :=
  if '0' ≤ c ∧ c ≤ '9' then some (c.toNat - '0'.toNat) else none

/-- The digit of a value below ten. -/
def digitChar (n : Nat) : Char :=
  match n with
  | 0 => '0' | 1 => '1' | 2 => '2' | 3 => '3' | 4 => '4'
  | 5 => '5' | 6 => '6' | 7 => '7' | 8 => '8' | _ => '9'

/-- Reading goes on from what is read so far; one character that is no digit spoils all. -/
def readDigits (acc : Nat) : List Char → Option Nat
  | [] => some acc
  | c :: cs =>
    match digitValue? c with
    | some d => readDigits (10 * acc + d) cs
    | none => none

/-- One digit or more. -/
def readNat? : List Char → Option Nat
  | [] => none
  | cs => readDigits 0 cs

/-- The shortest numeral of a number. -/
def natDigits (n : Nat) : List Char :=
  if n < 10 then [digitChar n] else natDigits (n / 10) ++ [digitChar (n % 10)]
termination_by n
decreasing_by omega

/-- The value of a hexadecimal digit of either case. -/
def hexValue? (c : Char) : Option Nat :=
  if '0' ≤ c ∧ c ≤ '9' then some (c.toNat - 48)
  else if 'a' ≤ c ∧ c ≤ 'f' then some (c.toNat - 87)
  else if 'A' ≤ c ∧ c ≤ 'F' then some (c.toNat - 55)
  else none

/-- The lowercase hexadecimal digit of a value below sixteen. -/
def hexDigit (n : Nat) : Char :=
  if n < 10 then Char.ofNat (48 + n) else Char.ofNat (87 + n)

/-! ## Signed and unsigned words -/

/-- A sign, or none, and digits. -/
def readInt? : List Char → Option Int
  | '-' :: cs => (readNat? cs).map fun n => -(n : Int)
  | '+' :: cs => (readNat? cs).map fun n => (n : Int)
  | cs => (readNat? cs).map fun n => (n : Int)

/-- The least signed 64-bit number. -/
def leastInt64 : Int := -9223372036854775808

/-- The greatest signed 64-bit number. -/
def greatestInt64 : Int := 9223372036854775807

/-- A whole number as a signed 64-bit number, if it is one. -/
def toInt64? (n : Int) : Option Int64 :=
  if leastInt64 ≤ n ∧ n ≤ greatestInt64 then some (Int64.ofInt n) else none

/-- A numeral of a signed 64-bit number. -/
def readInt64? (cs : List Char) : Option Int64 := (readInt? cs).bind toInt64?

/-- A numeral of an unsigned 64-bit number: a plus sign may stand before it, a minus sign not. -/
def readUInt64? (cs : List Char) : Option UInt64 :=
  let digits := match cs with
    | '+' :: rest => rest
    | _ => cs
  match readNat? digits with
  | some n => if n < UInt64.size then some (UInt64.ofNat n) else none
  | none => none

/-- The numeral of a whole number. -/
def intDigits (n : Int) : List Char :=
  if n < 0 then '-' :: natDigits n.natAbs else natDigits n.natAbs

/-- The numeral of a natural number as a string. -/
def showNat (n : Nat) : String :=
  String.ofList (natDigits n)

/-- The numeral of a whole number as a string. -/
def showInt (n : Int) : String :=
  String.ofList (intDigits n)

/-- The numeral of a signed word. -/
def showInt64 (n : Int64) : String :=
  showInt n.toInt

/-- The numeral of an unsigned word. -/
def showUInt64 (n : UInt64) : String :=
  showNat n.toNat

end SampleData.Text
