import SampleData.Draw.Uniform
import SampleData.Text.Numeral

/-!
# Random identifiers

A random UUID is sixteen random bytes in which the version and the variant are set, six bits in
all; the other 122 bits are the bytes' own. Its text is the hexadecimal digits of the bytes in
groups of 8, 4, 4, 4 and 12. A random tag is a few hexadecimal digits, each drawn on its own.
-/

namespace SampleData

open Text

/-! ## UUIDs -/

/-- The bytes with version 4 and the variant of RFC 4122 set. -/
def setVersion (b : Vector UInt8 16) : Vector UInt8 16 :=
  (b.set 6 (b[6] &&& 0x0F ||| 0x40)).set 8 (b[8] &&& 0x3F ||| 0x80)

/-- The two digits of a byte, the high one first. -/
def hexByte (b : UInt8) : List Char :=
  [hexDigit (b.toNat / 16), hexDigit (b.toNat % 16)]

/-- The digits of bytes. -/
def hexBytes (bs : List UInt8) : List Char := bs.flatMap hexByte

/-- The text of a UUID with these bytes. -/
def uuidText (b : Vector UInt8 16) : String :=
  let bs := b.toList
  String.ofList (hexBytes (bs.take 4) ++ '-' :: hexBytes ((bs.drop 4).take 2) ++ '-' ::
    hexBytes ((bs.drop 6).take 2) ++ '-' :: hexBytes ((bs.drop 8).take 2) ++ '-' ::
    hexBytes (bs.drop 10))

/-- The text of the random UUID that sixteen bytes give. -/
def uuidOfBytes (b : Vector UInt8 16) : String := uuidText (setVersion b)

/-- A hexadecimal digit that is no capital. -/
def isHexDigit (c : Char) : Bool := ('0' ≤ c && c ≤ '9') || ('a' ≤ c && c ≤ 'f')

/-- The text of a UUID of version 4: five groups of digits, the third of them starting with the
version and the fourth with the variant. -/
def IsRandomUuid (s : String) : Prop :=
  ∃ a b c d e : List Char, s.toList = a ++ '-' :: b ++ '-' :: c ++ '-' :: d ++ '-' :: e ∧
    a.length = 8 ∧ b.length = 4 ∧ c.length = 4 ∧ d.length = 4 ∧ e.length = 12 ∧
    (∀ x ∈ a ++ b ++ c ++ d ++ e, isHexDigit x = true) ∧
    c.head? = some '4' ∧ ∃ v ∈ ['8', '9', 'a', 'b'], d.head? = some v

variable {σ : Type} [WordSource σ]

/-- A random UUID. -/
def drawUuid : Draw σ String := fun s =>
  .ok (uuidOfBytes (WordSource.bytes16 s).1) (WordSource.bytes16 s).2

/-! ## Tags -/

/-- Random hexadecimal digits. -/
def drawHexDigits : Nat → Draw σ (List Char)
  | 0 => return []
  | n + 1 => do
    let d ← drawBelow64 16
    return hexDigit d :: (← drawHexDigits n)

/-- The number of digits in a tag. -/
def tagLength : Nat := 6

/-- A random tag. -/
def drawTag : Draw σ String := return String.ofList (← drawHexDigits tagLength)

end SampleData
