import SampleData.Text.Numeral
import SampleData.Text.Position

/-!
# What is wrong with a JSON text

A text that cannot be read has a first flaw, and reading ends there. Columns count the bytes of a
line up to the flaw, the byte that gives it away included; a flaw that shows only when the text is
over, or when a number or an escape is complete, is laid to the last byte before.
-/

namespace SampleData.Json

open Text

/-- A sort of flaw. -/
inductive Flaw where
  | endInArray
  | endInObject
  | endInString
  | endInValue
  | missingColon
  | brokenArray
  | brokenObject
  | unknownWord
  | missingValue
  | unknownEscape
  | malformedNumber
  | hugeNumber
  | controlCharacter
  | missingKey
  /-- The second half of a surrogate pair without the first, or the first before another escape. -/
  | unpairedHalf
  /-- The first half of a surrogate pair before what is no escape. -/
  | halfAlone
  | commaAtEnd
  | moreText
  | tooDeep
deriving DecidableEq, Repr

/-- A flaw in words. -/
def Flaw.message : Flaw → String
  | .endInArray => "EOF while parsing a list"
  | .endInObject => "EOF while parsing an object"
  | .endInString => "EOF while parsing a string"
  | .endInValue => "EOF while parsing a value"
  | .missingColon => "expected `:`"
  | .brokenArray => "expected `,` or `]`"
  | .brokenObject => "expected `,` or `\x7d`"
  | .unknownWord => "expected ident"
  | .missingValue => "expected value"
  | .unknownEscape => "invalid escape"
  | .malformedNumber => "invalid number"
  | .hugeNumber => "number out of range"
  | .controlCharacter => "control character (\\u0000-\\u001F) found while parsing a string"
  | .missingKey => "key must be a string"
  | .unpairedHalf => "lone leading surrogate in hex escape"
  | .halfAlone => "unexpected end of hex escape"
  | .commaAtEnd => "trailing comma"
  | .moreText => "trailing characters"
  | .tooDeep => "recursion limit exceeded"

/-- A flaw at a place, which shows `shown` bytes behind it. -/
structure Fault where
  flaw : Flaw
  place : Place
  shown : Nat
deriving DecidableEq, Repr

/-- Refuses a text for a flaw that shows in the byte at a place; there is none where the text
ends. -/
def refuse {α : Type} (flaw : Flaw) (place : Place) : Except Fault α :=
  .error { flaw := flaw, place := place, shown := 1 }

/-- Refuses a text for a flaw that has shown before a place is looked at. -/
def refuseBefore {α : Type} (flaw : Flaw) (place : Place) : Except Fault α :=
  .error { flaw := flaw, place := place, shown := 0 }

/-- A flaw of a text, with its position. -/
structure SyntaxError where
  flaw : Flaw
  position : Position
deriving DecidableEq, Repr

/-- The byte of a line break. -/
def lineBreakByte : UInt8 := 10

/-- The fault as an error of the text it was found in. -/
def Fault.inText (f : Fault) (whole : List Char) : SyntaxError where
  flaw := f.flaw
  position := .behind lineBreakByte
    (bytesOf (before whole f.place) ++ (bytesOf f.place).take f.shown)

/-- The error in words. -/
def SyntaxError.message (e : SyntaxError) : String :=
  e.flaw.message ++ " at line " ++ showNat e.position.line ++ " column "
    ++ showNat e.position.column

end SampleData.Json
