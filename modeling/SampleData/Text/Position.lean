/-!
# Places in a text

While a text is read, a place in it is what stands from there on: nothing has to be counted, and
what is left can be read again. Only when a person is to be told where something is, the place is
turned into a line and a column; what a column counts is up to who tells.
-/

namespace SampleData.Text

/-- What of a text stands from a place on. -/
abbrev Place := List Char

/-- A line, counted from one, and a column in it. -/
structure Position where
  line : Nat
  column : Nat
deriving DecidableEq, Repr

/-- What of a text stands before a place. -/
def before (whole : List Char) (place : Place) : List Char :=
  whole.take (whole.length - place.length)

/-- The bytes of a text. -/
def bytesOf (cs : List Char) : List UInt8 := (String.ofList cs).toUTF8.data.toList

/-- The units of a text that stand behind its last line break. -/
def lastLine {α : Type} [DecidableEq α] (lineBreak : α) (units : List α) : List α :=
  (units.reverse.takeWhile (· ≠ lineBreak)).reverse

/-- The position behind units of a text: the column counts the units of the last line. -/
def Position.behind {α : Type} [DecidableEq α] (lineBreak : α) (units : List α) : Position where
  line := 1 + units.count lineBreak
  column := (lastLine lineBreak units).length

end SampleData.Text
