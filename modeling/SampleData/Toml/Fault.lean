import SampleData.Text.Numeral
import SampleData.Text.Position

/-!
# Where a TOML document is broken

A reader that finds nothing of its kind at a place leaves it to others to find something else there.
Once something has begun and goes wrong, no other reading is tried. Either way the place is known,
and the last one counts.

Columns count characters. A character outside ASCII is an exception: where it stands itself, the
bytes before it are counted. The end of a text is told as the column behind its last character,
even if that is a line break.
-/

namespace SampleData.Toml

open Text

/-- Why nothing was read. -/
inductive Failure where
  /-- There is nothing of the kind. -/
  | absent (place : Place)
  /-- Something of the kind has begun, and is broken. -/
  | broken (place : Place)
deriving DecidableEq, Repr

/-- The place of a failure. -/
def Failure.place : Failure → Place
  | .absent place | .broken place => place

/-- What comes of reading. -/
abbrev Reading := Except Failure

/-- Something that has to be there: where nothing of the kind is, the whole is broken. -/
def insist {α : Type} (x : Reading α) : Reading α := x.mapError fun f => .broken f.place

/-- Something that may be missing, and what is read in its stead. -/
def orAbsent {α : Type} (x instead : Reading α) : Reading α :=
  match x with
  | .error (.absent _) => instead
  | other => other

/-- The position of a place in a text. -/
def positionOf (whole : List Char) (place : Place) : Position :=
  match place with
  | c :: _ =>
    let line := lastLine '\n' (before whole place)
    let column := if c.toNat < 0x80 then line.length else (bytesOf line).length
    { line := (Position.behind '\n' (before whole place)).line, column := column + 1 }
  | [] =>
    let last := Position.behind '\n' whole.dropLast
    { line := last.line, column := last.column + (if whole.isEmpty then 1 else 2) }

/-- What is said of a text that is broken at a position. -/
def faultMessage (p : Position) : String :=
  "TOML parse error at line " ++ showNat p.line ++ ", column " ++ showNat p.column

end SampleData.Toml
