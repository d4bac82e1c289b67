import SampleData.Draw.Identifier
import SampleData.Text.Blank

/-!
# Names of output files

The name of a file is a tag, an underscore, the base name of the run and the extension. The tag is
the number of the file, or it is random. Random tags can meet a name that is taken; numbers
overwrite.
-/

namespace SampleData

open Text

/-- Where the tag of a file name comes from. -/
inductive NameScheme where
  | count
  | random
  | uuid
deriving DecidableEq, Repr, Inhabited

namespace NameScheme

/-- Every scheme. -/
def all : List NameScheme := [.count, .random, .uuid]

/-- The word for a scheme. -/
def word : NameScheme → String
  | .count => "count"
  | .random => "random"
  | .uuid => "uuid"

/-- The scheme of a word, written as it stands in the list. -/
def ofWord? (s : String) : Option NameScheme := all.find? fun x => x.word = s

/-- Names of the same file can differ from one time to the next. -/
def isRandom : NameScheme → Bool
  | .count => false
  | _ => true

/-- An ASCII capital as a small letter. -/
def lowerAscii (c : Char) : Char :=
  if 'A' ≤ c ∧ c ≤ 'Z' then Char.ofNat (c.toNat + 32) else c

/-- The word without blanks at its ends and without ASCII capitals. -/
def normalise (s : String) : String :=
  String.ofList ((trimChars s.toList).map lowerAscii)

/-- The scheme of a word in which blanks at the ends and the case do not count; else what is said
of the word. -/
def read (s : String) : Except String NameScheme :=
  match ofWord? (normalise s) with
  | some x => .ok x
  | none => .error ("Invalid file prefix '" ++ normalise s ++
      "'. Must be 'count', 'random', or 'uuid'")

end NameScheme

/-- How the files of a run are named. -/
structure Naming where
  base : String
  scheme : NameScheme
deriving DecidableEq, Repr

/-- The extension of every output file. -/
def fileExtension : String := "json"

/-- The name with a given tag. -/
def fileName (tag base : String) : String := tag ++ "_" ++ base ++ "." ++ fileExtension

variable {σ : Type} [WordSource σ]

/-- The tag of the file with a given number. -/
def NameScheme.drawTag (s : NameScheme) (index : UInt64) : Draw σ String :=
  match s with
  | .count => return showUInt64 index
  | .random => SampleData.drawTag
  | .uuid => drawUuid

/-- The name of the file with a given number. -/
def Naming.drawName (n : Naming) (index : UInt64) : Draw σ String :=
  return fileName (← n.scheme.drawTag index) n.base

end SampleData
