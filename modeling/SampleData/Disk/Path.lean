/-!
# Path texts

A path is a text in which slashes divide the parts. Absolute paths start with a slash. What is
said here looks at the text only, never at a disk.
-/

namespace SampleData.Path

/-! ## Parts -/

/-- The parts between slashes, empty ones included. -/
def splitSlashes : List Char → List (List Char)
  | [] => [[]]
  | c :: cs =>
    if c = '/' then [] :: splitSlashes cs
    else match splitSlashes cs with
      | [] => [[c]]
      | p :: ps => (c :: p) :: ps

/-- The parts of a path. -/
def parts (path : String) : List String := (splitSlashes path.toList).map String.ofList

/-- The path starts at the root. -/
def isAbsolute (path : String) : Bool := path.toList.head? = some '/'

/-- The absolute path of the names that lead to a place. -/
def ofNames (names : List String) : String :=
  if names.isEmpty then "/" else String.join (names.map fun n => "/" ++ n)

/-- A name inside a directory. An absolute name stands for itself, and no second slash is put
after one that is there. -/
def join (dir name : String) : String :=
  if isAbsolute name || dir.isEmpty then name
  else if dir.toList.getLast? = some '/' then dir ++ name
  else dir ++ "/" ++ name

/-! ## Last names -/

/-- The last part that is neither empty nor a single dot, unless it is two dots. -/
def fileName? (path : String) : Option String :=
  match ((parts path).filter fun p => p ≠ "" ∧ p ≠ ".").getLast? with
  | some ".." => none
  | other => other

/-- The text after the last dot of a name, if something stands before that dot. -/
def extension? (name : String) : Option String :=
  let behind := name.toList.reverse.takeWhile (· ≠ '.')
  match name.toList.reverse.dropWhile (· ≠ '.') with
  | _ :: stem => if stem.isEmpty ∨ name = ".." then none else some (String.ofList behind.reverse)
  | [] => none

end SampleData.Path
