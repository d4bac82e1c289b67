import SampleData.Json.Reader

/-!
# JSON documents

The value of a JSON text is had in one of two ways. Read as a value, all of the text is asked for:
numbers must be in range, strings whole, and no more than 127 arrays and objects may stand inside
one another. Read as a document, only its form is: number literals are left as they stand, and a
string that holds half of a surrogate pair is marked. A part of a document that nobody asks for
later has to have the right form, and no more.
-/

namespace SampleData.Json

/-- How many arrays and objects may stand inside one another. -/
def maxDepth : Nat := 127

/-! ## Values -/

/-- Makes values. Of members with one key the first gives the place and the last the value. -/
def values : Builder String Json where
  depth := some maxDepth
  null := .null
  bool := .bool
  number := NumberLiteral.value?
  text := fun content => content.map fun cs => .text (String.ofList cs)
  key := fun content => content.map String.ofList
  array := .array
  object := fun members => .object (Members.settle members)

/-- The value of a text. -/
def ofText (text : String) : Except SyntaxError Json := values.ofText text

/-! ## Documents -/

/-- The form of a JSON text. A string is `none` when it holds half of a surrogate pair. -/
inductive Document where
  | null
  | bool (b : Bool)
  | number (l : NumberLiteral)
  | text (s : Option String)
  | array (items : List Document)
  | object (members : List (Option String × Document))
deriving Inhabited, Repr

/-- What a document keeps of a string. -/
def wholeText? (content : Content) : Option String := content.toOption.map String.ofList

/-- Makes documents. -/
def documents : Builder (Option String) Document where
  depth := none
  null := .null
  bool := .bool
  number := fun l => some (.number l)
  text := fun content => .ok (.text (wholeText? content))
  key := fun content => .ok (wholeText? content)
  array := .array
  object := .object

/-- The document of a text. -/
def Document.ofText? (text : String) : Option Document := (documents.ofText text).toOption

/-! ## The values of a document -/

mutual

/-- The value of a document in which at most `depth` arrays and objects stand inside one another. -/
def Document.value? (depth : Nat) : Document → Option Json
  | .null => some .null
  | .bool b => some (.bool b)
  | .number l => l.value?
  | .text s => s.map .text
  | .array items =>
    match depth with
    | 0 => none
    | depth + 1 => (valuesOfItems? depth items).map .array
  | .object members =>
    match depth with
    | 0 => none
    | depth + 1 => (valuesOfMembers? depth members).map fun ms => .object (Members.settle ms)

/-- The values of a list of documents, if all have one. -/
def valuesOfItems? (depth : Nat) : List Document → Option (List Json)
  | [] => some []
  | d :: ds =>
    match d.value? depth with
    | none => none
    | some v => (valuesOfItems? depth ds).map (v :: ·)

/-- The members with their values, if all keys are whole and all documents have a value. -/
def valuesOfMembers? (depth : Nat) :
    List (Option String × Document) → Option (List (String × Json))
  | [] => some []
  | (key, d) :: ms =>
    match key, d.value? depth with
    | some k, some v => (valuesOfMembers? depth ms).map ((k, v) :: ·)
    | _, _ => none

end

end SampleData.Json
