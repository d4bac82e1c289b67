import SampleData.Json.Printer
import SampleData.Kind

/-!
# Records

A record is a list of named values in the order of its fields. Nothing keeps a name from standing
twice: written as it is, a record then has a repeated key; as a JSON object of distinct keys it has
the first place and the last value of each name.
-/

namespace SampleData

/-! ## Values -/

/-- The value of a field. -/
inductive Value where
  | null
  | integer (n : Int64)
  | text (s : String)
  /-- Seconds since 1970. -/
  | timestamp (t : Binary64)
deriving DecidableEq, Repr

namespace Value

/-- A constant as a value. -/
def ofScalar : Scalar → Value
  | .integer n => .integer n
  | .text s => .text s

/-- A value as JSON. -/
def toJson : Value → Json
  | .null => .null
  | .integer n => .integer n.toInt
  | .text s => .text s
  | .timestamp t => .double t

/-- The value is null. -/
def isNull : Value → Bool
  | .null => true
  | _ => false

/-- The number, if it is one. -/
def integer? : Value → Option Int64
  | .integer n => some n
  | _ => none

/-- The text, if it is one. -/
def text? : Value → Option String
  | .text s => some s
  | _ => none

/-- The moment, if it is one. -/
def timestamp? : Value → Option Binary64
  | .timestamp t => some t
  | _ => none

end Value

/-! ## Records -/

/-- Named values in order. -/
structure Record where
  fields : List (String × Value)
deriving DecidableEq, Repr

namespace Record

/-- The record without fields. -/
def empty : Record := { fields := [] }

/-- The record with a field after the others. -/
def push (r : Record) (name : String) (value : Value) : Record :=
  { fields := r.fields ++ [(name, value)] }

/-- The number of fields. -/
def size (r : Record) : Nat := r.fields.length

/-- A record without fields. -/
def isEmpty (r : Record) : Bool := r.fields.isEmpty

/-- The names in order. -/
def names (r : Record) : List String := r.fields.map (·.1)

/-- The first value of a name. -/
def get? (r : Record) (name : String) : Option Value :=
  (r.fields.find? fun f => f.1 = name).map (·.2)

/-- Each name once, at its first place and with its last value. -/
def settled (r : Record) : Record := { fields := Members.settle r.fields }

/-- The members as they stand. -/
def members (r : Record) : List (String × Json) := r.fields.map fun f => (f.1, f.2.toJson)

/-- The record as a JSON object of distinct keys. -/
def toJson (r : Record) : Json := .object (Members.settle r.members)

/-- The pieces of the record as it stands. -/
def pieces (r : Record) : List String := Json.pieces (.object r.members)

/-- The text of the record as it stands. -/
def text (r : Record) : String := String.join r.pieces

end Record

end SampleData
