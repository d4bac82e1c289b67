import SampleData.Text.Numeral

/-!
# Field kinds and constants

A field holds a moment, a text or a whole number. The kind has two spellings: the keyword that
instructions use, and the name that stored plans use. A constant of a plan is a number or a text;
there are no constant moments.
-/

namespace SampleData

/-! ## Kinds -/

/-- What a field holds. -/
inductive Kind where
  | timestamp
  | text
  | integer
deriving DecidableEq, Repr, Inhabited

namespace Kind

/-- Every kind, in the order in which messages list them. -/
def all : List Kind := [.timestamp, .text, .integer]

/-- The word for the kind in an instruction. -/
def keyword : Kind → String
  | .timestamp => "timestamp"
  | .text => "str"
  | .integer => "int"

/-- The word for the kind in a stored plan. -/
def storedName : Kind → String
  | .timestamp => "timestamp"
  | .text => "string"
  | .integer => "integer"

/-- The kind of a keyword. Case counts, and so do blanks. -/
def ofKeyword? (s : String) : Option Kind :=
  all.find? fun k => k.keyword = s

/-- The kind of a stored name. -/
def ofStoredName? (s : String) : Option Kind :=
  all.find? fun k => k.storedName = s

/-- What is said of a word that is no keyword. -/
def unknownMessage (s : String) : String :=
  "Unknown field kind: " ++ s

/-- Each kind is found under its keyword. -/
@[simp] theorem ofKeyword?_keyword (k : Kind) : ofKeyword? k.keyword = some k := by
  cases k <;> decide

/-- Each kind is found under its stored name. -/
@[simp] theorem ofStoredName?_storedName (k : Kind) : ofStoredName? k.storedName = some k := by
  cases k <;> decide

/-- Only the keyword of a kind finds it. -/
theorem eq_keyword_of_ofKeyword? {s : String} {k : Kind} (h : ofKeyword? s = some k) :
    s = k.keyword := by
  have h2 := List.find?_some h
  exact (of_decide_eq_true h2).symm

end Kind

/-! ## Constants -/

/-- A constant of a plan. -/
inductive Scalar where
  | integer (n : Int64)
  | text (s : String)
deriving DecidableEq, Repr

namespace Scalar

/-- The kind of field a constant fits. -/
def kind : Scalar → Kind
  | .integer _ => .integer
  | .text _ => .text

/-- The number, if it is one. -/
def integer? : Scalar → Option Int64
  | .integer n => some n
  | .text _ => none

/-- The text, if it is one. -/
def text? : Scalar → Option String
  | .integer _ => none
  | .text s => some s

/-- The constant as it is shown to people: texts stand without quotes. -/
def display : Scalar → String
  | .integer n => Text.showInt64 n
  | .text s => s

end Scalar

end SampleData
