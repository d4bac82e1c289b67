import SampleData.Json.Document
import SampleData.Json.Printer
import SampleData.Plan.Compile
import SampleData.Text.Causes

/-!
# Schemas

A schema is a list of field definitions as somebody wrote them, not yet looked at. It can be read
from the text of a JSON object, whose keys are the names and whose values the instructions, and it
can be written as one. A key that stands more than once keeps its first place and its last value,
on both ways; so a schema that was read never defines a field twice.
-/

namespace SampleData

open Text

/-- Field names with their instructions, in order. -/
structure Schema where
  entries : List (String × String)
deriving DecidableEq, Repr

/-- Why a text is no schema. -/
inductive SchemaError where
  | notJson (e : Json.SyntaxError)
  /-- The kind of value that stands in place of an object. -/
  | notAnObject (found : String)
  /-- The first field whose value is not a string, and the kind of value it has. -/
  | nonStringInstruction (field found : String)
deriving DecidableEq, Repr

namespace SchemaError

/-- The error itself. -/
def cause : SchemaError → Cause
  | .notJson e => .json "Failed to parse schema JSON: " e.message
  | .notAnObject found => .plain ("Schema must be a JSON object, got " ++ found)
  | .nonStringInstruction field found =>
    .plain ("Field '" ++ field ++ "': instruction must be a string, got " ++ found)

/-- The error with what is behind it. -/
def causes (e : SchemaError) : List Cause :=
  match e with
  | .notJson reason => [e.cause, .json "" reason.message]
  | _ => [e.cause]

end SchemaError

namespace Schema

/-- The number of definitions. -/
def size (s : Schema) : Nat := s.entries.length

/-- A schema without definitions. -/
def isEmpty (s : Schema) : Bool := s.entries.isEmpty

/-! ## From and to JSON -/

/-- The members of an object as definitions, or the first one that is none. -/
def readMembers : List (String × Json) → Except SchemaError (List (String × String))
  | [] => .ok []
  | (name, value) :: rest =>
    match value with
    | .text instruction => (readMembers rest).map ((name, instruction) :: ·)
    | other => .error (.nonStringInstruction name other.kindName)

/-- The schema of a JSON value. -/
def ofJson : Json → Except SchemaError Schema
  | .object members => (readMembers members).map fun entries => { entries := entries }
  | other => .error (.notAnObject other.kindName)

/-- The schema of a text. -/
def ofText (text : String) : Except SchemaError Schema :=
  match Json.ofText text with
  | .error e => .error (.notJson e)
  | .ok value => ofJson value

/-- The schema as a JSON object. -/
def toJson (s : Schema) : Json :=
  .object (Members.settle (s.entries.map fun e => (e.1, .text e.2)))

/-- The schema as compact JSON text. -/
def toText (s : Schema) : String := s.toJson.render

/-! ## Compiling -/

/-- The plan of a schema, with its warnings. -/
def compile (s : Schema) : Except CompileError (Plan × List Warning) :=
  Plan.compile s.entries

end Schema

end SampleData
