import SampleData.Action
import SampleData.Schema
import SampleData.Text.Blank

/-!
# Where a schema comes from

The schema of a run is given as JSON text or as the path of a file. A text is a path if it looks
like one and there is a file; else it is taken for JSON, even if it looks like a path.
-/

namespace SampleData

open Text

/-- Where a schema comes from. -/
inductive SchemaOrigin where
  | literal (text : String)
  | file (path : String)
deriving DecidableEq, Repr

/-- Why a schema cannot be had. -/
inductive SchemaLoadError where
  | unreadable (path : String) (e : OsError)
  | invalidFile (path : String) (e : SchemaError)
  | invalidLiteral (e : SchemaError)
deriving DecidableEq, Repr

/-- The error with what is behind it. -/
def SchemaLoadError.causes : SchemaLoadError → List Cause
  | .unreadable path e =>
    [.plain ("Failed to load schema from " ++ path),
     .plain ("Failed to read schema file: " ++ e.message), .plain e.message]
  | .invalidFile path e => .plain ("Failed to load schema from " ++ path) :: e.causes
  | .invalidLiteral e => .plain "Invalid JSON in data schema" :: e.causes

namespace SchemaOrigin

/-- A text ends in `.json` or has a slash of either sort. -/
def looksLikePath (text : String) : Bool :=
  ".json".toList.isSuffixOf text.toList || text.toList.contains '/' || text.toList.contains '\\'

/-- What a text stands for. Blanks at the ends do not belong to a path, but to a text they do. -/
def detect (text : String) : Action SchemaOrigin := do
  let path := trim text
  if looksLikePath path && (← Action.isOfKind .regular path) then return .file path
  else return .literal text

/-- The schema of an origin. -/
def load : SchemaOrigin → Action (Except SchemaLoadError Schema)
  | .file path => do
    Action.info ("Loading schema from file: " ++ path)
    match ← Action.request (.read path) with
    | .error e => return .error (.unreadable path e)
    | .ok text => return (Schema.ofText text).mapError (.invalidFile path)
  | .literal text => do
    Action.log .debug "Parsing schema from JSON string"
    return (Schema.ofText text).mapError .invalidLiteral

end SchemaOrigin

/-- The schema that a text stands for. -/
def Schema.load (text : String) : Action (Except SchemaLoadError Schema) := do
  (← SchemaOrigin.detect text).load

end SampleData
