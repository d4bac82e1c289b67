import SampleData.Action
import SampleData.CommandLine
import SampleData.Config

/-!
# Settings of a run

The command line goes before the configuration. Settings are then checked one after the other and
put right where they can be: more workers than processors are cut down, and the directory is
replaced by its absolute path without links. Without files there is no directory to look at.
-/

namespace SampleData

open Text

/-- What a run is to do. -/
structure Settings where
  path : String
  /-- How many files; with none, records are printed. -/
  filesCount : UInt64
  fileName : String
  scheme : NameScheme
  dataLines : UInt64
  workers : UInt64
  clearPath : Bool
  /-- The text of a schema, or the path of a file that holds one. -/
  schema : String
  seed : Option UInt64
deriving DecidableEq, Repr

/-- Why settings cannot be used. -/
inductive SettingsError where
  | missingPath
  | noLines
  | noWorkers
  | emptyFileName
  | invalidFileName (c : Char) (name : String)
  | noSuchPath (path : String)
  | notADirectory (path : String)
  | unresolved (path : String) (e : OsError)
  | emptySchema
deriving DecidableEq, Repr

/-- The error with what is behind it. -/
def SettingsError.causes : SettingsError → List Cause
  | .missingPath => [.plain "Output path is required (use '.' for the current directory)"]
  | .noLines => [.plain "data_lines must be > 0, got: 0"]
  | .noWorkers => [.plain "multiprocessing must be >= 1, got: 0"]
  | .emptyFileName => [.plain "file_name cannot be empty"]
  | .invalidFileName c name =>
    [.plain ("file_name contains invalid character '" ++ c.toString ++ "': " ++ name)]
  | .noSuchPath path => [.plain ("Path does not exist: " ++ path)]
  | .notADirectory path => [.plain ("Path exists but is not a directory: " ++ path)]
  | .unresolved path e => [.plain ("Failed to resolve path: " ++ path), .plain e.message]
  | .emptySchema => [.plain "Schema cannot be empty"]

namespace Settings

/-- Records are printed instead of written to files. -/
def isConsole (s : Settings) : Bool := s.filesCount = 0

/-- How the files are named. -/
def naming (s : Settings) : Naming := { base := s.fileName, scheme := s.scheme }

/-! ## Merging -/

/-- The settings that a command line and a configuration give. -/
def merge (a : Arguments) (c : Config) : Except SettingsError Settings :=
  match a.path with
  | none => .error .missingPath
  | some path => .ok {
      path := path
      filesCount := a.filesCount.getD c.filesCount
      fileName := a.fileName.getD c.fileName
      scheme := a.scheme.getD c.scheme
      dataLines := a.dataLines.getD c.dataLines
      workers := a.workers.getD c.workers
      clearPath := a.clearPath
      schema := a.schema.getD c.schema
      seed := a.seed }

/-! ## Checking -/

/-- The characters that no base name may hold. -/
def forbiddenChars : List Char := ['/', '\\', ':', '*', '?', '"', '<', '>', '|']

/-- What is wrong with a base name. -/
def fileNameFault? (name : String) : Option SettingsError :=
  if isAllBlank name then some .emptyFileName
  else (name.toList.find? forbiddenChars.contains).map fun c => .invalidFileName c name

/-- Lets no more workers in than there are processors, and one at least. -/
def limitWorkers (cpus : UInt64) (s : Settings) : Action Settings := do
  let most := if cpus = 0 then 1 else cpus
  if most < s.workers then
    Action.log .warn ("multiprocessing value " ++ showUInt64 s.workers ++ " exceeds CPU count ("
      ++ showUInt64 most ++ "), setting multiprocessing to " ++ showUInt64 most)
    return { s with workers := most }
  else return s

/-- Looks at the directory. -/
def resolvePath (s : Settings) : Action (Except SettingsError Settings) := do
  if s.isConsole then
    Action.info "files_count is 0: data will be output to console"
    return .ok s
  else if !(← Action.pathExists s.path) then return .error (.noSuchPath s.path)
  else if !(← Action.isOfKind .directory s.path) then return .error (.notADirectory s.path)
  else match ← Action.request (.canonical s.path) with
    | .error e => return .error (.unresolved s.path e)
    | .ok path => return .ok { s with path := path }

/-- Checks settings and puts them right; the first fault is reported. -/
def validate (cpus : UInt64) (s : Settings) : Action (Except SettingsError Settings) := do
  Action.info "Validating parameters..."
  if s.dataLines = 0 then return .error .noLines
  else if s.workers = 0 then return .error .noWorkers
  else
    let s ← limitWorkers cpus s
    match fileNameFault? s.fileName with
    | some e => return .error e
    | none =>
      match ← resolvePath s with
      | .error e => return .error e
      | .ok s => if isAllBlank s.schema then return .error .emptySchema else return .ok s

end Settings

end SampleData
