import SampleData.Action
import SampleData.Config

/-!
# Configuration files

A file that is named has to be there. If none is named, the one of the usual name in the current
directory is read, and if there is no such file the built-in values are used.
-/

namespace SampleData.Config

/-- The usual name of a configuration file. -/
def usualName : String := "dataforge.toml"

/-- The configuration in a file. -/
def readFile (path : String) : Action (Except ConfigError Config) := do
  match ← Action.request (.read path) with
  | .error e => return .error (.unreadable path e)
  | .ok text =>
    match Config.read text with
    | .error p => return .error (.invalidFile path p)
    | .ok c =>
      Action.info ("Configuration loaded from '" ++ path ++ "'")
      return .ok c

/-- The configuration of a run; `named` is the file that the user names. -/
def load (named : Option String) : Action (Except ConfigError Config) := do
  match named with
  | some path => readFile path
  | none =>
    if ← Action.pathExists usualName then readFile usualName
    else
      Action.log .warn ("Configuration file '" ++ usualName
        ++ "' not found. Using built-in defaults.")
      return .ok builtin

/-- Writes a whole file. -/
def writeFile (path text : String) : Action (Except OsError Unit) := do
  match ← Action.request (.create path false) with
  | .error e => return .error e
  | .ok file =>
    let outcome ← Action.request (.append file text)
    Action.request (.close file)
    return outcome

/-- Writes the built-in values to a file unless something is there already; whether it did. -/
def init (path : String) : Action (Except ConfigError Bool) := do
  if ← Action.pathExists path then
    Action.info ("Configuration file '" ++ path ++ "' already exists")
    return .ok false
  else
    match builtin.toText with
    | .error e => return .error e
    | .ok text =>
      match ← writeFile path text with
      | .error e => return .error (.unwritable path e)
      | .ok () =>
        Action.info ("Created default configuration file: " ++ path)
        return .ok true

end SampleData.Config
