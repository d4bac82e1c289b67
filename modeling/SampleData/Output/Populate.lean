import SampleData.Action
import SampleData.Generator
import SampleData.Naming
import SampleData.Output.JsonLines
import SampleData.Output.Metrics
import SampleData.Text.Causes

/-!
# Writing files of records

A populator has a generator and names for its files. Each file takes up the generator where the
one before left it, so the records do not depend on where the files end; random names are drawn
from keys of their own and leave the generator alone.

A file is opened, filled through a buffer and closed. When anything is refused the file keeps what
had been handed on, and the records drawn for it are gone from the generator. A refusal during a
record's text is reported without the file's path, all others on the way with it.
-/

namespace SampleData

open Text

/-! ## Errors -/

/-- Why a file was not written. -/
inductive PopulateError where
  | other (e : OsError)
  | writeFile (path : String) (e : OsError)
  /-- The refusal came during a record's text. -/
  | record (e : OsError)
  | directoryNotFound (path : String)
  | notADirectory (path : String)
  | draw (fault : DrawFault)
deriving DecidableEq, Repr

namespace PopulateError

/-- The error in words. -/
def message : PopulateError → String
  | .other e => "IO error: " ++ e.message
  | .writeFile path e => "Failed to write file " ++ path ++ ": " ++ e.message
  | .record e => "JSON serialization error: " ++ e.message
  | .directoryNotFound path => "Directory does not exist: " ++ path
  | .notADirectory path => "Path is not a directory: " ++ path
  | .draw (.emptyRange _ _) => "a range holds no number"
  | .draw .endless => "a draw found no number"

/-- The error with what is behind it. -/
def causes (e : PopulateError) : List Cause :=
  match e with
  | .other c | .writeFile _ c => [.plain e.message, .plain c.message]
  | .record c => [.plain e.message, .json "" c.message]
  | _ => [.plain e.message]

/-- The error that a fault in writing the lines of a file is reported as. -/
def ofLineFault (path : String) : LineFault OsError → PopulateError
  | .draw f => .draw f
  | .record e => .record e
  | .newline e => .writeFile path e
  | .flush e => .writeFile path e

end PopulateError

/-- A file that was written. -/
structure FileOutput where
  index : UInt64
  path : String
  metrics : Metrics
deriving DecidableEq, Repr

/-! ## Opening -/

/-- How many random names are tried. -/
def maxNameAttempts : Nat := 16

/-- Opens a file under a random name that is free. Each name is drawn with a key of its own, and
after the last attempt the last name is overwritten. -/
def openFresh (naming : Naming) (dir : String) (index : UInt64) :
    Nat → Action (Except PopulateError (String × Location))
  | 0 => return .error (.other .exists)
  | attempts + 1 => do
    let key ← Action.request .entropy
    match ((naming.drawName index).outcome (ChaCha.ofKey key)).1 with
    | .error f => return .error (.draw f)
    | .ok name =>
      let path := Path.join dir name
      match ← Action.request (.create path true) with
      | .ok file => return .ok (path, file)
      | .error .exists =>
        if attempts = 0 then
          Action.log .warn ("Overwriting existing file " ++ path)
          match ← Action.request (.create path false) with
          | .ok file => return .ok (path, file)
          | .error e => return .error (.writeFile path e)
        else openFresh naming dir index attempts
      | .error e => return .error (.writeFile path e)

/-- Opens the file with a given number. -/
def openOutput (naming : Naming) (dir : String) (index : UInt64) :
    Action (Except PopulateError (String × Location)) :=
  if naming.scheme.isRandom then openFresh naming dir index maxNameAttempts
  else do
    let path := Path.join dir (fileName (showUInt64 index) naming.base)
    match ← Action.request (.create path false) with
    | .ok file => return .ok (path, file)
    | .error e => return .error (.writeFile path e)

/-! ## Filling -/

/-- A reading of the clock for each field. The time is asked for by the moments only. -/
def readClock : List Descriptor → Action (List Binary64)
  | [] => return []
  | d :: ds =>
    if d.kind = .timestamp then do
      let now ← Action.request .now
      return now.epochSeconds :: (← readClock ds)
    else return .zero :: (← readClock ds)

/-- The next record of a generator. -/
def Generator.nextAction (g : Generator) : Action (Except DrawFault Record × Generator) := do
  return g.next (.ofList (← readClock g.plan.fields))

/-- An open file as a sink. -/
def fileSink (file : Location) : Sink Action OsError :=
  fun chunk => Action.request (.append file chunk)

/-- A generator with the names of its files. -/
structure Populator where
  generator : Generator
  naming : Naming
deriving DecidableEq

namespace Populator

/-- Fills a file that is open; its size is taken when it is closed. -/
def fill (p : Populator) (path : String) (file : Location) (lines : UInt64) :
    Action (Except PopulateError (JsonLines.Written × Nat) × Populator) := do
  let (outcome, g) ← JsonLines.writeTimed (Action.request .timer) (fileSink file)
    Generator.nextAction lines.toNat p.generator
  let p := { p with generator := g }
  Action.request (.close file)
  match outcome with
  | .error f => return (.error (.ofLineFault path f), p)
  | .ok written =>
    match ← Action.request (.size path) with
    | .error e => return (.error (.other e), p)
    | .ok bytes => return (.ok (written, bytes), p)

/-- The metrics of one file. -/
def fileMetrics (written : JsonLines.Written) (bytes total : Nat) : Metrics where
  rows := UInt64.ofNat written.rows
  bytes := UInt64.ofNat bytes
  total := total
  generation := written.drawing
  writing := written.writing

/-- Writes one file of `lines` records. -/
def writeFile (p : Populator) (dir : String) (index lines : UInt64) :
    Action (Except PopulateError FileOutput × Populator) := do
  let started ← Action.request .timer
  match ← openOutput p.naming dir index with
  | .error e => return (.error e, p)
  | .ok (path, file) =>
    match ← p.fill path file lines with
    | (.error e, p) => return (.error e, p)
    | (.ok (written, bytes), p) =>
      let ended ← Action.request .timer
      let metrics := fileMetrics written bytes (ended - started)
      return (.ok { index := index, path := path, metrics := metrics }, p)

/-- Writes `count` files, the first of them with number `start`. The first file that fails ends
it. -/
def writeFiles (p : Populator) (dir : String) (start : UInt64) (lines : UInt64) :
    Nat → Action (Except PopulateError (List FileOutput) × Populator)
  | 0 => return (.ok [], p)
  | count + 1 => do
    match ← p.writeFile dir start lines with
    | (.error e, p) => return (.error e, p)
    | (.ok output, p) =>
      match ← p.writeFiles dir (start + 1) lines count with
      | (.error e, p) => return (.error e, p)
      | (.ok outputs, p) => return (.ok (output :: outputs), p)

end Populator

end SampleData
