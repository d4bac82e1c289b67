import SampleData.Decimal.Fixed
import SampleData.Output.Clear
import SampleData.Output.Workers
import SampleData.Schema.Origin
import SampleData.Settings
import SampleData.Text.Causes

/-!
# Runs

A run loads a schema, makes a plan of it, tells what it is about to do, writes the records and
tells what came of it. Nothing on the disk is touched before the plan stands. Records are printed
if no files are wanted; files are written by one worker, or shared out among several.
-/

namespace SampleData

open Text

/-! ## Outcomes -/

/-- What a run has written. -/
structure Summary where
  /-- The paths of the files in the order of their numbers. -/
  files : List String
  totalLines : UInt64
  metrics : Metrics
deriving DecidableEq, Repr

/-- Why a run has failed. -/
inductive RunError where
  | schema (e : SchemaLoadError)
  | compile (e : CompileError)
  /-- Records could not be handed on. -/
  | records (e : PopulateError)
  /-- Records could not be printed. -/
  | console (e : PopulateError)
  | clear (path : String) (e : PopulateError)
  | parallel (e : WorkerError)
  | files (e : PopulateError)
deriving DecidableEq, Repr

/-- The error with what is behind it. -/
def RunError.causes : RunError → List Cause
  | .schema e => e.causes
  | .compile e => [.plain "Failed to compile data schema", .plain e.message]
  | .records e => .plain "Failed to write records" :: e.causes
  | .console e =>
    .plain "Failed to write records to console" :: .plain "Failed to write records" :: e.causes
  | .clear path e => .plain ("Failed to clear " ++ path) :: e.causes
  | .parallel e => .plain "Parallel file generation failed" :: e.causes
  | .files e => .plain "File generation failed" :: e.causes

/-- The error that a fault in writing lines without a file is reported as. -/
def PopulateError.ofStreamFault : LineFault OsError → PopulateError
  | .draw f => .draw f
  | .record e => .record e
  | .newline e => .other e
  | .flush e => .other e

/-! ## The plan of a run -/

/-- The plan of a schema; its warnings are told. -/
def Schema.compileTelling (s : Schema) : Action (Except CompileError Plan) := do
  match s.compile with
  | .error e => return .error e
  | .ok (plan, warnings) =>
    warnings.forM fun w => Action.log .warn w.message
    Action.log .debug ("Schema compiled: " ++ showNat plan.size ++ " field(s)")
    return .ok plan

/-- The schema of settings and its plan. -/
def Settings.compilePlan (s : Settings) : Action (Except RunError (Schema × Plan)) := do
  match ← Schema.load s.schema with
  | .error e => return .error (.schema e)
  | .ok schema =>
    match ← schema.compileTelling with
    | .error e => return .error (.compile e)
    | .ok plan =>
      Action.info ("Schema parsed: " ++ showNat plan.size ++ " field(s) defined")
      return .ok (schema, plan)

/-! ## What is told before and after -/

/-- A text, or its first `most` characters and three dots. -/
def preview (most : Nat) (text : String) : String :=
  if text.length ≤ most then text else String.ofList (text.toList.take most) ++ "..."

/-- How much of a schema is told. -/
def previewLength : Nat := 100

/-- What is told of the settings of a run. -/
def Settings.description (s : Settings) (schema : Schema) : List String :=
  ["Current configuration:",
   "  Path to save files: " ++ s.path,
   "  Files count: " ++ showUInt64 s.filesCount,
   "  File name: " ++ s.fileName,
   "  File prefix: " ++ s.scheme.word,
   "  Data lines per file: " ++ showUInt64 s.dataLines,
   "  Multiprocessing: " ++ showUInt64 s.workers ++ " worker(s)",
   "  Clear path: " ++ (if s.clearPath then "true" else "false"),
   "  Seed: " ++ (match s.seed with
     | some seed => showUInt64 seed
     | none => "(entropy)"),
   "  Data schema: " ++ preview previewLength schema.toText]

/-- A line across. -/
def rule : String := String.ofList (List.replicate 60 '-')

/-- How many files are told by name. -/
def listedFiles : Nat := 5

/-- The lines that list files, numbered from `i + 1` on. -/
def listFiles (i : Nat) : List String → List String
  | [] => []
  | path :: rest =>
    ("  " ++ showNat (i + 1) ++ ". " ++ (Path.fileName? path).getD path) :: listFiles (i + 1) rest

/-- Records per second, with two places. -/
def Metrics.rateText (m : Metrics) : String :=
  Decimal.fixedText 2 m.rowsPerSecond.ratio.1 m.rowsPerSecond.ratio.2

/-- What is told of the files of a run. -/
def Summary.fileLines (r : Summary) : List String :=
  [rule, "Successfully created " ++ showNat r.files.length ++ " file(s):"]
    ++ listFiles 0 (r.files.take listedFiles)
    ++ (if listedFiles < r.files.length then
        ["  ... and " ++ showNat (r.files.length - listedFiles) ++ " more file(s)"] else [])
    ++ [rule, "Total data lines written: " ++ showUInt64 r.totalLines ++ " ("
        ++ showUInt64 r.metrics.bytes ++ " bytes, " ++ r.metrics.rateText ++ " rows/sec)"]

/-- What is told of a run that is over. -/
def Summary.description (r : Summary) (s : Settings) : List String :=
  if s.isConsole then [rule, "Total lines generated: " ++ showUInt64 r.totalLines]
  else r.fileLines

/-- Tells lines one after the other. -/
def tell (lines : List String) : Action Unit := lines.forM Action.info

/-! ## Printing records -/

/-- The source of a run. -/
def Settings.source (s : Settings) : Action ChaCha :=
  match s.seed with
  | some seed => return ChaCha.ofSeed seed
  | none => return ChaCha.ofKey (← Action.request .entropy)

/-- A seed gives its source without asking. -/
@[simp] theorem Settings.source_of_seed {s : Settings} {seed : UInt64} (h : s.seed = some seed) :
    s.source = pure (ChaCha.ofSeed seed) := by
  unfold source
  rw [h]

/-- Standard output as a sink. -/
def printSink : Sink Action OsError := fun chunk => Action.request (.print chunk)

/-- Writes the records of a run to a sink. -/
def Settings.stream (s : Settings) (sink : Sink Action OsError) (plan : Plan) :
    Action (Except PopulateError Summary) := do
  let started ← Action.request .timer
  let g : Generator := { plan := plan, source := ← s.source }
  match ← JsonLines.writeFrom sink Generator.nextAction s.dataLines.toNat g with
  | (.error f, _) => return .error (.ofStreamFault f)
  | (.ok written, _) =>
    let rows := UInt64.ofNat written
    Action.log .debug ("Wrote " ++ showUInt64 rows ++ " line(s)")
    let ended ← Action.request .timer
    let metrics := { Metrics.zero with rows := rows, total := ended - started }
    return .ok { files := [], totalLines := rows, metrics := metrics }

/-! ## Writing files -/

/-- Writes the files of a run in one go. -/
def Settings.writeAlone (s : Settings) (plan : Plan) :
    Action (Except RunError (List FileOutput)) := do
  Action.info "Creating files (single worker mode)..."
  let p : Populator := { generator := { plan := plan, source := ← s.source }, naming := s.naming }
  match (← p.writeFiles s.path 1 s.dataLines s.filesCount.toNat).1 with
  | .error e => return .error (.files e)
  | .ok outputs => return .ok outputs

/-- Writes the files of a run by several workers. -/
def Settings.writeParallel (s : Settings) (plan : Plan) :
    Action (Except RunError (List FileOutput)) := do
  Action.info ("Creating files using " ++ showUInt64 s.workers ++ " parallel worker(s)...")
  let assignments := partition s.filesCount s.workers s.seed
  Action.log .debug (describeAssignments assignments)
  return (← writeShared plan s.path s.naming s.dataLines assignments).mapError .parallel

/-- Clears the directory of a run if it is to be cleared. -/
def Settings.clear (s : Settings) : Action (Except RunError Unit) := do
  if s.clearPath then
    Action.info "Clearing existing JSON files from output directory..."
    match ← clearDirectory s.path with
    | .error e => return .error (.clear s.path e)
    | .ok removed =>
      if 0 < removed then Action.info ("Removed " ++ showNat removed ++ " existing file(s)")
      return .ok ()
  else return .ok ()

/-- The summary of files that were written. -/
def Summary.ofOutputs (outputs : List FileOutput) : Summary :=
  let metrics := Metrics.sum (outputs.map (·.metrics))
  { files := outputs.map (·.path), totalLines := metrics.rows, metrics := metrics }

/-- Writes the files of a run. -/
def Settings.writeFiles (s : Settings) (plan : Plan) : Action (Except RunError Summary) := do
  Action.info ("Lines per file: " ++ showUInt64 s.dataLines)
  Action.info ("Output directory: " ++ s.path)
  Action.info ("File prefix type: " ++ s.scheme.word)
  match ← s.clear with
  | .error e => return .error e
  | .ok () =>
    let outputs ←
      if worthSharing s.filesCount s.workers then s.writeParallel plan else s.writeAlone plan
    return outputs.map Summary.ofOutputs

/-! ## The whole -/

/-- Writes the records of a run where they are wanted. -/
def Settings.produce (s : Settings) (plan : Plan) : Action (Except RunError Summary) := do
  if s.isConsole then
    Action.info "Mode: Console output"
    Action.info ("Generating " ++ showUInt64 s.dataLines ++ " line(s)...")
    return (← s.stream printSink plan).mapError .console
  else
    Action.info ("Mode: File output (" ++ showUInt64 s.filesCount ++ " file(s))")
    s.writeFiles plan

/-- Carries a run out. -/
def Settings.execute (s : Settings) : Action (Except RunError Summary) := do
  match ← s.compilePlan with
  | .error e => return .error e
  | .ok (schema, plan) =>
    tell (s.description schema)
    Action.info "Starting data generation..."
    match ← s.produce plan with
    | .error e => return .error e
    | .ok summary =>
      tell (summary.description s)
      return .ok summary

end SampleData
