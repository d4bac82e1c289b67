import SampleData.Output.Populate
import SampleData.Partition
import SampleData.Turns

/-!
# Several workers

Each assignment is carried out by a worker with a generator of its own, so no worker needs to know
of the others. All of them run to their end; a failed one does not stop the rest, and what they
have written stays. The result is that of the first failed worker in the order of the assignments,
however long each took, or else all files in the order of their numbers.
-/

namespace SampleData

open Text

/-! ## Errors -/

/-- Which worker failed, and how. -/
inductive WorkerError where
  | failed (worker : UInt64) (e : PopulateError)
  /-- The worker came to no result of its own. -/
  | incomplete (worker : UInt64)
deriving DecidableEq, Repr

namespace WorkerError

/-- The error in words. -/
def message : WorkerError → String
  | .failed w e => "Worker " ++ showUInt64 w ++ " failed: " ++ e.message
  | .incomplete w => "Worker " ++ showUInt64 w ++ " did not complete"

/-- The error with what is behind it. -/
def causes (e : WorkerError) : List Cause :=
  match e with
  | .failed _ c => .plain e.message :: c.causes
  | .incomplete _ => [.plain e.message]

/-- What becomes of a worker's error. A worker that ran into a range without numbers has no result
to report. -/
def ofPopulate (worker : UInt64) : PopulateError → WorkerError
  | .draw _ => .incomplete worker
  | e => .failed worker e

end WorkerError

/-! ## One worker -/

/-- A word of 64 bits turned left. -/
def rotateWord (w n : UInt64) : UInt64 := w <<< n ||| w >>> (64 - n)

/-- The seed of a worker that is given none: a random word, the time and the worker's number mixed,
so that workers which start in the same instant still draw differently. -/
def mixedSeed (word nanos worker : UInt64) : UInt64 :=
  word ^^^ rotateWord nanos 17 ^^^ worker * 0x9E3779B97F4A7C15

/-- The source of a worker. -/
def Assignment.source (a : Assignment) : Action ChaCha :=
  match a.seed with
  | some s => return ChaCha.ofSeed s
  | none => do
    let now ← Action.request .now
    let word := (ChaCha.ofKey (← Action.request .entropy)).doubleWord.1
    return ChaCha.ofSeed (mixedSeed word now.nanosSinceEpoch a.worker)

/-- A seed gives its source without asking. -/
@[simp] theorem Assignment.source_of_seed {a : Assignment} {seed : UInt64}
    (h : a.seed = some seed) : a.source = pure (ChaCha.ofSeed seed) := by
  unfold source
  rw [h]

/-- Writes the files of an assignment with records from a source. -/
def Assignment.write (plan : Plan) (dir : String) (naming : Naming) (lines : UInt64)
    (a : Assignment) (source : ChaCha) : Action (Except PopulateError (List FileOutput)) := do
  let p : Populator := { generator := { plan := plan, source := source }, naming := naming }
  return (← p.writeFiles dir a.start lines a.count.toNat).1

/-- Writes the files of an assignment. -/
def runWorker (plan : Plan) (dir : String) (naming : Naming) (lines : UInt64) (a : Assignment) :
    Action (Except PopulateError (List FileOutput)) := do
  a.write plan dir naming lines (← a.source)

/-! ## All workers -/

/-- The result of each worker with the worker's number, in the order of the assignments. -/
abbrev WorkerResults := List (UInt64 × Except PopulateError (List FileOutput))

/-- All outputs in the order of the workers, or the first error. -/
def collectOutputs : WorkerResults → Except WorkerError (List FileOutput)
  | [] => .ok []
  | (worker, .error e) :: _ => .error (.ofPopulate worker e)
  | (_, .ok outputs) :: rest => (collectOutputs rest).map (outputs ++ ·)

/-- Outputs in the order of their numbers; outputs of one number keep their order. -/
def sortOutputs (outputs : List FileOutput) : List FileOutput :=
  outputs.mergeSort fun a b => a.index ≤ b.index

/-- The results of all workers as one. -/
def mergeResults (results : WorkerResults) : Except WorkerError (List FileOutput) :=
  (collectOutputs results).map sortOutputs

/-- Lets one worker after the other do its work. -/
def runWorkers (plan : Plan) (dir : String) (naming : Naming) (lines : UInt64) :
    List Assignment → Action WorkerResults
  | [] => return []
  | a :: rest => do
    let result ← runWorker plan dir naming lines a
    return (a.worker, result) :: (← runWorkers plan dir naming lines rest)

/-- The workers of all assignments, about to take turns in one world. -/
def workerCrew (plan : Plan) (dir : String) (naming : Naming) (lines : UInt64)
    (as : List Assignment) (w : World) : Crew (Except PopulateError (List FileOutput)) :=
  { actions := as.map (runWorker plan dir naming lines), world := w }

/-- What workers came to, with their numbers. -/
def numberResults (as : List Assignment) (results : List (Except PopulateError (List FileOutput))) :
    WorkerResults :=
  (as.map Assignment.worker).zip results

/-- How many files assignments cover. -/
def coveredFiles (as : List Assignment) : UInt64 := as.foldl (fun n a => n + a.count) 0

/-- Carries out all assignments. -/
def writeShared (plan : Plan) (dir : String) (naming : Naming) (lines : UInt64)
    (as : List Assignment) : Action (Except WorkerError (List FileOutput)) := do
  Action.info ("Starting parallel generation: " ++ showUInt64 (coveredFiles as)
    ++ " file(s) with " ++ showNat as.length ++ " worker(s)")
  match mergeResults (← runWorkers plan dir naming lines as) with
  | .error e => return .error e
  | .ok outputs =>
    Action.info ("Parallel generation completed: " ++ showNat outputs.length ++ " file(s) created")
    return .ok outputs

end SampleData
