import SampleData.Text.Numeral

/-!
# Sharing out files among workers

Files are numbered from 1. Each worker gets a run of consecutive numbers; the runs differ in length
by one at most, and the longer ones come first. A worker that would get no file gets no assignment.
When the whole run has a seed, the worker after the `i`-th has that seed plus `i`.
-/

namespace SampleData

open Text

/-- The files of one worker. -/
structure Assignment where
  worker : UInt64
  start : UInt64
  count : UInt64
  seed : Option UInt64
deriving DecidableEq, Repr

/-- The last file of an assignment; one without files ends where it starts. -/
def Assignment.last (a : Assignment) : UInt64 :=
  a.start + (if a.count = 0 then 0 else a.count - 1)

/-- The number of workers that files are shared out among: at least one. -/
def effectiveWorkers (workers : UInt64) : UInt64 := if workers = 0 then 1 else workers

/-- How many files the worker after `i` others gets. -/
def share (total workers i : UInt64) : UInt64 :=
  total / workers + (if i < total % workers then 1 else 0)

/-- How many files each worker gets. -/
def shares (total workers : UInt64) : List UInt64 :=
  let w := effectiveWorkers workers
  (List.range w.toNat).map fun i => share total w (UInt64.ofNat i)

/-- The assignments of workers from the one after `i` others on, the first file being `start`. -/
def assignmentsFrom (seed : Option UInt64) (i start : UInt64) : List UInt64 → List Assignment
  | [] => []
  | count :: rest =>
    if count = 0 then assignmentsFrom seed (i + 1) start rest
    else { worker := i + 1, start := start, count := count, seed := seed.map (· + i) } ::
      assignmentsFrom seed (i + 1) (start + count) rest

/-- The assignments that share out `total` files. -/
def partition (total workers : UInt64) (seed : Option UInt64) : List Assignment :=
  assignmentsFrom seed 0 1 (shares total workers)

/-- Sharing out is worth while for more than one file and more than one worker. -/
def worthSharing (files workers : UInt64) : Bool := 1 < files && 1 < workers

/-! ## In words -/

/-- The line of one assignment. -/
def Assignment.describe (a : Assignment) : String :=
  "  worker-" ++ showUInt64 a.worker ++ ": files " ++ showUInt64 a.start ++ "-"
    ++ showUInt64 a.last ++ " (" ++ showUInt64 a.count ++ " file(s), seed="
    ++ (match a.seed with
      | some s => showUInt64 s
      | none => "entropy") ++ ")"

/-- All assignments, a line each. -/
def describeAssignments (as : List Assignment) : String :=
  "\n".intercalate ("Work distribution:" :: as.map Assignment.describe)

end SampleData
