import SampleData.Program
import Std.Time.DateTime.Timestamp

/-!
# The command

Requests are carried out by the operating system, and words of the command line and the
surroundings are handed to the program. Open files are kept under the numbers they were opened in.
-/

namespace SampleData.Command

open Text

/-! ## Refusals -/

/-- The code of an error of the system and its words. -/
def errorParts : IO.Error → Option (UInt32 × String)
  | .alreadyExists _ code text | .otherError code text | .resourceBusy code text
  | .resourceVanished code text | .unsupportedOperation code text | .hardwareFault code text
  | .unsatisfiedConstraints code text | .illegalOperation code text | .protocolError code text
  | .timeExpired code text | .interrupted _ code text | .noFileOrDirectory _ code text
  | .invalidArgument _ code text | .permissionDenied _ code text | .resourceExhausted _ code text
  | .inappropriateType _ code text | .noSuchThing _ code text => some (code, text)
  | .unexpectedEof => none
  | .userError _ => none

/-- The refusal that an error of the system is. -/
def refusal (e : IO.Error) : OsError :=
  match errorParts e with
  | some (code, text) =>
    if code = 17 then .exists
    else .other (text ++ " (os error " ++ showNat code.toNat ++ ")")
  | none => .other (toString e)

/-- The outcome of something that the system may refuse. -/
def attempt {α : Type} (x : IO α) : IO (Except OsError α) := do
  try return .ok (← x)
  catch e => return .error (refusal e)

/-! ## Answers -/

/-- The files that are open, and how many have been opened. -/
structure OpenFiles where
  count : Nat
  handles : List (Location × IO.FS.Handle)

/-- A path as the root of an entry that has no name. -/
def entry (path : String) : IO.FS.DirEntry := { root := path, fileName := "" }

/-- The kind of what a path leads to. -/
def kindOf (path : String) : IO FileKind := do
  match (← (entry path).root.metadata).type with
  | .dir => return .directory
  | .file => return .regular
  | _ => return .other

/-- Opens a file for writing. -/
def openFile (files : IO.Ref OpenFiles) (path : String) (fresh : Bool) : IO Location := do
  let handle ← IO.FS.Handle.mk path (if fresh then .writeNew else .write)
  let opened ← files.get
  let number := [showNat opened.count]
  files.set { count := opened.count + 1, handles := (number, handle) :: opened.handles }
  return number

/-- Writes at the end of an open file. -/
def appendTo (files : IO.Ref OpenFiles) (file : Location) (chunk : String) : IO Unit := do
  match (← files.get).handles.find? fun h => h.1 = file with
  | some (_, handle) =>
    handle.putStr chunk
    handle.flush
  | none => return ()

/-- The time of day. -/
def readClock : IO Moment := do
  let nanos := (← Std.Time.Timestamp.now).toNanosecondsSinceUnixEpoch.val
  return { seconds := nanos / 1000000000, nanos := (nanos % 1000000000).toNat }

/-- A word of a key from four bytes. -/
def keyWord (bytes : ByteArray) (i : Nat) : UInt32 :=
  let at? (j : Nat) : UInt32 := ((bytes.data[4 * i + j]?).getD 0).toUInt32
  at? 0 ||| at? 1 <<< 8 ||| at? 2 <<< 16 ||| at? 3 <<< 24

/-- A key that nobody knows. -/
def secretKey : IO ChaCha.Key := do
  let bytes ← IO.getRandomBytes 32
  return Vector.ofFn fun i => keyWord bytes i.val

/-- What the system answers to a request. -/
def answer (files : IO.Ref OpenFiles) : (r : Request) → IO r.Answer
  | .kind path => attempt (kindOf path)
  | .canonical path => attempt (return (← IO.FS.realPath path).toString)
  | .read path => attempt (IO.FS.readFile path)
  | .list dir => attempt (return (← (entry dir).root.readDir).toList.map (·.fileName))
  | .remove path => attempt (IO.FS.removeFile path)
  | .create path fresh => attempt (openFile files path fresh)
  | .append file chunk => attempt (appendTo files file chunk)
  | .close file => files.modify fun f =>
    { f with handles := f.handles.filter fun h => h.1 ≠ file }
  | .size path => attempt (return (← (entry path).root.metadata).byteSize.toNat)
  | .print chunk => attempt do
    let out ← IO.getStdout
    out.putStr chunk
    out.flush
  | .log event =>
    if event.level = .debug then return () else IO.eprintln event.line
  | .now => readClock
  | .timer => IO.monoNanosNow
  | .entropy => secretKey

/-- Carries an action out. -/
def carryOut {α : Type} (files : IO.Ref OpenFiles) : Action α → IO α
  | .done a => return a
  | .ask r next => do
    let x ← answer files r
    carryOut files (next x)

/-! ## The surroundings -/

/-- How many processors there are. -/
def countProcessors : IO UInt64 := do
  match ← attempt (IO.FS.lines "/proc/cpuinfo") with
  | .ok found => return UInt64.ofNat (found.filter fun l => l.startsWith "processor").size
  | .error _ => return 1

/-- What is said of a command line that gives nothing to run. -/
def complaint : UsageError → String
  | .missingPath => "the directory is missing"
  | .unknownArgument => "unexpected argument"
  | .invalidValue => "invalid or missing value"
  | .invalidNumber => "invalid number"
  | .repeatedOption => "an option cannot be used multiple times"
  | .unneededValue => "unexpected value for an option"
  | .help _ | .version => ""

/-- Tells the user how it ended. -/
def report : Outcome → IO Unit
  | .finished | .refused (.help _) | .refused .version => return ()
  | .failed e => IO.eprintln e.line
  | .refused e =>
    IO.eprintln ("error: " ++ complaint e ++ "\n\nFor more information, try '--help'.")

end SampleData.Command

open SampleData Command

/-- Runs the program. -/
def main (words : List String) : IO UInt32 := do
  let files ← IO.mkRef { count := 0, handles := [] }
  let outcome ← carryOut files
    (runProgram (← countProcessors) (← IO.getEnv "DATAFORGE_CONFIG") words)
  report outcome
  return outcome.code.toUInt32
