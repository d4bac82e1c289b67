import SampleData.CommandLine.Help
import SampleData.Config.File
import SampleData.Run

/-!
# The program

A command line is read, a configuration is loaded, settings are made of both and checked, and the
run is carried out. The exit code is 0 where all went well, 1 where it did not, and 2 where the
command line asks for nothing that could be done.
-/

namespace SampleData

open Text

/-- The name of the program. -/
def programName : String := "dataforge"

/-- The version of the program. -/
def programVersion : String := "0.1.0"

/-- Why the program has failed. -/
inductive ProgramError where
  | initConfig (e : ConfigError)
  | config (e : ConfigError)
  | merge (e : SettingsError)
  | settings (e : SettingsError)
  | run (e : RunError)
deriving DecidableEq, Repr

namespace ProgramError

/-- The error with what is behind it. -/
def causes : ProgramError → List Cause
  | .initConfig e => e.causes
  | .config e => .plain "Failed to load configuration" :: e.causes
  | .merge e => e.causes
  | .settings e => .plain "Invalid parameters" :: e.causes
  | .run e => e.causes

/-- The line that is printed of an error. -/
def line (e : ProgramError) : String := "Error: " ++ joinCauses e.causes

end ProgramError

/-- How the program ends. -/
inductive Outcome where
  | finished
  | failed (e : ProgramError)
  /-- The command line gave nothing to run. -/
  | refused (e : UsageError)
deriving DecidableEq, Repr

/-- The exit code. -/
def Outcome.code : Outcome → UInt8
  | .finished => 0
  | .failed _ => 1
  | .refused (.help _) | .refused .version => 0
  | .refused _ => 2

/-- Two lines across with a text between them. -/
def banner (text : String) : Action Unit :=
  let line := String.ofList (List.replicate 60 '=')
  tell [line, text, line]

/-- What is printed to standard output for a command line that gives nothing to run. -/
def UsageError.answer (named : Option String) : UsageError → String
  | .help long => helpText long named
  | .version => programName ++ " " ++ programVersion ++ "\n"
  | _ => ""

/-- Writes the built-in configuration to a file. -/
def Arguments.runInitConfig (a : Arguments) : Action Outcome := do
  match ← Config.init (a.config.getD Config.usualName) with
  | .error e => return .failed (.initConfig e)
  | .ok _ => return .finished

/-- Generates data as a command line and a configuration say. -/
def Arguments.runGenerate (cpus : UInt64) (a : Arguments) : Action Outcome := do
  banner (programName ++ " " ++ programVersion ++ " - test data generation")
  match ← Config.load a.config with
  | .error e => return .failed (.config e)
  | .ok config =>
    match Settings.merge a config with
    | .error e => return .failed (.merge e)
    | .ok settings =>
      match ← settings.validate cpus with
      | .error e => return .failed (.settings e)
      | .ok settings =>
        match ← settings.execute with
        | .error e => return .failed (.run e)
        | .ok _ =>
          banner "Data generation completed successfully"
          return .finished

/-- The program on a command line; `named` is the configuration file that the surroundings name. -/
def runProgram (cpus : UInt64) (named : Option String) (words : List String) : Action Outcome := do
  match Arguments.ofWords named words with
  | .error e =>
    if (e.answer named).isEmpty then return .refused e
    else
      discard (Action.request (.print (e.answer named)))
      return .refused e
  | .ok a => if a.initConfig then a.runInitConfig else a.runGenerate cpus

end SampleData
