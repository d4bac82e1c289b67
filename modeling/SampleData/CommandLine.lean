import SampleData.Naming
import SampleData.Text.Cut

/-!
# The command line

A command line gives a directory and options. Long options start with two hyphens and take their
value from behind an equals sign or from the next word; a word that starts with a hyphen is never
taken as a value that way, unless it is the hyphen alone. Two hyphens alone end the options. Each
option may be given once, under its name or under the name with underscores.

Words are looked at in order. The value of an option is examined when the next option or the
directory begins, so an unknown word directly behind a bad value is what is complained of.
-/

namespace SampleData

open Text

/-! ## What can be given -/

/-- Something that has a value. -/
inductive Parameter where
  | path
  | filesCount
  | fileName
  | scheme
  | dataLines
  | schema
  | workers
  | seed
  | config
deriving DecidableEq, Repr

/-- An option without a value. -/
inductive Switch where
  | clearPath
  | initConfig
  | help (long : Bool)
  | version
deriving DecidableEq, Repr

/-- What a long option stands for. -/
inductive LongOption where
  | value (p : Parameter)
  | switch (s : Switch)
deriving DecidableEq, Repr

/-- The long options. -/
def longOptions : List (String × LongOption) :=
  [("files-count", .value .filesCount), ("files_count", .value .filesCount),
   ("file-name", .value .fileName), ("file_name", .value .fileName),
   ("file-prefix", .value .scheme), ("file_prefix", .value .scheme),
   ("data-lines", .value .dataLines), ("data_lines", .value .dataLines),
   ("clear-path", .switch .clearPath), ("clear_path", .switch .clearPath),
   ("data-schema", .value .schema), ("data_schema", .value .schema),
   ("multiprocessing", .value .workers),
   ("seed", .value .seed),
   ("config", .value .config),
   ("init-config", .switch .initConfig), ("init_config", .switch .initConfig),
   ("help", .switch (.help true)),
   ("version", .switch .version)]

/-- What a name stands for; names are not shortened. -/
def longOption? (name : String) : Option LongOption :=
  (longOptions.find? fun o => o.1 = name).map (·.2)

/-- What a command line gives. -/
structure Arguments where
  path : Option String
  filesCount : Option UInt64
  fileName : Option String
  scheme : Option NameScheme
  dataLines : Option UInt64
  clearPath : Bool
  /-- The text of a schema, or the path of a file that holds one. -/
  schema : Option String
  workers : Option UInt64
  seed : Option UInt64
  /-- The path of a configuration file. -/
  config : Option String
  initConfig : Bool
deriving DecidableEq, Repr

/-- The empty command line. -/
def Arguments.empty : Arguments where
  path := none
  filesCount := none
  fileName := none
  scheme := none
  dataLines := none
  clearPath := false
  schema := none
  workers := none
  seed := none
  config := none
  initConfig := false

/-- Why a command line gives nothing to run. -/
inductive UsageError where
  | missingPath
  | unknownArgument
  /-- A value that is missing, empty where it must not be, or not among the possible ones. -/
  | invalidValue
  | invalidNumber
  | repeatedOption
  /-- A value for an option that takes none. -/
  | unneededValue
  /-- Help is asked for, the short or the long one. -/
  | help (long : Bool)
  | version
deriving DecidableEq, Repr

namespace Arguments

/-! ## Values -/

/-- Gives a parameter its value, once. -/
def once {α : Type} (given : Option α) (value : Except UsageError α) (set : α → Arguments) :
    Except UsageError Arguments :=
  if given.isSome then .error .repeatedOption else value.map set

/-- A number. -/
def number (s : String) : Except UsageError UInt64 :=
  match readUInt64? s.toList with
  | some n => .ok n
  | none => .error .invalidNumber

/-- A path, which must not be empty. -/
def nonEmpty (s : String) : Except UsageError String :=
  if s.isEmpty then .error .invalidValue else .ok s

/-- A scheme for names. -/
def schemeOf (s : String) : Except UsageError NameScheme :=
  match NameScheme.ofWord? s with
  | some x => .ok x
  | none => .error .invalidValue

/-- Gives a parameter its value. -/
def assign (a : Arguments) (p : Parameter) (v : String) : Except UsageError Arguments :=
  match p with
  | .path => once a.path (nonEmpty v) fun x => { a with path := some x }
  | .filesCount => once a.filesCount (number v) fun x => { a with filesCount := some x }
  | .fileName => once a.fileName (.ok v) fun x => { a with fileName := some x }
  | .scheme => once a.scheme (schemeOf v) fun x => { a with scheme := some x }
  | .dataLines => once a.dataLines (number v) fun x => { a with dataLines := some x }
  | .schema => once a.schema (.ok v) fun x => { a with schema := some x }
  | .workers => once a.workers (number v) fun x => { a with workers := some x }
  | .seed => once a.seed (number v) fun x => { a with seed := some x }
  | .config => once a.config (nonEmpty v) fun x => { a with config := some x }

/-- Sets a switch. -/
def turnOn (a : Arguments) : Switch → Except UsageError Arguments
  | .clearPath =>
    if a.clearPath then .error .repeatedOption else .ok { a with clearPath := true }
  | .initConfig =>
    if a.initConfig then .error .repeatedOption else .ok { a with initConfig := true }
  | .help long => .error (.help long)
  | .version => .error .version

/-! ## Words -/

/-- A command line that is being read. -/
structure Draft where
  done : Arguments
  /-- The parameter that came last, with its value unless that is still to come. -/
  pending : Option (Parameter × Option String)
  /-- The directory has been given. -/
  pathSeen : Bool
  /-- Two hyphens have ended the options. -/
  optionsEnded : Bool

namespace Draft

/-- The draft of which nothing is read. -/
def start : Draft :=
  { done := Arguments.empty, pending := none, pathSeen := false, optionsEnded := false }

/-- Examines the value of the parameter that came last. -/
def settle (d : Draft) : Except UsageError Draft :=
  match d.pending with
  | none => .ok d
  | some (_, none) => .error .invalidValue
  | some (p, some v) => (d.done.assign p v).map fun a => { d with done := a, pending := none }

/-- Takes the directory. -/
def takePath (d : Draft) (word : String) : Except UsageError Draft :=
  if d.pathSeen then .error .unknownArgument
  else d.settle.map fun d => { d with pending := some (.path, some word), pathSeen := true }

/-- Sets a switch. -/
def takeSwitch (d : Draft) (s : Switch) : Except UsageError Draft := do
  let d ← d.settle
  return { d with done := ← d.done.turnOn s }

/-- Takes a long option with the value behind its equals sign, if there is one. -/
def takeLong (d : Draft) (name : String) (value : Option String) : Except UsageError Draft :=
  match longOption? name, value with
  | none, _ => .error .unknownArgument
  | some (.value p), some v => do
    let d ← d.settle
    return { d with done := ← d.done.assign p v }
  | some (.value p), none => d.settle.map fun d => { d with pending := some (p, none) }
  | some (.switch _), some _ => .error .unneededValue
  | some (.switch s), none => d.takeSwitch s

/-- Takes an option of a single letter; what is behind the letter is not looked at. -/
def takeShort (d : Draft) (letter : Char) : Except UsageError Draft :=
  if letter = 'h' then d.takeSwitch (.help false)
  else if letter = 'V' then d.takeSwitch .version
  else .error .unknownArgument

/-- Takes a word that is no option. -/
def takePlain (d : Draft) (word : String) : Except UsageError Draft :=
  match d.pending with
  | some (p, none) => .ok { d with pending := some (p, some word) }
  | _ => d.takePath word

/-- Takes a word. -/
def take (d : Draft) (word : String) : Except UsageError Draft :=
  if d.optionsEnded then d.takePath word
  else match word.toList with
    | ['-', '-'] => .ok { d with optionsEnded := true }
    | '-' :: '-' :: rest =>
      match cutAtFirst '=' rest with
      | some (name, value) => d.takeLong (String.ofList name) (some (String.ofList value))
      | none => d.takeLong (String.ofList rest) none
    | '-' :: letter :: _ => d.takeShort letter
    | _ => d.takePlain word

/-- Takes words. -/
def takeAll (d : Draft) : List String → Except UsageError Draft
  | [] => .ok d
  | word :: rest =>
    match d.take word with
    | .ok d => d.takeAll rest
    | .error e => .error e

end Draft

/-! ## The whole -/

/-- The arguments with the configuration file that the surroundings name, where the command line
names none. -/
def withDefaultConfig (a : Arguments) (named : Option String) : Except UsageError Arguments :=
  match a.config, named with
  | none, some path => a.assign .config path
  | _, _ => .ok a

/-- The arguments of a command line. The directory may be missing only where a configuration file
is all that is asked for. -/
def ofWords (named : Option String) (words : List String) : Except UsageError Arguments := do
  let d ← Draft.start.takeAll words
  let d ← d.settle
  let a ← d.done.withDefaultConfig named
  if a.path.isNone ∧ !a.initConfig then .error .missingPath else return a

end Arguments

end SampleData
