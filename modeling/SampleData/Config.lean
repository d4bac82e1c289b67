import SampleData.Disk
import SampleData.Naming
import SampleData.Text.Causes
import SampleData.Toml.Document

/-!
# Configurations

A configuration holds what a run uses where the command line is silent. It is kept as a TOML
document with two sections; a section or a key that is missing stands for the built-in value, and
keys of other names are let be. Values are looked at in the order of the document, and the first one
that does not fit is told. Writing gives a document that reads back as the same configuration;
a number that TOML cannot hold, one of 2⁶³ or more, cannot be written.
-/

namespace SampleData

open Text

/-- What is used where the command line is silent. -/
structure Config where
  filesCount : UInt64
  fileName : String
  scheme : NameScheme
  dataLines : UInt64
  workers : UInt64
  /-- The text of a schema, or the path of a file that holds one. -/
  schema : String
deriving DecidableEq, Repr

/-! ## Errors -/

/-- Why there is no configuration, or no file of one. -/
inductive ConfigError where
  /-- The text is broken at a position, or what stands there does not fit. -/
  | invalid (p : Position)
  | invalidFile (path : String) (p : Position)
  | unreadable (path : String) (e : OsError)
  | unwritable (path : String) (e : OsError)
  /-- A number is too large to be written. -/
  | oversized
deriving DecidableEq, Repr

namespace ConfigError

/-- What is said of a text that is no configuration. -/
def invalidCauses (p : Position) : List Cause :=
  [.plain "Failed to parse configuration TOML", .toml (Toml.faultMessage p)]

/-- The error with what is behind it. -/
def causes : ConfigError → List Cause
  | .invalid p => invalidCauses p
  | .invalidFile path p => .plain ("Invalid config file: " ++ path) :: invalidCauses p
  | .unreadable path e => [.plain ("Failed to read config file: " ++ path), .plain e.message]
  | .unwritable path e => [.plain ("Failed to write config file: " ++ path), .plain e.message]
  | .oversized =>
    [.plain "Failed to serialize configuration", .plain "out-of-range value for u64 type"]

end ConfigError

namespace Config

/-- The built-in values. -/
def builtin : Config where
  filesCount := 10
  fileName := "generated_data"
  scheme := .count
  dataLines := 1000
  workers := 1
  schema :=
    "\x7b\"id\": \"int:rand\", \"timestamp\": \"timestamp:\", \"value\": \"str:rand\"\x7d"

/-! ## Reading -/

/-- The keys of the first section, in the order in which values without keys stand for them. -/
def defaultsKeys : List String :=
  ["files_count", "file_name", "file_prefix", "data_lines", "multiprocessing"]

/-- The keys of the second section. -/
def schemaKeys : List String := ["default_schema"]

/-- What stands in the place of a section: values under keys, or one after the other. A moment
stands for an empty section. -/
def sectionEntries (keys : List String) (e : Entry Toml) : Except Place Toml.Members :=
  let listed (items : List (Place × Toml)) : Toml.Members :=
    (keys.zip items).map fun p =>
      { key := p.1, keyPlace := p.2.1, value := p.2.2, valuePlace := p.2.1 }
  match e.value with
  | .table _ ms => .ok ms
  | .array items => .ok (listed items)
  | .tables items => .ok (listed (items.map fun i => (i.1, .table .header i.2)))
  | .moment => .ok []
  | _ => .error e.place

/-- A number that is not negative. -/
def numberOf (e : Entry Toml) : Except Place UInt64 :=
  match e.value with
  | .integer n => if 0 ≤ n then .ok (UInt64.ofNat n.toNat) else .error e.place
  | _ => .error e.place

/-- A text. -/
def textOf (e : Entry Toml) : Except Place String :=
  match e.value with
  | .text s => .ok s
  | _ => .error e.place

/-- An array or a table with nothing in it. -/
def isHollow : Toml → Bool
  | .array items => items.isEmpty
  | .table _ ms => ms.isEmpty
  | _ => false

/-- The scheme of a word that stands at a place. -/
def schemeOfWord (word : String) (place : Place) : Except Place NameScheme :=
  match NameScheme.ofWord? word with
  | some s => .ok s
  | none => .error place

/-- A scheme for names: its word, or a table in which the word is the only key and holds nothing. -/
def schemeOf (e : Entry Toml) : Except Place NameScheme :=
  match e.value with
  | .text s => schemeOfWord s e.place
  | .table _ [word] => do
    let s ← schemeOfWord word.key word.keyPlace
    if isHollow word.value then return s else throw (word.valuePlace.getD e.place)
  | _ => .error e.place

/-- The configuration with what stands under a key of the first section. -/
def setDefault (c : Config) (e : Entry Toml) : Except Place Config :=
  if e.key = "files_count" then (numberOf e).map fun n => { c with filesCount := n }
  else if e.key = "file_name" then (textOf e).map fun s => { c with fileName := s }
  else if e.key = "file_prefix" then (schemeOf e).map fun s => { c with scheme := s }
  else if e.key = "data_lines" then (numberOf e).map fun n => { c with dataLines := n }
  else if e.key = "multiprocessing" then (numberOf e).map fun n => { c with workers := n }
  else .ok c

/-- The configuration with what stands under a key of the second section. -/
def setSchema (c : Config) (e : Entry Toml) : Except Place Config :=
  if e.key = "default_schema" then (textOf e).map fun s => { c with schema := s } else .ok c

/-- The configuration with a section. -/
def setSection (c : Config) (e : Entry Toml) : Except Place Config := do
  if e.key = "defaults" then (← sectionEntries defaultsKeys e).foldlM setDefault c
  else if e.key = "schema" then (← sectionEntries schemaKeys e).foldlM setSchema c
  else return c

/-- The configuration of a document. -/
def ofMembers (ms : Toml.Members) : Except Place Config := ms.foldlM setSection builtin

/-- The configuration of a text, or the position of the first thing that is wrong with it. -/
def read (text : String) : Except Position Config :=
  (Toml.ofText text.toList >>= ofMembers).mapError (Toml.positionOf text.toList)

/-- The configuration of a text. -/
def ofText (text : String) : Except ConfigError Config := (read text).mapError .invalid

/-! ## Writing -/

/-- The comment at the top of a configuration. -/
def heading : String :=
  "# dataforge default configuration\n# Keys match the command line argument names\n\n"

/-- A text value. -/
def showText (s : String) : String := String.ofList (Toml.write s.toList)

/-- The numbers of a configuration can be written. -/
def IsWritable (c : Config) : Prop :=
  c.filesCount.toNat ≤ greatestInt64 ∧ c.dataLines.toNat ≤ greatestInt64 ∧
    c.workers.toNat ≤ greatestInt64

instance (c : Config) : Decidable c.IsWritable := by unfold IsWritable; infer_instance

/-- The sections of a configuration. -/
def body (c : Config) : String :=
  "[defaults]\n"
    ++ "files_count = " ++ showUInt64 c.filesCount ++ "\n"
    ++ "file_name = " ++ showText c.fileName ++ "\n"
    ++ "file_prefix = " ++ showText c.scheme.word ++ "\n"
    ++ "data_lines = " ++ showUInt64 c.dataLines ++ "\n"
    ++ "multiprocessing = " ++ showUInt64 c.workers ++ "\n"
    ++ "\n[schema]\n"
    ++ "default_schema = " ++ showText c.schema ++ "\n"

/-- The text of a configuration. -/
def toText (c : Config) : Except ConfigError String :=
  if c.IsWritable then .ok (heading ++ c.body) else .error .oversized

end Config

end SampleData
