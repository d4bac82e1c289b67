import SampleData.Json.Document
import SampleData.Json.Printer
import SampleData.Plan

/-!
# Stored plans

A plan is stored as a JSON object. Reading checks the form and nothing else: names may be blank or
repeated, a strategy need not fit its kind, a range may be reversed.

Each part may be given as an object or as the array of what it holds, in order. In an object the
known keys stand once each, in any order, and other keys do not count; what stands under them is
not examined, except inside a strategy, which is read as a whole before its type is known.
-/

namespace SampleData

/-! ## Writing -/

/-- A constant as JSON. -/
def Scalar.toJson : Scalar → Json
  | .integer n => .integer n.toInt
  | .text s => .text s

/-- A strategy as JSON, its type first. -/
def Strategy.toJson : Strategy → Json
  | .random => .object [("type", .text "random")]
  | .list values => .object [("type", .text "list"), ("values", .array (values.map Scalar.toJson))]
  | .range low high =>
    .object [("type", .text "range"), ("low", .integer low.toInt), ("high", .integer high.toInt)]
  | .fixed value => .object [("type", .text "static"), ("value", value.toJson)]
  | .empty => .object [("type", .text "empty")]

/-- A descriptor as JSON. -/
def Descriptor.toJson (d : Descriptor) : Json :=
  .object [("name", .text d.name), ("kind", .text d.kind.storedName),
    ("strategy", d.strategy.toJson)]

/-- A plan as JSON. -/
def Plan.toJson (p : Plan) : Json :=
  .object [("fields", .array (p.fields.map Descriptor.toJson))]

/-! ## Reading -/

open Json

/-- A signed 64-bit number. -/
def Scalar.readInteger? : Json → Option Int64
  | .integer n => Text.toInt64? n
  | _ => none

/-- A constant: a number or a text. -/
def Scalar.ofJson? : Json → Option Scalar
  | .text s => some (.text s)
  | other => (Scalar.readInteger? other).map .integer

/-- All constants, or nothing. -/
def Scalar.ofJsonList? : List Json → Option (List Scalar)
  | [] => some []
  | v :: vs =>
    match Scalar.ofJson? v with
    | none => none
    | some s => (Scalar.ofJsonList? vs).map (s :: ·)

/-- The value of a key that stands exactly once. -/
def only? {κ α : Type} [DecidableEq κ] (key : κ) (members : List (κ × α)) : Option α :=
  match members.filter fun m => m.1 = key with
  | [(_, v)] => some v
  | _ => none

/-- The constants of a list. -/
def Strategy.readValues? : Json → Option Strategy
  | .array items => (Scalar.ofJsonList? items).map .list
  | _ => none

/-- The strategy of a type, its parts given by name. Parts that the type does not have do not
count. -/
def Strategy.ofMembers? (type : String) (members : List (String × Json)) : Option Strategy :=
  if type = "random" then some .random
  else if type = "empty" then some .empty
  else if type = "list" then (only? "values" members).bind readValues?
  else if type = "range" then
    match (only? "low" members).bind Scalar.readInteger?,
      (only? "high" members).bind Scalar.readInteger? with
    | some low, some high => some (.range low high)
    | _, _ => none
  else if type = "static" then ((only? "value" members).bind Scalar.ofJson?).map .fixed
  else none

/-- The strategy of a type, its parts given in order. -/
def Strategy.ofItems? (type : String) (items : List Json) : Option Strategy :=
  match items with
  | [] => if type = "random" then some .random else if type = "empty" then some .empty else none
  | [x] =>
    if type = "list" then readValues? x
    else if type = "static" then (Scalar.ofJson? x).map .fixed
    else none
  | [x, y] =>
    if type = "range" then
      match Scalar.readInteger? x, Scalar.readInteger? y with
      | some low, some high => some (.range low high)
      | _, _ => none
    else none
  | _ => none

/-- A strategy in which `depth` more arrays and objects may stand inside one another. -/
def Strategy.ofDocument? (depth : Nat) : Document → Option Strategy
  | .object members =>
    match depth with
    | 0 => none
    | depth + 1 =>
      match valuesOfMembers? depth members with
      | none => none
      | some ms =>
        match only? "type" ms with
        | some (.text type) => ofMembers? type (ms.filter fun m => m.1 ≠ "type")
        | _ => none
  | .array items =>
    match depth with
    | 0 => none
    | depth + 1 =>
      match valuesOfItems? depth items with
      | some (.text type :: rest) => ofItems? type rest
      | _ => none
  | _ => none

/-- A kind: its name, or an object whose one key is the name and whose value is null. -/
def Kind.ofDocument? : Document → Option Kind
  | .text (some s) => Kind.ofStoredName? s
  | .object [(some s, .null)] => Kind.ofStoredName? s
  | _ => none

/-- The parts of a descriptor. -/
def Descriptor.ofParts? (depth : Nat) (name kind strategy : Document) : Option Descriptor :=
  match name, Kind.ofDocument? kind, Strategy.ofDocument? depth strategy with
  | .text (some name), some kind, some strategy =>
    some { name := name, kind := kind, strategy := strategy }
  | _, _, _ => none

/-- Every key is whole. -/
def wholeKeys (members : List (Option String × Document)) : Bool :=
  members.all fun m => m.1.isSome

/-- A descriptor. -/
def Descriptor.ofDocument? (depth : Nat) : Document → Option Descriptor
  | .object members =>
    if wholeKeys members then
      match only? (some "name") members, only? (some "kind") members,
        only? (some "strategy") members with
      | some name, some kind, some strategy => ofParts? (depth - 1) name kind strategy
      | _, _, _ => none
    else none
  | .array [name, kind, strategy] => ofParts? (depth - 1) name kind strategy
  | _ => none

/-- All descriptors, or nothing. -/
def Descriptor.ofDocuments? (depth : Nat) : List Document → Option (List Descriptor)
  | [] => some []
  | d :: ds =>
    match Descriptor.ofDocument? depth d with
    | none => none
    | some x => (Descriptor.ofDocuments? depth ds).map (x :: ·)

/-- The descriptors of a plan. -/
def Plan.ofFields? (depth : Nat) : Document → Option Plan
  | .array items =>
    (Descriptor.ofDocuments? (depth - 1) items).map fun fields => { fields := fields }
  | _ => none

/-- A plan. -/
def Plan.ofDocument? (depth : Nat) : Document → Option Plan
  | .object members =>
    if wholeKeys members then
      (only? (some "fields") members).bind (Plan.ofFields? (depth - 1))
    else none
  | .array [fields] => Plan.ofFields? (depth - 1) fields
  | _ => none

/-- The plan that a text stores. -/
def Plan.ofText? (text : String) : Option Plan :=
  (Document.ofText? text).bind (Plan.ofDocument? maxDepth)

/-- The descriptor that a text stores. -/
def Descriptor.ofText? (text : String) : Option Descriptor :=
  (Document.ofText? text).bind (Descriptor.ofDocument? maxDepth)

/-- The constant that a text stores. -/
def Scalar.ofText? (text : String) : Option Scalar :=
  (Json.ofText text).toOption.bind Scalar.ofJson?

end SampleData
