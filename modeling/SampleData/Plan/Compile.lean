import SampleData.Instruction
import SampleData.Plan

/-!
# From instructions to a plan

A field definition is a name and an instruction. Definitions are looked at in order, and the first
one that is wrong ends the matter: a blank name comes before a repeated one, and a repeated one
before anything that is wrong with its instruction. A field that holds the current time takes any
strategy and ignores it; that is worth a warning unless the strategy is blank.
-/

namespace SampleData

open Text Instruction

/-! ## Errors and warnings -/

/-- Why definitions give no plan. Each cause but the last carries the field it is about and the
instruction as it stands. -/
inductive CompileError where
  | malformedInstruction (field instruction : String)
  | unknownKind (field kind instruction : String)
  | rangeOnNonInteger (field : String) (kind : Kind) (instruction : String)
  | invalidRange (field instruction : String) (fault : RangeFault)
  | malformedList (field instruction : String) (fault : ListFault)
  | typeMismatchInList (field element : String) (kind : Kind) (instruction : String)
  | invalidStaticValue (field value : String) (kind : Kind) (instruction : String)
  | emptyFieldName (field instruction : String)
  | duplicateField (field instruction : String)
  | emptySchema
deriving DecidableEq, Repr

namespace CompileError

/-- The field the error is about. -/
def field? : CompileError → Option String
  | .malformedInstruction f _ | .unknownKind f _ _ | .rangeOnNonInteger f _ _
  | .invalidRange f _ _ | .malformedList f _ _ | .typeMismatchInList f _ _ _
  | .invalidStaticValue f _ _ _ | .emptyFieldName f _ | .duplicateField f _ => some f
  | .emptySchema => none

/-- The error in words. -/
def message : CompileError → String
  | .malformedInstruction f i =>
    "Field '" ++ f ++ "': instruction must have the form 'kind:strategy', got '" ++ i ++ "'"
  | .unknownKind f k i =>
    "Field '" ++ f ++ "': unknown kind '" ++ k ++ "' in '" ++ i ++ "' (expected one of: "
      ++ ", ".intercalate (Kind.all.map Kind.keyword) ++ ")"
  | .rangeOnNonInteger f k i =>
    "Field '" ++ f ++ "': range strategy requires kind 'int', got '" ++ k.keyword ++ "' in '"
      ++ i ++ "'"
  | .invalidRange f i e => "Field '" ++ f ++ "': invalid range in '" ++ i ++ "': " ++ e.message
  | .malformedList f i e => "Field '" ++ f ++ "': malformed list in '" ++ i ++ "': " ++ e.message
  | .typeMismatchInList f x k i =>
    "Field '" ++ f ++ "': list element '" ++ x ++ "' is not a valid " ++ k.keyword
      ++ " value in '" ++ i ++ "'"
  | .invalidStaticValue f v k i =>
    "Field '" ++ f ++ "': '" ++ v ++ "' is not a valid " ++ k.keyword ++ " value in '" ++ i ++ "'"
  | .emptyFieldName _ i => "Field name cannot be empty (instruction: '" ++ i ++ "')"
  | .duplicateField f i =>
    "Field '" ++ f ++ "' is defined more than once (second definition: '" ++ i ++ "')"
  | .emptySchema => "Schema cannot be empty"

end CompileError

/-- A strategy that a field of the current time ignores, without the blanks around it. -/
structure Warning where
  field : String
  strategy : String
deriving DecidableEq, Repr

/-- The warning in words. -/
def Warning.message (w : Warning) : String :=
  "Field '" ++ w.field ++ "': timestamp fields always use the current time, ignoring '"
    ++ w.strategy ++ "'"

/-! ## One field -/

/-- A constant of a kind: numbers are read without the blanks around them, texts stand as they
are, and there are no constant moments. -/
def Scalar.read? (kind : Kind) (text : String) : Option Scalar :=
  match kind with
  | .integer => (readInt64? (trimChars text.toList)).map .integer
  | .text => some (.text text)
  | .timestamp => none

/-- The elements as constants, or the first one that is none. -/
def Scalar.readAll (kind : Kind) : List String → Except String (List Scalar)
  | [] => .ok []
  | x :: xs =>
    match Scalar.read? kind x with
    | none => .error x
    | some v => (Scalar.readAll kind xs).map (v :: ·)

/-- The strategy of a field that does not hold the current time. -/
def Strategy.compile (name instruction : String) (kind : Kind) (strategy : String) :
    Except CompileError Strategy :=
  match classify strategy with
  | .error e => .error (.malformedList name instruction e)
  | .ok .empty => .ok .empty
  | .ok .random => .ok .random
  | .ok (.range arguments) =>
    if kind ≠ .integer then .error (.rangeOnNonInteger name kind instruction)
    else match readRange arguments with
      | .error e => .error (.invalidRange name instruction e)
      | .ok (low, high) => .ok (.range low high)
  | .ok (.list items) =>
    match Scalar.readAll kind items with
    | .error x => .error (.typeMismatchInList name x kind instruction)
    | .ok values => .ok (.list values)
  | .ok (.literal text) =>
    match Scalar.read? kind text with
    | none => .error (.invalidStaticValue name text kind instruction)
    | some v => .ok (.fixed v)

/-- The descriptor of one definition, and the warning it is worth. -/
def Descriptor.compile (name instruction : String) :
    Except CompileError (Descriptor × Option Warning) :=
  match split instruction with
  | none => .error (.malformedInstruction name instruction)
  | some (keyword, strategy) =>
    match Kind.ofKeyword? keyword with
    | none => .error (.unknownKind name keyword instruction)
    | some .timestamp =>
      let ignored := trim strategy
      .ok ({ name := name, kind := .timestamp, strategy := .random },
        if ignored.isEmpty then none else some { field := name, strategy := ignored })
    | some kind =>
      match Strategy.compile name instruction kind strategy with
      | .error e => .error e
      | .ok s => .ok ({ name := name, kind := kind, strategy := s }, none)

/-! ## All fields -/

/-- The definitions in order, given the names that stand before them. -/
def Plan.compileFrom (seen : List String) :
    List (String × String) → Except CompileError (List Descriptor × List Warning)
  | [] => .ok ([], [])
  | (name, instruction) :: rest =>
    if isAllBlank name then .error (.emptyFieldName name instruction)
    else if name ∈ seen then .error (.duplicateField name instruction)
    else match Descriptor.compile name instruction with
      | .error e => .error e
      | .ok (d, w) =>
        (Plan.compileFrom (name :: seen) rest).map fun p => (d :: p.1, w.toList ++ p.2)

/-- The plan of a list of definitions, with its warnings in order. -/
def Plan.compile (definitions : List (String × String)) :
    Except CompileError (Plan × List Warning) :=
  if definitions.isEmpty then .error .emptySchema
  else (Plan.compileFrom [] definitions).map fun p => ({ fields := p.1 }, p.2)

end SampleData
