import SampleData.Kind
import SampleData.Text.Blank

/-!
# Generation plans

A plan says for each field, in order, how its values come about. Any descriptor can be written
down, also one that no instruction gives (a range on a text field, an empty list, a reversed
range): plans are also read from stored text, where nothing is checked. `Descriptor.Sound` says
what holds of those that instructions give, and `Plan.WellFormed` what holds of whole plans.
-/

namespace SampleData

/-- How the values of a field come about. -/
inductive Strategy where
  /-- A fresh value for each record; the current time for a moment. -/
  | random
  /-- One of the values, each as likely as the others. -/
  | list (values : List Scalar)
  /-- A number between the bounds, both included. -/
  | range (low high : Int64)
  /-- The same value for each record. -/
  | fixed (value : Scalar)
  /-- The empty value of the kind. -/
  | empty
deriving DecidableEq, Repr

/-- One field of a plan. -/
structure Descriptor where
  name : String
  kind : Kind
  strategy : Strategy
deriving DecidableEq, Repr

/-- The fields in order. -/
structure Plan where
  fields : List Descriptor
deriving DecidableEq, Repr

/-! ## Descriptors that instructions give -/

/-- The strategy fits the kind, its range is not reversed and its list holds something. -/
def Strategy.Fits (k : Kind) : Strategy → Prop
  | .random => True
  | .list values => k ≠ .timestamp ∧ values ≠ [] ∧ ∀ v ∈ values, v.kind = k
  | .range low high => k = .integer ∧ low ≤ high
  | .fixed value => k ≠ .timestamp ∧ value.kind = k
  | .empty => k ≠ .timestamp

/-- The strategy of the descriptor fits its kind. -/
def Descriptor.Sound (d : Descriptor) : Prop :=
  d.strategy.Fits d.kind

namespace Plan

/-- The number of fields. -/
def size (p : Plan) : Nat := p.fields.length

/-- A plan without fields. -/
def isEmpty (p : Plan) : Bool := p.fields.isEmpty

/-- The field names in order. -/
def names (p : Plan) : List String := p.fields.map (·.name)

/-- The first field of a name. -/
def field? (p : Plan) (name : String) : Option Descriptor :=
  p.fields.find? fun d => d.name = name

/-- Some field holds the current time. -/
def hasTimestamp (p : Plan) : Bool := p.fields.any fun d => d.kind = .timestamp

/-- What holds of a plan that definitions give. -/
structure WellFormed (p : Plan) : Prop where
  /-- There is a field. -/
  nonempty : p.fields ≠ []
  /-- No name stands twice. -/
  distinct : p.names.Nodup
  /-- Something is left of each name without the blanks at its ends. -/
  named : ∀ n ∈ p.names, Text.trim n ≠ ""
  /-- Each strategy fits the kind of its field. -/
  sound : ∀ d ∈ p.fields, d.Sound

end Plan

end SampleData
