import SampleData.Draw.ChaCha
import SampleData.Draw.Identifier
import SampleData.Moment
import SampleData.Plan
import SampleData.Record

/-!
# Generating records

The fields of a record are drawn in order from one source, so the source decides all values but
the moments, which are read off a clock that is handed in, each field with a reading of its own. A
field of constants, an empty field and a moment draw nothing.

A plan that was not compiled may hold a reversed range. There the record ends: the fields before it
are drawn, and no record comes of them.
-/

namespace SampleData

variable {σ : Type} [WordSource σ]

/-! ## Values and records -/

/-- The empty value of a kind. -/
def Value.emptyOf : Kind → Value
  | .text => .text ""
  | .integer | .timestamp => .null

/-- A value of a field. The kind decides first: a moment takes no notice of the strategy. -/
def Descriptor.draw (now : Binary64) (d : Descriptor) : Draw σ Value :=
  match d.kind, d.strategy with
  | .timestamp, _ => return .timestamp now
  | .text, .random => return .text (← drawUuid)
  | .integer, .random => return .integer (← drawInteger freeLow freeHigh)
  | _, .range low high => return .integer (← drawInteger low high)
  | _, .list values => return ((← drawChoice values).map Value.ofScalar).getD .null
  | _, .fixed value => return .ofScalar value
  | kind, .empty => return .emptyOf kind

namespace Descriptor

/-- A moment is the time, whatever the strategy. -/
@[simp] theorem draw_timestamp (name : String) (strategy : Strategy) (now : Binary64) :
    (draw now ⟨name, .timestamp, strategy⟩ : Draw σ Value) = return .timestamp now := rfl

variable {kind : Kind} (h : kind ≠ .timestamp) (name : String)

include h

/-- The range of a field that is no moment. -/
@[simp] theorem draw_range (low high : Int64) (now : Binary64) :
    (draw now ⟨name, kind, .range low high⟩ : Draw σ Value) =
      (do return .integer (← drawInteger low high)) := by
  cases kind with
  | timestamp => exact absurd rfl h
  | text | integer => rfl

/-- Its list. -/
@[simp] theorem draw_list (values : List Scalar) (now : Binary64) :
    (draw now ⟨name, kind, .list values⟩ : Draw σ Value) =
      (do return ((← drawChoice values).map Value.ofScalar).getD .null) := by
  cases kind with
  | timestamp => exact absurd rfl h
  | text | integer => rfl

/-- Its constant. -/
@[simp] theorem draw_fixed (value : Scalar) (now : Binary64) :
    (draw now ⟨name, kind, .fixed value⟩ : Draw σ Value) = return .ofScalar value := by
  cases kind with
  | timestamp => exact absurd rfl h
  | text | integer => rfl

/-- Its empty value. -/
@[simp] theorem draw_empty (now : Binary64) :
    (draw now ⟨name, kind, .empty⟩ : Draw σ Value) = return .emptyOf kind := by
  cases kind with
  | timestamp => exact absurd rfl h
  | text | integer => rfl

end Descriptor

/-- Values of fields, in order. -/
def drawFields (clock : Clock) : List Descriptor → Draw σ (List (String × Value))
  | [] => return []
  | d :: ds => do
    let v ← d.draw (clock 0)
    return (d.name, v) :: (← drawFields (clock.after 1) ds)

/-- A record of a plan. -/
def Plan.draw (clock : Clock) (p : Plan) : Draw σ Record :=
  return { fields := ← drawFields clock p.fields }

/-- Records of a plan, one after the other from one source. -/
def Plan.drawMany (clock : Clock) (p : Plan) : Nat → Draw σ (List Record)
  | 0 => return []
  | n + 1 => do
    let r ← p.draw clock
    return r :: (← p.drawMany (clock.after p.size) n)

/-! ## Generators -/

/-- A plan with a source to draw its records from. -/
structure Generator where
  plan : Plan
  source : ChaCha
deriving DecidableEq

namespace Generator

/-- The generator of a seed. -/
def ofSeed (plan : Plan) (seed : UInt64) : Generator :=
  { plan := plan, source := ChaCha.ofSeed seed }

/-- Draws from the generator's source. -/
def run {α : Type} (g : Generator) (d : Plan → Draw ChaCha α) : Except DrawFault α × Generator :=
  let (x, source) := (d g.plan).outcome g.source
  (x, { g with source := source })

/-- The next record. -/
def next (clock : Clock) (g : Generator) : Except DrawFault Record × Generator :=
  g.run fun p => p.draw clock

/-- The next `n` records. -/
def many (clock : Clock) (g : Generator) (n : Nat) : Except DrawFault (List Record) × Generator :=
  g.run fun p => p.drawMany clock n

end Generator

/-! ## Streams of a given length -/

/-- Records that a generator still has to give. A record that is not asked for is not drawn. -/
structure RecordStream where
  generator : Generator
  remaining : Nat

namespace RecordStream

/-- The stream of the next `n` records. -/
def of (g : Generator) (n : Nat) : RecordStream := { generator := g, remaining := n }

/-- The next record, or nothing for ever once all are given. -/
def next? (clock : Clock) (s : RecordStream) : Except DrawFault (Option Record) × RecordStream :=
  match s.remaining with
  | 0 => (.ok none, s)
  | n + 1 =>
    match s.generator.next clock with
    | (.ok r, g) => (.ok (some r), { generator := g, remaining := n })
    | (.error e, g) => (.error e, { generator := g, remaining := n })

/-- The next `k` records, or fewer if no more are left. -/
def take (clock : Clock) (s : RecordStream) : Nat → Except DrawFault (List Record) × RecordStream
  | 0 => (.ok [], s)
  | k + 1 =>
    match s.next? clock with
    | (.error e, s) => (.error e, s)
    | (.ok none, s) => (.ok [], s)
    | (.ok (some r), s) =>
      match s.take (clock.after s.generator.plan.size) k with
      | (.error e, s) => (.error e, s)
      | (.ok rs, s) => (.ok (r :: rs), s)

end RecordStream

end SampleData
