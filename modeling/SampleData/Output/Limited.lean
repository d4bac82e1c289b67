import SampleData.Output.Buffer

/-!
# A sink of limited room

The sink takes a chunk while all it has taken stays within the limit, and refuses it else; of a
chunk that it refuses it takes nothing.
-/

namespace SampleData

/-- What has been taken, and how many bytes it may be at most. -/
structure LimitedSink where
  limit : Nat
  taken : String
deriving DecidableEq, Repr

/-- The refusal of a chunk for which there is no room. -/
inductive LimitReached where
  | mk
deriving DecidableEq, Repr

namespace LimitedSink

/-- The sink that has taken nothing. -/
def ofLimit (limit : Nat) : LimitedSink := { limit := limit, taken := "" }

/-- Takes a chunk or refuses it. -/
def accept : Sink (StateM LimitedSink) LimitReached := fun chunk s =>
  if s.taken.utf8ByteSize + chunk.utf8ByteSize ≤ s.limit then
    (.ok (), { s with taken := s.taken ++ chunk })
  else (.error .mk, s)

end LimitedSink

end SampleData
