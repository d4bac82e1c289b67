/-!
# Buffered output

Text is handed on in chunks. A sink takes each chunk whole or refuses it, and a buffer of 8192
bytes stands before it: pieces are collected until one no longer fits, then what is held goes out
as one chunk. A piece as large as the buffer goes out as a chunk of its own. A piece that fills the
buffer to the last byte stays in it until the next one comes.

What the sink refuses stays held, so nothing is lost or written twice when the chunk is handed on
again.
-/

namespace SampleData

/-- What takes chunks of text: in an environment `m`, with refusals `ε`. -/
abbrev Sink (m : Type → Type) (ε : Type) : Type := String → m (Except ε Unit)

/-- The sink that takes every chunk and keeps it behind the others. -/
def Sink.gather {ε : Type} : Sink (StateM String) ε := fun chunk taken => (.ok (), taken ++ chunk)

/-- The text that waits to be handed on. -/
structure Buffer where
  held : String
deriving DecidableEq, Repr

namespace Buffer

/-- The buffer that holds nothing. -/
def empty : Buffer := { held := "" }

/-- How many bytes a buffer holds. -/
def capacity : Nat := 8192

/-- How many bytes still fit. -/
def room (b : Buffer) : Nat := capacity - b.held.utf8ByteSize

variable {m : Type → Type} [Monad m] {ε : Type}

/-- Hands on what is held. A buffer that holds nothing asks nothing of the sink. -/
def flush (sink : Sink m ε) (b : Buffer) : m (Except ε Unit × Buffer) :=
  if b.held.isEmpty then return (.ok (), b)
  else do
    match ← sink b.held with
    | .ok () => return (.ok (), empty)
    | .error e => return (.error e, b)

/-- Takes a piece for which there is room, or hands it on if it is as large as the buffer. -/
def takePiece (sink : Sink m ε) (b : Buffer) (piece : String) : m (Except ε Unit × Buffer) :=
  if capacity ≤ piece.utf8ByteSize then return (← sink piece, b)
  else return (.ok (), { held := b.held ++ piece })

/-- Takes a piece; what is held goes out first if the piece does not fit beside it. -/
def put (sink : Sink m ε) (b : Buffer) (piece : String) : m (Except ε Unit × Buffer) :=
  if b.room < piece.utf8ByteSize then do
    match ← b.flush sink with
    | (.ok (), b) => b.takePiece sink piece
    | (.error e, b) => return (.error e, b)
  else b.takePiece sink piece

/-- Takes pieces until the sink refuses. -/
def putAll (sink : Sink m ε) (b : Buffer) : List String → m (Except ε Unit × Buffer)
  | [] => return (.ok (), b)
  | piece :: rest => do
    match ← b.put sink piece with
    | (.ok (), b) => b.putAll sink rest
    | (.error e, b) => return (.error e, b)

/-- Gives the buffer up: what is held is handed on once more, whatever the sink says to it. -/
def abandon (sink : Sink m ε) (b : Buffer) : m Unit := do
  let _ ← b.flush sink
  return ()

end Buffer

end SampleData
