import SampleData.Draw.Source
import SampleData.Output.Buffer
import SampleData.Record

/-!
# JSON Lines

Each record is a line: its JSON text and a newline. Lines go through a buffer, so a sink that
refuses is noticed late, at the piece that no longer fits or at the last flush; the fault tells
which of the three it was, since they are reported differently.

Records may be at hand, or be asked for one at a time as their lines come up. In the second way no
record is drawn after the sink has refused, and a clock is read before and after each draw and each
line, so that the time for drawing is told apart from the time for writing.
-/

namespace SampleData

/-- What ends the writing of lines. -/
inductive LineFault (ε : Type) where
  /-- No record came of the draw. -/
  | draw (fault : DrawFault)
  /-- The sink refused during a record's text. -/
  | record (refusal : ε)
  /-- The sink refused during a newline. -/
  | newline (refusal : ε)
  /-- The sink refused the rest after the last line. -/
  | flush (refusal : ε)
deriving DecidableEq, Repr

namespace JsonLines

/-! ## The text -/

/-- The line of a record. -/
def line (r : Record) : String := r.text ++ "\n"

/-- The lines of records, one after the other. -/
def text (rs : List Record) : String := String.join (rs.map line)

variable {m : Type → Type} [Monad m] {ε : Type}

/-! ## Writing -/

/-- Writes the line of a record. -/
def writeRecord (sink : Sink m ε) (b : Buffer) (r : Record) :
    m (Except (LineFault ε) Unit × Buffer) := do
  match ← b.putAll sink r.pieces with
  | (.error e, b) => return (.error (.record e), b)
  | (.ok (), b) =>
    match ← b.put sink "\n" with
    | (.error e, b) => return (.error (.newline e), b)
    | (.ok (), b) => return (.ok (), b)

/-- Writes lines of records that are at hand. -/
def writeRecords (sink : Sink m ε) (b : Buffer) :
    List Record → m (Except (LineFault ε) Unit × Buffer)
  | [] => return (.ok (), b)
  | r :: rs => do
    match ← writeRecord sink b r with
    | (.ok (), b) => writeRecords sink b rs
    | (.error e, b) => return (.error e, b)

/-- Lines that were written: how many, and what the clock went on while their records were drawn
and while they were written. -/
structure Written where
  rows : Nat
  drawing : Nat
  writing : Nat
deriving DecidableEq, Repr

namespace Written

/-- No lines. -/
def none : Written := { rows := 0, drawing := 0, writing := 0 }

/-- One line more. -/
def add (w : Written) (drawing writing : Nat) : Written where
  rows := w.rows + 1
  drawing := w.drawing + drawing
  writing := w.writing + writing

end Written

/-- Does something and reads the clock before it, and after it unless it failed. -/
def timed {δ α β : Type} (clock : m Nat) (x : m (Except δ α × β)) :
    m (Except δ (α × Nat) × β) := do
  let started ← clock
  match ← x with
  | (.error e, b) => return (.error e, b)
  | (.ok a, b) =>
    let ended ← clock
    return (.ok (a, ended - started), b)

/-- Writes `n` lines of records that `next` gives, one at a time, behind those that were written. -/
def writeNext {γ : Type} (clock : m Nat) (sink : Sink m ε)
    (next : γ → m (Except DrawFault Record × γ)) :
    Nat → Written → γ → Buffer → m (Except (LineFault ε) Written × γ × Buffer)
  | 0, w, g, b => return (.ok w, g, b)
  | n + 1, w, g, b => do
    match ← timed clock (next g) with
    | (.error e, g) => return (.error (.draw e), g, b)
    | (.ok (r, drawing), g) =>
      match ← timed clock (writeRecord sink b r) with
      | (.ok ((), writing), b) => writeNext clock sink next n (w.add drawing writing) g b
      | (.error e, b) => return (.error e, g, b)

/-- Ends the writing: the rest is flushed after the last line, and handed on once more after a
fault. -/
def finish {α : Type} (sink : Sink m ε) (outcome : Except (LineFault ε) α) (b : Buffer) :
    m (Except (LineFault ε) α) := do
  match outcome with
  | .error e =>
    b.abandon sink
    return .error e
  | .ok a =>
    match ← b.flush sink with
    | (.ok (), _) => return .ok a
    | (.error e, b) =>
      b.abandon sink
      return .error (.flush e)

/-- Writes all lines of records that are at hand; how many they are. -/
def write (sink : Sink m ε) (rs : List Record) : m (Except (LineFault ε) Nat) := do
  let (outcome, b) ← writeRecords sink .empty rs
  return (← finish sink outcome b).map fun _ => rs.length

/-- Writes `n` lines of records that `next` gives; what is left to draw from comes back. -/
def writeTimed {γ : Type} (clock : m Nat) (sink : Sink m ε)
    (next : γ → m (Except DrawFault Record × γ)) (n : Nat) (g : γ) :
    m (Except (LineFault ε) Written × γ) := do
  let (outcome, g, b) ← writeNext clock sink next n .none g .empty
  return (← finish sink outcome b, g)

/-- Writes lines so where nobody asks for the time: the clock stands. -/
def writeFrom {γ : Type} (sink : Sink m ε) (next : γ → m (Except DrawFault Record × γ)) (n : Nat)
    (g : γ) : m (Except (LineFault ε) Nat × γ) := do
  let (outcome, g) ← writeTimed (pure 0) sink next n g
  return (outcome.map (·.rows), g)

end JsonLines

end SampleData
