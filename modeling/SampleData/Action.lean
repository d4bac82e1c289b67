import SampleData.Disk
import SampleData.Draw.ChaCha
import SampleData.Moment

/-!
# Actions

What a run does is written down as data: an action is done, or it asks its surroundings for
something and goes on with the answer. The same action can then be carried out by the operating
system, be run on a disk that is a value (`World`), or take turns with others.

The requests are the steps at which surroundings can be seen or changed. Opening a file, appending
a chunk and closing it are steps of their own, so that runs which write at the same time can be
interleaved at them.
-/

namespace SampleData

/-! ## Log events -/

/-- How important a log event is. -/
inductive LogLevel where
  | debug
  | info
  | warn
deriving DecidableEq, Repr

/-- The word for a level. -/
def LogLevel.word : LogLevel → String
  | .debug => "DEBUG"
  | .info => "INFO"
  | .warn => "WARN"

/-- Something that is told to whoever watches. -/
structure LogEvent where
  level : LogLevel
  message : String
deriving DecidableEq, Repr

/-- The event as one line. -/
def LogEvent.line (e : LogEvent) : String := e.level.word ++ " " ++ e.message

/-! ## Requests -/

/-- What an action may ask for. -/
inductive Request where
  /-- What a path leads to, links followed. -/
  | kind (path : String)
  /-- The absolute path without links. -/
  | canonical (path : String)
  /-- The text of a file. -/
  | read (path : String)
  /-- The names inside a directory, in no order. -/
  | list (dir : String)
  /-- Taking a file away. -/
  | remove (path : String)
  /-- Opening a file for writing, its text gone; with `fresh`, nothing may be there. -/
  | create (path : String) (fresh : Bool)
  /-- A chunk at the end of an open file. -/
  | append (file : Location) (chunk : String)
  /-- Closing an open file. -/
  | close (file : Location)
  /-- The size of a file in bytes. -/
  | size (path : String)
  /-- A chunk for standard output. -/
  | print (chunk : String)
  | log (event : LogEvent)
  /-- The time of day. -/
  | now
  /-- A clock of nanoseconds that only goes forward. -/
  | timer
  /-- A key that nobody knows. -/
  | entropy

/-- What the answer to a request is. -/
abbrev Request.Answer : Request → Type
  | .kind _ => Except OsError FileKind
  | .canonical _ => Except OsError String
  | .read _ => Except OsError String
  | .list _ => Except OsError (List String)
  | .remove _ => Except OsError Unit
  | .create _ _ => Except OsError Location
  | .append _ _ => Except OsError Unit
  | .close _ => Unit
  | .size _ => Except OsError Nat
  | .print _ => Except OsError Unit
  | .log _ => Unit
  | .now => Moment
  | .timer => Nat
  | .entropy => ChaCha.Key

/-! ## Actions -/

/-- A result, or a request and what is done with its answer. -/
inductive Action (α : Type) : Type where
  | done (a : α)
  | ask (r : Request) (next : r.Answer → Action α)

namespace Action

variable {α β γ : Type}

/-- An action after another. -/
@[simp] def bind : Action α → (α → Action β) → Action β
  | .done a, f => f a
  | .ask r next, f => .ask r fun x => (next x).bind f

instance : Monad Action where
  pure := .done
  bind := bind

/-- The one request. -/
def request (r : Request) : Action r.Answer := .ask r .done

/-- Tells something. -/
def log (level : LogLevel) (message : String) : Action Unit :=
  request (.log { level := level, message := message })

/-- Tells something of ordinary weight. -/
def info (message : String) : Action Unit := log .info message

/-- What a path leads to exists. -/
def pathExists (path : String) : Action Bool := return (← request (.kind path)).isOk

/-- A path leads to something of a kind. -/
def isOfKind (k : FileKind) (path : String) : Action Bool := do
  match ← request (.kind path) with
  | .ok found => return found = k
  | .error _ => return false

/-- Doing nothing more changes no action. -/
@[simp] theorem bind_done (x : Action α) : x.bind .done = x := by
  induction x with
  | done a => rfl
  | ask r next ih => simp [bind, ih]

/-- Three actions in a row can be grouped either way. -/
theorem bind_assoc (x : Action α) (f : α → Action β) (g : β → Action γ) :
    (x.bind f).bind g = x.bind fun a => (f a).bind g := by
  induction x with
  | done a => rfl
  | ask r next ih => simp [bind, ih]

instance : LawfulMonad Action := LawfulMonad.mk' Action
  bind_done
  (fun _ _ => rfl)
  bind_assoc

end Action

/-! ## Surroundings as a value -/

/-- A disk, what has been told and printed, a clock that stands, and a source of keys. -/
structure World where
  disk : Disk
  logged : List LogEvent
  printed : String
  time : Moment
  keys : ChaCha

namespace World

/-- A key of eight words. -/
def drawKey (s : ChaCha) : ChaCha.Key × ChaCha :=
  let (a, s) := s.word
  let (b, s) := s.word
  let (c, s) := s.word
  let (d, s) := s.word
  let (e, s) := s.word
  let (f, s) := s.word
  let (g, s) := s.word
  let (h, s) := s.word
  (#v[a, b, c, d, e, f, g, h], s)

/-- The surroundings after a change of the disk that may be refused. -/
@[simp] def changed {α : Type} (w : World) : Except OsError (α × Disk) → Except OsError α × World
  | .ok (a, d) => (.ok a, { w with disk := d })
  | .error e => (.error e, w)

/-- The answer to a request, and the surroundings after it. -/
@[simp] def answer (w : World) : (r : Request) → r.Answer × World
  | .kind path => (w.disk.kind path, w)
  | .canonical path => (w.disk.canonical path, w)
  | .read path => (w.disk.read path, w)
  | .list dir => (w.disk.list dir, w)
  | .remove path => w.changed ((w.disk.remove path).map fun d => ((), d))
  | .create path fresh => w.changed (w.disk.create path fresh)
  | .append file chunk => w.changed ((w.disk.append file chunk).map fun d => ((), d))
  | .close _ => ((), w)
  | .size path => (w.disk.size path, w)
  | .print chunk => (.ok (), { w with printed := w.printed ++ chunk })
  | .log event => ((), { w with logged := w.logged ++ [event] })
  | .now => (w.time, w)
  | .timer => (0, w)
  | .entropy => ((drawKey w.keys).1, { w with keys := (drawKey w.keys).2 })

end World

/-- Carries an action out. -/
@[simp] def Action.run {α : Type} : Action α → World → α × World
  | .done a, w => (a, w)
  | .ask r next, w => (next (w.answer r).1).run (w.answer r).2

/-- One action after another is carried out so. -/
@[simp] theorem Action.run_bind {α β : Type} (x : Action α) (f : α → Action β) (w : World) :
    (x.bind f).run w = (f (x.run w).1).run (x.run w).2 := by
  induction x generalizing w with
  | done a => rfl
  | ask r next ih => simp [Action.bind, Action.run, ih]

end SampleData
