import SampleData.Action

/-!
# Actions that take turns

Actions that run at the same time in one world take turns at their requests: at each turn one of
them makes its next request and gets the answer. Whose turn it is, what the timer shows and whether
the system refuses what is asked for, is nobody's choice here; a run is given by its turns, and what
holds of the runs of all lists of turns holds whatever the schedule.

A refusal may have reasons of which a disk knows nothing, such as a quota. It leaves the world as
it was.
-/

namespace SampleData

/-! ## Refusals -/

/-- The answer with which a request is refused, if it is one that can be. -/
@[simp] def Request.refusal? (e : OsError) : (r : Request) → Option r.Answer
  | .kind _ | .canonical _ | .read _ | .list _ | .remove _ | .create _ _ | .append _ _ | .size _
  | .print _ => some (.error e)
  | .close _ | .log _ | .now | .timer | .entropy => none

/-- An answer refuses what was asked for. -/
@[simp] def Request.isRefused : (r : Request) → r.Answer → Bool
  | .kind _, a => !a.isOk
  | .canonical _, a => !a.isOk
  | .read _, a => !a.isOk
  | .list _, a => !a.isOk
  | .remove _, a => !a.isOk
  | .create _ _, a => !a.isOk
  | .append _ _, a => !a.isOk
  | .size _, a => !a.isOk
  | .print _, a => !a.isOk
  | .close _, _ | .log _, _ | .now, _ | .timer, _ | .entropy, _ => false

/-! ## Turns -/

/-- One turn: whose it is, what the timer shows, and with what the system refuses. -/
structure Turn where
  actor : Nat
  timer : Nat
  refusal : Option OsError
deriving DecidableEq, Repr

namespace Turn

/-- A turn in which the system refuses nothing of its own accord. -/
def plain (actor : Nat) : Turn := { actor := actor, timer := 0, refusal := none }

end Turn

/-- The answer to a request in a turn, and the world after it. -/
def World.reply (w : World) (t : Turn) : (r : Request) → r.Answer × World
  | .timer => (t.timer, w)
  | r =>
    match t.refusal.bind fun e => r.refusal? e with
    | some a => (a, w)
    | none => w.answer r

/-- What happened at a turn. -/
structure Event where
  actor : Nat
  request : Request
  refused : Bool

/-- The result of an action that is done. -/
def Action.result? {α : Type} : Action α → Option α
  | .done a => some a
  | .ask _ _ => none

/-- Actions in one world. -/
structure Crew (α : Type) where
  actions : List (Action α)
  world : World

namespace Crew

variable {α : Type}

/-- One turn. Nothing happens if the actor is done, or if there is none. -/
def turn (c : Crew α) (t : Turn) : Option Event × Crew α :=
  match c.actions[t.actor]? with
  | some (.ask r next) =>
    let (a, w) := c.world.reply t r
    (some { actor := t.actor, request := r, refused := r.isRefused a },
      { actions := c.actions.set t.actor (next a), world := w })
  | _ => (none, c)

/-- Turns, one after the other: what happened, and what became of the crew. -/
def run (c : Crew α) : List Turn → List Event × Crew α
  | [] => ([], c)
  | t :: ts =>
    let (e, c) := c.turn t
    let (es, c) := c.run ts
    (e.toList ++ es, c)

/-- The results of all, if everyone is done. -/
def results? (c : Crew α) : Option (List α) := c.actions.mapM Action.result?

/-- Everyone is done, with these results. -/
def IsDone (c : Crew α) (results : List α) : Prop := c.results? = some results

instance [DecidableEq α] (c : Crew α) (results : List α) : Decidable (c.IsDone results) :=
  inferInstanceAs (Decidable (c.results? = some results))

end Crew

end SampleData
