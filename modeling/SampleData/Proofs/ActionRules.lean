import SampleData.Action
import SampleData.Proofs.ProgramLogic

/-!
# Rules for actions

What surroundings do with requests can be said by rules: which requests they stand for, and with
which answers and changes. An action that keeps to the rules and comes to what it should under every
answer they allow does so in any surroundings that follow them, a world of its own as well as one
in which others are at work.

* `Rules`: the requests that may be made and the answers they may get.
* `Action.Meets`: an action keeps to the rules and ends as it should.
* `Rules.logic`: such statements are put together like those about other computations.
-/

namespace SampleData

/-- Rules of surroundings that are in some state. -/
structure Rules (σ : Type) where
  /-- The request may be made. -/
  Allowed : σ → Request → Prop
  /-- The request may be answered so, and the state after it be the other one. -/
  Answers : σ → (r : Request) → r.Answer → σ → Prop

/-- Under the rules the action makes only requests that are allowed, and ends only as said. -/
def Action.Meets {σ α : Type} (R : Rules σ) (Q : α → σ → Prop) : Action α → σ → Prop
  | .done a, s => Q a s
  | .ask r next, s => R.Allowed s r ∧ ∀ a s', R.Answers s r a s' → (next a).Meets R Q s'

namespace Rules

variable {σ : Type} (R : Rules σ)

/-- Statements on actions under the rules. -/
def logic : ProgramLogic Action σ where
  Sure x Q s := x.Meets R Q s
  sure_pure h := h
  sure_bind := by
    intro α β x f Q s h
    induction x generalizing s with
    | done a => exact h
    | ask r next ih => exact ⟨h.1, fun a s' ha => ih a (h.2 a s' ha)⟩
  sure_mono := by
    intro α x P Q s himp h
    induction x generalizing s with
    | done a => exact himp a s h
    | ask r next ih => exact ⟨h.1, fun a s' ha => ih a (h.2 a s' ha)⟩

/-- A request that is allowed ends with one of its answers. -/
theorem sure_request {s : σ} {r : Request} {Q : r.Answer → σ → Prop} (hallowed : R.Allowed s r)
    (h : ∀ a s', R.Answers s r a s' → Q a s') : R.logic.Sure (Action.request r) Q s :=
  ⟨hallowed, h⟩

/-- A request that may be made at any time and changes nothing, such as a look at the clock. -/
theorem still_request {r : Request}
    (h : ∀ s, R.Allowed s r ∧ ∀ a s', R.Answers s r a s' → s' = s) :
    R.logic.Still (Action.request r) :=
  fun s => R.sure_request (h s).1 (h s).2

/-- Where everything may be asked for, an action that ends comes to something. -/
theorem total {R : Rules σ} (h : ∀ s r, R.Allowed s r) : R.logic.Total := by
  intro α x s
  induction x generalizing s with
  | done a => trivial
  | ask r next ih => exact ⟨h s r, fun a s' _ => ih a s'⟩

end Rules

end SampleData
