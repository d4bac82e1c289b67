import SampleData.Proofs.Requests

/-!
# Actions that do the same to a disk

Two actions are alike if they ask the disk for the same, one request after the other, and come to
results that belong together. What they tell, and how often they look at a clock or ask for a key,
need not be the same, and what they are answered there must not matter. So if one of them is run in
one world and the other in another one, the two disks being the same before, they are the same
after, whatever the clocks show and whatever keys are given, as long as the system refuses nothing
of its own accord.

* `Action.Alike`: the relation, a parameter says which results belong together.
* `Action.Alike.bind`, `Action.Alike.aside`: actions that are put together, and answers that differ.
* `Crew.exists_lone_done`: an action comes to an end if its turns do not stop.
* `Action.Alike.run`: two runs that came to their ends.
-/

namespace SampleData

/-! ## Asides -/

/-- Requests with which the disk has nothing to do. -/
def Request.IsAside : Request → Prop
  | .log _ | .now | .timer | .entropy => True
  | _ => False

/-- They leave it as it is. -/
theorem Request.IsAside.leavesDisk {r : Request} (h : r.IsAside) : r.LeavesDisk := by
  cases r with
  | log | now | timer | entropy => trivial
  | _ => exact h.elim

/-- Other requests are answered by the disk, if the system refuses nothing. -/
theorem World.reply_of_disk {w w' : World} (hdisk : w.disk = w'.disk) {t t' : Turn}
    (ht : t.refusal = none) (ht' : t'.refusal = none) {r : Request} (h : ¬ r.IsAside) :
    (w.reply t r).1 = (w'.reply t' r).1 ∧ (w.reply t r).2.disk = (w'.reply t' r).2.disk := by
  have hr : r ≠ .timer := fun heq => h (heq ▸ trivial)
  rw [w.reply_of_none ht r hr, w'.reply_of_none ht' r hr]
  cases r with
  | log | now | timer | entropy => exact absurd trivial h
  | kind | canonical | read | list | size | close | print => simp [hdisk]
  | remove path => cases hremove : w'.disk.remove path <;> simp [hdisk, hremove, Except.map]
  | create path fresh => cases hcreate : w'.disk.create path fresh <;> simp [hdisk, hcreate]
  | append file chunk =>
      cases happend : w'.disk.append file chunk <;> simp [hdisk, happend, Except.map]

/-! ## Two actions -/

/-- Two actions that ask the disk for the same and come to results that `R` relates, whatever they
are answered to what they ask aside. -/
inductive Action.Alike {α β : Type} (R : α → β → Prop) : Action α → Action β → Prop
  | done {a : α} {b : β} (h : R a b) : Alike R (.done a) (.done b)
  | ask {r : Request} {next : r.Answer → Action α} {next' : r.Answer → Action β}
      (hr : ¬ r.IsAside) (h : ∀ a, Alike R (next a) (next' a)) :
      Alike R (.ask r next) (.ask r next')
  | left {r : Request} {next : r.Answer → Action α} {y : Action β} (hr : r.IsAside)
      (h : ∀ a, Alike R (next a) y) : Alike R (.ask r next) y
  | right {r : Request} {x : Action α} {next : r.Answer → Action β} (hr : r.IsAside)
      (h : ∀ a, Alike R x (next a)) : Alike R x (.ask r next)

namespace Action.Alike

variable {α β γ δ : Type} {R : α → β → Prop} {S : γ → δ → Prop} {x : Action α} {y : Action β}

/-- Results that are at hand. -/
theorem pure {a : α} {b : β} (h : R a b) : (Pure.pure a : Action α).Alike R (Pure.pure b) := .done h

/-- One action after another. -/
theorem bind {f : α → Action γ} {g : β → Action δ} (h : x.Alike R y)
    (hf : ∀ a b, R a b → (f a).Alike S (g b)) : (x >>= f).Alike S (y >>= g) := by
  induction h with
  | done hab => exact hf _ _ hab
  | ask hr _ ih => exact .ask hr ih
  | left hr _ ih => exact .left hr ih
  | right hr _ ih => exact .right hr ih

/-- The same request of both, what follows being alike for each answer. -/
theorem request {r : Request} (hr : ¬ r.IsAside) :
    (Action.request r).Alike (fun a b => a = b) (Action.request r) :=
  .ask hr fun _ => .done rfl

/-- A request aside of both, each with an answer of its own. -/
theorem aside {r : Request} (hr : r.IsAside) :
    (Action.request r).Alike (fun _ _ => True) (Action.request r) :=
  .left hr fun _ => .right hr fun _ => .done trivial

end Action.Alike

/-! ## Runs -/

/-- An action comes to a result in a world, and leaves a world, if the system refuses nothing. -/
inductive Action.Ends {α : Type} : Action α → World → α → World → Prop
  | done (a : α) (w : World) : Ends (.done a) w a w
  | ask {r : Request} {next : r.Answer → Action α} {w w' : World} {a : α} {t : Turn}
      (ht : t.refusal = none) (h : Ends (next (w.reply t r).1) (w.reply t r).2 a w') :
      Ends (.ask r next) w a w'

namespace Crew

variable {α β : Type}

/-- A run that came to an end without a refusal by the system. -/
theorem ends_of_isDone {x : Action α} {w : World} {ts : List Turn}
    (hts : ∀ t ∈ ts, t.refusal = none) {a : α} (h : ((lone x w).run ts).2.IsDone [a]) :
    x.Ends w a ((lone x w).run ts).2.world := by
  induction ts generalizing x w with
  | nil =>
      have hactions := h.actions_eq
      obtain rfl : x = .done a := (List.cons.inj hactions).1
      exact .done a w
  | cons t ts ih =>
      obtain ⟨ht, hrest⟩ := List.forall_mem_cons.mp hts
      cases x with
      | done b =>
          rw [lone_run_done] at h ⊢
          obtain rfl : b = a := Action.done.inj (List.cons.inj h.actions_eq).1
          exact .done b w
      | ask r next =>
          rw [run] at h ⊢
          by_cases hactor : t.actor = 0
          · rw [lone_turn_ask _ w hactor] at h ⊢
            exact .ask ht (ih hrest h)
          · rw [lone_turn_of_ne _ w hactor] at h ⊢
            exact ih hrest h

/-- **An action comes to an end** if it gets enough turns in which the system refuses nothing. -/
theorem exists_lone_done (x : Action α) (w : World) :
    ∃ ts, (∀ t ∈ ts, t.refusal = none) ∧ ∃ a, ((lone x w).run ts).2.IsDone [a] := by
  induction x generalizing w with
  | done a => exact ⟨[], nofun, a, rfl⟩
  | ask r next ih =>
      have hturn := lone_turn_ask next w (t := .plain 0) rfl
      obtain ⟨ts, hts, a, ha⟩ := ih (w.reply (.plain 0) r).1 (w.reply (.plain 0) r).2
      refine ⟨.plain 0 :: ts, List.forall_mem_cons.mpr ⟨rfl, hts⟩, a, ?_⟩
      rw [run, hturn]
      exact ha

end Crew

/-- **Two actions that are alike**, run to their ends in worlds with the same disk, leave the same
disk and have results that belong together. -/
theorem Action.Alike.run {α β : Type} {R : α → β → Prop} {x : Action α} {y : Action β}
    (h : x.Alike R y) {w w' w₁ w₁' : World} (hdisk : w.disk = w'.disk) {a : α} {b : β}
    (hx : x.Ends w a w₁) (hy : y.Ends w' b w₁') : w₁.disk = w₁'.disk ∧ R a b := by
  induction h generalizing w w' with
  | done hab =>
      cases hx
      cases hy
      exact ⟨hdisk, hab⟩
  | @ask r next next' hr _ ih =>
      cases hx with
      | ask ht hx =>
          cases hy with
          | ask ht' hy =>
              obtain ⟨hanswer, hdisk'⟩ := World.reply_of_disk hdisk ht ht' hr
              rw [hanswer] at hx
              exact ih _ hdisk' hx hy
  | left hr _ ih =>
      cases hx with
      | ask ht hx => exact ih _ ((w.disk_reply_of_leaves _ hr.leavesDisk).trans hdisk) hx hy
  | right hr _ ih =>
      cases hy with
      | ask ht hy => exact ih _ (hdisk.trans (w'.disk_reply_of_leaves _ hr.leavesDisk).symm) hx hy

end SampleData
