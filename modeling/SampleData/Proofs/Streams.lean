import SampleData.Output.Populate
import SampleData.Proofs.WrittenLines

/-!
# Generators as streams

A generator whose plan has no field of the current time gives its records whatever the clock shows,
and asks nothing of its surroundings. Asked for one at a time they are the records it gives all at
once, so wherever a row of records is cut, what comes behind the cut is given by the generator as
it is left there.

* `Plan.draw_clock`: records without moments do not depend on the clock.
* `Generator.many_succ`: a row of records is its first one and the rest.
* `Generator.many_gives`: the row, asked for one at a time, or the fault it comes to.
* `Generator.many_of_gives`: records that were given one at a time are such a row.
-/

namespace SampleData

/-! ## Draws one after another -/

/-- A draw after another is made from the source as the first one leaves it. -/
theorem Draw.outcome_bind_ok {σ α β : Type} {d : Draw σ α} {f : α → Draw σ β} {s s' : σ} {a : α}
    (h : d.outcome s = (.ok a, s')) : (d >>= f).outcome s = (f a).outcome s' := by
  unfold Draw.outcome EStateM.run at h ⊢
  simp only [bind, EStateM.bind]
  cases hd : d s with
  | ok b s₁ =>
      rw [hd] at h
      cases h
      rfl
  | error e s₁ =>
      rw [hd] at h
      cases h

/-- Behind a draw that fails there is no other. -/
theorem Draw.outcome_bind_error {σ α β : Type} {d : Draw σ α} {f : α → Draw σ β} {s s' : σ}
    {e : DrawFault} (h : d.outcome s = (.error e, s')) :
    (d >>= f).outcome s = (.error e, s') := by
  unfold Draw.outcome EStateM.run at h ⊢
  simp only [bind, EStateM.bind]
  cases hd : d s with
  | ok b s₁ =>
      rw [hd] at h
      cases h
  | error e' s₁ =>
      rw [hd] at h
      cases h
      rfl

/-! ## Clocks -/

section clocks

variable {σ : Type} [WordSource σ]

/-- A field that does not hold the current time takes no notice of it. -/
theorem Descriptor.draw_clock {d : Descriptor} (h : d.kind ≠ .timestamp) (now now' : Binary64) :
    (d.draw now : Draw σ Value) = d.draw now' := by
  obtain ⟨name, kind, strategy⟩ := d
  cases kind with
  | timestamp => exact absurd rfl h
  | text => cases strategy <;> rfl
  | integer => cases strategy <;> rfl

/-- Fields without the current time among them take no notice of the clock. -/
theorem drawFields_clock {ds : List Descriptor} (h : ∀ d ∈ ds, d.kind ≠ .timestamp)
    (c c' : Clock) : (drawFields c ds : Draw σ _) = drawFields c' ds := by
  induction ds generalizing c c' with
  | nil => rfl
  | cons d ds ih =>
      have hd := h d List.mem_cons_self
      have hds := fun x hx => h x (List.mem_cons_of_mem d hx)
      rw [drawFields, drawFields, Descriptor.draw_clock hd (c 0) (c' 0),
        ih hds (c.after 1) (c'.after 1)]

/-- None of the fields of a plan without timestamps holds the current time. -/
theorem Plan.kind_ne_timestamp {p : Plan} (h : p.hasTimestamp = false) :
    ∀ d ∈ p.fields, d.kind ≠ .timestamp := by
  intro d hd hk
  have := List.any_eq_false.mp h d hd
  simp [hk] at this

/-- Records without moments do not depend on the clock. -/
theorem Plan.draw_clock {p : Plan} (h : p.hasTimestamp = false) (c c' : Clock) :
    (p.draw c : Draw σ Record) = p.draw c' := by
  unfold Plan.draw
  rw [drawFields_clock (Plan.kind_ne_timestamp h) c c']

end clocks

namespace Generator

variable {g g' : Generator}

/-- The next record without moments does not depend on the clock. -/
theorem next_clock (h : g.plan.hasTimestamp = false) (c c' : Clock) : g.next c = g.next c' := by
  unfold next run
  dsimp only
  rw [Plan.draw_clock h c c']

/-- The plan stays. -/
@[simp] theorem plan_next (c : Clock) : (g.next c).2.plan = g.plan := rfl

/-- A row of records is the first one and the rest, which the generator gives as the first one
leaves it. -/
theorem many_succ (g : Generator) (c : Clock) (n : Nat) :
    g.many c (n + 1) = match g.next c with
      | (.error e, g₁) => (.error e, g₁)
      | (.ok r, g₁) =>
        match g₁.many (c.after g.plan.size) n with
        | (.error e, g') => (.error e, g')
        | (.ok rs, g') => (.ok (r :: rs), g') := by
  have hstep : (g.plan.drawMany c (n + 1) : Draw ChaCha (List Record)) =
      g.plan.draw c >>= fun r => g.plan.drawMany (c.after g.plan.size) n >>= fun rs =>
        pure (r :: rs) := rfl
  unfold many next run
  dsimp only
  rw [hstep]
  rcases hfirst : (g.plan.draw c).outcome g.source with ⟨first, source⟩
  cases first with
  | error e => rw [Draw.outcome_bind_error hfirst]
  | ok r =>
      rw [Draw.outcome_bind_ok hfirst]
      dsimp only
      rcases hrest : (g.plan.drawMany (c.after g.plan.size) n).outcome source with ⟨rest, source'⟩
      cases rest with
      | error e => rw [Draw.outcome_bind_error hrest]
      | ok rs =>
          rw [Draw.outcome_bind_ok hrest]
          rfl

/-- Rows of records without moments do not depend on the clock. -/
theorem many_clock (h : g.plan.hasTimestamp = false) (c c' : Clock) (n : Nat) :
    g.many c n = g.many c' n := by
  induction n generalizing g c c' with
  | zero => rfl
  | succ n ih =>
      have hplan : (g.next c').2.plan.hasTimestamp = false := by simp [h]
      rw [many_succ, many_succ, next_clock h c c']
      rcases hnext : g.next c' with ⟨first, g₁⟩
      rw [hnext] at hplan
      cases first with
      | error e => rfl
      | ok r =>
          dsimp only
          rw [ih hplan (c.after g.plan.size) (c'.after g.plan.size)]

/-! ## One at a time -/

/-- A plan without timestamps asks for no time. -/
theorem readClock_eq_pure {ds : List Descriptor} (h : ∀ d ∈ ds, d.kind ≠ .timestamp) :
    readClock ds = pure (ds.map fun _ => .zero) := by
  induction ds with
  | nil => rfl
  | cons d ds ih =>
      rw [readClock, if_neg (h d List.mem_cons_self),
        ih fun x hx => h x (List.mem_cons_of_mem d hx)]
      rfl

/-- The next record of a plan without timestamps needs nothing of the surroundings. -/
theorem nextAction_eq_pure (h : g.plan.hasTimestamp = false) (c : Clock) :
    g.nextAction = pure (g.next c) := by
  unfold nextAction
  rw [readClock_eq_pure (Plan.kind_ne_timestamp h)]
  exact congrArg (fun x => (pure x : Action _)) (next_clock h _ c)

/-- **Records that are given all at once are given one at a time**, as many as were asked for, and
the generator ends up the same; and if no records are given, it is the same fault that one of them
comes to. -/
theorem many_gives (hplan : g.plan.hasTimestamp = false) (c : Clock) (n : Nat) :
    match g.many c n with
    | (.ok rs, g') => rs.length = n ∧ JsonLines.Gives nextAction g rs g'
    | (.error f, _) => JsonLines.Fails nextAction g n f := by
  induction n generalizing g c with
  | zero => exact ⟨rfl, .nil g⟩
  | succ n ih =>
      have hask := nextAction_eq_pure hplan c
      have hplan₁ : (g.next c).2.plan.hasTimestamp = false := by simp [hplan]
      have hrest := ih hplan₁ (c.after g.plan.size)
      rw [many_succ]
      rcases hnext : g.next c with ⟨first, g₁⟩
      rw [hnext] at hask hrest
      cases first with
      | error f => exact .here hask
      | ok r =>
          dsimp only at hrest ⊢
          rcases hmany : g₁.many (c.after g.plan.size) n with ⟨rest, g'⟩
          rw [hmany] at hrest
          cases rest with
          | error f => exact .there hask hrest
          | ok rs => exact ⟨congrArg (· + 1) hrest.1, .cons hask hrest.2⟩

/-- Records that are given at once are given one at a time. -/
theorem gives_of_many (hplan : g.plan.hasTimestamp = false) {c : Clock} {n : Nat}
    {rs : List Record} (h : (g.many c n).1 = .ok rs) :
    rs.length = n ∧ ∃ g', JsonLines.Gives nextAction g rs g' := by
  have hmany := many_gives hplan c n
  rcases hrun : g.many c n with ⟨x, g'⟩
  rw [hrun] at h hmany
  obtain rfl : x = .ok rs := h
  exact ⟨hmany.1, g', hmany.2⟩

/-- Giving records leaves the plan. -/
theorem plan_of_gives (hplan : g.plan.hasTimestamp = false) {rs : List Record}
    (h : JsonLines.Gives nextAction g rs g') : g'.plan = g.plan := by
  induction h with
  | nil g => rfl
  | @cons g g₁ g' r rs hr _ ih =>
      rw [nextAction_eq_pure hplan fun _ => .zero] at hr
      have hstays := plan_next (g := g) fun _ => .zero
      rw [Action.done.inj hr] at hstays
      rw [ih (by rw [hstays, hplan]), hstays]

/-- **Records that were given one at a time** are given at once. -/
theorem many_of_gives (hplan : g.plan.hasTimestamp = false) (c : Clock) {rs : List Record}
    (h : JsonLines.Gives nextAction g rs g') : g.many c rs.length = (.ok rs, g') := by
  induction h generalizing c with
  | nil g => rfl
  | @cons g g₁ g' r rs hr _ ih =>
      rw [nextAction_eq_pure hplan c] at hr
      have hnext : g.next c = (.ok r, g₁) := Action.done.inj hr
      have hplan₁ : g₁.plan.hasTimestamp = false := by
        have hstays := plan_next (g := g) c
        rw [hnext] at hstays
        rw [hstays, hplan]
      rw [List.length_cons, many_succ, hnext]
      dsimp only
      rw [ih hplan₁ (c.after g.plan.size)]

/-- A fault comes up when the records are asked for one at a time. -/
theorem fails_of_many (hplan : g.plan.hasTimestamp = false) {c : Clock} {n : Nat} {f : DrawFault}
    (h : (g.many c n).1 = .error f) : JsonLines.Fails nextAction g n f := by
  have hmany := many_gives hplan c n
  rcases hrun : g.many c n with ⟨x, g'⟩
  rw [hrun] at h hmany
  obtain rfl : x = .error f := h
  exact hmany

end Generator

end SampleData
