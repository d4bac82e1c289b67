import SampleData.Draw.Progression
import SampleData.Proofs.Streams
import Mathlib.Data.List.Basic

/-!
# Fields that draw nothing

A field of the current time, of a constant or of the empty value takes no word from the source.
So it makes no difference to the others: a plan with such fields left out, wherever they stand,
gives the same records without them, the readings of the clock aside, and takes the same words.

This is a statement about two runs. They go *in step* if from the same state of the source they
come to the same state, both with values or both with the same fault (`Draw.InStep`); what the
values have to do with each other is a parameter, so that a run of fields, of records and of rows
of records all go in step by the same two rules.

* `Draw.InStep.pure`, `Draw.InStep.bind`: draws that are put together of draws in step.
* `Descriptor.draw_of_silent`: a field that draws nothing.
* `drawFields_inStep`: fields, with some of those left out.
* `Plan.drawMany_select`: rows of records.
-/

namespace SampleData

/-! ## Two draws in step -/

/-- From every state of the source two draws come to the same state, with values that `R` relates
or with the same fault. -/
def Draw.InStep {σ α β : Type} (R : α → β → Prop) (d : Draw σ α) (d' : Draw σ β) : Prop :=
  ∀ s, match d s, d' s with
    | .ok a t, .ok b t' => R a b ∧ t = t'
    | .error e t, .error e' t' => e = e' ∧ t = t'
    | _, _ => False

namespace Draw.InStep

variable {σ α β γ δ : Type} {R : α → β → Prop} {S : γ → δ → Prop}

/-- Values that are at hand. -/
theorem pure {a : α} {b : β} (h : R a b) :
    Draw.InStep R (Pure.pure a : Draw σ α) (Pure.pure b) := fun _ => ⟨h, rfl⟩

/-- A draw goes in step with itself. -/
theorem refl {R : α → α → Prop} (h : ∀ a, R a a) (d : Draw σ α) : d.InStep R d := by
  intro s
  cases d s with
  | ok a t => exact ⟨h a, rfl⟩
  | error e t => exact ⟨rfl, rfl⟩

/-- From a state of the source both draws have their values, or both come to the same fault. -/
theorem value_or_fault {d : Draw σ α} {d' : Draw σ β} (h : d.InStep R d') (s : σ) :
    (∃ a b t, d s = .ok a t ∧ d' s = .ok b t ∧ R a b) ∨
      ∃ e t, d s = .error e t ∧ d' s = .error e t := by
  have hs := h s
  cases hr : d s with
  | ok a t =>
      cases hr' : d' s with
      | ok b t' =>
          rw [hr, hr'] at hs
          obtain ⟨hab, rfl⟩ := hs
          exact .inl ⟨a, b, t, rfl, rfl, hab⟩
      | error e t' => simp only [hr, hr'] at hs
  | error e t =>
      cases hr' : d' s with
      | ok b t' => simp only [hr, hr'] at hs
      | error e' t' =>
          rw [hr, hr'] at hs
          obtain ⟨rfl, rfl⟩ := hs
          exact .inr ⟨e, t, rfl, rfl⟩

/-- One draw after another. -/
theorem bind {d : Draw σ α} {d' : Draw σ β} {f : α → Draw σ γ} {f' : β → Draw σ δ}
    (hd : d.InStep R d') (hf : ∀ a b, R a b → (f a).InStep S (f' b)) :
    Draw.InStep S (d >>= f) (d' >>= f') := by
  intro s
  simp only [Bind.bind, EStateM.bind]
  rcases hd.value_or_fault s with ⟨a, b, t, hr, hr', hab⟩ | ⟨e, t, hr, hr'⟩
  · rw [hr, hr']
    exact hf a b hab t
  · rw [hr, hr']
    exact ⟨rfl, rfl⟩

/-- Draws in step whose values look the same have outcomes that look the same, and leave the
source the same. -/
theorem outcome_eq {view : α → γ} {view' : β → γ} {d : Draw σ α} {d' : Draw σ β}
    (h : d.InStep (fun a b => view a = view' b) d') (s : σ) :
    (d.outcome s).1.map view = (d'.outcome s).1.map view' ∧
      (d.outcome s).2 = (d'.outcome s).2 := by
  unfold Draw.outcome EStateM.run
  rcases h.value_or_fault s with ⟨a, b, t, hr, hr', hab⟩ | ⟨e, t, hr, hr'⟩
  · rw [hr, hr']
    exact ⟨congrArg Except.ok hab, rfl⟩
  · rw [hr, hr']
    exact ⟨rfl, rfl⟩

end Draw.InStep

/-! ## Places that are kept -/

/-- The entries of a list at the places that are kept, the first place being 0. -/
def entriesAt {α : Type} (kept : Nat → Bool) : List α → List α
  | [] => []
  | x :: xs =>
    if kept 0 then x :: entriesAt (fun i => kept (i + 1)) xs
    else entriesAt (fun i => kept (i + 1)) xs

@[simp] theorem entriesAt_cons_of_kept {α : Type} {kept : Nat → Bool} (h : kept 0 = true) (x : α)
    (xs : List α) : entriesAt kept (x :: xs) = x :: entriesAt (fun i => kept (i + 1)) xs := by
  rw [entriesAt, if_pos h]

@[simp] theorem entriesAt_cons_of_not_kept {α : Type} {kept : Nat → Bool} (h : kept 0 = false)
    (x : α) (xs : List α) : entriesAt kept (x :: xs) = entriesAt (fun i => kept (i + 1)) xs := by
  rw [entriesAt, h, if_neg Bool.false_ne_true]

/-- All entries are kept. -/
@[simp] theorem entriesAt_true {α : Type} (xs : List α) : entriesAt (fun _ => true) xs = xs := by
  induction xs with
  | nil => rfl
  | cons x xs ih => simp [ih]

/-- None is. -/
@[simp] theorem entriesAt_false {α : Type} (xs : List α) : entriesAt (fun _ => false) xs = [] := by
  induction xs with
  | nil => rfl
  | cons x xs ih => simp [ih]

/-- The plan of the fields at the places that are kept. -/
def Plan.select (kept : Nat → Bool) (p : Plan) : Plan :=
  { fields := entriesAt kept p.fields }

/-- The values of a record at the places that are kept. -/
def Record.select (kept : Nat → Bool) (r : Record) : Record :=
  { fields := entriesAt kept r.fields }

/-! ## Readings of the clock aside -/

/-- The value with every reading of the clock taken for the same. -/
def Value.untimed : Value → Value
  | .timestamp _ => .timestamp .zero
  | other => other

/-- A named value with every reading of the clock taken for the same. -/
def untimedField (f : String × Value) : String × Value := (f.1, f.2.untimed)

/-- The record with every reading of the clock taken for the same. -/
def Record.untimed (r : Record) : Record := { fields := r.fields.map untimedField }

/-! ## Fields -/

/-- The value is the same for each record. -/
def Strategy.isSame : Strategy → Bool
  | .fixed _ | .empty => true
  | _ => false

/-- The field draws nothing: it holds the current time, a constant or the empty value. -/
def Descriptor.Silent (d : Descriptor) : Prop := d.kind = .timestamp ∨ d.strategy.isSame = true

instance (d : Descriptor) : Decidable d.Silent := inferInstanceAs (Decidable (_ ∨ _))

section fields

variable {σ : Type} [WordSource σ]

/-- A silent field has its value without a draw, whatever its strategy if it is a moment. -/
theorem Descriptor.draw_of_silent {d : Descriptor} (h : d.Silent) (now : Binary64) :
    ∃ v, (d.draw now : Draw σ Value) = pure v := by
  obtain ⟨name, kind, strategy⟩ := d
  by_cases hkind : kind = .timestamp
  · subst hkind
    exact ⟨_, draw_timestamp name strategy now⟩
  cases strategy with
  | fixed value => exact ⟨_, draw_fixed hkind name value now⟩
  | empty => exact ⟨_, draw_empty hkind name now⟩
  | random | list | range => exact absurd h (by simp [Silent, Strategy.isSame, hkind])

/-- A field goes in step with itself whatever the two clocks show. -/
theorem Descriptor.draw_inStep (d : Descriptor) (now now' : Binary64) :
    (d.draw now : Draw σ Value).InStep (fun v v' => v.untimed = v'.untimed) (d.draw now') := by
  by_cases hk : d.kind = .timestamp
  · obtain ⟨name, kind, strategy⟩ := d
    dsimp only at hk
    subst hk
    exact .pure rfl
  · rw [Descriptor.draw_clock hk now now']
    exact .refl (fun v => Eq.refl v.untimed) _

/-- **Fields go in step with those that are kept**, if the others are silent. The induction is on
the fields; a silent field is gone before the next one is drawn. -/
theorem drawFields_inStep {ds : List Descriptor} {kept : Nat → Bool}
    (h : ∀ d ∈ entriesAt (fun i => !kept i) ds, d.Silent) (c c' : Clock) :
    (drawFields c ds : Draw σ _).InStep
      (fun fs fs' => (entriesAt kept fs).map untimedField = fs'.map untimedField)
      (drawFields c' (entriesAt kept ds)) := by
  induction ds generalizing kept c c' with
  | nil => exact .pure rfl
  | cons d ds ih =>
      cases hk : kept 0 with
      | true =>
          rw [entriesAt_cons_of_not_kept (by rw [hk]; rfl)] at h
          rw [entriesAt_cons_of_kept hk, drawFields, drawFields]
          apply (Descriptor.draw_inStep d (c 0) (c' 0)).bind
          intro v v' hv
          apply (ih h (c.after 1) (c'.after 1)).bind
          intro fs fs' hfs
          refine .pure ?_
          rw [entriesAt_cons_of_kept hk, List.map_cons, List.map_cons, hfs, untimedField,
            untimedField, hv]
      | false =>
          rw [entriesAt_cons_of_kept (by rw [hk]; rfl)] at h
          obtain ⟨hd, hds⟩ := List.forall_mem_cons.mp h
          obtain ⟨v, hv⟩ := Descriptor.draw_of_silent (σ := σ) hd (c 0)
          rw [entriesAt_cons_of_not_kept hk, drawFields, hv, pure_bind,
            ← bind_pure (drawFields c' (entriesAt (fun i => kept (i + 1)) ds))]
          apply (ih hds (c.after 1) c').bind
          intro fs fs' hfs
          refine .pure ?_
          rw [entriesAt_cons_of_not_kept hk, hfs]

/-! ## Records -/

/-- A record goes in step with that of the fields that are kept. -/
theorem Plan.draw_inStep {p : Plan} {kept : Nat → Bool}
    (h : ∀ d ∈ entriesAt (fun i => !kept i) p.fields, d.Silent) (c c' : Clock) :
    (p.draw c : Draw σ Record).InStep (fun r r' => (r.select kept).untimed = r'.untimed)
      ((p.select kept).draw c') :=
  (drawFields_inStep h c c').bind fun _ _ hfs => .pure (congrArg Record.mk hfs)

/-- Records one after the other go in step with those of the fields that are kept. -/
theorem Plan.drawMany_inStep {p : Plan} {kept : Nat → Bool}
    (h : ∀ d ∈ entriesAt (fun i => !kept i) p.fields, d.Silent) (c c' : Clock) (n : Nat) :
    (p.drawMany c n : Draw σ (List Record)).InStep
      (fun rs rs' => rs.map (fun r => (r.select kept).untimed) = rs'.map Record.untimed)
      ((p.select kept).drawMany c' n) := by
  induction n generalizing c c' with
  | zero => exact .pure rfl
  | succ n ih =>
      apply (Plan.draw_inStep h c c').bind
      intro r r' hr
      apply (ih (c.after p.size) (c'.after (p.select kept).size)).bind
      intro rs rs' hrs
      refine .pure ?_
      rw [List.map_cons, List.map_cons, hr, hrs]

/-- **Fields that draw nothing do not disturb the others**: if those that are left out are silent,
`n` records of the plan, without the values at these places, are `n` records of the plan without
these fields, the readings of two clocks aside; or both come to the same fault. In either case the
source is left the same. -/
theorem Plan.drawMany_select {p : Plan} {kept : Nat → Bool}
    (h : ∀ d ∈ entriesAt (fun i => !kept i) p.fields, d.Silent) (c c' : Clock) (n : Nat)
    (s : σ) :
    ((p.drawMany c n).outcome s).1.map (List.map fun r => (r.select kept).untimed) =
        (((p.select kept).drawMany c' n).outcome s).1.map (List.map Record.untimed) ∧
      ((p.drawMany c n).outcome s).2 = (((p.select kept).drawMany c' n).outcome s).2 :=
  (Plan.drawMany_inStep h c c' n).outcome_eq s

end fields

/-- A moment, a range, a constant, another moment, a list and an empty field. The first moment has
a reversed range, of which it takes no notice. -/
def mixedPlan : Plan where
  fields := [⟨"t", .timestamp, .range 9 1⟩, ⟨"n", .integer, .range 1 6⟩,
    ⟨"c", .text, .fixed (.text "x")⟩, ⟨"t", .timestamp, .random⟩,
    ⟨"s", .text, .list [.text "a", .text "b"]⟩, ⟨"e", .integer, .empty⟩]

/-- The places of the range, the second moment and the list. -/
def mixedKept (i : Nat) : Bool := i = 1 || i = 3 || i = 4

/-- Words whose high and low halves both vary. -/
def mixedWords : Progression := ⟨0x4000000000000000, 0x2000000080000000⟩

/-- Two records of six fields and two of three of them, from the same words and with different
clocks: the numbers and texts are the same, and so is the next word. -/
theorem Plan.drawMany_select_mixed :
    (∀ d ∈ entriesAt (fun i => !mixedKept i) mixedPlan.fields, d.Silent) ∧
      ((mixedPlan.select mixedKept).drawMany .zero 2).outcome mixedWords =
        (.ok [⟨[("n", .integer 2), ("t", .timestamp .zero), ("s", .text "b")]⟩,
          ⟨[("n", .integer 4), ("t", .timestamp .zero), ("s", .text "b")]⟩],
          ⟨0xC000000200000000, 0x2000000080000000⟩) ∧
      ((mixedPlan.drawMany (.ofList [⟨1⟩, ⟨2⟩]) 2).outcome mixedWords).1.map
          (List.map fun r => (r.select mixedKept).untimed) =
        (((mixedPlan.select mixedKept).drawMany .zero 2).outcome mixedWords).1.map
          (List.map Record.untimed) ∧
      ((mixedPlan.drawMany (.ofList [⟨1⟩, ⟨2⟩]) 2).outcome mixedWords).2 =
        (((mixedPlan.select mixedKept).drawMany .zero 2).outcome mixedWords).2 := by
  have hsilent : ∀ d ∈ entriesAt (fun i => !mixedKept i) mixedPlan.fields, d.Silent := by
    decide
  refine ⟨hsilent, ?_, Plan.drawMany_select hsilent _ .zero 2 mixedWords⟩
  decide +kernel

end SampleData
