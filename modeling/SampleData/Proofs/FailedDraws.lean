import SampleData.Proofs.NumberedFiles
import SampleData.Proofs.Turns

/-!
# Draws that fail

Where nothing is refused, a worker fails only over a draw: if a range without numbers comes up
before its last record, that is what it ends with, whichever file the record belongs to.

* `JsonLines.writeTimed_fails`: the lines of a file in which a draw fails.
* `runWorker_fails`: a worker.
-/

namespace SampleData

open JsonLines

/-! ## Surroundings that refuse nothing -/

/-- The timer may be read at any time. -/
theorem still_timer_willing : Rules.willing.logic.Still (Action.request .timer) :=
  Rules.willing.still_request fun _ => ⟨trivial, fun _ _ _ => rfl⟩

/-- Every file takes everything. -/
theorem fileSink_willing (file : Location) (whole : String) :
    (fileSink file).Keeps Rules.willing.logic (fun _ _ => True) (fun _ _ => False) whole where
  take := by
    intro taken chunk rest s _ _
    refine Rules.willing.sure_request trivial ?_
    intro a _ ha
    cases a with
    | ok _ => trivial
    | error e => cases ha
  again _ h := h.elim

namespace JsonLines

variable {m : Type → Type} [Monad m] {σ ε γ : Type} {L : ProgramLogic m σ} {sink : Sink m ε}
  {next : γ → m (Except DrawFault Record × γ)} {clock : m Nat} {g : γ} {n : Nat} {f : DrawFault}

/-- Lines that are asked for come to the fault of the draw. -/
theorem writeNext_fails (hclock : L.Still clock)
    (h : ∀ whole, sink.Keeps L (fun _ _ => True) (fun _ _ => False) whole)
    (hfails : Fails next g n f) (w : Written) (b : Buffer) (s : σ) :
    L.Sure (writeNext clock sink next n w g b) (fun x _ => x.1 = .error (.draw f)) s := by
  induction hfails generalizing w b s with
  | @here g g' n f hr =>
      rw [writeNext, hr]
      have hfault : L.Sure (pure ((.error f : Except DrawFault Record), g'))
          (fun x _ => x.1 = .error f) s := L.sure_pure rfl
      refine L.sure_then (timed_sure hclock hfault) fun x s₁ hx => ?_
      obtain ⟨drawn, g₁⟩ := x
      cases drawn with
      | ok drawn => cases hx
      | error e =>
          cases hx
          exact L.sure_pure rfl
  | @there g g' n f r hr _ ih =>
      rw [writeNext, hr]
      refine L.sure_then (timed_pure_sure hclock r g' s) fun x s₁ hx => ?_
      obtain ⟨⟨drawing, rfl⟩, rfl⟩ := hx
      have hb : b.Upto (fun _ _ => True) b.held s₁ := ⟨"", trivial, String.empty_append⟩
      have hline := writeRecord_sure (h (b.held ++ line r)) hb String.append_empty
      refine L.sure_then (timed_sure hclock hline) fun x s₂ hx => ?_
      obtain ⟨outcome, b'⟩ := x
      cases outcome with
      | ok _ => exact ih _ b' s₂
      | error e =>
          obtain ⟨_, _, hrefused, -⟩ := hx
          exact hrefused.elim

/-- A file in which a draw fails. -/
theorem writeTimed_fails (hclock : L.Still clock)
    (h : ∀ whole, sink.Keeps L (fun _ _ => True) (fun _ _ => False) whole)
    (hfails : Fails next g n f) (s : σ) :
    L.Sure (writeTimed clock sink next n g) (fun x _ => x.1 = .error (.draw f)) s := by
  unfold writeTimed
  apply L.sure_then (writeNext_fails hclock h hfails .none .empty s)
  rintro ⟨outcome, g', b⟩ s' hx
  obtain rfl : outcome = .error (.draw f) := hx
  have hb : b.Upto (fun _ _ => True) b.held s' := ⟨"", trivial, String.empty_append⟩
  exact L.sure_then (finish_error h (.draw f) (.inl ⟨b.held, hb⟩)) fun r _ hr => L.sure_pure hr

end JsonLines

/-! ## Files -/

namespace Populator

variable {base dir : String} {g g' : Generator} {lines : UInt64} {f : DrawFault}

/-- Every numbered file can be opened. -/
theorem openOutput_willing (base dir : String) (index : UInt64) :
    Rules.willing.logic.Sure (openOutput ⟨base, .count⟩ dir index) (fun x _ => x.isOk) () := by
  let L := Rules.willing.logic
  unfold openOutput
  rw [if_neg (by decide : ¬ NameScheme.count.isRandom = true)]
  apply L.sure_bind
  refine Rules.willing.sure_request trivial ?_
  intro a _ ha
  cases a with
  | ok file => exact L.sure_pure rfl
  | error e => cases ha

/-- A file that is filled is written: how it was filled is all that matters. -/
theorem writeFile_of_fill {Q : Except PopulateError FileOutput × Populator → Prop}
    (hfill : ∀ path file, Rules.willing.logic.Sure ((numbered base g).fill path file lines)
      (fun x _ => match x.1 with
        | .ok _ => ∀ output, Q (.ok output, x.2)
        | .error e => Q (.error e, x.2)) ()) (index : UInt64) :
    Rules.willing.logic.Sure ((numbered base g).writeFile dir index lines) (fun x _ => Q x) () := by
  let L := Rules.willing.logic
  unfold writeFile
  apply L.sure_bind
  refine Rules.willing.sure_request trivial ?_
  intro started _ _
  apply L.sure_then (openOutput_willing base dir index)
  intro x _ hopened
  cases x with
  | error e => cases hopened
  | ok opened =>
      obtain ⟨path, file⟩ := opened
      apply L.sure_then (hfill path file)
      rintro ⟨outcome, p⟩ _ hx
      cases outcome with
      | error e => exact L.sure_pure hx
      | ok sizes =>
          exact L.sure_bind (Rules.willing.sure_request trivial fun _ _ _ => L.sure_pure (hx _))

/-- A file for which all records are drawn. -/
theorem writeFile_willing {rs : List Record} (hgives : Gives Generator.nextAction g rs g')
    (hlen : rs.length = lines.toNat) (index : UInt64) :
    Rules.willing.logic.Sure ((numbered base g).writeFile dir index lines)
      (fun x _ => ∃ output, x = (.ok output, numbered base g')) () := by
  let L := Rules.willing.logic
  refine writeFile_of_fill (fun path file => ?_) index
  unfold fill
  rw [← hlen]
  apply L.sure_then (writeTimed_sure still_timer_willing (fileSink_willing file _) hgives trivial)
  rintro ⟨outcome, g₁⟩ _ ⟨hended, hcount⟩
  apply L.sure_bind
  refine Rules.willing.sure_request trivial ?_
  intro _ _ _
  cases outcome with
  | error e =>
      obtain ⟨_, _, hrefused, -⟩ := hended
      exact hrefused.elim
  | ok written =>
      obtain ⟨-, rfl⟩ := hcount written rfl
      apply L.sure_bind
      refine Rules.willing.sure_request trivial ?_
      intro a _ ha
      cases a with
      | error e => cases ha
      | ok bytes => exact L.sure_pure fun output => ⟨output, rfl⟩

/-- A file for which a draw fails. -/
theorem writeFile_fails (hfails : Fails Generator.nextAction g lines.toNat f) (index : UInt64) :
    Rules.willing.logic.Sure ((numbered base g).writeFile dir index lines)
      (fun x _ => x.1 = .error (.draw f)) () := by
  let L := Rules.willing.logic
  refine writeFile_of_fill (fun path file => ?_) index
  unfold fill
  apply L.sure_then (writeTimed_fails still_timer_willing (fileSink_willing file) hfails ())
  rintro ⟨outcome, g₁⟩ _ hx
  obtain rfl : outcome = .error (.draw f) := hx
  apply L.sure_bind
  refine Rules.willing.sure_request trivial ?_
  intro _ _ _
  exact L.sure_pure rfl

/-- Files for one of which a draw fails. -/
theorem writeFiles_fails {count : Nat}
    (hfails : Fails Generator.nextAction g (count * lines.toNat) f) (base dir : String)
    (start : UInt64) :
    Rules.willing.logic.Sure ((numbered base g).writeFiles dir start lines count)
      (fun x _ => x.1 = .error (.draw f)) () := by
  let L := Rules.willing.logic
  induction count generalizing g start with
  | zero =>
      rw [Nat.zero_mul] at hfails
      cases hfails
  | succ count ih =>
      rw [Nat.succ_mul, Nat.add_comm] at hfails
      rw [writeFiles]
      rcases hfails.split with hfirst | ⟨rs, g', hlen, hgives, hrest⟩
      · apply L.sure_then (writeFile_fails hfirst start)
        rintro ⟨outcome, p⟩ _ hx
        obtain rfl : outcome = .error (.draw f) := hx
        exact L.sure_pure rfl
      · apply L.sure_then (writeFile_willing hgives hlen start)
        rintro _ _ ⟨output, rfl⟩
        apply L.sure_then (ih hrest (start + 1))
        rintro ⟨outcome, p⟩ _ hx
        obtain rfl : outcome = .error (.draw f) := hx
        exact L.sure_pure rfl

end Populator

/-! ## Workers -/

/-- **A worker whose records are not drawn** ends with the fault of the draw. -/
theorem runWorker_fails {plan : Plan} (hplan : plan.hasTimestamp = false) {a : Assignment}
    {seed lines : UInt64} (hseed : a.seed = some seed) {c : Clock} {f : DrawFault}
    (hmany : ((Generator.ofSeed plan seed).many c (a.count.toNat * lines.toNat)).1 = .error f)
    (base dir : String) :
    (runWorker plan dir ⟨base, .count⟩ lines a).Meets Rules.willing
      (fun x _ => x = .error (.draw f)) () := by
  let L := Rules.willing.logic
  have hfails := Generator.fails_of_many hplan hmany
  have hfiles := Populator.writeFiles_fails hfails base dir a.start
  show L.Sure (runWorker plan dir ⟨base, .count⟩ lines a) _ ()
  unfold runWorker
  rw [Assignment.source_of_seed hseed, pure_bind]
  exact L.sure_then hfiles fun x _ hx => L.sure_pure hx

end SampleData
