import SampleData.Output.JsonLines

/-!
# Sinks that behave alike

Writing makes use of its sink by handing it chunks and by nothing else. So whatever holds of two
sinks, chunk by chunk, holds of what is written to them, if it is kept when computations are put
together; the surroundings may be of two sorts. With one sink in both places that is a statement on
everything a writer does.

* `Coupling`: a relation between computations in two sorts of surroundings.
* `JsonLines.write_alike`, `JsonLines.writeTimed_alike`: writing to sinks that are related is
  related.
-/

namespace SampleData

/-- A relation between computations in two sorts of surroundings that is kept when they are put
together. -/
structure Coupling (m n : Type → Type) [Monad m] [Monad n] where
  Alike : {α : Type} → m α → n α → Prop
  alike_pure : ∀ {α : Type} (a : α), Alike (pure a) (pure a)
  alike_bind : ∀ {α β : Type} {x : m α} {y : n α} {f : α → m β} {g : α → n β},
    Alike x y → (∀ a, Alike (f a) (g a)) → Alike (x >>= f) (y >>= g)

section coupled

variable {m n : Type → Type} [Monad m] [Monad n] {ε : Type} {C : Coupling m n} {sink : Sink m ε}
  {sink' : Sink n ε} (h : ∀ chunk, C.Alike (sink chunk) (sink' chunk))

include h

namespace Buffer

theorem flush_alike (b : Buffer) : C.Alike (b.flush sink) (b.flush sink') := by
  unfold flush
  split
  · exact C.alike_pure _
  · refine C.alike_bind (h _) fun r => ?_
    cases r <;> exact C.alike_pure _

theorem takePiece_alike (b : Buffer) (piece : String) :
    C.Alike (b.takePiece sink piece) (b.takePiece sink' piece) := by
  unfold takePiece
  split
  · exact C.alike_bind (h _) fun _ => C.alike_pure _
  · exact C.alike_pure _

theorem put_alike (b : Buffer) (piece : String) :
    C.Alike (b.put sink piece) (b.put sink' piece) := by
  unfold put
  split
  · refine C.alike_bind (flush_alike h b) fun x => ?_
    obtain ⟨outcome, b'⟩ := x
    cases outcome with
    | ok _ => exact takePiece_alike h b' piece
    | error e => exact C.alike_pure _
  · exact takePiece_alike h b piece

theorem putAll_alike (b : Buffer) (pieces : List String) :
    C.Alike (b.putAll sink pieces) (b.putAll sink' pieces) := by
  induction pieces generalizing b with
  | nil => exact C.alike_pure _
  | cons piece pieces ih =>
      refine C.alike_bind (put_alike h b piece) fun x => ?_
      obtain ⟨outcome, b'⟩ := x
      cases outcome with
      | ok _ => exact ih b'
      | error e => exact C.alike_pure _

theorem abandon_alike (b : Buffer) : C.Alike (b.abandon sink) (b.abandon sink') :=
  C.alike_bind (flush_alike h b) fun _ => C.alike_pure _

end Buffer

namespace JsonLines

theorem writeRecord_alike (b : Buffer) (r : Record) :
    C.Alike (writeRecord sink b r) (writeRecord sink' b r) := by
  unfold writeRecord
  refine C.alike_bind (Buffer.putAll_alike h b r.pieces) fun x => ?_
  obtain ⟨outcome, b'⟩ := x
  cases outcome with
  | error e => exact C.alike_pure _
  | ok _ =>
      refine C.alike_bind (Buffer.put_alike h b' "\n") fun x => ?_
      obtain ⟨outcome, b''⟩ := x
      cases outcome <;> exact C.alike_pure _

theorem writeRecords_alike (b : Buffer) (rs : List Record) :
    C.Alike (writeRecords sink b rs) (writeRecords sink' b rs) := by
  induction rs generalizing b with
  | nil => exact C.alike_pure _
  | cons r rs ih =>
      refine C.alike_bind (writeRecord_alike h b r) fun x => ?_
      obtain ⟨outcome, b'⟩ := x
      cases outcome with
      | ok _ => exact ih b'
      | error e => exact C.alike_pure _

omit h in
theorem timed_alike {δ α β : Type} {clock : m Nat} {clock' : n Nat} (hclock : C.Alike clock clock')
    {x : m (Except δ α × β)} {y : n (Except δ α × β)} (hxy : C.Alike x y) :
    C.Alike (timed clock x) (timed clock' y) := by
  unfold timed
  refine C.alike_bind hclock fun started => C.alike_bind hxy fun x => ?_
  obtain ⟨outcome, b⟩ := x
  cases outcome with
  | error e => exact C.alike_pure _
  | ok a => exact C.alike_bind hclock fun ended => C.alike_pure _

theorem writeNext_alike {γ : Type} {clock : m Nat} {clock' : n Nat} (hclock : C.Alike clock clock')
    {next : γ → m (Except DrawFault Record × γ)} {next' : γ → n (Except DrawFault Record × γ)}
    (hnext : ∀ g, C.Alike (next g) (next' g)) (count : Nat) (w : Written) (g : γ) (b : Buffer) :
    C.Alike (writeNext clock sink next count w g b) (writeNext clock' sink' next' count w g b) := by
  induction count generalizing w g b with
  | zero => exact C.alike_pure _
  | succ count ih =>
      refine C.alike_bind (timed_alike hclock (hnext g)) fun x => ?_
      obtain ⟨drawn, g'⟩ := x
      cases drawn with
      | error f => exact C.alike_pure _
      | ok drawn =>
          refine C.alike_bind (timed_alike hclock (writeRecord_alike h b drawn.1)) fun x => ?_
          obtain ⟨outcome, b'⟩ := x
          cases outcome with
          | ok written => exact ih _ g' b'
          | error e => exact C.alike_pure _

theorem finish_alike {α : Type} (outcome : Except (LineFault ε) α) (b : Buffer) :
    C.Alike (finish sink outcome b) (finish sink' outcome b) := by
  unfold finish
  cases outcome with
  | error e => exact C.alike_bind (Buffer.abandon_alike h b) fun _ => C.alike_pure _
  | ok _ =>
      refine C.alike_bind (Buffer.flush_alike h b) fun x => ?_
      obtain ⟨outcome, b'⟩ := x
      cases outcome with
      | ok _ => exact C.alike_pure _
      | error e => exact C.alike_bind (Buffer.abandon_alike h b') fun _ => C.alike_pure _

/-- **Writing records that are at hand** to sinks that behave alike is alike. -/
theorem write_alike (rs : List Record) : C.Alike (write sink rs) (write sink' rs) := by
  unfold write
  refine C.alike_bind (writeRecords_alike h .empty rs) fun x => ?_
  obtain ⟨outcome, b⟩ := x
  exact C.alike_bind (finish_alike h outcome b) fun _ => C.alike_pure _

/-- **Writing records that are asked for** is alike if asking for them and reading the clock are. -/
theorem writeTimed_alike {γ : Type} {clock : m Nat} {clock' : n Nat} (hclock : C.Alike clock clock')
    {next : γ → m (Except DrawFault Record × γ)} {next' : γ → n (Except DrawFault Record × γ)}
    (hnext : ∀ g, C.Alike (next g) (next' g)) (count : Nat) (g : γ) :
    C.Alike (writeTimed clock sink next count g) (writeTimed clock' sink' next' count g) := by
  unfold writeTimed
  refine C.alike_bind (writeNext_alike h hclock hnext count .none g .empty) fun x => ?_
  obtain ⟨outcome, g', b⟩ := x
  exact C.alike_bind (finish_alike h outcome b) fun _ => C.alike_pure _

end JsonLines

end coupled

end SampleData
