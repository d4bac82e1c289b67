import SampleData.Output.Limited
import SampleData.Proofs.AlikeSinks
import SampleData.Proofs.WrittenLines

/-!
# Writing where room is limited

A sink of limited room is written to through a buffer, so a chunk is refused long before or after
the record whose text fills the room. Still the room decides alone whether the writing succeeds, and
what the sink has taken is a beginning of the text, whenever one looks.

A look at the sink after each chunk is a sink that remembers what it was. Written to in place of the
sink itself it makes no difference.

* `Sink.remembering`: a sink that remembers.
* `JsonLines.write_remembering`: that it does so makes no difference.
* `LimitedSink.write_limited`: writing to a sink of limited room.
-/

namespace SampleData

/-! ## Looking at a sink after each chunk -/

section remembering

variable {σ ε : Type}

/-- The sink, which also remembers what it was after each chunk. -/
def Sink.remembering (sink : Sink (StateM σ) ε) : Sink (StateM (σ × List σ)) ε := fun chunk s =>
  ((sink chunk s.1).1, (sink chunk s.1).2, s.2 ++ [(sink chunk s.1).2])

/-- What is kept beside a state has no part in the result and in the state. -/
def Coupling.beside (σ τ : Type) : Coupling (StateM σ) (StateM (σ × τ)) where
  Alike x y := ∀ s kept, (y (s, kept)).1 = (x s).1 ∧ (y (s, kept)).2.1 = (x s).2
  alike_pure _ _ _ := ⟨rfl, rfl⟩
  alike_bind := by
    intro α β x y f g hxy hfg s kept
    obtain ⟨hresult, hstate⟩ := hxy s kept
    have hrest := hfg (x s).1 (x s).2 (y (s, kept)).2.2
    rw [← hstate, ← hresult] at hrest
    show (g (y (s, kept)).1 (y (s, kept)).2).1 = (f (x s).1 (x s).2).1 ∧
      (g (y (s, kept)).1 (y (s, kept)).2).2.1 = (f (x s).1 (x s).2).2
    rw [← hstate, ← hresult]
    exact hrest

/-- Remembering makes no difference to what is written and to what comes of it. -/
theorem JsonLines.write_remembering (sink : Sink (StateM σ) ε) (rs : List Record) (s : σ) :
    ((write sink.remembering rs).run (s, [])).1 = ((write sink rs).run s).1 ∧
      ((write sink.remembering rs).run (s, [])).2.1 = ((write sink rs).run s).2 :=
  write_alike (C := .beside σ (List σ)) (fun _ _ _ => ⟨rfl, rfl⟩) rs s []

end remembering

/-! ## Limited room -/

namespace LimitedSink

variable {limit : Nat} {whole : String}

/-- What the sink has taken is a beginning of a text. -/
def Begins (whole : String) (s : LimitedSink) : Prop := ∃ rest, s.taken ++ rest = whole

/-- The sink has taken a text, for which there is room, and never anything but a beginning of the
whole. -/
structure At (limit : Nat) (whole taken : String) (s : LimitedSink × List LimitedSink) : Prop where
  now : s.1 = ⟨limit, taken⟩
  past : ∀ s' ∈ s.2, s'.Begins whole
  room : taken.utf8ByteSize ≤ limit

/-- The sink has taken no more than a text, and there is no room for the whole. -/
structure Refused (limit : Nat) (whole taken : String) (s : LimitedSink × List LimitedSink) :
    Prop where
  now : s.1 = ⟨limit, taken⟩
  past : ∀ s' ∈ s.2, s'.Begins whole
  full : limit < whole.utf8ByteSize

/-- A chunk for which there is room. -/
theorem accept_of_le {taken chunk : String}
    (h : taken.utf8ByteSize + chunk.utf8ByteSize ≤ limit) :
    accept chunk ⟨limit, taken⟩ = (.ok (), ⟨limit, taken ++ chunk⟩) := if_pos h

/-- A chunk for which there is none. -/
theorem accept_of_not_le {taken chunk : String}
    (h : ¬ taken.utf8ByteSize + chunk.utf8ByteSize ≤ limit) :
    accept chunk ⟨limit, taken⟩ = (.error .mk, ⟨limit, taken⟩) := if_neg h

/-- With the next chunk of a text the sink has a beginning of it, whether it takes the chunk or
not. -/
theorem begins_accept (limit : Nat) {taken chunk rest : String}
    (hwhole : taken ++ chunk ++ rest = whole) :
    Begins whole (accept chunk ⟨limit, taken⟩).2 := by
  by_cases h : taken.utf8ByteSize + chunk.utf8ByteSize ≤ limit
  · rw [accept_of_le h]
    exact ⟨rest, hwhole⟩
  · rw [accept_of_not_le h]
    exact ⟨chunk ++ rest, by rw [← hwhole, String.append_assoc]⟩

/-- So has it whenever one looks. -/
theorem past_accept (limit : Nat) {past : List LimitedSink} {taken chunk rest : String}
    (hpast : ∀ s ∈ past, s.Begins whole) (hwhole : taken ++ chunk ++ rest = whole) :
    ∀ s ∈ past ++ [(accept chunk ⟨limit, taken⟩).2], s.Begins whole :=
  List.forall_mem_append.mpr ⟨hpast, List.forall_mem_singleton.mpr (begins_accept limit hwhole)⟩

/-- The sink of limited room keeps what it takes, and refuses nothing for which there is room. -/
theorem accept_keeps (limit : Nat) (whole : String) :
    (accept.remembering).Keeps (.ofState (LimitedSink × List LimitedSink)) (At limit whole)
      (Refused limit whole) whole where
  take := by
    rintro taken chunk rest ⟨s, past⟩ hwhole ⟨rfl, hpast, hroom⟩
    have hpast' := past_accept limit hpast hwhole
    by_cases hfits : taken.utf8ByteSize + chunk.utf8ByteSize ≤ limit
    · rw [accept_of_le hfits] at hpast'
      simp only [ProgramLogic.ofState, Sink.remembering, accept_of_le hfits]
      exact ⟨rfl, hpast', by rwa [String.utf8ByteSize_append]⟩
    · rw [accept_of_not_le hfits] at hpast'
      simp only [ProgramLogic.ofState, Sink.remembering, accept_of_not_le hfits]
      refine ⟨rfl, hpast', ?_⟩
      rw [← hwhole, String.utf8ByteSize_append, String.utf8ByteSize_append]
      omega
  again := by
    rintro taken chunk rest ⟨s, past⟩ hwhole ⟨rfl, hpast, hfull⟩
    have hpast' := past_accept limit hpast hwhole
    by_cases hfits : taken.utf8ByteSize + chunk.utf8ByteSize ≤ limit
    · rw [accept_of_le hfits] at hpast'
      simp only [ProgramLogic.ofState, Sink.remembering, accept_of_le hfits]
      exact ⟨rfl, hpast', hfull⟩
    · rw [accept_of_not_le hfits] at hpast'
      simp only [ProgramLogic.ofState, Sink.remembering, accept_of_not_le hfits]
      exact ⟨rfl, hpast', hfull⟩

open JsonLines

/-- **Writing to a sink of limited room.** The same is written whether the sink remembers what it
was after each chunk or not; after each chunk, the last try after a refusal included, it had taken a
beginning of the text of the records. The writing succeeds exactly if there is room for that text,
and then it tells how many records there are and the text is what the sink has taken. -/
theorem write_limited (rs : List Record) (limit : Nat) :
    ∃ outcome last moments,
      (write accept rs).run (ofLimit limit) = (outcome, last) ∧
      (write accept.remembering rs).run (ofLimit limit, []) = (outcome, last, moments) ∧
      (∀ s ∈ moments, s.Begins (text rs)) ∧
      last.Begins (text rs) ∧
      (outcome.isOk ↔ (text rs).utf8ByteSize ≤ limit) ∧
      (outcome.isOk → outcome = .ok rs.length ∧ last.taken = text rs) := by
  obtain ⟨hresult, hstate⟩ := write_remembering accept rs (ofLimit limit)
  have hstart : At limit (text rs) "" (ofLimit limit, []) := ⟨rfl, nofun, Nat.zero_le _⟩
  have hended : Ended (At limit (text rs)) (Refused limit (text rs)) (text rs)
      ((write accept.remembering rs).run (ofLimit limit, [])).1
      ((write accept.remembering rs).run (ofLimit limit, [])).2 ∧
      ∀ n, ((write accept.remembering rs).run (ofLimit limit, [])).1 = .ok n → n = rs.length :=
    write_sure (L := .ofState _) (accept_keeps limit (text rs)) hstart
  rcases hrun : (write accept.remembering rs).run (ofLimit limit, []) with ⟨outcome, last, moments⟩
  rw [hrun] at hresult hstate hended
  refine ⟨outcome, last, moments, Prod.ext hresult.symm hstate.symm, rfl, ?_⟩
  obtain ⟨hended, hcount⟩ := hended
  cases outcome with
  | ok n =>
      obtain ⟨rfl, hpast, hroom⟩ : At limit (text rs) (text rs) (last, moments) := hended
      obtain rfl := hcount n rfl
      exact ⟨hpast, ⟨"", String.append_empty⟩, ⟨fun _ => hroom, fun _ => rfl⟩, fun _ => ⟨rfl, rfl⟩⟩
  | error e =>
      obtain ⟨taken, rest, ⟨rfl, hpast, hfull⟩, hwhole⟩ := hended
      exact ⟨hpast, ⟨rest, hwhole⟩, ⟨nofun, fun hroom => absurd hroom (Nat.not_le.mpr hfull)⟩,
        nofun⟩

end LimitedSink

end SampleData
