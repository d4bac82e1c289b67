import SampleData.Output.Buffer

/-!
# What computations are sure to come to

Text is written in surroundings of several sorts: a sink that is a value, a disk, a disk that other
workers write to at the same time. What is written does not depend on which of them it is, so it is
said once, of any surroundings in which one can say what holds after a computation whatever
happens: `ProgramLogic`.

* `ProgramLogic`: the rules by which such statements are put together.
* `ProgramLogic.ofState`: the surroundings are a value.
* `Buffer.putAll_brought`: pieces through a buffer, and where a refusal can come.
* `Buffer.putAll_sure`: what a buffered sink has taken and what is still held, after any pieces.
-/

namespace SampleData

/-- Statements on what a computation is sure to come to from a state, with the three rules by which
they are put together. -/
structure ProgramLogic (m : Type → Type) [Monad m] (σ : Type) where
  /-- From the state, the computation ends only in results and states as said. -/
  Sure : {α : Type} → m α → (α → σ → Prop) → σ → Prop
  sure_pure : ∀ {α : Type} {a : α} {Q : α → σ → Prop} {s : σ}, Q a s → Sure (pure a) Q s
  sure_bind : ∀ {α β : Type} {x : m α} {f : α → m β} {Q : β → σ → Prop} {s : σ},
    Sure x (fun a s' => Sure (f a) Q s') s → Sure (x >>= f) Q s
  sure_mono : ∀ {α : Type} {x : m α} {P Q : α → σ → Prop} {s : σ},
    (∀ a s', P a s' → Q a s') → Sure x P s → Sure x Q s

namespace ProgramLogic

variable {m : Type → Type} [Monad m] {σ : Type} (L : ProgramLogic m σ)

/-- A computation after another, each with a statement of its own. -/
theorem sure_then {α β : Type} {x : m α} {f : α → m β} {P : α → σ → Prop} {Q : β → σ → Prop} {s : σ}
    (hx : L.Sure x P s) (hf : ∀ a s', P a s' → L.Sure (f a) Q s') : L.Sure (x >>= f) Q s :=
  L.sure_bind (L.sure_mono hf hx)

/-- A computation that leaves its surroundings as they are. -/
def Still {α : Type} (x : m α) : Prop := ∀ s, L.Sure x (fun _ s' => s' = s) s

/-- A value that is at hand leaves them so. -/
theorem still_pure {α : Type} (a : α) : L.Still (pure a) := fun _ => L.sure_pure rfl

/-- Every computation comes to something. -/
def Total : Prop := ∀ {α : Type} (x : m α) (s : σ), L.Sure x (fun _ _ => True) s

/-- The surroundings are a value that computations pass on: there is one result, and one value
after it. -/
def ofState (σ : Type) : ProgramLogic (StateM σ) σ where
  Sure x Q s := Q (x s).1 (x s).2
  sure_pure h := h
  sure_bind h := h
  sure_mono h := h _ _

end ProgramLogic

/-! ## Pieces through a buffer -/

variable {m : Type → Type} [Monad m] {σ ε : Type}

/-- What a sink does with the next chunk of a text that is to come of it: `At t` says of a state
that the sink has taken `t` and refused nothing, and `Refuses taken chunk e` that it has refused
`chunk`, with `e`, behind what it had taken. Nothing is said of chunks that would make another
text. -/
def Sink.Takes (L : ProgramLogic m σ) (sink : Sink m ε) (At : String → σ → Prop)
    (Refuses : String → String → ε → σ → Prop) (whole : String) : Prop :=
  ∀ {taken chunk rest : String} {s : σ}, taken ++ chunk ++ rest = whole → At taken s →
    L.Sure (sink chunk) (fun r s' => match r with
      | .ok _ => At (taken ++ chunk) s'
      | .error e => Refuses taken chunk e s') s

namespace Buffer

/-- The sink has taken a text up to what the buffer still holds of it. -/
def Upto (At : String → σ → Prop) (b : Buffer) (t : String) (s : σ) : Prop :=
  ∃ taken, At taken s ∧ taken ++ b.held = t

/-- Where a refusal can come when pieces are written behind a text: before a piece, or behind one
that is as large as the buffer. -/
inductive Stops : List String → String → String → Prop
  | before (p : String) (ps : List String) (t : String) : Stops (p :: ps) t t
  | behind {p : String} (ps : List String) (t : String) (h : capacity ≤ p.utf8ByteSize) :
      Stops (p :: ps) t (t ++ p)
  | later {p t stop : String} {ps : List String} (h : Stops ps (t ++ p) stop) :
      Stops (p :: ps) t stop

/-- A refusal comes at a beginning of what was to be written. -/
theorem Stops.exists_rest {ps : List String} {t stop : String} (h : Stops ps t stop) :
    ∃ rest, stop ++ rest = t ++ String.join ps := by
  induction h with
  | before p ps t => exact ⟨_, rfl⟩
  | behind ps t _ => exact ⟨_, by rw [String.join_cons, String.append_assoc]⟩
  | later _ ih => rwa [String.join_cons, ← String.append_assoc]

/-- Further pieces change nothing of where the first ones can be refused. -/
theorem Stops.append {ps : List String} {t stop : String} (h : Stops ps t stop)
    (qs : List String) : Stops (ps ++ qs) t stop := by
  induction h with
  | before p ps t => exact .before p (ps ++ qs) t
  | behind ps t hbig => exact .behind (ps ++ qs) t hbig
  | later _ ih => exact .later ih

/-- What holds after a piece of writing that was to bring the text to `t`: the buffer is up to it,
or a chunk was refused where a refusal can come, and what the buffer still holds is a beginning of
that chunk. -/
def Brought (At : String → σ → Prop) (Refuses : String → String → ε → σ → Prop) (t : String)
    (Stop : String → Prop) (r : Except ε Unit × Buffer) (s : σ) : Prop :=
  match r.1 with
  | .ok _ => r.2.Upto At t s
  | .error e => ∃ taken chunk left, Refuses taken chunk e s ∧ Stop (taken ++ chunk) ∧
      r.2.held ++ left = chunk

variable {L : ProgramLogic m σ} {sink : Sink m ε} {At : String → σ → Prop} {whole : String}

/-- The buffer that holds nothing is up to what the sink has taken. -/
theorem upto_empty {t : String} {s : σ} (h : At t s) : empty.Upto At t s :=
  ⟨t, h, String.append_empty⟩

section brought

variable {Refuses : String → String → ε → σ → Prop}

/-- Flushing takes the sink to the text and leaves nothing held, or it is refused at the end of what
was held. -/
theorem flush_brought (h : sink.Takes L At Refuses whole) {b : Buffer} {t rest : String} {s : σ}
    (hb : b.Upto At t s) (hrest : t ++ rest = whole) :
    L.Sure (b.flush sink)
      (fun r s' => Brought At Refuses t (fun stop => stop = t ∧ b.held ≠ "") r s' ∧
        (r.1.isOk → r.2 = empty)) s := by
  obtain ⟨taken, hat, rfl⟩ := hb
  unfold flush
  split
  · next hempty =>
    have hheld : b = empty := congrArg Buffer.mk (String.isEmpty_iff.mp hempty)
    exact L.sure_pure ⟨⟨taken, hat, rfl⟩, fun _ => hheld⟩
  · next hheld =>
    refine L.sure_then (h hrest hat) fun r s' hr => ?_
    cases r with
    | ok _ => exact L.sure_pure ⟨⟨taken ++ b.held, hr, String.append_empty⟩, fun _ => rfl⟩
    | error e =>
        exact L.sure_pure ⟨⟨taken, b.held, "", hr, ⟨rfl, mt String.isEmpty_iff.mpr hheld⟩,
          String.append_empty⟩, nofun⟩

/-- A piece as large as the buffer has room only beside nothing. -/
theorem held_eq_empty_of_room {b : Buffer} {piece : String} (hroom : ¬ b.room < piece.utf8ByteSize)
    (hbig : capacity ≤ piece.utf8ByteSize) : b.held = "" := by
  rw [← String.utf8ByteSize_eq_zero_iff]
  unfold room capacity at hroom
  unfold capacity at hbig
  omega

/-- A piece that fits beside what is held, or that meets a buffer that holds nothing, is refused
only behind it, and only if it is as large as the buffer. -/
theorem takePiece_brought (h : sink.Takes L At Refuses whole) {b : Buffer} {t piece rest : String}
    {s : σ} (hb : b.Upto At t s) (hrest : t ++ piece ++ rest = whole)
    (hroom : capacity ≤ piece.utf8ByteSize → b.held = "") :
    L.Sure (b.takePiece sink piece) (Brought At Refuses (t ++ piece) (Stops [piece] t)) s := by
  obtain ⟨taken, hat, rfl⟩ := hb
  unfold takePiece
  split
  · next hbig =>
    rw [hroom hbig, String.append_empty] at hrest ⊢
    refine L.sure_then (h hrest hat) fun r s' hr => ?_
    cases r with
    | ok _ =>
        exact L.sure_pure ⟨taken ++ piece, hr, by rw [hroom hbig, String.append_empty]⟩
    | error e =>
        refine L.sure_pure ⟨taken, piece, piece, hr, .behind [] taken hbig, ?_⟩
        rw [hroom hbig, String.empty_append]
  · exact L.sure_pure ⟨taken, hat, String.append_assoc.symm⟩

/-- Any piece may also be refused before it, when what is held has to go out. -/
theorem put_brought (h : sink.Takes L At Refuses whole) {b : Buffer} {t piece rest : String} {s : σ}
    (hb : b.Upto At t s) (hrest : t ++ piece ++ rest = whole) :
    L.Sure (b.put sink piece) (Brought At Refuses (t ++ piece) (Stops [piece] t)) s := by
  unfold put
  split
  · have hheld : t ++ (piece ++ rest) = whole := by rw [← String.append_assoc, hrest]
    refine L.sure_then (flush_brought h hb hheld) fun r s' hr => ?_
    obtain ⟨outcome, b'⟩ := r
    obtain ⟨hbrought, hempty⟩ := hr
    cases outcome with
    | ok _ =>
        obtain rfl := hempty rfl
        exact takePiece_brought h hbrought hrest fun _ => rfl
    | error e =>
        obtain ⟨taken, chunk, left, hrefused, ⟨rfl, -⟩, hleft⟩ := hbrought
        exact L.sure_pure ⟨taken, chunk, left, hrefused, .before piece [] _, hleft⟩
  · next hroom => exact takePiece_brought h hb hrest (held_eq_empty_of_room hroom)

/-- **Pieces through a buffer**: all of them bring the text to its end, or one of them is
refused. -/
theorem putAll_brought (h : sink.Takes L At Refuses whole) {ps : List String} {b : Buffer}
    {t rest : String} {s : σ} (hb : b.Upto At t s) (hrest : t ++ String.join ps ++ rest = whole) :
    L.Sure (b.putAll sink ps) (Brought At Refuses (t ++ String.join ps) (Stops ps t)) s := by
  induction ps generalizing b t s with
  | nil =>
      rw [String.join_nil, String.append_empty]
      exact L.sure_pure hb
  | cons p ps ih =>
      rw [String.join_cons, ← String.append_assoc] at hrest ⊢
      have hput : t ++ p ++ (String.join ps ++ rest) = whole := by
        rw [← String.append_assoc, hrest]
      refine L.sure_then (put_brought h hb hput) fun r s' hr => ?_
      obtain ⟨outcome, b'⟩ := r
      cases outcome with
      | error e =>
          obtain ⟨taken, chunk, left, hrefused, hstop, hleft⟩ := hr
          exact L.sure_pure ⟨taken, chunk, left, hrefused, hstop.append ps, hleft⟩
      | ok _ =>
          refine L.sure_mono (fun r s'' hrest => ?_) (ih hr hrest)
          obtain ⟨outcome, b''⟩ := r
          cases outcome with
          | ok _ => exact hrest
          | error e =>
              obtain ⟨taken, chunk, left, hrefused, hstop, hleft⟩ := hrest
              exact ⟨taken, chunk, left, hrefused, .later hstop, hleft⟩

end brought

/-- Giving a buffer up keeps what handing on the rest once more keeps. -/
theorem abandon_keeps {Q : σ → Prop} {b : Buffer} {s : σ} (hs : Q s)
    (hagain : L.Sure (sink b.held) (fun _ s' => Q s') s) :
    L.Sure (b.abandon sink) (fun _ s' => Q s') s := by
  have hflush : L.Sure (b.flush sink) (fun _ s' => Q s') s := by
    unfold flush
    split
    · exact L.sure_pure hs
    · refine L.sure_then hagain fun r s' hs' => ?_
      cases r with
      | ok _ => exact L.sure_pure hs'
      | error e => exact L.sure_pure hs'
  exact L.sure_then hflush fun _ s' hs' => L.sure_pure hs'

end Buffer

/-! ## Sinks that keep what they take -/

/-- A sink of which a text is to come: `At t` says of a state that the sink has taken `t` and
refused nothing, and `Refused t` that it has taken `t` and refused something. Nothing is said of
chunks that would make another text. -/
structure Sink.Keeps (L : ProgramLogic m σ) (sink : Sink m ε) (At Refused : String → σ → Prop)
    (whole : String) : Prop where
  take : ∀ {taken chunk rest : String} {s : σ}, taken ++ chunk ++ rest = whole → At taken s →
    L.Sure (sink chunk)
      (fun r s' => if r.isOk then At (taken ++ chunk) s' else Refused taken s') s
  again : ∀ {taken chunk rest : String} {s : σ}, taken ++ chunk ++ rest = whole → Refused taken s →
    L.Sure (sink chunk)
      (fun r s' => if r.isOk then Refused (taken ++ chunk) s' else Refused taken s') s

variable {L : ProgramLogic m σ} {sink : Sink m ε} {At Refused : String → σ → Prop}
  {whole : String}

/-- What such a sink does with the next chunk. -/
theorem Sink.Keeps.takes (h : sink.Keeps L At Refused whole) :
    sink.Takes L At (fun taken _ _ => Refused taken) whole := by
  intro taken chunk rest s hrest hat
  refine L.sure_mono (fun r s' hr => ?_) (h.take hrest hat)
  cases r with
  | ok _ => exact hr
  | error e => exact hr

namespace Buffer

/-- The sink has refused something; what it has taken and what the buffer holds are the beginning
of the text. -/
def Stopped (Refused : String → σ → Prop) (whole : String) (b : Buffer) (s : σ) : Prop :=
  ∃ taken rest, Refused taken s ∧ taken ++ b.held ++ rest = whole

/-- What holds after a piece of writing that was to bring the text to `t`. -/
def Reached (At Refused : String → σ → Prop) (whole t : String) {δ α : Type}
    (r : Except δ α × Buffer) (s : σ) : Prop :=
  if r.1.isOk then r.2.Upto At t s else r.2.Stopped Refused whole s

/-- A refusal on the way to `t` leaves a beginning of the text. -/
theorem Brought.reached {t rest : String} {Stop : String → Prop} {r : Except ε Unit × Buffer}
    {s : σ} (h : Brought At (fun taken _ _ => Refused taken) t Stop r s)
    (hstop : ∀ stop, Stop stop → ∃ after, stop ++ after = t) (hrest : t ++ rest = whole) :
    Reached At Refused whole t r s := by
  obtain ⟨outcome, b⟩ := r
  cases outcome with
  | ok _ => exact h
  | error e =>
      obtain ⟨taken, _, left, hrefused, hat, rfl⟩ := h
      obtain ⟨after, rfl⟩ := hstop _ hat
      exact ⟨taken, left ++ after ++ rest, hrefused, by simp only [← hrest, String.append_assoc]⟩

/-- Flushing takes the sink to the text and leaves nothing held, or stops. -/
theorem flush_sure (h : sink.Keeps L At Refused whole) {b : Buffer} {t rest : String} {s : σ}
    (hb : b.Upto At t s) (hrest : t ++ rest = whole) :
    L.Sure (b.flush sink)
      (fun r s' => Reached At Refused whole t r s' ∧ (r.1.isOk → r.2 = empty)) s := by
  refine L.sure_mono (fun r s' hr => ⟨?_, hr.2⟩) (flush_brought h.takes hb hrest)
  exact hr.1.reached (fun _ hstop => ⟨"", by rw [hstop.1, String.append_empty]⟩) hrest

/-- A piece, whether what is held has to go out before it or not. -/
theorem put_sure (h : sink.Keeps L At Refused whole) {b : Buffer} {t piece rest : String} {s : σ}
    (hb : b.Upto At t s) (hrest : t ++ piece ++ rest = whole) :
    L.Sure (b.put sink piece) (Reached At Refused whole (t ++ piece)) s := by
  have hpiece : t ++ String.join [piece] = t ++ piece := by
    rw [String.join_cons, String.join_nil, String.append_empty]
  refine L.sure_mono (fun r s' hr => ?_) (put_brought h.takes hb hrest)
  exact hr.reached (fun _ hstop => hpiece ▸ hstop.exists_rest) hrest

/-- Nothing of many pieces is lost, repeated or out of order, and what a refusal leaves behind is a
beginning of the text. -/
theorem putAll_sure (h : sink.Keeps L At Refused whole) {ps : List String} {b : Buffer}
    {t rest : String} {s : σ} (hb : b.Upto At t s) (hrest : t ++ String.join ps ++ rest = whole) :
    L.Sure (b.putAll sink ps) (Reached At Refused whole (t ++ String.join ps)) s :=
  L.sure_mono (fun _ _ hr => hr.reached (fun _ hstop => hstop.exists_rest) hrest)
    (putAll_brought h.takes hb hrest)

/-- Giving a buffer up leaves the sink with a beginning of the text, whatever it says to what was
still held. -/
theorem abandon_sure (h : sink.Keeps L At Refused whole) {b : Buffer} {s : σ}
    (hb : b.Stopped Refused whole s) :
    L.Sure (b.abandon sink) (fun _ s' => ∃ taken rest, Refused taken s' ∧ taken ++ rest = whole)
      s := by
  obtain ⟨taken, rest, hrefused, hrest⟩ := hb
  have hstays : taken ++ (b.held ++ rest) = whole := by rw [← String.append_assoc, hrest]
  refine abandon_keeps ⟨taken, _, hrefused, hstays⟩ ?_
  refine L.sure_mono (fun r s' hr => ?_) (h.again hrest hrefused)
  cases r with
  | ok _ => exact ⟨_, _, hr, hrest⟩
  | error e => exact ⟨_, _, hr, hstays⟩

end Buffer

end SampleData
