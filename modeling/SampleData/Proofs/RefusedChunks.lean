import SampleData.Proofs.DrawnFiles
import SampleData.Proofs.WrittenFiles

/-!
# Refused chunks

Text goes to a file through a buffer, so what a file refuses is a chunk, and which piece was about
to be written then depends on the sizes of all pieces before it. How the refusal is reported depends
on it in turn: with the path of the file if that piece was the newline of a line, or if nothing was
left but to flush; without the path, as if the record had no text, if it was a piece of the record.

Which of the two it is can be told from what the file has seen: behind the refused chunk something
is left of the line that was being written, and the path is reported exactly if that is nothing, or
the newline alone. A record has always a text, so there is no other error without the path.

* `Sink.Tells`: a sink that tells what it refuses.
* `Buffer.Stops.exists_left`: what is left of the pieces where one can be refused.
* `JsonLines.writeTimed_told`: what is left of the line at a refusal, and the fault it becomes.
* `JsonLines.writeTimed_full`: a sink without room, and a record that does not fit into the buffer.
* `FileLedger`: what a file that was opened has taken and refused.
* `Populator.writeFile_refused`: how a refusal is reported, whatever is answered.
* `Populator.pathless_fullDevice`: a refusal that is reported without the path.
-/

namespace SampleData

open JsonLines

/-! ## Where a refusal comes -/

/-- A sink that tells what it refuses: `At t` says of a state that the sink has taken `t` and
refused nothing, and `Refused t e` that it has refused, with `e`, the chunk that would have brought
it to `t`. -/
structure Sink.Tells {m : Type → Type} [Monad m] {σ ε : Type} (L : ProgramLogic m σ)
    (sink : Sink m ε) (At : String → σ → Prop) (Refused : String → ε → σ → Prop) : Prop where
  take : ∀ {taken chunk : String} {s : σ}, At taken s →
    L.Sure (sink chunk) (fun r s' => match r with
      | .ok _ => At (taken ++ chunk) s'
      | .error e => Refused (taken ++ chunk) e s') s
  again : ∀ {stop chunk : String} {e : ε} {s : σ}, Refused stop e s →
    L.Sure (sink chunk) (fun _ s' => Refused stop e s') s

section told

variable {m : Type → Type} [Monad m] {σ ε γ : Type} {L : ProgramLogic m σ} {sink : Sink m ε}
  {At : String → σ → Prop} {Refused : String → ε → σ → Prop}

/-- What such a sink does with the next chunk of any text. -/
theorem Sink.Tells.takes (h : sink.Tells L At Refused) {whole : String} :
    sink.Takes L At (fun taken chunk => Refused (taken ++ chunk)) whole := fun _ hat => h.take hat

namespace Buffer

/-- What holds after a piece of writing that was to bring the text to `t`, if a refusal can come at
some places only. -/
def Told (At : String → σ → Prop) (Refused : String → ε → σ → Prop) (t : String)
    (Stop : String → Prop) (r : Except ε Unit × Buffer) (s : σ) : Prop :=
  match r.1 with
  | .ok _ => r.2.Upto At t s
  | .error e => ∃ stop, Stop stop ∧ Refused stop e s

/-- A refusal on the way is told by where it came. -/
theorem Brought.told {t : String} {Stop : String → Prop} {r : Except ε Unit × Buffer} {s : σ}
    (h : Brought At (fun taken chunk => Refused (taken ++ chunk)) t Stop r s) :
    Told At Refused t Stop r s := by
  obtain ⟨outcome, b⟩ := r
  cases outcome with
  | ok _ => exact h
  | error e =>
      obtain ⟨taken, chunk, -, hrefused, hstop, -⟩ := h
      exact ⟨taken ++ chunk, hstop, hrefused⟩

/-- Flushing is refused at the end of what is held, if anything is. -/
theorem flush_told (h : sink.Tells L At Refused) {b : Buffer} {t : String} {s : σ}
    (hb : b.Upto At t s) :
    L.Sure (b.flush sink)
      (fun r s' => Told At Refused t (fun stop => stop = t ∧ b.held ≠ "") r s' ∧
        (r.1.isOk → r.2 = empty)) s :=
  L.sure_mono (fun _ _ hr => ⟨hr.1.told, hr.2⟩) (flush_brought h.takes hb String.append_empty)

/-- A piece is refused before it or, if it is as large as the buffer, behind it. -/
theorem put_told (h : sink.Tells L At Refused) {b : Buffer} {t : String} {s : σ}
    (hb : b.Upto At t s) (piece : String) :
    L.Sure (b.put sink piece) (Told At Refused (t ++ piece) (Stops [piece] t)) s :=
  L.sure_mono (fun _ _ hr => hr.told) (put_brought h.takes hb String.append_empty)

/-- Of many pieces it is one that is refused. -/
theorem putAll_told (h : sink.Tells L At Refused) {b : Buffer} {t : String} {s : σ}
    (hb : b.Upto At t s) (ps : List String) :
    L.Sure (b.putAll sink ps) (Told At Refused (t ++ String.join ps) (Stops ps t)) s :=
  L.sure_mono (fun _ _ hr => hr.told) (putAll_brought h.takes hb String.append_empty)

/-- Pieces of which the last holds something come to something. -/
theorem join_ne_empty {ps : List String} {last : String} (hlast : ps.getLast? = some last)
    (hne : last ≠ "") : String.join ps ≠ "" := by
  obtain ⟨front, rfl⟩ := List.getLast?_eq_some_iff.mp hlast
  intro hempty
  rw [String.join_append, String.join_cons, String.append_eq_empty_iff,
    String.append_eq_empty_iff] at hempty
  exact hne hempty.2.1

/-- If the last piece is small and holds something, there is something left at every refusal. -/
theorem Stops.exists_left {ps : List String} {t stop last : String} (h : Stops ps t stop)
    (hlast : ps.getLast? = some last) (hne : last ≠ "") (hsmall : last.utf8ByteSize < capacity) :
    ∃ part left, stop = t ++ part ∧ part ++ left = String.join ps ∧ left ≠ "" := by
  induction h with
  | before p ps t =>
      exact ⟨"", _, String.append_empty.symm, String.empty_append, join_ne_empty hlast hne⟩
  | @behind p ps t hbig =>
      cases ps with
      | nil =>
          obtain rfl : p = last := Option.some.inj hlast
          exact absurd hbig (Nat.not_le.mpr hsmall)
      | cons q qs =>
          rw [List.getLast?_cons_cons] at hlast
          exact ⟨p, _, rfl, String.join_cons.symm, join_ne_empty hlast hne⟩
  | @later p t stop ps h ih =>
      cases ps with
      | nil => cases h
      | cons q qs =>
          rw [List.getLast?_cons_cons] at hlast
          obtain ⟨part, left, rfl, htext, hleft⟩ := ih hlast
          refine ⟨p ++ part, left, String.append_assoc, ?_, hleft⟩
          rw [String.append_assoc, htext, ← String.join_cons]

/-- Giving the buffer up after a refusal changes nothing of it. -/
theorem abandon_told (h : sink.Tells L At Refused) {stop : String} {e : ε} {s : σ}
    (hs : Refused stop e s) (b : Buffer) :
    L.Sure (b.abandon sink) (fun _ s' => Refused stop e s') s :=
  abandon_keeps hs (h.again hs)

end Buffer

/-! ## Lines that are broken off -/

/-- The fault that a refusal is, by what is left of the lines behind the refused chunk. -/
def LineFault.ofLeft (left : String) (e : ε) : LineFault ε :=
  if left = "" then .flush e else if left = "\n" then .newline e else .record e

/-- More than a newline is left as long as something of a record is. -/
theorem LineFault.ofLeft_record {left : String} (hleft : left ≠ "") (e : ε) :
    ofLeft (left ++ "\n") e = .record e := by
  have hempty : left ++ "\n" ≠ "" := fun h => hleft (String.append_eq_empty_iff.mp h).1
  have hnewline : left ++ "\n" ≠ "\n" := fun h => by
    refine hleft (String.append_left_inj "\n" |>.mp ?_)
    rw [h, String.empty_append]
  rw [ofLeft, if_neg hempty, if_neg hnewline]

namespace JsonLines

/-- A refusal is what ended the writing of a line behind a text, and the fault tells it by what was
left of the line. -/
def BrokenAt (Refused : String → ε → σ → Prop) (t line : String) (f : LineFault ε) (s : σ) : Prop :=
  ∃ e part left, f = .ofLeft left e ∧ part ++ left = line ∧ Refused (t ++ part) e s

/-- The last piece of a record closes it. -/
theorem getLast?_pieces (r : Record) : r.pieces.getLast? = some "\x7d" := by
  rw [Record.pieces, Json.pieces, Json.objectPieces, ← List.cons_append, List.getLast?_concat]

/-- The line of a record: at its newline nothing is left of the record, and before that some of it
is. -/
theorem writeRecord_told (h : sink.Tells L At Refused) {b : Buffer} {t : String} {s : σ}
    (hb : b.Upto At t s) (r : Record) :
    L.Sure (writeRecord sink b r)
      (fun x s' => match x.1 with
        | .ok _ => x.2.Upto At (t ++ line r) s'
        | .error f => BrokenAt Refused t (line r) f s') s := by
  have hline : t ++ line r = t ++ String.join r.pieces ++ "\n" := String.append_assoc.symm
  rw [hline]
  unfold writeRecord
  refine L.sure_then (Buffer.putAll_told h hb r.pieces) fun x s₁ hx => ?_
  obtain ⟨outcome, b₁⟩ := x
  cases outcome with
  | error e =>
      obtain ⟨stop, hstop, hrefused⟩ := hx
      obtain ⟨part, left, rfl, htext, hleft⟩ :=
        hstop.exists_left (getLast?_pieces r) (by decide) (by decide)
      refine L.sure_pure ⟨e, part, left ++ "\n", (LineFault.ofLeft_record hleft e).symm, ?_,
        hrefused⟩
      rw [← String.append_assoc, htext]
      rfl
  | ok _ =>
      refine L.sure_then (Buffer.put_told h hx "\n") fun x s₂ hx => ?_
      obtain ⟨outcome, b₂⟩ := x
      cases outcome with
      | ok _ => exact L.sure_pure hx
      | error e =>
          obtain ⟨stop, hstop, hrefused⟩ := hx
          cases hstop with
          | before => exact L.sure_pure ⟨e, _, "\n", rfl, rfl, hrefused⟩
          | behind _ _ hbig => exact absurd hbig (by decide)
          | later hlater => cases hlater

variable {Step : γ → Except DrawFault Record × γ → Prop}

/-- What ended the writing of lines behind a text: a draw from which no record came, or a refusal
at the last line that was begun. -/
def Broken (Refused : String → ε → σ → Prop) (Step : γ → Except DrawFault Record × γ → Prop)
    (n : Nat) (g : γ) (t : String) (f : LineFault ε) (g' : γ) (s : σ) : Prop :=
  (∃ d, f = .draw d) ∨
    ∃ rs r, rs.length < n ∧ Draws Step g (rs ++ [r]) g' ∧
      BrokenAt Refused (t ++ text rs) (line r) f s

/-- What holds after lines were to be written behind a text: they are those of records that were
drawn and all is up to them, or the writing was broken off. -/
def Wrote (Upto : String → σ → Prop) (Refused : String → ε → σ → Prop)
    (Step : γ → Except DrawFault Record × γ → Prop) (n : Nat) (g : γ) (t : String) {α : Type}
    (outcome : Except (LineFault ε) α) (g' : γ) (s : σ) : Prop :=
  match outcome with
  | .ok _ => ∃ rs, rs.length = n ∧ Draws Step g rs g' ∧ Upto (t ++ text rs) s
  | .error f => Broken Refused Step n g t f g' s

variable {next : γ → m (Except DrawFault Record × γ)} {clock : m Nat}

/-- Lines of records that are asked for: of all that were begun, some may be left at a refusal. -/
theorem writeNext_told (hclock : L.Still clock) (h : sink.Tells L At Refused)
    (hnext : ∀ g s, L.Sure (next g) (fun x s' => Step g x ∧ s' = s) s) (n : Nat) {w : Written}
    {g : γ} {b : Buffer} {t : String} {s : σ} (hb : b.Upto At t s) :
    L.Sure (writeNext clock sink next n w g b)
      (fun x s' => Wrote (x.2.2.Upto At) Refused Step n g t x.1 x.2.1 s') s := by
  have hdraw : ∀ g s, True → L.Sure (next g) (fun x s' => Step g x ∧ True ∧ s' = s) s :=
    fun g s _ => L.sure_mono (fun _ _ hx => ⟨hx.1, trivial, hx.2⟩) (hnext g s)
  refine L.sure_mono (fun x s' hx => ?_) (writeNext_cameTo hclock
    (fun t r f _ => BrokenAt Refused t (line r) f) (fun hb r => writeRecord_told h hb r) hdraw
    trivial hb)
  obtain ⟨outcome, g', b'⟩ := x
  cases outcome with
  | ok _ => exact hx.2
  | error f => exact hx.imp (fun ⟨_, d, hd, _⟩ => ⟨d, hd⟩) id

/-- The end of the writing: what is still held may be refused behind the last line. -/
theorem finish_told (hall : L.Total) (h : sink.Tells L At Refused) {n : Nat} {g g' : γ} {α : Type}
    {outcome : Except (LineFault ε) α} {b : Buffer} {s : σ}
    (hx : Wrote (b.Upto At) Refused Step n g "" outcome g' s) :
    L.Sure (finish sink outcome b) (fun r s' => Wrote At Refused Step n g "" r g' s') s := by
  unfold finish
  cases outcome with
  | error f =>
      rcases hx with hdraw | ⟨rs, r, hlen, hdraws, e, part, left, hfault, hline, hrefused⟩
      · exact L.sure_then (hall (b.abandon sink) s) fun _ s₁ _ => L.sure_pure (.inl hdraw)
      · exact L.sure_then (Buffer.abandon_told h hrefused b) fun _ s₁ hs₁ =>
          L.sure_pure (.inr ⟨rs, r, hlen, hdraws, e, part, left, hfault, hline, hs₁⟩)
  | ok _ =>
      obtain ⟨rs, hlen, hdraws, hupto⟩ := hx
      refine L.sure_then (Buffer.flush_told h hupto) fun x s₁ hx => ?_
      obtain ⟨outcome, b₁⟩ := x
      obtain ⟨htold, hempty⟩ := hx
      cases outcome with
      | ok _ =>
          obtain rfl := hempty rfl
          obtain ⟨taken, hat, htaken⟩ := htold
          rw [Buffer.empty, String.append_empty] at htaken
          exact L.sure_pure ⟨rs, hlen, hdraws, htaken ▸ hat⟩
      | error e =>
          obtain ⟨stop, ⟨rfl, hheld⟩, hrefused⟩ := htold
          refine L.sure_then (Buffer.abandon_told h hrefused b₁) fun _ s₂ hs₂ => ?_
          refine L.sure_pure (.inr ?_)
          rcases rs.eq_nil_or_concat with rfl | ⟨rs, r, rfl⟩
          · -- without lines nothing was held
            obtain ⟨taken, -, htaken⟩ := hupto
            exact absurd (String.append_eq_empty_iff.mp htaken).2 hheld
          · rw [List.concat_eq_append] at hdraws hs₂ hlen
            rw [List.length_append, List.length_singleton] at hlen
            rw [text_append, text_cons, text_nil, String.append_empty, ← String.append_assoc] at hs₂
            exact ⟨rs, r, by omega, hdraws, e, line r, "", rfl, String.append_empty, hs₂⟩

/-- **A refusal while lines are written** is the fault of what was left of the line at it; and if
there was none, all lines are those of records that were drawn. -/
theorem writeTimed_told (hclock : L.Still clock) (hall : L.Total) (h : sink.Tells L At Refused)
    (hnext : ∀ g s, L.Sure (next g) (fun x s' => Step g x ∧ s' = s) s) (n : Nat) {g : γ} {s : σ}
    (hs : At "" s) :
    L.Sure (writeTimed clock sink next n g)
      (fun x s' => Wrote At Refused Step n g "" x.1 x.2 s') s := by
  unfold writeTimed
  refine L.sure_then (writeNext_told hclock h hnext n (Buffer.upto_empty hs)) fun x s₁ hx => ?_
  obtain ⟨outcome, g₁, b⟩ := x
  exact L.sure_then (finish_told hall h hx) fun r s₂ hr => L.sure_pure hr

end JsonLines

end told

/-! ## No room at all -/

section full

variable {m : Type → Type} [Monad m] {σ ε γ : Type} {L : ProgramLogic m σ} {sink : Sink m ε}
  {e : ε} {s : σ}

/-- Giving a buffer up changes nothing of such a sink. -/
theorem Buffer.abandon_full
    (hfull : ∀ chunk, L.Sure (sink chunk) (fun r s' => r = .error e ∧ s' = s) s) (b : Buffer) :
    L.Sure (b.abandon sink) (fun _ s' => s' = s) s :=
  abandon_keeps rfl (L.sure_mono (fun _ _ hr => hr.2) (hfull b.held))

variable [LawfulMonad m]

/-- A sink that has no room for anything refuses what is held as soon as a piece does not fit beside
it. -/
theorem Buffer.put_full (hfull : ∀ chunk, L.Sure (sink chunk) (fun r s' => r = .error e ∧ s' = s) s)
    {b : Buffer} {piece : String} (hheld : b.held ≠ "") (hroom : b.room < piece.utf8ByteSize) :
    L.Sure (b.put sink piece) (fun x s' => x.1 = .error e ∧ s' = s) s := by
  unfold put flush
  rw [if_pos hroom, if_neg (mt String.isEmpty_iff.mp hheld), bind_assoc]
  refine L.sure_then (hfull b.held) fun r s' hr => ?_
  obtain ⟨rfl, rfl⟩ := hr
  exact L.sure_bind (L.sure_pure (L.sure_pure ⟨rfl, rfl⟩))

/-- A buffer with room for all pieces only holds more. -/
theorem Buffer.putAll_append_of_room (sink : Sink m ε) {b : Buffer} {ps : List String}
    (rest : List String) (hroom : (b.held ++ String.join ps).utf8ByteSize < capacity) :
    b.putAll sink (ps ++ rest) = Buffer.putAll sink ⟨b.held ++ String.join ps⟩ rest := by
  induction ps generalizing b with
  | nil => simp
  | cons p ps ih =>
      rw [String.join_cons, ← String.append_assoc] at hroom ⊢
      have hsizes := hroom
      rw [String.utf8ByteSize_append, String.utf8ByteSize_append] at hsizes
      have hput : b.put sink p = pure (.ok (), { held := b.held ++ p }) := by
        unfold put takePiece room
        rw [if_neg (by omega), if_neg (by omega)]
      rw [List.cons_append, putAll, hput, pure_bind]
      exact ih hroom

/-- If the first record does not fit into the buffer, such a sink refuses within its text. -/
theorem JsonLines.writeTimed_full {clock : m Nat} (hclock : L.Still clock)
    (hfull : ∀ chunk, L.Sure (sink chunk) (fun r s' => r = .error e ∧ s' = s) s)
    {next : γ → m (Except DrawFault Record × γ)} {g g' : γ} {r : Record}
    (hnext : next g = pure (.ok r, g')) {first rest : List String} {piece : String}
    (hpieces : r.pieces = first ++ piece :: rest) (hfirst : String.join first ≠ "")
    (hsmall : (String.join first).utf8ByteSize < Buffer.capacity)
    (hlarge : Buffer.capacity < (String.join first).utf8ByteSize + piece.utf8ByteSize) (n : Nat) :
    L.Sure (writeTimed clock sink next (n + 1) g)
      (fun x s' => x.1 = .error (.record e) ∧ s' = s) s := by
  have hempty : Buffer.empty.held ++ String.join first = String.join first := String.empty_append
  have hrecord : L.Sure (writeRecord sink .empty r)
      (fun x s' => x.1 = .error (.record e) ∧ s' = s) s := by
    have hroom : Buffer.room ⟨String.join first⟩ < piece.utf8ByteSize := by
      show Buffer.capacity - (String.join first).utf8ByteSize < _
      omega
    unfold writeRecord
    rw [hpieces, Buffer.putAll_append_of_room _ _ (by rwa [hempty]), hempty, Buffer.putAll,
      bind_assoc]
    refine L.sure_then (Buffer.put_full hfull hfirst hroom) fun x s' hx => ?_
    obtain ⟨outcome, b⟩ := x
    obtain ⟨rfl, rfl⟩ := hx
    exact L.sure_bind (L.sure_pure (L.sure_pure ⟨rfl, rfl⟩))
  have hfirst : L.Sure (writeNext clock sink next (n + 1) .none g .empty)
      (fun x s' => x.1 = .error (.record e) ∧ s' = s) s := by
    rw [writeNext, hnext]
    refine L.sure_then (timed_pure_sure hclock r g' s) fun x s₁ hx => ?_
    obtain ⟨⟨drawing, rfl⟩, rfl⟩ := hx
    refine L.sure_then (timed_sure hclock hrecord) fun x s₂ hx => ?_
    obtain ⟨outcome, b⟩ := x
    cases outcome with
    | ok _ => cases hx.1
    | error f =>
        obtain rfl : f = .record e := Except.error.inj hx.1
        exact L.sure_pure ⟨rfl, hx.2⟩
  unfold writeTimed
  refine L.sure_then hfirst fun x s' hx => ?_
  obtain ⟨outcome, g₁, b⟩ := x
  obtain ⟨rfl, rfl⟩ := hx
  refine L.sure_bind (L.sure_then (Buffer.abandon_full hfull b) fun _ s' hs => ?_)
  subst hs
  exact L.sure_pure (L.sure_pure ⟨rfl, rfl⟩)

end full

/-! ## The file that was opened -/

/-- What was seen of the file that was opened: the path it was opened under and the place it has,
the text it has taken, and the first chunk it refused. -/
structure FileLedger where
  path : String
  place : Location
  taken : String
  refused : Option (String × OsError)

namespace FileLedger

/-- A file that was just opened. -/
def opened (path : String) (place : Location) : FileLedger :=
  { path := path, place := place, taken := "", refused := none }

/-- A chunk was handed to the file. What it says to later ones does not matter once it has refused
one. -/
def note (l : FileLedger) (chunk : String) (answer : Except OsError Unit) : FileLedger :=
  match l.refused, answer with
  | some _, _ => l
  | none, .ok _ => { l with taken := l.taken ++ chunk }
  | none, .error e => { l with refused := some (chunk, e) }

/-- What is seen at the answer to a request. -/
def after (seen : Option FileLedger) (r : Request) (answer : r.Answer) : Option FileLedger :=
  match r, answer with
  | .create path _, .ok place => some (opened path place)
  | .append place chunk, answer =>
      seen.map fun l => if l.place = place then l.note chunk answer else l
  | _, _ => seen

/-- Everything may be asked for, and be answered in any way; what is seen is written down. -/
def rules : Rules (Option FileLedger) where
  Allowed _ _ := True
  Answers seen r answer seen' := seen' = after seen r answer

end FileLedger

open FileLedger

/-- Whatever is answered, what is asked for comes to something. -/
theorem FileLedger.rules_total : rules.logic.Total := Rules.total fun _ _ => trivial

/-- An open file tells what it refuses. -/
theorem fileSink_tells (path : String) (place : Location) :
    (fileSink place).Tells rules.logic
      (fun t seen => seen = some ⟨path, place, t, none⟩)
      (fun stop e seen => ∃ taken chunk, seen = some ⟨path, place, taken, some (chunk, e)⟩ ∧
        taken ++ chunk = stop) where
  take := by
    rintro taken chunk _ rfl
    refine rules.sure_request trivial ?_
    rintro a _ rfl
    have hplace : after (some ⟨path, place, taken, none⟩) (.append place chunk) a =
        some (note ⟨path, place, taken, none⟩ chunk a) := congrArg some (if_pos rfl)
    cases a with
    | ok _ => exact hplace
    | error e => exact ⟨taken, chunk, hplace, rfl⟩
  again := by
    rintro stop chunk e _ ⟨taken, refused, rfl, htext⟩
    refine rules.sure_request trivial ?_
    rintro a _ rfl
    exact ⟨taken, refused, congrArg some (if_pos rfl), htext⟩

/-- What is seen when a file was to be opened: it is a file that was just opened, or none, and then
no record was to be written. -/
def Opening (x : Except PopulateError (String × Location)) (seen : Option FileLedger) : Prop :=
  match x with
  | .ok (path, place) => seen = some (.opened path place)
  | .error e => seen = none ∧ ∀ refusal, e ≠ .record refusal

/-- Opening a file under a path. -/
theorem create_told (path : String) (fresh : Bool) {α : Type}
    {f : Except OsError Location → Action α} {Q : α → Option FileLedger → Prop}
    (hok : ∀ place, rules.logic.Sure (f (.ok place)) Q (some (.opened path place)))
    (herror : ∀ e, rules.logic.Sure (f (.error e)) Q none) :
    rules.logic.Sure (Action.request (.create path fresh) >>= f) Q none := by
  refine rules.logic.sure_bind (rules.sure_request trivial ?_)
  rintro (e | place) _ rfl
  · exact herror e
  · exact hok place

theorem openFresh_told (naming : Naming) (dir : String) (index : UInt64) (attempts : Nat) :
    rules.logic.Sure (openFresh naming dir index attempts) Opening none := by
  let L := rules.logic
  induction attempts with
  | zero => exact L.sure_pure ⟨rfl, nofun⟩
  | succ attempts ih =>
      rw [openFresh]
      refine L.sure_bind (rules.sure_request trivial ?_)
      rintro key _ rfl
      cases ((naming.drawName index).outcome (ChaCha.ofKey key)).1 with
      | error f => exact L.sure_pure ⟨rfl, nofun⟩
      | ok name =>
          refine create_told _ true (fun place => L.sure_pure rfl) fun e => ?_
          cases e with
          | «exists» =>
              dsimp only
              split
              · refine L.sure_bind (rules.sure_request trivial ?_)
                rintro _ _ rfl
                exact create_told _ false (fun place => L.sure_pure rfl) fun e =>
                  L.sure_pure ⟨rfl, nofun⟩
              · exact ih
          | _ => exact L.sure_pure ⟨rfl, nofun⟩

/-- Opening the file with a number. -/
theorem openOutput_told (naming : Naming) (dir : String) (index : UInt64) :
    rules.logic.Sure (openOutput naming dir index) Opening none := by
  unfold openOutput
  split
  · exact openFresh_told naming dir index maxNameAttempts
  · exact create_told _ false (fun place => rules.logic.sure_pure rfl) fun e =>
      rules.logic.sure_pure ⟨rfl, nofun⟩

/-! ## How a refusal is reported -/

/-- The error that is reported with the path of the file exactly if nothing of the record that was
being written is left behind the refused chunk. -/
def PopulateError.ofLeft (path left : String) (e : OsError) : PopulateError :=
  if left = "" ∨ left = "\n" then .writeFile path e else .record e

theorem PopulateError.ofLineFault_ofLeft (path left : String) (e : OsError) :
    ofLineFault path (.ofLeft left e) = ofLeft path left e := by
  unfold LineFault.ofLeft ofLeft
  split
  · next h => rw [if_pos (.inl h)]; rfl
  · next hempty =>
    split
    · next h => rw [if_pos (.inr h)]; rfl
    · next h => rw [if_neg (not_or.mpr ⟨hempty, h⟩)]; rfl

/-- A file that refused a chunk is reported: the chunk was to bring it to some part of the line of
the last record that was drawn, and what was left of that line says whether the error names the
file. -/
def Populator.Reports (p : Populator) (lines : UInt64) {α : Type}
    (x : Except PopulateError α × Populator) (l : FileLedger) (chunk : String) (e : OsError) :
    Prop :=
  ∃ rs r part left, rs.length < lines.toNat ∧
    Draws Generator.Next p.generator (rs ++ [r]) x.2.generator ∧
      l.taken ++ chunk = text rs ++ part ∧ part ++ left = line r ∧
        x.1 = .error (.ofLeft l.path left e)

/-- What is seen at the end of the writing: an error without a path comes of a chunk that was
refused, and if one was refused that is what is reported, unless a draw had failed before. -/
structure Populator.Accounted (p : Populator) (lines : UInt64) {α : Type}
    (x : Except PopulateError α × Populator) (seen : Option FileLedger) : Prop where
  pathless : ∀ e, x.1 = .error (.record e) →
    ∃ l chunk, seen = some l ∧ l.refused = some (chunk, e)
  reports : ∀ l chunk e, seen = some l → l.refused = some (chunk, e) →
    (∃ d, x.1 = .error (.draw d)) ∨ p.Reports lines x l chunk e

namespace Populator

variable {p : Populator} {lines : UInt64}

/-- What is said of an error does not depend on what was to come in its place. -/
theorem Accounted.error {α β : Type} {e : PopulateError} {p' : Populator}
    {seen : Option FileLedger}
    (hx : p.Accounted lines ((.error e : Except PopulateError α), p') seen) :
    p.Accounted lines ((.error e : Except PopulateError β), p') seen where
  pathless e' he' := hx.pathless e' (congrArg Except.error (Except.error.inj he'))
  reports l chunk e' hseen hrefused := by
    rcases hx.reports l chunk e' hseen hrefused with
      ⟨d, hd⟩ | ⟨rs, r, part, left, hlen, hdraws, htext, hline, herror⟩
    · exact .inl ⟨d, congrArg Except.error (Except.error.inj hd)⟩
    · exact .inr ⟨rs, r, part, left, hlen, hdraws, htext, hline,
        congrArg Except.error (Except.error.inj herror)⟩

/-- A file that refused nothing need not be reported, and any error but that of a record may be. -/
theorem accounted_of_unrefused {α : Type} {x : Except PopulateError α × Populator}
    {seen : Option FileLedger} (hseen : ∀ l, seen = some l → l.refused = none)
    (hx : ∀ e, x.1 ≠ .error (.record e)) : p.Accounted lines x seen where
  pathless e he := (hx e he).elim
  reports l _ _ hl hrefused := by
    rw [hseen l hl] at hrefused
    cases hrefused

/-- A refusal is reported as the fault it is. -/
theorem accounted_of_refused {α : Type} {p' : Populator} {path : String} {place : Location}
    {rs : List Record} {r : Record} {taken chunk part left : String} {e : OsError}
    (hlen : rs.length < lines.toNat)
    (hdraws : Draws Generator.Next p.generator (rs ++ [r]) p'.generator)
    (htext : taken ++ chunk = text rs ++ part) (hline : part ++ left = line r) :
    p.Accounted lines ((.error (.ofLeft path left e) : Except PopulateError α), p')
      (some ⟨path, place, taken, some (chunk, e)⟩) where
  pathless e' he' := by
    have herror : PopulateError.ofLeft path left e = .record e' := Except.error.inj he'
    unfold PopulateError.ofLeft at herror
    split at herror
    · cases herror
    · cases herror
      exact ⟨_, chunk, rfl, rfl⟩
  reports l chunk' e' hseen hrefused := by
    obtain rfl := Option.some.inj hseen
    cases hrefused
    exact .inr ⟨rs, r, part, left, hlen, hdraws, htext, hline, rfl⟩

variable (p lines)

/-- Filling an open file. -/
theorem fill_told (path : String) (place : Location) :
    rules.logic.Sure (p.fill path place lines) (p.Accounted lines) (some (.opened path place)) := by
  let L := rules.logic
  have hnext : ∀ (g : Generator) seen,
      L.Sure g.nextAction (fun x seen' => g.Next x ∧ seen' = seen) seen := fun g _ =>
    Generator.nextAction_sure ⟨trivial, fun _ _ h => h⟩ g
  have hclock : L.Still (Action.request .timer) :=
    rules.still_request fun _ => ⟨trivial, fun _ _ => id⟩
  have hlines := writeTimed_told hclock FileLedger.rules_total (fileSink_tells path place) hnext
    lines.toNat (g := p.generator) rfl
  unfold fill
  refine L.sure_then hlines fun x seen hx => ?_
  obtain ⟨outcome, g⟩ := x
  refine L.sure_bind (rules.sure_request trivial ?_)
  rintro _ _ rfl
  cases outcome with
  | error f =>
      rcases hx with ⟨d, rfl⟩ | ⟨rs, r, hlen, hdraws, e, part, left, rfl, hline, taken, chunk, rfl,
        htext⟩
      · exact L.sure_pure ⟨nofun, fun _ _ _ _ _ => .inl ⟨d, rfl⟩⟩
      · rw [String.empty_append] at htext
        dsimp only
        rw [PopulateError.ofLineFault_ofLeft]
        exact L.sure_pure (accounted_of_refused hlen hdraws htext hline)
  | ok rows =>
      obtain ⟨rs, -, -, rfl⟩ := hx
      have hunrefused : ∀ l : FileLedger, some ⟨path, place, "" ++ text rs, none⟩ = some l →
          l.refused = none := fun l hl => Option.some.inj hl ▸ rfl
      refine L.sure_bind (rules.sure_request trivial ?_)
      rintro a _ rfl
      cases a with
      | error e => exact L.sure_pure (accounted_of_unrefused hunrefused nofun)
      | ok bytes => exact L.sure_pure (accounted_of_unrefused hunrefused nofun)

/-- **A file that refuses text** is reported by what is left, behind the refused chunk, of the line
that was being written, whatever the surroundings answer and wherever they refuse: with its path
and the refusal if that is nothing or the newline, and without the path if something of the record
is left. Nothing else is reported without a path, as a record always has a text. -/
theorem writeFile_refused (dir : String) (index : UInt64) :
    rules.logic.Sure (p.writeFile dir index lines) (p.Accounted lines) none := by
  let L := rules.logic
  unfold writeFile
  refine L.sure_bind (rules.sure_request trivial ?_)
  rintro started _ rfl
  refine L.sure_then (openOutput_told p.naming dir index) fun x seen hx => ?_
  cases x with
  | error e =>
      obtain ⟨rfl, hrecord⟩ := hx
      exact L.sure_pure (accounted_of_unrefused nofun fun e' he' =>
        hrecord e' (Except.error.inj he'))
  | ok file =>
      obtain ⟨path, place⟩ := file
      obtain rfl : seen = some (.opened path place) := hx
      refine L.sure_then (p.fill_told lines path place) fun x seen hx => ?_
      obtain ⟨outcome, p'⟩ := x
      cases outcome with
      | error e => exact L.sure_pure hx.error
      | ok sizes =>
          refine L.sure_bind (rules.sure_request trivial ?_)
          rintro ended _ rfl
          refine L.sure_pure ⟨nofun, fun l chunk e hseen hrefused => ?_⟩
          rcases hx.reports l chunk e hseen hrefused with ⟨d, hd⟩ | ⟨_, _, _, _, _, _, _, _, herror⟩
          · cases hd
          · cases herror

end Populator

/-! ## A long text on a device without room -/

/-- Characters that are written as they stand are one piece. -/
theorem Json.characterPieces_of_plain {cs : List Char} (hne : cs ≠ [])
    (hplain : ∀ c ∈ cs, Json.isPlain c) : Json.characterPieces cs = [String.ofList cs] := by
  cases cs with
  | nil => exact absurd rfl hne
  | cons c rest =>
      obtain ⟨hc, hrest⟩ := List.forall_mem_cons.mp hplain
      have hnone : Json.escape? c = none := Option.isNone_iff_eq_none.mp hc
      rw [characterPieces, hnone]
      dsimp only
      rw [List.takeWhile_eq_self_iff.mpr hrest, List.dropWhile_eq_nil_iff.mpr hrest,
        characterPieces]

/-- A text of so many letters. -/
def longText (n : Nat) : String := String.ofList (List.replicate n 'z')

theorem utf8ByteSize_longText (n : Nat) : (longText n).utf8ByteSize = n := by
  unfold longText
  induction n with
  | zero => rfl
  | succ n ih =>
      rw [List.replicate_succ, ← List.singleton_append, String.ofList_append,
        String.utf8ByteSize_append, ih, Nat.add_comm]
      rfl

/-- A record of one long text. -/
def longRecord (n : Nat) : Record := { fields := [("s", .text (longText n))] }

/-- The long text is a piece of its own. -/
theorem pieces_longRecord {n : Nat} (hn : n ≠ 0) :
    (longRecord n).pieces = ["\x7b", "\"", "s", "\"", ":", "\""] ++ [longText n, "\"", "\x7d"] := by
  have hchars : Json.characterPieces (longText n).toList = [longText n] := by
    rw [longText, String.toList_ofList]
    refine Json.characterPieces_of_plain (by simpa using hn) fun c hc => ?_
    obtain rfl := List.eq_of_mem_replicate hc
    rfl
  have hname : Json.characterPieces ['s'] = ["s"] :=
    Json.characterPieces_of_plain (List.cons_ne_nil _ _) (List.forall_mem_singleton.mpr rfl)
  simp [longRecord, Record.pieces, Record.members, Value.toJson, Json.pieces, Json.piecesOfMembers,
    Json.objectPieces, Json.separated, Json.stringPieces, hchars, hname]

/-- A populator of such records. -/
def longPopulator (n : Nat) : Populator where
  generator := .ofSeed { fields := [⟨"s", .text, .fixed (.text (longText n))⟩] } 42
  naming := { base := "users", scheme := .count }

/-- A world in which the name of the first file leads to a device that has no room. -/
def fullWorld : World where
  disk :=
    { places := [(["dev"], .directory), (["dev", "full"], .fullDevice), (["o"], .directory),
        (["o", "1_users.json"], .link "/dev/full")]
      current := [] }
  logged := []
  printed := ""
  time := { seconds := 0, nanos := 0 }
  keys := .ofSeed 0

theorem nextAction_long (n : Nat) : (longPopulator n).generator.nextAction =
    pure (.ok (longRecord n), (longPopulator n).generator) := rfl

/-- **A refusal without a path**: the text of the first record does not fit into the buffer, so what
is held has to go out before it. -/
theorem Populator.pathless_fullDevice :
    (((longPopulator Buffer.capacity).writeFile "/o" 1 1).run fullWorld).1.1 =
        .error (.record .noSpace) ∧
      ¬ ∃ path e, (((longPopulator Buffer.capacity).writeFile "/o" 1 1).run fullWorld).1.1 =
        .error (.writeFile path e) := by
  let L := World.logic
  have hcreate : fullWorld.disk.create "/o/1_users.json" false =
      .ok (["dev", "full"], fullWorld.disk) := by
    decide +kernel
  have hpath : Path.join "/o" (fileName (Text.showUInt64 1) "users") = "/o/1_users.json" := by
    decide +kernel
  have hfull : ∀ chunk, L.Sure (fileSink ["dev", "full"] chunk)
      (fun r w => r = .error .noSpace ∧ w = fullWorld) fullWorld := fun _ =>
    World.sure_request ⟨rfl, rfl⟩
  have hlines := writeTimed_full World.still_timer hfull (nextAction_long Buffer.capacity)
    (pieces_longRecord (n := Buffer.capacity) (by decide)) (by decide) (by decide)
    (by rw [utf8ByteSize_longText]; decide) 0
  suffices hrun : L.Sure ((longPopulator Buffer.capacity).writeFile "/o" 1 1)
      (fun x _ => x.1 = .error (.record .noSpace)) fullWorld from
    ⟨hrun, fun ⟨_, _, hwrite⟩ => nomatch hrun.symm.trans hwrite⟩
  unfold writeFile
  refine L.sure_bind (World.sure_request ?_)
  change L.Sure _ _ fullWorld
  refine L.sure_then (P := fun x w => x = .ok ("/o/1_users.json", ["dev", "full"]) ∧ w = fullWorld)
    ?_ ?_
  · unfold openOutput
    rw [if_neg (by decide)]
    dsimp only [longPopulator]
    rw [hpath]
    refine L.sure_bind (World.sure_request ?_)
    rw [World.answer, hcreate]
    exact L.sure_pure ⟨rfl, rfl⟩
  · rintro _ _ ⟨rfl, rfl⟩
    refine L.sure_then (P := fun x _ => x.1 = .error (.record .noSpace)) ?_ ?_
    · unfold fill
      refine L.sure_then hlines fun x w hx => ?_
      obtain ⟨outcome, g⟩ := x
      obtain ⟨rfl, rfl⟩ := hx
      exact L.sure_bind (World.sure_request (L.sure_pure rfl))
    · rintro ⟨outcome, p⟩ w rfl
      exact L.sure_pure rfl

end SampleData
