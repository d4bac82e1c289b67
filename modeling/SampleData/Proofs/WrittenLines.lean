import SampleData.Output.JsonLines
import SampleData.Proofs.ProgramLogic

/-!
# Lines through a buffer

Records that are at hand and records that are asked for one at a time end in the same text. When
the writing comes to its end, the sink has taken exactly that text; when it does not, the sink has
refused a chunk, and what it has taken is a beginning of the text.

* `JsonLines.Gives`: the records that a state of drawing gives in a row.
* `JsonLines.write_sure`: records at hand.
* `JsonLines.timed_sure`: the clock that is read on the way has no part in it.
* `JsonLines.writeTimed_sure`: records that are asked for.
* `JsonLines.writeTimed_drawn`, `JsonLines.writeTimed_gives`: lines that were written are those of
  records that were drawn, or given.
-/

namespace SampleData

namespace JsonLines

/-! ## The text -/

@[simp] theorem text_nil : text [] = "" := rfl

@[simp] theorem text_cons (r : Record) (rs : List Record) :
    text (r :: rs) = line r ++ text rs := String.join_cons

@[simp] theorem text_append (rs rs' : List Record) : text (rs ++ rs') = text rs ++ text rs' := by
  simp [text]

/-- The texts of rows of records, one after the other, are the text of all. -/
@[simp] theorem join_map_text (rss : List (List Record)) :
    String.join (rss.map text) = text rss.flatten := by
  induction rss with
  | nil => rfl
  | cons rs rss ih => rw [List.map_cons, String.join_cons, ih, List.flatten_cons, text_append]

/-! ## Records that are asked for -/

/-- Asked for one at a time, a state gives the records and ends up as another; the surroundings have
no part in it. -/
inductive Gives {m : Type → Type} [Monad m] {γ : Type}
    (next : γ → m (Except DrawFault Record × γ)) : γ → List Record → γ → Prop
  | nil (g : γ) : Gives next g [] g
  | cons {g g' g'' : γ} {r : Record} {rs : List Record} (h : next g = pure (.ok r, g'))
      (hrest : Gives next g' rs g'') : Gives next g (r :: rs) g''

/-- Records that are given in a row are given in two rows, wherever the row is cut. -/
theorem Gives.split {m : Type → Type} [Monad m] {γ : Type}
    {next : γ → m (Except DrawFault Record × γ)} {g g' : γ} {rs rs' : List Record}
    (h : Gives next g (rs ++ rs') g') : ∃ g₁, Gives next g rs g₁ ∧ Gives next g₁ rs' g' := by
  induction rs generalizing g with
  | nil => exact ⟨g, .nil g, h⟩
  | cons r rs ih =>
      cases h with
      | cons hr hrest =>
          obtain ⟨g₁, hfirst, hsecond⟩ := ih hrest
          exact ⟨g₁, .cons hr hfirst, hsecond⟩

/-- Records that are given in two rows are given in a row. -/
theorem Gives.append {m : Type → Type} [Monad m] {γ : Type}
    {next : γ → m (Except DrawFault Record × γ)} {g g₁ g' : γ} {rs rs' : List Record}
    (h : Gives next g rs g₁) (h' : Gives next g₁ rs' g') : Gives next g (rs ++ rs') g' := by
  induction h with
  | nil => exact h'
  | cons hr _ ih => exact .cons hr (ih h')

/-- Asked for a number of records one at a time, a state comes to a fault before the last one. -/
inductive Fails {m : Type → Type} [Monad m] {γ : Type}
    (next : γ → m (Except DrawFault Record × γ)) : γ → Nat → DrawFault → Prop
  | here {g g' : γ} {n : Nat} {f : DrawFault} (h : next g = pure (.error f, g')) :
      Fails next g (n + 1) f
  | there {g g' : γ} {n : Nat} {f : DrawFault} {r : Record} (h : next g = pure (.ok r, g'))
      (hrest : Fails next g' n f) : Fails next g (n + 1) f

/-- The fault comes before some records are given, or behind them. -/
theorem Fails.split {m : Type → Type} [Monad m] {γ : Type}
    {next : γ → m (Except DrawFault Record × γ)} {g : γ} {n k : Nat} {f : DrawFault}
    (h : Fails next g (n + k) f) :
    Fails next g n f ∨ ∃ rs g', rs.length = n ∧ Gives next g rs g' ∧ Fails next g' k f := by
  induction n generalizing g with
  | zero =>
      rw [Nat.zero_add] at h
      exact .inr ⟨[], g, rfl, .nil g, h⟩
  | succ n ih =>
      rw [Nat.succ_add] at h
      cases h with
      | here hr => exact .inl (.here hr)
      | there hr hrest =>
          rcases ih hrest with hfails | ⟨rs, g', hlen, hgives, hfails⟩
          · exact .inl (.there hr hfails)
          · exact .inr ⟨_, g', congrArg (· + 1) hlen, .cons hr hgives, hfails⟩

/-! ## Writing -/

variable {m : Type → Type} [Monad m] {σ ε γ : Type} {L : ProgramLogic m σ} {sink : Sink m ε}
  {At Refused : String → σ → Prop} {whole : String}

/-- The line of a record. -/
theorem writeRecord_sure (h : sink.Keeps L At Refused whole) {b : Buffer} {t rest : String}
    {r : Record} {s : σ} (hb : b.Upto At t s) (hrest : t ++ line r ++ rest = whole) :
    L.Sure (writeRecord sink b r) (Buffer.Reached At Refused whole (t ++ line r)) s := by
  have hline : line r = String.join r.pieces ++ "\n" := rfl
  have hpieces : t ++ String.join r.pieces ++ ("\n" ++ rest) = whole := by
    rw [← hrest, hline]
    simp only [String.append_assoc]
  rw [hline, ← String.append_assoc] at hrest ⊢
  unfold writeRecord
  apply L.sure_then (Buffer.putAll_sure h hb hpieces)
  intro x s' hx
  obtain ⟨outcome, b'⟩ := x
  cases outcome with
  | error e => exact L.sure_pure hx
  | ok _ =>
      apply L.sure_then (Buffer.put_sure h hx hrest)
      intro x s'' hx
      obtain ⟨outcome, b''⟩ := x
      cases outcome with
      | error e => exact L.sure_pure hx
      | ok _ => exact L.sure_pure hx

/-- Lines of records that are at hand. -/
theorem writeRecords_sure (h : sink.Keeps L At Refused whole) {b : Buffer} {t rest : String}
    {rs : List Record} {s : σ} (hb : b.Upto At t s) (hrest : t ++ text rs ++ rest = whole) :
    L.Sure (writeRecords sink b rs) (Buffer.Reached At Refused whole (t ++ text rs)) s := by
  induction rs generalizing b t s with
  | nil =>
      rw [text_nil, String.append_empty]
      exact L.sure_pure hb
  | cons r rs ih =>
      rw [text_cons, ← String.append_assoc] at hrest ⊢
      have hline : t ++ line r ++ (text rs ++ rest) = whole := by
        rw [← String.append_assoc, hrest]
      apply L.sure_then (writeRecord_sure h hb hline)
      intro x s' hx
      obtain ⟨outcome, b'⟩ := x
      cases outcome with
      | ok _ => exact ih hx hrest
      | error e => exact L.sure_pure hx

section timed

variable {δ α β : Type} {clock : m Nat}

/-- **Something that is timed** comes to what it comes to, with a duration beside its result. -/
theorem timed_sure (hclock : L.Still clock) {x : m (Except δ α × β)} {Q : Except δ α × β → σ → Prop}
    {s : σ} (hx : L.Sure x Q s) :
    L.Sure (timed clock x) (fun r s' => Q (r.1.map (·.1), r.2) s') s := by
  unfold timed
  refine L.sure_then (hclock s) fun started s₁ hs₁ => ?_
  subst hs₁
  refine L.sure_then hx fun r s₂ hr => ?_
  obtain ⟨outcome, b⟩ := r
  cases outcome with
  | error e => exact L.sure_pure hr
  | ok a => exact L.sure_then (hclock s₂) fun ended s₃ hs₃ => L.sure_pure (hs₃ ▸ hr)

/-- A value that is at hand has its duration, too. -/
theorem timed_pure_sure (hclock : L.Still clock) (a : α) (b : β) (s : σ) :
    L.Sure (timed clock (pure ((.ok a : Except δ α), b)))
      (fun r s' => (∃ d, r = (.ok (a, d), b)) ∧ s' = s) s := by
  have hvalue : L.Sure (pure ((.ok a : Except δ α), b)) (fun r s' => r = (.ok a, b) ∧ s' = s) s :=
    L.sure_pure ⟨rfl, rfl⟩
  refine L.sure_mono (fun r s' hr => ⟨?_, hr.2⟩) (timed_sure hclock hvalue)
  obtain ⟨outcome, b'⟩ := r
  cases outcome with
  | error e => cases hr.1
  | ok ad =>
      obtain ⟨a', d⟩ := ad
      cases hr.1
      exact ⟨d, rfl⟩

end timed

/-- Lines of records that are asked for: they are the records that are given, each counts as one,
and what is left to draw from is as if nobody had written anything. -/
theorem writeNext_sure (h : sink.Keeps L At Refused whole) {clock : m Nat} (hclock : L.Still clock)
    {next : γ → m (Except DrawFault Record × γ)} {g g' : γ} {rs : List Record}
    (hgives : Gives next g rs g') {w : Written} {b : Buffer} {t rest : String} {s : σ}
    (hb : b.Upto At t s) (hrest : t ++ text rs ++ rest = whole) :
    L.Sure (writeNext clock sink next rs.length w g b)
      (fun x s' => Buffer.Reached At Refused whole (t ++ text rs) (x.1, x.2.2) s' ∧
        ∀ w', x.1 = .ok w' → w'.rows = w.rows + rs.length ∧ x.2.1 = g') s := by
  induction hgives generalizing w b t s with
  | nil g =>
      rw [text_nil, String.append_empty]
      exact L.sure_pure ⟨hb, fun _ hw => ⟨(congrArg Written.rows (Except.ok.inj hw)).symm, rfl⟩⟩
  | @cons g g₁ g₂ r rs hnext hgives ih =>
      rw [text_cons, ← String.append_assoc] at hrest ⊢
      have hline : t ++ line r ++ (text rs ++ rest) = whole := by
        rw [← String.append_assoc, hrest]
      rw [List.length_cons, writeNext, hnext]
      refine L.sure_then (timed_pure_sure hclock r g₁ s) fun x s₁ hx => ?_
      obtain ⟨⟨drawing, rfl⟩, rfl⟩ := hx
      refine L.sure_then (timed_sure hclock (writeRecord_sure h hb hline)) fun x s₂ hx => ?_
      obtain ⟨outcome, b'⟩ := x
      cases outcome with
      | error e => exact L.sure_pure ⟨hx, fun _ hok => nomatch hok⟩
      | ok _ =>
          refine L.sure_mono (fun x s₃ hx => ⟨hx.1, fun w' hw' => ?_⟩) (ih hx hrest)
          obtain ⟨hrows, hgen⟩ := hx.2 w' hw'
          exact ⟨hrows.trans (Nat.add_right_comm w.rows 1 rs.length), hgen⟩

/-! ## Writing to the end -/

/-- What holds when all writing is over. -/
def Ended (At Refused : String → σ → Prop) (whole : String) {δ α : Type} (r : Except δ α)
    (s : σ) : Prop :=
  if r.isOk then At whole s else ∃ taken rest, Refused taken s ∧ taken ++ rest = whole

/-- The end of the writing: the last flush, and the second try after a refusal, which mends
nothing. -/
theorem finish_sure (h : sink.Keeps L At Refused whole) {α : Type}
    {outcome : Except (LineFault ε) α} {b : Buffer} {s : σ}
    (hb : Buffer.Reached At Refused whole whole (outcome, b) s) :
    L.Sure (finish sink outcome b)
      (fun r s' => Ended At Refused whole r s' ∧ ∀ a, r = .ok a → outcome = .ok a) s := by
  unfold finish
  cases outcome with
  | error e =>
      exact L.sure_then (Buffer.abandon_sure h hb) fun _ s' hs =>
        L.sure_pure ⟨hs, fun _ hok => nomatch hok⟩
  | ok a =>
      apply L.sure_then (Buffer.flush_sure h hb String.append_empty)
      intro x s' hx
      obtain ⟨outcome, b'⟩ := x
      obtain ⟨hreached, hempty⟩ := hx
      cases outcome with
      | ok _ =>
          obtain rfl := hempty rfl
          obtain ⟨taken, hat, htaken⟩ := hreached
          rw [← htaken, Buffer.empty, String.append_empty]
          exact L.sure_pure ⟨hat, fun _ => id⟩
      | error e =>
          exact L.sure_then (Buffer.abandon_sure h hreached) fun _ s' hs =>
            L.sure_pure ⟨hs, fun _ hok => nomatch hok⟩

/-- **Records at hand are written whole or refused**: at the end the sink has taken their text, or
it has refused something and taken a beginning of it. -/
theorem write_sure {rs : List Record} (h : sink.Keeps L At Refused (text rs)) {s : σ}
    (hs : At "" s) :
    L.Sure (write sink rs)
      (fun r s' => Ended At Refused (text rs) r s' ∧ ∀ n, r = .ok n → n = rs.length) s := by
  have hstart : "" ++ text rs ++ "" = text rs := by
    rw [String.append_empty, String.empty_append]
  unfold write
  apply L.sure_then (writeRecords_sure h (Buffer.upto_empty hs) hstart)
  intro x s' hx
  rw [String.empty_append] at hx
  refine L.sure_then (finish_sure h hx) fun r s'' hr => L.sure_pure ?_
  cases r with
  | ok _ => exact ⟨hr.1, fun n hn => (Except.ok.inj hn).symm⟩
  | error e => exact ⟨hr.1, fun n hn => nomatch hn⟩

/-- **Records that are asked for are written whole or refused**, and what is left to draw from
after the last one comes back. -/
theorem writeTimed_sure {clock : m Nat} (hclock : L.Still clock)
    {next : γ → m (Except DrawFault Record × γ)} {g g' : γ} {rs : List Record}
    (h : sink.Keeps L At Refused (text rs)) (hgives : Gives next g rs g') {s : σ} (hs : At "" s) :
    L.Sure (writeTimed clock sink next rs.length g)
      (fun x s' => Ended At Refused (text rs) x.1 s' ∧
        ∀ w, x.1 = .ok w → w.rows = rs.length ∧ x.2 = g') s := by
  have hstart : "" ++ text rs ++ "" = text rs := by
    rw [String.append_empty, String.empty_append]
  unfold writeTimed
  apply L.sure_then (writeNext_sure h hclock hgives (Buffer.upto_empty hs) hstart)
  intro x s' hx
  obtain ⟨outcome, g₁, b⟩ := x
  obtain ⟨hreached, hgen⟩ := hx
  rw [String.empty_append] at hreached
  refine L.sure_then (finish_sure h hreached) fun r s'' hr => L.sure_pure ⟨hr.1, fun w hw => ?_⟩
  obtain ⟨hrows, hgen⟩ := hgen w (hr.2 w hw)
  exact ⟨hrows.trans (Nat.zero_add _), hgen⟩

/-- Without a clock it is the same. -/
theorem writeFrom_sure {next : γ → m (Except DrawFault Record × γ)} {g g' : γ} {rs : List Record}
    (h : sink.Keeps L At Refused (text rs)) (hgives : Gives next g rs g') {s : σ} (hs : At "" s) :
    L.Sure (writeFrom sink next rs.length g)
      (fun x s' => Ended At Refused (text rs) x.1 s' ∧
        ∀ n, x.1 = .ok n → n = rs.length ∧ x.2 = g') s := by
  refine L.sure_then (writeTimed_sure (L.still_pure 0) h hgives hs) fun x s' hx => L.sure_pure ?_
  obtain ⟨outcome, g₁⟩ := x
  cases outcome with
  | error e => exact ⟨hx.1, fun n hn => nomatch hn⟩
  | ok w =>
      obtain ⟨hrows, hgen⟩ := hx.2 w rfl
      exact ⟨hx.1, fun n hn => ⟨(Except.ok.inj hn).symm.trans hrows, hgen⟩⟩

/-! ## What was written -/

/-- By steps as said, a state comes to the records in a row and ends up as another. The surroundings
may have a part in the steps. -/
inductive Draws {γ : Type} (Step : γ → Except DrawFault Record × γ → Prop) :
    γ → List Record → γ → Prop
  | nil (g : γ) : Draws Step g [] g
  | cons {g g' g'' : γ} {r : Record} {rs : List Record} (h : Step g (.ok r, g'))
      (hrest : Draws Step g' rs g'') : Draws Step g (r :: rs) g''

namespace Draws

variable {Step : γ → Except DrawFault Record × γ → Prop}

/-- Records that are drawn in two rows are drawn in a row. -/
theorem append {g g₁ g' : γ} {rs rs' : List Record} (h : Draws Step g rs g₁)
    (h' : Draws Step g₁ rs' g') : Draws Step g (rs ++ rs') g' := by
  induction h with
  | nil => exact h'
  | cons hr _ ih => exact .cons hr (ih h')

/-- Where the surroundings have no part in the steps, the records are given. -/
theorem gives {next : γ → m (Except DrawFault Record × γ)} {g g' : γ} {rs : List Record}
    (h : Draws (fun g x => next g = pure x) g rs g') : Gives next g rs g' := by
  induction h with
  | nil g => exact .nil g
  | cons hr _ ih => exact .cons hr ih

end Draws

section drawn

variable {next : γ → m (Except DrawFault Record × γ)} {Alone : γ → Prop}
  {Step : γ → Except DrawFault Record × γ → Prop} {clock : m Nat} (hclock : L.Still clock)

/-- What holds when no more lines are written: they are those of records that were drawn, each of
which counts; or no record came of the draw behind some of them; or so it is with `Bad` for the line
of the record behind some of them, which was drawn. -/
def CameTo (At : String → σ → Prop) (Bad : String → Record → LineFault ε → Buffer → σ → Prop)
    (Step : γ → Except DrawFault Record × γ → Prop) (n : Nat) (w : Written) (g : γ) (t : String)
    (x : Except (LineFault ε) Written × γ × Buffer) (s : σ) : Prop :=
  match x.1 with
  | .ok w' => w'.rows = w.rows + n ∧
      ∃ rs, rs.length = n ∧ Draws Step g rs x.2.1 ∧ x.2.2.Upto At (t ++ text rs) s
  | .error f => (∃ rs d, f = .draw d ∧ x.2.2.Upto At (t ++ text rs) s) ∨
      ∃ rs r, rs.length < n ∧ Draws Step g (rs ++ [r]) x.2.1 ∧ Bad (t ++ text rs) r f x.2.2 s

include hclock

/-- **Lines one after the other**: each is that of a record that was drawn, and behind a line with
which something is wrong there are no others. -/
theorem writeNext_cameTo (Bad : String → Record → LineFault ε → Buffer → σ → Prop)
    (hrecord : ∀ {b : Buffer} {t : String} {s : σ}, b.Upto At t s → ∀ r,
      L.Sure (writeRecord sink b r) (fun x s' => match x.1 with
        | .ok _ => x.2.Upto At (t ++ line r) s'
        | .error f => Bad t r f x.2 s') s)
    (hnext : ∀ g s, Alone g → L.Sure (next g) (fun x s' => Step g x ∧ Alone x.2 ∧ s' = s) s)
    {n : Nat} {w : Written} {g : γ} (hg : Alone g) {b : Buffer} {t : String} {s : σ}
    (hb : b.Upto At t s) :
    L.Sure (writeNext clock sink next n w g b) (CameTo At Bad Step n w g t) s := by
  induction n generalizing w g b t s with
  | zero =>
      refine L.sure_pure ⟨rfl, [], rfl, .nil g, ?_⟩
      rw [text_nil, String.append_empty]
      exact hb
  | succ n ih =>
      rw [writeNext]
      refine L.sure_then (timed_sure hclock (hnext g s hg)) fun x s₁ hx => ?_
      obtain ⟨drawn, g₁⟩ := x
      obtain ⟨hstep, hg₁, rfl⟩ := hx
      cases drawn with
      | error d =>
          refine L.sure_pure (.inl ⟨[], d, rfl, ?_⟩)
          rw [text_nil, String.append_empty]
          exact hb
      | ok drawn =>
          obtain ⟨r, drawing⟩ := drawn
          refine L.sure_then (timed_sure hclock (hrecord hb r)) fun x s₂ hx => ?_
          obtain ⟨outcome, b₁⟩ := x
          cases outcome with
          | error f =>
              refine L.sure_pure (.inr ⟨[], r, n.succ_pos, .cons hstep (.nil g₁), ?_⟩)
              rw [text_nil, String.append_empty]
              exact hx
          | ok _ =>
              refine L.sure_mono (fun x s₃ hrest => ?_) (ih hg₁ hx)
              have htext : ∀ rs, t ++ line r ++ text rs = t ++ text (r :: rs) := fun rs => by
                rw [text_cons, String.append_assoc]
              obtain ⟨outcome, g₂, b₂⟩ := x
              cases outcome with
              | ok _ =>
                  obtain ⟨hrows, rs, hlen, hdraws, hupto⟩ := hrest
                  exact ⟨hrows.trans (Nat.add_right_comm w.rows 1 n), r :: rs,
                    congrArg (· + 1) hlen, .cons hstep hdraws, htext rs ▸ hupto⟩
              | error f =>
                  rcases hrest with ⟨rs, d, hd, hupto⟩ | ⟨rs, r', hlen, hdraws, hbad⟩
                  · exact .inl ⟨r :: rs, d, hd, htext rs ▸ hupto⟩
                  · exact .inr ⟨r :: rs, r', Nat.succ_lt_succ hlen, .cons hstep hdraws,
                      htext rs ▸ hbad⟩

/-- What holds when no more lines are written: they are those of records that were drawn, or the
sink is left with a beginning of some text. -/
def Halted (At Refused : String → σ → Prop) (Step : γ → Except DrawFault Record × γ → Prop) (n : Nat)
    (w : Written) (g : γ) (t : String) (x : Except (LineFault ε) Written × γ × Buffer) (s : σ) :
    Prop :=
  match x.1 with
  | .ok w' => w'.rows = w.rows + n ∧
      ∃ rs, rs.length = n ∧ Draws Step g rs x.2.1 ∧ x.2.2.Upto At (t ++ text rs) s
  | .error _ => (∃ t, x.2.2.Upto At t s) ∨ ∃ whole, x.2.2.Stopped Refused whole s

/-- Lines that were written are those of records that were drawn. -/
theorem writeNext_drawn (h : ∀ whole, sink.Keeps L At Refused whole)
    (hnext : ∀ g s, Alone g → L.Sure (next g) (fun x s' => Step g x ∧ Alone x.2 ∧ s' = s) s)
    {n : Nat} {w : Written} {g : γ} (hg : Alone g) {b : Buffer} {t : String} {s : σ}
    (hb : b.Upto At t s) :
    L.Sure (writeNext clock sink next n w g b) (Halted At Refused Step n w g t) s := by
  have hrecord : ∀ {b : Buffer} {t : String} {s : σ}, b.Upto At t s → ∀ r,
      L.Sure (writeRecord sink b r) (fun x s' => match x.1 with
        | .ok _ => x.2.Upto At (t ++ line r) s'
        | .error _ => x.2.Stopped Refused (t ++ line r) s') s := by
    intro b t s hb r
    refine L.sure_mono (fun x s' hx => ?_)
      (writeRecord_sure (h (t ++ line r)) hb String.append_empty)
    obtain ⟨outcome, b'⟩ := x
    cases outcome with
    | ok _ => exact hx
    | error f => exact hx
  refine L.sure_mono (fun x s' hx => ?_) (writeNext_cameTo hclock
    (fun t r _ b => b.Stopped Refused (t ++ line r)) hrecord hnext hg hb)
  obtain ⟨outcome, g', b'⟩ := x
  cases outcome with
  | ok _ => exact hx
  | error f =>
      exact hx.imp (fun ⟨_, _, _, hupto⟩ => ⟨_, hupto⟩) fun ⟨_, _, _, _, hstopped⟩ => ⟨_, hstopped⟩

omit hclock in
/-- After a fault the writing ends with it, whatever the sink says to what is still held. -/
theorem finish_error {α : Type} (h : ∀ whole, sink.Keeps L At Refused whole) (e : LineFault ε)
    {b : Buffer} {s : σ} (hb : (∃ t, b.Upto At t s) ∨ ∃ whole, b.Stopped Refused whole s) :
    L.Sure (finish sink (.error e : Except (LineFault ε) α) b) (fun r _ => r = .error e) s := by
  have habandon : L.Sure (b.abandon sink) (fun _ _ => True) s := by
    rcases hb with ⟨t, hupto⟩ | ⟨whole, hstopped⟩
    · exact L.sure_then (Buffer.flush_sure (h t) hupto String.append_empty) fun _ _ _ =>
        L.sure_pure trivial
    · exact L.sure_mono (fun _ _ _ => trivial) (Buffer.abandon_sure (h whole) hstopped)
  exact L.sure_then habandon fun _ _ _ => L.sure_pure rfl

/-- **Lines that were written to the end** are those of records that were drawn: they are as many as
was asked for, the sink has taken their text, and what is left to draw from comes behind them. -/
theorem writeTimed_drawn (h : ∀ whole, sink.Keeps L At Refused whole)
    (hnext : ∀ g s, Alone g → L.Sure (next g) (fun x s' => Step g x ∧ Alone x.2 ∧ s' = s) s)
    (n : Nat) {g : γ} (hg : Alone g) {s : σ} (hs : At "" s) :
    L.Sure (writeTimed clock sink next n g)
      (fun x s' => ∀ w, x.1 = .ok w →
        w.rows = n ∧ ∃ rs, rs.length = n ∧ Draws Step g rs x.2 ∧ At (text rs) s') s := by
  unfold writeTimed
  apply L.sure_then (writeNext_drawn hclock h hnext hg (Buffer.upto_empty hs))
  rintro ⟨outcome, g₁, b⟩ s' hx
  cases outcome with
  | error e =>
      refine L.sure_then (finish_error h e hx) fun r s'' hr => L.sure_pure fun k hok => ?_
      rw [hr] at hok
      cases hok
  | ok w =>
      obtain ⟨hrows, rs, hlen, hdraws, hupto⟩ := hx
      rw [String.empty_append] at hupto
      have hreached : Buffer.Reached At Refused (text rs) (text rs)
          ((.ok w : Except (LineFault ε) Written), b) s' := hupto
      refine L.sure_then (finish_sure (h (text rs)) hreached) fun r s'' hr =>
        L.sure_pure fun w' hok => ?_
      cases r with
      | error e => cases hok
      | ok _ =>
          cases hok
          cases hr.2 w' rfl
          exact ⟨hrows.trans (Nat.zero_add n), rs, hlen, hdraws, hr.1⟩

/-- If the surroundings have no part in drawing, they are those of records that were given. -/
theorem writeTimed_gives (h : ∀ whole, sink.Keeps L At Refused whole)
    (hnext : ∀ g, Alone g → ∃ x, next g = pure x ∧ Alone x.2) (n : Nat) {g : γ} (hg : Alone g)
    {s : σ} (hs : At "" s) :
    L.Sure (writeTimed clock sink next n g)
      (fun x s' => x.1.isOk → ∃ rs, rs.length = n ∧ Gives next g rs x.2 ∧ At (text rs) s') s := by
  have hdrawn : ∀ g s, Alone g →
      L.Sure (next g) (fun x s' => next g = pure x ∧ Alone x.2 ∧ s' = s) s := by
    intro g s hg
    obtain ⟨x, hx, halone⟩ := hnext g hg
    rw [hx]
    exact L.sure_pure ⟨rfl, halone, rfl⟩
  refine L.sure_mono (fun x s' hx hok => ?_) (writeTimed_drawn hclock h hdrawn n hg hs)
  obtain ⟨outcome, g'⟩ := x
  cases outcome with
  | error e => cases hok
  | ok w =>
      obtain ⟨-, rs, hlen, hdraws, hat⟩ := hx w rfl
      exact ⟨rs, hlen, hdraws.gives, hat⟩

end drawn

end JsonLines

end SampleData
