import SampleData.Proofs.AlikeSinks
import SampleData.Proofs.Turns
import SampleData.Run

/-!
# What actions ask for

Much of what a run does asks only for what leaves the disk as it is, or only for text to be put at
the end of one open file. Which requests an action may make can be said without a word on what is
answered, and an action that makes none of the others keeps to all rules by which these change
nothing.

* `Action.Asks`: every request of an action is as said, whatever is answered.
* `Action.Asks.sure`, `Action.Asks.sure_then`: such actions under rules.
* `Request.LeavesDisk`, `World.disk_reply_of_leaves`: requests that leave the disk as it is.
* `Settings.compilePlan_asks`, `Settings.source_asks`: what comes before anything is written.
* `Populator.fill_asks`: filling an open file.
-/

namespace SampleData

/-! ## Requests of an action -/

/-- Only requests as said are made, whatever is answered. -/
def Action.Asks {α : Type} (P : Request → Prop) : Action α → Prop
  | .done _ => True
  | .ask r next => P r ∧ ∀ a, (next a).Asks P

namespace Action.Asks

variable {α β : Type} {P P' : Request → Prop} {x : Action α}

theorem pure (a : α) : (Pure.pure a : Action α).Asks P := trivial

theorem request {r : Request} (h : P r) : (Action.request r).Asks P := ⟨h, fun _ => trivial⟩

/-- One action after another asks for what they ask for. -/
theorem bind {f : α → Action β} (hx : x.Asks P) (hf : ∀ a, (f a).Asks P) : (x >>= f).Asks P := by
  induction x with
  | done a => exact hf a
  | ask r next ih => exact ⟨hx.1, fun a => ih a (hx.2 a)⟩

/-- Actions for the elements of a list, one after the other. -/
theorem forM {γ : Type} {l : List γ} {f : γ → Action PUnit} (hf : ∀ c ∈ l, (f c).Asks P) :
    (l.forM f).Asks P := by
  induction l with
  | nil => exact pure _
  | cons c l ih =>
      obtain ⟨hc, hl⟩ := List.forall_mem_cons.mp hf
      exact bind hc fun _ => ih hl

/-- **Under rules** by which these requests may be made and change nothing, nothing is changed, and
the action comes to what it comes to whatever is answered. -/
theorem sure {σ : Type} {R : Rules σ} {s : σ} {Q : α → Prop} (hx : x.Asks P)
    (hQ : x.Meets .free (fun a _ => Q a) ())
    (hR : ∀ r, P r → R.Allowed s r ∧ ∀ a s', R.Answers s r a s' → s' = s) :
    R.logic.Sure x (fun a s' => Q a ∧ s' = s) s := by
  induction x with
  | done a => exact R.logic.sure_pure ⟨hQ, rfl⟩
  | ask r next ih =>
      obtain ⟨hallowed, hanswers⟩ := hR r hx.1
      refine ⟨hallowed, fun a s' ha => ?_⟩
      obtain rfl := hanswers a s' ha
      exact ih a (hx.2 a) (hQ.2 a () trivial)

/-- Nothing is changed, whatever it comes to. -/
theorem stays {σ : Type} {R : Rules σ} {s : σ} (hx : x.Asks P)
    (hR : ∀ r, P r → R.Allowed s r ∧ ∀ a s', R.Answers s r a s' → s' = s) :
    R.logic.Sure x (fun _ s' => s' = s) s := by
  have hfree : x.Meets .free (fun _ _ => True) () := Rules.free_total x ()
  exact R.logic.sure_mono (fun _ _ h => h.2) (hx.sure hfree hR)

/-- What is done behind such an action is done in the same state. -/
theorem sure_then {σ : Type} {R : Rules σ} {s : σ} {f : α → Action β} {Q : β → σ → Prop}
    (hx : x.Asks P) (hR : ∀ r, P r → R.Allowed s r ∧ ∀ a s', R.Answers s r a s' → s' = s)
    (hf : ∀ a, R.logic.Sure (f a) Q s) : R.logic.Sure (x >>= f) Q s := by
  refine R.logic.sure_then (hx.stays hR) fun a s' hs' => ?_
  subst hs'
  exact hf a

end Action.Asks

/-! ## Requests that leave the disk as it is -/

/-- Whatever is answered, the disk stays as it is. -/
def Request.LeavesDisk : Request → Prop
  | .remove _ | .create _ _ | .append _ _ => False
  | _ => True

/-- It does. -/
theorem World.disk_reply_of_leaves (w : World) (t : Turn) {r : Request} (h : r.LeavesDisk) :
    (w.reply t r).2.disk = w.disk := by
  cases r with
  | close | log | now | timer | entropy => exact w.disk_reply t fun _ => rfl
  | remove | create | append => exact h.elim
  | kind | canonical | read | list | size | print =>
      unfold World.reply
      cases t.refusal <;> rfl

/-- An action that makes no other requests leaves it so at any time. -/
theorem disk_of_leaves {α : Type} {x : Action α} (hx : x.Asks Request.LeavesDisk) {w : World}
    (ts : List Turn) : ((Crew.lone x w).run ts).2.world.disk = w.disk := by
  let R : Rules Unit := { Allowed := fun _ => Request.LeavesDisk, Answers := fun _ _ _ _ => True }
  have hmeets : R.logic.Sure x (fun _ _ => True) () :=
    R.logic.sure_mono (fun _ _ _ => trivial)
      (hx.sure (Q := fun _ => True) (Rules.free_total x ()) fun r hr => ⟨hr, fun _ _ _ => rfl⟩)
  refine (Crew.keeps_run (R := R) (I := fun w' => w'.disk = w.disk) (Q := fun _ _ _ => True)
    (fun w' t r hw hr => ⟨(w'.disk_reply_of_leaves t hr).trans hw, trivial⟩) rfl ?_ ts).1
  intro k y hy
  obtain rfl := Crew.eq_of_lone hy
  exact hmeets

section leaving

variable {P : Request → Prop}

/-- Telling something asks for that only. -/
theorem Action.log_asks (h : ∀ e, P (.log e)) (level : LogLevel) (message : String) :
    (Action.log level message).Asks P := .request (h _)

theorem tell_asks (h : ∀ e, P (.log e)) (lines : List String) : (tell lines).Asks P :=
  .forM fun _ _ => Action.log_asks h _ _

/-- Looking whether there is something of a kind asks for that only. -/
theorem Action.isOfKind_asks {path : String} (h : P (.kind path)) (k : FileKind) :
    (Action.isOfKind k path).Asks P := by
  refine .bind (.request h) fun a => ?_
  cases a <;> exact .pure _

/-- Loading a schema looks at files. -/
theorem Schema.load_asks (text : String) : (Schema.load text).Asks Request.LeavesDisk := by
  have hdetect : (SchemaOrigin.detect text).Asks Request.LeavesDisk := by
    unfold SchemaOrigin.detect
    refine .bind (Action.isOfKind_asks trivial _) fun found => ?_
    cases SchemaOrigin.looksLikePath (Text.trim text) && found
    · exact .pure _
    · exact .pure _
  refine hdetect.bind fun origin => ?_
  cases origin with
  | literal text => exact .bind (Action.log_asks (fun _ => trivial) _ _) fun _ => .pure _
  | file path =>
      refine .bind (Action.log_asks (fun _ => trivial) _ _) fun _ => ?_
      refine .bind (.request trivial) fun a => ?_
      cases a <;> exact .pure _

/-- **Loading and compiling a schema** leaves the disk as it is. -/
theorem Settings.compilePlan_asks (s : Settings) : s.compilePlan.Asks Request.LeavesDisk := by
  have hlog : ∀ e, (Request.log e).LeavesDisk := fun _ => trivial
  unfold compilePlan
  refine .bind (Schema.load_asks s.schema) fun loaded => ?_
  cases loaded with
  | error e => exact .pure _
  | ok schema =>
      have htelling : schema.compileTelling.Asks Request.LeavesDisk := by
        unfold Schema.compileTelling
        split
        · exact .pure _
        · refine .bind (.forM fun _ _ => Action.log_asks hlog _ _) fun _ => ?_
          exact .bind (Action.log_asks hlog _ _) fun _ => .pure _
      refine htelling.bind fun compiled => ?_
      cases compiled with
      | error e => exact .pure _
      | ok plan => exact .bind (Action.log_asks hlog _ _) fun _ => .pure _

/-- The source of a run asks for a key at most. -/
theorem Settings.source_asks (h : P .entropy) (s : Settings) : s.source.Asks P := by
  unfold Settings.source
  cases s.seed with
  | some seed => exact .pure _
  | none => exact .bind (.request h) fun _ => .pure _

/-- That of a worker may ask for the time, too. -/
theorem Assignment.source_asks (hnow : P .now) (hkey : P .entropy) (a : Assignment) :
    a.source.Asks P := by
  unfold Assignment.source
  cases a.seed with
  | some seed => exact .pure _
  | none => exact .bind (.request hnow) fun _ => .bind (.request hkey) fun _ => .pure _

section sources

variable {σ : Type} {R : Rules σ}
  (hR : ∀ s r, r = .now ∨ r = .entropy → R.Allowed s r ∧ ∀ a s', R.Answers s r a s' → s' = s)

include hR

/-- Where the time and a key can be asked for without a change, a run has its source, which is that
of its seed if it has one. -/
theorem Settings.source_sure (s : Settings) (t : σ) :
    R.logic.Sure s.source
      (fun source t' => (∀ seed, s.seed = some seed → source = ChaCha.ofSeed seed) ∧ t' = t) t := by
  refine (s.source_asks (P := fun r => r = .now ∨ r = .entropy) (.inr rfl)).sure ?_ (hR t)
  unfold Settings.source
  cases s.seed with
  | some seed => exact fun _ hseed => congrArg ChaCha.ofSeed (Option.some.inj hseed)
  | none => exact ⟨trivial, fun _ _ _ => nofun⟩

/-- So does a worker. -/
theorem Assignment.source_sure (a : Assignment) (t : σ) :
    R.logic.Sure a.source
      (fun source t' => (∀ seed, a.seed = some seed → source = ChaCha.ofSeed seed) ∧ t' = t) t := by
  refine (a.source_asks (P := fun r => r = .now ∨ r = .entropy) (.inl rfl) (.inr rfl)).sure ?_
    (hR t)
  unfold Assignment.source
  cases a.seed with
  | some seed => exact fun _ hseed => congrArg ChaCha.ofSeed (Option.some.inj hseed)
  | none => exact ⟨trivial, fun _ _ _ => ⟨trivial, fun _ _ _ => nofun⟩⟩

end sources

end leaving

/-! ## Filling a file -/

section filling

variable {P : Request → Prop}

/-- What is asked for when actions are put together is what they ask for. -/
def Action.asking (P : Request → Prop) : Coupling Action Action where
  Alike x _ := x.Asks P
  alike_pure _ := .pure _
  alike_bind hx hf := .bind hx hf

/-- Writing records asks what the sink, the records and the clock ask. -/
theorem JsonLines.writeTimed_asks {ε γ : Type} {clock : Action Nat} {sink : Sink Action ε}
    {next : γ → Action (Except DrawFault Record × γ)} (hclock : clock.Asks P)
    (hsink : ∀ chunk, (sink chunk).Asks P) (hnext : ∀ g, (next g).Asks P) (n : Nat) (g : γ) :
    (writeTimed clock sink next n g).Asks P := by
  have hreading : (Action.asking P).Alike clock clock := hclock
  have hchunk : ∀ chunk, (Action.asking P).Alike (sink chunk) (sink chunk) := hsink
  have hrecord : ∀ g, (Action.asking P).Alike (next g) (next g) := hnext
  exact writeTimed_alike hchunk hreading hrecord n g

/-- The next record asks for the time at most. -/
theorem Generator.nextAction_asks (h : P .now) (g : Generator) : g.nextAction.Asks P := by
  have hclock : ∀ ds : List Descriptor, (readClock ds).Asks P := by
    intro ds
    induction ds with
    | nil => exact .pure _
    | cons d ds ih =>
        rw [readClock]
        split
        · exact .bind (.request h) fun _ => .bind ih fun _ => .pure _
        · exact .bind ih fun _ => .pure _
  exact .bind (hclock _) fun _ => .pure _

/-- What filling a file asks for: text at the end of the file, and what leaves the disk as it is. -/
def Request.Fills (file : Location) : Request → Prop
  | .append place _ => place = file
  | .close place => place = file
  | .size _ | .now | .timer => True
  | _ => False

/-- **Filling a file** asks for no more than that. -/
theorem Populator.fill_asks (p : Populator) (path : String) (file : Location) (lines : UInt64) :
    (p.fill path file lines).Asks (Request.Fills file) := by
  unfold fill
  have hsink : ∀ chunk, (fileSink file chunk).Asks (Request.Fills file) := fun _ =>
    ⟨rfl, fun _ => trivial⟩
  refine .bind (JsonLines.writeTimed_asks (.request trivial) hsink
    (fun g => g.nextAction_asks trivial) _ _) fun a => ?_
  obtain ⟨outcome, g⟩ := a
  refine .bind (.request rfl) fun _ => ?_
  cases outcome with
  | error e => exact .pure _
  | ok rows =>
      refine .bind (.request trivial) fun a => ?_
      cases a <;> exact .pure _

end filling

end SampleData
