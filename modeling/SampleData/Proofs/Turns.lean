import SampleData.Turns
import SampleData.Proofs.ActionRules
import Mathlib.Logic.Function.Basic

/-!
# Turns

What one turn does is said once: nothing, or the actor's request is answered and everyone else
stays as they are. What holds of every action, whoever has the next turn, is then a matter of that
one action: it keeps to what it comes to under rules that allow the answers, be it that nothing is
refused or that anything may be.

* `World.reply_of_refusal`, `World.reply_of_none`, `World.disk_reply`: the answer in a turn.
* `Crew.turn_cases`: one turn.
* `Crew.IsDone.actions_eq`: the end of a run.
* `Crew.meets_run`: a run in which all answers are as some rules allow.
* `Crew.follows_run`, `Crew.keeps_run`: a run in a world that answers as some rules say.
* `Crew.willing_run`, `Crew.free_run`: a run in which nothing is refused, and any run.
-/

namespace SampleData

/-! ## Answers -/

/-- A turn in which the system refuses nothing and the timer stands gives the world's answer. -/
@[simp] theorem World.reply_plain (w : World) (k : Nat) (r : Request) :
    w.reply (.plain k) r = w.answer r := by
  cases r <;> rfl

/-- A request that can be refused is refused if the system does so. -/
theorem World.reply_of_refusal (w : World) {t : Turn} {e : OsError} (ht : t.refusal = some e)
    {r : Request} {a : r.Answer} (hr : r.refusal? e = some a) : w.reply t r = (a, w) := by
  cases r with
  | close | log | now | timer | entropy => cases hr
  | _ =>
      unfold World.reply
      simp only [ht, Option.bind_some, hr]

/-- It is answered by the world if the system does not. -/
theorem World.reply_of_none (w : World) {t : Turn} (ht : t.refusal = none) (r : Request)
    (hr : r ≠ .timer) : w.reply t r = w.answer r := by
  cases r with
  | timer => exact absurd rfl hr
  | _ =>
      unfold World.reply
      simp only [ht, Option.bind_none]

/-- The answer in a turn is the world's, or a refusal that changes nothing. -/
theorem World.reply_cases (w : World) (t : Turn) {r : Request} (hr : r ≠ .timer) :
    w.reply t r = w.answer r ∨ r.isRefused (w.reply t r).1 = true ∧ (w.reply t r).2 = w := by
  cases ht : t.refusal with
  | none => exact .inl (w.reply_of_none ht r hr)
  | some e =>
      cases r with
      | close | log | now | entropy => exact .inl (by unfold World.reply; simp only [ht]; rfl)
      | timer => exact absurd rfl hr
      | _ => exact .inr (by rw [w.reply_of_refusal ht rfl]; exact ⟨rfl, rfl⟩)

/-- What cannot be refused leaves the disk as it is. -/
theorem World.disk_reply (w : World) (t : Turn) {r : Request} (h : ∀ e, r.refusal? e = none) :
    (w.reply t r).2.disk = w.disk := by
  cases r with
  | close | log | now | timer | entropy =>
      unfold World.reply
      cases t.refusal <;> rfl
  | _ => cases h .noEntry

/-! ## One turn -/

namespace Crew

variable {α : Type} {c : Crew α} {k : Nat} {x : Action α}

/-- What a turn does: nothing, or the actor's request is answered. -/
theorem turn_cases (c : Crew α) (t : Turn) :
    c.turn t = (none, c) ∨ ∃ r next, c.actions[t.actor]? = some (.ask r next) ∧
      c.turn t = (some ⟨t.actor, r, r.isRefused (c.world.reply t r).1⟩,
        ⟨c.actions.set t.actor (next (c.world.reply t r).1), (c.world.reply t r).2⟩) := by
  cases hx : c.actions[t.actor]? with
  | none => exact .inl (by simp only [turn, hx])
  | some x =>
      cases x with
      | done a => exact .inl (by simp only [turn, hx])
      | ask r next => exact .inr ⟨r, next, rfl, by simp only [turn, hx]⟩

/-- After one action was put in place of another, every action is that one or was there. -/
theorem getElem?_set_cases {xs : List (Action α)} {y : Action α} {j : Nat}
    (h : (xs.set j y)[k]? = some x) : (k = j ∧ x = y) ∨ (k ≠ j ∧ xs[k]? = some x) := by
  by_cases hk : k = j
  · rw [hk, List.getElem?_set_self'] at h
    obtain ⟨_, -, rfl⟩ := Option.map_eq_some_iff.mp h
    exact .inl ⟨hk, rfl⟩
  · rw [List.getElem?_set_ne (Ne.symm hk)] at h
    exact .inr ⟨hk, h⟩

/-- As many actions are there after turns as before. -/
@[simp] theorem length_run (c : Crew α) (ts : List Turn) :
    (c.run ts).2.actions.length = c.actions.length := by
  induction ts generalizing c with
  | nil => rfl
  | cons t ts ih =>
      have hturn : (c.turn t).2.actions.length = c.actions.length := by
        rcases turn_cases c t with hturn | ⟨r, next, -, hturn⟩
        · rw [hturn]
        · rw [hturn]
          exact List.length_set
      rw [← hturn]
      exact ih (c.turn t).2

/-! ## The end -/

/-- Actions that all have results are done. -/
theorem eq_map_done {xs : List (Action α)} {results : List α}
    (h : xs.mapM Action.result? = some results) : xs = results.map .done := by
  induction xs generalizing results with
  | nil =>
      obtain rfl := Option.some.inj h
      rfl
  | cons x xs ih =>
      cases x with
      | ask r next => cases h
      | done a =>
          rw [List.mapM_cons] at h
          cases hrest : xs.mapM Action.result? with
          | none => rw [hrest] at h; cases h
          | some rest =>
              rw [hrest] at h
              obtain rfl := Option.some.inj h
              rw [ih hrest]
              rfl

/-- When everyone is done, the actions are the results. -/
theorem IsDone.actions_eq {results : List α} (h : c.IsDone results) :
    c.actions = results.map .done := eq_map_done h

theorem IsDone.getElem?_actions {results : List α} (h : c.IsDone results) (k : Nat) :
    c.actions[k]? = (results[k]?).map .done := by
  rw [h.actions_eq, List.getElem?_map]

end Crew

/-! ## One action among others -/

namespace Crew

variable {α : Type} {R : Rules Unit} {c : Crew α} {Q : α → Unit → Prop} {k : Nat} {x : Action α}
  {P : Event → Prop}

/-- A turn whose event is such that the rules allow its answer. -/
theorem meets_turn (hR : ∀ actor r a, P ⟨actor, r, r.isRefused a⟩ → R.Answers () r a ())
    (hx : c.actions[k]? = some x) (hm : x.Meets R Q ()) {t : Turn} (ht : ∀ e ∈ (c.turn t).1, P e) :
    ∃ y, (c.turn t).2.actions[k]? = some y ∧ y.Meets R Q () := by
  rcases turn_cases c t with hturn | ⟨r, next, hactor, hturn⟩
  · rw [hturn]
    exact ⟨x, hx, hm⟩
  · rw [hturn] at ht ⊢
    by_cases hk : t.actor = k
    · subst hk
      obtain rfl : x = .ask r next := Option.some.inj (hx.symm.trans hactor)
      refine ⟨_, ?_, hm.2 _ () (hR _ _ _ (ht _ rfl))⟩
      rw [List.getElem?_set_self (List.getElem?_eq_some_iff.mp hx).1]
    · refine ⟨x, ?_, hm⟩
      rw [List.getElem?_set_ne hk]
      exact hx

/-- **A run in which all answers are as the rules allow** leaves an action with what it comes to
under the rules. -/
theorem meets_run (hR : ∀ actor r a, P ⟨actor, r, r.isRefused a⟩ → R.Answers () r a ())
    (hx : c.actions[k]? = some x) (hm : x.Meets R Q ()) {ts : List Turn}
    (hes : ∀ e ∈ (c.run ts).1, P e) :
    ∃ y, (c.run ts).2.actions[k]? = some y ∧ y.Meets R Q () := by
  induction ts generalizing c x with
  | nil => exact ⟨x, hx, hm⟩
  | cons t ts ih =>
      have hfirst : ∀ e ∈ (c.turn t).1, P e := fun e he =>
        hes e (List.mem_append_left _ (Option.mem_toList.mpr he))
      obtain ⟨y, hy, hmy⟩ := meets_turn hR hx hm hfirst
      exact ih hy hmy fun e he => hes e (List.mem_append_right _ he)

/-- **A run in a world that answers as the rules say**, each actor with rules of its own: what every
answer keeps of the world and of where the actors stand holds at any time, and everyone keeps to
their rules from where they stand. -/
theorem follows_run {σ : Type} {R : Nat → Rules σ} {I : World → (Nat → σ) → Prop}
    {Q : Nat → α → σ → Prop}
    (hI : ∀ w t r k s, I w s → (R k).Allowed (s k) r →
      ∃ p, (R k).Answers (s k) r (w.reply t r).1 p ∧ I (w.reply t r).2 (Function.update s k p))
    {s : Nat → σ} (hw : I c.world s)
    (hc : ∀ (k : Nat) x, c.actions[k]? = some x → x.Meets (R k) (Q k) (s k)) (ts : List Turn) :
    ∃ s', I (c.run ts).2.world s' ∧
      ∀ (k : Nat) x, (c.run ts).2.actions[k]? = some x → x.Meets (R k) (Q k) (s' k) := by
  induction ts generalizing c s with
  | nil => exact ⟨s, hw, hc⟩
  | cons t ts ih =>
      have hturn : ∃ s', I (c.turn t).2.world s' ∧
          ∀ (k : Nat) x, (c.turn t).2.actions[k]? = some x → x.Meets (R k) (Q k) (s' k) := by
        rcases turn_cases c t with hturn | ⟨r, next, hactor, hturn⟩
        · rw [hturn]
          exact ⟨s, hw, hc⟩
        · obtain ⟨hallowed, hnext⟩ := hc _ _ hactor
          obtain ⟨p, hanswers, hkept⟩ := hI _ t r _ s hw hallowed
          rw [hturn]
          refine ⟨_, hkept, fun k x hk => ?_⟩
          rcases getElem?_set_cases hk with ⟨rfl, rfl⟩ | ⟨hne, hk⟩
          · rw [Function.update_self]
            exact hnext _ p hanswers
          · rw [Function.update_of_ne hne]
            exact hc k x hk
      obtain ⟨s', hw', hc'⟩ := hturn
      exact ih hw' hc'

/-- A run in a world that answers everyone as the same rules say. -/
theorem keeps_run {I : World → Prop} {Q : Nat → α → Unit → Prop}
    (hI : ∀ w t r, I w → R.Allowed () r →
      I (w.reply t r).2 ∧ R.Answers () r (w.reply t r).1 ())
    (hw : I c.world) (hc : ∀ (k : Nat) x, c.actions[k]? = some x → x.Meets R (Q k) ())
    (ts : List Turn) : I (c.run ts).2.world ∧
      ∀ (k : Nat) x, (c.run ts).2.actions[k]? = some x → x.Meets R (Q k) () := by
  obtain ⟨_, hrun⟩ := follows_run (R := fun _ => R) (I := fun w _ => I w) (s := fun _ => ())
    (fun w t r _ _ hw hallowed => ⟨(), (hI w t r hw hallowed).2, (hI w t r hw hallowed).1⟩) hw hc ts
  exact hrun

end Crew

/-! ## One action alone -/

/-- One action with a world to itself. -/
def Crew.lone {α : Type} (x : Action α) (w : World) : Crew α := { actions := [x], world := w }

namespace Crew

variable {α β : Type} {w w' : World} {es : List Event}

theorem eq_of_lone {x y : Action α} {k : Nat} (h : (lone x w).actions[k]? = some y) : y = x :=
  List.mem_singleton.mp (List.mem_of_getElem? h)

/-- Only the first actor is there. -/
theorem lone_turn_of_ne (x : Action α) (w : World) {t : Turn} (h : t.actor ≠ 0) :
    (lone x w).turn t = (none, lone x w) := by
  have hnone : [x][t.actor]? = none :=
    List.getElem?_eq_none (Nat.one_le_iff_ne_zero.mpr h)
  simp only [turn, lone, hnone]

/-- Its request is answered. -/
theorem lone_turn_ask {r : Request} (next : r.Answer → Action α) (w : World) {t : Turn}
    (h : t.actor = 0) :
    (lone (.ask r next) w).turn t = (some ⟨0, r, r.isRefused (w.reply t r).1⟩,
      lone (next (w.reply t r).1) (w.reply t r).2) := by
  simp only [turn, lone, h, List.getElem?_cons_zero, List.set_cons_zero]

/-- An action that is done stays so. -/
@[simp] theorem lone_run_done (a : α) (w : World) (ts : List Turn) :
    (lone (.done a) w).run ts = ([], lone (.done a) w) := by
  induction ts with
  | nil => rfl
  | cons t ts ih =>
      have hturn : (lone (.done a) w).turn t = (none, lone (.done a) w) := by
        by_cases h : t.actor = 0
        · simp only [turn, lone, h, List.getElem?_cons_zero]
        · exact lone_turn_of_ne _ w h
      rw [run, hturn]
      simp only [ih, Option.toList_none, List.nil_append]

/-- It comes to nothing else. -/
theorem eq_of_lone_run_done {a b : α} {ts : List Turn}
    (h : (lone (.done a) w).run ts = (es, lone (.done b) w')) : a = b ∧ w = w' := by
  rw [lone_run_done] at h
  obtain ⟨hx, hw⟩ := Crew.mk.inj (Prod.mk.inj h).2
  exact ⟨Action.done.inj (List.cons.inj hx).1, hw⟩

/-- An action that ends there ends there too if nothing is left to do behind it. -/
theorem lone_run_bind_done {x : Action α} {f : α → Action β} {a : α} {b : β} (hf : f a = .done b)
    {ts : List Turn} (h : (lone x w).run ts = (es, lone (.done a) w')) :
    (lone (x.bind f) w).run ts = (es, lone (.done b) w') := by
  induction ts generalizing x w es with
  | nil =>
      obtain ⟨rfl, hc⟩ := Prod.mk.inj h
      obtain ⟨hx, rfl⟩ := Crew.mk.inj hc
      rw [(List.cons.inj hx).1, Action.bind, hf]
      rfl
  | cons t ts ih =>
      cases x with
      | done a' =>
          rw [lone_run_done] at h
          obtain ⟨rfl, hc⟩ := Prod.mk.inj h
          obtain ⟨hx, rfl⟩ := Crew.mk.inj hc
          rw [(List.cons.inj hx).1, Action.bind, hf, lone_run_done]
      | ask r next =>
          rw [Action.bind, run]
          rw [run] at h
          by_cases ht : t.actor = 0
          · rw [lone_turn_ask _ w ht] at h ⊢
            obtain ⟨rfl, hc⟩ := Prod.mk.inj h
            simp only [ih (Prod.ext rfl hc)]
          · rw [lone_turn_of_ne _ w ht] at h ⊢
            obtain ⟨rfl, hc⟩ := Prod.mk.inj h
            have hrest := ih (x := .ask r next) (w := w) (Prod.ext rfl hc)
            simp only [Action.bind] at hrest
            simp only [hrest]

/-- Two actions, one after the other, that come to an end: the first one does, and then the other,
and what happens is what happens to both. -/
theorem lone_run_bind {x : Action α} {f : α → Action β} {b : β} {ts : List Turn}
    (h : (lone (x.bind f) w).run ts = (es, lone (.done b) w')) :
    ∃ a w₁ ts₁ ts₂ es₁ es₂, es = es₁ ++ es₂ ∧ (lone x w).run ts₁ = (es₁, lone (.done a) w₁) ∧
      (lone (f a) w₁).run ts₂ = (es₂, lone (.done b) w') := by
  induction ts generalizing x w es with
  | nil =>
      cases x with
      | done a => exact ⟨a, w, [], [], [], es, rfl, rfl, h⟩
      | ask r next =>
          obtain ⟨-, hc⟩ := Prod.mk.inj h
          obtain ⟨hx, -⟩ := Crew.mk.inj hc
          cases (List.cons.inj hx).1
  | cons t ts ih =>
      cases x with
      | done a => exact ⟨a, w, [], t :: ts, [], es, rfl, rfl, h⟩
      | ask r next =>
          rw [Action.bind, run] at h
          by_cases ht : t.actor = 0
          · rw [lone_turn_ask _ w ht] at h
            obtain ⟨rfl, hc⟩ := Prod.mk.inj h
            obtain ⟨a, w₁, ts₁, ts₂, es₁, es₂, hes, hfirst, hsecond⟩ := ih (Prod.ext rfl hc)
            refine ⟨a, w₁, t :: ts₁, ts₂, _ :: es₁, es₂, congrArg (List.cons _) hes, ?_, hsecond⟩
            rw [run, lone_turn_ask _ w ht]
            simp only [hfirst, Option.toList_some, List.singleton_append]
          · rw [lone_turn_of_ne _ w ht] at h
            obtain ⟨rfl, hc⟩ := Prod.mk.inj h
            exact ih (x := .ask r next) (Prod.ext rfl hc)

/-- **An action that comes to an end in a world that answers as the rules say**, as long as what
happens is as expected, ends as the rules promise. -/
theorem lone_follows {σ : Type} {R : Rules σ} {I : World → σ → Prop} {P : Event → Prop}
    {Q : α → σ → Prop}
    (hI : ∀ w t r s, I w s → R.Allowed s r → P ⟨0, r, r.isRefused (w.reply t r).1⟩ →
      ∃ s', R.Answers s r (w.reply t r).1 s' ∧ I (w.reply t r).2 s')
    {x : Action α} {s : σ} (hw : I w s) (hx : R.logic.Sure x Q s) {ts : List Turn} {a : α}
    (hrun : (lone x w).run ts = (es, lone (.done a) w')) (hes : ∀ e ∈ es, P e) :
    ∃ s', I w' s' ∧ Q a s' := by
  induction ts generalizing x w s es with
  | nil =>
      obtain ⟨-, hc⟩ := Prod.mk.inj hrun
      obtain ⟨hx', rfl⟩ := Crew.mk.inj hc
      obtain rfl := (List.cons.inj hx').1
      exact ⟨s, hw, hx⟩
  | cons t ts ih =>
      cases x with
      | done a' =>
          rw [lone_run_done] at hrun
          obtain ⟨-, hc⟩ := Prod.mk.inj hrun
          obtain ⟨hx', rfl⟩ := Crew.mk.inj hc
          obtain rfl := Action.done.inj (List.cons.inj hx').1
          exact ⟨s, hw, hx⟩
      | ask r next =>
          rw [run] at hrun
          by_cases ht : t.actor = 0
          · rw [lone_turn_ask _ w ht] at hrun
            obtain ⟨rfl, hc⟩ := Prod.mk.inj hrun
            obtain ⟨hfirst, hrest⟩ := List.forall_mem_cons.mp hes
            obtain ⟨s', hanswers, hw'⟩ := hI w t r s hw hx.1 hfirst
            exact ih hw' (hx.2 _ s' hanswers) (Prod.ext rfl hc) hrest
          · rw [lone_turn_of_ne _ w ht] at hrun
            obtain ⟨rfl, hc⟩ := Prod.mk.inj hrun
            exact ih hw hx (Prod.ext rfl hc) hes

end Crew

/-- Anything may be asked for, and nothing is refused. -/
def Rules.willing : Rules Unit where
  Allowed _ _ := True
  Answers _ r a _ := r.isRefused a = false

/-- **A run in which nothing was refused** leaves an action with what it comes to when nothing is
refused at all. -/
theorem Crew.willing_run {α : Type} {c : Crew α} {Q : α → Unit → Prop} {k : Nat} {x : Action α}
    (hx : c.actions[k]? = some x) (hm : x.Meets .willing Q ()) {ts : List Turn}
    (hes : ∀ e ∈ (c.run ts).1, e.refused = false) :
    ∃ y, (c.run ts).2.actions[k]? = some y ∧ y.Meets .willing Q () :=
  meets_run (fun _ _ _ h => h) hx hm hes

/-- Anything may be asked for, and anything may be answered. -/
def Rules.free : Rules Unit where
  Allowed _ _ := True
  Answers _ _ _ _ := True

/-- **Any run** leaves an action with what it comes to whatever is answered. -/
theorem Crew.free_run {α : Type} {c : Crew α} {Q : α → Unit → Prop} {k : Nat} {x : Action α}
    (hx : c.actions[k]? = some x) (hm : x.Meets .free Q ()) (ts : List Turn) :
    ∃ y, (c.run ts).2.actions[k]? = some y ∧ y.Meets .free Q () :=
  meets_run (P := fun _ => True) (fun _ _ _ _ => trivial) hx hm fun _ _ => trivial

/-- So does a run by itself. -/
theorem Action.free_run {α : Type} {Q : α → Unit → Prop} {x : Action α} (hm : x.Meets .free Q ())
    (w : World) : Q (x.run w).1 () := by
  induction x generalizing w with
  | done a => exact hm
  | ask r next ih => exact ih _ (hm.2 _ () trivial) _

/-- An action that is carried out in a world that answers as the rules say comes to what it comes to
under the rules. -/
theorem Rules.run {σ α : Type} {R : Rules σ} {I : World → σ → Prop} {Q : α → σ → Prop}
    (hI : ∀ w r s, I w s → R.Allowed s r →
      ∃ s', R.Answers s r (w.answer r).1 s' ∧ I (w.answer r).2 s')
    {x : Action α} {w : World} {s : σ} (hw : I w s) (hx : R.logic.Sure x Q s) :
    ∃ s', I (x.run w).2 s' ∧ Q (x.run w).1 s' := by
  induction x generalizing w s with
  | done a => exact ⟨s, hw, hx⟩
  | ask r next ih =>
      obtain ⟨s', hanswers, hw'⟩ := hI w r s hw hx.1
      exact ih _ hw' (hx.2 _ s' hanswers)

/-- Whatever is answered, an action that ends comes to something. -/
theorem Rules.free_total : Rules.free.logic.Total := Rules.total fun _ _ => trivial

end SampleData
