import SampleData.Proofs.SharedDirectory

/-!
# Workers that take turns

Workers in one directory keep to their rules turn by turn, and the disk covers what they have
written, whoever has the next turn and whatever is refused. What happened accounts for it: every
request was one that its worker may make, and a name is there only because its own worker opened it.

* `Folder.Follows`: each worker keeps to its rules from where it stands.
* `Folder.Accounts`: what happened accounts for how far the workers have come.
* `Folder.follows_turn`, `Folder.follows_run`: one turn, and a run of turns.
* `Folder.results_of_run`: a run in which everyone is done.
* `Folder.follows_run_keeping`: what every step of a worker keeps holds at any time.
* `Folder.Begins`: texts that are written are beginnings of planned ones.
-/

namespace SampleData

namespace Folder

variable {f : Folder} {plans : Nat → String → String → Prop} {d₀ : Disk} {s s' : Nat → Progress}

/-- Each worker of a crew keeps to its rules from where it stands, on a disk that covers what all
have written. -/
structure Follows {α : Type} (f : Folder) (plans : Nat → String → String → Prop) (d₀ : Disk)
    (Q : Nat → α → Progress → Prop) (c : Crew α) (s : Nat → Progress) : Prop where
  covers : f.Covers plans d₀ c.world.disk s
  meets : ∀ {k : Nat} {x : Action α}, c.actions[k]? = some x →
    x.Meets (f.rules (plans k)) (Q k) (s k)

/-- What happened accounts for how far the workers have come: every request was allowed to the
worker that made it, no worker was refused anything unless that happened, and every name that is
new was opened by the worker that has it. -/
structure Accounts (f : Folder) (plans : Nat → String → String → Prop) (es : List Event)
    (s s' : Nat → Progress) : Prop where
  allowed : ∀ e ∈ es, ∃ p, (f.rules (plans e.actor)).Allowed p e.request
  refused : (∀ e ∈ es, e.refused = false) → ∀ k, (s' k).refused = (s k).refused
  created : ∀ k name, (s' k).texts name ≠ none → (s k).texts name ≠ none ∨
    ∃ e ∈ es, e.actor = k ∧ ∃ fresh, e.request = .create (f.path name) fresh

/-- Nothing happened, and nobody came any further. -/
theorem accounts_nil (s : Nat → Progress) : f.Accounts plans [] s s where
  allowed := nofun
  refused _ _ := rfl
  created _ _ h := .inl h

/-- What happened first and what happened then, together. -/
theorem Accounts.append {es es' : List Event} {s₁ : Nat → Progress}
    (h : f.Accounts plans es s s₁) (h' : f.Accounts plans es' s₁ s') :
    f.Accounts plans (es ++ es') s s' where
  allowed e he := by
    rcases List.mem_append.mp he with he | he
    · exact h.allowed e he
    · exact h'.allowed e he
  refused hes k := by
    rw [h'.refused (fun e he => hes e (List.mem_append_right es he)) k,
      h.refused (fun e he => hes e (List.mem_append_left es' he)) k]
  created k name hnew := by
    rcases h'.created k name hnew with hold | ⟨e, he, hk, hr⟩
    · rcases h.created k name hold with hold | ⟨e, he, hk, hr⟩
      · exact .inl hold
      · exact .inr ⟨e, List.mem_append_left es' he, hk, hr⟩
    · exact .inr ⟨e, List.mem_append_right es he, hk, hr⟩

/-- A name that is new after an answer was opened by the request. -/
theorem created_of_answers {planned : String → String → Prop} {p p' : Progress} {r : Request}
    {a : r.Answer} (h : (f.rules planned).Answers p r a p') {name : String}
    (hnew : p'.texts name ≠ none) :
    p.texts name ≠ none ∨ ∃ fresh, r = .create (f.path name) fresh := by
  rcases answers_cases h with hsame | ⟨name', _, fresh, -, rfl, rfl⟩ |
    ⟨name', _, text, _, -, -, htext, rfl⟩
  · exact .inl (hsame ▸ hnew)
  · by_cases hname : name = name'
    · exact .inr ⟨fresh, by rw [hname]⟩
    · exact .inl (by simpa [hname] using hnew)
  · by_cases hname : name = name'
    · exact .inl (by simp [hname, htext])
    · exact .inl (by simpa [hname] using hnew)

/-- What a turn does: nothing, or a worker's request that its rules allow is answered as they say,
and the worker has come further. -/
theorem follows_step (hh : f.Hosts plans d₀) {α : Type} {Q : Nat → α → Progress → Prop}
    {c : Crew α} (h : f.Follows plans d₀ Q c s) (t : Turn) :
    c.turn t = (none, c) ∨ ∃ r a p, (c.turn t).1 = some ⟨t.actor, r, r.isRefused a⟩ ∧
      (f.rules (plans t.actor)).Allowed (s t.actor) r ∧
      (f.rules (plans t.actor)).Answers (s t.actor) r a p ∧
      p.refused = ((s t.actor).refused || r.isRefused a) ∧
      f.Follows plans d₀ Q (c.turn t).2 (Function.update s t.actor p) := by
  rcases c.turn_cases t with hturn | ⟨r, next, hactor, hturn⟩
  · exact .inl hturn
  · obtain ⟨hallowed, hnext⟩ := h.meets hactor
    obtain ⟨p, hanswers, hc, hrefused⟩ := h.covers.reply hh hallowed t
    rw [hturn]
    refine .inr ⟨r, _, p, rfl, hallowed, hanswers, hrefused, hc, ?_⟩
    intro k x hk
    rcases Crew.getElem?_set_cases hk with ⟨rfl, rfl⟩ | ⟨hne, hk⟩
    · rw [Function.update_self]
      exact hnext _ _ hanswers
    · rw [Function.update_of_ne hne]
      exact h.meets hk

/-- One turn of a crew. -/
theorem follows_turn (hh : f.Hosts plans d₀) {α : Type} {Q : Nat → α → Progress → Prop}
    {c : Crew α} (h : f.Follows plans d₀ Q c s) (t : Turn) :
    ∃ s', f.Follows plans d₀ Q (c.turn t).2 s' ∧
      f.Accounts plans (c.turn t).1.toList s s' := by
  rcases follows_step hh h t with hturn | ⟨r, a, p, hevent, hallowed, hanswers, hrefused, hfollows⟩
  · rw [hturn]
    exact ⟨s, h, accounts_nil s⟩
  · refine ⟨_, hfollows, ?_⟩
    rw [hevent]
    refine ⟨?_, ?_, ?_⟩
    · intro e he
      obtain rfl := List.mem_singleton.mp he
      exact ⟨_, hallowed⟩
    · intro hes k
      have hnot := hes _ (List.mem_singleton_self _)
      by_cases hk : k = t.actor
      · rw [hk, Function.update_self, hrefused]
        exact (congrArg _ hnot).trans (Bool.or_false _)
      · rw [Function.update_of_ne hk]
    · intro k name hnew
      by_cases hk : k = t.actor
      · subst hk
        rw [Function.update_self] at hnew
        rcases created_of_answers hanswers hnew with hold | ⟨fresh, hr⟩
        · exact .inl hold
        · exact .inr ⟨_, List.mem_singleton_self _, rfl, fresh, hr⟩
      · rw [Function.update_of_ne hk] at hnew
        exact .inl hnew

/-- **Any run of turns**: each worker keeps to its rules, the disk covers what they have written,
and what happened accounts for it. -/
theorem follows_run (hh : f.Hosts plans d₀) {α : Type} {Q : Nat → α → Progress → Prop}
    {c : Crew α} (h : f.Follows plans d₀ Q c s) (ts : List Turn) :
    ∃ s', f.Follows plans d₀ Q (c.run ts).2 s' ∧ f.Accounts plans (c.run ts).1 s s' := by
  induction ts generalizing c s with
  | nil => exact ⟨s, h, accounts_nil s⟩
  | cons t ts ih =>
      obtain ⟨s₁, h₁, haccounts⟩ := follows_turn hh h t
      obtain ⟨s', h', haccounts'⟩ := ih h₁
      exact ⟨s', h', haccounts.append haccounts'⟩

/-- **Where a run ends**: everyone has come to a result that its rules allow for what it has
written, and the disk covers that. -/
theorem results_of_run (hh : f.Hosts plans d₀) {α : Type} {Q : Nat → α → Progress → Prop}
    {c : Crew α} (h : f.Follows plans d₀ Q c s) {ts : List Turn} {results : List α}
    (hdone : (c.run ts).2.IsDone results) :
    ∃ s', f.Covers plans d₀ (c.run ts).2.world.disk s' ∧ f.Accounts plans (c.run ts).1 s s' ∧
      ∀ (k : Nat) x, results[k]? = some x → Q k x (s' k) := by
  obtain ⟨s', hend, haccounts⟩ := follows_run hh h ts
  refine ⟨s', hend.covers, haccounts, fun k x hx => hend.meets (k := k) (x := .done x) ?_⟩
  rw [hdone.getElem?_actions, hx, Option.map_some]

/-! ## What stays true of a worker -/

/-- **What every step of a worker keeps** holds of each worker at any time. -/
theorem follows_run_keeping (hh : f.Hosts plans d₀) {α : Type} {Q : Nat → α → Progress → Prop}
    {I : Nat → Progress → Prop}
    (hI : ∀ k p r a p', I k p → (f.rules (plans k)).Allowed p r →
      (f.rules (plans k)).Answers p r a p' → I k p')
    {c : Crew α} (h : f.Follows plans d₀ Q c s) (hs : ∀ k, I k (s k)) (ts : List Turn) :
    ∃ s', f.Follows plans d₀ Q (c.run ts).2 s' ∧ ∀ k, I k (s' k) := by
  induction ts generalizing c s with
  | nil => exact ⟨s, h, hs⟩
  | cons t ts ih =>
      rcases follows_step hh h t with hturn | ⟨r, a, p, -, hallowed, hanswers, -, hfollows⟩
      · have hrun : (c.run (t :: ts)).2 = (c.run ts).2 := by
          show ((c.turn t).2.run ts).2 = _
          rw [hturn]
        rw [hrun]
        exact ih h hs
      · refine ih hfollows fun k => ?_
        by_cases hk : k = t.actor
        · subst hk
          rw [Function.update_self]
          exact hI _ _ r a p (hs _) hallowed hanswers
        · rw [Function.update_of_ne hk]
          exact hs k

/-- What a worker has written so far are beginnings of texts that it plans. -/
def Begins (planned : String → String → Prop) (p : Progress) : Prop :=
  ∀ name text, p.texts name = some text → ∃ whole rest, planned name whole ∧ text ++ rest = whole

/-- Every step of a worker keeps to the beginnings of its texts. -/
theorem Begins.step {planned : String → String → Prop} {p p' : Progress} {r : Request}
    {a : r.Answer} (h : Begins planned p) (hallowed : (f.rules planned).Allowed p r)
    (hanswers : (f.rules planned).Answers p r a p') : Begins planned p' := by
  have hwrite : ∀ {name text whole rest}, planned name whole → text ++ rest = whole →
      Begins planned (p.write name text) := by
    intro name text whole rest hp hrest name' text' htext
    by_cases hname : name' = name
    · subst hname
      obtain rfl : text = text' := by simpa using htext
      exact ⟨whole, rest, hp, hrest⟩
    · exact h name' text' (by simpa [hname] using htext)
  rcases answers_cases hanswers with hsame | ⟨name, whole, _, hp, -, rfl⟩ |
    ⟨name, _, text, chunk, -, rfl, htext, rfl⟩
  · intro name text htext
    exact h name text (hsame ▸ htext)
  · exact hwrite hp String.empty_append
  · obtain ⟨name', whole, text', rest, hp, hfile, htext', hrest⟩ := hallowed
    obtain rfl := f.place_injective hfile
    obtain rfl := Option.some.inj (htext.symm.trans htext')
    exact hwrite hp hrest

end Folder

end SampleData
