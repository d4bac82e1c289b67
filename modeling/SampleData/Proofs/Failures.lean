import SampleData.Proofs.MissingDirectory
import SampleData.Proofs.OutputLabels
import SampleData.Proofs.Schedules

/-!
# Failures in a shared run

Whatever is refused to the workers of a run with a seed, and whenever, each file is as it was or
holds a beginning of what it holds at the end of a run in which nothing fails: a worker that fails
leaves the others' files alone, and no text of one number comes to stand under another. What is
reported in the end is decided by what the workers came to and not by when they came to it.

As for runs in which nothing fails, nothing but files and directories may stand under the names to
be written. Through a link the text of one number can come to stand under another whose worker
never writes it, having failed. The directory, though, may be missing: every worker fails then.

* `SharedRun.Fit`: what is asked of a run that may fail.
* `SharedRun.FailureFree`: a run in which nothing fails.
* `SharedRun.Contained`: what holds of a run at any time.
* `SharedRun.run_contained`: it does, whatever the schedule and whatever is refused.
-/

namespace SampleData

open JsonLines

namespace SharedRun

variable {r : SharedRun} {w : World} {records : Assignment → List Record}

/-- The run is fit for the disk: it can be carried out on it if the directory is there. -/
structure Fit (r : SharedRun) (d : Disk) : Prop where
  dir_ne : r.folder.dir ≠ ""
  base_slash : '/' ∉ r.base.toList
  timeless : r.plan.hasTimestamp = false
  files_lt : r.files.toNat < 2 ^ 64 - 1
  found : ∀ home, d.find r.folder.dir = .ok (home, .directory) → home = r.folder.home ∧
    ∀ i, r.Numbers i → ∀ n, d.node? (r.place i) = some n → n.IsPlain

/-- The turns take the workers to their end in a directory that is ready, nothing is refused, and no
draw fails. -/
structure FailureFree (r : SharedRun) (w : World) (ts : List Turn)
    (results : List (Except PopulateError (List FileOutput))) : Prop where
  ready : r.Ready w.disk
  done : ((r.crew w).run ts).2.IsDone results
  unrefused : ∀ e ∈ ((r.crew w).run ts).1, e.refused = false
  drawn : ∀ fault, .error (.draw fault) ∉ results

/-- Of one run that is under way, from the world where it began: no file is corrupt, and the outcome
is that of the workers. -/
structure Contained (r : SharedRun) (w : World)
    (c : Crew (Except PopulateError (List FileOutput))) : Prop where
  /-- The file of a number is as it was, or it holds a beginning of the text that the number gets
  where nothing fails. -/
  files : ∀ {w₀ ts₀ results₀}, r.FailureFree w₀ ts₀ results₀ → ∀ i, r.Numbers i →
    c.world.disk.node? (r.place i) = w.disk.node? (r.place i) ∨
      ∃ taken rest, c.world.disk.node? (r.place i) = some (.file taken) ∧
        taken ++ rest = ((r.crew w₀).run ts₀).2.world.disk.textAt (r.place i)
  /-- Nothing else is changed. -/
  others : ∀ {w₀ ts₀ results₀}, r.FailureFree w₀ ts₀ results₀ →
    ∀ place, (∀ i, r.Numbers i → place ≠ r.place i) →
      c.world.disk.node? place = w.disk.node? place
  /-- In the end there are outputs exactly if every worker has succeeded. -/
  succeeds : ∀ results, c.IsDone results →
    ((∃ all, mergeResults (numberResults r.assignments results) = .ok all) ↔
      ∀ x ∈ results, x.isOk)
  /-- Then there is one output for each number, in order. -/
  outputs : ∀ results all, c.IsDone results →
    mergeResults (numberResults r.assignments results) = .ok all →
      all.map FileOutput.label = (List.range' 1 r.files.toNat).map (r.folder.label r.base)
  /-- Else the error is that of the first worker that failed, in the order of the assignments. -/
  fails : ∀ results, c.IsDone results → (¬ ∀ x ∈ results, x.isOk) →
    ∃ (k : Nat) (a : Assignment) (e : PopulateError), r.assignments[k]? = some a ∧
      results[k]? = some (.error e) ∧ (∀ j < k, ∀ x, results[j]? = some x → x.isOk) ∧
        mergeResults (numberResults r.assignments results) = .error (.ofPopulate a.worker e)

/-! ## The directory -/

/-- A run is fit for a disk that is ready for it. -/
theorem Ready.fit {d : Disk} (hr : r.Ready d) : r.Fit d where
  dir_ne := (Disk.leads_of_find hr.found).1
  base_slash := hr.base_slash
  timeless := hr.timeless
  files_lt := hr.files_lt
  found := by
    intro home hfound
    rw [hr.found] at hfound
    exact ⟨(Prod.mk.inj (Except.ok.inj hfound)).1.symm, hr.plain⟩

/-- A disk that a run is fit for is ready, or the directory is missing. -/
theorem Fit.ready_or_missing {d : Disk} (hr : r.Fit d) :
    r.Ready d ∨ ∀ home, d.find r.folder.dir ≠ .ok (home, .directory) := by
  by_cases h : ∃ home, d.find r.folder.dir = .ok (home, .directory)
  · obtain ⟨home, hfound⟩ := h
    obtain ⟨rfl, hplain⟩ := hr.found home hfound
    exact .inl ⟨hfound, hr.base_slash, hr.timeless, hr.files_lt, hplain⟩
  · exact .inr fun home hfound => h ⟨home, hfound⟩

/-- Without the directory the disk stays as it is. -/
theorem Fit.disk_of_missing (hr : r.Fit w.disk)
    (hmissing : ∀ home, w.disk.find r.folder.dir ≠ .ok (home, .directory)) (ts : List Turn) :
    ((r.crew w).run ts).2.world.disk = w.disk :=
  (workerCrew_barred hr.dir_ne hr.base_slash hmissing r.plan r.lines r.assignments ts).1

/-! ## Files -/

/-- A worker plans one text for each name. -/
theorem plans_unique {k : Nat} {name whole whole' : String} (h : r.plans records k name whole)
    (h' : r.plans records k name whole') : whole = whole' := by
  obtain ⟨a, hk, j, row, hrow, rfl, rfl⟩ := h
  obtain ⟨a', hk', j', row', hrow', hname, rfl⟩ := h'
  obtain rfl := Option.some.inj (hk.symm.trans hk')
  obtain rfl : j = j' := Nat.add_left_cancel (numberedName_injective r.base hname)
  rw [Option.some.inj (hrow.symm.trans hrow')]

/-- What is refused does not matter to how far the workers have come: what they have written are
beginnings of what they plan. -/
theorem Ready.begins (hr : r.Ready w.disk) (hdraws : r.Draws records) (ts : List Turn) :
    ∃ s, r.folder.Covers (r.plans records) w.disk ((r.crew w).run ts).2.world.disk s ∧
      ∀ k, Folder.Begins (r.plans records k) (s k) := by
  obtain ⟨s, hfollows, hbegins⟩ := Folder.follows_run_keeping
    (I := fun k => Folder.Begins (r.plans records k)) hr.hosts
    (fun k p request a p' h hallowed hanswers => h.step hallowed hanswers) (hr.follows hdraws)
    (fun k name text htext => nomatch htext) ts
  exact ⟨s, hfollows.covers, hbegins⟩

/-- The records of a run in which nothing fails, and the text that each number gets. -/
theorem FailureFree.textAt {ts : List Turn}
    {results : List (Except PopulateError (List FileOutput))} (h : r.FailureFree w ts results) :
    ∃ records, r.Draws records ∧ ∀ i, r.Numbers i → ∃ k,
      r.plans records k (r.name i) (((r.crew w).run ts).2.world.disk.textAt (r.place i)) := by
  obtain ⟨records, hdraws⟩ := h.ready.draws h.done h.unrefused h.drawn
  obtain ⟨s, hwritten, -, -⟩ := h.ready.finished hdraws h.done h.unrefused
  refine ⟨records, hdraws, fun i hi => ?_⟩
  obtain ⟨k, a, row, hk, hhas, hrow, -⟩ := h.ready.row_of_number hdraws hi
  have hnode := (hwritten.file hk hrow).1
  rw [Nat.add_sub_of_le hhas.1] at hnode
  have htext : ((r.crew w).run ts).2.world.disk.textAt (r.place i) = text row := by
    rw [Disk.textAt, hnode]
  rw [htext]
  exact ⟨k, a, hk, _, row, hrow, by rw [Nat.add_sub_of_le hhas.1, name], rfl⟩

section failureFree

variable {w₀ : World} {ts₀ : List Turn}
  {results₀ : List (Except PopulateError (List FileOutput))}

/-- The file of a number is as it was, or it holds a beginning of its text. -/
theorem Fit.file_of_number (hr : r.Fit w.disk) (hfree : r.FailureFree w₀ ts₀ results₀)
    (ts : List Turn) {i : Nat} (hi : r.Numbers i) :
    ((r.crew w).run ts).2.world.disk.node? (r.place i) = w.disk.node? (r.place i) ∨
      ∃ taken rest, ((r.crew w).run ts).2.world.disk.node? (r.place i) = some (.file taken) ∧
        taken ++ rest = ((r.crew w₀).run ts₀).2.world.disk.textAt (r.place i) := by
  rcases hr.ready_or_missing with hready | hmissing
  · obtain ⟨records, hdraws, htexts⟩ := hfree.textAt
    obtain ⟨s, hcovers, hbegins⟩ := hready.begins hdraws ts
    obtain ⟨k, hplan⟩ := htexts i hi
    cases hwritten : (s k).texts (r.name i) with
    | none => exact .inl (hcovers.node?_of_none hready.hosts hplan hwritten)
    | some taken =>
        obtain ⟨whole, rest, hplan', hrest⟩ := hbegins k _ taken hwritten
        refine .inr ⟨taken, rest, (hcovers.opened hplan hwritten).1, ?_⟩
        rw [hrest, plans_unique hplan' hplan]
  · rw [hr.disk_of_missing hmissing ts]
    exact .inl rfl

/-- Nothing is changed that does not stand under one of the numbers. -/
theorem Fit.untouched (hr : r.Fit w.disk) (hfree : r.FailureFree w₀ ts₀ results₀)
    (ts : List Turn) {place : Location} (hplace : ∀ i, r.Numbers i → place ≠ r.place i) :
    ((r.crew w).run ts).2.world.disk.node? place = w.disk.node? place := by
  rcases hr.ready_or_missing with hready | hmissing
  · obtain ⟨records, hdraws, -⟩ := hfree.textAt
    obtain ⟨s, hcovers, -⟩ := hready.begins hdraws ts
    exact untouched_of_covers hcovers hplace
  · rw [hr.disk_of_missing hmissing ts]

end failureFree

/-! ## Outcomes -/

/-- Whatever was refused, a worker that succeeded has come to the outputs of its numbers. -/
theorem Fit.yields (hr : r.Fit w.disk) {ts : List Turn}
    {results : List (Except PopulateError (List FileOutput))}
    (hdone : ((r.crew w).run ts).2.IsDone results) {k : Nat} {a : Assignment}
    {x : Except PopulateError (List FileOutput)} (hk : r.assignments[k]? = some a)
    (hx : results[k]? = some x) (hok : x.isOk) : r.folder.Yields r.base x a := by
  have hfiles := hr.files_lt
  have hbound := (r.spans.bounds.2 a (List.mem_of_getElem? hk)).2
  have hlabels := runWorker_labels r.folder r.base r.plan r.lines (a := a) (by omega)
  have hworker : (r.crew w).actions[k]? =
      some (runWorker r.plan r.folder.dir ⟨r.base, .count⟩ r.lines a) := by
    rw [getElem?_crew, hk, Option.map_some]
  obtain ⟨y, hy, hmy⟩ := Crew.free_run hworker hlabels ts
  rw [hdone.getElem?_actions, hx] at hy
  obtain rfl : Action.done x = y := Option.some.inj hy
  cases x with
  | error e => cases hok
  | ok outputs => exact ⟨outputs, rfl, hmy outputs rfl⟩

/-- When every worker has succeeded, there is one output for each number, in order. -/
theorem Fit.merged (hr : r.Fit w.disk) {ts : List Turn}
    {results : List (Except PopulateError (List FileOutput))}
    (hdone : ((r.crew w).run ts).2.IsDone results) (hok : ∀ x ∈ results, x.isOk) :
    ∃ all, mergeResults (numberResults r.assignments results) = .ok all ∧
      all.map FileOutput.label = (List.range' 1 r.files.toNat).map (r.folder.label r.base) := by
  have hyields : List.Forall₂ (r.folder.Yields r.base) results r.assignments := by
    apply List.forall₂_of_length_eq_of_get (length_results hdone)
    intro k hk hk'
    exact hr.yields hdone (List.getElem?_eq_getElem hk') (List.getElem?_eq_getElem hk)
      (hok _ (List.getElem_mem hk))
  have hfiles := hr.files_lt
  obtain ⟨all, hall, hlabels⟩ :=
    mergeResults_of_spans r.spans (by omega) hyields
  rw [Nat.add_sub_cancel_left] at hlabels
  exact ⟨all, hall, hlabels⟩

/-- When a worker has failed, the error is that of the first one that has. -/
theorem merged_error {ts : List Turn} {results : List (Except PopulateError (List FileOutput))}
    (hdone : ((r.crew w).run ts).2.IsDone results) (hfail : ¬ ∀ x ∈ results, x.isOk) :
    ∃ (k : Nat) (a : Assignment) (e : PopulateError), r.assignments[k]? = some a ∧
      results[k]? = some (.error e) ∧ (∀ j < k, ∀ x, results[j]? = some x → x.isOk) ∧
        mergeResults (numberResults r.assignments results) = .error (.ofPopulate a.worker e) := by
  obtain ⟨k, e, he, hfirst⟩ := (all_ok_or_first_error results).resolve_left hfail
  have hlt := (List.getElem?_eq_some_iff.mp he).1
  rw [length_results hdone] at hlt
  have hk := List.getElem?_eq_getElem hlt
  exact ⟨k, _, e, hk, he, hfirst, mergeResults_of_error hk he hfirst⟩

/-- A worker that has failed keeps all from having outputs. -/
theorem all_ok_of_merged {ts : List Turn}
    {results : List (Except PopulateError (List FileOutput))}
    (hdone : ((r.crew w).run ts).2.IsDone results) {all : List FileOutput}
    (hall : mergeResults (numberResults r.assignments results) = .ok all) :
    ∀ x ∈ results, x.isOk := by
  by_contra hfail
  obtain ⟨_, _, _, -, -, -, herror⟩ := merged_error hdone hfail
  rw [herror] at hall
  cases hall

/-- **Failures are contained**: at any time of any schedule, whatever has been refused, every file
is as it was or holds a beginning of its own text, and what is reported in the end is decided by
what the workers came to. -/
theorem run_contained (hr : r.Fit w.disk) (ts : List Turn) :
    r.Contained w ((r.crew w).run ts).2 := by
  constructor
  case files =>
    intro w₀ ts₀ results₀ hfree i hi
    exact hr.file_of_number hfree ts hi
  case others =>
    intro w₀ ts₀ results₀ hfree place hplace
    exact hr.untouched hfree ts hplace
  case succeeds =>
    intro results hdone
    constructor
    · rintro ⟨all, hall⟩
      exact all_ok_of_merged hdone hall
    · intro hok
      obtain ⟨all, hall, -⟩ := hr.merged hdone hok
      exact ⟨all, hall⟩
  case outputs =>
    intro results all hdone hall
    obtain ⟨all', hall', hlabels⟩ := hr.merged hdone (all_ok_of_merged hdone hall)
    rw [hall] at hall'
    rw [Except.ok.inj hall', hlabels]
  case fails =>
    intro results hdone hfail
    exact merged_error hdone hfail

/-! ## Throws of a die -/

/-- Throws of a die for any number of files and workers. -/
def throws (files workers : UInt64) : SharedRun := { dice with files := files, workers := workers }

/-- They can be written to an empty directory. -/
theorem ready_throws {files workers : UInt64} (h : files.toNat < 2 ^ 64 - 1) :
    (throws files workers).Ready (diceWorld []).disk := by
  have hfound : (diceWorld []).disk.find "/o" = .ok (["o"], .directory) := by decide +kernel
  have hbase : '/' ∉ "d".toList := by decide
  refine ⟨hfound, hbase, rfl, h, ?_⟩
  intro i _ n hn
  simp [Disk.node?, diceWorld, place, Folder.place, throws, dice] at hn

/-- Turns of two workers that go step by step with each other, the second of them without room on
the disk. -/
def withoutRoom : List Turn := (List.range 20).map fun k =>
  { actor := k % 2, timer := 0, refusal := if k % 2 = 1 then some .noSpace else none }

/-- The second of two workers is refused all it asks for. -/
theorem run_contained_withoutRoom :
    (throws 2 2).FailureFree (diceWorld []) stepByStep diceResults ∧
    (throws 2 2).Contained (diceWorld [])
      (((throws 2 2).crew (diceWorld [])).run withoutRoom).2 := by
  have hready : (throws 2 2).Ready (diceWorld []).disk := ready_throws (by decide)
  have hrun : (((throws 2 2).crew (diceWorld [])).run stepByStep).2.IsDone diceResults ∧
      ∀ e ∈ (((throws 2 2).crew (diceWorld [])).run stepByStep).1, e.refused = false := by
    decide +kernel
  refine ⟨⟨hready, hrun.1, hrun.2, fun fault hmem => ?_⟩, run_contained hready.fit withoutRoom⟩
  simp [diceResults] at hmem

/-- A directory with a link from the first of three files to the third, and a directory in place of
the second. -/
def blockedWorld : World :=
  diceWorld [(["o", "1_d.json"], .link "3_d.json"), (["o", "2_d.json"], .directory)]

/-- Turns of one worker. -/
def oneByOne : List Turn := List.replicate 30 (.plain 0)

/-- Through a link the text of one number comes to stand under another, and the worker, which fails
in between, never replaces it. -/
theorem not_contained_link :
    ¬ (throws 3 1).Contained blockedWorld (((throws 3 1).crew blockedWorld).run oneByOne).2 := by
  intro h
  have hrun : (((throws 3 1).crew (diceWorld [])).run oneByOne).2.results?.isSome = true ∧
      (∀ e ∈ (((throws 3 1).crew (diceWorld [])).run oneByOne).1, e.refused = false) ∧
      (((throws 3 1).crew (diceWorld [])).run oneByOne).2.results?.all
        (·.all Except.isOk) = true ∧
      (((throws 3 1).crew (diceWorld [])).run oneByOne).2.world.disk.textAt
        ((throws 3 1).place 3) = "\x7b\"n\":2\x7d\n" ∧
      (((throws 3 1).crew blockedWorld).run oneByOne).2.world.disk.node? ((throws 3 1).place 3) =
        some (.file "\x7b\"n\":1\x7d\n") ∧
      blockedWorld.disk.node? ((throws 3 1).place 3) = none := by
    decide +kernel
  obtain ⟨hsome, hunrefused, hok, htext, hnode, hnone⟩ := hrun
  obtain ⟨results, hdone⟩ := Option.isSome_iff_exists.mp hsome
  have hfree : (throws 3 1).FailureFree (diceWorld []) oneByOne results := by
    refine ⟨ready_throws (by decide), hdone, hunrefused, fun fault hmem => ?_⟩
    rw [hdone] at hok
    cases List.all_eq_true.mp hok _ hmem
  rcases h.files hfree 3 ⟨by decide, by decide⟩ with hsame | ⟨taken, rest, hnode', hprefix⟩
  · rw [hnode, hnone] at hsame
    cases hsame
  · rw [hnode] at hnode'
    obtain rfl := Node.file.inj (Option.some.inj hnode')
    rw [htext] at hprefix
    have hfront := congrArg (fun s => s.toList.take 6) hprefix
    simp at hfront

end SharedRun

end SampleData
