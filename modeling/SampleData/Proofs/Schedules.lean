import SampleData.Proofs.Crews
import SampleData.Proofs.FailedDraws
import SampleData.Proofs.LineDecoding
import SampleData.Proofs.MergedOutputs

/-!
# Schedules of a shared run

The workers of a run with a seed write under numbers that no two of them share, so each writes what
it would write alone, whoever has the next turn. What a run leaves behind when nothing was refused
is therefore the same for all schedules, and the same as when the workers go one after the other.

Nothing but files and directories may stand under the names to be written. A link there would be
written through, to a place that is nobody's or to one that is another worker's.

* `SharedRun.Ready`: when a run can be carried out in a directory.
* `SharedRun.Ready.finished`: where the workers have come to at the end.
* `SharedRun.Completed`: what is left behind.
-/

namespace SampleData

open JsonLines

/-! ## Runs -/

/-- A run with a seed that is shared out among workers in a directory; its files are numbered. -/
structure SharedRun where
  folder : Folder
  base : String
  plan : Plan
  lines : UInt64
  files : UInt64
  workers : UInt64
  seed : UInt64

/-- The text of the file at a place, if one is there. -/
def Disk.textAt (d : Disk) (place : Location) : String :=
  match d.node? place with
  | some (.file text) => text
  | _ => ""

namespace SharedRun

variable (r : SharedRun)

/-- How the files are shared out. -/
def assignments : List Assignment := partition r.files r.workers (some r.seed)

/-- The generator of an assignment. -/
def generator (a : Assignment) : Generator := .ofSeed r.plan (r.seed + (a.worker - 1))

/-- The name of a file. -/
def name (i : Nat) : String := numberedName r.base i

/-- The place of a file. -/
def place (i : Nat) : Location := r.folder.place (r.name i)

/-- The workers, about to take turns. -/
def crew (w : World) : Crew (Except PopulateError (List FileOutput)) :=
  workerCrew r.plan r.folder.dir ⟨r.base, .count⟩ r.lines r.assignments w

/-- The workers, one after the other. -/
def inOrder : Action WorkerResults :=
  runWorkers r.plan r.folder.dir ⟨r.base, .count⟩ r.lines r.assignments

theorem getElem?_crew (w : World) (k : Nat) : (r.crew w).actions[k]? =
    (r.assignments[k]?).map (runWorker r.plan r.folder.dir ⟨r.base, .count⟩ r.lines) := by
  rw [crew, workerCrew, List.getElem?_map]

/-- A number of one of the files. -/
def Numbers (i : Nat) : Prop := 1 ≤ i ∧ i ≤ r.files.toNat

/-- The run can be carried out on the disk: the directory is there, the base is part of a name, no
field holds the current time, the numbers do not overflow, and nothing but files and directories
stands under the names. -/
structure Ready (d : Disk) : Prop where
  found : d.find r.folder.dir = .ok (r.folder.home, .directory)
  base_slash : '/' ∉ r.base.toList
  timeless : r.plan.hasTimestamp = false
  files_lt : r.files.toNat < 2 ^ 64 - 1
  plain : ∀ i, r.Numbers i → ∀ n, d.node? (r.place i) = some n → n.IsPlain

/-- The records of each assignment, as its generator gives them. -/
def Draws (records : Assignment → List Record) : Prop :=
  ∀ a ∈ r.assignments, ∀ c : Clock,
    ((r.generator a).many c (a.count.toNat * r.lines.toNat)).1 = .ok (records a)

variable {r} {records : Assignment → List Record} {d d₀ : Disk} {w : World}

/-! ## Plans -/

/-- What the worker of an assignment writes, a row a file. -/
def rows (r : SharedRun) (records : Assignment → List Record) (a : Assignment) :
    List (List Record) :=
  fileRows r.lines.toNat a.count.toNat (records a)

/-- What each worker plans. -/
def plans (r : SharedRun) (records : Assignment → List Record) (k : Nat) (name whole : String) :
    Prop :=
  ∃ a, r.assignments[k]? = some a ∧ rowPlan r.base a.start.toNat (r.rows records a) name whole

theorem plans_eq {k : Nat} {a : Assignment} (hk : r.assignments[k]? = some a) :
    r.plans records k = rowPlan r.base a.start.toNat (r.rows records a) := by
  funext name whole
  refine propext ⟨?_, fun h => ⟨a, hk, h⟩⟩
  rintro ⟨a', hk', h⟩
  rw [hk] at hk'
  rwa [Option.some.inj hk']

/-- The assignments follow each other from the first file to the last. -/
theorem spans (r : SharedRun) : Assignment.Spans 1 r.assignments (1 + r.files.toNat) :=
  partition_spans r.files r.workers (some r.seed)

/-- A planned name is that of a number of the worker's assignment. -/
theorem of_plans {k : Nat} {name whole : String} (h : r.plans records k name whole) :
    ∃ a i, r.assignments[k]? = some a ∧ a.Has i ∧ name = r.name i := by
  obtain ⟨a, hk, j, row, hrow, rfl, -⟩ := h
  have hj := (List.getElem?_eq_some_iff.mp hrow).1
  rw [rows, length_fileRows] at hj
  exact ⟨a, _, hk, ⟨Nat.le_add_right _ _, Nat.add_lt_add_left hj _⟩, rfl⟩

/-- The numbers of an assignment are numbers of files. -/
theorem numbers_of_has {k i : Nat} {a : Assignment}
    (hk : r.assignments[k]? = some a) (hi : a.Has i) : r.Numbers i := by
  have := r.spans.bounds.2 a (List.mem_of_getElem? hk)
  unfold Assignment.Has at hi
  exact ⟨by omega, by omega⟩

/-- The plans can be carried out on a disk that is ready. -/
theorem Ready.hosts (hr : r.Ready d) : r.folder.Hosts (r.plans records) d where
  found := hr.found
  named := by
    intro k name whole h
    obtain ⟨a, i, -, -, rfl⟩ := of_plans h
    exact isName_numberedName hr.base_slash i
  plain := by
    intro k name whole h n hn
    obtain ⟨a, i, hk, hi, rfl⟩ := of_plans h
    exact hr.plain i (numbers_of_has hk hi) n hn
  apart := by
    intro k k' name whole whole' h h'
    obtain ⟨a, i, hk, hi, rfl⟩ := of_plans h
    obtain ⟨a', i', hk', hi', hname⟩ := of_plans h'
    obtain rfl := numberedName_injective r.base hname
    exact r.spans.position_eq hk hk' hi hi'

/-- The worker of an assignment has come to an end: its files are written and its outputs are those
of its numbers, or it was refused something. -/
def Finishes (r : SharedRun) (records : Assignment → List Record) (k : Nat)
    (x : Except PopulateError (List FileOutput)) (s : Progress) : Prop :=
  ∀ a, r.assignments[k]? = some a → match x with
    | .ok outputs => outputs.map FileOutput.label =
          (List.range' a.start.toNat a.count.toNat).map (r.folder.label r.base) ∧
        s = Progress.fresh.writeRow r.base a.start.toNat ((r.rows records a).map text)
    | .error _ => s.refused = true

/-- Every worker keeps to its rules and comes to its end. -/
theorem Ready.meets (hr : r.Ready d) (hdraws : r.Draws records) {k : Nat} {a : Assignment}
    (hk : r.assignments[k]? = some a) :
    (runWorker r.plan r.folder.dir ⟨r.base, .count⟩ r.lines a).Meets
      (r.folder.rules (r.plans records k)) (r.Finishes records k) .fresh := by
  have ha := List.mem_of_getElem? hk
  have hseed : a.seed = some (r.seed + (a.worker - 1)) := seed_of_mem_assignmentsFrom ha
  have hend := (r.spans.bounds.2 a ha).2
  have hfiles := hr.files_lt
  have hworker := runWorker_sure (f := r.folder) (Disk.leads_of_find hr.found).1 hr.base_slash
    hr.timeless hseed (by omega) (hdraws a ha fun _ => .zero) .fresh
  rw [plans_eq hk]
  refine (r.folder.rules _).logic.sure_mono (fun x s hx => ?_) hworker
  intro a' hk'
  obtain rfl : a = a' := Option.some.inj (hk.symm.trans hk')
  exact hx

/-! ## The end of a run -/

/-- Every worker has written its files, on a disk that was another one before. -/
structure Written (r : SharedRun) (records : Assignment → List Record) (d₀ d : Disk)
    (s : Nat → Progress) : Prop where
  covers : r.folder.Covers (r.plans records) d₀ d s
  ended : ∀ {k : Nat} {a : Assignment}, r.assignments[k]? = some a →
    s k = Progress.fresh.writeRow r.base a.start.toNat ((r.rows records a).map text)

/-- The workers, before anything has happened. -/
theorem Ready.follows (hr : r.Ready w.disk) (hdraws : r.Draws records) :
    r.folder.Follows (r.plans records) w.disk (r.Finishes records) (r.crew w)
      fun _ => .fresh where
  covers := Folder.covers_fresh
  meets := by
    intro k x hx
    rw [getElem?_crew, Option.map_eq_some_iff] at hx
    obtain ⟨a, hk, rfl⟩ := hx
    exact hr.meets hdraws hk

/-- As many results as assignments come of a run. -/
theorem length_results {ts : List Turn} {results : List (Except PopulateError (List FileOutput))}
    (hdone : ((r.crew w).run ts).2.IsDone results) : results.length = r.assignments.length := by
  have hlen := Crew.length_run (r.crew w) ts
  rwa [hdone.actions_eq, List.length_map, crew, workerCrew, List.length_map] at hlen

/-- **Where a run ends** in which nothing was refused: every worker has written its files, and has
come to their outputs. -/
theorem Ready.finished (hr : r.Ready w.disk) (hdraws : r.Draws records) {ts : List Turn}
    {results : List (Except PopulateError (List FileOutput))}
    (hdone : ((r.crew w).run ts).2.IsDone results)
    (hes : ∀ e ∈ ((r.crew w).run ts).1, e.refused = false) :
    ∃ s, r.Written records w.disk ((r.crew w).run ts).2.world.disk s ∧
      r.folder.Accounts (r.plans records) ((r.crew w).run ts).1 (fun _ => .fresh) s ∧
      List.Forall₂ (r.folder.Yields r.base) results r.assignments := by
  obtain ⟨s, hcovers, haccounts, hresults⟩ :=
    Folder.results_of_run hr.hosts (hr.follows hdraws) hdone
  have hlen := length_results hdone
  have hresult : ∀ k x a, results[k]? = some x → r.assignments[k]? = some a →
      r.folder.Yields r.base x a ∧
        s k = Progress.fresh.writeRow r.base a.start.toNat ((r.rows records a).map text) := by
    intro k x a hx hk
    have hfinishes := hresults k x hx a hk
    cases x with
    | error e =>
        -- a worker that failed was refused something, but nobody was
        have hrefused : (s k).refused = false := haccounts.refused hes k
        rw [hfinishes] at hrefused
        cases hrefused
    | ok outputs => exact ⟨⟨outputs, rfl, hfinishes.1⟩, hfinishes.2⟩
  refine ⟨s, ⟨hcovers, ?_⟩, haccounts, ?_⟩
  · intro k a hk
    have hklt := (List.getElem?_eq_some_iff.mp hk).1
    rw [← hlen] at hklt
    exact (hresult k _ a (List.getElem?_eq_getElem hklt) hk).2
  · apply List.forall₂_of_length_eq_of_get hlen
    intro k hk hk'
    exact (hresult k _ _ (List.getElem?_eq_getElem hk) (List.getElem?_eq_getElem hk')).1

/-- The generator of an assignment gives as many records as its files have lines. -/
theorem Ready.length_records (hr : r.Ready d) (hdraws : r.Draws records) {a : Assignment}
    (ha : a ∈ r.assignments) : (records a).length = a.count.toNat * r.lines.toNat :=
  (Generator.gives_of_many hr.timeless (hdraws a ha fun _ => .zero)).1

/-- Every number has a worker, and a row among that worker's. -/
theorem Ready.row_of_number (hr : r.Ready d) (hdraws : r.Draws records) {i : Nat}
    (hi : r.Numbers i) : ∃ (k : Nat) (a : Assignment) (row : List Record),
      r.assignments[k]? = some a ∧ a.Has i ∧
        (r.rows records a)[i - a.start.toNat]? = some row ∧ row.length = r.lines.toNat := by
  obtain ⟨a, ha, hhas⟩ := r.spans.exists_of_mem hi.1 (Nat.lt_one_add_iff.mpr hi.2)
  obtain ⟨k, hk⟩ := List.getElem?_of_mem ha
  have hlt : i - a.start.toNat < (r.rows records a).length := by
    rw [rows, length_fileRows]
    unfold Assignment.Has at hhas
    omega
  exact ⟨k, a, _, hk, hhas, List.getElem?_eq_getElem hlt,
    length_of_mem_fileRows (hr.length_records hdraws ha) (List.getElem_mem hlt)⟩

/-- However far the workers have come, nothing is changed that stands under none of the numbers. -/
theorem untouched_of_covers {s : Nat → Progress} (hc : r.folder.Covers (r.plans records) d₀ d s)
    {place : Location} (hplace : ∀ i, r.Numbers i → place ≠ r.place i) :
    d.node? place = d₀.node? place := by
  apply hc.untouched
  intro k name whole hp heq
  obtain ⟨a, i, hk, hi, rfl⟩ := of_plans hp
  exact absurd heq (hplace i (numbers_of_has hk hi))

/-! ## What is written -/

namespace Written

variable {s s' : Nat → Progress} {d' : Disk}

/-- Each row is written under its number. -/
theorem texts_eq (h : r.Written records d₀ d s) {k j : Nat} {a : Assignment} {row : List Record}
    (hk : r.assignments[k]? = some a) (hrow : (r.rows records a)[j]? = some row) :
    (s k).texts (r.name (a.start.toNat + j)) = some (text row) := by
  rw [h.ended hk]
  apply Progress.texts_writeRow _
  rw [List.getElem?_map, hrow]
  rfl

/-- Each row stands under its number, which could be opened. -/
theorem file (h : r.Written records d₀ d s) {k j : Nat} {a : Assignment} {row : List Record}
    (hk : r.assignments[k]? = some a) (hrow : (r.rows records a)[j]? = some row) :
    d.node? (r.place (a.start.toNat + j)) = some (.file (text row)) ∧
      d₀.Opens r.folder.dir (r.name (a.start.toNat + j)) r.folder.home := by
  have hplan : r.plans records k (r.name (a.start.toNat + j)) (text row) :=
    ⟨a, hk, j, row, hrow, rfl, rfl⟩
  exact h.covers.opened hplan (h.texts_eq hk hrow)

/-- Every planned name could be opened. -/
theorem opens (h : r.Written records d₀ d s) {k : Nat} {name whole : String}
    (hp : r.plans records k name whole) : d₀.Opens r.folder.dir name r.folder.home := by
  obtain ⟨a, hk, j, row, hrow, rfl, -⟩ := hp
  exact (h.file hk hrow).2

/-- Workers that have written their files have written the same. -/
theorem node?_eq (h : r.Written records d₀ d s) (h' : r.Written records d₀ d' s')
    (place : Location) : d.node? place = d'.node? place := by
  refine h.covers.node?_eq h'.covers ?_ place
  rintro k name whole ⟨a, hk, -⟩
  rw [h.ended hk, h'.ended hk]

/-- Other places are as they were. -/
theorem untouched (h : r.Written records d₀ d s) {place : Location}
    (hplace : ∀ i, r.Numbers i → place ≠ r.place i) : d.node? place = d₀.node? place :=
  untouched_of_covers h.covers hplace

/-- The texts of the files of an assignment, in the order of their numbers. -/
theorem texts (h : r.Written records d₀ d s) {k : Nat} {a : Assignment}
    (hk : r.assignments[k]? = some a) :
    ((List.range' a.start.toNat a.count.toNat).map fun i => d.textAt (r.place i)) =
      (r.rows records a).map text := by
  refine List.ext_getElem ?_ ?_
  · simp [rows]
  · intro j hj hj'
    rw [List.length_map] at hj'
    have hnode := (h.file hk (List.getElem?_eq_getElem hj')).1
    rw [List.getElem_map, List.getElem_map, List.getElem_range', Nat.one_mul, Disk.textAt, hnode]

end Written

/-! ## One worker after the other -/

/-- Workers that go one after the other, from one of them on, each come to their end. -/
theorem runWorkers_written (hr : r.Ready d₀) (hdraws : r.Draws records)
    (hopens : ∀ k name whole, r.plans records k name whole →
      d₀.Opens r.folder.dir name r.folder.home)
    {as : List Assignment} {k : Nat} (has : r.assignments.drop k = as) {w : World}
    {s : Nat → Progress} (hc : r.folder.Covers (r.plans records) d₀ w.disk s)
    (hold : ∀ {j : Nat} {a : Assignment}, j < k → r.assignments[j]? = some a →
      s j = Progress.fresh.writeRow r.base a.start.toNat ((r.rows records a).map text))
    (hnew : ∀ j, k ≤ j → s j = .fresh) :
    ∃ s', r.Written records d₀
      ((runWorkers r.plan r.folder.dir ⟨r.base, .count⟩ r.lines as).run w).2.disk s' := by
  induction as generalizing k w s with
  | nil =>
      refine ⟨s, hc, fun {j a} hj => hold ?_ hj⟩
      have hlt := (List.getElem?_eq_some_iff.mp hj).1
      have := List.drop_eq_nil_iff.mp has
      omega
  | cons a as ih =>
      have hk : r.assignments[k]? = some a := by
        rw [← List.head?_drop, has]
        rfl
      have hmeets := hr.meets hdraws hk
      rw [← hnew k le_rfl] at hmeets
      obtain ⟨p, hfinishes, hc', hrefused⟩ := hc.run hr.hosts hmeets
      have hrefused := hrefused (hopens k)
      have hp : p = Progress.fresh.writeRow r.base a.start.toNat ((r.rows records a).map text) := by
        have hend := hfinishes a hk
        rw [hnew k le_rfl] at hrefused
        split at hend
        · exact hend.2
        · rw [hrefused] at hend
          cases hend
      have hrest : r.assignments.drop (k + 1) = as := by
        rw [← List.tail_drop, has]
        rfl
      have hrun : ((runWorkers r.plan r.folder.dir ⟨r.base, .count⟩ r.lines (a :: as)).run w).2 =
          ((runWorkers r.plan r.folder.dir ⟨r.base, .count⟩ r.lines as).run
            ((runWorker r.plan r.folder.dir ⟨r.base, .count⟩ r.lines a).run w).2).2 := by
        show ((Action.bind _ fun result => Action.bind _ _).run w).2 = _
        rw [Action.run_bind, Action.run_bind]
        rfl
      rw [hrun]
      refine ih hrest hc' ?_ ?_
      · intro j a' hj hk'
        rcases Nat.lt_succ_iff_lt_or_eq.mp hj with hlt | rfl
        · rw [Function.update_of_ne hlt.ne, hold hlt hk']
        · obtain rfl : a = a' := Option.some.inj (hk.symm.trans hk')
          rw [Function.update_self, hp]
      · intro j hj
        rw [Function.update_of_ne (Nat.lt_of_succ_le hj).ne']
        exact hnew j (Nat.le_of_succ_le hj)

/-! ## Schedules -/

/-- Where no worker came to a draw that failed, all records were drawn. -/
theorem Ready.draws (hr : r.Ready d) {ts : List Turn}
    {results : List (Except PopulateError (List FileOutput))}
    (hdone : ((r.crew w).run ts).2.IsDone results)
    (hes : ∀ e ∈ ((r.crew w).run ts).1, e.refused = false)
    (hdrawn : ∀ fault, .error (.draw fault) ∉ results) : ∃ records, r.Draws records := by
  have hall : ∀ a, ∃ rs, a ∈ r.assignments → ∀ c : Clock,
      ((r.generator a).many c (a.count.toNat * r.lines.toNat)).1 = .ok rs := by
    intro a
    rcases hmany : ((r.generator a).many (fun _ => .zero) (a.count.toNat * r.lines.toNat)).1 with
      fault | rs
    · refine ⟨[], fun ha => ?_⟩
      obtain ⟨k, hk⟩ := List.getElem?_of_mem ha
      have hseed : a.seed = some (r.seed + (a.worker - 1)) := seed_of_mem_assignmentsFrom ha
      have hfails := runWorker_fails hr.timeless hseed hmany r.base r.folder.dir
      have hx : (r.crew w).actions[k]? =
          some (runWorker r.plan r.folder.dir ⟨r.base, .count⟩ r.lines a) := by
        rw [getElem?_crew, hk, Option.map_some]
      obtain ⟨y, hy, hmy⟩ := Crew.willing_run hx hfails hes
      rw [hdone.getElem?_actions, Option.map_eq_some_iff] at hy
      obtain ⟨x, hx, rfl⟩ := hy
      obtain rfl : x = .error (.draw fault) := hmy
      exact absurd (List.mem_of_getElem? hx) (hdrawn fault)
    · refine ⟨rs, fun _ c => ?_⟩
      rw [Generator.many_clock hr.timeless c fun _ => .zero, hmany]
  choose records hrecords using hall
  exact ⟨records, hrecords⟩

/-- An event is the writing of a file: it is opened, or text is put at its end. -/
def Writes (r : SharedRun) (i : Nat) (e : Event) : Prop :=
  (∃ fresh, e.request = .create (r.folder.path (r.name i)) fresh) ∨
    ∃ chunk, e.request = .append (r.place i) chunk

/-- What is left behind by a run that is over, whose events and results are these. -/
structure Completed (r : SharedRun) (w : World) (es : List Event)
    (results : List (Except PopulateError (List FileOutput))) (d : Disk) : Prop where
  /-- The same stands everywhere as when the workers go one after the other. -/
  in_order : ∀ place, d.node? place = (r.inOrder.run w).2.disk.node? place
  /-- Every number has a file with as many lines as were asked for. -/
  files : ∀ i, r.Numbers i → ∃ rs, rs.length = r.lines.toNat ∧
    d.node? (r.place i) = some (.file (text rs)) ∧ (text rs).toList.count '\n' = r.lines.toNat
  /-- Nothing else was changed. -/
  others : ∀ place, (∀ i, r.Numbers i → place ≠ r.place i) → d.node? place = w.disk.node? place
  /-- Every file was written by the worker that has its number, and by no other. -/
  writers : ∀ i, r.Numbers i → ∃ k a, r.assignments[k]? = some a ∧ a.Has i ∧
    (∃ e ∈ es, e.actor = k ∧ r.Writes i e) ∧ ∀ e ∈ es, r.Writes i e → e.actor = k
  /-- The files of a worker are the lines of the records of its generator. -/
  records : ∀ a ∈ r.assignments, ∃ rs, rs.length = a.count.toNat * r.lines.toNat ∧
    (∀ c : Clock, ((r.generator a).many c (a.count.toNat * r.lines.toNat)).1 = .ok rs) ∧
      String.join ((List.range' a.start.toNat a.count.toNat).map fun i => d.textAt (r.place i)) =
        text rs
  /-- There is one output for each number, in order. -/
  outputs : ∃ all, mergeResults (numberResults r.assignments results) = .ok all ∧
    all.map FileOutput.label = (List.range' 1 r.files.toNat).map (r.folder.label r.base)

/-- The worker of a number is the only one that may write its file. -/
theorem Ready.actor_eq (hr : r.Ready d) {k i : Nat} {a : Assignment}
    (hk : r.assignments[k]? = some a) (hi : a.Has i) {e : Event} (he : r.Writes i e)
    {p : Progress} (hallowed : (r.folder.rules (r.plans records e.actor)).Allowed p e.request) :
    e.actor = k := by
  obtain ⟨actor, request, refused⟩ := e
  have hplan : ∃ name whole, r.plans records actor name whole ∧ name = r.name i := by
    rcases he with ⟨fresh, rfl⟩ | ⟨chunk, rfl⟩
    · obtain ⟨-, name, whole, hp, hpath⟩ := hallowed
      have hnamed := isName_numberedName hr.base_slash i
      exact ⟨name, whole, hp, (Path.join_injective (Disk.leads_of_find hr.found).1 hnamed
        (hr.hosts.named hp) hpath).symm⟩
    · obtain ⟨name, whole, -, -, hp, hplace, -⟩ := hallowed
      exact ⟨name, whole, hp, (r.folder.place_injective hplace).symm⟩
  obtain ⟨name, whole, hp, rfl⟩ := hplan
  obtain ⟨a', i', hk', hi', hname⟩ := of_plans hp
  obtain rfl := numberedName_injective r.base hname
  exact r.spans.position_eq hk' hk hi' hi

/-- **The schedule does not matter**: whoever has the next turn, a run that comes to its end without
a refusal and without a draw that fails leaves behind what the workers leave that go one after the
other. -/
theorem run_completed (hr : r.Ready w.disk) {ts : List Turn}
    {results : List (Except PopulateError (List FileOutput))}
    (hdone : ((r.crew w).run ts).2.IsDone results)
    (hes : ∀ e ∈ ((r.crew w).run ts).1, e.refused = false)
    (hdrawn : ∀ fault, .error (.draw fault) ∉ results) :
    r.Completed w ((r.crew w).run ts).1 results ((r.crew w).run ts).2.world.disk := by
  obtain ⟨records, hdraws⟩ := hr.draws hdone hes hdrawn
  obtain ⟨s, hwritten, haccounts, hyields⟩ := hr.finished hdraws hdone hes
  constructor
  case in_order =>
    intro place
    have hopens := fun k name whole (hp : r.plans records k name whole) => hwritten.opens hp
    obtain ⟨s', hwritten'⟩ := runWorkers_written hr hdraws hopens (k := 0) rfl Folder.covers_fresh
      (fun hj => absurd hj (Nat.not_lt_zero _)) fun _ _ => rfl
    exact hwritten.node?_eq hwritten' place
  case files =>
    intro i hi
    obtain ⟨k, a, row, hk, hhas, hrow, hlen⟩ := hr.row_of_number hdraws hi
    have hnode := (hwritten.file hk hrow).1
    rw [Nat.add_sub_of_le hhas.1] at hnode
    exact ⟨row, hlen, hnode, by rw [count_lineFeed_text, hlen]⟩
  case others =>
    intro place hplace
    exact hwritten.untouched hplace
  case writers =>
    intro i hi
    obtain ⟨k, a, row, hk, hhas, hrow, -⟩ := hr.row_of_number hdraws hi
    refine ⟨k, a, hk, hhas, ?_, fun e he hwrites => ?_⟩
    · have hnew := hwritten.texts_eq hk hrow
      rw [Nat.add_sub_of_le hhas.1] at hnew
      have hne : (s k).texts (r.name i) ≠ none := by
        rw [hnew]
        nofun
      rcases haccounts.created k (r.name i) hne with hold | ⟨e, he, hactor, hreq⟩
      · exact absurd rfl hold
      · exact ⟨e, he, hactor, .inl hreq⟩
    · obtain ⟨p, hallowed⟩ := haccounts.allowed e he
      exact hr.actor_eq hk hhas hwrites hallowed
  case records =>
    intro a ha
    obtain ⟨k, hk⟩ := List.getElem?_of_mem ha
    have hlen := hr.length_records hdraws ha
    refine ⟨records a, hlen, hdraws a ha, ?_⟩
    rw [hwritten.texts hk, join_map_text, rows, flatten_fileRows hlen]
  case outputs =>
    have hstop : 1 + r.files.toNat ≤ 2 ^ 64 := by
      have := hr.files_lt
      omega
    obtain ⟨all, hall, hlabels⟩ := mergeResults_of_spans r.spans hstop hyields
    rw [Nat.add_sub_cancel_left] at hlabels
    exact ⟨all, hall, hlabels⟩

/-- Two files of one throw of a die each, by two workers. -/
def dice : SharedRun where
  folder := { dir := "/o", home := ["o"] }
  base := "d"
  plan := { fields := [{ name := "n", kind := .integer, strategy := .range 1 6 }] }
  lines := 1
  files := 2
  workers := 2
  seed := 7

/-- A world with their directory and what else there is. -/
def diceWorld (places : List (Location × Node)) : World where
  disk := { places := (["o"], .directory) :: places, current := [] }
  logged := []
  printed := ""
  time := { seconds := 0, nanos := 0 }
  keys := .ofSeed 0

/-- Turns of two workers that go step by step with each other, to the end; the timer goes on by one
a turn. -/
def stepByStep : List Turn := (List.range 20).map fun k => { Turn.plain (k % 2) with timer := k }

/-- What becomes of one throw in each of two files. -/
def diceMetrics : Metrics := { rows := 1, bytes := 8, total := 18, generation := 2, writing := 2 }

/-- What the two workers come to. -/
def diceResults : List (Except PopulateError (List FileOutput)) :=
  [.ok [{ index := 1, path := "/o/1_d.json", metrics := diceMetrics }],
    .ok [{ index := 2, path := "/o/2_d.json", metrics := diceMetrics }]]

/-- The run in an empty directory. -/
theorem run_completed_dice : dice.Completed (diceWorld [])
    ((dice.crew (diceWorld [])).run stepByStep).1 diceResults
    ((dice.crew (diceWorld [])).run stepByStep).2.world.disk := by
  have hready : dice.Ready (diceWorld []).disk := by
    refine ⟨by decide +kernel, by decide, rfl, by decide, ?_⟩
    intro i _ n hn
    simp [Disk.node?, diceWorld, place, Folder.place, dice] at hn
  have hrun : ((dice.crew (diceWorld [])).run stepByStep).2.IsDone diceResults ∧
      ∀ e ∈ ((dice.crew (diceWorld [])).run stepByStep).1, e.refused = false := by
    decide +kernel
  apply run_completed hready hrun.1 hrun.2
  intro fault hmem
  simp [diceResults] at hmem

/-- The directory of the dice with a link under the name of a file. -/
def linkedWorld : World := diceWorld [(["o", "1_d.json"], .link "x.json")]

/-- A link under the name of a file is written through: the text comes to stand where it leads. -/
theorem not_completed_link : ((dice.crew linkedWorld).run stepByStep).2.IsDone diceResults ∧
    (∀ e ∈ ((dice.crew linkedWorld).run stepByStep).1, e.refused = false) ∧
    ¬ dice.Completed linkedWorld ((dice.crew linkedWorld).run stepByStep).1 diceResults
      ((dice.crew linkedWorld).run stepByStep).2.world.disk := by
  have hrun : ((dice.crew linkedWorld).run stepByStep).2.IsDone diceResults ∧
      (∀ e ∈ ((dice.crew linkedWorld).run stepByStep).1, e.refused = false) ∧
      ((dice.crew linkedWorld).run stepByStep).2.world.disk.node? ["o", "x.json"] ≠
        linkedWorld.disk.node? ["o", "x.json"] := by
    decide +kernel
  refine ⟨hrun.1, hrun.2.1, fun h => ?_⟩
  refine hrun.2.2 (h.others ["o", "x.json"] ?_)
  intro i _ hplace
  have hname : "x.json" = dice.name i := (List.cons.inj (List.cons.inj hplace).2).1
  have hmark := underscore_mem_numberedName dice.base i
  rw [show numberedName dice.base i = "x.json" from hname.symm] at hmark
  exact absurd hmark (by decide)

end SharedRun

end SampleData
