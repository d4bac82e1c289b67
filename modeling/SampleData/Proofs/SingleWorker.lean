import SampleData.Proofs.AlikeActions
import SampleData.Proofs.CompletedRuns
import SampleData.Proofs.CutStreams
import SampleData.Proofs.EvenPartition
import SampleData.Proofs.OutputLabels
import SampleData.Proofs.Streams

/-!
# One worker or none

Where there is one worker, or one file at most, a run writes its files alone and does not share them
out. It makes no difference: shared out, all files would go to the first worker, with the seed of
the run and from the first number on, and there would be no worker at all if there were no files.
What one run tells and the other does not is nothing to the disk, and neither are durations.

* `partition_eq_singleton`, `partition_eq_nil`: what is shared out where sharing is not worth while.
* `Assignment.write_alike`: an assignment, whatever the clocks show.
* `Settings.writeAlone_alike`: to write alone is to be the one worker.
* `Settings.AgreeAt`: what two runs in worlds with the same disk have in common.
* `Settings.shortcut_unseen`: alone or shared out, no matter when.
-/

namespace SampleData

open Text JsonLines

/-! ## What is shared out -/

section shares

variable {files workers : UInt64} (seed : Option UInt64)

/-- No files, no assignments. -/
theorem partition_eq_nil (h : files = 0) : partition files workers seed = [] :=
  assignmentsFrom_eq_nil seed (by simp [h])

/-- Without assignments there are no numbers between the ends. -/
theorem Assignment.Spans.eq_of_nil {i stop : Nat} (h : Spans i [] stop) : i = stop := by
  cases h
  rfl

/-- **All files go to the first worker** if there is one file only, or one worker. -/
theorem partition_eq_singleton (h : worthSharing files workers = false) (hne : files ≠ 0) :
    partition files workers seed = [{ worker := 1, start := 1, count := files, seed := seed }] := by
  have hfiles : files.toNat ≠ 0 := fun h0 => hne (UInt64.toNat_inj.mp h0)
  have hone : min files.toNat (max workers.toNat 1) = 1 := by
    rw [worthSharing, Bool.and_eq_false_iff, decide_eq_false_iff_not, decide_eq_false_iff_not,
      UInt64.lt_iff_toNat_lt, UInt64.lt_iff_toNat_lt, UInt64.toNat_one] at h
    omega
  have hworkers := map_worker_partition files workers seed
  rw [hone] at hworkers
  obtain ⟨a, ha, hworker⟩ := List.map_eq_singleton_iff.mp hworkers
  have hseed : a.seed = seed.map (· + (a.worker - 1)) :=
    seed_of_mem_assignmentsFrom (ha ▸ List.mem_singleton_self a)
  have hspans := partition_spans files workers seed
  rw [ha] at hspans ⊢
  obtain ⟨worker, start, count, seed'⟩ := a
  obtain rfl : worker = 1 := UInt64.toNat_inj.mp hworker
  obtain rfl : seed' = seed := by simpa using hseed
  cases hspans with
  | cons hstart _ hrest =>
      obtain rfl : start = 1 := UInt64.toNat_inj.mp hstart
      obtain rfl : count = files := UInt64.toNat_inj.mp (Nat.add_left_cancel hrest.eq_of_nil)
      rfl

end shares

/-! ## One worker twice -/

/-- An output, its durations aside. -/
def FileOutput.untimed (o : FileOutput) : FileOutput :=
  { o with metrics := { o.metrics with total := 0, generation := 0, writing := 0 } }

/-- Outputs of files, their durations aside. -/
def untimedOutputs {ε : Type} (x : Except ε (List FileOutput)) : Except ε (List FileOutput) :=
  x.map (List.map FileOutput.untimed)

/-- Actions that are alike and come to the same results. -/
def Action.sameWork : Coupling Action Action where
  Alike x y := x.Alike (fun a b => a = b) y
  alike_pure _ := .pure rfl
  alike_bind hx hf := hx.bind fun a _ hab => hab ▸ hf a

section worker

variable {g : Generator} {lines : UInt64}

namespace JsonLines

/-- What is alike stays so when it is timed, and it may take longer one time than the other. -/
theorem timed_alike_aside {δ α β : Type} {R : Except δ α × β → Except δ α × β → Prop}
    {x y : Action (Except δ α × β)} (hxy : x.Alike R y) :
    (timed (Action.request .timer) x).Alike
      (fun a b => R (a.1.map (·.1), a.2) (b.1.map (·.1), b.2))
      (timed (Action.request .timer) y) := by
  unfold timed
  refine (Action.Alike.aside (r := .timer) trivial).bind fun started started' _ => hxy.bind ?_
  rintro ⟨x, b⟩ ⟨y, b'⟩ h
  cases x with
  | error e =>
      cases y with
      | error e' => exact .pure h
      | ok a' => exact .right (r := .timer) trivial fun _ => .pure h
  | ok a =>
      cases y with
      | error e' => exact .left (r := .timer) trivial fun _ => .pure h
      | ok a' => exact (Action.Alike.aside (r := .timer) trivial).bind fun _ _ _ => .pure h

/-- Chunks for a file are the same both times. -/
theorem fileSink_sameWork (file : Location) (chunk : String) :
    Action.sameWork.Alike (fileSink file chunk) (fileSink file chunk) :=
  Action.Alike.request (r := .append file _) id

/-- Lines of records without moments ask for nothing aside but the timer. -/
theorem writeNext_fileSink_alike (hplan : g.plan.hasTimestamp = false) (file : Location) (n : Nat)
    {w w' : Written} (hrows : w.rows = w'.rows) (b : Buffer) :
    (writeNext (Action.request .timer) (fileSink file) Generator.nextAction n w g b).Alike
      (fun x y => x.1.map Written.rows = y.1.map Written.rows ∧ x.2 = y.2 ∧
        x.2.1.plan.hasTimestamp = false)
      (writeNext (Action.request .timer) (fileSink file) Generator.nextAction n w' g b) := by
  induction n generalizing w w' g b with
  | zero => exact .pure ⟨congrArg Except.ok hrows, rfl, hplan⟩
  | succ n ih =>
      have hdraw : g.nextAction.Alike
          (fun x y => x = y ∧ x.2.plan.hasTimestamp = false) g.nextAction := by
        rw [Generator.nextAction_eq_pure hplan .zero]
        exact .pure ⟨rfl, by simp [hplan]⟩
      rw [writeNext, writeNext]
      refine (timed_alike_aside hdraw).bind ?_
      rintro ⟨x, g'⟩ ⟨y, _⟩ ⟨hxy, hplan'⟩
      cases x with
      | error e =>
          cases y with
          | ok _ => cases hxy
          | error e' =>
              cases hxy
              exact .pure ⟨rfl, rfl, hplan'⟩
      | ok x =>
          cases y with
          | error _ => cases hxy
          | ok y =>
              obtain ⟨r, drawing⟩ := x
              obtain ⟨_, drawing'⟩ := y
              cases hxy
              refine (timed_alike_aside (writeRecord_alike (fileSink_sameWork file) b r)).bind ?_
              rintro ⟨x, b'⟩ ⟨y, _⟩ hxy
              cases x with
              | error e =>
                  cases y with
                  | ok _ => cases hxy
                  | error e' =>
                      cases hxy
                      exact .pure ⟨rfl, rfl, hplan'⟩
              | ok x =>
                  cases y with
                  | error _ => cases hxy
                  | ok y =>
                      cases hxy
                      exact ih hplan' (congrArg (· + 1) hrows) b'

/-- What is left in the buffer is handed on alike. -/
theorem finish_fileSink_alike (file : Location) {x y : Except (LineFault OsError) Written}
    (hxy : x.map Written.rows = y.map Written.rows) (b : Buffer) :
    (finish (fileSink file) x b).Alike
      (fun x y => x.map Written.rows = y.map Written.rows) (finish (fileSink file) y b) := by
  have habandon : ∀ b : Buffer, (b.abandon (fileSink file)).Alike (fun x y => x = y)
      (b.abandon (fileSink file)) := Buffer.abandon_alike (fileSink_sameWork file)
  unfold finish
  cases x with
  | error e =>
      cases y with
      | ok _ => cases hxy
      | error e' => exact (habandon b).bind fun _ _ _ => .pure hxy
  | ok w =>
      cases y with
      | error _ => cases hxy
      | ok w' =>
          refine Action.Alike.bind (Buffer.flush_alike (fileSink_sameWork file) b) ?_
          rintro ⟨flushed, b'⟩ _ rfl
          cases flushed with
          | ok _ => exact .pure hxy
          | error e => exact (habandon b').bind fun _ _ _ => .pure rfl

/-- **Records without moments that are written to a file** ask for nothing aside but the timer. -/
theorem writeTimed_fileSink_alike (hplan : g.plan.hasTimestamp = false) (file : Location)
    (n : Nat) :
    (writeTimed (Action.request .timer) (fileSink file) Generator.nextAction n g).Alike
      (fun x y => x.1.map Written.rows = y.1.map Written.rows ∧ x.2 = y.2 ∧
        x.2.plan.hasTimestamp = false)
      (writeTimed (Action.request .timer) (fileSink file) Generator.nextAction n g) := by
  refine (writeNext_fileSink_alike hplan file n rfl .empty).bind ?_
  rintro ⟨x, g', b⟩ ⟨y, _⟩ ⟨hxy, rfl, hplan'⟩
  exact (finish_fileSink_alike file hxy b).bind fun _ _ h => .pure ⟨h, rfl, hplan'⟩

end JsonLines

namespace Populator

variable {p : Populator}

/-- A populator whose records hold no time and whose files are numbered. -/
structure Steady (p : Populator) : Prop where
  timeless : p.generator.plan.hasTimestamp = false
  numbered : p.naming.scheme.isRandom = false

/-- Filling a file, the durations of which do not matter. -/
theorem fill_alike (hp : p.Steady) (path : String) (file : Location) (lines : UInt64) :
    (p.fill path file lines).Alike
      (fun x y => x.1.map (fun f => (f.1.rows, f.2)) = y.1.map (fun f => (f.1.rows, f.2)) ∧
        x.2 = y.2 ∧ x.2.Steady) (p.fill path file lines) := by
  unfold fill
  refine (writeTimed_fileSink_alike hp.timeless file lines.toNat).bind ?_
  rintro ⟨x, g⟩ ⟨y, _⟩ ⟨hxy, rfl, hplan⟩
  have hsteady : ({ p with generator := g } : Populator).Steady := ⟨hplan, hp.numbered⟩
  refine (Action.Alike.request (r := .close file) id).bind fun _ _ _ => ?_
  cases x with
  | error e =>
      cases y with
      | ok _ => cases hxy
      | error e' =>
          cases hxy
          exact .pure ⟨rfl, rfl, hsteady⟩
  | ok written =>
      cases y with
      | error _ => cases hxy
      | ok written' =>
          have hrows : written.rows = written'.rows := Except.ok.inj hxy
          refine (Action.Alike.request (r := .size path) id).bind ?_
          rintro size _ rfl
          cases size with
          | error e => exact .pure ⟨rfl, rfl, hsteady⟩
          | ok bytes =>
              refine .pure ⟨?_, rfl, hsteady⟩
              exact congrArg (fun rows => Except.ok (rows, bytes)) hrows

/-- Opening a numbered file. -/
theorem openOutput_alike {naming : Naming} (h : naming.scheme.isRandom = false) (dir : String)
    (index : UInt64) :
    (openOutput naming dir index).Alike (fun x y => x = y) (openOutput naming dir index) := by
  unfold openOutput
  rw [if_neg (by rw [h]; exact Bool.false_ne_true)]
  refine (Action.Alike.request (r := .create _ _) id).bind ?_
  rintro opened _ rfl
  cases opened <;> exact .pure rfl

/-- One file, which may take longer one time than the other. -/
theorem writeFile_alike (hp : p.Steady) (dir : String) (index lines : UInt64) :
    (p.writeFile dir index lines).Alike
      (fun x y => x.1.map FileOutput.untimed = y.1.map FileOutput.untimed ∧ x.2 = y.2 ∧ x.2.Steady)
      (p.writeFile dir index lines) := by
  unfold writeFile
  refine (Action.Alike.aside (r := .timer) trivial).bind fun started started' _ => ?_
  refine (openOutput_alike hp.numbered dir index).bind ?_
  rintro opened _ rfl
  cases opened with
  | error e => exact .pure ⟨rfl, rfl, hp⟩
  | ok file =>
      refine (fill_alike hp file.1 file.2 lines).bind ?_
      rintro ⟨x, p'⟩ ⟨y, _⟩ ⟨hxy, rfl, hp'⟩
      cases x with
      | error e =>
          cases y with
          | ok _ => cases hxy
          | error e' =>
              cases hxy
              exact .pure ⟨rfl, rfl, hp'⟩
      | ok filled =>
          cases y with
          | error _ => cases hxy
          | ok filled' =>
              obtain ⟨written, bytes⟩ := filled
              obtain ⟨written', _⟩ := filled'
              obtain ⟨hrows, rfl⟩ := Prod.mk.inj (Except.ok.inj hxy)
              refine (Action.Alike.aside (r := .timer) trivial).bind fun ended ended' _ => ?_
              refine .pure ⟨?_, rfl, hp'⟩
              simp only [Except.map, FileOutput.untimed, fileMetrics,
                show written.rows = _ from hrows]

/-- **A row of files**, by induction on their number. -/
theorem writeFiles_alike (hp : p.Steady) (dir : String) (start lines : UInt64) (count : Nat) :
    (p.writeFiles dir start lines count).Alike
      (fun x y => untimedOutputs x.1 = untimedOutputs y.1)
      (p.writeFiles dir start lines count) := by
  induction count generalizing p start with
  | zero => exact .pure rfl
  | succ count ih =>
      rw [writeFiles]
      refine (writeFile_alike hp dir start lines).bind ?_
      rintro ⟨x, p'⟩ ⟨y, _⟩ ⟨hxy, rfl, hp'⟩
      cases x with
      | error e =>
          cases y with
          | ok _ => cases hxy
          | error e' =>
              obtain rfl := Except.error.inj hxy
              exact .pure rfl
      | ok o =>
          cases y with
          | error _ => cases hxy
          | ok o' =>
              refine (ih hp' (start + 1)).bind ?_
              rintro ⟨xs, _⟩ ⟨ys, _⟩ hrest
              have ho : o.untimed = o'.untimed := Except.ok.inj hxy
              cases xs with
              | error e =>
                  cases ys with
                  | ok _ => cases hrest
                  | error e' => exact .pure hrest
              | ok outputs =>
                  cases ys with
                  | error _ => cases hrest
                  | ok outputs' =>
                      have houtputs := Except.ok.inj hrest
                      exact .pure (congrArg Except.ok (List.cons_eq_cons.mpr ⟨ho, houtputs⟩))

end Populator

/-- **An assignment** is written in the same way at any time. -/
theorem Assignment.write_alike {plan : Plan} (hplan : plan.hasTimestamp = false) {naming : Naming}
    (hnaming : naming.scheme.isRandom = false) (a : Assignment) (dir : String) (lines : UInt64)
    (source : ChaCha) :
    (a.write plan dir naming lines source).Alike
      (fun x y => untimedOutputs x = untimedOutputs y)
      (a.write plan dir naming lines source) := by
  refine (Populator.writeFiles_alike ⟨hplan, hnaming⟩ dir a.start lines a.count.toNat).bind ?_
  exact fun _ _ h => .pure h

end worker

/-! ## Alone and shared -/

/-- One actor comes to one result. -/
theorem Crew.eq_singleton_of_lone {α : Type} {x : Action α} {w : World} {ts : List Turn}
    {results : List α} (h : ((lone x w).run ts).2.IsDone results) : ∃ a, results = [a] := by
  have hlength := length_run (lone x w) ts
  rw [h.actions_eq, List.length_map] at hlength
  exact List.length_eq_one_iff.mp hlength

/-- The system refuses nothing in these turns, and after them everyone is done, with these
results. -/
def Crew.RunsTo {α : Type} (c : Crew α) (ts : List Turn) (results : List α) : Prop :=
  (∀ t ∈ ts, t.refusal = none) ∧ (c.run ts).2.IsDone results

/-- Where nobody is, nothing happens. -/
@[simp] theorem Crew.run_nil {α : Type} (w : World) (ts : List Turn) :
    (⟨[], w⟩ : Crew α).run ts = ([], ⟨[], w⟩) := by
  induction ts with
  | nil => rfl
  | cons t ts ih =>
      have hturn : (⟨[], w⟩ : Crew α).turn t = (none, ⟨[], w⟩) := by simp [turn]
      rw [run, hturn]
      simp only [ih, Option.toList_none, List.nil_append]

/-- The result of one worker as that of all. -/
@[simp] theorem mergeResults_singleton {worker : UInt64}
    {x : Except PopulateError (List FileOutput)}
    (h : ∀ outputs, x = .ok outputs → sortOutputs outputs = outputs) :
    mergeResults [(worker, x)] = x.mapError (.ofPopulate worker) := by
  cases x with
  | error e => rfl
  | ok outputs =>
      show Except.ok (sortOutputs (outputs ++ [])) = _
      rw [List.append_nil, h outputs rfl]
      rfl

namespace Settings

variable {s : Settings} {plan : Plan}

/-- The assignments of a run with files are those of its partition, shared or not. -/
theorem assignments_eq_partition (hfiles : s.isConsole = false) :
    s.assignments = partition s.filesCount s.workers s.seed := by
  unfold assignments
  split
  · rfl
  · next hshare =>
    have hne : s.filesCount ≠ 0 := fun h0 => by
      have hconsole : s.isConsole = true := decide_eq_true h0
      rw [hfiles] at hconsole
      cases hconsole
    exact (partition_eq_singleton s.seed (Bool.eq_false_iff.mpr hshare) hne).symm

/-- To write all files alone is to do the work of the worker of all files. -/
theorem writeAlone_alike (hplan : plan.hasTimestamp = false) (hscheme : s.scheme = .count)
    {seed : UInt64} (hseed : s.seed = some seed) :
    (s.writeAlone plan).Alike
      (fun x y => untimedOutputs x = (untimedOutputs y).mapError .files)
      (runWorker plan s.path s.naming s.dataLines s.wholeAssignment) := by
  have hsource : s.wholeAssignment.source = pure (ChaCha.ofSeed seed) :=
    Assignment.source_of_seed hseed
  rw [s.writeAlone_eq, Settings.source_of_seed hseed, runWorker, hsource, pure_bind]
  refine .left (r := .log _) trivial fun _ => ?_
  rw [pure_bind]
  have hnaming : s.naming.scheme.isRandom = false := by
    rw [naming, hscheme]
    rfl
  have hwritten := s.wholeAssignment.write_alike hplan hnaming s.path s.dataLines (.ofSeed seed)
  have hreported := hwritten.bind (S := fun (x : Except RunError (List FileOutput)) y =>
    untimedOutputs x = (untimedOutputs y).mapError .files)
    (f := fun x => pure (x.mapError .files)) (g := pure) ?_
  · rw [bind_pure] at hreported
    exact hreported
  · intro x y hxy
    refine .pure ?_
    rw [← hxy]
    cases x <;> rfl

/-- No files are written without doing anything. -/
theorem write_of_no_files (h : s.filesCount = 0) (source : ChaCha) :
    s.wholeAssignment.write plan s.path s.naming s.dataLines source = pure (.ok []) := by
  unfold wholeAssignment Assignment.write
  rw [h]
  rfl

/-- So the worker of no files does nothing. -/
theorem runWorker_of_no_files {seed : UInt64} (hseed : s.seed = some seed) (h : s.filesCount = 0) :
    runWorker plan s.path s.naming s.dataLines s.wholeAssignment = pure (.ok []) := by
  have hsource : s.wholeAssignment.source = pure (ChaCha.ofSeed seed) :=
    Assignment.source_of_seed hseed
  rw [runWorker, hsource, pure_bind, write_of_no_files h]

/-- A run without files leaves the disk as it is. -/
theorem write_disk_of_no_files (h : s.filesCount = 0) {w w' : World} {ts : List Turn}
    {es : List Event} {summary : Summary}
    (hrun : (Crew.lone (s.write (.ok plan)) w).run ts = (es, Crew.lone (.done (.ok summary)) w')) :
    w'.disk = w.disk := by
  have hshare : worthSharing s.filesCount s.workers = false := by
    rw [h]
    rfl
  have hasks : (s.write (.ok plan)).Asks Request.LeavesDisk := by
    rw [write, writeInOrder_eq_writeAlone s plan hshare, writeAlone_eq]
    simp only [write_of_no_files h, pure_bind]
    refine .bind (.bind (Action.log_asks (fun _ => trivial) _ _) fun _ =>
      .bind (s.source_asks trivial) fun _ => .pure _) fun x => ?_
    cases x with
    | error e => exact .pure _
    | ok outputs => exact .bind (tell_asks (fun _ => trivial) _) fun _ => .pure _
  have hleft := disk_of_leaves hasks (w := w) ts
  rw [hrun] at hleft
  exact hleft

/-- The outputs of the worker of all files are in order when it is done. -/
theorem runWorker_sorted (hscheme : s.scheme = .count) {w : World} {ts : List Turn}
    {y : Except PopulateError (List FileOutput)}
    (h : ((Crew.lone (runWorker plan s.path s.naming s.dataLines s.wholeAssignment) w).run
      ts).2.IsDone [y]) : ∀ outputs, y = .ok outputs → sortOutputs outputs = outputs := by
  have hnaming : s.naming = ⟨s.fileName, .count⟩ := by rw [naming, hscheme]
  have hbound : 1 + s.filesCount.toNat ≤ 2 ^ 64 := by
    have := s.filesCount.toNat_lt
    omega
  have hlabels := runWorker_labels ⟨s.path, []⟩ s.fileName plan s.dataLines
    (a := s.wholeAssignment) hbound
  rw [← hnaming] at hlabels
  obtain ⟨z, hz, hmeets⟩ := Crew.free_run (c := Crew.lone _ w) (k := 0) rfl hlabels ts
  rw [h.actions_eq] at hz
  obtain rfl : .done y = z := Option.some.inj hz
  exact fun outputs hy => sortOutputs_of_label (hmeets outputs hy) hbound

/-- Without files there are no workers. -/
theorem sharedCrew_of_no_files (h : s.filesCount = 0) (w : World) :
    s.sharedCrew plan w = { actions := [], world := w } := by
  rw [sharedCrew, workerCrew, partition_eq_nil s.seed h]
  rfl

/-- Where sharing is not worth while there is the one worker of all files. -/
theorem sharedCrew_of_files (h : worthSharing s.filesCount s.workers = false)
    (hne : s.filesCount ≠ 0) (w : World) :
    s.sharedCrew plan w =
      Crew.lone (runWorker plan s.path s.naming s.dataLines s.wholeAssignment) w := by
  rw [sharedCrew, workerCrew, partition_eq_singleton s.seed h hne]
  rfl

/-- A run that writes the files of a plan and succeeds: by itself, or by workers that take turns if
sharing is worth while. -/
inductive WritesFiles (s : Settings) (plan : Plan) (w w' : World) : Prop
  | alone {ts : List Turn} {es : List Event} {summary : Summary}
      (h : (Crew.lone (s.write (.ok plan)) w).run ts = (es, Crew.lone (.done (.ok summary)) w'))
  | shared {ts : List Turn} {es : List Event}
      {actions : List (Action (Except PopulateError (List FileOutput)))}
      {results : List (Except PopulateError (List FileOutput))} {outputs : List FileOutput}
      (hshare : worthSharing s.filesCount s.workers = true)
      (h : (s.sharedCrew plan w).run ts = (es, ⟨actions, w'⟩))
      (hdone : Crew.IsDone ⟨actions, w'⟩ results) (hmerged : s.mergedOutputs results = .ok outputs)

/-- The writing comes to an end, alone or shared out. -/
theorem writing_ends (hshare : worthSharing s.filesCount s.workers = false) (w : World) :
    (∃ ts x, (Crew.lone (s.writeAlone plan) w).RunsTo ts [x]) ∧
      ∃ ts results, (s.sharedCrew plan w).RunsTo ts results := by
  obtain ⟨ts, hts, x, hx⟩ := Crew.exists_lone_done (s.writeAlone plan) w
  refine ⟨⟨ts, x, hts, hx⟩, ?_⟩
  by_cases hne : s.filesCount = 0
  · rw [sharedCrew_of_no_files hne]
    exact ⟨[], [], nofun, rfl⟩
  · rw [sharedCrew_of_files hshare hne]
    obtain ⟨ts', hts', y, hy⟩ := Crew.exists_lone_done
      (runWorker plan s.path s.naming s.dataLines s.wholeAssignment) w
    exact ⟨ts', [y], hts', hy⟩

section agreement

variable {seed : UInt64} (hseed : s.seed = some seed) (hscheme : s.scheme = .count)
  (hplan : plan.hasTimestamp = false) {w w' : World} (hdisk : w.disk = w'.disk) {ts ts' : List Turn}
  {x : Except RunError (List FileOutput)} {results : List (Except PopulateError (List FileOutput))}
  (halone : (Crew.lone (s.writeAlone plan) w).RunsTo ts [x])
  (hshared : (s.sharedCrew plan w').RunsTo ts' results)

/-- A run that writes alone, and workers that take turns, leave the same disk and tell of the same
outputs or of the same error, their durations aside. -/
def AgreeAt (s : Settings) (plan : Plan) (w w' : World) (ts ts' : List Turn)
    (x : Except RunError (List FileOutput))
    (results : List (Except PopulateError (List FileOutput))) : Prop :=
  ((Crew.lone (s.writeAlone plan) w).run ts).2.world.disk =
      ((s.sharedCrew plan w').run ts').2.world.disk ∧
    ∃ y : Except PopulateError (List FileOutput), untimedOutputs x = y.mapError .files ∧
      untimedOutputs (s.mergedOutputs results) = y.mapError (.ofPopulate 1)

include hseed hscheme hplan hdisk halone hshared

/-- No files are written alone, and none by no workers. -/
theorem agreeAt_of_no_files (hne : s.filesCount = 0) : s.AgreeAt plan w w' ts ts' x results := by
  have halike := writeAlone_alike hplan hscheme hseed
  rw [runWorker_of_no_files hseed hne] at halike
  rw [AgreeAt, sharedCrew_of_no_files hne, Crew.run_nil]
  rw [sharedCrew_of_no_files hne, Crew.RunsTo, Crew.run_nil] at hshared
  obtain rfl : results = [] := List.map_eq_nil_iff.mp hshared.2.actions_eq.symm
  have hends := Crew.ends_of_isDone halone.1 halone.2
  obtain ⟨hleft, hx⟩ := halike.run hdisk hends (Action.Ends.done _ w')
  refine ⟨hleft, .ok [], hx, ?_⟩
  rw [mergedOutputs, partition_eq_nil s.seed hne]
  show untimedOutputs (.ok (sortOutputs [])) = _
  rw [sortOutputs, List.mergeSort_nil]
  rfl

/-- All files are written by the one worker as they are alone. -/
theorem agreeAt_of_files (hshare : worthSharing s.filesCount s.workers = false)
    (hne : s.filesCount ≠ 0) : s.AgreeAt plan w w' ts ts' x results := by
  have halike := writeAlone_alike hplan hscheme hseed
  rw [AgreeAt]
  rw [sharedCrew_of_files hshare hne] at hshared ⊢
  obtain ⟨y, rfl⟩ := Crew.eq_singleton_of_lone hshared.2
  have hends := Crew.ends_of_isDone halone.1 halone.2
  obtain ⟨hleft, hx⟩ := halike.run hdisk hends (Crew.ends_of_isDone hshared.1 hshared.2)
  refine ⟨hleft, untimedOutputs y, hx, ?_⟩
  have hsorted := runWorker_sorted hscheme hshared.2
  rw [mergedOutputs, partition_eq_singleton s.seed hshare hne, numberResults]
  show untimedOutputs (mergeResults [(1, y)]) = _
  rw [mergeResults_singleton hsorted]
  cases y <;> rfl

end agreement

/-- A run that succeeds leaves the files of the partition. -/
theorem WritesFiles.filled (hscheme : s.scheme = .count)
    (hs : s.Checked) {f : Folder} {w w' : World} (hdir : f.dir = s.path) (ho : f.Orderly w.disk)
    (h : s.WritesFiles plan w w') :
    f.Filled s.fileName plan s.dataLines (partition s.filesCount s.workers s.seed)
      w.disk w'.disk := by
  cases h with
  | alone h =>
      by_cases hne : s.filesCount = 0
      · rw [partition_eq_nil s.seed hne, write_disk_of_no_files hne h]
        exact ⟨rfl, nofun, fun _ _ => rfl⟩
      · have hfiles : s.isConsole = false := decide_eq_false hne
        exact assignments_eq_partition hfiles ▸ filled_of_write hs hfiles hscheme hdir ho h
  | shared _ h hdone hmerged =>
      exact (filled_of_crew hs hscheme hdir (ho.accepts _ _) (partition_spans _ _ _) h hdone
        hmerged).1

/-- That files are not shared out where it is not worth while makes no difference. -/
structure ShortcutUnseen (s : Settings) (plan : Plan) : Prop where
  /-- Alone or shared out, the writing comes to an end. -/
  ends : worthSharing s.filesCount s.workers = false → ∀ w,
    (∃ ts x, (Crew.lone (s.writeAlone plan) w).RunsTo ts [x]) ∧
      ∃ ts results, (s.sharedCrew plan w).RunsTo ts results
  /-- In any two worlds with the same disk, the one run leaves the same disk as the other, and both
  tell of the same outputs in the same order, or of the same error; only durations may differ. -/
  agree : worthSharing s.filesCount s.workers = false → ∀ {w w' ts ts' x results},
    w.disk = w'.disk → (Crew.lone (s.writeAlone plan) w).RunsTo ts [x] →
      (s.sharedCrew plan w').RunsTo ts' results → s.AgreeAt plan w w' ts ts' x results
  /-- So with any number of workers, a run that succeeds in a directory without links leaves each
  assignment of the partition with its files, and everything else as it was. -/
  filled : s.Checked → ∀ {f : Folder} {w w'}, f.dir = s.path → f.Orderly w.disk →
    s.WritesFiles plan w w' →
      f.Filled s.fileName plan s.dataLines (partition s.filesCount s.workers s.seed) w.disk w'.disk

/-- **The shortcut for one worker is not to be seen.** -/
theorem shortcut_unseen {seed : UInt64} (hseed : s.seed = some seed) (hscheme : s.scheme = .count)
    (hplan : plan.hasTimestamp = false) : s.ShortcutUnseen plan where
  ends hshare w := writing_ends hshare w
  agree hshare _ _ _ _ _ _ hdisk halone hshared := by
    by_cases hne : s.filesCount = 0
    · exact agreeAt_of_no_files hseed hscheme hplan hdisk halone hshared hne
    · exact agreeAt_of_files hseed hscheme hplan hdisk halone hshared hshare hne
  filled hs _ _ _ hdir ho h := h.filled hscheme hs hdir ho

/-- Two throws of a die, in files of their own, for no worker at all. -/
def dieSettings : Settings where
  path := "/o"
  filesCount := 2
  fileName := "d"
  scheme := .count
  dataLines := 1
  workers := 0
  clearPath := false
  schema := "\x7b\"n\":\"int:rand(1,6)\"\x7d"
  seed := some 7

/-- Turns of one actor while the timer goes faster and faster. -/
def fastTurns : List Turn := (List.range 20).map fun k => { Turn.plain 0 with timer := k * k }

/-- The output of a throw, with what it took in all, to draw it and to write it. -/
def thrownIn (index : UInt64) (path : String) (total generation writing : Nat) : FileOutput where
  index := index
  path := path
  metrics := { rows := 1, bytes := 8, total := total, generation := generation, writing := writing }

/-- The first world on another day, something being printed already. -/
def laterWorld : World := { dieWorld [] with time := { seconds := 5, nanos := 0 }, printed := "x" }

/-- Two throws, alone while the timer stands, and shared out on another day while it goes. -/
theorem shortcut_unseen_die :
    dieSettings.seed = some 7 ∧ dieSettings.scheme = .count ∧ diePlan.hasTimestamp = false ∧
      dieSettings.ShortcutUnseen diePlan ∧
      ((Crew.lone (dieSettings.writeAlone diePlan) (dieWorld [])).run
          (List.replicate 21 (.plain 0))).2.world.disk =
        ((dieSettings.sharedCrew diePlan laterWorld).run fastTurns).2.world.disk := by
  have halone : (Crew.lone (dieSettings.writeAlone diePlan) (dieWorld [])).RunsTo
      (List.replicate 21 (.plain 0))
      [.ok [thrownIn 1 "/o/1_d.json" 0 0 0, thrownIn 2 "/o/2_d.json" 0 0 0]] :=
    ⟨by decide, by decide +kernel⟩
  have hshared : (dieSettings.sharedCrew diePlan laterWorld).RunsTo fastTurns
      [.ok [thrownIn 1 "/o/1_d.json" 81 5 9, thrownIn 2 "/o/2_d.json" 261 25 29]] :=
    ⟨by decide, by decide +kernel⟩
  have hunseen : dieSettings.ShortcutUnseen diePlan := shortcut_unseen rfl rfl rfl
  have hdisk : (dieWorld []).disk = laterWorld.disk := rfl
  exact ⟨rfl, rfl, rfl, hunseen, (hunseen.agree rfl hdisk halone hshared).1⟩

end Settings

end SampleData
