import SampleData.Proofs.ClearedDirectory
import SampleData.Proofs.Crews
import SampleData.Proofs.DrawnFiles
import SampleData.Proofs.MergedOutputs

/-!
# Runs that come to their end

A run that numbers its files and succeeds has cleared its directory, if it was to, and then each of
its workers has written the files of its numbers. It does not matter whether there was one worker,
several one after the other, or several that took turns: the names of different workers are apart,
so each of them finds under its own names what it wrote.

* `Settings.assignments`, `Settings.sharedCrew`: who writes which files.
* `Settings.Completes`, `Settings.completes_of_execute`: runs that come to their end.
* `Folder.Accepts`, `Folder.Filled`: a disk before, and one on which all assignments are delivered.
* `Folder.ReportedAll.flatten`: what the outputs of workers report together.
* `Settings.filled_of_inOrder`, `Settings.filled_of_crew`: files are written, and told of.
* `Settings.Completes.filled`: a run that succeeds.
-/

namespace SampleData

open Text JsonLines

namespace Settings

variable {s : Settings}

/-! ## Who writes which files -/

/-- All files of a run as one assignment. -/
def wholeAssignment (s : Settings) : Assignment :=
  { worker := 1, start := 1, count := s.filesCount, seed := s.seed }

/-- The assignments of a run: those of its workers, or one of all files. -/
def assignments (s : Settings) : List Assignment :=
  if worthSharing s.filesCount s.workers then partition s.filesCount s.workers s.seed
  else [s.wholeAssignment]

/-- A run that writes files has at least one. -/
theorem filesCount_pos (hfiles : s.isConsole = false) : 0 < s.filesCount.toNat := by
  refine Nat.pos_of_ne_zero fun h0 => ?_
  have hconsole : s.isConsole = true := decide_eq_true (UInt64.toNat_inj.mp h0)
  rw [hfiles] at hconsole
  cases hconsole

/-- All files follow each other from the first to the last. -/
theorem spans_whole (hfiles : s.isConsole = false) :
    Assignment.Spans 1 [s.wholeAssignment] (1 + s.filesCount.toNat) :=
  .cons rfl (filesCount_pos hfiles) (.nil _)

/-- So do the files of the assignments. -/
theorem spans_assignments (hfiles : s.isConsole = false) :
    Assignment.Spans 1 s.assignments (1 + s.filesCount.toNat) := by
  unfold assignments
  split
  · exact partition_spans s.filesCount s.workers s.seed
  · exact spans_whole hfiles

/-- Their numbers are among those of all files. -/
theorem whole_has (hfiles : s.isConsole = false) {a : Assignment} (ha : a ∈ s.assignments) {i : Nat}
    (hi : a.Has i) : s.wholeAssignment.Has i := by
  obtain ⟨hlow, hhigh⟩ := (spans_assignments hfiles).bounds.2 a ha
  exact ⟨hlow.trans hi.1, hi.2.trans_le hhigh⟩

/-- The assignments of a run with a seed have seeds. -/
theorem seed_of_mem_assignments (hseed : s.seed.isSome) {a : Assignment} (ha : a ∈ s.assignments) :
    a.seed.isSome := by
  unfold assignments at ha
  split at ha
  · rw [seed_of_mem_assignmentsFrom ha, Option.isSome_map]
    exact hseed
  · obtain rfl := List.mem_singleton.mp ha
    exact hseed

/-- The workers of a run among whom its files are shared out, be that worth while or not. -/
def sharedCrew (s : Settings) (plan : Plan) (w : World) :
    Crew (Except PopulateError (List FileOutput)) :=
  workerCrew plan s.path s.naming s.dataLines (partition s.filesCount s.workers s.seed) w

/-- What the results of these workers come to. -/
def mergedOutputs (s : Settings) (results : List (Except PopulateError (List FileOutput))) :
    Except WorkerError (List FileOutput) :=
  mergeResults (numberResults (partition s.filesCount s.workers s.seed) results)

/-! ## Runs that come to their end -/

/-- A run that comes to its end in a world, with the plan that it made of its schema: what happened,
and the world after it. It goes alone, with one worker after the other if there are several; or the
workers take turns once all is prepared, and none of them fails. -/
inductive Completes (s : Settings) (w : World) (plan : Plan) : List Event → World → Prop
  | alone {ts ts' : List Turn} {es es' : List Event} {w₁ w' : World} {summary : Summary}
      (hprepared : (Crew.lone s.prepare w).run ts = (es, Crew.lone (.done (.ok plan)) w₁))
      (hwritten : (Crew.lone (s.write (.ok plan)) w₁).run ts' =
        (es', Crew.lone (.done (.ok summary)) w')) : s.Completes w plan (es ++ es') w'
  | shared {ts ts' : List Turn} {es es' : List Event} {w₁ w' : World}
      {actions : List (Action (Except PopulateError (List FileOutput)))}
      {results : List (Except PopulateError (List FileOutput))} {outputs : List FileOutput}
      (hprepared : (Crew.lone s.prepare w).run ts = (es, Crew.lone (.done (.ok plan)) w₁))
      (hshare : worthSharing s.filesCount s.workers = true)
      (hwritten : (workerCrew plan s.path s.naming s.dataLines
        (partition s.filesCount s.workers s.seed) w₁).run ts' = (es', ⟨actions, w'⟩))
      (hdone : Crew.IsDone ⟨actions, w'⟩ results)
      (hmerged : mergeResults (numberResults (partition s.filesCount s.workers s.seed) results) =
        .ok outputs) : s.Completes w plan (es ++ es') w'

/-- A run that succeeds by itself has prepared itself, and then written. -/
theorem stages_of_execute (hfiles : s.isConsole = false) {w w' : World} {ts : List Turn}
    {es : List Event} {summary : Summary}
    (h : (Crew.lone s.execute w).run ts = (es, Crew.lone (.done (.ok summary)) w')) :
    ∃ plan w₁ ts₁ ts₂ es₁ es₂, es = es₁ ++ es₂ ∧
      (Crew.lone s.prepare w).run ts₁ = (es₁, Crew.lone (.done (.ok plan)) w₁) ∧
        (Crew.lone (s.write (.ok plan)) w₁).run ts₂ =
          (es₂, Crew.lone (.done (.ok summary)) w') := by
  rw [execute_eq hfiles] at h
  obtain ⟨prepared, w₁, ts₁, ts₂, es₁, es₂, rfl, hprepared, hwritten⟩ := Crew.lone_run_bind h
  cases prepared with
  | error e => cases (Crew.eq_of_lone_run_done hwritten).1
  | ok plan => exact ⟨plan, w₁, ts₁, ts₂, es₁, es₂, rfl, hprepared, hwritten⟩

/-- **A run that succeeds by itself** comes to its end. -/
theorem completes_of_execute (hfiles : s.isConsole = false) {w w' : World} {ts : List Turn}
    {es : List Event} {summary : Summary}
    (h : (Crew.lone s.execute w).run ts = (es, Crew.lone (.done (.ok summary)) w')) :
    ∃ plan, s.Completes w plan es w' := by
  obtain ⟨plan, w₁, ts₁, ts₂, es₁, es₂, rfl, hprepared, hwritten⟩ := stages_of_execute hfiles h
  exact ⟨plan, .alone hprepared hwritten⟩

end Settings

/-! ## Directories of many workers -/

/-- The names of the files of the assignment at a position. -/
def ownAt (base : String) (as : List Assignment) (k : Nat) (name : String) : Prop :=
  ∃ a, as[k]? = some a ∧ ∃ i, a.Has i ∧ name = numberedName base i

namespace Folder

variable {f : Folder} {base : String} {as : List Assignment} {d₀ d : Disk} {plan : Plan}
  {lines : UInt64}

/-- Files can be written in a directory under the names of the first numbers: it is there, and
nothing but files and directories stands under them. -/
structure Accepts (f : Folder) (base : String) (count : Nat) (d : Disk) : Prop where
  found : d.find f.dir = .ok (f.home, .directory)
  plain : ∀ i, 1 ≤ i → i ≤ count → ∀ n, d.node? (f.place (numberedName base i)) = some n → n.IsPlain

/-- They can in a directory in order. -/
theorem Orderly.accepts (ho : f.Orderly d) (base : String) (count : Nat) :
    f.Accepts base count d where
  found := ho.found
  plain i _ _ _ hn := ho.plain (extension?_numberedName base i) hn

/-- Assignments of these numbers that follow each other can be carried out there. -/
theorem Accepts.hosts {count : Nat} (h : f.Accepts base count d) (hbase : '/' ∉ base.toList)
    (hspans : Assignment.Spans 1 as (1 + count)) :
    f.Hosts (fun k => anyText (ownAt base as k)) d where
  found := h.found
  named := by
    rintro k name whole ⟨a, -, j, -, rfl⟩
    exact isName_numberedName hbase j
  plain := by
    rintro k name whole ⟨a, hk, j, hj, rfl⟩ n hn
    obtain ⟨hlow, hhigh⟩ := hspans.bounds.2 a (List.mem_of_getElem? hk)
    exact h.plain j (hlow.trans hj.1) (Nat.lt_one_add_iff.mp (hj.2.trans_le hhigh)) n hn
  apart := by
    rintro k k' name whole whole' ⟨a, hk, j, hj, rfl⟩ ⟨a', hk', j', hj', hname⟩
    obtain rfl := numberedName_injective base hname
    exact hspans.position_eq hk hk' hj hj'

/-- A file of a number stands in the directory, under a name that could be opened before. -/
structure HoldsFile (f : Folder) (base : String) (d₀ d : Disk) (i : Nat) (t : String) : Prop where
  node : d.node? (f.place (numberedName base i)) = some (.file t)
  opens : d₀.Opens f.dir (numberedName base i) f.home

/-- A disk on which all assignments are delivered and everything else is as it was. -/
structure Filled (f : Folder) (base : String) (plan : Plan) (lines : UInt64) (as : List Assignment)
    (d₀ d : Disk) : Prop where
  current : d.current = d₀.current
  delivered : ∀ a ∈ as, a.Delivered plan lines (f.HoldsFile base d₀ d)
  others : ∀ place, (∀ a ∈ as, ∀ i, a.Has i → place ≠ f.place (numberedName base i)) →
    d.node? place = d₀.node? place

/-- What a worker holds under its own numbers stands on the disk. -/
theorem Covers.holdsFile {s : Nat → Progress}
    (hc : f.Covers (fun k => anyText (ownAt base as k)) d₀ d s) {k : Nat} {a : Assignment}
    (hk : as[k]? = some a) {i : Nat} {t : String} (hi : a.Has i) (ht : (s k).Holds base i t) :
    f.HoldsFile base d₀ d i t := by
  have hown : anyText (ownAt base as k) (numberedName base i) t := ⟨a, hk, i, hi, rfl⟩
  obtain ⟨hnode, hopens⟩ := hc.opened hown ht
  exact ⟨hnode, hopens⟩

/-- What workers hold at last stands on the disk: if for each assignment there is a worker that has
its names and has delivered it, and the workers have no other names, all are delivered. -/
theorem Covers.filled {bs : List Assignment} {s : Nat → Progress}
    (hc : f.Covers (fun k => anyText (ownAt base bs k)) d₀ d s)
    (hdelivered : ∀ a ∈ as, ∃ k b, bs[k]? = some b ∧ (∀ i, a.Has i → b.Has i) ∧
      a.Delivered plan lines ((s k).Holds base))
    (hnumbers : ∀ b ∈ bs, ∀ i, b.Has i → ∃ a ∈ as, a.Has i) :
    f.Filled base plan lines as d₀ d where
  current := hc.current
  delivered := by
    intro a ha
    obtain ⟨k, b, hk, hhas, hdelivered⟩ := hdelivered a ha
    exact hdelivered.mono fun i t hi ht => hc.holdsFile hk (hhas i hi) ht
  others := by
    intro place hplace
    apply hc.untouched
    rintro k name whole ⟨b, hk, i, hi, rfl⟩ heq
    obtain ⟨a, ha, hi⟩ := hnumbers b (List.mem_of_getElem? hk) i hi
    exact absurd heq (hplace a ha i hi)

end Folder

/-! ## Outputs -/

namespace Folder.ReportedAll

variable {f : Folder} {base : String} {lines : UInt64} {holds : Nat → String → Prop}
  {a : Assignment} {as : List Assignment} {outputs : List (List FileOutput)}

/-- What the outputs of assignments report that follow each other, they report together. -/
theorem flatten (hspans : Assignment.Spans a.start.toNat as (a.start.toNat + a.count.toNat))
    (h : List.Forall₂ (f.ReportedAll base lines holds) as outputs) :
    f.ReportedAll base lines holds a outputs.flatten := by
  have hnumbers := hspans.numbers_eq
  rw [Nat.add_sub_cancel_left, List.flatMap_def] at hnumbers
  unfold ReportedAll
  rw [← hnumbers]
  exact List.rel_flatten (List.forall₂_map_left_iff.mpr h)

/-- Outputs have the labels of the numbers that they report. -/
theorem labels {os : List FileOutput} (h : f.ReportedAll base lines holds a os) :
    os.map FileOutput.label =
      (List.range' a.start.toNat a.count.toNat).map (f.label base) := by
  have hlabels : List.Forall₂ Eq (os.map FileOutput.label)
      ((List.range' a.start.toNat a.count.toNat).map (f.label base)) := by
    rw [List.forall₂_map_left_iff, List.forall₂_map_right_iff]
    refine h.flip.imp ?_
    rintro o i ⟨rs, -, -, hreports⟩
    exact hreports.label
  rwa [List.forall₂_eq_eq_eq] at hlabels

/-- So they stay in the order that they are in. -/
theorem sorted (hspans : Assignment.Spans a.start.toNat as (a.start.toNat + a.count.toNat))
    (hroom : a.start.toNat + a.count.toNat ≤ 2 ^ 64)
    (h : List.Forall₂ (f.ReportedAll base lines holds) as outputs) :
    f.ReportedAll base lines holds a (sortOutputs outputs.flatten) := by
  have hall := flatten hspans h
  rwa [sortOutputs_of_label hall.labels hroom]

end Folder.ReportedAll

/-! ## Writing -/

section writing

variable {f : Folder} {s : Settings} {w w' : World} {plan : Plan}

/-- To write all files alone is to write the assignment of all files, from the source of the run. -/
theorem Settings.writeAlone_eq (s : Settings) (plan : Plan) :
    s.writeAlone plan = Action.info "Creating files (single worker mode)..." >>= fun _ =>
      s.source >>= fun source =>
        s.wholeAssignment.write plan s.path s.naming s.dataLines source >>= fun x =>
          pure (x.mapError .files) := by
  unfold writeAlone Assignment.write
  simp only [bind_assoc, pure_bind]
  refine bind_congr fun _ => bind_congr fun source => bind_congr fun written => ?_
  obtain ⟨outcome, p⟩ := written
  cases outcome <;> rfl

/-- To tell something changes nothing that is held. -/
theorem Folder.rules_log {planned : String → String → Prop} {p : Progress} :
    ∀ r, (∃ e, r = .log e) →
      (f.rules planned).Allowed p r ∧ ∀ a p', (f.rules planned).Answers p r a p' → p' = p := by
  rintro _ ⟨e, rfl⟩
  exact ⟨trivial, fun _ _ h => h⟩

namespace Settings

/-- Names of the whole assignment are names. -/
theorem isName_of_whole (hs : s.Checked) {name : String}
    (h : ownAt s.fileName [s.wholeAssignment] 0 name) : Path.IsName name := by
  obtain ⟨a, -, i, -, rfl⟩ := h
  exact isName_numberedName hs.base_slash i

/-- Workers one after the other deliver their shares if they succeed, and their outputs report all
files. -/
theorem runWorkers_merged (hs : s.Checked) (hscheme : s.scheme = .count) (hdir : f.dir = s.path)
    (hne : f.dir ≠ "") (hown : ∀ a ∈ partition s.filesCount s.workers s.seed, ∀ i, a.Has i →
      ownAt s.fileName [s.wholeAssignment] 0 (numberedName s.fileName i)) (p : Progress) :
    (f.rules (anyText (ownAt s.fileName [s.wholeAssignment] 0))).logic.Sure
      (runWorkers plan s.path s.naming s.dataLines (partition s.filesCount s.workers s.seed))
      (fun results p' => ∀ outputs, mergeResults results = .ok outputs →
        (∀ a ∈ partition s.filesCount s.workers s.seed,
          a.Delivered plan s.dataLines (p'.Holds s.fileName)) ∧
        f.ReportedAll s.fileName s.dataLines (p'.Holds s.fileName) s.wholeAssignment outputs)
      p := by
  have hnaming : s.naming = ⟨s.fileName, .count⟩ := by rw [naming, hscheme]
  have hroom : 1 + s.filesCount.toNat ≤ 2 ^ 64 := Nat.one_add_le_iff.mpr s.filesCount.toNat_lt
  have hspans := partition_spans s.filesCount s.workers s.seed
  have hworkers := runWorkers_delivered (f := f) s.dataLines plan hne
    (fun _ => isName_of_whole hs) hspans hroom hown p
  rw [hdir, ← hnaming] at hworkers
  refine (Rules.logic _).sure_mono (fun results p' hdelivered all hmerged => ?_) hworkers
  obtain ⟨outputs, hsnd, rfl⟩ := exists_of_mergeResults hmerged
  obtain ⟨hdelivered, hreported, -⟩ := hdelivered outputs hsnd
  exact ⟨hdelivered, .sorted hspans hroom hreported⟩

/-- The one worker delivers the whole assignment if it succeeds, and its outputs report all
files. -/
theorem writeAlone_delivered (hs : s.Checked) (hscheme : s.scheme = .count) (hdir : f.dir = s.path)
    (hne : f.dir ≠ "") (hown : ∀ i, s.wholeAssignment.Has i →
      ownAt s.fileName [s.wholeAssignment] 0 (numberedName s.fileName i)) (p : Progress) :
    (f.rules (anyText (ownAt s.fileName [s.wholeAssignment] 0))).logic.Sure (s.writeAlone plan)
      (fun x p' => ∀ outputs, x = .ok outputs →
        s.wholeAssignment.Delivered plan s.dataLines (p'.Holds s.fileName) ∧
          f.ReportedAll s.fileName s.dataLines (p'.Holds s.fileName) s.wholeAssignment outputs)
      p := by
  let L := (f.rules (anyText (ownAt s.fileName [s.wholeAssignment] 0))).logic
  have hnaming : s.naming = ⟨s.fileName, .count⟩ := by rw [naming, hscheme]
  have hroom : 1 + s.filesCount.toNat ≤ 2 ^ 64 := Nat.one_add_le_iff.mpr s.filesCount.toNat_lt
  rw [s.writeAlone_eq]
  refine (Action.log_asks (fun e => ⟨e, rfl⟩) _ _).sure_then Folder.rules_log fun _ => ?_
  refine L.sure_then (s.source_sure f.rules_sources p) fun source p₁ hp₁ => ?_
  obtain ⟨hseed, rfl⟩ := hp₁
  have hwritten := s.wholeAssignment.write_delivered (f := f) s.dataLines plan hne
    (fun _ => isName_of_whole hs) hroom hown hseed p₁
  rw [hdir, ← hnaming] at hwritten
  refine L.sure_then hwritten fun x p' hdelivered => L.sure_pure ?_
  cases x with
  | error e => exact nofun
  | ok outputs =>
      rintro _ ⟨⟩
      obtain ⟨hdelivered, hreported, -⟩ := hdelivered outputs rfl
      exact ⟨hdelivered, hreported⟩

/-- Workers one after the other, or the one worker, deliver all assignments if they succeed, and
their outputs report all files. -/
theorem writeInOrder_delivered (hs : s.Checked) (hfiles : s.isConsole = false)
    (hscheme : s.scheme = .count) (hdir : f.dir = s.path) (p : Progress) :
    (f.rules (anyText (ownAt s.fileName [s.wholeAssignment] 0))).logic.Sure (s.writeInOrder plan)
      (fun x p' => ∀ outputs, x = .ok outputs →
        (∀ a ∈ s.assignments, a.Delivered plan s.dataLines (p'.Holds s.fileName)) ∧
          f.ReportedAll s.fileName s.dataLines (p'.Holds s.fileName) s.wholeAssignment outputs)
      p := by
  let L := (f.rules (anyText (ownAt s.fileName [s.wholeAssignment] 0))).logic
  have hne : f.dir ≠ "" := hdir ▸ hs.path_ne hfiles
  have hown : ∀ a ∈ s.assignments, ∀ i, a.Has i →
      ownAt s.fileName [s.wholeAssignment] 0 (numberedName s.fileName i) := fun a ha i hi =>
    ⟨_, rfl, i, whole_has hfiles ha hi, rfl⟩
  unfold assignments at hown ⊢
  unfold writeInOrder
  split
  · next hshare =>
    rw [if_pos hshare] at hown
    refine L.sure_then (runWorkers_merged hs hscheme hdir hne hown p) fun results p' hmerged => ?_
    cases hall : mergeResults results with
    | error e => exact L.sure_pure nofun
    | ok all =>
        refine (Action.log_asks (fun e => ⟨e, rfl⟩) _ _).sure_then Folder.rules_log fun _ => ?_
        refine L.sure_pure ?_
        rintro _ ⟨⟩
        exact hmerged all hall
  · next hshare =>
    rw [if_neg hshare] at hown
    refine L.sure_mono (fun x p' hx outputs hok => ?_)
      (writeAlone_delivered hs hscheme hdir hne (List.forall_mem_singleton.mp hown) p)
    obtain ⟨hdelivered, hreported⟩ := hx outputs hok
    exact ⟨List.forall_mem_singleton.mpr hdelivered, hreported⟩

/-- What is written by itself was written in order before it is told of. -/
theorem inOrder_of_write {ts : List Turn} {es : List Event} {summary : Summary}
    (h : (Crew.lone (s.write (.ok plan)) w).run ts = (es, Crew.lone (.done (.ok summary)) w')) :
    ∃ outputs ts₁ es₁ w₁,
      (Crew.lone (s.writeInOrder plan) w).run ts₁ = (es₁, Crew.lone (.done (.ok outputs)) w₁) ∧
        summary = .ofOutputs outputs ∧ w'.disk = w₁.disk := by
  obtain ⟨x, w₁, ts₁, ts₂, es₁, es₂, -, hwritten, htold⟩ := Crew.lone_run_bind h
  cases x with
  | error e => cases (Crew.eq_of_lone_run_done htold).1
  | ok outputs =>
      obtain ⟨_, w₂, ts₃, ts₄, es₃, es₄, -, htelling, hend⟩ := Crew.lone_run_bind htold
      have hleft := disk_of_leaves
        (tell_asks (fun _ => trivial) ((Summary.ofOutputs outputs).description s)) (w := w₁) ts₃
      rw [htelling] at hleft
      obtain ⟨hsummary, rfl⟩ := Crew.eq_of_lone_run_done hend
      exact ⟨outputs, ts₁, es₁, w₁, hwritten, (Except.ok.inj hsummary).symm, hleft⟩

/-- The outputs of a run report all its files, which stand on a disk that was another one before. -/
def Told (s : Settings) (f : Folder) (d₀ d : Disk) (outputs : List FileOutput) : Prop :=
  f.ReportedAll s.fileName s.dataLines (f.HoldsFile s.fileName d₀ d) s.wholeAssignment outputs

/-- What is written in order. -/
theorem filled_of_inOrder (hs : s.Checked) (hfiles : s.isConsole = false)
    (hscheme : s.scheme = .count) (hdir : f.dir = s.path)
    (hf : f.Accepts s.fileName s.filesCount.toNat w.disk) {ts : List Turn} {es : List Event}
    {outputs : List FileOutput}
    (h : (Crew.lone (s.writeInOrder plan) w).run ts = (es, Crew.lone (.done (.ok outputs)) w')) :
    f.Filled s.fileName plan s.dataLines s.assignments w.disk w'.disk ∧
      s.Told f w.disk w'.disk outputs := by
  have hfollows : f.Follows (fun k => anyText (ownAt s.fileName [s.wholeAssignment] k)) w.disk
      (fun _ x p => ∀ outputs, x = .ok outputs →
        (∀ a ∈ s.assignments, a.Delivered plan s.dataLines (p.Holds s.fileName)) ∧
          f.ReportedAll s.fileName s.dataLines (p.Holds s.fileName) s.wholeAssignment outputs)
      (Crew.lone (s.writeInOrder plan) w) fun _ => .fresh := by
    refine ⟨Folder.covers_fresh, fun {k y} hy => ?_⟩
    have hk : k = 0 := Nat.lt_one_iff.mp (List.getElem?_eq_some_iff.mp hy).1
    obtain rfl := Crew.eq_of_lone hy
    subst hk
    exact writeInOrder_delivered hs hfiles hscheme hdir .fresh
  have hhosts := hf.hosts hs.base_slash (spans_whole hfiles)
  have hdone : ((Crew.lone (s.writeInOrder plan) w).run ts).2.IsDone [.ok outputs] := by
    rw [h]
    rfl
  obtain ⟨p, hcovers, -, hresults⟩ := Folder.results_of_run hhosts hfollows hdone
  rw [h] at hcovers
  obtain ⟨hdelivered, hreported⟩ := hresults 0 _ rfl outputs rfl
  refine ⟨hcovers.filled (fun a ha => ⟨0, _, rfl, fun i => whole_has hfiles ha, hdelivered a ha⟩)
    fun b hb i hi => ?_, hreported.mono fun i t hi => hcovers.holdsFile rfl hi⟩
  obtain rfl := List.mem_singleton.mp hb
  exact (spans_assignments hfiles).exists_of_mem hi.1 hi.2

/-- What is written by itself. -/
theorem filled_of_write (hs : s.Checked) (hfiles : s.isConsole = false)
    (hscheme : s.scheme = .count) (hdir : f.dir = s.path) (ho : f.Orderly w.disk) {ts : List Turn}
    {es : List Event} {summary : Summary}
    (h : (Crew.lone (s.write (.ok plan)) w).run ts = (es, Crew.lone (.done (.ok summary)) w')) :
    f.Filled s.fileName plan s.dataLines s.assignments w.disk w'.disk := by
  obtain ⟨outputs, ts₁, es₁, w₁, hwritten, -, hdisk⟩ := inOrder_of_write h
  rw [hdisk]
  exact (filled_of_inOrder hs hfiles hscheme hdir (ho.accepts _ _) hwritten).1

/-- Where the results of workers come to outputs together, each worker has come to its own. -/
theorem outputs_of_crew {dir : String} {naming : Naming} {lines : UInt64} {as : List Assignment}
    {ts : List Turn} {es : List Event}
    {actions : List (Action (Except PopulateError (List FileOutput)))}
    {results : List (Except PopulateError (List FileOutput))} {all : List FileOutput}
    (h : (workerCrew plan dir naming lines as w).run ts = (es, ⟨actions, w'⟩))
    (hdone : Crew.IsDone ⟨actions, w'⟩ results)
    (hmerged : mergeResults (numberResults as results) = .ok all) :
    ∃ outputs : List (List FileOutput), results = outputs.map .ok ∧ outputs.length = as.length ∧
      sortOutputs outputs.flatten = all := by
  have hlen := Crew.length_run (workerCrew plan dir naming lines as w) ts
  rw [h, hdone.actions_eq, List.length_map, workerCrew, List.length_map] at hlen
  obtain ⟨outputs, hsnd, hall⟩ := exists_of_mergeResults hmerged
  rw [numberResults, List.map_snd_zip (by rw [List.length_map, hlen])] at hsnd
  rw [hsnd, List.length_map] at hlen
  exact ⟨outputs, hsnd, hlen, hall⟩

/-- Workers that take turns write under names of their own: each of them delivers its assignment and
reports it, whatever is answered. -/
theorem follows_crew (hs : s.Checked) (hscheme : s.scheme = .count) (hdir : f.dir = s.path)
    (hne : f.dir ≠ "") {as : List Assignment}
    (hspans : Assignment.Spans 1 as (1 + s.filesCount.toNat)) :
    f.Follows (fun k => anyText (ownAt s.fileName as k)) w.disk
      (fun k x p => ∀ a, as[k]? = some a → ∀ outputs, x = .ok outputs →
        a.Delivered plan s.dataLines (p.Holds s.fileName) ∧
          f.ReportedAll s.fileName s.dataLines (p.Holds s.fileName) a outputs)
      (workerCrew plan s.path s.naming s.dataLines as w) fun _ => .fresh := by
  have hroom : 1 + s.filesCount.toNat ≤ 2 ^ 64 := Nat.one_add_le_iff.mpr s.filesCount.toNat_lt
  refine ⟨Folder.covers_fresh, fun {k y} hy => ?_⟩
  rw [workerCrew, List.getElem?_map, Option.map_eq_some_iff] at hy
  obtain ⟨a, hk, rfl⟩ := hy
  have hbound := (hspans.bounds.2 a (List.mem_of_getElem? hk)).2
  have hnamed : ∀ name, ownAt s.fileName as k name → Path.IsName name := by
    rintro name ⟨a, -, i, -, rfl⟩
    exact isName_numberedName hs.base_slash i
  have hdelivers := runWorker_delivered (f := f) s.dataLines plan hne hnamed (a := a)
    (hbound.trans hroom) (fun i hi => ⟨a, hk, i, hi, rfl⟩) .fresh
  rw [hdir, show (⟨s.fileName, .count⟩ : Naming) = s.naming by rw [naming, hscheme]] at hdelivers
  refine (Rules.logic _).sure_mono (fun x p hx b hb outputs hok => ?_) hdelivers
  obtain rfl := Option.some.inj (hk.symm.trans hb)
  obtain ⟨hdelivered, hreported, -⟩ := hx outputs hok
  exact ⟨hdelivered, hreported⟩

/-- What is written by workers that take turns. -/
theorem filled_of_crew (hs : s.Checked) (hscheme : s.scheme = .count)
    (hdir : f.dir = s.path) (hf : f.Accepts s.fileName s.filesCount.toNat w.disk)
    {as : List Assignment} (hspans : Assignment.Spans 1 as (1 + s.filesCount.toNat))
    {ts : List Turn} {es : List Event}
    {actions : List (Action (Except PopulateError (List FileOutput)))}
    {results : List (Except PopulateError (List FileOutput))} {all : List FileOutput}
    (h : (workerCrew plan s.path s.naming s.dataLines as w).run ts = (es, ⟨actions, w'⟩))
    (hdone : Crew.IsDone ⟨actions, w'⟩ results)
    (hmerged : mergeResults (numberResults as results) = .ok all) :
    f.Filled s.fileName plan s.dataLines as w.disk w'.disk ∧ s.Told f w.disk w'.disk all := by
  have hroom : 1 + s.filesCount.toNat ≤ 2 ^ 64 := Nat.one_add_le_iff.mpr s.filesCount.toNat_lt
  obtain ⟨outputs, rfl, hlen, rfl⟩ := outputs_of_crew h hdone hmerged
  have hends : ((workerCrew plan s.path s.naming s.dataLines as w).run ts).2.IsDone
      (outputs.map .ok) := by
    rw [h]
    exact hdone
  obtain ⟨p, hcovers, -, hresults⟩ :=
    Folder.results_of_run (hf.hosts hs.base_slash hspans)
      (follows_crew hs hscheme hdir (Disk.leads_of_find hf.found).1 hspans) hends
  rw [h] at hcovers
  have hworker : ∀ (k : Nat) a os, as[k]? = some a → outputs[k]? = some os →
      a.Delivered plan s.dataLines ((p k).Holds s.fileName) ∧
        f.ReportedAll s.fileName s.dataLines ((p k).Holds s.fileName) a os := by
    intro k a os hk hos
    refine hresults k (.ok os) ?_ a hk os rfl
    rw [List.getElem?_map, hos]
    rfl
  constructor
  · refine hcovers.filled (fun a ha => ?_) fun a ha i hi => ⟨a, ha, hi⟩
    obtain ⟨k, hk⟩ := List.getElem?_of_mem ha
    have hlt : k < outputs.length := hlen ▸ (List.getElem?_eq_some_iff.mp hk).1
    exact ⟨k, a, hk, fun i hi => hi, (hworker k a _ hk (List.getElem?_eq_getElem hlt)).1⟩
  · refine .sorted (a := s.wholeAssignment) hspans hroom ?_
    refine List.forall₂_of_length_eq_of_get hlen.symm fun k hk hk' => ?_
    exact (hworker k _ _ (List.getElem?_eq_getElem hk) (List.getElem?_eq_getElem hk')).2.mono
      fun i t hi => hcovers.holdsFile (List.getElem?_eq_getElem hk) hi

end Settings

/-- **A run that comes to its end** with its directory cleared, nothing needed for that being
refused: all assignments are delivered, on what is left without output files. -/
theorem Settings.Completes.filled (hs : s.Checked) (hfiles : s.isConsole = false)
    (hscheme : s.scheme = .count) (hclears : s.clearPath = true) (hdir : f.dir = s.path)
    (ho : f.Orderly w.disk) {es : List Event} (h : s.Completes w plan es w')
    (hneeded : ∀ e ∈ es, e.refused = true → ¬ f.Needs w.disk e.request) :
    ∃ d removed, f.Cleared w.disk d removed ∧
      f.Filled s.fileName plan s.dataLines s.assignments d w'.disk := by
  have hprepare := Folder.prepare_sure hdir hclears ho
  cases h with
  | @alone ts ts' es es' w₁ _ summary hprepared hwritten =>
      obtain ⟨removed, hcleared⟩ := ho.run hprepare hprepared
        (fun e he => hneeded e (List.mem_append_left _ he)) rfl
      exact ⟨w₁.disk, removed, hcleared, filled_of_write hs hfiles hscheme hdir
        (hcleared.swept.orderly ho) hwritten⟩
  | @shared ts ts' es es' w₁ _ actions results outputs hprepared hshare hwritten hdone hmerged =>
      obtain ⟨removed, hcleared⟩ := ho.run hprepare hprepared
        (fun e he => hneeded e (List.mem_append_left _ he)) rfl
      have hfilled := (filled_of_crew hs hscheme hdir
        ((hcleared.swept.orderly ho).accepts _ _) (partition_spans _ _ _) hwritten hdone hmerged).1
      refine ⟨w₁.disk, removed, hcleared, ?_⟩
      rw [assignments, if_pos hshare]
      exact hfilled

end writing

end SampleData
