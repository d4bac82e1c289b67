import SampleData.Proofs.LineDecoding
import SampleData.Proofs.MissingDirectory
import SampleData.Proofs.Regeneration

/-!
# Accounts of runs

A run tells of each file how many records and how many bytes it has, and what that comes to in all.
The records are counted while they are drawn, the bytes are asked for when a file is closed, and
both are added up over workers that may have taken turns. At the end the numbers are right: each
file stands on the disk with as many lines and bytes as were told, since a record has one line feed
and no file is written by two workers.

Nothing but files and directories may stand under the names of a run when its writing begins. A link
from one of them to another is written through, so that what was told of the first file is told of a
text that the second has replaced.

* `Metrics.toNat_sum`, `Metrics.sum_perm`: sums of metrics, in any order.
* `Settings.ComesTo`: runs that come to outputs.
* `Settings.ComesTo.exists_home`: they have a directory.
* `Settings.Accounts`: what is told is what stands on the disk.
* `Settings.accountable_of_validate`: all runs of checked settings.
* `Settings.not_accounts_link`: why links are excluded.
-/

namespace SampleData

open Text JsonLines

/-! ## Sums of metrics -/

namespace Metrics

section counters

variable (get : Metrics → UInt64) (hadd : ∀ a b, get (a.add b) = get a + get b)
  {ms : List Metrics} {ns : List Nat}

include hadd

/-- What a counter adds up number by number comes to the sum of the numbers. -/
theorem foldl_add (h : List.Forall₂ (fun m n => get m = UInt64.ofNat n) ms ns) (m : Metrics) :
    get (ms.foldl add m) = get m + UInt64.ofNat ns.sum := by
  induction h generalizing m with
  | nil => exact (UInt64.add_zero _).symm
  | @cons m' n ms ns hm _ ih =>
      rw [List.foldl_cons, ih, hadd, hm, List.sum_cons, UInt64.ofNat_add, UInt64.add_assoc]

/-- **A counter of metrics together** is the sum of the numbers, if that is a word. -/
theorem toNat_sum (hzero : get zero = 0)
    (h : List.Forall₂ (fun m n => get m = UInt64.ofNat n) ms ns) (hlt : ns.sum < 2 ^ 64) :
    (get (sum ms)).toNat = ns.sum := by
  rw [sum, foldl_add get hadd h, hzero, UInt64.zero_add, UInt64.toNat_ofNat_of_lt' hlt]

end counters

/-- **Metrics together do not depend on the order** in which they are added up. -/
theorem sum_perm {ms ms' : List Metrics} (h : ms.Perm ms') : sum ms = sum ms' := by
  have : RightCommutative add := ⟨fun a b c => by rw [add_assoc, add_comm b c, ← add_assoc]⟩
  exact h.foldl_eq zero

end Metrics

namespace Settings

variable {s : Settings} {f : Folder} {plan : Plan} {w w₁ w' : World} {outputs : List FileOutput}

/-! ## Runs that come to outputs -/

/-- A run that succeeds, with the world in which its writing begins, the outputs that it comes to
and the world after them. It writes by itself, with one worker after the other if there are several;
or the workers take turns, and none of them fails. -/
inductive ComesTo (s : Settings) (w : World) : World → List FileOutput → World → Prop
  | inOrder {ts ts' : List Turn} {es es' : List Event} {plan : Plan} {w₁ w' : World}
      {outputs : List FileOutput}
      (hprepared : (Crew.lone s.prepare w).run ts = (es, Crew.lone (.done (.ok plan)) w₁))
      (hwritten : (Crew.lone (s.writeInOrder plan) w₁).run ts' =
        (es', Crew.lone (.done (.ok outputs)) w')) : s.ComesTo w w₁ outputs w'
  | inTurns {ts ts' : List Turn} {es : List Event} {plan : Plan} {w₁ : World}
      {results : List (Except PopulateError (List FileOutput))} {outputs : List FileOutput}
      (hprepared : (Crew.lone s.prepare w).run ts = (es, Crew.lone (.done (.ok plan)) w₁))
      (hshare : worthSharing s.filesCount s.workers = true)
      (hdone : ((s.sharedCrew plan w₁).run ts').2.IsDone results)
      (hmerged : s.mergedOutputs results = .ok outputs) :
      s.ComesTo w w₁ outputs ((s.sharedCrew plan w₁).run ts').2.world

/-- Workers that take turns come to their outputs when all of them are done. -/
theorem ComesTo.of_isDone {prepared : List Event × Crew (Except RunError Plan)}
    {written : List Event × Crew (Except PopulateError (List FileOutput))}
    {results : List (Except PopulateError (List FileOutput))} {ts ts' : List Turn}
    (hprepared : (Crew.lone s.prepare w).run ts = prepared) (hplan : prepared.2.IsDone [.ok plan])
    (hshare : worthSharing s.filesCount s.workers = true)
    (hwritten : (s.sharedCrew plan prepared.2.world).run ts' = written)
    (hdone : written.2.IsDone results) (hmerged : s.mergedOutputs results = .ok outputs) :
    s.ComesTo w prepared.2.world outputs written.2.world := by
  subst hprepared hwritten
  exact .inTurns (Crew.run_eq_of_isDone hplan) hshare hdone hmerged

/-- **A run that succeeds by itself** comes to outputs, and sums them up. -/
theorem comesTo_of_execute (hfiles : s.isConsole = false) {ts : List Turn} {es : List Event}
    {summary : Summary}
    (h : (Crew.lone s.execute w).run ts = (es, Crew.lone (.done (.ok summary)) w')) :
    ∃ w₁ outputs w₂, s.ComesTo w w₁ outputs w₂ ∧ summary = .ofOutputs outputs ∧
      w'.disk = w₂.disk := by
  obtain ⟨plan, w₁, ts₁, ts₂, es₁, es₂, -, hprepared, hwritten⟩ := stages_of_execute hfiles h
  obtain ⟨outputs, ts₃, es₃, w₂, hinOrder, hsummary, hdisk⟩ := inOrder_of_write hwritten
  exact ⟨w₁, outputs, w₂, .inOrder hprepared hinOrder, hsummary, hdisk⟩

/-! ## The directory -/

/-- There is a worker with files. -/
theorem exists_count_pos (hfiles : s.isConsole = false) :
    ∃ a ∈ partition s.filesCount s.workers s.seed, 0 < a.count.toNat := by
  obtain ⟨a, ha, hlow, hhigh⟩ := (partition_spans s.filesCount s.workers s.seed).exists_of_mem
    le_rfl (Nat.lt_add_of_pos_right (filesCount_pos hfiles))
  exact ⟨a, ha, by omega⟩

/-- Without a directory nothing is written in order. -/
theorem writeInOrder_barred (hs : s.Checked) (hfiles : s.isConsole = false)
    (hscheme : s.scheme = .count) :
    (s.writeInOrder plan).Meets (.barred s.path) (fun x _ => x.isOk = false) () := by
  let L := (Rules.barred s.path).logic
  have hlog : ∀ r, (∃ e, r = .log e) → (Rules.barred s.path).Allowed () r ∧
      ∀ a p', (Rules.barred s.path).Answers () r a p' → p' = () := by
    rintro _ ⟨e, rfl⟩
    exact ⟨.inl fun _ => rfl, fun _ _ _ => rfl⟩
  show L.Sure (s.writeInOrder plan) _ ()
  unfold writeInOrder
  rw [show s.naming = ⟨s.fileName, .count⟩ by rw [naming, hscheme]]
  split
  · refine L.sure_then (runWorkers_barred hs.base_slash plan s.dataLines _) ?_
    intro results _ hempty
    cases hmerged : mergeResults results with
    | error e => exact L.sure_pure rfl
    | ok all =>
        obtain ⟨outputs, hsnd, -⟩ := exists_of_mergeResults hmerged
        obtain ⟨a, ha, hcount⟩ := exists_count_pos hfiles
        exact absurd (hempty outputs hsnd a ha) hcount.ne'
  · rw [s.writeAlone_eq, naming, hscheme]
    refine (Action.log_asks (fun e => ⟨e, rfl⟩) _ _).sure_then hlog fun _ => ?_
    refine L.sure_then (s.source_sure Rules.barred_sources ()) fun source _ _ => ?_
    refine L.sure_then (s.wholeAssignment.write_barred hs.base_slash plan s.dataLines source) ?_
    intro x _ hempty
    refine L.sure_pure ?_
    cases x with
    | error e => rfl
    | ok outputs => exact absurd (hempty rfl) (filesCount_pos hfiles).ne'

/-- **A run that comes to outputs has a directory** when its writing begins. -/
theorem ComesTo.exists_home (hs : s.Checked) (hfiles : s.isConsole = false)
    (hscheme : s.scheme = .count) (h : s.ComesTo w w₁ outputs w') :
    ∃ home, w₁.disk.find s.path = .ok (home, .directory) := by
  have hdir := hs.path_ne hfiles
  by_contra hno
  have hmissing : ∀ home, w₁.disk.find s.path ≠ .ok (home, .directory) := fun home hfound =>
    hno ⟨home, hfound⟩
  cases h with
  | @inOrder _ ts' _ _ plan _ _ _ _ hwritten =>
      have hbarred : ∀ (k : Nat) x, (Crew.lone (s.writeInOrder plan) w₁).actions[k]? = some x →
          x.Meets (.barred s.path) (fun x _ => Except.isOk x = false) () := fun k x hx =>
        Crew.eq_of_lone hx ▸ writeInOrder_barred hs hfiles hscheme
      obtain ⟨-, hends⟩ :=
        Crew.barred_run (Q := fun _ x _ => Except.isOk x = false) hdir hmissing hbarred ts'
      rw [hwritten] at hends
      cases hends 0 _ rfl
  | @inTurns _ ts' _ plan _ _ _ _ _ hdone hmerged =>
      obtain ⟨a, ha, hcount⟩ := exists_count_pos hfiles
      obtain ⟨k, hk⟩ := List.getElem?_of_mem ha
      obtain ⟨outputs, rfl, hlen, -⟩ := outputs_of_crew rfl hdone hmerged
      have hlt : k < outputs.length := hlen ▸ (List.getElem?_eq_some_iff.mp hk).1
      have hend : ((s.sharedCrew plan w₁).run ts').2.actions[k]? =
          some (.done (.ok outputs[k])) := by
        rw [hdone.getElem?_actions, List.getElem?_map, List.getElem?_eq_getElem hlt]
        rfl
      rw [sharedCrew, show s.naming = ⟨s.fileName, .count⟩ by rw [naming, hscheme]] at hend
      obtain ⟨-, hends⟩ := workerCrew_barred hdir hs.base_slash hmissing plan s.dataLines _ ts'
      exact absurd (hends k a _ hk hend rfl) hcount.ne'

end Settings

/-! ## Accounts -/

/-- An output tells of a file that stands on a disk: its path leads to the text, the records that
were counted are as many as a file is to have and as the text has line feeds, and the bytes, as a
word, are those of the text. -/
structure FileOutput.TellsOf (o : FileOutput) (lines : UInt64) (d : Disk) (t : String) : Prop where
  read : d.read o.path = .ok t
  rows : o.metrics.rows = lines
  lineFeeds : t.toList.count '\n' = lines.toNat
  bytes : o.metrics.bytes = UInt64.ofNat t.utf8ByteSize

namespace Folder

variable {f : Folder} {base : String} {lines : UInt64} {d₀ d : Disk}
  (hfound : d₀.find f.dir = .ok (f.home, .directory)) (hext : d₀.Extends d)
  (hbase : '/' ∉ base.toList)

include hfound hext hbase

/-- What an output reports that is held in a file stands on the disk. -/
theorem Reported.exists_text {i : Nat} {o : FileOutput}
    (h : f.Reported base lines (f.HoldsFile base d₀ d) i o) : ∃ t, o.TellsOf lines d t := by
  obtain ⟨rs, hlen, hholds, hreports⟩ := h
  have hpath : o.path = f.path (numberedName base i) := congrArg Prod.snd hreports.label
  refine ⟨text rs, ?_, ?_, (count_lineFeed_text rs).trans hlen, hreports.bytes⟩
  · have hfind := Disk.find_join hfound hext (isName_numberedName hbase i) hholds.opens.path
      hholds.node
    rw [hpath, Folder.path, Disk.read, hfind]
  · rw [hreports.rows, hlen, UInt64.ofNat_toNat]

/-- So does what several outputs report. -/
theorem exists_texts {numbers : List Nat} {outputs : List FileOutput}
    (h : List.Forall₂ (f.Reported base lines (f.HoldsFile base d₀ d)) numbers outputs) :
    ∃ texts, List.Forall₂ (fun o t => o.TellsOf lines d t) outputs texts := by
  induction h with
  | nil => exact ⟨[], .nil⟩
  | cons ho _ ih =>
      obtain ⟨t, ht⟩ := ho.exists_text hfound hext hbase
      obtain ⟨texts, htexts⟩ := ih
      exact ⟨t :: texts, .cons ht htexts⟩

end Folder

namespace Settings

variable {s : Settings} {f : Folder} {w w₁ w' : World} {d₀ d : Disk} {outputs : List FileOutput}

/-- What a run tells of its files, one by one and in all, is what stands on a disk: some texts, one
for each number, in order. The sums are those that one expects as long as they are words. -/
structure Accounts (s : Settings) (d : Disk) (outputs : List FileOutput) (texts : List String) :
    Prop where
  indices : outputs.map FileOutput.index = (List.range' 1 s.filesCount.toNat).map UInt64.ofNat
  each : List.Forall₂ (fun o t => o.TellsOf s.dataLines d t) outputs texts
  files : (Summary.ofOutputs outputs).files = s.generatedNames.map (Path.join s.path)
  totalLines : (Summary.ofOutputs outputs).totalLines = (Summary.ofOutputs outputs).metrics.rows
  rows : s.filesCount.toNat * s.dataLines.toNat < 2 ^ 64 →
    (Summary.ofOutputs outputs).metrics.rows.toNat = s.filesCount.toNat * s.dataLines.toNat
  bytes : (texts.map String.utf8ByteSize).sum < 2 ^ 64 →
    (Summary.ofOutputs outputs).metrics.bytes.toNat = (texts.map String.utf8ByteSize).sum

/-- Outputs that report all files account for them. -/
theorem Told.exists_accounts (h : s.Told f d₀ d outputs) (hs : s.Checked) (hdir : f.dir = s.path)
    (hfound : d₀.find f.dir = .ok (f.home, .directory)) (hext : d₀.Extends d) :
    ∃ texts, s.Accounts d outputs texts := by
  obtain ⟨texts, heach⟩ := Folder.exists_texts hfound hext hs.base_slash h
  have hlabels := h.labels
  have hlength : texts.length = s.filesCount.toNat := by
    have hlen := congrArg List.length hlabels
    rw [List.length_map, List.length_map, List.length_range'] at hlen
    exact heach.length_eq.symm.trans hlen
  refine ⟨texts, ?_, heach, ?_, rfl, fun hlt => ?_, fun hlt => ?_⟩
  · have hfirsts := congrArg (List.map Prod.fst) hlabels
    rwa [List.map_map, List.map_map] at hfirsts
  · have hseconds := congrArg (List.map Prod.snd) hlabels
    rw [List.map_map, List.map_map] at hseconds
    rw [generatedNames, List.map_map, ← hdir]
    exact hseconds
  · have hsum : (texts.map fun _ => s.dataLines.toNat).sum =
        s.filesCount.toNat * s.dataLines.toNat := by
      rw [List.map_const', List.sum_replicate, smul_eq_mul, hlength]
    refine (Metrics.toNat_sum Metrics.rows (fun _ _ => rfl) rfl ?_ (hsum ▸ hlt)).trans hsum
    rw [List.forall₂_map_left_iff, List.forall₂_map_right_iff]
    exact heach.imp fun _ _ ho => ho.rows.trans (UInt64.ofNat_toNat).symm
  · refine Metrics.toNat_sum Metrics.bytes (fun _ _ => rfl) rfl ?_ hlt
    rw [List.forall₂_map_left_iff, List.forall₂_map_right_iff]
    exact heach.imp fun _ _ ho => ho.bytes

/-- Nothing but files and directories stands under the names of a run, if its directory is there. -/
def Unobstructed (s : Settings) (d : Disk) : Prop :=
  ∀ home, d.find s.path = .ok (home, .directory) →
    ∀ name, s.Generates name → ∀ n, d.node? (home ++ [name]) = some n → n.IsPlain

/-- **A run that comes to outputs accounts for its files**, whoever had the next turn. -/
theorem ComesTo.exists_accounts (hs : s.Checked) (hfiles : s.isConsole = false)
    (hscheme : s.scheme = .count) (h : s.ComesTo w w₁ outputs w')
    (hplain : s.Unobstructed w₁.disk) : ∃ texts, s.Accounts w'.disk outputs texts := by
  obtain ⟨home, hfound⟩ := h.exists_home hs hfiles hscheme
  let f : Folder := ⟨s.path, home⟩
  have hf : f.Accepts s.fileName s.filesCount.toNat w₁.disk :=
    ⟨hfound, fun i hlow hhigh n hn => hplain home hfound _ ⟨i, hlow, hhigh, rfl⟩ n hn⟩
  obtain ⟨plan, hwrote, htold⟩ : ∃ plan, s.Wrote f plan w₁.disk w'.disk ∧
      s.Told f w₁.disk w'.disk outputs := by
    cases h with
    | @inOrder _ _ _ _ plan _ _ _ _ hwritten =>
        exact ⟨plan, filled_of_inOrder hs hfiles hscheme rfl hf hwritten⟩
    | @inTurns _ _ _ plan _ _ _ _ hshare hdone hmerged =>
        refine ⟨plan, ?_⟩
        rw [Wrote, assignments, if_pos hshare]
        exact filled_of_crew hs hscheme rfl hf (partition_spans _ _ _) rfl hdone hmerged
  exact htold.exists_accounts hs rfl hfound (hwrote.extends_disk hfiles hf)

/-- What is told of the runs of settings is right: all that comes to outputs accounts for its files,
a run by itself sums such outputs up, and the sum does not depend on their order. -/
structure Accountable (s : Settings) : Prop where
  /-- Written by itself or by workers in any turns, whatever the seed is. -/
  accounts : ∀ {w w₁ outputs w'}, s.ComesTo w w₁ outputs w' → s.Unobstructed w₁.disk →
    ∃ texts, s.Accounts w'.disk outputs texts
  executed : ∀ {w ts es summary w'},
    (Crew.lone s.execute w).run ts = (es, Crew.lone (.done (.ok summary)) w') →
      ∃ w₁ outputs w₂, s.ComesTo w w₁ outputs w₂ ∧ summary = .ofOutputs outputs ∧
        w'.disk = w₂.disk
  order : ∀ {outputs outputs' : List FileOutput}, outputs.Perm outputs' →
    (Summary.ofOutputs outputs).metrics = (Summary.ofOutputs outputs').metrics

/-- **What is told of runs is right** for settings that passed all checks. -/
theorem accountable_of_validate {cpus : UInt64} {given : Settings} {w₀ : World}
    (hvalid : ((given.validate cpus).run w₀).1 = .ok s) (hfiles : s.isConsole = false)
    (hscheme : s.scheme = .count) : s.Accountable where
  accounts hrun := hrun.exists_accounts (checked_of_validate hvalid) hfiles hscheme
  executed := comesTo_of_execute hfiles
  order hperm := Metrics.sum_perm (hperm.map _)

/-! ## Runs on given disks -/

/-- The plan of the throws of a die. -/
def throwPlan : Plan := ⟨[⟨"n", .integer, .range 1 6⟩]⟩

/-- Two throws are prepared. -/
def preparedThrows : List Event × Crew (Except RunError Plan) :=
  (Crew.lone throwTwice.prepare usedWorld).run plainTurns

/-- Two workers throw, the second one being ahead at every turn. -/
def throwsInTurns : List Event × Crew (Except PopulateError (List FileOutput)) :=
  (throwTwice.sharedCrew throwPlan preparedThrows.2.world).run
    (List.replicate 10 [.plain 1, .plain 0]).flatten

/-- The output of a throw, in a file of eight bytes. -/
def throwOutput (index : UInt64) (path : String) : FileOutput where
  index := index
  path := path
  metrics := { Metrics.zero with rows := 1, bytes := 8 }

/-- Two throws in turns are accounted for. -/
theorem accountable_throwTwice :
    ((throwTwice.validate 4).run usedWorld).1 = .ok throwTwice ∧ throwTwice.isConsole = false ∧
      throwTwice.scheme = .count ∧ throwTwice.Accountable ∧
        throwTwice.ComesTo usedWorld preparedThrows.2.world
          [throwOutput 1 "/o/1_d.json", throwOutput 2 "/o/2_d.json"] throwsInTurns.2.world ∧
        throwTwice.Unobstructed preparedThrows.2.world.disk := by
  have hvalid : ((throwTwice.validate 4).run usedWorld).1 = .ok throwTwice := by decide +kernel
  have hprepared : preparedThrows.2.IsDone [.ok throwPlan] := by decide +kernel
  have hdone : throwsInTurns.2.IsDone
      [.ok [throwOutput 1 "/o/1_d.json"], .ok [throwOutput 2 "/o/2_d.json"]] := by decide +kernel
  have htree : preparedThrows.2.world.disk.IsTree := Disk.isTree_of_places (by decide +kernel)
  refine ⟨hvalid, rfl, rfl, accountable_of_validate hvalid rfl rfl, ?_, ?_⟩
  · refine .of_isDone rfl hprepared (by decide) rfl hdone ?_
    exact congrArg Except.ok (List.mergeSort_of_pairwise (by decide))
  · exact fun _ _ _ _ _ hn => htree.plain hn

/-- Two throws of a die of a hundred faces, by one worker. -/
def wideThrows : Settings :=
  { throwAlone with clearPath := false, schema := "\x7b\"n\":\"int:rand(1,100)\"\x7d" }

/-- A world with a link from the first file to the second. -/
def aliasWorld : World :=
  { usedWorld with disk := {
      places := [(["o"], .directory), (["o", "1_d.json"], .link "2_d.json")]
      current := [] } }

/-- The run through the link. -/
def aliasRun : List Event × Crew (Except RunError Summary) :=
  (Crew.lone wideThrows.execute aliasWorld).run plainTurns

/-- What it tells. -/
def aliasSummary : Summary where
  files := ["/o/1_d.json", "/o/2_d.json"]
  totalLines := 2
  metrics := { Metrics.zero with rows := 2, bytes := 17 }

/-- **Links from one file to another** are to be excluded. The settings are valid and the run
succeeds, but the first file is told of with the eight bytes that it had before the second one took
its place: under both paths there are nine bytes at the end. -/
theorem not_accounts_link :
    ((wideThrows.validate 4).run aliasWorld).1 = .ok wideThrows ∧ wideThrows.isConsole = false ∧
      wideThrows.scheme = .count ∧ aliasRun.2.IsDone [.ok aliasSummary] ∧
      aliasSummary.files.map aliasRun.2.world.disk.read =
        ["\x7b\"n\":31\x7d\n", "\x7b\"n\":31\x7d\n"].map .ok ∧
      aliasSummary.metrics.bytes.toNat ≠
        (["\x7b\"n\":31\x7d\n", "\x7b\"n\":31\x7d\n"].map String.utf8ByteSize).sum := by
  exact ⟨by decide +kernel, rfl, rfl, by decide +kernel, by decide +kernel, by decide⟩

end Settings

end SampleData
