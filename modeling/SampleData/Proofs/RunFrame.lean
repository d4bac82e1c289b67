import SampleData.Proofs.FileShares
import SampleData.Proofs.Footprints
import SampleData.Proofs.OutputLabels
import SampleData.Proofs.RunStages

/-!
# What a run leaves alone

The footprint of a run that numbers its files are the names of the numbers it was asked for. All its
stages keep to it, alone or with workers that take turns; and as long as there is no plan of the
schema, nothing at all is changed.

* `Populator.writeFiles_within`: files of own numbers.
* `clearDirectory_within`: clearing the directory.
* `Settings.Reaches.kept`, `runWorker_within`: the whole of a run, and a worker of it.
* `Settings.execute_frame`: what a run leaves alone.
-/

namespace SampleData

open Text

/-! ## Actions within a footprint -/

namespace Footprint

variable {p : Footprint} {d : Disk} {base : String}

/-- Actions that leave the disk as it is keep to every footprint. -/
theorem sure_of_leaves {α : Type} {x : Action α} (hx : x.Asks Request.LeavesDisk) :
    (p.rules d).logic.Sure x (fun _ _ => True) () := by
  refine (p.rules d).logic.sure_mono (fun _ _ _ => trivial)
    (hx.stays fun r hr => ⟨?_, fun _ _ _ => rfl⟩)
  cases r with
  | remove | create | append => exact hr.elim
  | _ => trivial

/-- So does telling something. -/
theorem sure_log (level : LogLevel) (message : String) :
    (p.rules d).logic.Sure (Action.log level message) (fun _ _ => True) () :=
  sure_of_leaves (Action.log_asks (fun _ => trivial) level message)

/-- Filling a file of an own name keeps to the footprint. -/
theorem fill_within (g : Populator) (path : String) {file : Location} (hown : p.Owns d file)
    (lines : UInt64) :
    (p.rules d).logic.Sure (g.fill path file lines) (fun x _ => x.2.naming = g.naming) () := by
  refine (p.rules d).logic.sure_mono (fun x _ hx => hx.1)
    ((g.fill_asks path file lines).sure (Populator.fill_naming g path file lines)
      fun r hr => ⟨?_, fun _ _ _ => rfl⟩)
  cases r with
  | append place chunk =>
      obtain rfl : place = file := hr
      exact hown
  | close | size | now | timer => trivial
  | _ => exact hr.elim

/-- Opening the file of an own number. -/
theorem openOutput_within {i : Nat} (hi : i < 2 ^ 64) (hown : p.own (numberedName base i)) :
    (p.rules d).logic.Sure (openOutput ⟨base, .count⟩ p.dir (UInt64.ofNat i))
      (fun x _ => ∀ path file, x = .ok (path, file) → p.Owns d file) () := by
  let L := (p.rules d).logic
  unfold openOutput
  rw [if_neg (by decide : ¬ NameScheme.count.isRandom = true), fileName_ofNat hi]
  refine L.sure_bind ((p.rules d).sure_request ⟨rfl, _, hown, rfl⟩ fun a _ ha => ?_)
  cases a with
  | error e =>
      refine L.sure_pure ?_
      rintro _ _ ⟨⟩
  | ok opened =>
      refine L.sure_pure ?_
      rintro _ _ ⟨⟩
      exact ha

/-- One file. -/
theorem writeFile_within (g : Generator) {i : Nat} (hi : i < 2 ^ 64)
    (hown : p.own (numberedName base i)) (lines : UInt64) :
    (p.rules d).logic.Sure ((Populator.numbered base g).writeFile p.dir (UInt64.ofNat i) lines)
      (fun x _ => ∃ g', x.2 = Populator.numbered base g') () := by
  let L := (p.rules d).logic
  unfold Populator.writeFile
  refine L.sure_bind ((p.rules d).sure_request trivial fun _ _ _ => ?_)
  refine L.sure_then (openOutput_within hi hown) fun x _ hopened => ?_
  cases x with
  | error e => exact L.sure_pure ⟨g, rfl⟩
  | ok file =>
      obtain ⟨path, file⟩ := file
      refine L.sure_then (fill_within _ path (hopened path file rfl) lines) fun x _ hnaming => ?_
      obtain ⟨outcome, ⟨g', naming⟩⟩ := x
      obtain rfl : naming = ⟨base, .count⟩ := hnaming
      cases outcome with
      | error e => exact L.sure_pure ⟨g', rfl⟩
      | ok sizes =>
          refine L.sure_bind ((p.rules d).sure_request trivial fun _ _ _ => ?_)
          exact L.sure_pure ⟨g', rfl⟩

/-- **A row of files** of own numbers. -/
theorem writeFiles_within (g : Generator) {i count : Nat} (hi : i + count ≤ 2 ^ 64)
    (hown : ∀ j, i ≤ j → j < i + count → p.own (numberedName base j)) (lines : UInt64) :
    (p.rules d).logic.Sure
      ((Populator.numbered base g).writeFiles p.dir (UInt64.ofNat i) lines count)
      (fun _ _ => True) () := by
  let L := (p.rules d).logic
  induction count generalizing i g with
  | zero => exact L.sure_pure trivial
  | succ count ih =>
      rw [Populator.writeFiles]
      have hfile := writeFile_within (d := d) g (by omega) (hown i le_rfl (by omega)) lines
      refine L.sure_then hfile fun x _ hx => ?_
      obtain ⟨outcome, populator⟩ := x
      obtain ⟨g', rfl⟩ := hx
      cases outcome with
      | error e => exact L.sure_pure trivial
      | ok output =>
          have hnext : UInt64.ofNat i + 1 = UInt64.ofNat (i + 1) := by
            rw [UInt64.ofNat_add]
            rfl
          rw [hnext]
          have hrest := ih g' (i := i + 1) (by omega) fun j hlow hhigh =>
            hown j (by omega) (by omega)
          refine L.sure_then hrest fun x _ _ => ?_
          obtain ⟨outcome, populator⟩ := x
          cases outcome <;> exact L.sure_pure trivial

/-- A worker whose numbers are own ones. -/
theorem runWorker_within (plan : Plan) (lines : UInt64) {a : Assignment}
    (ha : a.start.toNat + a.count.toNat ≤ 2 ^ 64)
    (hown : ∀ j, a.Has j → p.own (numberedName base j)) :
    (p.rules d).logic.Sure (runWorker plan p.dir ⟨base, .count⟩ lines a) (fun _ _ => True) () := by
  let L := (p.rules d).logic
  unfold runWorker
  have hsource : L.Sure a.source (fun _ _ => True) () :=
    sure_of_leaves (a.source_asks trivial trivial)
  refine L.sure_then hsource fun source _ _ => ?_
  have hfiles := writeFiles_within (d := d) ⟨plan, source⟩ ha
    (fun j hlow hhigh => hown j ⟨hlow, hhigh⟩) lines
  rw [UInt64.ofNat_toNat] at hfiles
  exact L.sure_then hfiles fun x _ _ => L.sure_pure trivial

/-- One worker after the other. -/
theorem runWorkers_within (plan : Plan) (lines : UInt64) {as : List Assignment}
    (has : ∀ a ∈ as, a.start.toNat + a.count.toNat ≤ 2 ^ 64)
    (hown : ∀ a ∈ as, ∀ j, a.Has j → p.own (numberedName base j)) :
    (p.rules d).logic.Sure (runWorkers plan p.dir ⟨base, .count⟩ lines as)
      (fun _ _ => True) () := by
  let L := (p.rules d).logic
  induction as with
  | nil => exact L.sure_pure trivial
  | cons a as ih =>
      obtain ⟨ha, has⟩ := List.forall_mem_cons.mp has
      obtain ⟨hnumbers, hown⟩ := List.forall_mem_cons.mp hown
      refine L.sure_then (runWorker_within plan lines ha hnumbers) fun result _ _ => ?_
      exact L.sure_then (ih has hown) fun results _ _ => L.sure_pure trivial

/-- Taking away the output files among names. -/
theorem clearNames_within (hclears : p.clears) {names : List String}
    (hnames : ∀ name ∈ names, Path.IsName name) :
    (p.rules d).logic.Sure (clearNames p.dir names) (fun _ _ => True) () := by
  let L := (p.rules d).logic
  induction names with
  | nil => exact L.sure_pure trivial
  | cons name names ih =>
      obtain ⟨hname, hnames⟩ := List.forall_mem_cons.mp hnames
      have hrest := ih hnames
      have hlooked : L.Sure (Action.isOfKind .regular (Path.join p.dir name))
          (fun _ _ => True) () :=
        sure_of_leaves (Action.isOfKind_asks trivial _)
      rw [clearNames]
      refine L.sure_then hlooked fun isFile _ _ => ?_
      split
      · next hfound =>
        rw [Bool.and_eq_true, decide_eq_true_eq] at hfound
        have hallowed : (p.rules d).Allowed () (.remove (Path.join p.dir name)) :=
          ⟨hclears, name, hname, hfound.2, rfl⟩
        refine L.sure_bind ((p.rules d).sure_request hallowed fun a _ _ => ?_)
        cases a with
        | ok _ =>
            refine L.sure_then (sure_log _ _) fun _ _ _ => ?_
            exact L.sure_then hrest fun _ _ _ => L.sure_pure trivial
        | error e =>
            refine L.sure_then (sure_log _ _) fun _ _ _ => ?_
            exact L.sure_then hrest fun _ _ _ => L.sure_pure trivial
      · exact hrest

/-- **Clearing the directory.** -/
theorem clearDirectory_within (hclears : p.clears) :
    (p.rules d).logic.Sure (clearDirectory p.dir) (fun _ _ => True) () := by
  let L := (p.rules d).logic
  have hexists : L.Sure (Action.pathExists p.dir) (fun _ _ => True) () :=
    sure_of_leaves (.bind (.request trivial) fun _ => .pure _)
  have hkind : L.Sure (Action.isOfKind .directory p.dir) (fun _ _ => True) () :=
    sure_of_leaves (Action.isOfKind_asks trivial _)
  unfold clearDirectory
  refine L.sure_then hexists fun found _ _ => ?_
  cases found with
  | false => exact L.sure_pure trivial
  | true =>
      refine L.sure_then hkind fun isDirectory _ _ => ?_
      cases isDirectory with
      | false => exact L.sure_pure trivial
      | true =>
          refine L.sure_bind ((p.rules d).sure_request trivial fun a _ ha => ?_)
          cases a with
          | error e => exact L.sure_pure trivial
          | ok names =>
              refine L.sure_then (clearNames_within hclears (ha rfl)) fun counts _ _ => ?_
              dsimp only
              split
              · exact L.sure_then (sure_log _ _) fun _ _ _ => L.sure_pure trivial
              · exact L.sure_then (sure_log _ _) fun _ _ _ => L.sure_pure trivial

/-- **Actions within a footprint** keep to it at any time, whoever has the next turn and whatever is
refused. -/
theorem Kept.run {α : Type} {d₀ : Disk} (hsuits : p.Suits d₀) {c : Crew α}
    (h : p.Kept d₀ c.world.disk)
    (hc : ∀ (k : Nat) x, c.actions[k]? = some x → x.Meets (p.rules d₀) (fun _ _ => True) ())
    (ts : List Turn) : p.Kept d₀ (c.run ts).2.world.disk :=
  (Crew.keeps_run (I := fun w => p.Kept d₀ w.disk) (Q := fun _ _ _ => True)
    (fun _ t _ hw hallowed => hw.reply hsuits hallowed t) h hc ts).1

/-- So does one action alone. -/
theorem Kept.run_lone {α : Type} {d₀ : Disk} (hsuits : p.Suits d₀) {x : Action α} {w : World}
    (h : p.Kept d₀ w.disk) (hx : (p.rules d₀).logic.Sure x (fun _ _ => True) ()) (ts : List Turn) :
    p.Kept d₀ ((Crew.lone x w).run ts).2.world.disk := by
  refine Kept.run hsuits (c := .lone x w) h ?_ ts
  intro k y hy
  obtain rfl := Crew.eq_of_lone hy
  exact hx

end Footprint

/-! ## Stages of a run -/

namespace Settings

variable {s : Settings} {d : Disk}

/-- What a run may touch: the files of its numbers. -/
def footprint (s : Settings) (hs : s.Checked) (hfiles : s.isConsole = false) : Footprint where
  dir := s.path
  own name := ∃ i, 1 ≤ i ∧ i ≤ s.filesCount.toNat ∧ name = numberedName s.fileName i
  clears := s.clearPath = true
  dir_ne := hs.path_ne hfiles
  named := by
    rintro _ ⟨i, -, -, rfl⟩
    exact isName_numberedName hs.base_slash i

section stages

variable (hs : s.Checked) (hfiles : s.isConsole = false)

/-- The assignments of a run are made up of its numbers. -/
theorem own_of_partition {a : Assignment}
    (ha : a ∈ partition s.filesCount s.workers s.seed) :
    a.start.toNat + a.count.toNat ≤ 2 ^ 64 ∧
      ∀ j, a.Has j → (s.footprint hs hfiles).own (numberedName s.fileName j) := by
  have hspans := partition_spans s.filesCount s.workers s.seed
  obtain ⟨hlow, hhigh⟩ := hspans.bounds.2 a ha
  have hsize := s.filesCount.toNat_lt
  refine ⟨by omega, fun j hj => ⟨j, ?_, ?_, rfl⟩⟩
  · exact hlow.trans hj.1
  · have := hj.2
    omega

/-- Clearing the directory, if that is asked for. -/
theorem clear_within :
    ((s.footprint hs hfiles).rules d).logic.Sure s.clear (fun _ _ => True) () := by
  let L := ((s.footprint hs hfiles).rules d).logic
  unfold clear
  split
  · next hclears =>
    refine L.sure_then (Footprint.sure_log _ _) fun _ _ _ => ?_
    refine L.sure_then (Footprint.clearDirectory_within hclears) fun cleared _ _ => ?_
    cases cleared with
    | error e => exact L.sure_pure trivial
    | ok removed =>
        dsimp only
        split
        · exact L.sure_then (Footprint.sure_log _ _) fun _ _ _ => L.sure_pure trivial
        · exact L.sure_pure trivial
  · exact L.sure_pure trivial

/-- **The preparation** keeps to the footprint. -/
theorem prepare_within :
    ((s.footprint hs hfiles).rules d).logic.Sure s.prepare (fun _ _ => True) () := by
  let L := ((s.footprint hs hfiles).rules d).logic
  unfold prepare
  refine L.sure_then (Footprint.sure_of_leaves s.compilePlan_asks) fun compiled _ _ => ?_
  cases compiled with
  | error e => exact L.sure_pure trivial
  | ok compiled =>
      obtain ⟨schema, plan⟩ := compiled
      refine L.sure_then (Footprint.sure_of_leaves (tell_asks (fun _ => trivial) _)) fun _ _ _ => ?_
      iterate 5 refine L.sure_then (Footprint.sure_log _ _) fun _ _ _ => ?_
      refine L.sure_then (clear_within hs hfiles) fun cleared _ _ => ?_
      cases cleared with
      | error e => exact L.sure_pure trivial
      | ok _ =>
          dsimp only
          split
          · exact L.sure_then (Footprint.sure_of_leaves
              (announceWorkers_asks (fun _ => trivial) s)) fun _ _ _ => L.sure_pure trivial
          · exact L.sure_pure trivial

/-- A worker of the run keeps to it. -/
theorem worker_within (hscheme : s.scheme = .count) (plan : Plan) {a : Assignment}
    (ha : a ∈ partition s.filesCount s.workers s.seed) :
    ((s.footprint hs hfiles).rules d).logic.Sure
      (runWorker plan s.path s.naming s.dataLines a) (fun _ _ => True) () := by
  obtain ⟨hroom, hown⟩ := own_of_partition hs hfiles ha
  have hworker := Footprint.runWorker_within (d := d) plan s.dataLines hroom hown
  rw [show s.naming = ⟨s.fileName, .count⟩ by rw [naming, hscheme]]
  exact hworker

/-- **The writing** keeps to it. -/
theorem write_within (hscheme : s.scheme = .count) (prepared : Except RunError Plan) :
    ((s.footprint hs hfiles).rules d).logic.Sure (s.write prepared) (fun _ _ => True) () := by
  let L := ((s.footprint hs hfiles).rules d).logic
  cases prepared with
  | error e => exact L.sure_pure trivial
  | ok plan =>
      have hnaming : s.naming = ⟨s.fileName, .count⟩ := by rw [naming, hscheme]
      have hwriting : L.Sure (s.writeInOrder plan) (fun _ _ => True) () := by
        unfold writeInOrder
        split
        · have hworkers := Footprint.runWorkers_within (d := d) (p := s.footprint hs hfiles) plan
            s.dataLines (fun a ha => (own_of_partition hs hfiles ha).1)
            fun a ha => (own_of_partition hs hfiles ha).2
          rw [hnaming]
          refine L.sure_then hworkers fun results _ _ => ?_
          cases mergeResults results with
          | error e => exact L.sure_pure trivial
          | ok outputs =>
              exact L.sure_then (Footprint.sure_log _ _) fun _ _ _ => L.sure_pure trivial
        · unfold writeAlone
          refine L.sure_then (Footprint.sure_log _ _) fun _ _ _ => ?_
          refine L.sure_then (Footprint.sure_of_leaves (s.source_asks trivial)) fun source _ _ => ?_
          have hsize := s.filesCount.toNat_lt
          have hown : ∀ j, 1 ≤ j → j < 1 + s.filesCount.toNat →
              (s.footprint hs hfiles).own (numberedName s.fileName j) :=
            fun j hlow hhigh => ⟨j, hlow, by omega, rfl⟩
          have hrow := Footprint.writeFiles_within (d := d) ⟨plan, source⟩ (by omega) hown
            s.dataLines
          rw [hnaming]
          refine L.sure_then hrow fun written _ _ => ?_
          obtain ⟨outcome, populator⟩ := written
          cases outcome <;> exact L.sure_pure trivial
      refine L.sure_then hwriting fun outputs _ _ => ?_
      cases outputs with
      | error e => exact L.sure_pure trivial
      | ok outputs =>
          refine L.sure_then (Footprint.sure_of_leaves (tell_asks (fun _ => trivial) _)) ?_
          exact fun _ _ _ => L.sure_pure trivial

end stages

/-! ## Runs -/

/-- The place is one that a run may touch: there is a file to be written under one of its numbers,
or one to be cleared away. -/
def MayTouch (s : Settings) (d : Disk) (place : Location) : Prop :=
  ∃ home name, d.find s.path = .ok (home, .directory) ∧ place = home ++ [name] ∧
    ((∃ i, 1 ≤ i ∧ i ≤ s.filesCount.toNat ∧ name = numberedName s.fileName i) ∨
      s.clearPath = true ∧ Path.extension? name = some fileExtension ∧
        ∃ t, d.node? place = some (.file t))

/-- What a run from a world leaves alone. -/
structure Frame (s : Settings) (w : World) : Prop where
  /-- At any time, all but what it may touch. -/
  others : ∀ w', s.Reaches w w' → w'.disk.current = w.disk.current ∧
    ∀ place, ¬ s.MayTouch w.disk place → w'.disk.node? place = w.disk.node? place
  /-- As long as the schema is loaded and compiled, all. -/
  planning : ∀ ts, ((Crew.lone s.compilePlan w).run ts).2.world.disk = w.disk
  /-- If that fails, nothing more is done. -/
  unplanned : ∀ ts es e w',
    (Crew.lone s.compilePlan w).run ts = (es, Crew.lone (.done (.error e)) w') →
      (Crew.lone s.execute w).run ts = (es, Crew.lone (.done (.error e)) w') ∧ w'.disk = w.disk
  /-- The files of all numbers have single names, which do not lead out of the directory. -/
  named : ∀ i : UInt64, Path.IsName (SampleData.fileName (showUInt64 i) s.fileName)

/-- Whatever happens, a run keeps to its footprint. -/
theorem Reaches.kept (hs : s.Checked) (hfiles : s.isConsole = false) (hscheme : s.scheme = .count)
    {w w' : World} (hsuits : (s.footprint hs hfiles).Suits w.disk) (h : s.Reaches w w') :
    (s.footprint hs hfiles).Kept w.disk w'.disk := by
  have hstart := Footprint.Kept.refl (s.footprint hs hfiles) w.disk
  cases h with
  | alone ts =>
      refine hstart.run_lone hsuits ?_ ts
      rw [execute_eq hfiles]
      exact (Rules.logic _).sure_then (prepare_within hs hfiles) fun prepared _ _ =>
        write_within hs hfiles hscheme prepared
  | @shared ts es plan w₁ hprepared hshare ts' =>
      have hmiddle := hstart.run_lone hsuits (prepare_within hs hfiles) ts
      rw [hprepared] at hmiddle
      refine Footprint.Kept.run hsuits (c := workerCrew ..) hmiddle ?_ ts'
      intro k x hx
      rw [workerCrew, List.getElem?_map, Option.map_eq_some_iff] at hx
      obtain ⟨a, hk, rfl⟩ := hx
      exact worker_within hs hfiles hscheme plan (List.mem_of_getElem? hk)

/-- **What a run leaves alone**: settings that passed all checks, on a disk of files and
directories. -/
theorem execute_frame {cpus : UInt64} {given s : Settings} {w₀ w : World}
    (hvalid : ((given.validate cpus).run w₀).1 = .ok s) (hfiles : s.isConsole = false)
    (hscheme : s.scheme = .count) (htree : w.disk.IsTree) : s.Frame w := by
  have hs := checked_of_validate hvalid
  constructor
  case others =>
    intro w' hreaches
    have hkept := hreaches.kept hs hfiles hscheme (Footprint.suits_of_isTree htree)
    refine ⟨hkept.current, fun place hplace => (hkept.node place).resolve_right ?_⟩
    rintro ⟨⟨home, name, hfind, hat, hown⟩ | ⟨hclears, home, name, hfind, hat, hext, hfile⟩, -⟩
    · exact hplace ⟨home, name, hfind, hat, .inl hown⟩
    · exact hplace ⟨home, name, hfind, hat, .inr ⟨hclears, hext, hfile⟩⟩
  case planning => exact disk_of_leaves s.compilePlan_asks
  case unplanned =>
    intro ts es e w' hrun
    have hdisk := disk_of_leaves s.compilePlan_asks (w := w) ts
    rw [hrun] at hdisk
    refine ⟨?_, hdisk⟩
    unfold execute
    exact Crew.lone_run_bind_done (by rfl) hrun
  case named => exact fun i => isName_numberedName hs.base_slash i.toNat

/-- Two files of one throw of a die each, the directory being cleared before. -/
def throwTwice : Settings where
  path := "/o"
  filesCount := 2
  fileName := "d"
  scheme := .count
  dataLines := 1
  workers := 2
  clearPath := true
  schema := "\x7b\"n\":\"int:rand(1,6)\"\x7d"
  seed := some 7

/-- A world with their directory, in which there is an old file beside what is to stay. -/
def usedWorld : World where
  disk := {
    places := [(["o"], .directory), (["o", "3_d.json"], .file "old"), (["o", "a.txt"], .file "a"),
      (["o", "s.json"], .directory), (["o", "s.json", "1_d.json"], .file "b")]
    current := [] }
  logged := []
  printed := ""
  time := { seconds := 0, nanos := 0 }
  keys := .ofSeed 0

/-- The throws of a die leave alone what is to stay. -/
theorem execute_frame_throwTwice :
    ((throwTwice.validate 4).run usedWorld).1 = .ok throwTwice ∧ throwTwice.isConsole = false ∧
      throwTwice.scheme = .count ∧ usedWorld.disk.IsTree ∧ throwTwice.Frame usedWorld := by
  have hvalid : ((throwTwice.validate 4).run usedWorld).1 = .ok throwTwice := by decide +kernel
  have htree : usedWorld.disk.IsTree := Disk.isTree_of_places (by decide)
  exact ⟨hvalid, rfl, rfl, htree, execute_frame hvalid rfl rfl htree⟩

end Settings

end SampleData
