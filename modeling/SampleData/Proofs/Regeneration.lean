import SampleData.Proofs.CompletedRuns
import SampleData.Proofs.RunFrame

/-!
# Clearing and writing again

A run that numbers its files and clears its directory leaves the files of its numbers as the only
output files of the directory, whatever was there before. What clearing takes for an output file is
what the run writes: a numbered name has the extension whatever its base is, be it of dots, blanks
or any other characters. Everything else survives, directories with the extension included. So to
clear the directory again takes away as many files as were written, and then none.

Whatever another run of that kind has done in the directory before is either cleared away or was
there anyway; so two runs leave what the second one leaves alone, the readings of the clock aside.

Nothing but files and directories may have the extension. A link that leads nowhere is not cleared
away, and a run that writes through it makes a file under a name that is not its own.

* `Folder.Cleared.node?_eq`: what another run did is cleared away.
* `Folder.Filled.generates_iff`: the output files after a run.
* `Settings.Regenerates`, `Settings.completes_regenerates`: what a run leaves.
* `Settings.not_regenerates`: why links, refused looks and a schema that was written are excluded.
-/

namespace SampleData

open Text JsonLines

/-! ## Cleared directories -/

/-- The place of a name is none of those of other names. -/
theorem Folder.place_ne_of_not (f : Folder) {own : String → Prop} {name : String} (h : ¬ own name) :
    ∀ name', own name' → f.place name ≠ f.place name' := by
  intro name' hname' hplace
  rw [f.place_injective hplace] at h
  exact h hname'

namespace Folder

variable {f : Folder} {d₀ d₁ d d' : Disk} {name : String} {place : Location}
  {removed removed' : Nat}

namespace Cleared

/-- Output files are gone. -/
theorem node?_of_output (h : f.Cleared d₀ d removed) (houtput : f.HasOutput d₀ name) :
    d.node? (f.place name) = none := by
  rcases h.swept.node (f.place name) with hsame | ⟨hnone, -⟩
  · obtain ⟨hext, t, ht⟩ := houtput
    exact absurd ⟨hext, t, hsame ▸ ht⟩ (h.gone name)
  · exact hnone

/-- Everything else is as it was. -/
theorem node?_of_other (h : f.Cleared d₀ d removed)
    (hother : ∀ name, place = f.place name → ¬ f.HasOutput d₀ name) :
    d.node? place = d₀.node? place := by
  rcases h.swept.node place with hsame | ⟨-, name, hplace, houtput⟩
  · exact hsame
  · exact absurd houtput (hother name hplace)

/-- Under a name with the extension nothing is left where no way stood. -/
theorem node?_eq_none (h : f.Cleared d₀ d removed) (ho : f.Orderly d₀)
    (hext : Path.extension? name = some fileExtension)
    (hway : ∀ n, d₀.node? (f.place name) = some n → ¬ n.IsWay) : d.node? (f.place name) = none := by
  by_cases houtput : f.HasOutput d₀ name
  · exact h.node?_of_output houtput
  · rw [h.node?_of_other fun name' hplace => f.place_injective hplace ▸ houtput]
    cases hnode : d₀.node? (f.place name) with
    | none => rfl
    | some n =>
        have hplain := ho.plain hext hnode
        cases n with
        | file t => exact absurd ⟨hext, t, hnode⟩ houtput
        | directory => exact absurd trivial (hway _ hnode)
        | link | nullDevice | fullDevice => exact hplain.elim

/-- **What another run did is cleared away**: from the disk it left the same remains as from the one
before it. -/
theorem node?_eq {p : Footprint} (hp : p.dir = f.dir)
    (hown : ∀ {name}, p.own name → Path.extension? name = some fileExtension)
    (ho : f.Orderly d₀) (ho' : f.Orderly d₁) (hkept : p.Kept d₀ d₁) (h : f.Cleared d₀ d removed)
    (h' : f.Cleared d₁ d' removed') (place : Location) : d'.node? place = d.node? place := by
  rcases hkept.node place with hsame | ⟨htouch, hbefore, hafter⟩
  · have hoc : ∀ {name}, place = f.place name → (f.HasOutput d₁ name ↔ f.HasOutput d₀ name) := by
      rintro name rfl
      unfold HasOutput
      rw [hsame]
    by_cases houtput : ∃ name, place = f.place name ∧ f.HasOutput d₀ name
    · obtain ⟨name, rfl, houtput⟩ := houtput
      rw [h.node?_of_output houtput, h'.node?_of_output ((hoc rfl).mpr houtput)]
    · push Not at houtput
      rw [h.node?_of_other houtput, h'.node?_of_other fun name hplace houtput' =>
        houtput name hplace ((hoc hplace).mp houtput'), hsame]
  · have hname : ∃ name, place = f.place name ∧ Path.extension? name = some fileExtension := by
      rcases htouch with ⟨home, name, hfind, rfl, hmine⟩ | ⟨-, home, name, hfind, rfl, hext, -⟩
      · rw [hp, ho.found] at hfind
        obtain ⟨rfl, -⟩ := Prod.mk.inj (Except.ok.inj hfind)
        exact ⟨name, rfl, hown hmine⟩
      · rw [hp, ho.found] at hfind
        obtain ⟨rfl, -⟩ := Prod.mk.inj (Except.ok.inj hfind)
        exact ⟨name, rfl, hext⟩
    obtain ⟨name, rfl, hext⟩ := hname
    rw [h.node?_eq_none ho hext hbefore, h'.node?_eq_none ho' hext fun n hn hway => ?_]
    obtain ⟨t, rfl⟩ := hafter n hn
    exact hway

end Cleared

end Folder

/-! ## The files of a run -/

namespace Settings

variable {s : Settings}

/-- The name of a file of the run. -/
def Generates (s : Settings) (name : String) : Prop :=
  ∃ i, 1 ≤ i ∧ i ≤ s.filesCount.toNat ∧ name = numberedName s.fileName i

/-- It has the extension of output files. -/
theorem Generates.extension {name : String} (h : s.Generates name) :
    Path.extension? name = some fileExtension := by
  obtain ⟨i, -, -, rfl⟩ := h
  exact extension?_numberedName s.fileName i

/-- The names of the files of the run, in order. -/
def generatedNames (s : Settings) : List String :=
  (List.range' 1 s.filesCount.toNat).map (numberedName s.fileName)

theorem mem_generatedNames {name : String} : name ∈ s.generatedNames ↔ s.Generates name := by
  unfold generatedNames Generates
  rw [List.mem_map]
  constructor
  · rintro ⟨i, hi, rfl⟩
    obtain ⟨hlow, hhigh⟩ := List.mem_range'_1.mp hi
    exact ⟨i, hlow, by omega, rfl⟩
  · rintro ⟨i, hlow, hhigh, rfl⟩
    exact ⟨i, List.mem_range'_1.mpr ⟨hlow, by omega⟩, rfl⟩

/-- No name is there twice. -/
theorem nodup_generatedNames (s : Settings) : s.generatedNames.Nodup := by
  refine List.Nodup.map ?_ List.nodup_range'
  exact fun _ _ h => numberedName_injective s.fileName h

theorem length_generatedNames (s : Settings) : s.generatedNames.length = s.filesCount.toNat := by
  rw [generatedNames, List.length_map, List.length_range']

end Settings

section filled

variable {f : Folder} {s : Settings} {plan : Plan} {d₀ d : Disk} {name : String}

/-- A run has written the disk on which its assignments are delivered. -/
abbrev Settings.Wrote (s : Settings) (f : Folder) (plan : Plan) (d₀ d : Disk) : Prop :=
  f.Filled s.fileName plan s.dataLines s.assignments d₀ d

namespace Folder.Filled

/-- Everything but the files of the run is as it was. -/
theorem node?_of_ne (h : s.Wrote f plan d₀ d) (hfiles : s.isConsole = false) {place : Location}
    (hplace : ∀ name, s.Generates name → place ≠ f.place name) :
    d.node? place = d₀.node? place := by
  refine h.others place fun a ha i hi => ?_
  obtain ⟨hlow, hhigh⟩ := (Settings.spans_assignments hfiles).bounds.2 a ha
  obtain ⟨hstart, hstop⟩ := hi
  exact hplace _ ⟨i, by omega, by omega, rfl⟩

/-- Each of them is there, under a name that could be opened. -/
theorem file (h : s.Wrote f plan d₀ d) (hfiles : s.isConsole = false) (hname : s.Generates name) :
    (∃ t, d.node? (f.place name) = some (.file t)) ∧ d₀.Opens f.dir name f.home := by
  obtain ⟨i, hlow, hhigh, rfl⟩ := hname
  obtain ⟨a, ha, hi⟩ :=
    (Settings.spans_assignments hfiles).exists_of_mem hlow (Nat.lt_one_add_iff.mpr hhigh)
  obtain ⟨t, ht⟩ := (h.delivered a ha).exists_holds hi
  exact ⟨⟨t, ht.node⟩, ht.opens⟩

/-- Directories and links stay. -/
theorem extends_disk (h : s.Wrote f plan d₀ d) (hfiles : s.isConsole = false)
    (hf : f.Accepts s.fileName s.filesCount.toNat d₀) : d₀.Extends d where
  current := h.current
  ways := by
    intro place n hnode hway
    by_cases hown : ∃ name, s.Generates name ∧ place = f.place name
    · obtain ⟨name, hname, rfl⟩ := hown
      have hopens := (h.file hfiles hname).2
      obtain ⟨i, hlow, hhigh, rfl⟩ := hname
      have hplain := hf.plain i hlow hhigh n hnode
      cases n with
      | directory => exact absurd hnode hopens.no_directory
      | file t => exact hway.elim
      | link | nullDevice | fullDevice => exact hplain.elim
    · push Not at hown
      rw [h.node?_of_ne hfiles hown, hnode]

/-- **The output files** of a directory without any are those of the run. -/
theorem generates_iff (h : s.Wrote f plan d₀ d) (hfiles : s.isConsole = false)
    (hgone : ∀ name, ¬ f.HasOutput d₀ name) : f.HasOutput d name ↔ s.Generates name := by
  constructor
  · intro houtput
    by_contra hno
    obtain ⟨hext, t, ht⟩ := houtput
    rw [h.node?_of_ne hfiles (f.place_ne_of_not hno)] at ht
    exact hgone name ⟨hext, t, ht⟩
  · exact fun hname => ⟨hname.extension, (h.file hfiles hname).1⟩

/-- The directory stays in order. -/
theorem orderly (h : s.Wrote f plan d₀ d) (hfiles : s.isConsole = false) (hs : s.Checked)
    (ho : f.Orderly d₀) : f.Orderly d := by
  have hcases : ∀ {name n}, d.node? (f.place name) = some n →
      (s.Generates name ∧ ∃ t, n = .file t) ∨ d₀.node? (f.place name) = some n := by
    intro name n hnode
    by_cases hname : s.Generates name
    · obtain ⟨t, ht⟩ := (h.file hfiles hname).1
      exact .inl ⟨hname, t, Option.some.inj (hnode.symm.trans ht)⟩
    · rw [h.node?_of_ne hfiles (f.place_ne_of_not hname)] at hnode
      exact .inr hnode
  refine ⟨Disk.find_of_extends ho.found (h.extends_disk hfiles (ho.accepts _ _)),
    fun hnode => ?_, fun hext hnode => ?_⟩
  · rcases hcases hnode with ⟨⟨i, -, -, rfl⟩, -⟩ | hold
    · exact isName_numberedName hs.base_slash i
    · exact ho.named hold
  · rcases hcases hnode with ⟨-, t, rfl⟩ | hold
    · trivial
    · exact ho.plain hext hold

end Folder.Filled

end filled

/-! ## What a run leaves -/

/-- The same stands at two places, but for readings of the clock in the records of a file if the
plan has moments. -/
inductive Plan.SameNode (p : Plan) : Option Node → Option Node → Prop
  | same (n : Option Node) : p.SameNode n n
  | records {rs rs' : List Record} (h : p.Alike rs rs') :
      p.SameNode (some (.file (text rs))) (some (.file (text rs')))

/-- Nothing is refused that is needed to clear the directory: no look at an output file that is
there, and no removal of one. -/
def Folder.Unhindered (f : Folder) (d : Disk) (es : List Event) : Prop :=
  ∀ e ∈ es, e.refused = true → ¬ f.Needs d e.request

/-- What a run with a plan leaves that clears its directory and writes files of its numbers. -/
structure Settings.Regenerates (s : Settings) (f : Folder) (plan : Plan) (w w' : World) : Prop where
  /-- The output files of the directory are the files of the run. -/
  exactly : ∀ name, f.HasOutput w'.disk name ↔ s.Generates name
  /-- All that was there before stays, output files aside. -/
  survives : ∀ place n, w.disk.node? place = some n →
    (∀ name, place = f.place name → ¬ f.HasOutput w.disk name) → w'.disk.node? place = some n
  /-- Nothing else is there but the files of the run. -/
  nothing_else : ∀ place, w.disk.node? place = none →
    (∀ name, s.Generates name → place ≠ f.place name) → w'.disk.node? place = none
  /-- Clearing the directory takes away as many files as were written. -/
  clears : ((clearDirectory s.path).run w').1 = .ok s.filesCount.toNat
  /-- Clearing it once more takes away none. -/
  clears_none : ((clearDirectory s.path).run ((clearDirectory s.path).run w').2).1 = .ok 0
  /-- If there is a seed, what another run has done in the directory before makes no difference, the
  readings of the clock aside, wherever it has come to. -/
  again : s.seed.isSome → ∀ {cpus given first w₀ w₁ es w₂},
    ((Settings.validate given cpus).run w₀).1 = .ok first → first.isConsole = false →
      first.scheme = .count → first.path = s.path → first.Reaches w w₁ →
        s.Completes w₁ plan es w₂ → f.Unhindered w₁.disk es →
          ∀ place, plan.SameNode (w₂.disk.node? place) (w'.disk.node? place)

namespace Settings

variable {s : Settings} {f : Folder} {plan : Plan} {w w₁ w' : World} {es : List Event}

/-- Output files are found where a run could open them. -/
theorem takesPath_of_generates {d₀ d : Disk} (h : s.Wrote f plan d₀ d)
    (hfiles : s.isConsole = false) (hgone : ∀ name, ¬ f.HasOutput d₀ name) (name : String)
    (houtput : f.HasOutput d name) : Disk.TakesPath (f.path name) name :=
  (h.file hfiles ((h.generates_iff hfiles hgone).mp houtput)).2.path

section before

variable {first : Settings} (hs : first.Checked) (hfiles : first.isConsole = false)

/-- A directory in order is one that another run into it can keep to. -/
theorem suits_of_orderly (hdir : first.path = f.dir) (ho : f.Orderly w.disk) :
    (first.footprint hs hfiles).Suits w.disk := by
  have hhome : ∀ {home}, w.disk.find (first.footprint hs hfiles).dir = .ok (home, .directory) →
      home = f.home := by
    intro home hfind
    rw [show (first.footprint hs hfiles).dir = f.dir from hdir, ho.found] at hfind
    exact (Prod.mk.inj (Except.ok.inj hfind)).1.symm
  constructor
  · intro home name n hfind hnode
    rw [hhome hfind] at hnode
    exact ho.named hnode
  · rintro home name n hfind htouch hnode
    rw [hhome hfind] at hnode
    rcases htouch with hown | ⟨-, hext⟩
    · exact ho.plain (Generates.extension hown) hnode
    · exact ho.plain hext hnode

/-- It leaves the directory in order. -/
theorem orderly_of_kept (hdir : first.path = f.dir) (ho : f.Orderly w.disk)
    (hkept : (first.footprint hs hfiles).Kept w.disk w₁.disk) : f.Orderly w₁.disk := by
  have hfound := Disk.find_of_extends ho.found hkept.extends_disk
  refine ⟨hfound, fun hnode => ?_, fun {name n} hext hnode => ?_⟩
  · refine (hkept.suits (suits_of_orderly hs hfiles hdir ho)).isName ?_ hnode
    rw [← hfound, ← hdir]
    rfl
  · rcases hkept.node (f.place name) with hsame | ⟨-, -, hfile⟩
    · exact ho.plain hext (hsame ▸ hnode)
    · obtain ⟨t, rfl⟩ := hfile n hnode
      trivial

end before

/-- **A run that comes to its end** with its directory cleared, whatever was there: settings that
passed all checks, on a disk where nothing but files and directories has the extension of output
files, and with no look at one of them and no removal of one refused. -/
theorem completes_regenerates {cpus : UInt64} {given : Settings} {w₀ : World}
    (hvalid : ((given.validate cpus).run w₀).1 = .ok s) (hfiles : s.isConsole = false)
    (hscheme : s.scheme = .count) (hclears : s.clearPath = true) (hdir : f.dir = s.path)
    (ho : f.Orderly w.disk) (hrun : s.Completes w plan es w') (hes : f.Unhindered w.disk es) :
    s.Regenerates f plan w w' := by
  have hs := checked_of_validate hvalid
  obtain ⟨d, removed, hcleared, hwrote⟩ := hrun.filled hs hfiles hscheme hclears hdir ho hes
  have ho₁ := hcleared.swept.orderly ho
  have ho' := hwrote.orderly hfiles hs ho₁
  have hexactly : ∀ name, f.HasOutput w'.disk name ↔ s.Generates name := fun name =>
    hwrote.generates_iff hfiles hcleared.gone
  obtain ⟨again, hagain, hcleared'⟩ :=
    ho'.clearDirectory_run (takesPath_of_generates hwrote hfiles hcleared.gone)
  constructor
  case exactly => exact hexactly
  case survives =>
    intro place n hnode hother
    have hstays : d.node? place = some n := (hcleared.node?_of_other hother).trans hnode
    rw [← hstays]
    refine hwrote.node?_of_ne hfiles ?_
    rintro name hname rfl
    -- what stands under a name of the run is a directory, where no file could be opened
    have hplain := ho.plain hname.extension hnode
    cases n with
    | file t => exact hother name rfl ⟨hname.extension, t, hnode⟩
    | directory => exact (hwrote.file hfiles hname).2.no_directory hstays
    | link | nullDevice | fullDevice => exact hplain
  case nothing_else =>
    intro place hnode hother
    rw [hwrote.node?_of_ne hfiles hother, hcleared.node?_of_other, hnode]
    rintro name rfl ⟨-, t, ht⟩
    rw [hnode] at ht
    cases ht
  case clears =>
    rw [← hdir, hagain, hcleared'.count s.generatedNames s.nodup_generatedNames fun name => ?_,
      s.length_generatedNames]
    rw [hexactly, mem_generatedNames]
  case clears_none =>
    obtain ⟨none, hnone, hcleared''⟩ := (hcleared'.swept.orderly ho').clearDirectory_run
      fun name houtput => absurd houtput (hcleared'.gone name)
    rw [← hdir, hnone, hcleared''.count [] List.nodup_nil fun name => ?_]
    · rfl
    · exact ⟨nofun, fun houtput => absurd houtput (hcleared'.gone name)⟩
  case again =>
    intro hseed cpus given first w₀ w₁ es w₂ hvalid₁ hfiles₁ hscheme₁ hpath hreaches hrun₂ hes₂ place
    have hs₁ := checked_of_validate hvalid₁
    have hdir₁ : first.path = f.dir := hpath.trans hdir.symm
    have hkept := hreaches.kept hs₁ hfiles₁ hscheme₁ (suits_of_orderly hs₁ hfiles₁ hdir₁ ho)
    have ho₂ := orderly_of_kept hs₁ hfiles₁ hdir₁ ho hkept
    obtain ⟨d₂, removed₂, hcleared₂, hwrote₂⟩ :=
      hrun₂.filled hs hfiles hscheme hclears hdir ho₂ hes₂
    by_cases hown : ∃ name, s.Generates name ∧ place = f.place name
    · obtain ⟨name, ⟨i, hlow, hhigh, rfl⟩, rfl⟩ := hown
      obtain ⟨a, ha, hi⟩ :=
        (spans_assignments hfiles).exists_of_mem hlow (Nat.lt_one_add_iff.mpr hhigh)
      obtain ⟨rs, rs', hholds, hholds', halike⟩ := (hwrote₂.delivered a ha).alike
        (hwrote.delivered a ha) (seed_of_mem_assignments hseed ha) hi
      rw [hholds.node, hholds'.node]
      exact .records halike
    · push Not at hown
      rw [hwrote.node?_of_ne hfiles hown, hwrote₂.node?_of_ne hfiles hown,
        Folder.Cleared.node?_eq (p := first.footprint hs₁ hfiles₁) hdir₁ Generates.extension ho ho₂
          hkept hcleared hcleared₂]
      exact .same _

end Settings

/-! ## Runs on given disks -/

/-- The request looks at a path or takes it away. -/
def Request.touches (path : String) : Request → Bool
  | .kind p => p = path
  | .remove p => p = path
  | _ => false

/-- The request takes something away. -/
def Request.isRemoval : Request → Bool
  | .remove _ => true
  | _ => false

/-- It is enough that nothing was refused for the names that stand in the directory. -/
theorem Folder.unhindered_of_names {f : Folder} {d : Disk} {es : List Event}
    (h : es.all (fun e => !e.refused ||
      (d.names f.home).all fun name => !e.request.touches (f.path name)) = true) :
    f.Unhindered d es := by
  rintro e he hrefused ⟨name, ⟨-, t, ht⟩, hr⟩
  have hall := List.all_eq_true.mp h e he
  rw [hrefused, Bool.not_true, Bool.false_or, List.all_eq_true] at hall
  have hname := hall name (Disk.mem_names_iff.mpr ⟨_, ht⟩)
  rcases hr with hr | hr
  · rw [hr] at hname
    simp [Request.touches] at hname
  · rw [hr] at hname
    simp [Request.touches] at hname

/-- A disk of files and directories is in order wherever a directory is. -/
theorem Folder.orderly_of_isTree {f : Folder} {d : Disk} (htree : d.IsTree)
    (hfound : d.find f.dir = .ok (f.home, .directory)) : f.Orderly d :=
  ⟨hfound, htree.named, fun _ => htree.plain⟩

/-- After a run that is done, the action is alone with its result. -/
theorem Crew.run_eq_of_isDone {α : Type} {run : List Event × Crew α} {a : α}
    (h : run.2.IsDone [a]) : run = (run.1, Crew.lone (.done a) run.2.world) := by
  obtain ⟨es, ⟨actions, w⟩⟩ := run
  obtain rfl : actions = [.done a] := h.actions_eq
  rfl

namespace Settings

/-- Enough turns for the runs here, and nothing is refused. -/
def plainTurns : List Turn := List.replicate 60 (.plain 0)

/-- Two throws of a die, by one worker. -/
def throwAlone : Settings := { throwTwice with workers := 1 }

/-- Their directory. -/
def throwFolder : Folder := ⟨"/o", ["o"]⟩

/-- What comes of them. -/
def throwSummary : Summary where
  files := ["/o/1_d.json", "/o/2_d.json"]
  totalLines := 2
  metrics := { Metrics.zero with rows := 2, bytes := 16 }

/-- They are thrown, one turn after the other. -/
def throwRun : List Event × Crew (Except RunError Summary) :=
  (Crew.lone throwAlone.execute usedWorld).run plainTurns

/-- The throws of a die take the place of what was thrown before. -/
theorem completes_regenerates_throwAlone :
    ((throwAlone.validate 4).run usedWorld).1 = .ok throwAlone ∧ throwAlone.isConsole = false ∧
      throwAlone.scheme = .count ∧ throwAlone.clearPath = true ∧
        throwFolder.dir = throwAlone.path ∧ throwFolder.Orderly usedWorld.disk ∧
          throwFolder.Unhindered usedWorld.disk throwRun.1 ∧
            ∃ plan, throwAlone.Completes usedWorld plan throwRun.1 throwRun.2.world ∧
              throwAlone.Regenerates throwFolder plan usedWorld throwRun.2.world := by
  have hvalid : ((throwAlone.validate 4).run usedWorld).1 = .ok throwAlone := by decide +kernel
  have ho : throwFolder.Orderly usedWorld.disk :=
    Folder.orderly_of_isTree (Disk.isTree_of_places (by decide)) (by decide +kernel)
  have hes : throwFolder.Unhindered usedWorld.disk throwRun.1 :=
    Folder.unhindered_of_names (by decide +kernel)
  have hdone : throwRun.2.IsDone [.ok throwSummary] := by decide +kernel
  have hend := Crew.run_eq_of_isDone hdone
  obtain ⟨plan, hrun⟩ : ∃ plan, throwAlone.Completes usedWorld plan throwRun.1 throwRun.2.world :=
    completes_of_execute rfl hend
  exact ⟨hvalid, rfl, rfl, rfl, rfl, ho, hes, plan, hrun,
    completes_regenerates hvalid rfl rfl rfl rfl ho hrun hes⟩

/-- The world with a link in place of the first file, which leads nowhere. -/
def linkWorld : World :=
  { usedWorld with disk := {
      places := [(["o"], .directory), (["o", "1_d.json"], .link "zzz.json"),
        (["o", "3_d.json"], .file "old")]
      current := [] } }

/-- The old file is looked at at the turn that is refused. -/
def refusedLook : List Turn :=
  List.replicate 23 (.plain 0) ++ { Turn.plain 0 with refusal := some .accessDenied } :: plainTurns

/-- A file of one constant, the schema being read from where the file will stand. -/
def writeSchema : Settings := { throwAlone with filesCount := 1, schema := "/o/1_d.json" }

/-- What comes of it, of some bytes. -/
def schemaSummary (bytes : UInt64) : Summary where
  files := ["/o/1_d.json"]
  totalLines := 1
  metrics := { Metrics.zero with rows := 1, bytes := bytes }

/-- A world with the schema, whose constant is the instruction for a throw. -/
def schemaWorld : World :=
  { usedWorld with disk := {
      places := [(["o"], .directory),
        (["o", "1_d.json"], .file "\x7b\"n\":\"str:int:rand(1,6)\"\x7d")]
      current := [] } }

/-- A run succeeds: it comes to a summary, and no removal is refused. -/
def Succeeds (run : List Event × Crew (Except RunError Summary)) (summary : Summary) : Prop :=
  run.2.IsDone [.ok summary] ∧ run.1.all (fun e => !(e.refused && e.request.isRemoval)) = true

instance (run : List Event × Crew (Except RunError Summary)) (summary : Summary) :
    Decidable (Succeeds run summary) := inferInstanceAs (Decidable (_ ∧ _))

/-- The run through the link. -/
def linkRun : List Event × Crew (Except RunError Summary) :=
  (Crew.lone throwAlone.execute linkWorld).run plainTurns

/-- The run with the look that is refused. -/
def blindRun : List Event × Crew (Except RunError Summary) :=
  (Crew.lone throwAlone.execute usedWorld).run refusedLook

/-- The first of two runs that read the schema. -/
def schemaRun : List Event × Crew (Except RunError Summary) :=
  (Crew.lone writeSchema.execute schemaWorld).run plainTurns

/-- The second of them. -/
def schemaRunAgain : List Event × Crew (Except RunError Summary) :=
  (Crew.lone writeSchema.execute schemaRun.2.world).run plainTurns

/-- **Links, looks that are refused, and a schema among the output files** are to be excluded. Each
time the settings are valid, the runs succeed and no removal is refused. Through the link a file is
made under a name that is not of the run; a file that could not be looked at stays; and a schema is
made of what the first run wrote, so that the second one leaves a throw where alone it leaves the
constant. -/
theorem not_regenerates :
    ((throwAlone.validate 4).run linkWorld).1 = .ok throwAlone ∧
      ((throwAlone.validate 4).run usedWorld).1 = .ok throwAlone ∧
      ((writeSchema.validate 4).run schemaWorld).1 = .ok writeSchema ∧
    (Succeeds linkRun throwSummary ∧ throwFolder.HasOutput linkRun.2.world.disk "zzz.json" ∧
      ¬ throwAlone.Generates "zzz.json" ∧
        ((clearDirectory throwAlone.path).run linkRun.2.world).1 = .ok 3) ∧
    (Succeeds blindRun throwSummary ∧ throwFolder.HasOutput blindRun.2.world.disk "3_d.json" ∧
      ¬ throwAlone.Generates "3_d.json") ∧
    (Succeeds schemaRun (schemaSummary 22) ∧ Succeeds schemaRunAgain (schemaSummary 8) ∧
      schemaRun.2.world.disk.node? (throwFolder.place "1_d.json") =
        some (.file "\x7b\"n\":\"int:rand(1,6)\"\x7d\n") ∧
      schemaRunAgain.2.world.disk.node? (throwFolder.place "1_d.json") =
        some (.file "\x7b\"n\":1\x7d\n")) := by
  have hlink : throwFolder.HasOutput linkRun.2.world.disk "zzz.json" :=
    ⟨by decide +kernel, "\x7b\"n\":1\x7d\n", by decide +kernel⟩
  have hold : throwFolder.HasOutput blindRun.2.world.disk "3_d.json" :=
    ⟨by decide +kernel, "old", by decide +kernel⟩
  have hnames : ∀ name ∈ ["zzz.json", "3_d.json"], ¬ throwAlone.Generates name := by
    simp only [← mem_generatedNames]
    decide +kernel
  refine ⟨by decide +kernel, by decide +kernel, by decide +kernel, ?_, ?_, ?_⟩
  · exact ⟨by decide +kernel, hlink, hnames _ (by simp), by decide +kernel⟩
  · exact ⟨by decide +kernel, hold, hnames _ (by simp)⟩
  · exact ⟨by decide +kernel, by decide +kernel, by decide +kernel, by decide +kernel⟩

end Settings

end SampleData
