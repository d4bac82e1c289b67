import SampleData.Proofs.LineDecoding
import SampleData.Proofs.OutputLabels
import SampleData.Proofs.WrittenFiles
import SampleData.Run
import Mathlib.Data.List.Nodup

/-!
# A stream cut into files

The files of a run with a seed hold, in the order of their numbers, the stream that the same seed
gives on standard output, cut after every so many lines; and the generator ends up where the stream
leaves it. Names have no part in that, nor has it any part where the files end.

Each file has to have a place of its own. Random names see to that, as long as no name that was
taken is overwritten; numbers do not where links lead from one name to another.

* `CutStream`: what the files hold.
* `Settings.stream_prints`: the stream on standard output.
* `Populator.writeFiles_cut`: a run of a populator that succeeds.
* `Populator.separates_of_plain`: where numbered files have places of their own.
-/

namespace SampleData

open JsonLines

/-! ## The stream -/

/-- Standard output takes everything. -/
theorem printSink_keeps (printed whole : String) :
    printSink.Keeps World.logic (fun t w => w.printed = printed ++ t) (fun _ _ => False) whole where
  take := by
    rintro taken chunk rest w - hat
    apply World.sure_request
    show w.printed ++ chunk = printed ++ (taken ++ chunk)
    rw [hat, String.append_assoc]
  again _ hrefused := hrefused.elim

/-- **The stream of a seed** is printed whole. -/
theorem Settings.stream_prints {s : Settings} {plan : Plan} {seed : UInt64}
    (hseed : s.seed = some seed) {rs : List Record} {g : Generator}
    (hgives : Gives Generator.nextAction (Generator.ofSeed plan seed) rs g)
    (hlen : rs.length = s.dataLines.toNat) (w : World) :
    World.logic.Sure (s.stream printSink plan)
      (fun r w' => r.isOk ∧ w'.printed = w.printed ++ text rs) w := by
  let L := World.logic
  unfold Settings.stream
  rw [Settings.source_of_seed hseed, ← hlen]
  refine L.sure_bind (World.sure_request (L.sure_bind (L.sure_pure ?_)))
  have hlines := writeFrom_sure (printSink_keeps w.printed (text rs)) hgives (s := w)
    String.append_empty.symm
  refine L.sure_then hlines fun x w₁ hx => ?_
  obtain ⟨outcome, g'⟩ := x
  obtain ⟨hended, -⟩ := hx
  cases outcome with
  | error e =>
      obtain ⟨_, _, hrefused, -⟩ := hended
      exact hrefused.elim
  | ok n =>
      refine L.sure_bind (World.sure_request (L.sure_bind (World.sure_request ?_)))
      exact L.sure_pure ⟨rfl, hended⟩

/-! ## Files -/

/-- Every path leads to a regular file of its own. -/
def Disk.Separates (d : Disk) (paths : List String) : Prop :=
  ∃ places : List Location, places.Nodup ∧
    List.Forall₂ (fun path place => ∃ t, d.find path = .ok (place, .file t)) paths places

/-- The files of outputs hold the stream of a seed, cut into rows. -/
structure CutStream (plan : Plan) (seed start lines count : UInt64) (outputs : List FileOutput)
    (d : Disk) (g : Generator) (rows : List (List Record)) : Prop where
  /-- There is a row for each file, and each has as many records, and lines, as were asked for. -/
  length_rows : rows.length = count.toNat
  length_row : ∀ row ∈ rows, row.length = lines.toNat ∧ (text row).toList.count '\n' = lines.toNat
  /-- The outputs are those of the numbers, in order. -/
  numbers : outputs.map (fun o => o.index.toNat) = List.range' start.toNat count.toNat
  /-- Each file holds the lines of its row. -/
  files : outputs.map (fun o => d.read o.path) = rows.map fun row => .ok (text row)
  /-- The rows one after the other are the records of the seed, and the generator is where it is
  after them. -/
  records : ∀ c : Clock, (Generator.ofSeed plan seed).many c (count.toNat * lines.toNat) =
    (.ok rows.flatten, g)
  /-- What is printed for as many records of the seed is the files one after the other. -/
  printed : ∀ s : Settings, s.seed = some seed → s.dataLines = count * lines → ∀ w : World,
    ((s.stream printSink plan).run w).1.isOk ∧
      ((s.stream printSink plan).run w).2.printed = w.printed ++ String.join (rows.map text)
  /-- So is what is written of these records when they are at hand. -/
  written : (write (Sink.gather (ε := OsError)) rows.flatten).run "" =
    (.ok (count.toNat * lines.toNat), String.join (rows.map text))

/-- Where paths lead to files of their own, the files of a run have places of their own. -/
theorem FilesWritten.own_places {reuse : Bool} {d d' : Disk} {g g' : Generator}
    {fs : List WrittenFile} (h : FilesWritten reuse d g fs d' g')
    (hown : d'.Separates (fs.map fun f => f.output.path)) : (fs.map WrittenFile.place).Nodup ∧
      ∀ f ∈ fs, ∃ t, d'.node? f.place = some (.file t) := by
  obtain ⟨places, hnodup, hall⟩ := hown
  rw [List.forall₂_map_left_iff] at hall
  have hleads := h.leads
  suffices places = fs.map WrittenFile.place ∧
      ∀ f ∈ fs, ∃ t, d'.node? f.place = some (.file t) by
    exact ⟨this.1 ▸ hnodup, this.2⟩
  clear hnodup h
  induction hall with
  | nil => exact ⟨rfl, nofun⟩
  | @cons f place fs places hfile _ ih =>
      obtain ⟨⟨n, hnode, hfind⟩, hleads⟩ := List.forall_mem_cons.mp hleads
      obtain ⟨t, ht⟩ := hfile
      obtain ⟨rfl, rfl⟩ := Prod.mk.inj (Except.ok.inj (hfind.symm.trans ht))
      obtain ⟨rfl, hfiles⟩ := ih hleads
      exact ⟨rfl, List.forall_mem_cons.mpr ⟨⟨t, hnode⟩, hfiles⟩⟩

/-- Files with places of their own can be read under their paths. -/
theorem FilesWritten.read_eq {reuse : Bool} {d d' : Disk} {g g' : Generator}
    {fs : List WrittenFile} (h : FilesWritten reuse d g fs d' g')
    (hown : (fs.map WrittenFile.place).Nodup)
    (hfiles : ∀ f ∈ fs, ∃ t, d'.node? f.place = some (.file t)) :
    ∀ f ∈ fs, d'.read f.output.path = .ok (text f.records) := by
  intro f hf
  obtain ⟨n, hn, hfind⟩ := h.leads f hf
  rw [h.node?_eq hown hfiles f hf] at hn
  rw [Disk.read, hfind, ← Option.some.inj hn]

/-- Rows of one length hold that many records each. -/
theorem length_flatten_rows {rows : List (List Record)} {n : Nat}
    (h : ∀ row ∈ rows, row.length = n) : rows.flatten.length = rows.length * n := by
  induction rows with
  | nil => simp
  | cons row rows ih =>
      obtain ⟨hrow, hrows⟩ := List.forall_mem_cons.mp h
      rw [List.flatten_cons, List.length_append, hrow, ih hrows, List.length_cons, Nat.succ_mul,
        Nat.add_comm]

/-- Numbers that do not overflow are what they are counted as. -/
theorem map_toNat_range' {start count : Nat} (h : start + count ≤ 2 ^ 64) :
    ((List.range' start count).map UInt64.ofNat).map UInt64.toNat = List.range' start count := by
  rw [List.map_map]
  refine (List.map_congr_left fun i hi => ?_).trans (List.map_id _)
  exact UInt64.toNat_ofNat_of_lt' ((List.mem_range'_1.mp hi).2.trans_le h)

/-- **The files of a run that succeeds are the stream of its seed, cut into files**, if each of them
has a place of its own: because names are random and nothing was told, so that no name that was
taken was overwritten, or because their paths lead to regular files of their own. -/
theorem Populator.writeFiles_cut {plan : Plan} (hplan : plan.hasTimestamp = false)
    {seed start lines count : UInt64} {naming : Naming} {dir : String} {w w' : World}
    {outputs : List FileOutput} {p : Populator} (hrecords : count.toNat * lines.toNat < 2 ^ 64)
    (hnumbers : start.toNat + count.toNat < 2 ^ 64)
    (hrun : (Populator.writeFiles ⟨.ofSeed plan seed, naming⟩ dir start lines count.toNat).run w =
      ((.ok outputs, p), w'))
    (hown : (naming.scheme.isRandom = true ∧ w'.logged = w.logged) ∨
      w'.disk.Separates (outputs.map FileOutput.path)) :
    ∃ rows, CutStream plan seed start lines count outputs w'.disk p.generator rows := by
  obtain ⟨-, fs, rfl, hlength, hlens, hwritten⟩ := World.of_run (Populator.writeFiles_written
    (p := ⟨.ofSeed plan seed, naming⟩) hplan dir start lines count.toNat w) hrun outputs rfl
  have hlabels := Action.free_run (Populator.writeFiles_labels ⟨.ofSeed plan seed, naming⟩ dir
    start.toNat lines count.toNat) w
  rw [UInt64.ofNat_toNat, hrun] at hlabels
  obtain ⟨hindices, -⟩ := hlabels _ rfl
  rw [List.map_map] at hown
  -- each file has a place of its own, for one reason or the other
  obtain ⟨reuse, hfiles, hplaces, hregular⟩ : ∃ reuse,
      FilesWritten reuse w.disk (.ofSeed plan seed) fs w'.disk p.generator ∧
        (fs.map WrittenFile.place).Nodup ∧
          ∀ f ∈ fs, ∃ t, w'.disk.node? f.place = some (.file t) := by
    rcases hown with hrandom | hown
    · have hfresh := hwritten false (.inr hrandom)
      exact ⟨false, hfresh, hfresh.fresh⟩
    · have hreuse := hwritten true (.inl rfl)
      exact ⟨true, hreuse, hreuse.own_places hown⟩
  have hrow : ∀ row ∈ fs.map WrittenFile.records, row.length = lines.toNat := by
    intro row hmem
    obtain ⟨f, hf, rfl⟩ := List.mem_map.mp hmem
    exact hlens f hf
  have htotal : (fs.map WrittenFile.records).flatten.length = count.toNat * lines.toNat := by
    rw [length_flatten_rows hrow, List.length_map, hlength]
  have hmany := fun c => Generator.many_of_gives hplan c hfiles.gives
  rw [htotal] at hmany
  have hproduct : (count * lines).toNat = count.toNat * lines.toNat := by
    rw [UInt64.toNat_mul, Nat.mod_eq_of_lt hrecords]
  refine ⟨fs.map WrittenFile.records, ?_⟩
  constructor
  case length_rows => rw [List.length_map, hlength]
  case length_row =>
    intro row hmem
    exact ⟨hrow row hmem, by rw [count_lineFeed_text, hrow row hmem]⟩
  case numbers =>
    have hnats := congrArg (List.map UInt64.toNat) hindices
    rwa [map_toNat_range' hnumbers.le, List.map_map] at hnats
  case files =>
    rw [List.map_map, List.map_map]
    exact List.map_congr_left fun f hf => hfiles.read_eq hplaces hregular f hf
  case records => exact hmany
  case printed =>
    intro s hseed hlines w₀
    rw [join_map_text]
    exact Settings.stream_prints hseed hfiles.gives (by rw [htotal, hlines, hproduct]) w₀
  case written => rw [write_gather, htotal, join_map_text]

/-! ## Numbered files -/

section numbered

variable {f : Folder} {base : String} {start : Nat} {d : Disk} {w w' : World}

/-- One worker alone plans to put rows of records under the names of consecutive numbers. -/
def solePlan (base : String) (start : Nat) (rows : List (List Record)) (k : Nat)
    (name whole : String) : Prop :=
  k = 0 ∧ rowPlan base start rows name whole

/-- Numbered files can be planned where nothing but files and directories stands under the
names. -/
theorem Folder.hosts_solePlan (hfound : d.find f.dir = .ok (f.home, .directory))
    (hbase : '/' ∉ base.toList) {rows : List (List Record)}
    (hplain : ∀ i, start ≤ i → i < start + rows.length → ∀ n,
      d.node? (f.place (numberedName base i)) = some n → n.IsPlain) :
    f.Hosts (solePlan base start rows) d where
  found := hfound
  named := by
    rintro k name whole ⟨-, j, row, -, rfl, -⟩
    exact isName_numberedName hbase _
  plain := by
    rintro k name whole ⟨-, j, row, hrow, rfl, -⟩
    have hj := (List.getElem?_eq_some_iff.mp hrow).1
    exact hplain _ (Nat.le_add_right _ _) (Nat.add_lt_add_left hj _)
  apart := by
    rintro k k' name whole whole' ⟨rfl, -⟩ ⟨rfl, -⟩
    rfl

/-- What was written is found under the path of its number. -/
theorem Folder.Covers.find_row {rows : List (List Record)} {d' : Disk} {s : Nat → Progress}
    (hc : f.Covers (solePlan base start rows) d d' s) (hh : f.Hosts (solePlan base start rows) d)
    (hs : s 0 = Progress.fresh.writeRow base start (rows.map text)) {j : Nat} {row : List Record}
    (hrow : rows[j]? = some row) :
    d'.find (f.path (numberedName base (start + j))) =
      .ok (f.place (numberedName base (start + j)), .file (text row)) := by
  have hplan : solePlan base start rows 0 (numberedName base (start + j)) (text row) :=
    ⟨rfl, j, row, hrow, rfl, rfl⟩
  have htext : (s 0).texts (numberedName base (start + j)) = some (text row) := by
    rw [hs]
    apply Progress.texts_writeRow
    rw [List.getElem?_map, hrow]
    rfl
  obtain ⟨hnode, hopens⟩ := hc.opened hplan htext
  exact Disk.find_join hh.found (hc.extends_disk hh) (hh.named hplan) hopens.path hnode

/-- **Numbered files have places of their own** in a directory with nothing but files and
directories under their names. -/
theorem Populator.separates_of_plain {g : Generator} (hplan : g.plan.hasTimestamp = false)
    (hfound : w.disk.find f.dir = .ok (f.home, .directory)) (hbase : '/' ∉ base.toList)
    {lines : UInt64} {count : Nat} (hnumbers : start + count ≤ 2 ^ 64)
    (hplain : ∀ i, start ≤ i → i < start + count → ∀ n,
      w.disk.node? (f.place (numberedName base i)) = some n → n.IsPlain)
    {outputs : List FileOutput} {p : Populator}
    (hrun : ((numbered base g).writeFiles f.dir (UInt64.ofNat start) lines count).run w =
      ((.ok outputs, p), w')) : w'.disk.Separates (outputs.map FileOutput.path) := by
  obtain ⟨-, fs, -, hcount, hlens, hwritten⟩ := World.of_run
    (Populator.writeFiles_written (p := numbered base g) hplan f.dir (UInt64.ofNat start) lines
      count w) hrun outputs rfl
  rw [← List.length_map WrittenFile.records] at hcount
  -- the records are known now, so the run can be followed text by text
  subst hcount
  have hhosts := Folder.hosts_solePlan hfound hbase hplain
  have hsure : (f.rules (solePlan base start (fs.map WrittenFile.records) 0)).logic.Sure
      ((numbered base g).writeFiles f.dir (UInt64.ofNat start) lines _) _ .fresh :=
    Populator.writeFiles_sure (Disk.leads_of_find hfound).1 (fun _ _ h => hhosts.named h) hnumbers
      (fun j row hrow => ⟨rfl, j, row, hrow, rfl, rfl⟩) (hwritten true (.inl rfl)).gives
      (List.forall_mem_map.mpr hlens) .fresh
  obtain ⟨s, hend, hcovers, -⟩ := Folder.covers_fresh.run hhosts (k := 0) hsure
  rw [hrun] at hend hcovers
  obtain ⟨hlabels, -, rfl⟩ := hend
  have hpaths : outputs.map FileOutput.path =
      (List.range' start (fs.map WrittenFile.records).length).map
        fun i => f.path (numberedName base i) := by
    have := congrArg (List.map Prod.snd) hlabels
    rwa [List.map_map, List.map_map] at this
  rw [hpaths]
  have hapart : Function.Injective fun i => f.place (numberedName base i) :=
    fun _ _ h => numberedName_injective base (f.place_injective h)
  refine ⟨(List.range' start (fs.map WrittenFile.records).length).map
    fun i => f.place (numberedName base i), List.Nodup.map hapart List.nodup_range', ?_⟩
  rw [List.forall₂_map_left_iff, List.forall₂_map_right_iff, List.forall₂_same]
  intro i hi
  obtain ⟨j, hj, rfl⟩ := List.mem_range'.mp hi
  rw [Nat.one_mul]
  exact ⟨_, hcovers.find_row hhosts (Function.update_self ..) (List.getElem?_eq_getElem hj)⟩

end numbered

/-! ## Throws of a die -/

/-- A field of throws of a die. -/
def diePlan : Plan := { fields := [{ name := "n", kind := .integer, strategy := .range 1 6 }] }

/-- A populator that writes them to numbered files. -/
def diePopulator : Populator :=
  { generator := .ofSeed diePlan 7, naming := { base := "d", scheme := .count } }

/-- A world with a directory for the files and what else there is. -/
def dieWorld (places : List (Location × Node)) : World where
  disk := { places := (["o"], .directory) :: places, current := [] }
  logged := []
  printed := ""
  time := { seconds := 0, nanos := 0 }
  keys := .ofSeed 0

/-- The outputs of two files of one throw each. -/
def dieOutputs : List FileOutput :=
  [{ index := 1, path := "/o/1_d.json", metrics := { Metrics.zero with rows := 1, bytes := 8 } },
    { index := 2, path := "/o/2_d.json", metrics := { Metrics.zero with rows := 1, bytes := 8 } }]

/-- Two files in an empty directory. -/
theorem Populator.writeFiles_cut_die : ∃ rows, CutStream diePlan 7 1 1 2 dieOutputs
    ((diePopulator.writeFiles "/o" 1 1 2).run (dieWorld [])).2.disk
    ((diePopulator.writeFiles "/o" 1 1 2).run (dieWorld [])).1.2.generator rows := by
  have hrun : ((diePopulator.writeFiles "/o" 1 1 2).run (dieWorld [])).1.1 = .ok dieOutputs := by
    decide +kernel
  have hends : (Populator.writeFiles ⟨.ofSeed diePlan 7, diePopulator.naming⟩ "/o" 1 1
      (2 : UInt64).toNat).run (dieWorld []) = ((.ok dieOutputs, _), _) :=
    Prod.ext (Prod.ext hrun rfl) rfl
  have hfound : (dieWorld []).disk.find "/o" = .ok (["o"], .directory) := by decide +kernel
  refine Populator.writeFiles_cut rfl (by decide) (by decide) hends (.inr ?_)
  refine Populator.separates_of_plain (f := ⟨"/o", ["o"]⟩) rfl hfound (by decide) (by decide) ?_
    hends
  intro i _ _ n hn
  simp [Disk.node?, dieWorld, Folder.place] at hn

/-- The directory with a link from the name of the first file to that of the second. -/
def linkedDieWorld : World := dieWorld [(["o", "1_d.json"], .link "2_d.json")]

/-- Through a link from one name to another both files come to stand at one place, where the second
leaves nothing of the first. -/
theorem Populator.not_cut_link :
    ((diePopulator.writeFiles "/o" 1 1 2).run linkedDieWorld).1.1 = .ok dieOutputs ∧
    ¬ ∃ rows, CutStream diePlan 7 1 1 2 dieOutputs
      ((diePopulator.writeFiles "/o" 1 1 2).run linkedDieWorld).2.disk
      ((diePopulator.writeFiles "/o" 1 1 2).run linkedDieWorld).1.2.generator rows := by
  have hrun : ((diePopulator.writeFiles "/o" 1 1 2).run linkedDieWorld).1.1 = .ok dieOutputs ∧
      (dieOutputs.map fun o =>
        ((diePopulator.writeFiles "/o" 1 1 2).run linkedDieWorld).2.disk.read o.path) =
          [.ok "\x7b\"n\":4\x7d\n", .ok "\x7b\"n\":4\x7d\n"] ∧
      ((Generator.ofSeed diePlan 7).many (fun _ => .zero) 2).1.map text =
        .ok "\x7b\"n\":1\x7d\n\x7b\"n\":4\x7d\n" := by
    decide +kernel
  refine ⟨hrun.1, ?_⟩
  rintro ⟨rows, hcut⟩
  have hfiles := hrun.2.1
  rw [hcut.files] at hfiles
  have htexts : rows.map text = ["\x7b\"n\":4\x7d\n", "\x7b\"n\":4\x7d\n"] := by
    have hok : Function.Injective (Except.ok (ε := OsError) (α := String)) :=
      fun _ _ => Except.ok.inj
    apply List.map_injective_iff.mpr hok
    rw [List.map_map]
    exact hfiles
  have hstream := hrun.2.2
  rw [show (2 : Nat) = (2 : UInt64).toNat * (1 : UInt64).toNat from rfl, hcut.records] at hstream
  have hjoin := join_map_text rows
  rw [htexts, Except.ok.inj hstream] at hjoin
  exact absurd hjoin (by decide +kernel)

end SampleData
