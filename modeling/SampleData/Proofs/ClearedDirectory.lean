import SampleData.Proofs.DirectoryEntries
import SampleData.Proofs.Requests
import SampleData.Proofs.RunStages
import Mathlib.Data.List.Basic

/-!
# Clearing a directory

Clearing goes through the names that were listed: each is looked at, and taken away if it is an
output file, that is a regular file with the extension of output files. One name at a time, the
disk loses the output file of that name and nothing else, so a name that was dealt with stays so
while the others are; in the end no output file is left, and as many were taken away as there were.

A look that is refused passes for one that found nothing, and then the file stays although nothing
fails. So it is only said of the looks at output files, and of their removals, that none of them is
refused; what else is refused does not matter.

* `Folder.HasOutput`, `Folder.Orderly`: output files, and directories that tell them by names.
* `Folder.Swept`: what is left when output files are taken away.
* `Folder.sweeping`: the rules for clearing.
* `Folder.clearNames_sure`, `Folder.clearDirectory_sure`: clearing under the rules.
* `Folder.prepare_sure`: the preparation of a run that clears its directory.
* `Folder.Orderly.run`, `Folder.Orderly.clearDirectory_run`: clearing that is carried out.
-/

namespace SampleData

open Text

namespace Folder

variable {f : Folder} {d₀ d d' : Disk} {name : String}

/-! ## Output files -/

/-- There is an output file of that name in the directory: a regular file whose extension is that of
output files. -/
def HasOutput (f : Folder) (d : Disk) (name : String) : Prop :=
  Path.extension? name = some fileExtension ∧ ∃ t, d.node? (f.place name) = some (.file t)

/-- The directory is there, all that stands in it has names, and nothing but files and directories
has the extension of output files. -/
structure Orderly (f : Folder) (d : Disk) : Prop where
  found : d.find f.dir = .ok (f.home, .directory)
  named : ∀ {name n}, d.node? (f.place name) = some n → Path.IsName name
  plain : ∀ {name n}, Path.extension? name = some fileExtension →
    d.node? (f.place name) = some n → n.IsPlain

/-- What is left of a disk when output files of the directory are taken away. -/
structure Swept (f : Folder) (d₀ d : Disk) : Prop where
  current : d.current = d₀.current
  node : ∀ place, d.node? place = d₀.node? place ∨
    d.node? place = none ∧ ∃ name, place = f.place name ∧ f.HasOutput d₀ name

namespace Swept

/-- Nothing is taken away. -/
theorem refl (f : Folder) (d : Disk) : f.Swept d d := ⟨rfl, fun _ => .inl rfl⟩

/-- Output files that are left were there. -/
theorem hasOutput (h : f.Swept d₀ d) (hd : f.HasOutput d name) : f.HasOutput d₀ name := by
  obtain ⟨hext, t, ht⟩ := hd
  rcases h.node (f.place name) with hsame | ⟨hnone, -⟩
  · exact ⟨hext, t, hsame ▸ ht⟩
  · rw [hnone] at ht
    cases ht

/-- First some are taken away and then others. -/
theorem trans (h : f.Swept d₀ d) (h' : f.Swept d d') : f.Swept d₀ d' where
  current := h'.current.trans h.current
  node place := by
    rcases h'.node place with hsame | ⟨hnone, name, hplace, houtput⟩
    · rw [hsame]
      exact h.node place
    · exact .inr ⟨hnone, name, hplace, h.hasOutput houtput⟩

/-- Directories and links stay. -/
theorem extends_disk (h : f.Swept d₀ d) : d₀.Extends d where
  current := h.current
  ways place n hnode hway := by
    rcases h.node place with hsame | ⟨-, name, rfl, -, t, ht⟩
    · rw [hsame, hnode]
    · obtain rfl := Option.some.inj (hnode.symm.trans ht)
      exact hway.elim

/-- The directory stays in order. -/
theorem orderly (h : f.Swept d₀ d) (ho : f.Orderly d₀) : f.Orderly d := by
  have hstood : ∀ {name n}, d.node? (f.place name) = some n →
      d₀.node? (f.place name) = some n := by
    intro name n hn
    rcases h.node (f.place name) with hsame | ⟨hnone, -⟩
    · rw [← hsame, hn]
    · rw [hnone] at hn
      cases hn
  exact ⟨Disk.find_of_extends ho.found h.extends_disk, fun hn => ho.named (hstood hn),
    fun hext hn => ho.plain hext (hstood hn)⟩

end Swept

/-- Without its file a name has no output file; all others have theirs. -/
theorem hasOutput_erase {name' : String} :
    f.HasOutput (d.erase (f.place name)) name' ↔ name' ≠ name ∧ f.HasOutput d name' := by
  unfold HasOutput
  by_cases hname : name' = name
  · simp [hname]
  · simp [hname]

/-- An output file is taken away. -/
theorem swept_erase (h : f.HasOutput d name) : f.Swept d (d.erase (f.place name)) where
  current := rfl
  node place := by
    by_cases hplace : place = f.place name
    · exact .inr ⟨by simp [hplace], name, hplace, h⟩
    · exact .inl (by simp [hplace])

namespace Orderly

/-- A look at a name with the extension tells whether it has an output file, unless refused. -/
theorem kind_eq_regular_iff (ho : f.Orderly d) (hname : Path.IsName name)
    (hext : Path.extension? name = some fileExtension) {k : FileKind}
    (hk : d.kind (f.path name) = .ok k) : k = .regular ↔ f.HasOutput d name := by
  have hd := Disk.Extends.refl d
  constructor
  · rintro rfl
    exact ⟨hext, Disk.file_of_kind_join ho.found hd hname (fun n hn => ho.plain hext hn) hk⟩
  · rintro ⟨-, t, ht⟩
    unfold Disk.kind at hk
    cases hfind : d.find (f.path name) with
    | error e => rw [hfind] at hk; cases hk
    | ok found =>
        obtain ⟨loc, n⟩ := found
        obtain ⟨-, hnode⟩ :=
          Disk.eq_of_find_join ho.found hd hname (fun n hn => ho.plain hext hn) hfind
        obtain rfl : n = .file t := Option.some.inj (hnode.symm.trans ht)
        rw [hfind] at hk
        exact (Except.ok.inj hk).symm

/-- What is taken away under a name with the extension is an output file. -/
theorem remove_eq (ho : f.Orderly d) (h : f.HasOutput d name)
    (hremove : d.remove (f.path name) = .ok d') : d' = d.erase (f.place name) := by
  obtain ⟨hext, t, ht⟩ := h
  exact (Disk.remove_join ho.found (.refl d) (ho.named ht) (fun n hn => ho.plain hext hn)
    hremove).2

/-- The names that are listed are those of the entries. -/
theorem mem_list_iff (ho : f.Orderly d) {names : List String} (hlist : d.list f.dir = .ok names) :
    name ∈ names ↔ ∃ n, d.node? (f.place name) = some n := by
  rw [Disk.list_of_extends ho.found (.refl d)] at hlist
  obtain rfl := Except.ok.inj hlist
  exact Disk.mem_names_iff

end Orderly

/-! ## Rules for clearing -/

/-- A request on which it depends whether an output file is taken away: a look at it, or its
removal. -/
def Needs (f : Folder) (d : Disk) (r : Request) : Prop :=
  ∃ name, f.HasOutput d name ∧ (r = .kind (f.path name) ∨ r = .remove (f.path name))

/-- The rules for clearing. Nothing changes the disk but the removal of an output file; the answers
are those of a world with that disk, and what is needed is not refused. -/
def sweeping (f : Folder) : Rules Disk where
  Allowed d r := r.LeavesDisk ∨ ∃ name, f.HasOutput d name ∧ r = .remove (f.path name)
  Answers d r a d' :=
    (∃ (w : World) (t : Turn), w.disk = d ∧ (w.reply t r).1 = a ∧ (w.reply t r).2.disk = d') ∧
      (r.isRefused a = true → ¬ f.Needs d r)

/-- What leaves the disk as it is may be asked for, and does so. -/
theorem sweeping_leaves {r : Request} (hr : r.LeavesDisk) :
    f.sweeping.Allowed d r ∧ ∀ a d', f.sweeping.Answers d r a d' → d' = d := by
  refine ⟨.inl hr, ?_⟩
  rintro a d' ⟨⟨w, t, rfl, -, rfl⟩, -⟩
  exact w.disk_reply_of_leaves t hr

/-- **One request** that is allowed takes away output files at most, in any world. -/
theorem Orderly.swept_reply {w : World} (ho : f.Orderly w.disk) {r : Request}
    (hallowed : f.sweeping.Allowed w.disk r) (t : Turn) : f.Swept w.disk (w.reply t r).2.disk := by
  rcases hallowed with hleaves | ⟨name, houtput, rfl⟩
  · rw [w.disk_reply_of_leaves t hleaves]
    exact .refl f w.disk
  · rcases w.reply_cases t (r := .remove (f.path name)) (by simp) with hanswer | ⟨-, hsame⟩
    · rw [hanswer, World.answer]
      cases hremove : w.disk.remove (f.path name) with
      | error e => exact .refl f w.disk
      | ok d' =>
          rw [ho.remove_eq houtput hremove]
          exact swept_erase houtput
    · rw [hsame]
      exact .refl f w.disk

/-- What is refused of it is not needed if nothing needed on a disk with more output files is. -/
theorem Swept.needs (h : f.Swept d₀ d) {r : Request} (hr : f.Needs d r) : f.Needs d₀ r := by
  obtain ⟨name, houtput, hr⟩ := hr
  exact ⟨name, h.hasOutput houtput, hr⟩

/-! ## Clearing under the rules -/

/-- A look at a name tells whether an output file is to be taken away. -/
theorem look_sure (ho : f.Orderly d) (hname : Path.IsName name) :
    f.sweeping.logic.Sure (Action.isOfKind .regular (f.path name))
      (fun found d' => d' = d ∧ ((found && Path.extension? name = some fileExtension) = true ↔
        f.HasOutput d name)) d := by
  let L := f.sweeping.logic
  have hleaves : (Request.kind (f.path name)).LeavesDisk := trivial
  refine L.sure_bind (f.sweeping.sure_request (.inl hleaves) fun a d' ha => ?_)
  obtain rfl := (sweeping_leaves hleaves).2 a d' ha
  obtain ⟨⟨w, t, rfl, rfl, -⟩, hneeded⟩ := ha
  by_cases hext : Path.extension? name = some fileExtension
  · rcases w.reply_cases t (r := .kind (f.path name)) (by simp) with hanswer | ⟨hrefused, -⟩
    · rw [hanswer] at hneeded ⊢
      dsimp only [World.answer] at hneeded ⊢
      cases hk : w.disk.kind (f.path name) with
      | ok k =>
          refine L.sure_pure ⟨rfl, ?_⟩
          rw [← ho.kind_eq_regular_iff hname hext hk]
          simp [hext]
      | error e =>
          refine L.sure_pure ⟨rfl, by simp, fun houtput => ?_⟩
          rw [hk] at hneeded
          exact absurd ⟨name, houtput, .inl rfl⟩ (hneeded rfl)
    · have hnone : ¬ f.HasOutput w.disk name := fun houtput =>
        hneeded hrefused ⟨name, houtput, .inl rfl⟩
      cases hk : (w.reply t (.kind (f.path name))).1 with
      | ok k => rw [hk] at hrefused; cases hrefused
      | error e => exact L.sure_pure ⟨rfl, by simp, fun houtput => absurd houtput hnone⟩
  · have hnone : ¬ f.HasOutput w.disk name := fun houtput => hext houtput.1
    cases (w.reply t (.kind (f.path name))).1 with
    | ok k => exact L.sure_pure ⟨rfl, by simp [hext], fun houtput => absurd houtput hnone⟩
    | error e => exact L.sure_pure ⟨rfl, by simp, fun houtput => absurd houtput hnone⟩

/-- An output file that is to be taken away is gone. -/
theorem remove_sure (ho : f.Orderly d) (h : f.HasOutput d name) :
    f.sweeping.logic.Sure (Action.request (.remove (f.path name)))
      (fun a d' => a = .ok () ∧ d' = d.erase (f.place name)) d := by
  refine f.sweeping.sure_request (.inr ⟨name, h, rfl⟩) fun a d' ha => ?_
  obtain ⟨⟨w, t, rfl, rfl, rfl⟩, hneeded⟩ := ha
  have hnot : ¬ (Request.remove (f.path name)).isRefused (w.reply t _).1 = true :=
    fun hrefused => hneeded hrefused ⟨name, h, .inr rfl⟩
  rcases w.reply_cases t (r := .remove (f.path name)) (by simp) with hanswer | ⟨hrefused, -⟩
  · rw [hanswer] at hnot ⊢
    dsimp only [World.answer] at hnot ⊢
    cases hremove : w.disk.remove (f.path name) with
    | error e => rw [hremove] at hnot; exact absurd rfl hnot
    | ok d' => exact ⟨rfl, ho.remove_eq h hremove⟩
  · exact absurd hrefused hnot

/-- What is done behind an action that leaves the disk as it is. -/
theorem sweeping_then {α β : Type} {x : Action α} {g : α → Action β} {Q : β → Disk → Prop}
    (hx : x.Asks Request.LeavesDisk) (h : ∀ a, f.sweeping.logic.Sure (g a) Q d) :
    f.sweeping.logic.Sure (x >>= g) Q d :=
  hx.sure_then (fun _ => sweeping_leaves) h

/-- What is done behind telling something. -/
theorem sweeping_log {β : Type} {g : Unit → Action β} {Q : β → Disk → Prop} {level : LogLevel}
    {message : String} (h : f.sweeping.logic.Sure (g ()) Q d) :
    f.sweeping.logic.Sure (Action.log level message >>= g) Q d :=
  sweeping_then (Action.log_asks (fun _ => trivial) level message) fun _ => h

/-- **The names that were listed**, one after the other: no output file of one of them is left, none
that was there was missed in the count, and nothing else is changed. -/
theorem clearNames_sure {names : List String} (hnames : ∀ name ∈ names, Path.IsName name)
    (ho : f.Orderly d) :
    f.sweeping.logic.Sure (clearNames f.dir names)
      (fun x d' => f.Swept d d' ∧ (∀ name ∈ names, ¬ f.HasOutput d' name) ∧
        ∀ outputs : List String, outputs.Nodup →
          (∀ name, name ∈ outputs ↔ name ∈ names ∧ f.HasOutput d name) →
            x = (outputs.length, outputs.length)) d := by
  let L := f.sweeping.logic
  induction names generalizing d with
  | nil =>
      refine L.sure_pure ⟨.refl f d, nofun, fun outputs _ hmem => ?_⟩
      have hnil : outputs = [] := List.eq_nil_iff_forall_not_mem.mpr fun name hname =>
        absurd ((hmem name).mp hname).1 List.not_mem_nil
      rw [hnil]
      rfl
  | cons name names ih =>
      obtain ⟨hname, hnames⟩ := List.forall_mem_cons.mp hnames
      rw [clearNames]
      refine L.sure_then (look_sure ho hname) fun found d₁ hlook => ?_
      obtain ⟨rfl, hfound⟩ := hlook
      split
      · next hyes =>
        have houtput := hfound.mp hyes
        have herased := swept_erase houtput
        refine L.sure_then (remove_sure ho houtput) fun a d₂ hremoved => ?_
        obtain ⟨rfl, rfl⟩ := hremoved
        refine sweeping_log ?_
        refine L.sure_then (ih hnames (herased.orderly ho)) fun x d' hrest => L.sure_pure ?_
        obtain ⟨hswept, hgone, hcount⟩ := hrest
        refine ⟨herased.trans hswept, List.forall_mem_cons.mpr ⟨fun hleft => ?_, hgone⟩, ?_⟩
        · exact (hasOutput_erase.mp (hswept.hasOutput hleft)).1 rfl
        · intro outputs hnodup hmem
          have hmine : name ∈ outputs := (hmem name).mpr ⟨List.mem_cons_self, houtput⟩
          have hothers := hcount (outputs.erase name) (hnodup.erase name) fun name' => by
            rw [hnodup.mem_erase_iff, hmem, List.mem_cons, hasOutput_erase]
            tauto
          rw [hothers, ← List.length_erase_add_one hmine]
      · next hno =>
        have hnone : ¬ f.HasOutput d₁ name := fun houtput => hno (hfound.mpr houtput)
        refine L.sure_mono (fun x d' hrest => ?_) (ih hnames ho)
        obtain ⟨hswept, hgone, hcount⟩ := hrest
        refine ⟨hswept, List.forall_mem_cons.mpr ⟨fun hleft => hnone (hswept.hasOutput hleft),
          hgone⟩, fun outputs hnodup hmem => hcount outputs hnodup fun name' => ?_⟩
        rw [hmem, List.mem_cons]
        constructor
        · rintro ⟨rfl | hin, houtput⟩
          · exact absurd houtput hnone
          · exact ⟨hin, houtput⟩
        · rintro ⟨hin, houtput⟩
          exact ⟨.inr hin, houtput⟩

/-- The directory is cleared: no output file is left, all that were there are counted, and nothing
else is changed. -/
structure Cleared (f : Folder) (d d' : Disk) (removed : Nat) : Prop where
  swept : f.Swept d d'
  gone : ∀ name, ¬ f.HasOutput d' name
  count : ∀ outputs : List String, outputs.Nodup →
    (∀ name, name ∈ outputs ↔ f.HasOutput d name) → removed = outputs.length

/-- **Clearing a directory** that does not fail. -/
theorem clearDirectory_sure (ho : f.Orderly d) :
    f.sweeping.logic.Sure (clearDirectory f.dir)
      (fun x d' => ∀ removed, x = .ok removed → f.Cleared d d' removed) d := by
  let L := f.sweeping.logic
  have hleaves : ∀ dir, (Request.list dir).LeavesDisk := fun _ => trivial
  unfold clearDirectory
  refine sweeping_then (.bind (.request trivial) fun _ => .pure _) fun found => ?_
  cases found with
  | false => exact L.sure_pure nofun
  | true =>
  refine sweeping_then (Action.isOfKind_asks trivial _) fun isDirectory => ?_
  cases isDirectory with
  | false => exact L.sure_pure nofun
  | true =>
  refine L.sure_bind (f.sweeping.sure_request (.inl (hleaves f.dir)) fun a d₁ ha => ?_)
  obtain rfl := (sweeping_leaves (hleaves f.dir)).2 a d₁ ha
  obtain ⟨⟨w, t, rfl, rfl, -⟩, -⟩ := ha
  cases hlist : (w.reply t (.list f.dir)).1 with
  | error e => exact L.sure_pure nofun
  | ok names =>
  have hlisted : w.disk.list f.dir = .ok names := by
    rcases w.reply_cases t (r := .list f.dir) (by simp) with hanswer | ⟨hrefused, -⟩
    · rw [hanswer] at hlist
      exact hlist
    · rw [hlist] at hrefused
      cases hrefused
  have hmem : ∀ name, name ∈ names ↔ ∃ n, w.disk.node? (f.place name) = some n := fun _ =>
    ho.mem_list_iff hlisted
  have hnames : ∀ name ∈ names, Path.IsName name := fun name hname =>
    ho.named ((hmem name).mp hname).choose_spec
  refine L.sure_then (clearNames_sure hnames ho) fun counts d' hcounts => ?_
  obtain ⟨hswept, hgone, hcount⟩ := hcounts
  have hin : ∀ {name}, f.HasOutput w.disk name → name ∈ names := by
    rintro name ⟨-, t, ht⟩
    exact (hmem name).mpr ⟨_, ht⟩
  have hcleared : f.Cleared w.disk d' counts.2 := by
    refine ⟨hswept, fun name hleft => hgone name (hin (hswept.hasOutput hleft)) hleft, ?_⟩
    intro outputs hnodup houtputs
    rw [hcount outputs hnodup fun name => ?_]
    rw [houtputs]
    exact ⟨fun houtput => ⟨hin houtput, houtput⟩, fun h => h.2⟩
  have hresult : L.Sure (pure (.ok counts.2) : Action (Except PopulateError Nat))
      (fun x d' => ∀ removed, x = .ok removed → f.Cleared w.disk d' removed) d' := by
    refine L.sure_pure ?_
    rintro _ ⟨⟩
    exact hcleared
  dsimp only
  split
  · exact sweeping_log hresult
  · exact sweeping_log hresult

/-- **The preparation** of a run that is to clear its directory. -/
theorem prepare_sure {s : Settings} (hdir : f.dir = s.path) (hclears : s.clearPath = true)
    (ho : f.Orderly d) :
    f.sweeping.logic.Sure s.prepare
      (fun x d' => x.isOk → ∃ removed, f.Cleared d d' removed) d := by
  let L := f.sweeping.logic
  have hclear : L.Sure s.clear (fun x d' => x.isOk → ∃ removed, f.Cleared d d' removed) d := by
    unfold Settings.clear
    rw [if_pos hclears, ← hdir]
    refine sweeping_log (L.sure_then (clearDirectory_sure ho) fun x d' hx => ?_)
    cases x with
    | error e => exact L.sure_pure nofun
    | ok removed =>
        have hcleared := hx removed rfl
        dsimp only
        split
        · exact sweeping_log (L.sure_pure fun _ => ⟨removed, hcleared⟩)
        · exact L.sure_pure fun _ => ⟨removed, hcleared⟩
  unfold Settings.prepare
  refine sweeping_then s.compilePlan_asks fun compiled => ?_
  cases compiled with
  | error e => exact L.sure_pure nofun
  | ok compiled =>
      obtain ⟨schema, plan⟩ := compiled
      refine sweeping_then (tell_asks (fun _ => trivial) _) fun _ => ?_
      iterate 5 refine sweeping_log ?_
      refine L.sure_then hclear fun cleared d' hcleared => ?_
      cases cleared with
      | error e => exact L.sure_pure nofun
      | ok _ =>
          dsimp only
          split
          · exact sweeping_then (Settings.announceWorkers_asks (fun _ => trivial) s) fun _ =>
              L.sure_pure fun _ => hcleared rfl
          · exact L.sure_pure fun _ => hcleared rfl

/-! ## Clearing in a world -/

/-- **Clearing that comes to an end**, with nothing refused that was needed: what it comes to under
the rules. -/
theorem Orderly.run {α : Type} {x : Action α} {Q : α → Disk → Prop} {w w' : World}
    (ho : f.Orderly w.disk) (hx : f.sweeping.logic.Sure x Q w.disk) {ts : List Turn}
    {es : List Event} {a : α} (hrun : (Crew.lone x w).run ts = (es, Crew.lone (.done a) w'))
    (hneeded : ∀ e ∈ es, e.refused = true → ¬ f.Needs w.disk e.request) : Q a w'.disk := by
  have hanswered : ∀ (w₁ : World) (t : Turn) (r : Request) (d : Disk),
      (w₁.disk = d ∧ f.Swept w.disk d) → f.sweeping.Allowed d r →
        (r.isRefused (w₁.reply t r).1 = true → ¬ f.Needs w.disk r) →
          ∃ d', f.sweeping.Answers d r (w₁.reply t r).1 d' ∧
            (w₁.reply t r).2.disk = d' ∧ f.Swept w.disk d' := by
    rintro w₁ t r _ ⟨rfl, hswept⟩ hallowed hneeded
    refine ⟨_, ⟨⟨w₁, t, rfl, rfl, rfl⟩, fun hrefused hneeds => ?_⟩, rfl, ?_⟩
    · exact hneeded hrefused (hswept.needs hneeds)
    · exact hswept.trans ((hswept.orderly ho).swept_reply hallowed t)
  obtain ⟨_, ⟨rfl, -⟩, hend⟩ := Crew.lone_follows
    (P := fun e => e.refused = true → ¬ f.Needs w.disk e.request) hanswered ⟨rfl, .refl f w.disk⟩
    hx hrun hneeded
  exact hend

/-- Clearing a directory that is there does not fail in a world by itself. -/
theorem Orderly.clearDirectory_isOk {w : World} (ho : f.Orderly w.disk) :
    World.logic.Sure (clearDirectory f.dir) (fun x _ => x.isOk) w := by
  let L := World.logic
  have hkind : w.disk.kind f.dir = .ok .directory := by
    unfold Disk.kind
    rw [ho.found]
    rfl
  have hexists : L.Sure (Action.pathExists f.dir) (fun found w' => found = true ∧ w' = w) w := by
    refine L.sure_bind (World.sure_request (L.sure_pure ?_))
    rw [World.answer, hkind]
    exact ⟨rfl, rfl⟩
  have hdirectory : L.Sure (Action.isOfKind .directory f.dir)
      (fun found w' => found = true ∧ w' = w) w := by
    refine L.sure_bind (World.sure_request ?_)
    rw [World.answer, hkind]
    exact L.sure_pure ⟨rfl, rfl⟩
  unfold clearDirectory
  refine L.sure_then hexists fun found w₁ hfound => ?_
  obtain ⟨rfl, rfl⟩ := hfound
  refine L.sure_then hdirectory fun isDirectory w₂ hfound => ?_
  obtain ⟨rfl, rfl⟩ := hfound
  refine L.sure_bind (World.sure_request ?_)
  rw [World.answer, Disk.list_of_extends ho.found (.refl w₂.disk)]
  refine L.sure_then (World.logic_total _ _) fun counts _ _ => ?_
  dsimp only
  split
  · exact L.sure_then (World.logic_total _ _) fun _ _ _ => L.sure_pure rfl
  · exact L.sure_then (World.logic_total _ _) fun _ _ _ => L.sure_pure rfl

/-- A world with the directory refuses nothing that clearing needs, where the paths of all output
files are paths to the system. -/
theorem Orderly.not_needs_of_refused {w : World} (ho : f.Orderly w.disk)
    (hpaths : ∀ name, f.HasOutput w.disk name → Disk.TakesPath (f.path name) name) {r : Request}
    (hrefused : r.isRefused (w.answer r).1 = true) : ¬ f.Needs w.disk r := by
  rintro ⟨name, houtput, hr⟩
  have hpath := hpaths name houtput
  have hd := Disk.Extends.refl w.disk
  obtain ⟨-, t, ht⟩ := houtput
  rcases hr with rfl | rfl
  · rw [World.answer, path, Disk.kind_file ho.found hd (ho.named ht) hpath ht] at hrefused
    cases hrefused
  · rw [World.answer, path, Disk.remove_file ho.found hd (ho.named ht) hpath ht] at hrefused
    cases hrefused

/-- **Clearing that is carried out** where the paths of all output files are paths to the system: it
does not fail, and comes to what it comes to under the rules. -/
theorem Orderly.clearDirectory_run {w : World} (ho : f.Orderly w.disk)
    (hpaths : ∀ name, f.HasOutput w.disk name → Disk.TakesPath (f.path name) name) :
    ∃ removed, ((clearDirectory f.dir).run w).1 = .ok removed ∧
      f.Cleared w.disk ((clearDirectory f.dir).run w).2.disk removed := by
  have hanswered : ∀ (w₁ : World) (r : Request) (d : Disk),
      (w₁.disk = d ∧ f.Swept w.disk d) → f.sweeping.Allowed d r →
        ∃ d', f.sweeping.Answers d r (w₁.answer r).1 d' ∧
          (w₁.answer r).2.disk = d' ∧ f.Swept w.disk d' := by
    rintro w₁ r _ ⟨rfl, hswept⟩ hallowed
    have ho₁ := hswept.orderly ho
    have hstep := ho₁.swept_reply hallowed (.plain 0)
    rw [World.reply_plain] at hstep
    exact ⟨_, ⟨⟨w₁, .plain 0, rfl, by simp, by simp⟩, ho₁.not_needs_of_refused fun name houtput =>
      hpaths name (hswept.hasOutput houtput)⟩, rfl, hswept.trans hstep⟩
  obtain ⟨_, ⟨rfl, -⟩, hcleared⟩ := Rules.run hanswered ⟨rfl, .refl f w.disk⟩
    (clearDirectory_sure ho)
  have hisOk : ((clearDirectory f.dir).run w).1.isOk := ho.clearDirectory_isOk
  cases hx : ((clearDirectory f.dir).run w).1 with
  | error e =>
      rw [hx] at hisOk
      cases hisOk
  | ok removed => exact ⟨removed, rfl, hcleared removed hx⟩

end Folder

end SampleData
