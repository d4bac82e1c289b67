import SampleData.Proofs.NumberedFiles
import SampleData.Proofs.OpenedFiles
import SampleData.Proofs.Requests

/-!
# Where there is no directory

A path goes through everything that stands before its last name, so no file is opened under a name
in a directory that is not there. Numbered files come to nothing then, and the disk stays as it is,
whoever has the next turn.

* `Disk.find_of_resolve_join`: what is resolved in a directory shows that the directory is there.
* `Disk.create_missing`: no file is opened there otherwise.
* `Rules.barred`: what surroundings without the directory do.
* `Crew.barred_run`, `workerCrew_barred`: workers leave the disk as it is.
-/

namespace SampleData

namespace Disk

variable {d : Disk}

/-- A way goes on through an empty part. -/
theorem Leads.append_empty {links left : Nat} {loc home : Location} {ps : List String}
    (h : d.Leads links loc ps home left) : d.Leads links loc (ps ++ [""]) home left := by
  induction h with
  | here links loc => exact .stay (.inl rfl) (.here links loc)
  | stay hpart _ ih => exact .stay hpart ih
  | up _ ih => exact .up ih
  | down hentry hnode _ ih => exact .down hentry hnode ih
  | jump hentry hnode _ ih =>
      rw [List.append_assoc] at ih
      exact .jump hentry hnode ih

/-- To look along a way is to find the directory at its end. -/
theorem Leads.walk_look {links left : Nat} {loc home : Location} {ps : List String}
    (h : d.Leads links loc ps home left) :
    d.walk .look links loc ps = .ok (.present home .directory) := by
  induction h with
  | here links loc => exact walk_nil
  | stay hpart _ ih => rw [walk_stay hpart, ih]
  | up _ ih => rw [walk_up, ih]
  | down hentry hnode _ ih => rw [walk_down hentry hnode (.inl rfl), ih]
  | jump hentry hnode _ ih => rw [walk_jump hentry hnode (.inl rfl), ih]

/-- A walk to a name goes a way to a directory first. -/
theorem leads_of_walk_append {purpose : Purpose} {links : Nat} {loc : Location} {ps : List String}
    {name : String} {target : Target} (hname : name ≠ "")
    (h : d.walk purpose links loc (ps ++ [name]) = .ok target) :
    ∃ home left, d.Leads links loc ps home left := by
  cases ps with
  | nil => exact ⟨loc, links, .here links loc⟩
  | cons part rest =>
      have hnamed : (rest ++ [name]).all (· = "") ≠ true := by simp [hname]
      rw [List.cons_append] at h
      cases step_of_walk h with
      | stay hpart h =>
          obtain ⟨home, left, hleads⟩ := leads_of_walk_append hname h
          exact ⟨home, left, .stay hpart hleads⟩
      | up hdots h =>
          obtain ⟨home, left, hleads⟩ := leads_of_walk_append hname h
          exact ⟨home, left, hdots ▸ .up hleads⟩
      | down hentry hnode h =>
          obtain ⟨home, left, hleads⟩ := leads_of_walk_append hname h
          exact ⟨home, left, .down hentry hnode hleads⟩
      | jump hlinks hentry hnode h =>
          rw [← List.append_assoc] at h
          obtain ⟨home, left, hleads⟩ := leads_of_walk_append hname h
          exact ⟨home, left, hlinks ▸ .jump hentry hnode hleads⟩
      | free _ _ hlast => exact absurd hlast hnamed
      | entry _ _ hlast => exact absurd hlast hnamed
      | stop _ _ hrest => exact absurd hrest (by simp)
termination_by (links, ps.length)

/-- What is left of a path is one, unless it is nothing. -/
theorem IsPath.of_append {path rest : String} (h : IsPath (path ++ rest)) (hpath : path ≠ "") :
    IsPath path where
  no_nul := by
    have hnul := h.no_nul
    rw [String.toList_append, List.contains_append, Bool.or_eq_false_iff] at hnul
    exact hnul.1
  ne_empty := hpath
  size := by
    have hsize := h.size
    rw [String.utf8ByteSize_append] at hsize
    omega

/-- **Where a name in a directory is resolved, the directory is there.** -/
theorem find_of_resolve_join {dir name : String} {purpose : Purpose} {target : Target}
    (hdir : dir ≠ "") (hname : Path.IsName name)
    (h : d.resolve purpose (Path.join dir name) = .ok target) :
    ∃ home, d.find dir = .ok (home, .directory) := by
  have hway : ∃ home left, d.Leads maxLinks
      (if Path.isAbsolute dir then [] else d.current) (Path.parts dir) home left := by
    have hwalk := walk_of_resolve h
    rw [Path.isAbsolute_join hdir hname] at hwalk
    rcases Path.parts_join hdir hname with hparts | ⟨ps, hps, hparts⟩
    · rw [hparts] at hwalk
      exact leads_of_walk_append hname.ne_empty hwalk
    · rw [hparts] at hwalk
      obtain ⟨home, left, hleads⟩ := leads_of_walk_append hname.ne_empty hwalk
      exact ⟨home, left, hps ▸ hleads.append_empty⟩
  obtain ⟨home, left, hleads⟩ := hway
  obtain ⟨slash, hslash⟩ := Path.exists_join_eq hdir hname
  rw [hslash] at h
  have hpath := (isPath_of_resolve h).of_append hdir
  exact ⟨home, by rw [find, hpath.resolve_eq, hleads.walk_look]⟩

/-- No name is resolved in a directory that is not there. -/
theorem resolve_missing {dir name : String} (hdir : dir ≠ "")
    (hmissing : ∀ home, d.find dir ≠ .ok (home, .directory)) (hname : Path.IsName name)
    (purpose : Purpose) : ∃ e, d.resolve purpose (Path.join dir name) = .error e := by
  cases hr : d.resolve purpose (Path.join dir name) with
  | error e => exact ⟨e, rfl⟩
  | ok target =>
      obtain ⟨home, hfound⟩ := find_of_resolve_join hdir hname hr
      exact absurd hfound (hmissing home)

/-- No file is opened there. -/
theorem create_missing {dir name : String} (hdir : dir ≠ "")
    (hmissing : ∀ home, d.find dir ≠ .ok (home, .directory)) (hname : Path.IsName name)
    (fresh : Bool) : (d.create (Path.join dir name) fresh).isOk = false := by
  obtain ⟨e, he⟩ := resolve_missing hdir hmissing hname { follow := !fresh, writing := true }
  rw [create, he]
  rfl

end Disk

/-! ## Workers -/

/-- Files may be opened under names in a directory, and none of them is. Else only what is never
refused may be asked for. -/
def Rules.barred (dir : String) : Rules Unit where
  Allowed _ r := (∀ e, r.refusal? e = none) ∨
    ∃ name fresh, Path.IsName name ∧ r = .create (Path.join dir name) fresh
  Answers _ r a _ := ∀ path fresh, r = .create path fresh → r.isRefused a = true

section workers

variable {dir base : String}

/-- A world without the directory answers so, and stays as it is. -/
theorem World.reply_barred {w : World} (hdir : dir ≠ "")
    (hmissing : ∀ home, w.disk.find dir ≠ .ok (home, .directory)) {r : Request}
    (hallowed : (Rules.barred dir).Allowed () r) (t : Turn) :
    (w.reply t r).2.disk = w.disk ∧ (Rules.barred dir).Answers () r (w.reply t r).1 () := by
  rcases hallowed with hquiet | ⟨name, fresh, hname, rfl⟩
  · refine ⟨w.disk_reply t hquiet, ?_⟩
    rintro path fresh rfl
    cases hquiet .noEntry
  · rcases w.reply_cases t (r := .create (Path.join dir name) fresh) (by simp) with
      hanswer | ⟨hrefused, hworld⟩
    · have hopen := Disk.create_missing hdir hmissing hname fresh
      rw [hanswer, answer]
      cases hcreate : w.disk.create (Path.join dir name) fresh with
      | error e => exact ⟨rfl, fun _ _ _ => rfl⟩
      | ok opened =>
          rw [hcreate] at hopen
          cases hopen
    · rw [hworld]
      refine ⟨rfl, ?_⟩
      rintro _ _ ⟨⟩
      exact hrefused

/-- A numbered file is not opened. -/
theorem Populator.openOutput_barred (hbase : '/' ∉ base.toList) (index : UInt64) :
    (Rules.barred dir).logic.Sure (openOutput ⟨base, .count⟩ dir index)
      (fun x _ => x.isOk = false) () := by
  let L := (Rules.barred dir).logic
  unfold openOutput
  rw [if_neg (by decide : ¬ NameScheme.count.isRandom = true)]
  have hname : Path.IsName (fileName (Text.showUInt64 index) base) :=
    isName_numberedName hbase index.toNat
  refine L.sure_bind ((Rules.barred dir).sure_request (.inr ⟨_, _, hname, rfl⟩) ?_)
  intro a _ ha
  cases a with
  | error e => exact L.sure_pure rfl
  | ok file => cases ha _ _ rfl

/-- The first file that a populator is to write fails. -/
theorem Populator.writeFiles_barred (hbase : '/' ∉ base.toList) (g : Generator)
    (start lines : UInt64) (count : Nat) :
    (Rules.barred dir).logic.Sure (Populator.writeFiles ⟨g, ⟨base, .count⟩⟩ dir start lines count)
      (fun x _ => x.1.isOk = true → count = 0) () := by
  let L := (Rules.barred dir).logic
  cases count with
  | zero => exact L.sure_pure fun _ => rfl
  | succ count =>
      have hfile : L.Sure (Populator.writeFile ⟨g, ⟨base, .count⟩⟩ dir start lines)
          (fun x _ => x.1.isOk = false) () := by
        unfold writeFile
        refine L.sure_bind ((Rules.barred dir).sure_request (.inl fun _ => rfl) fun _ _ _ => ?_)
        refine L.sure_then (openOutput_barred hbase start) fun x _ hx => ?_
        cases x with
        | error e => exact L.sure_pure rfl
        | ok opened => cases hx
      rw [writeFiles]
      refine L.sure_then hfile fun x _ hx => ?_
      obtain ⟨outcome, p⟩ := x
      cases outcome with
      | error e => exact L.sure_pure nofun
      | ok output => cases hx

/-- An assignment with files is not written. -/
theorem Assignment.write_barred (hbase : '/' ∉ base.toList) (plan : Plan) (lines : UInt64)
    (a : Assignment) (source : ChaCha) :
    (a.write plan dir ⟨base, .count⟩ lines source).Meets (.barred dir)
      (fun x _ => x.isOk = true → a.count.toNat = 0) () := by
  let L := (Rules.barred dir).logic
  refine L.sure_then (Populator.writeFiles_barred hbase _ a.start lines a.count.toNat) ?_
  exact fun x _ hx => L.sure_pure hx

/-- A source may be asked for. -/
theorem Rules.barred_sources (t : Unit) (r : Request) (hr : r = .now ∨ r = .entropy) :
    (Rules.barred dir).Allowed t r ∧ ∀ a t', (Rules.barred dir).Answers t r a t' → t' = t := by
  rcases hr with rfl | rfl
  · exact ⟨.inl fun _ => rfl, fun _ _ _ => rfl⟩
  · exact ⟨.inl fun _ => rfl, fun _ _ _ => rfl⟩

/-- A worker that has files to write fails. -/
theorem runWorker_barred (hbase : '/' ∉ base.toList) (plan : Plan) (lines : UInt64)
    (a : Assignment) :
    (runWorker plan dir ⟨base, .count⟩ lines a).Meets (.barred dir)
      (fun x _ => x.isOk = true → a.count.toNat = 0) () := by
  let L := (Rules.barred dir).logic
  exact L.sure_then (a.source_sure Rules.barred_sources ()) fun source _ _ =>
    a.write_barred hbase plan lines source

/-- So does every worker that has files to write if they go one after the other. -/
theorem runWorkers_barred (hbase : '/' ∉ base.toList) (plan : Plan) (lines : UInt64)
    (as : List Assignment) :
    (runWorkers plan dir ⟨base, .count⟩ lines as).Meets (.barred dir)
      (fun results _ => ∀ outputs : List (List FileOutput),
        results.map Prod.snd = outputs.map .ok → ∀ a ∈ as, a.count.toNat = 0) () := by
  let L := (Rules.barred dir).logic
  show L.Sure (runWorkers plan dir ⟨base, .count⟩ lines as) _ ()
  induction as with
  | nil => exact L.sure_pure fun _ _ => nofun
  | cons a as ih =>
      rw [runWorkers]
      refine L.sure_then (runWorker_barred hbase plan lines a) fun x _ hx => ?_
      refine L.sure_then ih fun results _ hrest => L.sure_pure fun outputs hok => ?_
      cases outputs with
      | nil => cases hok
      | cons os outputs =>
          obtain ⟨hfirst, hfollowing⟩ := List.cons.inj hok
          refine List.forall_mem_cons.mpr ⟨hx ?_, hrest outputs hfollowing⟩
          rw [show x = .ok os from hfirst]
          rfl

/-- **Actions that are barred** leave the disk as it is, whoever has the next turn and whatever else
is refused, and come to what they come to then. -/
theorem Crew.barred_run {α : Type} (hdir : dir ≠ "") {c : Crew α}
    (hmissing : ∀ home, c.world.disk.find dir ≠ .ok (home, .directory)) {Q : Nat → α → Unit → Prop}
    (hc : ∀ (k : Nat) x, c.actions[k]? = some x → x.Meets (.barred dir) (Q k) ())
    (ts : List Turn) : (c.run ts).2.world.disk = c.world.disk ∧
      ∀ (k : Nat) x, (c.run ts).2.actions[k]? = some x → x.Meets (.barred dir) (Q k) () := by
  refine Crew.keeps_run (I := fun w' => w'.disk = c.world.disk) ?_ rfl hc ts
  intro w' t r hw' hallowed
  rw [← hw'] at hmissing ⊢
  exact World.reply_barred hdir hmissing hallowed t

/-- **Workers without a directory** leave the disk as it is, whoever has the next turn and whatever
else is refused, and each that has files to write fails. -/
theorem workerCrew_barred (hdir : dir ≠ "") (hbase : '/' ∉ base.toList) {w : World}
    (hmissing : ∀ home, w.disk.find dir ≠ .ok (home, .directory)) (plan : Plan) (lines : UInt64)
    (as : List Assignment) (ts : List Turn) :
    ((workerCrew plan dir ⟨base, .count⟩ lines as w).run ts).2.world.disk = w.disk ∧
    ∀ (k : Nat) (a : Assignment) x, as[k]? = some a →
      ((workerCrew plan dir ⟨base, .count⟩ lines as w).run ts).2.actions[k]? = some (.done x) →
        x.isOk = true → a.count.toNat = 0 := by
  have hworkers : ∀ (k : Nat) x,
      (workerCrew plan dir ⟨base, .count⟩ lines as w).actions[k]? = some x → x.Meets (.barred dir)
        (fun x _ => ∀ a, as[k]? = some a → x.isOk = true → a.count.toNat = 0) () := by
    intro k x hx
    rw [workerCrew, List.getElem?_map, Option.map_eq_some_iff] at hx
    obtain ⟨a, hk, rfl⟩ := hx
    refine (Rules.barred dir).logic.sure_mono (fun x _ hx a' hk' => ?_)
      (runWorker_barred hbase plan lines a)
    obtain rfl : a = a' := Option.some.inj (hk.symm.trans hk')
    exact hx
  obtain ⟨hleft, hends⟩ := Crew.barred_run hdir hmissing hworkers ts
  exact ⟨hleft, fun k a x hk hx => hends k _ hx a hk⟩

end workers

end SampleData
