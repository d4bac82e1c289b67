import SampleData.Proofs.NumberedFiles
import SampleData.Proofs.Turns

/-!
# Labels of outputs

Whatever is answered to a populator, the outputs that it comes to carry the numbers that it was to
write, in order, and if it names its files by number, the paths of these numbers.

* `Populator.writeFiles_labels`: a row of files.
* `runWorker_labels`: a worker.
-/

namespace SampleData

open Text

/-- The path of an output is that of its number, unless names are random. -/
def FileOutput.Named (naming : Naming) (dir : String) (o : FileOutput) : Prop :=
  naming.scheme.isRandom = false →
    o.path = Path.join dir (fileName (showUInt64 o.index) naming.base)

namespace Populator

/-- A file that was opened under a number. -/
theorem openOutput_path (naming : Naming) (dir : String) (index : UInt64) :
    Rules.free.logic.Sure (openOutput naming dir index)
      (fun x _ => ∀ path file, x = .ok (path, file) → naming.scheme.isRandom = false →
        path = Path.join dir (fileName (showUInt64 index) naming.base)) () := by
  let L := Rules.free.logic
  cases hscheme : naming.scheme.isRandom with
  | true => exact L.sure_mono (fun _ _ _ _ _ _ => nofun) (Rules.free_total _ ())
  | false =>
      unfold openOutput
      rw [if_neg (by rw [hscheme]; exact Bool.false_ne_true)]
      refine L.sure_bind (Rules.free.sure_request trivial ?_)
      intro a _ _
      cases a with
      | error e => exact L.sure_pure nofun
      | ok file =>
          refine L.sure_pure ?_
          rintro path _ ⟨⟩ _
          rfl

/-- Filling a file leaves the names as they were. -/
theorem fill_naming (p : Populator) (path : String) (file : Location) (lines : UInt64) :
    Rules.free.logic.Sure (p.fill path file lines) (fun x _ => x.2.naming = p.naming) () := by
  let L := Rules.free.logic
  unfold fill
  refine L.sure_then (Rules.free_total _ ()) fun x _ _ => ?_
  obtain ⟨outcome, g⟩ := x
  refine L.sure_bind (Rules.free.sure_request trivial fun _ _ _ => ?_)
  cases outcome with
  | error e => exact L.sure_pure rfl
  | ok rows =>
      refine L.sure_bind (Rules.free.sure_request trivial fun a _ _ => ?_)
      cases a with
      | error e => exact L.sure_pure rfl
      | ok bytes => exact L.sure_pure rfl

/-- One file. -/
theorem writeFile_label (p : Populator) (dir : String) (index lines : UInt64) :
    Rules.free.logic.Sure (p.writeFile dir index lines)
      (fun x _ => ∀ o, x.1 = .ok o →
        x.2.naming = p.naming ∧ o.index = index ∧ o.Named p.naming dir) () := by
  let L := Rules.free.logic
  unfold writeFile
  refine L.sure_bind (Rules.free.sure_request trivial fun started _ _ => ?_)
  refine L.sure_then (openOutput_path p.naming dir index) fun x _ hopened => ?_
  cases x with
  | error e => exact L.sure_pure nofun
  | ok file =>
      obtain ⟨path, file⟩ := file
      refine L.sure_then (fill_naming p path file lines) fun x _ hnaming => ?_
      obtain ⟨outcome, p'⟩ := x
      cases outcome with
      | error e => exact L.sure_pure nofun
      | ok sizes =>
          refine L.sure_bind (Rules.free.sure_request trivial fun ended _ _ => ?_)
          refine L.sure_pure ?_
          rintro _ ⟨⟩
          exact ⟨hnaming, rfl, hopened path file rfl⟩

/-- **A row of files**: the numbers are those that were asked for. -/
theorem writeFiles_labels (p : Populator) (dir : String) (i : Nat) (lines : UInt64) (count : Nat) :
    Rules.free.logic.Sure (p.writeFiles dir (UInt64.ofNat i) lines count)
      (fun x _ => ∀ outputs, x.1 = .ok outputs →
        outputs.map FileOutput.index = (List.range' i count).map UInt64.ofNat ∧
          ∀ o ∈ outputs, o.Named p.naming dir) () := by
  let L := Rules.free.logic
  induction count generalizing p i with
  | zero =>
      refine L.sure_pure ?_
      rintro _ ⟨⟩
      exact ⟨rfl, nofun⟩
  | succ count ih =>
      rw [writeFiles]
      refine L.sure_then (writeFile_label p dir _ lines) fun x _ hfile => ?_
      obtain ⟨outcome, p'⟩ := x
      cases outcome with
      | error e => exact L.sure_pure nofun
      | ok o =>
          obtain ⟨hnaming, hindex, hnamed⟩ := hfile o rfl
          have hnext : UInt64.ofNat i + 1 = UInt64.ofNat (i + 1) := by
            rw [UInt64.ofNat_add]
            rfl
          rw [hnext]
          refine L.sure_then (ih p' (i + 1)) fun x _ hrest => ?_
          obtain ⟨outcome, p''⟩ := x
          cases outcome with
          | error e => exact L.sure_pure nofun
          | ok outputs =>
              obtain ⟨hindices, hall⟩ := hrest outputs rfl
              rw [hnaming] at hall
              refine L.sure_pure ?_
              rintro _ ⟨⟩
              refine ⟨?_, List.forall_mem_cons.mpr ⟨hnamed, hall⟩⟩
              rw [List.map_cons, hindex, hindices, List.range'_succ, List.map_cons]

end Populator

/-- Outputs with numbers in order that are named by them carry the labels of the numbers. -/
theorem Folder.labels_of_named (f : Folder) {base : String} {outputs : List FileOutput} {i n : Nat}
    (hn : i + n ≤ 2 ^ 64)
    (hindices : outputs.map FileOutput.index = (List.range' i n).map UInt64.ofNat)
    (hnamed : ∀ o ∈ outputs, o.Named ⟨base, .count⟩ f.dir) :
    outputs.map FileOutput.label = (List.range' i n).map (f.label base) := by
  have hlabels : outputs.map FileOutput.label = (outputs.map FileOutput.index).map fun index =>
      (index, Path.join f.dir (fileName (showUInt64 index) base)) := by
    rw [List.map_map]
    exact List.map_congr_left fun o ho => Prod.ext rfl (hnamed o ho rfl)
  rw [hlabels, hindices, List.map_map]
  refine List.map_congr_left fun j hj => ?_
  have hlt : j < 2 ^ 64 := (List.mem_range'_1.mp hj).2.trans_le hn
  rw [Function.comp_apply, Folder.label, Folder.path, fileName_ofNat hlt]

/-- **A worker**, whatever is answered to it, comes to the outputs of its numbers or to an error. -/
theorem runWorker_labels (f : Folder) (base : String) (plan : Plan) (lines : UInt64)
    {a : Assignment} (ha : a.start.toNat + a.count.toNat ≤ 2 ^ 64) :
    (runWorker plan f.dir ⟨base, .count⟩ lines a).Meets .free
      (fun x _ => ∀ outputs, x = .ok outputs → outputs.map FileOutput.label =
        (List.range' a.start.toNat a.count.toNat).map (f.label base)) () := by
  let L := Rules.free.logic
  show L.Sure (runWorker plan f.dir ⟨base, .count⟩ lines a) _ ()
  unfold runWorker
  refine L.sure_then (Rules.free_total _ ()) fun source _ _ => ?_
  have hfiles := Populator.writeFiles_labels ⟨⟨plan, source⟩, ⟨base, .count⟩⟩ f.dir
    a.start.toNat lines a.count.toNat
  rw [UInt64.ofNat_toNat] at hfiles
  refine L.sure_then hfiles fun x _ hx => L.sure_pure fun outputs hok => ?_
  obtain ⟨hindices, hnamed⟩ := hx outputs hok
  exact f.labels_of_named ha hindices hnamed

end SampleData
