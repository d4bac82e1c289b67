import SampleData.Proofs.NumberedFiles
import SampleData.Proofs.OpenedFiles

/-!
# Files of a run

A run of a populator that succeeds has opened one file after the other, whatever they are called and
wherever their paths lead, and has put the next records of its generator at the end of each. Of a
file that was overwritten by a later one nothing is left; of one with a place of its own all is.
Files under random names have places of their own unless a name that was taken was overwritten,
which is told.

* `World.logic`: statements on actions in a world.
* `FileWritten`, `FilesWritten`: what one file of a run does, and a row of them.
* `Populator.writeFiles_written`: what a run that succeeds has done.
* `FilesWritten.node?_eq`: files with places of their own hold their records.
* `FilesWritten.fresh`: files that were opened fresh have places of their own.
-/

namespace SampleData

open JsonLines

/-! ## Actions in a world -/

/-- Statements on what actions come to in a world. -/
def World.logic : ProgramLogic Action World where
  Sure x Q w := Q (x.run w).1 (x.run w).2
  sure_pure h := h
  sure_bind := by
    intro α β x f Q w h
    show Q ((x.bind f).run w).1 ((x.bind f).run w).2
    rw [Action.run_bind]
    exact h
  sure_mono h := h _ _

theorem World.logic_total : World.logic.Total := fun _ _ => trivial

/-- A request is answered by the world. -/
theorem World.sure_request {r : Request} {w : World} {Q : r.Answer → World → Prop}
    (h : Q (w.answer r).1 (w.answer r).2) : World.logic.Sure (Action.request r) Q w := h

/-- Reading the timer changes no world. -/
theorem World.still_timer : World.logic.Still (Action.request .timer) := fun _ => rfl

/-- What is sure holds at the end of a run. -/
theorem World.of_run {α : Type} {x : Action α} {w w' : World} {a : α} {Q : α → World → Prop}
    (h : World.logic.Sure x Q w) (hrun : x.run w = (a, w')) : Q a w' := by
  have hend : Q (x.run w).1 (x.run w).2 := h
  rwa [hrun] at hend

/-! ## Filling -/

/-- An open file keeps what it takes, and a device takes note of nothing. -/
theorem fileSink_puts (d : Disk) (loc : Location) (n : Node) (logged : List LogEvent)
    (whole : String) :
    (fileSink loc).Keeps World.logic
      (fun t w => d.Puts loc (n.holding t) w.disk ∧ w.logged = logged) (fun _ _ => True) whole where
  take := by
    rintro taken chunk rest w - ⟨hputs, hlogged⟩
    apply World.sure_request
    dsimp only [World.answer]
    cases happend : w.disk.append loc chunk with
    | error e => exact trivial
    | ok d' => exact ⟨hputs.append happend, hlogged⟩
  again := by
    rintro taken chunk rest w - -
    apply World.sure_request
    split <;> exact trivial

namespace Populator

variable {p : Populator} {w : World} {d : Disk} {loc : Location} {n : Node} {lines : UInt64}

/-- A file that was filled holds the next records of the generator. -/
theorem fill_written (hplan : p.generator.plan.hasTimestamp = false) (hn : n.holding "" = n)
    (hputs : d.Puts loc n w.disk) (path : String) :
    World.logic.Sure (p.fill path loc lines)
      (fun x w' => x.1.isOk → x.2.naming = p.naming ∧ w'.logged = w.logged ∧
        ∃ rs, rs.length = lines.toNat ∧ Gives Generator.nextAction p.generator rs x.2.generator ∧
          d.Puts loc (n.holding (text rs)) w'.disk) w := by
  let L := World.logic
  have hnext : ∀ g : Generator, g.plan.hasTimestamp = false →
      ∃ x, g.nextAction = pure x ∧ x.2.plan.hasTimestamp = false := by
    intro g hg
    exact ⟨g.next fun _ => .zero, Generator.nextAction_eq_pure hg _, by
      simp [hg]⟩
  have hlines := writeTimed_gives World.still_timer (fileSink_puts d loc n w.logged) hnext
    lines.toNat hplan (s := w) ⟨by rw [hn]; exact hputs, rfl⟩
  unfold fill
  refine L.sure_then hlines fun x w₁ hx => ?_
  obtain ⟨outcome, g⟩ := x
  refine L.sure_bind (World.sure_request ?_)
  cases outcome with
  | error e => exact L.sure_pure nofun
  | ok rows =>
      obtain ⟨rs, hlen, hgives, hputs', hlogged⟩ := hx rfl
      refine L.sure_bind (World.sure_request ?_)
      dsimp only [World.answer]
      cases w₁.disk.size path with
      | error e => exact L.sure_pure nofun
      | ok bytes => exact L.sure_pure fun _ => ⟨rfl, hlogged, rs, hlen, hgives, hputs'⟩

/-! ## Opening -/

/-- A file under a random name is fresh, unless a name was overwritten and that was told. -/
theorem openFresh_opened (naming : Naming) (dir : String) (index : UInt64) (attempts : Nat)
    (w : World) :
    World.logic.Sure (openFresh naming dir index attempts)
      (fun x w' => w.logged <+: w'.logged ∧ ∀ path loc, x = .ok (path, loc) →
        ∃ fresh, w.disk.Opened path fresh loc w'.disk ∧
          (w'.logged = w.logged → fresh = true)) w := by
  let L := World.logic
  induction attempts generalizing w with
  | zero => exact L.sure_pure ⟨List.prefix_rfl, nofun⟩
  | succ attempts ih =>
      unfold openFresh
      refine L.sure_bind (World.sure_request ?_)
      dsimp only [World.answer]
      split
      · exact L.sure_pure ⟨List.prefix_rfl, nofun⟩
      · next name _ =>
        refine L.sure_bind (World.sure_request ?_)
        dsimp only [World.answer, World.changed]
        cases hcreate : w.disk.create (Path.join dir name) true with
        | ok created =>
            obtain ⟨loc, d'⟩ := created
            refine L.sure_pure ⟨List.prefix_rfl, ?_⟩
            rintro _ _ ⟨⟩
            exact ⟨true, Disk.opened_of_create hcreate, fun _ => rfl⟩
        | error e =>
            by_cases he : e = .exists
            · subst he
              dsimp only
              split
              · refine L.sure_bind (World.sure_request ?_)
                refine L.sure_bind (World.sure_request ?_)
                dsimp only [World.answer, World.changed]
                cases hreuse : w.disk.create (Path.join dir name) false with
                | ok created =>
                    obtain ⟨loc, d'⟩ := created
                    refine L.sure_pure ⟨List.prefix_append _ _, ?_⟩
                    rintro _ _ ⟨⟩
                    refine ⟨false, Disk.opened_of_create hreuse, fun hlogged => ?_⟩
                    exact absurd hlogged (by simp)
                | error e => exact L.sure_pure ⟨List.prefix_append _ _, nofun⟩
              · exact ih { w with keys := (World.drawKey w.keys).2 }
            · dsimp only
              split
              · next hok => cases hok
              · next hexists => exact absurd (Except.error.inj hexists) he
              · exact L.sure_pure ⟨List.prefix_rfl, nofun⟩

/-- The file with a given number. -/
theorem openOutput_opened (naming : Naming) (dir : String) (index : UInt64) (w : World) :
    World.logic.Sure (openOutput naming dir index)
      (fun x w' => w.logged <+: w'.logged ∧ ∀ path loc, x = .ok (path, loc) →
        ∃ fresh, w.disk.Opened path fresh loc w'.disk ∧
          (naming.scheme.isRandom = true → w'.logged = w.logged → fresh = true)) w := by
  let L := World.logic
  unfold openOutput
  split
  · refine L.sure_mono (fun x w' hx => ⟨hx.1, fun path loc hok => ?_⟩)
      (openFresh_opened naming dir index maxNameAttempts w)
    obtain ⟨fresh, hopened, hfresh⟩ := hx.2 path loc hok
    exact ⟨fresh, hopened, fun _ => hfresh⟩
  · next hnumbered =>
    dsimp only
    refine L.sure_bind (World.sure_request ?_)
    dsimp only [World.answer, World.changed]
    cases hcreate : w.disk.create _ false with
    | error e => exact L.sure_pure ⟨List.prefix_rfl, nofun⟩
    | ok created =>
        obtain ⟨loc, d'⟩ := created
        refine L.sure_pure ⟨List.prefix_rfl, ?_⟩
        rintro _ _ ⟨⟩
        exact ⟨false, Disk.opened_of_create hcreate, fun hrandom => absurd hrandom hnumbered⟩

end Populator

/-! ## One file -/

/-- A file of a run: its output, its place and its records. -/
structure WrittenFile where
  output : FileOutput
  place : Location
  records : List Record

/-- What writing a file does to the disk and the generator. Unless places may be overwritten, the
file was opened fresh. -/
structure FileWritten (reuse : Bool) (d : Disk) (g : Generator) (f : WrittenFile) (d' : Disk)
    (g' : Generator) : Prop where
  gives : Gives Generator.nextAction g f.records g'
  puts : ∃ n : Node, ¬ n.IsWay ∧ d.Puts f.place (n.holding (text f.records)) d' ∧
    (reuse = false → n = .file "" ∧ d.node? f.place = none)
  no_way : ∀ n, d.node? f.place = some n → ¬ n.IsWay
  leads : ∀ d'' n, d'.Extends d'' → d''.node? f.place = some n → ¬ n.IsWay →
    d''.find f.output.path = .ok (f.place, n)

/-- Of a node that is no way there comes none. -/
theorem Node.not_isWay_holding {n : Node} (h : ¬ n.IsWay) (t : String) : ¬ (n.holding t).IsWay := by
  cases n with
  | file => exact nofun
  | directory | link | nullDevice | fullDevice => exact h

namespace FileWritten

variable {reuse : Bool} {d d' : Disk} {g g' : Generator} {f : WrittenFile}

/-- Directories and links stay. -/
theorem extends_disk (h : FileWritten reuse d g f d' g') : d.Extends d' := by
  obtain ⟨n, -, hputs, -⟩ := h.puts
  exact hputs.extends_disk h.no_way

/-- So do files and devices, but perhaps for their texts. -/
theorem stays (h : FileWritten reuse d g f d' g') {place : Location}
    (hplace : ∃ m, d.node? place = some m ∧ ¬ m.IsWay) :
    ∃ m, d'.node? place = some m ∧ ¬ m.IsWay := by
  obtain ⟨n, hn, hputs, -⟩ := h.puts
  by_cases heq : place = f.place
  · rw [heq]
    exact ⟨_, hputs.here, Node.not_isWay_holding hn _⟩
  · rw [hputs.others place heq]
    exact hplace

/-- The file is there. -/
theorem node? (h : FileWritten reuse d g f d' g') :
    ∃ m, d'.node? f.place = some m ∧ ¬ m.IsWay := by
  obtain ⟨n, hn, hputs, -⟩ := h.puts
  exact ⟨_, hputs.here, Node.not_isWay_holding hn _⟩

end FileWritten

/-- **One file** of a run that succeeds. -/
theorem Populator.writeFile_written {p : Populator}
    (hplan : p.generator.plan.hasTimestamp = false) (dir : String) (index lines : UInt64)
    (w : World) :
    World.logic.Sure (p.writeFile dir index lines)
      (fun x w' => ∀ o, x.1 = .ok o → x.2.naming = p.naming ∧
        x.2.generator.plan.hasTimestamp = false ∧ w.logged <+: w'.logged ∧
        ∃ f, f.output = o ∧ f.records.length = lines.toNat ∧ ∀ reuse,
          (reuse = true ∨ p.naming.scheme.isRandom = true ∧ w'.logged = w.logged) →
            FileWritten reuse w.disk p.generator f w'.disk x.2.generator) w := by
  let L := World.logic
  unfold writeFile
  refine L.sure_bind (World.sure_request ?_)
  refine L.sure_then (openOutput_opened p.naming dir index w) fun x w₁ hx => ?_
  obtain ⟨hgrows, hopened⟩ := hx
  cases x with
  | error e => exact L.sure_pure nofun
  | ok file =>
      obtain ⟨path, loc⟩ := file
      obtain ⟨fresh, ⟨⟨n, hn, hway, hputs, hfresh⟩, hno, hleads⟩, hrandom⟩ := hopened path loc rfl
      refine L.sure_then (fill_written hplan hn (Disk.puts_self hputs.here) path) fun x w₂ hx => ?_
      obtain ⟨outcome, p'⟩ := x
      cases outcome with
      | error e => exact L.sure_pure nofun
      | ok sizes =>
          obtain ⟨hnaming, hlogged, rs, hlen, hgives, hfilled⟩ := hx rfl
          refine L.sure_bind (World.sure_request ?_)
          refine L.sure_pure ?_
          rintro _ ⟨⟩
          have hplan' : p'.generator.plan.hasTimestamp = false := by
            rw [Generator.plan_of_gives hplan hgives, hplan]
          have hextends : w.disk.Extends w₂.disk := (hputs.trans hfilled).extends_disk hno
          refine ⟨hnaming, hplan', hlogged ▸ hgrows, ⟨_, loc, rs⟩, rfl, hlen, ?_⟩
          intro reuse hreuse
          refine ⟨hgives, ⟨n, hway, hputs.trans hfilled, fun hfalse => hfresh ?_⟩, hno, ?_⟩
          · have hno : reuse ≠ true := by simp [hfalse]
            obtain ⟨hscheme, hsame⟩ := hreuse.resolve_left hno
            exact hrandom hscheme (hlogged ▸ hsame)
          · intro d'' m hd hm hm'
            exact hleads d'' m (hextends.trans hd) hm hm'

/-! ## A row of files -/

/-- Files of a run, one after the other. -/
inductive FilesWritten (reuse : Bool) :
    Disk → Generator → List WrittenFile → Disk → Generator → Prop
  | nil (d : Disk) (g : Generator) : FilesWritten reuse d g [] d g
  | cons {d d₁ d' : Disk} {g g₁ g' : Generator} {f : WrittenFile} {fs : List WrittenFile}
      (h : FileWritten reuse d g f d₁ g₁) (hrest : FilesWritten reuse d₁ g₁ fs d' g') :
      FilesWritten reuse d g (f :: fs) d' g'

/-- **A run that succeeds** has written its files one after the other; if names are random and
nothing was told, all of them were opened fresh. -/
theorem Populator.writeFiles_written {p : Populator}
    (hplan : p.generator.plan.hasTimestamp = false) (dir : String) (start lines : UInt64)
    (count : Nat) (w : World) :
    World.logic.Sure (p.writeFiles dir start lines count)
      (fun x w' => ∀ outputs, x.1 = .ok outputs → w.logged <+: w'.logged ∧
        ∃ fs, fs.map WrittenFile.output = outputs ∧ fs.length = count ∧
          (∀ f ∈ fs, f.records.length = lines.toNat) ∧ ∀ reuse,
            (reuse = true ∨ p.naming.scheme.isRandom = true ∧ w'.logged = w.logged) →
              FilesWritten reuse w.disk p.generator fs w'.disk x.2.generator) w := by
  let L := World.logic
  induction count generalizing p start w with
  | zero =>
      refine L.sure_pure ?_
      rintro _ ⟨⟩
      exact ⟨List.prefix_rfl, [], rfl, rfl, nofun, fun reuse _ => .nil _ _⟩
  | succ count ih =>
      rw [writeFiles]
      refine L.sure_then (writeFile_written hplan dir start lines w) fun x w₁ hfile => ?_
      obtain ⟨outcome, p₁⟩ := x
      cases outcome with
      | error e => exact L.sure_pure nofun
      | ok o =>
          obtain ⟨hnaming, hplan₁, hgrows, f, rfl, hlen, hwritten⟩ := hfile _ rfl
          refine L.sure_then (ih hplan₁ (start + 1) w₁) fun x w' hrest => ?_
          obtain ⟨outcome, p'⟩ := x
          cases outcome with
          | error e => exact L.sure_pure nofun
          | ok outputs =>
              obtain ⟨hgrows', fs, rfl, hcount, hlens, hwrittens⟩ := hrest _ rfl
              refine L.sure_pure ?_
              rintro _ ⟨⟩
              refine ⟨hgrows.trans hgrows', f :: fs, rfl, congrArg (· + 1) hcount,
                List.forall_mem_cons.mpr ⟨hlen, hlens⟩, fun reuse hreuse => ?_⟩
              -- nothing told in the end is nothing told in between
              have hreuse₁ : reuse = true ∨
                  p.naming.scheme.isRandom = true ∧ w₁.logged = w.logged ∧
                    w'.logged = w₁.logged := by
                refine hreuse.imp_right fun ⟨hrandom, hsame⟩ => ?_
                have hmiddle := hgrows.eq_of_length_le (hsame ▸ hgrows'.length_le)
                exact ⟨hrandom, hmiddle.symm, hsame.trans hmiddle⟩
              refine .cons (hwritten reuse (hreuse₁.imp_right fun h => ⟨h.1, h.2.1⟩))
                (hwrittens reuse (hreuse₁.imp_right fun h => ⟨?_, h.2.2⟩))
              rw [hnaming]
              exact h.1

namespace FilesWritten

variable {reuse : Bool} {d d' : Disk} {g g' : Generator} {fs : List WrittenFile}

/-- The records follow each other. -/
theorem gives (h : FilesWritten reuse d g fs d' g') :
    Gives Generator.nextAction g (fs.map WrittenFile.records).flatten g' := by
  induction h with
  | nil d g => exact .nil g
  | cons h _ ih => exact h.gives.append ih

/-- Directories and links stay. -/
theorem extends_disk (h : FilesWritten reuse d g fs d' g') : d.Extends d' := by
  induction h with
  | nil d g => exact .refl d
  | cons h _ ih => exact h.extends_disk.trans ih

/-- Files and devices stay, but perhaps for their texts. -/
theorem stays (h : FilesWritten reuse d g fs d' g') {place : Location}
    (hplace : ∃ m, d.node? place = some m ∧ ¬ m.IsWay) :
    ∃ m, d'.node? place = some m ∧ ¬ m.IsWay := by
  induction h with
  | nil d g => exact hplace
  | cons h _ ih => exact ih (h.stays hplace)

/-- Other places are as they were. -/
theorem node?_of_not_mem (h : FilesWritten reuse d g fs d' g') {place : Location}
    (hplace : place ∉ fs.map WrittenFile.place) : d'.node? place = d.node? place := by
  induction h with
  | nil d g => rfl
  | cons h _ ih =>
      obtain ⟨n, -, hputs, -⟩ := h.puts
      rw [List.map_cons, List.mem_cons, not_or] at hplace
      rw [ih hplace.2, hputs.others place hplace.1]

/-- The paths of all files lead to their places in the end. -/
theorem leads (h : FilesWritten reuse d g fs d' g') : ∀ f ∈ fs, ∃ n,
    d'.node? f.place = some n ∧ d'.find f.output.path = .ok (f.place, n) := by
  induction h with
  | nil d g => exact nofun
  | cons h hrest ih =>
      refine List.forall_mem_cons.mpr ⟨?_, ih⟩
      obtain ⟨m, hm, hway⟩ := hrest.stays h.node?
      exact ⟨m, hm, h.leads _ m hrest.extends_disk hm hway⟩

/-- **Files with places of their own hold their records.** -/
theorem node?_eq (h : FilesWritten reuse d g fs d' g') (hown : (fs.map WrittenFile.place).Nodup)
    (hfiles : ∀ f ∈ fs, ∃ t, d'.node? f.place = some (.file t)) :
    ∀ f ∈ fs, d'.node? f.place = some (.file (text f.records)) := by
  induction h with
  | nil d g => exact nofun
  | cons h hrest ih =>
      rw [List.map_cons, List.nodup_cons] at hown
      obtain ⟨hfile, hfiles⟩ := List.forall_mem_cons.mp hfiles
      refine List.forall_mem_cons.mpr ⟨?_, ih hown.2 hfiles⟩
      obtain ⟨n, -, hputs, -⟩ := h.puts
      obtain ⟨t, ht⟩ := hfile
      have hnode := hrest.node?_of_not_mem hown.1
      rw [hputs.here] at hnode
      rw [hnode] at ht ⊢
      cases n with
      | file content => rfl
      | directory | link | nullDevice | fullDevice => cases ht

/-- Where files are opened fresh, nothing stands before. -/
theorem node?_eq_none (h : FilesWritten false d g fs d' g') :
    ∀ place ∈ fs.map WrittenFile.place, d.node? place = none := by
  induction h with
  | nil d g => exact nofun
  | @cons d d₁ d' g g₁ g' f fs h _ ih =>
      obtain ⟨n, -, hputs, hfresh⟩ := h.puts
      rw [List.map_cons, List.forall_mem_cons]
      refine ⟨(hfresh rfl).2, fun place hplace => ?_⟩
      have hne : place ≠ f.place := by
        rintro rfl
        have := ih _ hplace
        rw [hputs.here] at this
        cases this
      rw [← hputs.others place hne]
      exact ih place hplace

/-- **Files that were opened fresh have places of their own.** -/
theorem fresh (h : FilesWritten false d g fs d' g') : (fs.map WrittenFile.place).Nodup ∧
    ∀ f ∈ fs, ∃ t, d'.node? f.place = some (.file t) := by
  induction h with
  | nil d g => exact ⟨List.nodup_nil, nofun⟩
  | @cons d d₁ d' g g₁ g' f fs h hrest ih =>
      obtain ⟨n, -, hputs, hfresh⟩ := h.puts
      obtain ⟨rfl, -⟩ := hfresh rfl
      have hnew : f.place ∉ fs.map WrittenFile.place := by
        intro hmem
        have := hrest.node?_eq_none _ hmem
        rw [hputs.here] at this
        cases this
      refine ⟨List.nodup_cons.mpr ⟨hnew, ih.1⟩, ?_⟩
      refine List.forall_mem_cons.mpr ⟨⟨text f.records, ?_⟩, ih.2⟩
      rw [hrest.node?_of_not_mem hnew, hputs.here]
      rfl

end FilesWritten

end SampleData
