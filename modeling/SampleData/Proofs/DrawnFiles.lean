import SampleData.Proofs.FileShares
import SampleData.Proofs.NumberedFiles
import SampleData.Proofs.Requests
import SampleData.Proofs.SilentFields

/-!
# Files of records that may hold the time

What a file will hold cannot be said beforehand where records hold the time. It can be said from the
end: a row of files that was written holds, file by file, records that the generator drew one after
the other, whatever the clock showed. Two such rows that begin with the same generator have the same
records, the readings of the clock aside, since the time takes no word from the source.

No text is planned here; a worker plans all texts for its names, so the rules of a directory say
only which names are touched.

* `Generator.Next`, `Generator.draws_alike`: records at any times, and what they have in common.
* `Folder.Reports`: outputs that report records.
* `Populator.writeFiles_drawn`: a row of files that was written.
* `Assignment.Delivered`: the files of an assignment hold records of its source.
* `runWorker_delivered`, `runWorkers_delivered`: workers that succeed.
* `Assignment.Delivered.alike`: assignments with a seed that were delivered twice.
-/

namespace SampleData

open Text JsonLines

/-! ## Records at any times -/

/-- The same records, but for readings of the clock if the plan has moments. -/
structure Plan.Alike (p : Plan) (rs rs' : List Record) : Prop where
  untimed : rs.map Record.untimed = rs'.map Record.untimed
  eq : p.hasTimestamp = false → rs = rs'

namespace Generator

variable {g g' g'' : Generator}

/-- What comes next at some reading of the clock. -/
def Next (g : Generator) (x : Except DrawFault Record × Generator) : Prop := ∃ c, g.next c = x

/-- The reading has no part in it but in the moments. -/
theorem next_untimed (g : Generator) (c c' : Clock) :
    (g.next c).1.map Record.untimed = (g.next c').1.map Record.untimed ∧
      (g.next c).2 = (g.next c').2 := by
  have hnone : ∀ d ∈ entriesAt (fun _ => false) g.plan.fields, d.Silent := by simp
  have hplan : g.plan.select (fun _ => true) = g.plan := by simp [Plan.select]
  have hrecord : ∀ r : Record, r.select (fun _ => true) = r := fun r => by simp [Record.select]
  have hinStep : (g.plan.draw c : Draw ChaCha Record).InStep
      (fun r r' => (r.select fun _ => true).untimed = r'.untimed)
      ((g.plan.select fun _ => true).draw c') := by
    refine Plan.draw_inStep ?_ c c'
    exact hnone
  simp only [hplan, hrecord] at hinStep
  obtain ⟨hrecords, hsources⟩ := hinStep.outcome_eq g.source
  exact ⟨hrecords, congrArg (Generator.mk g.plan) hsources⟩

/-- The plan stays. -/
theorem Next.plan {x : Except DrawFault Record × Generator} (h : g.Next x) : x.2.plan = g.plan := by
  obtain ⟨c, rfl⟩ := h
  exact plan_next c

/-- **Records that were drawn twice** are the same, the readings of the clock aside, and the
generator ends up the same. -/
theorem draws_alike {rs rs' : List Record} (h : Draws Next g rs g') (h' : Draws Next g rs' g'')
    (hlen : rs.length = rs'.length) : g.plan.Alike rs rs' ∧ g' = g'' := by
  induction h generalizing rs' with
  | nil g =>
      obtain rfl := List.eq_nil_of_length_eq_zero hlen.symm
      cases h'
      exact ⟨⟨rfl, fun _ => rfl⟩, rfl⟩
  | @cons g g₁ g' r rs hr _ ih =>
      cases h' with
      | nil => cases hlen
      | @cons _ g₁' _ r' rs' hr' hrest' =>
          obtain ⟨c, hc⟩ := hr
          obtain ⟨c', hc'⟩ := hr'
          have hplan : g₁.plan = g.plan := Next.plan ⟨c, hc⟩
          obtain ⟨huntimed, hsame⟩ := next_untimed g c c'
          rw [hc, hc'] at huntimed hsame
          obtain rfl : g₁ = g₁' := hsame
          obtain ⟨hrest, hend⟩ := ih hrest' (Nat.succ.inj hlen)
          refine ⟨⟨?_, fun hno => ?_⟩, hend⟩
          · rw [List.map_cons, List.map_cons, Except.ok.inj huntimed, hrest.untimed]
          · have heq := (hc.symm.trans (next_clock hno c c')).trans hc'
            rw [Except.ok.inj (Prod.mk.inj heq).1, hrest.eq (hplan ▸ hno)]

/-- Asking for the next record comes to one at some time, wherever asking for the time changes
nothing. -/
theorem nextAction_sure {σ : Type} {R : Rules σ} {s : σ}
    (hR : R.Allowed s .now ∧ ∀ a s', R.Answers s .now a s' → s' = s) (g : Generator) :
    R.logic.Sure g.nextAction (fun x s' => g.Next x ∧ s' = s) s := by
  have hfree : g.nextAction.Meets .free (fun x _ => g.Next x) () := by
    let L := Rules.free.logic
    exact L.sure_then (Rules.free_total _ ()) fun cs _ _ => L.sure_pure ⟨_, rfl⟩
  refine (g.nextAction_asks (P := fun r => r = .now) rfl).sure hfree ?_
  rintro _ rfl
  exact hR

end Generator

/-! ## One file -/

section files

variable {f : Folder} {own : String → Prop} {base : String} {lines : UInt64}

/-- The plan to put any texts under own names. -/
def anyText (own : String → Prop) (name _whole : String) : Prop := own name

/-- A text stands under the name of a number. -/
def Progress.Holds (s : Progress) (base : String) (i : Nat) (t : String) : Prop :=
  s.texts (numberedName base i) = some t

/-- An output reports records under a number: the number and its path, how many records they are,
and how many bytes their text has. -/
structure Folder.Reports (f : Folder) (base : String) (i : Nat) (rs : List Record)
    (o : FileOutput) : Prop where
  label : o.label = f.label base i
  rows : o.metrics.rows = UInt64.ofNat rs.length
  bytes : o.metrics.bytes = UInt64.ofNat (text rs).utf8ByteSize

/-- An output reports what is held under a number. -/
def Folder.Reported (f : Folder) (base : String) (lines : UInt64) (holds : Nat → String → Prop)
    (i : Nat) (o : FileOutput) : Prop :=
  ∃ rs, rs.length = lines.toNat ∧ holds i (text rs) ∧ f.Reports base i rs o

namespace Populator

variable (lines) (hdir : f.dir ≠ "") (hnamed : ∀ name, own name → Path.IsName name)

include hdir hnamed

/-- A file that was filled holds records that were drawn, and its sizes are theirs. -/
theorem fill_drawn (p : Populator) {name : String} (hown : own name) (s : Progress) :
    (f.rules (anyText own)).logic.Sure (p.fill (f.path name) (f.place name) lines)
      (fun x s' => ∀ written bytes, x.1 = .ok (written, bytes) → x.2.naming = p.naming ∧
        ∃ rs, rs.length = lines.toNat ∧ written.rows = rs.length ∧
          bytes = (text rs).utf8ByteSize ∧ Draws Generator.Next p.generator rs x.2.generator ∧
            s' = s.write name (text rs))
      (s.write name "") := by
  let L := (f.rules (anyText own)).logic
  have hnext : ∀ (g : Generator) (s : Progress), True →
      L.Sure g.nextAction (fun x s' => g.Next x ∧ True ∧ s' = s) s := fun g s _ =>
    L.sure_mono (fun _ _ h => ⟨h.1, trivial, h.2⟩)
      (Generator.nextAction_sure ⟨trivial, fun _ _ h => h⟩ g)
  have hplanned : ∀ whole, anyText own name whole := fun _ => hown
  have hlines := writeTimed_drawn f.still_timer
    (fun whole => fileSink_keeps (f := f) (hplanned whole) s) hnext
    lines.toNat (g := p.generator) trivial rfl
  unfold fill
  refine L.sure_then hlines fun x s₁ hx => ?_
  obtain ⟨outcome, g⟩ := x
  refine L.sure_bind ((f.rules (anyText own)).sure_request ⟨name, "", hown, rfl⟩ ?_)
  intro _ s₂ hs₂
  obtain rfl : s₂ = s₁ := hs₂
  cases outcome with
  | error e => exact L.sure_pure nofun
  | ok written =>
      obtain ⟨hrows, rs, hlen, hdraws, rfl⟩ := hx written rfl
      have htext := s.texts_write_self name (text rs)
      refine L.sure_bind ((f.rules (anyText own)).sure_request ⟨name, "", _, hown, rfl, htext⟩ ?_)
      intro a s₃ ha
      cases a with
      | error e => exact L.sure_pure nofun
      | ok bytes =>
          obtain ⟨name', whole, t, hown', hpath, htext', rfl, rfl⟩ := ha
          obtain rfl := Path.join_injective hdir (hnamed name hown) (hnamed name' hown') hpath
          obtain rfl := Option.some.inj (htext.symm.trans htext')
          refine L.sure_pure ?_
          rintro _ _ ⟨⟩
          exact ⟨rfl, rs, hlen, hrows.trans hlen.symm, rfl, hdraws, rfl⟩

/-- One numbered file that was written, and its output. -/
theorem writeFile_drawn (g : Generator) {i : Nat} (hi : i < 2 ^ 64)
    (hown : own (numberedName base i)) (s : Progress) :
    (f.rules (anyText own)).logic.Sure
      ((numbered base g).writeFile f.dir (UInt64.ofNat i) lines)
      (fun x s' => ∀ o, x.1 = .ok o → ∃ rs g', x.2 = numbered base g' ∧
        rs.length = lines.toNat ∧ Draws Generator.Next g rs g' ∧ f.Reports base i rs o ∧
          s' = s.write (numberedName base i) (text rs)) s := by
  let L := (f.rules (anyText own)).logic
  unfold writeFile
  refine L.sure_then (f.still_timer s) fun started s₁ hs₁ => ?_
  subst hs₁
  have hplanned : anyText own (numberedName base i) "" := hown
  have hnames : ∀ name whole, anyText own name whole → Path.IsName name := fun name _ h =>
    hnamed name h
  refine L.sure_then (openOutput_sure hdir hnames hi hplanned s₁)
    fun x s₂ hopened => ?_
  cases x with
  | error e => exact L.sure_pure nofun
  | ok file =>
      obtain ⟨path, file⟩ := file
      obtain ⟨rfl, rfl, rfl⟩ := hopened
      have hfile := fill_drawn lines hdir hnamed (numbered base g) hown s₁
      refine L.sure_then hfile fun x s₃ hfilled => ?_
      obtain ⟨outcome, ⟨g', naming⟩⟩ := x
      cases outcome with
      | error e => exact L.sure_pure nofun
      | ok filled =>
          obtain ⟨written, bytes⟩ := filled
          obtain ⟨rfl, rs, hlen, hrows, rfl, hdraws, rfl⟩ := hfilled written bytes rfl
          refine L.sure_then (f.still_timer _) fun ended s₄ hs₄ => L.sure_pure ?_
          rintro _ ⟨⟩
          exact ⟨rs, g', rfl, hlen, hdraws, ⟨rfl, congrArg UInt64.ofNat hrows, rfl⟩, hs₄⟩

/-- **A row of files that was written** holds records that were drawn one after the other, and the
outputs report them. -/
theorem writeFiles_drawn (g : Generator) {i count : Nat} (hi : i + count ≤ 2 ^ 64)
    (hown : ∀ j, i ≤ j → j < i + count → own (numberedName base j)) (s : Progress) :
    (f.rules (anyText own)).logic.Sure
      ((numbered base g).writeFiles f.dir (UInt64.ofNat i) lines count)
      (fun x s' => ∀ outputs, x.1 = .ok outputs →
        ∃ (rss : List (List Record)) (g' : Generator), rss.length = count ∧
          (∀ rs ∈ rss, rs.length = lines.toNat) ∧ Draws Generator.Next g rss.flatten g' ∧
            List.Forall₂ (f.Reported base lines (s'.Holds base)) (List.range' i count) outputs ∧
              s' = s.writeRow base i (rss.map text)) s := by
  let L := (f.rules (anyText own)).logic
  induction count generalizing i g s with
  | zero =>
      refine L.sure_pure ?_
      rintro _ ⟨⟩
      exact ⟨[], g, rfl, nofun, .nil g, .nil, rfl⟩
  | succ count ih =>
      rw [writeFiles]
      have hmine := hown i le_rfl (by omega)
      refine L.sure_then (writeFile_drawn lines hdir hnamed g (by omega) hmine s)
        fun x s₁ hfile => ?_
      obtain ⟨outcome, p⟩ := x
      cases outcome with
      | error e => exact L.sure_pure nofun
      | ok output =>
          obtain ⟨rs, g₁, rfl, hlen, hdraws, hreports, rfl⟩ := hfile output rfl
          have hnext : UInt64.ofNat i + 1 = UInt64.ofNat (i + 1) := by
            rw [UInt64.ofNat_add]
            rfl
          dsimp only
          rw [hnext]
          refine L.sure_then (ih g₁ (by omega) (fun j hlow hhigh => hown j (by omega) (by omega)) _)
            fun x s₂ hrest => ?_
          obtain ⟨outcome, p⟩ := x
          cases outcome with
          | error e => exact L.sure_pure nofun
          | ok outputs =>
              obtain ⟨rss, g', hcount, hlens, hdraws', hreported, rfl⟩ := hrest outputs rfl
              refine L.sure_pure ?_
              rintro _ ⟨⟩
              refine ⟨rs :: rss, g', congrArg (· + 1) hcount,
                List.forall_mem_cons.mpr ⟨hlen, hlens⟩, ?_, ?_, rfl⟩
              · rw [List.flatten_cons]
                exact hdraws.append hdraws'
              · have hholds : (s.writeRow base i ((rs :: rss).map text)).texts
                    (numberedName base (i + 0)) = some (text rs) := s.texts_writeRow rfl
                rw [List.range'_succ]
                exact .cons ⟨rs, hlen, hholds, hreports⟩ hreported

end Populator

/-! ## Workers -/

/-- The files of an assignment were written: under each of its numbers there are records of a
generator, which is that of its seed if it has one, and they are drawn one after the other. -/
def Assignment.Delivered (a : Assignment) (plan : Plan) (lines : UInt64)
    (holds : Nat → String → Prop) : Prop :=
  ∃ (rss : List (List Record)) (g g' : Generator),
    g.plan = plan ∧ (∀ seed, a.seed = some seed → g = .ofSeed plan seed) ∧
    rss.length = a.count.toNat ∧ (∀ rs ∈ rss, rs.length = lines.toNat) ∧
      Draws Generator.Next g rss.flatten g' ∧
        ∀ j rs, rss[j]? = some rs → holds (a.start.toNat + j) (text rs)

/-- It is enough that what is held under the numbers stays. -/
theorem Assignment.Delivered.mono {a : Assignment} {plan : Plan}
    {holds holds' : Nat → String → Prop} (h : a.Delivered plan lines holds)
    (himp : ∀ i t, a.Has i → holds i t → holds' i t) : a.Delivered plan lines holds' := by
  obtain ⟨rss, g, g', hplan, hseed, hcount, hlens, hdraws, hholds⟩ := h
  refine ⟨rss, g, g', hplan, hseed, hcount, hlens, hdraws, fun j rs hj => ?_⟩
  have hlt := (List.getElem?_eq_some_iff.mp hj).1
  exact himp _ _ ⟨by omega, by omega⟩ (hholds j rs hj)

/-- Under each number of an assignment that was delivered something is held. -/
theorem Assignment.Delivered.exists_holds {a : Assignment} {plan : Plan}
    {holds : Nat → String → Prop} (h : a.Delivered plan lines holds) {i : Nat} (hi : a.Has i) :
    ∃ t, holds i t := by
  obtain ⟨rss, -, -, -, -, hcount, -, -, hholds⟩ := h
  obtain ⟨hlow, hhigh⟩ := hi
  obtain ⟨j, rfl⟩ := Nat.exists_eq_add_of_le hlow
  exact ⟨_, hholds j _ (List.getElem?_eq_getElem (by omega))⟩

/-- **What was delivered twice** for a seed is the same, the readings of the clock aside. -/
theorem Assignment.Delivered.alike {a : Assignment} {plan : Plan}
    {holds holds' : Nat → String → Prop} (h : a.Delivered plan lines holds)
    (h' : a.Delivered plan lines holds') (hseed : a.seed.isSome) {i : Nat} (hi : a.Has i) :
    ∃ rs rs', holds i (text rs) ∧ holds' i (text rs') ∧ plan.Alike rs rs' := by
  obtain ⟨seed, hseed⟩ := Option.isSome_iff_exists.mp hseed
  obtain ⟨rss, g, g₁, hplan, hg, hcount, hlens, hdraws, hholds⟩ := h
  obtain ⟨rss', g', g₁', -, hg', hcount', hlens', hdraws', hholds'⟩ := h'
  obtain rfl : g = g' := (hg seed hseed).trans (hg' seed hseed).symm
  have hlengths : rss.map List.length = rss'.map List.length := by
    rw [List.map_eq_replicate_iff.mpr hlens, List.map_eq_replicate_iff.mpr hlens', hcount, hcount']
  have hlen : rss.flatten.length = rss'.flatten.length := by
    rw [List.length_flatten, List.length_flatten, hlengths]
  obtain ⟨⟨huntimed, heq⟩, -⟩ := Generator.draws_alike hdraws hdraws' hlen
  rw [hplan] at heq
  -- rows of equal lengths are told by what they are put together to
  have hrows : rss.map (List.map Record.untimed) = rss'.map (List.map Record.untimed) := by
    have hlength : ∀ rows : List (List Record),
        (rows.map (List.map Record.untimed)).map List.length = rows.map List.length := fun rows => by
      rw [List.map_map]
      exact List.map_congr_left fun row _ => List.length_map _
    rw [List.eq_iff_flatten_eq, ← List.map_flatten, ← List.map_flatten, huntimed, hlength, hlength]
    exact ⟨rfl, hlengths⟩
  have hsame : plan.hasTimestamp = false → rss = rss' := fun hno =>
    List.eq_iff_flatten_eq.mpr ⟨heq hno, hlengths⟩
  obtain ⟨hlow, hhigh⟩ := hi
  obtain ⟨j, rfl⟩ := Nat.exists_eq_add_of_le hlow
  have hj : rss[j]? = some rss[j] := List.getElem?_eq_getElem (by omega)
  have hj' : rss'[j]? = some rss'[j] := List.getElem?_eq_getElem (by omega)
  refine ⟨_, _, hholds j _ hj, hholds' j _ hj', ?_, fun hno => ?_⟩
  · have hrow := congrArg (fun rows => rows[j]?) hrows
    simp only [List.getElem?_map, hj, hj'] at hrow
    exact Option.some.inj hrow
  · have hrow := congrArg (fun rows => rows[j]?) (hsame hno)
    rw [hj, hj'] at hrow
    exact Option.some.inj hrow

/-- The outputs that a worker came to report what is held under the numbers of its assignment. -/
def Folder.ReportedAll (f : Folder) (base : String) (lines : UInt64) (holds : Nat → String → Prop)
    (a : Assignment) (outputs : List FileOutput) : Prop :=
  List.Forall₂ (f.Reported base lines holds) (List.range' a.start.toNat a.count.toNat) outputs

/-- It is enough that what is held under the numbers stays. -/
theorem Folder.ReportedAll.mono {holds holds' : Nat → String → Prop} {a : Assignment}
    {outputs : List FileOutput} (h : f.ReportedAll base lines holds a outputs)
    (himp : ∀ i t, a.Has i → holds i t → holds' i t) :
    f.ReportedAll base lines holds' a outputs := by
  have hboth := (List.forall₂_and_left _ outputs).mpr ⟨fun i hi => List.mem_range'_1.mp hi, h⟩
  refine hboth.imp ?_
  rintro i o ⟨hi, rs, hlen, hholds, hreports⟩
  exact ⟨rs, hlen, himp i _ hi hholds, hreports⟩

variable (lines) (plan : Plan) (hdir : f.dir ≠ "") (hnamed : ∀ name, own name → Path.IsName name)

include hdir hnamed

/-- **An assignment that is written** is delivered: its outputs report it, and no other names are
touched. -/
theorem Assignment.write_delivered {a : Assignment} (ha : a.start.toNat + a.count.toNat ≤ 2 ^ 64)
    (hown : ∀ i, a.Has i → own (numberedName base i)) {source : ChaCha}
    (hseed : ∀ seed, a.seed = some seed → source = ChaCha.ofSeed seed) (s : Progress) :
    (f.rules (anyText own)).logic.Sure (a.write plan f.dir ⟨base, .count⟩ lines source)
      (fun x s' => ∀ outputs, x = .ok outputs → a.Delivered plan lines (s'.Holds base) ∧
        f.ReportedAll base lines (s'.Holds base) a outputs ∧
          ∀ name, (∀ i, a.Has i → name ≠ numberedName base i) →
            s'.texts name = s.texts name) s := by
  let L := (f.rules (anyText own)).logic
  have hfiles := Populator.writeFiles_drawn (f := f) lines hdir hnamed ⟨plan, source⟩ ha
    (fun i hlow hhigh => hown i ⟨hlow, hhigh⟩) s
  rw [UInt64.ofNat_toNat] at hfiles
  refine L.sure_then hfiles fun x s' hx => L.sure_pure fun outputs hok => ?_
  obtain ⟨rss, g', hcount, hlens, hdraws, hreported, rfl⟩ := hx outputs hok
  refine ⟨⟨rss, ⟨plan, source⟩, g', rfl, fun seed h => ?_, hcount, hlens, hdraws, ?_⟩,
    hreported, ?_⟩
  · rw [Generator.ofSeed, hseed seed h]
  · intro j rs hj
    refine s.texts_writeRow ?_
    rw [List.getElem?_map, hj]
    rfl
  · intro name hname
    refine s.texts_writeRow_ne fun j hj => hname _ ⟨by omega, ?_⟩
    rw [List.length_map, hcount] at hj
    omega

omit hdir hnamed in
/-- A source may be asked for at any time. -/
theorem Folder.rules_sources (s : Progress) (r : Request) (hr : r = .now ∨ r = .entropy) :
    (f.rules (anyText own)).Allowed s r ∧
      ∀ a s', (f.rules (anyText own)).Answers s r a s' → s' = s := by
  rcases hr with rfl | rfl
  · exact ⟨trivial, fun _ _ => id⟩
  · exact ⟨trivial, fun _ _ => id⟩

/-- **A worker that succeeds** has delivered its assignment, comes to outputs that report it, and
has touched no other names. -/
theorem runWorker_delivered {a : Assignment} (ha : a.start.toNat + a.count.toNat ≤ 2 ^ 64)
    (hown : ∀ i, a.Has i → own (numberedName base i)) (s : Progress) :
    (f.rules (anyText own)).logic.Sure (runWorker plan f.dir ⟨base, .count⟩ lines a)
      (fun x s' => ∀ outputs, x = .ok outputs → a.Delivered plan lines (s'.Holds base) ∧
        f.ReportedAll base lines (s'.Holds base) a outputs ∧
          ∀ name, (∀ i, a.Has i → name ≠ numberedName base i) →
            s'.texts name = s.texts name) s := by
  let L := (f.rules (anyText own)).logic
  refine L.sure_then (a.source_sure f.rules_sources s) fun source s₁ hs₁ => ?_
  obtain ⟨hseed, rfl⟩ := hs₁
  exact a.write_delivered lines plan hdir hnamed ha hown hseed s₁

/-- **Workers that succeed one after the other** have delivered all assignments, and their outputs
report them. -/
theorem runWorkers_delivered {i stop : Nat} {as : List Assignment}
    (hspans : Assignment.Spans i as stop) (hstop : stop ≤ 2 ^ 64)
    (hown : ∀ a ∈ as, ∀ i, a.Has i → own (numberedName base i)) (s : Progress) :
    (f.rules (anyText own)).logic.Sure (runWorkers plan f.dir ⟨base, .count⟩ lines as)
      (fun results s' => ∀ outputs : List (List FileOutput),
        results.map Prod.snd = outputs.map .ok →
          (∀ a ∈ as, a.Delivered plan lines (s'.Holds base)) ∧
          List.Forall₂ (f.ReportedAll base lines (s'.Holds base)) as outputs ∧
          ∀ name, (∀ a ∈ as, ∀ i, a.Has i → name ≠ numberedName base i) →
            s'.texts name = s.texts name) s := by
  let L := (f.rules (anyText own)).logic
  induction hspans generalizing s with
  | nil i =>
      refine L.sure_pure fun outputs hok => ?_
      obtain rfl := List.map_eq_nil_iff.mp hok.symm
      exact ⟨nofun, .nil, fun _ _ => rfl⟩
  | @cons i stop a as hstart hcount hspans ih =>
      have hbounds := hspans.bounds
      obtain ⟨hmine, hothers⟩ := List.forall_mem_cons.mp hown
      rw [runWorkers]
      refine L.sure_then (runWorker_delivered lines plan hdir hnamed (by omega) hmine s)
        fun x s₁ hx => ?_
      refine L.sure_then (ih hstop hothers s₁) fun results s' hrest => L.sure_pure ?_
      intro outputs hok
      cases outputs with
      | nil => cases hok
      | cons os outputs =>
          obtain ⟨hfirst, hfollowing⟩ := List.cons.inj hok
          obtain ⟨hdelivered, hreported, hleft⟩ := hx os hfirst
          obtain ⟨hdelivereds, hreporteds, hlefts⟩ := hrest outputs hfollowing
          -- the numbers of the others come behind
          have hstays : ∀ n t, a.Has n → s₁.Holds base n t → s'.Holds base n t := by
            intro n t hn hholds
            refine (hlefts _ fun b hb j hj hname => ?_).trans hholds
            obtain rfl := numberedName_injective base hname
            have := (hbounds.2 b hb).1
            have hend := hn.2
            have hbegin := hj.1
            omega
          refine ⟨List.forall_mem_cons.mpr ⟨hdelivered.mono hstays, hdelivereds⟩,
            .cons (hreported.mono hstays) hreporteds, fun name hname => ?_⟩
          obtain ⟨hne, hnes⟩ := List.forall_mem_cons.mp hname
          rw [hlefts name hnes, hleft name hne]

end files

end SampleData
