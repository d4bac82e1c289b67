import SampleData.Output.Workers
import SampleData.Proofs.Numerals
import SampleData.Proofs.SharedDirectory
import SampleData.Proofs.Streams
import Mathlib.Data.List.SplitLengths

/-!
# Numbered files

A populator that numbers its files writes, under the names of consecutive numbers, consecutive rows
of the records of its generator. That is so in any surroundings that follow the rules for a worker
in a directory: as long as nothing is refused, each file ends up with its whole row, the outputs are
those of the numbers in order, and the generator ends up as if the records had been asked for at
once.

* `numberedName_injective`, `isName_numberedName`: different numbers have different names, and a
  base without slashes gives single names.
* `Populator.fill_sure`, `Populator.writeFile_sure`: one file.
* `Populator.writeFiles_sure`: a row of files.
* `runWorker_sure`: a worker with a seed.
-/

namespace SampleData

open Text JsonLines

/-! ## Names -/

/-- The name of the file with a number. -/
def numberedName (base : String) (i : Nat) : String := fileName (showNat i) base

/-- It is the name that is written for that number. -/
theorem fileName_ofNat {base : String} {i : Nat} (hi : i < 2 ^ 64) :
    fileName (showUInt64 (UInt64.ofNat i)) base = numberedName base i := by
  rw [numberedName, showUInt64, UInt64.toNat_ofNat_of_lt' hi]

/-- The characters of such a name. -/
theorem toList_numberedName (base : String) (i : Nat) :
    (numberedName base i).toList = natDigits i ++ '_' :: (base.toList ++ ".json".toList) := by
  unfold numberedName fileName fileExtension showNat
  simp

/-- Different numbers have different names. -/
theorem numberedName_injective (base : String) {i j : Nat}
    (h : numberedName base i = numberedName base j) : i = j := by
  have hchars := congrArg String.toList h
  rw [toList_numberedName, toList_numberedName] at hchars
  exact natDigits_injective (List.append_cancel_right hchars)

/-- An underscore stands behind the number. -/
theorem underscore_mem_numberedName (base : String) (i : Nat) :
    '_' ∈ (numberedName base i).toList := by
  rw [toList_numberedName]
  exact List.mem_append_right _ List.mem_cons_self

/-- A base without slashes gives names that are single parts of a path. -/
theorem isName_numberedName {base : String} (h : '/' ∉ base.toList) (i : Nat) :
    Path.IsName (numberedName base i) := by
  have hmark := underscore_mem_numberedName base i
  refine ⟨?_, ?_, ?_, ?_⟩
  · intro he
    rw [he] at hmark
    exact absurd hmark (by decide)
  · intro he
    rw [he] at hmark
    exact absurd hmark (by decide)
  · intro he
    rw [he] at hmark
    exact absurd hmark (by decide)
  · rw [toList_numberedName]
    intro hslash
    rw [List.mem_append, List.mem_cons, List.mem_append] at hslash
    rcases hslash with hslash | hslash | hslash | hslash
    · exact absurd (digitValue?_of_mem_natDigits hslash) (by decide)
    · exact absurd hslash (by decide)
    · exact h hslash
    · exact absurd hslash (by decide)

/-- Whatever the base is, such a name has the extension of output files. -/
@[simp] theorem extension?_numberedName (base : String) (i : Nat) :
    Path.extension? (numberedName base i) = some fileExtension := by
  have hreversed : (numberedName base i).toList.reverse =
      'n' :: 'o' :: 's' :: 'j' :: '.' :: (base.toList.reverse ++ '_' :: (natDigits i).reverse) := by
    rw [toList_numberedName]
    simp
  have hdots : numberedName base i ≠ ".." := fun he => by
    have hmark := underscore_mem_numberedName base i
    rw [he] at hmark
    exact absurd hmark (by decide)
  unfold Path.extension?
  simp [hreversed, hdots, fileExtension]

/-! ## What is written -/

/-- Texts stand under the names of consecutive numbers. -/
def Progress.writeRow (base : String) (s : Progress) : Nat → List String → Progress
  | _, [] => s
  | i, t :: ts => (s.write (numberedName base i) t).writeRow base (i + 1) ts

namespace Progress

/-- Nothing stands under other names that did not before. -/
theorem texts_writeRow_ne {base n : String} {i : Nat} {ts : List String} (s : Progress)
    (h : ∀ j < ts.length, n ≠ numberedName base (i + j)) :
    (s.writeRow base i ts).texts n = s.texts n := by
  induction ts generalizing s i with
  | nil => rfl
  | cons t ts ih =>
      have hhead : n ≠ numberedName base i := h 0 (Nat.succ_pos _)
      rw [writeRow, ih, texts_write_ne s hhead]
      intro j hj
      have := h (j + 1) (Nat.succ_lt_succ hj)
      rwa [show i + (j + 1) = i + 1 + j by omega] at this

/-- Each text of the row stands under the name of its number. -/
theorem texts_writeRow {base t : String} {i j : Nat} {ts : List String} (s : Progress)
    (h : ts[j]? = some t) : (s.writeRow base i ts).texts (numberedName base (i + j)) = some t := by
  induction ts generalizing s i j with
  | nil => cases h
  | cons t' ts ih =>
      rw [writeRow]
      cases j with
      | zero =>
          obtain rfl := Option.some.inj h
          rw [texts_writeRow_ne]
          · simp
          · intro j _ hname
            have := numberedName_injective base hname
            omega
      | succ j =>
          rw [show i + (j + 1) = i + 1 + j by omega]
          exact ih _ h

end Progress

/-! ## One file -/

/-- The number and the path of an output. -/
def FileOutput.label (o : FileOutput) : UInt64 × String := (o.index, o.path)

/-- The number and the path of a numbered file in a directory. -/
def Folder.label (f : Folder) (base : String) (i : Nat) : UInt64 × String :=
  (UInt64.ofNat i, f.path (numberedName base i))

section files

variable {f : Folder} {planned : String → String → Prop}

/-- The timer may be read at any time. -/
theorem Folder.still_timer : (f.rules planned).logic.Still (Action.request .timer) :=
  (f.rules planned).still_request fun _ => ⟨trivial, fun _ _ => id⟩

/-- A file that was opened under a planned name keeps what it takes. -/
theorem fileSink_keeps {name whole : String} (hp : planned name whole) (s : Progress) :
    (fileSink (f.place name)).Keeps (f.rules planned).logic (fun t s' => s' = s.write name t)
      (fun t s' => s' = (s.write name t).refuse) whole where
  take := by
    rintro taken chunk rest _ hrest rfl
    refine (f.rules planned).sure_request
      ⟨name, whole, taken, rest, hp, rfl, s.texts_write_self name taken, hrest⟩ ?_
    intro a s' ha
    cases a with
    | error e => exact ha
    | ok _ =>
        obtain ⟨name', _, text, -, hplace, htext, rfl⟩ := ha
        obtain rfl := f.place_injective hplace
        obtain rfl : taken = text := by simpa using htext
        exact Progress.write_write s name taken _
  again := by
    rintro taken chunk rest _ hrest rfl
    refine (f.rules planned).sure_request
      ⟨name, whole, taken, rest, hp, rfl, s.texts_write_self name taken, hrest⟩ ?_
    intro a s' ha
    cases a with
    | error e => exact ha
    | ok _ =>
        obtain ⟨name', _, text, -, hplace, htext, rfl⟩ := ha
        obtain rfl := f.place_injective hplace
        obtain rfl : taken = text := by simpa using htext
        exact congrArg Progress.refuse (Progress.write_write s name taken _)

namespace Populator

variable {p : Populator} {g g' : Generator} {base : String} {lines : UInt64}

/-- Planned names have different paths. -/
theorem eq_of_path_eq (hdir : f.dir ≠ "") (hnamed : ∀ n whole, planned n whole → Path.IsName n)
    {name name' whole whole' : String} (hp : planned name whole) (hp' : planned name' whole')
    (h : f.path name = f.path name') : name' = name :=
  (Path.join_injective hdir (hnamed name whole hp) (hnamed name' whole' hp') h).symm

/-- A file that is filled: its rows, its size and its text, unless something is refused. -/
theorem fill_sure (hdir : f.dir ≠ "") (hnamed : ∀ n whole, planned n whole → Path.IsName n)
    {name : String} {rs : List Record} (hp : planned name (text rs))
    (hgives : Gives Generator.nextAction p.generator rs g) (hlen : rs.length = lines.toNat)
    (s : Progress) :
    (f.rules planned).logic.Sure (p.fill (f.path name) (f.place name) lines)
      (fun x s' => match x with
        | (.ok (written, bytes), p') => written.rows = lines.toNat ∧
            bytes = (text rs).utf8ByteSize ∧ p' = { p with generator := g } ∧
            s' = s.write name (text rs)
        | (.error _, _) => s'.refused = true) (s.write name "") := by
  let L := (f.rules planned).logic
  unfold fill
  rw [← hlen]
  apply L.sure_then (writeTimed_sure f.still_timer (fileSink_keeps hp s) hgives rfl)
  intro x s₁ hx
  obtain ⟨outcome, g'⟩ := x
  obtain ⟨hended, hcount⟩ := hx
  apply L.sure_bind
  refine (f.rules planned).sure_request ⟨name, _, hp, rfl⟩ ?_
  intro _ s₂ hs₂
  obtain rfl : s₂ = s₁ := hs₂
  cases outcome with
  | error e =>
      obtain ⟨taken, rest, rfl, -⟩ := hended
      exact L.sure_pure rfl
  | ok written =>
      obtain rfl : s₂ = s.write name (text rs) := hended
      obtain ⟨hrows, rfl⟩ := hcount written rfl
      have htext := s.texts_write_self name (text rs)
      refine L.sure_bind ((f.rules planned).sure_request ⟨name, _, _, hp, rfl, htext⟩ ?_)
      intro a s₃ ha
      cases a with
      | error e =>
          obtain rfl : s₃ = (s.write name (text rs)).refuse := ha
          exact L.sure_pure rfl
      | ok bytes =>
          obtain ⟨name', whole', t, hp', hpath, htext', rfl, rfl⟩ := ha
          obtain rfl := eq_of_path_eq hdir hnamed hp hp' hpath
          obtain rfl := Option.some.inj (htext.symm.trans htext')
          exact L.sure_pure ⟨hrows, rfl, rfl, rfl⟩

/-- A numbered file that is opened: it is empty, unless it is refused. -/
theorem openOutput_sure (hdir : f.dir ≠ "") (hnamed : ∀ n whole, planned n whole → Path.IsName n)
    {i : Nat} (hi : i < 2 ^ 64) {whole : String} (hp : planned (numberedName base i) whole)
    (s : Progress) :
    (f.rules planned).logic.Sure (openOutput ⟨base, .count⟩ f.dir (UInt64.ofNat i))
      (fun x s' => match x with
        | .ok (path, file) => path = f.path (numberedName base i) ∧
            file = f.place (numberedName base i) ∧ s' = s.write (numberedName base i) ""
        | .error _ => s'.refused = true) s := by
  let L := (f.rules planned).logic
  unfold openOutput
  rw [if_neg (by decide : ¬ NameScheme.count.isRandom = true), fileName_ofNat hi]
  refine L.sure_bind ((f.rules planned).sure_request ⟨rfl, _, _, hp, rfl⟩ ?_)
  intro a s' ha
  cases a with
  | error e =>
      obtain rfl : s' = s.refuse := ha
      exact L.sure_pure rfl
  | ok file =>
      obtain ⟨name', whole', hp', hpath, rfl, rfl⟩ := ha
      obtain rfl := eq_of_path_eq hdir hnamed hp hp' hpath
      exact L.sure_pure ⟨rfl, rfl, rfl⟩

/-- A populator that numbers its files. -/
def numbered (base : String) (g : Generator) : Populator :=
  { generator := g, naming := { base := base, scheme := .count } }

/-- One file of a row: its output, and its text under its name, unless something is refused. -/
theorem writeFile_sure (hdir : f.dir ≠ "") (hnamed : ∀ n whole, planned n whole → Path.IsName n)
    {i : Nat} (hi : i < 2 ^ 64) {rs : List Record} (hp : planned (numberedName base i) (text rs))
    (hgives : Gives Generator.nextAction g rs g') (hlen : rs.length = lines.toNat)
    (s : Progress) :
    (f.rules planned).logic.Sure ((numbered base g).writeFile f.dir (UInt64.ofNat i) lines)
      (fun x s' => match x with
        | (.ok output, p) => output.index = UInt64.ofNat i ∧
            output.path = f.path (numberedName base i) ∧ p = numbered base g' ∧
            s' = s.write (numberedName base i) (text rs)
        | (.error _, _) => s'.refused = true) s := by
  let L := (f.rules planned).logic
  unfold writeFile
  refine L.sure_then (f.still_timer s) fun started s₁ hs₁ => ?_
  subst hs₁
  apply L.sure_then (openOutput_sure hdir hnamed hi hp s₁)
  intro x s₂ hopened
  cases x with
  | error e => exact L.sure_pure hopened
  | ok file =>
      obtain ⟨path, file⟩ := file
      obtain ⟨rfl, rfl, rfl⟩ := hopened
      apply L.sure_then (fill_sure hdir hnamed hp hgives hlen s₁)
      intro x s₃ hfilled
      obtain ⟨outcome, p⟩ := x
      cases outcome with
      | error e => exact L.sure_pure hfilled
      | ok filled =>
          obtain ⟨-, -, rfl, rfl⟩ := hfilled
          refine L.sure_then (f.still_timer _) fun ended s₄ hs₄ => ?_
          exact L.sure_pure ⟨rfl, rfl, rfl, hs₄⟩

/-- **A row of files**, one row of records each: their outputs in order and their texts under their
names, unless something is refused. -/
theorem writeFiles_sure (hdir : f.dir ≠ "") (hnamed : ∀ n whole, planned n whole → Path.IsName n)
    {i : Nat} {rss : List (List Record)} (hi : i + rss.length ≤ 2 ^ 64)
    (hp : ∀ j rs, rss[j]? = some rs → planned (numberedName base (i + j)) (text rs))
    (hgives : Gives Generator.nextAction g rss.flatten g')
    (hlen : ∀ rs ∈ rss, rs.length = lines.toNat) (s : Progress) :
    (f.rules planned).logic.Sure
      ((numbered base g).writeFiles f.dir (UInt64.ofNat i) lines rss.length)
      (fun x s' => match x with
        | (.ok outputs, p) => outputs.map FileOutput.label =
              (List.range' i rss.length).map (f.label base) ∧
            p = numbered base g' ∧ s' = s.writeRow base i (rss.map text)
        | (.error _, _) => s'.refused = true) s := by
  let L := (f.rules planned).logic
  induction rss generalizing i g s with
  | nil =>
      cases hgives
      exact L.sure_pure ⟨rfl, rfl, rfl⟩
  | cons rs rss ih =>
      rw [List.length_cons] at hi
      obtain ⟨g₁, hfirst, hrest⟩ := hgives.split
      have hfile := writeFile_sure (s := s) hdir hnamed (by omega) (hp 0 rs rfl) hfirst
        (hlen rs List.mem_cons_self)
      apply L.sure_then hfile
      intro x s₁ hx
      obtain ⟨outcome, p⟩ := x
      cases outcome with
      | error e => exact L.sure_pure hx
      | ok output =>
          obtain ⟨hindex, hpath, rfl, rfl⟩ := hx
          have hnext : UInt64.ofNat i + 1 = UInt64.ofNat (i + 1) := by
            rw [UInt64.ofNat_add]
            rfl
          rw [Nat.add_zero, hnext]
          refine L.sure_then (ih (by omega) ?_ hrest ?_ _) fun x s₂ hx => ?_
          · intro j rs' hj
            rw [Nat.add_assoc, Nat.add_comm 1 j]
            exact hp (j + 1) rs' hj
          · intro rs' hrs'
            exact hlen rs' (List.mem_cons_of_mem rs hrs')
          obtain ⟨outcome, p⟩ := x
          cases outcome with
          | error e => exact L.sure_pure hx
          | ok outputs =>
              obtain ⟨hlabels, rfl, rfl⟩ := hx
              refine L.sure_pure ⟨?_, rfl, rfl⟩
              rw [List.map_cons, hlabels, List.length_cons, List.range'_succ, List.map_cons]
              congr 1
              exact Prod.ext hindex hpath

end Populator

/-! ## A worker -/

/-- Records cut into rows of equal length, one row a file. -/
def fileRows (lines count : Nat) (rs : List Record) : List (List Record) :=
  (List.replicate count lines).splitLengths rs

section rows

variable {lines count : Nat} {rs : List Record}

@[simp] theorem length_fileRows : (fileRows lines count rs).length = count := by
  rw [fileRows, List.length_splitLengths, List.length_replicate]

/-- The rows one after the other are the records. -/
theorem flatten_fileRows (h : rs.length = count * lines) :
    (fileRows lines count rs).flatten = rs := by
  refine List.flatten_splitLengths rs _ (le_of_eq ?_)
  rw [h, List.sum_replicate_nat]

/-- Each row has the length that was asked for. -/
theorem length_of_mem_fileRows (h : rs.length = count * lines) {row : List Record}
    (hrow : row ∈ fileRows lines count rs) : row.length = lines := by
  have hlengths : (fileRows lines count rs).map List.length = List.replicate count lines := by
    refine List.map_splitLengths_length rs _ (le_of_eq ?_)
    rw [h, List.sum_replicate_nat]
  exact List.eq_of_mem_replicate (hlengths ▸ List.mem_map_of_mem hrow)

end rows

/-- The plan to put rows of records under the names of consecutive numbers. -/
def rowPlan (base : String) (i : Nat) (rss : List (List Record)) (name whole : String) : Prop :=
  ∃ j rs, rss[j]? = some rs ∧ name = numberedName base (i + j) ∧ whole = text rs

/-- **A worker with a seed** writes the records of that seed, row by row, unless something is
refused. -/
theorem runWorker_sure (hdir : f.dir ≠ "") {base : String} (hbase : '/' ∉ base.toList)
    {plan : Plan} (hplan : plan.hasTimestamp = false) {a : Assignment} {seed lines : UInt64}
    (hseed : a.seed = some seed) (hstart : a.start.toNat + a.count.toNat ≤ 2 ^ 64) {c : Clock}
    {rs : List Record}
    (hrs : ((Generator.ofSeed plan seed).many c (a.count.toNat * lines.toNat)).1 = .ok rs)
    (s : Progress) :
    (f.rules (rowPlan base a.start.toNat (fileRows lines.toNat a.count.toNat rs))).logic.Sure
      (runWorker plan f.dir ⟨base, .count⟩ lines a)
      (fun x s' => match x with
        | .ok outputs => outputs.map FileOutput.label =
              (List.range' a.start.toNat a.count.toNat).map (f.label base) ∧
            s' = s.writeRow base a.start.toNat
              ((fileRows lines.toNat a.count.toNat rs).map text)
        | .error _ => s'.refused = true) s := by
  let L := (f.rules (rowPlan base a.start.toNat (fileRows lines.toNat a.count.toNat rs))).logic
  obtain ⟨hlen, g', hgives⟩ := Generator.gives_of_many hplan hrs
  rw [← flatten_fileRows hlen] at hgives
  have hnamed : ∀ n whole,
      rowPlan base a.start.toNat (fileRows lines.toNat a.count.toNat rs) n whole →
        Path.IsName n := by
    rintro n whole ⟨j, row, -, rfl, -⟩
    exact isName_numberedName hbase _
  have hfiles := Populator.writeFiles_sure (s := s) hdir hnamed
    (by simpa using hstart) (fun j row hrow => ⟨j, row, hrow, rfl, rfl⟩) hgives
    (fun row hrow => length_of_mem_fileRows hlen hrow)
  rw [length_fileRows, UInt64.ofNat_toNat] at hfiles
  unfold runWorker
  rw [Assignment.source_of_seed hseed, pure_bind]
  refine L.sure_then hfiles fun x s' hx => L.sure_pure ?_
  obtain ⟨outcome, p⟩ := x
  cases outcome with
  | error e => exact hx
  | ok outputs => exact ⟨hx.1, hx.2.2⟩

end files

end SampleData
