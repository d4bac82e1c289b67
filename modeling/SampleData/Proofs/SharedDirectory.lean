import SampleData.Proofs.DiskFrame
import SampleData.Proofs.Turns
import Mathlib.Logic.Function.Basic

/-!
# Workers in one directory

Each worker plans texts for names of its own in a directory they share. Under the rules of such a
worker nothing but its own names can be seen or changed, so it cannot tell whether others are at
work; and where no two workers plan the same name, a disk on which all of them work follows the
rules of each. What one turn does to the disk is one change at one planned name, and what a run of
turns leaves behind is said name by name.

* `Folder.rules`: the rules for one worker.
* `Folder.Covers`: the disk is what the workers have made of it so far.
* `Folder.Served`: a request of a worker is served.
* `Folder.Covers.answer`, `Folder.Covers.reply`: the world's answer, and one turn of any worker.
* `Folder.Covers.run`: one worker with the disk to itself.
* `Folder.Covers.node?_eq`: workers that have written the same leave the same disk.
-/

namespace SampleData

/-! ## One worker -/

/-- A directory: the path that it is reached by, and its place. -/
structure Folder where
  dir : String
  home : Location

/-- What a worker has written so far under its names, and whether it was ever refused anything. -/
structure Progress where
  texts : String → Option String
  refused : Bool

namespace Progress

/-- Nothing is written, and nothing was refused. -/
def fresh : Progress := { texts := fun _ => none, refused := false }

/-- A text stands under a name. -/
def write (s : Progress) (name text : String) : Progress :=
  { s with texts := fun n => if n = name then some text else s.texts n }

/-- Something was refused. -/
def refuse (s : Progress) : Progress := { s with refused := true }

@[simp] theorem texts_refuse (s : Progress) : s.refuse.texts = s.texts := rfl

@[simp] theorem texts_write_self (s : Progress) (name text : String) :
    (s.write name text).texts name = some text := if_pos rfl

@[simp] theorem texts_write_ne (s : Progress) {name n : String} (h : n ≠ name) (text : String) :
    (s.write name text).texts n = s.texts n := if_neg h

/-- Of two texts under one name the later one stays. -/
@[simp] theorem write_write (s : Progress) (name text text' : String) :
    (s.write name text).write name text' = s.write name text' := by
  unfold write
  congr 1
  funext n
  dsimp only
  split <;> rfl

end Progress

namespace Folder

variable (f : Folder)

/-- The path of a name in the directory. -/
def path (name : String) : String := Path.join f.dir name

/-- The place of a name in the directory. -/
def place (name : String) : Location := f.home ++ [name]

@[simp] theorem place_ne_nil (name : String) : f.place name ≠ [] := by simp [place]

/-- Each name has a place of its own. -/
@[simp] theorem place_inj {name name' : String} : f.place name = f.place name' ↔ name = name' := by
  simp [place]

theorem place_injective {name name' : String} (h : f.place name = f.place name') :
    name = name' := f.place_inj.mp h

/-- The rules for a worker that plans texts for names in the directory. Files are opened under
planned names, and what is put at their ends goes on with the planned text; any of it may be
refused. The clocks and the source of keys may answer anything. -/
def rules (planned : String → String → Prop) : Rules Progress where
  Allowed s
    | .create path fresh => fresh = false ∧ ∃ name whole, planned name whole ∧ path = f.path name
    | .append file chunk => ∃ name whole text rest, planned name whole ∧ file = f.place name ∧
        s.texts name = some text ∧ text ++ chunk ++ rest = whole
    | .close file => ∃ name whole, planned name whole ∧ file = f.place name
    | .size path => ∃ name whole text, planned name whole ∧ path = f.path name ∧
        s.texts name = some text
    | .log _ | .now | .timer | .entropy => True
    | _ => False
  Answers s
    | .create path _, .ok file, s' => ∃ name whole, planned name whole ∧ path = f.path name ∧
        file = f.place name ∧ s' = s.write name ""
    | .create _ _, .error _, s' => s' = s.refuse
    | .append file chunk, .ok _, s' => ∃ name whole text, planned name whole ∧
        file = f.place name ∧ s.texts name = some text ∧ s' = s.write name (text ++ chunk)
    | .append _ _, .error _, s' => s' = s.refuse
    | .size path, .ok bytes, s' => ∃ name whole text, planned name whole ∧ path = f.path name ∧
        s.texts name = some text ∧ bytes = text.utf8ByteSize ∧ s' = s
    | .size _, .error _, s' => s' = s.refuse
    | .close _, _, s' | .log _, _, s' | .now, _, s' | .timer, _, s' | .entropy, _, s' => s' = s
    | _, _, _ => False

/-! ## Many workers -/

/-- The workers' plans can be carried out in one directory of the disk: it is there, planned names
are names, nothing but files and directories stands under them, and no two workers plan the same
name. -/
structure Hosts (plans : Nat → String → String → Prop) (d : Disk) : Prop where
  found : d.find f.dir = .ok (f.home, .directory)
  named : ∀ {k name whole}, plans k name whole → Path.IsName name
  plain : ∀ {k name whole}, plans k name whole → ∀ n, d.node? (f.place name) = some n → n.IsPlain
  apart : ∀ {k k' name whole whole'}, plans k name whole → plans k' name whole' → k = k'

/-- The disk is what workers have made of another one: what they have written stands under their
names, which could be opened, and everything else is as it was. -/
structure Covers (plans : Nat → String → String → Prop) (d₀ d : Disk) (s : Nat → Progress) :
    Prop where
  current : d.current = d₀.current
  opened : ∀ {k name whole text}, plans k name whole → (s k).texts name = some text →
    d.node? (f.place name) = some (.file text) ∧ d₀.Opens f.dir name f.home
  untouched : ∀ {place}, (∀ k name whole, plans k name whole → place = f.place name →
    (s k).texts name = none) → d.node? place = d₀.node? place

variable {f} {plans : Nat → String → String → Prop} {d₀ d : Disk} {s s' : Nat → Progress}

/-- Nothing is written, so the disk is as it was. -/
theorem covers_fresh : f.Covers plans d₀ d₀ fun _ => .fresh where
  current := rfl
  opened _ h := nomatch h
  untouched _ := rfl

namespace Covers

/-- Only what is written counts. -/
theorem of_texts (hc : f.Covers plans d₀ d s) (h : ∀ k, (s' k).texts = (s k).texts) :
    f.Covers plans d₀ d s' where
  current := hc.current
  opened hp ht := hc.opened hp (by rw [← h]; exact ht)
  untouched hnone := hc.untouched fun k name whole hp hplace => by
    rw [← h]
    exact hnone k name whole hp hplace

/-- A planned name under which nothing is written is as it was. -/
theorem node?_of_none (hh : f.Hosts plans d₀) (hc : f.Covers plans d₀ d s) {k : Nat}
    {name whole : String} (hp : plans k name whole) (hnone : (s k).texts name = none) :
    d.node? (f.place name) = d₀.node? (f.place name) := by
  apply hc.untouched
  intro k' name' whole' hp' hplace
  obtain rfl := f.place_injective hplace
  obtain rfl := hh.apart hp hp'
  exact hnone

/-- Directories and links stand on the disk as they did. -/
theorem extends_disk (hh : f.Hosts plans d₀) (hc : f.Covers plans d₀ d s) : d₀.Extends d where
  current := hc.current
  ways := by
    intro place n hnode hway
    rw [hc.untouched, hnode]
    intro k name whole hp hplace
    rw [hplace] at hnode
    by_contra hne
    obtain ⟨text, htext⟩ := Option.ne_none_iff_exists'.mp hne
    have hopens := (hc.opened hp htext).2
    have hplain := hh.plain hp n hnode
    cases n with
    | directory => exact hopens.no_directory hnode
    | link target => exact hplain.elim
    | file content => exact hway.elim
    | nullDevice => exact hway.elim
    | fullDevice => exact hway.elim

/-- After a worker has written a text under a planned name the disk covers that. -/
theorem write (hh : f.Hosts plans d₀) (hc : f.Covers plans d₀ d s) {k : Nat} {name whole : String}
    (hp : plans k name whole) (hopens : d₀.Opens f.dir name f.home) (text : String) :
    f.Covers plans d₀ (d.set (f.place name) (.file text))
      (Function.update s k ((s k).write name text)) where
  current := hc.current
  opened := by
    intro k' name' whole' text' hp' htext
    by_cases hname : name' = name
    · subst hname
      obtain rfl := hh.apart hp hp'
      obtain rfl : text = text' := by simpa using htext
      exact ⟨by simp, hopens⟩
    · have hbefore : (s k').texts name' = some text' := by
        by_cases hk : k' = k
        · subst hk
          simpa [hname] using htext
        · simpa [hk] using htext
      simpa [hname] using hc.opened hp' hbefore
  untouched := by
    intro place hnone
    have hne : place ≠ f.place name := by
      intro hplace
      simpa using hnone k name whole hp hplace
    have hbefore : ∀ k' name' whole', plans k' name' whole' → place = f.place name' →
        (s k').texts name' = none := by
      intro k' name' whole' hp' hplace
      have hstill := hnone k' name' whole' hp' hplace
      by_cases hk : k' = k
      · subst hk
        have hname : name' ≠ name := by
          rintro rfl
          exact hne hplace
        simpa [hname] using hstill
      · simpa [hk] using hstill
    simpa [hne] using hc.untouched hbefore

/-- Workers that have written the same leave the same at every place. -/
theorem node?_eq {d' : Disk} (hc : f.Covers plans d₀ d s) (hc' : f.Covers plans d₀ d' s')
    (h : ∀ k name whole, plans k name whole → (s k).texts name = (s' k).texts name)
    (place : Location) : d.node? place = d'.node? place := by
  by_cases hwritten : ∃ k name whole text, plans k name whole ∧ place = f.place name ∧
      (s k).texts name = some text
  · obtain ⟨k, name, whole, text, hp, rfl, htext⟩ := hwritten
    rw [(hc.opened hp htext).1, (hc'.opened hp (by rw [← h k name whole hp]; exact htext)).1]
  · have hnone : ∀ k name whole, plans k name whole → place = f.place name →
        (s k).texts name = none := by
      intro k name whole hp hplace
      by_contra hne
      obtain ⟨text, htext⟩ := Option.ne_none_iff_exists'.mp hne
      exact hwritten ⟨k, name, whole, text, hp, hplace, htext⟩
    rw [hc.untouched hnone, hc'.untouched fun k name whole hp hplace => by
      rw [← h k name whole hp]
      exact hnone k name whole hp hplace]

/-- A refusal changes nothing but that there was one. -/
theorem refuse (hc : f.Covers plans d₀ d s) (k : Nat) :
    f.Covers plans d₀ d (Function.update s k (s k).refuse) := by
  apply hc.of_texts
  intro k'
  by_cases hk : k' = k
  · subst hk
    simp
  · simp [hk]

/-- Where a planned name can be opened, nothing or a file stands under it all along. -/
theorem file_of_opens (hh : f.Hosts plans d₀) (hc : f.Covers plans d₀ d s) {k : Nat}
    {name whole : String} (hp : plans k name whole)
    (hno : d.node? (f.place name) ≠ some .directory) :
    d.node? (f.place name) = none ∨ ∃ t, d.node? (f.place name) = some (.file t) := by
  cases htext : (s k).texts name with
  | some text => exact .inr ⟨text, (hc.opened hp htext).1⟩
  | none =>
      have hsame := hc.node?_of_none hh hp htext
      cases hnode : d.node? (f.place name) with
      | none => exact .inl rfl
      | some n =>
          have hplain := hh.plain hp n (by rw [← hsame, hnode])
          cases n with
          | directory => exact absurd hnode hno
          | file text => exact .inr ⟨text, rfl⟩
          | link target => exact hplain.elim
          | nullDevice => exact hplain.elim
          | fullDevice => exact hplain.elim

/-- A name that can be opened on the disk as it is could be opened on it as it was, and the other
way round. -/
theorem opens_iff (hh : f.Hosts plans d₀) (hc : f.Covers plans d₀ d s) {k : Nat}
    {name whole : String} (hp : plans k name whole) :
    d.Opens f.dir name f.home ↔ d₀.Opens f.dir name f.home := by
  cases htext : (s k).texts name with
  | some text =>
      obtain ⟨hnode, hopens⟩ := hc.opened hp htext
      refine ⟨fun _ => hopens, fun _ => ⟨hopens.path, ?_⟩⟩
      show d.node? (f.place name) ≠ some .directory
      rw [hnode]
      intro h
      cases h
  | none =>
      have hsame : d.node? (f.home ++ [name]) = d₀.node? (f.home ++ [name]) :=
        hc.node?_of_none hh hp htext
      exact ⟨fun h => ⟨h.path, hsame ▸ h.no_directory⟩, fun h => ⟨h.path, hsame ▸ h.no_directory⟩⟩

/-- Opening a file under a planned name: a refusal, or an empty file there. -/
theorem create (hh : f.Hosts plans d₀) (hc : f.Covers plans d₀ d s) {k : Nat} {name whole : String}
    (hp : plans k name whole) :
    (∃ e, d.create (f.path name) false = .error e ∧ ¬ d₀.Opens f.dir name f.home) ∨
      (d.create (f.path name) false =
        .ok (f.place name, d.set (f.place name) (.file "")) ∧ d₀.Opens f.dir name f.home) := by
  have hd := hc.extends_disk hh
  cases hcreate : d.create (f.path name) false with
  | error e =>
      refine .inl ⟨e, rfl, fun hopens => ?_⟩
      have hopens' := (hc.opens_iff hh hp).mpr hopens
      have hok := Disk.create_join hh.found hd (hh.named hp) hopens'.path
        (hc.file_of_opens hh hp hopens'.no_directory)
      rw [path, hok] at hcreate
      cases hcreate
  | ok r =>
      have hopens' := Disk.opens_of_create hh.found hd (hh.named hp) hcreate
      have hok := Disk.create_join hh.found hd (hh.named hp) hopens'.path
        (hc.file_of_opens hh hp hopens'.no_directory)
      rw [path, hok] at hcreate
      exact .inr ⟨hcreate.symm, (hc.opens_iff hh hp).mp hopens'⟩

/-- A worker that has written nothing new stands where it stood. -/
theorem same (hc : f.Covers plans d₀ d s) (k : Nat) :
    f.Covers plans d₀ d (Function.update s k (s k)) := by
  rw [Function.update_eq_self]
  exact hc

end Covers

/-! ## Requests of workers -/

/-- A worker's request is served: the answer is as its rules say, the disk covers what the worker
has then written, and a refusal is kept in mind. What the others have written is as it was. -/
structure Served (f : Folder) (plans : Nat → String → String → Prop) (d₀ : Disk)
    (s : Nat → Progress) (k : Nat) (r : Request) (x : r.Answer × World) (p : Progress) : Prop where
  answers : (f.rules (plans k)).Answers (s k) r x.1 p
  covers : f.Covers plans d₀ x.2.disk (Function.update s k p)
  refused : p.refused = ((s k).refused || r.isRefused x.1)

/-- What an answer makes of what a worker has written: nothing else, an empty text under a name, or
one that goes on. -/
theorem answers_cases {planned : String → String → Prop} {p p' : Progress} {r : Request}
    {a : r.Answer} (h : (f.rules planned).Answers p r a p') :
    p'.texts = p.texts ∨
      (∃ name whole fresh, planned name whole ∧ r = .create (f.path name) fresh ∧
        p' = p.write name "") ∨
      ∃ name whole text chunk, planned name whole ∧ r = .append (f.place name) chunk ∧
        p.texts name = some text ∧ p' = p.write name (text ++ chunk) := by
  cases r with
  | create path fresh =>
      cases a with
      | error e =>
          obtain rfl : p' = p.refuse := h
          exact .inl rfl
      | ok file =>
          obtain ⟨name, whole, hp, rfl, -, rfl⟩ := h
          exact .inr (.inl ⟨name, whole, fresh, hp, rfl, rfl⟩)
  | append file chunk =>
      cases a with
      | error e =>
          obtain rfl : p' = p.refuse := h
          exact .inl rfl
      | ok _ =>
          obtain ⟨name, whole, text, hp, rfl, htext, rfl⟩ := h
          exact .inr (.inr ⟨name, whole, text, chunk, hp, rfl, htext, rfl⟩)
  | size path =>
      cases a with
      | error e =>
          obtain rfl : p' = p.refuse := h
          exact .inl rfl
      | ok bytes =>
          obtain ⟨_, _, _, -, -, -, -, rfl⟩ := h
          exact .inl rfl
  | close | log | now | timer | entropy =>
      obtain rfl : p' = p := h
      exact .inl rfl
  | _ => exact h.elim

/-- Any request of a worker that can be refused may be, and it remembers that. -/
theorem rules_refused {planned : String → String → Prop} {p : Progress} {r : Request}
    {a : r.Answer} (hallowed : (f.rules planned).Allowed p r) (ha : r.isRefused a = true) :
    (f.rules planned).Answers p r a p.refuse := by
  cases r with
  | create | append | size =>
      cases a with
      | ok _ => cases ha
      | error e => rfl
  | close | log | now | timer | entropy => cases ha
  | _ => exact hallowed.elim

namespace Covers

variable {w : World} {k : Nat} {name whole text : String} {r : Request}

/-- A refusal serves it. -/
theorem served_refused (hc : f.Covers plans d₀ w.disk s) {x : r.Answer × World}
    (hallowed : (f.rules (plans k)).Allowed (s k) r) (hx : r.isRefused x.1 = true) (hw : x.2 = w) :
    f.Served plans d₀ s k r x (s k).refuse where
  answers := rules_refused hallowed hx
  covers := hw ▸ hc.refuse k
  refused := by
    rw [hx, Bool.or_true]
    rfl

/-- Opening a file is served with an empty file, or refused where that could not be done. -/
theorem answer_create (hh : f.Hosts plans d₀) (hc : f.Covers plans d₀ w.disk s)
    (hp : plans k name whole) :
    ∃ p, f.Served plans d₀ s k (.create (f.path name) false)
        (w.answer (.create (f.path name) false)) p ∧
      (d₀.Opens f.dir name f.home →
        (Request.create (f.path name) false).isRefused (w.answer _).1 = false) := by
  rcases hc.create hh hp with ⟨e, he, hno⟩ | ⟨hok, hopens⟩
  · have hallowed : (f.rules (plans k)).Allowed (s k) (.create (f.path name) false) :=
      ⟨rfl, name, whole, hp, rfl⟩
    exact ⟨(s k).refuse, hc.served_refused hallowed (by simp [he, Except.isOk, Except.toBool])
      (by simp [he]), fun hopens => absurd hopens hno⟩
  · have hanswer : w.answer (.create (f.path name) false) = (.ok (f.place name),
        { w with disk := w.disk.set (f.place name) (.file "") }) := by simp [hok]
    rw [hanswer]
    exact ⟨(s k).write name "", ⟨⟨name, whole, hp, rfl, rfl, rfl⟩, hc.write hh hp hopens "",
      (Bool.or_false _).symm⟩, fun _ => rfl⟩

/-- A chunk is put behind what is written. -/
theorem answer_append (hh : f.Hosts plans d₀) (hc : f.Covers plans d₀ w.disk s)
    (hp : plans k name whole) (htext : (s k).texts name = some text) (chunk : String) :
    f.Served plans d₀ s k (.append (f.place name) chunk) (w.answer (.append (f.place name) chunk))
        ((s k).write name (text ++ chunk)) ∧
      (Request.append (f.place name) chunk).isRefused (w.answer _).1 = false := by
  obtain ⟨hnode, hopens⟩ := hc.opened hp htext
  have hanswer : w.answer (.append (f.place name) chunk) = (.ok (),
      { w with disk := w.disk.set (f.place name) (.file (text ++ chunk)) }) := by
    simp [Disk.append_file hnode, Except.map]
  rw [hanswer]
  exact ⟨⟨⟨name, whole, text, hp, rfl, htext, rfl⟩, hc.write hh hp hopens _,
    (Bool.or_false _).symm⟩, rfl⟩

/-- The size of a file is that of what is written. -/
theorem answer_size (hh : f.Hosts plans d₀) (hc : f.Covers plans d₀ w.disk s)
    (hp : plans k name whole) (htext : (s k).texts name = some text) :
    f.Served plans d₀ s k (.size (f.path name)) (w.answer (.size (f.path name))) (s k) ∧
      (Request.size (f.path name)).isRefused (w.answer _).1 = false := by
  obtain ⟨hnode, hopens⟩ := hc.opened hp htext
  have hanswer : w.answer (.size (f.path name)) = (.ok text.utf8ByteSize, w) := by
    simp [path, Disk.size_join hh.found (hc.extends_disk hh) (hh.named hp) hopens.path hnode]
  rw [hanswer]
  exact ⟨⟨⟨name, whole, text, hp, rfl, htext, rfl, rfl⟩, hc.same k, (Bool.or_false _).symm⟩, rfl⟩

/-- **The world's answer** serves a request that the rules allow, and refuses nothing if planned
names can be opened. -/
theorem answer (hh : f.Hosts plans d₀) (hc : f.Covers plans d₀ w.disk s)
    (hallowed : (f.rules (plans k)).Allowed (s k) r) :
    ∃ p, f.Served plans d₀ s k r (w.answer r) p ∧
      ((∀ name whole, plans k name whole → d₀.Opens f.dir name f.home) →
        r.isRefused (w.answer r).1 = false) := by
  cases r with
  | create path fresh =>
      obtain ⟨rfl, name, whole, hp, rfl⟩ := hallowed
      obtain ⟨p, hserved, hfree⟩ := hc.answer_create hh hp
      exact ⟨p, hserved, fun hopens => hfree (hopens name whole hp)⟩
  | append file chunk =>
      obtain ⟨name, whole, text, rest, hp, rfl, htext, -⟩ := hallowed
      obtain ⟨hserved, hfree⟩ := hc.answer_append hh hp htext chunk
      exact ⟨_, hserved, fun _ => hfree⟩
  | size path =>
      obtain ⟨name, whole, text, hp, rfl, htext⟩ := hallowed
      obtain ⟨hserved, hfree⟩ := hc.answer_size hh hp htext
      exact ⟨_, hserved, fun _ => hfree⟩
  | close | log | now | timer | entropy =>
      exact ⟨s k, ⟨rfl, hc.same k, (Bool.or_false _).symm⟩, fun _ => rfl⟩
  | _ => exact hallowed.elim

/-- **One turn** serves a request that the rules allow, whoever has it and whatever the system
refuses. -/
theorem reply (hh : f.Hosts plans d₀) (hc : f.Covers plans d₀ w.disk s)
    (hallowed : (f.rules (plans k)).Allowed (s k) r) (t : Turn) :
    ∃ p, f.Served plans d₀ s k r (w.reply t r) p := by
  by_cases hr : r = .timer
  · subst hr
    exact ⟨s k, rfl, hc.same k, (Bool.or_false _).symm⟩
  rcases w.reply_cases t hr with hanswer | ⟨hrefused, hworld⟩
  · obtain ⟨p, hserved, -⟩ := hc.answer hh hallowed
    exact ⟨p, hanswer ▸ hserved⟩
  · exact ⟨(s k).refuse, hc.served_refused hallowed hrefused hworld⟩

/-- **A worker with the disk to itself** comes to what its rules promise, and nothing is refused
if its names can be opened. -/
theorem run (hh : f.Hosts plans d₀) {α : Type} {x : Action α} {w : World} {k : Nat}
    {Q : α → Progress → Prop} (hc : f.Covers plans d₀ w.disk s)
    (hm : x.Meets (f.rules (plans k)) Q (s k)) :
    ∃ p, Q (x.run w).1 p ∧ f.Covers plans d₀ (x.run w).2.disk (Function.update s k p) ∧
      ((∀ name whole, plans k name whole → d₀.Opens f.dir name f.home) →
        p.refused = (s k).refused) := by
  induction x generalizing w s with
  | done a =>
      refine ⟨s k, hm, ?_, fun _ => rfl⟩
      rw [Function.update_eq_self]
      exact hc
  | ask r next ih =>
      obtain ⟨p, ⟨hanswers, hc', hrefused⟩, hfree⟩ := hc.answer hh hm.1
      have hm' := hm.2 _ _ hanswers
      rw [← Function.update_self k p s] at hm'
      obtain ⟨p', hQ, hc'', hrefused'⟩ := ih _ hc' hm'
      rw [Function.update_idem] at hc''
      refine ⟨p', hQ, hc'', fun hopens => ?_⟩
      rw [hrefused' hopens, Function.update_self, hrefused, hfree hopens, Bool.or_false]

end Covers

end Folder

end SampleData
