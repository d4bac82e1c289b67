import SampleData.Proofs.DirectoryEntries
import SampleData.Proofs.Requests

/-!
# Footprints

A run touches the files under names of its own in a directory, and if it is to clear the directory,
the files there that have the extension of output files. Everything else stays as it is at any time,
whatever is refused: it is enough that each request keeps to that. Where a file is opened is known
from the answer only, and so is what there is to be cleared away; so the rules for a footprint tell
what is known of the answers too.

Nothing but files and directories may stand under the names that may be touched, since a link under
an own name is written through. The directory need not be there.

* `Footprint`, `Footprint.Suits`: what may be touched, and on which disks.
* `Footprint.Kept`: a disk on which nothing else was.
* `Footprint.Kept.create`, `Footprint.Kept.remove`: a file is opened, or taken away.
* `Footprint.rules`, `Footprint.Kept.reply`: one request that keeps to the footprint.
-/

namespace SampleData

/-! ## Footprints -/

/-- A disk of files and directories, each under a name: there are no links and no devices. -/
structure Disk.IsTree (d : Disk) : Prop where
  plain : ∀ {place n}, d.node? place = some n → n.IsPlain
  named : ∀ {place name n}, d.node? (place ++ [name]) = some n → Path.IsName name

instance (n : String) : Decidable (Path.IsName n) :=
  decidable_of_iff (n ≠ "" ∧ n ≠ "." ∧ n ≠ ".." ∧ '/' ∉ n.toList)
    ⟨fun h => ⟨h.1, h.2.1, h.2.2.1, h.2.2.2⟩, fun h => ⟨h.1, h.2, h.3, h.4⟩⟩

instance : DecidablePred Node.IsPlain
  | .directory | .file _ => .isTrue trivial
  | .link _ | .nullDevice | .fullDevice => .isFalse id

/-- It is enough that the places are so. -/
theorem Disk.isTree_of_places {d : Disk}
    (h : ∀ p ∈ d.places, p.2.IsPlain ∧ ∀ name ∈ p.1.getLast?, Path.IsName name) : d.IsTree := by
  have hmem : ∀ {place n}, d.node? place = some n → place ≠ [] → (place, n) ∈ d.places := by
    intro place n hnode hne
    rw [node?, if_neg hne] at hnode
    obtain ⟨p, hp, rfl⟩ := Option.map_eq_some_iff.mp hnode
    have hplace : p.1 = place := by simpa using List.find?_some hp
    exact hplace ▸ List.mem_of_find?_eq_some hp
  constructor
  · intro place n hnode
    by_cases hroot : place = []
    · rw [hroot] at hnode
      obtain rfl : Node.directory = n := Option.some.inj hnode
      trivial
    · exact (h _ (hmem hnode hroot)).1
  · intro place name n hnode
    exact (h _ (hmem hnode (by simp))).2 name (by simp)

/-- What a run may touch: files under its own names in a directory, and if it clears the directory,
files that have the extension of output files. -/
structure Footprint where
  dir : String
  own : String → Prop
  clears : Prop
  dir_ne : dir ≠ ""
  named : ∀ {name}, own name → Path.IsName name

namespace Footprint

variable {p : Footprint} {d₀ d d' : Disk} {place : Location}

/-- The place of an own name in the directory. -/
def Owns (p : Footprint) (d : Disk) (place : Location) : Prop :=
  ∃ home name, d.find p.dir = .ok (home, .directory) ∧ place = home ++ [name] ∧ p.own name

/-- The place of a file that may be cleared away. -/
def Sweeps (p : Footprint) (d : Disk) (place : Location) : Prop :=
  p.clears ∧ ∃ home name, d.find p.dir = .ok (home, .directory) ∧ place = home ++ [name] ∧
    Path.extension? name = some fileExtension ∧ ∃ t, d.node? place = some (.file t)

/-- The directory, if it is there, is one that the footprint can be kept to: its entries have names,
and nothing but files and directories stands under those that may be touched. -/
structure Suits (p : Footprint) (d : Disk) : Prop where
  isName : ∀ {home name n}, d.find p.dir = .ok (home, .directory) →
    d.node? (home ++ [name]) = some n → Path.IsName name
  plain : ∀ {home name n}, d.find p.dir = .ok (home, .directory) →
    (p.own name ∨ p.clears ∧ Path.extension? name = some fileExtension) →
      d.node? (home ++ [name]) = some n → n.IsPlain

/-- A disk of files and directories suits every footprint. -/
theorem suits_of_isTree (h : d.IsTree) : p.Suits d := ⟨fun _ => h.named, fun _ _ => h.plain⟩

/-- The disk is what has become of another one, and nothing but what may be touched is changed:
nothing or a file stands there, where nothing or a file stood. -/
structure Kept (p : Footprint) (d₀ d : Disk) : Prop where
  current : d.current = d₀.current
  node : ∀ place, d.node? place = d₀.node? place ∨
    (p.Owns d₀ place ∨ p.Sweeps d₀ place) ∧ (∀ n, d₀.node? place = some n → ¬ n.IsWay) ∧
      ∀ n, d.node? place = some n → ∃ t, n = .file t

/-- Nothing is changed. -/
theorem Kept.refl (p : Footprint) (d : Disk) : p.Kept d d := ⟨rfl, fun _ => .inl rfl⟩

namespace Kept

/-- Directories and links stay. -/
theorem extends_disk (h : p.Kept d₀ d) : d₀.Extends d where
  current := h.current
  ways place n hnode hway := by
    rcases h.node place with hsame | ⟨-, hno, -⟩
    · rw [hsame, hnode]
    · exact absurd hway (hno n hnode)

/-- No others come. -/
theorem disk_extends (h : p.Kept d₀ d) : d.Extends d₀ where
  current := h.current.symm
  ways place n hnode hway := by
    rcases h.node place with hsame | ⟨-, -, hfile⟩
    · rw [← hsame, hnode]
    · obtain ⟨t, rfl⟩ := hfile n hnode
      exact hway.elim

/-- The directory is where it was, and there is no other. -/
theorem find_iff (h : p.Kept d₀ d) {home : Location} :
    d.find p.dir = .ok (home, .directory) ↔ d₀.find p.dir = .ok (home, .directory) :=
  ⟨fun hfind => Disk.find_of_extends hfind h.disk_extends,
    fun hfind => Disk.find_of_extends hfind h.extends_disk⟩

/-- The disk still suits the footprint. -/
theorem suits (h : p.Kept d₀ d) (hsuits : p.Suits d₀) : p.Suits d where
  isName := by
    intro home name n hfind hnode
    have hfind₀ := h.find_iff.mp hfind
    rcases h.node (home ++ [name]) with hsame | ⟨⟨home', name', -, hplace, hown⟩ | hsweeps, -⟩
    · exact hsuits.isName hfind₀ (hsame ▸ hnode)
    · obtain ⟨-, hname⟩ := List.append_inj' hplace rfl
      exact (List.cons.inj hname).1 ▸ p.named hown
    · obtain ⟨-, home', name', -, -, -, t, hfile⟩ := hsweeps
      exact hsuits.isName hfind₀ hfile
  plain := by
    intro home name n hfind htouch hnode
    rcases h.node (home ++ [name]) with hsame | ⟨-, -, hfile⟩
    · exact hsuits.plain (h.find_iff.mp hfind) htouch (hsame ▸ hnode)
    · obtain ⟨t, rfl⟩ := hfile n hnode
      trivial

/-- A change at a place that may be touched, where nothing or a file stands before and after. -/
theorem change (h : p.Kept d₀ d) (htouch : p.Owns d₀ place ∨ p.Sweeps d₀ place)
    (hcurrent : d'.current = d.current)
    (hbefore : ∀ n, d.node? place = some n → ∃ t, n = .file t)
    (hafter : ∀ n, d'.node? place = some n → ∃ t, n = .file t)
    (hothers : ∀ place', place' ≠ place → d'.node? place' = d.node? place') : p.Kept d₀ d' where
  current := hcurrent.trans h.current
  node place' := by
    by_cases hplace : place' = place
    · subst hplace
      refine .inr ⟨htouch, ?_, hafter⟩
      rcases h.node place' with hsame | ⟨-, hno, -⟩
      · intro n hn hway
        obtain ⟨t, rfl⟩ := hbefore n (hsame ▸ hn)
        exact hway
      · exact hno
    · rw [hothers place' hplace]
      exact h.node place'

/-- A file that is put where nothing or a file stood. -/
theorem set (h : p.Kept d₀ d) (hown : p.Owns d₀ place)
    (hbefore : ∀ n, d.node? place = some n → ∃ t, n = .file t) (text : String) :
    p.Kept d₀ (d.set place (.file text)) := by
  have hplace : place ≠ [] := by
    obtain ⟨home, name, -, rfl, -⟩ := hown
    simp
  refine h.change (.inl hown) rfl hbefore ?_ fun place' hne => ?_
  · intro n hn
    obtain rfl : .file text = n := by simpa [hplace] using hn
    exact ⟨text, rfl⟩
  · simp [hplace, hne]

/-- Where an entry of the directory is reached, the directory is where it was at first. -/
theorem home_of_isOk (h : p.Kept d₀ d) {α : Type} {x : Except OsError α} {a : α} (hx : x = .ok a)
    (hmissing : (∀ home, d.find p.dir ≠ .ok (home, .directory)) → x.isOk = false) :
    ∃ home, d₀.find p.dir = .ok (home, .directory) := by
  by_contra hno
  have hfails := hmissing fun home hfind =>
    hno ⟨home, Disk.find_of_extends hfind h.disk_extends⟩
  rw [hx] at hfails
  cases hfails

/-- Opening a file under an own name. -/
theorem create (h : p.Kept d₀ d) (hsuits : p.Suits d₀) {name : String} (hown : p.own name)
    {file : Location} (hcreate : d.create (Path.join p.dir name) false = .ok (file, d')) :
    p.Owns d₀ file ∧ p.Kept d₀ d' := by
  have hname := p.named hown
  obtain ⟨home, hfind⟩ := h.home_of_isOk hcreate fun hmissing =>
    Disk.create_missing p.dir_ne hmissing hname false
  have hopens := Disk.opens_of_create hfind h.extends_disk hname hcreate
  have hbefore : d.node? (home ++ [name]) = none ∨
      ∃ t, d.node? (home ++ [name]) = some (.file t) := by
    cases hnode : d.node? (home ++ [name]) with
    | none => exact .inl rfl
    | some n =>
        have hplain := (h.suits hsuits).plain (h.find_iff.mpr hfind) (.inl hown) hnode
        cases n with
        | file t => exact .inr ⟨t, rfl⟩
        | directory => exact absurd hnode hopens.no_directory
        | link | nullDevice | fullDevice => exact hplain.elim
  rw [Disk.create_join hfind h.extends_disk hname hopens.path hbefore] at hcreate
  obtain ⟨rfl, rfl⟩ := Prod.mk.inj (Except.ok.inj hcreate)
  have howns : p.Owns d₀ (home ++ [name]) := ⟨home, name, hfind, rfl, hown⟩
  refine ⟨howns, h.set howns (fun n hn => ?_) ""⟩
  rcases hbefore with hnone | ⟨t, ht⟩
  · rw [hnone] at hn
    cases hn
  · exact ⟨t, Option.some.inj (hn.symm.trans ht)⟩

/-- Text at the end of what stands under an own name. -/
theorem append (h : p.Kept d₀ d) {file : Location} (hown : p.Owns d₀ file) {chunk : String}
    (happend : d.append file chunk = .ok d') : p.Kept d₀ d' := by
  unfold Disk.append at happend
  split at happend
  · next content hnode =>
    obtain rfl := Except.ok.inj happend
    exact h.set hown (fun n hn => ⟨content, Option.some.inj (hn.symm.trans hnode)⟩) _
  · cases happend
  · obtain rfl := Except.ok.inj happend
    exact h

/-- Taking away a file with the extension of output files. -/
theorem remove (h : p.Kept d₀ d) (hsuits : p.Suits d₀) (hclears : p.clears) {name : String}
    (hname : Path.IsName name) (hext : Path.extension? name = some fileExtension)
    (hremove : d.remove (Path.join p.dir name) = .ok d') : p.Kept d₀ d' := by
  obtain ⟨home, hfind⟩ := h.home_of_isOk hremove fun hmissing =>
    Disk.remove_missing p.dir_ne hmissing hname
  obtain ⟨⟨t, ht⟩, rfl⟩ := Disk.remove_join hfind h.extends_disk hname
    (fun n hn => (h.suits hsuits).plain (h.find_iff.mpr hfind) (.inr ⟨hclears, hext⟩) hn) hremove
  have hplace : home ++ [name] ≠ [] := by simp
  have htouch : p.Owns d₀ (home ++ [name]) ∨ p.Sweeps d₀ (home ++ [name]) := by
    rcases h.node (home ++ [name]) with hsame | ⟨htouch, -⟩
    · exact .inr ⟨hclears, home, name, hfind, rfl, hext, t, hsame ▸ ht⟩
    · exact htouch
  refine h.change htouch rfl (fun n hn => ⟨t, Option.some.inj (hn.symm.trans ht)⟩) ?_ ?_
  · intro n hn
    simp at hn
  · intro place' hne
    simp [hne]

/-- What is listed in the directory are names. -/
theorem isName_of_list (h : p.Kept d₀ d) (hsuits : p.Suits d₀) {names : List String}
    (hlist : d.list p.dir = .ok names) : ∀ name ∈ names, Path.IsName name := by
  obtain ⟨home, hfind⟩ := h.home_of_isOk hlist Disk.list_missing
  rw [Disk.list_of_extends hfind h.extends_disk] at hlist
  obtain rfl := Except.ok.inj hlist
  intro name hname
  obtain ⟨n, hn⟩ := Disk.mem_names_iff.mp hname
  exact (h.suits hsuits).isName (h.find_iff.mpr hfind) hn

end Kept

/-! ## Requests that keep to a footprint -/

/-- What may be asked for, and what is known of the answers: opened files are those of own names,
and what is listed are names. -/
def rules (p : Footprint) (d : Disk) : Rules Unit where
  Allowed _
    | .create path fresh => fresh = false ∧ ∃ name, p.own name ∧ path = Path.join p.dir name
    | .append file _ => p.Owns d file
    | .remove path => p.clears ∧ ∃ name, Path.IsName name ∧
        Path.extension? name = some fileExtension ∧ path = Path.join p.dir name
    | _ => True
  Answers _
    | .create _ _, .ok file, _ => p.Owns d file
    | .list dir, .ok names, _ => dir = p.dir → ∀ name ∈ names, Path.IsName name
    | _, _, _ => True

/-- A refusal tells nothing. -/
theorem answers_of_refused {r : Request} {a : r.Answer} (ha : r.isRefused a = true) :
    (p.rules d₀).Answers () r a () := by
  cases r with
  | create | list =>
      cases a with
      | ok _ => cases ha
      | error e => trivial
  | _ => trivial

/-- **The world's answer** to a request that keeps to the footprint. -/
theorem Kept.answer {w : World} (h : p.Kept d₀ w.disk) (hsuits : p.Suits d₀) {r : Request}
    (hallowed : (p.rules d₀).Allowed () r) :
    p.Kept d₀ (w.answer r).2.disk ∧ (p.rules d₀).Answers () r (w.answer r).1 () := by
  cases r with
  | kind | canonical | read | size | print | close | log | now | timer | entropy =>
      exact ⟨h, trivial⟩
  | list dir =>
      refine ⟨h, ?_⟩
      cases hlist : w.disk.list dir with
      | error e => simp [hlist, rules]
      | ok names =>
          simp only [World.answer, hlist]
          rintro rfl
          exact h.isName_of_list hsuits hlist
  | create path fresh =>
      obtain ⟨rfl, name, hown, rfl⟩ := hallowed
      cases hcreate : w.disk.create (Path.join p.dir name) false with
      | error e => simp [hcreate, rules, h]
      | ok opened =>
          simp only [World.answer, hcreate]
          exact (h.create hsuits hown hcreate).symm
  | append file chunk =>
      cases happend : w.disk.append file chunk with
      | error e => simp [happend, rules, h, Except.map]
      | ok d' =>
          simp only [World.answer, happend]
          exact ⟨h.append hallowed happend, trivial⟩
  | remove path =>
      obtain ⟨hclears, name, hname, hext, rfl⟩ := hallowed
      cases hremove : w.disk.remove (Path.join p.dir name) with
      | error e => simp [hremove, rules, h, Except.map]
      | ok d' =>
          simp only [World.answer, hremove]
          exact ⟨h.remove hsuits hclears hname hext hremove, trivial⟩

/-- **One request that keeps to the footprint**, whatever the system refuses. -/
theorem Kept.reply {w : World} (h : p.Kept d₀ w.disk) (hsuits : p.Suits d₀) {r : Request}
    (hallowed : (p.rules d₀).Allowed () r) (t : Turn) :
    p.Kept d₀ (w.reply t r).2.disk ∧ (p.rules d₀).Answers () r (w.reply t r).1 () := by
  by_cases hr : r = .timer
  · subst hr
    exact ⟨h, trivial⟩
  rcases w.reply_cases t hr with hanswer | ⟨hrefused, hworld⟩
  · rw [hanswer]
    exact h.answer hsuits hallowed
  · rw [hworld]
    exact ⟨h, answers_of_refused hrefused⟩

end Footprint

end SampleData
