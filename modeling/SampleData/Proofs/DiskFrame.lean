import SampleData.Disk
import Mathlib.Tactic.ByContra

/-!
# Files in a directory

A path that leads to a directory goes through directories and links only, so nothing is changed
about it by what happens to files; and the path of a name inside the directory leads wherever the
directory is, to that name. So what opening a file and asking for its size give depends on the path
itself and on the one place it leads to.

* `Disk.Step`, `Disk.step_of_walk`: everything a walk can do at a part of its path.
* `Disk.Leads`: a way along directories and links to a directory.
* `Disk.Leads.walk_append`: walking goes the way, whatever stands behind it.
* `Disk.resolve_join`: the path of a name inside a directory.
* `Disk.create_join`, `Disk.opens_of_create`: opening a file under a name there.
* `Disk.find_join`, `Disk.size_join`: finding it and asking for its size.
-/

namespace SampleData

/-! ## Path texts -/

namespace Path

/-- A single part of a path that leads somewhere else: not empty, no dots for directories. -/
structure IsName (n : String) : Prop where
  ne_empty : n ≠ ""
  ne_dot : n ≠ "."
  ne_dots : n ≠ ".."
  no_slash : '/' ∉ n.toList

/-- There is no slash to part at. -/
theorem splitSlashes_of_not_mem {cs : List Char} (h : '/' ∉ cs) : splitSlashes cs = [cs] := by
  induction cs with
  | nil => rfl
  | cons c cs ih =>
      rw [List.mem_cons, not_or] at h
      rw [splitSlashes, if_neg (Ne.symm h.1), ih h.2]

/-- There is a part before every slash and one behind the last. -/
theorem splitSlashes_ne_nil (cs : List Char) : splitSlashes cs ≠ [] := by
  cases cs with
  | nil => exact List.cons_ne_nil _ _
  | cons c cs =>
      rw [splitSlashes]
      split
      · exact List.cons_ne_nil _ _
      · split <;> exact List.cons_ne_nil _ _

/-- A slash parts what stands before it from what stands behind it. -/
theorem splitSlashes_append_cons (a b : List Char) :
    splitSlashes (a ++ '/' :: b) = splitSlashes a ++ splitSlashes b := by
  induction a with
  | nil => rfl
  | cons c a ih =>
      rw [List.cons_append, splitSlashes, splitSlashes]
      by_cases hc : c = '/'
      · rw [if_pos hc, if_pos hc, ih]
        rfl
      · rw [if_neg hc, if_neg hc, ih]
        obtain ⟨p, ps, hp⟩ := List.exists_cons_of_ne_nil (splitSlashes_ne_nil a)
        rw [hp]
        rfl

/-- A name is not absolute. -/
theorem isAbsolute_of_isName {n : String} (h : IsName n) : isAbsolute n = false := by
  unfold isAbsolute
  rw [decide_eq_false_iff_not]
  intro hhead
  exact h.no_slash (List.mem_of_mem_head? hhead)

/-- The path of a name inside a directory is that of the directory, a slash unless there is one, and
the name. -/
theorem join_of_isName {dir n : String} (hdir : dir ≠ "") (hn : IsName n) :
    join dir n = if dir.toList.getLast? = some '/' then dir ++ n else dir ++ "/" ++ n := by
  have hnot : ¬ (isAbsolute n || dir.isEmpty) = true := by
    rw [isAbsolute_of_isName hn, Bool.false_or, String.isEmpty_iff]
    exact hdir
  rw [join, if_neg hnot]

/-- It begins with the path of the directory and ends in the name. -/
theorem exists_join_eq {dir n : String} (hdir : dir ≠ "") (hn : IsName n) :
    ∃ slash, join dir n = dir ++ (slash ++ n) := by
  rw [join_of_isName hdir hn]
  split
  · exact ⟨"", by rw [String.empty_append]⟩
  · exact ⟨"/", String.append_assoc⟩

/-- The parts of a name's path inside a directory are those of the directory and the name; where a
slash ends the directory's path, the empty part behind it is gone. -/
theorem parts_join {dir n : String} (hdir : dir ≠ "") (hn : IsName n) :
    parts (join dir n) = parts dir ++ [n] ∨
      ∃ ps, parts dir = ps ++ [""] ∧ parts (join dir n) = ps ++ [n] := by
  have hlast : splitSlashes n.toList = [n.toList] := splitSlashes_of_not_mem hn.no_slash
  rw [join_of_isName hdir hn]
  split
  · next hslash =>
    obtain ⟨cs, hcs⟩ := List.getLast?_eq_some_iff.mp hslash
    right
    refine ⟨(splitSlashes cs).map String.ofList, ?_, ?_⟩
    · rw [parts, hcs, splitSlashes_append_cons, List.map_append]
      rfl
    · rw [parts, String.toList_append, hcs, List.append_assoc, List.singleton_append,
        splitSlashes_append_cons, hlast, List.map_append, List.map_singleton, String.ofList_toList]
  · left
    have hsplit : (dir ++ "/" ++ n).toList = dir.toList ++ '/' :: n.toList := by
      rw [String.toList_append, String.toList_append, List.append_assoc]
      rfl
    rw [parts, hsplit, splitSlashes_append_cons, hlast, List.map_append, List.map_singleton,
      String.ofList_toList]
    rfl

/-- A name's path starts from where the directory's does. -/
theorem isAbsolute_join {dir n : String} (hdir : dir ≠ "") (hn : IsName n) :
    isAbsolute (join dir n) = isAbsolute dir := by
  obtain ⟨slash, hslash⟩ := exists_join_eq hdir hn
  rw [hslash, isAbsolute, String.toList_append, isAbsolute]
  cases hcs : dir.toList with
  | nil => exact absurd (String.toList_eq_nil_iff.mp hcs) hdir
  | cons c cs => rfl

/-- Different names have different paths. -/
theorem join_injective {dir n n' : String} (hdir : dir ≠ "") (hn : IsName n) (hn' : IsName n')
    (h : join dir n = join dir n') : n = n' := by
  have hlast : (parts (join dir n)).getLast? = some n := by
    rcases parts_join hdir hn with hp | ⟨ps, -, hp⟩ <;> rw [hp, List.getLast?_append] <;> rfl
  have hlast' : (parts (join dir n')).getLast? = some n' := by
    rcases parts_join hdir hn' with hp | ⟨ps, -, hp⟩ <;> rw [hp, List.getLast?_append] <;> rfl
  rw [h, hlast'] at hlast
  exact (Option.some.inj hlast).symm

end Path

/-- A node through which a path may lead on. -/
def Node.IsWay : Node → Prop
  | .directory => True
  | .link _ => True
  | _ => False

/-- A file or a directory. -/
def Node.IsPlain : Node → Prop
  | .directory => True
  | .file _ => True
  | _ => False

/-! ## Places -/

namespace Disk

/-- What is found at a place among places of which one has been changed. -/
theorem find?_setPlace (loc : Location) (n : Node) (ps : List (Location × Node)) (loc' : Location) :
    (setPlace loc n ps).find? (fun p => p.1 = loc') =
      if loc' = loc then some (loc, n) else ps.find? (fun p => p.1 = loc') := by
  induction ps with
  | nil =>
      by_cases h : loc' = loc
      · simp [setPlace, h]
      · simp [setPlace, h, Ne.symm h]
  | cons p ps ih =>
      rw [setPlace]
      by_cases hp : p.1 = loc
      · by_cases h : loc' = loc
        · simp [hp, h]
        · simp [hp, h, Ne.symm h]
      · rw [if_neg hp, List.find?_cons, List.find?_cons, ih]
        by_cases h : loc' = loc
        · rw [if_pos h, if_pos h, h, decide_eq_false hp]
        · rw [if_neg h, if_neg h]

/-- After a change a place holds what was put there, and every other place what it held. -/
@[simp] theorem node?_set {d : Disk} {loc : Location} {n : Node} (h : loc ≠ []) (loc' : Location) :
    (d.set loc n).node? loc' = if loc' = loc then some n else d.node? loc' := by
  unfold node? set
  by_cases hroot : loc' = []
  · rw [if_pos hroot, if_pos hroot, if_neg (by rw [hroot]; exact Ne.symm h)]
  · rw [if_neg hroot, if_neg hroot, find?_setPlace]
    split <;> rfl

/-! ## Steps of a walk -/

section steps

variable {d : Disk} {purpose : Purpose} {links : Nat} {loc : Location} {part : String}
  {rest : List String}

/-- What leads on does so: to look at what is there, or where something is named behind it. -/
theorem walk_down (hentry : IsEntry part) (hnode : d.node? (loc ++ [part]) = some .directory)
    (hon : purpose = .look ∨ rest.all (· = "") = false) :
    d.walk purpose links loc (part :: rest) = d.walk purpose links (loc ++ [part]) rest := by
  rw [walk_entry hentry, hnode]
  rcases hon with rfl | hnamed
  · simp [Purpose.look]
  · simp only [hnamed, Bool.and_false, Bool.false_and, Bool.false_eq_true, if_false]

/-- A link leads to where its text does, and one link less may be followed from there. -/
theorem walk_jump {target : String} (hentry : IsEntry part)
    (hnode : d.node? (loc ++ [part]) = some (.link target))
    (hon : purpose = .look ∨ rest.all (· = "") = false) :
    d.walk purpose (links + 1) loc (part :: rest) =
      d.walk purpose links (if Path.isAbsolute target then [] else loc)
        (Path.parts target ++ rest) := by
  rw [walk_entry hentry, hnode]
  rcases hon with rfl | hnamed
  · simp [Purpose.look]
  · simp only [hnamed, Bool.and_false, Bool.false_and, Bool.false_eq_true, if_false]

/-- How a walk to a target goes on at the first of its parts. -/
inductive Step (d : Disk) (purpose : Purpose) (links : Nat) (loc : Location) (part : String)
    (rest : List String) : Target → Prop
  | stay {target : Target} (hpart : part = "" ∨ part = ".")
      (h : d.walk purpose links loc rest = .ok target) : Step d purpose links loc part rest target
  | up {target : Target} (hdots : part = "..")
      (h : d.walk purpose links loc.dropLast rest = .ok target) :
      Step d purpose links loc part rest target
  | down {target : Target} (hentry : IsEntry part)
      (hnode : d.node? (loc ++ [part]) = some .directory)
      (h : d.walk purpose links (loc ++ [part]) rest = .ok target) :
      Step d purpose links loc part rest target
  | jump {target : Target} {left : Nat} {text : String} (hlinks : links = left + 1)
      (hentry : IsEntry part) (hnode : d.node? (loc ++ [part]) = some (.link text))
      (h : d.walk purpose left (if Path.isAbsolute text then [] else loc)
        (Path.parts text ++ rest) = .ok target) : Step d purpose links loc part rest target
  /-- Nothing stands at the last name. -/
  | free (hentry : IsEntry part) (hnode : d.node? (loc ++ [part]) = none)
      (hlast : rest.all (· = "") = true) (hslash : purpose.writing = true → rest = []) :
      Step d purpose links loc part rest (.free (loc ++ [part]) (!rest.isEmpty))
  /-- The entry of the last name itself is looked for. -/
  | entry {node : Node} (hentry : IsEntry part) (hnode : d.node? (loc ++ [part]) = some node)
      (hlast : rest.all (· = "") = true) (hfollow : purpose.follow = false) :
      Step d purpose links loc part rest (.present (loc ++ [part]) node)
  /-- What stands at the last name leads nowhere. -/
  | stop {node : Node} (hentry : IsEntry part) (hnode : d.node? (loc ++ [part]) = some node)
      (hrest : rest = []) (hway : ¬ node.IsWay) :
      Step d purpose links loc part rest (.present (loc ++ [part]) node)

/-- Whatever a walk to a target does first is one of these. -/
theorem step_of_walk {target : Target}
    (h : d.walk purpose links loc (part :: rest) = .ok target) :
    d.Step purpose links loc part rest target := by
  by_cases hpart : part = "" ∨ part = "."
  · rw [walk_stay hpart] at h
    exact .stay hpart h
  by_cases hdots : part = ".."
  · subst hdots
    rw [walk_up] at h
    exact .up rfl h
  by_cases hsize : maxName < part.utf8ByteSize
  · obtain ⟨e, he⟩ := walk_long hpart hdots hsize
    cases he.symm.trans h
  have hentry : IsEntry part := ⟨hpart, hdots, Nat.not_lt.mp hsize⟩
  rw [walk_entry hentry] at h
  split at h
  · cases h
  next hslash =>
  split at h
  · next hnode =>
    split at h
    · next hlast =>
      obtain rfl := Except.ok.inj h
      refine .free hentry hnode hlast fun hwriting => ?_
      rw [hwriting, hlast] at hslash
      simpa using hslash
    · cases h
  next node hnode =>
  split at h
  · next hlast =>
    obtain rfl := Except.ok.inj h
    rw [Bool.and_eq_true, Bool.not_eq_true'] at hlast
    exact .entry hentry hnode hlast.1 hlast.2
  cases node with
  | directory => exact .down hentry hnode h
  | link text =>
      cases links with
      | zero => cases h
      | succ links => exact .jump rfl hentry hnode h
  | file | nullDevice | fullDevice =>
      dsimp only at h
      split at h
      · next hrest =>
        obtain rfl := Except.ok.inj h
        exact .stop hentry hnode (List.isEmpty_iff.mp hrest) nofun
      · cases h

end steps

/-! ## Ways to a directory -/

/-- A way from a directory along parts to another, and how many more links may be followed behind
it. -/
inductive Leads (d : Disk) : Nat → Location → List String → Location → Nat → Prop
  | here (links : Nat) (loc : Location) : Leads d links loc [] loc links
  | stay {links left : Nat} {loc home : Location} {part : String} {rest : List String}
      (hpart : part = "" ∨ part = ".") (h : Leads d links loc rest home left) :
      Leads d links loc (part :: rest) home left
  | up {links left : Nat} {loc home : Location} {rest : List String}
      (h : Leads d links loc.dropLast rest home left) : Leads d links loc (".." :: rest) home left
  | down {links left : Nat} {loc home : Location} {part : String} {rest : List String}
      (hentry : IsEntry part) (hnode : d.node? (loc ++ [part]) = some .directory)
      (h : Leads d links (loc ++ [part]) rest home left) :
      Leads d links loc (part :: rest) home left
  | jump {links left : Nat} {loc home : Location} {part target : String} {rest : List String}
      (hentry : IsEntry part) (hnode : d.node? (loc ++ [part]) = some (.link target))
      (h : Leads d links (if Path.isAbsolute target then [] else loc) (Path.parts target ++ rest)
        home left) : Leads d (links + 1) loc (part :: rest) home left

/-- A walk that ends at a directory has gone a way to it. -/
theorem leads_of_walk {d : Disk} {links : Nat} {loc home : Location} {parts : List String}
    (h : d.walk .look links loc parts = .ok (.present home .directory)) :
    ∃ left, Leads d links loc parts home left := by
  cases parts with
  | nil =>
      rw [walk_nil] at h
      cases h
      exact ⟨links, .here links loc⟩
  | cons part rest =>
      cases step_of_walk h with
      | stay hpart h =>
          obtain ⟨left, hleads⟩ := leads_of_walk h
          exact ⟨left, .stay hpart hleads⟩
      | up hdots h =>
          obtain ⟨left, hleads⟩ := leads_of_walk h
          exact ⟨left, hdots ▸ .up hleads⟩
      | down hentry hnode h =>
          obtain ⟨left, hleads⟩ := leads_of_walk h
          exact ⟨left, .down hentry hnode hleads⟩
      | jump hlinks hentry hnode h =>
          obtain ⟨left, hleads⟩ := leads_of_walk h
          exact ⟨left, hlinks ▸ .jump hentry hnode hleads⟩
      -- to look, every link is followed
      | entry _ _ _ hfollow => cases hfollow
      | stop _ _ _ hway => exact absurd trivial hway
termination_by (links, parts.length)

namespace Leads

variable {d d' : Disk} {links left : Nat} {loc home : Location} {ps : List String}

/-- A way stays while its directories and links do. -/
theorem of_stays (h : Leads d links loc ps home left)
    (hstays : ∀ place n, d.node? place = some n → n.IsWay → d'.node? place = some n) :
    Leads d' links loc ps home left := by
  induction h with
  | here links loc => exact .here links loc
  | stay hpart _ ih => exact .stay hpart ih
  | up _ ih => exact .up ih
  | down hentry hnode _ ih => exact .down hentry (hstays _ _ hnode trivial) ih
  | jump hentry hnode _ ih => exact .jump hentry (hstays _ _ hnode trivial) ih

/-- An empty part at the end of a way leads nowhere. -/
theorem of_append_empty (h : Leads d links loc (ps ++ [""]) home left) :
    Leads d links loc ps home left := by
  generalize hqs : ps ++ [""] = qs at h
  induction h generalizing ps with
  | here links loc => simp at hqs
  | stay hpart h ih =>
      cases ps with
      | nil =>
          obtain ⟨-, rfl⟩ := List.cons.inj hqs
          exact h
      | cons p ps =>
          obtain ⟨rfl, hrest⟩ := List.cons.inj hqs
          exact .stay hpart (ih hrest)
  | up h ih =>
      cases ps with
      | nil => exact absurd (List.cons.inj hqs).1 (by decide)
      | cons p ps =>
          obtain ⟨rfl, hrest⟩ := List.cons.inj hqs
          exact .up (ih hrest)
  | down hentry hnode h ih =>
      cases ps with
      | nil => exact absurd (.inl (List.cons.inj hqs).1.symm) hentry.not_here
      | cons p ps =>
          obtain ⟨rfl, hrest⟩ := List.cons.inj hqs
          exact .down hentry hnode (ih hrest)
  | jump hentry hnode h ih =>
      cases ps with
      | nil => exact absurd (.inl (List.cons.inj hqs).1.symm) hentry.not_here
      | cons p ps =>
          obtain ⟨rfl, hrest⟩ := List.cons.inj hqs
          refine .jump hentry hnode (ih ?_)
          rw [← hrest]
          exact List.append_assoc _ _ _

/-- Walking goes the way, if something is named behind it. -/
theorem walk_append (h : Leads d links loc ps home left) (purpose : Purpose) {qs : List String}
    (hqs : qs.all (· = "") = false) :
    Disk.walk d purpose links loc (ps ++ qs) = Disk.walk d purpose left home qs := by
  have hlast : ∀ rest : List String, (rest ++ qs).all (· = "") = false := by
    intro rest
    rw [List.all_append, hqs, Bool.and_false]
  induction h with
  | here links loc => rfl
  | stay hpart _ ih => rw [List.cons_append, walk_stay hpart, ih]
  | up _ ih => rw [List.cons_append, walk_up, ih]
  | down hentry hnode _ ih =>
      rw [List.cons_append, walk_down hentry hnode (.inr (hlast _)), ih]
  | jump hentry hnode _ ih =>
      rw [List.append_assoc] at ih
      rw [List.cons_append, walk_jump hentry hnode (.inr (hlast _)), ih]

end Leads

/-! ## A name inside a directory -/

/-- The path is a path, and its last name a name, as the system takes them. -/
structure TakesPath (path name : String) : Prop where
  no_nul : path.toList.contains '\x00' = false
  path_size : path.utf8ByteSize ≤ maxPath
  name_size : name.utf8ByteSize ≤ maxName

/-- The other disk has the same directories and links, and perhaps more. -/
structure Extends (d d' : Disk) : Prop where
  current : d'.current = d.current
  ways : ∀ place n, d.node? place = some n → n.IsWay → d'.node? place = some n

/-- The text is a path, as the system takes it. -/
structure IsPath (path : String) : Prop where
  no_nul : path.toList.contains '\x00' = false
  ne_empty : path ≠ ""
  size : path.utf8ByteSize ≤ maxPath

variable {d d' : Disk} {dir name : String} {home : Location}

/-- Only what is a path is resolved. -/
theorem isPath_of_resolve {path : String} {purpose : Purpose} {target : Target}
    (h : d.resolve purpose path = .ok target) : IsPath path := by
  unfold resolve at h
  split at h
  · cases h
  next hnul =>
  split at h
  · cases h
  next hempty =>
  split at h
  · cases h
  next hsize =>
  exact ⟨Bool.eq_false_iff.mpr hnul, mt String.isEmpty_iff.mpr hempty, Nat.not_lt.mp hsize⟩

/-- To resolve a path is to walk along its parts, on every disk and whatever it is for. -/
theorem IsPath.resolve_eq {path : String} (h : IsPath path) (d : Disk) (purpose : Purpose) :
    d.resolve purpose path = d.walk purpose maxLinks
      (if Path.isAbsolute path then [] else d.current) (Path.parts path) := by
  rw [resolve, h.no_nul, if_neg Bool.false_ne_true, if_neg (mt String.isEmpty_iff.mp h.ne_empty),
    if_neg (Nat.not_lt.mpr h.size)]

/-- What is resolved was walked to. -/
theorem walk_of_resolve {path : String} {purpose : Purpose} {target : Target}
    (h : d.resolve purpose path = .ok target) :
    d.walk purpose maxLinks (if Path.isAbsolute path then [] else d.current) (Path.parts path) =
      .ok target := by
  rw [← (isPath_of_resolve h).resolve_eq]
  exact h

/-- A path that is found to lead to a directory goes a way to it. -/
theorem leads_of_find (hdir : d.find dir = .ok (home, .directory)) :
    dir ≠ "" ∧ ∃ left,
      d.Leads maxLinks (if Path.isAbsolute dir then [] else d.current) (Path.parts dir) home
        left := by
  unfold find at hdir
  cases hr : d.resolve .look dir with
  | error e => rw [hr] at hdir; cases hdir
  | ok target =>
      rw [hr] at hdir
      cases target with
      | free loc slash => cases hdir
      | present loc n =>
          obtain ⟨rfl, rfl⟩ := Prod.mk.inj (Except.ok.inj hdir)
          exact ⟨(isPath_of_resolve hr).ne_empty, leads_of_walk (walk_of_resolve hr)⟩

/-- Resolving the path of a name inside a directory comes down to the last step of the walk, on
every disk that extends the one the directory was found on. -/
theorem resolve_join (hdir : d.find dir = .ok (home, .directory)) (hd : d.Extends d')
    (hname : Path.IsName name) (hnul : (Path.join dir name).toList.contains '\x00' = false)
    (hsize : (Path.join dir name).utf8ByteSize ≤ maxPath) :
    ∃ left, ∀ purpose, d'.resolve purpose (Path.join dir name) =
      d'.walk purpose left home [name] := by
  obtain ⟨hne, left, hleads⟩ := leads_of_find hdir
  have hleads' := hleads.of_stays hd.ways
  refine ⟨left, fun purpose => ?_⟩
  have hnamed : [name].all (· = "") = false := by simp [hname.ne_empty]
  have hwalk : d'.walk purpose maxLinks (if Path.isAbsolute dir then [] else d.current)
      (Path.parts (Path.join dir name)) = d'.walk purpose left home [name] := by
    rcases Path.parts_join hne hname with hparts | ⟨ps, hps, hparts⟩
    · rw [hparts]
      exact hleads'.walk_append purpose hnamed
    · rw [hps] at hleads'
      rw [hparts]
      exact hleads'.of_append_empty.walk_append purpose hnamed
  have hpath : IsPath (Path.join dir name) := by
    refine ⟨hnul, fun hempty => ?_, hsize⟩
    rcases Path.parts_join hne hname with hparts | ⟨ps, -, hparts⟩
    all_goals
      have hlast := congrArg List.getLast? hparts
      rw [hempty, List.getLast?_append] at hlast
      exact hname.ne_empty (Option.some.inj hlast).symm
  rw [hpath.resolve_eq, Path.isAbsolute_join hne hname, hd.current, hwalk]

/-- A name that is not too long names an entry. -/
theorem isEntry_of_isName (hname : Path.IsName name) (hsize : name.utf8ByteSize ≤ maxName) :
    IsEntry name where
  not_here := not_or.mpr ⟨hname.ne_empty, hname.ne_dot⟩
  not_up := hname.ne_dots
  size := hsize

/-- A name at which nothing stands is free. -/
theorem walk_free (hname : Path.IsName name) (hsize : name.utf8ByteSize ≤ maxName)
    (hnode : d.node? (home ++ [name]) = none) (purpose : Purpose) (left : Nat) :
    d.walk purpose left home [name] = .ok (.free (home ++ [name]) false) := by
  rw [walk_entry (isEntry_of_isName hname hsize)]
  simp [hnode]

/-- A name at which a file or a directory stands leads to it. -/
theorem walk_present (hname : Path.IsName name) (hsize : name.utf8ByteSize ≤ maxName) {n : Node}
    (hnode : d.node? (home ++ [name]) = some n) (hn : n.IsPlain) (purpose : Purpose) (left : Nat) :
    d.walk purpose left home [name] = .ok (.present (home ++ [name]) n) := by
  rw [walk_entry (isEntry_of_isName hname hsize), hnode]
  cases n with
  | directory => simp
  | file content => simp
  | link target => exact hn.elim
  | nullDevice => exact hn.elim
  | fullDevice => exact hn.elim

/-- Only what is a path to the system, with a name at its end, is resolved. -/
theorem takesPath_of_resolve (hdir : d.find dir = .ok (home, .directory)) (hd : d.Extends d')
    (hname : Path.IsName name) {purpose : Purpose} {target : Target}
    (h : d'.resolve purpose (Path.join dir name) = .ok target) :
    TakesPath (Path.join dir name) name := by
  have hchecks := isPath_of_resolve h
  refine ⟨hchecks.no_nul, hchecks.size, ?_⟩
  obtain ⟨left, hwalk⟩ := resolve_join hdir hd hname hchecks.no_nul hchecks.size
  rw [hwalk] at h
  cases step_of_walk h with
  | stay hpart => exact (not_or.mpr ⟨hname.ne_empty, hname.ne_dot⟩ hpart).elim
  | up hdots => exact absurd hdots hname.ne_dots
  | down hentry => exact hentry.size
  | jump _ hentry => exact hentry.size
  | free hentry => exact hentry.size
  | entry hentry => exact hentry.size
  | stop hentry => exact hentry.size

/-- A file can be opened under a name: the path is one to the system, and no directory stands
there. -/
structure Opens (d : Disk) (dir name : String) (home : Location) : Prop where
  path : TakesPath (Path.join dir name) name
  no_directory : d.node? (home ++ [name]) ≠ some .directory

/-- Opening a file under a name at which nothing or a file stands leaves an empty file there. -/
theorem create_join (hdir : d.find dir = .ok (home, .directory)) (hd : d.Extends d')
    (hname : Path.IsName name) (hpath : TakesPath (Path.join dir name) name)
    (hnode : d'.node? (home ++ [name]) = none ∨ ∃ t, d'.node? (home ++ [name]) = some (.file t)) :
    d'.create (Path.join dir name) false =
      .ok (home ++ [name], d'.set (home ++ [name]) (.file "")) := by
  obtain ⟨left, hwalk⟩ := resolve_join hdir hd hname hpath.no_nul hpath.path_size
  unfold create
  rw [hwalk]
  rcases hnode with hnode | ⟨t, hnode⟩
  · rw [walk_free hname hpath.name_size hnode]
  · rw [walk_present hname hpath.name_size hnode trivial]
    rfl

/-- Where opening a file under a name succeeds, it could be opened: with a file or nothing there. -/
theorem opens_of_create (hdir : d.find dir = .ok (home, .directory)) (hd : d.Extends d')
    (hname : Path.IsName name) {r : Location × Disk}
    (h : d'.create (Path.join dir name) false = .ok r) :
    d'.Opens dir name home := by
  have hpath : TakesPath (Path.join dir name) name := by
    unfold create at h
    split at h
    · cases h
    · next hr => exact takesPath_of_resolve hdir hd hname hr
    · next hr => exact takesPath_of_resolve hdir hd hname hr
  refine ⟨hpath, fun hnode => ?_⟩
  obtain ⟨left, hwalk⟩ := resolve_join hdir hd hname hpath.no_nul hpath.path_size
  unfold create at h
  rw [hwalk, walk_present hname hpath.name_size hnode trivial] at h
  cases h

/-- A file under a name is found under its path. -/
theorem find_join (hdir : d.find dir = .ok (home, .directory)) (hd : d.Extends d')
    (hname : Path.IsName name) (hpath : TakesPath (Path.join dir name) name) {t : String}
    (hnode : d'.node? (home ++ [name]) = some (.file t)) :
    d'.find (Path.join dir name) = .ok (home ++ [name], .file t) := by
  obtain ⟨left, hwalk⟩ := resolve_join hdir hd hname hpath.no_nul hpath.path_size
  unfold find
  rw [hwalk, walk_present hname hpath.name_size hnode trivial]

/-- The size of a file under a name is that of its text. -/
theorem size_join (hdir : d.find dir = .ok (home, .directory)) (hd : d.Extends d')
    (hname : Path.IsName name) (hpath : TakesPath (Path.join dir name) name) {t : String}
    (hnode : d'.node? (home ++ [name]) = some (.file t)) :
    d'.size (Path.join dir name) = .ok t.utf8ByteSize := by
  unfold size
  rw [find_join hdir hd hname hpath hnode]
  rfl

/-- Text is put behind that of a file. -/
theorem append_file {loc : Location} {t : String} (hnode : d.node? loc = some (.file t))
    (chunk : String) : d.append loc chunk = .ok (d.set loc (.file (t ++ chunk))) := by
  unfold append
  rw [hnode]

end Disk

end SampleData
