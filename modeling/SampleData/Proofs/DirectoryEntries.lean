import SampleData.Proofs.MissingDirectory

/-!
# Entries of a directory

What is looked at, listed and taken away in a directory are its entries. As long as directories and
links stay where they are, the path of a name in the directory leads to the entry of that name; and
where the entry is a file or a directory, looking at it and taking it away are about that one place.

* `Disk.node?_erase`, `Disk.mem_names_iff`: places that are taken away, and the names that are
  listed.
* `Disk.find_of_extends`, `Disk.list_of_extends`: the directory itself.
* `Disk.eq_of_resolve_join`, `Disk.eq_of_find_join`: what is found under a name.
* `Disk.remove_join`, `Disk.remove_file`: what is taken away under a name.
* `Disk.remove_missing`, `Disk.list_missing`: where there is no directory.
-/

namespace SampleData

namespace Disk

/-! ## Places -/

/-- After something was taken away, a place is free, and every other place holds what it held. -/
@[simp] theorem node?_erase {d : Disk} {loc : Location} (h : loc ≠ []) (loc' : Location) :
    (d.erase loc).node? loc' = if loc' = loc then none else d.node? loc' := by
  unfold node? erase
  by_cases hroot : loc' = []
  · rw [if_pos hroot, if_pos hroot, if_neg (by rw [hroot]; exact Ne.symm h)]
  · rw [if_neg hroot, if_neg hroot, List.find?_filter]
    split
    · next heq =>
      rw [Option.map_eq_none_iff, List.find?_eq_none]
      intro p _
      simp [heq]
    · next hne =>
      congr 2
      funext p
      by_cases hp : p.1 = loc'
      · simp [hp, hne]
      · simp [hp]

/-- The names inside a directory are those under which something stands. -/
theorem mem_names_iff {d : Disk} {dir : Location} {name : String} :
    name ∈ d.names dir ↔ ∃ n, d.node? (dir ++ [name]) = some n := by
  have hplace : dir ++ [name] ≠ [] := by simp
  unfold names node?
  rw [if_neg hplace, List.mem_filterMap]
  constructor
  · rintro ⟨p, hp, hname⟩
    have hloc : p.1 = dir ++ [name] := by
      split at hname
      · split at hname
        · next hloc =>
          rw [hloc, Option.some.inj hname]
        · cases hname
      · cases hname
    have hsome : (d.places.find? fun p => p.1 = dir ++ [name]).isSome :=
      List.find?_isSome.mpr ⟨p, hp, decide_eq_true hloc⟩
    obtain ⟨q, hq⟩ := Option.isSome_iff_exists.mp hsome
    exact ⟨q.2, by rw [hq]; rfl⟩
  · rintro ⟨n, hn⟩
    obtain ⟨p, hp, rfl⟩ := Option.map_eq_some_iff.mp hn
    have hloc : p.1 = dir ++ [name] := by
      have hfound := List.find?_some hp
      simpa using hfound
    refine ⟨p, List.mem_of_find?_eq_some hp, ?_⟩
    rw [hloc, List.getLast?_append]
    simp

variable {d d' : Disk} {dir name : String} {home : Location}

/-! ## The directory -/

/-- A directory is found on every disk that extends the one it was found on. -/
theorem find_of_extends (hdir : d.find dir = .ok (home, .directory)) (hd : d.Extends d') :
    d'.find dir = .ok (home, .directory) := by
  obtain ⟨-, left, hleads⟩ := leads_of_find hdir
  have hwalk := (hleads.of_stays hd.ways).walk_look
  unfold find at hdir ⊢
  cases hr : d.resolve .look dir with
  | error e => rw [hr] at hdir; cases hdir
  | ok target => rw [(isPath_of_resolve hr).resolve_eq, hd.current, hwalk]

/-- What is listed are the names inside the directory. -/
theorem list_of_extends (hdir : d.find dir = .ok (home, .directory)) (hd : d.Extends d') :
    d'.list dir = .ok (d'.names home) := by
  unfold list
  rw [find_of_extends hdir hd]

/-- The path of a name leads to its place, if no link and no device stands there. -/
theorem eq_of_resolve_join (hdir : d.find dir = .ok (home, .directory)) (hd : d.Extends d')
    (hname : Path.IsName name) (hplain : ∀ n, d'.node? (home ++ [name]) = some n → n.IsPlain)
    {purpose : Purpose} {target : Target}
    (h : d'.resolve purpose (Path.join dir name) = .ok target) :
    target = match d'.node? (home ++ [name]) with
      | none => .free (home ++ [name]) false
      | some n => .present (home ++ [name]) n := by
  have hpath := takesPath_of_resolve hdir hd hname h
  obtain ⟨left, hwalk⟩ := resolve_join hdir hd hname hpath.no_nul hpath.path_size
  rw [hwalk] at h
  cases hnode : d'.node? (home ++ [name]) with
  | none =>
      rw [walk_free hname hpath.name_size hnode] at h
      exact (Except.ok.inj h).symm
  | some n =>
      rw [walk_present hname hpath.name_size hnode (hplain n hnode)] at h
      exact (Except.ok.inj h).symm

/-! ## Looking -/

/-- What is found under a name is its entry, if that is a file or a directory. -/
theorem eq_of_find_join (hdir : d.find dir = .ok (home, .directory)) (hd : d.Extends d')
    (hname : Path.IsName name) (hplain : ∀ n, d'.node? (home ++ [name]) = some n → n.IsPlain)
    {loc : Location} {n : Node} (h : d'.find (Path.join dir name) = .ok (loc, n)) :
    loc = home ++ [name] ∧ d'.node? (home ++ [name]) = some n := by
  unfold find at h
  cases hr : d'.resolve .look (Path.join dir name) with
  | error e => rw [hr] at h; cases h
  | ok target =>
      rw [hr, eq_of_resolve_join hdir hd hname hplain hr] at h
      cases hnode : d'.node? (home ++ [name]) with
      | none => rw [hnode] at h; cases h
      | some n' =>
          rw [hnode] at h
          obtain ⟨rfl, rfl⟩ := Prod.mk.inj (Except.ok.inj h)
          exact ⟨rfl, rfl⟩

/-- A name that is found to lead to a regular file has a file for its entry. -/
theorem file_of_kind_join (hdir : d.find dir = .ok (home, .directory)) (hd : d.Extends d')
    (hname : Path.IsName name) (hplain : ∀ n, d'.node? (home ++ [name]) = some n → n.IsPlain)
    (h : d'.kind (Path.join dir name) = .ok .regular) :
    ∃ t, d'.node? (home ++ [name]) = some (.file t) := by
  unfold kind at h
  cases hfind : d'.find (Path.join dir name) with
  | error e => rw [hfind] at h; cases h
  | ok found =>
      obtain ⟨-, hnode⟩ := eq_of_find_join hdir hd hname hplain hfind
      rw [hfind] at h
      have hkind : found.2.kind = .regular := Except.ok.inj h
      cases hn : found.2 with
      | file t => exact ⟨t, by rw [hnode, hn]⟩
      | _ => rw [hn] at hkind; cases hkind

/-- A file under a name is a regular one. -/
theorem kind_file (hdir : d.find dir = .ok (home, .directory)) (hd : d.Extends d')
    (hname : Path.IsName name) (hpath : TakesPath (Path.join dir name) name) {t : String}
    (hnode : d'.node? (home ++ [name]) = some (.file t)) :
    d'.kind (Path.join dir name) = .ok .regular := by
  unfold kind
  rw [find_join hdir hd hname hpath hnode]
  rfl

/-! ## Taking away -/

/-- The path of a name ends in no slash. -/
theorem getLast?_join (hdir : dir ≠ "") (hname : Path.IsName name) :
    (Path.join dir name).toList.getLast? ≠ some '/' := by
  intro hlast
  obtain ⟨c, hc⟩ : ∃ c, name.toList.getLast? = some c := by
    rw [← Option.isSome_iff_exists, List.getLast?_isSome]
    exact fun hnil => hname.ne_empty (String.toList_eq_nil_iff.mp hnil)
  obtain ⟨slash, hjoin⟩ := Path.exists_join_eq hdir hname
  rw [hjoin, ← String.append_assoc, String.toList_append, List.getLast?_append, hc] at hlast
  obtain rfl : c = '/' := Option.some.inj hlast
  exact hname.no_slash (List.mem_of_getLast? hc)

/-- A file under a name is taken away. -/
theorem remove_file (hdir : d.find dir = .ok (home, .directory)) (hd : d.Extends d')
    (hname : Path.IsName name) (hpath : TakesPath (Path.join dir name) name) {t : String}
    (hnode : d'.node? (home ++ [name]) = some (.file t)) :
    d'.remove (Path.join dir name) = .ok (d'.erase (home ++ [name])) := by
  obtain ⟨left, hwalk⟩ := resolve_join hdir hd hname hpath.no_nul hpath.path_size
  unfold remove
  rw [hwalk, walk_present hname hpath.name_size hnode trivial]
  exact if_neg (getLast?_join (leads_of_find hdir).1 hname)

/-- What is taken away under a name is its entry, a file, if that was a file or a directory. -/
theorem remove_join (hdir : d.find dir = .ok (home, .directory)) (hd : d.Extends d')
    (hname : Path.IsName name) (hplain : ∀ n, d'.node? (home ++ [name]) = some n → n.IsPlain)
    {d'' : Disk} (h : d'.remove (Path.join dir name) = .ok d'') :
    (∃ t, d'.node? (home ++ [name]) = some (.file t)) ∧ d'' = d'.erase (home ++ [name]) := by
  have hfile : ∃ t, d'.node? (home ++ [name]) = some (.file t) ∧
      TakesPath (Path.join dir name) name := by
    unfold remove at h
    cases hr : d'.resolve .entry (Path.join dir name) with
    | error e => rw [hr] at h; cases h
    | ok target =>
        rw [hr, eq_of_resolve_join hdir hd hname hplain hr] at h
        cases hnode : d'.node? (home ++ [name]) with
        | none => rw [hnode] at h; cases h
        | some n =>
            rw [hnode] at h
            cases n with
            | file t => exact ⟨t, rfl, takesPath_of_resolve hdir hd hname hr⟩
            | directory => cases h
            | link | nullDevice | fullDevice => exact (hplain _ hnode).elim
  obtain ⟨t, hnode, hpath⟩ := hfile
  rw [remove_file hdir hd hname hpath hnode] at h
  exact ⟨⟨t, hnode⟩, (Except.ok.inj h).symm⟩

/-! ## Where there is no directory -/

/-- Nothing is taken away there. -/
theorem remove_missing (hdir : dir ≠ "") (hmissing : ∀ home, d.find dir ≠ .ok (home, .directory))
    (hname : Path.IsName name) : (d.remove (Path.join dir name)).isOk = false := by
  obtain ⟨e, he⟩ := resolve_missing hdir hmissing hname .entry
  rw [remove, he]
  rfl

/-- Nothing is listed. -/
theorem list_missing (hmissing : ∀ home, d.find dir ≠ .ok (home, .directory)) :
    (d.list dir).isOk = false := by
  unfold list
  cases hfind : d.find dir with
  | error e => rfl
  | ok found =>
      obtain ⟨loc, n⟩ := found
      cases n with
      | directory => exact absurd hfind (hmissing loc)
      | _ => rfl

end Disk

end SampleData
