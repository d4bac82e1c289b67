import SampleData.Proofs.DiskFrame

/-!
# Files that were opened

A path that a file was opened under leads to the file's place for as long as directories and links
stay where they are, even where the path goes through links or the place was free before. What is
opened is empty or a device, and what is put at its end changes nothing but the one place.

* `Disk.Puts`: nothing differs but the node at one place.
* `Disk.OpensAt`: a walk that opens a place leads there from then on.
* `Disk.opened_of_create`: what opening a file does.
* `Disk.Puts.append`: what appending does.
-/

namespace SampleData

/-- A file with another text; a device has no text. -/
def Node.holding (n : Node) (t : String) : Node :=
  match n with
  | .file _ => .file t
  | other => other

namespace Disk

/-! ## One place -/

/-- The other disk differs at one place at most, and holds the node there. -/
structure Puts (d : Disk) (loc : Location) (n : Node) (d' : Disk) : Prop where
  current : d'.current = d.current
  here : d'.node? loc = some n
  others : ∀ place, place ≠ loc → d'.node? place = d.node? place

variable {d d' d'' : Disk} {loc : Location} {n : Node}

/-- A node that stands there already. -/
theorem puts_self (h : d.node? loc = some n) : d.Puts loc n d where
  current := rfl
  here := h
  others _ _ := rfl

/-- A node that is put there. -/
theorem puts_set (h : loc ≠ []) (n : Node) : d.Puts loc n (d.set loc n) where
  current := rfl
  here := by simp [h]
  others place hplace := by simp [h, hplace]

/-- Of two nodes at the place the later one counts. -/
theorem Puts.trans {n' : Node} (h : d.Puts loc n d') (h' : d'.Puts loc n' d'') :
    d.Puts loc n' d'' where
  current := h'.current.trans h.current
  here := h'.here
  others place hplace := (h'.others place hplace).trans (h.others place hplace)

/-- A disk extends itself. -/
theorem Extends.refl (d : Disk) : d.Extends d where
  current := rfl
  ways _ _ h _ := h

theorem Extends.trans (h : d.Extends d') (h' : d'.Extends d'') : d.Extends d'' where
  current := h'.current.trans h.current
  ways place n hnode hway := h'.ways place n (h.ways place n hnode hway) hway

/-- Where no way led on, all ways stay. -/
theorem Puts.extends_disk (h : d.Puts loc n d') (hway : ∀ m, d.node? loc = some m → ¬ m.IsWay) :
    d.Extends d' where
  current := h.current
  ways place m hnode hm := by
    have hplace : place ≠ loc := by
      rintro rfl
      exact hway m hnode hm
    rw [h.others place hplace, hnode]

/-- Only the root has no name, and it is a directory. -/
theorem ne_nil_of_node? (h : d.node? loc = some n) (hway : ¬ n.IsWay) : loc ≠ [] := by
  rintro rfl
  obtain rfl : Node.directory = n := Option.some.inj h
  exact hway trivial

/-- **Appending** puts the text behind that of a file, and changes nothing on a device. -/
theorem Puts.append {t chunk : String} (h : d.Puts loc (n.holding t) d')
    (happend : d'.append loc chunk = .ok d'') : d.Puts loc (n.holding (t ++ chunk)) d'' := by
  have hnode := h.here
  unfold Disk.append at happend
  rw [hnode] at happend
  cases n with
  | file content =>
      obtain rfl := Except.ok.inj happend
      exact h.trans (puts_set (ne_nil_of_node? hnode nofun) _)
  | fullDevice => cases happend
  | directory | link | nullDevice =>
      obtain rfl := Except.ok.inj happend
      exact h

/-! ## Walks that open -/

/-- The place that a path leads to. -/
def Target.place : Target → Location
  | .present loc _ => loc
  | .free loc _ => loc

/-- What stands there. -/
def Target.node? : Target → Option Node
  | .present _ n => some n
  | .free _ _ => none

/-- The walk goes to a place that is free or has a file or a device, and leads there on all disks
that extend this one. -/
structure OpensAt (d : Disk) (links : Nat) (loc : Location) (parts : List String)
    (target : Target) : Prop where
  place_ne : target.place ≠ []
  node : d.node? target.place = target.node?
  no_way : ∀ n, target.node? = some n → ¬ n.IsWay
  leads : ∀ d' n, d.Extends d' → d'.node? target.place = some n → ¬ n.IsWay →
    d'.walk .look links loc parts = .ok (.present target.place n)

/-- A step that all walks take. -/
theorem OpensAt.of_step {links links' : Nat} {loc' : Location} {parts parts' : List String}
    {target : Target} (h : d.OpensAt links' loc' parts' target)
    (hstep : ∀ d', d.Extends d' →
      d'.walk .look links loc parts = d'.walk .look links' loc' parts') :
    d.OpensAt links loc parts target where
  place_ne := h.place_ne
  node := h.node
  no_way := h.no_way
  leads d' n hd hnode hway := (hstep d' hd).trans (h.leads d' n hd hnode hway)

/-- To look, nothing but the node decides over the last name. -/
theorem walk_look_last {links : Nat} {part : String} (hentry : IsEntry part)
    (hnode : d.node? (loc ++ [part]) = some n) (hway : ¬ n.IsWay) :
    d.walk .look links loc [part] = .ok (.present (loc ++ [part]) n) := by
  rw [walk_entry hentry, hnode]
  cases n with
  | file | nullDevice | fullDevice => simp [Purpose.look]
  | directory | link => exact absurd trivial hway

/-- The last name is free, or a file or a device stands there. -/
theorem opensAt_last {links : Nat} {part : String} {target : Target} (hentry : IsEntry part)
    (hplace : target.place = loc ++ [part]) (hnode : d.node? (loc ++ [part]) = target.node?)
    (hway : ∀ m, target.node? = some m → ¬ m.IsWay) : d.OpensAt links loc [part] target where
  place_ne := by simp [hplace]
  node := by rw [hplace, hnode]
  no_way := hway
  leads d' m _ hm hno := by
    rw [hplace] at hm ⊢
    exact walk_look_last hentry hm hno

/-- A directory on the way stays there. -/
theorem OpensAt.down {links : Nat} {part : String} {rest : List String} {target : Target}
    (hentry : IsEntry part) (hnode : d.node? (loc ++ [part]) = some .directory)
    (h : d.OpensAt links (loc ++ [part]) rest target) : d.OpensAt links loc (part :: rest) target :=
  h.of_step fun _ hd => walk_down hentry (hd.ways _ _ hnode trivial) (.inl rfl)

/-- A link on the way stays there and leads to the same. -/
theorem OpensAt.jump {links : Nat} {part text : String} {rest : List String} {target : Target}
    (hentry : IsEntry part) (hnode : d.node? (loc ++ [part]) = some (.link text))
    (h : d.OpensAt links (if Path.isAbsolute text then [] else loc) (Path.parts text ++ rest)
      target) : d.OpensAt (links + 1) loc (part :: rest) target :=
  h.of_step fun _ hd => walk_jump hentry (hd.ways _ _ hnode trivial) (.inl rfl)

/-- **A walk for writing** ends at a directory or opens its end. -/
theorem opensAt_of_walk {links : Nat} {loc : Location} {parts : List String} {target : Target}
    {follow : Bool} (h : d.walk { follow := follow, writing := true } links loc parts = .ok target)
    (hfollow : target.node? ≠ none → follow = true) :
    target.node? = some .directory ∨ d.OpensAt links loc parts target := by
  cases parts with
  | nil =>
      rw [walk_nil] at h
      obtain rfl := Except.ok.inj h
      exact .inl rfl
  | cons part rest =>
      cases step_of_walk h with
      | stay hpart h =>
          exact (opensAt_of_walk h hfollow).imp_right fun hopens =>
            hopens.of_step fun _ _ => walk_stay hpart
      | up hdots h =>
          exact (opensAt_of_walk h hfollow).imp_right fun hopens =>
            hopens.of_step fun _ _ => hdots ▸ walk_up
      | down hentry hnode h => exact (opensAt_of_walk h hfollow).imp_right (.down hentry hnode)
      | jump hlinks hentry hnode h =>
          exact (opensAt_of_walk h hfollow).imp_right fun hopens =>
            hlinks ▸ .jump hentry hnode hopens
      | free hentry hnode _ hslash =>
          obtain rfl := hslash rfl
          exact .inr (opensAt_last hentry rfl hnode nofun)
      -- where something is found in the last place, links were to be followed
      | entry _ _ _ hnot => exact absurd ((hfollow nofun).symm.trans hnot) (by decide)
      | stop hentry hnode hrest hway =>
          subst hrest
          refine .inr (opensAt_last hentry rfl hnode ?_)
          rintro _ ⟨⟩
          exact hway
termination_by (links, parts.length)

/-! ## Opening -/

/-- A file was opened under a path: it is empty, and fresh if that was asked for, or a device is
there; and the path leads to its place from now on. -/
structure Opened (d : Disk) (path : String) (fresh : Bool) (loc : Location) (d' : Disk) : Prop where
  puts : ∃ n, n.holding "" = n ∧ ¬ n.IsWay ∧ d.Puts loc n d' ∧
    (fresh = true → n = .file "" ∧ d.node? loc = none)
  no_way : ∀ n, d.node? loc = some n → ¬ n.IsWay
  leads : ∀ d'' n, d.Extends d'' → d''.node? loc = some n → ¬ n.IsWay → d''.find path = .ok (loc, n)

/-- To look at a path all checks of its text are the same. -/
theorem find_of_walk {path : String} (hpath : IsPath path)
    (hwalk : d'.walk .look maxLinks (if Path.isAbsolute path then [] else d'.current)
      (Path.parts path) = .ok (.present loc n)) : d'.find path = .ok (loc, n) := by
  rw [find, hpath.resolve_eq, hwalk]

/-- **Opening a file** under a path. -/
theorem opened_of_create {path : String} {fresh : Bool}
    (h : d.create path fresh = .ok (loc, d')) : d.Opened path fresh loc d' := by
  unfold create at h
  split at h
  · cases h
  · next place slash hr =>
    obtain ⟨rfl, rfl⟩ := Prod.mk.inj (Except.ok.inj h)
    rcases opensAt_of_walk (walk_of_resolve hr) (fun hne => absurd rfl hne) with hdir | hopens
    · cases hdir
    · have hfree : d.node? place = none := hopens.node
      refine ⟨⟨.file "", rfl, nofun, puts_set hopens.place_ne _, fun _ => ⟨rfl, hfree⟩⟩, ?_, ?_⟩
      · intro n hn
        rw [hfree] at hn
        cases hn
      · intro d'' n hd hn hway
        apply find_of_walk (isPath_of_resolve hr)
        rw [hd.current]
        exact hopens.leads d'' n hd hn hway
  · next place n hr =>
    cases fresh with
    | true => cases h
    | false =>
        rcases opensAt_of_walk (walk_of_resolve hr) (fun _ => rfl) with hdir | hopens
        · obtain rfl : n = .directory := Option.some.inj hdir
          cases h
        · have hno := hopens.no_way n rfl
          have hnode : d.node? place = some n := hopens.node
          have hleads : ∀ d'' m, d.Extends d'' → d''.node? place = some m → ¬ m.IsWay →
              d''.find path = .ok (place, m) := by
            intro d'' m hd hm hway
            apply find_of_walk (isPath_of_resolve hr)
            rw [hd.current]
            exact hopens.leads d'' m hd hm hway
          have hway : ∀ m, d.node? place = some m → ¬ m.IsWay := by
            intro m hm
            rw [hnode] at hm
            exact Option.some.inj hm ▸ hno
          cases n with
          | directory | link => exact absurd trivial hno
          | file content =>
              obtain ⟨rfl, rfl⟩ := Prod.mk.inj (Except.ok.inj h)
              exact ⟨⟨.file "", rfl, nofun, puts_set hopens.place_ne _, nofun⟩, hway, hleads⟩
          | nullDevice | fullDevice =>
              obtain ⟨rfl, rfl⟩ := Prod.mk.inj (Except.ok.inj h)
              exact ⟨⟨_, rfl, hno, puts_self hnode, nofun⟩, hway, hleads⟩

end Disk

end SampleData
