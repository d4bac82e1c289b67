import SampleData.Disk.Path

/-!
# Disks

A disk is a tree of directories with files, links and two devices: one that takes everything and
keeps nothing, and one that has no room. It is kept as a list of places, each with the names that
lead to it from the root; the root itself is always there. Paths are resolved as an operating
system does it: name by name, through links, `.` and `..` included.

Not modelled are owners, permissions, times, second names of one file, and bytes that are no text.
-/

namespace SampleData

/-! ## Refusals -/

/-- Why the operating system refuses. -/
inductive OsError where
  | noEntry
  | accessDenied
  | exists
  | notDirectory
  | isDirectory
  | noSpace
  | nameTooLong
  | tooManyLinks
  | nulByte
  /-- Any other refusal, in the system's own words. -/
  | other (text : String)
deriving DecidableEq, Repr

/-- The refusal in words. -/
def OsError.message : OsError → String
  | .noEntry => "No such file or directory (os error 2)"
  | .accessDenied => "Permission denied (os error 13)"
  | .exists => "File exists (os error 17)"
  | .notDirectory => "Not a directory (os error 20)"
  | .isDirectory => "Is a directory (os error 21)"
  | .noSpace => "No space left on device (os error 28)"
  | .nameTooLong => "File name too long (os error 36)"
  | .tooManyLinks => "Too many levels of symbolic links (os error 40)"
  | .nulByte => "file name contained an unexpected NUL byte"
  | .other text => text

/-! ## Places -/

/-- The names that lead to a place from the root. -/
abbrev Location := List String

/-- What stands at a place. -/
inductive Node where
  | directory
  | file (content : String)
  | link (target : String)
  /-- Takes everything and keeps nothing. -/
  | nullDevice
  /-- Has room for nothing. -/
  | fullDevice
deriving DecidableEq, Repr

/-- What a place is, links followed. -/
inductive FileKind where
  | directory
  | regular
  | other
deriving DecidableEq, Repr

/-- The kind of a node. -/
def Node.kind : Node → FileKind
  | .directory => .directory
  | .file _ => .regular
  | _ => .other

/-- All places but the root in the order in which they were made, and the directory that relative
paths start from. -/
structure Disk where
  places : List (Location × Node)
  current : Location
deriving DecidableEq, Repr

namespace Disk

/-- What stands at a place. -/
def node? (d : Disk) (loc : Location) : Option Node :=
  if loc = [] then some .directory else (d.places.find? fun p => p.1 = loc).map (·.2)

/-- The places with a node at one of them: in place of what stands there, or as the newest. -/
def setPlace (loc : Location) (n : Node) : List (Location × Node) → List (Location × Node)
  | [] => [(loc, n)]
  | p :: rest => if p.1 = loc then (loc, n) :: rest else p :: setPlace loc n rest

/-- Puts a node at a place, in place of what stands there. -/
def set (d : Disk) (loc : Location) (n : Node) : Disk :=
  { d with places := setPlace loc n d.places }

/-- Takes away what stands at a place. -/
def erase (d : Disk) (loc : Location) : Disk :=
  { d with places := d.places.filter fun p => p.1 ≠ loc }

/-- The names of the places directly inside a directory, in the order in which they were made. -/
def names (d : Disk) (dir : Location) : List String :=
  d.places.filterMap fun p =>
    match p.1.getLast? with
    | some name => if p.1 = dir ++ [name] then some name else none
    | none => none

/-! ## Resolving paths -/

/-- Where a path leads. -/
inductive Target where
  /-- To a place where something stands. -/
  | present (loc : Location) (n : Node)
  /-- To a free name in a directory; whether a slash follows it. -/
  | free (loc : Location) (slash : Bool)
deriving DecidableEq, Repr

/-- The longest name, in bytes. -/
def maxName : Nat := 255

/-- The longest path, in bytes. -/
def maxPath : Nat := 4095

/-- How many links may be followed on one path. -/
def maxLinks : Nat := 40

/-- What a path is resolved for. -/
structure Purpose where
  /-- A link in the last place is followed. -/
  follow : Bool
  /-- A file is to be opened for writing there, so no slash may stand behind the last name. -/
  writing : Bool
deriving DecidableEq, Repr

/-- To look at what is there. -/
def Purpose.look : Purpose := { follow := true, writing := false }

/-- To change the entry of the last name itself. -/
def Purpose.entry : Purpose := { follow := false, writing := false }

/-- Goes on from a node along the parts that are left, and at a link as `jump` says. Nothing but a
directory has parts behind it, empty ones included; but where links in the last place are not
followed, slashes behind the last name do not matter. -/
def walkParts (d : Disk) (purpose : Purpose)
    (jump : Location → List String → Except OsError Target) (loc : Location) (n : Node) :
    List String → Except OsError Target
  | [] => .ok (.present loc n)
  | part :: rest =>
    if n ≠ .directory then .error .notDirectory
    else if part = "" ∨ part = "." then walkParts d purpose jump loc n rest
    else if part = ".." then walkParts d purpose jump loc.dropLast .directory rest
    else
      let last := rest.all (· = "")
      if purpose.writing && last && !rest.isEmpty then .error .isDirectory
      else if maxName < part.utf8ByteSize then .error .nameTooLong
      else match d.node? (loc ++ [part]) with
        | none => if last then .ok (.free (loc ++ [part]) (!rest.isEmpty)) else .error .noEntry
        | some node =>
          if last && !purpose.follow then .ok (.present (loc ++ [part]) node)
          else match node with
            | .link target =>
              jump (if Path.isAbsolute target then [] else loc) (Path.parts target ++ rest)
            | other => walkParts d purpose jump (loc ++ [part]) other rest

/-- Goes on from a directory along the parts that are left, through as many links at most. -/
def walk (d : Disk) (purpose : Purpose) : Nat → Location → List String → Except OsError Target
  | 0, loc, parts => walkParts d purpose (fun _ _ => .error .tooManyLinks) loc .directory parts
  | links + 1, loc, parts => walkParts d purpose (walk d purpose links) loc .directory parts

/-- A part that names an entry, and is not too long for one. -/
structure IsEntry (part : String) : Prop where
  not_here : ¬ (part = "" ∨ part = ".")
  not_up : part ≠ ".."
  size : part.utf8ByteSize ≤ maxName

section walk

variable {d : Disk} {purpose : Purpose} {links : Nat} {loc : Location} {part : String}
  {rest : List String}

/-- Without parts that are left the walk is over. -/
@[simp] theorem walk_nil : d.walk purpose links loc [] = .ok (.present loc .directory) := by
  cases links <;> rfl

/-- An empty part and a dot lead nowhere. -/
theorem walk_stay (hpart : part = "" ∨ part = ".") :
    d.walk purpose links loc (part :: rest) = d.walk purpose links loc rest := by
  cases links <;> simp only [walk, walkParts, ne_eq, not_true_eq_false, if_false, if_pos hpart]

/-- Two dots lead up. -/
@[simp] theorem walk_up :
    d.walk purpose links loc (".." :: rest) = d.walk purpose links loc.dropLast rest := by
  cases links <;> rfl

/-- A name that is too long leads nowhere. -/
theorem walk_long (hpart : ¬ (part = "" ∨ part = ".")) (hdots : part ≠ "..")
    (hsize : maxName < part.utf8ByteSize) :
    ∃ e, d.walk purpose links loc (part :: rest) = .error e := by
  cases links with
  | zero | succ =>
      simp only [walk, walkParts, ne_eq, not_true_eq_false, if_false, if_neg hpart, if_neg hdots,
        if_pos hsize]
      split <;> exact ⟨_, rfl⟩

/-- Any other part leads to the entry of that name. -/
theorem walk_entry (hentry : IsEntry part) :
    d.walk purpose links loc (part :: rest) =
      if purpose.writing && rest.all (· = "") && !rest.isEmpty then .error .isDirectory
      else match d.node? (loc ++ [part]) with
        | none =>
          if rest.all (· = "") then .ok (.free (loc ++ [part]) (!rest.isEmpty)) else .error .noEntry
        | some node =>
          if rest.all (· = "") && !purpose.follow then .ok (.present (loc ++ [part]) node)
          else match node with
            | .directory => d.walk purpose links (loc ++ [part]) rest
            | .link target =>
              match links with
              | 0 => .error .tooManyLinks
              | links + 1 =>
                d.walk purpose links (if Path.isAbsolute target then [] else loc)
                  (Path.parts target ++ rest)
            | other =>
              if rest.isEmpty then .ok (.present (loc ++ [part]) other)
              else .error .notDirectory := by
  cases links with
  | zero | succ =>
      rw [walk, walkParts, if_neg (not_not_intro rfl), if_neg hentry.not_here,
        if_neg hentry.not_up]
      dsimp only
      rw [if_neg (Nat.not_lt.mpr hentry.size)]
      cases d.node? (loc ++ [part]) with
      | none => rfl
      | some node => cases node <;> cases rest <;> rfl

end walk

/-- Where a path leads. -/
def resolve (d : Disk) (purpose : Purpose) (path : String) : Except OsError Target :=
  if path.toList.contains '\x00' then .error .nulByte
  else if path.isEmpty then .error .noEntry
  else if maxPath < path.utf8ByteSize then .error .nameTooLong
  else walk d purpose maxLinks (if Path.isAbsolute path then [] else d.current) (Path.parts path)

/-- What a path leads to, links followed; something must stand there. -/
def find (d : Disk) (path : String) : Except OsError (Location × Node) :=
  match d.resolve .look path with
  | .error e => .error e
  | .ok (.present loc n) => .ok (loc, n)
  | .ok (.free _ _) => .error .noEntry

/-! ## Looking -/

/-- The kind of what a path leads to. -/
def kind (d : Disk) (path : String) : Except OsError FileKind :=
  (d.find path).map fun p => p.2.kind

/-- The absolute path without links of what a path leads to. -/
def canonical (d : Disk) (path : String) : Except OsError String :=
  (d.find path).map fun p => Path.ofNames p.1

/-- The text of a file. -/
def read (d : Disk) (path : String) : Except OsError String :=
  match d.find path with
  | .error e => .error e
  | .ok (_, .file content) => .ok content
  | .ok (_, .directory) => .error .isDirectory
  | .ok (_, _) => .ok ""

/-- The names inside a directory. -/
def list (d : Disk) (path : String) : Except OsError (List String) :=
  match d.find path with
  | .error e => .error e
  | .ok (loc, .directory) => .ok (d.names loc)
  | .ok (_, _) => .error .notDirectory

/-- The size of what stands at a node, in bytes. -/
def nodeSize : Node → Nat
  | .file content => content.utf8ByteSize
  | .directory => 4096
  | _ => 0

/-- The size of what a path leads to. -/
def size (d : Disk) (path : String) : Except OsError Nat :=
  (d.find path).map fun p => nodeSize p.2

/-! ## Changing -/

/-- Opens a file for writing from its beginning. A file that is there loses its text; with
`fresh`, nothing may be there. -/
def create (d : Disk) (path : String) (fresh : Bool) : Except OsError (Location × Disk) :=
  match d.resolve { follow := !fresh, writing := true } path with
  | .error e => .error e
  | .ok (.free loc _) => .ok (loc, d.set loc (.file ""))
  | .ok (.present loc n) =>
    if fresh then .error .exists
    else match n with
      | .directory => .error .isDirectory
      | .file _ => .ok (loc, d.set loc (.file ""))
      | _ => .ok (loc, d)

/-- Writes text at the end of an open file. -/
def append (d : Disk) (loc : Location) (chunk : String) : Except OsError Disk :=
  match d.node? loc with
  | some (.file content) => .ok (d.set loc (.file (content ++ chunk)))
  | some .fullDevice => .error .noSpace
  | _ => .ok d

/-- Takes a file or a link away; links are not followed. -/
def remove (d : Disk) (path : String) : Except OsError Disk :=
  match d.resolve .entry path with
  | .error e => .error e
  | .ok (.free _ _) => .error .noEntry
  | .ok (.present _ .directory) => .error .isDirectory
  | .ok (.present loc _) =>
    if path.toList.getLast? = some '/' then .error .notDirectory else .ok (d.erase loc)

/-- Makes a directory. -/
def makeDirectory (d : Disk) (path : String) : Except OsError Disk :=
  match d.resolve .entry path with
  | .error e => .error e
  | .ok (.free loc _) => .ok (d.set loc .directory)
  | .ok (.present _ _) => .error .exists

/-- Makes a link. What it is to lead to is a path, so it is neither empty nor too long for one. -/
def makeLink (d : Disk) (target path : String) : Except OsError Disk :=
  if (target ++ path).toList.contains '\x00' then .error .nulByte
  else if target.isEmpty then .error .noEntry
  else if maxPath < target.utf8ByteSize then .error .nameTooLong
  else match d.resolve .entry path with
  | .error e => .error e
  | .ok (.free _ true) => .error .noEntry
  | .ok (.free loc false) => .ok (d.set loc (.link target))
  | .ok (.present _ _) => .error .exists

/-- Writes a whole file. -/
def write (d : Disk) (path content : String) : Except OsError Disk :=
  match d.create path false with
  | .error e => .error e
  | .ok (loc, d) => if content.isEmpty then .ok d else d.append loc content

end Disk

end SampleData
