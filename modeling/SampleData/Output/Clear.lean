import SampleData.Naming
import SampleData.Output.Populate

/-!
# Clearing an output directory

Every regular file directly inside the directory whose name has the extension of output files is
taken away; a link to such a file goes, the file it leads to stays. Directories stay, whatever
their names. A file that cannot be taken away is told of and left.
-/

namespace SampleData

open Text

/-- Takes away the output files among the names of a directory: how many were found and how many
are gone. -/
def clearNames (dir : String) : List String → Action (Nat × Nat)
  | [] => return (0, 0)
  | name :: rest => do
    let path := Path.join dir name
    if (← Action.isOfKind .regular path) && Path.extension? name = some fileExtension then
      match ← Action.request (.remove path) with
      | .ok () =>
        Action.log .debug ("Removed: " ++ path)
        let (found, gone) ← clearNames dir rest
        return (found + 1, gone + 1)
      | .error e =>
        Action.log .warn ("Failed to remove " ++ path ++ ": " ++ e.message)
        let (found, gone) ← clearNames dir rest
        return (found + 1, gone)
    else clearNames dir rest

/-- Clears a directory; how many files are gone. -/
def clearDirectory (dir : String) : Action (Except PopulateError Nat) := do
  if !(← Action.pathExists dir) then return .error (.directoryNotFound dir)
  else if !(← Action.isOfKind .directory dir) then return .error (.notADirectory dir)
  else match ← Action.request (.list dir) with
    | .error e => return .error (.other e)
    | .ok names =>
      let (found, gone) ← clearNames dir names
      if found = 0 then Action.info ("No *." ++ fileExtension ++ " files found in " ++ dir)
      else Action.info ("Cleared " ++ showNat gone ++ " file(s) from " ++ dir)
      return .ok gone

end SampleData
