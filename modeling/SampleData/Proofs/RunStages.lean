import SampleData.Proofs.Requests
import SampleData.Proofs.WrittenFiles

/-!
# Stages of a run

A run that writes files goes through two stages. It prepares itself: the schema is loaded and
compiled, what is about to be done is told, and the directory is cleared if that is asked for. Then
it writes, alone or by workers that take turns. Settings that were checked name a directory, and a
base name that stays inside it.

* `Settings.Checked`, `Settings.checked_of_validate`: what checked settings are.
* `Settings.prepare`, `Settings.write`, `Settings.execute_eq`: the two stages.
* `Settings.Reaches`: the worlds that a run may come to.
-/

namespace SampleData

open Text

/-! ## Checked settings -/

/-- The absolute path of a place is no empty text. -/
theorem Path.ofNames_ne_empty (names : List String) : Path.ofNames names ≠ "" := by
  cases names with
  | nil => decide
  | cons n names =>
      intro h
      have hchars := congrArg String.toList h
      simp [Path.ofNames] at hchars

namespace Settings

/-- Settings that were checked: files go to a directory that is named, under names without
slashes. -/
structure Checked (s : Settings) : Prop where
  path_ne : s.isConsole = false → s.path ≠ ""
  base_slash : '/' ∉ s.fileName.toList

/-- A base name without a fault has no slash. -/
theorem slash_not_mem_of_fileNameFault? {name : String} (h : fileNameFault? name = none) :
    '/' ∉ name.toList := by
  unfold fileNameFault? at h
  split at h
  · cases h
  · rw [Option.map_eq_none_iff, List.find?_eq_none] at h
    intro hslash
    exact h '/' hslash (by decide)

/-- The path that is resolved is an absolute one. -/
theorem resolvePath_sure (s : Settings) (w : World) :
    World.logic.Sure s.resolvePath (fun x _ => ∀ s', x = .ok s' →
      s'.fileName = s.fileName ∧ (s'.isConsole = false → s'.path ≠ "")) w := by
  let L := World.logic
  unfold resolvePath
  cases hconsole : s.isConsole with
  | true =>
      refine L.sure_bind (World.sure_request (L.sure_pure ?_))
      rintro _ ⟨⟩
      exact ⟨rfl, fun hfiles => absurd (hconsole.symm.trans hfiles) (by decide)⟩
  | false =>
      rw [if_neg Bool.false_ne_true]
      refine L.sure_then (World.logic_total _ _) fun found w₁ _ => ?_
      cases found with
      | false => exact L.sure_pure nofun
      | true =>
          refine L.sure_then (World.logic_total _ _) fun isDirectory w₂ _ => ?_
          cases isDirectory with
          | false => exact L.sure_pure nofun
          | true =>
              refine L.sure_bind (World.sure_request ?_)
              dsimp only [World.answer]
              unfold Disk.canonical
              cases w₂.disk.find s.path with
              | error e => exact L.sure_pure nofun
              | ok place =>
                  refine L.sure_pure ?_
                  rintro _ ⟨⟩
                  exact ⟨rfl, fun _ => Path.ofNames_ne_empty _⟩

/-- **Settings that pass all checks.** -/
theorem checked_of_validate {cpus : UInt64} {given s : Settings} {w : World}
    (h : ((given.validate cpus).run w).1 = .ok s) : s.Checked := by
  let L := World.logic
  have hvalid : L.Sure (given.validate cpus) (fun x _ => ∀ s, x = .ok s → s.Checked) w := by
    unfold validate
    refine L.sure_then (World.logic_total _ _) fun _ w₁ _ => ?_
    split
    · exact L.sure_pure nofun
    split
    · exact L.sure_pure nofun
    refine L.sure_then (World.logic_total _ _) fun limited w₂ _ => ?_
    cases hname : fileNameFault? limited.fileName with
    | some e => exact L.sure_pure nofun
    | none =>
        refine L.sure_then (limited.resolvePath_sure w₂) fun x w₃ hx => ?_
        cases x with
        | error e => exact L.sure_pure nofun
        | ok resolved =>
            obtain ⟨hsame, hpath⟩ := hx resolved rfl
            dsimp only
            split
            · exact L.sure_pure nofun
            · refine L.sure_pure ?_
              rintro _ ⟨⟩
              exact ⟨hpath, hsame ▸ slash_not_mem_of_fileNameFault? hname⟩
  exact hvalid s h

/-! ## Stages -/

/-- Tells what workers are about to do. -/
def announceWorkers (s : Settings) : Action Unit := do
  let assignments := partition s.filesCount s.workers s.seed
  Action.info ("Creating files using " ++ showUInt64 s.workers ++ " parallel worker(s)...")
  Action.log .debug (describeAssignments assignments)
  Action.info ("Starting parallel generation: " ++ showUInt64 (coveredFiles assignments)
    ++ " file(s) with " ++ showNat assignments.length ++ " worker(s)")

/-- It asks for nothing else. -/
theorem announceWorkers_asks {P : Request → Prop} (h : ∀ e, P (.log e)) (s : Settings) :
    s.announceWorkers.Asks P :=
  .bind (Action.log_asks h _ _) fun _ => .bind (Action.log_asks h _ _) fun _ =>
    Action.log_asks h _ _

/-- All that comes before the first file is opened. -/
def prepare (s : Settings) : Action (Except RunError Plan) := do
  match ← s.compilePlan with
  | .error e => return .error e
  | .ok (schema, plan) =>
    tell (s.description schema)
    Action.info "Starting data generation..."
    Action.info ("Mode: File output (" ++ showUInt64 s.filesCount ++ " file(s))")
    Action.info ("Lines per file: " ++ showUInt64 s.dataLines)
    Action.info ("Output directory: " ++ s.path)
    Action.info ("File prefix type: " ++ s.scheme.word)
    match ← s.clear with
    | .error e => return .error e
    | .ok () =>
      if worthSharing s.filesCount s.workers then s.announceWorkers
      return .ok plan

/-- Writes the files, by one worker after the other if there are several. -/
def writeInOrder (s : Settings) (plan : Plan) : Action (Except RunError (List FileOutput)) := do
  if worthSharing s.filesCount s.workers then
    match mergeResults (← runWorkers plan s.path s.naming s.dataLines
      (partition s.filesCount s.workers s.seed)) with
    | .error e => return .error (.parallel e)
    | .ok outputs =>
      Action.info ("Parallel generation completed: " ++ showNat outputs.length
        ++ " file(s) created")
      return .ok outputs
  else s.writeAlone plan

/-- Tells what came of it. -/
def conclude (s : Settings) (outputs : Except RunError (List FileOutput)) :
    Action (Except RunError Summary) := do
  match outputs with
  | .error e => return .error e
  | .ok outputs =>
    tell ((Summary.ofOutputs outputs).description s)
    return .ok (Summary.ofOutputs outputs)

/-- What comes after the preparation. -/
def write (s : Settings) : Except RunError Plan → Action (Except RunError Summary)
  | .error e => return .error e
  | .ok plan => do s.conclude (← s.writeInOrder plan)

/-- A run that is not worth sharing is written alone. -/
theorem writeInOrder_eq_writeAlone (s : Settings) (plan : Plan)
    (h : worthSharing s.filesCount s.workers = false) :
    s.writeInOrder plan = s.writeAlone plan := by
  unfold writeInOrder
  rw [h, if_neg Bool.false_ne_true]

/-- Several workers are announced first. -/
theorem writeParallel_eq (s : Settings) (plan : Plan)
    (h : worthSharing s.filesCount s.workers = true) :
    s.writeParallel plan = s.announceWorkers >>= fun _ => s.writeInOrder plan := by
  unfold writeParallel announceWorkers writeInOrder writeShared
  simp only [h, if_true, bind_assoc]
  refine bind_congr fun _ => bind_congr fun _ => bind_congr fun _ => bind_congr fun results => ?_
  cases mergeResults results with
  | error e => rfl
  | ok outputs => rfl

/-- **A run that writes files** prepares itself and writes. -/
theorem execute_eq {s : Settings} (h : s.isConsole = false) :
    s.execute = s.prepare >>= s.write := by
  unfold execute prepare
  rw [bind_assoc]
  refine bind_congr fun compiled => ?_
  cases compiled with
  | error e => rfl
  | ok compiled =>
      obtain ⟨schema, plan⟩ := compiled
      unfold produce writeFiles
      simp only [h, Bool.false_eq_true, if_false, bind_assoc]
      refine bind_congr fun _ => bind_congr fun _ => bind_congr fun _ => bind_congr fun _ =>
        bind_congr fun _ => bind_congr fun _ => bind_congr fun cleared => ?_
      cases cleared with
      | error e => rfl
      | ok _ =>
          cases hshare : worthSharing s.filesCount s.workers with
          | true =>
              simp only [if_true, s.writeParallel_eq plan hshare, bind_assoc, pure_bind]
              refine bind_congr fun _ => bind_congr fun outputs => ?_
              cases outputs <;> rfl
          | false =>
              simp only [Bool.false_eq_true, if_false, pure_bind, bind_assoc]
              show _ = s.writeInOrder plan >>= s.conclude
              rw [s.writeInOrder_eq_writeAlone plan hshare]
              refine bind_congr fun outputs => ?_
              cases outputs <;> rfl

/-! ## Runs among other things that happen -/

/-- The worlds that a run may come to, at any time and whatever is refused. It goes alone, with one
worker after the other if there are several; or the workers take turns once all is prepared. What
comes after the workers tells only what they came to. -/
inductive Reaches (s : Settings) (w : World) : World → Prop
  | alone (ts : List Turn) : Reaches s w ((Crew.lone s.execute w).run ts).2.world
  | shared {ts : List Turn} {es : List Event} {plan : Plan} {w₁ : World}
      (hprepared : (Crew.lone s.prepare w).run ts = (es, Crew.lone (.done (.ok plan)) w₁))
      (hshare : worthSharing s.filesCount s.workers = true) (ts' : List Turn) :
      Reaches s w ((workerCrew plan s.path s.naming s.dataLines
        (partition s.filesCount s.workers s.seed) w₁).run ts').2.world

end Settings

end SampleData
