import AblAnalysis.Storage.Disk
import AblAnalysis.Task

/-!
Disks that several tasks work on. What takes several calls of the system is done step by step, and others may
take steps in between: the directories of a path are created one by one, and a file is created, filled and
given to the device. With nothing in between it comes to the same (`Disk.map_run_steps`).
-/

namespace AblAnalysis.Disk

/-- Creates a directory given by the pieces of its path, the last first, and those around it that are
missing. -/
def stepPieces : List String → Task Disk (Except IoFailure Unit)
  | [] => return .ok ()
  | piece :: outer => do
    if !Path.isPart piece then stepPieces outer
    else
      let path := String.intercalate "/" (piece :: outer).reverse
      match ← Task.once (·.createDirectory path) with
      | .ok () => return .ok ()
      | .error failure =>
        if failure.kind = .notFound then
          match ← stepPieces outer with
          | .error failure => return .error failure
          | .ok () =>
            match ← Task.once (·.createDirectory path) with
            | .ok () => return .ok ()
            | .error failure =>
              if ← Task.look (·.isDirectory path) then return .ok () else return .error failure
        else if ← Task.look (·.isDirectory path) then return .ok ()
        else return .error failure

/-- Creates or replaces a file. -/
def stepWrite (path : String) (bytes : List UInt8) :
    Task Disk (Except (WriteStage × IoFailure) Unit) := do
  match ← Task.once (·.createFile path) with
  | .error failure => return .error (.creating, failure)
  | .ok place =>
    match ← Task.once (·.fillFile place bytes) with
    | .error failure => return .error (.filling, failure)
    | .ok () =>
      match ← Task.once (·.syncFile) with
      | .error failure => return .error (.syncing, failure)
      | .ok () => return .ok ()

/-- The files of a disk, step by step. -/
def steps : Files (Task Disk) where
  openFile path := .look (·.openFile path)
  modified? path := .look (·.modified? path)
  canonical? path := .look (·.canonical? path)
  remove path := .once (·.removeFile path)
  createDirectories path := stepPieces (Text.pieces '/' path).reverse
  writeFile path bytes := stepWrite path bytes
  rename source target := .once (·.rename source target)
  pause _ := .look fun _ => ()

/-- The files of a disk that is a part of the state. -/
def sharedSteps {τ : Type} : Files (Task (Disk × τ)) :=
  steps.map Task.onFirst

/-! ### With nothing in between -/

theorem run_stepPieces (ps : List String) (d : Disk) : (stepPieces ps).run d = d.createPieces ps := by
  induction ps generalizing d with
  | nil => rfl
  | cons piece outer ih =>
    rw [stepPieces, createPieces]
    by_cases hpart : (!Path.isPart piece) = true
    · rw [if_pos hpart, if_pos hpart, ih]
    rw [if_neg hpart, if_neg hpart, Task.run_bind]
    rcases hcreate : d.createDirectory (String.intercalate "/" (piece :: outer).reverse) with
      ⟨failure | _, d₁⟩ <;> simp only [Task.once, Task.run, hcreate]
    · split
      · rw [Task.run_bind, ih]
        rcases d₁.createPieces outer with ⟨failure' | _, d₂⟩
        · rfl
        · dsimp only
          rw [Task.run_bind]
          rcases hagain : d₂.createDirectory (String.intercalate "/" (piece :: outer).reverse) with
            ⟨failure' | _, d₃⟩ <;> simp only [Task.run, hagain]
          · rw [Task.run_bind]
            simp only [Task.look, Task.once, Task.run]
            split <;> rfl
          · rfl
      · rw [Task.run_bind]
        simp only [Task.look, Task.once, Task.run]
        split <;> rfl
    · rfl

theorem run_stepWrite (path : String) (bytes : List UInt8) (d : Disk) :
    (stepWrite path bytes).run d = d.writeFile path bytes := by
  rw [stepWrite, writeFile, Task.run_bind]
  rcases hcreate : d.createFile path with ⟨failure | place, d₁⟩ <;>
    simp only [Task.once, Task.run, hcreate]
  · rfl
  rw [Task.run_bind]
  rcases hfill : d₁.fillFile place bytes with ⟨failure | _, d₂⟩ <;> simp only [Task.run, hfill]
  · rfl
  rw [Task.run_bind]
  rcases hsync : d₂.syncFile with ⟨failure | _, d₃⟩ <;> simp only [Task.run, hsync] <;> rfl

/-- With nothing in between, the steps come to what the operations come to. -/
theorem map_run_steps : steps.map (fun t => (t.run : StateM Disk _)) = files := by
  have hcreate (path : String) : (stepPieces (Text.pieces '/' path).reverse).run =
      fun d => d.createDirectories path := funext (run_stepPieces _)
  have hwrite (path : String) (bytes : List UInt8) : (stepWrite path bytes).run =
      fun d => d.writeFile path bytes := funext (run_stepWrite path bytes)
  simp only [Files.map, steps, hcreate, hwrite]
  rfl

end AblAnalysis.Disk
