import AblAnalysis.Artifact.Codec

/-!
Access to files, as far as this library needs it. What uses files is written once for all ways of
reaching them: the system's own files and disks that are values.
-/

namespace AblAnalysis

/-- What was being done to a file when writing it failed. -/
inductive WriteStage where
  | creating
  | filling
  | syncing
  deriving Repr, DecidableEq

/-- The operations on files. Paths are relative to the current directory. -/
structure Files (m : Type → Type) where
  /-- Opens a file for reading. A directory can be opened too, but reading it fails. -/
  openFile : String → m (Except IoFailure Artifact.Stream)
  /-- The time of the last change, of anything that exists. -/
  modified? : String → m (Option Int)
  /-- The absolute path without detours, of anything that exists. -/
  canonical? : String → m (Option String)
  /-- Removes a file. -/
  remove : String → m (Except IoFailure Unit)
  /-- Creates a directory and those around it that are missing. -/
  createDirectories : String → m (Except IoFailure Unit)
  /-- Creates or replaces a file. -/
  writeFile : String → List UInt8 → m (Except (WriteStage × IoFailure) Unit)
  /-- Gives a file another name, replacing a file of that name. -/
  rename : String → String → m (Except IoFailure Unit)
  /-- Waits for some milliseconds. -/
  pause : Nat → m Unit

namespace Files

/-- The same operations where what is done with files is done in another way. -/
def map {m n : Type → Type} (change : {α : Type} → m α → n α) (files : Files m) : Files n where
  openFile path := change (files.openFile path)
  modified? path := change (files.modified? path)
  canonical? path := change (files.canonical? path)
  remove path := change (files.remove path)
  createDirectories path := change (files.createDirectories path)
  writeFile path bytes := change (files.writeFile path bytes)
  rename source target := change (files.rename source target)
  pause time := change (files.pause time)

variable {m : Type → Type} [Monad m]

/-- Whether there is anything at a path. -/
def has (files : Files m) (path : String) : m Bool := do
  return (← files.modified? path).isSome

/-- Reads a text file. -/
def readText (files : Files m) (path : String) : m (Except IoFailure String) := do
  match ← files.openFile path with
  | .error failure => return .error failure
  | .ok stream =>
    match stream.fault with
    | some failure => return .error failure
    | none =>
      match Text.ofUtf8? stream.bytes with
      | some text => return .ok text
      | none => return .error .notUtf8

end Files

end AblAnalysis
