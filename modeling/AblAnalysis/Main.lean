import AblAnalysis.Command.Run

/-!
The command line tool: the files of the system, and the entry point.
-/

namespace AblAnalysis

/-- What the system reports as a failure. -/
def IoFailure.ofSystem (e : IO.Error) : IoFailure :=
  let text (details : String) (code : UInt32) : String :=
    details ++ " (os error " ++ toString code.toNat ++ ")"
  match e with
  | .noFileOrDirectory _ code details => ⟨.notFound, text details code⟩
  | .noSuchThing _ code details => ⟨.notFound, text details code⟩
  | .permissionDenied _ code details => ⟨.permissionDenied, text details code⟩
  | .inappropriateType _ code details =>
    ⟨if code = 21 then .isADirectory else .notADirectory, text details code⟩
  | .alreadyExists _ code details => ⟨.alreadyExists, text details code⟩
  | .resourceExhausted _ code details => ⟨.storageFull, text details code⟩
  | .resourceBusy code details => ⟨.wouldBlock, text details code⟩
  | .interrupted _ code details => ⟨.interrupted, text details code⟩
  | .timeExpired code details => ⟨.timedOut, text details code⟩
  | .otherError code details => ⟨.other, text details code⟩
  | .unsupportedOperation code details => ⟨.other, text details code⟩
  | .unsatisfiedConstraints code details => ⟨.other, text details code⟩
  | .invalidArgument _ code details => ⟨.other, text details code⟩
  | .hardwareFault code details => ⟨.other, text details code⟩
  | other => ⟨.other, toString other⟩

/-- Runs an operation of the system. -/
def attempt {α : Type} (operation : IO α) : IO (Except IoFailure α) := do
  try
    return .ok (← operation)
  catch e =>
    return .error (.ofSystem e)

/-- Reads what is left of a file. -/
def readOpen (handle : IO.FS.Handle) : IO Artifact.Stream := do
  match ← attempt handle.readBinToEnd with
  | .ok bytes => return ⟨bytes.data.toList, none⟩
  | .error failure => return ⟨[], some failure⟩

/-- Writes a file, telling what was being done when it failed. -/
def writeOpen (path : String) (bytes : List UInt8) : IO (Except (WriteStage × IoFailure) Unit) := do
  match ← attempt (IO.FS.Handle.mk path .write) with
  | .error failure => return .error (.creating, failure)
  | .ok handle =>
    match ← attempt (handle.write ⟨bytes.toArray⟩) with
    | .error failure => return .error (.filling, failure)
    | .ok () => return (← attempt handle.flush).mapError ((.syncing, ·))

/-- The path without detours of something that exists, with the time of its last change. -/
def lookAt (path : String) : IO (String × Int) := do
  let found ← IO.FS.realPath path
  let data ← found.metadata
  return (found.toString, data.modified.sec * 1000000000 + data.modified.nsec.toNat)

/-- The files of the system, with times in nanoseconds. -/
def systemFiles : Files IO where
  openFile path := do
    match ← attempt (IO.FS.Handle.mk path .read) with
    | .ok handle => return .ok (← readOpen handle)
    | .error failure => return .error failure
  modified? path := return (← attempt (lookAt path)).toOption.map (·.2)
  canonical? path := return (← attempt (lookAt path)).toOption.map (·.1)
  remove path := attempt (IO.FS.removeFile path)
  createDirectories path := attempt (IO.FS.createDirAll path)
  writeFile path bytes := writeOpen path bytes
  rename source target := attempt (IO.FS.rename source target)
  pause milliseconds := IO.sleep milliseconds.toUInt32

end AblAnalysis

open AblAnalysis in
/-- Runs the tool on the files and the environment of the system. -/
def main (args : List String) : IO UInt32 := do
  let env : Environment :=
    { propath := ← IO.getEnv "ABL_PROPATH", cacheDirectory := ← IO.getEnv "ABL_CACHE_DIR" }
  let exit ← Command.runTool systemFiles env args
  (← IO.getStdout).putStr exit.output
  (← IO.getStderr).putStr (if exit.code = 2 then Command.Form.tool.helpText else exit.errors)
  return exit.code
