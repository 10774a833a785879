import AblAnalysis.Artifact.Decode
import AblAnalysis.Project.Session
import AblAnalysis.Resolver.Basic
import AblAnalysis.Storage.Retry

/-!
The cache record of a unit: where its source and its artifact are, and what has been learnt from the
artifact. Loading takes an artifact only if it is not older than the source and the files that the
unit was built from. Building removes the artifact first, so that a failed build never leaves one
behind, and puts the new one in its place in one step.
-/

namespace AblAnalysis

open Artifact

/-- What a parser is given to read a unit. -/
structure UnitContext where
  path : String
  session : Session
  tracker : Preprocessor.Tracker := {}
  resolver : Resolver

/-- A fresh context for a unit. -/
def UnitContext.start (session : Session) (path : String) : UnitContext where
  path := path
  session := session
  resolver := { schema := session.schema, catalog := session.catalog }

/-- Reads units. -/
abbrev UnitParser (m : Type → Type) := UnitContext → m (Except Error ParsedUnit)

/-- The cache record of a unit. -/
structure Record where
  source : String
  artifact : String
  /-- Bytes to read instead of the artifact. No times are checked for them. -/
  blob : Option (List UInt8) := none
  /-- Whether a load at least to the header was tried, or the artifact was written. -/
  checked : Bool := false
  contents : Contents := {}
  deriving Repr

namespace Record

variable {m : Type → Type} [Monad m]

/-- The record of a source file, which is known by its canonical path if it exists. -/
def openAt (files : Files m) (session : Session) (path : String) : m Record := do
  let source := (← files.canonical? path).getD path
  return { source, artifact := Path.artifact session.cache.directory source }

/-! ### Loading -/

/-- Whether a file that the unit was built from is not newer than a time. -/
def isFresh (files : Files m) (session : Session) (time : Int) (name : String) : m Bool := do
  match ← session.findFile? files name with
  | none => return false
  | some path =>
    match ← files.modified? path with
    | none => return false
    | some changed => return decide (changed ≤ time)

/-- The first file that is gone or newer than a time. Empty names stand for no file. -/
def firstChanged? (files : Files m) (session : Session) (time : Int) :
    List String → m (Option String)
  | [] => return none
  | name :: rest => do
    if name.isEmpty then firstChanged? files session time rest
    else if ← isFresh files session time name then firstChanged? files session time rest
    else return some name

/-- Reads an artifact from a file as far as `target`. -/
def readFrom (files : Files m) (session : Session) (artifact : String) (target : Depth) (c : Contents)
    (stream : Stream) : m (Contents × Except LoadFailure Unit) := do
  match readFiles c stream with
  | (c, .error e) => return (c, .error e)
  | (c, .ok rest) =>
    match ← files.modified? artifact with
    | none => return (c, .error .missing)
    | some time =>
      match ← firstChanged? files session time c.fileNames with
      | some name => return (c, .error (.fileChanged name))
      | none => return readRest target c rest

/-- Whether the source is newer than a time. A source that does not exist is not. -/
def sourceIsNewer (files : Files m) (source : String) (time : Int) : m Bool := do
  match ← files.modified? source with
  | some changed => return decide (time < changed)
  | none => return false

/-- Adds to contents what the artifact file says, as far as `target`. -/
def loadFile (files : Files m) (session : Session) (source artifact : String) (target : Depth)
    (c : Contents) : m (Contents × Except LoadFailure Unit) := do
  match ← files.modified? artifact with
  | none => return (c, .error .missing)
  | some time =>
    if ← sourceIsNewer files source time then return (c, .error .sourceNewer)
    else if target ≤ .timestampChecked then
      return ({ c with depth := .timestampChecked }, .ok ())
    else
      match ← files.openFile artifact with
      | .error failure =>
        return (c, .error (.unreadable (failure.classify "Failed to open artifact")))
      | .ok stream => readFrom files session artifact target c stream

/-- Forgets what was learnt before and loads as far as `target`. -/
def loadTo (files : Files m) (session : Session) (target : Depth) (r : Record) :
    m (Except LoadFailure Unit × Record) := do
  let c := r.contents.refresh
  let checked := r.checked || decide (Depth.headerLoaded ≤ target)
  let (contents, result) ← match r.blob with
    | some bytes => pure (c.read target ⟨bytes, none⟩)
    | none => loadFile files session r.source r.artifact target c
  return (result, { r with checked, contents })

/-- Loads everything. -/
def load (files : Files m) (session : Session) (r : Record) :
    m (Except LoadFailure Unit × Record) :=
  r.loadTo files session .stringsLoaded

/-! ### Writing -/

/-- Writes an artifact under a temporary name and then renames it. -/
def store (files : Files m) (artifact : String) (bytes : List UInt8) : m (Except Error Unit) := do
  let temporary := artifact ++ ".tmp"
  let prepared ← match Path.parent? artifact with
    | some directory => files.createDirectories directory
    | none => pure (.ok ())
  match prepared with
  | .error failure => return .error (failure.classify "Failed to create cache directory")
  | .ok () =>
    match ← files.writeFile temporary bytes with
    | .error (.creating, failure) => return .error (failure.classify "Failed to create temp file")
    | .error (.filling, failure) => return .error (failure.classify "Failed to write artifact")
    | .error (.syncing, failure) => return .error (failure.classify "Failed to sync artifact")
    | .ok () =>
      match ← files.rename temporary artifact with
      | .error failure => return .error (failure.classify "Failed to rename artifact")
      | .ok () => return .ok ()

/-- Forgets what was learnt before and writes the artifact of a unit that has been read. -/
def write (files : Files m) (session : Session) (r : Record) (unit : ParsedUnit) :
    m (Except Error Unit × Record) := do
  let contents := r.contents.refresh.note unit
  match contents.encode unit.tree with
  | .error e => return (.error e, { r with contents })
  | .ok bytes =>
    match ← retryFrom (fun _ => files.pause session.cache.retryDelay.toNat)
        (store files r.artifact bytes) session.cache.maxRetries 0 with
    | .error e => return (.error e, { r with contents })
    | .ok () =>
      return (.ok (), { r with checked := true, contents := contents.complete unit.tree })

/-- Reads the unit and writes its artifact, once the old one is gone. -/
def rebuild (files : Files m) (session : Session) (parser : UnitParser m) (r : Record) :
    m (Except Error ParsedUnit × Record) := do
  let cleared := { r with contents := r.contents.refresh }
  match ← parser (UnitContext.start session r.source) with
  | .error e => return (.error e, cleared)
  | .ok unit =>
    match ← cleared.write files session unit with
    | (.error e, r) => return (.error e, r)
    | (.ok (), r) => return (.ok unit, r)

/-- Removes the artifact, reads the unit and writes its artifact anew. -/
def build (files : Files m) (session : Session) (parser : UnitParser m) (r : Record) :
    m (Except Error ParsedUnit × Record) := do
  match ← files.remove r.artifact with
  | .error failure =>
    if failure.kind = .notFound then r.rebuild files session parser
    else return (.error (failure.classify "Failed to delete artifact"), r)
  | .ok () => r.rebuild files session parser

end Record

end AblAnalysis
