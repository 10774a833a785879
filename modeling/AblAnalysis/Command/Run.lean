import AblAnalysis.Command.Arguments
import AblAnalysis.Command.Report
import AblAnalysis.Command.Usage
import AblAnalysis.Project.ConfigReader
import AblAnalysis.Project.Record

/-!
Carrying out what the command line asks for. A run ends with what it printed and with the problem
that stopped it, if there was one.
-/

namespace AblAnalysis.Command

/-- A problem that stops a run, with what brought it about. -/
structure Problem where
  text : String
  cause : Option String := none
  deriving Repr, DecidableEq

/-- What a run printed, and what stopped it. -/
structure Result where
  lines : List String := []
  problem : Option Problem := none
  deriving Repr, DecidableEq

/-- How a process ends. -/
structure Exit where
  code : UInt32
  output : String := ""
  errors : String := ""
  deriving Repr, DecidableEq

/-- A text with the lines after the first indented as the first one is. -/
def indented (text : String) : String :=
  "    " ++ Text.replaceChar '\n' "\n    " text

/-- The text of a problem. -/
def Problem.message (p : Problem) : String :=
  "Error: " ++ p.text ++
    (match p.cause with
      | some cause => "\n\nCaused by:\n" ++ indented cause
      | none => "") ++ "\n"

/-- How a process with a result ends. -/
def Result.exit (r : Result) : Exit where
  code := if r.problem.isSome then 1 else 0
  output := String.join (r.lines.map (· ++ "\n"))
  errors := match r.problem with
    | some p => p.message
    | none => ""

/-- A run that ends with a problem. -/
def stopped (lines : List String) (text : String) (cause : Option Error) : Result :=
  ⟨lines, some ⟨text, cause.map (·.message)⟩⟩

/-- The answer to a question about a schema. -/
def answer (schema : Schema) : SchemaQuery → Result
  | .table name =>
    match schema.lookupTable? name with
    | some t => { lines := [tableLine t] }
    | none => stopped [] ("No unique table matches '" ++ name ++ "'") none
  | .field name =>
    match findField? schema name with
    | some (t, f) => { lines := [fieldLine t f] }
    | none => stopped [] ("No field matches '" ++ name ++ "'") none
  | .dump => { lines := schema.databases.flatMap databaseLines }

variable {m : Type → Type} [Monad m]

/-- Reads schema files and answers a question about them. -/
def runSchema (files : Files m) (paths : List String) (dictionaries : Bool) (query : SchemaQuery) :
    m Result := do
  match ← Schema.load files paths dictionaries with
  | .error e => return stopped [] "Failed to load schema" (some e)
  | .ok schema => return answer schema query

/-- The settings to use: those of a file or the defaults, changed by the environment and then by the
command line. -/
def readConfig (files : Files m) (env : Environment) (path cacheDirectory : Option String) :
    m (Except Result ProjectConfig) := do
  let read ← match path with
    | some path => do
      let read ← ProjectConfig.load files path
      pure (read.mapError (fun e => stopped [] ("Failed to read " ++ path) (some e)))
    | none => pure (.ok {})
  match read with
  | .error result => return .error result
  | .ok config =>
    match config.override env with
    | (.error e, _) => return .error (stopped [] e.message none)
    | (.ok (), config) =>
      match cacheDirectory with
      | some directory => return .ok { config with cache := { config.cache with directory } }
      | none => return .ok config

/-- Shows the artifact of a unit. -/
def runInspect (files : Files m) (env : Environment) (unit : String)
    (path cacheDirectory : Option String) (depth : Artifact.Depth) : m Result := do
  match ← readConfig files env path cacheDirectory with
  | .error result => return result
  | .ok config =>
    match ← Session.load files config with
    | .error e => return stopped [] "Failed to open project" (some e)
    | .ok session =>
      let record ← Record.openAt files session unit
      let first := "artifact " ++ record.artifact
      match ← record.loadTo files session depth with
      | (.error e, _) => return stopped [first] ("Cannot use artifact: " ++ e.message) none
      | (.ok (), record) => return { lines := first :: contentsLines record.contents }

/-- Replays a listing and shows what happened in it. -/
def runListing (files : Files m) (path : String) : m Result := do
  match ← Preprocessor.Listing.load files path {} with
  | (.error e, _) => return stopped [] ("Failed to replay " ++ path) (some e)
  | (.ok (), replay) => return { lines := replayLines replay.files replay.tracker }

/-- Carries out a request. -/
def Request.run (files : Files m) (env : Environment) : Request → m Result
  | .schema paths dictionaries query => runSchema files paths dictionaries query
  | .inspect unit path cacheDirectory depth =>
    runInspect files env unit path cacheDirectory depth
  | .listing path => runListing files path

/-- Name and version of the tool. -/
def versionLine : String := "abl-tool 0.1.0\n"

/-- Runs the tool with arguments. Arguments that make no sense end it with code 2. -/
def runTool (files : Files m) (env : Environment) (args : List String) : m Exit := do
  match Request.read args with
  | .error (.help form) => return { code := 0, output := form.helpText }
  | .error .version => return { code := 0, output := versionLine }
  | .error .rejected => return { code := 2 }
  | .ok request => return (← request.run files env).exit

end AblAnalysis.Command
