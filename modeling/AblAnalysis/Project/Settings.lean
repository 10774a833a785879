import AblAnalysis.Error
import AblAnalysis.Text.Blank
import AblAnalysis.Text.Pieces

/-!
Settings of a project: how its units are read, where their artifacts are kept, and the schemas and
class catalogs it uses. Everything has a default.
-/

namespace AblAnalysis

/-- Operating system that the analysed code runs on. -/
inductive OperatingSystem where
  | unix
  | windows
  deriving Repr, DecidableEq

namespace OperatingSystem

/-- Value of the preprocessor name `OPSYS`. -/
def name : OperatingSystem → String
  | .unix => "UNIX"
  | .windows => "WIN32"

/-- Value of the preprocessor name `WINDOW-SYSTEM`. -/
def windowSystem : OperatingSystem → String
  | .unix => "TTY"
  | .windows => "MS-WIN95"

/-- Number of the operating system. -/
def number : OperatingSystem → Int32
  | .unix => 2
  | .windows => 1

end OperatingSystem

/-- How units are read. -/
structure Settings where
  /-- Directories that files and classes are looked for in, in order. -/
  propath : List String := []
  /-- Value of the preprocessor name `PROVERSION`. -/
  version : String := "11.6"
  /-- Value of the preprocessor name `BATCH-MODE`. -/
  batchMode : Bool := true
  /-- Whether units are read although they have artifacts. -/
  multiParse : Bool := true
  /-- Whether directives to the parser count. -/
  directives : Bool := true
  /-- Whether a backslash escapes in texts. -/
  backslashEscape : Bool := false
  system : OperatingSystem := .unix
  deriving Repr, DecidableEq

/-- The directories of a comma-separated list, without blanks around them and without empty ones. -/
def splitPropath (text : String) : List String :=
  ((Text.pieces ',' text).map Text.trim).filter (fun entry => !entry.isEmpty)

/-- The propath as a comma-separated list. -/
def Settings.propathText (s : Settings) : String :=
  String.intercalate "," s.propath

/-- Where and how artifacts are kept. -/
structure CacheSettings where
  directory : String := "./pubs"
  /-- Whether artifacts are used at all. -/
  enabled : Bool := true
  /-- How often a write is repeated that fails in a way that may pass. -/
  maxRetries : UInt32 := 3
  /-- Milliseconds before a repetition. -/
  retryDelay : UInt64 := 50
  deriving Repr, DecidableEq

/-- The settings of a project. -/
structure ProjectConfig where
  settings : Settings := {}
  cache : CacheSettings := {}
  /-- Schema descriptions, each of one database. -/
  schemaFiles : List String := []
  /-- Class catalogs. -/
  catalogFiles : List String := []
  deriving Repr, DecidableEq

/-- What the environment says about a project. -/
structure Environment where
  /-- Value of `ABL_PROPATH`. -/
  propath : Option String := none
  /-- Value of `ABL_CACHE_DIR`. -/
  cacheDirectory : Option String := none
  deriving Repr, DecidableEq

namespace ProjectConfig

/-- Lets the environment replace the propath. -/
def withPropath (c : ProjectConfig) (env : Environment) : ProjectConfig :=
  match env.propath with
  | some text => { c with settings := { c.settings with propath := splitPropath text } }
  | none => c

/-- Lets the environment replace the propath and then the cache directory, which must not be
blank. -/
def override (c : ProjectConfig) (env : Environment) : Except Error Unit × ProjectConfig :=
  let c := c.withPropath env
  match env.cacheDirectory with
  | none => (.ok (), c)
  | some directory =>
    if (Text.trim directory).isEmpty then (.error (.config .emptyCacheDirectory), c)
    else (.ok (), { c with cache := { c.cache with directory } })

end ProjectConfig

end AblAnalysis
