import AblAnalysis.Artifact.Depth

/-!
The commands of the tool: what each is called, which options and words it takes, and what their
values have to be. Reading the arguments and writing the help texts both follow these tables.
-/

namespace AblAnalysis.Command

/-- What a value has to be. -/
inductive ValueKind where
  | text
  /-- A path is not empty. -/
  | path
  /-- One of some words, in their case. -/
  | choice (words : List String)
  deriving Repr, DecidableEq

/-- Whether a value is what it has to be. -/
def ValueKind.accepts : ValueKind → String → Bool
  | .text, _ => true
  | .path, value => value != ""
  | .choice words, value => words.contains value

/-- An option, or a place for a word. -/
structure Parameter where
  /-- The long form of an option. -/
  name : String
  /-- The short form of an option. -/
  letter : Option Char := none
  /-- What stands for the value in help texts. -/
  label : String := ""
  /-- What the value has to be; a flag has none. -/
  value : Option ValueKind := some .path
  /-- The value if none is given. -/
  standard : Option String := none
  required : Bool := false
  repeatable : Bool := false
  purpose : String := ""
  deriving Repr, DecidableEq

/-- A command. -/
structure Form where
  /-- The words that lead to it. -/
  path : List String
  purpose : String
  options : List Parameter := []
  words : List Parameter := []
  deriving Repr, DecidableEq

namespace Form

/-- The tool itself. -/
def tool : Form where
  path := []
  purpose := "Command-line inspection of schemas, parse-unit binaries and preprocessor listings"

/-- Questions about a schema. Files have to be given. -/
def schema : Form where
  path := ["schema"]
  purpose := "Load schema description files and query them"
  options := [
    { name := "file", letter := some 'f', label := "FILES", required := true, repeatable := true,
      purpose := "Schema description file, one database each" },
    { name := "meta", value := none,
      purpose := "Add the dictionary meta tables to every database" }]

/-- The name that is looked up. -/
def lookedUp : Parameter :=
  { name := "name", label := "NAME", value := some .text, required := true }

/-- The question which table is meant. -/
def lookupTable : Form where
  path := ["schema", "lookup-table"]
  purpose := "Resolve a `table` or `db.table` name, abbreviations allowed"
  words := [lookedUp]

/-- The question which field is meant. -/
def lookupField : Form where
  path := ["schema", "lookup-field"]
  purpose := "Resolve a `field`, `table.field` or `db.table.field` name"
  words := [lookedUp]

/-- The question what a schema holds. -/
def dump : Form where
  path := ["schema", "dump"]
  purpose := "Print every database, table and field"

/-- Work on artifacts. -/
def artifact : Form where
  path := ["pub"]
  purpose := "Parse-unit binary operations"

/-- The depths by name. -/
def depths : List (String × Artifact.Depth) :=
  [("files", .filesLoaded), ("header", .headerLoaded), ("schema", .schemaLoaded),
    ("imports", .importsLoaded), ("exports", .exportsLoaded), ("ast", .treeLoaded),
    ("strings", .stringsLoaded)]

/-- Showing the artifact of a unit. -/
def inspect : Form where
  path := ["pub", "inspect"]
  purpose := "Print the contents of a unit's cached artifact"
  options := [
    { name := "config", letter := some 'c', label := "CONFIG",
      purpose := "Project configuration (TOML)" },
    { name := "cache-dir", label := "CACHE_DIR",
      purpose := "Cache directory, overrides the configuration" },
    { name := "depth", label := "DEPTH", value := some (.choice (depths.map (·.1))),
      standard := some "strings", purpose := "How far to read the artifact" }]
  words := [{ name := "unit", label := "UNIT", required := true,
              purpose := "Source file of the unit" }]

/-- Showing what happened in a listing. -/
def listing : Form where
  path := ["listing"]
  purpose := "Replay a preprocessor listing and print the macro tree"
  words := [{ name := "file", label := "FILE", required := true, purpose := "Listing file" }]

/-- All commands but those for help, the tool itself first. -/
def all : List Form :=
  [tool, schema, lookupTable, lookupField, dump, artifact, inspect, listing]

/-- The commands one step below a command. -/
def children (f : Form) : List Form :=
  all.filter (fun g => !g.path.isEmpty && g.path.dropLast = f.path)

/-- The help command of a command. -/
def help (f : Form) : Form where
  path := f.path ++ ["help"]
  purpose := "Print this message or the help of the given subcommand(s)"
  words := [{ name := "subcommand", label := "COMMAND", repeatable := true,
              purpose := "Print help for the subcommand(s)" }]

/-- The commands below a command, that for help last. -/
def subcommands (f : Form) : List Form :=
  if f.children.isEmpty then [] else f.children ++ [f.help]

/-- The last of the words that lead to a command. -/
def name (f : Form) : String :=
  f.path.getLastD "abl-tool"

/-- The command that further words lead to. -/
def descend? (f : Form) : List String → Option Form
  | [] => some f
  | word :: path => (f.subcommands.find? (fun g => g.name = word)).bind (·.descend? path)

end Form

end AblAnalysis.Command
