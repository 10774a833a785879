import AblAnalysis.Command.Form
import AblAnalysis.Text.Pieces

/-!
The arguments of the command line. An option may carry its value after `=`, directly after its
letter, or in the argument that follows; an argument that looks like an option is never a value.
After `--` every argument is a word.

A value that is attached to its option is dealt with at once. Any other value waits until the next
option or word of the command is dealt with or its arguments end, and the arguments of a subcommand
come before that end. So of a value that cannot be accepted and a request for help the one that is
dealt with first decides.
-/

namespace AblAnalysis.Command

/-- A question about a schema. -/
inductive SchemaQuery where
  | table (name : String)
  | field (name : String)
  | dump
  deriving Repr, DecidableEq

/-- What is asked for. -/
inductive Request where
  | schema (files : List String) (dictionaries : Bool) (query : SchemaQuery)
  | inspect (unit : String) (config cacheDirectory : Option String) (depth : Artifact.Depth)
  | listing (file : String)
  deriving Repr, DecidableEq

/-- Why there is nothing to do. -/
inductive Refusal where
  /-- Help on a command is asked for. -/
  | help (form : Form)
  | version
  /-- The arguments make no sense. -/
  | rejected
  deriving Repr, DecidableEq

/-- What one argument is. -/
inductive Argument where
  | word
  | separator
  | option (parameter : Parameter) (value : Option String)
  | help
  | version
  | unknown
  deriving Repr, DecidableEq

/-- Whether an argument looks like an option. -/
def looksLikeOption (argument : String) : Bool :=
  Text.beginsWith "-" argument && argument != "-"

namespace Form

/-- An option given by its long form. Only options with values may have one attached. -/
def longOption (f : Form) (name : String) (value : Option String) : Argument :=
  match f.options.find? (fun p => p.name = name) with
  | some p => if value.isSome && p.value.isNone then .unknown else .option p value
  | none =>
    if value.isSome then .unknown
    else if name = "help" then .help
    else if f.path.isEmpty && name = "version" then .version
    else .unknown

/-- An option given by its letter and what follows it. -/
def shortOption (f : Form) (letter : Char) (rest : List Char) : Argument :=
  match f.options.find? (fun p => p.letter = some letter) with
  | some p =>
    .option p
      (match rest with
        | [] => none
        | '=' :: value => some (String.ofList value)
        | value => some (String.ofList value))
  | none =>
    if letter = 'h' then .help
    else if f.path.isEmpty && letter = 'V' then .version
    else .unknown

/-- What an argument is for a command. -/
def classify (f : Form) (argument : String) : Argument :=
  match argument.toList with
  | ['-', '-'] => .separator
  | '-' :: '-' :: body =>
    match Text.cutFirst '=' (String.ofList body) with
    | some (name, value) => f.longOption name (some value)
    | none => f.longOption (String.ofList body) none
  | '-' :: letter :: rest => f.shortOption letter rest
  | _ => .word

end Form

/-- The arguments of one command, as far as they have been sorted out. -/
structure Sorted where
  /-- The parameters that were dealt with, with their values. A flag has an empty value. -/
  given : List (String × String) := []
  /-- A parameter that was not dealt with yet, and its value once there is one. -/
  waiting : Option (Parameter × Option String) := none
  /-- Places for further words. -/
  places : List Parameter := []
  deriving Repr, DecidableEq

namespace Sorted

/-- The values of a parameter. -/
def values (s : Sorted) (name : String) : List String :=
  (s.given.filter (fun g => g.1 = name)).map (·.2)

/-- The value of a parameter that is not repeatable. -/
def value? (s : Sorted) (name : String) : Option String :=
  s.given.lookup name

/-- Deals with a parameter. Its value has to be acceptable, and it must not be repeated unless it is
repeatable. -/
def accept (s : Sorted) (p : Parameter) (value : String) : Except Refusal Sorted :=
  if p.value.all (·.accepts value) && (p.repeatable || (s.value? p.name).isNone) then
    .ok { s with given := s.given ++ [(p.name, value)] }
  else .error .rejected

/-- Deals with what is waiting. -/
def settle (s : Sorted) : Except Refusal Sorted :=
  match s.waiting with
  | none => .ok s
  | some (_, none) => .error .rejected
  | some (p, some value) => { s with waiting := none }.accept p value

/-- Puts a word into the next place. -/
def place (s : Sorted) (word : String) : Except Refusal Sorted :=
  match s.places with
  | [] => .error .rejected
  | p :: places => do
    return { ← s.settle with waiting := some (p, some word), places }

/-- Takes an option. A value that is not attached to it has yet to come. -/
def takeOption (s : Sorted) (p : Parameter) (value : Option String) : Except Refusal Sorted := do
  let s ← s.settle
  match p.value, value with
  | none, _ => s.accept p ""
  | some _, some value => s.accept p value
  | some _, none => return { s with waiting := some (p, none) }

end Sorted

namespace Form

/-- Sorts arguments out. A word for which there is no place, and what comes after it, is left. -/
def sortFrom (f : Form) : Sorted → List String → Except Refusal (Sorted × List String)
  | s, [] => .ok (s, [])
  | s, argument :: rest =>
    match s.waiting with
    | some (p, none) =>
      if looksLikeOption argument then .error .rejected
      else f.sortFrom { s with waiting := some (p, some argument) } rest
    | _ =>
      match f.classify argument with
      | .word =>
        if s.places.isEmpty then .ok (s, argument :: rest)
        else do f.sortFrom (← s.place argument) rest
      | .separator => do return (← rest.foldlM (fun s word => s.place word) s, [])
      | .option p value => do f.sortFrom (← s.takeOption p value) rest
      | .help => do
        let _ ← s.settle
        .error (.help f)
      | .version => do
        let _ ← s.settle
        .error .version
      | .unknown => .error .rejected

/-- Sorts the arguments of a command out. -/
def sort (f : Form) (args : List String) : Except Refusal (Sorted × List String) :=
  f.sortFrom { places := f.words } args

/-- Whether a command has got what it needs. -/
def complete (f : Form) (s : Sorted) : Bool :=
  (f.options ++ f.words).all (fun p => !p.required || (s.value? p.name).isSome)

/-- Ends the arguments of a command. -/
def finish (f : Form) (s : Sorted) : Except Refusal Sorted := do
  let s ← s.settle
  if f.complete s then return s else .error .rejected

/-- Reads the arguments of a command without subcommands. -/
def readAll (f : Form) (args : List String) : Except Refusal Sorted := do
  match ← f.sort args with
  | (s, []) => f.finish s
  | (_, _ :: _) => .error .rejected

/-- Help on a command below another one. -/
def helpOn (f : Form) (path : List String) : Refusal :=
  match f.descend? path with
  | some g => .help g
  | none => .rejected

end Form

/-- The only word of a command. -/
def readWord (f : Form) (args : List String) : Except Refusal String := do
  match (← f.readAll args).given with
  | [(_, word)] => return word
  | _ => .error .rejected

/-- The question of a schema subcommand. -/
def readQuery : List String → Except Refusal SchemaQuery
  | "lookup-table" :: args => (readWord .lookupTable args).map .table
  | "lookup-field" :: args => (readWord .lookupField args).map .field
  | "dump" :: args => (Form.dump.readAll args).map (fun _ => .dump)
  | "help" :: path => .error (Form.schema.helpOn path)
  | _ => .error .rejected

/-- The schema command. -/
def readSchema (args : List String) : Except Refusal Request := do
  let (s, rest) ← Form.schema.sort args
  let query ← readQuery rest
  let s ← Form.schema.finish s
  return .schema (s.values "file") (s.value? "meta").isSome query

/-- The request to show an artifact. -/
def readInspect (args : List String) : Except Refusal Request := do
  let s ← Form.inspect.readAll args
  match s.value? "unit", Form.depths.lookup ((s.value? "depth").getD "strings") with
  | some unit, some depth =>
    return .inspect unit (s.value? "config") (s.value? "cache-dir") depth
  | _, _ => .error .rejected

/-- The artifact command. -/
def readArtifact (args : List String) : Except Refusal Request := do
  match (← Form.artifact.sort args).2 with
  | "inspect" :: args => readInspect args
  | "help" :: path => .error (Form.artifact.helpOn path)
  | _ => .error .rejected

/-- What the arguments ask for. -/
def Request.read (args : List String) : Except Refusal Request := do
  match (← Form.tool.sort args).2 with
  | "schema" :: args => readSchema args
  | "pub" :: args => readArtifact args
  | "listing" :: args => (readWord .listing args).map .listing
  | "help" :: path => .error (Form.tool.helpOn path)
  | _ => .error .rejected

end AblAnalysis.Command
