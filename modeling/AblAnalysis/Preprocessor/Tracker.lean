import AblAnalysis.Preprocessor.Graph
import AblAnalysis.Text.Blank
import AblAnalysis.Text.Integer

/-!
The tracker follows a preprocessor through one unit. It takes the preprocessor's callbacks one by
one, records them as events, and keeps which definition each name stands for.

A scoped definition is visible, in its exact spelling, in the file that makes it and the files
included from there until that file ends. A global definition is visible everywhere in any spelling.
A name stands for the scoped definition of the innermost file, else the named argument passed to
that file, else the scoped definition of the nearest file around it, else the global definition.

No callback fails: ends without a beginning are passed over and names without a definition are
recorded as such.
-/

namespace AblAnalysis.Preprocessor

/-- What a preprocessor reports. -/
inductive Callback where
  | define (line column : Int32) (name value : String) (kind : DefinitionKind)
  | undefine (line column : Int32) (name : String)
  | openFile (line column : Int32) (fileIndex : Int32) (name : String)
  | argument (name value : String) (undefined : Bool)
  | closeFile (line column : Int32)
  | openName (line column : Int32) (name : String)
  | closeName (line column : Int32)
  | condition (line column : Int32)
  | suspend (text : String) (line : Int32)
  | resume (line : Int32)
  deriving Repr, DecidableEq

/-- The scoped definitions made while a file is open. -/
structure Scope where
  inclusion : Nat
  defs : Dict String Nat := {}
  deriving Repr

/-- Lines that a visual designer leaves open to editing. -/
structure EditableSection where
  fileIndex : Int32
  firstLine : Int32
  lastLine : Int32
  deriving Repr, DecidableEq

/-- State of following one unit. -/
structure Tracker where
  graph : Graph := .start
  /-- Scope of the file being read. -/
  innermost : Scope := { inclusion := 0 }
  /-- Scopes of the files around it, nearest first. -/
  outer : List Scope := []
  /-- Global definitions by lower-case name. -/
  globals : Dict String Nat := {}
  /-- The reference that new events happen in. -/
  current : Nat := 0
  /-- Whether a designer directive was seen. -/
  designed : Bool := false
  sections : List EditableSection := []
  openSection : Option EditableSection := none
  deriving Repr

/-- Whether the text of a suspend directive opens a section that may be edited. -/
def opensEditable (text : String) : Bool :=
  Text.equalIgnoringAsciiCase (String.ofList ((Text.trimStart text).toList.take 15))
    "_UIB-CODE-BLOCK"

/-- Removes a name from the nearest scope that has it. -/
def eraseNearest? (name : String) : List Scope → Option (Nat × List Scope)
  | [] => none
  | scope :: rest =>
    match scope.defs.get? name with
    | some id => some (id, { scope with defs := scope.defs.erase name } :: rest)
    | none => (eraseNearest? name rest).map (fun r => (r.1, scope :: r.2))

namespace Tracker

/-- Index of the file being read. -/
def fileIndex (t : Tracker) : Int32 :=
  match t.graph.inclusion? t.innermost.inclusion with
  | some i => i.fileIndex
  | none => 0

/-- The definition that a name stands for. -/
def resolve? (t : Tracker) (name : String) : Option Nat :=
  match t.innermost.defs.get? name with
  | some id => some id
  | none =>
    match (t.graph.inclusion? t.innermost.inclusion).bind (·.namedArg? name) with
    | some id => some id
    | none =>
      match t.outer.findSome? (·.defs.get? name) with
      | some id => some id
      | none => t.globals.get? (Text.lowercase name)

/-- Removes the definition that a name stands for. -/
def remove (t : Tracker) (name : String) : Option Nat × Tracker :=
  match t.innermost.defs.get? name with
  | some id =>
    (some id, { t with innermost := { t.innermost with defs := t.innermost.defs.erase name } })
  | none =>
    let key := Text.lowercase name
    match (t.graph.inclusion? t.innermost.inclusion).bind (·.named.get? key) with
    | some id =>
      (some id, { t with
        graph := t.graph.modifyInclusion t.innermost.inclusion
          (fun i => { i with named := i.named.erase key }) })
    | none =>
      match eraseNearest? name t.outer with
      | some (id, outer) => (some id, { t with outer := outer })
      | none => (t.globals.get? key, { t with globals := t.globals.erase key })

/-- Adds a definition event in the current reference. -/
def record (t : Tracker) (line column : Int32) (d : Definition) : Tracker :=
  { t with graph := t.graph.addInside t.current line column (.definition d) }

/-- A definition. -/
def define (t : Tracker) (line column : Int32) (name value : String) (kind : DefinitionKind) :
    Tracker :=
  let id := t.graph.size
  let recorded := t.record line column { kind := kind, name := name, value := value }
  match kind with
  | .global => { recorded with globals := recorded.globals.insert (Text.lowercase name) id }
  | .scoped =>
    { recorded with
      innermost := { recorded.innermost with defs := recorded.innermost.defs.insert name id } }
  | _ => recorded

/-- The end of a definition. The event tells which definition was removed. -/
def undefine (t : Tracker) (line column : Int32) (name : String) : Tracker :=
  let (target, removed) := t.remove name
  removed.record line column { kind := .undefine, name := name, undefines := target }

/-- The beginning of an included file. -/
def openFile (t : Tracker) (line column fileIndex : Int32) (name : String) : Tracker :=
  let id := t.graph.size
  { t with
    graph := t.graph.addInside t.current line column
      (.inclusion { fileIndex := fileIndex, name := name })
    innermost := { inclusion := id }
    outer := t.innermost :: t.outer
    current := id }

/-- An argument of the file being read. It counts as passed by position when its name is the number
of the next argument. It happens where its inclusion happens but is not among its parent's
children. -/
def argument (t : Tracker) (name value : String) (undefined : Bool) : Tracker :=
  let owner := t.innermost.inclusion
  match t.graph.event? owner, t.graph.inclusion? owner with
  | some e, some i =>
    let id := t.graph.size
    let numbered := Text.count? name == some (i.args.size + 1)
    let d : Definition :=
      { kind := if numbered then .numberedArgument else .namedArgument
        name := if numbered then "" else name
        value := value
        inclusion := some owner
        undefined := undefined }
    { t with
      graph := (t.graph.add ⟨e.parent, e.line, e.column, .definition d⟩).modifyInclusion owner
        (fun i => if numbered then i.addNumbered id else i.addNamed name id) }
  | _, _ => t

/-- The reference around the current one, the main file at the outermost. -/
def around (t : Tracker) : Nat :=
  (t.graph.parent? t.current).getD 0

/-- The end of an included file. The main file stays open. -/
def closeFile (t : Tracker) (line column : Int32) : Tracker :=
  match t.outer with
  | [] => t
  | scope :: rest =>
    { t with
      graph := t.graph.modifyInclusion t.current
        (fun i => { i with endLine := line, endColumn := column })
      innermost := scope
      outer := rest
      current := t.around }

/-- The beginning of the expansion of a name. -/
def openName (t : Tracker) (line column : Int32) (name : String) : Tracker :=
  let id := t.graph.size
  { t with
    graph := t.graph.addInside t.current line column
      (.expansion { definition := t.resolve? name })
    current := id }

/-- The end of the expansion of a name, if one is open inside the current file. -/
def closeName (t : Tracker) (line column : Int32) : Tracker :=
  match t.graph.expansion? t.current with
  | some _ =>
    { t with
      graph := t.graph.modifyBody t.current (·.close line column)
      current := t.around }
  | none => t

/-- A suspend directive; in the main file it may open a section. -/
def suspend (t : Tracker) (text : String) (line : Int32) : Tracker :=
  let seen := { t with designed := true }
  if t.fileIndex = 0 && opensEditable text then
    { seen with openSection := some ⟨0, line, line⟩ }
  else seen

/-- A resume directive; in the main file it closes the open section. -/
def resume (t : Tracker) (line : Int32) : Tracker :=
  match t.openSection with
  | none => t
  | some s =>
    let closed := { t with openSection := none }
    if s.fileIndex = t.fileIndex then
      { closed with sections := closed.sections ++ [{ s with lastLine := line }] }
    else closed

/-- Takes one callback. -/
def step (t : Tracker) : Callback → Tracker
  | .define line column name value kind => t.define line column name value kind
  | .undefine line column name => t.undefine line column name
  | .openFile line column fileIndex name => t.openFile line column fileIndex name
  | .argument name value undefined => t.argument name value undefined
  | .closeFile line column => t.closeFile line column
  | .openName line column name => t.openName line column name
  | .closeName line column => t.closeName line column
  | .condition _ _ => t
  | .suspend text line => t.suspend text line
  | .resume line => t.resume line

/-- Takes callbacks in order. -/
def run (t : Tracker) (callbacks : List Callback) : Tracker :=
  callbacks.foldl step t

/-- Whether a line lies in a section that may be edited. -/
def isEditable (t : Tracker) (fileIndex line : Int32) : Bool :=
  t.sections.any (fun s => s.fileIndex = fileIndex && s.firstLine ≤ line && line ≤ s.lastLine)

end Tracker

end AblAnalysis.Preprocessor
