import AblAnalysis.Dict
import AblAnalysis.Text.Lowercase

/-!
Preprocessor events. An event is an inclusion of a file, the expansion of a name, or a definition;
inclusions and expansions are references and own the events that happen inside them. Events are
numbered in the order in which they happen.
-/

namespace AblAnalysis.Preprocessor

/-- What a definition event does. -/
inductive DefinitionKind where
  | global
  | scoped
  | namedArgument
  | numberedArgument
  | undefine
  deriving Repr, DecidableEq

/-- Word for the kind of a definition. -/
def DefinitionKind.label : DefinitionKind → String
  | .global => "Global"
  | .scoped => "Scoped"
  | .namedArgument => "NamedArg"
  | .numberedArgument => "NumberedArg"
  | .undefine => "Undefine"

/-- Inclusion of a file. -/
structure Inclusion where
  fileIndex : Int32 := 0
  /-- The file as the source names it. -/
  name : String := ""
  endLine : Int32 := 0
  endColumn : Int32 := 0
  /-- All arguments in the order of arrival. -/
  args : Array Nat := #[]
  /-- Arguments by lower-case name, without those that were undefined. -/
  named : Dict String Nat := {}
  usesNamedArgs : Bool := false
  children : Array Nat := #[]
  deriving Repr

namespace Inclusion

/-- The argument at a position counted from 1. -/
def arg? (i : Inclusion) (n : Nat) : Option Nat :=
  if n = 0 then none else i.args[n - 1]?

/-- The argument with a name, if the inclusion has named arguments at all. -/
def namedArg? (i : Inclusion) (name : String) : Option Nat :=
  if i.usesNamedArgs then i.named.get? (Text.lowercase name) else none

/-- Takes an argument passed by position. -/
def addNumbered (i : Inclusion) (id : Nat) : Inclusion :=
  { i with args := i.args.push id }

/-- Takes an argument passed by name. -/
def addNamed (i : Inclusion) (name : String) (id : Nat) : Inclusion :=
  { i with
    args := i.args.push id
    named := i.named.insert (Text.lowercase name) id
    usesNamedArgs := true }

end Inclusion

/-- Expansion of a name. -/
structure Expansion where
  /-- The definition that was expanded, if the name had one. -/
  definition : Option Nat := none
  endLine : Int32 := 0
  endColumn : Int32 := 0
  children : Array Nat := #[]
  deriving Repr

/-- A definition, an argument or the end of a definition. -/
structure Definition where
  kind : DefinitionKind
  name : String
  value : String := ""
  /-- The definition that an undefine removed. -/
  undefines : Option Nat := none
  /-- The inclusion that an argument was passed to. -/
  inclusion : Option Nat := none
  /-- Whether an argument was passed without a value. -/
  undefined : Bool := false
  deriving Repr, DecidableEq

/-- What an event is. -/
inductive EventBody where
  | inclusion (i : Inclusion)
  | expansion (e : Expansion)
  | definition (d : Definition)
  deriving Repr

/-- An event with its place in the reference around it. -/
structure Event where
  parent : Option Nat
  line : Int32
  column : Int32
  body : EventBody
  deriving Repr

namespace EventBody

/-- Whether the event is a reference. -/
def isRef : EventBody → Bool
  | .definition _ => false
  | _ => true

/-- The events that happened directly inside the event. -/
def children : EventBody → List Nat
  | .inclusion i => i.children.toList
  | .expansion e => e.children.toList
  | .definition _ => []

/-- Records an event that happened directly inside. -/
def addChild (b : EventBody) (id : Nat) : EventBody :=
  match b with
  | .inclusion i => .inclusion { i with children := i.children.push id }
  | .expansion e => .expansion { e with children := e.children.push id }
  | .definition d => .definition d

/-- Records where a reference ends. -/
def close (b : EventBody) (line column : Int32) : EventBody :=
  match b with
  | .inclusion i => .inclusion { i with endLine := line, endColumn := column }
  | .expansion e => .expansion { e with endLine := line, endColumn := column }
  | .definition d => .definition d

end EventBody

end AblAnalysis.Preprocessor
