import AblAnalysis.Classes.Imports
import AblAnalysis.Resolver.Scope
import AblAnalysis.Schema.Registry

/-!
The resolver answers what names stand for while a unit is read. Scopes are numbered in the order in
which they are opened and stay where they are, so a routine or a grammar context seen before can be
entered again; each scope knows the scope around it, which is older. The outermost scope belongs to
the unit and also has its routines, the methods it declares, the tables it copies from the schema
and the class it defines.

A query never fails; a name that is not found is an ordinary answer.
-/

namespace AblAnalysis

/-- Place of a scope. -/
inductive ScopeId where
  | root
  | inner (index : Nat)
  deriving Repr, DecidableEq

/-- Whether a full schema name comes before the declarations of the unit. -/
inductive Priority where
  | schemaFirst
  | scopeFirst
  deriving Repr, DecidableEq

/-- What a called name stands for. -/
inductive CallableKind where
  | localMethod
  | userFunction
  deriving Repr, DecidableEq

namespace Resolver

/-- A scope inside the unit's scope. -/
structure InnerScope where
  scope : Scope := {}
  parent : ScopeId
  deriving Repr

/-- The scope of the unit. -/
structure RootScope where
  scope : Scope := {}
  functions : List String := []
  methods : List String := []
  /-- The class that the unit defines, as it was known then. -/
  classInfo : Option ClassInfo := none
  /-- Tables copied from the schema, by lower-case name. -/
  definitions : Dict String Table := {}
  deriving Repr

/-- Buffer that every unit has. -/
def procTextBuffer : String := "proc-text-buffer"

end Resolver

/-- State of resolving names in one unit. -/
structure Resolver where
  schema : Schema := {}
  catalog : Catalog := {}
  root : Resolver.RootScope := {}
  inner : Array Resolver.InnerScope := #[]
  current : ScopeId := .root
  /-- Scopes of routines by lower-case name. -/
  routines : Dict String ScopeId := {}
  /-- Scopes of grammar contexts. -/
  contexts : Dict Nat ScopeId := {}
  /-- What the record expressions of grammar contexts stand for. -/
  records : Dict Nat (Option StoreKind) := {}
  imports : Imports := {}
  className : String := ""
  isAbstract : Bool := false
  isInterface : Bool := false
  isEnum : Bool := false
  allowsUnknownCalls : Bool := true
  /-- Name of the field referred to last. -/
  lastField : Option String := none
  deriving Repr

namespace Resolver

/-! ### Scopes -/

/-- The names of a scope. -/
def scope (r : Resolver) : ScopeId → Scope
  | .root => r.root.scope
  | .inner i =>
    match r.inner[i]? with
    | some s => s.scope
    | none => {}

/-- The scope around a scope. -/
def parent? (r : Resolver) : ScopeId → Option ScopeId
  | .root => none
  | .inner i => (r.inner[i]?).map (fun s => s.parent)

/-- An inner scope and the scopes around it, outward to the root. -/
def chainFromInner (r : Resolver) (i : Nat) : List ScopeId :=
  .inner i ::
    match r.parent? (.inner i) with
    | some (.inner j) => if j < i then chainFromInner r j else []
    | some .root => [.root]
    | none => []
termination_by i

/-- A scope and the scopes around it, outward to the root. -/
def chainFrom (r : Resolver) : ScopeId → List ScopeId
  | .root => [.root]
  | .inner i => r.chainFromInner i

/-- The scopes visible from the current place, outward to the root. -/
def chain (r : Resolver) : List Scope :=
  (r.chainFrom r.current).map r.scope

/-- How many scopes are around the current one. -/
def depth (r : Resolver) : Nat :=
  (r.chainFrom r.current).length - 1

/-- Changes the names of the current scope. -/
def modifyCurrent (r : Resolver) (f : Scope → Scope) : Resolver :=
  match r.current with
  | .root => { r with root := { r.root with scope := f r.root.scope } }
  | .inner i => { r with inner := r.inner.modify i (fun s => { s with scope := f s.scope }) }

/-- Opens a scope inside the current one, remembered under a context if one is given. -/
def openScope (r : Resolver) (context : Option Nat) : Resolver :=
  let id := ScopeId.inner r.inner.size
  let opened := { r with inner := r.inner.push { parent := r.current }, current := id }
  match context with
  | some c => { opened with contexts := opened.contexts.insert c id }
  | none => opened

/-- Goes back to the scope around the current one; the root stays. -/
def closeScope (r : Resolver) : Resolver :=
  match r.parent? r.current with
  | some p => { r with current := p }
  | none => r

/-- Enters the scope remembered under a context, if there is one. -/
def enter (r : Resolver) (context : Nat) : Resolver :=
  match r.contexts.get? context with
  | some id => { r with current := id }
  | none => r

/-- Leaves the current scope, if one is remembered under the context. -/
def exit (r : Resolver) (context : Nat) : Resolver :=
  if r.contexts.contains context then r.closeScope else r

/-- Begins a routine. One seen before gets its scope back; a new one gets a new scope and becomes a
function of the unit. -/
def openRoutine (r : Resolver) (name : String) (context : Option Nat) : Resolver :=
  let key := Text.lowercase name
  match r.routines.get? key with
  | some id =>
    match context with
    | some c => { r with current := id, contexts := r.contexts.insert c id }
    | none => { r with current := id }
  | none =>
    let opened := r.openScope context
    { opened with
      routines := opened.routines.insert key opened.current
      root := { opened.root with functions := opened.root.functions.insert key } }

/-! ### Queries -/

/-- Whether a name is a variable visible from the current place. -/
def isVar (r : Resolver) (name : String) : Bool :=
  r.chain.any (·.hasVar name) || r.catalog.anyInChain r.root.classInfo (·.hasProperty name)

/-- Whether a name is a variable declared where it was first used. -/
def isInlineVar (r : Resolver) (name : String) : Bool :=
  r.chain.any (·.hasInlineVar name)

/-- What a called name stands for in the unit; methods come before functions. -/
def callable? (r : Resolver) (name : String) : Option CallableKind :=
  let key := Text.lowercase name
  if r.root.methods.contains key || r.catalog.anyInChain r.root.classInfo (·.hasMethod name) then
    some .localMethod
  else if r.root.functions.contains key then some .userFunction
  else none

/-- What the nearest declaration of a lower-case table name says, if there is one. Buffers that the
class inherits count as temp-tables declared around the unit. -/
def declared? (r : Resolver) (key : String) : Option (Option StoreKind) :=
  match r.chain.findSome? (·.table? key) with
  | some entry => some entry.kind
  | none =>
    if r.catalog.anyInChain r.root.classInfo (·.hasBuffer key) then some (some .temporary)
    else none

/-- Whether the schema has a table for a lower-case name that is as long as the name. -/
def isFullSchemaName (r : Resolver) (key : String) : Bool :=
  match r.schema.lookupTable? key with
  | some table => table.name.utf8ByteSize == (Text.afterLast '.' key).utf8ByteSize
  | none => false

/-- What a table or buffer name stands for. A declaration comes before an abbreviated schema name;
one that stands for nothing hides declarations further out but not the schema. -/
def tableKind? (r : Resolver) (name : String) (priority : Priority) : Option StoreKind :=
  let key := Text.lowercase name
  let inSchema := (r.schema.lookupTable? key).isSome
  if priority = .schemaFirst && r.isFullSchemaName key then some .database
  else if Text.hasChar '.' key && inSchema then some .database
  else
    match r.declared? key with
    | some (some kind) => some kind
    | _ =>
      if inSchema then some .database
      else if key = procTextBuffer then some .temporary
      else none

/-- Whether a name is the name of a table; names of variables and names with two dots are not. -/
def isTableName (r : Resolver) (text : String) : Bool :=
  if 2 ≤ text.toList.count '.' || r.isVar text then false
  else (r.tableKind? text .scopeFirst).isSome

/-- Whether a first token, with what follows the dot after it, is the name of a record. -/
def startsRecord (r : Resolver) (first : String) (rest : Option String) (priority : Priority) :
    Bool :=
  let name :=
    match rest with
    | some tail => first ++ "." ++ tail
    | none => first
  (r.tableKind? name priority).isSome

/-- What the record expression of a context stands for. -/
def record? (r : Resolver) (context : Nat) : Option StoreKind :=
  (r.records.get? context).bind id

/-- The copy of a schema table. -/
def definition? (r : Resolver) (name : String) : Option Table :=
  r.root.definitions.get? (Text.lowercase name)

/-- The qualified name that a class name stands for, empty if it stands for none. -/
def lookupClass (r : Resolver) (text : String) : String :=
  r.imports.lookup r.catalog text

/-! ### Declarations -/

/-- Declares a variable. -/
def defineVar (r : Resolver) (name : String) : Resolver :=
  r.modifyCurrent (·.defineVar name)

/-- Declares a variable where it is first used. -/
def defineInlineVar (r : Resolver) (name : String) : Resolver :=
  r.modifyCurrent (·.defineInlineVar name)

/-- Declares the field referred to last as a variable. -/
def defineLastField (r : Resolver) : Resolver :=
  match r.lastField with
  | some name => r.defineInlineVar name
  | none => r

/-- Declares a table. -/
def defineTable (r : Resolver) (name : String) (kind : StoreKind) : Resolver :=
  r.modifyCurrent (·.defineTable name { kind := some kind })

/-- Declares a method of the unit's class. -/
def defineMethod (r : Resolver) (name : String) : Resolver :=
  { r with root := { r.root with methods := r.root.methods.insert (Text.lowercase name) } }

/-- What a buffer for a table stands for. -/
def bufferEntry (r : Resolver) (table : String) : TableEntry :=
  let kind := r.tableKind? table .schemaFirst
  let found := if kind = some .database then r.schema.lookupTable? table else none
  { kind := kind
    bufferFor := some table
    database := found.map (fun t => t.database)
    fullName := found.map (fun t => t.name) }

/-- The name with a database in front under which a buffer for a database table is declared too:
with the database written in the buffer's name, or else that of the table. -/
def qualifiedBuffer? (entry : TableEntry) (buffer : String) : Option String :=
  if entry.kind = some .database then
    let name := TableName.read buffer
    (name.database.or entry.database).map (fun db => Text.lowercase db ++ "." ++ name.table)
  else none

/-- Declares a buffer for a table. -/
def defineBuffer (r : Resolver) (buffer table : String) : Resolver :=
  let name := Text.lowercase buffer
  let entry := r.bufferEntry (Text.lowercase table)
  r.modifyCurrent (fun s =>
    let qualified :=
      match qualifiedBuffer? entry name with
      | some other => s.defineTable other entry
      | none => s
    qualified.defineTable name entry)

/-- Copies a schema table into the unit, unless it has a copy of that name. -/
def copyTable (r : Resolver) (name : String) : Option Table × Resolver :=
  match r.schema.lookupTable? name with
  | none => (none, r)
  | some table =>
    match r.root.definitions.get? table.key with
    | some copy => (some copy, r)
    | none =>
      (some table.copyBare, { r with
        root := { r.root with definitions := r.root.definitions.insert table.key table.copyBare } })

/-- Remembers what the record expression of a context stands for. -/
def pushRecord (r : Resolver) (context : Nat) (name : String) (priority : Priority) : Resolver :=
  { r with records := r.records.insert context (r.tableKind? name priority) }

/-- Begins the class that the unit defines. -/
def defineClass (r : Resolver) (name : String) : Resolver :=
  let className := dequote name
  { r with
    className := className
    root := { r.root with classInfo := r.catalog.find? className } }

/-- What can happen to a resolver. -/
inductive Change where
  | openScope (context : Option Nat)
  | closeScope
  | enter (context : Nat)
  | exit (context : Nat)
  | openRoutine (name : String) (context : Option Nat)
  | closeRoutine
  | defineVar (name : String)
  | defineInlineVar (name : String)
  | referField (name : String)
  | defineLastField
  | defineTable (name : String) (kind : StoreKind)
  | defineMethod (name : String)
  | defineBuffer (buffer table : String)
  | copyTable (name : String)
  | pushRecord (context : Nat) (name : String) (priority : Priority)
  | clearRecords
  | defineClass (name : String)
  | defineAbstractClass (name : String)
  | defineInterface (name : String)
  | defineEnum (name : String)
  | allowUnknownCalls
  | forbidUnknownCalls
  | importPath (text : String)
  | injectClass (info : ClassInfo)
  | addAlias (name database : String)
  | dropAlias (name : Option String)
  deriving Repr, DecidableEq

/-- Carries out a change. -/
def step (r : Resolver) : Change → Resolver
  | .openScope context => r.openScope context
  | .closeScope => r.closeScope
  | .enter context => r.enter context
  | .exit context => r.exit context
  | .openRoutine name context => r.openRoutine name context
  | .closeRoutine => r.closeScope
  | .defineVar name => r.defineVar name
  | .defineInlineVar name => r.defineInlineVar name
  | .referField name => { r with lastField := some name }
  | .defineLastField => r.defineLastField
  | .defineTable name kind => r.defineTable name kind
  | .defineMethod name => r.defineMethod name
  | .defineBuffer buffer table => r.defineBuffer buffer table
  | .copyTable name => (r.copyTable name).2
  | .pushRecord context name priority => r.pushRecord context name priority
  | .clearRecords => { r with records := {} }
  | .defineClass name => r.defineClass name
  | .defineAbstractClass name => { r.defineClass name with isAbstract := true }
  | .defineInterface name => { r.defineClass name with isInterface := true }
  | .defineEnum name => { r.defineClass name with isEnum := true }
  | .allowUnknownCalls => { r with allowsUnknownCalls := true }
  | .forbidUnknownCalls => { r with allowsUnknownCalls := false }
  | .importPath text => { r with imports := r.imports.add r.catalog text }
  | .injectClass info => { r with catalog := r.catalog.inject info }
  | .addAlias name database => { r with schema := r.schema.addAlias name database }
  | .dropAlias name => { r with schema := r.schema.dropAlias name }

/-- Carries out changes in order. -/
def run (r : Resolver) (changes : List Change) : Resolver :=
  changes.foldl step r

end Resolver

end AblAnalysis
