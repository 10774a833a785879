import AblAnalysis.Artifact.Codec
import AblAnalysis.Artifact.Contents
import AblAnalysis.Artifact.StringTable

/-!
Artifacts as bytes. The segments in order: the version of the layout; the files, ended by index -1;
the class and its superclass; the tables, each followed by its fields, every list ended by an empty
name; imports and exports, each ended by kind -1; the tree, a node followed by its children and a -1
after the last of them; the texts that the tree refers to.
-/

namespace AblAnalysis.Artifact

/-- Version of the layout. -/
def layoutVersion : Int32 := 11

/-- The mark that ends a list of files, symbols, attributes or nodes. -/
def endMark : Int32 := -1

/-! ### Files, header, tables and symbols -/

/-- File names with their indexes, counted from `index`. -/
def encodeFiles (index : Nat) : List String → Except Error (List UInt8)
  | [] => do return int32Bytes endMark ++ (← textBytes "")
  | name :: rest => do
    let bytes ← textBytes name
    return int32Bytes (Int32.ofNat index) ++ bytes ++ (← encodeFiles (index + 1) rest)

/-- Names ended by an empty one. -/
def encodeNames : List String → Except Error (List UInt8)
  | [] => textBytes ""
  | name :: rest => do
    let bytes ← textBytes name
    return bytes ++ (← encodeNames rest)

/-- Tables with their fields. -/
def encodeTables : List TableUse → Except Error (List UInt8)
  | [] => textBytes ""
  | table :: rest => do
    let bytes ← encodeNames (table.name :: table.fields.values)
    return bytes ++ (← encodeTables rest)

/-- The number that stands for a data type, 0 for none. -/
def typeCode : Option DataType → Int32
  | some dataType => dataType.code
  | none => 0

/-- The class name that follows a symbol of a class type. -/
def encodeClassName (s : Symbol) : Except Error (List UInt8) :=
  if s.dataType = some .class_ then textBytes (s.className.getD "") else .ok []

/-- A symbol. -/
def encodeSymbol (s : Symbol) : Except Error (List UInt8) := do
  let name ← textBytes s.name
  let className ← encodeClassName s
  return int32Bytes s.kind ++ name ++ int32Bytes (typeCode s.dataType) ++ className

/-- Symbols ended by the end mark and an empty name. -/
def encodeSymbols : List Symbol → Except Error (List UInt8)
  | [] => do return int32Bytes endMark ++ (← textBytes "")
  | s :: rest => do
    let bytes ← encodeSymbol s
    return bytes ++ (← encodeSymbols rest)

/-! ### The tree -/

/-- An attribute that refers to a text, if there is one. -/
def referTo (key : Int32) (text : Option String) (table : StringTable) :
    List (Int32 × Int32) × StringTable :=
  match text with
  | none => ([], table)
  | some s => ([(key, (table.indexOf s).1)], (table.indexOf s).2)

/-- The text that is stored for a node: its own, unless it is that of its kind. -/
def storedText? (n : Tree.Node) : Option String :=
  n.ownText.filter (fun t => some t ≠ Tree.defaultText? n.kind)

/-- The class that is stored for a node: a type name always has one, empty if unresolved. -/
def storedClass? (n : Tree.Node) : Option String :=
  if n.kind = Tree.typeNameKind then some (n.qualifiedClass.getD "") else none

/-- The attributes that are stored for a node, in order. -/
def storedAttrs (n : Tree.Node) (table : StringTable) : List (Int32 × Int32) × StringTable :=
  let (text, table) := referTo Tree.textKey (storedText? n) table
  let (comments, table) := referTo Tree.commentsKey n.comments table
  let plain := n.attrs.entries.filter (fun e => !Tree.isTextKey e.1)
  let (directive, table) := referTo Tree.directiveKey n.directive table
  let (classes, table) := referTo Tree.classKey (storedClass? n) table
  (text ++ comments ++ plain ++ directive ++ classes, table)

/-- Attributes ended by two end marks. -/
def encodeAttrs (attrs : List (Int32 × Int32)) : List UInt8 :=
  attrs.flatMap (fun e => int32Bytes e.1 ++ int32Bytes e.2) ++
    (int32Bytes endMark ++ int32Bytes endMark)

/-- A node without its children. -/
def encodeNode (n : Tree.Node) (table : StringTable) : List UInt8 × StringTable :=
  let (attrs, table) := storedAttrs n table
  (int32Bytes n.subtype ++ int32Bytes n.kind ++ int16Bytes n.fileIndex ++ int32Bytes n.line ++
    int16Bytes n.column ++ int32Bytes n.sourceIndex ++ encodeAttrs attrs, table)

/-- The nodes at and below a node in the order they are stored, with `none` after the last child of
each. -/
def storedOrder (t : Tree) (id : Nat) : List (Option Nat) :=
  some id :: (t.children id).flatMap (fun c =>
    if _h : id < c ∧ c < t.size then storedOrder t c else []) ++ [none]
termination_by t.size - id
decreasing_by omega

/-- Nodes and end marks in order. -/
def encodeEntries (t : Tree) : List (Option Nat) → StringTable → List UInt8 × StringTable
  | [], table => ([], table)
  | entry :: rest, table =>
    let (bytes, table) := match entry.bind t.node? with
      | some n => encodeNode n table
      | none => (int32Bytes endMark, table)
    let (more, table) := encodeEntries t rest table
    (bytes ++ more, table)

/-- The tree, and the texts that it refers to. The root has no sibling. -/
def encodeTree (t : Tree) : List UInt8 × StringTable :=
  encodeEntries t (storedOrder t 0 ++ [none]) StringTable.start

/-- Texts without an end. -/
def encodeTexts : List String → Except Error (List UInt8)
  | [] => .ok []
  | s :: rest => do
    let bytes ← textBytes s
    return bytes ++ (← encodeTexts rest)

/-- The string table with its size. -/
def encodeStrings (table : StringTable) : Except Error (List UInt8) := do
  return int32Bytes (Int32.ofNat table.size) ++ (← encodeTexts table.strings.toList)

/-- The artifact of a unit. It fails only where a text is too long to be stored. -/
def Contents.encode (c : Contents) (tree : Tree) : Except Error (List UInt8) := do
  let files ← encodeFiles 0 c.fileNames
  let className ← textBytes (c.className.getD "")
  let superName ← textBytes (c.superName.getD "")
  let tables ← encodeTables c.tables.values
  let imports ← encodeSymbols c.imports
  let exports ← encodeSymbols c.exports
  let strings ← encodeStrings (encodeTree tree).2
  return int32Bytes layoutVersion ++ files ++ className ++ superName ++ tables ++ imports ++
    exports ++ (encodeTree tree).1 ++ strings

end AblAnalysis.Artifact
