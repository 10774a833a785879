import AblAnalysis.Artifact.Contents
import AblAnalysis.Preprocessor.Outline
import AblAnalysis.Preprocessor.Tracker
import AblAnalysis.Schema.Registry

/-!
What commands print, line by line.
-/

namespace AblAnalysis.Command

/-- The name of a type, or a question mark if it is not known. -/
def typeText (dataType : Option DataType) : String :=
  match dataType with
  | some t => t.name
  | none => "?"

/-- The table that was found. -/
def tableLine (t : Table) : String :=
  t.database ++ "." ++ t.name

/-- The field that was found. -/
def fieldLine (t : Table) (f : Field) : String :=
  tableLine t ++ "." ++ f.name ++ " " ++ typeText f.dataType ++
    (if f.extent = 0 then "" else " extent " ++ toString f.extent.toNat)

/-- An index in the dump of a schema. -/
def indexLine (i : Index) : String :=
  "    index " ++ i.name ++ (if i.primary then " primary" else "") ++
    (if i.unique then " unique" else "") ++ " (" ++
    String.intercalate ", "
      (i.fields.map (fun f => (if f.ascending then "+" else "-") ++ f.field)) ++ ")"

/-- A table in the dump of a schema. -/
def tableLines (t : Table) : List String :=
  ("  table " ++ t.name) ::
    (t.fields.map (fun f => "    " ++ f.name ++ " " ++ typeText f.dataType) ++
      t.indexes.map indexLine)

/-- A database in the dump of a schema. -/
def databaseLines (db : Database) : List String :=
  ("database " ++ db.name) ::
    (db.sequences.toList.map ("  sequence " ++ ·) ++ db.tables.flatMap tableLines)

/-- The field that a name with any number of qualifiers stands for. A name with a database but no
table cannot be written. -/
def findField? (schema : Schema) (name : String) : Option (Table × Field) :=
  let parsed := FieldName.read name
  let inTable (t : Option Table) : Option (Table × Field) :=
    t.bind (fun t => (t.lookupField? parsed.field).map (fun f => (t, f)))
  match parsed.database, parsed.table with
  | some db, some table => inTable (schema.lookupTableIn? db table)
  | none, some table => inTable (schema.lookupTable? table)
  | _, none => schema.lookupAnyField? parsed.field

/-- A symbol of an artifact. -/
def symbolText (s : Symbol) : String :=
  (Tree.kindName? s.kind).getD "?" ++ " " ++ s.name ++
    (match s.dataType with
      | some t => " as " ++ t.name
      | none => "") ++
    (match s.className with
      | some c => " (" ++ c ++ ")"
      | none => "")

/-- File names with their indexes. -/
def fileLines (names : List String) : List String :=
  names.zipIdx.map (fun (name, i) => "file " ++ toString i ++ " " ++ name)

/-- What an artifact says. -/
def contentsLines (c : Artifact.Contents) : List String :=
  fileLines c.fileNames ++
    (c.className.map ("class " ++ ·)).toList ++
    (c.superName.map ("inherits " ++ ·)).toList ++
    c.tables.entries.map (fun (key, use) =>
      "table " ++ key ++ " [" ++ String.intercalate ", " use.fields.keys ++ "]") ++
    c.imports.map (fun s => "import " ++ symbolText s) ++
    c.exports.map (fun s => "export " ++ symbolText s) ++
    (match c.tree with
      | some tree => tree.outline
      | none => [])

open Preprocessor in
/-- A listing that has been replayed. -/
def replayLines (files : SortedMap Int32 String) (t : Tracker) : List String :=
  files.entries.map (fun (index, name) => "file " ++ Text.ofInt32 index ++ " " ++ name) ++
    t.graph.outline ++
    (if t.designed then
      t.sections.map (fun s =>
        "editable " ++ Text.ofInt32 s.fileIndex ++ ":" ++ Text.ofInt32 s.firstLine ++ "-" ++
          Text.ofInt32 s.lastLine)
    else [])

end AblAnalysis.Command
