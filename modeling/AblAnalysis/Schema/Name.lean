import AblAnalysis.Text.Pieces

/-!
Table and field names with their qualifiers. Parts are separated by dots; parts beyond the last that
a name can have are ignored.
-/

namespace AblAnalysis

/-- A table name with an optional database in front. -/
structure TableName where
  database : Option String := none
  table : String
  deriving Repr, DecidableEq

namespace TableName

/-- Reads `table` or `database.table`. -/
def read (text : String) : TableName :=
  match Text.cutFirst '.' text with
  | some (database, rest) => ⟨some database, Text.beforeFirst '.' rest⟩
  | none => ⟨none, text⟩

/-- The text of the name, without an empty qualifier. -/
def text (n : TableName) : String :=
  match n.database with
  | some database => if database.isEmpty then n.table else database ++ "." ++ n.table
  | none => n.table

end TableName

/-- A field name with an optional table and database in front. -/
structure FieldName where
  database : Option String := none
  table : Option String := none
  field : String
  deriving Repr, DecidableEq

namespace FieldName

/-- Reads `field`, `table.field` or `database.table.field`. -/
def read (text : String) : FieldName :=
  match Text.pieces '.' text with
  | [] => ⟨none, none, ""⟩
  | [field] => ⟨none, none, field⟩
  | [table, field] => ⟨none, some table, field⟩
  | database :: table :: field :: _ => ⟨some database, some table, field⟩

/-- A qualifier with its dot, nothing if it is empty. -/
def qualifier : Option String → String
  | some part => if part.isEmpty then "" else part ++ "."
  | none => ""

/-- The text of the name, without empty qualifiers; a database shows only in front of a table. -/
def text (n : FieldName) : String :=
  let table := qualifier n.table
  (if table.isEmpty then "" else qualifier n.database ++ table) ++ n.field

end FieldName

end AblAnalysis
