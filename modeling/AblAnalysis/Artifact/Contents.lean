import AblAnalysis.Artifact.Depth
import AblAnalysis.Unit

/-!
What an artifact says about its unit: the files it was built from, its class, the database tables and
fields it uses, the symbols it shares and its syntax tree.
-/

namespace AblAnalysis.Artifact

/-- A table that a unit uses, with the fields it uses. -/
structure TableUse where
  /-- Database and table as they are spelled in the schema. -/
  name : String
  /-- Field names by their lower-case forms. -/
  fields : SortedMap String String := {}
  deriving Repr, DecidableEq

/-- The tables that a unit uses by the lower-case forms of their names. -/
abbrev Footprint := SortedMap String TableUse

namespace Footprint

/-- Notes the use of a table or field. -/
def note (f : Footprint) (use : SchemaUse) : Footprint :=
  let name := use.table.database ++ "." ++ use.table.name
  let key := Text.lowercase name
  let noted := (f.get? key).getD { name }
  f.insert key
    (match use.field with
      | some field =>
        { noted with fields := noted.fields.insert (Text.lowercase field) field }
      | none => noted)

/-- The database tables and fields that symbols stand for. -/
def ofSymbols (symbols : List RootSymbol) : Footprint :=
  (symbols.filterMap (·.databaseUse?)).foldl note {}

/-- The lower-case names of the fields used of a table, whose name may be in any case. -/
def fieldKeys (f : Footprint) (table : String) : List String :=
  match f.get? (Text.lowercase table) with
  | some use => use.fields.keys
  | none => []

end Footprint

/-- What is known of a unit from its artifact. -/
structure Contents where
  depth : Depth := .notLoaded
  /-- Whether the artifact was found to be up to date. -/
  current : Bool := false
  fileNames : List String := []
  className : Option String := none
  superName : Option String := none
  tables : Footprint := {}
  imports : List Symbol := []
  exports : List Symbol := []
  tree : Option Tree := none
  deriving Repr, DecidableEq

namespace Contents

/-- Forgets what was learnt, one field after the other. -/
def refresh (c : Contents) : Contents :=
  let c := { c with depth := .notLoaded, current := false }
  let c := { c with fileNames := [], className := none, superName := none }
  let c := { c with tables := {}, imports := [], exports := [] }
  { c with tree := none }

/-- Nothing that was learnt is left. -/
theorem refresh_eq (c : Contents) : c.refresh = {} := rfl

/-- Notes all that an artifact says about a unit except for its tree. -/
def note (c : Contents) (unit : ParsedUnit) : Contents :=
  { c with
    fileNames := unit.tree.fileNames
    className := unit.className
    superName := unit.superName
    tables := Footprint.ofSymbols unit.symbols
    imports := unit.imports
    exports := unit.exports }

/-- All that an artifact says about a unit except for its tree. -/
def describe (unit : ParsedUnit) : Contents :=
  ({} : Contents).note unit

/-- What is noted after forgetting is all there is. -/
theorem note_refresh (c : Contents) (unit : ParsedUnit) : c.refresh.note unit = describe unit := rfl

/-- The contents together with the tree, as after reading all of the artifact. -/
def complete (c : Contents) (tree : Tree) : Contents :=
  { c with tree := some tree, current := true, depth := .stringsLoaded }

end Contents

end AblAnalysis.Artifact
