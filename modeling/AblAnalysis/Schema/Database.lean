import AblAnalysis.Schema.Table

/-!
Databases: tables in the order of their keys, one per key, and sequences as they were declared.
-/

namespace AblAnalysis

theorem Table.increasing_nil : List.Pairwise (fun t u : Table => t.key < u.key) [] :=
  .nil

/-- A logical database. -/
structure Database where
  name : String
  /-- In the order of their keys. -/
  tables : List Table := []
  sequences : Array String := #[]
  tables_increasing : tables.Pairwise (fun t u => t.key < u.key) := by exact Table.increasing_nil
  deriving Repr, DecidableEq

namespace Database

/-- What databases are compared and ordered by. -/
def key (db : Database) : String :=
  Text.lowercase db.name

/-- The database with one more table, which stands at `place`. -/
def push (db : Database) (t : Table) (place : Nat)
    (h : Bisection.locate Table.key t.key db.tables = .free place) : Database where
  name := db.name
  tables := Bisection.insertAt place t db.tables
  sequences := db.sequences
  tables_increasing := by
    obtain ⟨hfront, hrest⟩ := Bisection.locate_free_spec db.tables_increasing h
    exact Bisection.pairwise_insertAt db.tables_increasing hfront hrest

/-- Adds a table at its place unless the name is taken; tells whether it was added. -/
def addTable (db : Database) (t : Table) : Bool × Database :=
  match h : Bisection.locate Table.key t.key db.tables with
  | .taken _ => (false, db)
  | .free place => (true, db.push t place h)

/-- Adds a sequence. -/
def addSequence (db : Database) (name : String) : Database :=
  { db with sequences := db.sequences.push name }

/-- The table that `name` names in full, or the only one that it abbreviates. -/
def lookupTable? (db : Database) (name : String) : Option Table :=
  Abbreviation.uniqueMatch? Table.key name db.tables

end Database

end AblAnalysis
