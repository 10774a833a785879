import AblAnalysis.Dict
import AblAnalysis.Schema.Dictionary
import AblAnalysis.Schema.Name

/-!
The schema: the registered databases in the order of their keys, one per key, and aliases for them.
A name with a dot is looked up in one database, a name without in the tables of all of them, which are
listed anew whenever the databases change.
-/

namespace AblAnalysis

/-- Databases, their tables and their aliases. -/
structure Schema where
  /-- In the order of their keys. -/
  databases : List Database := []
  /-- The tables of all databases, by table name and then database name. -/
  allTables : List Table := []
  /-- Database name by lower-case alias. -/
  aliases : Dict String String := {}
  deriving Repr

namespace Schema

/-- The order of tables over all databases: by table, then by database. -/
def tableLe (t u : Table) : Bool :=
  if t.key = u.key then !decide (Text.lowercase u.database < Text.lowercase t.database)
  else decide (t.key < u.key)

/-- Lists the tables of all databases anew. -/
def relist (s : Schema) : Schema :=
  { s with allTables := (s.databases.flatMap (·.tables)).mergeSort tableLe }

/-- Puts a database in its place, replacing one of the same key. -/
def insertDatabase (db : Database) (databases : List Database) : List Database :=
  match Bisection.locate Database.key db.key databases with
  | .taken place => databases.set place db
  | .free place => Bisection.insertAt place db databases

/-- Registers a database, replacing one of the same name. -/
def addDatabase (s : Schema) (db : Database) : Schema :=
  relist { s with databases := insertDatabase db s.databases }

/-- Extends databases in order, up to the first that cannot be extended. -/
def extendAll (extend : Database → Except Error Unit × Database) :
    List Database → Except Error Unit × List Database
  | [] => (.ok (), [])
  | db :: rest =>
    match extend db with
    | (.error e, db) => (.error e, db :: rest)
    | (.ok (), db) =>
      let (result, rest) := extendAll extend rest
      (result, db :: rest)

/-- Adds the dictionary tables to every database. On an error the tables are not listed anew. -/
def addDictionaries (s : Schema) : Except Error Unit × Schema :=
  match extendAll Database.addDictionary s.databases with
  | (.error e, databases) => (.error e, { s with databases })
  | (.ok (), databases) => (.ok (), relist { s with databases })

/-- Creates or replaces an alias. The database need not exist yet. -/
def addAlias (s : Schema) (aliasName database : String) : Schema :=
  { s with aliases := s.aliases.insert (Text.lowercase aliasName) database }

/-- Deletes an alias, or all of them when no name or an empty one is given. -/
def dropAlias (s : Schema) (aliasName : Option String) : Schema :=
  match aliasName with
  | none => { s with aliases := {} }
  | some name =>
    if name.isEmpty then { s with aliases := {} }
    else { s with aliases := s.aliases.erase (Text.lowercase name) }

/-- The database registered under a name. -/
def registered? (s : Schema) (name : String) : Option Database :=
  Bisection.find? Database.key (Text.lowercase name) s.databases

/-- The database registered under a name, or else the one its alias stands for. -/
def lookupDatabase? (s : Schema) (name : String) : Option Database :=
  match s.registered? name with
  | some db => some db
  | none => (s.aliases.get? (Text.lowercase name)).bind s.registered?

/-- The table that `table` names or uniquely abbreviates in one database. -/
def lookupTableIn? (s : Schema) (database table : String) : Option Table :=
  (s.lookupDatabase? database).bind (·.lookupTable? table)

/-- The table that a `table` or `database.table` name stands for. -/
def lookupTable? (s : Schema) (name : String) : Option Table :=
  match Text.cutFirst '.' name with
  | some (database, rest) => s.lookupTableIn? database (Text.beforeFirst '.' rest)
  | none => Abbreviation.uniqueMatch? Table.key name s.allTables

/-- The field that `field` names or abbreviates in one table of one database. -/
def lookupField? (s : Schema) (database table field : String) : Option Field :=
  (s.lookupTableIn? database table).bind (·.lookupField? field)

/-- The first table over all databases with a field that `name` names or abbreviates. -/
def lookupAnyField? (s : Schema) (name : String) : Option (Table × Field) :=
  s.allTables.findSome? (fun t => (t.lookupField? name).map (fun f => (t, f)))

end Schema

end AblAnalysis
