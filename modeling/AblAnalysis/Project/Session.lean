import AblAnalysis.Classes.Imports
import AblAnalysis.Classes.Reader
import AblAnalysis.Preprocessor.Listing
import AblAnalysis.Project.Settings
import AblAnalysis.Schema.Registry
import AblAnalysis.Storage.Files
import AblAnalysis.Storage.Path

/-!
A session: what all units of a project share, and what is read from files for it.
-/

namespace AblAnalysis

/-- Settings, schema and classes of a project. -/
structure Session where
  settings : Settings := {}
  schema : Schema := {}
  catalog : Catalog := {}
  cache : CacheSettings := {}
  deriving Repr

variable {m : Type → Type} [Monad m]

/-! ### Reading files -/

/-- The database that a file describes; it is named after the file. -/
def Database.load (files : Files m) (path : String) : m (Except Error Database) := do
  match ← files.readText path with
  | .error failure => return .error (failure.classify ("Failed to read schema " ++ path))
  | .ok text =>
    match ({ name := Path.stem path } : Database).readDescription text with
    | (.error e, _) => return .error e
    | (.ok (), db) => return .ok db

/-- Registers the databases that files describe, up to the first that cannot be read. -/
def Schema.loadInto (files : Files m) (schema : Schema) : List String → m (Except Error Schema)
  | [] => return .ok schema
  | path :: rest => do
    match ← Database.load files path with
    | .error e => return .error e
    | .ok db => Schema.loadInto files (schema.addDatabase db) rest

/-- The schema that files describe, with the dictionary tables if they are wanted. -/
def Schema.load (files : Files m) (paths : List String) (dictionaries : Bool) :
    m (Except Error Schema) := do
  match ← Schema.loadInto files {} paths with
  | .error e => return .error e
  | .ok schema =>
    if dictionaries then
      match schema.addDictionaries with
      | (.error e, _) => return .error e
      | (.ok (), schema) => return .ok schema
    else return .ok schema

/-- Adds the classes of a catalog file and counts them. -/
def Catalog.load (files : Files m) (catalog : Catalog) (path : String) :
    m (Except Error Nat × Catalog) := do
  match ← files.openFile path with
  | .error failure =>
    return (.error (failure.classify ("Failed to open catalog " ++ path)), catalog)
  | .ok stream =>
    match stream.fault with
    | some _ => return (.error (.config .invalidCatalog), catalog)
    | none => return catalog.injectBytes stream.bytes

/-- Adds the classes of catalog files, up to the first that cannot be read. -/
def Catalog.loadAll (files : Files m) (catalog : Catalog) : List String → m (Except Error Catalog)
  | [] => return .ok catalog
  | path :: rest => do
    match ← catalog.load files path with
    | (.error e, _) => return .error e
    | (.ok _, catalog) => Catalog.loadAll files catalog rest

open Preprocessor in
/-- Replays a listing file, which is known by its path. -/
def Preprocessor.Listing.load (files : Files m) (path : String) (tracker : Tracker) :
    m (Except Error Unit × Listing.Replay) := do
  match ← files.readText path with
  | .error failure =>
    return (.error (failure.classify ("Failed to read listing " ++ path)), { tracker })
  | .ok text => return Listing.replay path text tracker

namespace Session

/-- Opens a project: its schema files, with the dictionary tables, and then its catalogs. -/
def load (files : Files m) (config : ProjectConfig) : m (Except Error Session) := do
  match ← Schema.load files config.schemaFiles true with
  | .error e => return .error e
  | .ok schema =>
    match ← Catalog.loadAll files {} config.catalogFiles with
    | .error e => return .error e
    | .ok catalog =>
      return .ok { settings := config.settings, schema, catalog, cache := config.cache }

/-! ### Finding files -/

/-- The first path that names anything. -/
def firstExisting? (files : Files m) : List String → m (Option String)
  | [] => return none
  | path :: rest => do
    if ← files.has path then return some path else firstExisting? files rest

/-- The paths at which a file may be: an explicit name as it is, any other along the propath. -/
def candidates (s : Session) (name : String) : List String :=
  if name.isEmpty then []
  else if Path.isExplicit name then [name]
  else s.settings.propath.map (fun directory => Path.join directory name)

/-- Finds a source or include file. -/
def findFile? (s : Session) (files : Files m) (name : String) : m (Option String) :=
  firstExisting? files (s.candidates name)

/-- Finds the source file of a class. -/
def findClassFile? (s : Session) (files : Files m) (className : String) : m (Option String) :=
  s.findFile? files (classFileName className)

end Session

end AblAnalysis
