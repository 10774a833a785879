import AblAnalysis.Dict
import AblAnalysis.Storage.Files
import AblAnalysis.Storage.Path

/-!
Disks as values: what stands where, with the times of the last changes. A place is given by the names
that lead to it from the root. Operations fail as those of the system do, and besides that with the
failures that the disk has in store, which stand for anything that can befall a device.

Adding a name to a directory or taking one away changes the time of the directory.
-/

namespace AblAnalysis

/-- A place on a disk. -/
structure Place where
  /-- Number of the names; it tells places apart without a look at them. -/
  depth : Nat := 0
  /-- The names that lead to the place from the root, the last first. -/
  names : List String := []
  deriving Repr, DecidableEq

namespace Place

/-- The place with a name inside a directory. -/
def child (p : Place) (name : String) : Place :=
  ⟨p.depth + 1, name :: p.names⟩

/-- The directory around a place; the root stays. -/
def parent (p : Place) : Place :=
  match p.names with
  | [] => p
  | _ :: outer => ⟨p.depth - 1, outer⟩

/-- The absolute path of a place. -/
def path (p : Place) : String :=
  Path.ofParts true p.names.reverse

end Place

/-- What stands at a place. -/
inductive DiskNode where
  | file (bytes : List UInt8) (modified : Int)
  | directory (modified : Int)
  deriving Repr, DecidableEq

/-- Time of the last change. -/
def DiskNode.modified : DiskNode → Int
  | .file _ time => time
  | .directory time => time

/-- Whether a node is a directory. -/
def DiskNode.isDirectory : DiskNode → Bool
  | .file _ _ => false
  | .directory _ => true

/-- A disk. -/
structure Disk where
  nodes : Dict Place DiskNode := ⟨[({}, .directory 0)]⟩
  /-- The current directory. -/
  here : Place := {}
  /-- The time that changes are made at. -/
  now : Int := 0
  /-- What befalls the changes to come: one entry for each, none for one that goes through. -/
  faults : List (Option IoFailure) := []
  deriving Repr

namespace Disk

/-- What stands at a place. -/
def node? (d : Disk) (place : Place) : Option DiskNode :=
  d.nodes.get? place

/-- The place that a part of a path leads to. -/
def advance (place : Place) (piece : String) : Place :=
  if piece.isEmpty || piece = "." then place
  else if piece = ".." then place.parent
  else place.child piece

/-- The longest name, in bytes. -/
def nameLimit : Nat := 255

/-- The longest path that an operation takes, in bytes. -/
def pathLimit : Nat := 4095

/-- Where a path leads from a place. Every step starts from a directory; what the last one leads to
need not exist. -/
def walk (d : Disk) (place : Place) : List String → Except IoFailure Place
  | [] => .ok place
  | piece :: rest =>
    match d.node? place with
    | none => .error .notFound
    | some (.file _ _) => .error .notADirectory
    | some (.directory _) =>
      if nameLimit < piece.utf8ByteSize then .error .nameTooLong
      else walk d (advance place piece) rest

/-- Where a path of any length leads. -/
def trace (d : Disk) (path : String) : Except IoFailure Place :=
  if path.isEmpty then .error .notFound
  else d.walk (if Path.isAbsolute path then {} else d.here) (Text.pieces '/' path)

/-- The place that a path names. -/
def locate (d : Disk) (path : String) : Except IoFailure Place :=
  if Text.hasChar '\x00' path then .error .nulInName
  else if pathLimit < path.utf8ByteSize then .error .nameTooLong
  else d.trace path

/-- What a path names. -/
def find (d : Disk) (path : String) : Except IoFailure (Place × DiskNode) :=
  match d.locate path with
  | .error failure => .error failure
  | .ok place =>
    match d.node? place with
    | some node => .ok (place, node)
    | none => .error .notFound

/-! ### Reading -/

/-- Opens what a path names. -/
def openFile (d : Disk) (path : String) : Except IoFailure Artifact.Stream :=
  match d.find path with
  | .error failure => .error failure
  | .ok (_, .file bytes _) => .ok ⟨bytes, none⟩
  | .ok (_, .directory _) => .ok ⟨[], some .isADirectory⟩

/-- Time of the last change to what a path names. -/
def modified? (d : Disk) (path : String) : Option Int :=
  match d.find path with
  | .ok (_, node) => some node.modified
  | .error _ => none

/-- The absolute path of what a path names. It is found step by step, so that the path may have any
length. -/
def canonical? (d : Disk) (path : String) : Option String :=
  match d.trace path with
  | .ok place => if (d.node? place).isSome then some place.path else none
  | .error _ => none

/-- Whether a path names a directory. -/
def isDirectory (d : Disk) (path : String) : Bool :=
  match d.find path with
  | .ok (_, node) => node.isDirectory
  | .error _ => false

/-! ### Changing -/

/-- Puts a node at a place. -/
def put (d : Disk) (place : Place) (node : DiskNode) : Disk :=
  { d with nodes := d.nodes.insert place node }

/-- Changes the time of the directory around a place. -/
def stamp (d : Disk) (place : Place) : Disk :=
  d.put place.parent (.directory d.now)

/-- Takes away what stands at a place. -/
def take (d : Disk) (place : Place) : Disk :=
  { d with nodes := d.nodes.erase place }.stamp place

/-- The next failure in store, if the next change meets one. -/
def nextFault (d : Disk) : Option IoFailure × Disk :=
  match d.faults with
  | [] => (none, d)
  | fault :: rest => (fault, { d with faults := rest })

/-- Removes a file. -/
def removeFile (d : Disk) (path : String) : Except IoFailure Unit × Disk :=
  match d.nextFault with
  | (some failure, d) => (.error failure, d)
  | (none, d) =>
    match d.find path with
    | .error failure => (.error failure, d)
    | .ok (_, .directory _) => (.error .isADirectory, d)
    | .ok (place, .file _ _) => (.ok (), d.take place)

/-- Creates a directory inside one that exists. -/
def createDirectory (d : Disk) (path : String) : Except IoFailure Unit × Disk :=
  match d.nextFault with
  | (some failure, d) => (.error failure, d)
  | (none, d) =>
    match d.locate path with
    | .error failure => (.error failure, d)
    | .ok place =>
      match d.node? place with
      | some _ => (.error .alreadyExists, d)
      | none =>
        match d.node? place.parent with
        | some (.directory _) => (.ok (), (d.put place (.directory d.now)).stamp place)
        | some (.file _ _) => (.error .notADirectory, d)
        | none => (.error .notFound, d)

/-- Creates a directory given by the pieces of its path, the last first, and those around it that are
missing. A directory that is there already is as good as a new one. -/
def createPieces (d : Disk) : List String → Except IoFailure Unit × Disk
  | [] => (.ok (), d)
  | piece :: outer =>
    if !Path.isPart piece then createPieces d outer
    else
      let path := String.intercalate "/" (piece :: outer).reverse
      match d.createDirectory path with
      | (.ok (), d) => (.ok (), d)
      | (.error failure, d) =>
        if failure.kind = .notFound then
          match createPieces d outer with
          | (.error failure, d) => (.error failure, d)
          | (.ok (), d) =>
            match d.createDirectory path with
            | (.ok (), d) => (.ok (), d)
            | (.error failure, d) =>
              if d.isDirectory path then (.ok (), d) else (.error failure, d)
        else if d.isDirectory path then (.ok (), d)
        else (.error failure, d)

/-- Creates a directory and those around it that are missing. -/
def createDirectories (d : Disk) (path : String) : Except IoFailure Unit × Disk :=
  d.createPieces (Text.pieces '/' path).reverse

/-- Creates an empty file, or empties the one that is there. -/
def createFile (d : Disk) (path : String) : Except IoFailure Place × Disk :=
  match d.nextFault with
  | (some failure, d) => (.error failure, d)
  | (none, d) =>
    match d.locate path with
    | .error failure => (.error failure, d)
    | .ok place =>
      match d.node? place with
      | some (.directory _) => (.error .isADirectory, d)
      | some (.file _ _) => (.ok place, d.put place (.file [] d.now))
      | none =>
        match d.node? place.parent with
        | some (.directory _) => (.ok place, (d.put place (.file [] d.now)).stamp place)
        | some (.file _ _) => (.error .notADirectory, d)
        | none => (.error .notFound, d)

/-- Fills the file at a place, where it was created or emptied. -/
def fillFile (d : Disk) (place : Place) (bytes : List UInt8) : Except IoFailure Unit × Disk :=
  match d.nextFault with
  | (some failure, d) => (.error failure, d)
  | (none, d) => (.ok (), d.put place (.file bytes d.now))

/-- Waits until the device has what was written. -/
def syncFile (d : Disk) : Except IoFailure Unit × Disk :=
  match d.nextFault with
  | (some failure, d) => (.error failure, d)
  | (none, d) => (.ok (), d)

/-- Creates or replaces a file. One that could not be filled stays behind empty. -/
def writeFile (d : Disk) (path : String) (bytes : List UInt8) :
    Except (WriteStage × IoFailure) Unit × Disk :=
  match d.createFile path with
  | (.error failure, d) => (.error (.creating, failure), d)
  | (.ok place, d) =>
    match d.fillFile place bytes with
    | (.error failure, d) => (.error (.filling, failure), d)
    | (.ok (), d) =>
      match d.syncFile with
      | (.error failure, d) => (.error (.syncing, failure), d)
      | (.ok (), d) => (.ok (), d)

/-- Gives a file another name. A directory is not replaced. -/
def rename (d : Disk) (source target : String) : Except IoFailure Unit × Disk :=
  match d.nextFault with
  | (some failure, d) => (.error failure, d)
  | (none, d) =>
    match d.find source with
    | .error failure => (.error failure, d)
    | .ok (old, node) =>
      match d.locate target with
      | .error failure => (.error failure, d)
      | .ok new =>
        match d.node? new with
        | some (.directory _) => (.error .isADirectory, d)
        | _ =>
          match d.node? new.parent with
          | some (.directory _) => (.ok (), ((d.take old).put new node).stamp new)
          | some (.file _ _) => (.error .notADirectory, d)
          | none => (.error .notFound, d)

/-- Sets the time of the last change to what a path names. -/
def touch (d : Disk) (path : String) (time : Int) : Disk :=
  match d.find path with
  | .ok (place, .file bytes _) => d.put place (.file bytes time)
  | .ok (place, .directory _) => d.put place (.directory time)
  | .error _ => d

/-- The files of a disk. -/
def files : Files (StateM Disk) where
  openFile path := return (← get).openFile path
  modified? path := return (← get).modified? path
  canonical? path := return (← get).canonical? path
  remove path := modifyGet (·.removeFile path)
  createDirectories path := modifyGet (·.createDirectories path)
  writeFile path bytes := modifyGet (·.writeFile path bytes)
  rename source target := modifyGet (·.rename source target)
  pause _ := return ()

end Disk

end AblAnalysis
