import AblAnalysis.Text.Pieces
import AblAnalysis.Text.Utf8

/-!
Paths as text, with `/` between their parts. Empty parts do not count, nor does a `.` other than one
at the start.
-/

namespace AblAnalysis.Path

/-- Whether a path starts at the root. -/
def isAbsolute (path : String) : Bool :=
  Text.beginsWith "/" path

/-- What a path taken relative to another one is. An absolute path stays as it is; otherwise one
separator stands between the two, unless the first is empty. -/
def join (base path : String) : String :=
  if isAbsolute path || base.isEmpty then path
  else if base.toList.getLast? = some '/' then base ++ path
  else base ++ "/" ++ path

/-- Whether something between separators counts as a part. -/
def isPart (piece : String) : Bool :=
  !piece.isEmpty && piece != "."

/-- The parts of a path; a relative path may start with a `.`. -/
def parts (path : String) : List String :=
  match Text.pieces '/' path with
  | [] => []
  | first :: rest => (if first.isEmpty then [] else [first]) ++ rest.filter isPart

/-- The path with given parts. -/
def ofParts (absolute : Bool) (parts : List String) : String :=
  (if absolute then "/" else "") ++ String.intercalate "/" parts

/-- The pieces of a path, last first, without those at its end that do not count. The piece at the
start stays. -/
def trimmed : List String → List String
  | [] => []
  | [first] => [first]
  | piece :: rest => if isPart piece then piece :: rest else trimmed rest

/-- The path of the directory around something, as it is written in the path; the root and the empty
path have none. -/
def parent? (path : String) : Option String :=
  match trimmed (Text.pieces '/' path).reverse with
  | [] => none
  | [first] => if first.isEmpty then none else some ""
  | _ :: rest =>
    match trimmed rest with
    | [""] => some "/"
    | outer => some (String.intercalate "/" outer.reverse)

/-- The last part of a path, if it is a name. -/
def fileName? (path : String) : Option String :=
  (parts path).getLast?.filter (fun p => p != "." && p != "..")

/-- The last part of a path without its extension, empty if there is none. A dot at the start of a
name does not begin an extension. -/
def stem (path : String) : String :=
  match fileName? path with
  | none => ""
  | some name =>
    match Text.cutLast '.' name with
    | some (front, _) => if front.isEmpty then name else front
    | none => name

/-- Drops the mark of a verbatim path. -/
def dropVerbatim : List Char → List Char
  | '\\' :: '\\' :: '?' :: '\\' :: rest => rest
  | cs => cs

/-- Writes the colon after a drive letter as an underscore. -/
def plainDrive : List Char → List Char
  | drive :: ':' :: rest => if drive.isAlpha then drive :: '_' :: rest else drive :: ':' :: rest
  | cs => cs

/-- Where the artifact of a source file lies under a cache directory, without its extension. Leading
separators are dropped, so that it nests there. -/
def nested (directory source : String) : String :=
  join directory (String.ofList
    ((plainDrive (dropVerbatim source.toList)).dropWhile (fun c => c = '/' || c = '\\')))

/-- The artifact of a source file under a cache directory. -/
def artifact (directory source : String) : String :=
  nested directory source ++ ".pub"

/-- Whether a name is looked up as it is given: it is absolute, begins with a `.`, or has a drive. -/
def isExplicit (name : String) : Bool :=
  match Text.utf8 name with
  | [] => false
  | first :: rest =>
    first = 0x2e || first = 0x2f || first = 0x5c || rest.head? = some 0x3a

end AblAnalysis.Path
