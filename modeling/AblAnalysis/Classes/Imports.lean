import AblAnalysis.Classes.Basic

/-!
Imports: the short class names that `USING` statements make available. The first import of a short
name, in any case, is the one that counts.
-/

namespace AblAnalysis

/-- Drops the quotes of a name. The name ends at a second or later quote with a colon after it, so
string attributes do not belong to it. -/
def dequoteChars (seen : Bool) : List Char → List Char
  | [] => []
  | c :: rest =>
    if c = '"' || c = '\x27' then
      if seen && rest.head? == some ':' then [] else dequoteChars true rest
    else c :: dequoteChars seen rest

/-- Drops the quotes of a name. -/
def dequote (s : String) : String :=
  String.ofList (dequoteChars false s.toList)

/-- Path of the source file of a qualified class name. -/
def classFileName (name : String) : String :=
  Text.replaceChar '.' "/" name ++ ".cls"

/-- Qualified class names by lower-case short name. -/
structure Imports where
  names : Dict String String := {}
  deriving Repr

namespace Imports

/-- Makes a qualified name available under its last part, unless that is taken. -/
def addName (i : Imports) (qualified : String) : Imports :=
  ⟨i.names.insertNew (Text.lowercase (Text.afterLast '.' qualified)) qualified⟩

/-- Takes the text of a `USING` statement: a class, or a package followed by `.*` for all of its
classes known now. Other names that end in a star, and empty ones, import nothing. -/
def add (i : Imports) (catalog : Catalog) (text : String) : Imports :=
  let path := dequote text
  match path.toList.reverse with
  | [] => i
  | '*' :: '.' :: package =>
    (catalog.inPackage (String.ofList package.reverse)).foldl addName i
  | '*' :: _ => i
  | _ => i.addName path

/-- The qualified name that a class name stands for, empty if it stands for none. -/
def lookup (i : Imports) (catalog : Catalog) (text : String) : String :=
  let name := dequote text
  if Text.hasChar '.' name then name
  else
    match i.names.get? (Text.lowercase name) with
    | some qualified => qualified
    | none => if (catalog.find? name).isSome then name else ""

end Imports

end AblAnalysis
