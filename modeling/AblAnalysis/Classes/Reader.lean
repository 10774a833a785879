import AblAnalysis.Classes.Basic
import AblAnalysis.Classes.Json
import AblAnalysis.Error

/-!
Class catalogs as files: a JSON array of classes. A class is an object with the members `name`,
`parent` (or `inherits`), `methods`, `properties`, `buffers` and `isInterface`, of which only the
name is required and other members are passed over, or an array of these values in this order with
values left out at the end.
-/

namespace AblAnalysis.ClassInfo

/-- A text. -/
def text? : Json → Option String
  | .string text => text
  | _ => none

/-- A text or null. -/
def optionalText? : Json → Option (Option String)
  | .null => some none
  | .string (some text) => some (some text)
  | _ => none

/-- A list of texts. -/
def texts? : Json → Option (List String)
  | .array items => items.mapM text?
  | _ => none

/-- A truth value. -/
def flag? : Json → Option Bool
  | .bool b => some b
  | _ => none

/-- The members of a class. -/
inductive Member where
  | name
  | parent
  | methods
  | properties
  | buffers
  | isInterface
  deriving Repr, DecidableEq

/-- The members in the order in which an array gives them. -/
def memberOrder : List Member :=
  [.name, .parent, .methods, .properties, .buffers, .isInterface]

/-- The member with a key. -/
def member? (key : String) : Option Member :=
  if key = "name" then some .name
  else if key = "parent" || key = "inherits" then some .parent
  else if key = "methods" then some .methods
  else if key = "properties" then some .properties
  else if key = "buffers" then some .buffers
  else if key = "isInterface" then some .isInterface
  else none

/-- Sets a member of a class. -/
def setMember? (c : ClassInfo) (m : Member) (v : Json) : Option ClassInfo :=
  match m with
  | .name => (text? v).map (fun name => { c with name := name })
  | .parent => (optionalText? v).map (fun parent => { c with parent := parent })
  | .methods => (texts? v).map (fun methods => { c with methods := methods })
  | .properties => (texts? v).map (fun properties => { c with properties := properties })
  | .buffers => (texts? v).map (fun buffers => { c with buffers := buffers })
  | .isInterface => (flag? v).map (fun b => { c with isInterface := b })

/-- Sets members from an object. No member may be set twice, and every key must be a text. -/
def setMembers? (c : ClassInfo) (done : List Member) :
    List (Option String × Json) → Option (ClassInfo × List Member)
  | [] => some (c, done)
  | (none, _) :: _ => none
  | (some key, v) :: rest =>
    match member? key with
    | none => setMembers? c done rest
    | some m =>
      if m ∈ done then none
      else (c.setMember? m v).bind (fun next => setMembers? next (m :: done) rest)

/-- Sets members from an array, in order. -/
def setInOrder? (c : ClassInfo) : List Member → List Json → Option ClassInfo
  | _, [] => some c
  | [], _ :: _ => none
  | m :: ms, v :: vs => (c.setMember? m v).bind (fun next => setInOrder? next ms vs)

/-- A class. -/
def ofJson? : Json → Option ClassInfo
  | .object members =>
    match setMembers? { name := "" } [] members with
    | some (c, done) => if Member.name ∈ done then some c else none
    | none => none
  | .array (v :: vs) => setInOrder? { name := "" } memberOrder (v :: vs)
  | _ => none

/-- A list of classes. -/
def listOfBytes? (bytes : List UInt8) : Option (List ClassInfo) :=
  match Json.read? bytes with
  | some (.array items) => items.mapM ofJson?
  | _ => none

end AblAnalysis.ClassInfo

namespace AblAnalysis.Catalog

/-- Adds the classes that a file is decoded to and counts them; a file that is not decoded adds nothing. -/
def injectDecoded (c : Catalog) (decode : List UInt8 → Option (List ClassInfo)) (bytes : List UInt8) :
    Except Error Nat × Catalog :=
  match decode bytes with
  | some infos => (.ok infos.length, c.injectAll infos)
  | none => (.error (.config .invalidCatalog), c)

/-- Adds the classes of a catalog file and counts them; a bad file adds nothing. -/
def injectBytes (c : Catalog) (bytes : List UInt8) : Except Error Nat × Catalog :=
  c.injectDecoded ClassInfo.listOfBytes? bytes

end AblAnalysis.Catalog
