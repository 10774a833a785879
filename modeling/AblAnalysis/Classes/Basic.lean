import AblAnalysis.Dict
import AblAnalysis.Text.Lowercase
import AblAnalysis.Text.Pieces

/-!
Classes that units refer to, and the catalog that holds them. Members are compared ignoring the case
of ASCII letters, class names exactly; a second index finds class names in any case, and a third
lists the classes of a package in the order in which they came.
-/

namespace AblAnalysis

/-- What is known about a class or interface. -/
structure ClassInfo where
  name : String
  parent : Option String := none
  methods : List String := []
  properties : List String := []
  buffers : List String := []
  isInterface : Bool := false
  deriving Repr, DecidableEq

namespace ClassInfo

/-- The parent, if it has a name. -/
def parentName? (c : ClassInfo) : Option String :=
  c.parent.filter (fun p => !p.isEmpty)

/-- Whether a list of members has a name. -/
def listed (members : List String) (name : String) : Bool :=
  members.any (fun m => Text.equalIgnoringAsciiCase m name)

/-- Whether the class declares a method. -/
def hasMethod (c : ClassInfo) (name : String) : Bool :=
  listed c.methods name

/-- Whether the class declares a property. -/
def hasProperty (c : ClassInfo) (name : String) : Bool :=
  listed c.properties name

/-- Whether the class declares a buffer or temp-table. -/
def hasBuffer (c : ClassInfo) (name : String) : Bool :=
  listed c.buffers name

end ClassInfo

/-- Package of a qualified class name, empty for a name without dots. -/
def packageOf (name : String) : String :=
  match Text.cutLast '.' name with
  | some (package, _) => package
  | none => ""

/-- The known classes. -/
structure Catalog where
  /-- By exact name. -/
  byName : Dict String ClassInfo := {}
  /-- By lower-case name. -/
  byLower : Dict String ClassInfo := {}
  /-- Names of the classes in each package. -/
  byPackage : Dict String (List String) := {}
  deriving Repr

namespace Catalog

/-- Number of classes. -/
def size (c : Catalog) : Nat :=
  c.byName.size

/-- The class with exactly this name. -/
def find? (c : Catalog) (name : String) : Option ClassInfo :=
  c.byName.get? name

/-- The class with this name in any case. -/
def findIgnoringCase? (c : Catalog) (name : String) : Option ClassInfo :=
  c.byLower.get? (Text.lowercase name)

/-- Names of the classes in a package, in the order in which they came. -/
def inPackage (c : Catalog) (package : String) : List String :=
  (c.byPackage.get? package).getD []

/-- Adds a class, replacing one of the same name. -/
def inject (c : Catalog) (info : ClassInfo) : Catalog :=
  let package := packageOf info.name
  { byName := c.byName.insert info.name info
    byLower := c.byLower.insert (Text.lowercase info.name) info
    byPackage :=
      if c.byName.contains info.name then c.byPackage
      else c.byPackage.insert package (c.inPackage package ++ [info.name]) }

/-- Adds classes in order. -/
def injectAll (c : Catalog) (infos : List ClassInfo) : Catalog :=
  infos.foldl inject c

/-- Names of all classes. -/
def names (c : Catalog) : List String :=
  c.byName.entries.map (·.1)

/-- The class that a class has as its parent, if that is known. -/
def parent? (c : Catalog) (info : ClassInfo) : Option ClassInfo :=
  info.parentName?.bind c.find?

/-- The names that the classes have. -/
def classNames (c : Catalog) : List String :=
  c.byName.entries.map (·.2.name)

/-- How many classes a search can still come to: those with names that it has not visited, and the class at
which it is, if that is not one of the catalog. -/
def unvisited (c : Catalog) (visited : List String) (info : ClassInfo) : Nat :=
  (c.classNames.filter (· ∉ visited)).length + if info.name ∈ c.classNames then 0 else 1

theorem name_mem_classNames {c : Catalog} {info next : ClassInfo} (h : c.parent? info = some next) :
    next.name ∈ c.classNames := by
  obtain ⟨name, -, hfound⟩ := Option.bind_eq_some_iff.1 h
  obtain ⟨e, he, rfl⟩ := Option.map_eq_some_iff.1 hfound
  exact List.mem_map.2 ⟨e, List.mem_of_find?_eq_some he, rfl⟩

/-- Going up from a class leaves fewer classes to come to. -/
theorem unvisited_lt {c : Catalog} {visited : List String} {info next : ClassInfo}
    (hnew : info.name ∉ visited) (hnext : c.parent? info = some next) :
    c.unvisited (info.name :: visited) next < c.unvisited visited info := by
  have hfilter : c.classNames.filter (· ∉ info.name :: visited) =
      (c.classNames.filter (· ∉ visited)).filter (· ≠ info.name) := by
    rw [List.filter_filter]
    exact List.filter_congr fun name _ => by simp
  rw [unvisited, unvisited, hfilter, if_pos (name_mem_classNames hnext)]
  split
  · rename_i hknown
    have hleft : info.name ∈ c.classNames.filter (· ∉ visited) :=
      List.mem_filter.2 ⟨hknown, decide_eq_true hnew⟩
    have hlt : ((c.classNames.filter (· ∉ visited)).filter (· ≠ info.name)).length <
        (c.classNames.filter (· ∉ visited)).length :=
      List.length_filter_lt_length_iff_exists.2 ⟨info.name, hleft, by simp⟩
    omega
  · have hle := List.length_filter_le (· ≠ info.name) (c.classNames.filter (· ∉ visited))
    omega

/-- Whether a class or one of its ancestors satisfies `p`, when classes of the names in `visited` have been
looked at. -/
def holdsFrom (c : Catalog) (p : ClassInfo → Bool) (visited : List String) (info : ClassInfo) :
    Bool :=
  if info.name ∈ visited then false
  else if p info then true
  else
    match _h : c.parent? info with
    | some next => holdsFrom c p (info.name :: visited) next
    | none => false
termination_by c.unvisited visited info
decreasing_by exact unvisited_lt ‹_› _h

/-- Whether a class or one of its ancestors satisfies `p`. Ancestors are found by exact name; the
walk ends at an unknown one and at one visited before. -/
def anyInChain (c : Catalog) (start : Option ClassInfo) (p : ClassInfo → Bool) : Bool :=
  match start with
  | none => false
  | some info => c.holdsFrom p [] info

end Catalog

end AblAnalysis
