import AblAnalysis.Error

/-!
How far an artifact has been read, and why one could not be used. Every such failure has the same
remedy, which is to build the artifact again.
-/

namespace AblAnalysis.Artifact

/-- How far an artifact has been read, in the order of its segments. -/
inductive Depth where
  | notLoaded
  /-- The artifact exists and the source is not newer; nothing was read. -/
  | timestampChecked
  | filesLoaded
  | headerLoaded
  | schemaLoaded
  | importsLoaded
  | exportsLoaded
  /-- The shape and the attributes of the tree, without its texts. -/
  | treeLoaded
  | stringsLoaded
  deriving Repr, DecidableEq

namespace Depth

/-- Place of a depth in the order of the segments. -/
def rank : Depth → Nat
  | .notLoaded => 0
  | .timestampChecked => 1
  | .filesLoaded => 2
  | .headerLoaded => 3
  | .schemaLoaded => 4
  | .importsLoaded => 5
  | .exportsLoaded => 6
  | .treeLoaded => 7
  | .stringsLoaded => 8

instance : LE Depth := ⟨fun d e => d.rank ≤ e.rank⟩

instance : LT Depth := ⟨fun d e => d.rank < e.rank⟩

instance (d e : Depth) : Decidable (d ≤ e) := inferInstanceAs (Decidable (d.rank ≤ e.rank))

instance (d e : Depth) : Decidable (d < e) := inferInstanceAs (Decidable (d.rank < e.rank))

end Depth

/-- Why an artifact could not be used. -/
inductive LoadFailure where
  | missing
  | sourceNewer
  | versionMismatch (found : Int32)
  /-- A file that the unit was built from is gone, or newer than the artifact. -/
  | fileChanged (name : String)
  | unreadable (cause : Error)
  deriving Repr, DecidableEq

/-- The text of a load failure. -/
def LoadFailure.message : LoadFailure → String
  | .missing => "artifact does not exist"
  | .sourceNewer => "source file is newer than the artifact"
  | .versionMismatch found => "layout version " ++ Text.ofInt32 found ++ " is not supported"
  | .fileChanged name =>
    "referenced file '" ++ name ++ "' is missing or newer than the artifact"
  | .unreadable cause => "artifact unreadable: " ++ cause.message

end AblAnalysis.Artifact
