import AblAnalysis.Dict

/-!
Texts that syntax nodes refer to by position. An index beside the texts leads from each of them to its
position. A table started afresh holds the empty text at position 0, so that a zero can stand for
"no text".
-/

namespace AblAnalysis.Artifact

/-- The positions of texts. Of a text that comes again the last one counts. -/
def positions (texts : List String) : Dict String Int32 :=
  texts.zipIdx.foldl (fun index entry => index.insert entry.1 (Int32.ofNat entry.2)) {}

theorem positions_concat (texts : List String) (s : String) :
    positions (texts ++ [s]) = (positions texts).insert s (Int32.ofNat texts.length) := by
  simp [positions, List.zipIdx_append]

/-- The texts of an artifact in order, with their index. -/
structure StringTable where
  strings : Array String
  index : Dict String Int32
  index_eq : index = positions strings.toList
  deriving Repr

namespace StringTable

/-- A table read from an artifact. -/
def ofStrings (strings : List String) : StringTable where
  strings := strings.toArray
  index := positions strings
  index_eq := rfl

/-- Number of texts. -/
def size (t : StringTable) : Nat :=
  t.strings.size

/-- Adds a text at the end. -/
def push (t : StringTable) (s : String) : StringTable where
  strings := t.strings.push s
  index := t.index.insert s (Int32.ofNat t.size)
  index_eq := by rw [Array.toList_push, positions_concat, ← t.index_eq, Array.length_toList, size]

/-- The position of a text, which is added if it is not there. -/
def indexOf (t : StringTable) (s : String) : Int32 × StringTable :=
  match t.index.get? s with
  | some i => (i, t)
  | none => (Int32.ofNat t.size, t.push s)

/-- The table that a new artifact starts with. -/
def start : StringTable :=
  ((ofStrings []).indexOf "").2

/-- The text at a position. -/
def get? (t : StringTable) (index : Int32) : Option String :=
  if index < 0 then none else t.strings[index.toInt.toNat]?

end StringTable

end AblAnalysis.Artifact
