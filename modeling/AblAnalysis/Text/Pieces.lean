/-!
Cutting text at characters: all pieces, a bounded number of pieces, the first or last cut, lines.
Cutting keeps empty pieces, so joining the pieces with the separator gives the text back.
-/

namespace AblAnalysis.Text

/-- The pieces between the characters equal to `c`; always at least one. -/
def pieces (c : Char) (s : String) : List String :=
  (s.toList.splitOnP (· == c)).map String.ofList

/-- The first `n` pieces at most, the last of them running to the end of the text. -/
def cutLimited (p : Char → Bool) : Nat → List Char → List (List Char)
  | 0, _ => []
  | 1, cs => [cs]
  | n + 2, cs =>
    let head := cs.takeWhile (fun c => !p c)
    match cs.dropWhile (fun c => !p c) with
    | [] => [head]
    | _ :: rest => head :: cutLimited p (n + 1) rest

/-- At most `n` pieces between the characters satisfying `p`. -/
def piecesLimited (p : Char → Bool) (n : Nat) (s : String) : List String :=
  (cutLimited p n s.toList).map String.ofList

/-- Cuts at the first `c`, if there is one. -/
def cutFirst (c : Char) (s : String) : Option (String × String) :=
  match s.toList.dropWhile (· != c) with
  | [] => none
  | _ :: rest => some (String.ofList (s.toList.takeWhile (· != c)), String.ofList rest)

/-- Cuts at the last `c`, if there is one. -/
def cutLast (c : Char) (s : String) : Option (String × String) :=
  let backwards := s.toList.reverse
  match backwards.dropWhile (· != c) with
  | [] => none
  | _ :: rest =>
    some (String.ofList rest.reverse, String.ofList (backwards.takeWhile (· != c)).reverse)

/-- What follows the last `c`, the whole text if there is none. -/
def afterLast (c : Char) (s : String) : String :=
  match cutLast c s with
  | some (_, tail) => tail
  | none => s

/-- What precedes the first `c`, the whole text if there is none. -/
def beforeFirst (c : Char) (s : String) : String :=
  String.ofList (s.toList.takeWhile (· != c))

/-- Drops one carriage return at the end. -/
def dropReturn (cs : List Char) : List Char :=
  if cs.getLast? = some '\r' then cs.dropLast else cs

/-- The lines among pieces cut at line feeds: a carriage return before a line feed belongs to the
line end, and the piece after the last line feed is a line only if it is not empty. -/
def linesOfPieces : List (List Char) → List (List Char)
  | [] => []
  | [last] => if last.isEmpty then [] else [last]
  | piece :: rest => dropReturn piece :: linesOfPieces rest

/-- The lines of a text. -/
def lines (s : String) : List String :=
  (linesOfPieces (s.toList.splitOnP (· == '\n'))).map String.ofList

/-- Replaces every `c` by the text `by_`. -/
def replaceChar (c : Char) (by_ : String) (s : String) : String :=
  String.intercalate by_ (pieces c s)

/-- Whether `c` occurs in the text. -/
def hasChar (c : Char) (s : String) : Bool :=
  s.toList.contains c

/-- Whether the text begins with `head`. -/
def beginsWith (head s : String) : Bool :=
  head.toList.isPrefixOf s.toList

end AblAnalysis.Text
