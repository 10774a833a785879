import AblAnalysis.Text.CaseTable
import AblAnalysis.Text.Ranges

/-!
Lower-casing of whole texts by the full Unicode mapping, which names are compared by, and comparison
that ignores the case of ASCII letters only.

All characters map on their own except two. The dotted capital I becomes two characters. A capital
sigma becomes a final sigma when it ends a word: the nearest character before it that is not
case-ignorable is cased, and the nearest such character after it is not.
-/

namespace AblAnalysis.Text

/-- Whether the first character that is not case-ignorable is cased. -/
def meetsCased (cs : List Char) : Bool :=
  match cs.dropWhile (fun c => inRanges ignorableRanges c.toNat) with
  | [] => false
  | c :: _ => inRanges casedRanges c.toNat

/-- The lower-case form of a character other than the dotted capital I and the capital sigma. -/
def lowerChar (c : Char) : Char :=
  if c.toNat < 0x80 then c.toLower
  else
    match lowerRanges.find? (·.covers c.toNat) with
    | some r => Char.ofNat ((c.toNat : Int) + r.shift).toNat
    | none => c

/-- The lower-case form of `c` between the characters `before` (nearest first) and `after`. -/
def lowerAt (before : List Char) (c : Char) (after : List Char) : List Char :=
  if c = '\u0130' then ['i', '\u0307']
  else if c = '\u03A3' then
    if meetsCased before && !meetsCased after then ['\u03C2'] else ['\u03C3']
  else [lowerChar c]

/-- Lower-cases a text whose beginning `before` (nearest first) has given `done` (last first). -/
def lowerFrom (done before : List Char) : List Char → List Char
  | [] => done.reverse
  | c :: rest => lowerFrom ((lowerAt before c rest).reverse ++ done) (c :: before) rest

/-- The lower-case form of a text. -/
def lowercase (s : String) : String :=
  String.ofList (lowerFrom [] [] s.toList)

/-- Whether two texts are equal when the case of ASCII letters is ignored. -/
def equalIgnoringAsciiCase (a b : String) : Bool :=
  a.toList.map Char.toLower == b.toList.map Char.toLower

end AblAnalysis.Text
