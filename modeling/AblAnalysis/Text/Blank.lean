/-!
White space and trimming. A character is blank when it has the Unicode `White_Space` property, so
the no-break space and the ideographic space are blank and the zero-width space is not.
-/

namespace AblAnalysis.Text

/-- The Unicode `White_Space` property. -/
def isBlank (c : Char) : Bool :=
  let n := c.toNat
  (0x09 ≤ n && n ≤ 0x0D) || n == 0x20 || n == 0x85 || n == 0xA0 || n == 0x1680 ||
    (0x2000 ≤ n && n ≤ 0x200A) || n == 0x2028 || n == 0x2029 || n == 0x202F || n == 0x205F ||
    n == 0x3000

/-- Drops blanks at the end of a character list. -/
def dropBlanksAtEnd (cs : List Char) : List Char :=
  (cs.reverse.dropWhile isBlank).reverse

/-- Drops blanks at the start. -/
def trimStart (s : String) : String :=
  String.ofList (s.toList.dropWhile isBlank)

/-- Drops blanks at the end. -/
def trimEnd (s : String) : String :=
  String.ofList (dropBlanksAtEnd s.toList)

/-- Drops blanks at both ends. -/
def trim (s : String) : String :=
  String.ofList (dropBlanksAtEnd (s.toList.dropWhile isBlank))

end AblAnalysis.Text
