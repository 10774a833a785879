import AblAnalysis.Text.HiddenTable
import AblAnalysis.Text.Ranges

/-!
Quoted text: a value between double quotes in which every character shows. Quotes and backslashes
get a backslash, the usual control characters their letter, and characters without a visible form of
their own are written by their hexadecimal number.
-/

namespace AblAnalysis.Text

/-- Whether a character shows on its own. -/
def isVisible (c : Char) : Bool :=
  if c.toNat < 0x80 then 0x20 ≤ c.toNat && c.toNat != 0x7F
  else !inRanges hiddenRanges c.toNat

/-- A character as it stands between double quotes. -/
def quoteChar (c : Char) : List Char :=
  if c = '\x00' then ['\\', '0']
  else if c = '\t' then ['\\', 't']
  else if c = '\r' then ['\\', 'r']
  else if c = '\n' then ['\\', 'n']
  else if c = '\\' || c = '"' then ['\\', c]
  else if isVisible c then [c]
  else ['\\', 'u', '\x7b'] ++ Nat.toDigits 16 c.toNat ++ ['\x7d']

/-- A text between double quotes. -/
def quoted (s : String) : String :=
  String.ofList ('"' :: s.toList.flatMap quoteChar ++ ['"'])

end AblAnalysis.Text
