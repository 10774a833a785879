/-!
Integer literals: an optional sign and decimal ASCII digits, nothing else, checked against the range
of the word that receives the value. A plus sign is accepted; a minus sign only by signed words.
-/

namespace AblAnalysis.Text

/-- The value of a non-empty run of decimal digits. -/
def digits? (cs : List Char) : Option Nat :=
  if cs.isEmpty || !cs.all Char.isDigit then none
  else some (cs.foldl (fun n c => 10 * n + (c.toNat - '0'.toNat)) 0)

/-- An unsigned literal, with an optional plus sign. -/
def unsigned? (s : String) : Option Nat :=
  match s.toList with
  | '+' :: cs => digits? cs
  | cs => digits? cs

/-- A signed literal. -/
def signed? (s : String) : Option Int :=
  match s.toList with
  | '-' :: cs => (digits? cs).map (fun n => -(n : Int))
  | '+' :: cs => (digits? cs).map Int.ofNat
  | cs => (digits? cs).map Int.ofNat

/-- A literal in the range of a signed 32-bit word. -/
def int32? (s : String) : Option Int32 :=
  match signed? s with
  | some n => if -2147483648 ≤ n ∧ n ≤ 2147483647 then some (Int32.ofInt n) else none
  | none => none

/-- A literal in the range of an unsigned 32-bit word. -/
def uint32? (s : String) : Option UInt32 :=
  match unsigned? s with
  | some n => if n < UInt32.size then some (UInt32.ofNat n) else none
  | none => none

/-- A literal in the range of an unsigned 64-bit word. -/
def count? (s : String) : Option Nat :=
  match unsigned? s with
  | some n => if n < UInt64.size then some n else none
  | none => none

/-- The decimal text of a signed 32-bit word. -/
def ofInt32 (n : Int32) : String :=
  toString n.toInt

end AblAnalysis.Text
