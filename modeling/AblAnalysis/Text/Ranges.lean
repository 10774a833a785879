/-!
Sets of code points given by ranges, the form in which character properties are tabulated.
-/

namespace AblAnalysis.Text

/-- Whether a code point lies in one of the ranges, ends included. -/
def inRanges (ranges : List (Nat × Nat)) (n : Nat) : Bool :=
  ranges.any (fun r => r.1 ≤ n && n ≤ r.2)

end AblAnalysis.Text
