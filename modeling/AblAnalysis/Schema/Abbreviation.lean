import AblAnalysis.Bisection
import AblAnalysis.Text.Lowercase
import AblAnalysis.Text.Pieces

/-!
Matching of abbreviated names against candidates listed in the order of their lower-case names. A
candidate that begins with the abbreviation is never below it, and nothing stands between the
abbreviation and the first such candidate, so only the head of what is not below it matters.
-/

namespace AblAnalysis.Abbreviation

variable {α : Type}

/-- The candidates from the first one whose key is not below `target`. -/
def ceiling (key : α → String) (target : String) (candidates : List α) : List α :=
  candidates.drop (Bisection.ceiling key target candidates)

/-- The first candidate that `name` abbreviates. -/
def firstMatch? (key : α → String) (name : String) (candidates : List α) : Option α :=
  let target := Text.lowercase name
  match ceiling key target candidates with
  | [] => none
  | found :: _ => if Text.beginsWith target (key found) then some found else none

/-- What the candidates that are not below `target` say: their head, if it has this key or is the only one
that begins with it. -/
def headMatch? (key : α → String) (target : String) : List α → Option α
  | [] => none
  | found :: rest =>
    if !Text.beginsWith target (key found) then none
    else if key found = target then some found
    else
      match rest with
      | next :: _ => if Text.beginsWith target (key next) then none else some found
      | [] => some found

/-- The candidate that `name` names in full, or the only one that it abbreviates. -/
def uniqueMatch? (key : α → String) (name : String) (candidates : List α) : Option α :=
  let target := Text.lowercase name
  headMatch? key target (ceiling key target candidates)

end AblAnalysis.Abbreviation
