import AblAnalysis.Error

/-!
Repeating an operation whose failure may pass by itself.
-/

namespace AblAnalysis

/-- Runs an operation, and again up to `retries` times as long as it fails in a way that may pass,
with a pause before each repetition. -/
def retry {m : Type → Type} [Monad m] {α : Type} (pause : m Unit) (operation : m (Except Error α)) :
    Nat → m (Except Error α)
  | 0 => operation
  | retries + 1 => do
    match ← operation with
    | .error (.transientIo _) =>
      pause
      retry pause operation retries
    | result => return result

/-- Another repetition can be counted as long as there are fewer than the limit. -/
theorem toNat_add_one_of_lt {attempt limit : UInt32} (h : attempt < limit) :
    (attempt + 1).toNat = attempt.toNat + 1 := by
  have hlt : attempt.toNat < limit.toNat := h
  have := limit.toNat_lt
  rw [UInt32.toNat_add, UInt32.toNat_one, Nat.mod_eq_of_lt (by omega)]

/-- The same with a count of the repetitions: `attempt` have been made, and there are to be at most
`limit`. What is done before a repetition is told its number. -/
def retryFrom {m : Type → Type} [Monad m] {α : Type} (pause : UInt32 → m Unit)
    (operation : m (Except Error α)) (limit attempt : UInt32) : m (Except Error α) := do
  match ← operation with
  | .error (.transientIo text) =>
    if attempt < limit then
      pause (attempt + 1)
      retryFrom pause operation limit (attempt + 1)
    else return .error (.transientIo text)
  | result => return result
termination_by limit.toNat - attempt.toNat
decreasing_by
  rename_i h
  have := toNat_add_one_of_lt h
  have hlt : attempt.toNat < limit.toNat := h
  omega

end AblAnalysis
