import AblAnalysis.Storage.Retry
import Mathlib.Data.ENat.Lattice

/-!
How often an operation is called. Counting the repetitions up to a limit comes to the same as counting down
those that are left (`retryFrom_eq_retry`). Every call but the last one gives a failure that may pass, and
the count is always the number of these calls, so it stays within the limit and does not overflow
(`retryFrom_calls`).
-/

namespace AblAnalysis

variable {α : Type}

/-- Whether a result is a failure that may pass by itself. -/
def MayPass (result : Except Error α) : Prop :=
  ∃ text, result = .error (.transientIo text)

/-! ### Counting up and counting down -/

theorem retryFrom_eq_retry {m : Type → Type} [Monad m] [LawfulMonad m] (pause : m Unit)
    (operation : m (Except Error α)) (limit attempt : UInt32) :
    retryFrom (fun _ => pause) operation limit attempt =
      retry pause operation (limit.toNat - attempt.toNat) := by
  induction hleft : limit.toNat - attempt.toNat generalizing attempt with
  | zero =>
    have hfull : ¬ attempt < limit := fun h => by
      have : attempt.toNat < limit.toNat := h
      omega
    rw [retryFrom, retry]
    conv_rhs => rw [← bind_pure operation]
    congr 1
    funext result
    split
    · rw [if_neg hfull]
    · rfl
  | succ left ih =>
    have hroom : attempt < limit := by
      rw [UInt32.lt_iff_toNat_lt]
      omega
    have hnext := toNat_add_one_of_lt hroom
    rw [retryFrom, retry]
    congr 1
    funext result
    split
    · rw [if_pos hroom, ih (attempt + 1) (by omega)]
    · rfl

/-! ### One call -/

section
variable {σ : Type} {pause : UInt32 → StateM σ Unit} {operation : StateM σ (Except Error α)}
  {limit attempt : UInt32} {s s' : σ} {result : Except Error α}

theorem run_retryFrom_again (hrun : operation.run s = pure (result, s')) (hresult : MayPass result)
    (hroom : attempt < limit) :
    (retryFrom pause operation limit attempt).run s =
      (retryFrom pause operation limit (attempt + 1)).run ((pause (attempt + 1)).run s').2 := by
  obtain ⟨text, rfl⟩ := hresult
  rw [retryFrom, StateT.run_bind, hrun, pure_bind]
  dsimp only
  rw [if_pos hroom]
  rfl

theorem run_retryFrom_last (hrun : operation.run s = pure (result, s'))
    (hlast : MayPass result → ¬ attempt < limit) :
    (retryFrom pause operation limit attempt).run s = pure (result, s') := by
  rw [retryFrom, StateT.run_bind, hrun, pure_bind]
  dsimp only
  split
  · rw [if_neg (hlast ⟨_, rfl⟩)]
    rfl
  · rfl

end

/-! ### Calls in order -/

/-- How many results come before the first that is not a failure that may pass: infinitely many if there is
no such result. -/
noncomputable def leading (results : Nat → Except Error α) : ℕ∞ :=
  ⨅ k : {k : Nat // ¬ MayPass (results k)}, (k.val : ℕ∞)

theorem le_leading_iff {results : Nat → Except Error α} {n : Nat} :
    (n : ℕ∞) ≤ leading results ↔ ∀ k < n, MayPass (results k) := by
  rw [leading, le_iInf_iff]
  constructor
  · intro h k hk
    by_contra hpass
    have hle : n ≤ k := ENat.natCast_le_natCast.1 (h ⟨k, hpass⟩)
    omega
  · rintro h ⟨k, hk⟩
    refine ENat.natCast_le_natCast.2 (Nat.le_of_not_lt fun hlt => hk (h k hlt))

theorem not_mayPass_of_eq_leading {results : Nat → Except Error α} {k : Nat}
    (h : (k : ℕ∞) = leading results) : ¬ MayPass (results k) := by
  intro hpass
  have hbefore : ∀ j < k, MayPass (results j) := le_leading_iff.1 h.le
  have hmore : ((k + 1 : Nat) : ℕ∞) ≤ leading results := le_leading_iff.2 fun j hj => by
    rcases Nat.lt_succ_iff_lt_or_eq.1 hj with hj | rfl
    · exact hbefore j hj
    · exact hpass
  rw [← h, ENat.natCast_le_natCast] at hmore
  omega

/-- What has been done: the number of calls, and the numbers that the pauses were told, in order. -/
structure Tally where
  calls : Nat := 0
  told : List UInt32 := []

namespace Tally

/-- Calls an operation whose successive results are given. -/
def call (results : Nat → Except Error α) : StateM Tally (Except Error α) :=
  modifyGet fun t => (results t.calls, { t with calls := t.calls + 1 })

/-- Notes the number of a repetition. -/
def pause (number : UInt32) : StateM Tally Unit :=
  modify fun t => { t with told := t.told ++ [number] }

/-- What has been done when there have been `k` calls, each with a pause after it. -/
def after (k : Nat) : Tally where
  calls := k
  told := (List.range' 1 k).map UInt32.ofNat

theorem run_call (results : Nat → Except Error α) (k : Nat) :
    (call results).run (after k) = pure (results k, { after k with calls := k + 1 }) := rfl

theorem run_pause (k : Nat) :
    ((pause (UInt32.ofNat k + 1)).run { after k with calls := k + 1 }).2 = after (k + 1) := by
  have hnumber : UInt32.ofNat k + 1 = UInt32.ofNat (1 + k) := by
    rw [Nat.add_comm, UInt32.ofNat_add]
    rfl
  have htold : (after (k + 1)).told = (after k).told ++ [UInt32.ofNat k + 1] := by
    rw [after, after, List.range'_1_concat, List.map_append, hnumber]
    rfl
  exact congrArg (Tally.mk (k + 1)) htold.symm

end Tally

theorem toNat_ofNat_of_le {k : Nat} (limit : UInt32) (h : k ≤ limit.toNat) :
    (UInt32.ofNat k).toNat = k :=
  UInt32.toNat_ofNat_of_lt' (h.trans_lt limit.toNat_lt)

/-- As long as failures that may pass lead and the limit allows, there is another call, and the count is the
number of the calls before it. -/
theorem run_retryFrom_after {results : Nat → Except Error α} {limit : UInt32} {last : Nat}
    (hleading : ∀ k < last, MayPass (results k)) (hlimit : last ≤ limit.toNat) {k : Nat} (hk : k ≤ last) :
    (retryFrom Tally.pause (Tally.call results) limit 0).run {} =
      (retryFrom Tally.pause (Tally.call results) limit (UInt32.ofNat k)).run (Tally.after k) := by
  induction k with
  | zero => rfl
  | succ k ih =>
    have hroom : UInt32.ofNat k < limit := by
      rw [UInt32.lt_iff_toNat_lt, toNat_ofNat_of_le limit (by omega)]
      omega
    rw [ih (by omega), run_retryFrom_again (Tally.run_call results k) (hleading k hk) hroom,
      UInt32.ofNat_add]
    exact congrArg _ (Tally.run_pause k)

/-- Whatever an operation gives when it is called again and again, it is repeated as often as failures that
may pass lead, or as the limit allows if that is less. So there is one call more than that, and the answer is
the result of the last one. Every call before it gave a failure that may pass. The count goes through the
numbers from one to the number of repetitions: it never passes the limit, and so never the end of the word. -/
theorem retryFrom_calls (results : Nat → Except Error α) (limit : UInt32) :
    ∃ (last : Nat) (told : List UInt32), (last : ℕ∞) = min (leading results) limit.toNat ∧
      (retryFrom Tally.pause (Tally.call results) limit 0).run {} =
        pure (results last, { calls := last + 1, told }) ∧
      (∀ k < last, MayPass (results k)) ∧ told.map UInt32.toNat = List.range' 1 last := by
  obtain ⟨last, hlast⟩ : ∃ last : Nat, (last : ℕ∞) = min (leading results) limit.toNat :=
    ENat.ne_top_iff_exists.1 (ne_top_of_le_ne_top (ENat.natCast_ne_top _) (min_le_right ..))
  have hleading : ∀ k < last, MayPass (results k) := le_leading_iff.1 (hlast ▸ min_le_left ..)
  have hlimit : last ≤ limit.toNat := ENat.natCast_le_natCast.1 (hlast ▸ min_le_right ..)
  have hdone : MayPass (results last) → ¬ UInt32.ofNat last < limit := by
    intro hpass
    rcases min_choice (leading results) limit.toNat with hmin | hmin
    · exact absurd hpass (not_mayPass_of_eq_leading (hlast.trans hmin))
    · have heq : last = limit.toNat := ENat.natCast_inj.1 (hlast.trans hmin)
      rw [heq, UInt32.ofNat_toNat]
      exact UInt32.lt_irrefl limit
  refine ⟨last, (Tally.after last).told, hlast, ?_, hleading, ?_⟩
  · rw [run_retryFrom_after hleading hlimit (Nat.le_refl last)]
    exact run_retryFrom_last (Tally.run_call results last) hdone
  · rw [Tally.after, List.map_map]
    refine (List.map_congr_left fun number hnumber => ?_).trans (List.map_id _)
    have hlt : number < 1 + last := (List.mem_range'_1.1 hnumber).2
    exact toNat_ofNat_of_le limit (by omega)

end AblAnalysis
