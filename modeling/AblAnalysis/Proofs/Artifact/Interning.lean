import AblAnalysis.Proofs.Artifact.Trees

/-!
The table of texts over time. The index is always that of the texts. So a text that is there is found, at its
last position if it comes again, and nothing changes; any other text is added at the end. No text is ever
moved or replaced, and what has once been given as the position of a text leads to it for ever
(`Lawful.keeps`). A table started afresh never comes to hold a text twice (`lawful_after`).
-/

namespace AblAnalysis.Artifact.StringTable

/-- The table after texts have been looked up in order. -/
def after (t : StringTable) (texts : List String) : StringTable :=
  texts.foldl (fun t s => (t.indexOf s).2) t

/-! ### Positions -/

theorem get?_eq_none_iff {t : StringTable} {i : Int32} :
    t.get? i = none ↔ i < 0 ∨ (t.size : Int) ≤ i.toInt := by
  have hzero : i < 0 ↔ i.toInt < 0 := Int32.lt_iff_toInt_lt
  rw [StringTable.get?]
  split
  · rename_i hneg
    exact iff_of_true rfl (.inl hneg)
  · rename_i hneg
    rw [hzero] at hneg ⊢
    rw [Array.getElem?_eq_none_iff, size]
    omega

theorem Within.get? {t u : StringTable} (h : t.Within u) {i : Int32} {s : String}
    (hs : t.get? i = some s) : u.get? i = some s := by
  rw [StringTable.get?] at hs ⊢
  split at hs
  · exact absurd hs (by simp)
  · rename_i hneg
    rw [if_neg hneg]
    exact h.get hs

/-! ### Texts in order -/

theorem within_after (t : StringTable) (texts : List String) : t.Within (t.after texts) := by
  induction texts generalizing t with
  | nil => exact .refl t
  | cons s texts ih => exact ((Interns.indexOf s).grows t).trans (ih _)

theorem Distinct.after {t : StringTable} (h : t.Distinct) (texts : List String) :
    (t.after texts).Distinct := by
  induction texts generalizing t with
  | nil => exact h
  | cons s texts ih => exact ih ((Interns.indexOf s).distinct t h)

/-- What holds of a table at any time. -/
structure Lawful (t : StringTable) : Prop where
  /-- What is given as the position of a text leads to it, then and whatever is looked up later. -/
  keeps : t.size < 2 ^ 31 → ∀ (s : String) (later : List String),
    ((t.indexOf s).2.after later).get? (t.indexOf s).1 = some s
  /-- A text that is there is found at its last position, and nothing changes. -/
  found : ∀ s ∈ t.strings.toList, ∃ i : Nat, t.strings[i]? = some s ∧
    (∀ j, i < j → t.strings[j]? ≠ some s) ∧ t.indexOf s = (Int32.ofNat i, t)
  /-- Any other text is added at the end. -/
  added : ∀ s ∉ t.strings.toList, (t.indexOf s).1 = Int32.ofNat t.size ∧
    (t.indexOf s).2.strings.toList = t.strings.toList ++ [s]
  /-- A position leads to nothing exactly if it is negative or not below the number of texts. -/
  get?_eq_none_iff : ∀ i, t.get? i = none ↔ i < 0 ∨ (t.size : Int) ≤ i.toInt

theorem lawful (t : StringTable) : t.Lawful where
  keeps h s later := (within_after _ later).get? (get?_indexOf h s)
  found _ hs := indexOf_of_mem hs
  added s hs := by
    rw [indexOf_of_not_mem hs]
    exact ⟨rfl, t.toList_push s⟩
  get?_eq_none_iff _ := get?_eq_none_iff

/-- A table that was started afresh or read from an artifact, even with repetitions, is lawful after any
lookups. If it was started afresh it holds no text twice, and the empty text comes first. -/
theorem lawful_after (texts calls : List String) :
    ((ofStrings texts).after calls).Lawful ∧ (start.after calls).Lawful ∧
      (start.after calls).Distinct ∧ (start.after calls).get? 0 = some "" :=
  ⟨lawful _, lawful _, distinct_start.after calls, (within_after _ calls).get? rfl⟩

/-- Of a text that was read twice the later one is found. -/
example : ((ofStrings ["a", "b", "a"]).indexOf "a").1 = 2 := by decide

end AblAnalysis.Artifact.StringTable
