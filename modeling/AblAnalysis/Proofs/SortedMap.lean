import AblAnalysis.Dict
import Mathlib.Data.List.Nodup

/-!
Laws of sorted maps. A map is determined by what its keys stand for (`ext_get?`), so maps that are
built in different ways are compared key by key.
-/

namespace AblAnalysis.SortedMap

variable {κ α : Type} [LT κ]

theorem keys_nodup [LE κ] [Std.LawfulOrderLT κ] (m : SortedMap κ α) : m.keys.Nodup := by
  rw [keys, List.Nodup, List.pairwise_map]
  refine m.sorted.imp fun {e f} h heq => ?_
  rw [heq] at h
  exact Std.lt_irrefl h

variable [DecidableEq κ]

@[simp] theorem get?_empty (k : κ) : ({} : SortedMap κ α).get? k = none := rfl

theorem get?_erase (m : SortedMap κ α) (k j : κ) :
    (m.erase k).get? j = if j = k then none else m.get? j :=
  Dict.get?_erase ⟨m.entries⟩ k j

variable [LE κ] [Std.LawfulOrderLT κ]

theorem get?_eq_some_iff (m : SortedMap κ α) (k : κ) (v : α) :
    m.get? k = some v ↔ (k, v) ∈ m.entries := by
  constructor
  · intro h
    obtain ⟨e, he, rfl⟩ := Option.map_eq_some_iff.1 h
    have hk : e.1 = k := by simpa using List.find?_some he
    rw [← hk]
    exact List.mem_of_find?_eq_some he
  · intro h
    cases hf : m.entries.find? (fun e => e.1 = k) with
    | none => simpa using List.find?_eq_none.1 hf _ h
    | some e =>
      have hk : e.1 = k := by simpa using List.find?_some hf
      have he : e = (k, v) :=
        List.inj_on_of_nodup_map m.keys_nodup (List.mem_of_find?_eq_some hf) h hk
      rw [get?, hf, he, Option.map_some]

theorem mem_keys_iff (m : SortedMap κ α) (k : κ) : k ∈ m.keys ↔ ∃ v, m.get? k = some v := by
  rw [keys, List.mem_map]
  constructor
  · rintro ⟨e, he, rfl⟩
    exact ⟨e.2, (m.get?_eq_some_iff _ _).2 he⟩
  · rintro ⟨v, hv⟩
    exact ⟨(k, v), (m.get?_eq_some_iff _ _).1 hv, rfl⟩

variable [Std.IsLinearOrder κ]

theorem ext_get? {m n : SortedMap κ α} (h : ∀ k, m.get? k = n.get? k) : m = n := by
  have hmem : ∀ e, e ∈ m.entries ↔ e ∈ n.entries := fun e => by
    rw [← get?_eq_some_iff, h, get?_eq_some_iff]
  have hperm : m.entries.Perm n.entries :=
    (List.perm_ext_iff_of_nodup (.of_map _ m.keys_nodup) (.of_map _ n.keys_nodup)).2 hmem
  have heq := hperm.eq_of_pairwise
    (fun e f _ _ hef hfe => absurd (Std.lt_trans hef hfe) Std.lt_irrefl) m.sorted n.sorted
  cases m
  cases n
  cases heq
  rfl

variable [DecidableLT κ]

theorem get?_insert (m : SortedMap κ α) (k j : κ) (v : α) :
    (m.insert k v).get? j = if j = k then some v else m.get? j := by
  suffices h : ∀ l : List (κ × α), (insertEntry k v l).find? (fun e => e.1 = j) =
      if j = k then some (k, v) else l.find? (fun e => e.1 = j) by
    rw [get?, insert, h]
    by_cases hj : j = k <;> simp [hj, get?]
  intro l
  induction l with
  | nil => by_cases hj : j = k <;> simp [insertEntry, hj, eq_comm]
  | cons e rest ih =>
    rw [insertEntry]
    split
    · by_cases hj : j = k
      · simp [hj]
      · rw [if_neg hj, List.find?_cons_of_neg (by simpa using Ne.symm hj)]
    split
    · rename_i hk
      by_cases hj : j = k
      · simp [hj]
      · have he : e.1 ≠ j := fun he => hj (he.symm.trans hk.symm)
        rw [if_neg hj, List.find?_cons_of_neg (by simpa using Ne.symm hj),
          List.find?_cons_of_neg (by simpa using he)]
    · rename_i hk
      by_cases he : e.1 = j
      · rw [if_neg (fun h => hk (h.symm.trans he.symm)), List.find?_cons_of_pos (by simpa using he),
          List.find?_cons_of_pos (by simpa using he)]
      · rw [List.find?_cons_of_neg (by simpa using he), ih,
          List.find?_cons_of_neg (by simpa using he)]

/-- Stores entries in order. -/
def insertAll (m : SortedMap κ α) (entries : List (κ × α)) : SortedMap κ α :=
  entries.foldl (fun m e => m.insert e.1 e.2) m

theorem get?_insertAll (m : SortedMap κ α) {entries : List (κ × α)}
    (h : (entries.map (·.1)).Nodup) (k : κ) :
    (m.insertAll entries).get? k =
      ((entries.find? (fun e => e.1 = k)).map (·.2)).or (m.get? k) := by
  induction entries generalizing m with
  | nil => simp [insertAll]
  | cons e rest ih =>
    obtain ⟨he, hrest⟩ := List.nodup_cons.1 h
    have hstep : m.insertAll (e :: rest) = (m.insert e.1 e.2).insertAll rest := rfl
    rw [hstep, ih _ hrest, get?_insert]
    by_cases hk : e.1 = k
    · have hnone : rest.find? (fun f => f.1 = k) = none := by
        rw [List.find?_eq_none]
        intro f hf hfk
        exact he (List.mem_map.2 ⟨f, hf, (of_decide_eq_true hfk).trans hk.symm⟩)
      simp [hnone, hk]
    · rw [List.find?_cons_of_neg (by simpa using hk), if_neg (Ne.symm hk)]

/-- A map is its entries stored in order. -/
theorem insertAll_entries (m : SortedMap κ α) : ({} : SortedMap κ α).insertAll m.entries = m :=
  ext_get? fun k => by
    rw [get?_insertAll _ m.keys_nodup, get?_empty, Option.or_none, get?]

end AblAnalysis.SortedMap
