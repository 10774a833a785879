/-!
Finite maps as lists of entries with distinct keys. `Dict` keeps the latest entry first and is what
lookups by name use; `SortedMap` keeps its entries in key order and is what listings use.
-/

namespace AblAnalysis

/-- A finite map; the entry put last stands first. -/
structure Dict (κ α : Type) where
  entries : List (κ × α) := []
  deriving Repr

namespace Dict

variable {κ α : Type} [DecidableEq κ]

/-- The value stored under a key. -/
def get? (d : Dict κ α) (k : κ) : Option α :=
  (d.entries.find? (fun e => e.1 = k)).map (·.2)

/-- Whether a key has a value. -/
def contains (d : Dict κ α) (k : κ) : Bool :=
  d.entries.any (fun e => e.1 = k)

/-- Removes a key. -/
def erase (d : Dict κ α) (k : κ) : Dict κ α :=
  ⟨d.entries.filter (fun e => e.1 ≠ k)⟩

/-- Stores a value, replacing any earlier one. -/
def insert (d : Dict κ α) (k : κ) (v : α) : Dict κ α :=
  ⟨(k, v) :: (d.erase k).entries⟩

/-- Stores a value unless the key already has one. -/
def insertNew (d : Dict κ α) (k : κ) (v : α) : Dict κ α :=
  if d.contains k then d else d.insert k v

/-- Number of keys. -/
def size (d : Dict κ α) : Nat :=
  d.entries.length

@[simp] theorem get?_empty (k : κ) : (⟨[]⟩ : Dict κ α).get? k = none := rfl

theorem get?_erase (d : Dict κ α) (k j : κ) :
    (d.erase k).get? j = if j = k then none else d.get? j := by
  simp only [get?, erase, List.find?_filter]
  by_cases h : j = k
  · subst h
    rw [List.find?_eq_none.2]
    · simp
    · intro e _
      by_cases he : e.1 = j <;> simp [he]
  · rw [if_neg h]
    congr 2
    funext e
    by_cases he : e.1 = j
    · subst he; simp [h]
    · simp [he]

theorem get?_insert (d : Dict κ α) (k j : κ) (v : α) :
    (d.insert k v).get? j = if j = k then some v else d.get? j := by
  by_cases h : j = k
  · subst h; simp [get?, insert]
  · have hk : ¬ k = j := fun e => h e.symm
    have := get?_erase d k j
    simp only [get?, insert, List.find?_cons, hk, decide_false, h, if_false] at this ⊢
    exact this

theorem contains_eq_isSome (d : Dict κ α) (k : κ) : d.contains k = (d.get? k).isSome := by
  simp only [contains, get?, Option.isSome_map, List.isSome_find?]

end Dict

instance instIsLinearOrderInt32 : Std.IsLinearOrder Int32 :=
  .of_le ⟨fun _ _ hab hba => Int32.le_antisymm hab hba⟩ ⟨fun hab hbc => Int32.le_trans hab hbc⟩
    ⟨fun a b => Int32.le_total a b⟩

instance instLawfulOrderLTInt32 : Std.LawfulOrderLT Int32 where
  lt_iff a b := by
    rw [Int32.not_le]
    exact ⟨fun h => ⟨Int32.le_of_lt h, h⟩, fun h => h.2⟩

theorem pairwise_key_nil {κ α : Type} [LT κ] :
    ([] : List (κ × α)).Pairwise (fun e f => e.1 < f.1) :=
  .nil

/-- A finite map whose entries are listed in strictly increasing key order. -/
structure SortedMap (κ α : Type) [LT κ] where
  entries : List (κ × α) := []
  sorted : entries.Pairwise (fun e f => e.1 < f.1) := by exact pairwise_key_nil
  deriving Repr, DecidableEq

namespace SortedMap

variable {κ α : Type} [DecidableEq κ] [LT κ] [DecidableLT κ]

/-- Stores a value at its place in key order, replacing the value of an equal key. -/
def insertEntry (k : κ) (v : α) : List (κ × α) → List (κ × α)
  | [] => [(k, v)]
  | e :: rest =>
    if k < e.1 then (k, v) :: e :: rest
    else if k = e.1 then (k, v) :: rest
    else e :: insertEntry k v rest

theorem eq_or_mem_of_mem_insertEntry {k : κ} {v : α} {f : κ × α} {l : List (κ × α)}
    (h : f ∈ insertEntry k v l) : f = (k, v) ∨ f ∈ l := by
  induction l with
  | nil => exact .inl (List.mem_singleton.1 h)
  | cons e rest ih =>
    simp only [insertEntry] at h
    split at h
    · exact List.mem_cons.1 h
    split at h
    · exact (List.mem_cons.1 h).imp_right (List.mem_cons_of_mem e)
    · rcases List.mem_cons.1 h with rfl | h
      · exact .inr (List.mem_cons_self ..)
      · exact (ih h).imp_right (List.mem_cons_of_mem e)

theorem pairwise_insertEntry [LE κ] [Std.LawfulOrderLT κ] [Std.IsLinearOrder κ] (k : κ) (v : α)
    {l : List (κ × α)} (h : l.Pairwise (fun e f => e.1 < f.1)) :
    (insertEntry k v l).Pairwise (fun e f => e.1 < f.1) := by
  induction l with
  | nil => exact List.pairwise_singleton _ _
  | cons e rest ih =>
    obtain ⟨he, hrest⟩ := List.pairwise_cons.1 h
    simp only [insertEntry]
    split
    · rename_i hk
      refine List.pairwise_cons.2 ⟨fun f hf => ?_, h⟩
      rcases List.mem_cons.1 hf with rfl | hf
      · exact hk
      · exact Std.lt_trans hk (he f hf)
    rename_i hk
    split
    · rename_i hk
      subst hk
      exact List.pairwise_cons.2 ⟨he, hrest⟩
    · rename_i hne
      refine List.pairwise_cons.2 ⟨fun f hf => ?_, ih hrest⟩
      rcases eq_or_mem_of_mem_insertEntry hf with rfl | hf
      · exact Std.lt_of_le_of_ne (Std.not_lt.1 hk) (Ne.symm hne)
      · exact he f hf

/-- The value stored under a key. -/
def get? (m : SortedMap κ α) (k : κ) : Option α :=
  (m.entries.find? (fun e => e.1 = k)).map (·.2)

/-- Stores a value, replacing any earlier one. -/
def insert [LE κ] [Std.LawfulOrderLT κ] [Std.IsLinearOrder κ] (m : SortedMap κ α) (k : κ) (v : α) :
    SortedMap κ α :=
  ⟨insertEntry k v m.entries, pairwise_insertEntry k v m.sorted⟩

/-- Removes a key. -/
def erase (m : SortedMap κ α) (k : κ) : SortedMap κ α :=
  ⟨m.entries.filter (fun e => e.1 ≠ k), m.sorted.filter _⟩

/-- The keys in increasing order. -/
def keys (m : SortedMap κ α) : List κ :=
  m.entries.map (·.1)

/-- The values in key order. -/
def values (m : SortedMap κ α) : List α :=
  m.entries.map (·.2)

end SortedMap

end AblAnalysis
