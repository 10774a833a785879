import AblAnalysis.Artifact.Decode
import AblAnalysis.Proofs.Artifact.Items
import Mathlib.Data.List.Induction
import Mathlib.Data.List.Nodup

/-!
The table of texts while a tree is written. A writer takes the table and gives it back with its own
texts in it, so the same node would be written differently at different times. But a table only grows,
and it holds no text twice: with the final table at hand from the start every writer would write the
same bytes and leave the table as it is (`Interns.again`). So what is written is a function of the
final table.
-/

namespace AblAnalysis.Artifact

theorem not_ofNat_neg {n : Nat} (h : n < 2 ^ 31) : ¬ Int32.ofNat n < 0 := by
  rw [Int32.lt_iff_toInt_lt, Int32.toInt_ofNat_of_lt h]
  exact Int.not_lt.2 (Int.natCast_nonneg n)

/-- A text among others has its last position, and any other text has none. -/
theorem positions_cases (texts : List String) (s : String) :
    (s ∉ texts ∧ (positions texts).get? s = none) ∨
      ∃ i : Nat, texts[i]? = some s ∧ (∀ j, i < j → texts[j]? ≠ some s) ∧
        (positions texts).get? s = some (Int32.ofNat i) := by
  induction texts using List.reverseRecOn with
  | nil => exact .inl ⟨List.not_mem_nil, rfl⟩
  | append_singleton texts last ih =>
    rw [positions_concat, Dict.get?_insert]
    by_cases hs : s = last
    · subst hs
      refine .inr ⟨texts.length, List.getElem?_concat_length, fun j hj => ?_, if_pos rfl⟩
      rw [List.getElem?_eq_none (by rw [List.length_append]; exact hj)]
      exact (Option.some_ne_none s).symm
    · rw [if_neg hs]
      rcases ih with ⟨hmem, hget⟩ | ⟨i, hi, hlater, hget⟩
      · exact .inl ⟨by simp [hmem, hs], hget⟩
      · have hlt : i < texts.length := (List.getElem?_eq_some_iff.1 hi).1
        refine .inr ⟨i, by rw [List.getElem?_append_left hlt, hi], fun j hj => ?_, hget⟩
        grind

namespace StringTable

@[simp] theorem toList_push (t : StringTable) (s : String) :
    (t.push s).strings.toList = t.strings.toList ++ [s] := Array.toList_push ..

/-- A table is known by its texts. -/
theorem ofStrings_toList (t : StringTable) : ofStrings t.strings.toList = t := by
  obtain ⟨strings, index, rfl⟩ := t
  rfl

/-- Whether a table is the beginning of another one. -/
def Within (t u : StringTable) : Prop :=
  t.strings.toList <+: u.strings.toList

/-- Whether a table holds no text twice. -/
def Distinct (t : StringTable) : Prop :=
  t.strings.toList.Nodup

theorem Within.refl (t : StringTable) : t.Within t :=
  List.prefix_refl _

theorem Within.trans {t u v : StringTable} (h : t.Within u) (h' : u.Within v) : t.Within v :=
  List.IsPrefix.trans h h'

theorem Within.get {t u : StringTable} (h : t.Within u) {i : Nat} {s : String}
    (hs : t.strings[i]? = some s) : u.strings[i]? = some s := by
  rw [← Array.getElem?_toList] at hs ⊢
  obtain ⟨more, hmore⟩ := h
  rw [← hmore, List.getElem?_append_left (List.getElem?_eq_some_iff.1 hs).1, hs]

theorem Distinct.index_unique {t : StringTable} (h : t.Distinct) {i j : Nat} {s : String}
    (hi : t.strings[i]? = some s) (hj : t.strings[j]? = some s) : i = j := by
  rw [← Array.getElem?_toList] at hi hj
  exact (List.getElem?_inj (List.getElem?_eq_some_iff.1 hi).1 h).1 (hi.trans hj.symm)

theorem mem_iff_getElem? {t : StringTable} {s : String} :
    s ∈ t.strings.toList ↔ ∃ i : Nat, t.strings[i]? = some s := by
  simp only [List.mem_iff_getElem?, Array.getElem?_toList]

/-- A text that is there is found at its last place, and any other is added. -/
theorem indexOf_spec (t : StringTable) (s : String) :
    (∃ i : Nat, t.strings[i]? = some s ∧ (∀ j, i < j → t.strings[j]? ≠ some s) ∧
        t.indexOf s = (Int32.ofNat i, t)) ∨
      s ∉ t.strings.toList ∧ t.indexOf s = (Int32.ofNat t.size, t.push s) := by
  rw [indexOf, t.index_eq]
  rcases positions_cases t.strings.toList s with ⟨hs, hget⟩ | ⟨i, hi, hlater, hget⟩
  · exact .inr ⟨hs, by rw [hget]⟩
  · simp only [Array.getElem?_toList] at hi hlater
    exact .inl ⟨i, hi, hlater, by rw [hget]⟩

theorem indexOf_of_mem {t : StringTable} {s : String} (h : s ∈ t.strings.toList) :
    ∃ i : Nat, t.strings[i]? = some s ∧ (∀ j, i < j → t.strings[j]? ≠ some s) ∧
      t.indexOf s = (Int32.ofNat i, t) := by
  rcases t.indexOf_spec s with hfound | ⟨hs, -⟩
  · exact hfound
  · exact absurd h hs

theorem indexOf_of_not_mem {t : StringTable} {s : String} (h : s ∉ t.strings.toList) :
    t.indexOf s = (Int32.ofNat t.size, t.push s) := by
  rcases t.indexOf_spec s with ⟨i, hi, -, -⟩ | ⟨-, hadded⟩
  · exact absurd (mem_iff_getElem?.2 ⟨i, hi⟩) h
  · exact hadded

/-- In a table without repetitions a text is found at its only place. -/
theorem Distinct.indexOf_eq {t : StringTable} (h : t.Distinct) {i : Nat} {s : String}
    (hi : t.strings[i]? = some s) : t.indexOf s = (Int32.ofNat i, t) := by
  obtain ⟨j, hj, -, hindex⟩ := indexOf_of_mem (mem_iff_getElem?.2 ⟨i, hi⟩)
  rw [hindex, h.index_unique hi hj]

theorem getElem?_indexOf (t : StringTable) (s : String) :
    ∃ i : Nat, (t.indexOf s).1 = Int32.ofNat i ∧ (t.indexOf s).2.strings[i]? = some s := by
  rcases t.indexOf_spec s with ⟨i, hi, -, h⟩ | ⟨-, h⟩
  · exact ⟨i, congrArg Prod.fst h, by rw [h]; exact hi⟩
  · exact ⟨t.size, congrArg Prod.fst h, by rw [h]; exact Array.getElem?_push_size⟩

theorem get?_ofNat (t : StringTable) {i : Nat} (hi : i < 2 ^ 31) :
    t.get? (Int32.ofNat i) = t.strings[i]? := by
  rw [get?, if_neg (not_ofNat_neg hi), Int32.toInt_ofNat_of_lt hi, Int.toNat_natCast]

/-- What a text is referred to by leads back to it, as long as positions fit into a word. -/
theorem get?_indexOf {t : StringTable} (h : t.size < 2 ^ 31) (s : String) :
    (t.indexOf s).2.get? (t.indexOf s).1 = some s := by
  by_cases hs : s ∈ t.strings.toList
  · obtain ⟨i, hi, -, hindex⟩ := indexOf_of_mem hs
    have hlt : i < t.size := (Array.getElem?_eq_some_iff.1 hi).1
    rw [hindex, get?_ofNat _ (hlt.trans h), hi]
  · rw [indexOf_of_not_mem hs, get?_ofNat _ h]
    exact Array.getElem?_push_size

theorem get?_indexOf_of_mem {t : StringTable} (h : t.size < 2 ^ 31) {s : String}
    (hs : s ∈ t.strings.toList) : t.get? (t.indexOf s).1 = some s := by
  obtain ⟨i, -, -, hindex⟩ := indexOf_of_mem hs
  have hget := get?_indexOf h s
  rw [hindex] at hget ⊢
  exact hget

end StringTable

/-! ### Writers that use the table -/

/-- A writer that puts `texts` into the table and refers to them. -/
structure Interns {β : Type} (texts : List String) (write : StringTable → β × StringTable) :
    Prop where
  grows : ∀ t : StringTable, t.Within (write t).2
  mem : ∀ (t : StringTable) (s : String),
    s ∈ (write t).2.strings.toList ↔ s ∈ t.strings.toList ∨ s ∈ texts
  distinct : ∀ t : StringTable, t.Distinct → (write t).2.Distinct
  /-- With all of its texts in the table already it writes the same. -/
  again : ∀ t u : StringTable, u.Distinct → (write t).2.Within u → write u = ((write t).1, u)

namespace Interns

variable {β γ : Type} {xs ys : List String}

theorem pure (b : β) : Interns [] (fun t => (b, t)) where
  grows t := .refl t
  mem t s := by simp
  distinct t h := h
  again t u _ _ := rfl

theorem indexOf (s : String) : Interns [s] (fun t => t.indexOf s) where
  grows t := by
    rcases t.indexOf_spec s with ⟨i, -, -, h⟩ | ⟨-, h⟩ <;> rw [h]
    · exact .refl t
    · exact ⟨[s], (t.toList_push s).symm⟩
  mem t r := by
    rcases t.indexOf_spec s with ⟨i, hi, -, h⟩ | ⟨-, h⟩ <;> rw [h]
    · refine ⟨.inl, fun hr => hr.elim id fun hr => ?_⟩
      exact StringTable.mem_iff_getElem?.2 ⟨i, by rw [List.mem_singleton.1 hr, hi]⟩
    · simp only [StringTable.toList_push, List.mem_append]
  distinct t ht := by
    rcases t.indexOf_spec s with ⟨i, -, -, h⟩ | ⟨hs, h⟩ <;> rw [h]
    · exact ht
    · rw [StringTable.Distinct, StringTable.toList_push]
      exact List.nodup_append.2 ⟨ht, List.nodup_singleton s, fun a ha b hb hab =>
        hs (by rwa [← List.mem_singleton.1 hb, ← hab])⟩
  again t u hu h := by
    obtain ⟨i, hi, hs⟩ := t.getElem?_indexOf s
    rw [hu.indexOf_eq (h.get hs), hi]

/-- One writer after another. -/
theorem bind {write : StringTable → β × StringTable} {next : β → StringTable → γ × StringTable}
    (h : Interns xs write) (h' : ∀ b, Interns ys (next b)) :
    Interns (xs ++ ys) (fun t => next (write t).1 (write t).2) where
  grows t := (h.grows t).trans ((h' _).grows _)
  mem t s := by rw [(h' _).mem, h.mem, List.mem_append, or_assoc]
  distinct t ht := (h' _).distinct _ (h.distinct t ht)
  again t u hu hwithin := by
    rw [h.again t u hu (((h' _).grows _).trans hwithin)]
    exact (h' _).again _ u hu hwithin

theorem map {write : StringTable → β × StringTable} (h : Interns xs write) (f : β → γ) :
    Interns xs (fun t => (f (write t).1, (write t).2)) := by
  have hbind := h.bind (fun b => pure (f b))
  rwa [List.append_nil] at hbind

end Interns

/-! ### The texts as a segment -/

variable (rest : List UInt8) (fault : Option IoFailure)

theorem decodeTexts_encodeTexts {texts : List String} {bytes : List UInt8}
    (h : encodeTexts texts = .ok bytes) :
    decodeTexts texts.length ⟨bytes ++ rest, fault⟩ = .ok (texts, ⟨rest, fault⟩) := by
  induction texts generalizing bytes with
  | nil =>
    obtain rfl := Except.ok.inj h
    rfl
  | cons text texts ih =>
    obtain ⟨first, hf, h⟩ := bind_eq_ok_iff.1 h
    obtain ⟨more, hm, h⟩ := bind_eq_ok_iff.1 h
    obtain rfl := Except.ok.inj h
    rw [List.append_assoc, List.length_cons, decodeTexts]
    simp only [Stream.text_append _ fault hf, ih hm]

theorem exists_encodeTexts {texts : List String} (h : ∀ text ∈ texts, Fits text) :
    ∃ bytes, encodeTexts texts = .ok bytes := by
  induction texts with
  | nil => exact ⟨[], rfl⟩
  | cons text texts ih =>
    obtain ⟨first, hf⟩ := exists_textBytes (h text (List.mem_cons_self ..))
    obtain ⟨more, hm⟩ := ih (fun s hs => h s (List.mem_cons_of_mem _ hs))
    exact ⟨_, bind_eq_ok_iff.2 ⟨first, hf, bind_eq_ok_iff.2 ⟨more, hm, rfl⟩⟩⟩

theorem decodeStrings_encodeStrings {table : StringTable} {bytes : List UInt8}
    (h : encodeStrings table = .ok bytes) (hlt : table.size < 2 ^ 31) :
    decodeStrings ⟨bytes ++ rest, fault⟩ = .ok (table, ⟨rest, fault⟩) := by
  obtain ⟨texts, ht, h⟩ := bind_eq_ok_iff.1 h
  obtain rfl := Except.ok.inj h
  have hlen : table.size = table.strings.toList.length := rfl
  rw [decodeStrings, List.append_assoc]
  simp only [Stream.int32_append, if_neg (not_ofNat_neg hlt), Int32.toInt_ofNat_of_lt hlt,
    Int.toNat_natCast]
  rw [hlen, decodeTexts_encodeTexts rest fault ht, Except.map, StringTable.ofStrings_toList]

end AblAnalysis.Artifact
