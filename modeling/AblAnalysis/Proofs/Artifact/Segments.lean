import AblAnalysis.Artifact.Decode
import AblAnalysis.Proofs.Artifact.Items
import AblAnalysis.Proofs.SortedMap

/-!
The segments of an artifact in front of the tree. Each reader, given what its writer wrote and then
anything else, gives the written values back and stops right after them. That needs of the values only
that none of them is taken for the mark that ends its list.
-/

namespace AblAnalysis.Artifact

variable (rest : List UInt8) (fault : Option IoFailure)

/-! ### Files -/

/-- What knows nothing yet gets the files of the artifact. -/
theorem readFiles_empty (s : Stream) : readFiles {} s =
    match s.int32 with
    | (.error e, _) => ({}, .error (.unreadable e))
    | (.ok version, s₁) =>
      if version = layoutVersion then
        ({ fileNames := (decodeFiles s₁).1 }, (decodeFiles s₁).2.mapError .unreadable)
      else ({}, .error (.versionMismatch version)) := rfl

theorem decodeFiles_eq (s : Stream) : decodeFiles s =
    match s.int32 with
    | (.error e, _) => ([], .error e)
    | (.ok index, s₁) =>
      match s₁.text with
      | (.error e, _) => ([], .error e)
      | (.ok name, s₂) =>
        if index = endMark then ([], .ok s₂)
        else (name :: (decodeFiles s₂).1, (decodeFiles s₂).2) := by
  rw [decodeFiles]
  split
  · rename_i h
    simp only [h]
  · rename_i h
    simp only [h]
    split <;> rename_i h <;> simp only [h]

theorem ofNat_ne_endMark {index : Nat} (h : index < 2 ^ 31) : Int32.ofNat index ≠ endMark := by
  intro heq
  have hint := congrArg Int32.toInt heq
  rw [Int32.toInt_ofNat_of_lt h] at hint
  have hend : endMark.toInt = -1 := by decide
  omega

theorem decodeFiles_encodeFiles {index : Nat} {names : List String} {bytes : List UInt8}
    (h : encodeFiles index names = .ok bytes) (hlt : index + names.length ≤ 2 ^ 31) :
    decodeFiles ⟨bytes ++ rest, fault⟩ = (names, .ok ⟨rest, fault⟩) := by
  induction names generalizing index bytes with
  | nil =>
    obtain ⟨empty, he, h⟩ := bind_eq_ok_iff.1 h
    obtain rfl := Except.ok.inj h
    rw [decodeFiles_eq, List.append_assoc]
    simp [Stream.int32_append, Stream.text_append rest fault he]
  | cons name names ih =>
    rw [List.length_cons] at hlt
    obtain ⟨text, ht, h⟩ := bind_eq_ok_iff.1 h
    obtain ⟨more, hm, h⟩ := bind_eq_ok_iff.1 h
    obtain rfl := Except.ok.inj h
    rw [decodeFiles_eq, List.append_assoc, List.append_assoc]
    simp [Stream.int32_append, Stream.text_append _ fault ht,
      ofNat_ne_endMark (show index < 2 ^ 31 by omega), ih hm (by omega)]

theorem exists_encodeFiles {names : List String} (h : ∀ name ∈ names, Fits name) (index : Nat) :
    ∃ bytes, encodeFiles index names = .ok bytes := by
  induction names generalizing index with
  | nil =>
    obtain ⟨empty, he⟩ := exists_textBytes fits_empty
    exact ⟨_, bind_eq_ok_iff.2 ⟨empty, he, rfl⟩⟩
  | cons name names ih =>
    obtain ⟨text, ht⟩ := exists_textBytes (h name (List.mem_cons_self ..))
    obtain ⟨more, hm⟩ := ih (fun n hn => h n (List.mem_cons_of_mem _ hn)) (index + 1)
    exact ⟨_, bind_eq_ok_iff.2 ⟨text, ht, bind_eq_ok_iff.2 ⟨more, hm, rfl⟩⟩⟩

/-! ### Tables -/

theorem decodeFields_eq (s : Stream) (fields : SortedMap String String) : decodeFields s fields =
    match s.text with
    | (.error e, _) => .error e
    | (.ok name, rest) =>
      if name = "" then .ok (fields, rest)
      else decodeFields rest (fields.insert (Text.lowercase name) name) := by
  rw [decodeFields]
  split <;> rename_i h <;> simp only [h]

theorem decodeFields_encodeNames {names : List String} {bytes : List UInt8}
    (h : encodeNames names = .ok bytes) (hne : ∀ name ∈ names, name ≠ "")
    (fields : SortedMap String String) :
    decodeFields ⟨bytes ++ rest, fault⟩ fields =
      .ok (fields.insertAll (names.map (fun n => (Text.lowercase n, n))), ⟨rest, fault⟩) := by
  induction names generalizing bytes fields with
  | nil =>
    rw [decodeFields_eq]
    simp [Stream.text_append rest fault h, SortedMap.insertAll]
  | cons name names ih =>
    obtain ⟨text, ht, h⟩ := bind_eq_ok_iff.1 h
    obtain ⟨more, hm, h⟩ := bind_eq_ok_iff.1 h
    obtain rfl := Except.ok.inj h
    rw [decodeFields_eq, List.append_assoc]
    simp only [Stream.text_append _ fault ht, if_neg (hne name (List.mem_cons_self ..))]
    exact ih hm (fun n hn => hne n (List.mem_cons_of_mem _ hn)) _

theorem exists_encodeNames {names : List String} (h : ∀ name ∈ names, Fits name) :
    ∃ bytes, encodeNames names = .ok bytes := by
  induction names with
  | nil => exact exists_textBytes fits_empty
  | cons name names ih =>
    obtain ⟨text, ht⟩ := exists_textBytes (h name (List.mem_cons_self ..))
    obtain ⟨more, hm⟩ := ih (fun n hn => h n (List.mem_cons_of_mem _ hn))
    exact ⟨_, bind_eq_ok_iff.2 ⟨text, ht, bind_eq_ok_iff.2 ⟨more, hm, rfl⟩⟩⟩

theorem decodeTables_eq (s : Stream) (tables : Footprint) : decodeTables s tables =
    match s.text with
    | (.error e, _) => (tables, .error e)
    | (.ok name, rest) =>
      if name = "" then (tables, .ok rest)
      else
        match decodeFields rest {} with
        | .error e => (tables, .error e)
        | .ok (fields, rest') =>
          decodeTables rest' (tables.insert (Text.lowercase name) { name, fields }) := by
  rw [decodeTables]
  split
  · rename_i h
    simp only [h]
  · rename_i h
    simp only [h]
    split
    · rfl
    · split <;> rename_i h <;> simp only [h]

/-- Whether every field stands under the lower-case form of its name. -/
def TableUse.Keyed (u : TableUse) : Prop :=
  ∀ e ∈ u.fields.entries, e.1 = Text.lowercase e.2

/-- Whether no name is taken for the empty one that ends a list of names. -/
def TableUse.Named (u : TableUse) : Prop :=
  u.name ≠ "" ∧ ∀ field ∈ u.fields.values, field ≠ ""

/-- Whether a table can be written and read back. -/
structure TableUse.Legible (u : TableUse) : Prop where
  keyed : u.Keyed
  named : u.Named
  texts : ∀ text ∈ u.name :: u.fields.values, Fits text

/-- Whether all tables can be written and read back, and stand under the lower-case forms of their
names. -/
def Footprint.Legible (f : Footprint) : Prop :=
  ∀ e ∈ f.entries, e.1 = Text.lowercase e.2.name ∧ e.2.Legible

theorem Footprint.Legible.of_mem_values {f : Footprint} (h : f.Legible) {u : TableUse}
    (hu : u ∈ f.values) : u.Legible := by
  obtain ⟨e, he, rfl⟩ := List.mem_map.1 hu
  exact (h e he).2

theorem Footprint.Legible.insertAll_values {f : Footprint} (h : f.Legible) :
    ({} : Footprint).insertAll (f.values.map fun u => (Text.lowercase u.name, u)) = f := by
  have hentries : f.values.map (fun u => (Text.lowercase u.name, u)) = f.entries := by
    rw [SortedMap.values, List.map_map]
    refine (List.map_congr_left fun e he => ?_).trans (List.map_id _)
    exact Prod.ext (h e he).1.symm rfl
  rw [hentries, SortedMap.insertAll_entries]

theorem TableUse.Keyed.insertAll_fields {u : TableUse} (h : u.Keyed) :
    ({} : SortedMap String String).insertAll
      (u.fields.values.map (fun n => (Text.lowercase n, n))) = u.fields := by
  have hentries : u.fields.values.map (fun n => (Text.lowercase n, n)) = u.fields.entries := by
    have hid : ∀ e ∈ u.fields.entries, (Text.lowercase e.2, e.2) = id e :=
      fun e he => Prod.ext (h e he).symm rfl
    rw [SortedMap.values, List.map_map]
    exact (List.map_congr_left hid).trans (List.map_id _)
  rw [hentries, SortedMap.insertAll_entries]

theorem decodeTables_encodeTables {uses : List TableUse} {bytes : List UInt8}
    (h : encodeTables uses = .ok bytes) (hkeyed : ∀ u ∈ uses, u.Keyed)
    (hnamed : ∀ u ∈ uses, u.Named) (tables : Footprint) :
    decodeTables ⟨bytes ++ rest, fault⟩ tables =
      (tables.insertAll (uses.map (fun u => (Text.lowercase u.name, u))), .ok ⟨rest, fault⟩) := by
  induction uses generalizing bytes tables with
  | nil =>
    rw [decodeTables_eq]
    simp [Stream.text_append rest fault h, SortedMap.insertAll]
  | cons u uses ih =>
    obtain ⟨hname, hfields⟩ := hnamed u (List.mem_cons_self ..)
    obtain ⟨names, hn, h⟩ := bind_eq_ok_iff.1 h
    obtain ⟨more, hm, h⟩ := bind_eq_ok_iff.1 h
    obtain rfl := Except.ok.inj h
    obtain ⟨text, ht, hn⟩ := bind_eq_ok_iff.1 hn
    obtain ⟨fields, hf, hn⟩ := bind_eq_ok_iff.1 hn
    obtain rfl := Except.ok.inj hn
    rw [decodeTables_eq, List.append_assoc, List.append_assoc]
    simp only [Stream.text_append _ fault ht, if_neg hname,
      decodeFields_encodeNames _ fault hf hfields,
      (hkeyed u (List.mem_cons_self ..)).insertAll_fields]
    exact ih hm (fun v hv => hkeyed v (List.mem_cons_of_mem _ hv))
      (fun v hv => hnamed v (List.mem_cons_of_mem _ hv)) _

theorem exists_encodeTables {uses : List TableUse}
    (h : ∀ u ∈ uses, ∀ text ∈ u.name :: u.fields.values, Fits text) :
    ∃ bytes, encodeTables uses = .ok bytes := by
  induction uses with
  | nil => exact exists_textBytes fits_empty
  | cons u uses ih =>
    obtain ⟨names, hn⟩ := exists_encodeNames (h u (List.mem_cons_self ..))
    obtain ⟨more, hm⟩ := ih (fun v hv => h v (List.mem_cons_of_mem _ hv))
    exact ⟨_, bind_eq_ok_iff.2 ⟨names, hn, bind_eq_ok_iff.2 ⟨more, hm, rfl⟩⟩⟩

/-! ### Symbols -/

theorem decodeSymbols_eq (s : Stream) : decodeSymbols s =
    match s.int32 with
    | (.error e, _) => .error e
    | (.ok kind, s₁) =>
      match s₁.text with
      | (.error e, _) => .error e
      | (.ok name, s₂) =>
        if kind = endMark then .ok ([], s₂)
        else
          match s₂.int32 with
          | (.error e, _) => .error e
          | (.ok code, s₃) =>
            match decodeDataType code with
            | .error e => .error e
            | .ok dataType =>
              match decodeClassName s₃ dataType with
              | .error e => .error e
              | .ok (className, s₄) =>
                match decodeSymbols s₄ with
                | .error e => .error e
                | .ok (symbols, rest) => .ok (⟨kind, name, dataType, className⟩ :: symbols, rest) := by
  rw [decodeSymbols]
  split
  · rename_i h
    simp only [h]
  rename_i h
  simp only [h]
  split
  · rename_i h
    simp only [h]
  rename_i h
  simp only [h]
  split
  · rfl
  split
  · rename_i h
    simp only [h]
  rename_i code s₃ h
  simp only [h]
  cases decodeDataType code with
  | error e => rfl
  | ok dataType =>
    dsimp only
    split
    · rename_i h
      simp only [h]
    · rename_i className s₄ h
      cases hrest : decodeSymbols s₄ <;> simp only [h, hrest]

theorem decodeDataType_typeCode (dataType : Option DataType) :
    decodeDataType (typeCode dataType) = .ok dataType := by
  cases dataType with
  | none => rfl
  | some d => cases d <;> rfl

/-- A symbol as an artifact keeps it: with a class name if it is of a class type, and only then. -/
def keptSymbol (s : Symbol) : Symbol :=
  { s with className := if s.dataType = some .class_ then some (s.className.getD "") else none }

theorem decodeClassName_encodeClassName {s : Symbol} {bytes : List UInt8}
    (h : encodeClassName s = .ok bytes) :
    decodeClassName ⟨bytes ++ rest, fault⟩ s.dataType =
      .ok ((keptSymbol s).className, ⟨rest, fault⟩) := by
  rw [encodeClassName] at h
  rw [decodeClassName, keptSymbol]
  by_cases hd : s.dataType = some .class_
  · rw [if_pos hd] at h
    simp [Stream.text_append rest fault h, hd]
  · rw [if_neg hd] at h
    obtain rfl := Except.ok.inj h
    simp [hd]

theorem decodeSymbols_cons {s : Symbol} {symbols : List Symbol} {stream : Stream}
    {text : List UInt8} (ht : encodeSymbol s = .ok text) (hk : s.kind ≠ endMark)
    (h : decodeSymbols ⟨rest, fault⟩ = .ok (symbols, stream)) :
    decodeSymbols ⟨text ++ rest, fault⟩ = .ok (keptSymbol s :: symbols, stream) := by
  obtain ⟨name, hn, ht⟩ := bind_eq_ok_iff.1 ht
  obtain ⟨suffix, hs, ht⟩ := bind_eq_ok_iff.1 ht
  obtain rfl := Except.ok.inj ht
  rw [decodeSymbols_eq]
  simp only [List.append_assoc, Stream.int32_append, Stream.text_append _ fault hn, if_neg hk,
    decodeDataType_typeCode, decodeClassName_encodeClassName rest fault hs, h]
  rfl

theorem decodeSymbols_encodeSymbols {symbols : List Symbol} {bytes : List UInt8}
    (h : encodeSymbols symbols = .ok bytes) (hk : ∀ s ∈ symbols, s.kind ≠ endMark) :
    decodeSymbols ⟨bytes ++ rest, fault⟩ = .ok (symbols.map keptSymbol, ⟨rest, fault⟩) := by
  induction symbols generalizing bytes with
  | nil =>
    obtain ⟨empty, he, h⟩ := bind_eq_ok_iff.1 h
    obtain rfl := Except.ok.inj h
    rw [decodeSymbols_eq, List.append_assoc]
    simp [Stream.int32_append, Stream.text_append rest fault he]
  | cons s symbols ih =>
    obtain ⟨text, ht, h⟩ := bind_eq_ok_iff.1 h
    obtain ⟨more, hm, h⟩ := bind_eq_ok_iff.1 h
    obtain rfl := Except.ok.inj h
    rw [List.append_assoc]
    exact decodeSymbols_cons _ fault ht (hk s (List.mem_cons_self ..))
      (ih hm (fun t hs => hk t (List.mem_cons_of_mem _ hs)))

/-- The texts that are stored for a symbol. -/
def symbolTexts (s : Symbol) : List String :=
  s.name :: if s.dataType = some .class_ then [s.className.getD ""] else []

theorem exists_encodeSymbol {s : Symbol} (h : ∀ text ∈ symbolTexts s, Fits text) :
    ∃ bytes, encodeSymbol s = .ok bytes := by
  obtain ⟨name, hn⟩ := exists_textBytes (h s.name (List.mem_cons_self ..))
  have hsuffix : ∃ suffix, encodeClassName s = .ok suffix := by
    rw [encodeClassName]
    by_cases hd : s.dataType = some .class_
    · rw [if_pos hd]
      exact exists_textBytes (h _ (by simp [symbolTexts, hd]))
    · exact ⟨[], if_neg hd⟩
  obtain ⟨suffix, hs⟩ := hsuffix
  exact ⟨_, bind_eq_ok_iff.2 ⟨name, hn, bind_eq_ok_iff.2 ⟨suffix, hs, rfl⟩⟩⟩

theorem exists_encodeSymbols {symbols : List Symbol}
    (h : ∀ s ∈ symbols, ∀ text ∈ symbolTexts s, Fits text) :
    ∃ bytes, encodeSymbols symbols = .ok bytes := by
  induction symbols with
  | nil =>
    obtain ⟨empty, he⟩ := exists_textBytes fits_empty
    exact ⟨_, bind_eq_ok_iff.2 ⟨empty, he, rfl⟩⟩
  | cons s symbols ih =>
    obtain ⟨text, ht⟩ := exists_encodeSymbol (h s (List.mem_cons_self ..))
    obtain ⟨more, hm⟩ := ih (fun t hs => h t (List.mem_cons_of_mem _ hs))
    exact ⟨_, bind_eq_ok_iff.2 ⟨text, ht, bind_eq_ok_iff.2 ⟨more, hm, rfl⟩⟩⟩

end AblAnalysis.Artifact
