import AblAnalysis.Proofs.Schema.Grammar
import AblAnalysis.Proofs.Text.Lowering

/-!
The dictionary tables of every database. Their lines describe tables and fields under underscored names
(`exists_dictionary`), so every database accepts them (`Database.addDictionary_eq_ok`) and gains tables of
such names, and a second time they change nothing (`Database.withDictionary_withDictionary`).
-/

namespace AblAnalysis

/-! ### Underscored names -/

namespace Text

/-- Whether a text begins with an underscore. -/
def Underscored (s : String) : Prop :=
  s.toList.head? = some '_'

instance (s : String) : Decidable (Underscored s) :=
  inferInstanceAs (Decidable (s.toList.head? = some '_'))

theorem underscored_lowercase_iff (s : String) : Underscored (lowercase s) ↔ Underscored s :=
  head?_lowercase_eq_iff (by decide) s

/-- A text that is not underscored begins no text that is. -/
theorem not_beginsWith_of_underscored {target s : String} (hne : target ≠ "")
    (htarget : ¬ Underscored target) (hs : Underscored s) : beginsWith target s = false := by
  rw [← Bool.not_eq_true, Abbreviation.beginsWith_iff]
  rintro ⟨rest, heq⟩
  rw [Underscored, ← heq, List.head?_append_of_ne_nil _ (mt String.toList_eq_nil_iff.1 hne)] at hs
  exact htarget hs

end Text

/-! ### Dictionary lines -/

namespace Description

/-- Whether an entry declares a table or field under an underscored name, or an index. -/
def Entry.Underscored : Entry → Prop
  | .sequence _ => False
  | .table name => Text.Underscored name
  | .field f => Text.Underscored f.name
  | .index _ => True

/-- The data types of dictionary fields, as they are spelled. -/
def dictionaryTypes : List (List Char × DataType) := [
  (['c', 'h', 'a', 'r', 'a', 'c', 't', 'e', 'r'], .character),
  (['i', 'n', 't', 'e', 'g', 'e', 'r'], .integer), (['l', 'o', 'g', 'i', 'c', 'a', 'l'], .logical),
  (['r', 'e', 'c', 'i', 'd'], .recid), (['i', 'n', 't', '6', '4'], .int64)]

/-- The fields of the open table after the line of a dictionary table. The fields of an index are named in
full. -/
def fieldsAfter (opened : Option (List (List Char))) : List Char → Option (List (List Char))
  | 'T' :: name => if name.head? = some '_' then some [] else none
  | 'F' :: cs =>
    match cs.splitOnP (· == ':') with
    | [name, type, ['0']] =>
      if name.head? = some '_' ∧ type ∈ dictionaryTypes.map (·.1) then opened.map (name :: ·)
      else none
    | _ => none
  | 'I' :: cs =>
    match cs.splitOnP (· == ':') with
    | _ :: _ :: part :: parts =>
      opened.filter fun fields => (part :: parts).all fun p =>
        match Text.dropBlanksAtEnd (p.dropWhile Text.isBlank) with
        | 'A' :: field => fields.contains field
        | _ => false
    | _ => none
  | _ => none

/-- Whether lines are those of dictionary tables. This runs on the characters of the lines, so that it can
be evaluated. -/
def areDictionary (opened : Option (List (List Char))) : List (List Char) → Bool
  | [] => true
  | line :: rest =>
    match fieldsAfter opened (Text.dropBlanksAtEnd line) with
    | some fields => areDictionary (some fields) rest
    | none => false

/-- Whether fields of the open table are declared above. -/
def DeclaredAbove (above : List Entry) (fields : List (List Char)) : Prop :=
  UnderTable above ∧
    ∀ name ∈ fields, ∃ f, .field f ∈ openSection above ∧ f.name = String.ofList name

theorem namesType_dictionaryTypes : ∀ spelled ∈ dictionaryTypes,
    NamesType (String.ofList spelled.1) spelled.2 := by
  simp only [NamesType]
  decide +kernel

theorem intercalate_of_splitOnP {cs : List Char} {parts : List (List Char)}
    (h : cs.splitOnP (· == ':') = parts) :
    String.ofList cs = ":".intercalate (parts.map String.ofList) ∧
      ∀ part ∈ parts.map String.ofList, ':' ∉ part.toList := by
  have hpieces : Text.pieces ':' (String.ofList cs) = parts.map String.ofList := by
    rw [Text.pieces, String.toList_ofList, h]
  exact (Text.pieces_eq_iff.1 hpieces).2

theorem isUnsigned_zero : Text.IsUnsigned (Text.trim "0") 0 :=
  Text.unsigned?_eq_some_iff.1 (by decide +kernel)

theorem fieldText_of_splitOnP {cs name type : List Char}
    (h : cs.splitOnP (· == ':') = [name, type, ['0']]) {t : DataType}
    (ht : NamesType (String.ofList type) t) :
    FieldText (String.ofList cs) { name := String.ofList name, dataType := some t } := by
  obtain ⟨heq, hcolon⟩ := intercalate_of_splitOnP h
  refine ⟨String.ofList type, "0", t, ?_, hcolon _ (by simp), by decide, ht, isUnsigned_zero,
    rfl, rfl⟩
  rw [heq]
  simp [← String.toList_inj]

theorem componentText_ofList {part field : List Char}
    (h : Text.dropBlanksAtEnd (part.dropWhile Text.isBlank) = 'A' :: field) :
    ComponentText (String.ofList part) ⟨String.ofList field, true⟩ := by
  rw [ComponentText, Text.trim, String.toList_ofList, h]
  exact ofList_cons 'A' field

variable {above : List Entry} {opened : Option (List (List Char))} {fields : List (List Char)}

/-- The components of an index line name fields in full. -/
theorem exists_components {parts : List (List Char)} (habove : DeclaredAbove above fields)
    (h : parts.all (fun p =>
      match Text.dropBlanksAtEnd (p.dropWhile Text.isBlank) with
      | 'A' :: field => fields.contains field
      | _ => false) = true) :
    ∃ cs, List.Forall₂ ComponentText (parts.map String.ofList) cs ∧
      ∀ c ∈ cs, ∃ f ∈ (openSection above).filterMap Entry.field?, f.AbbreviatedBy c.field := by
  induction parts with
  | nil => exact ⟨[], .nil, by simp⟩
  | cons part parts ih =>
    rw [List.all_cons, Bool.and_eq_true] at h
    obtain ⟨cs, hcs, hall⟩ := ih h.2
    have hpart := h.1
    split at hpart
    next field htrim =>
      obtain ⟨f, hf, hname⟩ := habove.2 field (List.contains_iff_mem.1 hpart)
      refine ⟨⟨String.ofList field, true⟩ :: cs, .cons (componentText_ofList htrim) hcs,
        List.forall_mem_cons.2 ⟨⟨f, List.mem_filterMap.2 ⟨_, hf, rfl⟩, ?_⟩, hall⟩⟩
      rw [← hname]
      exact Abbreviation.beginsWith_self f.key
    · cases hpart

/-- Entries of the open section leave its fields declared. -/
theorem DeclaredAbove.concat (h : DeclaredAbove above fields) {e : Entry} (he : e.opensTable = false) :
    DeclaredAbove (above ++ [e]) fields := by
  refine ⟨underTable_concat.2 (.inl h.1), fun field hfield => ?_⟩
  obtain ⟨f, hf, hname⟩ := h.2 field hfield
  rw [openSection_concat he]
  exact ⟨f, List.mem_append_left _ hf, hname⟩

theorem DeclaredAbove.concat_field (h : DeclaredAbove above fields) {name : List Char} {f : Field}
    (hname : f.name = String.ofList name) :
    DeclaredAbove (above ++ [.field f]) (name :: fields) := by
  obtain ⟨hunder, hfields⟩ := h.concat (e := .field f) rfl
  refine ⟨hunder, List.forall_mem_cons.2 ⟨⟨f, ?_, hname⟩, hfields⟩⟩
  rw [openSection_concat rfl]
  exact List.mem_append_right _ (List.mem_singleton_self _)

/-- The line of a dictionary index says an index over fields declared above. -/
theorem exists_index {cs name flags : List Char} {parts : List (List Char)}
    (hsplit : cs.splitOnP (· == ':') = name :: flags :: parts) (hne : parts ≠ [])
    (habove : DeclaredAbove above fields)
    (hall : parts.all (fun p =>
      match Text.dropBlanksAtEnd (p.dropWhile Text.isBlank) with
      | 'A' :: field => fields.contains field
      | _ => false) = true) :
    ∃ i, IndexText (String.ofList cs) i ∧ Fits above (.index i) := by
  obtain ⟨components, hcomponents, hfits⟩ := exists_components habove hall
  obtain ⟨heq, hcolon⟩ := intercalate_of_splitOnP hsplit
  refine ⟨{
    name := Text.trim (String.ofList name)
    unique := Text.hasChar 'U' (String.ofList flags)
    primary := Text.hasChar 'P' (String.ofList flags)
    fields := components }, ?_, habove.1, hfits⟩
  exact ⟨String.ofList name, String.ofList flags, parts.map String.ofList, heq, hcolon, by simpa using hne,
    rfl, Text.hasChar_iff, Text.hasChar_iff, hcomponents⟩

/-- The line of a dictionary table says an entry under an underscored name, which fits. -/
theorem exists_entry {line : List Char} {next : List (List Char)}
    (h : fieldsAfter opened line = some next) (habove : ∀ fields ∈ opened, DeclaredAbove above fields) :
    ∃ e, Says (String.ofList line) e ∧ e.Underscored ∧ Fits above e ∧
      DeclaredAbove (above ++ [e]) next := by
  unfold fieldsAfter at h
  split at h
  next name =>
    split at h
    next hname =>
      cases h
      refine ⟨.table (String.ofList name), ofList_cons 'T' name, ?_, trivial,
        underTable_concat.2 (.inr rfl), by simp⟩
      rwa [Entry.Underscored, Text.Underscored, String.toList_ofList]
    · cases h
  next cs =>
    split at h
    next name typeChars hsplit =>
      split at h
      next hfield =>
        obtain ⟨fields, hopened, rfl⟩ := Option.map_eq_some_iff.1 h
        obtain ⟨spelled, hspelled, rfl⟩ := List.mem_map.1 hfield.2
        have ht := namesType_dictionaryTypes spelled hspelled
        have hfields := habove fields hopened
        refine ⟨.field { name := String.ofList name, dataType := some spelled.2 },
          ⟨_, ofList_cons 'F' cs, fieldText_of_splitOnP hsplit ht⟩, ?_, hfields.1,
          hfields.concat_field rfl⟩
        rw [Entry.Underscored, Text.Underscored, String.toList_ofList]
        exact hfield.1
      · cases h
    · cases h
  next cs =>
    split at h
    next name flags part parts hsplit =>
      obtain ⟨hopened, hall⟩ := Option.filter_eq_some_iff.1 h
      have hfields := habove next hopened
      obtain ⟨i, hindex, hfits⟩ := exists_index hsplit (List.cons_ne_nil _ _) hfields hall
      exact ⟨.index i, ⟨_, ofList_cons 'I' cs, hindex⟩, trivial, hfits, hfields.concat rfl⟩
    · cases h
  · cases h

theorem exists_entries {lines : List (List Char)} (h : areDictionary opened lines = true)
    (habove : ∀ fields ∈ opened, DeclaredAbove above fields) :
    ∃ entries, Describes above (lines.map String.ofList) entries ∧ ∀ e ∈ entries, e.Underscored := by
  induction lines generalizing above opened with
  | nil => exact ⟨[], .nil, by simp⟩
  | cons line rest ih =>
    rw [areDictionary] at h
    split at h
    next next hnext =>
      obtain ⟨e, hsays, hunderscored, hfits, hbelow⟩ := exists_entry hnext habove
      obtain ⟨entries, hentries, hall⟩ := ih h (by simpa using hbelow)
      refine ⟨e :: entries, .entry ?_ hfits hentries, List.forall_mem_cons.2 ⟨hunderscored, hall⟩⟩
      rwa [Text.trimEnd, String.toList_ofList]
    · cases h

/-- The dictionary lines describe tables and fields under underscored names. -/
theorem exists_dictionary : ∃ entries, Describes [] Database.dictionaryLines entries ∧
    ∀ e ∈ entries, e.Underscored := by
  obtain ⟨lines, hlines, hcheck⟩ : ∃ lines,
      List.Forall₂ (fun line cs => line = String.ofList cs) Database.dictionaryLines lines ∧
        areDictionary none lines = true := by
    unfold Database.dictionaryLines
    apply Exists.intro
    apply And.intro
    · repeat' first | exact List.Forall₂.nil | apply List.Forall₂.cons | exact rfl
    · decide +kernel
  have hmap : Database.dictionaryLines = lines.map String.ofList := by
    have hsame := List.forall₂_map_right_iff.2 hlines
    rwa [List.forall₂_eq_eq_eq] at hsame
  rw [hmap]
  exact exists_entries hcheck (by simp)

end Description

/-! ### Dictionary tables -/

/-- Whether a table and all its fields have underscored names. -/
def Table.Underscored (t : Table) : Prop :=
  Text.Underscored t.name ∧ ∀ f ∈ t.fields, Text.Underscored f.name

namespace Description

variable {database : String} {entries : List Entry}

theorem underscored_addEntry {t : Table} {e : Entry} (ht : t.Underscored) (he : e.Underscored) :
    (addEntry t e).Underscored := by
  cases e with
  | field f =>
    refine ⟨?_, fun g hg => ?_⟩
    · rw [addEntry, (t.addField_same f).1]
      exact ht.1
    · rw [addEntry] at hg
      rcases Table.mem_addField hg with rfl | hg
      · exact he
      · exact ht.2 g hg
  | sequence name => exact ht
  | table name => exact ht
  | index i => exact ht

theorem underscored_foldl {t : Table} (ht : t.Underscored) (h : ∀ e ∈ entries, e.Underscored) :
    (entries.foldl addEntry t).Underscored := by
  induction entries generalizing t with
  | nil => exact ht
  | cons e rest ih =>
    obtain ⟨he, hrest⟩ := List.forall_mem_cons.1 h
    exact ih (underscored_addEntry ht he) hrest

theorem underscored_tablesOf (h : ∀ e ∈ entries, e.Underscored) :
    ∀ t ∈ tablesOf database entries, t.Underscored := by
  induction entries with
  | nil => simp [tablesOf]
  | cons e rest ih =>
    obtain ⟨he, hrest⟩ := List.forall_mem_cons.1 h
    cases e with
    | table name =>
      rw [tablesOf, List.forall_mem_cons]
      refine ⟨underscored_foldl ⟨he, by simp⟩ fun e he => ?_, ih hrest⟩
      exact hrest e ((List.takeWhile_sublist _).subset he)
    | sequence name => exact absurd he id
    | field f => exact ih hrest
    | index i => exact ih hrest

theorem sequencesOf_eq_nil (h : ∀ e ∈ entries, e.Underscored) : sequencesOf entries = [] := by
  refine List.filterMap_eq_nil_iff.2 fun e he => ?_
  have hunderscored := h e he
  cases e with
  | sequence name => exact absurd hunderscored id
  | _ => rfl

end Description

namespace Database

open Description

/-- Every database accepts the dictionary, and gains tables of underscored names. -/
theorem exists_addDictionary : ∃ given : String → List Table,
    (∀ name, ∀ t ∈ given name, t.Underscored) ∧
      ∀ db : Database, db.addDictionary = (.ok (), db.gain [] (given db.name)) := by
  obtain ⟨entries, hentries, hunderscored⟩ := exists_dictionary
  refine ⟨fun name => tablesOf name entries, fun name => underscored_tablesOf hunderscored,
    fun db => ?_⟩
  have hstart (lines : List String) :
      readLines ⟨db, none⟩ 1 lines = readLines (Progress.after db []) 1 lines := rfl
  rw [addDictionary, hstart, readLines_eq_ok db hentries 1, List.nil_append, sequencesOf_eq_nil hunderscored]

theorem filter_addTable {p : Table → Bool} {t : Table} (ht : p t = false) (db : Database) :
    (db.addTable t).2.tables.filter p = db.tables.filter p := by
  rcases db.addTable_cases t with ⟨-, hsame⟩ | ⟨-, place, hfree, hpush⟩
  · rw [hsame]
  · have hpush' : (db.addTable t).2.tables = Bisection.insertAt place t db.tables := by
      rw [hpush]
      rfl
    rw [hpush', Bisection.insertAt, List.filter_append, List.filter_cons_of_neg (by simp [ht]),
      ← List.filter_append, List.take_append_drop]

/-- Tables that do not count change nothing that counts. -/
theorem filter_gain {p : Table → Bool} {tables : List Table} (h : ∀ t ∈ tables, p t = false)
    (db : Database) : (db.gain [] tables).tables.filter p = db.tables.filter p := by
  induction tables using List.reverseRecOn with
  | nil => rfl
  | append_singleton tables t ih =>
    obtain ⟨htables, ht⟩ := List.forall_mem_append.1 h
    rw [gain_concat_table, filter_addTable (ht t (List.mem_singleton_self t)), ih htables]

theorem addDictionary_eq_ok (db : Database) : db.addDictionary.1 = .ok () := by
  obtain ⟨given, -, hadd⟩ := exists_addDictionary
  rw [hadd db]

theorem exists_withDictionary : ∃ given : String → List Table,
    (∀ name, ∀ t ∈ given name, t.Underscored) ∧
      ∀ db : Database, db.withDictionary = db.gain [] (given db.name) := by
  obtain ⟨given, hgiven, hadd⟩ := exists_addDictionary
  exact ⟨given, hgiven, fun db => by rw [← snd_addDictionary, hadd db]⟩

theorem filter_withDictionary {p : Table → Bool} (hp : ∀ t : Table, t.Underscored → p t = false)
    (db : Database) : db.withDictionary.tables.filter p = db.tables.filter p := by
  obtain ⟨given, hgiven, hadd⟩ := exists_withDictionary
  rw [hadd db]
  exact filter_gain (fun t ht => hp t (hgiven _ t ht)) db

/-- A database gains no table under a name that is taken. -/
theorem gain_of_taken {db : Database} {tables : List Table}
    (h : ∀ t ∈ tables, ∃ u ∈ db.tables, u.key = t.key) : db.gain [] tables = db := by
  induction tables with
  | nil => rfl
  | cons t rest ih =>
    obtain ⟨⟨u, hu, hkey⟩, hrest⟩ := List.forall_mem_cons.1 h
    have hadd : (db.addTable t).2 = db := by
      rcases db.addTable_cases t with ⟨-, hsame⟩ | ⟨hnew, -⟩
      · rw [hsame]
      · exact absurd hkey (hnew u hu)
    have hgain : db.gain [] (t :: rest) = (db.addTable t).2.gain [] rest := rfl
    rw [hgain, hadd, ih hrest]

theorem gain_gain (db : Database) (tables : List Table) :
    (db.gain [] tables).gain [] tables = db.gain [] tables := by
  refine gain_of_taken fun t ht => ?_
  have hfirst := (db.gains_gain [] tables).first t.key
  have hfound : ((db.tables ++ tables).find? (fun u => u.key = t.key)).isSome = true :=
    List.find?_isSome.2 ⟨t, List.mem_append_right _ ht, by simp⟩
  obtain ⟨u, hu⟩ := Option.isSome_iff_exists.1 (hfirst ▸ hfound)
  exact ⟨u, List.mem_of_find?_eq_some hu, by simpa using List.find?_some hu⟩

theorem withDictionary_withDictionary (db : Database) :
    db.withDictionary.withDictionary = db.withDictionary := by
  obtain ⟨given, -, hadd⟩ := exists_withDictionary
  have hname : (db.gain [] (given db.name)).name = db.name := (db.gains_gain _ _).name
  rw [hadd db, hadd (db.gain [] (given db.name)), hname]
  exact gain_gain db _

theorem gains_withDictionary (db : Database) : ∃ tables, db.Gains [] tables db.withDictionary := by
  obtain ⟨given, -, hadd⟩ := exists_withDictionary
  rw [hadd db]
  exact ⟨_, db.gains_gain [] _⟩

theorem key_withDictionary (db : Database) : db.withDictionary.key = db.key := by
  obtain ⟨tables, hgains⟩ := db.gains_withDictionary
  rw [key, hgains.name, key]

end Database

end AblAnalysis
