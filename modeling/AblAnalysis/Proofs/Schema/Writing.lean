import AblAnalysis.Proofs.Schema.Grammar
import Mathlib.Data.List.Sort

/-!
Descriptions read back. A database is written as its sequences and tables in any order, each table with its
fields in front of its indexes (`Description.write`). What is written describes what was written
(`describes_items`), and a component that names a field in full stands for no field that the name
abbreviates (`lookupField?_of_name_eq`), so reading gives the sequences and tables back.
-/

namespace AblAnalysis

namespace Description

/-! ### Written descriptions -/

/-- The text of a component. -/
def componentText (c : IndexField) : String :=
  (if c.ascending then "A" else "D") ++ c.field

/-- The text of the flags of an index. -/
def flagsText (i : Index) : String :=
  (if i.primary then "P" else "") ++ (if i.unique then "U" else "")

/-- The text of a data type. -/
def typeText (f : Field) : String :=
  (f.dataType.map DataType.name).getD ""

/-- The line of an entry. -/
def lineText : Entry → String
  | .sequence name => "S" ++ name
  | .table name => "T" ++ name
  | .field f => "F" ++ (f.name ++ ":" ++ typeText f ++ ":" ++ toString f.extent.toNat)
  | .index i => "I" ++ ":".intercalate (i.name :: flagsText i :: i.fields.map componentText)

/-- A sequence or a table. -/
inductive Item where
  | sequence (name : String)
  | table (t : Table)

/-- The entries of an item. -/
def Item.entries : Item → List Entry
  | .sequence name => [.sequence name]
  | .table t => .table t.name :: (t.fields.map .field ++ t.indexes.map .index)

/-- The sequence that an item is. -/
def Item.sequence? : Item → Option String
  | .sequence name => some name
  | .table _ => none

/-- The table that an item is. -/
def Item.table? : Item → Option Table
  | .sequence _ => none
  | .table t => some t

/-- The description of items, one line for every entry. -/
def write (items : List Item) : String :=
  String.join (((items.flatMap Item.entries).map lineText).map (· ++ "\n"))

/-- Whether a name can be written at the end of a line. -/
def LineName (name : String) : Prop :=
  Text.Unpadded name ∧ '\n' ∉ name.toList

/-- Whether a name can be written between colons. -/
def PartName (name : String) : Prop :=
  LineName name ∧ ':' ∉ name.toList

instance (name : String) : Decidable (LineName name) :=
  inferInstanceAs (Decidable (Text.Unpadded name ∧ '\n' ∉ name.toList))

instance (name : String) : Decidable (PartName name) :=
  inferInstanceAs (Decidable (LineName name ∧ ':' ∉ name.toList))

/-- Whether a table of a database can be written. -/
structure WritableTable (database : String) (t : Table) : Prop where
  name : LineName t.name
  database : t.database = database
  store : t.store = .database
  fields : ∀ f ∈ t.fields, PartName f.name ∧ f.dataType.isSome = true ∧ f.className = none
  indexes : ∀ i ∈ t.indexes, PartName i.name ∧ i.fields ≠ [] ∧
    ∀ c ∈ i.fields, ∃ f ∈ t.fields, f.name = c.field

/-- Whether an item of a database can be written. -/
def Item.Writable (database : String) : Item → Prop
  | .sequence name => LineName name
  | .table t => WritableTable database t

/-! ### Lines -/

theorem LineName.lineText {name : String} (h : LineName name) : Text.LineText name :=
  h.1.lineText h.2

theorem unpadded_name (t : DataType) : Text.Unpadded t.name ∧ '\n' ∉ t.name.toList := by
  have hall : DataType.all.all (fun t => decide (LineName t.name)) = true := by decide +kernel
  exact of_decide_eq_true (List.all_eq_true.1 hall t t.mem_all)

theorem lineText_typeText (f : Field) : Text.LineText (typeText f) := by
  cases hf : f.dataType with
  | none => simp [typeText, hf, Text.LineText]
  | some t =>
    rw [typeText, hf]
    exact (unpadded_name t).1.lineText (unpadded_name t).2

theorem namesType_typeText {f : Field} {t : DataType} (h : f.dataType = some t) :
    NamesType (typeText f) t := by
  have htext : typeText f = t.name := by rw [typeText, h, Option.map_some, Option.getD_some]
  rw [NamesType, htext, (unpadded_name t).1.trim_eq]
  exact beq_self_eq_true _

theorem lineText_componentText {c : IndexField} (h : LineName c.field) :
    Text.LineText (componentText c) := by
  refine Text.LineText.append ?_ h.lineText
  split <;> decide

theorem unpadded_componentText {c : IndexField} (h : LineName c.field) :
    Text.Unpadded (componentText c) := by
  refine ⟨fun d hd => ?_, (lineText_componentText h).2⟩
  rw [componentText, String.toList_append] at hd
  cases hc : c.ascending <;> simp [hc] at hd <;> subst hd <;> decide

theorem lineText_flagsText (i : Index) : Text.LineText (flagsText i) := by
  rw [flagsText]
  split <;> split <;> decide

/-- Whether the line of an entry stands as it is and says the entry. -/
def Legible (e : Entry) : Prop :=
  Text.LineText (lineText e) ∧ Says (lineText e) e

theorem legible_sequence {name : String} (h : LineName name) : Legible (.sequence name) :=
  ⟨Text.LineText.append (by decide) h.lineText, rfl⟩

theorem legible_table {name : String} (h : LineName name) : Legible (.table name) :=
  ⟨Text.LineText.append (by decide) h.lineText, rfl⟩

theorem legible_field {f : Field} (hname : PartName f.name) (htype : f.dataType.isSome = true)
    (hclass : f.className = none) : Legible (.field f) := by
  obtain ⟨t, ht⟩ := Option.isSome_iff_exists.1 htype
  have hextent := Text.unpadded_toString f.extent.toNat
  have hcolon : Text.LineText ":" := by decide
  refine ⟨Text.LineText.append (by decide) ?_, _, rfl, typeText f, toString f.extent.toNat, t, rfl,
    hname.2, Text.not_mem_toString rfl _, namesType_typeText ht, ?_, ht, hclass⟩
  · exact (((hname.1.lineText.append hcolon).append (lineText_typeText f)).append hcolon).append
      (hextent.lineText (Text.not_mem_toString rfl _))
  · rw [hextent.trim_eq]
    exact Text.isUnsigned_toString _

theorem not_mem_componentText {c : IndexField} (h : ':' ∉ c.field.toList) :
    ':' ∉ (componentText c).toList := by
  cases hc : c.ascending <;> simpa [componentText, hc] using h

theorem not_mem_flagsText (i : Index) : ':' ∉ (flagsText i).toList := by
  rw [flagsText]
  split <;> split <;> decide

theorem unique_iff (i : Index) : i.unique = true ↔ 'U' ∈ (flagsText i).toList := by
  cases hunique : i.unique <;> cases hprimary : i.primary <;> simp [flagsText, hunique, hprimary]

theorem primary_iff (i : Index) : i.primary = true ↔ 'P' ∈ (flagsText i).toList := by
  cases hunique : i.unique <;> cases hprimary : i.primary <;> simp [flagsText, hunique, hprimary]

theorem legible_index {i : Index} (hname : PartName i.name) (hne : i.fields ≠ [])
    (hfields : ∀ c ∈ i.fields, PartName c.field) : Legible (.index i) := by
  have hlines : ∀ part ∈ i.name :: flagsText i :: i.fields.map componentText,
      Text.LineText part ∧ ':' ∉ part.toList := by
    intro part hpart
    rcases List.mem_cons.1 hpart with rfl | hpart
    · exact ⟨hname.1.lineText, hname.2⟩
    rcases List.mem_cons.1 hpart with rfl | hpart
    · exact ⟨lineText_flagsText i, not_mem_flagsText i⟩
    · obtain ⟨c, hc, rfl⟩ := List.mem_map.1 hpart
      exact ⟨lineText_componentText (hfields c hc).1, not_mem_componentText (hfields c hc).2⟩
  refine ⟨Text.LineText.append (by decide) (.intercalate (by decide) fun part hpart =>
    (hlines part hpart).1), _, rfl, i.name, flagsText i, i.fields.map componentText, rfl,
    fun part hpart => (hlines part hpart).2, by simpa using hne, hname.1.1.trim_eq.symm,
    unique_iff i, primary_iff i, List.forall₂_map_left_iff.2 (List.forall₂_same.2 fun c hc => ?_)⟩
  rw [ComponentText, (unpadded_componentText (hfields c hc).1).trim_eq, componentText]

/-! ### Entries -/

theorem Item.Writable.legible {database : String} {item : Item} (h : item.Writable database) :
    ∀ e ∈ item.entries, Legible e := by
  cases item with
  | sequence name =>
    intro e he
    obtain rfl := List.mem_singleton.1 he
    exact legible_sequence h
  | table t =>
    intro e he
    rcases List.mem_cons.1 he with rfl | he
    · exact legible_table h.name
    rcases List.mem_append.1 he with he | he
    · obtain ⟨f, hf, rfl⟩ := List.mem_map.1 he
      obtain ⟨hname, htype, hclass⟩ := h.fields f hf
      exact legible_field hname htype hclass
    · obtain ⟨i, hi, rfl⟩ := List.mem_map.1 he
      obtain ⟨hname, hne, hcomponents⟩ := h.indexes i hi
      refine legible_index hname hne fun c hc => ?_
      obtain ⟨f, hf, hfield⟩ := hcomponents c hc
      exact hfield ▸ (h.fields f hf).1

variable {database : String} {above : List Entry}

theorem Describes.append {lines more : List String} {entries others : List Entry}
    (h : Describes above lines entries) (hmore : Describes (above ++ entries) more others) :
    Describes above (lines ++ more) (entries ++ others) := by
  induction h with
  | nil => rwa [List.append_nil] at hmore
  | blank hline _ ih => exact .blank hline (ih hmore)
  | entry hline hfits _ ih =>
    refine .entry hline hfits (ih ?_)
    rwa [List.append_assoc]

/-- Lines of entries describe them if each fits where an invariant holds and keeps it. -/
theorem describes_of_invariant (P : List Entry → Prop) {entries : List Entry}
    (hlegible : ∀ e ∈ entries, Legible e)
    (hstep : ∀ above, ∀ e ∈ entries, P above → Fits above e ∧ P (above ++ [e])) (h : P above) :
    Describes above (entries.map lineText) entries := by
  induction entries generalizing above with
  | nil => exact .nil
  | cons e rest ih =>
    obtain ⟨hline, hsays⟩ := hlegible e (List.mem_cons_self ..)
    obtain ⟨hfits, hnext⟩ := hstep above e (List.mem_cons_self ..) h
    rw [List.map_cons]
    refine .entry ?_ hfits (ih (fun e he => hlegible e (List.mem_cons_of_mem _ he))
      (fun above e he => hstep above e (List.mem_cons_of_mem _ he)) hnext)
    rwa [hline.trimEnd_eq]

theorem not_underTable_fields (fs : List Field) : ¬ UnderTable (fs.map .field) := by
  simp [UnderTable, Entry.opensTable]

/-- A table that can be written is described by its lines, wherever they stand. -/
theorem WritableTable.describes {t : Table} (h : WritableTable database t) :
    Describes above ((Item.table t).entries.map lineText) (Item.table t).entries := by
  have hlegible : ∀ e ∈ (Item.table t).entries, Legible e := Item.Writable.legible h
  rw [Item.entries, List.forall_mem_cons] at hlegible
  obtain ⟨⟨hline, hsays⟩, hbody⟩ := hlegible
  rw [Item.entries, List.map_cons, List.map_append]
  refine .entry (hline.trimEnd_eq.symm ▸ hsays) trivial (.append ?_ ?_)
  · refine describes_of_invariant UnderTable
      (fun e he => hbody e (List.mem_append_left _ he)) (fun above e he hunder => ?_)
      (underTable_concat.2 (.inr rfl))
    obtain ⟨f, hf, rfl⟩ := List.mem_map.1 he
    exact ⟨hunder, underTable_concat.2 (.inl hunder)⟩
  · refine describes_of_invariant
      (fun above => UnderTable above ∧ ∀ f ∈ t.fields, .field f ∈ openSection above)
      (fun e he => hbody e (List.mem_append_right _ he)) (fun above e he ⟨hunder, hfields⟩ => ?_) ?_
    · obtain ⟨i, hi, rfl⟩ := List.mem_map.1 he
      refine ⟨⟨hunder, fun c hc => ?_⟩, underTable_concat.2 (.inl hunder), fun f hf => ?_⟩
      · obtain ⟨f, hf, hname⟩ := (h.indexes i hi).2.2 c hc
        refine ⟨f, List.mem_filterMap.2 ⟨.field f, hfields f hf, rfl⟩, ?_⟩
        rw [← hname]
        exact Abbreviation.beginsWith_self f.key
      · rw [openSection_concat rfl]
        exact List.mem_append_left _ (hfields f hf)
    · rw [List.append_assoc, List.singleton_append]
      refine ⟨⟨.table t.name, by simp, rfl⟩, fun f hf => ?_⟩
      rw [openSection_eq _ (not_underTable_fields _)]
      exact List.mem_map_of_mem hf

theorem describes_items {items : List Item} (h : ∀ item ∈ items, item.Writable database) :
    Describes above ((items.flatMap Item.entries).map lineText) (items.flatMap Item.entries) := by
  induction items generalizing above with
  | nil => exact .nil
  | cons item rest ih =>
    obtain ⟨hitem, hrest⟩ := List.forall_mem_cons.1 h
    rw [List.flatMap_cons, List.map_append]
    refine .append ?_ (ih hrest)
    cases item with
    | sequence name =>
      have hlegible := legible_sequence hitem
      exact .entry (hlegible.1.trimEnd_eq.symm ▸ hlegible.2) trivial .nil
    | table t => exact WritableTable.describes hitem

/-- What is written describes what was written. -/
theorem describes_write {items : List Item} (h : ∀ item ∈ items, item.Writable database) :
    Describes [] (Text.lines (write items)) (items.flatMap Item.entries) := by
  have hwhole : ∀ line ∈ (items.flatMap Item.entries).map lineText, Text.IsLine line := by
    intro line hline
    obtain ⟨e, he, rfl⟩ := List.mem_map.1 hline
    obtain ⟨item, hitem, he⟩ := List.mem_flatMap.1 he
    exact ((h item hitem).legible e he).1.isLine
  have hlines := Text.lines_join hwhole ""
  rw [String.append_empty, Text.lines_empty, List.append_nil, ← write] at hlines
  rw [hlines]
  exact describes_items h

/-! ### Tables -/

theorem resolve_of_name_eq {t : Table} {c : IndexField} (hc : ∃ f ∈ t.fields, f.name = c.field) :
    t.resolve c = c := by
  obtain ⟨f, hf, hname⟩ := hc
  rw [Table.resolve, ← hname, Table.lookupField?_of_name_eq hf]
  simp [hname]

theorem foldl_indexes {t : Table} {is : List Index}
    (h : ∀ i ∈ is, ∀ c ∈ i.fields, ∃ f ∈ t.fields, f.name = c.field) :
    (is.map Entry.index).foldl addEntry t = { t with indexes := t.indexes ++ is } := by
  induction is generalizing t with
  | nil => simp
  | cons i rest ih =>
    obtain ⟨hi, hrest⟩ := List.forall_mem_cons.1 h
    have hfields : i.fields.map t.resolve = i.fields := by
      conv_rhs => rw [← List.map_id i.fields]
      exact List.map_congr_left fun c hc => resolve_of_name_eq (hi c hc)
    have hadd : addEntry t (.index i) = { t with indexes := t.indexes ++ [i] } := by
      rw [addEntry, Table.addResolved, hfields]
      rfl
    rw [List.map_cons, List.foldl_cons, hadd,
      ih (t := { t with indexes := t.indexes ++ [i] }) hrest]
    simp

/-- The section of a written table declares the table. -/
theorem WritableTable.foldl_eq {t : Table} (h : WritableTable database t) :
    (t.fields.map Entry.field ++ t.indexes.map Entry.index).foldl addEntry
      { name := t.name, database := database } = t := by
  have hdeclare : (t.fields.map Entry.field).foldl addEntry { name := t.name, database := database } =
      ({ name := t.name, database := database } : Table).declare t.fields := List.foldl_map
  have hfields : (({ name := t.name, database := database } : Table).declare t.fields).fields =
      t.fields := Table.fields_declare t.fields_distinct
  obtain ⟨hname, hdatabase, hstore, hindexes⟩ :=
    ({ name := t.name, database := database } : Table).declare_same t.fields
  have hcomponents : ∀ i ∈ t.indexes, ∀ c ∈ i.fields, ∃ f ∈
      (({ name := t.name, database := database } : Table).declare t.fields).fields,
      f.name = c.field := by
    rw [hfields]
    exact fun i hi => (h.indexes i hi).2.2
  rw [List.foldl_append, hdeclare, foldl_indexes hcomponents]
  exact Table.ext_fields hname (hdatabase.trans h.database.symm) (hstore.trans h.store.symm) hfields
    (by rw [hindexes]; rfl)

theorem of_mem_section {t : Table} {e : Entry}
    (h : e ∈ t.fields.map Entry.field ++ t.indexes.map Entry.index) :
    e.opensTable = false ∧ e.sequence? = none := by
  rcases List.mem_append.1 h with h | h
  · obtain ⟨f, -, rfl⟩ := List.mem_map.1 h
    exact ⟨rfl, rfl⟩
  · obtain ⟨i, -, rfl⟩ := List.mem_map.1 h
    exact ⟨rfl, rfl⟩

theorem tablesOf_items {items : List Item} (h : ∀ item ∈ items, item.Writable database) :
    tablesOf database (items.flatMap Item.entries) = items.filterMap Item.table? := by
  induction items using List.reverseRecOn with
  | nil => rfl
  | append_singleton items item ih =>
    obtain ⟨hitems, hitem⟩ := List.forall_mem_append.1 h
    rw [List.flatMap_append, List.flatMap_singleton, List.filterMap_append]
    cases item with
    | sequence name =>
      rw [Item.entries, tablesOf_concat_sequence, ih hitems]
      simp [Item.table?]
    | table t =>
      have hbody : ¬ UnderTable (t.fields.map Entry.field ++ t.indexes.map Entry.index) :=
        fun ⟨e, he, hopens⟩ => absurd hopens (by rw [(of_mem_section he).1]; exact Bool.false_ne_true)
      have ht : WritableTable database t := hitem _ (List.mem_singleton_self _)
      rw [Item.entries, tablesOf_append_table, tablesOf_section hbody, ht.foldl_eq, ih hitems]
      simp [Item.table?]

theorem sequencesOf_items (items : List Item) :
    sequencesOf (items.flatMap Item.entries) = items.filterMap Item.sequence? := by
  induction items with
  | nil => rfl
  | cons item rest ih =>
    rw [sequencesOf] at ih ⊢
    rw [List.flatMap_cons, List.filterMap_append, ih]
    cases item with
    | sequence name => rfl
    | table t =>
      have hbody : (t.fields.map Entry.field ++ t.indexes.map Entry.index).filterMap
          Entry.sequence? = [] :=
        List.filterMap_eq_nil_iff.2 fun e he => (of_mem_section he).2
      rw [Item.entries, List.filterMap_cons, List.filterMap_cons, hbody]
      rfl

end Description

/-! ### Databases -/

namespace Database

open Description

/-- Tables that are given under different names are all gained. -/
theorem Gains.perm {db after : Database} {sequences : List String} {tables : List Table}
    (h : db.Gains sequences tables after)
    (hdistinct : ((db.tables ++ tables).map Table.key).Nodup) :
    after.tables.Perm (db.tables ++ tables) := by
  have hafter : after.tables.Nodup := after.ordered.imp fun hlt heq => by
    rw [heq] at hlt
    exact String.lt_irrefl _ hlt
  refine (List.perm_ext_iff_of_nodup hafter hdistinct.of_map).2 fun t => ⟨h.mem t, fun ht => ?_⟩
  obtain ⟨u, hu⟩ : ∃ u, (db.tables ++ tables).find? (fun u => u.key = t.key) = some u :=
    Option.isSome_iff_exists.1 (List.find?_isSome.2 ⟨t, ht, by simp⟩)
  have hkey : u.key = t.key := by simpa using List.find?_some hu
  obtain rfl := List.inj_on_of_nodup_map hdistinct (List.mem_of_find?_eq_some hu) ht hkey
  exact List.mem_of_find?_eq_some ((h.first u.key).trans hu)

/-- What is written of a database is read back: the sequences in order, and the tables, whatever their
order, by name. -/
theorem readDescription_write (name : String) (items : List Item)
    (hitems : ∀ item ∈ items, item.Writable name)
    (hdistinct : ((items.filterMap Item.table?).map Table.key).Nodup) :
    ∃ (tables : List Table) (hincreasing : tables.Pairwise (fun t u => t.key < u.key)),
      tables.Perm (items.filterMap Item.table?) ∧
      ({ name := name } : Database).readDescription (write items) = (.ok (),
        { name := name, tables := tables, sequences := (items.filterMap Item.sequence?).toArray,
          tables_increasing := hincreasing }) := by
  have hread := readLines_eq_ok { name := name } (describes_write hitems) 1
  rw [List.nil_append, sequencesOf_items, tablesOf_items hitems] at hread
  have hgains := gains_gain { name := name } (items.filterMap Item.sequence?)
    (items.filterMap Item.table?)
  generalize gain { name := name } _ _ = after at hread hgains
  refine ⟨after.tables, after.ordered, by simpa using hgains.perm hdistinct, hread.trans ?_⟩
  obtain ⟨afterName, tables, sequences, hincreasing⟩ := after
  obtain rfl : afterName = name := hgains.name
  have hsequences : sequences.toList = items.filterMap Item.sequence? := hgains.sequences
  simp only [← hsequences, Array.toArray_toList]

/-- Orders by number, from the last one on; one field extends the name of the other. -/
def sampleOrders : Table :=
  (({ name := "Order", database := "Sales" } : Table).declare
    [{ name := "NumLines", dataType := some .integer }, { name := "Num", dataType := some .int64 }]).addIndex
      { name := "By Num", unique := true, fields := [⟨"Num", false⟩] }

/-- Addresses of up to three lines. -/
def sampleAddresses : Table :=
  ({ name := "Address", database := "Sales" } : Table).declare
    [{ name := "Lines", dataType := some .character, extent := 3 }]

theorem writable_sampleOrders : WritableTable "Sales" sampleOrders where
  name := by decide +kernel
  database := by decide +kernel
  store := by decide +kernel
  fields := by decide +kernel
  indexes := by decide +kernel

theorem writable_sampleAddresses : WritableTable "Sales" sampleAddresses where
  name := by decide +kernel
  database := by decide +kernel
  store := by decide +kernel
  fields := by decide +kernel
  indexes := by decide +kernel

theorem increasing_sampleTables :
    [sampleAddresses, sampleOrders].Pairwise (fun t u => t.key < u.key) := by
  decide +kernel

/-- The orders come back behind the addresses, with their index over the shorter name. -/
theorem readDescription_write_sampleOrders :
    ({ name := "Sales" } : Database).readDescription
        (write [.table sampleOrders, .sequence "NextNum", .table sampleAddresses]) =
      (.ok (),
        { name := "Sales", tables := [sampleAddresses, sampleOrders], sequences := #["NextNum"],
          tables_increasing := increasing_sampleTables }) := by
  obtain ⟨tables, hordered, hperm, hread⟩ := readDescription_write "Sales"
    [.table sampleOrders, .sequence "NextNum", .table sampleAddresses]
    (List.forall_mem_cons.2 ⟨writable_sampleOrders, List.forall_mem_cons.2
      ⟨(by decide +kernel : LineName "NextNum"), List.forall_mem_singleton.2 writable_sampleAddresses⟩⟩)
    (by decide +kernel)
  obtain rfl : tables = [sampleAddresses, sampleOrders] :=
    List.Perm.eq_of_pairwise (fun t u _ _ htu hut => absurd (Std.lt_trans htu hut) (String.lt_irrefl _))
      hordered increasing_sampleTables (hperm.trans (List.Perm.swap _ _ _))
  exact hread

end Database

end AblAnalysis
