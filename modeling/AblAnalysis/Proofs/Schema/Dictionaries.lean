import AblAnalysis.Proofs.Schema.Lookup

/-!
Lookups beside the dictionary tables. No name of a user begins with an underscore, so none of these tables
begins with it: what a name stands for hangs on the tables that begin with it, and sorting keeps them in their
order (`Schema.addDictionaries_transparent`).
-/

namespace AblAnalysis

/-! ### Lookups -/

/-- Whether a name is one of what a user declares: neither empty nor qualified, and not underscored. -/
structure Ordinary (name : String) : Prop where
  notEmpty : name ≠ ""
  dotless : '.' ∉ name.toList
  notUnderscored : ¬ Text.Underscored name

theorem Ordinary.not_beginsWith {name other : String} (h : Ordinary name)
    (hother : Text.Underscored other) :
    Text.beginsWith (Text.lowercase name) (Text.lowercase other) = false :=
  Text.not_beginsWith_of_underscored (mt (Text.lowercase_eq_empty_iff name).1 h.notEmpty)
    (mt (Text.underscored_lowercase_iff name).1 h.notUnderscored)
    ((Text.underscored_lowercase_iff other).2 hother)

/-- An ordinary name finds no field of a dictionary table. -/
theorem Table.Underscored.lookupField?_eq_none {t : Table} {name : String} (ht : t.Underscored)
    (hname : Ordinary name) : t.lookupField? name = none := by
  rw [← Option.not_isSome_iff_eq_none, isSome_lookupField?_iff]
  rintro ⟨f, hf, habbreviated⟩
  rw [Field.AbbreviatedBy, Field.key, hname.not_beginsWith (ht.2 f hf)] at habbreviated
  cases habbreviated

theorem Database.lookupTable?_withDictionary (db : Database) {name : String} (hname : Ordinary name) :
    db.withDictionary.lookupTable? name = db.lookupTable? name :=
  Abbreviation.uniqueMatch?_eq_of_filter_eq name db.withDictionary.tables_sorted db.tables_sorted
    (db.filter_withDictionary fun _ ht => hname.not_beginsWith ht.1)

namespace Schema

theorem addDictionaries_addDictionaries (s : Schema) :
    s.addDictionaries.2.addDictionaries.2 = s.addDictionaries.2 := by
  have htwice : (s.databases.map Database.withDictionary).map Database.withDictionary =
      s.databases.map Database.withDictionary := by
    have hcomp : Database.withDictionary ∘ Database.withDictionary = Database.withDictionary :=
      funext fun db => by rw [Function.comp_apply, db.withDictionary_withDictionary]
    rw [List.map_map, hcomp]
  rw [addDictionaries_eq, addDictionaries_eq]
  simp only [relist, htwice]

variable {s : Schema}

theorem InStep.filter_allTables_addDictionaries (hs : s.InStep) {p : Table → Bool}
    (hp : ∀ t : Table, t.Underscored → p t = false) :
    s.addDictionaries.2.allTables.filter p = s.allTables.filter p := by
  have htables : s.addDictionaries.2.databases.flatMap (fun db => db.tables.filter p) =
      s.databases.flatMap (fun db => db.tables.filter p) := by
    rw [databases_addDictionaries_eq, List.flatMap_map]
    exact List.flatMap_congr fun db _ => db.filter_withDictionary hp
  rw [hs.addDictionaries.listed, hs.listed, filter_mergeSort tableLe_trans tableLe_total,
    filter_mergeSort tableLe_trans tableLe_total, List.filter_flatMap, List.filter_flatMap, htables]

theorem InStep.registered?_addDictionaries (hs : s.InStep) (name : String) :
    s.addDictionaries.2.registered? name = (s.registered? name).map Database.withDictionary := by
  rw [hs.addDictionaries.registered?_eq, hs.registered?_eq, databases_addDictionaries_eq,
    find?_map Database.key_withDictionary]

theorem InStep.lookupDatabase?_addDictionaries (hs : s.InStep) (name : String) :
    s.addDictionaries.2.lookupDatabase? name =
      (s.lookupDatabase? name).map Database.withDictionary := by
  rw [lookupDatabase?, lookupDatabase?, hs.registered?_addDictionaries]
  cases s.registered? name with
  | some db => rfl
  | none =>
    rw [Option.map_none]
    dsimp only
    cases halias : s.aliases.get? (Text.lowercase name) with
    | none => rw [aliases_addDictionaries, halias, Option.bind_none, Option.bind_none, Option.map_none]
    | some real =>
      rw [aliases_addDictionaries, halias, Option.bind_some, Option.bind_some,
        hs.registered?_addDictionaries]

theorem InStep.lookupTableIn?_addDictionaries (hs : s.InStep) (database : String) {name : String}
    (hname : Ordinary name) :
    s.addDictionaries.2.lookupTableIn? database name = s.lookupTableIn? database name := by
  rw [lookupTableIn?, lookupTableIn?, hs.lookupDatabase?_addDictionaries]
  cases s.lookupDatabase? database with
  | none => rfl
  | some db =>
    rw [Option.map_some, Option.bind_some, Option.bind_some, db.lookupTable?_withDictionary hname]

theorem findSome?_filter_isSome {α β : Type} (f : α → Option β) (l : List α) :
    (l.filter (fun a => (f a).isSome)).findSome? f = l.findSome? f := by
  induction l with
  | nil => rfl
  | cons a l ih => cases ha : f a <;> simp [ha, ih]

theorem InStep.lookupAnyField?_addDictionaries (hs : s.InStep) {name : String}
    (hname : Ordinary name) : s.addDictionaries.2.lookupAnyField? name = s.lookupAnyField? name := by
  rw [lookupAnyField?, ← findSome?_filter_isSome, hs.filter_allTables_addDictionaries,
    findSome?_filter_isSome, ← lookupAnyField?]
  intro t ht
  rw [ht.lookupField?_eq_none hname]
  rfl

/-- An unqualified name stands for what it stood for. -/
theorem InStep.lookupTable?_addDictionaries (hs : s.InStep) {name : String} (hname : Ordinary name) :
    s.addDictionaries.2.lookupTable? name = s.lookupTable? name := by
  rw [lookupTable?, lookupTable?, Text.cutFirst_eq_none hname.dotless]
  refine Abbreviation.uniqueMatch?_eq_of_filter_eq name hs.addDictionaries.allTables_sorted
    hs.allTables_sorted ?_
  exact hs.filter_allTables_addDictionaries
    (p := fun t => Text.beginsWith (Text.lowercase name) t.key)
    (fun t ht => hname.not_beginsWith ht.1)

theorem lookupTable?_qualified (s : Schema) {database name : String} (hdatabase : '.' ∉ database.toList)
    (hname : '.' ∉ name.toList) :
    s.lookupTable? (database ++ "." ++ name) = s.lookupTableIn? database name := by
  have hcut : Text.cutFirst '.' (database ++ "." ++ name) = some (database, name) :=
    Text.cutFirst_eq_some_iff.2 ⟨by simp, hdatabase⟩
  have hbefore : Text.beforeFirst '.' name = name := by
    have htake : name.toList.takeWhile (· != '.') = name.toList :=
      List.takeWhile_eq_self_iff.2 fun c hc => bne_iff_ne.2 fun heq => hname (heq ▸ hc)
    rw [Text.beforeFirst, htake, String.ofList_toList]
  rw [lookupTable?, hcut]
  dsimp only
  rw [hbefore]

/-- Whether a database has kept what another has. -/
def Keeps (after db : Database) : Prop :=
  after.name = db.name ∧ after.sequences = db.sequences ∧ db.tables.Sublist after.tables

theorem keeps_withDictionary (db : Database) : Keeps db.withDictionary db := by
  obtain ⟨tables, hgains⟩ := db.gains_withDictionary
  have hsequences := hgains.sequences.trans (List.append_nil db.sequences.toList)
  exact ⟨hgains.name, Array.toList_inj.1 hsequences, hgains.kept⟩

theorem forall₂_addDictionaries (s : Schema) :
    List.Forall₂ Keeps s.addDictionaries.2.databases s.databases := by
  rw [databases_addDictionaries_eq]
  exact List.forall₂_map_left_iff.2 (List.forall₂_same.2 fun db _ => keeps_withDictionary db)

theorem InStep.mem_allTables_addDictionaries (hs : s.InStep) {t : Table} (ht : t ∈ s.allTables) :
    t ∈ s.addDictionaries.2.allTables := by
  rw [hs.allTables_perm.mem_iff, List.mem_flatMap] at ht
  obtain ⟨db, hdb, ht⟩ := ht
  rw [hs.addDictionaries.allTables_perm.mem_iff, databases_addDictionaries_eq, List.mem_flatMap]
  exact ⟨db.withDictionary, List.mem_map_of_mem hdb, (keeps_withDictionary db).2.2.subset ht⟩

/-- Adding the dictionary tables succeeds, for every database, and doing so twice is doing so once. All
tables that were there stay as they were, and what a user's name stands for, as a table or a field,
qualified or not, is what it stood for. -/
theorem addDictionaries_transparent {s : Schema} (hs : s.Built) :
    s.addDictionaries.1 = .ok () ∧
    (∀ db ∈ s.databases, db.addDictionary.1 = .ok ()) ∧
    s.addDictionaries.2.addDictionaries.2 = s.addDictionaries.2 ∧
    List.Forall₂ Keeps s.addDictionaries.2.databases s.databases ∧
    (∀ t ∈ s.allTables, t ∈ s.addDictionaries.2.allTables) ∧
    ∀ name, Ordinary name →
      s.addDictionaries.2.lookupTable? name = s.lookupTable? name ∧
      (∀ database, '.' ∉ database.toList → s.addDictionaries.2.lookupTable? (database ++ "." ++ name) =
        s.lookupTable? (database ++ "." ++ name)) ∧
      s.addDictionaries.2.lookupAnyField? name = s.lookupAnyField? name ∧
      ∀ database field,
        s.addDictionaries.2.lookupField? database name field = s.lookupField? database name field := by
  refine ⟨by rw [addDictionaries_eq], fun db _ => db.addDictionary_eq_ok,
    s.addDictionaries_addDictionaries, s.forall₂_addDictionaries,
    fun t => hs.inStep.mem_allTables_addDictionaries, fun name hname => ?_⟩
  have hwithin (database : String) := hs.inStep.lookupTableIn?_addDictionaries database hname
  refine ⟨hs.inStep.lookupTable?_addDictionaries hname, fun database hdatabase => ?_,
    hs.inStep.lookupAnyField?_addDictionaries hname, fun database field => ?_⟩
  · rw [lookupTable?_qualified _ hdatabase hname.dotless, hwithin,
      lookupTable?_qualified _ hdatabase hname.dotless]
  · rw [lookupField?, hwithin, lookupField?]

/-- Customers and their names. -/
def sampleShoppers : Table :=
  (({ name := "Customer", database := "Shop" } : Table).addField { name := "Name" }).2

/-- A schema of one database with one table. -/
def sampleShop : Schema :=
  ({} : Schema).addDatabase (({ name := "Shop" } : Database).addTable sampleShoppers).2

/-- Customers are still found by an abbreviation, with and without their database. -/
theorem addDictionaries_sampleShop :
    sampleShop.addDictionaries.2.lookupTable? "cust" = sampleShop.lookupTable? "cust" ∧
    sampleShop.addDictionaries.2.lookupTable? ("shop" ++ "." ++ "cust") = some sampleShoppers := by
  have hs : sampleShop.Built := .addDatabase .empty (.addTable (.new "Shop") _)
  obtain ⟨-, -, -, -, -, hlookups⟩ := addDictionaries_transparent hs
  have hname : Ordinary "cust" := ⟨by decide, by decide +kernel, by decide +kernel⟩
  obtain ⟨htable, hqualified, -, -⟩ := hlookups "cust" hname
  refine ⟨htable, (hqualified "shop" (by decide +kernel)).trans ?_⟩
  rw [lookupTable?_qualified _ (by decide +kernel) hname.dotless]
  decide +kernel

end Schema

end AblAnalysis
