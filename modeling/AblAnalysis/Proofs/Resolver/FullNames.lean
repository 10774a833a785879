import AblAnalysis.Proofs.Resolver.Scopes
import AblAnalysis.Proofs.Schema.Lookup
import AblAnalysis.Proofs.Text.Lowering

/-!
Schema tables against the declarations of a unit. The resolver looks the lower-case form of a name up
and takes the schema's spelling of a table for the full name if both are equally long. So a full name
wins over every declaration just when lower-casing the table's name keeps its length, and an abbreviation
gives way to them just when it is not as long as the name it abbreviates (`wins_iff`).
-/

namespace AblAnalysis

/-! ### Lower-case forms in the schema -/

namespace Text

theorem afterLast_of_not_mem {c : Char} {s : String} (h : c ∉ s.toList) : afterLast c s = s := by
  rw [afterLast, cutLast_eq_none h]

theorem mem_of_cutFirst {c d : Char} {s : String} {parts : String × String}
    (h : cutFirst c s = some parts) (hd : d ∈ parts.2.toList) : d ∈ s.toList := by
  rw [cutFirst] at h
  split at h
  · exact absurd h (by simp)
  · rename_i stop rest heq
    obtain rfl := Option.some.inj h
    refine (List.dropWhile_sublist (· != c)).subset ?_
    rw [heq]
    exact List.mem_cons_of_mem _ (by simpa using hd)

end Text

theorem Database.lookupTable?_lowercase (db : Database) (name : String) :
    db.lookupTable? (Text.lowercase name) = db.lookupTable? name := by
  simp [lookupTable?, Abbreviation.uniqueMatch?]

namespace Schema

variable (s : Schema)

theorem lookupTableIn?_lowercase (database table : String) :
    s.lookupTableIn? (Text.lowercase database) (Text.lowercase table) =
      s.lookupTableIn? database table := by
  simp [lookupTableIn?, lookupDatabase?, registered?, Database.lookupTable?_lowercase]

/-- A name and its lower-case form stand for the same table, but for a sigma that looks past a dot. -/
theorem lookupTable?_lowercase {name : String} (h : '.' ∉ name.toList ∨ '\u03A3' ∉ name.toList) :
    s.lookupTable? (Text.lowercase name) = s.lookupTable? name := by
  by_cases hdot : '.' ∈ name.toList
  · have hsigma := h.resolve_left (not_not.2 hdot)
    rw [lookupTable?, Text.cutFirst_lowercase hsigma, lookupTable?]
    cases hcut : Text.cutFirst '.' name with
    | none => simp [Abbreviation.uniqueMatch?]
    | some parts =>
      have hrest : '\u03A3' ∉ parts.2.toList := fun hmem => hsigma (Text.mem_of_cutFirst hcut hmem)
      simp only [Option.map_some]
      rw [Text.beforeFirst_lowercase hrest, lookupTableIn?_lowercase]
  · have hlower : '.' ∉ (Text.lowercase name).toList := by simpa using hdot
    rw [lookupTable?, lookupTable?, Text.cutFirst_eq_none hdot, Text.cutFirst_eq_none hlower]
    simp [Abbreviation.uniqueMatch?]

end Schema

namespace Resolver

variable {r : Resolver} {name : String}

/-! ### What a name stands for -/

/-- What a name that nothing declares stands for. -/
def undeclared? (schema : Schema) (name : String) : Option StoreKind :=
  if (schema.lookupTable? (Text.lowercase name)).isSome then some .database
  else if Text.lowercase name = procTextBuffer then some .temporary
  else none

theorem tableKind?_of_full (h : r.isFullSchemaName (Text.lowercase name) = true) :
    r.tableKind? name .schemaFirst = some .database := by
  simp [tableKind?, h]

theorem tableKind?_of_not_full (h : r.isFullSchemaName (Text.lowercase name) = false) :
    r.tableKind? name .schemaFirst = r.tableKind? name .scopeFirst := by
  simp [tableKind?, h]

/-- The nearest declaration comes first. -/
theorem tableKind?_scopeFirst (h : '.' ∉ name.toList) : r.tableKind? name .scopeFirst =
    (r.declared? (Text.lowercase name)).join.or (undeclared? r.schema name) := by
  have hdot : Text.hasChar '.' (Text.lowercase name) = false := by
    rw [← Bool.not_eq_true, Text.hasChar_iff, Text.dot_mem_lowercase_iff]
    exact h
  rw [tableKind?, undeclared?]
  simp only [reduceCtorEq, decide_false, Bool.false_and, hdot, Bool.false_eq_true, if_false]
  cases r.declared? (Text.lowercase name) with
  | none => rfl
  | some kind => cases kind <;> rfl

/-- A qualified name that the schema has comes before everything else. -/
theorem tableKind?_of_dot (h : '.' ∈ name.toList) (priority : Priority)
    (hsome : (r.schema.lookupTable? (Text.lowercase name)).isSome = true) :
    r.tableKind? name priority = some .database := by
  have hdot : Text.hasChar '.' (Text.lowercase name) = true := by
    rwa [Text.hasChar_iff, Text.dot_mem_lowercase_iff]
  simp [tableKind?, hdot, hsome]

/-! ### Full names and abbreviations -/

/-- Whether a name is that of a schema table, whatever the unit declares, when full names come first. -/
def Wins (schema : Schema) (name : String) : Prop :=
  ∀ r : Resolver, r.schema = schema → r.tableKind? name .schemaFirst = some .database

/-- Whether a name stands for the same when full names come first, whatever the unit declares. -/
def Yields (schema : Schema) (name : String) : Prop :=
  ∀ r : Resolver, r.schema = schema →
    r.tableKind? name .schemaFirst = r.tableKind? name .scopeFirst

/-- A unit that declares nothing but a work-table. -/
def declaring (schema : Schema) (name : String) : Resolver :=
  (start schema []).defineTable name .work

theorem declared?_declaring (schema : Schema) (name : String) :
    (declaring schema name).declared? (Text.lowercase name) = some (some .work) := by
  have hchain : (declaring schema name).chain = [Scope.defineTable {} name { kind := some .work }] := by
    simp [declaring, start, defineTable, modifyCurrent, chain, chainFrom, scope]
  rw [declared?, hchain]
  simp [Scope.defineTable, Scope.table?, Dict.get?_insert]

theorem schema_declaring (schema : Schema) (name : String) :
    (declaring schema name).schema = schema :=
  rfl

theorem isFullSchemaName_of_dotless (h : '.' ∉ name.toList) :
    r.isFullSchemaName (Text.lowercase name) = (r.schema.lookupTable? name).any
      (fun t => t.name.utf8ByteSize == (Text.lowercase name).utf8ByteSize) := by
  have hlower : '.' ∉ (Text.lowercase name).toList := by simpa using h
  rw [isFullSchemaName, Schema.lookupTable?_lowercase _ (.inl h), Text.afterLast_of_not_mem hlower]
  cases r.schema.lookupTable? name <;> rfl

/-- The work-table is what the name stands for when the scopes come first, unless the name is qualified
and the schema has a table for it. -/
theorem tableKind?_declaring {schema : Schema}
    (h : '.' ∉ name.toList ∨ schema.lookupTable? (Text.lowercase name) = none) :
    (declaring schema name).tableKind? name .scopeFirst = some .work := by
  rcases h with hdot | hnone
  · rw [tableKind?_scopeFirst hdot, declared?_declaring]
    rfl
  · simp [tableKind?, schema_declaring, declared?_declaring, hnone]

/-- Full names win when lower-casing the table's name keeps its length, and abbreviations give way
unless the full name is as long as they are. A qualified name wins when the schema has a table for its
lower-case form; it has one whenever it has one for the name, unless there are capital sigmas in it. -/
theorem wins_iff (schema : Schema) (name : String) :
    ('.' ∉ name.toList → ∀ t, schema.lookupTable? name = some t →
      (t.key = Text.lowercase name →
        (Wins schema name ↔ t.name.utf8ByteSize = t.key.utf8ByteSize)) ∧
      (t.key ≠ Text.lowercase name →
        (Yields schema name ↔ t.name.utf8ByteSize ≠ (Text.lowercase name).utf8ByteSize))) ∧
    ('.' ∉ name.toList → schema.lookupTable? name = none → Yields schema name) ∧
    ('.' ∈ name.toList →
      (Wins schema name ↔ (schema.lookupTable? (Text.lowercase name)).isSome = true) ∧
      ('\u03A3' ∉ name.toList →
        schema.lookupTable? (Text.lowercase name) = schema.lookupTable? name)) := by
  refine ⟨fun hdot t ht => ?_, fun hdot hnone r hr => ?_, fun hdot => ⟨⟨fun hwins => ?_, ?_⟩, ?_⟩⟩
  · have hfull : ∀ r : Resolver, r.schema = schema → (r.isFullSchemaName (Text.lowercase name) = true ↔
        t.name.utf8ByteSize = (Text.lowercase name).utf8ByteSize) := by
      rintro r rfl
      rw [isFullSchemaName_of_dotless hdot, ht, Option.any_some, beq_iff_eq]
    have hwork : (declaring schema name).tableKind? name .scopeFirst = some .work :=
      tableKind?_declaring (.inl hdot)
    refine ⟨fun hkey => ⟨fun hwins => ?_, fun heq r hr => ?_⟩, fun _ => ⟨fun hyields heq => ?_, ?_⟩⟩
    · rw [hkey, ← hfull (declaring schema name) rfl]
      by_contra hnot
      have hkind := hwins (declaring schema name) rfl
      rw [tableKind?_of_not_full (Bool.not_eq_true _ ▸ hnot), hwork] at hkind
      exact absurd hkind (by simp)
    · exact tableKind?_of_full ((hfull r hr).2 (hkey ▸ heq))
    · have hkind := hyields (declaring schema name) rfl
      rw [tableKind?_of_full ((hfull _ rfl).2 heq), hwork] at hkind
      exact absurd hkind (by simp)
    · intro hne r hr
      exact tableKind?_of_not_full (Bool.eq_false_iff.2 (mt (hfull r hr).1 hne))
  · subst hr
    refine tableKind?_of_not_full ?_
    rw [isFullSchemaName_of_dotless hdot, hnone, Option.any_none]
  · by_contra hnot
    have hnone : schema.lookupTable? (Text.lowercase name) = none := by simpa using hnot
    have hfull : (declaring schema name).isFullSchemaName (Text.lowercase name) = false := by
      rw [isFullSchemaName, schema_declaring, hnone]
    have hkind := hwins (declaring schema name) rfl
    rw [tableKind?_of_not_full hfull, tableKind?_declaring (.inr hnone)] at hkind
    exact absurd hkind (by simp)
  · rintro hsome r rfl
    exact tableKind?_of_dot hdot .schemaFirst hsome
  · exact fun hsigma => schema.lookupTable?_lowercase (.inr hsigma)

/-- Tables of which some have names that change when they are put into lower case: one becomes longer,
another a final sigma after a dot. -/
def sampleTables : Database :=
  ((((({ name := "Db" } : Database).addTable { name := "Customer", database := "Db" }).2.addTable
    { name := "CustomerGroup", database := "Db" }).2.addTable
    { name := "\u0130tem", database := "Db" }).2.addTable { name := "\u03A3", database := "Db" }).2

/-- The schema of these tables. -/
def sampleItems : Schema :=
  ({} : Schema).addDatabase sampleTables

theorem lookupTable?_sampleItems {name : String} (h : '.' ∉ name.toList) :
    sampleItems.lookupTable? name = sampleTables.lookupTable? name := by
  have hsorted : sampleTables.tables.Pairwise (fun t u => Schema.tableLe t u = true) := by
    decide +kernel
  have hs : sampleItems.InStep := Schema.Built.empty.inStep.addDatabase sampleTables
  have hdatabases : sampleItems.databases = [sampleTables] := by decide +kernel
  have hall : sampleItems.allTables = sampleTables.tables := by
    rw [hs.listed, hdatabases, List.flatMap_singleton, List.mergeSort_of_pairwise hsorted]
  rw [Schema.lookupTable?, Text.cutFirst_eq_none h, hall, Database.lookupTable?]

/-- A full name wins, with and without the database, and an abbreviation yields, as does one of two
tables. -/
theorem wins_sampleItems : Wins sampleItems "CUSTOMER" ∧ Yields sampleItems "CustomerG" ∧
    Yields sampleItems "cust" ∧ Wins sampleItems "db.CustomerG" := by
  have hfull : sampleItems.lookupTable? "CUSTOMER" = some { name := "Customer", database := "Db" } := by
    rw [lookupTable?_sampleItems (by decide)]
    decide +kernel
  have hgroup : sampleItems.lookupTable? "CustomerG" =
      some { name := "CustomerGroup", database := "Db" } := by
    rw [lookupTable?_sampleItems (by decide)]
    decide +kernel
  have htwo : sampleItems.lookupTable? "cust" = none := by
    rw [lookupTable?_sampleItems (by decide)]
    decide +kernel
  refine ⟨?_, ?_, ?_, ?_⟩
  · exact (((wins_iff sampleItems "CUSTOMER").1 (by decide) _ hfull).1 (by decide +kernel)).2
      (by decide +kernel)
  · exact (((wins_iff sampleItems "CustomerG").1 (by decide) _ hgroup).2 (by decide +kernel)).2
      (by decide +kernel)
  · exact (wins_iff sampleItems "cust").2.1 (by decide) htwo
  · exact ((wins_iff sampleItems "db.CustomerG").2.2 (by decide)).1.2 (by decide +kernel)

/-- A unit that declares work-tables under names of the schema. -/
def sampleUnit : Resolver :=
  (start sampleItems []).run
    [.defineTable "\u0130tem" .work, .defineTable "i\u0307te" .work, .defineTable "Db.\u03A3" .work]

/-- A full name can lose against a declaration, with a dot and without one, and an abbreviation can win
against one. -/
theorem tableKind?_sampleUnit :
    (∃ t, sampleUnit.schema.lookupTable? "\u0130tem" = some t ∧
      t.key = Text.lowercase "\u0130tem" ∧
      sampleUnit.tableKind? "\u0130tem" .schemaFirst = some .work) ∧
    (∃ t, sampleUnit.schema.lookupTable? "Db.\u03A3" = some t ∧
      t.key = Text.lowercase (TableName.read "Db.\u03A3").table ∧
      sampleUnit.tableKind? "Db.\u03A3" .schemaFirst = some .work) ∧
    (∃ t, sampleUnit.schema.lookupTable? "i\u0307te" = some t ∧
      t.key ≠ Text.lowercase "i\u0307te" ∧
      sampleUnit.tableKind? "i\u0307te" .schemaFirst = some .database ∧
      sampleUnit.tableKind? "i\u0307te" .scopeFirst = some .work) := by
  have hlookup : ∀ name : String, '.' ∉ name.toList →
      sampleUnit.schema.lookupTable? name = sampleTables.lookupTable? name :=
    fun name h => lookupTable?_sampleItems h
  refine ⟨⟨{ name := "\u0130tem", database := "Db" }, ?_, ?_, ?_⟩,
    ⟨{ name := "\u03A3", database := "Db" }, ?_⟩, { name := "\u0130tem", database := "Db" }, ?_, ?_, ?_, ?_⟩
  · rw [hlookup _ (by decide)]
    decide +kernel
  · decide +kernel
  · have hshort : sampleUnit.isFullSchemaName (Text.lowercase "\u0130tem") = false := by
      rw [isFullSchemaName_of_dotless (by decide), hlookup _ (by decide)]
      decide +kernel
    rw [tableKind?_of_not_full hshort, tableKind?_scopeFirst (by decide)]
    decide +kernel
  · decide +kernel
  · rw [hlookup _ (by decide)]
    decide +kernel
  · decide +kernel
  · refine tableKind?_of_full ?_
    rw [isFullSchemaName_of_dotless (by decide), hlookup _ (by decide)]
    decide +kernel
  · rw [tableKind?_scopeFirst (by decide)]
    decide +kernel

end Resolver

end AblAnalysis
