import AblAnalysis.Proofs.Schema.Fields
import AblAnalysis.Proofs.Schema.Lookup

/-!
The two orders of the fields of a table. A table is created without fields and keeps those that it is told to
declare, each name once, in the order of the calls; by name they stand in strictly increasing order, where the
number of a new one is put in front of the first that is not below it. All that looks for a field by name goes
by the second order, whatever the first (`Table.fieldOrders_after`). Over all databases a field name goes to
the first table, by name and then by database, with a field that it abbreviates.
-/

namespace AblAnalysis

namespace Table

variable {t : Table} {f : Field}

/-! ### Calls on a table -/

/-- A call on a table. -/
inductive Call where
  | addField (f : Field)
  | addIndex (index : Index)

/-- The table after a call. -/
def Call.run (t : Table) : Call → Table
  | .addField f => (t.addField f).2
  | .addIndex index => t.addIndex index

/-- The field that a call declares, if the table says that it did. -/
def Call.accepted (t : Table) : Call → List Field
  | .addField f => if (t.addField f).1 then [f] else []
  | .addIndex _ => []

/-- The table after calls. -/
def after (t : Table) (calls : List Call) : Table :=
  calls.foldl Call.run t

/-- The fields that calls declare, in the order of the calls. -/
def accepted (t : Table) : List Call → List Field
  | [] => []
  | call :: rest => call.accepted t ++ accepted (call.run t) rest

/-- A field is declared unless there is one of its name. -/
theorem addField_accepts_iff : (t.addField f).1 = true ↔ ∀ g ∈ t.fields, g.key ≠ f.key := by
  rcases t.addField_cases f with ⟨⟨g, hg, hkey⟩, hsame⟩ | ⟨hnew, place, hfree, hpush⟩
  · rw [hsame]
    exact iff_of_false Bool.false_ne_true fun hnew => hnew g hg hkey
  · rw [hpush]
    exact iff_of_true rfl hnew

theorem fields_run (t : Table) (call : Call) : (call.run t).fields = t.fields ++ call.accepted t := by
  cases call with
  | addField f =>
    rw [Call.run, Call.accepted]
    rcases t.addField_cases f with ⟨-, hsame⟩ | ⟨hnew, -⟩
    · rw [hsame, if_neg Bool.false_ne_true, List.append_nil]
    · rw [fields_addField_of_new hnew, if_pos (addField_accepts_iff.2 hnew)]
  | addIndex index => exact (List.append_nil _).symm

theorem fields_after (t : Table) (calls : List Call) :
    (t.after calls).fields = t.fields ++ t.accepted calls := by
  induction calls generalizing t with
  | nil => exact (List.append_nil _).symm
  | cons call calls ih =>
    rw [after, List.foldl_cons, ← after, ih, fields_run, accepted, List.append_assoc]

/-! ### The order by name -/

/-- A field put in front of the first one that is not below it leaves the order increasing. -/
theorem increasing_insert {fs : List Field} (h : fs.Pairwise (fun f g => f.key < g.key))
    (hnew : ∀ g ∈ fs, g.key ≠ f.key) :
    (fs.takeWhile (fun g => g.key < f.key) ++ f :: fs.dropWhile (fun g => g.key < f.key)).Pairwise
      (fun f g => f.key < g.key) := by
  induction fs with
  | nil => exact List.pairwise_singleton _ _
  | cons g rest ih =>
    obtain ⟨hg, hrest⟩ := List.pairwise_cons.1 h
    by_cases hlt : g.key < f.key
    · rw [List.takeWhile_cons_of_pos (by simpa using hlt), List.dropWhile_cons_of_pos
        (by simpa using hlt), List.cons_append, List.pairwise_cons]
      refine ⟨fun u hu => ?_, ih hrest fun u hu => hnew u (List.mem_cons_of_mem _ hu)⟩
      rcases List.mem_append.1 hu with hu | hu
      · exact hg u ((List.takeWhile_sublist _).subset hu)
      rcases List.mem_cons.1 hu with rfl | hu
      · exact hlt
      · exact hg u ((List.dropWhile_sublist _).subset hu)
    · have hbefore : f.key < g.key :=
        Std.lt_of_le_of_ne (Std.not_lt.1 hlt) (hnew g (List.mem_cons_self ..)).symm
      rw [List.takeWhile_cons_of_neg (by simpa using hlt), List.dropWhile_cons_of_neg
        (by simpa using hlt), List.nil_append, List.pairwise_cons]
      refine ⟨fun u hu => ?_, h⟩
      rcases List.mem_cons.1 hu with rfl | hu
      · exact hbefore
      · exact Std.lt_trans hbefore (hg u hu)

/-- A new field takes its place among the others and leaves them where they are. -/
theorem fieldsByName_addField (haccepts : (t.addField f).1 = true) :
    (t.addField f).2.fieldsByName = t.fieldsByName.takeWhile (fun g => g.key < f.key) ++
      f :: t.fieldsByName.dropWhile (fun g => g.key < f.key) := by
  have hnew := addField_accepts_iff.1 haccepts
  refine eq_of_perm_of_increasing ?_ (t.addField f).2.fieldsByName_increasing
    (increasing_insert t.fieldsByName_increasing fun g hg => hnew g (t.fieldsByName_perm.mem_iff.1 hg))
  have hcut : t.fieldsByName.Perm (t.fieldsByName.takeWhile (fun g => g.key < f.key) ++
      t.fieldsByName.dropWhile (fun g => g.key < f.key)) :=
    .of_eq List.takeWhile_append_dropWhile.symm
  have hfields : (t.addField f).2.fields.Perm (f :: t.fields) := by
    rw [fields_addField_of_new hnew]
    exact List.perm_append_singleton f t.fields
  have hbyName : (t.addField f).2.fieldsByName.Perm (f :: t.fieldsByName) :=
    (fieldsByName_perm _).trans (hfields.trans (t.fieldsByName_perm.symm.cons f))
  exact hbyName.trans ((hcut.cons f).trans List.perm_middle.symm)

/-! ### Lookups and copies -/

theorem lookupField?_eq_firstAbbreviated (t : Table) (name : String) :
    t.lookupField? name = t.fieldsByName.find? (fun f => f.AbbreviatedBy name) := by
  rw [lookupField?_eq_find?]
  refine congrArg (List.find? · t.fieldsByName) (funext fun f => ?_)
  exact Bool.eq_iff_iff.2 decide_eq_true_iff.symm

theorem lookupField?_eq_none_iff {name : String} :
    t.lookupField? name = none ↔ ∀ f ∈ t.fields, ¬ f.AbbreviatedBy name := by
  rw [← Option.not_isSome_iff_eq_none, isSome_lookupField?_iff]
  simp

/-- A field is found by its name in any case. -/
theorem lookupField?_of_key_eq {name : String} (hf : f ∈ t.fields)
    (hkey : f.key = Text.lowercase name) : t.lookupField? name = some f := by
  have hsame : t.lookupField? name = t.lookupField? f.name := by
    rw [lookupField?_eq_find?, lookupField?_eq_find?, ← hkey, Field.key]
  rw [hsame]
  exact lookupField?_of_name_eq hf

/-- A bare copy has the fields, in both orders, and nothing else. -/
theorem copyBare_same (t : Table) : t.copyBare.name = t.name ∧ t.copyBare.store = t.store ∧
    t.copyBare.fields = t.fields ∧ t.copyBare.fieldsByName = t.fieldsByName ∧ t.copyBare.indexes = [] ∧
    t.copyBare.database = "" := by
  obtain ⟨hname, hdatabase, hstore, hindexes⟩ :=
    ({ name := t.name, store := t.store } : Table).declare_same t.fields
  have hfields : t.copyBare.fields = t.fields := fields_declare t.fields_distinct
  refine ⟨hname, hstore, hfields, ?_, hindexes, hdatabase⟩
  have hperm : t.copyBare.fieldsByName.Perm t.fieldsByName :=
    t.copyBare.fieldsByName_perm.trans (hfields ▸ t.fieldsByName_perm.symm)
  exact eq_of_perm_of_increasing hperm t.copyBare.fieldsByName_increasing t.fieldsByName_increasing

/-- Whether a table comes before another one, by name and then by database. -/
def Precedes (t u : Table) : Prop :=
  t.key < u.key ∨ t.key = u.key ∧ Text.lowercase t.database < Text.lowercase u.database

theorem tableLe_eq_true_iff {u : Table} : Schema.tableLe t u = true ↔ ¬ u.Precedes t := by
  rw [Schema.tableLe_iff, Precedes, not_or, not_and]
  constructor
  · rintro (hlt | ⟨heq, hle⟩)
    · exact ⟨Std.not_lt.2 (Std.le_of_lt hlt), fun heq => absurd (heq ▸ hlt) (String.lt_irrefl _)⟩
    · exact ⟨heq ▸ String.lt_irrefl _, fun _ => hle⟩
  · rintro ⟨hle, hdatabase⟩
    by_cases heq : t.key = u.key
    · exact .inr ⟨heq, hdatabase heq.symm⟩
    · exact .inl (Std.lt_of_le_of_ne (Std.not_lt.1 hle) heq)

/-- Whether `t` is the first of the tables that have a field abbreviated by `name`: by name, then by
database, then as they are listed. -/
def FirstWith (tables : List Table) (name : String) (t : Table) : Prop :=
  ∃ before after, tables = before ++ t :: after ∧ (t.lookupField? name).isSome = true ∧
    (∀ u ∈ before, (u.lookupField? name).isSome = true → t.Precedes u) ∧
    ∀ u ∈ after, (u.lookupField? name).isSome = true → ¬ u.Precedes t

theorem lookupAnyField?_eq_some {s : Schema} (hs : s.InStep) {name : String}
    (h : s.lookupAnyField? name = some (t, f)) :
    FirstWith (s.databases.flatMap (·.tables)) name t ∧ t.lookupField? name = some f := by
  obtain ⟨front, u, back, hsplit, hfound, hfront⟩ := List.findSome?_eq_some_iff.1 h
  obtain ⟨g, hg, heq⟩ := Option.map_eq_some_iff.1 hfound
  obtain ⟨rfl, rfl⟩ := Prod.mk.inj heq
  have hfind : s.allTables.find? (fun u => (u.lookupField? name).isSome) = some u := by
    refine List.find?_eq_some_iff_append.2 ⟨by simp [hg], front, back, hsplit, fun v hv => ?_⟩
    simp [Option.map_eq_none_iff.1 (hfront v hv)]
  rw [hs.listed] at hfind
  obtain ⟨before, after, htables, hbefore, hafter⟩ :=
    find?_mergeSort Schema.tableLe_trans Schema.tableLe_total hfind
  refine ⟨⟨before, after, htables, by simp [hg], fun v hv hsome => ?_, fun v hv hsome => ?_⟩, hg⟩
  · have hnot := hbefore v hv hsome
    rwa [← Bool.not_eq_true, tableLe_eq_true_iff, not_not] at hnot
  · exact tableLe_eq_true_iff.1 (hafter v hv hsome)

theorem lookupAnyField?_eq_none_iff {s : Schema} (hs : s.InStep) {name : String} :
    s.lookupAnyField? name = none ↔
      ∀ t ∈ s.databases.flatMap (·.tables), t.lookupField? name = none := by
  simp only [Schema.lookupAnyField?, List.findSome?_eq_none_iff, Option.map_eq_none_iff,
    hs.allTables_perm.mem_iff]

/-- A table, created without fields and indexes, declares the field of a call unless it has declared one of
the same name before, and has those declared in the order of the calls. Beside them it keeps their numbers by
name; there the fields are in strictly increasing order, in which a new field takes its place among the others.
A name finds the first in this order that it abbreviates: the field with exactly this name if there is one, and
none only if it abbreviates none. A bare copy has the same fields in both orders. In any schema that can be
built, a field name finds the first table, by name and then by database, in which it finds a field. -/
theorem fieldOrders_after (name database : String) (store : StoreKind) (calls : List Call) :
    let created : Table := { name, database, store }
    let t := created.after calls
    (∀ f, (t.addField f).1 = true ↔ ∀ g ∈ created.accepted calls, g.key ≠ f.key) ∧
    t.fields = created.accepted calls ∧
    t.nameOrder.Perm (List.range t.fields.length) ∧
    t.fieldsByName.Perm t.fields ∧ t.fieldsByName.Pairwise (fun f g => f.key < g.key) ∧
    (∀ f, (t.addField f).1 = true →
      (t.addField f).2.fieldsByName = t.fieldsByName.takeWhile (fun g => g.key < f.key) ++
        f :: t.fieldsByName.dropWhile (fun g => g.key < f.key)) ∧
    (∀ wanted, t.lookupField? wanted = t.fieldsByName.find? (fun f => f.AbbreviatedBy wanted) ∧
      (∀ f ∈ t.fields, f.key = Text.lowercase wanted → t.lookupField? wanted = some f) ∧
      (t.lookupField? wanted = none ↔ ∀ f ∈ t.fields, ¬ f.AbbreviatedBy wanted)) ∧
    (t.copyBare.name = t.name ∧ t.copyBare.store = t.store ∧ t.copyBare.fields = t.fields ∧
      t.copyBare.fieldsByName = t.fieldsByName ∧ t.copyBare.indexes = [] ∧
      t.copyBare.database = "") ∧
    ∀ s : Schema, s.Built → ∀ wanted,
      (∀ u f, s.lookupAnyField? wanted = some (u, f) →
        FirstWith (s.databases.flatMap (·.tables)) wanted u ∧ u.lookupField? wanted = some f) ∧
      (s.lookupAnyField? wanted = none ↔
        ∀ u ∈ s.databases.flatMap (·.tables), u.lookupField? wanted = none) := by
  intro created t
  have hfields : t.fields = created.accepted calls := created.fields_after calls
  refine ⟨fun f => hfields ▸ addField_accepts_iff, hfields, t.nameOrder_perm, t.fieldsByName_perm,
    t.fieldsByName_increasing, fun f => fieldsByName_addField, fun wanted => ?_, t.copyBare_same,
    fun s hs wanted => ⟨fun u f => lookupAnyField?_eq_some hs.inStep,
      lookupAnyField?_eq_none_iff hs.inStep⟩⟩
  exact ⟨t.lookupField?_eq_firstAbbreviated wanted, fun f => lookupField?_of_key_eq,
    lookupField?_eq_none_iff⟩

/-- A table told to declare a name, a second address, the name once more and then the first address. -/
def sampleCalls : List Call :=
  [.addField { name := "Name" }, .addField { name := "Address2" }, .addField { name := "NAME" },
    .addIndex { name := "Name" }, .addField { name := "Address" }]

/-- The first address comes first by name, so it is what both abbreviate, also over all databases. -/
theorem fieldOrders_sampleCalls :
    let t := ({ name := "Customer", database := "Sales" } : Table).after sampleCalls
    let s := ({} : Schema).addDatabase (({ name := "Sales" } : Database).addTable t).2
    t.fields = [{ name := "Name" }, { name := "Address2" }, { name := "Address" }] ∧
    t.fieldsByName = [{ name := "Address" }, { name := "Address2" }, { name := "Name" }] ∧
    (t.addField { name := "address" }).1 = false ∧
    t.lookupField? "addr" = some { name := "Address" } ∧
    t.lookupField? "ADDRESS2" = some { name := "Address2" } ∧ t.lookupField? "Zip" = none ∧
    t.copyBare.fields = t.fields ∧ s.lookupAnyField? "Zip" = none := by
  intro t s
  obtain ⟨haccepts, hfields, -, hperm, hincreasing, -, hlookup, hcopy, hschema⟩ :=
    fieldOrders_after "Customer" "Sales" .database sampleCalls
  have hdeclared : t.fields = [{ name := "Name" }, { name := "Address2" }, { name := "Address" }] :=
    hfields.trans (by decide +kernel)
  have hbyName : t.fieldsByName = [{ name := "Address" }, { name := "Address2" }, { name := "Name" }] :=
    eq_of_perm_of_increasing (hperm.trans (hdeclared ▸ by decide)) hincreasing (by decide +kernel)
  have hzip : t.lookupField? "Zip" = none := by
    rw [(hlookup "Zip").2.2, hdeclared]
    decide +kernel
  refine ⟨hdeclared, hbyName, ?_, ?_, ?_, hzip, hcopy.2.2.1, ?_⟩
  · rw [← Bool.not_eq_true, haccepts]
    decide +kernel
  · rw [(hlookup "addr").1, hbyName]
    decide +kernel
  · exact (hlookup "ADDRESS2").2.1 { name := "Address2" } (by rw [hdeclared]; decide) (by decide +kernel)
  · have hs : s.Built := .addDatabase .empty (.addTable (.new "Sales") t)
    have htables : s.databases.flatMap (·.tables) = [t] := by decide +kernel
    rw [(hschema s hs "Zip").2, htables]
    exact List.forall_mem_singleton.2 hzip

end Table

end AblAnalysis
