import AblAnalysis.Proofs.Schema.Lookup

/-!
What an alias stands for. A name is first that of a registered database; only if there is none does the last
call that creates or deletes the alias of that name count, and what it says is looked up among the databases
registered by then, not among the aliases (`Schema.lookupDatabase?_after`). So a table is found under its full
name whatever aliases there are.
-/

namespace AblAnalysis.Schema

variable {s : Schema}

/-! ### The last word on an alias -/

/-- Whether a call creates or deletes the alias `name`. -/
def Call.touches (name : String) : Call → Bool
  | .addAlias aliasName _ => Text.lowercase aliasName = Text.lowercase name
  | .dropAlias none => true
  | .dropAlias (some aliasName) =>
    aliasName = "" ∨ Text.lowercase aliasName = Text.lowercase name
  | .addDatabase .. => false
  | .addDictionaries => false

/-- The database that a call creates an alias for. -/
def Call.target? : Call → Option String
  | .addAlias _ database => some database
  | _ => none

/-- What the alias `name` stands for after calls: the last one that creates or deletes it says so. -/
def aliased? (calls : List Call) (name : String) : Option String :=
  (calls.reverse.find? (Call.touches name)).bind Call.target?

/-- The database that was handed in last under a name. -/
def handedIn? (calls : List Call) (name : String) : Option Database :=
  ((handed calls).reverse.find? (fun h => Text.lowercase h.1 = Text.lowercase name)).map
    (fun h => Database.after h.1 h.2)

/-- Whether a result is the database that `name` stands for after calls: the one of that name, or if there is
none, the one under which its alias was created. -/
structure StandsForDatabase (calls : List Call) (name : String) (result : Option Database) : Prop where
  registered : ∀ db, handedIn? calls name = some db → result = some db
  aliased : handedIn? calls name = none → ∀ target, aliased? calls name = some target →
    result = handedIn? calls target
  absent : handedIn? calls name = none → aliased? calls name = none → result = none

theorem after_concat (calls : List Call) (call : Call) :
    after (calls ++ [call]) = call.run (after calls) :=
  List.foldl_append

theorem get?_aliases_run (s : Schema) (call : Call) (name : String) :
    (call.run s).aliases.get? (Text.lowercase name) =
      if call.touches name then call.target? else s.aliases.get? (Text.lowercase name) := by
  cases call with
  | addAlias aliasName database =>
    rw [Call.run, addAlias, Dict.get?_insert]
    by_cases hkey : Text.lowercase aliasName = Text.lowercase name
    · simp [Call.touches, Call.target?, hkey]
    · simp [Call.touches, hkey, Ne.symm hkey]
  | dropAlias aliasName =>
    cases aliasName with
    | none => rfl
    | some aliasName =>
      rw [Call.run, dropAlias]
      by_cases hempty : aliasName = ""
      · simp [Call.touches, Call.target?, hempty]
      by_cases hkey : Text.lowercase aliasName = Text.lowercase name
      · simp [Call.touches, Call.target?, hempty, hkey, Dict.get?_erase]
      · simp [Call.touches, hempty, hkey, Ne.symm hkey, Dict.get?_erase]
  | addDatabase name calls => rfl
  | addDictionaries =>
    rw [Call.run, aliases_addDictionaries]
    rfl

theorem get?_aliases_after (calls : List Call) (name : String) :
    (after calls).aliases.get? (Text.lowercase name) = aliased? calls name := by
  induction calls using List.reverseRecOn with
  | nil => rfl
  | append_singleton calls call ih =>
    rw [after_concat, get?_aliases_run, ih, aliased?, aliased?, List.reverse_concat, List.find?_cons]
    cases call.touches name <;> rfl

theorem registered?_after (calls : List Call) (name : String) :
    (after calls).registered? name = handedIn? calls name := by
  rw [handedIn?, ← (registers_after calls).last, (registers_after calls).inStep.registered?_eq]

theorem standsForDatabase_after (calls : List Call) (name : String) :
    StandsForDatabase calls name ((after calls).lookupDatabase? name) := by
  rw [lookupDatabase?, registered?_after, get?_aliases_after]
  refine ⟨fun db hdb => ?_, fun hnone target htarget => ?_, fun hnone habsent => ?_⟩
  · rw [hdb]
  · rw [hnone, htarget]
    exact registered?_after calls target
  · rw [hnone, habsent]
    rfl

/-! ### Names with dots -/

theorem lookupTable?_of_pieces {name database table : String} {rest : List String}
    (h : Text.pieces '.' name = database :: table :: rest) :
    s.lookupTable? name = s.lookupTableIn? database table := by
  rw [lookupTable?]
  cases hcut : Text.cutFirst '.' name with
  | none =>
    rw [Text.pieces_of_not_mem (Text.not_mem_of_cutFirst hcut)] at h
    simp at h
  | some parts =>
    rw [Text.pieces_of_cutFirst hcut] at h
    obtain ⟨hdatabase, htail⟩ := List.cons.inj h
    have htable := Text.head?_pieces '.' parts.2
    rw [htail, List.head?_cons, Option.some_inj] at htable
    exact congrArg₂ s.lookupTableIn? hdatabase htable.symm

/-- A registered database is the one with its key. -/
theorem Increasing.find?_of_mem {databases : List Database} (h : Increasing databases) {db : Database}
    (hdb : db ∈ databases) : databases.find? (fun other => other.key = db.key) = some db := by
  obtain ⟨before, after, hsplit⟩ := List.append_of_mem hdb
  rw [Increasing, hsplit, List.pairwise_append] at h
  refine List.find?_eq_some_iff_append.2 ⟨by simp, before, after, hsplit, fun other hother => ?_⟩
  have hlt : other.key < db.key := h.2.2 other hother db (List.mem_cons_self ..)
  simpa using Std.ne_of_lt hlt

theorem InStep.lookupDatabase?_of_mem (h : s.InStep) {db : Database} (hdb : db ∈ s.databases) :
    s.lookupDatabase? db.name = some db := by
  have hfound : s.registered? db.name = some db :=
    (h.registered?_eq db.name).trans (h.increasing.find?_of_mem hdb)
  rw [lookupDatabase?, hfound]

/-- Whatever databases have been registered and aliases created, replaced and deleted, a name stands for the
database registered last under it, and if there is none, for the one registered last under the name that its
alias was last created for and has not been deleted since. A name with dots stands for what its second part
names or abbreviates in the database that its first part stands for, whatever follows. So a table of a
database, known under its name, is found by both names. -/
theorem lookupDatabase?_after (calls : List Call) :
    let s := after calls
    (∀ name, StandsForDatabase calls name (s.lookupDatabase? name)) ∧
    (∀ name database table rest, Text.pieces '.' name = database :: table :: rest →
      (s.lookupDatabase? database = none → s.lookupTable? name = none) ∧
      ∀ db, s.lookupDatabase? database = some db → StandsFor db.tables table (s.lookupTable? name)) ∧
    ∀ db ∈ s.databases, ∀ t ∈ db.tables, '.' ∉ db.name.toList → '.' ∉ t.name.toList →
      t.database = db.name → s.lookupTable? (t.database ++ "." ++ t.name) = some t := by
  intro s
  have hinStep : s.InStep := (registers_after calls).inStep
  refine ⟨standsForDatabase_after calls, fun name database table rest hpieces => ?_, ?_⟩
  · rw [lookupTable?_of_pieces hpieces, lookupTableIn?]
    refine ⟨fun hnone => by rw [hnone, Option.bind_none], fun db hdb => ?_⟩
    rw [hdb, Option.bind_some]
    exact db.standsFor_lookupTable? table
  · intro db hdb t ht hdatabase hname hown
    have hpieces : Text.pieces '.' (t.database ++ "." ++ t.name) = [db.name, t.name] := by
      rw [hown]
      refine (Text.pieces_append '.' _ _).trans ?_
      rw [Text.pieces_of_not_mem hdatabase, Text.pieces_of_not_mem hname, List.singleton_append]
    rw [lookupTable?_of_pieces hpieces, lookupTableIn?, hinStep.lookupDatabase?_of_mem hdb,
      Option.bind_some]
    exact Database.lookupTable?_key ht rfl

/-- Aliases created before the database that one of them is for, one for another alias and one that has the
name of the database. -/
def sampleCalls : List Call :=
  [.addAlias "Dict" "SPORTS", .addAlias "Hop" "dict", .addAlias "sports" "other", .addAlias "Gone" "Sports",
    .addDatabase "Sports" [.addTable { name := "Customer", database := "Sports" }], .dropAlias (some "gone")]

/-- The database is found by its name, and by the alias for it that is left. -/
theorem lookupDatabase?_sampleCalls :
    let db := Database.after "Sports" [.addTable { name := "Customer", database := "Sports" }]
    (after sampleCalls).lookupDatabase? "sports" = some db ∧
    (after sampleCalls).lookupDatabase? "DICT" = some db ∧
    (after sampleCalls).lookupDatabase? "hop" = none ∧
    (after sampleCalls).lookupDatabase? "gone" = none ∧
    (after sampleCalls).lookupTable? "hop.Cust.Name" = none ∧
    (after sampleCalls).lookupTable? "Sports.Customer" = some { name := "Customer", database := "Sports" } := by
  intro db
  obtain ⟨hnames, hparts, htables⟩ := lookupDatabase?_after sampleCalls
  have hhop : (after sampleCalls).lookupDatabase? "hop" = none :=
    ((hnames "hop").aliased (by decide +kernel) "dict" (by decide +kernel)).trans (by decide +kernel)
  refine ⟨(hnames "sports").registered db (by decide +kernel), ?_, hhop,
    (hnames "gone").absent (by decide +kernel) (by decide +kernel), ?_, ?_⟩
  · exact ((hnames "DICT").aliased (by decide +kernel) "SPORTS" (by decide +kernel)).trans
      (by decide +kernel)
  · exact (hparts "hop.Cust.Name" "hop" "Cust" ["Name"] (by decide +kernel)).1 hhop
  · exact htables db (by decide +kernel) { name := "Customer", database := "Sports" }
      (by decide +kernel) (by decide +kernel) (by decide) rfl

end AblAnalysis.Schema
