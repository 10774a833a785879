import AblAnalysis.Proofs.Schema.DictionaryTables
import AblAnalysis.Proofs.Schema.Registration

/-!
What a schema keeps through any calls. A database goes where the search by halving ends, which is its place
only as long as the databases stand in the order of their keys, and the tables of all databases are listed
beside them (`Schema.InStep`). Both stay so, since every database accepts the dictionary tables and none is
left out of the list on the way (`Schema.addDictionaries_eq`). So a schema has the last database handed in
under each name, and lists the tables of these (`Schema.registers`).
-/

namespace AblAnalysis.Schema

/-! ### The order of tables -/

theorem tableLe_iff {t u : Table} : tableLe t u = true ↔ t.key < u.key ∨
    t.key = u.key ∧ ¬ Text.lowercase u.database < Text.lowercase t.database := by
  rw [tableLe]
  split
  next heq =>
    simp only [heq, String.lt_irrefl, false_or, true_and, Bool.not_eq_true',
      decide_eq_false_iff_not]
  next hne => simp [hne]

theorem tableLe_total (t u : Table) : (tableLe t u || tableLe u t) = true := by
  rw [Bool.or_eq_true, tableLe_iff, tableLe_iff]
  by_cases heq : t.key = u.key
  · by_cases hlt : Text.lowercase u.database < Text.lowercase t.database
    · exact .inr (.inr ⟨heq.symm, Std.not_lt.2 (Std.le_of_lt hlt)⟩)
    · exact .inl (.inr ⟨heq, hlt⟩)
  · by_cases hlt : t.key < u.key
    · exact .inl (.inl hlt)
    · exact .inr (.inl (Std.lt_of_le_of_ne (Std.not_lt.1 hlt) (Ne.symm heq)))

theorem tableLe_trans (t u v : Table) (htu : tableLe t u = true) (huv : tableLe u v = true) :
    tableLe t v = true := by
  rw [tableLe_iff] at htu huv ⊢
  rcases htu with htu | ⟨htu, hdb⟩
  · rcases huv with huv | ⟨huv, -⟩
    · exact .inl (Std.lt_trans htu huv)
    · exact .inl (huv ▸ htu)
  · rcases huv with huv | ⟨huv, hdb'⟩
    · exact .inl (htu ▸ huv)
    · exact .inr ⟨htu.trans huv, Std.not_lt.2 (Std.le_trans (Std.not_lt.1 hdb) (Std.not_lt.1 hdb'))⟩

/-! ### The order of databases -/

variable {databases : List Database}

/-- Whether databases stand in the order of their keys, one per key. -/
def Increasing (databases : List Database) : Prop :=
  databases.Pairwise (fun db other => db.key < other.key)

/-- Where databases stand in order, one more comes between those below and those above it, in place of the
one of its key if there is one. -/
theorem Increasing.exists_insertDatabase (h : Increasing databases) (db : Database) :
    ∃ before after, insertDatabase db databases = before ++ db :: after ∧
      (∀ other ∈ before, other.key < db.key) ∧ (∀ other ∈ after, db.key < other.key) ∧
      (databases = before ++ after ∨ ∃ old, old.key = db.key ∧ databases = before ++ old :: after) := by
  rw [insertDatabase]
  split
  next place htaken =>
    obtain ⟨old, hplace, hkey⟩ := Bisection.getElem?_of_locate_taken htaken
    obtain ⟨hlt, rfl⟩ := List.getElem?_eq_some_iff.1 hplace
    have hsplit : databases = databases.take place ++ databases[place] :: databases.drop (place + 1) := by
      rw [List.getElem_cons_drop, List.take_append_drop]
    have hordered := h
    rw [Increasing, hsplit, List.pairwise_append] at hordered
    refine ⟨_, _, List.set_eq_take_append_cons_drop.trans (if_pos hlt), fun other hother => ?_,
      fun other hother => ?_, .inr ⟨_, hkey, hsplit⟩⟩
    · exact hkey ▸ hordered.2.2 other hother _ (List.mem_cons_self ..)
    · exact hkey ▸ List.rel_of_pairwise_cons hordered.2.1 hother
  next place hfree =>
    obtain ⟨hfront, hrest⟩ := Bisection.locate_free_spec h hfree
    exact ⟨_, _, rfl, hfront, hrest, .inl (List.take_append_drop place databases).symm⟩

theorem Increasing.insertDatabase (h : Increasing databases) (db : Database) :
    Increasing (insertDatabase db databases) := by
  obtain ⟨before, after, hinsert, hbefore, hafter, hold⟩ := h.exists_insertDatabase db
  have hrest : Increasing (before ++ after) := by
    rcases hold with rfl | ⟨old, -, rfl⟩
    · exact h
    · exact h.sublist ((List.Sublist.refl before).append (List.sublist_cons_self ..))
  rw [Increasing, List.pairwise_append] at hrest
  rw [hinsert]
  refine List.pairwise_append.2 ⟨hrest.1, List.pairwise_cons.2 ⟨hafter, hrest.2.1⟩, ?_⟩
  intro other hother next hnext
  rcases List.mem_cons.1 hnext with rfl | hnext
  · exact hbefore other hother
  · exact hrest.2.2 other hother next hnext

theorem Increasing.find?_insertDatabase (h : Increasing databases) (db : Database) (key : String) :
    (Schema.insertDatabase db databases).find? (fun other => other.key = key) =
      if db.key = key then some db else databases.find? (fun other => other.key = key) := by
  obtain ⟨before, after, hinsert, hbefore, -, hold⟩ := h.exists_insertDatabase db
  rw [hinsert, List.find?_append]
  by_cases hkey : db.key = key
  · have hnone : before.find? (fun other => other.key = key) = none :=
      List.find?_eq_none.2 fun other hother => by simpa [hkey] using Std.ne_of_lt (hbefore other hother)
    rw [hnone, Option.none_or, List.find?_cons_of_pos (by simpa using hkey), if_pos hkey]
  · rw [List.find?_cons_of_neg (by simpa using hkey), if_neg hkey, ← List.find?_append]
    rcases hold with rfl | ⟨old, hsame, rfl⟩
    · rfl
    · rw [List.find?_append, List.find?_append,
        List.find?_cons_of_neg (by simpa [hsame] using hkey)]

/-! ### What every call keeps -/

variable {s : Schema}

theorem find?_map {change : Database → Database} (h : ∀ db, (change db).key = db.key)
    (databases : List Database) (key : String) :
    (databases.map change).find? (fun db => db.key = key) =
      (databases.find? (fun db => db.key = key)).map change := by
  rw [List.find?_map]
  simp only [Function.comp_def, h]

/-- Every database accepts the dictionary tables. -/
theorem extendAll_eq (databases : List Database) :
    extendAll Database.addDictionary databases = (.ok (), databases.map Database.withDictionary) := by
  induction databases with
  | nil => rfl
  | cons db rest ih =>
    have hadd : db.addDictionary = (.ok (), db.withDictionary) :=
      Prod.ext db.addDictionary_eq_ok db.snd_addDictionary
    rw [extendAll, hadd]
    dsimp only
    rw [ih, List.map_cons]

/-- So none is left without them, and the tables are always listed anew. -/
theorem addDictionaries_eq (s : Schema) : s.addDictionaries =
    (.ok (), relist { s with databases := s.databases.map Database.withDictionary }) := by
  rw [addDictionaries, extendAll_eq]

theorem databases_addDictionaries_eq (s : Schema) :
    s.addDictionaries.2.databases = s.databases.map Database.withDictionary := by
  rw [addDictionaries_eq, relist]

theorem aliases_addDictionaries (s : Schema) : s.addDictionaries.2.aliases = s.aliases := by
  rw [addDictionaries_eq, relist]

/-- Whether the databases stand in the order of their keys, and all their tables and no others are listed. -/
structure InStep (s : Schema) : Prop where
  increasing : Increasing s.databases
  listed : s.allTables = (s.databases.flatMap (·.tables)).mergeSort tableLe

theorem increasing_withDictionary (h : Increasing databases) :
    Increasing (databases.map Database.withDictionary) := by
  refine List.pairwise_map.2 (h.imp fun hlt => ?_)
  rwa [Database.key_withDictionary, Database.key_withDictionary]

theorem InStep.addDatabase (h : s.InStep) (db : Database) : (s.addDatabase db).InStep :=
  ⟨h.increasing.insertDatabase db, rfl⟩

theorem InStep.addDictionaries (h : s.InStep) : s.addDictionaries.2.InStep := by
  rw [addDictionaries_eq]
  exact ⟨increasing_withDictionary h.increasing, rfl⟩

theorem InStep.addAlias (h : s.InStep) (aliasName database : String) :
    (s.addAlias aliasName database).InStep :=
  ⟨h.increasing, h.listed⟩

theorem InStep.dropAlias (h : s.InStep) (aliasName : Option String) : (s.dropAlias aliasName).InStep := by
  obtain ⟨hdatabases, htables⟩ := s.dropAlias_same aliasName
  exact ⟨hdatabases ▸ h.increasing, by rw [htables, hdatabases, h.listed]⟩

/-- Every schema that can be built is in step. -/
theorem Built.inStep (h : s.Built) : s.InStep := by
  induction h with
  | empty => exact ⟨.nil, List.mergeSort_nil.symm⟩
  | addDatabase _ _ ih => exact ih.addDatabase _
  | addDictionaries _ ih => exact ih.addDictionaries
  | addAlias _ aliasName database ih => exact ih.addAlias aliasName database
  | dropAlias _ aliasName ih => exact ih.dropAlias aliasName

theorem InStep.allTables_perm (h : s.InStep) : s.allTables.Perm (s.databases.flatMap (·.tables)) :=
  h.listed ▸ List.mergeSort_perm _ _

theorem InStep.pairwise_allTables (h : s.InStep) :
    s.allTables.Pairwise (fun t u => tableLe t u = true) :=
  h.listed ▸ List.pairwise_mergeSort tableLe_trans tableLe_total _

theorem InStep.allTables_sorted (h : s.InStep) :
    s.allTables.Pairwise (fun t u => ¬ u.key < t.key) := by
  refine h.pairwise_allTables.imp fun {t u} hle => ?_
  rcases tableLe_iff.1 hle with hlt | ⟨heq, -⟩
  · exact Std.not_lt.2 (Std.le_of_lt hlt)
  · rw [heq]
    exact String.lt_irrefl _

theorem InStep.registered?_eq (h : s.InStep) (name : String) :
    s.registered? name = s.databases.find? (fun db => db.key = Text.lowercase name) :=
  Bisection.find?_eq h.increasing _

/-! ### Calls -/

/-- A call on a schema; a database is handed in with the calls that it has been through. -/
inductive Call where
  | addDatabase (name : String) (calls : List Database.Call)
  | addDictionaries
  | addAlias (aliasName database : String)
  | dropAlias (aliasName : Option String)

/-- The schema after a call. -/
def Call.run (s : Schema) : Call → Schema
  | .addDatabase name calls => s.addDatabase (Database.after name calls)
  | .addDictionaries => s.addDictionaries.2
  | .addAlias aliasName database => s.addAlias aliasName database
  | .dropAlias aliasName => s.dropAlias aliasName

/-- The schema after calls. -/
def after (calls : List Call) : Schema :=
  calls.foldl Call.run {}

/-- What a call does to the databases handed in so far: it hands in one more, or gives each of them the
dictionary tables. -/
def Call.hand (handed : List (String × List Database.Call)) :
    Call → List (String × List Database.Call)
  | .addDatabase name calls => handed ++ [(name, calls)]
  | .addDictionaries => handed.map (fun h => (h.1, h.2 ++ [.addDictionary]))
  | .addAlias .. => handed
  | .dropAlias _ => handed

/-- The databases that calls hand in, in order, each with all the calls that it has been through. -/
def handed (calls : List Call) : List (String × List Database.Call) :=
  calls.foldl Call.hand []

/-- Whether a schema is in step and has, under each key, the last database handed in under it. -/
structure Registers (s : Schema) (handed : List (String × List Database.Call)) : Prop where
  inStep : s.InStep
  last : ∀ key, s.databases.find? (fun db => db.key = key) =
    (handed.reverse.find? (fun h => Text.lowercase h.1 = key)).map (fun h => Database.after h.1 h.2)

theorem key_after (name : String) (calls : List Database.Call) :
    (Database.after name calls).key = Text.lowercase name := by
  rw [Database.key, (Database.holds_after name calls).name]

variable {handedIn : List (String × List Database.Call)}

theorem Registers.addDatabase (h : s.Registers handedIn) (name : String)
    (calls : List Database.Call) :
    (s.addDatabase (Database.after name calls)).Registers (handedIn ++ [(name, calls)]) := by
  refine ⟨h.inStep.addDatabase _, fun key => ?_⟩
  rw [Schema.addDatabase, relist, h.inStep.increasing.find?_insertDatabase, h.last, key_after,
    List.reverse_concat, List.find?_cons]
  by_cases hkey : Text.lowercase name = key <;> simp [hkey]

theorem Registers.addDictionaries (h : s.Registers handedIn) :
    s.addDictionaries.2.Registers (handedIn.map (fun h => (h.1, h.2 ++ [.addDictionary]))) := by
  refine ⟨h.inStep.addDictionaries, fun key => ?_⟩
  rw [databases_addDictionaries_eq, find?_map Database.key_withDictionary, h.last, ← List.map_reverse,
    List.find?_map, Option.map_map, Option.map_map]
  simp only [Function.comp_def, Database.after_addDictionary]

theorem Registers.run (h : s.Registers handedIn) (call : Call) :
    (call.run s).Registers (call.hand handedIn) := by
  cases call with
  | addDatabase name calls => exact h.addDatabase name calls
  | addDictionaries => exact h.addDictionaries
  | addAlias aliasName database => exact ⟨h.inStep.addAlias aliasName database, h.last⟩
  | dropAlias aliasName =>
    have hsame := (s.dropAlias_same aliasName).1
    exact ⟨h.inStep.dropAlias aliasName, fun key => hsame ▸ h.last key⟩

theorem registers_after (calls : List Call) : (after calls).Registers (handed calls) := by
  suffices hrun : ∀ (s : Schema) hs, s.Registers hs →
      (calls.foldl Call.run s).Registers (calls.foldl Call.hand hs) from
    hrun {} [] ⟨Built.empty.inStep, fun key => rfl⟩
  induction calls with
  | nil => exact fun s hs h => h
  | cons call calls ih => exact fun s hs h => ih _ _ (h.run call)

/-- After any calls, the databases of a schema stand in the order of their keys, and each is the last one
handed in under its key. The tables of each stand in the order of their keys, and each is the first one
given under its key. The listed tables are those of the databases and no others, each as often as the
databases have it, by table and then by database. -/
theorem registers (calls : List Call) :
    let s := after calls
    s.databases.Pairwise (fun db other => db.key < other.key) ∧
    (∀ key, s.databases.find? (fun db => db.key = key) =
      ((handed calls).reverse.find? (fun h => Text.lowercase h.1 = key)).map
        (fun h => Database.after h.1 h.2)) ∧
    (∀ name calls, (Database.after name calls).Holds name (calls.flatMap (Database.Call.given name))) ∧
    s.allTables.Perm (s.databases.flatMap (·.tables)) ∧
    s.allTables.Pairwise (fun t u => t.key < u.key ∨
      t.key = u.key ∧ ¬ Text.lowercase u.database < Text.lowercase t.database) := by
  intro s
  obtain ⟨hinStep, hlast⟩ := registers_after calls
  exact ⟨hinStep.increasing, hlast, Database.holds_after, hinStep.allTables_perm,
    hinStep.pairwise_allTables.imp tableLe_iff.1⟩

end AblAnalysis.Schema
