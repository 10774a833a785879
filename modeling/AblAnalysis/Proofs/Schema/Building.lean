import AblAnalysis.Schema.Registry
import Mathlib.Data.List.Perm.Basic

/-!
How databases and schemas come about. A database begins without tables and is filled by adding tables
and by reading descriptions, and takes each table that is the first of its name (`addTable_cases`); a schema
begins empty and registers databases. What a list holds under one key does not hang on the order in which its
elements stand, if no two have the same key (`find?_of_perm`), and there the search by halving finds what is
found from the front (`Bisection.find?_eq`).
-/

namespace AblAnalysis

/-! ### Unique keys -/

section
variable {α : Type} {key : α → String} {xs ys : List α}

/-- Where no two elements have the same key, the order does not matter. -/
theorem find?_of_perm (hperm : xs.Perm ys) (h : xs.Pairwise (fun a b => key a ≠ key b)) (k : String) :
    xs.find? (fun a => key a = k) = ys.find? (fun a => key a = k) := by
  induction hperm with
  | nil => rfl
  | cons x _ ih => rw [List.find?_cons, List.find?_cons, ih h.of_cons]
  | swap x y rest =>
    have hne : key y ≠ key x := List.rel_of_pairwise_cons h (List.mem_cons_self ..)
    by_cases hx : key x = k
    · have hy : key y ≠ k := fun hy => hne (hy.trans hx.symm)
      simp [hx, hy]
    · simp [List.find?_cons, hx]
  | trans hfirst _ ih ih' =>
    exact (ih h).trans (ih' ((hfirst.pairwise_iff fun hne => Ne.symm hne).1 h))

/-- In strict order, the search by halving finds what is found from the front. -/
theorem Bisection.find?_eq (h : xs.Pairwise (fun a b => key a < key b)) (target : String) :
    Bisection.find? key target xs = xs.find? (fun a => key a = target) := by
  rw [Bisection.find?]
  split
  · rename_i place htaken
    obtain ⟨x, hx, hkey⟩ := Bisection.getElem?_of_locate_taken htaken
    obtain ⟨hplace, rfl⟩ := List.getElem?_eq_some_iff.1 hx
    rw [hx, eq_comm, List.find?_eq_some_iff_getElem]
    refine ⟨by simpa using hkey, place, hplace, rfl, fun j hj => ?_⟩
    have hlt := List.pairwise_iff_getElem.1 h j place (by omega) hplace hj
    rw [hkey] at hlt
    simpa using Std.ne_of_lt hlt
  · rename_i place hfree
    exact (List.find?_eq_none.2 fun x hx => by simpa using Bisection.ne_of_locate_free h hfree x hx).symm

end

/-! ### Databases -/

namespace Database

variable {db : Database} {t u : Table}

/-- The databases that can be built, by any calls in any order. -/
inductive Built : Database → Prop
  | new (name : String) : Built { name := name }
  | addTable {db : Database} : Built db → ∀ t : Table, Built (db.addTable t).2
  | addSequence {db : Database} : Built db → ∀ name : String, Built (db.addSequence name)
  | readDescription {db : Database} : Built db → ∀ text : String, Built (db.readDescription text).2
  | addDictionary {db : Database} : Built db → Built db.addDictionary.2

/-- The database once lines have been read into it, whatever comes of them. -/
def afterLines (db : Database) (lines : List String) : Database :=
  (Description.readLines ⟨db, none⟩ 1 lines).2

/-- The database with the dictionary tables. -/
def withDictionary (db : Database) : Database :=
  db.afterLines dictionaryLines

theorem snd_readLines (db : Database) (lines : List String) :
    (Description.readLines ⟨db, none⟩ 1 lines).2 = db.afterLines lines := rfl

-- by `rfl`, all lines of the dictionary would be read
theorem snd_addDictionary (db : Database) : db.addDictionary.2 = db.withDictionary := by
  rw [addDictionary, snd_readLines, withDictionary]

/-- Whether the tables stand in the order of their keys, one per key. -/
def Ordered (db : Database) : Prop :=
  db.tables.Pairwise (fun t u => t.key < u.key)

theorem ordered (db : Database) : db.Ordered :=
  db.tables_increasing

theorem tables_distinct (db : Database) : db.tables.Pairwise (fun t u => t.key ≠ u.key) :=
  db.ordered.imp fun hlt => Std.ne_of_lt hlt

/-- A table is added unless there is one of its name, and then the database stays as it is. -/
theorem addTable_cases (db : Database) (t : Table) :
    (∃ u ∈ db.tables, u.key = t.key) ∧ db.addTable t = (false, db) ∨
      (∀ u ∈ db.tables, u.key ≠ t.key) ∧ ∃ place h, db.addTable t = (true, db.push t place h) := by
  rw [addTable]
  split
  · rename_i place htaken
    obtain ⟨u, hu, hkey⟩ := Bisection.getElem?_of_locate_taken htaken
    exact .inl ⟨⟨u, List.mem_of_getElem? hu, hkey⟩, rfl⟩
  · rename_i place hfree
    exact .inr ⟨Bisection.ne_of_locate_free db.ordered hfree, place, hfree, rfl⟩

/-- A database that gets a table has it among those it had. -/
theorem perm_push {place : Nat} (h : Bisection.locate Table.key t.key db.tables = .free place) :
    (db.push t place h).tables.Perm (t :: db.tables) :=
  Bisection.perm_insertAt place t db.tables

theorem mem_addTable (h : u ∈ (db.addTable t).2.tables) : u = t ∨ u ∈ db.tables := by
  rcases db.addTable_cases t with ⟨-, hsame⟩ | ⟨-, place, hfree, hpush⟩
  · rw [hsame] at h
    exact .inr h
  · rw [hpush] at h
    exact List.mem_cons.1 ((perm_push hfree).mem_iff.1 h)

theorem sublist_addTable (db : Database) (t : Table) : db.tables.Sublist (db.addTable t).2.tables := by
  rcases db.addTable_cases t with ⟨-, hsame⟩ | ⟨-, place, hfree, hpush⟩
  · rw [hsame]
  · rw [hpush]
    conv_lhs => rw [← List.take_append_drop place db.tables]
    exact (List.Sublist.refl _).append (List.sublist_cons_self ..)

/-- What a table leaves as it was. -/
theorem addTable_same (db : Database) (t : Table) :
    (db.addTable t).2.name = db.name ∧ (db.addTable t).2.sequences = db.sequences := by
  rcases db.addTable_cases t with ⟨-, hsame⟩ | ⟨-, place, hfree, hpush⟩
  · rw [hsame]
    exact ⟨rfl, rfl⟩
  · rw [hpush]
    exact ⟨rfl, rfl⟩

end Database

/-! ### Schemas -/

namespace Schema

variable {db other : Database} {databases : List Database}

/-- The schemas that can be built, by any calls in any order. -/
inductive Built : Schema → Prop
  | empty : Built {}
  | addDatabase {s : Schema} {db : Database} : Built s → db.Built → Built (s.addDatabase db)
  | addDictionaries {s : Schema} : Built s → Built s.addDictionaries.2
  | addAlias {s : Schema} : Built s → ∀ aliasName database : String,
      Built (s.addAlias aliasName database)
  | dropAlias {s : Schema} : Built s → ∀ aliasName : Option String, Built (s.dropAlias aliasName)

theorem mem_insertDatabase (h : other ∈ insertDatabase db databases) :
    other = db ∨ other ∈ databases := by
  rw [insertDatabase] at h
  split at h
  · exact (List.mem_or_eq_of_mem_set h).symm
  · exact List.mem_cons.1 ((Bisection.perm_insertAt ..).mem_iff.1 h)

theorem mem_extendAll {extend : Database → Except Error Unit × Database}
    (h : other ∈ (extendAll extend databases).2) :
    other ∈ databases ∨ ∃ db ∈ databases, other = (extend db).2 := by
  induction databases with
  | nil => exact absurd h List.not_mem_nil
  | cons db rest ih =>
    rw [extendAll] at h
    split at h
    · rename_i e db' hadd
      rcases List.mem_cons.1 h with rfl | h
      · exact .inr ⟨db, List.mem_cons_self .., by rw [hadd]⟩
      · exact .inl (List.mem_cons_of_mem _ h)
    · rename_i db' hadd
      rcases List.mem_cons.1 h with rfl | h
      · exact .inr ⟨db, List.mem_cons_self .., by rw [hadd]⟩
      · exact (ih h).imp (List.mem_cons_of_mem _) fun ⟨old, hold, heq⟩ =>
          ⟨old, List.mem_cons_of_mem _ hold, heq⟩

theorem databases_addDictionaries (s : Schema) :
    s.addDictionaries.2.databases = (extendAll Database.addDictionary s.databases).2 := by
  rw [addDictionaries]
  split
  · rename_i hextend
    rw [hextend]
  · rename_i hextend
    rw [hextend]
    rfl

/-- What a call on the aliases leaves as it was. -/
theorem dropAlias_same (s : Schema) (aliasName : Option String) :
    (s.dropAlias aliasName).databases = s.databases ∧ (s.dropAlias aliasName).allTables = s.allTables := by
  unfold dropAlias
  repeat' split
  all_goals exact ⟨rfl, rfl⟩

/-- Every registered database is one that can be built. -/
theorem Built.database {s : Schema} (h : s.Built) : ∀ db ∈ s.databases, db.Built := by
  induction h with
  | empty => exact fun db hdb => absurd hdb List.not_mem_nil
  | addDatabase _ hnew ih =>
    intro db hdb
    rcases mem_insertDatabase hdb with rfl | hdb
    · exact hnew
    · exact ih db hdb
  | addDictionaries _ ih =>
    intro db hdb
    rw [databases_addDictionaries] at hdb
    rcases mem_extendAll hdb with hdb | ⟨old, hold, rfl⟩
    · exact ih db hdb
    · exact (ih old hold).addDictionary
  | addAlias _ _ _ ih => exact ih
  | dropAlias _ aliasName ih =>
    rw [(dropAlias_same _ aliasName).1]
    exact ih

end Schema

end AblAnalysis
