import AblAnalysis.Proofs.Schema.Building
import Mathlib.Data.List.Induction

/-!
What a database holds after any calls. Of the tables it is given under one name it keeps the first
(`Database.holds_after`). The tables of a description are given in the order in which it closes them; what is
open at a bad line is not given.
-/

namespace AblAnalysis

/-! ### First of a name -/

/-- Whether tables hold, under every name, the first one given under it. -/
def FirstGiven (tables given : List Table) : Prop :=
  ∀ key, tables.find? (fun t => t.key = key) = given.find? (fun t => t.key = key)

theorem FirstGiven.addTable {db : Database} {given : List Table} (h : FirstGiven db.tables given)
    (t : Table) : FirstGiven (db.addTable t).2.tables (given ++ [t]) := by
  intro key
  rw [List.find?_append, ← h key, ← List.find?_append]
  rcases db.addTable_cases t with ⟨⟨u, hu, hsame⟩, hadd⟩ | ⟨-, place, hfree, hadd⟩
  · rw [hadd, List.find?_append]
    by_cases hkey : t.key = key
    · have hfound : (db.tables.find? (fun v => v.key = key)).isSome :=
        List.find?_isSome.2 ⟨u, hu, decide_eq_true (hsame.trans hkey)⟩
      rw [Option.or_of_isSome hfound]
    · simp [hkey]
  · rw [hadd]
    have hperm : (db.push t place hfree).tables.Perm (db.tables ++ [t]) :=
      (Database.perm_push hfree).trans (List.perm_append_singleton ..).symm
    exact find?_of_perm hperm (db.push t place hfree).tables_distinct key

/-! ### Descriptions -/

namespace Description

/-- Whether a line opens a table. -/
def opens (line : String) : Bool :=
  line.toList.head? = some 'T'

/-- The tables that lines declare for the database `name`, in the order in which they are closed, when one
may be open before the first line. A table is closed by the line that opens the next one, or by the end. -/
def declared (name : String) (opened : Option Table) (number : Nat) : List String → List Table
  | [] => opened.toList
  | line :: rest =>
    match step ⟨{ name := name }, opened⟩ number (Text.trimEnd line) with
    | (.ok (), next) =>
      (if opens (Text.trimEnd line) then opened.toList else []) ++
        declared name next.opened (number + 1) rest
    | (.error _, _) => []

theorem Progress.name_close (p : Progress) : p.close.database.name = p.database.name := by
  rw [close]
  split
  · exact (p.database.addTable_same _).1
  · rfl

theorem Progress.firstGiven_close {p : Progress} {given : List Table}
    (h : FirstGiven p.database.tables given) :
    FirstGiven p.close.database.tables (given ++ p.opened.toList) := by
  rw [close]
  split
  next table hopened =>
    rw [hopened]
    exact h.addTable table
  next hopened =>
    rw [hopened, Option.toList_none, List.append_nil]
    exact h

theorem step_of_opens {line : String} (h : opens line = true) : ∃ rest, ∀ p number,
    step p number line =
      (.ok (), ⟨p.close.database, some { name := rest, database := p.database.name }⟩) := by
  obtain ⟨cs, hline⟩ := List.head?_eq_some_iff.1 (of_decide_eq_true h)
  refine ⟨String.ofList cs, fun p number => ?_⟩
  rw [step, hline]
  simp only [p.name_close]

theorem tables_step {line : String} (h : opens line = false) (p : Progress) (number : Nat) :
    (step p number line).2.database.tables = p.database.tables := by
  unfold step
  split
  · rfl
  next tag cs hline =>
    dsimp only
    split
    · rfl
    · exact absurd h (by simp [opens, hline])
    all_goals
      repeat' split
      all_goals rfl

/-- What a line says, and what it does to the open table, hangs on no other table. -/
theorem step_eq (p : Progress) (number : Nat) (line : String) :
    (step p number line).2.database.name = p.database.name ∧
      (step p number line).1 = (step ⟨{ name := p.database.name }, p.opened⟩ number line).1 ∧
      (step p number line).2.opened =
        (step ⟨{ name := p.database.name }, p.opened⟩ number line).2.opened := by
  cases hopens : opens line with
  | true =>
    obtain ⟨rest, hstep⟩ := step_of_opens hopens
    rw [hstep, hstep]
    exact ⟨p.name_close, rfl, rfl⟩
  | false =>
    obtain ⟨db, opened⟩ := p
    unfold step
    split
    · exact ⟨rfl, rfl, rfl⟩
    next tag cs hline =>
      dsimp only
      split
      · exact ⟨rfl, rfl, rfl⟩
      · exact absurd hopens (by simp [opens, hline])
      all_goals
        repeat' split
        all_goals exact ⟨rfl, rfl, rfl⟩

theorem firstGiven_step {p : Progress} {given : List Table}
    (h : FirstGiven p.database.tables given) (number : Nat) (line : String) :
    FirstGiven (step p number line).2.database.tables
      (given ++ if opens line then p.opened.toList else []) := by
  cases hopens : opens line with
  | true =>
    obtain ⟨rest, hstep⟩ := step_of_opens hopens
    rw [hstep, if_pos rfl]
    exact Progress.firstGiven_close h
  | false =>
    rw [tables_step hopens, if_neg Bool.false_ne_true, List.append_nil]
    exact h

/-- Reading lines gives the database the tables that they declare, in their order. -/
theorem firstGiven_readLines {p : Progress} {given : List Table}
    (h : FirstGiven p.database.tables given) (number : Nat) (lines : List String) :
    (readLines p number lines).2.name = p.database.name ∧
    FirstGiven (readLines p number lines).2.tables
      (given ++ declared p.database.name p.opened number lines) := by
  induction lines generalizing p number given with
  | nil => exact ⟨p.name_close, Progress.firstGiven_close h⟩
  | cons line rest ih =>
    have hfirst := firstGiven_step h number (Text.trimEnd line)
    obtain ⟨hname, houtcome, hopened⟩ := step_eq p number (Text.trimEnd line)
    rw [readLines, declared]
    rcases hstep : step p number (Text.trimEnd line) with ⟨outcome, next⟩
    rcases hbare : step ⟨{ name := p.database.name }, p.opened⟩ number (Text.trimEnd line)
      with ⟨outcome', next'⟩
    rw [hstep] at hfirst hname houtcome hopened
    rw [hbare] at houtcome hopened
    dsimp only at hfirst hname houtcome hopened
    cases houtcome
    cases outcome with
    | ok =>
      obtain ⟨hname', hrest⟩ := ih hfirst (number + 1)
      rw [hname, hopened, List.append_assoc] at hrest
      exact ⟨hname'.trans hname, hrest⟩
    | error e =>
      have hopens : opens (Text.trimEnd line) = false := by
        by_contra hopens
        obtain ⟨rest, hopening⟩ := step_of_opens (Bool.not_eq_false _ ▸ hopens)
        exact absurd (hstep.symm.trans (hopening p number)) (by simp)
      rw [hopens, if_neg Bool.false_ne_true] at hfirst
      exact ⟨hname, hfirst⟩

end Description

/-! ### Databases -/

namespace Database

/-- A call on a database. -/
inductive Call where
  | addTable (t : Table)
  | addSequence (name : String)
  | readDescription (text : String)
  | addDictionary

/-- The database after a call. -/
def Call.run (db : Database) : Call → Database
  | .addTable t => (db.addTable t).2
  | .addSequence name => db.addSequence name
  | .readDescription text => (db.readDescription text).2
  | .addDictionary => db.withDictionary

/-- The tables that a call gives the database `name`, in order. -/
def Call.given (name : String) : Call → List Table
  | .addTable t => [t]
  | .addSequence _ => []
  | .readDescription text => Description.declared name none 1 (Text.lines text)
  | .addDictionary => Description.declared name none 1 dictionaryLines

/-- The database `name` after calls. -/
def after (name : String) (calls : List Call) : Database :=
  calls.foldl Call.run { name := name }

theorem after_concat (name : String) (calls : List Call) (call : Call) :
    after name (calls ++ [call]) = call.run (after name calls) :=
  List.foldl_append

theorem after_addDictionary (name : String) (calls : List Call) :
    after name (calls ++ [.addDictionary]) = (after name calls).withDictionary :=
  after_concat name calls .addDictionary

/-- Whether a database of a name has, in the order of their keys, the first table of every name among those
given. -/
structure Holds (db : Database) (name : String) (given : List Table) : Prop where
  name : db.name = name
  ordered : db.Ordered
  first : FirstGiven db.tables given

theorem Holds.readLines {db : Database} {name : String} {given : List Table} (h : db.Holds name given)
    (lines : List String) :
    (db.afterLines lines).Holds name (given ++ Description.declared name none 1 lines) := by
  obtain ⟨rfl, -, hfirst⟩ := h
  obtain ⟨hname, hread⟩ := Description.firstGiven_readLines (p := ⟨db, none⟩) hfirst 1 lines
  exact ⟨hname, Database.ordered _, hread⟩

theorem Holds.run {db : Database} {name : String} {given : List Table} (h : db.Holds name given)
    (call : Call) : (call.run db).Holds name (given ++ call.given name) := by
  cases call with
  | addTable t =>
    exact ⟨(db.addTable_same t).1.trans h.name, Database.ordered _, h.first.addTable t⟩
  | addSequence sequence =>
    rw [Call.given, List.append_nil]
    exact ⟨h.name, h.ordered, h.first⟩
  | readDescription text => exact h.readLines (Text.lines text)
  | addDictionary => exact h.readLines dictionaryLines

/-- A database holds what it was given. -/
theorem holds_after (name : String) (calls : List Call) :
    (after name calls).Holds name (calls.flatMap (Call.given name)) := by
  induction calls using List.reverseRecOn with
  | nil => exact ⟨rfl, .nil, fun key => rfl⟩
  | append_singleton calls call ih =>
    rw [after_concat, List.flatMap_append, List.flatMap_singleton]
    exact ih.run call

end Database

end AblAnalysis
