import AblAnalysis.Proofs.Schema.Entries
import AblAnalysis.Proofs.Schema.Registration

/-!
What a description says as a whole. Its lines describe entries, each of which fits below those above it
(`Describes`); the entries tell the tables, each with the entries up to the next one (`tablesOf`). What has
been read is what the entries above give a database (`Progress.after`), and one more entry that fits keeps
it so (`take_after`). So a description is accepted just when its lines describe entries, and otherwise read
up to the first line that does not fit (`Database.readDescription_decides`).
-/

namespace AblAnalysis

/-! ### What a database gains -/

namespace Database

/-- A database with more sequences and tables. -/
def gain (db : Database) (sequences : List String) (tables : List Table) : Database :=
  sequences.foldl addSequence (tables.foldl (fun db t => (db.addTable t).2) db)

/-- Whether a database has gained sequences, and of the tables the first of every name that it did not have
a table of. -/
structure Gains (db : Database) (sequences : List String) (tables : List Table) (after : Database) :
    Prop where
  name : after.name = db.name
  sequences : after.sequences.toList = db.sequences.toList ++ sequences
  kept : db.tables.Sublist after.tables
  mem : ∀ t ∈ after.tables, t ∈ db.tables ++ tables
  first : FirstGiven after.tables (db.tables ++ tables)
  ordered : after.Ordered

theorem Gains.refl (db : Database) : db.Gains [] [] db where
  name := rfl
  sequences := by simp
  kept := .refl _
  mem := by simp
  first key := by simp
  ordered := db.ordered

theorem Gains.addSequence {db after : Database} {sequences : List String} {tables : List Table}
    (h : db.Gains sequences tables after) (name : String) :
    db.Gains (sequences ++ [name]) tables (after.addSequence name) :=
  { h with sequences := by simp [Database.addSequence, h.sequences] }

theorem Gains.addTable {db after : Database} {sequences : List String} {tables : List Table}
    (h : db.Gains sequences tables after) (t : Table) :
    db.Gains sequences (tables ++ [t]) (after.addTable t).2 where
  name := (after.addTable_same t).1.trans h.name
  sequences := by rw [(after.addTable_same t).2, h.sequences]
  kept := h.kept.trans (after.sublist_addTable t)
  mem u hu := by
    rcases mem_addTable hu with rfl | hu
    · simp
    · rw [← List.append_assoc]
      exact List.mem_append_left _ (h.mem u hu)
  first := by
    rw [← List.append_assoc]
    exact h.first.addTable t
  ordered := Database.ordered _

theorem gains_gain (db : Database) (sequences : List String) (tables : List Table) :
    db.Gains sequences tables (db.gain sequences tables) := by
  induction sequences using List.reverseRecOn with
  | nil =>
    induction tables using List.reverseRecOn with
    | nil => exact .refl db
    | append_singleton tables t ih =>
      rw [gain, List.foldl_concat]
      exact ih.addTable t
  | append_singleton sequences name ih =>
    rw [gain, List.foldl_concat]
    exact ih.addSequence name

theorem addTable_addSequence (db : Database) (t : Table) (name : String) :
    ((db.addSequence name).addTable t).2 = (db.addTable t).2.addSequence name := by
  rcases db.addTable_cases t with ⟨⟨u, hu, hkey⟩, hadd⟩ | ⟨hnew, place, hfree, hadd⟩
  · rcases (db.addSequence name).addTable_cases t with ⟨-, hadd'⟩ | ⟨hnew, -⟩
    · rw [hadd, hadd']
    · exact absurd hkey (hnew u hu)
  · rcases (db.addSequence name).addTable_cases t with ⟨⟨u, hu, hkey⟩, -⟩ | ⟨-, place', hfree', hadd'⟩
    · exact absurd hkey (hnew u hu)
    · obtain rfl : place' = place := Bisection.Slot.free.inj (hfree'.symm.trans hfree)
      rw [hadd, hadd']
      rfl

theorem gain_concat_sequence (db : Database) (sequences : List String) (tables : List Table)
    (name : String) :
    db.gain (sequences ++ [name]) tables = (db.gain sequences tables).addSequence name := by
  rw [gain, List.foldl_concat, ← gain]

theorem gain_concat_table (db : Database) (sequences : List String) (tables : List Table)
    (t : Table) :
    db.gain sequences (tables ++ [t]) = ((db.gain sequences tables).addTable t).2 := by
  induction sequences using List.reverseRecOn with
  | nil => rw [gain, List.foldl_concat, gain, List.foldl_nil, List.foldl_nil]
  | append_singleton sequences name ih =>
    rw [gain_concat_sequence, gain_concat_sequence, ih, addTable_addSequence]

end Database

namespace Description

/-! ### Entries below entries -/

/-- Whether an entry opens a table. -/
def Entry.opensTable : Entry → Bool
  | .table _ => true
  | _ => false

/-- The field that an entry declares. -/
def Entry.field? : Entry → Option Field
  | .field f => some f
  | _ => none

/-- The sequence that an entry declares. -/
def Entry.sequence? : Entry → Option String
  | .sequence name => some name
  | _ => none

/-- Whether some of the entries above opens a table. -/
def UnderTable (above : List Entry) : Prop :=
  ∃ e ∈ above, e.opensTable = true

/-- The entries above that belong to the open table. -/
def openSection (above : List Entry) : List Entry :=
  above.rtakeWhile (!·.opensTable)

/-- Whether an entry fits below others: fields and indexes stand under a table, and the components of an
index abbreviate fields declared above it in the same table. -/
def Fits (above : List Entry) : Entry → Prop
  | .sequence _ | .table _ => True
  | .field _ => UnderTable above
  | .index i => UnderTable above ∧
      ∀ c ∈ i.fields, ∃ f ∈ (openSection above).filterMap Entry.field?, f.AbbreviatedBy c.field

/-- Whether lines say entries, each of which fits below those above it. Empty lines do not count. -/
inductive Describes : List Entry → List String → List Entry → Prop
  | nil {above : List Entry} : Describes above [] []
  | blank {above entries : List Entry} {line : String} {rest : List String} :
      Text.trimEnd line = "" → Describes above rest entries → Describes above (line :: rest) entries
  | entry {above entries : List Entry} {e : Entry} {line : String} {rest : List String} :
      Says (Text.trimEnd line) e → Fits above e → Describes (above ++ [e]) rest entries →
      Describes above (line :: rest) (e :: entries)

instance (above : List Entry) : Decidable (UnderTable above) :=
  inferInstanceAs (Decidable (∃ e ∈ above, _))

instance (above : List Entry) : (e : Entry) → Decidable (Fits above e)
  | .sequence _ | .table _ => .isTrue trivial
  | .field _ => inferInstanceAs (Decidable (UnderTable above))
  | .index i => inferInstanceAs (Decidable (UnderTable above ∧ ∀ c ∈ i.fields, _))

/-- The entries that lines describe below others. -/
def describe? (above : List Entry) : List String → Option (List Entry)
  | [] => some []
  | line :: rest =>
    if Text.trimEnd line = "" then describe? above rest
    else
      match entryOf? (Text.trimEnd line) with
      | some e => if Fits above e then (describe? (above ++ [e]) rest).map (e :: ·) else none
      | none => none

/-- The sequences that entries declare. -/
def sequencesOf (entries : List Entry) : List String :=
  entries.filterMap Entry.sequence?

/-- A table with an entry of its section. -/
def addEntry (t : Table) : Entry → Table
  | .field f => (t.addField f).2
  | .index i => t.addResolved i
  | _ => t

/-- The tables that entries declare, each with the entries up to the next one. -/
def tablesOf (database : String) : List Entry → List Table
  | [] => []
  | .table name :: rest =>
    (rest.takeWhile (!·.opensTable)).foldl addEntry { name := name, database := database } ::
      tablesOf database rest
  | _ :: rest => tablesOf database rest

variable {database : String} {above : List Entry} {e : Entry}

theorem describe?_eq_some_iff {lines : List String} {entries : List Entry} :
    describe? above lines = some entries ↔ Describes above lines entries := by
  constructor
  · intro h
    induction lines generalizing above entries with
    | nil =>
      cases h
      exact .nil
    | cons line rest ih =>
      rw [describe?] at h
      split at h
      next hblank => exact .blank hblank (ih h)
      split at h
      next e he =>
        split at h
        next hfits =>
          obtain ⟨more, hmore, rfl⟩ := Option.map_eq_some_iff.1 h
          exact .entry (entryOf?_eq_some_iff.1 he) hfits (ih hmore)
        · cases h
      · cases h
  · intro h
    induction h with
    | nil => rfl
    | blank hline _ ih => rw [describe?, if_pos hline, ih]
    | @entry above entries e line rest hline hfits _ ih =>
      have hblank : Text.trimEnd line ≠ "" := by
        rintro hblank
        rw [hblank, ← entryOf?_eq_some_iff] at hline
        cases hline
      rw [describe?, if_neg hblank, entryOf?_eq_some_iff.2 hline]
      dsimp only
      rw [if_pos hfits, ih, Option.map_some]

/-! ### Sections -/

theorem tablesOf_of_not_underTable {entries : List Entry} (h : ¬ UnderTable entries) :
    tablesOf database entries = [] := by
  induction entries with
  | nil => rfl
  | cons e rest ih =>
    have hrest : ¬ UnderTable rest := fun ⟨e', he', hopens⟩ =>
      h ⟨e', List.mem_cons_of_mem _ he', hopens⟩
    cases e with
    | table name => exact absurd ⟨_, List.mem_cons_self .., rfl⟩ h
    | sequence name => exact ih hrest
    | field f => exact ih hrest
    | index i => exact ih hrest

/-- A section ends where a table is opened. -/
theorem takeWhile_append_opensTable {front rest : List Entry} (he : e.opensTable = true) :
    (front ++ e :: rest).takeWhile (!·.opensTable) = front.takeWhile (!·.opensTable) := by
  rw [List.takeWhile_append, List.takeWhile_cons_of_neg (by simp [he]), List.append_nil]
  split
  next hlength => exact ((List.takeWhile_prefix _).eq_of_length hlength).symm
  · rfl

theorem tablesOf_append_table (front rest : List Entry) (name : String) :
    tablesOf database (front ++ .table name :: rest) =
      tablesOf database front ++ tablesOf database (.table name :: rest) := by
  induction front with
  | nil => rfl
  | cons e front ih =>
    cases e with
    | table other =>
      rw [List.cons_append, tablesOf, takeWhile_append_opensTable rfl, ih, tablesOf]
      rfl
    | sequence name => exact ih
    | field f => exact ih
    | index i => exact ih

theorem tablesOf_section {body : List Entry} (h : ¬ UnderTable body) (name : String) :
    tablesOf database (.table name :: body) =
      [body.foldl addEntry { name := name, database := database }] := by
  have htake : body.takeWhile (!·.opensTable) = body :=
    List.takeWhile_eq_self_iff.2 fun e he => by
      simpa using fun hopens => h ⟨e, he, hopens⟩
  rw [tablesOf, htake, tablesOf_of_not_underTable h]

theorem Entry.eq_table {e : Entry} (h : e.opensTable = true) : ∃ name, e = .table name := by
  cases e with
  | table name => exact ⟨name, rfl⟩
  | _ => cases h

theorem underTable_concat : UnderTable (above ++ [e]) ↔ UnderTable above ∨ e.opensTable = true := by
  simp [UnderTable, or_and_right, exists_or]

/-- Under a table, there is the entry that opened it last. -/
theorem exists_section (h : UnderTable above) : ∃ front name body,
    above = front ++ .table name :: body ∧ ¬ UnderTable body := by
  induction above using List.reverseRecOn with
  | nil => exact absurd h (by simp [UnderTable])
  | append_singleton above e ih =>
    by_cases he : e.opensTable = true
    · obtain ⟨name, rfl⟩ := Entry.eq_table he
      exact ⟨above, name, [], rfl, by simp [UnderTable]⟩
    · obtain ⟨front, name, body, rfl, hbody⟩ := ih ((underTable_concat.1 h).resolve_right he)
      exact ⟨front, name, body ++ [e], by simp, by simp [underTable_concat, hbody, he]⟩

theorem openSection_eq {front body : List Entry} (name : String) (h : ¬ UnderTable body) :
    openSection (front ++ .table name :: body) = body := by
  have hbody : ∀ e ∈ body.reverse, (!e.opensTable) = true := fun e he => by
    simpa using fun hopens => h ⟨e, List.mem_reverse.1 he, hopens⟩
  rw [openSection, List.rtakeWhile, List.reverse_append, List.reverse_cons, List.append_assoc,
    List.takeWhile_append_of_pos hbody, List.singleton_append,
    List.takeWhile_cons_of_neg (by simp [Entry.opensTable]), List.append_nil, List.reverse_reverse]

theorem openSection_concat (he : e.opensTable = false) :
    openSection (above ++ [e]) = openSection above ++ [e] :=
  List.rtakeWhile_concat_pos _ _ _ (by simp [he])

theorem exists_abbreviatedBy_foldl {name : String} (body : List Entry) (t : Table) :
    (∃ f ∈ (body.foldl addEntry t).fields, f.AbbreviatedBy name) ↔
      (∃ f ∈ t.fields, f.AbbreviatedBy name) ∨
        ∃ f ∈ body.filterMap Entry.field?, f.AbbreviatedBy name := by
  induction body generalizing t with
  | nil => simp
  | cons e body ih =>
    rw [List.foldl_cons, ih]
    cases e with
    | field f =>
      rw [addEntry, Table.exists_abbreviatedBy_addField, or_assoc, List.filterMap_cons]
      simp [Entry.field?]
    | _ => simp [addEntry, Entry.field?, Table.addResolved, Table.addIndex]

/-- Whether entries leave the table `t` open and have closed other tables. -/
structure Leaves (database : String) (above : List Entry) (closed : List Table) (t : Table) :
    Prop where
  underTable : UnderTable above
  tables : tablesOf database above = closed ++ [t]
  next : ∀ e, e.opensTable = false →
    tablesOf database (above ++ [e]) = closed ++ [addEntry t e]
  fields : ∀ name, (∃ f ∈ t.fields, f.AbbreviatedBy name) ↔
    ∃ f ∈ (openSection above).filterMap Entry.field?, f.AbbreviatedBy name

theorem exists_leaves (database : String) (h : UnderTable above) :
    ∃ closed t, Leaves database above closed t := by
  obtain ⟨front, name, body, rfl, hbody⟩ := exists_section h
  refine ⟨tablesOf database front, body.foldl addEntry { name := name, database := database },
    h, ?_, fun e he => ?_, fun abbreviation => ?_⟩
  · rw [tablesOf_append_table, tablesOf_section hbody]
  · have hnext : ¬ UnderTable (body ++ [e]) := by simp [underTable_concat, hbody, he]
    rw [List.append_assoc, List.cons_append, tablesOf_append_table, tablesOf_section hnext,
      List.foldl_concat]
  · rw [openSection_eq name hbody, exists_abbreviatedBy_foldl]
    simp

theorem tablesOf_concat_table (name : String) : tablesOf database (above ++ [.table name]) =
    tablesOf database above ++ [{ name := name, database := database }] := by
  rw [tablesOf_append_table, tablesOf_section (by simp [UnderTable])]
  rfl

theorem tablesOf_concat_sequence (name : String) :
    tablesOf database (above ++ [.sequence name]) = tablesOf database above := by
  by_cases h : UnderTable above
  · obtain ⟨closed, t, hleaves⟩ := exists_leaves database h
    rw [hleaves.next _ rfl, hleaves.tables]
    rfl
  · have hnext : ¬ UnderTable (above ++ [.sequence name]) := by
      simp [underTable_concat, h, Entry.opensTable]
    rw [tablesOf_of_not_underTable h, tablesOf_of_not_underTable hnext]

/-! ### Steps below entries -/

/-- The progress of a database that has been given entries. -/
def Progress.after (db : Database) (above : List Entry) : Progress :=
  ⟨db.gain (sequencesOf above) (tablesOf db.name above).dropLast, (tablesOf db.name above).getLast?⟩

variable {db : Database}

theorem Leaves.after_eq {closed : List Table} {t : Table} (h : Leaves db.name above closed t) :
    Progress.after db above = ⟨db.gain (sequencesOf above) closed, some t⟩ := by
  rw [Progress.after, h.tables, List.dropLast_concat, List.getLast?_concat]

theorem after_of_not_underTable (h : ¬ UnderTable above) :
    Progress.after db above = ⟨db.gain (sequencesOf above) [], none⟩ := by
  rw [Progress.after, tablesOf_of_not_underTable h]
  rfl

/-- A table is open under a table. -/
theorem isSome_opened_after : (Progress.after db above).opened.isSome = true ↔ UnderTable above := by
  by_cases h : UnderTable above
  · obtain ⟨closed, t, hleaves⟩ := exists_leaves db.name h
    rw [hleaves.after_eq]
    exact iff_of_true rfl h
  · rw [after_of_not_underTable h]
    exact iff_of_false (by simp) h

/-- An entry can follow if it fits. -/
theorem admits_after_iff : (Progress.after db above).Admits e ↔ Fits above e := by
  cases e with
  | sequence name => exact .rfl
  | table name => exact .rfl
  | field f => exact isSome_opened_after
  | index i =>
    rw [Progress.Admits, Fits]
    by_cases h : UnderTable above
    · obtain ⟨closed, t, hleaves⟩ := exists_leaves db.name h
      simp [hleaves.after_eq, h, Table.Carries, hleaves.fields]
    · simp [after_of_not_underTable h, h]

theorem close_after : (Progress.after db above).close =
    ⟨db.gain (sequencesOf above) (tablesOf db.name above), none⟩ := by
  by_cases h : UnderTable above
  · obtain ⟨closed, t, hleaves⟩ := exists_leaves db.name h
    rw [hleaves.after_eq, hleaves.tables, db.gain_concat_table]
    rfl
  · rw [after_of_not_underTable h, tablesOf_of_not_underTable h]
    rfl

theorem sequencesOf_concat (h : e.sequence? = none) :
    sequencesOf (above ++ [e]) = sequencesOf above := by
  simp [sequencesOf, h]

/-- The entries of a section change no table but the open one. -/
theorem take_after_of_underTable (db : Database) (h : UnderTable above) (he : e.opensTable = false)
    (hsequence : e.sequence? = none) : ∃ closed t, Leaves db.name above closed t ∧
      Progress.after db (above ++ [e]) =
        ⟨db.gain (sequencesOf above) closed, some (addEntry t e)⟩ := by
  obtain ⟨closed, t, hleaves⟩ := exists_leaves db.name h
  refine ⟨closed, t, hleaves, ?_⟩
  rw [Progress.after, hleaves.next e he, List.dropLast_concat, List.getLast?_concat,
    sequencesOf_concat hsequence]

/-- An entry that fits is taken. -/
theorem take_after (h : Fits above e) :
    (Progress.after db above).take e = Progress.after db (above ++ [e]) := by
  cases e with
  | sequence name =>
    have hsequences : sequencesOf (above ++ [.sequence name]) = sequencesOf above ++ [name] := by
      simp [sequencesOf, Entry.sequence?]
    rw [Progress.take, Progress.after, Progress.after, tablesOf_concat_sequence, hsequences,
      db.gain_concat_sequence]
  | table name =>
    rw [Progress.take, close_after, Progress.after, tablesOf_concat_table, List.dropLast_concat,
      List.getLast?_concat, sequencesOf_concat rfl, (db.gains_gain _ _).name]
  | field f =>
    obtain ⟨closed, t, hleaves, hafter⟩ := take_after_of_underTable db h
      (e := .field f) rfl rfl
    rw [hafter, hleaves.after_eq]
    rfl
  | index i =>
    obtain ⟨closed, t, hleaves, hafter⟩ := take_after_of_underTable db h.1
      (e := .index i) rfl rfl
    rw [hafter, hleaves.after_eq]
    rfl

/-! ### Runs -/

/-- Lines that describe entries are read, and all tables are closed at the end. -/
theorem readLines_eq_ok (db : Database) {lines : List String} {entries : List Entry}
    (h : Describes above lines entries) (number : Nat) :
    readLines (Progress.after db above) number lines = (.ok (),
      db.gain (sequencesOf (above ++ entries)) (tablesOf db.name (above ++ entries))) := by
  induction h generalizing number with
  | nil => rw [readLines, close_after, List.append_nil]
  | blank hline _ ih =>
    rw [readLines, hline]
    exact ih (number + 1)
  | entry hline hfits _ ih =>
    rw [readLines, step_eq_ok number hline (admits_after_iff.2 hfits), take_after hfits]
    dsimp only
    rw [ih (number + 1), List.append_assoc]
    rfl

/-- Whether a line is the first bad one below entries. -/
structure Stops (above : List Entry) (number : Nat) (line : String) (e : Error) : Prop where
  notEmpty : Text.trimEnd line ≠ ""
  notFitting : ∀ entry, Says (Text.trimEnd line) entry → ¬ Fits above entry
  blames : Blames (UnderTable above) (Text.trimEnd line) number e

/-- Other lines are read up to a first bad one, and the table that is open there is lost. -/
theorem readLines_eq_error (db : Database) {lines : List String}
    (h : ¬ ∃ entries, Describes above lines entries) (number : Nat) :
    ∃ before line rest entries e, lines = before ++ line :: rest ∧
      Describes above before entries ∧ Stops (above ++ entries) (number + before.length) line e ∧
      readLines (Progress.after db above) number lines =
        (.error e, (Progress.after db (above ++ entries)).database) := by
  induction lines generalizing above number with
  | nil => exact absurd ⟨[], .nil⟩ h
  | cons line rest ih =>
    by_cases hblank : Text.trimEnd line = ""
    · have hrest : ¬ ∃ entries, Describes above rest entries := by
        rintro ⟨entries, hentries⟩
        exact h ⟨entries, .blank hblank hentries⟩
      obtain ⟨before, bad, rest, entries, e, rfl, hbefore, hstops, hread⟩ := ih hrest (number + 1)
      refine ⟨line :: before, bad, rest, entries, e, rfl, .blank hblank hbefore, ?_, ?_⟩
      · rwa [List.length_cons, Nat.add_comm before.length, ← Nat.add_assoc]
      · rw [readLines, hblank]
        exact hread
    by_cases hfits : ∃ e, Says (Text.trimEnd line) e ∧ Fits above e
    · obtain ⟨entry, hline, hfits⟩ := hfits
      have hrest : ¬ ∃ entries, Describes (above ++ [entry]) rest entries := by
        rintro ⟨entries, hentries⟩
        exact h ⟨entry :: entries, .entry hline hfits hentries⟩
      obtain ⟨before, bad, rest, entries, e, rfl, hbefore, hstops, hread⟩ := ih hrest (number + 1)
      rw [List.append_assoc] at hstops hread
      refine ⟨line :: before, bad, rest, entry :: entries, e, rfl, .entry hline hfits hbefore, ?_, ?_⟩
      · rwa [List.length_cons, Nat.add_comm before.length, ← Nat.add_assoc]
      · rw [readLines, step_eq_ok number hline (admits_after_iff.2 hfits), take_after hfits]
        exact hread
    · have hnone : ∀ entry, Says (Text.trimEnd line) entry → ¬ Fits above entry :=
        fun entry hline hentry => hfits ⟨entry, hline, hentry⟩
      obtain ⟨e, hstep, hblames⟩ := step_eq_error number (p := Progress.after db above)
        hblank fun entry hline => mt admits_after_iff.1 (hnone entry hline)
      rw [isSome_opened_after] at hblames
      refine ⟨[], line, rest, [], e, rfl, .nil, ?_, ?_⟩
      · rw [List.append_nil]
        exact ⟨hblank, hnone, hblames⟩
      · rw [readLines, hstep, List.append_nil]

/-! ### Index components -/

/-- Whether an index is one as written, its components by the names that the table declares. -/
structure Spelled (t : Table) (written stored : Index) : Prop where
  name : stored.name = written.name
  unique : stored.unique = written.unique
  primary : stored.primary = written.primary
  fields : List.Forall₂ (fun (c d : IndexField) => d.ascending = c.ascending ∧
    ∃ f ∈ t.fields, f.AbbreviatedBy c.field ∧ d.field = f.name) written.fields stored.fields

theorem Spelled.mono {t u : Table} {written stored : Index} (h : Spelled t written stored)
    (hsub : t.fields ⊆ u.fields) : Spelled u written stored :=
  { h with fields := h.fields.imp fun _ _ ⟨hascending, f, hf, hname⟩ =>
      ⟨hascending, f, hsub hf, hname⟩ }

theorem spelled_resolve {t : Table} {i : Index} (h : t.Carries i) :
    Spelled t i { i with fields := i.fields.map t.resolve } := by
  refine ⟨rfl, rfl, rfl, List.forall₂_map_right_iff.2 (List.forall₂_same.2 fun c hc => ?_)⟩
  obtain ⟨f, hf⟩ := Option.isSome_iff_exists.1 (Table.isSome_lookupField?_iff.2 (h c hc))
  obtain ⟨hmem, habbreviated⟩ := Table.of_lookupField?_eq_some hf
  exact ⟨rfl, f, hmem, habbreviated, by simp [Table.resolve, hf]⟩

/-- Whether all indexes of tables are spelled after entries. -/
def AllSpelled (entries : List Entry) (tables : List Table) : Prop :=
  ∀ t ∈ tables, ∀ i ∈ t.indexes, ∃ written, Entry.index written ∈ entries ∧ Spelled t written i

theorem AllSpelled.mono {entries more : List Entry} {tables : List Table}
    (h : AllSpelled entries tables) (hsub : entries ⊆ more) : AllSpelled more tables :=
  fun t ht i hi => (h t ht i hi).imp fun _ hw => ⟨hsub hw.1, hw.2⟩

theorem AllSpelled.concat {entries : List Entry} {tables : List Table} {t : Table}
    (h : AllSpelled entries tables) (ht : AllSpelled entries [t]) :
    AllSpelled entries (tables ++ [t]) := by
  intro u hu
  rcases List.mem_append.1 hu with hu | hu
  · exact h u hu
  · exact ht u hu

theorem allSpelled_addField {t : Table} (h : AllSpelled above [t]) (f : Field) :
    AllSpelled above [(t.addField f).2] := by
  intro u hu i hi
  obtain rfl := List.mem_singleton.1 hu
  rw [(t.addField_same f).2.2.2] at hi
  obtain ⟨written, hwritten, hspelled⟩ := h t (List.mem_singleton_self t) i hi
  exact ⟨written, hwritten, hspelled.mono (t.fields_subset_addField f)⟩

theorem allSpelled_addResolved {t : Table} (h : AllSpelled above [t]) {i : Index}
    (hi : Entry.index i ∈ above) (hcarries : t.Carries i) :
    AllSpelled above [t.addResolved i] := by
  intro u hu j hj
  obtain rfl := List.mem_singleton.1 hu
  rcases List.mem_append.1 hj with hj | hj
  · obtain ⟨written, hwritten, hspelled⟩ := h t (List.mem_singleton_self t) j hj
    exact ⟨written, hwritten, hspelled.mono (List.Subset.refl _)⟩
  · obtain rfl := List.mem_singleton.1 hj
    exact ⟨i, hi, (spelled_resolve hcarries).mono (List.Subset.refl _)⟩

/-- An entry that fits keeps all indexes spelled. -/
theorem AllSpelled.step (h : AllSpelled above (tablesOf database above)) (hfits : Fits above e) :
    AllSpelled (above ++ [e]) (tablesOf database (above ++ [e])) := by
  have hmore : AllSpelled (above ++ [e]) (tablesOf database above) :=
    h.mono (List.subset_append_left _ _)
  have hopen {closed : List Table} {t : Table} (hleaves : Leaves database above closed t) :
      AllSpelled (above ++ [e]) closed ∧ AllSpelled (above ++ [e]) [t] := by
    rw [hleaves.tables] at hmore
    exact ⟨fun u hu => hmore u (List.mem_append_left _ hu),
      fun u hu => hmore u (List.mem_append_right _ hu)⟩
  cases e with
  | sequence name => rwa [tablesOf_concat_sequence]
  | table name =>
    rw [tablesOf_concat_table]
    exact hmore.concat fun u hu i hi => by simp_all
  | field f =>
    obtain ⟨closed, t, hleaves⟩ := exists_leaves database hfits
    rw [hleaves.next _ rfl]
    exact (hopen hleaves).1.concat (allSpelled_addField (hopen hleaves).2 f)
  | index i =>
    obtain ⟨closed, t, hleaves⟩ := exists_leaves database hfits.1
    have hcarries : t.Carries i := fun c hc => (hleaves.fields c.field).2 (hfits.2 c hc)
    rw [hleaves.next _ rfl]
    exact (hopen hleaves).1.concat (allSpelled_addResolved (hopen hleaves).2 (by simp) hcarries)

theorem Describes.allSpelled {lines : List String} {entries : List Entry}
    (h : Describes above lines entries) (habove : AllSpelled above (tablesOf database above)) :
    AllSpelled (above ++ entries) (tablesOf database (above ++ entries)) := by
  induction h with
  | nil => rwa [List.append_nil]
  | blank _ _ ih => exact ih habove
  | entry _ hfits _ ih =>
    have hrest := ih (habove.step hfits)
    rwa [List.append_assoc] at hrest

end Description

/-! ### Descriptions -/

namespace Database

open Description

/-- Reading a description succeeds if its lines describe entries, and only then. The database then gains
all sequences and tables. Otherwise the first bad line is blamed, and the database gains the sequences above
it and the tables closed above it, but not the one that is open there. Either way, the components of the
indexes are spelled as the tables declare their fields. -/
theorem readDescription_decides (db : Database) (text : String) :
    ((db.readDescription text).1 = .ok () ↔ ∃ entries, Describes [] (Text.lines text) entries) ∧
    (∀ entries, Describes [] (Text.lines text) entries →
      db.Gains (sequencesOf entries) (tablesOf db.name entries) (db.readDescription text).2) ∧
    (∀ e, (db.readDescription text).1 = .error e → ∃ before line rest entries,
      Text.lines text = before ++ line :: rest ∧ Describes [] before entries ∧
      Stops entries (before.length + 1) line e ∧
      db.Gains (sequencesOf entries) (tablesOf db.name entries).dropLast
        (db.readDescription text).2) ∧
    ∀ before rest entries, Text.lines text = before ++ rest → Describes [] before entries →
      AllSpelled entries (tablesOf db.name entries) := by
  have hstart : db.readDescription text = readLines (Progress.after db []) 1 (Text.lines text) := rfl
  have hok {entries : List Entry} (h : Describes [] (Text.lines text) entries) :
      db.readDescription text =
        (.ok (), db.gain (sequencesOf entries) (tablesOf db.name entries)) :=
    hstart.trans (readLines_eq_ok db h 1)
  refine ⟨⟨fun h => ?_, fun ⟨entries, h⟩ => by rw [hok h]⟩, fun entries h => ?_, fun e he => ?_,
    fun before rest entries _ h => h.allSpelled fun t ht => absurd ht List.not_mem_nil⟩
  · by_contra hnone
    obtain ⟨before, line, rest, entries, e, -, -, -, hread⟩ := readLines_eq_error db hnone 1
    rw [hstart, hread] at h
    cases h
  · rw [hok h]
    exact db.gains_gain _ _
  · have hnone : ¬ ∃ entries, Describes [] (Text.lines text) entries := by
      rintro ⟨entries, h⟩
      rw [hok h] at he
      cases he
    obtain ⟨before, line, rest, entries, e', hlines, hbefore, hstops, hread⟩ :=
      readLines_eq_error db hnone 1
    rw [hstart, hread] at he ⊢
    obtain rfl := Except.error.inj he
    rw [Nat.add_comm] at hstops
    exact ⟨before, line, rest, entries, hlines, hbefore, hstops, db.gains_gain _ _⟩

/-- A description of customers and orders, with an index over an abbreviated field. -/
def sampleDescription : String :=
  "SNextOrder\n\nTCustomer\nFName:character:0  \nIByName:PU:AN\nTOrder\nFNum: Integer :0\n"

/-- What the lines of the description say. -/
def sampleEntries : List Entry := [
  .sequence "NextOrder", .table "Customer", .field { name := "Name", dataType := some .character },
  .index { name := "ByName", unique := true, primary := true, fields := [⟨"N", true⟩] },
  .table "Order", .field { name := "Num", dataType := some .integer }]

/-- The customers without their index, as the description declares them. -/
def sampleFields : Table :=
  (({ name := "Customer", database := "Sales" } : Table).addField
    { name := "Name", dataType := some .character }).2

/-- The customers, as the description declares them. -/
def sampleCustomers : Table :=
  sampleFields.addIndex { name := "ByName", unique := true, primary := true, fields := [⟨"Name", true⟩] }

theorem resolve_sampleFields : sampleFields.resolve ⟨"N", true⟩ = ⟨"Name", true⟩ := by
  decide +kernel

theorem head?_tablesOf_sampleEntries :
    (tablesOf "Sales" sampleEntries).head? = some sampleCustomers := by
  have hraw : (tablesOf "Sales" sampleEntries).head? = some (sampleFields.addResolved
      { name := "ByName", unique := true, primary := true, fields := [⟨"N", true⟩] }) := rfl
  rw [hraw, Table.addResolved, List.map_singleton, resolve_sampleFields]
  rfl

/-- The description is accepted, and the component of the index is the field that it abbreviates. -/
theorem readDescription_sampleDescription :
    (({ name := "Sales" } : Database).readDescription sampleDescription).1 = .ok () ∧
    sampleCustomers ∈
      (({ name := "Sales" } : Database).readDescription sampleDescription).2.tables := by
  obtain ⟨hok, hgains, -, -⟩ := readDescription_decides { name := "Sales" } sampleDescription
  have hdescribes : Describes [] (Text.lines sampleDescription) sampleEntries :=
    describe?_eq_some_iff.1 (by decide +kernel)
  obtain ⟨others, htables⟩ := List.head?_eq_some_iff.1 head?_tablesOf_sampleEntries
  have hfirst := (hgains _ hdescribes).first "customer"
  rw [htables] at hfirst
  refine ⟨hok.2 ⟨_, hdescribes⟩, List.mem_of_find?_eq_some (hfirst.trans ?_)⟩
  exact List.find?_cons_of_pos (by decide +kernel)

end Database

end AblAnalysis
