import AblAnalysis.Proofs.Resolver.FullNames
import AblAnalysis.Proofs.Resolver.Visibility

/-!
Which declaration a table name stands for. A scope has of each name what was said of it last while the
scope was the current one (`kind_run`), and what was said of a buffer is what its table stood for then.
Of the scopes around the current place the innermost one that has the name decides, even if it says
nothing, and only after all of them the class and the schema (`tableKind?_run`).
-/

namespace AblAnalysis.Resolver

variable {r : Resolver} {name : String} {id : ScopeId}

/-- Whether a change declares a table or buffer of a name. -/
def Change.declaresTable (name : String) : Change → Bool
  | .defineTable other _ | .defineBuffer other _ => Text.lowercase other = Text.lowercase name
  | _ => false

/-- The class that a change begins. -/
def Change.begunClass? : Change → Option String
  | .defineClass name | .defineAbstractClass name | .defineInterface name | .defineEnum name => some name
  | _ => none

/-- What a declaration says about its name: that of a buffer, what its table stands for. -/
def said (r : Resolver) : Change → Option StoreKind
  | .defineTable _ kind => some kind
  | .defineBuffer _ table => r.tableKind? table .schemaFirst
  | _ => none

/-- Whether a change declares a table or buffer of a name in a scope. -/
def Declares (r : Resolver) (change : Change) (id : ScopeId) (name : String) : Prop :=
  r.current = id ∧ change.declaresTable name = true

/-- Whether changes declare a table or buffer of a name while a scope is the current one. -/
def TableDeclared (r : Resolver) (changes : List Change) (id : ScopeId) (name : String) : Prop :=
  ∃ before change after, changes = before ++ change :: after ∧ (r.run before).Declares change id name

/-- Whether the last of the changes that declare a table or buffer of a name while a scope is the current
one says a kind. -/
def SaidLast (r : Resolver) (changes : List Change) (id : ScopeId) (name : String)
    (kind : Option StoreKind) : Prop :=
  ∃ before change after, changes = before ++ change :: after ∧
    (r.run before).Declares change id name ∧ (r.run before).said change = kind ∧
    ¬ (r.run (before ++ [change])).TableDeclared after id name

/-- Whether the class of the unit or one of its known ancestors has a buffer of a name. -/
def Inherits (r : Resolver) (name : String) : Prop :=
  ∃ info a, r.root.classInfo = some info ∧ r.catalog.Lineage info a ∧
    ∃ buffer ∈ a.buffers, Text.equalIgnoringAsciiCase buffer (Text.lowercase name) = true

/-- Whether the listed tables and the class of the unit are still the same. -/
structure Beside (r r' : Resolver) : Prop where
  allTables : r'.schema.allTables = r.schema.allTables
  classInfo : r'.root.classInfo = r.root.classInfo

/-! ### One change -/

/-- A change that declares no table leaves the tables of all scopes alone. -/
theorem tables_step {change : Change} (hplaced : r.Placed r.current)
    (h : ∀ name, change.declaresTable name = false) (id : ScopeId) :
    ((r.step change).scope id).tables = (r.scope id).tables := by
  have hedit : ∀ f : Scope → Scope, (∀ s, (f s).tables = s.tables) →
      ((r.modifyCurrent f).scope id).tables = (r.scope id).tables := by
    intro f hf
    rw [scope_modifyCurrent r f hplaced]
    split
    · exact hf _
    · rfl
  cases change with
  | defineTable other _ | defineBuffer other _ =>
    exact absurd (h other) (by simp [Change.declaresTable])
  | defineVar _ | defineInlineVar _ => exact hedit _ fun _ => rfl
  | defineLastField =>
    simp only [step, defineLastField]
    split
    · exact hedit _ fun _ => rfl
    · rfl
  | openScope context => exact congrArg Scope.tables (scope_openScope r context id)
  | openRoutine other context => exact congrArg Scope.tables (scope_openRoutine r other context id)
  | closeScope | closeRoutine => exact congrArg Scope.tables (scope_closeScope r id)
  | enter context =>
    simp only [step, enter]
    split
    · exact congrArg Scope.tables (scope_congr rfl rfl id)
    · rfl
  | exit context =>
    simp only [step, exit]
    split
    · exact congrArg Scope.tables (scope_closeScope r id)
    · rfl
  | copyTable other =>
    simp only [step, copyTable]
    split
    · rfl
    split <;> exact congrArg Scope.tables (scope_congr rfl rfl id)
  | _ => exact congrArg Scope.tables (scope_congr rfl rfl id)

theorem table?_defineTable (s : Scope) (other : String) (entry : TableEntry) (name : String) :
    (s.defineTable other entry).table? name =
      if Text.lowercase other = Text.lowercase name then some entry else s.table? name := by
  rw [Scope.table?, Scope.defineTable, Dict.get?_insert, Scope.table?]
  simp only [eq_comm]

/-- The second name of a buffer has a dot. -/
theorem dot_mem_qualifiedBuffer? {entry : TableEntry} {buffer qualified : String}
    (h : qualifiedBuffer? entry buffer = some qualified) : '.' ∈ qualified.toList := by
  rw [qualifiedBuffer?] at h
  split at h
  · obtain ⟨database, -, rfl⟩ := Option.map_eq_some_iff.1 h
    simp
  · exact absurd h (by simp)

/-- Of names without a dot, a buffer declares its own. -/
theorem kind_defineBuffer (hplaced : r.Placed r.current) (hdot : '.' ∉ name.toList)
    (buffer table : String) (id : ScopeId) :
    (((r.defineBuffer buffer table).scope id).table? name).map (·.kind) =
      if r.current = id ∧ Text.lowercase buffer = Text.lowercase name then
        some (r.tableKind? table .schemaFirst)
      else ((r.scope id).table? name).map (·.kind) := by
  have hkind : (r.bufferEntry (Text.lowercase table)).kind = r.tableKind? table .schemaFirst := by
    simp only [bufferEntry, tableKind?, Text.lowercase_lowercase]
  rw [defineBuffer, scope_modifyCurrent r _ hplaced]
  by_cases hid : r.current = id
  · subst hid
    simp only [true_and, if_true, table?_defineTable, Text.lowercase_lowercase]
    by_cases hname : Text.lowercase buffer = Text.lowercase name
    · rw [if_pos hname, if_pos hname, Option.map_some, hkind]
    · rw [if_neg hname, if_neg hname]
      split
      · rename_i qualified hqualified
        rw [table?_defineTable, if_neg]
        intro heq
        have hmem := (Text.dot_mem_lowercase_iff qualified).2 (dot_mem_qualifiedBuffer? hqualified)
        rw [heq, Text.dot_mem_lowercase_iff] at hmem
        exact hdot hmem
      · rfl
  · rw [if_neg (Ne.symm hid), if_neg fun h => hid h.1]

/-- What a change says about a name is kept in the current scope, and nothing else is. -/
theorem kind_step (hplaced : r.Placed r.current) (hdot : '.' ∉ name.toList) (change : Change)
    (id : ScopeId) : (((r.step change).scope id).table? name).map (·.kind) =
      if r.current = id ∧ change.declaresTable name = true then some (r.said change)
      else ((r.scope id).table? name).map (·.kind) := by
  cases change with
  | defineTable other kind =>
    rw [step, defineTable, scope_modifyCurrent r _ hplaced]
    by_cases hid : r.current = id
    · subst hid
      rw [if_pos rfl, table?_defineTable]
      by_cases hname : Text.lowercase other = Text.lowercase name
      · simp [Change.declaresTable, said, hname]
      · simp [Change.declaresTable, hname]
    · rw [if_neg (Ne.symm hid), if_neg fun h => hid h.1]
  | defineBuffer buffer table =>
    rw [step, kind_defineBuffer hplaced hdot]
    simp [Change.declaresTable, said]
  | _ =>
    rw [Scope.table?, tables_step hplaced (fun _ => rfl) id, if_neg (by simp [Change.declaresTable])]
    rfl

/-! ### What was said last -/

theorem tableDeclared_concat (r : Resolver) (changes : List Change) (last : Change) (id : ScopeId)
    (name : String) : r.TableDeclared (changes ++ [last]) id name ↔
      r.TableDeclared changes id name ∨ (r.run changes).Declares last id name :=
  exists_split_concat changes last

theorem saidLast_concat (r : Resolver) (changes : List Change) (last : Change) (id : ScopeId)
    (name : String) (kind : Option StoreKind) : r.SaidLast (changes ++ [last]) id name kind ↔
      (r.run changes).Declares last id name ∧ (r.run changes).said last = kind ∨
        ¬ (r.run changes).Declares last id name ∧ r.SaidLast changes id name kind := by
  constructor
  · rintro ⟨before, change, after, heq, hdeclares, hsaid, hnot⟩
    rcases cut_concat heq with ⟨rfl, rfl, rfl⟩ | ⟨rest, rfl, rfl⟩
    · exact .inl ⟨hdeclares, hsaid⟩
    · rw [tableDeclared_concat, not_or, ← run_append] at hnot
      refine .inr ⟨?_, before, change, rest, rfl, hdeclares, hsaid, hnot.1⟩
      simpa using hnot.2
  · rintro (⟨hdeclares, hsaid⟩ | ⟨hlast, before, change, after, rfl, hdeclares, hsaid, hnot⟩)
    · refine ⟨changes, last, [], rfl, hdeclares, hsaid, ?_⟩
      rintro ⟨before, change, after, heq, -⟩
      exact absurd heq (by simp)
    · refine ⟨before, change, after ++ [last], by simp, hdeclares, hsaid, ?_⟩
      rw [tableDeclared_concat, not_or, ← run_append]
      exact ⟨hnot, by simpa using hlast⟩

theorem tableDeclared_iff (r : Resolver) (changes : List Change) (id : ScopeId) (name : String) :
    r.TableDeclared changes id name ↔ ∃ kind, r.SaidLast changes id name kind := by
  induction changes using List.reverseRecOn with
  | nil => simp [TableDeclared, SaidLast]
  | append_singleton changes last ih =>
    simp only [tableDeclared_concat, ih, saidLast_concat, exists_or, exists_and_left, exists_eq',
      and_true]
    tauto

/-- A scope has of each name what was said of it last. -/
theorem kind_run (schema : Schema) (infos : List ClassInfo) (changes : List Change) (id : ScopeId)
    (hdot : '.' ∉ name.toList) (kind : Option StoreKind) :
    ((((start schema infos).run changes).scope id).table? name).map (·.kind) = some kind ↔
      (start schema infos).SaidLast changes id name kind := by
  induction changes using List.reverseRecOn with
  | nil =>
    have hnone : ((start schema infos).scope id).table? name = none := by
      cases id <;> simp [start, scope, Scope.table?]
    simp [SaidLast, run, hnone]
  | append_singleton changes last ih =>
    have hplaced := (nested_run schema infos changes).current
    rw [run_concat, kind_step hplaced hdot, saidLast_concat, ← ih]
    simp only [Declares]
    split
    · rename_i hdeclares
      simp [hdeclares]
    · rename_i hnot
      simp [hnot]

/-! ### The schema and the class -/

theorem beside_modifyCurrent (r : Resolver) (f : Scope → Scope) : Beside r (r.modifyCurrent f) := by
  simp only [modifyCurrent]
  split <;> exact ⟨rfl, rfl⟩

theorem beside_openScope (r : Resolver) (context : Option Nat) : Beside r (r.openScope context) := by
  cases context <;> exact ⟨rfl, rfl⟩

theorem beside_closeScope (r : Resolver) : Beside r r.closeScope := by
  rw [closeScope_eq]
  exact ⟨rfl, rfl⟩

theorem beside_openRoutine (r : Resolver) (name : String) (context : Option Nat) :
    Beside r (r.openRoutine name context) := by
  cases h : r.routines.get? (Text.lowercase name) with
  | some id =>
    obtain ⟨contexts, heq, -⟩ := openRoutine_of_some h context
    rw [heq]
    exact ⟨rfl, rfl⟩
  | none =>
    rw [openRoutine_of_none h context]
    exact ⟨(beside_openScope r context).allTables, rfl⟩

/-- Only beginning a class changes the class, and no change registers a database. -/
theorem beside_step {change : Change} (h : change.begunClass? = none) : Beside r (r.step change) := by
  cases change with
  | defineClass | defineAbstractClass | defineInterface | defineEnum =>
    exact absurd h (by simp [Change.begunClass?])
  | defineVar _ | defineInlineVar _ | defineTable _ _ | defineBuffer _ _ =>
    simp only [step, defineVar, defineInlineVar, defineTable, defineBuffer, beside_modifyCurrent]
  | defineLastField =>
    simp only [step, defineLastField, defineInlineVar]
    split
    · exact beside_modifyCurrent r _
    · exact ⟨rfl, rfl⟩
  | openScope context => exact beside_openScope r context
  | openRoutine other context => exact beside_openRoutine r other context
  | closeScope | closeRoutine => exact beside_closeScope r
  | enter context =>
    simp only [step, enter]
    split <;> exact ⟨rfl, rfl⟩
  | exit context =>
    simp only [step, exit]
    split
    · exact beside_closeScope r
    · exact ⟨rfl, rfl⟩
  | copyTable other =>
    simp only [step, copyTable]
    split
    · exact ⟨rfl, rfl⟩
    split <;> exact ⟨rfl, rfl⟩
  | dropAlias other =>
    simp only [step, Schema.dropAlias]
    split
    · exact ⟨rfl, rfl⟩
    split <;> exact ⟨rfl, rfl⟩
  | importPath text =>
    simp only [step]
    exact ⟨rfl, rfl⟩
  | _ => exact ⟨rfl, rfl⟩

/-- Beginning a class attaches what is known of it. -/
theorem step_of_begunClass? {change : Change} {name : String} (h : change.begunClass? = some name) :
    (r.step change).root.classInfo = r.catalog.find? (dequote name) ∧
      (r.step change).schema = r.schema := by
  cases change with
  | defineClass | defineAbstractClass | defineInterface | defineEnum =>
    obtain rfl := Option.some.inj h
    exact ⟨rfl, rfl⟩
  | _ => exact absurd h (by simp [Change.begunClass?])

theorem allTables_run (r : Resolver) (changes : List Change) :
    (r.run changes).schema.allTables = r.schema.allTables := by
  induction changes generalizing r with
  | nil => rfl
  | cons change changes ih =>
    refine (ih _).trans ?_
    cases h : change.begunClass? with
    | none => exact (beside_step h).allTables
    | some name => rw [(step_of_begunClass? h).2]

theorem classInfo_run {changes : List Change} (h : ∀ change ∈ changes, change.begunClass? = none) :
    (r.run changes).root.classInfo = r.root.classInfo := by
  induction changes generalizing r with
  | nil => rfl
  | cons change changes ih =>
    rw [List.forall_mem_cons] at h
    exact (ih h.2).trans (beside_step h.1).classInfo

/-- A name without a dot stands for the same table in schemas that list the same tables. -/
theorem undeclared?_congr {schema schema' : Schema} (h : schema'.allTables = schema.allTables)
    (hdot : '.' ∉ name.toList) : undeclared? schema' name = undeclared? schema name := by
  have hlower : '.' ∉ (Text.lowercase name).toList := by simpa using hdot
  rw [undeclared?, undeclared?, Schema.lookupTable?, Schema.lookupTable?, Text.cutFirst_eq_none hlower, h]

/-! ### What a name stands for -/

theorem inherits_iff (h : r.catalog.Named) :
    r.catalog.anyInChain r.root.classInfo (·.hasBuffer (Text.lowercase name)) = true ↔
      r.Inherits name := by
  rw [Catalog.anyInChain_iff h]
  simp only [Inherits, ClassInfo.hasBuffer, ClassInfo.listed, List.any_eq_true]

/-- A name that no visible scope has is looked for in the class and then in the schema. -/
theorem tableKind?_of_absent (hnamed : r.catalog.Named) (hdot : '.' ∉ name.toList)
    (h : ∀ s ∈ r.chain, s.table? name = none) :
    (r.Inherits name → r.tableKind? name .scopeFirst = some .temporary) ∧
      (¬ r.Inherits name → r.tableKind? name .scopeFirst = undeclared? r.schema name) := by
  have hnone : r.chain.findSome? (·.table? (Text.lowercase name)) = none :=
    List.findSome?_eq_none_iff.2 fun s hs => by simpa [Scope.table?] using h s hs
  rw [tableKind?_scopeFirst hdot, declared?, hnone]
  refine ⟨fun hinherits => ?_, fun hnot => ?_⟩
  · rw [if_pos ((inherits_iff hnamed).2 hinherits)]
    rfl
  · rw [if_neg (mt (inherits_iff hnamed).1 hnot)]
    rfl

/-- The innermost scope that has a name decides; if it does not know a kind, or if no scope has the name
and no class, the schema decides. -/
theorem tableKind?_run (schema : Schema) (infos : List ClassInfo) (changes : List Change)
    (name : String) (hdot : '.' ∉ name.toList) :
    let begun := start schema infos
    let r := begun.run changes
    (∀ inside id outside, r.chainFrom r.current = inside ++ id :: outside →
      (∀ inner ∈ inside, ¬ begun.TableDeclared changes inner name) →
      ∀ kind, begun.SaidLast changes id name kind →
        r.tableKind? name .scopeFirst = kind.or (undeclared? schema name)) ∧
    ((∀ id ∈ r.chainFrom r.current, ¬ begun.TableDeclared changes id name) →
      (r.Inherits name → r.tableKind? name .scopeFirst = some .temporary) ∧
      (¬ r.Inherits name → r.tableKind? name .scopeFirst = undeclared? schema name)) ∧
    ∀ id, (begun.TableDeclared changes id name ↔ ∃ kind, begun.SaidLast changes id name kind) ∧
      ∀ kind, ((r.scope id).table? name).map (·.kind) = some kind ↔
        begun.SaidLast changes id name kind := by
  intro begun r
  have hkind : ∀ id kind, ((r.scope id).table? name).map (·.kind) = some kind ↔
      begun.SaidLast changes id name kind := fun id => kind_run schema infos changes id hdot
  have hdeclared : ∀ id, begun.TableDeclared changes id name ↔
      ∃ kind, begun.SaidLast changes id name kind := fun id => tableDeclared_iff begun changes id name
  have habsent : ∀ id, ¬ begun.TableDeclared changes id name → (r.scope id).table? name = none := by
    intro id hnot
    cases hentry : (r.scope id).table? name with
    | none => rfl
    | some entry =>
      have hsaid := (hkind id entry.kind).1 (by rw [hentry, Option.map_some])
      exact absurd ((hdeclared id).2 ⟨entry.kind, hsaid⟩) hnot
  have hnamed : r.catalog.Named := named_run (Catalog.named_injectAll infos) changes
  have hschema : undeclared? r.schema name = undeclared? schema name :=
    undeclared?_congr (allTables_run begun changes) hdot
  refine ⟨?_, fun hall => ?_, fun id => ⟨hdeclared id, hkind id⟩⟩
  · intro inside id outside hchain hinside kind hsaid
    obtain ⟨entry, hentry, rfl⟩ := Option.map_eq_some_iff.1 ((hkind id kind).2 hsaid)
    have hnone : ∀ inner ∈ inside, (r.scope inner).table? (Text.lowercase name) = none :=
      fun inner hinner => by simpa [Scope.table?] using habsent inner (hinside inner hinner)
    have hfound : r.chain.findSome? (·.table? (Text.lowercase name)) = some entry := by
      rw [Scope.table?] at hentry
      rw [chain, hchain, List.map_append, List.map_cons, List.findSome?_append,
        List.findSome?_eq_none_iff.2 (by simpa using hnone)]
      simp [Scope.table?, hentry]
    rw [tableKind?_scopeFirst hdot, hschema, declared?, hfound]
    rfl
  · rw [← hschema]
    refine tableKind?_of_absent hnamed hdot ?_
    simpa [chain] using fun id hid => habsent id (hall id hid)

theorem lookupTable?_empty (hdot : '.' ∉ name.toList) : ({} : Schema).lookupTable? name = none := by
  rw [Schema.lookupTable?, Text.cutFirst_eq_none hdot]
  simp [Abbreviation.uniqueMatch?, Abbreviation.ceiling, Abbreviation.headMatch?]

/-- Without databases, a name stands for nothing unless it is that of the buffer of every unit. -/
theorem undeclared?_empty (hdot : '.' ∉ name.toList) (hname : Text.lowercase name ≠ procTextBuffer) :
    undeclared? {} name = none := by
  have hlower : '.' ∉ (Text.lowercase name).toList := by simpa using hdot
  rw [undeclared?, lookupTable?_empty hlower, if_neg (by simp), if_neg hname]

/-- A work-table, and in a scope inside a buffer of its name for a table that there is not. -/
def sampleInner : List Change :=
  [.defineTable "Item" .work, .openScope none, .defineBuffer "ITEM" "Lost"]

/-- The same after the inner scope has been closed. -/
def sampleOuter : List Change :=
  sampleInner ++ [.closeScope]

theorem said_sampleInner :
    ((start {} []).run [.defineTable "Item" .work, .openScope none]).said (.defineBuffer "ITEM" "Lost") =
      none := by
  have hdot : '.' ∉ "Lost".toList := by decide
  have hfull : ((start {} []).run [.defineTable "Item" .work, .openScope none]).isFullSchemaName
      (Text.lowercase "Lost") = false := by
    rw [isFullSchemaName_of_dotless hdot]
    exact congrArg (Option.any _) (lookupTable?_empty hdot)
  have hundeclared : undeclared? {} "Lost" = none := undeclared?_empty hdot (by decide +kernel)
  rw [said, tableKind?_of_not_full hfull, tableKind?_scopeFirst hdot]
  refine (congrArg _ hundeclared).trans ?_
  decide +kernel

/-- The buffer hides the work-table, though it stands for nothing, until its scope is closed. -/
theorem tableKind?_sampleInner : '.' ∉ "item".toList ∧
    ((start {} []).run sampleInner).tableKind? "item" .scopeFirst = none ∧
    ((start {} []).run sampleOuter).tableKind? "item" .scopeFirst = some .work := by
  have hdot : '.' ∉ "item".toList := by decide
  have hinner : (start {} []).SaidLast sampleInner (.inner 0) "item" none :=
    ⟨[.defineTable "Item" .work, .openScope none], _, [], rfl, ⟨by decide +kernel, by decide +kernel⟩,
      said_sampleInner, by simp [TableDeclared]⟩
  have houter : (start {} []).SaidLast sampleOuter .root "item" (some .work) :=
    (kind_run {} [] sampleOuter .root hdot _).1 (by decide +kernel)
  have hchain : ((start {} []).run sampleInner).chainFrom ((start {} []).run sampleInner).current =
      [] ++ .inner 0 :: [.root] := by decide +kernel
  have hroot : ((start {} []).run sampleOuter).chainFrom ((start {} []).run sampleOuter).current =
      [] ++ .root :: [] := by decide +kernel
  refine ⟨hdot, ?_, ?_⟩
  · rw [(tableKind?_run {} [] sampleInner "item" hdot).1 _ _ _ hchain (by simp) _ hinner, Option.none_or]
    exact undeclared?_empty hdot (by decide +kernel)
  · exact ((tableKind?_run {} [] sampleOuter "item" hdot).1 _ _ _ hroot (by simp) _ houter).trans
      Option.some_or

end AblAnalysis.Resolver
