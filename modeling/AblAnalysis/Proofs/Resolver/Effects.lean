import AblAnalysis.Resolver.Basic

/-!
What changes do to scopes. There are many changes and few effects (`Effect`): the current scope is
edited, one is opened inside it, another one becomes the current one, a routine is begun, or scopes are
left alone. All that is kept along a run is proved from these.
-/

namespace AblAnalysis.Resolver

variable {r r' : Resolver} {id : ScopeId}

/-- Whether a scope has been opened. -/
def Placed (r : Resolver) : ScopeId → Prop
  | .root => True
  | .inner i => i < r.inner.size

/-- The variables of a scope, or only those that were declared where they were first used. -/
def Scope.names (onlyInline : Bool) (s : Scope) : List String :=
  if onlyInline then s.inlineVars else s.vars

namespace Change

/-- The variable that a change declares, if `last` is the field that was referred to last. -/
def declares? (last : Option String) (onlyInline : Bool) : Change → Option String
  | .defineVar name => if onlyInline then none else some name
  | .defineInlineVar name => some name
  | .defineLastField => last
  | _ => none

/-- The field that a change refers to. -/
def refers? : Change → Option String
  | .referField name => some name
  | _ => none

/-- Whether a change begins a routine. -/
def begins (name : String) : Change → Bool
  | .openRoutine other _ => Text.lowercase other = Text.lowercase name
  | _ => false

/-- Whether the current scope stays the current one, whatever there is. -/
def stays : Change → Bool
  | .openScope _ | .closeScope | .enter _ | .exit _ | .openRoutine _ _ | .closeRoutine => false
  | _ => true

/-- Whether a change declares in a scope what a function adds to it. -/
structure Edits (change : Change) (last : Option String) (f : Scope → Scope) : Prop where
  stays : change.stays = true
  refers : change.refers? = none
  names : ∀ (s : Scope) (onlyInline : Bool) (key : String), key ∈ (f s).names onlyInline ↔
    key ∈ s.names onlyInline ∨
      (change.declares? last onlyInline).map Text.lowercase = some key

end Change

/-- Whether a change leaves scopes alone. -/
structure Aside (r : Resolver) (change : Change) (r' : Resolver) : Prop where
  inner : r'.inner = r.inner
  scope : r'.root.scope = r.root.scope
  current : r'.current = r.current
  routines : r'.routines = r.routines
  contexts : r'.contexts = r.contexts
  catalog : r'.catalog = r.catalog ∨ ∃ info, r'.catalog = r.catalog.inject info
  lastField : r'.lastField = change.refers?.or r.lastField
  declares : ∀ onlyInline, change.declares? r.lastField onlyInline = none
  begins : ∀ name, change.begins name = false

/-- What a change can do. -/
inductive Effect (r : Resolver) : Change → Resolver → Prop
  | edit {change : Change} {f : Scope → Scope} : change.Edits r.lastField f →
      Effect r change (r.modifyCurrent f)
  | aside {change : Change} {r' : Resolver} : Aside r change r' → Effect r change r'
  | openScope (context : Option Nat) : Effect r (.openScope context) (r.openScope context)
  | closeScope : Effect r .closeScope r.closeScope
  | closeRoutine : Effect r .closeRoutine r.closeScope
  | exit {context : Nat} : Effect r (.exit context) r.closeScope
  | enter {context : Nat} {id : ScopeId} : r.contexts.get? context = some id →
      Effect r (.enter context) { r with current := id }
  | openRoutine (name : String) (context : Option Nat) :
      Effect r (.openRoutine name context) (r.openRoutine name context)

/-! ### Editing the current scope -/

section ModifyCurrent

variable (r : Resolver) (f : Scope → Scope)

@[simp] theorem current_modifyCurrent : (r.modifyCurrent f).current = r.current := by
  simp only [modifyCurrent]
  split <;> rename_i h <;> exact h.symm ▸ rfl

@[simp] theorem routines_modifyCurrent : (r.modifyCurrent f).routines = r.routines := by
  simp only [modifyCurrent]
  split <;> rfl

@[simp] theorem contexts_modifyCurrent : (r.modifyCurrent f).contexts = r.contexts := by
  simp only [modifyCurrent]
  split <;> rfl

@[simp] theorem lastField_modifyCurrent : (r.modifyCurrent f).lastField = r.lastField := by
  simp only [modifyCurrent]
  split <;> rfl

@[simp] theorem catalog_modifyCurrent : (r.modifyCurrent f).catalog = r.catalog := by
  simp only [modifyCurrent]
  split <;> rfl

@[simp] theorem size_inner_modifyCurrent : (r.modifyCurrent f).inner.size = r.inner.size := by
  simp only [modifyCurrent]
  split <;> simp

@[simp] theorem parent?_modifyCurrent (id : ScopeId) :
    (r.modifyCurrent f).parent? id = r.parent? id := by
  cases id with
  | root => rfl
  | inner i =>
    simp only [modifyCurrent, parent?]
    split
    · rfl
    · rw [Array.getElem?_modify]
      split
      · rw [Option.map_map]
        rfl
      · rfl

/-- Only the current scope is changed. -/
theorem scope_modifyCurrent (h : r.Placed r.current) (id : ScopeId) :
    (r.modifyCurrent f).scope id = if id = r.current then f (r.scope id) else r.scope id := by
  simp only [modifyCurrent]
  split
  · rename_i hroot
    cases id with
    | root => simp [scope, hroot]
    | inner i => simp [scope, hroot]
  · rename_i j hinner
    rw [hinner] at h
    cases id with
    | root => simp [scope, hinner]
    | inner i =>
      simp only [scope, hinner, Array.getElem?_modify, ScopeId.inner.injEq]
      by_cases hij : i = j
      · subst hij
        rw [if_pos rfl, if_pos rfl, Array.getElem?_eq_getElem h]
        rfl
      · rw [if_neg (Ne.symm hij), if_neg hij]

end ModifyCurrent

/-! ### Opening and closing scopes -/

section OpenScope

variable (r : Resolver) (context : Option Nat)

@[simp] theorem current_openScope : (r.openScope context).current = .inner r.inner.size := by
  cases context <;> rfl

@[simp] theorem routines_openScope : (r.openScope context).routines = r.routines := by
  cases context <;> rfl

@[simp] theorem inner_openScope :
    (r.openScope context).inner = r.inner.push { parent := r.current } := by
  cases context <;> rfl

@[simp] theorem root_openScope : (r.openScope context).root = r.root := by
  cases context <;> rfl

@[simp] theorem catalog_openScope : (r.openScope context).catalog = r.catalog := by
  cases context <;> rfl

@[simp] theorem lastField_openScope : (r.openScope context).lastField = r.lastField := by
  cases context <;> rfl

theorem parent?_openScope (id : ScopeId) : (r.openScope context).parent? id =
    if id = .inner r.inner.size then some r.current else r.parent? id := by
  cases id with
  | root => rfl
  | inner i =>
    simp only [parent?, inner_openScope, Array.getElem?_push, ScopeId.inner.injEq]
    split <;> rfl

theorem parent?_new_openScope :
    (r.openScope context).parent? (.inner r.inner.size) = some r.current := by
  rw [parent?_openScope, if_pos rfl]

/-- A new scope is empty. -/
theorem scope_openScope (id : ScopeId) : (r.openScope context).scope id = r.scope id := by
  cases id with
  | root => simp [scope]
  | inner i =>
    simp only [scope, inner_openScope, Array.getElem?_push]
    by_cases hi : i = r.inner.size
    · rw [if_pos hi, hi, Array.getElem?_eq_none (Nat.le_refl _)]
    · rw [if_neg hi]

theorem get?_contexts_openScope {key : Nat} {id : ScopeId}
    (h : (r.openScope context).contexts.get? key = some id) :
    r.contexts.get? key = some id ∨ id = .inner r.inner.size := by
  cases context with
  | none => exact .inl h
  | some c =>
    have h : (r.contexts.insert c (.inner r.inner.size)).get? key = some id := h
    rw [Dict.get?_insert] at h
    split at h
    · exact .inr (Option.some.inj h).symm
    · exact .inl h

/-- Closing a scope changes nothing but the place. -/
theorem closeScope_eq : r.closeScope = { r with current := (r.parent? r.current).getD r.current } := by
  simp only [closeScope]
  split <;> rename_i h <;> rw [h] <;> rfl

end OpenScope

theorem scope_congr (hinner : r'.inner = r.inner) (hroot : r'.root.scope = r.root.scope)
    (id : ScopeId) : r'.scope id = r.scope id := by
  cases id with
  | root => exact hroot
  | inner i => rw [scope, scope, hinner]

theorem parent?_congr (hinner : r'.inner = r.inner) (id : ScopeId) : r'.parent? id = r.parent? id := by
  cases id with
  | root => rfl
  | inner i => rw [parent?, parent?, hinner]

/-! ### Beginning a routine -/

/-- A routine seen before gets its scope back. -/
theorem openRoutine_of_some {name : String} (h : r.routines.get? (Text.lowercase name) = some id)
    (context : Option Nat) :
    ∃ contexts, r.openRoutine name context = { r with current := id, contexts } ∧
      ∀ key id', contexts.get? key = some id' → r.contexts.get? key = some id' ∨ id' = id := by
  simp only [openRoutine, h]
  cases context with
  | none => exact ⟨r.contexts, rfl, fun key id' hid => .inl hid⟩
  | some c =>
    refine ⟨r.contexts.insert c id, rfl, fun key id' hid => ?_⟩
    rw [Dict.get?_insert] at hid
    split at hid
    · exact .inr (Option.some.inj hid).symm
    · exact .inl hid

/-- A new routine gets a new scope, which is remembered for it. -/
theorem openRoutine_of_none {name : String} (h : r.routines.get? (Text.lowercase name) = none)
    (context : Option Nat) :
    r.openRoutine name context = { r.openScope context with
      routines := r.routines.insert (Text.lowercase name) (.inner r.inner.size)
      root := { r.root with functions := r.root.functions.insert (Text.lowercase name) } } := by
  simp only [openRoutine, h, current_openScope, routines_openScope, root_openScope]

/-! ### What changes do -/

theorem edits_defineVar (name : String) (last : Option String) :
    (Change.defineVar name).Edits last (·.defineVar name) where
  stays := rfl
  refers := rfl
  names s onlyInline key := by
    cases onlyInline
    · simp [Change.declares?, Scope.names, Scope.defineVar, or_comm, eq_comm]
    · simp [Change.declares?, Scope.names, Scope.defineVar]

theorem mem_names_defineInlineVar (s : Scope) (name : String) (onlyInline : Bool) (key : String) :
    key ∈ (s.defineInlineVar name).names onlyInline ↔
      key ∈ s.names onlyInline ∨ Text.lowercase name = key := by
  cases onlyInline <;> simp [Scope.names, Scope.defineInlineVar, or_comm, eq_comm]

/-- Tables and buffers are no variables. -/
theorem names_defineTable (s : Scope) (name : String) (entry : TableEntry) (onlyInline : Bool) :
    (s.defineTable name entry).names onlyInline = s.names onlyInline :=
  rfl

/-- Every change has one of the effects. -/
theorem effect_step (r : Resolver) (change : Change) : Effect r change (r.step change) := by
  cases change with
  | openScope context => exact .openScope context
  | closeScope => exact .closeScope
  | closeRoutine => exact .closeRoutine
  | openRoutine name context => exact .openRoutine name context
  | enter context =>
    simp only [step, enter]
    split
    · exact .enter ‹_›
    · exact .aside ⟨rfl, rfl, rfl, rfl, rfl, .inl rfl, rfl, fun _ => rfl, fun _ => rfl⟩
  | exit context =>
    simp only [step, exit]
    split
    · exact .exit
    · exact .aside ⟨rfl, rfl, rfl, rfl, rfl, .inl rfl, rfl, fun _ => rfl, fun _ => rfl⟩
  | defineVar name =>
    simp only [step, defineVar]
    exact .edit (edits_defineVar name r.lastField)
  | defineInlineVar name =>
    simp only [step, defineInlineVar]
    exact .edit ⟨rfl, rfl, fun s onlyInline key => by
      simp [mem_names_defineInlineVar, Change.declares?]⟩
  | defineLastField =>
    simp only [step, defineLastField, defineInlineVar]
    split
    · rename_i name hname
      exact .edit ⟨rfl, rfl, fun s onlyInline key => by
        simp [mem_names_defineInlineVar, Change.declares?, hname]⟩
    · exact .aside ⟨rfl, rfl, rfl, rfl, rfl, .inl rfl, rfl, fun _ => ‹_›, fun _ => rfl⟩
  | defineTable name kind =>
    simp only [step, defineTable]
    exact .edit ⟨rfl, rfl, fun s onlyInline key => by
      simp [names_defineTable, Change.declares?]⟩
  | defineBuffer buffer table =>
    simp only [step, defineBuffer]
    refine .edit ⟨rfl, rfl, fun s onlyInline key => ?_⟩
    split <;> simp [names_defineTable, Change.declares?]
  | copyTable name =>
    simp only [step, copyTable]
    split
    · exact .aside ⟨rfl, rfl, rfl, rfl, rfl, .inl rfl, rfl, fun _ => rfl, fun _ => rfl⟩
    split
    · exact .aside ⟨rfl, rfl, rfl, rfl, rfl, .inl rfl, rfl, fun _ => rfl, fun _ => rfl⟩
    · exact .aside ⟨rfl, rfl, rfl, rfl, rfl, .inl rfl, rfl, fun _ => rfl, fun _ => rfl⟩
  | injectClass info =>
    exact .aside ⟨rfl, rfl, rfl, rfl, rfl, .inr ⟨info, rfl⟩, rfl, fun _ => rfl, fun _ => rfl⟩
  | importPath text =>
    simp only [step]
    generalize r.imports.add r.catalog text = imports
    exact .aside ⟨rfl, rfl, rfl, rfl, rfl, .inl rfl, rfl, fun _ => rfl, fun _ => rfl⟩
  | _ => exact .aside ⟨rfl, rfl, rfl, rfl, rfl, .inl rfl, rfl, fun _ => rfl, fun _ => rfl⟩

end AblAnalysis.Resolver
