import AblAnalysis.Proofs.Classes.Ancestors
import AblAnalysis.Proofs.Resolver.Scopes
import Mathlib.Data.List.Induction

/-!
Which variables are visible. What a scope has are the variables declared while it was the current one,
however it was come to (`mem_names_run`), and none of them is ever lost. So a name is a variable if it
was declared in the current scope or in one around it, or if it is a property of the unit's class
(`isVar_run`).
-/

namespace AblAnalysis.Resolver

variable {r r' : Resolver}

/-- The field that changes refer to last. -/
def lastReferred? (changes : List Change) : Option String :=
  changes.reverse.findSome? Change.refers?

/-- Whether changes declare a variable of a name while a scope is the current one. -/
def DeclaredIn (r : Resolver) (changes : List Change) (onlyInline : Bool) (id : ScopeId)
    (name : String) : Prop :=
  ∃ before change after declared, changes = before ++ change :: after ∧
    (r.run before).current = id ∧
    change.declares? (lastReferred? before) onlyInline = some declared ∧
    Text.lowercase declared = Text.lowercase name

/-! ### Classes and fields -/

theorem catalog_openRoutine (r : Resolver) (name : String) (context : Option Nat) :
    (r.openRoutine name context).catalog = r.catalog := by
  cases h : r.routines.get? (Text.lowercase name) with
  | some id =>
    obtain ⟨contexts, heq, -⟩ := openRoutine_of_some h context
    rw [heq]
  | none => simp [openRoutine_of_none h context]

theorem lastField_openRoutine (r : Resolver) (name : String) (context : Option Nat) :
    (r.openRoutine name context).lastField = r.lastField := by
  cases h : r.routines.get? (Text.lowercase name) with
  | some id =>
    obtain ⟨contexts, heq, -⟩ := openRoutine_of_some h context
    rw [heq]
  | none => simp [openRoutine_of_none h context]

/-- Classes are only ever added. -/
theorem Effect.catalog {change : Change} (h : Effect r change r') :
    r'.catalog = r.catalog ∨ ∃ info, r'.catalog = r.catalog.inject info := by
  cases h with
  | edit _ => exact .inl (catalog_modifyCurrent r _)
  | aside h => exact h.catalog
  | openScope context => exact .inl (catalog_openScope r context)
  | enter _ => exact .inl rfl
  | openRoutine name context => exact .inl (catalog_openRoutine r name context)
  | _ => exact .inl (by rw [closeScope_eq])

theorem named_run (h : r.catalog.Named) (changes : List Change) : (r.run changes).catalog.Named := by
  induction changes generalizing r with
  | nil => exact h
  | cons change changes ih =>
    refine ih ?_
    rcases (effect_step r change).catalog with heq | ⟨info, heq⟩
    · rwa [heq]
    · rw [heq]
      exact h.inject info

/-- The last field is the one that was referred to last. -/
theorem Effect.lastField {change : Change} (h : Effect r change r') :
    r'.lastField = change.refers?.or r.lastField := by
  cases h with
  | edit h => rw [lastField_modifyCurrent, h.refers, Option.none_or]
  | aside h => exact h.lastField
  | openScope context => exact lastField_openScope r context
  | enter _ => rfl
  | openRoutine name context => exact lastField_openRoutine r name context
  | _ =>
    rw [closeScope_eq]
    rfl

theorem lastReferred?_concat (changes : List Change) (change : Change) :
    lastReferred? (changes ++ [change]) = change.refers?.or (lastReferred? changes) := by
  rw [lastReferred?, List.reverse_concat, List.findSome?_cons]
  cases change.refers? <;> rfl

theorem lastField_run (schema : Schema) (infos : List ClassInfo) (changes : List Change) :
    ((start schema infos).run changes).lastField = lastReferred? changes := by
  induction changes using List.reverseRecOn with
  | nil => rfl
  | append_singleton changes change ih =>
    rw [run_concat, (effect_step _ change).lastField, lastReferred?_concat, ih]

/-! ### Declarations -/

theorem scope_openRoutine (r : Resolver) (name : String) (context : Option Nat) (id : ScopeId) :
    (r.openRoutine name context).scope id = r.scope id := by
  cases h : r.routines.get? (Text.lowercase name) with
  | some place =>
    obtain ⟨contexts, heq, -⟩ := openRoutine_of_some h context
    rw [heq]
    exact scope_congr rfl rfl id
  | none =>
    rw [openRoutine_of_none h context, ← scope_openScope r context id]
    refine scope_congr ?_ ?_ id
    · rfl
    · rw [root_openScope]

theorem scope_closeScope (r : Resolver) (id : ScopeId) : r.closeScope.scope id = r.scope id := by
  rw [closeScope_eq]
  exact scope_congr rfl rfl id

/-- A change adds to the current scope the variable that it declares, and takes none from any scope. -/
theorem Effect.mem_names {change : Change} (h : Effect r change r') (hcurrent : r.Placed r.current)
    (onlyInline : Bool) (id : ScopeId) (key : String) :
    key ∈ (r'.scope id).names onlyInline ↔ key ∈ (r.scope id).names onlyInline ∨
      r.current = id ∧ (change.declares? r.lastField onlyInline).map Text.lowercase = some key := by
  have hkeep : r'.scope id = r.scope id → change.declares? r.lastField onlyInline = none →
      (key ∈ (r'.scope id).names onlyInline ↔ key ∈ (r.scope id).names onlyInline ∨
        r.current = id ∧ (change.declares? r.lastField onlyInline).map Text.lowercase = some key) := by
    intro hscope hnone
    simp [hscope, hnone]
  cases h with
  | @edit change f h =>
    rw [scope_modifyCurrent r f hcurrent]
    split
    · rename_i heq
      simp [h.names, heq]
    · rename_i hne
      simp [Ne.symm hne]
  | aside h => exact hkeep (scope_congr h.inner h.scope id) (h.declares onlyInline)
  | openScope context => exact hkeep (scope_openScope r context id) rfl
  | enter _ => exact hkeep (scope_congr rfl rfl id) rfl
  | openRoutine name context => exact hkeep (scope_openRoutine r name context id) rfl
  | _ => exact hkeep (scope_closeScope r id) rfl

/-! ### What has been declared -/

/-- Where a list that ends in a last change is cut at a change, it is cut at the last one or before. -/
theorem cut_concat {changes before after : List Change} {change last : Change}
    (h : changes ++ [last] = before ++ change :: after) :
    before = changes ∧ change = last ∧ after = [] ∨
      ∃ rest, after = rest ++ [last] ∧ changes = before ++ change :: rest := by
  rcases List.eq_nil_or_concat after with rfl | ⟨rest, final, rfl⟩
  · obtain ⟨rfl, hlast⟩ := List.append_inj' h rfl
    exact .inl ⟨rfl, (List.singleton_inj.1 hlast).symm, rfl⟩
  · rw [List.concat_eq_append, ← List.cons_append, ← List.append_assoc] at h
    obtain ⟨rfl, hlast⟩ := List.append_inj' h rfl
    obtain rfl := List.singleton_inj.1 hlast
    exact .inr ⟨rest, List.concat_eq_append, rfl⟩

/-- What has happened before a last change or is that change. -/
theorem exists_split_concat {P : List Change → Change → Prop} (changes : List Change)
    (last : Change) :
    (∃ before change after, changes ++ [last] = before ++ change :: after ∧ P before change) ↔
      (∃ before change after, changes = before ++ change :: after ∧ P before change) ∨
        P changes last := by
  constructor
  · rintro ⟨before, change, after, heq, hp⟩
    rcases cut_concat heq with ⟨rfl, rfl, rfl⟩ | ⟨rest, rfl, rfl⟩
    · exact .inr hp
    · exact .inl ⟨before, change, rest, rfl, hp⟩
  · rintro (⟨before, change, after, rfl, hp⟩ | hp)
    · exact ⟨before, change, after ++ [last], by simp, hp⟩
    · exact ⟨changes, last, [], rfl, hp⟩

theorem declaredIn_concat (r : Resolver) (changes : List Change) (last : Change) (onlyInline : Bool)
    (id : ScopeId) (name : String) :
    r.DeclaredIn (changes ++ [last]) onlyInline id name ↔ r.DeclaredIn changes onlyInline id name ∨
      (r.run changes).current = id ∧
        (last.declares? (lastReferred? changes) onlyInline).map Text.lowercase =
          some (Text.lowercase name) := by
  simp only [DeclaredIn, exists_and_left, Option.map_eq_some_iff]
  exact exists_split_concat changes last

/-- The variables of a scope are those that were declared while it was the current one. -/
theorem mem_names_run (schema : Schema) (infos : List ClassInfo) (changes : List Change)
    (onlyInline : Bool) (id : ScopeId) (name : String) :
    Text.lowercase name ∈ (((start schema infos).run changes).scope id).names onlyInline ↔
      (start schema infos).DeclaredIn changes onlyInline id name := by
  induction changes using List.reverseRecOn with
  | nil => cases id <;> cases onlyInline <;> simp [DeclaredIn, run, start, scope, Scope.names]
  | append_singleton changes change ih =>
    have hplaced := (nested_run schema infos changes).current
    rw [run_concat, (effect_step _ change).mem_names hplaced, ih, lastField_run, declaredIn_concat]

/-- No variable is lost. -/
theorem names_subset_run (h : r.Nested) (changes : List Change) (onlyInline : Bool) (id : ScopeId) :
    (r.scope id).names onlyInline ⊆ ((r.run changes).scope id).names onlyInline := by
  induction changes generalizing r with
  | nil => exact fun _ h => h
  | cons change changes ih =>
    intro key hkey
    have heffect := effect_step r change
    exact ih (heffect.nested h) ((heffect.mem_names h.current onlyInline id key).2 (.inl hkey))

/-! ### Visible variables -/

/-- What is visible are the variables of the current scope and of those around it. -/
theorem any_chain_iff (h : r.Nested) (onlyInline : Bool) (name : String) :
    r.chain.any (fun s => (s.names onlyInline).contains (Text.lowercase name)) = true ↔
      ∃ id, r.Encloses id r.current ∧ Text.lowercase name ∈ (r.scope id).names onlyInline := by
  simp only [chain, List.any_map, List.any_eq_true, h.mem_chainFrom h.current, Function.comp,
    List.contains_iff_mem]

/-- A name is a variable if one of that name was declared while the current scope or one around it was
the current one, or if the class of the unit or one of its known ancestors has a property of that name.
Those declared where they were first used are told apart in the same way. Nothing takes a declaration
back. -/
theorem isVar_run (schema : Schema) (infos : List ClassInfo) (changes : List Change) (name : String) :
    let begun := start schema infos
    let r := begun.run changes
    (r.isVar name = true ↔
      (∃ id, r.Encloses id r.current ∧ begun.DeclaredIn changes false id name) ∨
        ∃ info a, r.root.classInfo = some info ∧ r.catalog.Lineage info a ∧
          ∃ property ∈ a.properties, Text.equalIgnoringAsciiCase property name = true) ∧
    (r.isInlineVar name = true ↔
      ∃ id, r.Encloses id r.current ∧ begun.DeclaredIn changes true id name) ∧
    ∀ more id, (r.scope id).vars ⊆ ((r.run more).scope id).vars ∧
      (r.scope id).inlineVars ⊆ ((r.run more).scope id).inlineVars := by
  intro begun r
  have hnested : r.Nested := nested_run schema infos changes
  have hnamed : r.catalog.Named := named_run (Catalog.named_injectAll infos) changes
  refine ⟨?_, ?_, fun more id => ⟨?_, ?_⟩⟩
  · rw [isVar, Bool.or_eq_true, Catalog.anyInChain_iff hnamed]
    refine or_congr ((any_chain_iff hnested false name).trans ?_) ?_
    · simp only [r, mem_names_run, begun]
    · simp only [ClassInfo.hasProperty, ClassInfo.listed, List.any_eq_true]
  · refine (any_chain_iff hnested true name).trans ?_
    simp only [r, mem_names_run, begun]
  · exact names_subset_run hnested more false id
  · exact names_subset_run hnested more true id

end AblAnalysis.Resolver
