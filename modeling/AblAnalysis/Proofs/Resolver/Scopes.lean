import AblAnalysis.Proofs.Resolver.Effects
import Mathlib.Data.Nat.Init

/-!
The scopes of a unit and how they lie in each other. A scope is opened inside the current one, which is
older, and it stays there whatever happens later (`Extends`), so the scopes around a place are those
that its links lead to (`mem_chainFrom`). The current place, and those that are remembered for routines
and contexts, are always scopes that have been opened (`Nested`).
-/

namespace AblAnalysis.Resolver

variable {r r' : Resolver} {id p : ScopeId}

/-- A scope is around itself and whatever is inside a scope that it is around. -/
inductive Encloses (r : Resolver) (outer : ScopeId) : ScopeId → Prop
  | refl : Encloses r outer outer
  | step {id p : ScopeId} : r.parent? id = some p → Encloses r outer p → Encloses r outer id

/-- What the links of the scopes and the places that are remembered have in common. -/
structure Nested (r : Resolver) : Prop where
  parent : ∀ i p, r.parent? (.inner i) = some p → p = .root ∨ ∃ j < i, p = .inner j
  current : r.Placed r.current
  routines : ∀ key id, r.routines.get? key = some id → ∃ p, r.parent? id = some p
  contexts : ∀ context id, r.contexts.get? context = some id → r.Placed id

/-- Whether the scopes that there were are still where they were. -/
structure Extends (r r' : Resolver) : Prop where
  size : r.inner.size ≤ r'.inner.size
  parent : ∀ id, r.Placed id → r'.parent? id = r.parent? id

theorem lt_size_of_parent? {i : Nat} (h : r.parent? (.inner i) = some p) : i < r.inner.size := by
  obtain ⟨s, hs, -⟩ := Option.map_eq_some_iff.1 h
  exact (Array.getElem?_eq_some_iff.1 hs).1

theorem placed_of_parent? (h : r.parent? id = some p) : r.Placed id := by
  cases id with
  | root => trivial
  | inner i => exact lt_size_of_parent? h

theorem Nested.placed_parent (h : r.Nested) (hp : r.parent? id = some p) : r.Placed p := by
  cases id with
  | root => exact absurd hp (by simp [parent?])
  | inner i =>
    rcases h.parent i p hp with rfl | ⟨j, hj, rfl⟩
    · trivial
    · exact Nat.lt_trans hj (lt_size_of_parent? hp)

theorem Nested.placed_routine (h : r.Nested) {key : String} (hid : r.routines.get? key = some id) :
    r.Placed id := by
  obtain ⟨p, hp⟩ := h.routines key id hid
  exact placed_of_parent? hp

theorem Extends.placed (h : Extends r r') (hid : r.Placed id) : r'.Placed id := by
  cases id with
  | root => trivial
  | inner i => exact Nat.lt_of_lt_of_le hid h.size

theorem Extends.parent? (h : Extends r r') (hp : r.parent? id = some p) : r'.parent? id = some p :=
  (h.parent id (placed_of_parent? hp)).trans hp

theorem Extends.refl (r : Resolver) : Extends r r :=
  ⟨Nat.le_refl _, fun _ _ => rfl⟩

theorem Extends.trans {r'' : Resolver} (h : Extends r r') (h' : Extends r' r'') : Extends r r'' where
  size := Nat.le_trans h.size h'.size
  parent id hid := (h'.parent id (h.placed hid)).trans (h.parent id hid)

/-! ### The scopes around a scope -/

@[simp] theorem chainFrom_root (r : Resolver) : r.chainFrom .root = [.root] := rfl

theorem Nested.chainFrom_eq (h : r.Nested) (hp : r.parent? id = some p) :
    r.chainFrom id = id :: r.chainFrom p := by
  cases id with
  | root => exact absurd hp (by simp [parent?])
  | inner i =>
    rw [chainFrom, chainFromInner, hp]
    rcases h.parent i p hp with rfl | ⟨j, hj, rfl⟩
    · rfl
    · simp only [if_pos hj, chainFrom]

theorem exists_parent? {i : Nat} (h : r.Placed (.inner i)) : ∃ p, r.parent? (.inner i) = some p :=
  ⟨_, by rw [parent?, Array.getElem?_eq_getElem h, Option.map_some]⟩

/-- What is true of the root, and of every scope inside one that it is true of, is true of all scopes
that have been opened. -/
theorem Nested.induction {P : ScopeId → Prop} (h : r.Nested) (root : P .root)
    (inner : ∀ id p, r.parent? id = some p → P p → P id) {id : ScopeId} (hid : r.Placed id) :
    P id := by
  cases id with
  | root => exact root
  | inner i =>
    induction i using Nat.strong_induction_on with
    | _ i ih =>
      obtain ⟨p, hp⟩ := exists_parent? hid
      refine inner _ p hp ?_
      have hplaced := h.placed_parent hp
      rcases h.parent i p hp with rfl | ⟨j, hj, rfl⟩
      · exact root
      · exact ih j hj hplaced

/-- The scopes that are visible from a place are those around it. -/
theorem Nested.mem_chainFrom (h : r.Nested) {outer : ScopeId} (hid : r.Placed id) :
    outer ∈ r.chainFrom id ↔ r.Encloses outer id := by
  refine h.induction (P := fun id => outer ∈ r.chainFrom id ↔ r.Encloses outer id) ?_ ?_ hid
  · constructor
    · intro hmem
      obtain rfl := List.mem_singleton.1 hmem
      exact .refl
    · intro henc
      cases henc with
      | refl => exact List.mem_singleton_self _
      | step hp _ => exact absurd hp (by simp [parent?])
  · intro id p hp ih
    rw [h.chainFrom_eq hp, List.mem_cons, ih]
    constructor
    · rintro (rfl | henc)
      · exact .refl
      · exact .step hp henc
    · intro henc
      cases henc with
      | refl => exact .inl rfl
      | step hp' henc =>
        obtain rfl := Option.some.inj (hp.symm.trans hp')
        exact .inr henc

/-- The way from a scope to the root stays as it is. -/
theorem Nested.chainFrom_congr (h : r.Nested) (h' : r'.Nested) (hext : Extends r r')
    (hid : r.Placed id) : r'.chainFrom id = r.chainFrom id := by
  refine h.induction (P := fun id => r'.chainFrom id = r.chainFrom id) rfl ?_ hid
  intro id p hp ih
  rw [h.chainFrom_eq hp, h'.chainFrom_eq (hext.parent? hp), ih]

/-! ### Scopes that there were -/

theorem extends_of_inner (h : r'.inner = r.inner) : Extends r r' :=
  ⟨Nat.le_of_eq (congrArg _ h.symm), fun id _ => parent?_congr h id⟩

theorem extends_modifyCurrent (r : Resolver) (f : Scope → Scope) : Extends r (r.modifyCurrent f) :=
  ⟨Nat.le_of_eq (by simp), fun id _ => by simp⟩

theorem extends_openScope (r : Resolver) (context : Option Nat) : Extends r (r.openScope context) where
  size := by simp
  parent id hid := by
    rw [parent?_openScope, if_neg]
    rintro rfl
    exact Nat.lt_irrefl _ hid

theorem extends_openRoutine (r : Resolver) (name : String) (context : Option Nat) :
    Extends r (r.openRoutine name context) := by
  cases h : r.routines.get? (Text.lowercase name) with
  | some id =>
    obtain ⟨contexts, heq, -⟩ := openRoutine_of_some h context
    exact extends_of_inner (by rw [heq])
  | none =>
    rw [openRoutine_of_none h context]
    have hext := extends_openScope r context
    exact ⟨hext.size, hext.parent⟩

theorem extends_closeScope (r : Resolver) : Extends r r.closeScope :=
  extends_of_inner (by rw [closeScope_eq])

/-- No change moves a scope. -/
theorem Effect.extends {change : Change} (h : Effect r change r') : Extends r r' := by
  cases h with
  | edit _ => exact extends_modifyCurrent r _
  | aside h => exact extends_of_inner h.inner
  | openScope context => exact extends_openScope r context
  | closeScope => exact extends_closeScope r
  | closeRoutine => exact extends_closeScope r
  | exit => exact extends_closeScope r
  | enter _ => exact extends_of_inner rfl
  | openRoutine name context => exact extends_openRoutine r name context

theorem extends_run (r : Resolver) (changes : List Change) : Extends r (r.run changes) := by
  induction changes generalizing r with
  | nil => exact .refl r
  | cons change changes ih => exact (effect_step r change).extends.trans (ih _)

/-! ### Nesting -/

/-- What is kept where no scope is opened. -/
theorem Nested.of_inner (h : r.Nested) (hinner : r'.inner = r.inner) (hcurrent : r.Placed r'.current)
    (hroutines : r'.routines = r.routines)
    (hcontexts : ∀ key id, r'.contexts.get? key = some id →
      r.contexts.get? key = some id ∨ r.Placed id) : r'.Nested := by
  have hplaced : ∀ {id}, r.Placed id → r'.Placed id := (extends_of_inner hinner).placed
  refine ⟨fun i p hp => ?_, hplaced hcurrent, fun key id hid => ?_, fun key id hid => ?_⟩
  · rw [parent?_congr hinner] at hp
    exact h.parent i p hp
  · rw [hroutines] at hid
    simpa [parent?_congr hinner] using h.routines key id hid
  · rcases hcontexts key id hid with hid | hid
    · exact hplaced (h.contexts key id hid)
    · exact hplaced hid

theorem Nested.modifyCurrent (h : r.Nested) (f : Scope → Scope) : (r.modifyCurrent f).Nested := by
  have hplaced : ∀ {id}, r.Placed id → (r.modifyCurrent f).Placed id :=
    (extends_modifyCurrent r f).placed
  constructor
  · simpa using h.parent
  · simpa using hplaced h.current
  · simpa using h.routines
  · intro key id hid
    rw [contexts_modifyCurrent] at hid
    exact hplaced (h.contexts key id hid)

theorem Nested.openScope (h : r.Nested) (context : Option Nat) : (r.openScope context).Nested := by
  have hext := extends_openScope r context
  have hnew := placed_of_parent? (parent?_new_openScope r context)
  refine ⟨fun i p hp => ?_, by simpa using hnew, fun key id hid => ?_, fun key id hid => ?_⟩
  · rw [parent?_openScope] at hp
    split at hp
    · rename_i hi
      obtain rfl := Option.some.inj hp
      obtain rfl := ScopeId.inner.inj hi
      have hcurrent := h.current
      cases hc : r.current with
      | root => exact .inl rfl
      | inner j =>
        rw [hc] at hcurrent
        exact .inr ⟨j, hcurrent, rfl⟩
    · exact h.parent i p hp
  · rw [routines_openScope] at hid
    obtain ⟨p, hp⟩ := h.routines key id hid
    exact ⟨p, hext.parent? hp⟩
  · rcases get?_contexts_openScope r context hid with hid | rfl
    · exact hext.placed (h.contexts key id hid)
    · exact hnew

theorem Nested.closeScope (h : r.Nested) : r.closeScope.Nested := by
  simp only [Resolver.closeScope]
  split
  · rename_i p hp
    exact h.of_inner rfl (h.placed_parent hp) rfl fun key id hid => .inl hid
  · exact h

theorem Nested.openRoutine (h : r.Nested) (name : String) (context : Option Nat) :
    (r.openRoutine name context).Nested := by
  cases hr : r.routines.get? (Text.lowercase name) with
  | some id =>
    obtain ⟨contexts, heq, hcontexts⟩ := openRoutine_of_some hr context
    rw [heq]
    refine h.of_inner rfl (h.placed_routine hr) rfl fun key id' hid' => ?_
    rcases hcontexts key id' hid' with hid' | rfl
    · exact .inl hid'
    · exact .inr (h.placed_routine hr)
  | none =>
    rw [openRoutine_of_none hr context]
    have hopen := h.openScope context
    refine ⟨hopen.parent, hopen.current, fun key id hid => ?_, hopen.contexts⟩
    simp only [Dict.get?_insert] at hid
    split at hid
    · obtain rfl := Option.some.inj hid
      exact ⟨r.current, parent?_new_openScope r context⟩
    · obtain ⟨p, hp⟩ := h.routines key id hid
      exact ⟨p, (extends_openScope r context).parent? hp⟩

/-- Every change keeps scopes nested. -/
theorem Effect.nested {change : Change} (h : Effect r change r') (hr : r.Nested) : r'.Nested := by
  cases h with
  | edit _ => exact hr.modifyCurrent _
  | aside h =>
    refine hr.of_inner h.inner (h.current ▸ hr.current) h.routines fun key id hid => ?_
    rw [h.contexts] at hid
    exact .inl hid
  | openScope context => exact hr.openScope context
  | closeScope => exact hr.closeScope
  | closeRoutine => exact hr.closeScope
  | exit => exact hr.closeScope
  | @enter context id hid =>
    exact hr.of_inner rfl (hr.contexts context id hid) rfl fun key id hid => .inl hid
  | openRoutine name context => exact hr.openRoutine name context

theorem Nested.run (h : r.Nested) (changes : List Change) : (r.run changes).Nested := by
  induction changes generalizing r with
  | nil => exact h
  | cons change changes ih => exact ih ((effect_step r change).nested h)

/-- The resolver of a unit before anything has been read. -/
def start (schema : Schema) (infos : List ClassInfo) : Resolver :=
  { schema, catalog := ({} : Catalog).injectAll infos }

theorem nested_start (schema : Schema) (infos : List ClassInfo) : (start schema infos).Nested where
  parent i p hp := absurd hp (by simp [start, parent?])
  current := trivial
  routines key id hid := absurd hid (by simp [start])
  contexts context id hid := absurd hid (by simp [start])

theorem nested_run (schema : Schema) (infos : List ClassInfo) (changes : List Change) :
    ((start schema infos).run changes).Nested :=
  (nested_start schema infos).run changes

theorem run_append (r : Resolver) (changes more : List Change) :
    r.run (changes ++ more) = (r.run changes).run more :=
  List.foldl_append

theorem run_concat (r : Resolver) (changes : List Change) (change : Change) :
    r.run (changes ++ [change]) = (r.run changes).step change := by
  rw [run_append]
  rfl

end AblAnalysis.Resolver
