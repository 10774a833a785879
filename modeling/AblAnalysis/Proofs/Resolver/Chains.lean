import AblAnalysis.Proofs.Resolver.Scopes
import Mathlib.Data.List.Chain

/-!
The way from a scope outward. A scope lies in one that was opened before it, so whoever follows the links
from any scope that is the current one or is remembered comes to the scope of the unit, without passing
a scope twice and without asking for one that has not been opened (`outward_run`).
-/

namespace AblAnalysis.Resolver

variable {r : Resolver} {id p : ScopeId}

/-- Place of a scope in the order in which scopes are opened; the unit's own comes first. -/
def rank : ScopeId → Nat
  | .root => 0
  | .inner i => i + 1

/-- Whether a walk outward from a scope visits scopes: each is followed by the one around it, and the last
is that of the unit, which has none around it. -/
structure Outward (r : Resolver) (id : ScopeId) (ids : List ScopeId) : Prop where
  head : ids.head? = some id
  links : ids.IsChain (fun inside outside => r.parent? inside = some outside)
  last : ids.getLast? = some .root

theorem rank_le_size (hid : r.Placed id) : rank id ≤ r.inner.size := by
  cases id with
  | root => exact Nat.zero_le _
  | inner i => exact hid

theorem Nested.rank_lt (h : r.Nested) (hp : r.parent? id = some p) : rank p < rank id := by
  cases id with
  | root => exact absurd hp (by simp [parent?])
  | inner i =>
    rcases h.parent i p hp with rfl | ⟨j, hj, rfl⟩
    · exact Nat.succ_pos i
    · exact Nat.succ_lt_succ hj

theorem Nested.outward (h : r.Nested) (hid : r.Placed id) : r.Outward id (r.chainFrom id) := by
  refine h.induction (P := fun id => r.Outward id (r.chainFrom id)) ?_ ?_ hid
  · exact ⟨rfl, .singleton _, rfl⟩
  · intro id p hp ih
    obtain ⟨rest, hrest⟩ := List.head?_eq_some_iff.1 ih.head
    rw [h.chainFrom_eq hp]
    refine ⟨rfl, ?_, ?_⟩
    · have hlinks := ih.links
      rw [hrest] at hlinks ⊢
      exact .cons_cons hp hlinks
    · rw [List.getLast?_cons, ih.last, Option.getD_some]

/-- A walk outward comes to older and older scopes. -/
theorem Nested.pairwise_rank (h : r.Nested) (hid : r.Placed id) :
    (r.chainFrom id).Pairwise (fun inside outside => rank outside < rank inside) := by
  have holder : (r.chainFrom id).IsChain (fun inside outside => rank outside < rank inside) :=
    (h.outward hid).links.imp fun inside outside hp => h.rank_lt hp
  have : IsTrans ScopeId (fun inside outside => rank outside < rank inside) :=
    ⟨fun a b c hab hbc => Nat.lt_trans hbc hab⟩
  exact List.isChain_iff_pairwise.1 holder

/-- There are as many steps in a walk outward as scopes were opened before, at most. -/
theorem Nested.length_chainFrom_le (h : r.Nested) (hid : r.Placed id) :
    (r.chainFrom id).length ≤ rank id + 1 := by
  refine h.induction (P := fun id => (r.chainFrom id).length ≤ rank id + 1) ?_ ?_ hid
  · exact Nat.le_refl 1
  · intro id p hp ih
    have hlt := h.rank_lt hp
    rw [h.chainFrom_eq hp, List.length_cons]
    omega

theorem Nested.placed_of_mem_chainFrom (h : r.Nested) (hid : r.Placed id) {outer : ScopeId}
    (hmem : outer ∈ r.chainFrom id) : r.Placed outer := by
  have hencloses := (h.mem_chainFrom hid).1 hmem
  induction hencloses with
  | refl => exact hid
  | step hp _ ih => exact ih (h.placed_parent hp) ((h.mem_chainFrom (h.placed_parent hp)).2 ‹_›)

/-- Whether every scope that is the current one, or is remembered for a routine or a context, has been
opened. -/
structure Remembers (r : Resolver) : Prop where
  current : r.Placed r.current
  routines : ∀ key id, r.routines.get? key = some id → r.Placed id
  contexts : ∀ context id, r.contexts.get? context = some id → r.Placed id

/-- Whatever has happened to the resolver of a unit, every scope that was opened lies in the unit's or in
one that was opened before it, and what is current or remembered has been opened. From each of these a
walk outward visits only scopes that have been opened, none of them twice, and is at the unit's after
at most as many steps as scopes were opened; the depth is the number of its steps. -/
theorem outward_run (schema : Schema) (infos : List ClassInfo) (changes : List Change) :
    let r := (start schema infos).run changes
    (∀ i < r.inner.size, r.parent? (.inner i) = some .root ∨
      ∃ j < i, r.parent? (.inner i) = some (.inner j)) ∧
    r.Remembers ∧
    (∀ id, r.Placed id → r.Outward id (r.chainFrom id) ∧ (r.chainFrom id).Nodup ∧
      (r.chainFrom id).length ≤ r.inner.size + 1 ∧ ∀ outer ∈ r.chainFrom id, r.Placed outer) ∧
    r.depth + 1 = (r.chainFrom r.current).length := by
  intro r
  have h : r.Nested := nested_run schema infos changes
  refine ⟨fun i hi => ?_, ⟨h.current, fun key id hid => h.placed_routine hid, h.contexts⟩,
    fun id hid => ⟨h.outward hid, ?_, ?_, fun outer => h.placed_of_mem_chainFrom hid⟩, ?_⟩
  · obtain ⟨p, hp⟩ := exists_parent? (r := r) hi
    rcases h.parent i p hp with rfl | ⟨j, hj, rfl⟩
    · exact .inl hp
    · exact .inr ⟨j, hj, hp⟩
  · refine (h.pairwise_rank hid).imp ?_
    rintro inside outside hlt rfl
    exact Nat.lt_irrefl _ hlt
  · exact Nat.le_trans (h.length_chainFrom_le hid) (Nat.succ_le_succ (rank_le_size hid))
  · obtain ⟨rest, hrest⟩ := List.head?_eq_some_iff.1 (h.outward h.current).head
    rw [depth, hrest, List.length_cons, Nat.add_sub_cancel]

end AblAnalysis.Resolver
