import Mathlib.Data.List.Sort
import AblAnalysis.Proofs.Preprocessor.Linkage

/-!
The order of references. A walk lists a reference before those inside it, and the order of the walk
is the order in which the references began. The reason is that callbacks only ever open a reference
inside the last one that is still open: of the references after the current one, all are inside it
(`Ordered.spine`), and a reference has all its contents before anything else begins
(`Ordered.nested`).
-/

namespace AblAnalysis.Preprocessor

namespace Graph

/-- Whether an event is `owner` or happened inside it. -/
inductive Within (g : Graph) (owner : Nat) : Nat → Prop
  | refl : Within g owner owner
  | inside {id p : Nat} : g.parent? id = some p → Within g owner p → Within g owner id

variable {g g' : Graph} {a b c id : Nat}

theorem Within.trans (hab : g.Within a b) (hbc : g.Within b c) : g.Within a c := by
  induction hbc with
  | refl => exact hab
  | inside hp _ ih => exact .inside hp ih

theorem Within.le (hl : g.Linked) (h : g.Within a b) : a ≤ b := by
  induction h with
  | refl => exact Nat.le_refl a
  | inside hp _ ih =>
    have := (hl.parent _ _ hp).1
    omega

/-- What an event is inside of, it either is or happened in something that is. -/
theorem Within.cases_parent (h : g.Within a b) :
    a = b ∨ ∃ p, g.parent? b = some p ∧ g.Within a p := by
  cases h with
  | refl => exact .inl rfl
  | inside hp hw => exact .inr ⟨_, hp, hw⟩

/-- What is inside an event is the event or inside something that happened directly in it. -/
theorem Within.cases_child (h : g.Within a b) :
    a = b ∨ ∃ c, g.parent? c = some a ∧ g.Within c b := by
  induction h with
  | refl => exact .inl rfl
  | inside hp _ ih =>
    rcases ih with rfl | ⟨c, hc, hw⟩
    · exact .inr ⟨_, hp, .refl⟩
    · exact .inr ⟨c, hc, .inside hp hw⟩

/-- Everything around a reference is a reference. -/
theorem Within.isRef (hl : g.Linked) (h : g.Within a b) (hb : g.isRef b = true) :
    g.isRef a = true := by
  induction h with
  | refl => exact hb
  | inside hp _ ih => exact ih (hl.parent _ _ hp).2

/-- Every reference is inside the main file. -/
theorem Linked.within_root (hl : g.Linked) (hid : g.isRef id = true) : g.Within 0 id := by
  induction id using Nat.strong_induction_on with
  | _ id ih =>
    cases hp : g.parent? id with
    | some p =>
      obtain ⟨hlt, href⟩ := hl.parent id p hp
      exact .inside hp (ih p hlt href)
    | none =>
      rcases hl.orphan id (g.lt_size_of_isRef hid) hp with rfl | hpassed
      · exact .refl
      · rw [owner?_of_isRef hid] at hpassed
        exact absurd hpassed (by simp)

/-! ### The walk -/

theorem Linked.referencesFrom_eq (hl : g.Linked) (id : Nat) :
    g.referencesFrom id = id :: (g.refChildren id).flatMap g.referencesFrom := by
  rw [referencesFrom]
  refine congrArg _ (List.flatMap_congr fun c hc => dif_pos ?_)
  have hp := ((hl.mem_children id c).1 (List.mem_filter.1 hc).1).1
  exact ⟨(hl.parent c id hp).1, lt_size_of_parent? hp⟩

theorem Linked.mem_refChildren (hl : g.Linked) {p : Nat} :
    id ∈ g.refChildren p ↔ g.parent? id = some p ∧ g.isRef id = true := by
  rw [refChildren, List.mem_filter, hl.mem_children]
  constructor
  · rintro ⟨⟨hp, -⟩, href⟩
    exact ⟨hp, href⟩
  · rintro ⟨hp, href⟩
    exact ⟨⟨hp, owner?_of_isRef href⟩, href⟩

/-- The walk from an event visits the event and the references inside it. -/
theorem Linked.mem_referencesFrom (hl : g.Linked) :
    b ∈ g.referencesFrom a ↔ b = a ∨ g.isRef b = true ∧ g.Within a b := by
  -- What happens in an event is closer to the end than the event is.
  induction hn : g.size - a using Nat.strong_induction_on generalizing a with
  | _ n ih =>
    have hchild : ∀ c, g.parent? c = some a →
        (b ∈ g.referencesFrom c ↔ b = c ∨ g.isRef b = true ∧ g.Within c b) := by
      intro c hc
      have hlt := (hl.parent c a hc).1
      have hsize := lt_size_of_parent? hc
      exact ih (g.size - c) (by omega) rfl
    rw [hl.referencesFrom_eq, List.mem_cons, List.mem_flatMap]
    constructor
    · rintro (rfl | ⟨c, hc, hb⟩)
      · exact .inl rfl
      · obtain ⟨hp, href⟩ := hl.mem_refChildren.1 hc
        rcases (hchild c hp).1 hb with rfl | ⟨hbref, hw⟩
        · exact .inr ⟨href, .inside hp .refl⟩
        · exact .inr ⟨hbref, (Within.inside hp .refl).trans hw⟩
    · rintro (rfl | ⟨href, hw⟩)
      · exact .inl rfl
      · rcases hw.cases_child with rfl | ⟨c, hp, hw⟩
        · exact .inl rfl
        · refine .inr ⟨c, hl.mem_refChildren.2 ⟨hp, hw.isRef hl href⟩, ?_⟩
          exact (hchild c hp).2 (.inr ⟨href, hw⟩)

/-- Whether a reference has all its contents before anything else begins. -/
def Nested (g : Graph) : Prop :=
  ∀ a b c, g.isRef b = true → g.isRef c = true → a ≤ b → b ≤ c → g.Within a c → g.Within a b

/-- The walk visits references in order. -/
theorem Linked.pairwise_referencesFrom (hl : g.Linked) (hnested : g.Nested) (a : Nat) :
    (g.referencesFrom a).Pairwise (· < ·) := by
  induction hn : g.size - a using Nat.strong_induction_on generalizing a with
  | _ n ih =>
    have hinside : ∀ c, g.parent? c = some a → ∀ b ∈ g.referencesFrom c, c ≤ b := by
      intro c hc b hb
      rcases hl.mem_referencesFrom.1 hb with rfl | ⟨-, hw⟩
      · exact Nat.le_refl b
      · exact hw.le hl
    rw [hl.referencesFrom_eq, List.pairwise_cons, List.pairwise_flatMap]
    refine ⟨?_, fun c hc => ?_, ?_⟩
    · intro b hb
      obtain ⟨c, hc, hb⟩ := List.mem_flatMap.1 hb
      obtain ⟨hp, -⟩ := hl.mem_refChildren.1 hc
      exact Nat.lt_of_lt_of_le (hl.parent c a hp).1 (hinside c hp b hb)
    · obtain ⟨hp, -⟩ := hl.mem_refChildren.1 hc
      have hlt := (hl.parent c a hp).1
      have hsize := lt_size_of_parent? hp
      exact ih (g.size - c) (by omega) c rfl
    · refine (((hl.children_increase a).filter _).imp_of_mem fun {c d} hc hd hcd => ?_)
      obtain ⟨hpc, hcref⟩ := hl.mem_refChildren.1 hc
      obtain ⟨hpd, hdref⟩ := hl.mem_refChildren.1 hd
      intro x hx y hy
      refine Nat.lt_of_lt_of_le (Nat.lt_of_not_le fun hdx => ?_) (hinside d hpd y hy)
      -- if the contents of `c` reached past `d`, then `d` would be inside `c`
      have hdc : g.Within c d := by
        rcases hl.mem_referencesFrom.1 hx with rfl | ⟨hxref, hw⟩
        · omega
        · exact hnested c d x hdref hxref (Nat.le_of_lt hcd) hdx hw
      rcases hdc.cases_parent with rfl | ⟨p, hp, hw⟩
      · exact Nat.lt_irrefl _ hcd
      · obtain rfl := Option.some.inj (hp.symm.trans hpd)
        exact Nat.not_le_of_lt (hl.parent c p hpc).1 (hw.le hl)

/-- The walk from the main file visits all references in order. -/
theorem Linked.sourceArray_eq (hl : g.Linked) (hnested : g.Nested) :
    g.sourceArray = (List.range g.size).filter g.isRef := by
  refine (hl.pairwise_referencesFrom hnested 0).eq_of_mem_iff
    (List.pairwise_lt_range.filter g.isRef) fun id => ?_
  rw [hl.mem_referencesFrom, List.mem_filter, List.mem_range]
  constructor
  · rintro (rfl | ⟨href, -⟩)
    · exact ⟨hl.root.1.lt_size, hl.root.1.isRef⟩
    · exact ⟨g.lt_size_of_isRef href, href⟩
  · rintro ⟨-, href⟩
    exact .inr ⟨href, hl.within_root href⟩

theorem Linked.mem_inclusionsOf (hl : g.Linked) {fileIndex : Int32} :
    b ∈ g.inclusionsOf a fileIndex ↔
      (∃ i, g.inclusion? b = some i ∧ i.fileIndex = fileIndex) ∧ g.Within a b := by
  rw [inclusionsOf, List.mem_filter, hl.mem_referencesFrom]
  constructor
  · rintro ⟨hmem, hfile⟩
    split at hfile
    · rename_i i hi
      refine ⟨⟨i, hi, by simpa using hfile⟩, ?_⟩
      rcases hmem with rfl | ⟨-, hw⟩
      · exact .refl
      · exact hw
    · exact absurd hfile (by simp)
  · rintro ⟨⟨i, hi, hfile⟩, hw⟩
    refine ⟨.inr ⟨IsInclusion.isRef ⟨i, hi⟩, hw⟩, ?_⟩
    rw [hi]
    simp [hfile]

/-- What is found of a file stands in the same order as all references do. -/
theorem Linked.inclusionsOf_sublist (hl : g.Linked) (hnested : g.Nested) (fileIndex : Int32) :
    (g.inclusionsOf a fileIndex).Sublist g.sourceArray := by
  have hsorted : (g.inclusionsOf a fileIndex).Pairwise (· < ·) := by
    rw [inclusionsOf]
    exact (hl.pairwise_referencesFrom hnested a).filter _
  refine List.sublist_of_subperm_of_pairwise
    (List.subperm_of_subset (hsorted.imp Nat.ne_of_lt) fun id hid => ?_) hsorted
    (hl.pairwise_referencesFrom hnested 0)
  obtain ⟨⟨i, hi, -⟩, -⟩ := hl.mem_inclusionsOf.1 hid
  have href := IsInclusion.isRef ⟨i, hi⟩
  exact hl.mem_referencesFrom.2 (.inr ⟨href, hl.within_root href⟩)

/-! ### Order under changes -/

theorem Within.congr (h : ∀ id, g'.parent? id = g.parent? id) (hw : g.Within a b) :
    g'.Within a b := by
  induction hw with
  | refl => exact .refl
  | inside hp _ ih => exact .inside ((h _).trans hp) ih

theorem Alike.within_iff (h : g.Alike g') : g'.Within a b ↔ g.Within a b :=
  ⟨Within.congr fun id => (h.parent? id).symm, Within.congr h.parent?⟩

/-- New events do not change what old events are inside of. -/
theorem Linked.within_iff (hl : g.Linked) (h : ∀ id < g.size, g'.parent? id = g.parent? id)
    (hb : b < g.size) : g'.Within a b ↔ g.Within a b := by
  constructor
  · intro hw
    induction hw with
    | refl => exact .refl
    | inside hp _ ih =>
      rw [h _ hb] at hp
      have hlt := (hl.parent _ _ hp).1
      exact .inside hp (ih (by omega))
  · intro hw
    induction hw with
    | refl => exact .refl
    | inside hp _ ih =>
      have hlt := (hl.parent _ _ hp).1
      exact .inside ((h _ hb).trans hp) (ih (by omega))

/-- Whether references have their contents in one piece, and everything after some reference is
inside it. -/
structure Ordered (g : Graph) (current : Nat) : Prop where
  spine : ∀ b, g.isRef b = true → current ≤ b → g.Within current b
  nested : g.Nested

namespace Ordered

variable {current : Nat}

theorem alike (h : g.Ordered current) (halike : g.Alike g') : g'.Ordered current where
  spine b hb hle := by
    rw [halike.isRef] at hb
    exact halike.within_iff.2 (h.spine b hb hle)
  nested a b c hb hc hab hbc hw := by
    rw [halike.isRef] at hb hc
    exact halike.within_iff.2 (h.nested a b c hb hc hab hbc (halike.within_iff.1 hw))

/-- The reference around the current one has everything after it inside as well. -/
theorem around (h : g.Ordered current) (hl : g.Linked) (hcurrent : g.isRef current = true) :
    g.Ordered ((g.parent? current).getD 0) := by
  cases hp : g.parent? current with
  | none =>
    exact ⟨fun b hb _ => hl.within_root hb, h.nested⟩
  | some p =>
    refine ⟨fun b hb hle => ?_, h.nested⟩
    have hinside : g.Within p current := .inside hp .refl
    rcases Nat.lt_or_ge b current with hlt | hge
    · exact h.nested p b current hb hcurrent hle (Nat.le_of_lt hlt) hinside
    · exact hinside.trans (h.spine b hb hge)

/-- An event that is no reference. -/
theorem definition (h : g.Ordered current) (hl : g.Linked) {parent : Option Nat} {d : Definition}
    (hadds : g.Adds g' parent (.definition d)) : g'.Ordered current := by
  have hiff : ∀ {a b}, g.isRef b = true → (g'.Within a b ↔ g.Within a b) := fun hb =>
    hl.within_iff (fun _ => hadds.parent?_of_lt) (g.lt_size_of_isRef hb)
  have hold : ∀ b, g'.isRef b = true → g.isRef b = true := by
    intro b hb
    rw [hadds.isRef] at hb
    split at hb
    · exact absurd hb (by simp [Nature.isRef])
    · exact hb
  constructor
  · intro b hb hle
    have hb := hold b hb
    exact (hiff hb).2 (h.spine b hb hle)
  · intro a b c hb hc hab hbc hw
    have hb := hold b hb
    have hc := hold c hc
    rw [hiff hc] at hw
    exact (hiff hb).2 (h.nested a b c hb hc hab hbc hw)

/-- A reference that begins inside the current one. -/
theorem reference (h : g.Ordered current) (hl : g.Linked) (hcurrent : g.isRef current = true)
    {nature : Nature} (hinside : g.Inside g' current nature) : g'.Ordered g.size := by
  have hparent : ∀ id < g.size, g'.parent? id = g.parent? id := fun _ => hinside.parent?_of_lt
  have hnew : ∀ b, g'.isRef b = true → b = g.size ∨ b < g.size ∧ g.isRef b = true := by
    intro b hb
    rw [hinside.toAdds.isRef] at hb
    split at hb
    · exact .inl ‹_›
    · exact .inr ⟨g.lt_size_of_isRef hb, hb⟩
  constructor
  · intro b hb hle
    rcases hnew b hb with rfl | ⟨hlt, -⟩
    · exact .refl
    · omega
  · intro a b c hb hc hab hbc hw
    rcases hnew b hb with rfl | ⟨hblt, hb⟩
    · -- nothing begins after the new reference
      rcases hnew c hc with rfl | ⟨hclt, -⟩
      · exact hw
      · omega
    · refine (hl.within_iff hparent hblt).2 ?_
      rcases hnew c hc with rfl | ⟨hclt, hc⟩
      · rcases hw.cases_parent with rfl | ⟨p, hp, hw⟩
        · omega
        · rw [hinside.parent?, if_pos rfl] at hp
          obtain rfl := Option.some.inj hp
          rw [hl.within_iff hparent (g.lt_size_of_isRef hcurrent)] at hw
          rcases Nat.lt_or_ge b current with hlt | hge
          · exact h.nested a b current hb hcurrent hab (Nat.le_of_lt hlt) hw
          · exact hw.trans (h.spine b hb hge)
      · rw [hl.within_iff hparent hclt] at hw
        exact h.nested a b c hb hc hab hbc hw

end Ordered

end Graph

/-! ### Order under callbacks -/

/-- Every move keeps the order. -/
theorem Grounded.ordered_move {h h' : History} {t t' : Tracker} {c : Callback} (hg : Grounded h t)
    (ho : t.graph.Ordered t.current) (hm : Move h t c h' t') : t'.graph.Ordered t'.current := by
  cases hm with
  | still halike hcurrent =>
    rw [hcurrent]
    exact ho.alike halike
  | record _ _ _ hinside hcurrent =>
    rw [hcurrent]
    exact ho.definition hg.linked hinside.toAdds
  | enter hinside hcurrent =>
    rw [hcurrent]
    exact ho.reference hg.linked hg.current hinside
  | expand _ hinside hcurrent =>
    rw [hcurrent]
    exact ho.reference hg.linked hg.current hinside
  | pass name value undefined hbeside hcurrent =>
    rw [hcurrent]
    exact ho.definition hg.linked hbeside.toAdds
  | leave line column _ halike hcurrent =>
    rw [hcurrent]
    exact (ho.around hg.linked hg.current).alike halike
  | finish _ halike hcurrent =>
    rw [hcurrent]
    exact (ho.around hg.linked hg.current).alike halike

theorem ordered_start : Graph.start.Ordered 0 where
  spine b hb _ := linked_start.within_root hb
  nested a b c hb hc hab hbc hw := by
    have hlt : c < 1 := Graph.start.lt_size_of_isRef hc
    obtain rfl : b = c := by omega
    exact hw

theorem ordered_run (callbacks : List Callback) :
    (Tracker.run {} callbacks).graph.Ordered (Tracker.run {} callbacks).current := by
  have hrun := run_induction (P := fun h t => Grounded h t ∧ t.graph.Ordered t.current)
    ⟨grounded_start, ordered_start⟩ (fun h t c => ?_) callbacks
  · exact hrun.2
  · rintro ⟨hg, ho⟩
    exact ⟨hg.step c, hg.ordered_move ho (hg.follows.move hg.current c)⟩

/-- After any callbacks the walk from the main file lists all references in order, each once, and
the inclusions that are found of a file from an event on are those that are the event or inside it, in
the same order. -/
theorem sourceArray_run (callbacks : List Callback) :
    let g := (Tracker.run {} callbacks).graph
    g.sourceArray = (List.range g.size).filter g.isRef ∧
      ∀ event fileIndex, (g.inclusionsOf event fileIndex).Sublist g.sourceArray ∧
        ∀ id, id ∈ g.inclusionsOf event fileIndex ↔
          (∃ i, g.inclusion? id = some i ∧ i.fileIndex = fileIndex) ∧ g.Within event id := by
  have hl := (grounded_run callbacks).linked
  have hnested := (ordered_run callbacks).nested
  refine ⟨hl.sourceArray_eq hnested, fun event fileIndex => ⟨?_, fun id => ?_⟩⟩
  · exact hl.inclusionsOf_sublist hnested fileIndex
  · exact hl.mem_inclusionsOf

end AblAnalysis.Preprocessor
