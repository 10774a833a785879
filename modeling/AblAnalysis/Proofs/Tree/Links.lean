import AblAnalysis.Tree.Basic
import Mathlib.Data.List.Range
import Mathlib.Data.List.Nodup

/-!
The links of a tree that has been grown node by node. Parents have smaller numbers than their
children, the children of a node are exactly the nodes that have it as their parent, in the order of
their numbers, and the walk from the root meets every node once (`Linked.perm_descendants`).
-/

namespace AblAnalysis.Tree

/-! ### Adding a child -/

section AddChild

variable (t : Tree) (p : Nat) (n : Node)

@[simp] theorem size_addChild : (t.addChild p n).size = t.size + 1 := by
  by_cases h : p < t.slots.size <;> simp [addChild, size, h]

theorem getElem?_addChild (id : Nat) : (t.addChild p n).slots[id]? =
    if id = t.size then some { node := n, parent := some p }
    else if id = p then t.slots[p]?.map (fun s => { s with children := s.children.push t.size })
    else t.slots[id]? := by
  have hpush : (t.slots.push { node := n, parent := some p })[id]? =
      if id = t.size then some { node := n, parent := some p } else t.slots[id]? :=
    Array.getElem?_push
  simp only [addChild]
  split
  · rename_i hp
    rw [Array.getElem?_modify, hpush]
    by_cases hid : p = id
    · subst hid
      rw [if_pos rfl, if_neg (Nat.ne_of_lt hp), if_neg (Nat.ne_of_lt hp), if_pos rfl]
    · rw [if_neg hid, if_neg (Ne.symm hid)]
  · rename_i hp
    rw [hpush]
    by_cases hid : id = p
    · have hnone : t.slots[p]? = none := Array.getElem?_eq_none (Nat.not_lt.1 hp)
      rw [if_pos hid, hid, hnone, Option.map_none]
    · rw [if_neg hid]

theorem node?_addChild (id : Nat) :
    (t.addChild p n).node? id = if id = t.size then some n else t.node? id := by
  simp only [node?, getElem?_addChild]
  by_cases hid : id = t.size
  · rw [if_pos hid, if_pos hid, Option.map_some]
  · rw [if_neg hid, if_neg hid]
    by_cases hp : id = p
    · rw [if_pos hp, hp, Option.map_map]
      rfl
    · rw [if_neg hp]

theorem parent?_addChild (id : Nat) :
    (t.addChild p n).parent? id = if id = t.size then some p else t.parent? id := by
  simp only [parent?, getElem?_addChild]
  by_cases hid : id = t.size
  · rw [if_pos hid, if_pos hid, Option.bind_some]
  · rw [if_neg hid, if_neg hid]
    by_cases hp : id = p
    · rw [if_pos hp, hp, Option.bind_map]
      rfl
    · rw [if_neg hp]

theorem exists_node? {t : Tree} {id : Nat} (h : id < t.size) : ∃ n, t.node? id = some n :=
  ⟨_, by rw [node?, Array.getElem?_eq_getElem h, Option.map_some]⟩

theorem children_of_size_le {id : Nat} (h : t.size ≤ id) : t.children id = [] := by
  rw [children, Array.getElem?_eq_none h]

theorem children_addChild (id : Nat) (h : p < t.size) :
    (t.addChild p n).children id = if id = p then t.children p ++ [t.size] else t.children id := by
  simp only [children, getElem?_addChild]
  by_cases hid : id = t.size
  · rw [if_pos hid, if_neg (fun hp => absurd h (by omega))]
    exact (t.children_of_size_le (Nat.le_of_eq hid.symm)).symm
  · rw [if_neg hid]
    by_cases hp : id = p
    · obtain ⟨s, hs⟩ : ∃ s, t.slots[p]? = some s := ⟨_, Array.getElem?_eq_getElem h⟩
      simp only [if_pos hp, hs, Option.map_some, Array.toList_push]
    · rw [if_neg hp, if_neg hp]

end AddChild

/-! ### Grown trees -/

/-- A tree that has been grown from one node, at any time with any names for its files. -/
inductive Grown : Tree → Prop
  | single (root : Node) : Grown (single root)
  | addChild {t : Tree} (p : Nat) (n : Node) : Grown t → p < t.size → Grown (t.addChild p n)
  | named {t : Tree} (names : List String) : Grown t → Grown { t with fileNames := names }

/-- What the links of a tree say about each other. -/
structure Linked (t : Tree) : Prop where
  nonempty : 0 < t.size
  root : t.parent? 0 = none
  parent : ∀ id, 0 < id → id < t.size → ∃ p, t.parent? id = some p
  lt : ∀ id p, t.parent? id = some p → p < id
  mem_children : ∀ p c, c ∈ t.children p ↔ c < t.size ∧ t.parent? c = some p
  increasing : ∀ p, (t.children p).Pairwise (· < ·)

theorem parent?_of_size_le {t : Tree} {id : Nat} (h : t.size ≤ id) : t.parent? id = none := by
  rw [parent?, Array.getElem?_eq_none h, Option.bind_none]

theorem linked_single (root : Node) : (single root).Linked where
  nonempty := Nat.one_pos
  root := rfl
  parent id h h' := absurd (show id < 1 from h') (by omega)
  lt id p h := by
    cases id with
    | zero => exact absurd h (by simp [parent?, single])
    | succ id => exact absurd h (by rw [parent?_of_size_le (by simp [single, size])]; simp)
  mem_children p c := by
    have hnil : (single root).children p = [] := by
      cases p with
      | zero => rfl
      | succ p => exact children_of_size_le _ (by simp [single, size])
    rw [hnil]
    constructor
    · intro h
      exact absurd h List.not_mem_nil
    · rintro ⟨hc, h⟩
      obtain rfl : c = 0 := Nat.lt_one_iff.1 hc
      exact absurd h (by simp [parent?, single])
  increasing p := by
    cases p with
    | zero => exact List.Pairwise.nil
    | succ p => rw [children_of_size_le _ (by simp [single, size])]; exact List.Pairwise.nil

theorem Linked.addChild {t : Tree} (h : t.Linked) {p : Nat} (n : Node) (hp : p < t.size) :
    (t.addChild p n).Linked where
  nonempty := by rw [size_addChild]; exact Nat.succ_pos _
  root := by rw [parent?_addChild, if_neg (Nat.ne_of_lt h.nonempty), h.root]
  parent id h0 hid := by
    rw [size_addChild] at hid
    rw [parent?_addChild]
    by_cases he : id = t.size
    · exact ⟨p, if_pos he⟩
    · rw [if_neg he]
      exact h.parent id h0 (by omega)
  lt id q hq := by
    rw [parent?_addChild] at hq
    split at hq
    · obtain rfl := Option.some.inj hq
      omega
    · exact h.lt id q hq
  mem_children q c := by
    rw [children_addChild _ _ _ _ hp, size_addChild, parent?_addChild]
    have hold : c ∈ t.children q → c ≠ t.size := fun hc =>
      Nat.ne_of_lt ((h.mem_children q c).1 hc).1
    by_cases hq : q = p
    · subst hq
      rw [if_pos rfl, List.mem_append, List.mem_singleton]
      by_cases hc : c = t.size
      · simp [hc]
      · simp only [hc, or_false, if_false, h.mem_children]
        exact and_congr_left fun _ => by omega
    · rw [if_neg hq]
      by_cases hc : c = t.size
      · simp only [hc, if_true, Option.some.injEq]
        exact ⟨fun hm => absurd hc (hold (hc ▸ hm)), fun hm => absurd hm.2.symm hq⟩
      · simp only [hc, if_false, h.mem_children]
        exact and_congr_left fun _ => by omega
  increasing q := by
    rw [children_addChild _ _ _ _ hp]
    split
    · refine List.pairwise_append.2 ⟨h.increasing p, List.pairwise_singleton _ _, ?_⟩
      intro c hc d hd
      rw [List.mem_singleton.1 hd]
      exact ((h.mem_children p c).1 hc).1
    · exact h.increasing q

theorem Grown.linked {t : Tree} (h : t.Grown) : t.Linked := by
  induction h with
  | single root => exact linked_single root
  | addChild p n _ hp ih => exact ih.addChild n hp
  | named names _ ih => exact ⟨ih.nonempty, ih.root, ih.parent, ih.lt, ih.mem_children, ih.increasing⟩

/-! ### The walk -/

theorem map_walkFrom (t : Tree) (d e id : Nat) :
    (t.walkFrom d id).map (·.2) = (t.walkFrom e id).map (·.2) := by
  induction hk : t.size - id using Nat.strong_induction_on generalizing d e id with
  | _ k ih =>
    rw [walkFrom, walkFrom]
    simp only [List.map_cons, List.map_flatMap]
    congr 1
    refine List.flatMap_congr fun c _ => ?_
    split
    · exact ih (t.size - c) (by omega) _ _ c rfl
    · rfl

/-- The walk goes from a node through its children, a step deeper, one after the other. -/
theorem Linked.walkFrom_eq {t : Tree} (h : t.Linked) (d id : Nat) :
    t.walkFrom d id = (d, id) :: (t.children id).flatMap (t.walkFrom (d + 1)) := by
  rw [walkFrom]
  refine congrArg _ (List.flatMap_congr fun c hc => ?_)
  obtain ⟨hlt, hparent⟩ := (h.mem_children id c).1 hc
  rw [dif_pos ⟨h.lt c id hparent, hlt⟩]

theorem Linked.descendants_eq {t : Tree} (h : t.Linked) (id : Nat) :
    t.descendants id = id :: (t.children id).flatMap t.descendants := by
  rw [descendants, h.walkFrom_eq, List.map_cons, List.map_flatMap]
  exact congrArg _ (List.flatMap_congr fun c _ => t.map_walkFrom _ _ c)

/-- A node is below itself and all the nodes on its way to the root. -/
inductive Below (t : Tree) (a : Nat) : Nat → Prop
  | refl : Below t a a
  | step {id p : Nat} : t.parent? id = some p → Below t a p → Below t a id

theorem Linked.le_of_below {t : Tree} (h : t.Linked) {a id : Nat} (hb : t.Below a id) : a ≤ id := by
  induction hb with
  | refl => exact Nat.le_refl a
  | step hp _ ih => exact Nat.le_of_lt (Nat.lt_of_le_of_lt ih (h.lt _ _ hp))

theorem Below.of_child {t : Tree} {a c id : Nat} (hc : t.parent? c = some a) (hb : t.Below c id) :
    t.Below a id := by
  induction hb with
  | refl => exact .step hc .refl
  | step hp _ ih => exact .step hp ih

theorem Below.cases_child {t : Tree} {a id : Nat} (hb : t.Below a id) :
    id = a ∨ ∃ c, t.parent? c = some a ∧ t.Below c id := by
  induction hb with
  | refl => exact .inl rfl
  | step hp _ ih =>
    rcases ih with rfl | ⟨c, hc, hbc⟩
    · exact .inr ⟨_, hp, .refl⟩
    · exact .inr ⟨c, hc, .step hp hbc⟩

/-- Of two nodes above a third one, one is above the other. -/
theorem Below.total {t : Tree} {a b id : Nat} (ha : t.Below a id) (hb : t.Below b id) :
    t.Below a b ∨ t.Below b a := by
  induction ha with
  | refl => exact .inr hb
  | step hp ha ih =>
    cases hb with
    | refl => exact .inl (.step hp ha)
    | step hp' hb' =>
      obtain rfl := Option.some.inj (hp.symm.trans hp')
      exact ih hb'

theorem Linked.mem_descendants {t : Tree} (h : t.Linked) {a id : Nat} (ha : a < t.size) :
    id ∈ t.descendants a ↔ t.Below a id := by
  induction hk : t.size - a using Nat.strong_induction_on generalizing a with
  | _ k ih =>
    rw [h.descendants_eq, List.mem_cons, List.mem_flatMap]
    constructor
    · rintro (rfl | ⟨c, hc, hid⟩)
      · exact .refl
      · obtain ⟨hlt, hp⟩ := (h.mem_children a c).1 hc
        have := h.lt c a hp
        exact .of_child hp ((ih (t.size - c) (by omega) hlt rfl).1 hid)
    · intro hb
      rcases hb.cases_child with rfl | ⟨c, hp, hbc⟩
      · exact .inl rfl
      · have hlt : c < t.size := Nat.lt_of_not_le fun hle => by
          rw [parent?_of_size_le hle] at hp
          exact absurd hp (by simp)
        have := h.lt c a hp
        exact .inr ⟨c, (h.mem_children a c).2 ⟨hlt, hp⟩,
          (ih (t.size - c) (by omega) hlt rfl).2 hbc⟩

theorem Linked.nodup_descendants {t : Tree} (h : t.Linked) {a : Nat} (ha : a < t.size) :
    (t.descendants a).Nodup := by
  induction hk : t.size - a using Nat.strong_induction_on generalizing a with
  | _ k ih =>
    have hchild : ∀ c ∈ t.children a, a < c ∧ c < t.size ∧ t.parent? c = some a := fun c hc =>
      have hc := (h.mem_children a c).1 hc
      ⟨h.lt c a hc.2, hc⟩
    rw [h.descendants_eq, List.nodup_cons, List.nodup_flatMap]
    refine ⟨fun hmem => ?_, fun c hc => ?_, ?_⟩
    · obtain ⟨c, hc, hac⟩ := List.mem_flatMap.1 hmem
      obtain ⟨hlt, hsize, -⟩ := hchild c hc
      have := h.le_of_below ((h.mem_descendants hsize).1 hac)
      omega
    · obtain ⟨hlt, hsize, -⟩ := hchild c hc
      exact ih (t.size - c) (by omega) hsize rfl
    · refine List.Pairwise.imp_of_mem ?_ (h.increasing a)
      intro c d hc hd hcd id hidc hidd
      obtain ⟨hac, hcsize, hcp⟩ := hchild c hc
      obtain ⟨had, hdsize, hdp⟩ := hchild d hd
      -- A common node below two siblings puts one of them below the other, hence below its parent.
      have hbc := (h.mem_descendants hcsize).1 hidc
      have hbd := (h.mem_descendants hdsize).1 hidd
      rcases hbc.total hbd with hb | hb
      · cases hb with
        | refl => exact absurd hcd (Nat.lt_irrefl c)
        | step hp hb =>
          obtain rfl := Option.some.inj (hp.symm.trans hdp)
          have := h.le_of_below hb
          omega
      · have := h.le_of_below hb
        omega

theorem Linked.below_root {t : Tree} (h : t.Linked) {id : Nat} (hid : id < t.size) :
    t.Below 0 id := by
  induction id using Nat.strong_induction_on with
  | _ id ih =>
    rcases Nat.eq_zero_or_pos id with rfl | hpos
    · exact .refl
    · obtain ⟨p, hp⟩ := h.parent id hpos hid
      have hlt := h.lt id p hp
      exact .step hp (ih p hlt (Nat.lt_trans hlt hid))

theorem Linked.lt_size_of_below {t : Tree} {a id : Nat} (ha : a < t.size) (hb : t.Below a id) :
    id < t.size := by
  cases hb with
  | refl => exact ha
  | step hp _ =>
    refine Nat.lt_of_not_le fun hle => ?_
    rw [parent?_of_size_le hle] at hp
    exact absurd hp (by simp)

/-- The walk from the root meets every node once. -/
theorem Linked.perm_descendants {t : Tree} (h : t.Linked) :
    (t.descendants 0).Perm (List.range t.size) := by
  refine (List.perm_ext_iff_of_nodup (h.nodup_descendants h.nonempty) List.nodup_range).2 fun id => ?_
  rw [h.mem_descendants h.nonempty, List.mem_range]
  exact ⟨fun hb => lt_size_of_below h.nonempty hb, fun hid => h.below_root hid⟩

end AblAnalysis.Tree
