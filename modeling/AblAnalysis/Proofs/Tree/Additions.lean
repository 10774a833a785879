import AblAnalysis.Proofs.Tree.Arena

/-!
Trees made by adding nodes one after the other, in any order of parents. The children of a node are those that
were added to it, in that order, and the walk meets every node once, before its children, each of them with all
below it before the next (`arranged_grow`). Following the links of the cells gives the same.
-/

namespace AblAnalysis.Tree

/-! ### Additions -/

/-- The tree of a root with cells added one after the other, each with its parent. -/
def grow (root : Node) (additions : List (Nat × Cell)) : Tree :=
  additions.foldl (fun t (parent, cell) => t.addChild parent cell.node) (single root)

/-- The cells of a root with cells added one after the other, each with its parent. -/
def Arena.grow (root : Node) (additions : List (Nat × Cell)) : Arena :=
  additions.foldl (fun a (parent, cell) => a.addChild parent cell) (.single root)

/-- Whether every parent is there when something is added to it: the root is number 0, and the first node added
is number 1. -/
def Rooted (additions : List (Nat × Cell)) : Prop :=
  ∀ i (h : i < additions.length), additions[i].1 ≤ i

instance instDecidableRooted (additions : List (Nat × Cell)) : Decidable (Rooted additions) :=
  inferInstanceAs (Decidable (∀ i (h : i < additions.length), additions[i].1 ≤ i))

/-- The numbers of the nodes added to a parent, in the order in which they were added. -/
def addedTo (additions : List (Nat × Cell)) (parent : Nat) : List Nat :=
  (additions.zipIdx 1).filterMap fun ((p, _), id) => if p = parent then some id else none

variable (root : Node) {additions : List (Nat × Cell)}

theorem grow_concat (additions : List (Nat × Cell)) (p : Nat) (cell : Cell) :
    grow root (additions ++ [(p, cell)]) = (grow root additions).addChild p cell.node := by
  rw [grow, List.foldl_append]
  rfl

theorem Arena.grow_concat (additions : List (Nat × Cell)) (p : Nat) (cell : Cell) :
    Arena.grow root (additions ++ [(p, cell)]) = (Arena.grow root additions).addChild p cell := by
  rw [Arena.grow, List.foldl_append]
  rfl

@[simp] theorem size_grow (additions : List (Nat × Cell)) :
    (grow root additions).size = additions.length + 1 := by
  induction additions using List.reverseRecOn with
  | nil => rfl
  | append_singleton additions addition ih =>
    rw [grow_concat, size_addChild, ih, List.length_append]
    rfl

theorem Rooted.of_concat {p : Nat} {cell : Cell} (h : Rooted (additions ++ [(p, cell)])) :
    Rooted additions ∧ p < (grow root additions).size := by
  constructor
  · intro i hi
    have hle := h i (by rw [List.length_append]; omega)
    rwa [List.getElem_append_left hi] at hle
  · have hle := h additions.length (by simp)
    rw [List.getElem_concat_length rfl] at hle
    rw [size_grow]
    omega

theorem addedTo_concat (additions : List (Nat × Cell)) (p : Nat) (cell : Cell) (parent : Nat) :
    addedTo (additions ++ [(p, cell)]) parent =
      addedTo additions parent ++ if p = parent then [additions.length + 1] else [] := by
  rw [addedTo, List.zipIdx_append, List.filterMap_append, addedTo]
  by_cases hp : p = parent <;> simp [hp, Nat.add_comm]

theorem Rooted.linked (h : Rooted additions) : (grow root additions).Linked := by
  induction additions using List.reverseRecOn with
  | nil => exact linked_single root
  | append_singleton additions addition ih =>
    obtain ⟨hbefore, hp⟩ := h.of_concat root
    rw [grow_concat]
    exact (ih hbefore).addChild _ hp

/-- The cells keep the links of the tree, whatever links they had when they were added. -/
theorem Rooted.mirrors (h : Rooted additions) : (Arena.grow root additions).Mirrors (grow root additions) := by
  induction additions using List.reverseRecOn with
  | nil => exact Arena.mirrors_single root
  | append_singleton additions addition ih =>
    obtain ⟨hbefore, hp⟩ := h.of_concat root
    rw [grow_concat, Arena.grow_concat]
    exact (ih hbefore).addChild (hbefore.linked root) hp _

theorem Rooted.children (h : Rooted additions) (parent : Nat) :
    (grow root additions).children parent = addedTo additions parent := by
  induction additions using List.reverseRecOn with
  | nil =>
    rcases Nat.eq_zero_or_pos parent with rfl | hpos
    · rfl
    · exact children_of_size_le _ hpos
  | append_singleton additions addition ih =>
    obtain ⟨hbefore, hp⟩ := h.of_concat root
    rw [grow_concat, children_addChild _ _ _ _ hp, addedTo_concat, ← ih hbefore, size_grow]
    rcases eq_or_ne addition.1 parent with heq | hne
    · rw [if_pos heq.symm, if_pos heq, heq]
    · rw [if_neg hne.symm, if_neg hne, List.append_nil]

theorem node?_grow (additions : List (Nat × Cell)) (id : Nat) :
    (grow root additions).node? id = (root :: additions.map (·.2.node))[id]? := by
  induction additions using List.reverseRecOn with
  | nil => cases id <;> simp [grow, single, node?]
  | append_singleton additions addition ih =>
    have hlength : additions.length + 1 = (root :: additions.map (·.2.node)).length := by simp
    rw [grow_concat, node?_addChild, ih, size_grow, List.map_append, ← List.cons_append, hlength]
    rcases Nat.lt_trichotomy id (root :: additions.map (·.2.node)).length with hlt | rfl | hgt
    · rw [if_neg (Nat.ne_of_lt hlt), List.getElem?_append_left hlt]
    · rw [if_pos rfl, List.getElem?_append_right (Nat.le_refl _), Nat.sub_self]
      rfl
    · rw [if_neg (Nat.ne_of_gt hgt), List.getElem?_eq_none (Nat.le_of_lt hgt), List.getElem?_eq_none]
      rw [List.length_append]
      exact hgt

/-! ### Depths -/

/-- The number of steps from a node to the root. -/
def depth (t : Tree) (id : Nat) : Nat :=
  match t.parent? id with
  | some p => if p < id then t.depth p + 1 else 0
  | none => 0
termination_by id

theorem Linked.depth_child {t : Tree} (h : t.Linked) {p c : Nat} (hparent : t.parent? c = some p) :
    t.depth c = t.depth p + 1 := by
  rw [depth, hparent]
  exact if_pos (h.lt c p hparent)

theorem Linked.depth_root {t : Tree} (h : t.Linked) : t.depth 0 = 0 := by
  rw [depth, h.root]

/-- The walk tells the depth of each node. -/
theorem Linked.walkFrom_depth {t : Tree} (h : t.Linked) {id : Nat} (hid : id < t.size) :
    t.walkFrom (t.depth id) id = (t.descendants id).map fun x => (t.depth x, x) := by
  induction hk : t.size - id using Nat.strong_induction_on generalizing id with
  | _ k ih =>
    rw [h.walkFrom_eq, h.descendants_eq, List.map_cons, List.map_flatMap]
    refine congrArg _ (List.flatMap_congr fun c hc => ?_)
    obtain ⟨hcsize, hparent⟩ := (h.mem_children id c).1 hc
    have hlt := h.lt c id hparent
    rw [← h.depth_child hparent]
    exact ih (t.size - c) (by omega) hcsize rfl

/-- The listing has a line for each node, in the order of the walk. -/
theorem Linked.outline_eq {t : Tree} (h : t.Linked) :
    t.outline.map some = (t.descendants 0).map fun id => (t.node? id).map (·.outline (t.depth id)) := by
  have hwalk := h.walkFrom_depth h.nonempty
  rw [h.depth_root] at hwalk
  rw [outline, hwalk, List.filterMap_map]
  have hnodes : ∀ id ∈ t.descendants 0, ∃ node, t.node? id = some node := fun id hid =>
    exists_node? (Linked.lt_size_of_below h.nonempty ((h.mem_descendants h.nonempty).1 hid))
  generalize t.descendants 0 = ids at hnodes ⊢
  induction ids with
  | nil => rfl
  | cons id ids ih =>
    obtain ⟨node, hnode⟩ := hnodes id (List.mem_cons_self ..)
    have hline : ((fun x : Nat × Nat => (t.node? x.2).map (·.outline x.1)) ∘ fun x => (t.depth x, x)) id =
        some (node.outline (t.depth id)) := by simp [hnode]
    rw [List.filterMap_cons_some hline, List.map_cons, List.map_cons, hnode, Option.map_some,
      ih fun other hother => hnodes other (List.mem_cons_of_mem _ hother)]

/-! ### Links and walks -/

/-- What the links of a tree made by additions say, and what following them gives: of its nodes, of the children
of a node, of the walks, and of what is below a node. -/
structure Arranged (root : Node) (additions : List (Nat × Cell)) (t : Tree) (a : Arena) : Prop where
  size : t.size = additions.length + 1
  nodes : ∀ id, t.node? id = (root :: additions.map (·.2.node))[id]?
  mirrors : a.Mirrors t
  root : t.parent? 0 = none
  children : ∀ id, t.children id = addedTo additions id
  siblings : ∀ id cell, a.cells[id]? = some cell →
    ∀ ids, a.Siblings cell.firstChild ids ↔ ids = addedTo additions id
  parent : ∀ id c, c ∈ addedTo additions id ↔ c < t.size ∧ t.parent? c = some id
  last : ∀ id c, (addedTo additions id).getLast? = some c → t.nextSibling? c = none
  preorder : ∀ id, t.descendants id = id :: (addedTo additions id).flatMap t.descendants
  once : (t.descendants 0).Perm (List.range t.size)
  unwinds : ∀ id, id < t.size → ∀ depth met, a.Unwinds [(depth, id)] met ↔ met = t.walkFrom depth id
  depths : t.depth 0 = 0 ∧ ∀ id c, t.parent? c = some id → t.depth c = t.depth id + 1
  walk : t.walkFrom 0 0 = (t.descendants 0).map fun id => (t.depth id, id)
  lines : t.outline.map some = (t.descendants 0).map fun id => (t.node? id).map (·.outline (t.depth id))
  below : ∀ id, id < t.size → ∀ other, other ∈ t.descendants id ↔ t.Below id other

/-- Nodes may be added in any order of parents, and with any links: the links of the tree are those that the
additions say, and its walks meet every node once, before what is below it. -/
theorem arranged_grow (root : Node) {additions : List (Nat × Cell)} (h : Rooted additions) :
    Arranged root additions (grow root additions) (Arena.grow root additions) := by
  have hl := h.linked root
  have hm := h.mirrors root
  have hchildren := h.children root
  refine
    { size := size_grow root additions
      nodes := node?_grow root additions
      mirrors := hm
      root := hl.root
      children := hchildren
      siblings := fun id cell hcell ids => ?_
      parent := fun id c => by rw [← hchildren, hl.mem_children]
      last := fun id c hlast => ?_
      preorder := fun id => by rw [hl.descendants_eq, hchildren]
      once := hl.perm_descendants
      unwinds := fun id hid depth met => ?_
      depths := ⟨hl.depth_root, fun id c => hl.depth_child⟩
      walk := ?_
      lines := hl.outline_eq
      below := fun id hid other => hl.mem_descendants hid }
  · have hid : id < (grow root additions).size := hm.size ▸ (Array.getElem?_eq_some_iff.1 hcell).1
    obtain ⟨node, hlinks⟩ := hm.exists_cell hid
    obtain rfl := Option.some.inj (hcell.symm.trans hlinks)
    have hsiblings := hm.siblings hl id
    rw [hchildren] at hsiblings
    constructor
    · exact fun hids => hids.unique hsiblings
    · rintro rfl
      exact hsiblings
  · rw [← hchildren] at hlast
    obtain ⟨before, hsplit⟩ := List.getLast?_eq_some_iff.1 hlast
    exact hl.nextSibling?_of_children hsplit
  · have hunwinds := hm.unwinds hl hid depth .done
    rw [List.append_nil] at hunwinds
    constructor
    · exact fun hmet => hmet.unique hunwinds
    · rintro rfl
      exact hunwinds
  · have hwalk := hl.walkFrom_depth hl.nonempty
    rwa [hl.depth_root] at hwalk

/-- Cells with links from another tree, added to the root and to the first node in turn. -/
def usedCells : List (Nat × Cell) :=
  [0, 1, 0, 1].map fun parent =>
    (parent, { node := { kind := 1 }, parent := some 7, firstChild := some 0, nextSibling := some 2 })

theorem arranged_grow_usedCells :
    Rooted usedCells ∧ (grow { kind := 0 } usedCells).children 1 = [2, 4] ∧
      (grow { kind := 0 } usedCells).nextSibling? 4 = none ∧
      (grow { kind := 0 } usedCells).descendants 1 = [1, 2, 4] := by
  have hrooted : Rooted usedCells := by decide
  have harranged := arranged_grow { kind := 0 } hrooted
  have hadded : addedTo usedCells 1 = [2, 4] ∧ addedTo usedCells 2 = [] ∧ addedTo usedCells 4 = [] := by
    decide
  obtain ⟨hone, htwo, hfour⟩ := hadded
  refine ⟨hrooted, (harranged.children 1).trans hone, harranged.last 1 4 (by rw [hone]; rfl), ?_⟩
  rw [harranged.preorder, hone, List.flatMap_cons, List.flatMap_singleton, harranged.preorder 2, htwo,
    harranged.preorder 4, hfour]
  rfl

end AblAnalysis.Tree
