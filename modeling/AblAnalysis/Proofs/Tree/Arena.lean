import AblAnalysis.Proofs.Tree.WalkOrder

/-!
A tree kept as cells with four links each: to the parent, the first and the last child, and the next sibling.
Adding a child resets the links of the new cell and changes those of its parent and of the child that was the
last. So the cells keep the links that the tree has (`Arena.Mirrors.addChild`), following them from cell to cell
gives the children of a node (`Arena.Mirrors.siblings`), and the walk with a stack goes as the walk through the
children (`Arena.Mirrors.unwinds`).
-/

namespace AblAnalysis.Tree

/-- A node with its links. -/
structure Cell where
  node : Node
  parent : Option Nat := none
  firstChild : Option Nat := none
  lastChild : Option Nat := none
  nextSibling : Option Nat := none
  deriving Repr, DecidableEq

/-- The cells of a tree by number. -/
structure Arena where
  cells : Array Cell
  deriving Repr, DecidableEq

/-- A node with the links that a tree has at a number. -/
def cellOf (t : Tree) (id : Nat) (node : Node) : Cell where
  node := node
  parent := t.parent? id
  firstChild := t.firstChild? id
  lastChild := (t.children id).getLast?
  nextSibling := t.nextSibling? id

/-- A node of a tree with its links, by number. -/
def cell? (t : Tree) (id : Nat) : Option Cell :=
  (t.node? id).map (t.cellOf id)

namespace Arena

/-- The arena of one node without links. -/
def single (root : Node) : Arena :=
  { cells := #[{ node := root }] }

/-- Adds a cell as the last child of `parent`, whatever its links were. -/
def addChild (a : Arena) (parent : Nat) (cell : Cell) : Arena :=
  let id := a.cells.size
  let cells := a.cells.push
    { cell with parent := some parent, firstChild := none, lastChild := none, nextSibling := none }
  let replaced := cells.modify parent fun c => { c with lastChild := some id }
  match cells[parent]?.bind (·.lastChild) with
  | some last => { cells := replaced.modify last fun c => { c with nextSibling := some id } }
  | none => { cells := replaced.modify parent fun c => { c with firstChild := some id } }

/-! ### The links of the cells -/

/-- Whether the cells have the nodes and links of a tree. -/
def Mirrors (a : Arena) (t : Tree) : Prop :=
  ∀ id, a.cells[id]? = t.cell? id

variable {a : Arena} {t : Tree}

theorem Mirrors.size (h : a.Mirrors t) : a.cells.size = t.size := by
  have hcells : ∀ id, a.cells.size ≤ id ↔ t.size ≤ id := by
    intro id
    rw [← Array.getElem?_eq_none_iff, h id, cell?, Option.map_eq_none_iff, node?, Option.map_eq_none_iff,
      Array.getElem?_eq_none_iff]
    rfl
  exact Nat.le_antisymm ((hcells _).2 (Nat.le_refl _)) ((hcells _).1 (Nat.le_refl _))

theorem Mirrors.exists_cell (h : a.Mirrors t) {id : Nat} (hid : id < t.size) :
    ∃ node, a.cells[id]? = some (t.cellOf id node) := by
  obtain ⟨node, hnode⟩ := exists_node? hid
  exact ⟨node, by rw [h id, cell?, hnode, Option.map_some]⟩

theorem mirrors_single (root : Node) : (single root).Mirrors (.single root) := by
  intro id
  cases id with
  | zero => rfl
  | succ id => simp [single, cell?, node?, Tree.single]

/-- What a cell becomes by a new child of `parent`, whose last child was `last?`: the parent gets the new one as
its last child and maybe its first, and the child that was the last gets it as its next sibling. -/
def patched (new parent : Nat) (last? : Option Nat) (id : Nat) (c : Cell) : Cell where
  node := c.node
  parent := c.parent
  firstChild := if id = parent ∧ last? = none then some new else c.firstChild
  lastChild := if id = parent then some new else c.lastChild
  nextSibling := if last? = some id then some new else c.nextSibling

/-- Adding a child to a tree gives it a new cell and patches the others. -/
theorem cell?_addChild (h : t.Linked) {p : Nat} (n : Node) (hp : p < t.size) (id : Nat) :
    (t.addChild p n).cell? id =
      if id = t.size then some { node := n, parent := some p }
      else (t.cell? id).map (patched t.size p (t.children p).getLast? id) := by
  have hcell : ∀ node, (t.addChild p n).cellOf id node =
      { node := node
        parent := if id = t.size then some p else t.parent? id
        firstChild := if id = p ∧ (t.children p).getLast? = none then some t.size else t.firstChild? id
        lastChild := if id = p then some t.size else (t.children id).getLast?
        nextSibling := if (t.children p).getLast? = some id then some t.size else t.nextSibling? id } := by
    intro node
    rw [cellOf, parent?_addChild, firstChild?, children_addChild _ _ _ _ hp, h.nextSibling?_addChild n hp]
    by_cases hid : id = p
    · subst hid
      rw [if_pos rfl, if_pos rfl, List.getLast?_append]
      cases hchildren : t.children id <;> simp [firstChild?, hchildren]
    · simp [hid, firstChild?]
  rw [cell?, node?_addChild]
  by_cases hid : id = t.size
  · subst hid
    have hnone : t.children t.size = [] := children_of_size_le _ (Nat.le_refl _)
    have hlast : (t.children p).getLast? ≠ some t.size := fun hlast =>
      Nat.lt_irrefl _ ((h.mem_children p _).1 (List.mem_of_getLast? hlast)).1
    have hroot : t.nextSibling? t.size = none :=
      nextSibling?_of_root (parent?_of_size_le (Nat.le_refl _))
    simp [hcell, firstChild?, hnone, hlast, hroot, Nat.ne_of_gt hp]
  · rw [if_neg hid, if_neg hid, cell?, Option.map_map]
    refine congrArg (fun f => (t.node? id).map f) (funext fun node => ?_)
    rw [hcell, if_neg hid]
    rfl

/-- Adding a child to an arena gives it a new cell and patches the others. -/
theorem getElem?_addChild {p : Nat} {parent : Cell} (hparent : a.cells[p]? = some parent)
    (hlast : ∀ last, parent.lastChild = some last → last < a.cells.size) (cell : Cell) (id : Nat) :
    (a.addChild p cell).cells[id]? =
      if id = a.cells.size then some { node := cell.node, parent := some p }
      else a.cells[id]?.map (patched a.cells.size p parent.lastChild id) := by
  have hp : p < a.cells.size := (Array.getElem?_eq_some_iff.1 hparent).1
  have hold : ∀ c : Cell, (a.cells.push c)[p]? = some parent := fun c => by
    rw [Array.getElem?_push, if_neg (Nat.ne_of_lt hp), hparent]
  rw [Arena.addChild, hold, Option.bind_some]
  have hflip : id = p ↔ p = id := eq_comm
  cases hreplaced : parent.lastChild with
  | none =>
    simp only [Array.getElem?_modify, Array.getElem?_push]
    by_cases hid : id = a.cells.size
    · simp [hid, Nat.ne_of_lt hp]
    · cases a.cells[id]? with
      | none => simp [hid]
      | some c => by_cases hparent : p = id <;> simp [hid, hflip, hparent, patched]
  | some last =>
    have hlt := hlast last hreplaced
    simp only [Array.getElem?_modify, Array.getElem?_push]
    by_cases hid : id = a.cells.size
    · simp [hid, Nat.ne_of_lt hp, Nat.ne_of_lt hlt]
    · cases a.cells[id]? with
      | none => simp [hid]
      | some c =>
        by_cases hparent : p = id <;> by_cases hlast : last = id <;>
          simp [hid, hflip, hparent, hlast, patched]

/-- Adding a child keeps cells and tree in agreement, whatever the links of the new cell were. -/
theorem Mirrors.addChild (h : a.Mirrors t) (hl : t.Linked) {p : Nat} (hp : p < t.size) (cell : Cell) :
    (a.addChild p cell).Mirrors (t.addChild p cell.node) := by
  obtain ⟨node, hparent⟩ := h.exists_cell hp
  have hlast : ∀ last, (t.cellOf p node).lastChild = some last → last < a.cells.size := fun last hlast =>
    h.size ▸ ((hl.mem_children p last).1 (List.mem_of_getLast? hlast)).1
  intro id
  rw [getElem?_addChild hparent hlast, cell?_addChild hl _ hp, h.size, h id]
  rfl

/-! ### Following the links -/

/-- The cells from one on, each the next sibling of the one before. -/
inductive Siblings (a : Arena) : Option Nat → List Nat → Prop
  | done : Siblings a none []
  | next {id : Nat} {cell : Cell} {rest : List Nat} :
    a.cells[id]? = some cell → Siblings a cell.nextSibling rest → Siblings a (some id) (id :: rest)

/-- The walk with a stack: the cell on top is met, and its children take its place, a step deeper. -/
inductive Unwinds (a : Arena) : List (Nat × Nat) → List (Nat × Nat) → Prop
  | done : Unwinds a [] []
  | pop {depth id : Nat} {cell : Cell} {children : List Nat} {stack met : List (Nat × Nat)} :
    a.cells[id]? = some cell → Siblings a cell.firstChild children →
      Unwinds a (children.map (depth + 1, ·) ++ stack) met →
      Unwinds a ((depth, id) :: stack) ((depth, id) :: met)

theorem Siblings.unique {first : Option Nat} {ids ids' : List Nat} (h : Siblings a first ids)
    (h' : Siblings a first ids') : ids = ids' := by
  induction h generalizing ids' with
  | done =>
    cases h'
    rfl
  | next hcell _ ih =>
    cases h' with
    | next hcell' hrest' =>
      obtain rfl := Option.some.inj (hcell.symm.trans hcell')
      rw [ih hrest']

theorem Unwinds.unique {stack met met' : List (Nat × Nat)} (h : Unwinds a stack met)
    (h' : Unwinds a stack met') : met = met' := by
  induction h generalizing met' with
  | done =>
    cases h'
    rfl
  | pop hcell hchildren _ ih =>
    cases h' with
    | pop hcell' hchildren' hrest' =>
      obtain rfl := Option.some.inj (hcell.symm.trans hcell')
      obtain rfl := hchildren.unique hchildren'
      rw [ih hrest']

theorem Mirrors.siblings_of_children (h : a.Mirrors t) (hl : t.Linked) {p : Nat} {before ids : List Nat}
    (hsplit : t.children p = before ++ ids) : Siblings a ids.head? ids := by
  induction ids generalizing before with
  | nil => exact .done
  | cons id rest ih =>
    have hid : id < t.size := ((hl.mem_children p id).1 (by simp [hsplit])).1
    obtain ⟨node, hcell⟩ := h.exists_cell hid
    refine .next hcell ?_
    rw [cellOf, hl.nextSibling?_of_children hsplit]
    have hrest : t.children p = (before ++ [id]) ++ rest := by
      rw [hsplit, List.append_assoc]
      rfl
    exact ih hrest

/-- Following the links from the first child of a node gives its children and ends. -/
theorem Mirrors.siblings (h : a.Mirrors t) (hl : t.Linked) (id : Nat) :
    Siblings a (t.firstChild? id) (t.children id) :=
  h.siblings_of_children hl (List.nil_append _).symm

/-- The walk with a stack meets what the walk through the children meets, one node of the stack after the
other. -/
theorem Mirrors.unwinds (h : a.Mirrors t) (hl : t.Linked) {id : Nat} (hid : id < t.size) (depth : Nat)
    {stack met : List (Nat × Nat)} (hrest : Unwinds a stack met) :
    Unwinds a ((depth, id) :: stack) (t.walkFrom depth id ++ met) := by
  induction hk : t.size - id using Nat.strong_induction_on generalizing depth id stack met with
  | _ k ih =>
    obtain ⟨node, hcell⟩ := h.exists_cell hid
    rw [hl.walkFrom_eq, List.cons_append]
    refine .pop hcell (h.siblings hl id) ?_
    -- the children are met one after the other, before the rest of the stack
    have hchildren : ∀ ids, ids ⊆ t.children id →
        Unwinds a (ids.map (depth + 1, ·) ++ stack) (ids.flatMap (t.walkFrom (depth + 1)) ++ met) := by
      intro ids hids
      induction ids with
      | nil => exact hrest
      | cons c ids ihids =>
        obtain ⟨hc, hids⟩ := List.cons_subset.1 hids
        obtain ⟨hcsize, hparent⟩ := (hl.mem_children id c).1 hc
        have hlt := hl.lt c id hparent
        rw [List.map_cons, List.cons_append, List.flatMap_cons, List.append_assoc]
        exact ih (t.size - c) (by omega) hcsize (depth + 1) (ihids hids) rfl
    exact hchildren _ (List.Subset.refl _)

end Arena

end AblAnalysis.Tree
