import AblAnalysis.Proofs.Tree.Links

/-!
Trees that are grown in the order of a walk. A forest has for each node its first child and its next
sibling. Growing the nodes of a forest below a node, each before what is below it, gives new nodes
numbered in the order of the walk. If the forest has the shape of a tree that was grown in another
order, the result is that tree with its nodes renumbered (`IsRenumbering`).
-/

namespace AblAnalysis.Tree

/-- Labelled nodes in order, each with what is below it. -/
inductive Forest (α : Type) where
  | nil
  | cons (label : α) (children siblings : Forest α)

namespace Forest

variable {α : Type}

/-- The labels, each before those below it. -/
def labels : Forest α → List α
  | nil => []
  | cons a children siblings => a :: (children.labels ++ siblings.labels)

/-- The labels of the outermost nodes. -/
def roots : Forest α → List α
  | nil => []
  | cons a _ siblings => a :: siblings.roots

/-- The numbers of the outermost nodes if all nodes are numbered from `n` in order. -/
def places (n : Nat) : Forest α → List Nat
  | nil => []
  | cons _ children siblings => n :: siblings.places (n + 1 + children.labels.length)

/-- The labels, each before those below it, with `none` where there is no further node. -/
def marks : Forest α → List (Option α)
  | nil => [none]
  | cons a children siblings => some a :: (children.marks ++ siblings.marks)

/-- Whether the labels are nodes of a tree, and below each of them are its children. -/
def Traces (t : Tree) : Forest Nat → Prop
  | nil => True
  | cons id children siblings =>
    children.roots = t.children id ∧ children.Traces t ∧ siblings.Traces t

theorem some_mem_marks (f : Forest α) (a : α) : some a ∈ f.marks ↔ a ∈ f.labels := by
  induction f with
  | nil => simp [marks, labels]
  | cons b children siblings ihc ihs => simp [marks, labels, ihc, ihs]

/-- Where the labels stand from position `n` on in a list, the outermost labels stand at their
places. -/
theorem map_places {order before after : List α} (f : Forest α)
    (h : order = before ++ f.labels ++ after) :
    (f.places before.length).map (order[·]?) = f.roots.map some := by
  induction f generalizing before with
  | nil => rfl
  | cons a children siblings _ ih =>
    have hhead : order[before.length]? = some a := by
      rw [h, labels, List.append_assoc, List.getElem?_append_right (Nat.le_refl _)]
      simp
    have hrest := @ih (before ++ a :: children.labels) (by simp [h, labels])
    rw [List.length_append, List.length_cons] at hrest
    simp only [places, roots, List.map_cons, hhead]
    rw [← hrest, Nat.add_assoc, Nat.add_comm 1]

end Forest

/-- A tree has the shape of a forest over its own numbers. -/
theorem Linked.exists_forest {t : Tree} (h : t.Linked) (ids : List Nat)
    (hids : ∀ id ∈ ids, id < t.size) :
    ∃ f : Forest Nat, f.Traces t ∧ f.roots = ids ∧ f.labels = ids.flatMap t.descendants := by
  -- The children of a node are closer to the end than the node is.
  suffices hbound : ∀ n (ids : List Nat), (∀ id ∈ ids, id < t.size ∧ t.size - id ≤ n) →
      ∃ f : Forest Nat, f.Traces t ∧ f.roots = ids ∧ f.labels = ids.flatMap t.descendants from
    hbound t.size ids fun id hid => ⟨hids id hid, Nat.sub_le _ _⟩
  intro n
  induction n with
  | zero =>
    intro ids hids
    cases ids with
    | nil => exact ⟨.nil, trivial, rfl, rfl⟩
    | cons id ids =>
      have := hids id (List.mem_cons_self ..)
      omega
  | succ n ihn =>
    intro ids
    induction ids with
    | nil => exact fun _ => ⟨.nil, trivial, rfl, rfl⟩
    | cons id ids ih =>
      intro hids
      obtain ⟨siblings, hst, hsr, hsl⟩ := ih fun c hc => hids c (List.mem_cons_of_mem _ hc)
      obtain ⟨children, hct, hcr, hcl⟩ := ihn (t.children id) fun c hc => by
        obtain ⟨hlt, hp⟩ := (h.mem_children id c).1 hc
        have := h.lt c id hp
        have := hids id (List.mem_cons_self ..)
        omega
      refine ⟨.cons id children siblings, ⟨hcr, hct, hst⟩, ?_, ?_⟩
      · rw [Forest.roots, hsr]
      · rw [Forest.labels, hcl, hsl, List.flatMap_cons, h.descendants_eq, List.cons_append]

/-! ### Growing a forest -/

variable {α : Type} (node : α → Node)

/-- Adds the nodes of a forest below `p`, each before what is below it. -/
def graft (t : Tree) (p : Nat) : Forest α → Tree
  | .nil => t
  | .cons a children siblings => ((t.addChild p (node a)).graft t.size children).graft p siblings

@[simp] theorem size_graft (t : Tree) (p : Nat) (f : Forest α) :
    (t.graft node p f).size = t.size + f.labels.length := by
  induction f generalizing t p with
  | nil => rfl
  | cons a children siblings ihc ihs =>
    rw [graft, ihs, ihc, size_addChild, Forest.labels, List.length_cons, List.length_append]
    omega

theorem node?_graft (t : Tree) (p : Nat) (f : Forest α) {k : Nat} (hk : k < t.size) :
    (t.graft node p f).node? k = t.node? k := by
  induction f generalizing t p with
  | nil => rfl
  | cons a children siblings ihc ihs =>
    rw [graft, ihs _ _ (by simp; omega), ihc _ _ (by simp; omega), node?_addChild,
      if_neg (Nat.ne_of_lt hk)]

theorem parent?_graft (t : Tree) (p : Nat) (f : Forest α) {k : Nat} (hk : k < t.size) :
    (t.graft node p f).parent? k = t.parent? k := by
  induction f generalizing t p with
  | nil => rfl
  | cons a children siblings ihc ihs =>
    rw [graft, ihs _ _ (by simp; omega), ihc _ _ (by simp; omega), parent?_addChild,
      if_neg (Nat.ne_of_lt hk)]

/-- Of the nodes that were there before only `p` gets children: the outermost ones of the forest. -/
theorem children_graft (t : Tree) (p : Nat) (f : Forest α) (hp : p < t.size) {k : Nat}
    (hk : k < t.size) : (t.graft node p f).children k =
      if k = p then t.children p ++ f.places t.size else t.children k := by
  induction f generalizing t p k with
  | nil =>
    by_cases h : k = p
    · rw [if_pos h, graft, Forest.places, List.append_nil, h]
    · rw [if_neg h, graft]
  | cons a children siblings ihc ihs =>
    have hsize : (t.addChild p (node a)).size = t.size + 1 := size_addChild ..
    rw [graft, ihs _ _ (by simp; omega) (by simp; omega), ihc _ _ (by omega) (by omega),
      ihc _ _ (by omega) (by omega), if_neg (Nat.ne_of_lt hp), if_neg (Nat.ne_of_lt hk),
      children_addChild _ _ _ _ hp, children_addChild _ _ _ _ hp, if_pos rfl]
    by_cases h : k = p
    · rw [if_pos h, if_pos h, Forest.places, size_graft, hsize, List.append_assoc,
        List.singleton_append]
    · rw [if_neg h, if_neg h, if_neg h]

/-! ### Renumbering -/

/-- Whether node `k` of `u` is, after the change `f`, node `id` of `t`, and its links go to the places
that the numbers linked in `t` have in `order`. -/
structure Renumbers (f : Node → Node) (t u : Tree) (order : List Nat) (k id : Nat) : Prop where
  node : u.node? k = (t.node? id).map f
  parent : (u.parent? k).map (order[·]?) = (t.parent? id).map some
  children : (u.children k).map (order[·]?) = (t.children id).map some

/-- Whether `u` is the tree `t` with its nodes numbered in the order of the walk from the root, which
meets each of them once, and changed by `f`. -/
structure IsRenumbering (f : Node → Node) (t u : Tree) : Prop where
  walk : (t.descendants 0).Perm (List.range t.size)
  size : u.size = t.size
  fileNames : u.fileNames = t.fileNames
  nodes : ∀ k id, (t.descendants 0)[k]? = some id → Renumbers f t u (t.descendants 0) k id

/-- Every place of a renumbered tree is that of a node of the walk. -/
theorem IsRenumbering.exists_id {f : Node → Node} {t u : Tree} (h : IsRenumbering f t u) {k : Nat}
    (hk : k < u.size) : ∃ id n, (t.descendants 0)[k]? = some id ∧ t.node? id = some n := by
  have hlen : (t.descendants 0).length = u.size := by
    rw [h.walk.length_eq, List.length_range, h.size]
  have hmem := h.walk.mem_iff.1 (List.getElem_mem (hlen ▸ hk))
  obtain ⟨n, hn⟩ := exists_node? (List.mem_range.1 hmem)
  exact ⟨_, n, List.getElem?_eq_getElem (hlen ▸ hk), hn⟩

/-- The links of a node other than `p` stay as they are when a forest is grown below `p`. -/
theorem Renumbers.graft {f : Node → Node} {t u : Tree} {order : List Nat} {k id p : Nat}
    (h : Renumbers f t u order k id) (g : Nat → Node) (forest : Forest Nat) (hk : k < u.size)
    (hp : p < u.size) (hne : k ≠ p) : Renumbers f t (u.graft g p forest) order k id where
  node := by rw [node?_graft _ _ _ _ hk, h.node]
  parent := by rw [parent?_graft _ _ _ _ hk, h.parent]
  children := by rw [children_graft _ _ _ _ hp hk, if_neg hne, h.children]

/-- The head of a forest, with what has been grown below it. -/
theorem renumbers_head {t u : Tree} {f : Node → Node} {g : Nat → Node} {order : List Nat}
    {p q id : Nat} (hnode : (t.node? id).map f = some (g id)) (hp : p < u.size)
    (hq : order[p]? = some q) (hparent : t.parent? id = some q) {children : Forest Nat}
    (hroots : children.roots = t.children id) {before after : List Nat}
    (horder : order = before ++ [id] ++ children.labels ++ after)
    (hbefore : before.length = u.size) :
    Renumbers f t ((u.addChild p (g id)).graft g u.size children) order u.size id where
  node := by
    rw [node?_graft _ _ _ _ (by simp), node?_addChild, if_pos rfl, hnode]
  parent := by
    rw [parent?_graft _ _ _ _ (by simp), parent?_addChild, if_pos rfl, hparent, Option.map_some,
      Option.map_some, hq]
  children := by
    have hlen : (before ++ [id]).length = (u.addChild p (g id)).size := by simp [hbefore]
    rw [children_graft _ _ _ _ (by simp) (by simp), if_pos rfl, children_addChild _ _ _ _ hp,
      if_neg (Nat.ne_of_gt hp), children_of_size_le _ (Nat.le_refl _), List.nil_append, ← hlen,
      children.map_places horder, hroots]

theorem renumbers_graft {t u : Tree} (ht : t.Linked) {f : Node → Node} {g : Nat → Node}
    {order : List Nat} (hnode : ∀ id ∈ order, (t.node? id).map f = some (g id))
    {forest : Forest Nat} (hforest : forest.Traces t) {p q : Nat} (hp : p < u.size)
    (hq : order[p]? = some q) (hparent : ∀ id ∈ forest.roots, t.parent? id = some q)
    {before after : List Nat} (horder : order = before ++ forest.labels ++ after)
    (hbefore : before.length = u.size) {k id : Nat} (hk : u.size ≤ k)
    (hlt : k < u.size + forest.labels.length) (hid : order[k]? = some id) :
    Renumbers f t (u.graft g p forest) order k id := by
  induction forest generalizing u p q before after with
  | nil => exact absurd hlt (by simpa [Forest.labels] using hk)
  | cons a children siblings ihc ihs =>
    obtain ⟨hroots, hct, hst⟩ := hforest
    rw [Forest.labels, List.length_cons, List.length_append] at hlt
    have hsize : (u.addChild p (g a)).size = u.size + 1 := size_addChild ..
    have hsize' : ((u.addChild p (g a)).graft g u.size children).size =
        u.size + 1 + children.labels.length := by rw [size_graft, hsize]
    have horder' : order = before ++ [a] ++ children.labels ++ (siblings.labels ++ after) := by
      simp [horder, Forest.labels]
    have ha : order[u.size]? = some a := by
      rw [horder', ← hbefore]
      simp
    have hpa : t.parent? a = some q := hparent a (List.mem_cons_self ..)
    have hmem : a ∈ order := List.mem_of_getElem? ha
    rw [Tree.graft]
    rcases Nat.lt_or_ge k (u.size + 1 + children.labels.length) with hk' | hk'
    · refine Renumbers.graft ?_ g siblings (by omega) (by omega) (by omega)
      rcases Nat.eq_or_lt_of_le hk with rfl | hk
      · obtain rfl := Option.some.inj (ha.symm.trans hid)
        exact renumbers_head (hnode a hmem) hp hq hpa hroots horder' hbefore
      · refine ihc hct (by omega) ha (fun c hc => ?_) horder' (by simp [hbefore]) (by omega)
          (by omega)
        rw [hroots] at hc
        exact ((ht.mem_children a c).1 hc).2
    · have hrest : order = (before ++ a :: children.labels) ++ siblings.labels ++ after := by
        simp [horder, Forest.labels]
      refine ihs hst (by omega) hq (fun c hc => hparent c (List.mem_cons_of_mem a hc)) hrest ?_
        (by omega) (by omega)
      rw [hsize', List.length_append, List.length_cons, hbefore]
      omega

/-- Growing the nodes of a tree from its root in the order of the walk renumbers the tree. -/
theorem Linked.isRenumbering_graft {t : Tree} (ht : t.Linked) {f : Node → Node} {g : Nat → Node}
    (hnode : ∀ id < t.size, (t.node? id).map f = some (g id)) {forest : Forest Nat}
    (hforest : forest.Traces t) (hroots : forest.roots = t.children 0)
    (hlabels : forest.labels = (t.children 0).flatMap t.descendants) :
    IsRenumbering f t { (single (g 0)).graft g 0 forest with fileNames := t.fileNames } := by
  have horder : t.descendants 0 = [0] ++ forest.labels ++ [] := by
    rw [ht.descendants_eq, hlabels, List.append_nil]
    rfl
  have hlen : t.size = 1 + forest.labels.length := by
    have hperm := ht.perm_descendants.length_eq
    rw [List.length_range, horder] at hperm
    simpa [Nat.add_comm] using hperm.symm
  have hroot : (t.descendants 0)[0]? = some 0 := by rw [horder]; rfl
  have hmem : ∀ id ∈ t.descendants 0, id < t.size := fun id hid =>
    List.mem_range.1 (ht.perm_descendants.mem_iff.1 hid)
  refine ⟨ht.perm_descendants, ?_, rfl, fun k id hid => ?_⟩
  · exact (size_graft g (single (g 0)) 0 forest).trans hlen.symm
  · suffices h : Renumbers f t ((single (g 0)).graft g 0 forest) (t.descendants 0) k id from
      ⟨h.node, h.parent, h.children⟩
    rcases Nat.eq_zero_or_pos k with rfl | hk
    · obtain rfl := Option.some.inj (hroot.symm.trans hid)
      have h0 : 0 < (single (g 0)).size := Nat.one_pos
      refine ⟨?_, ?_, ?_⟩
      · rw [node?_graft _ _ _ _ h0, hnode 0 ht.nonempty]
        rfl
      · rw [parent?_graft _ _ _ _ h0, ht.root]
        rfl
      · rw [children_graft _ _ _ _ h0 h0, if_pos rfl, ← hroots]
        exact forest.map_places horder
    · have hkl : k < 1 + forest.labels.length := by
        have := (List.getElem?_eq_some_iff.1 hid).1
        rw [horder] at this
        simpa [Nat.add_comm] using this
      exact renumbers_graft ht (fun id hid => hnode id (hmem id hid)) hforest Nat.one_pos hroot
        (fun c hc => by rw [hroots] at hc; exact ((ht.mem_children 0 c).1 hc).2) horder rfl hk hkl
        hid

end AblAnalysis.Tree
