import AblAnalysis.Proofs.Tree.Forest
import Mathlib.Data.List.Sort

/-!
Trees that are numbered in the order of the walk. A tree keeps that order while it grows as long as
every new node goes below the last one or below a node around it (`Growing`): then nothing is added to
what is below a node once a node beside it has begun, so the walk meets the nodes in the order of their
numbers (`Growing.proper`). Such a tree is its own renumbering (`IsRenumbering.eq_mapNodes`).
-/

namespace AblAnalysis.Tree

/-! ### Siblings -/

/-- The next sibling of a node stands after it among the children of their parent. -/
theorem Linked.nextSibling?_eq_some_iff {t : Tree} (h : t.Linked) (a b : Nat) :
    t.nextSibling? a = some b ↔
      ∃ p before after, t.children p = before ++ a :: b :: after := by
  constructor
  · intro hnext
    rw [nextSibling?] at hnext
    cases hp : t.parent? a with
    | none => simp [hp] at hnext
    | some p =>
      simp only [hp] at hnext
      cases hdrop : (t.children p).dropWhile (· ≠ a) with
      | nil =>
        rw [hdrop] at hnext
        simp at hnext
      | cons c rest =>
        have hc : c = a := by
          have hhead := List.head?_dropWhile_not (fun x => decide (x ≠ a)) (t.children p)
          rw [hdrop] at hhead
          simpa using hhead
        rw [hdrop, List.getElem?_cons_succ, ← List.head?_eq_getElem?] at hnext
        obtain ⟨after, rfl⟩ := List.head?_eq_some_iff.1 hnext
        refine ⟨p, (t.children p).takeWhile (· ≠ a), after, ?_⟩
        rw [← hc, ← hdrop, hc, List.takeWhile_append_dropWhile]
  · rintro ⟨p, before, after, hsplit⟩
    have ha : a ∈ t.children p := by simp [hsplit]
    have hp : t.parent? a = some p := ((h.mem_children p a).1 ha).2
    have hbefore : ∀ c ∈ before, decide (c ≠ a) = true := by
      intro c hc
      have hinc := h.increasing p
      rw [hsplit] at hinc
      have hlt := (List.pairwise_append.1 hinc).2.2 c hc a (List.mem_cons_self ..)
      exact decide_eq_true (Nat.ne_of_lt hlt)
    rw [nextSibling?, hp]
    simp only [hsplit]
    rw [List.dropWhile_append_of_pos hbefore]
    simp

/-- What stands after a node among the children of their parent begins with its next sibling. -/
theorem Linked.nextSibling?_of_children {t : Tree} (h : t.Linked) {p a : Nat} {before after : List Nat}
    (hsplit : t.children p = before ++ a :: after) : t.nextSibling? a = after.head? := by
  cases after with
  | cons b after => exact (h.nextSibling?_eq_some_iff a b).2 ⟨p, before, after, hsplit⟩
  | nil =>
    rw [List.head?_nil, Option.eq_none_iff_forall_ne_some]
    intro b hb
    obtain ⟨q, before', after', hsplit'⟩ := (h.nextSibling?_eq_some_iff a b).1 hb
    have hp : t.parent? a = some p := ((h.mem_children p a).1 (by simp [hsplit])).2
    have hq : t.parent? a = some q := ((h.mem_children q a).1 (by simp [hsplit'])).2
    obtain rfl := Option.some.inj (hp.symm.trans hq)
    -- `b` is larger than `a`, which is the last and so the largest of the children
    have hlt : a < b := by
      have hinc := h.increasing p
      rw [hsplit'] at hinc
      exact (List.pairwise_cons.1 (List.pairwise_append.1 hinc).2.1).1 b (List.mem_cons_self ..)
    have hmem : b ∈ before ++ [a] := by
      rw [← hsplit, hsplit']
      simp
    rcases List.mem_append.1 hmem with hmem | hmem
    · have hinc := h.increasing p
      rw [hsplit] at hinc
      have := (List.pairwise_append.1 hinc).2.2 b hmem a (List.mem_singleton_self a)
      omega
    · exact absurd (List.mem_singleton.1 hmem) (Nat.ne_of_gt hlt)

theorem nextSibling?_of_root {t : Tree} {id : Nat} (h : t.parent? id = none) : t.nextSibling? id = none := by
  rw [nextSibling?, h]

/-- A new node becomes the next sibling of the child that was the last of its parent. -/
theorem Linked.nextSibling?_addChild {t : Tree} (h : t.Linked) {p : Nat} (n : Node) (hp : p < t.size)
    (id : Nat) : (t.addChild p n).nextSibling? id =
      if (t.children p).getLast? = some id then some t.size else t.nextSibling? id := by
  have h' := h.addChild n hp
  have hlast : (t.children p).getLast? = some id → id < t.size ∧ t.parent? id = some p := fun hlast =>
    (h.mem_children p id).1 (List.mem_of_getLast? hlast)
  cases hparent : t.parent? id with
  | none =>
    rw [if_neg fun hid => absurd (hparent.symm.trans (hlast hid).2) (by simp),
      nextSibling?_of_root hparent]
    rcases eq_or_ne id t.size with rfl | hne
    · have hsplit : (t.addChild p n).children p = t.children p ++ t.size :: [] := by
        rw [children_addChild _ _ _ _ hp, if_pos rfl]
      exact h'.nextSibling?_of_children hsplit
    · refine nextSibling?_of_root ?_
      rw [parent?_addChild, if_neg hne, hparent]
  | some q =>
    have hid : id < t.size := Nat.lt_of_not_le fun hle => by
      rw [parent?_of_size_le hle] at hparent
      simp at hparent
    obtain ⟨before, after, hsplit⟩ := List.append_of_mem ((h.mem_children q id).2 ⟨hid, hparent⟩)
    rw [h.nextSibling?_of_children hsplit]
    rcases eq_or_ne q p with rfl | hne
    · have hsplit' : (t.addChild q n).children q = before ++ id :: (after ++ [t.size]) := by
        rw [children_addChild _ _ _ _ hp, if_pos rfl, hsplit, List.append_assoc, List.cons_append]
      rw [h'.nextSibling?_of_children hsplit', hsplit]
      cases after with
      | nil => simp
      | cons b after =>
        have hinc := h.increasing q
        rw [hsplit] at hinc
        have hlarger := (List.pairwise_cons.1 (List.pairwise_append.1 hinc).2.1).1
        rw [if_neg]
        · rfl
        · intro hlast'
          rw [List.getLast?_append_cons, List.getLast?_cons_cons] at hlast'
          exact absurd (hlarger id (List.mem_of_getLast? hlast')) (Nat.lt_irrefl id)
    · have hsplit' : (t.addChild p n).children q = before ++ id :: after := by
        rw [children_addChild _ _ _ _ hp, if_neg hne, hsplit]
      rw [h'.nextSibling?_of_children hsplit', if_neg]
      intro hlast'
      exact hne (Option.some.inj (hparent.symm.trans (hlast hlast').2))

/-- Whether the numbers of a tree are those of its own walk and all of its links agree: parents with
children, and the siblings of a node with the children of its parent. -/
structure Proper (t : Tree) : Prop where
  linked : t.Linked
  walk : t.descendants 0 = List.range t.size
  root : t.parent? 0 = none ∧ t.nextSibling? 0 = none
  siblings : ∀ a b, t.nextSibling? a = some b ↔
    ∃ p before after, t.children p = before ++ a :: b :: after

theorem Linked.proper {t : Tree} (h : t.Linked) (hwalk : t.descendants 0 = List.range t.size) :
    t.Proper where
  linked := h
  walk := hwalk
  root := by
    refine ⟨h.root, ?_⟩
    rw [nextSibling?, h.root]
  siblings := h.nextSibling?_eq_some_iff

/-- The walk depends on nothing but the children of the nodes. -/
theorem walkFrom_congr {t u : Tree} (hsize : u.size = t.size)
    (hchildren : ∀ id, u.children id = t.children id) (d id : Nat) :
    u.walkFrom d id = t.walkFrom d id := by
  induction hk : t.size - id using Nat.strong_induction_on generalizing d id with
  | _ k ih =>
    rw [walkFrom, walkFrom, hchildren]
    refine congrArg _ (List.flatMap_congr fun c _ => ?_)
    simp only [hsize]
    split
    · exact ih (t.size - c) (by omega) _ c rfl
    · rfl

/-- A tree with the links of a proper one is proper. -/
theorem Proper.congr {t u : Tree} (h : t.Proper) (hsize : u.size = t.size)
    (hparent : ∀ id, u.parent? id = t.parent? id)
    (hchildren : ∀ id, u.children id = t.children id) : u.Proper := by
  have hl := h.linked
  have hlinked : u.Linked := by
    constructor
    · rw [hsize]
      exact hl.nonempty
    · rw [hparent]
      exact hl.root
    · simpa only [hsize, hparent] using hl.parent
    · simpa only [hparent] using hl.lt
    · simpa only [hchildren, hsize, hparent] using hl.mem_children
    · simpa only [hchildren] using hl.increasing
  refine hlinked.proper ?_
  rw [descendants, walkFrom_congr hsize hchildren, hsize]
  exact h.walk

theorem Proper.named {t : Tree} (h : t.Proper) (names : List String) :
    Proper { t with fileNames := names } :=
  h.congr rfl (fun _ => rfl) (fun _ => rfl)

/-! ### Growing in order -/

/-- Whether a tree has grown in the order of the walk, and the nodes among `places` may still get
children: they are around its last node, the innermost first. -/
structure Growing (t : Tree) (places : List (Option Nat)) : Prop where
  linked : t.Linked
  ordered : ∀ id, id + 1 < t.size → ∃ p, t.parent? (id + 1) = some p ∧ t.Below p id
  around : ∀ p, some p ∈ places → t.Below p (t.size - 1)
  nested : places.Pairwise fun x y => ∀ p q, x = some p → y = some q → t.Below q p

variable {t : Tree}

theorem growing_single (root : Node) : (single root).Growing [some 0, none] where
  linked := linked_single root
  ordered id h := absurd (show id + 1 < 1 from h) (by omega)
  around p hp := by
    obtain rfl : p = 0 := by simpa using hp
    exact .refl
  nested := by simp

/-- The innermost place is done with. -/
theorem Growing.close {place : Option Nat} {outer : List (Option Nat)}
    (h : t.Growing (place :: outer)) : t.Growing outer where
  linked := h.linked
  ordered := h.ordered
  around p hp := h.around p (List.mem_cons_of_mem _ hp)
  nested := (List.pairwise_cons.1 h.nested).2

theorem Below.addChild {a b : Nat} (h : t.Below a b) (p : Nat) (n : Node) :
    (t.addChild p n).Below a b := by
  induction h with
  | refl => exact .refl
  | @step id q hq _ ih =>
    refine .step ?_ ih
    have hlt : id < t.size := by
      by_contra hle
      rw [parent?_of_size_le (Nat.not_lt.1 hle)] at hq
      simp at hq
    rw [parent?_addChild, if_neg (Nat.ne_of_lt hlt), hq]

theorem Growing.lt_size {p : Nat} {places : List (Option Nat)} (h : t.Growing places)
    (hp : some p ∈ places) : p < t.size := by
  have hle := h.linked.le_of_below (h.around p hp)
  have hpos := h.linked.nonempty
  omega

/-- A new node goes into the innermost place and is the innermost place then. -/
theorem Growing.addChild {p : Nat} {outer : List (Option Nat)} (h : t.Growing (some p :: outer))
    (n : Node) : (t.addChild p n).Growing (some t.size :: some p :: outer) := by
  have hp : p < t.size := h.lt_size (List.mem_cons_self ..)
  have hnew : (t.addChild p n).parent? t.size = some p := by rw [parent?_addChild, if_pos rfl]
  have hbelow : ∀ q, some q ∈ some p :: outer → (t.addChild p n).Below q p := by
    intro q hq
    rcases List.mem_cons.1 hq with hq | hq
    · obtain rfl := Option.some.inj hq
      exact .refl
    · exact ((List.pairwise_cons.1 h.nested).1 _ hq p q rfl rfl).addChild p n
  refine ⟨h.linked.addChild n hp, ?_, ?_, ?_⟩
  · intro id hid
    rw [size_addChild] at hid
    rcases Nat.lt_or_ge (id + 1) t.size with hlt | hge
    · obtain ⟨q, hq, hbq⟩ := h.ordered id hlt
      refine ⟨q, ?_, hbq.addChild p n⟩
      rw [parent?_addChild, if_neg (Nat.ne_of_lt hlt), hq]
    · have hlast : id = t.size - 1 := by omega
      have hnext : id + 1 = t.size := by omega
      refine ⟨p, hnext ▸ hnew, ?_⟩
      rw [hlast]
      exact (h.around p (List.mem_cons_self ..)).addChild p n
  · intro q hq
    rw [size_addChild, Nat.add_sub_cancel]
    rcases List.mem_cons.1 hq with hq | hq
    · obtain rfl := Option.some.inj hq
      exact .refl
    · exact .step hnew (hbelow q hq)
  · refine List.pairwise_cons.2 ⟨?_, ?_⟩
    · rintro y hy p' q hp' rfl
      obtain rfl := Option.some.inj hp'
      exact .step hnew (hbelow q hy)
    · refine h.nested.imp ?_
      intro x y hxy p' q hp' hq
      exact (hxy p' q hp' hq).addChild p n

/-- Nothing is below a node after its next sibling has begun. -/
theorem Growing.not_below {places : List (Option Nat)} (h : t.Growing places) {a c d id : Nat}
    (hc : t.parent? c = some a) (hd : t.parent? d = some a) (hcd : c < d) (hid : d ≤ id)
    (hlt : id < t.size) : ¬ t.Below c id := by
  induction id, hid using Nat.le_induction with
  | base =>
    -- above `d` come `a` and what is above `a`, all of it before `c`
    intro hb
    have hac := h.linked.lt c a hc
    cases hb with
    | refl => omega
    | step hp hb =>
      obtain rfl := Option.some.inj (hd.symm.trans hp)
      have := h.linked.le_of_below hb
      omega
  | succ id hid ih =>
    intro hb
    obtain ⟨p, hp, hbp⟩ := h.ordered id hlt
    cases hb with
    | refl => omega
    | step hp' hb =>
      obtain rfl := Option.some.inj (hp.symm.trans hp')
      have htrans : ∀ {b}, t.Below p b → t.Below c b := by
        intro b hpb
        induction hpb with
        | refl => exact hb
        | step hq _ ihb => exact .step hq ihb
      exact ih (by omega) (htrans hbp)

theorem Growing.pairwise_descendants {places : List (Option Nat)} (h : t.Growing places) {a : Nat}
    (ha : a < t.size) : (t.descendants a).Pairwise (· < ·) := by
  have hl := h.linked
  induction hk : t.size - a using Nat.strong_induction_on generalizing a with
  | _ k ih =>
    have hchild : ∀ c ∈ t.children a, a < c ∧ c < t.size ∧ t.parent? c = some a := by
      intro c hc
      obtain ⟨hlt, hp⟩ := (hl.mem_children a c).1 hc
      exact ⟨hl.lt c a hp, hlt, hp⟩
    rw [hl.descendants_eq, List.pairwise_cons, List.pairwise_flatMap]
    refine ⟨?_, ?_, ?_⟩
    · intro id hid
      obtain ⟨c, hc, hidc⟩ := List.mem_flatMap.1 hid
      obtain ⟨hac, hcsize, -⟩ := hchild c hc
      have := hl.le_of_below ((hl.mem_descendants hcsize).1 hidc)
      omega
    · intro c hc
      obtain ⟨hac, hcsize, -⟩ := hchild c hc
      exact ih (t.size - c) (by omega) hcsize rfl
    · refine (hl.increasing a).imp_of_mem ?_
      intro c d hc hd hcd x hx y hy
      obtain ⟨-, hcsize, hcp⟩ := hchild c hc
      obtain ⟨-, hdsize, hdp⟩ := hchild d hd
      have hbx := (hl.mem_descendants hcsize).1 hx
      have hdy := hl.le_of_below ((hl.mem_descendants hdsize).1 hy)
      have hxd : x < d := by
        by_contra hle
        exact h.not_below hcp hdp hcd (Nat.not_lt.1 hle) (Linked.lt_size_of_below hcsize hbx) hbx
      omega

/-- A tree that has grown in order is numbered in the order of its walk. -/
theorem Growing.proper {places : List (Option Nat)} (h : t.Growing places) : t.Proper := by
  refine h.linked.proper ?_
  refine h.linked.perm_descendants.eq_of_pairwise ?_
    (h.pairwise_descendants h.linked.nonempty) List.pairwise_lt_range
  intro a b _ _ hab hba
  omega

/-! ### All nodes -/

/-- Whether every node of a tree has a property. -/
def AllNodes (t : Tree) (P : Node → Prop) : Prop :=
  ∀ id n, t.node? id = some n → P n

theorem allNodes_single {P : Node → Prop} {root : Node} (h : P root) :
    (single root).AllNodes P := by
  intro id n hn
  cases id with
  | zero =>
    obtain rfl := Option.some.inj hn
    exact h
  | succ id => exact absurd hn (by simp [node?, single])

theorem AllNodes.addChild {P : Node → Prop} (h : t.AllNodes P) (p : Nat) {node : Node}
    (hnode : P node) : (t.addChild p node).AllNodes P := by
  intro id n hn
  rw [node?_addChild] at hn
  split at hn
  · obtain rfl := Option.some.inj hn
    exact hnode
  · exact h id n hn

/-! ### Changing nodes in their places -/

/-- Changes every node in its place. -/
def mapNodes (t : Tree) (f : Node → Node) : Tree :=
  { t with slots := t.slots.map fun s => { s with node := f s.node } }

section MapNodes

variable (t : Tree) (f : Node → Node) (id : Nat)

@[simp] theorem size_mapNodes : (t.mapNodes f).size = t.size := by
  simp [mapNodes, size]

@[simp] theorem node?_mapNodes : (t.mapNodes f).node? id = (t.node? id).map f := by
  simp [mapNodes, node?, Function.comp_def]

@[simp] theorem parent?_mapNodes : (t.mapNodes f).parent? id = t.parent? id := by
  simp [mapNodes, parent?, Option.bind_map]

@[simp] theorem children_mapNodes : (t.mapNodes f).children id = t.children id := by
  simp only [mapNodes, children, Array.getElem?_map]
  cases t.slots[id]? <;> rfl

end MapNodes

theorem Proper.mapNodes (h : t.Proper) (f : Node → Node) : (t.mapNodes f).Proper :=
  h.congr (size_mapNodes t f) (parent?_mapNodes t f) (children_mapNodes t f)

/-- A tree is known by its nodes with their links and its file names. -/
theorem ext_links {t u : Tree} (hsize : u.size = t.size) (hnames : u.fileNames = t.fileNames)
    (hnode : ∀ id, u.node? id = t.node? id) (hparent : ∀ id, u.parent? id = t.parent? id)
    (hchildren : ∀ id, u.children id = t.children id) : u = t := by
  have hslots : u.slots = t.slots := by
    refine Array.ext hsize fun i hu ht => ?_
    have hn := hnode i
    have hp := hparent i
    have hc := hchildren i
    simp only [node?, parent?, children, Array.getElem?_eq_getElem hu, Array.getElem?_eq_getElem ht,
      Option.map_some, Option.bind_some, Option.some.injEq] at hn hp hc
    generalize u.slots[i] = a at hn hp hc
    generalize t.slots[i] = b at hn hp hc
    obtain ⟨an, ap, ac⟩ := a
    obtain ⟨bn, bp, bc⟩ := b
    obtain rfl : an = bn := hn
    obtain rfl : ap = bp := hp
    obtain rfl : ac = bc := Array.toList_inj.1 hc
    rfl
  obtain ⟨us, un⟩ := u
  obtain ⟨ts, tn⟩ := t
  obtain rfl : us = ts := hslots
  obtain rfl : un = tn := hnames
  rfl

theorem mapNodes_congr {f g : Node → Node} (h : t.AllNodes fun n => f n = g n) :
    t.mapNodes f = t.mapNodes g := by
  refine ext_links (by simp) rfl (fun id => ?_) (by simp) (by simp)
  rw [node?_mapNodes, node?_mapNodes]
  cases hn : t.node? id with
  | none => rfl
  | some n => rw [Option.map_some, Option.map_some, h id n hn]

theorem eq_of_map_range {n : Nat} {l m : List Nat} (h : l.map ((List.range n)[·]?) = m.map some) :
    l = m := by
  induction l generalizing m with
  | nil => simpa using h.symm
  | cons a l ih =>
    cases m with
    | nil => simp at h
    | cons b m =>
      obtain ⟨hab, hrest⟩ := List.cons.inj h
      obtain ⟨_, hb⟩ := List.getElem?_eq_some_iff.1 hab
      rw [ih hrest, ← hb, List.getElem_range]

/-- A tree that is numbered in the order of the walk is renumbered to itself. -/
theorem IsRenumbering.eq_mapNodes {f : Node → Node} {t u : Tree} (h : IsRenumbering f t u)
    (ht : t.Proper) : u = t.mapNodes f := by
  have hlinks : ∀ id, id < t.size → Renumbers f t u (List.range t.size) id id := by
    intro id hid
    have hplace : (t.descendants 0)[id]? = some id := by
      rw [ht.walk, List.getElem?_range hid]
    have hnode := h.nodes id id hplace
    rwa [ht.walk] at hnode
  have hout : ∀ id, t.size ≤ id → u.size ≤ id := fun id hid => h.size ▸ hid
  refine ext_links (by rw [h.size, size_mapNodes]) h.fileNames ?_ ?_ ?_ <;> intro id <;>
    rcases Nat.lt_or_ge id t.size with hid | hid
  · rw [(hlinks id hid).node, node?_mapNodes]
  · rw [node?_mapNodes, node?, node?, Array.getElem?_eq_none hid, Array.getElem?_eq_none (hout id hid)]
    rfl
  · have hp := (hlinks id hid).parent
    rw [parent?_mapNodes]
    cases hu : u.parent? id with
    | none =>
      rw [hu] at hp
      exact (Option.map_eq_none_iff.1 hp.symm).symm
    | some q =>
      rw [hu, Option.map_some] at hp
      obtain ⟨p, hp', hq⟩ := Option.map_eq_some_iff.1 hp.symm
      obtain ⟨_, hpq⟩ := List.getElem?_eq_some_iff.1 hq.symm
      rw [hp', ← hpq, List.getElem_range]
  · rw [parent?_mapNodes, parent?_of_size_le hid, parent?_of_size_le (hout id hid)]
  · rw [children_mapNodes]
    exact eq_of_map_range (hlinks id hid).children
  · rw [children_mapNodes, children_of_size_le _ hid, children_of_size_le _ (hout id hid)]

end AblAnalysis.Tree
