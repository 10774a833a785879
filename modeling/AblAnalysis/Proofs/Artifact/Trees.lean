import AblAnalysis.Proofs.Artifact.Nodes
import AblAnalysis.Proofs.Tree.Forest
import Mathlib.Data.List.Dedup

/-!
Trees in an artifact. A tree is written as the marks of a forest: every node, then what is below it,
then its next sibling, with an end mark wherever there is none. Reading the marks grows that forest, so
what comes back is the tree renumbered in the order of the walk, first with positions in place of its
texts (`decodeTree_encodeTree`) and then with the texts (`exists_resolveTree`).
-/

namespace AblAnalysis.Artifact

open AblAnalysis.Tree (Forest)

variable (rest : List UInt8) (fault : Option IoFailure)

/-! ### What is written -/

theorem storedOrder_eq {t : Tree} (h : t.Linked) (id : Nat) :
    storedOrder t id = some id :: (t.children id).flatMap (storedOrder t) ++ [none] := by
  rw [storedOrder]
  congr 2
  refine List.flatMap_congr fun c hc => ?_
  obtain ⟨hlt, hparent⟩ := (h.mem_children id c).1 hc
  rw [dif_pos ⟨h.lt c id hparent, hlt⟩]

theorem marks_eq {t : Tree} (h : t.Linked) {f : Forest Nat} (hf : f.Traces t) :
    f.marks = f.roots.flatMap (storedOrder t) ++ [none] := by
  induction f with
  | nil => rfl
  | cons id children siblings ihc ihs =>
    obtain ⟨hroots, hct, hst⟩ := hf
    rw [Forest.marks, ihc hct, ihs hst, Forest.roots, List.flatMap_cons, storedOrder_eq h, hroots]
    simp

/-- A node or an end mark, with the table as it is at that time. -/
def encodeEntry (t : Tree) (entry : Option Nat) (table : StringTable) : List UInt8 × StringTable :=
  match entry.bind t.node? with
  | some n => encodeNode n table
  | none => (int32Bytes endMark, table)

theorem encodeEntries_cons (t : Tree) (entry : Option Nat) (entries : List (Option Nat))
    (table : StringTable) : encodeEntries t (entry :: entries) table =
      ((encodeEntry t entry table).1 ++ (encodeEntries t entries (encodeEntry t entry table).2).1,
        (encodeEntries t entries (encodeEntry t entry table).2).2) :=
  rfl

/-- The texts that are stored for an entry. -/
def entryTexts (t : Tree) (entry : Option Nat) : List String :=
  match entry.bind t.node? with
  | some n => nodeTexts n
  | none => []

theorem interns_encodeEntry (t : Tree) (entry : Option Nat) :
    Interns (entryTexts t entry) (encodeEntry t entry) := by
  unfold entryTexts encodeEntry
  cases entry.bind t.node? with
  | none => exact .pure _
  | some n => exact interns_encodeNode n

theorem interns_encodeEntries (t : Tree) (entries : List (Option Nat)) :
    Interns (entries.flatMap (entryTexts t)) (encodeEntries t entries) := by
  induction entries with
  | nil => exact .pure []
  | cons entry entries ih =>
    have h := (interns_encodeEntry t entry).bind fun bytes => ih.map fun more => bytes ++ more
    rw [List.flatMap_cons]
    exact h

/-- The bytes of an entry when the table holds all of the texts. -/
def entryBytes (t : Tree) (table : StringTable) (entry : Option Nat) : List UInt8 :=
  match entry.bind t.node? with
  | some n => int32Bytes n.subtype ++ nodeTail n (writtenAttrs table n)
  | none => int32Bytes endMark

theorem encodeEntries_of_mem {t : Tree} {table : StringTable} (ht : table.Distinct)
    {entries : List (Option Nat)}
    (h : ∀ s ∈ entries.flatMap (entryTexts t), s ∈ table.strings.toList) :
    encodeEntries t entries table = (entries.flatMap (entryBytes t table), table) := by
  induction entries with
  | nil => rfl
  | cons entry entries ih =>
    simp only [List.flatMap_cons, List.mem_append] at h
    have hentry : encodeEntry t entry table = (entryBytes t table entry, table) := by
      have h := fun s hs => h s (.inl hs)
      unfold encodeEntry entryBytes
      unfold entryTexts at h
      cases hn : entry.bind t.node? with
      | none => rfl
      | some n =>
        rw [hn] at h
        exact encodeNode_of_mem ht h
    rw [encodeEntries_cons, hentry, ih fun s hs => h s (.inr hs), List.flatMap_cons]

theorem distinct_start : StringTable.start.Distinct :=
  List.nodup_singleton ""

/-- The entries of a tree. -/
def treeEntries (t : Tree) : List (Option Nat) :=
  storedOrder t 0 ++ [none]

theorem distinct_encodeTree (t : Tree) : (encodeTree t).2.Distinct :=
  (interns_encodeEntries t (treeEntries t)).distinct _ distinct_start

theorem mem_encodeTree (t : Tree) (s : String) : s ∈ (encodeTree t).2.strings.toList ↔
    s = "" ∨ s ∈ (treeEntries t).flatMap (entryTexts t) := by
  rw [encodeTree, ← treeEntries, (interns_encodeEntries t (treeEntries t)).mem]
  exact or_congr_left List.mem_singleton

/-- The bytes of a tree are those of its entries under the final table. -/
theorem encodeTree_eq (t : Tree) :
    (encodeTree t).1 = (treeEntries t).flatMap (entryBytes t (encodeTree t).2) := by
  have hagain := (interns_encodeEntries t (treeEntries t)).again StringTable.start (encodeTree t).2
    (distinct_encodeTree t) (.refl _)
  rw [encodeEntries_of_mem (distinct_encodeTree t) fun s hs => (mem_encodeTree t s).2 (.inr hs)]
    at hagain
  exact (congrArg Prod.fst hagain).symm

/-- The entries are the root and the marks of a forest of the shape of the tree. -/
theorem exists_treeEntries {t : Tree} (ht : t.Linked) : ∃ f : Forest Nat, f.Traces t ∧
    f.roots = t.children 0 ∧ f.labels = (t.children 0).flatMap t.descendants ∧
      treeEntries t = some 0 :: (f.marks ++ [none]) := by
  obtain ⟨f, hf, hroots, hlabels⟩ := ht.exists_forest (t.children 0)
    fun c hc => ((ht.mem_children 0 c).1 hc).1
  refine ⟨f, hf, hroots, hlabels, ?_⟩
  rw [treeEntries, storedOrder_eq ht, marks_eq ht hf, hroots]
  rfl

theorem some_mem_treeEntries {t : Tree} (ht : t.Linked) (id : Nat) :
    some id ∈ treeEntries t ↔ id < t.size := by
  obtain ⟨f, -, -, hlabels, hentries⟩ := exists_treeEntries ht
  have hwalk : t.descendants 0 = 0 :: f.labels := by rw [ht.descendants_eq, hlabels]
  rw [← List.mem_range, ← ht.perm_descendants.mem_iff, hwalk, hentries]
  simp [f.some_mem_marks]

/-- The texts that are stored for the nodes of a tree. -/
def treeTexts (t : Tree) : List String :=
  t.slots.toList.flatMap fun slot => nodeTexts slot.node

theorem mem_treeTexts (t : Tree) (s : String) :
    s ∈ treeTexts t ↔ ∃ id n, t.node? id = some n ∧ s ∈ nodeTexts n := by
  rw [treeTexts, List.mem_flatMap]
  constructor
  · rintro ⟨slot, hslot, hs⟩
    obtain ⟨id, hid⟩ := List.mem_iff_getElem?.1 hslot
    rw [Array.getElem?_toList] at hid
    exact ⟨id, slot.node, by rw [Tree.node?, hid, Option.map_some], hs⟩
  · rintro ⟨id, n, hn, hs⟩
    obtain ⟨slot, hslot, rfl⟩ := Option.map_eq_some_iff.1 hn
    exact ⟨slot, List.mem_iff_getElem?.2 ⟨id, by rw [Array.getElem?_toList, hslot]⟩, hs⟩

/-- The table holds the empty text and those of the nodes. -/
theorem mem_strings_encodeTree {t : Tree} (ht : t.Linked) (s : String) :
    s ∈ (encodeTree t).2.strings.toList ↔ s ∈ "" :: treeTexts t := by
  rw [mem_encodeTree, List.mem_cons, mem_treeTexts]
  refine or_congr_right ?_
  rw [List.mem_flatMap]
  constructor
  · rintro ⟨entry, hentry, hs⟩
    unfold entryTexts at hs
    cases hn : entry.bind t.node? with
    | none => simp [hn] at hs
    | some n =>
      obtain ⟨id, rfl, hid⟩ := Option.bind_eq_some_iff.1 hn
      exact ⟨id, n, hid, by simpa [hn] using hs⟩
  · rintro ⟨id, n, hn, hs⟩
    refine ⟨some id, (some_mem_treeEntries ht id).2 ?_, by simpa [entryTexts, hn] using hs⟩
    obtain ⟨slot, hslot, -⟩ := Option.map_eq_some_iff.1 hn
    exact (Array.getElem?_eq_some_iff.1 hslot).1

/-- Each text is in the table once. -/
theorem size_encodeTree {t : Tree} (ht : t.Linked) :
    (encodeTree t).2.size = ("" :: treeTexts t).dedup.length := by
  refine List.Perm.length_eq ((List.perm_ext_iff_of_nodup (distinct_encodeTree t)
    (List.nodup_dedup _)).2 fun s => ?_)
  rw [mem_strings_encodeTree ht, List.mem_dedup]

/-! ### Reading the shape -/

theorem decodeNodes_eq (s : Stream) (t : Tree) (place : Option Nat) (outer : List (Option Nat)) :
    decodeNodes s t (place :: outer) =
      match s.int32 with
      | (.error e, _) => .error e
      | (.ok subtype, s₁) =>
        if subtype = endMark then decodeNodes s₁ t outer
        else
          match place with
          | none => .error (.corruptArtifact .rootSibling)
          | some parent =>
            match decodeNode s₁ subtype with
            | .error e => .error e
            | .ok (node, s₂) =>
              decodeNodes s₂ (t.addChild parent node) (some t.size :: some parent :: outer) := by
  rw [decodeNodes]
  split
  · rename_i h
    simp only [h]
  · rename_i h
    simp only [h]
    split
    · rfl
    · split
      · rfl
      · split <;> rename_i h <;> simp only [h]

theorem decodeNodes_end (t : Tree) (place : Option Nat) (outer : List (Option Nat)) :
    decodeNodes ⟨int32Bytes endMark ++ rest, fault⟩ t (place :: outer) =
      decodeNodes ⟨rest, fault⟩ t outer := by
  rw [decodeNodes_eq]
  simp only [Stream.int32_append, if_true]

/-- Whether a node can be told from an end mark, and its attributes from their end. -/
structure Readable (n : Tree.Node) : Prop where
  subtype : n.subtype ≠ endMark
  keys : endMark ∉ n.attrs.keys

/-- The node that is first read for a node of a tree. -/
def rawAt (t : Tree) (table : StringTable) (id : Nat) : Tree.Node :=
  match t.node? id with
  | some n => rawNode table n
  | none => { kind := 0 }

theorem decodeNodes_node {t : Tree} {table : StringTable} {id : Nat} {n : Tree.Node}
    (hn : t.node? id = some n) (hr : Readable n) (grown : Tree) (p : Nat)
    (outer : List (Option Nat)) :
    decodeNodes ⟨entryBytes t table (some id) ++ rest, fault⟩ grown (some p :: outer) =
      decodeNodes ⟨rest, fault⟩ (grown.addChild p (rawAt t table id))
        (some grown.size :: some p :: outer) := by
  rw [decodeNodes_eq, entryBytes, Option.bind_some, hn]
  simp only [List.append_assoc, Stream.int32_append, if_neg hr.subtype,
    decodeNode_nodeTail rest fault hr.keys, rawAt, hn]

/-- Reading the marks of a forest grows the forest. -/
theorem decodeNodes_marks {t : Tree} (hr : ∀ id n, t.node? id = some n → Readable n)
    (table : StringTable) (f : Forest Nat) (hf : ∀ id ∈ f.labels, ∃ n, t.node? id = some n)
    (grown : Tree) (p : Nat) (outer : List (Option Nat)) :
    decodeNodes ⟨f.marks.flatMap (entryBytes t table) ++ rest, fault⟩ grown (some p :: outer) =
      decodeNodes ⟨rest, fault⟩ (grown.graft (rawAt t table) p f) outer := by
  induction f generalizing rest grown p outer with
  | nil => exact decodeNodes_end rest fault grown (some p) outer
  | cons id children siblings ihc ihs =>
    simp only [Forest.labels, List.mem_cons, List.mem_append] at hf
    obtain ⟨n, hn⟩ := hf id (.inl rfl)
    rw [Forest.marks, List.flatMap_cons, List.flatMap_append, List.append_assoc, List.append_assoc,
      decodeNodes_node _ fault hn (hr id n hn), ihc _ (fun c hc => hf c (.inr (.inl hc))),
      ihs _ (fun c hc => hf c (.inr (.inr hc)))]
    rfl

/-- The shape of a tree is read back in the order of the walk. -/
theorem decodeTree_encodeTree {t : Tree} (ht : t.Linked)
    (hr : ∀ id n, t.node? id = some n → Readable n) :
    ∃ raw, decodeTree ⟨(encodeTree t).1 ++ rest, fault⟩ = .ok (raw, ⟨rest, fault⟩) ∧
      Tree.IsRenumbering (rawNode (encodeTree t).2) t { raw with fileNames := t.fileNames } := by
  obtain ⟨f, hf, hroots, hlabels, hentries⟩ := exists_treeEntries ht
  obtain ⟨n, hn⟩ := Tree.exists_node? ht.nonempty
  have hfn : ∀ id ∈ f.labels, ∃ n, t.node? id = some n := by
    intro id hid
    rw [hlabels] at hid
    have hwalk : id ∈ t.descendants 0 := by
      rw [ht.descendants_eq]
      exact List.mem_cons_of_mem _ hid
    exact Tree.exists_node? (List.mem_range.1 (ht.perm_descendants.mem_iff.1 hwalk))
  have hnode : ∀ id < t.size,
      (t.node? id).map (rawNode (encodeTree t).2) = some (rawAt t (encodeTree t).2 id) := by
    intro id hid
    obtain ⟨n, hn⟩ := Tree.exists_node? hid
    rw [rawAt, hn, Option.map_some]
  refine ⟨(Tree.single (rawAt t (encodeTree t).2 0)).graft (rawAt t (encodeTree t).2) 0 f, ?_,
    ht.isRenumbering_graft hnode hf hroots hlabels⟩
  generalize htable : (encodeTree t).2 = table
  have hend : entryBytes t table none = int32Bytes endMark := rfl
  rw [encodeTree_eq, htable, hentries, List.flatMap_cons, List.flatMap_append, List.flatMap_singleton,
    hend, entryBytes, Option.bind_some, hn, decodeTree]
  simp only [List.append_assoc, Stream.int32_append, if_neg (hr 0 n hn).subtype,
    decodeNode_nodeTail _ fault (hr 0 n hn).keys]
  rw [decodeNodes_marks _ fault hr table f hfn, decodeNodes_end, decodeNodes, rawAt, hn]

/-! ### Reading the texts -/

theorem exists_resolveSlots {table : StringTable} {slots : List Tree.Slot}
    (h : ∀ slot ∈ slots, ∃ n, resolveNode table slot.node = .ok n) :
    ∃ resolved : List Tree.Slot, resolveSlots table slots = .ok resolved ∧
      resolved.length = slots.length ∧ ∀ (k : Nat) (slot : Tree.Slot), slots[k]? = some slot →
        ∃ node : Tree.Node, resolveNode table slot.node = .ok node ∧
          resolved[k]? = some { slot with node } := by
  induction slots with
  | nil => exact ⟨[], rfl, rfl, fun k slot hk => absurd hk (by simp)⟩
  | cons slot slots ih =>
    obtain ⟨node, hnode⟩ := h slot (List.mem_cons_self ..)
    obtain ⟨resolved, hres, hlen, hget⟩ := ih fun s hs => h s (List.mem_cons_of_mem _ hs)
    refine ⟨{ slot with node } :: resolved, ?_, ?_, ?_⟩
    · exact bind_eq_ok_iff.2 ⟨node, hnode, bind_eq_ok_iff.2 ⟨resolved, hres, rfl⟩⟩
    · rw [List.length_cons, hlen, List.length_cons]
    · intro k s hk
      cases k with
      | zero =>
        obtain rfl := Option.some.inj hk
        exact ⟨node, hnode, rfl⟩
      | succ k => exact hget k s hk

/-- The texts of a tree are read back into it. -/
theorem exists_resolveTree {t raw : Tree} {table : StringTable} (hlt : table.size < 2 ^ 31)
    (hraw : Tree.IsRenumbering (rawNode table) t raw)
    (htexts : ∀ id n, t.node? id = some n → ∀ s ∈ nodeTexts n, s ∈ table.strings.toList) :
    ∃ u, resolveTree table raw = .ok u ∧ Tree.IsRenumbering keptNode t u := by
  have hnode : ∀ (k : Nat) (slot : Tree.Slot), raw.slots.toList[k]? = some slot →
      ∃ id n, (t.descendants 0)[k]? = some id ∧ t.node? id = some n ∧
        resolveNode table slot.node = .ok (keptNode n) := by
    intro k slot hk
    rw [Array.getElem?_toList] at hk
    obtain ⟨id, n, hid, hn⟩ := hraw.exists_id (Array.getElem?_eq_some_iff.1 hk).1
    have hslot := (hraw.nodes k id hid).node
    rw [Tree.node?, hk, hn, Option.map_some, Option.map_some] at hslot
    refine ⟨id, n, hid, hn, ?_⟩
    rw [Option.some.inj hslot, resolveNode_rawNode hlt (htexts id n hn)]
  have hall : ∀ slot ∈ raw.slots.toList, ∃ n, resolveNode table slot.node = .ok n := by
    intro slot hslot
    obtain ⟨k, hk⟩ := List.mem_iff_getElem?.1 hslot
    obtain ⟨-, n, -, -, hn⟩ := hnode k slot hk
    exact ⟨_, hn⟩
  obtain ⟨resolved, hres, hlen, hget⟩ := exists_resolveSlots hall
  let u : Tree := { raw with slots := resolved.toArray }
  -- the slots differ in their nodes only
  have hslot : ∀ k id : Nat, (t.descendants 0)[k]? = some id →
      ∃ (slot : Tree.Slot) (n : Tree.Node), raw.slots[k]? = some slot ∧ t.node? id = some n ∧
        u.slots[k]? = some { slot with node := keptNode n } := by
    intro k id hid
    have hk : k < raw.size := by
      rw [hraw.size, ← List.length_range (n := t.size), ← hraw.walk.length_eq]
      exact (List.getElem?_eq_some_iff.1 hid).1
    have hraw? : raw.slots.toList[k]? = some raw.slots[k] := by
      rw [Array.getElem?_toList]
      exact Array.getElem?_eq_getElem hk
    obtain ⟨node, hok, hres⟩ := hget k _ hraw?
    obtain ⟨id', n, hid', hn, hkept⟩ := hnode k _ hraw?
    obtain rfl := Option.some.inj (hid'.symm.trans hid)
    obtain rfl := Except.ok.inj (hkept.symm.trans hok)
    refine ⟨_, n, Array.getElem?_eq_getElem hk, hn, ?_⟩
    rw [← hres]
    exact List.getElem?_toArray ..
  refine ⟨u, bind_eq_ok_iff.2 ⟨resolved, hres, rfl⟩, hraw.walk, ?_, hraw.fileNames, ?_⟩
  · rw [← hraw.size]
    simpa [u, Tree.size] using hlen
  · intro k id hid
    obtain ⟨slot, n, hrk, hn, huk⟩ := hslot k id hid
    have h := hraw.nodes k id hid
    refine ⟨?_, ?_, ?_⟩
    · rw [Tree.node?, huk, hn]
      rfl
    · rw [← h.parent, Tree.parent?, Tree.parent?, huk, hrk]
      rfl
    · rw [← h.children, Tree.children, Tree.children, huk, hrk]

end AblAnalysis.Artifact
