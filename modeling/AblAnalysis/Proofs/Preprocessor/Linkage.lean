import AblAnalysis.Proofs.Preprocessor.Moves

/-!
How the events of a unit hang together. Every event but the main file is linked once: from the
reference that it happened in, or, if it is an argument, from the inclusion that it was passed to. All
links go from an event to an earlier one. Each move of the tracker keeps the links well formed
(`Grounded.move`), so they are well formed after any callbacks in any order.
-/

namespace AblAnalysis.Preprocessor

namespace Graph

/-- Whether a number is that of an inclusion. -/
def IsInclusion (g : Graph) (id : Nat) : Prop :=
  ∃ i, g.inclusion? id = some i

/-- Whether a number is that of a definition that a name can stand for. -/
def IsNameable (g : Graph) (id : Nat) : Prop :=
  ∃ d, g.definition? id = some d ∧
    (d.kind = .global ∨ d.kind = .scoped ∨ d.kind = .namedArgument)

/-- The links of well-formed events. -/
structure Linked (g : Graph) : Prop where
  /-- Event 0 is the inclusion of the main file. -/
  root : g.IsInclusion 0 ∧ g.parent? 0 = none
  /-- Events happen in earlier references. -/
  parent : ∀ id p, g.parent? id = some p → p < id ∧ g.isRef p = true
  /-- Only the main file and what it was passed happen in no reference. -/
  orphan : ∀ id < g.size, g.parent? id = none → id = 0 ∨ g.owner? id = some 0
  /-- An argument is passed to an earlier inclusion and happens where that happens. -/
  owner : ∀ id i, g.owner? id = some i → i < id ∧ g.IsInclusion i ∧ g.parent? id = g.parent? i
  /-- A reference lists what happens in it, but for arguments. -/
  mem_children : ∀ p id, id ∈ g.children p ↔ g.parent? id = some p ∧ g.owner? id = none
  children_increase : ∀ p, (g.children p).Pairwise (· < ·)
  /-- An inclusion lists what it was passed. -/
  mem_args : ∀ i id, id ∈ g.args i ↔ g.owner? id = some i
  args_increase : ∀ i, (g.args i).Pairwise (· < ·)
  /-- Names stand for earlier definitions. -/
  target : ∀ id d, g.target? id = some d → d < id ∧ g.IsNameable d

variable {g g' : Graph}

theorem isInclusion_iff {id : Nat} : g.IsInclusion id ↔ ∃ f, g.nature? id = some (.inclusion f) := by
  constructor
  · rintro ⟨i, hi⟩
    exact ⟨_, g.exists_inclusion?_iff.1 ⟨i, hi, rfl⟩⟩
  · rintro ⟨f, hf⟩
    obtain ⟨i, hi, -⟩ := g.exists_inclusion?_iff.2 hf
    exact ⟨i, hi⟩

theorem IsInclusion.isRef {id : Nat} (h : g.IsInclusion id) : g.isRef id = true := by
  obtain ⟨f, hf⟩ := isInclusion_iff.1 h
  rw [isRef_eq, hf]
  rfl

theorem IsInclusion.lt_size {id : Nat} (h : g.IsInclusion id) : id < g.size :=
  g.lt_size_of_isRef h.isRef

/-- References are not passed to anything. -/
theorem owner?_of_isRef {id : Nat} (h : g.isRef id = true) : g.owner? id = none := by
  rw [isRef_eq] at h
  rw [Graph.owner?]
  cases hn : g.nature? id with
  | none => rfl
  | some n =>
    rw [hn] at h
    cases n with
    | definition d => exact absurd h (by simp [Nature.isRef])
    | inclusion | expansion => rfl

theorem owner?_of_size_le {id : Nat} (h : g.size ≤ id) : g.owner? id = none := by
  rw [owner?, nature?_of_size_le g h, Option.bind_none]

theorem lt_size_of_owner? {id i : Nat} (h : g.owner? id = some i) : id < g.size := by
  refine Nat.lt_of_not_le fun hle => ?_
  rw [owner?_of_size_le hle] at h
  exact absurd h (by simp)

theorem lt_size_of_parent? {id p : Nat} (h : g.parent? id = some p) : id < g.size := by
  refine Nat.lt_of_not_le fun hle => ?_
  rw [parent?_of_size_le g hle] at h
  exact absurd h (by simp)

/-- Events that are linked are in the unit. -/
theorem Linked.lt_size_of_mem_children (hl : g.Linked) {p id : Nat} (h : id ∈ g.children p) :
    id < g.size :=
  lt_size_of_parent? ((hl.mem_children p id).1 h).1

theorem Linked.lt_size_of_mem_args (hl : g.Linked) {i id : Nat} (h : id ∈ g.args i) : id < g.size :=
  lt_size_of_owner? ((hl.mem_args i id).1 h)

/-! ### Links under changes -/

theorem Alike.isInclusion_iff (h : g.Alike g') {id : Nat} :
    g'.IsInclusion id ↔ g.IsInclusion id := by
  rw [Graph.isInclusion_iff, h.nature?, Graph.isInclusion_iff]

theorem Alike.isNameable (h : g.Alike g') {id : Nat} (hid : g.IsNameable id) :
    g'.IsNameable id := by
  obtain ⟨d, hd, hkind⟩ := hid
  refine ⟨d, ?_, hkind⟩
  rw [definition?_eq_some_iff, h.nature?]
  exact (definition?_eq_some_iff g).1 hd

theorem Alike.linked (h : g.Alike g') (hl : g.Linked) : g'.Linked where
  root := ⟨h.isInclusion_iff.2 hl.root.1, (h.parent? 0).trans hl.root.2⟩
  parent id p hp := by
    rw [h.parent?] at hp
    rw [h.isRef]
    exact hl.parent id p hp
  orphan id hid hp := by
    rw [h.size] at hid
    rw [h.parent?] at hp
    rw [h.owner?]
    exact hl.orphan id hid hp
  owner id i hi := by
    rw [h.owner?] at hi
    obtain ⟨hlt, hincl, hparent⟩ := hl.owner id i hi
    rw [h.parent?, h.parent?]
    exact ⟨hlt, h.isInclusion_iff.2 hincl, hparent⟩
  mem_children p id := by
    rw [h.children, h.parent?, h.owner?]
    exact hl.mem_children p id
  children_increase p := by
    rw [h.children]
    exact hl.children_increase p
  mem_args i id := by
    rw [h.args, h.owner?]
    exact hl.mem_args i id
  args_increase i := by
    rw [h.args]
    exact hl.args_increase i
  target id d hd := by
    rw [h.target?] at hd
    exact ⟨(hl.target id d hd).1, h.isNameable (hl.target id d hd).2⟩

/-- Whether the links of a new event go to earlier events, and it is in a reference unless it is passed
to the main file. -/
structure Admits (g : Graph) (parent : Option Nat) (nature : Nature) : Prop where
  isRef : ∀ p, parent = some p → g.isRef p = true
  orphan : parent = none → nature.owner? = some 0
  owner : ∀ i, nature.owner? = some i → g.IsInclusion i ∧ parent = g.parent? i
  target : ∀ d, nature.target? = some d → d < g.size ∧ g.IsNameable d

theorem admits_inside {p : Nat} {nature : Nature} (hp : g.isRef p = true)
    (howner : nature.owner? = none)
    (htarget : ∀ d, nature.target? = some d → d < g.size ∧ g.IsNameable d) :
    g.Admits (some p) nature where
  isRef q hq := by
    obtain rfl := Option.some.inj hq
    exact hp
  orphan hnone := absurd hnone (by simp)
  owner i hi := by
    rw [howner] at hi
    exact absurd hi (by simp)
  target := htarget

theorem Linked.admits_beside (hl : g.Linked) {owner : Nat} {d : Definition}
    (howner : g.IsInclusion owner) (hd : d.inclusion = some owner) (htarget : d.undefines = none) :
    g.Admits (g.parent? owner) (.definition d) where
  isRef p hp := (hl.parent owner p hp).2
  orphan hnone := by
    -- an inclusion that happens in no reference is the main file
    rcases hl.orphan owner howner.lt_size hnone with hzero | hpassed
    · rw [← hzero]
      exact hd
    · rw [owner?_of_isRef howner.isRef] at hpassed
      exact absurd hpassed (by simp)
  owner i hi := by
    obtain rfl := Option.some.inj (hd.symm.trans hi)
    exact ⟨howner, rfl⟩
  target id hid := by
    rw [Nature.target?, htarget] at hid
    exact absurd hid (by simp)

namespace Adds

variable {parent : Option Nat} {nature : Nature}

theorem isInclusion (h : g.Adds g' parent nature) {id : Nat} (hid : g.IsInclusion id) :
    g'.IsInclusion id := by
  obtain ⟨f, hf⟩ := isInclusion_iff.1 hid
  exact isInclusion_iff.2 ⟨f, h.nature?_of_some hf⟩

theorem isNameable (h : g.Adds g' parent nature) {id : Nat} (hid : g.IsNameable id) :
    g'.IsNameable id := by
  obtain ⟨d, hd, hkind⟩ := hid
  exact ⟨d, g'.definition?_eq_some_iff.2 (h.nature?_of_some (g.definition?_eq_some_iff.1 hd)), hkind⟩

/-- The links stay well formed if those of the new event are and it is listed where it should be. -/
theorem linked (h : g.Adds g' parent nature) (hl : g.Linked) (ha : g.Admits parent nature)
    (hmem : ∀ p id, id ∈ g'.children p ↔ g'.parent? id = some p ∧ g'.owner? id = none)
    (hchildren : ∀ p, (g'.children p).Pairwise (· < ·))
    (hmem' : ∀ i id, id ∈ g'.args i ↔ g'.owner? id = some i)
    (hargs : ∀ i, (g'.args i).Pairwise (· < ·)) : g'.Linked where
  root := ⟨h.isInclusion hl.root.1, (h.parent?_of_lt hl.root.1.lt_size).trans hl.root.2⟩
  parent id p hp := by
    rw [h.parent?] at hp
    by_cases hid : id = g.size
    · rw [if_pos hid] at hp
      have href := ha.isRef p hp
      rw [hid]
      exact ⟨g.lt_size_of_isRef href, h.isRef_of_isRef href⟩
    · rw [if_neg hid] at hp
      exact ⟨(hl.parent id p hp).1, h.isRef_of_isRef (hl.parent id p hp).2⟩
  orphan id hlt hnone := by
    rw [h.parent?] at hnone
    rw [h.owner?]
    by_cases hid : id = g.size
    · rw [if_pos hid] at hnone
      rw [if_pos hid]
      exact .inr (ha.orphan hnone)
    · rw [if_neg hid] at hnone
      rw [h.size] at hlt
      rw [if_neg hid]
      exact hl.orphan id (by omega) hnone
  owner id i hi := by
    rw [h.owner?] at hi
    by_cases hid : id = g.size
    · rw [if_pos hid] at hi
      obtain ⟨hincl, hparent⟩ := ha.owner i hi
      rw [h.parent?_of_lt hincl.lt_size, h.parent?, if_pos hid, hid]
      exact ⟨hincl.lt_size, h.isInclusion hincl, hparent⟩
    · rw [if_neg hid] at hi
      obtain ⟨hlt, hincl, hparent⟩ := hl.owner id i hi
      rw [h.parent?_of_lt hincl.lt_size, h.parent?, if_neg hid]
      exact ⟨hlt, h.isInclusion hincl, hparent⟩
  mem_children := hmem
  children_increase := hchildren
  mem_args := hmem'
  args_increase := hargs
  target id d hd := by
    rw [h.target?] at hd
    by_cases hid : id = g.size
    · rw [if_pos hid] at hd
      obtain ⟨hlt, hname⟩ := ha.target d hd
      rw [hid]
      exact ⟨hlt, h.isNameable hname⟩
    · rw [if_neg hid] at hd
      exact ⟨(hl.target id d hd).1, h.isNameable (hl.target id d hd).2⟩

end Adds

/-- A list that grows at the end by a number that is larger than all of its own. -/
theorem increase_concat {l : List Nat} {n : Nat} (hl : l.Pairwise (· < ·)) (hlt : ∀ a ∈ l, a < n) :
    (l ++ [n]).Pairwise (· < ·) := by
  refine List.pairwise_append.2 ⟨hl, List.pairwise_singleton .., fun a ha b hb => ?_⟩
  rw [List.mem_singleton.1 hb]
  exact hlt a ha

theorem Inside.linked {p : Nat} {nature : Nature} (h : g.Inside g' p nature) (hl : g.Linked)
    (ha : g.Admits (some p) nature) (howner : nature.owner? = none) : g'.Linked := by
  refine h.toAdds.linked hl ha (fun q id => ?_) (fun q => ?_) (fun i id => ?_) (fun i => ?_)
  · rw [h.children, h.parent?, h.owner?]
    by_cases hid : id = g.size
    · have hnot : g.size ∉ g.children q := fun hmem =>
        Nat.lt_irrefl _ (hl.lt_size_of_mem_children hmem)
      rw [if_pos hid, if_pos hid, hid]
      by_cases hq : q = p
      · simp [hq, howner]
      · simp [hq, hnot, Ne.symm hq]
    · rw [if_neg hid, if_neg hid, ← hl.mem_children]
      split
      · simp [hid]
      · rfl
  · rw [h.children]
    split
    · exact increase_concat (hl.children_increase q) fun id => hl.lt_size_of_mem_children
    · exact hl.children_increase q
  · rw [h.args, h.owner?, hl.mem_args]
    by_cases hid : id = g.size
    · rw [if_pos hid, howner, owner?_of_size_le (Nat.le_of_eq hid.symm)]
    · rw [if_neg hid]
  · rw [h.args]
    exact hl.args_increase i

theorem Beside.linked {owner : Nat} {d : Definition} (h : g.Beside g' owner d) (hl : g.Linked)
    (ha : g.Admits (g.parent? owner) (.definition d)) (hd : d.inclusion = some owner) :
    g'.Linked := by
  have howned : Nature.owner? (.definition d) = some owner := hd
  refine h.toAdds.linked hl ha (fun q id => ?_) (fun q => ?_) (fun i id => ?_) (fun i => ?_)
  · rw [h.children, h.parent?, h.owner?]
    by_cases hid : id = g.size
    · have hnot : g.size ∉ g.children q := fun hmem =>
        Nat.lt_irrefl _ (hl.lt_size_of_mem_children hmem)
      rw [if_pos hid, if_pos hid, hid, howned]
      simp [hnot]
    · rw [if_neg hid, if_neg hid, ← hl.mem_children]
  · rw [h.children]
    exact hl.children_increase q
  · rw [h.args, h.owner?]
    by_cases hid : id = g.size
    · have hnot : g.size ∉ g.args i := fun hmem => Nat.lt_irrefl _ (hl.lt_size_of_mem_args hmem)
      rw [if_pos hid, howned, hid]
      by_cases hi : i = owner
      · simp [hi]
      · simp [hi, hnot, Ne.symm hi]
    · rw [if_neg hid, ← hl.mem_args]
      split
      · simp [hid]
      · rfl
  · rw [h.args]
    split
    · exact increase_concat (hl.args_increase i) fun id => hl.lt_size_of_mem_args
    · exact hl.args_increase i

/-! ### What follows from the links -/

/-- The place around a reference is a reference. -/
theorem Linked.isRef_parent? (hl : g.Linked) (id : Nat) : g.isRef ((g.parent? id).getD 0) = true := by
  cases hp : g.parent? id with
  | none => exact hl.root.1.isRef
  | some p => exact (hl.parent id p hp).2

/-- Walks from events to the references around them end. -/
theorem Linked.wellFounded (hl : g.Linked) : WellFounded (fun p id => g.parent? id = some p) :=
  Subrelation.wf (fun {p id} hp => (hl.parent id p hp).1) Nat.lt_wfRel.wf

theorem Linked.parent?_eq_none_iff (hl : g.Linked) {id : Nat} (hid : id < g.size) :
    g.parent? id = none ↔ id = 0 ∨ g.owner? id = some 0 := by
  refine ⟨hl.orphan id hid, ?_⟩
  rintro (rfl | hpassed)
  · exact hl.root.2
  · rw [(hl.owner id 0 hpassed).2.2, hl.root.2]

/-- All lists of children together. -/
def allChildren (g : Graph) : List Nat :=
  (List.range g.size).flatMap g.children

theorem Linked.nodup_allChildren (hl : g.Linked) : g.allChildren.Nodup := by
  rw [allChildren, List.nodup_flatMap]
  refine ⟨fun p _ => (hl.children_increase p).imp Nat.ne_of_lt, ?_⟩
  refine List.nodup_range.imp fun {p q} hne id hp hq => hne ?_
  have hparent := ((hl.mem_children p id).1 hp).1
  exact Option.some.inj (hparent.symm.trans ((hl.mem_children q id).1 hq).1)

/-- Every event that is neither the main file nor an argument is listed once, where it happens. -/
theorem Linked.count_allChildren (hl : g.Linked) {id : Nat} (hid : id < g.size) (hzero : id ≠ 0)
    (howner : g.owner? id = none) :
    g.allChildren.count id = 1 ∧ ∃ p, g.parent? id = some p ∧ id ∈ g.children p := by
  obtain ⟨p, hp⟩ : ∃ p, g.parent? id = some p := by
    refine Option.ne_none_iff_exists'.1 fun hnone => ?_
    rcases hl.orphan id hid hnone with h | h
    · exact hzero h
    · rw [howner] at h
      exact absurd h (by simp)
  have hmem := (hl.mem_children p id).2 ⟨hp, howner⟩
  have hlt := g.lt_size_of_isRef (hl.parent id p hp).2
  refine ⟨?_, p, hp, hmem⟩
  exact List.count_eq_one_of_mem hl.nodup_allChildren
    (List.mem_flatMap.2 ⟨p, List.mem_range.2 hlt, hmem⟩)

/-- Arguments are listed once, with the inclusion that they were passed to. -/
theorem Linked.count_args (hl : g.Linked) {id i : Nat} (hi : g.owner? id = some i) :
    g.allChildren.count id = 0 ∧ (g.args i).count id = 1 := by
  refine ⟨List.count_eq_zero.2 fun hmem => ?_, ?_⟩
  · obtain ⟨p, -, hp⟩ := List.mem_flatMap.1 hmem
    rw [((hl.mem_children p id).1 hp).2] at hi
    exact absurd hi (by simp)
  · exact List.count_eq_one_of_mem ((hl.args_increase i).imp Nat.ne_of_lt) ((hl.mem_args i id).2 hi)

/-- The arguments with the inclusions that they were passed to, in order. -/
theorem Adds.passedTo {parent : Option Nat} {nature : Nature} (h : g.Adds g' parent nature) :
    (List.range g'.size).filterMap g'.owner? =
      (List.range g.size).filterMap g.owner? ++ nature.owner?.toList := by
  have hold : (List.range g.size).filterMap g'.owner? = (List.range g.size).filterMap g.owner? := by
    refine List.filterMap_congr fun id hid => ?_
    rw [h.owner?, if_neg (Nat.ne_of_lt (List.mem_range.1 hid))]
  rw [h.size, List.range_succ, List.filterMap_append, hold, List.filterMap_cons, h.owner?,
    if_pos rfl]
  cases nature.owner? <;> rfl

/-- What can be relied on about events, given the inclusions that arguments were passed to in order. -/
structure Sound (g : Graph) (passedTo : List Nat) : Prop extends g.Linked where
  /-- The main file and what it was passed happen in no reference, and everything else does. -/
  parent?_eq_none_iff : ∀ id < g.size, g.parent? id = none ↔ id = 0 ∨ g.owner? id = some 0
  /-- What is neither the main file nor an argument is listed once, where it happens. -/
  listed : ∀ id < g.size, id ≠ 0 → g.owner? id = none →
    g.allChildren.count id = 1 ∧ ∃ p, g.parent? id = some p ∧ id ∈ g.children p
  /-- An argument is listed once, with the inclusion that it was passed to. -/
  passed : ∀ id i, g.owner? id = some i →
    g.IsInclusion i ∧ g.allChildren.count id = 0 ∧ (g.args i).count id = 1
  /-- Arguments were passed to these inclusions. -/
  owners : (List.range g.size).filterMap g.owner? = passedTo
  /-- Walks from events to the references around them end. -/
  walks_end : WellFounded (fun p id => g.parent? id = some p)

end Graph

/-! ### Links under callbacks -/

/-- Whether the events of a tracker are linked as its history says, with the place where new events
happen among them. -/
structure Grounded (h : History) (t : Tracker) : Prop where
  follows : Follows h t
  linked : t.graph.Linked
  current : t.graph.isRef t.current = true
  /-- What is kept for a name is a definition of the kind that is kept there. -/
  kinds : ∀ id p, (id, p) ∈ h.made → ∃ d, t.graph.definition? id = some d ∧ d.kind = p.kind
  passedTo : (List.range t.graph.size).filterMap t.graph.owner? = h.passed.reverse

theorem Place.kind_cases (p : Place) :
    p.kind = .global ∨ p.kind = .scoped ∨ p.kind = .namedArgument := by
  cases p <;> simp [kind]

namespace Grounded

variable {h h' : History} {t t' : Tracker} {c : Callback}

/-- What was made can be named. -/
theorem isNameable (hg : Grounded h t) {id : Nat} (hmade : ∃ p, (id, p) ∈ h.made) :
    id < t.graph.size ∧ t.graph.IsNameable id := by
  obtain ⟨p, hp⟩ := hmade
  obtain ⟨d, hd, hkind⟩ := hg.kinds id p hp
  refine ⟨?_, d, hd, hkind ▸ p.kind_cases⟩
  rw [hg.follows.records.size]
  exact hg.follows.valid.made_lt id p hp

/-- What was made stays, and a new event may be kept for a name. -/
theorem kinds_event (hg : Grounded h t) {parent : Option Nat} {nature : Nature}
    (hadds : t.graph.Adds t'.graph parent nature) {place : Option Place}
    (hplace : ∀ p, place = some p → ∃ d, nature = .definition d ∧ d.kind = p.kind)
    (id : Nat) (p : Place) (hp : (id, p) ∈ (h.event place).made) :
    ∃ d, t'.graph.definition? id = some d ∧ d.kind = p.kind := by
  rcases (History.mem_made_event place id p).1 hp with hold | ⟨rfl, hnew⟩
  · obtain ⟨d, hd, hkind⟩ := hg.kinds id p hold
    refine ⟨d, ?_, hkind⟩
    rw [Graph.definition?_eq_some_iff] at hd ⊢
    exact hadds.nature?_of_some hd
  · obtain ⟨d, rfl, hkind⟩ := hplace p hnew
    refine ⟨d, ?_, hkind⟩
    rw [Graph.definition?_eq_some_iff, hadds.nature?, if_pos hg.follows.records.size.symm]

/-- Nothing about the events changes, but new ones may happen elsewhere. -/
theorem of_alike (hg : Grounded h t) (hf : Follows h' t') (halike : t.graph.Alike t'.graph)
    (hcurrent : t.graph.isRef t'.current = true) (hmade : h'.made = h.made)
    (hpassed : h'.passed = h.passed) : Grounded h' t' where
  follows := hf
  linked := halike.linked hg.linked
  current := (halike.isRef _).trans hcurrent
  kinds id p hp := by
    rw [hmade] at hp
    obtain ⟨d, hd, hkind⟩ := hg.kinds id p hp
    refine ⟨d, ?_, hkind⟩
    rw [Graph.definition?_eq_some_iff, halike.nature?]
    exact (t.graph.definition?_eq_some_iff).1 hd
  passedTo := by
    rw [halike.size, hpassed, ← hg.passedTo]
    exact List.filterMap_congr fun id _ => halike.owner? id

/-- One more event in the current reference. -/
theorem of_inside (hg : Grounded h t) (hf : Follows h' t') {nature : Nature}
    (hinside : t.graph.Inside t'.graph t.current nature) (place : Option Place)
    (howner : nature.owner? = none)
    (htarget : ∀ d, nature.target? = some d → ∃ p, (d, p) ∈ h.made)
    (hplace : ∀ p, place = some p → ∃ d, nature = .definition d ∧ d.kind = p.kind)
    (hcurrent : t'.graph.isRef t'.current = true) (hmade : h'.made = (h.event place).made)
    (hpassed : h'.passed = h.passed) : Grounded h' t' where
  follows := hf
  linked := hinside.linked hg.linked (Graph.admits_inside hg.current howner fun d hd =>
    hg.isNameable (htarget d hd)) howner
  current := hcurrent
  kinds id p hp := hg.kinds_event hinside.toAdds hplace id p (hmade ▸ hp)
  passedTo := by
    rw [hinside.toAdds.passedTo, howner, Option.toList_none, List.append_nil, hpassed, hg.passedTo]

/-- The arguments of an inclusion are as many as were passed to it. -/
theorem length_args (hg : Grounded h t) : (t.graph.args h.innermost).length =
    h.passed.count h.innermost := by
  obtain ⟨i, hi⟩ := hg.follows.inclusion?_innermost
  have hpassed := hg.follows.records.args h.innermost ⟨i.args, i.named, i.usesNamedArgs⟩ (by
    rw [Graph.passed?_eq, hi, Option.map_some])
  rw [← hpassed, Graph.args, t.graph.body?_of_inclusion? hi]
  rfl

/-- One more argument of the file being read. -/
theorem of_beside (hg : Grounded h t) (name value : String) (undefined : Bool)
    (hf : Follows (h.pass name) t') (hbeside : t.graph.Beside t'.graph h.innermost
      (argumentEvent h.innermost (h.passed.count h.innermost) name value undefined))
    (hcurrent : t'.current = t.current) : Grounded (h.pass name) t' where
  follows := hf
  linked := hbeside.linked hg.linked
    (hg.linked.admits_beside hg.follows.inclusion?_innermost rfl rfl) rfl
  current := by
    rw [hcurrent]
    exact hbeside.isRef_of_isRef hg.current
  kinds id p hp := by
    refine hg.kinds_event hbeside.toAdds (fun p hp => ⟨_, rfl, ?_⟩) id p hp
    rw [argumentAt] at hp
    split at hp
    · exact absurd hp (by simp)
    · rename_i hnumber
      obtain rfl := Option.some.inj hp
      simp [argumentEvent, hnumber, Place.kind]
  passedTo := by
    rw [hbeside.toAdds.passedTo, hg.passedTo]
    exact (List.reverse_cons ..).symm

/-- Every move keeps the links well formed. -/
theorem move (hg : Grounded h t) (hf : Follows h' t') (hm : Move h t c h' t') : Grounded h' t' := by
  cases hm with
  | still halike hcurrent hh =>
    refine hg.of_alike hf halike ?_ (by rw [hh]) (by rw [hh])
    rw [hcurrent]
    exact hg.current
  | record howner htarget hkind hinside hcurrent hh =>
    refine hg.of_inside hf hinside _ howner htarget (fun p hp => ⟨_, rfl, hkind p hp⟩) ?_
      (by rw [hh]) (by rw [hh]; rfl)
    rw [hcurrent]
    exact hinside.isRef_of_isRef hg.current
  | enter hinside hcurrent hh =>
    refine hg.of_inside hf hinside none rfl (by simp [Nature.target?]) (by simp) ?_
      (by rw [hh]; rfl) (by rw [hh]; rfl)
    rw [hcurrent, hinside.toAdds.isRef, if_pos rfl]
    rfl
  | expand htarget hinside hcurrent hh =>
    refine hg.of_inside hf hinside none rfl htarget (by simp) ?_
      (by rw [hh]) (by rw [hh]; rfl)
    rw [hcurrent, hinside.toAdds.isRef, if_pos rfl]
    rfl
  | pass name value undefined hbeside hcurrent hh =>
    rw [hg.length_args] at hbeside
    subst hh
    exact hg.of_beside name value undefined hf hbeside hcurrent
  | leave line column _ halike hcurrent _ hh =>
    have hleave : h.leave.made = h.made ∧ h.leave.passed = h.passed := by
      rw [History.leave]
      split <;> exact ⟨rfl, rfl⟩
    refine hg.of_alike hf halike ?_ (by rw [hh, hleave.1]) (by rw [hh, hleave.2])
    rw [hcurrent]
    exact hg.linked.isRef_parent? _
  | finish hname halike hcurrent hh =>
    refine hg.of_alike hf halike ?_ (by rw [hh]) (by rw [hh])
    rw [hcurrent]
    exact hg.linked.isRef_parent? _

theorem step (hg : Grounded h t) (c : Callback) : Grounded (h.step c) (t.step c) :=
  hg.move (hg.follows.step c) (hg.follows.move hg.current c)

end Grounded

theorem linked_start : Graph.start.Linked := by
  have hnature : ∀ id, Graph.start.nature? id = if id = 0 then some (.inclusion 0) else none := by
    intro id
    cases id <;> rfl
  have hparent : ∀ id, Graph.start.parent? id = none := by
    intro id
    cases id <;> rfl
  have howner : ∀ id, Graph.start.owner? id = none := by
    intro id
    rw [Graph.owner?, hnature]
    split <;> rfl
  have htarget : ∀ id, Graph.start.target? id = none := by
    intro id
    rw [Graph.target?, hnature]
    split <;> rfl
  have hchildren : ∀ id, Graph.start.children id = [] := by
    intro id
    cases id <;> rfl
  have hargs : ∀ id, Graph.start.args id = [] := by
    intro id
    cases id <;> rfl
  refine ⟨⟨Graph.isInclusion_iff.2 ⟨0, rfl⟩, rfl⟩, ?_, fun id hid _ => .inl ?_, ?_, ?_, ?_, ?_, ?_, ?_⟩
  · simp [hparent]
  · exact Nat.lt_one_iff.1 hid
  · simp [howner]
  · simp [hchildren, hparent]
  · simp [hchildren]
  · simp [hargs, howner]
  · simp [hargs]
  · simp [htarget]

theorem grounded_start : Grounded {} {} where
  follows := follows_start
  linked := linked_start
  current := rfl
  kinds id p hp := absurd hp (by simp)
  passedTo := rfl

theorem grounded_run (callbacks : List Callback) :
    Grounded (History.after callbacks) (Tracker.run {} callbacks) :=
  run_induction grounded_start (fun _ _ c hg => hg.step c) callbacks

/-- The events after any callbacks are well formed, and every argument was passed to the inclusion
whose file was being read. -/
theorem sound_run (callbacks : List Callback) :
    (Tracker.run {} callbacks).graph.Sound (History.after callbacks).passed.reverse := by
  have hg := grounded_run callbacks
  have hl := hg.linked
  refine ⟨hl, fun id hid => hl.parent?_eq_none_iff hid, fun id hid => hl.count_allChildren hid,
    fun id i hi => ?_, hg.passedTo, hl.wellFounded⟩
  obtain ⟨-, hincl, -⟩ := hl.owner id i hi
  exact ⟨hincl, hl.count_args hi⟩

end AblAnalysis.Preprocessor
