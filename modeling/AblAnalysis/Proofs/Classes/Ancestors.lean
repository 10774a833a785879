import AblAnalysis.Classes.Basic
import Mathlib.Data.List.Chain
import Mathlib.Data.List.Nodup
import Mathlib.Logic.Relation

/-!
The ancestors of a class. The search for a member goes from class to class until there is no known parent or
one whose name it has visited (`Catalog.exists_ascends`). It never stops before an ancestor, for where it comes
to a name for the second time, all that is further up has been passed already (`Catalog.Ascends.mem_iff`).
-/

namespace AblAnalysis

namespace Dict

variable {κ α : Type} [DecidableEq κ]

theorem nodup_insert {d : Dict κ α} (h : (d.entries.map (·.1)).Nodup) (k : κ) (v : α) :
    ((d.insert k v).entries.map (·.1)).Nodup := by
  rw [insert, List.map_cons, List.nodup_cons]
  constructor
  · intro hk
    obtain ⟨e, he, hek⟩ := List.mem_map.1 hk
    exact absurd hek (of_decide_eq_true (List.mem_filter.1 he).2)
  · exact h.sublist (List.filter_sublist.map _)

theorem mem_keys_of_get? {d : Dict κ α} {k : κ} {v : α} (h : d.get? k = some v) :
    k ∈ d.entries.map (·.1) := by
  obtain ⟨e, he, -⟩ := Option.map_eq_some_iff.1 h
  refine List.mem_map.2 ⟨e, List.mem_of_find?_eq_some he, ?_⟩
  simpa using List.find?_some he

end Dict

namespace Catalog

variable {c : Catalog}

theorem nodup_names_injectAll (infos : List ClassInfo) :
    (({} : Catalog).injectAll infos).names.Nodup := by
  suffices h : ∀ c : Catalog, c.names.Nodup → (c.injectAll infos).names.Nodup from
    h {} List.nodup_nil
  induction infos with
  | nil => exact fun c h => h
  | cons info infos ih => exact fun c h => ih _ (Dict.nodup_insert h info.name info)

/-- Whether classes are found by their own names. -/
def Named (c : Catalog) : Prop :=
  ∀ name info, c.find? name = some info → info.name = name

theorem Named.inject (h : c.Named) (info : ClassInfo) : (c.inject info).Named := by
  intro name other hfound
  have hlookup : (c.inject info).find? name = if name = info.name then some info else c.find? name :=
    Dict.get?_insert ..
  rw [hlookup] at hfound
  split at hfound
  · rename_i heq
    exact Option.some.inj hfound ▸ heq.symm
  · exact h name other hfound

theorem named_injectAll (infos : List ClassInfo) : (({} : Catalog).injectAll infos).Named := by
  suffices h : ∀ c : Catalog, c.Named → (c.injectAll infos).Named from
    h {} fun name info hfound => absurd hfound (by simp [find?])
  induction infos with
  | nil => exact fun c h => h
  | cons info infos ih => exact fun c h => ih _ (h.inject info)

/-! ### Parents -/

/-- Whether a class is the parent of another one: the one of exactly the name stored as that of the parent,
which is not empty. -/
def IsParent (c : Catalog) (a b : ClassInfo) : Prop :=
  ∃ name, a.parent = some name ∧ name ≠ "" ∧ c.find? name = some b

/-- The class and its ancestors, as far as they are known. What comes back to the name of the class is
the class itself. -/
inductive Lineage (c : Catalog) (start : ClassInfo) : ClassInfo → Prop
  | self : Lineage c start start
  | parent {a b : ClassInfo} : Lineage c start a → c.IsParent a b → b.name ≠ start.name →
      Lineage c start b

variable {a b : ClassInfo}

theorem parent?_eq_some_iff : c.parent? a = some b ↔ c.IsParent a b := by
  rw [parent?, IsParent, Option.bind_eq_some_iff]
  simp only [ClassInfo.parentName?, Option.filter_eq_some_iff, Bool.not_eq_true',
    String.isEmpty_eq_false_iff, and_assoc]

theorem IsParent.unique {b' : ClassInfo} (h : c.IsParent a b) (h' : c.IsParent a b') : b = b' :=
  Option.some.inj ((parent?_eq_some_iff.2 h).symm.trans (parent?_eq_some_iff.2 h'))

theorem Named.find?_of_isParent (hnamed : c.Named) (h : c.IsParent a b) :
    c.find? b.name = some b := by
  obtain ⟨name, -, -, hfound⟩ := h
  rwa [hnamed name b hfound]

/-- The search looks at the class and goes on to its parent. -/
theorem holdsFrom_eq {visited : List String} (hnew : a.name ∉ visited) (p : ClassInfo → Bool) :
    c.holdsFrom p visited a = (p a || (c.parent? a).any (c.holdsFrom p (a.name :: visited))) := by
  rw [holdsFrom, if_neg hnew]
  cases p a with
  | true => rfl
  | false =>
    rw [if_neg Bool.false_ne_true, Bool.false_or]
    split
    · rename_i next hnext
      rw [hnext, Option.any_some]
    · rename_i hnone
      rw [hnone, Option.any_none]

/-! ### The way up -/

/-- Whether `walk` are the classes that the search looks at from `info` on, when it has visited names before:
each the parent of the one before, of no name twice, up to one without a known parent or with one whose name
has been visited by then. -/
structure Ascends (c : Catalog) (visited : List String) (info : ClassInfo) (walk : List ClassInfo) :
    Prop where
  head : walk.head? = if info.name ∈ visited then none else some info
  links : walk.IsChain c.IsParent
  fresh : (walk.map (·.name)).Nodup
  unvisited : ∀ a ∈ walk, a.name ∉ visited
  last : ∀ a ∈ walk.getLast?, ∀ b, c.IsParent a b → b.name ∈ visited ∨ b.name ∈ walk.map (·.name)
  searched : ∀ p, c.holdsFrom p visited info = walk.any p

variable {visited : List String} {info next : ClassInfo} {walk : List ClassInfo}

theorem ascends_nil (h : info.name ∈ visited) : c.Ascends visited info [] where
  head := by rw [if_pos h, List.head?_nil]
  links := .nil
  fresh := List.nodup_nil
  unvisited a ha := absurd ha List.not_mem_nil
  last a ha := absurd ha (by simp)
  searched p := by rw [holdsFrom, if_pos h, List.any_nil]

theorem ascends_singleton (hnew : info.name ∉ visited) (hnone : c.parent? info = none) :
    c.Ascends visited info [info] where
  head := by rw [if_neg hnew, List.head?_singleton]
  links := .singleton info
  fresh := List.nodup_singleton _
  unvisited a ha := List.mem_singleton.1 ha ▸ hnew
  last a ha b hb := by
    obtain rfl := Option.some.inj ha
    exact absurd (hnone.symm.trans (parent?_eq_some_iff.2 hb)) (by simp)
  searched p := by rw [holdsFrom_eq hnew, hnone, Option.any_none, List.any_cons, List.any_nil]

theorem Ascends.cons (hnew : info.name ∉ visited) (hnext : c.parent? info = some next)
    (h : c.Ascends (info.name :: visited) next walk) : c.Ascends visited info (info :: walk) where
  head := by rw [if_neg hnew, List.head?_cons]
  links := by
    refine List.isChain_cons.2 ⟨fun a ha => ?_, h.links⟩
    rw [h.head] at ha
    split at ha
    · exact absurd ha (by simp)
    · exact Option.some.inj ha ▸ parent?_eq_some_iff.1 hnext
  fresh := by
    refine List.nodup_cons.2 ⟨fun hagain => ?_, h.fresh⟩
    obtain ⟨a, ha, hname⟩ := List.mem_map.1 hagain
    exact h.unvisited a ha (hname ▸ List.mem_cons_self ..)
  unvisited a ha := by
    rcases List.mem_cons.1 ha with rfl | ha
    · exact hnew
    · exact fun hold => h.unvisited a ha (List.mem_cons_of_mem _ hold)
  last a ha b hb := by
    have hpassed : b.name ∈ info.name :: visited ∨ b.name ∈ walk.map (·.name) := by
      cases walk with
      | nil =>
        -- the class is the last one because the name of its parent has been visited
        obtain rfl := Option.some.inj ha
        have hvisited := h.head
        obtain rfl := hb.unique (parent?_eq_some_iff.1 hnext)
        split at hvisited
        · exact .inl ‹_›
        · exact absurd hvisited (by simp)
      | cons first rest =>
        rw [List.getLast?_cons_cons] at ha
        exact h.last a ha b hb
    rw [List.map_cons]
    rcases hpassed with hvisited | hwalk
    · rcases List.mem_cons.1 hvisited with hself | hvisited
      · exact .inr (hself ▸ List.mem_cons_self ..)
      · exact .inl hvisited
    · exact .inr (List.mem_cons_of_mem _ hwalk)
  searched p := by rw [holdsFrom_eq hnew, hnext, Option.any_some, h.searched, List.any_cons]

/-- From every class, whatever has been visited, the search goes up as far as it can. -/
theorem exists_ascends (c : Catalog) (visited : List String) (info : ClassInfo) :
    ∃ walk, c.Ascends visited info walk := by
  fun_induction holdsFrom c (fun _ => false) visited info with
  | case1 visited info hold => exact ⟨[], ascends_nil hold⟩
  | case2 visited info hnew hp => exact absurd hp Bool.false_ne_true
  | case3 visited info hnew hp next hnext ih =>
    obtain ⟨walk, hwalk⟩ := ih
    exact ⟨info :: walk, hwalk.cons hnew hnext⟩
  | case4 visited info hnew hp hnone => exact ⟨[info], ascends_singleton hnew hnone⟩

/-! ### What the way up passes -/

/-- The parent of a class that is passed is passed next, or has the name of one that was passed. -/
theorem Ascends.passed_of_isParent (h : c.Ascends [] info walk) (ha : a ∈ walk) (hb : c.IsParent a b) :
    b ∈ walk ∨ b.name ∈ walk.map (·.name) := by
  obtain ⟨before, after, rfl⟩ := List.append_of_mem ha
  cases after with
  | nil => exact .inr ((h.last a (by simp) b hb).resolve_left List.not_mem_nil)
  | cons next rest =>
    have hnext : c.IsParent a next := (List.isChain_cons_cons.1 (List.isChain_append.1 h.links).2.1).1
    exact .inl (hb.unique hnext ▸ by simp)

theorem Ascends.eq_cons (h : c.Ascends [] info walk) : ∃ rest, walk = info :: rest := by
  have hhead := h.head
  rw [if_neg List.not_mem_nil] at hhead
  exact List.head?_eq_some_iff.1 hhead

/-- All but the first class that is passed are found by their names. -/
theorem Ascends.find?_of_mem (hnamed : c.Named) {rest : List ClassInfo}
    (h : c.Ascends [] info (info :: rest)) (ha : a ∈ rest) : c.find? a.name = some a := by
  obtain ⟨before, after, rfl⟩ := List.append_of_mem ha
  have hlinks := h.links
  rw [← List.cons_append, List.isChain_append] at hlinks
  obtain ⟨b, hb⟩ : ∃ b, b ∈ (info :: before).getLast? :=
    ⟨_, List.getLast?_eq_some_getLast (List.cons_ne_nil _ _)⟩
  exact hnamed.find?_of_isParent (hlinks.2.2 b hb a rfl)

theorem lineage_of_isChain {start : ClassInfo} (hlinks : (a :: walk).IsChain c.IsParent)
    (ha : c.Lineage start a) (hne : ∀ b ∈ walk, b.name ≠ start.name) : ∀ b ∈ walk, c.Lineage start b := by
  induction walk generalizing a with
  | nil => exact fun b hb => absurd hb List.not_mem_nil
  | cons next rest ih =>
    obtain ⟨hparent, hrest⟩ := List.isChain_cons_cons.1 hlinks
    rw [List.forall_mem_cons] at hne
    have hnext : c.Lineage start next := ha.parent hparent hne.1
    exact List.forall_mem_cons.2 ⟨hnext, ih hrest hnext hne.2⟩

/-- The search passes the class and its ancestors. -/
theorem Ascends.mem_iff (hnamed : c.Named) (h : c.Ascends [] info walk) :
    a ∈ walk ↔ c.Lineage info a := by
  obtain ⟨rest, rfl⟩ := h.eq_cons
  constructor
  · intro ha
    rcases List.mem_cons.1 ha with rfl | ha
    · exact .self
    · refine lineage_of_isChain h.links .self (fun b hb hname => ?_) a ha
      exact (List.nodup_cons.1 h.fresh).1 (List.mem_map.2 ⟨b, hb, hname⟩)
  · intro hline
    induction hline with
    | self => exact List.mem_cons_self ..
    | @parent a b _ hparent hne ih =>
      rcases h.passed_of_isParent ih hparent with hb | hb
      · exact hb
      · obtain ⟨b', hb', hname⟩ := List.mem_map.1 hb
        rcases List.mem_cons.1 hb' with rfl | hrest
        · exact absurd hname.symm hne
        · have hfound := h.find?_of_mem hnamed hrest
          rw [hname, hnamed.find?_of_isParent hparent] at hfound
          exact Option.some.inj hfound ▸ hb'

/-- What is looked for in a class is looked for in all of its known ancestors. -/
theorem anyInChain_iff (h : c.Named) (start : Option ClassInfo) (p : ClassInfo → Bool) :
    c.anyInChain start p = true ↔
      ∃ info a, start = some info ∧ c.Lineage info a ∧ p a = true := by
  cases start with
  | none => simp [anyInChain]
  | some info =>
    obtain ⟨walk, hwalk⟩ := c.exists_ascends [] info
    rw [anyInChain, hwalk.searched, List.any_eq_true]
    simp only [hwalk.mem_iff h, Option.some.injEq, exists_and_left, exists_eq_left']

end Catalog

end AblAnalysis
