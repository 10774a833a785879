import AblAnalysis.Proofs.Classes.Indexes

/-!
The way up from a class. It goes from parent to parent, each found by its exact name, and ends at a class
without a known parent or with one that has been passed; so it passes every class that is reached at all, no
class twice, and no more than the catalog has (`Catalog.exists_ascent`).
-/

namespace AblAnalysis.Catalog

variable {c : Catalog}

/-! ### Classes that are reached -/

/-- Whether a class is reached from another one by known parents. -/
def Reaches (c : Catalog) (start a : ClassInfo) : Prop :=
  Relation.ReflTransGen c.IsParent start a

/-- Coming back to the name of the first class is coming back to the class, so this is its lineage. -/
theorem reaches_iff (hnamed : c.Named) {start a : ClassInfo} (h : c.find? start.name = some start) :
    c.Reaches start a ↔ c.Lineage start a := by
  constructor
  · intro hreach
    induction hreach with
    | refl => exact .self
    | @tail a b _ hparent ih =>
      by_cases hname : b.name = start.name
      · have hfound := hnamed.find?_of_isParent hparent
        rw [hname, h] at hfound
        obtain rfl := Option.some.inj hfound
        exact .self
      · exact ih.parent hparent hname
  · intro hline
    induction hline with
    | self => exact .refl
    | parent _ hparent _ ih => exact .tail ih hparent

/-! ### The way up -/

/-- Whether a walk goes up from a class as far as it can without passing a class twice. -/
structure Ascent (c : Catalog) (start : Option ClassInfo) (walk : List ClassInfo) : Prop where
  head : walk.head? = start
  links : walk.IsChain c.IsParent
  fresh : (walk.map (·.name)).Nodup
  last : ∀ a ∈ walk.getLast?, ∀ b, c.IsParent a b → b ∈ walk

theorem mem_names_of_find? {name : String} {info : ClassInfo} (h : c.find? name = some info) :
    name ∈ c.names :=
  Dict.mem_keys_of_get? h

/-- From a class that is found by its own name, the search goes up as far as it can. -/
theorem exists_ascent_of_named (hnamed : c.Named) {info : ClassInfo}
    (hself : c.find? info.name = some info) : ∃ walk, c.Ascent (some info) walk ∧
      (∀ a ∈ walk, a.name ∈ c.names) ∧ ∀ p, c.anyInChain (some info) p = walk.any p := by
  obtain ⟨walk, h⟩ := c.exists_ascends [] info
  have hfound : ∀ a ∈ walk, c.find? a.name = some a := by
    obtain ⟨rest, rfl⟩ := h.eq_cons
    exact List.forall_mem_cons.2 ⟨hself, fun a => h.find?_of_mem hnamed⟩
  have hhead := h.head
  rw [if_neg List.not_mem_nil] at hhead
  refine ⟨walk, ⟨hhead, h.links, h.fresh, fun a ha b hb => ?_⟩,
    fun a ha => mem_names_of_find? (hfound a ha), h.searched⟩
  obtain ⟨b', hb', hname⟩ := List.mem_map.1 ((h.last a ha b hb).resolve_left List.not_mem_nil)
  have hagain := hfound b' hb'
  rw [hname, hnamed.find?_of_isParent hb] at hagain
  exact Option.some.inj hagain ▸ hb'

/-- Whatever classes were injected, with parents that are missing, empty or come back to them, a search from
the class of a name looks at classes one after the other, each the parent of the one before, none twice, and
ends after at most as many as there are. It succeeds if and only if one of all the classes that are reached
satisfies what is looked for. -/
theorem exists_ascent (infos : List ClassInfo) (n : String) :
    let c := ({} : Catalog).injectAll infos
    (∃ walk, c.Ascent (c.find? n) walk ∧ walk.length ≤ c.size ∧
      ∀ p, c.anyInChain (c.find? n) p = walk.any p) ∧
    ∀ p, c.anyInChain (c.find? n) p = true ↔
      ∃ info a, c.find? n = some info ∧ c.Reaches info a ∧ p a = true := by
  intro c
  have hnamed : c.Named := named_injectAll infos
  have hself : ∀ info, c.find? n = some info → c.find? info.name = some info := fun info hfound =>
    (hnamed n info hfound).symm ▸ hfound
  constructor
  · cases hfound : c.find? n with
    | none => exact ⟨[], ⟨rfl, .nil, List.nodup_nil, by simp⟩, Nat.zero_le _, fun p => rfl⟩
    | some info =>
      obtain ⟨walk, hascent, hwithin, hsearch⟩ := exists_ascent_of_named hnamed (hself info hfound)
      have hsub : walk.map (·.name) ⊆ c.names := by
        intro name hname
        obtain ⟨a, ha, rfl⟩ := List.mem_map.1 hname
        exact hwithin a ha
      have hlength := (List.subperm_of_subset hascent.fresh hsub).length_le
      rw [List.length_map, names, List.length_map] at hlength
      exact ⟨walk, hascent, hlength, hsearch⟩
  · intro p
    rw [anyInChain_iff hnamed]
    refine exists_congr fun info => exists_congr fun a => and_congr_right fun hfound => ?_
    rw [reaches_iff hnamed (hself info hfound)]

end AblAnalysis.Catalog
