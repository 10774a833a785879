import AblAnalysis.Proofs.Schema.Abbreviation
import AblAnalysis.Schema.Table
import Mathlib.Data.List.Find
import Mathlib.Data.List.Induction
import Mathlib.Data.List.Nodup

/-!
Fields by name. A field is declared if it is the first of its name (`addField_cases`), and a table is known by
its fields as they were declared (`Table.ext_fields`), since there is one order by name. A name finds the first
field in this order that it abbreviates (`lookupField?_eq_find?`), so it finds one if it abbreviates any
(`isSome_lookupField?_iff`), and the field that it is the name of, if there is one (`lookupField?_of_name_eq`).
-/

namespace AblAnalysis

/-! ### First matches -/

namespace Abbreviation

variable {α : Type} {key : α → String}

/-- In a sorted list the search by halving finds the first candidate that the name abbreviates. -/
theorem firstMatch?_eq_find? {candidates : List α} (name : String)
    (hsorted : candidates.Pairwise (fun a b => ¬ key b < key a)) :
    firstMatch? key name candidates =
      candidates.find? (fun c => Text.beginsWith (Text.lowercase name) (key c)) := by
  obtain ⟨hfront, hrest⟩ := Bisection.ceiling_spec hsorted (Text.lowercase name)
  have hbefore : (candidates.take (Bisection.ceiling key (Text.lowercase name) candidates)).find?
      (fun c => Text.beginsWith (Text.lowercase name) (key c)) = none :=
    List.find?_eq_none.2 fun c hc hbegin => not_lt_of_beginsWith hbegin (hfront c hc)
  have hafter := hsorted.sublist
    (List.drop_sublist (Bisection.ceiling key (Text.lowercase name) candidates) _)
  conv_rhs => rw [← List.take_append_drop
    (Bisection.ceiling key (Text.lowercase name) candidates) candidates]
  rw [List.find?_append, hbefore, Option.none_or, firstMatch?, ceiling]
  cases hdrop : candidates.drop (Bisection.ceiling key (Text.lowercase name) candidates) with
  | nil => rfl
  | cons c rest =>
    rw [hdrop] at hrest hafter
    by_cases hbegin : Text.beginsWith (Text.lowercase name) (key c) = true
    · rw [List.find?_cons_of_pos (by simpa using hbegin)]
      exact if_pos hbegin
    · have hnil := List.filter_eq_nil_iff.1
        (filter_eq_nil hafter (hrest c (List.mem_cons_self ..)) hbegin)
      rw [List.find?_eq_none.2 hnil]
      exact if_neg hbegin

end Abbreviation

/-! ### Fields -/

/-- The elements of a list by their numbers. -/
theorem filterMap_range_getElem? {α : Type} (xs : List α) :
    (List.range xs.length).filterMap (fun i => xs[i]?) = xs := by
  induction xs using List.reverseRecOn with
  | nil => rfl
  | append_singleton xs x ih =>
    rw [List.length_append, List.length_singleton, List.range_succ, List.filterMap_append]
    have hfront : (List.range xs.length).filterMap (fun i => (xs ++ [x])[i]?) =
        (List.range xs.length).filterMap (fun i => xs[i]?) :=
      List.filterMap_congr fun i hi => List.getElem?_append_left (List.mem_range.1 hi)
    rw [hfront, ih]
    simp

/-- Whether a name abbreviates the name of a field. -/
def Field.AbbreviatedBy (f : Field) (name : String) : Prop :=
  Text.beginsWith (Text.lowercase name) f.key = true

instance (f : Field) (name : String) : Decidable (f.AbbreviatedBy name) :=
  inferInstanceAs (Decidable (_ = true))

namespace Table

variable {t : Table} {f : Field}

/-! ### The two orders -/

theorem keyAt_eq {number : Nat} (h : t.fields[number]? = some f) :
    Field.keyAt t.fields number = f.key := by
  rw [Field.keyAt, h]

theorem fieldsByName_perm (t : Table) : t.fieldsByName.Perm t.fields :=
  (t.nameOrder_perm.filterMap _).trans (.of_eq (filterMap_range_getElem? t.fields))

theorem fieldsByName_increasing (t : Table) :
    t.fieldsByName.Pairwise (fun f g => f.key < g.key) := by
  refine List.pairwise_filterMap.2 (t.nameOrder_increasing.imp fun {i j} hlt f hf g hg => ?_)
  rwa [keyAt_eq hf, keyAt_eq hg] at hlt

/-- No two fields have the same name. -/
theorem fields_distinct (t : Table) : t.fields.Pairwise (fun f g => f.key ≠ g.key) := by
  refine (t.fieldsByName_perm.pairwise_iff fun hne => Ne.symm hne).1 ?_
  exact t.fieldsByName_increasing.imp fun hlt => Std.ne_of_lt hlt

/-- There is one way to list fields in strictly increasing order. -/
theorem eq_of_perm_of_increasing {fs gs : List Field} (hperm : fs.Perm gs)
    (hfs : fs.Pairwise (fun f g => f.key < g.key)) (hgs : gs.Pairwise (fun f g => f.key < g.key)) :
    fs = gs :=
  hperm.eq_of_pairwise (fun _ _ _ _ hlt hgt => absurd (Std.lt_trans hlt hgt) (String.lt_irrefl _))
    hfs hgs

/-- The order by name is determined by the fields. -/
theorem ext_fields {t u : Table} (hname : t.name = u.name) (hdatabase : t.database = u.database)
    (hstore : t.store = u.store) (hfields : t.fields = u.fields) (hindexes : t.indexes = u.indexes) :
    t = u := by
  have horder : t.nameOrder = u.nameOrder := by
    have hperm : t.nameOrder.Perm u.nameOrder :=
      t.nameOrder_perm.trans (hfields ▸ u.nameOrder_perm.symm)
    refine hperm.eq_of_pairwise (fun i j _ _ hlt hgt => ?_) t.nameOrder_increasing
      (hfields ▸ u.nameOrder_increasing)
    exact absurd (Std.lt_trans hlt hgt) (String.lt_irrefl _)
  obtain ⟨⟩ := t
  obtain ⟨⟩ := u
  simp only at hname hdatabase hstore hfields hindexes horder
  subst hname hdatabase hstore hfields hindexes horder
  rfl

/-! ### Declaring a field -/

theorem key_of_taken {place : Nat}
    (h : Bisection.locate (Field.keyAt t.fields) f.key t.nameOrder = .taken place) :
    ∃ g ∈ t.fields, g.key = f.key := by
  obtain ⟨i, hplace, hkey⟩ := Bisection.getElem?_of_locate_taken h
  have hi : i < t.fields.length := mem_nameOrder.1 (List.mem_of_getElem? hplace)
  refine ⟨t.fields[i], List.getElem_mem hi, ?_⟩
  rw [← keyAt_eq (List.getElem?_eq_getElem hi), hkey]

theorem key_ne_of_free {place : Nat}
    (h : Bisection.locate (Field.keyAt t.fields) f.key t.nameOrder = .free place) :
    ∀ g ∈ t.fields, g.key ≠ f.key := by
  intro g hg
  obtain ⟨i, hi, rfl⟩ := List.mem_iff_getElem.1 hg
  rw [← keyAt_eq (List.getElem?_eq_getElem hi)]
  exact Bisection.ne_of_locate_free t.nameOrder_increasing h i (mem_nameOrder.2 hi)

/-- A field is declared unless there is one of its name, and then the table stays as it is. -/
theorem addField_cases (t : Table) (f : Field) :
    (∃ g ∈ t.fields, g.key = f.key) ∧ t.addField f = (false, t) ∨
      (∀ g ∈ t.fields, g.key ≠ f.key) ∧ ∃ place h, t.addField f = (true, t.push f place h) := by
  rw [addField]
  split
  · rename_i htaken
    exact .inl ⟨key_of_taken htaken, rfl⟩
  · rename_i place hfree
    exact .inr ⟨key_ne_of_free hfree, place, hfree, rfl⟩

theorem exists_addField_of_new (h : ∀ g ∈ t.fields, g.key ≠ f.key) :
    ∃ place hfree, t.addField f = (true, t.push f place hfree) := by
  rcases t.addField_cases f with ⟨⟨g, hg, hkey⟩, -⟩ | ⟨-, hpush⟩
  · exact absurd hkey (h g hg)
  · exact hpush

/-- What a field leaves as it was. -/
theorem addField_same (t : Table) (f : Field) : (t.addField f).2.name = t.name ∧
    (t.addField f).2.database = t.database ∧ (t.addField f).2.store = t.store ∧
    (t.addField f).2.indexes = t.indexes := by
  rcases t.addField_cases f with ⟨-, hsame⟩ | ⟨-, place, hfree, hpush⟩
  · rw [hsame]
    exact ⟨rfl, rfl, rfl, rfl⟩
  · rw [hpush]
    exact ⟨rfl, rfl, rfl, rfl⟩

theorem fields_addField_of_new (h : ∀ g ∈ t.fields, g.key ≠ f.key) :
    (t.addField f).2.fields = t.fields ++ [f] := by
  obtain ⟨place, hfree, hpush⟩ := exists_addField_of_new h
  rw [hpush]
  rfl

theorem mem_addField {g : Field} (h : g ∈ (t.addField f).2.fields) : g = f ∨ g ∈ t.fields := by
  rcases t.addField_cases f with ⟨-, hsame⟩ | ⟨hnew, -⟩
  · rw [hsame] at h
    exact .inr h
  · rw [fields_addField_of_new hnew] at h
    exact (List.mem_append.1 h).symm.imp List.mem_singleton.1 id

theorem fields_subset_addField (t : Table) (f : Field) : t.fields ⊆ (t.addField f).2.fields := by
  rcases t.addField_cases f with ⟨-, hsame⟩ | ⟨hnew, -⟩
  · rw [hsame]
    exact List.Subset.refl _
  · rw [fields_addField_of_new hnew]
    exact List.subset_append_left _ _

/-! ### Declaring fields in order -/

/-- What fields leave as it was. -/
theorem declare_same (t : Table) (fs : List Field) : (t.declare fs).name = t.name ∧
    (t.declare fs).database = t.database ∧ (t.declare fs).store = t.store ∧
    (t.declare fs).indexes = t.indexes := by
  induction fs generalizing t with
  | nil => exact ⟨rfl, rfl, rfl, rfl⟩
  | cons f rest ih =>
    obtain ⟨hname, hdatabase, hstore, hindexes⟩ := t.addField_same f
    rw [← hname, ← hdatabase, ← hstore, ← hindexes]
    exact ih (t.addField f).2

/-- Fields of different names are all declared, in their order. -/
theorem fields_declare {fs : List Field} (h : (t.fields ++ fs).Pairwise (fun f g => f.key ≠ g.key)) :
    (t.declare fs).fields = t.fields ++ fs := by
  induction fs generalizing t with
  | nil => exact (List.append_nil _).symm
  | cons f rest ih =>
    have hnew : ∀ g ∈ t.fields, g.key ≠ f.key :=
      fun g hg => (List.pairwise_append.1 h).2.2 g hg f (List.mem_cons_self ..)
    have hfields := fields_addField_of_new hnew
    have hrest : ((t.addField f).2.fields ++ rest).Pairwise (fun f g => f.key ≠ g.key) := by
      rwa [hfields, List.append_assoc, List.singleton_append]
    rw [declare, List.foldl_cons, ← declare, ih hrest, hfields, List.append_assoc,
      List.singleton_append]

/-! ### Lookups -/

/-- A name finds the first field in name order that it abbreviates. -/
theorem lookupField?_eq_find? (t : Table) (name : String) : t.lookupField? name =
    t.fieldsByName.find? (fun f => Text.beginsWith (Text.lowercase name) f.key) := by
  have hsorted : t.nameOrder.Pairwise
      (fun i j => ¬ Field.keyAt t.fields j < Field.keyAt t.fields i) :=
    t.nameOrder_increasing.imp fun hlt => Std.not_lt.2 (Std.le_of_lt hlt)
  rw [lookupField?, Abbreviation.firstMatch?_eq_find? name hsorted, fieldsByName, List.find?_filterMap]
  congr 1
  refine List.find?_congr fun i hi => ?_
  have hfield := List.getElem?_eq_getElem (mem_nameOrder.1 hi)
  rw [keyAt_eq hfield, hfield, Option.any_some]

/-- A name finds a field if it abbreviates one. -/
theorem isSome_lookupField?_iff {t : Table} {name : String} :
    (t.lookupField? name).isSome = true ↔ ∃ f ∈ t.fields, f.AbbreviatedBy name := by
  simp only [lookupField?_eq_find?, List.find?_isSome, t.fieldsByName_perm.mem_iff,
    Field.AbbreviatedBy]

theorem of_lookupField?_eq_some {t : Table} {name : String} {f : Field}
    (h : t.lookupField? name = some f) : f ∈ t.fields ∧ f.AbbreviatedBy name := by
  rw [lookupField?_eq_find?] at h
  have hbegin : Text.beginsWith (Text.lowercase name) f.key = true := by
    simpa using List.find?_some h
  exact ⟨t.fieldsByName_perm.mem_iff.1 (List.mem_of_find?_eq_some h), hbegin⟩

/-- A name that is the name of a field stands for that field, whatever others it abbreviates. -/
theorem lookupField?_of_name_eq (hf : f ∈ t.fields) : t.lookupField? f.name = some f := by
  have hself : f.AbbreviatedBy f.name := Abbreviation.beginsWith_self f.key
  obtain ⟨g, hg⟩ := Option.isSome_iff_exists.1 (isSome_lookupField?_iff.2 ⟨f, hf, hself⟩)
  obtain ⟨-, hbegin⟩ := of_lookupField?_eq_some hg
  have hnotLess : ¬ g.key < f.key := Abbreviation.not_lt_of_beginsWith hbegin
  have hfind := hg
  rw [lookupField?_eq_find?, List.find?_eq_some_iff_append] at hfind
  obtain ⟨-, before, after, hsplit, hbefore⟩ := hfind
  have hincreasing := t.fieldsByName_increasing
  rw [hsplit, List.pairwise_append] at hincreasing
  have hfound : f ∈ before ++ g :: after := hsplit ▸ t.fieldsByName_perm.mem_iff.2 hf
  rcases List.mem_append.1 hfound with hfront | hback
  · exact absurd hself (by simpa [Field.AbbreviatedBy] using hbefore f hfront)
  · rcases List.mem_cons.1 hback with rfl | hback
    · exact hg
    · exact absurd (List.rel_of_pairwise_cons hincreasing.2.1 hback) hnotLess

/-- The fields of a table and those left out because their names are taken abbreviate alike. -/
theorem exists_abbreviatedBy_addField {name : String} :
    (∃ g ∈ (t.addField f).2.fields, g.AbbreviatedBy name) ↔
      (∃ g ∈ t.fields, g.AbbreviatedBy name) ∨ f.AbbreviatedBy name := by
  rcases t.addField_cases f with ⟨⟨g, hg, hkey⟩, hsame⟩ | ⟨hnew, -⟩
  · rw [hsame]
    refine ⟨.inl, fun h => h.elim id fun hf => ⟨g, hg, ?_⟩⟩
    rwa [Field.AbbreviatedBy, hkey]
  · rw [fields_addField_of_new hnew]
    simp [or_and_right, exists_or]

end Table

end AblAnalysis
