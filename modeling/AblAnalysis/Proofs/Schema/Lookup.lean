import AblAnalysis.Proofs.Schema.Abbreviation
import AblAnalysis.Proofs.Schema.Registry
import AblAnalysis.Proofs.Text.Parts
import Mathlib.Data.List.TakeWhile

/-!
What a table name stands for. Over all databases, a full name stands for the first table that bears
it, by database; an abbreviation stands for a table if it abbreviates no other (`StandsFor`). The
lookup goes through the sorted tables of all databases, and since sorting is stable, the first one
found there is the first one meant.
-/

namespace AblAnalysis

/-! ### Stable sorting -/

section MergeSort

variable {α : Type} {le : α → α → Bool} {p : α → Bool}

/-- The first element found in a sorted list is not above any that could be found before sorting, and
below those that stood in front of it. -/
theorem find?_mergeSort (trans : ∀ a b c, le a b = true → le b c = true → le a c = true)
    (total : ∀ a b, (le a b || le b a) = true) {l : List α} {t : α}
    (h : (l.mergeSort le).find? p = some t) : ∃ before after, l = before ++ t :: after ∧
      (∀ u ∈ before, p u = true → le u t = false) ∧ ∀ u ∈ after, p u = true → le t u = true := by
  induction l with
  | nil => simp at h
  | cons a l ih =>
    obtain ⟨l₁, l₂, hcons, hl, hbelow⟩ := List.mergeSort_cons trans total a l
    have hsorted := List.pairwise_mergeSort trans total (a :: l)
    rw [hcons] at h hsorted
    rw [hl] at ih
    cases hfirst : l₁.find? p with
    | some x =>
      rw [List.find?_append, hfirst, Option.some_or] at h
      obtain rfl := Option.some.inj h
      rw [List.find?_append, hfirst, Option.some_or] at ih
      obtain ⟨before, after, rfl, hbefore, hafter⟩ := ih rfl
      refine ⟨a :: before, after, rfl, fun u hu hp => ?_, hafter⟩
      rcases List.mem_cons.1 hu with rfl | hu
      · exact Bool.not_eq_true' _ ▸ hbelow x (List.mem_of_find?_eq_some hfirst)
      · exact hbefore u hu hp
    | none =>
      rw [List.find?_append, hfirst, Option.none_or] at h ih
      by_cases hp : p a = true
      · rw [List.find?_cons_of_pos hp] at h
        obtain rfl := Option.some.inj h
        refine ⟨[], l, rfl, fun u hu => absurd hu List.not_mem_nil, fun u hu hpu => ?_⟩
        have hmem : u ∈ l₁ ++ l₂ := hl ▸ List.mem_mergeSort.2 hu
        rcases List.mem_append.1 hmem with hu | hu
        · exact absurd hpu (List.find?_eq_none.1 hfirst u hu)
        · exact List.rel_of_pairwise_cons (List.pairwise_append.1 hsorted).2.1 hu
      · rw [List.find?_cons_of_neg hp] at h
        obtain ⟨before, after, rfl, hbefore, hafter⟩ := ih h
        refine ⟨a :: before, after, rfl, fun u hu hpu => ?_, hafter⟩
        rcases List.mem_cons.1 hu with rfl | hu
        · exact absurd hpu hp
        · exact hbefore u hu hpu

/-- There is one way to cut a list into elements that satisfy `q` and elements that do not. -/
theorem append_inj_of_forall {q : α → Bool} {l₁ l₂ m₁ m₂ : List α} (h : l₁ ++ l₂ = m₁ ++ m₂)
    (hl₁ : ∀ a ∈ l₁, q a = true) (hm₁ : ∀ a ∈ m₁, q a = true) (hl₂ : ∀ a ∈ l₂, q a = false)
    (hm₂ : ∀ a ∈ m₂, q a = false) : l₁ = m₁ ∧ l₂ = m₂ := by
  have hfront := congrArg (List.filter q) h
  rw [List.filter_append, List.filter_append, List.filter_eq_self.2 hl₁, List.filter_eq_self.2 hm₁,
    List.filter_eq_nil_iff.2 (by simpa using hl₂), List.filter_eq_nil_iff.2 (by simpa using hm₂),
    List.append_nil, List.append_nil] at hfront
  exact ⟨hfront, List.append_cancel_left (hfront ▸ h)⟩

/-- Sorting keeps what is left of a list in its order. -/
theorem filter_mergeSort (trans : ∀ a b c, le a b = true → le b c = true → le a c = true)
    (total : ∀ a b, (le a b || le b a) = true) (l : List α) :
    (l.mergeSort le).filter p = (l.filter p).mergeSort le := by
  induction l with
  | nil => simp
  | cons a l ih =>
    obtain ⟨l₁, l₂, hcons, hl, hbelow⟩ := List.mergeSort_cons trans total a l
    have hsorted := List.pairwise_mergeSort trans total (a :: l)
    rw [hcons] at hsorted ⊢
    rw [hl, List.filter_append] at ih
    by_cases hp : p a = true
    · obtain ⟨m₁, m₂, hcons', hm, hbelow'⟩ := List.mergeSort_cons trans total a (l.filter p)
      have hsorted' := List.pairwise_mergeSort trans total (a :: l.filter p)
      rw [hcons'] at hsorted'
      have habove (u : α) (hu : u ∈ l₂.filter p) : (!le a u) = false := by
        rw [List.rel_of_pairwise_cons (List.pairwise_append.1 hsorted).2.1 (List.mem_filter.1 hu).1]
        rfl
      have habove' (u : α) (hu : u ∈ m₂) : (!le a u) = false := by
        rw [List.rel_of_pairwise_cons (List.pairwise_append.1 hsorted').2.1 hu]
        rfl
      obtain ⟨hfront, hback⟩ := append_inj_of_forall (q := fun u => !le a u) (ih.trans hm)
        (fun u hu => hbelow u (List.mem_filter.1 hu).1) hbelow' habove habove'
      rw [List.filter_append, List.filter_cons_of_pos hp, List.filter_cons_of_pos hp, hcons', hfront,
        hback]
    · rw [List.filter_append, List.filter_cons_of_neg hp, List.filter_cons_of_neg hp, ih]

end MergeSort

/-! ### What a name stands for -/

/-- Whether `t` is the first of the tables named `name`: those before it in the list belong to later
databases by name, those after it to none that is earlier. -/
def FirstNamed (tables : List Table) (name : String) (t : Table) : Prop :=
  ∃ before after, tables = before ++ t :: after ∧ t.key = Text.lowercase name ∧
    (∀ u ∈ before, u.key = Text.lowercase name →
      Text.lowercase t.database < Text.lowercase u.database) ∧
    ∀ u ∈ after, u.key = Text.lowercase name →
      ¬ Text.lowercase u.database < Text.lowercase t.database

/-- Whether a result is what `name` stands for among tables: the first one with that name, or if
there is none, the only one whose name begins with it. -/
structure StandsFor (tables : List Table) (name : String) (result : Option Table) : Prop where
  full : (∃ t ∈ tables, t.key = Text.lowercase name) →
    ∃ t, result = some t ∧ FirstNamed tables name t
  only : (∀ t ∈ tables, t.key ≠ Text.lowercase name) →
    ∀ t, tables.filter (fun u => Text.beginsWith (Text.lowercase name) u.key) = [t] →
      result = some t
  absent : (∀ t ∈ tables, t.key ≠ Text.lowercase name) →
    (∀ t, tables.filter (fun u => Text.beginsWith (Text.lowercase name) u.key) ≠ [t]) →
      result = none

theorem FirstNamed.mem {tables : List Table} {name : String} {t : Table}
    (h : FirstNamed tables name t) : t ∈ tables := by
  obtain ⟨before, after, rfl, -⟩ := h
  exact List.mem_append_right _ (List.mem_cons_self ..)

theorem FirstNamed.key {tables : List Table} {name : String} {t : Table}
    (h : FirstNamed tables name t) : t.key = Text.lowercase name := by
  obtain ⟨before, after, -, hkey, -⟩ := h
  exact hkey

/-- There is one first table of a name. -/
theorem FirstNamed.unique {tables : List Table} {name : String} {t u : Table}
    (ht : FirstNamed tables name t) (hu : FirstNamed tables name u) : t = u := by
  obtain ⟨before, after, heq, hkey, hbefore, hafter⟩ := ht
  obtain ⟨before', after', heq', hkey', hbefore', hafter'⟩ := hu
  rcases List.append_eq_append_iff.1 (heq.symm.trans heq') with ⟨mid, rfl, hmid⟩ | ⟨mid, rfl, hmid⟩
  · cases mid with
    | nil => exact (List.cons.inj hmid).1
    | cons v mid =>
      obtain ⟨rfl, rfl⟩ := List.cons.inj hmid
      exact absurd (hbefore' t (by simp) hkey) (hafter u (by simp) hkey')
  · cases mid with
    | nil => exact (List.cons.inj hmid).1.symm
    | cons v mid =>
      obtain ⟨rfl, rfl⟩ := List.cons.inj hmid
      exact absurd (hbefore u (by simp) hkey') (hafter' t (by simp) hkey)

theorem StandsFor.of_picks {tables sorted : List Table} {name : String} {result : Option Table}
    (h : Abbreviation.Picks Table.key (Text.lowercase name) sorted result)
    (hperm : sorted.Perm tables)
    (hfirst : ∀ t, sorted.find? (fun u => u.key == Text.lowercase name) = some t →
      FirstNamed tables name t) :
    StandsFor tables name result := by
  have hbegin := hperm.filter (fun u => Text.beginsWith (Text.lowercase name) u.key)
  refine ⟨fun ⟨t, ht, hkey⟩ => ?_, fun hall t ht => ?_, fun hall hnone => ?_⟩
  · have hfind : (sorted.find? (fun u => u.key == Text.lowercase name)).isSome = true :=
      List.find?_isSome.2 ⟨t, hperm.mem_iff.2 ht, beq_iff_eq.2 hkey⟩
    obtain ⟨first, hfirst'⟩ := Option.isSome_iff_exists.1 hfind
    exact ⟨first, h.full first hfirst', hfirst first hfirst'⟩
  · rw [ht] at hbegin
    exact h.only (fun u hu => hall u (hperm.mem_iff.1 hu)) t (List.perm_singleton.1 hbegin)
  · refine h.absent (fun u hu => hall u (hperm.mem_iff.1 hu)) fun t ht => ?_
    rw [ht] at hbegin
    exact hnone t (List.singleton_perm.1 hbegin).symm

/-! ### One database -/

namespace Database

variable {db : Database} {t : Table} {name : String}

/-- A full name is borne by one table. -/
theorem filter_key (ht : t ∈ db.tables) : db.tables.filter (fun u => u.key == t.key) = [t] := by
  obtain ⟨before, after, heq⟩ := List.append_of_mem ht
  have h := db.ordered
  rw [Ordered, heq, List.pairwise_append] at h
  obtain ⟨-, hrest, hbefore⟩ := h
  have hnone : ∀ u ∈ before, ¬ (u.key == t.key) = true := fun u hu hkey =>
    Std.ne_of_lt (hbefore u hu t (List.mem_cons_self ..)) (beq_iff_eq.1 hkey)
  have hafter : ∀ u ∈ after, ¬ (u.key == t.key) = true := fun u hu hkey =>
    Std.ne_of_lt (List.rel_of_pairwise_cons hrest hu) (beq_iff_eq.1 hkey).symm
  rw [heq, List.filter_append, List.filter_eq_nil_iff.2 hnone,
    List.filter_cons_of_pos (by simp), List.filter_eq_nil_iff.2 hafter]
  rfl

theorem firstNamed_of_find? (hfind : db.tables.find? (fun u => u.key == Text.lowercase name) = some t) :
    FirstNamed db.tables name t := by
  obtain ⟨hkey, before, after, heq, hbefore⟩ := List.find?_eq_some_iff_append.1 hfind
  refine ⟨before, after, heq, beq_iff_eq.1 hkey, fun u hu hu' => ?_, fun u hu hu' => ?_⟩
  · exact absurd hu' (by simpa using hbefore u hu)
  · have h := db.ordered
    rw [Ordered, heq, List.pairwise_append] at h
    have hlt := List.rel_of_pairwise_cons h.2.1 hu
    rw [hu', beq_iff_eq.1 hkey] at hlt
    exact absurd hlt (String.lt_irrefl _)

theorem tables_sorted (db : Database) : db.tables.Pairwise (fun t u => ¬ u.key < t.key) :=
  db.ordered.imp fun hlt => Std.not_lt.2 (Std.le_of_lt hlt)

theorem standsFor_lookupTable? (db : Database) (name : String) :
    StandsFor db.tables name (db.lookupTable? name) :=
  .of_picks (Abbreviation.picks_uniqueMatch? name db.tables_sorted) (.refl _) fun _ => firstNamed_of_find?

/-- A table is found by its full name. -/
theorem lookupTable?_key (ht : t ∈ db.tables) (hkey : t.key = Text.lowercase name) :
    db.lookupTable? name = some t := by
  obtain ⟨u, hresult, hfirst⟩ := (db.standsFor_lookupTable? name).full ⟨t, ht, hkey⟩
  have hu : u.key = t.key := hfirst.key.trans hkey.symm
  have hmem : u ∈ db.tables.filter (fun u => u.key == t.key) :=
    List.mem_filter.2 ⟨hfirst.mem, beq_iff_eq.2 hu⟩
  rw [filter_key ht, List.mem_singleton] at hmem
  rw [hresult, hmem]

end Database

/-! ### All databases -/

namespace Schema

/-- The first table found by name among the sorted ones is the first one of that name. -/
theorem firstNamed_of_find? {s : Schema} (hs : s.InStep) {name : String} {t : Table}
    (h : s.allTables.find? (fun u => u.key == Text.lowercase name) = some t) :
    FirstNamed (s.databases.flatMap (·.tables)) name t := by
  have hkey : t.key = Text.lowercase name := by simpa using List.find?_some h
  rw [hs.listed] at h
  obtain ⟨before, after, heq, hbefore, hafter⟩ := find?_mergeSort tableLe_trans tableLe_total h
  refine ⟨before, after, heq, hkey, fun u hu hu' => ?_, fun u hu hu' => ?_⟩
  · have hle := hbefore u hu (beq_iff_eq.2 hu')
    rw [← Bool.not_eq_true, tableLe_iff, not_or, not_and, hu', hkey] at hle
    exact not_not.1 (hle.2 rfl)
  · have hle := hafter u hu (beq_iff_eq.2 hu')
    rw [tableLe_iff, hu', hkey] at hle
    rcases hle with hlt | ⟨-, hle⟩
    · exact absurd hlt (String.lt_irrefl _)
    · exact hle

theorem InStep.standsFor_lookupTable? {s : Schema} (hs : s.InStep) {name : String}
    (h : '.' ∉ name.toList) :
    StandsFor (s.databases.flatMap (·.tables)) name (s.lookupTable? name) := by
  rw [lookupTable?, Text.cutFirst_eq_none h]
  exact .of_picks (Abbreviation.picks_uniqueMatch? name hs.allTables_sorted) hs.allTables_perm
    fun t => firstNamed_of_find? hs

/-- Two databases that both have what is asked for have at least two of it. -/
theorem two_le_length_flatMap {α β : Type} {f : α → List β} {l : List α} {a b : α} {x y : β}
    (ha : a ∈ l) (hb : b ∈ l) (hne : a ≠ b) (hx : x ∈ f a) (hy : y ∈ f b) :
    2 ≤ (l.flatMap f).length := by
  obtain ⟨l₁, l₂, rfl⟩ := List.append_of_mem ha
  have hone := List.length_pos_of_mem hx
  rw [List.flatMap_append, List.flatMap_cons, List.length_append, List.length_append]
  rcases List.mem_append.1 hb with hb | hb
  · have := List.length_pos_of_mem (List.mem_flatMap.2 ⟨b, hb, hy⟩)
    omega
  · have hb := (List.mem_cons.1 hb).resolve_left hne.symm
    have := List.length_pos_of_mem (List.mem_flatMap.2 ⟨b, hb, hy⟩)
    omega

/-- A name that abbreviates tables of two databases stands for none. -/
theorem InStep.lookupTable?_eq_none {s : Schema} (hs : s.InStep) {name : String}
    (h : '.' ∉ name.toList)
    (hall : ∀ t ∈ s.databases.flatMap (·.tables), t.key ≠ Text.lowercase name)
    {db other : Database} (hdb : db ∈ s.databases) (hother : other ∈ s.databases)
    (hne : db ≠ other) {t u : Table} (ht : t ∈ db.tables) (hu : u ∈ other.tables)
    (hbegin : Text.beginsWith (Text.lowercase name) t.key = true)
    (hbegin' : Text.beginsWith (Text.lowercase name) u.key = true) :
    s.lookupTable? name = none := by
  refine (hs.standsFor_lookupTable? h).absent hall fun v hv => ?_
  have htwo : 2 ≤ ((s.databases.flatMap (·.tables)).filter
      (fun u => Text.beginsWith (Text.lowercase name) u.key)).length := by
    rw [List.filter_flatMap]
    exact two_le_length_flatMap hdb hother hne (List.mem_filter.2 ⟨ht, hbegin⟩)
      (List.mem_filter.2 ⟨hu, hbegin'⟩)
  rw [hv] at htwo
  exact absurd htwo (by simp)

/-- A name without a dot is looked up over all databases as it should be, so that one which abbreviates
the same table of two databases stands for none. The same holds within each database that can be
built; there a full name is borne by one table, and the name finds it. -/
theorem lookupTable?_standsFor {s : Schema} (hs : s.Built) :
    (∀ name, '.' ∉ name.toList →
      StandsFor (s.databases.flatMap (·.tables)) name (s.lookupTable? name)) ∧
    (∀ name, '.' ∉ name.toList →
      (∀ t ∈ s.databases.flatMap (·.tables), t.key ≠ Text.lowercase name) →
      ∀ db ∈ s.databases, ∀ other ∈ s.databases, db ≠ other →
      ∀ t ∈ db.tables, ∀ u ∈ other.tables, t.key = u.key →
      Text.beginsWith (Text.lowercase name) t.key = true → s.lookupTable? name = none) ∧
    (∀ db ∈ s.databases, db.Built) ∧
    ∀ db : Database, db.Built → ∀ name,
      StandsFor db.tables name (db.lookupTable? name) ∧
      ∀ t ∈ db.tables, t.key = Text.lowercase name →
        db.tables.filter (fun u => u.key == t.key) = [t] ∧ db.lookupTable? name = some t := by
  refine ⟨fun name h => hs.inStep.standsFor_lookupTable? h, ?_, hs.database, fun db hdb name => ?_⟩
  · intro name h hall db hdb other hother hne t ht u hu hkey hbegin
    exact hs.inStep.lookupTable?_eq_none h hall hdb hother hne ht hu hbegin (hkey ▸ hbegin)
  · exact ⟨db.standsFor_lookupTable? name, fun t ht hkey =>
      ⟨Database.filter_key ht, Database.lookupTable?_key ht hkey⟩⟩

/-- A database of customers, by themselves and in groups. -/
def sampleSales : Database :=
  ((({ name := "Sales" } : Database).addTable { name := "Customer", database := "Sales" }).2.addTable
    { name := "CustomerGroup", database := "Sales" }).2

/-- A database of customers of the past. -/
def sampleArchive : Database :=
  (({ name := "Archive" } : Database).addTable { name := "CUSTOMER", database := "Archive" }).2

/-- Both databases of customers. -/
def sampleSchema : Schema :=
  (({} : Schema).addDatabase sampleSales).addDatabase sampleArchive

/-- The full name stands for the archived customers, the others for no table and for the groups. -/
theorem lookupTable?_sampleSchema : sampleSchema.Built ∧
    sampleSchema.lookupTable? "customer" = some { name := "CUSTOMER", database := "Archive" } ∧
    sampleSchema.lookupTable? "cust" = none ∧
    sampleSchema.lookupTable? "CustomerG" = some { name := "CustomerGroup", database := "Sales" } ∧
    sampleSales.lookupTable? "customer" = some { name := "Customer", database := "Sales" } := by
  have hsales : sampleSales.Built := .addTable (.addTable (.new _) _) _
  have harchive : sampleArchive.Built := .addTable (.new _) _
  have hs : sampleSchema.Built := .addDatabase (.addDatabase .empty hsales) harchive
  obtain ⟨hnames, hambiguous, -, hwithin⟩ := lookupTable?_standsFor hs
  have htables : sampleSchema.databases.flatMap (·.tables) =
      [{ name := "CUSTOMER", database := "Archive" }, { name := "Customer", database := "Sales" },
        { name := "CustomerGroup", database := "Sales" }] := by decide +kernel
  refine ⟨hs, ?_, ?_, ?_, ?_⟩
  · obtain ⟨t, hresult, hfirst⟩ := (hnames "customer" (by decide)).full
      ⟨{ name := "CUSTOMER", database := "Archive" }, by decide +kernel, by decide +kernel⟩
    have harchived : FirstNamed (sampleSchema.databases.flatMap (·.tables)) "customer"
        { name := "CUSTOMER", database := "Archive" } :=
      ⟨[], _, htables, by decide +kernel, by decide +kernel, by decide +kernel⟩
    rw [hresult, hfirst.unique harchived]
  · exact hambiguous "cust" (by decide) (by decide +kernel) sampleSales (by decide +kernel)
      sampleArchive (by decide +kernel) (by decide +kernel)
      { name := "Customer", database := "Sales" } (by decide +kernel)
      { name := "CUSTOMER", database := "Archive" } (by decide +kernel) (by decide +kernel)
      (by decide +kernel)
  · exact (hnames "CustomerG" (by decide)).only (by decide +kernel) _ (by decide +kernel)
  · exact ((hwithin sampleSales hsales "customer").2 { name := "Customer", database := "Sales" }
      (by decide +kernel) (by decide +kernel)).2

end Schema

end AblAnalysis
