import AblAnalysis.Proofs.Artifact.Segments

/-!
Footprints. The footprint of a unit lists the tables and fields that its symbols use, each once, and
it is read back from its values alone, because every key is the lower-case form of a name that is
stored.
-/

namespace AblAnalysis

/-- The name of the table, as it is spelled in the schema. -/
def SchemaUse.tableName (use : SchemaUse) : String :=
  use.table.database ++ "." ++ use.table.name

/-- Whether the use is one of a table with the given lower-case name. -/
def SchemaUse.OfTable (use : SchemaUse) (key : String) : Prop :=
  Text.lowercase use.tableName = key

/-- Whether the use is one of a field with the given lower-case name. -/
def SchemaUse.OfField (use : SchemaUse) (key : String) : Prop :=
  ∃ field, use.field = some field ∧ Text.lowercase field = key

theorem SchemaUse.tableName_ne_empty (use : SchemaUse) : use.tableName ≠ "" := by
  intro h
  have hlen := congrArg String.length h
  rw [tableName, String.length_append, String.length_append] at hlen
  exact absurd hlen (by simp)

namespace Artifact

/-- Whether the entry of a table lists the fields of it that are used, each under the lower-case form
of a name that one of the uses gives it. -/
structure TableUse.Lists (t : TableUse) (key : String) (uses : List SchemaUse) : Prop where
  fields : ∀ k, k ∈ t.fields.keys ↔ ∃ use ∈ uses, use.OfTable key ∧ use.OfField k
  keyed : ∀ k field, t.fields.get? k = some field → Text.lowercase field = k
  spelled : ∀ k field, t.fields.get? k = some field → ∃ use ∈ uses, use.field = some field

/-- The entry of a table after another use of it. -/
def TableUse.noted (t : TableUse) (field : Option String) : TableUse :=
  match field with
  | some field => { t with fields := t.fields.insert (Text.lowercase field) field }
  | none => t

namespace TableUse

variable {t : TableUse} {key : String} {uses : List SchemaUse}

@[simp] theorem name_noted (t : TableUse) (field : Option String) : (t.noted field).name = t.name := by
  cases field <;> rfl

theorem lists_fresh (name : String) (h : ∀ use ∈ uses, ¬ use.OfTable key) :
    ({ name } : TableUse).Lists key uses where
  fields k := by
    constructor
    · intro hk
      exact absurd hk (by simp [SortedMap.keys])
    · rintro ⟨use, huse, htable, -⟩
      exact absurd htable (h use huse)
  keyed k field h := by simp at h
  spelled k field h := by simp at h

/-- A use of another table says nothing of the fields. -/
theorem Lists.skip (h : t.Lists key uses) {use : SchemaUse} (hne : ¬ use.OfTable key) :
    t.Lists key (uses ++ [use]) where
  fields k := by
    rw [h.fields]
    constructor
    · rintro ⟨u, hu, hk⟩
      exact ⟨u, List.mem_append_left _ hu, hk⟩
    · rintro ⟨u, hu, htable, hfield⟩
      rcases List.mem_append.1 hu with hu | hu
      · exact ⟨u, hu, htable, hfield⟩
      · rw [List.mem_singleton.1 hu] at htable
        exact absurd htable hne
  keyed := h.keyed
  spelled k field hk := by
    obtain ⟨u, hu, hfield⟩ := h.spelled k field hk
    exact ⟨u, List.mem_append_left _ hu, hfield⟩

theorem get?_fields_noted (t : TableUse) (field : Option String) (k f : String) :
    (t.noted field).fields.get? k = some f ↔
      (field = some f ∧ Text.lowercase f = k) ∨
        ((∀ g, field = some g → Text.lowercase g ≠ k) ∧ t.fields.get? k = some f) := by
  cases field with
  | none => simp [noted]
  | some g =>
    rw [noted, SortedMap.get?_insert]
    by_cases hk : k = Text.lowercase g
    · rw [if_pos hk]
      constructor
      · intro h
        obtain rfl := Option.some.inj h
        exact .inl ⟨rfl, hk.symm⟩
      · rintro (⟨h, -⟩ | ⟨h, -⟩)
        · exact h
        · exact absurd hk.symm (h g rfl)
    · rw [if_neg hk]
      constructor
      · intro h
        refine .inr ⟨fun g' hg => ?_, h⟩
        obtain rfl := Option.some.inj hg
        exact fun hg => hk hg.symm
      · rintro (⟨h, hlow⟩ | ⟨-, h⟩)
        · obtain rfl := Option.some.inj h
          exact absurd hlow.symm hk
        · exact h

theorem Lists.noted (h : t.Lists key uses) {use : SchemaUse} (htable : use.OfTable key) :
    (t.noted use.field).Lists key (uses ++ [use]) where
  fields k := by
    rw [SortedMap.mem_keys_iff]
    constructor
    · rintro ⟨f, hf⟩
      rcases (get?_fields_noted t use.field k f).1 hf with ⟨hfield, hlow⟩ | ⟨-, hold⟩
      · exact ⟨use, by simp, htable, f, hfield, hlow⟩
      · obtain ⟨u, hu, hk⟩ := (h.fields k).1 ((SortedMap.mem_keys_iff _ _).2 ⟨f, hold⟩)
        exact ⟨u, List.mem_append_left _ hu, hk⟩
    · rintro ⟨u, hu, hut, f, hfield, hlow⟩
      by_cases hnew : ∃ g, use.field = some g ∧ Text.lowercase g = k
      · obtain ⟨g, hg, hgk⟩ := hnew
        exact ⟨g, (get?_fields_noted t use.field k g).2 (.inl ⟨hg, hgk⟩)⟩
      · have hu : u ∈ uses := by
          rcases List.mem_append.1 hu with hu | hu
          · exact hu
          · rw [List.mem_singleton.1 hu] at hfield
            exact absurd ⟨f, hfield, hlow⟩ hnew
        obtain ⟨g, hg⟩ := (SortedMap.mem_keys_iff _ _).1
          ((h.fields k).2 ⟨u, hu, hut, f, hfield, hlow⟩)
        exact ⟨g, (get?_fields_noted t use.field k g).2
          (.inr ⟨fun g' hg' hlow' => hnew ⟨g', hg', hlow'⟩, hg⟩)⟩
  keyed k f hf := by
    rcases (get?_fields_noted t use.field k f).1 hf with ⟨-, hlow⟩ | ⟨-, hold⟩
    · exact hlow
    · exact h.keyed k f hold
  spelled k f hf := by
    rcases (get?_fields_noted t use.field k f).1 hf with ⟨hfield, -⟩ | ⟨-, hold⟩
    · exact ⟨use, by simp, hfield⟩
    · obtain ⟨u, hu, hfield⟩ := h.spelled k f hold
      exact ⟨u, List.mem_append_left _ hu, hfield⟩

end TableUse

namespace Footprint

/-- Whether a footprint lists the tables that are used, each once, with the fields that are used. -/
structure Lists (f : Footprint) (uses : List SchemaUse) : Prop where
  tables : ∀ key, key ∈ f.keys ↔ ∃ use ∈ uses, use.OfTable key
  named : ∀ key t, f.get? key = some t → ∃ use ∈ uses, use.OfTable key ∧ t.name = use.tableName
  fields : ∀ key t, f.get? key = some t → t.Lists key uses

theorem lists_empty : Lists {} [] where
  tables key := by simp [SortedMap.keys]
  named key t h := by simp at h
  fields key t h := by simp at h

theorem get?_note (f : Footprint) (use : SchemaUse) (key : String) :
    (f.note use).get? key =
      if key = Text.lowercase use.tableName then
        some (((f.get? key).getD { name := use.tableName }).noted use.field)
      else f.get? key := by
  rw [note, SortedMap.get?_insert, ← SchemaUse.tableName]
  by_cases hk : key = Text.lowercase use.tableName
  · rw [if_pos hk, if_pos hk, hk]
    rfl
  · rw [if_neg hk, if_neg hk]

/-- Noting a use adds what it says and nothing else. -/
theorem Lists.note {f : Footprint} {uses : List SchemaUse} (h : f.Lists uses) (use : SchemaUse) :
    (f.note use).Lists (uses ++ [use]) := by
  have hnew : ∀ key, use.OfTable key → (f.note use).get? key =
      some (((f.get? key).getD { name := use.tableName }).noted use.field) := by
    rintro key rfl
    rw [get?_note, if_pos rfl]
  have hold : ∀ key, ¬ use.OfTable key → (f.note use).get? key = f.get? key := by
    intro key hne
    rw [get?_note, if_neg fun heq => hne heq.symm]
  refine ⟨fun key => ?_, fun key t ht => ?_, fun key t ht => ?_⟩
  · rw [SortedMap.mem_keys_iff]
    by_cases htable : use.OfTable key
    · rw [hnew key htable]
      exact ⟨fun _ => ⟨use, by simp, htable⟩, fun _ => ⟨_, rfl⟩⟩
    · rw [hold key htable, ← SortedMap.mem_keys_iff, h.tables]
      constructor
      · rintro ⟨u, hu, hut⟩
        exact ⟨u, List.mem_append_left _ hu, hut⟩
      · rintro ⟨u, hu, hut⟩
        rcases List.mem_append.1 hu with hu | hu
        · exact ⟨u, hu, hut⟩
        · rw [List.mem_singleton.1 hu] at hut
          exact absurd hut htable
  · by_cases htable : use.OfTable key
    · rw [hnew key htable] at ht
      obtain rfl := Option.some.inj ht
      rw [TableUse.name_noted]
      cases hf : f.get? key with
      | none => exact ⟨use, by simp, htable, rfl⟩
      | some t =>
        obtain ⟨u, hu, hut, hname⟩ := h.named key t hf
        exact ⟨u, List.mem_append_left _ hu, hut, hname⟩
    · rw [hold key htable] at ht
      obtain ⟨u, hu, hut, hname⟩ := h.named key t ht
      exact ⟨u, List.mem_append_left _ hu, hut, hname⟩
  · by_cases htable : use.OfTable key
    · rw [hnew key htable] at ht
      obtain rfl := Option.some.inj ht
      refine TableUse.Lists.noted ?_ htable
      cases hf : f.get? key with
      | some t => exact h.fields key t hf
      | none =>
        refine TableUse.lists_fresh _ fun u hu hut => ?_
        obtain ⟨t, ht⟩ := (SortedMap.mem_keys_iff _ _).1 ((h.tables key).2 ⟨u, hu, hut⟩)
        exact absurd (hf.symm.trans ht) (by simp)
    · rw [hold key htable] at ht
      exact (h.fields key t ht).skip htable

/-- The footprint of a unit lists the database tables and fields that its symbols use. -/
theorem lists_ofSymbols (symbols : List RootSymbol) :
    (ofSymbols symbols).Lists (symbols.filterMap (·.databaseUse?)) := by
  suffices h : ∀ (more uses : List SchemaUse) (f : Footprint), f.Lists uses →
      (more.foldl Footprint.note f).Lists (uses ++ more) from h _ [] {} lists_empty
  intro more
  induction more with
  | nil =>
    intro uses f h
    rwa [List.append_nil]
  | cons use more ih =>
    intro uses f h
    have hstep := ih (uses ++ [use]) (f.note use) (h.note use)
    rwa [List.append_assoc] at hstep

/-! ### Reading a footprint back -/

theorem Lists.keyed_of_mem {f : Footprint} {uses : List SchemaUse} (h : f.Lists uses) {t : TableUse}
    (ht : t ∈ f.values) : t.Keyed := by
  obtain ⟨e, he, rfl⟩ := List.mem_map.1 ht
  intro field hfield
  exact ((h.fields e.1 e.2 ((SortedMap.get?_eq_some_iff _ _ _).2 he)).keyed _ _
    ((SortedMap.get?_eq_some_iff _ _ _).2 hfield)).symm

theorem Lists.named_of_mem {f : Footprint} {uses : List SchemaUse} (h : f.Lists uses)
    (hne : ∀ use ∈ uses, use.field ≠ some "") {t : TableUse} (ht : t ∈ f.values) : t.Named := by
  obtain ⟨e, he, rfl⟩ := List.mem_map.1 ht
  have hget := (SortedMap.get?_eq_some_iff _ _ _).2 he
  constructor
  · obtain ⟨use, -, -, hname⟩ := h.named e.1 e.2 hget
    rw [hname]
    exact use.tableName_ne_empty
  · intro field hfield
    obtain ⟨e', he', rfl⟩ := List.mem_map.1 hfield
    obtain ⟨use, huse, hspelled⟩ := (h.fields e.1 e.2 hget).spelled _ _
      ((SortedMap.get?_eq_some_iff _ _ _).2 he')
    intro hempty
    exact hne use huse (hempty ▸ hspelled)

theorem Lists.legible {f : Footprint} {uses : List SchemaUse} (h : f.Lists uses)
    (hne : ∀ use ∈ uses, use.field ≠ some "")
    (hfits : ∀ t ∈ f.values, ∀ text ∈ t.name :: t.fields.values, Fits text) : f.Legible := by
  intro e he
  have hvalue : e.2 ∈ f.values := List.mem_map.2 ⟨e, he, rfl⟩
  obtain ⟨use, -, htable, hname⟩ := h.named e.1 e.2 ((SortedMap.get?_eq_some_iff _ _ _).2 he)
  have hkey : Text.lowercase e.2.name = e.1 := hname ▸ htable
  exact ⟨hkey.symm, h.keyed_of_mem hvalue, h.named_of_mem hne hvalue, hfits _ hvalue⟩

end Footprint

end Artifact

end AblAnalysis
