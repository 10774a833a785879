import AblAnalysis.Proofs.Schema.Fields
import AblAnalysis.Proofs.Text.Parts
import AblAnalysis.Schema.Description
import Mathlib.Data.List.Forall2

/-!
What the lines of a description say. A line says an entry if it is made up as the format has it
(`Says`), whatever stands above it, and a reader that knows no table finds the entry (`entryOf?`). A line
is applied if it says an entry that can follow what has been read (`step_eq_ok`), and any other one is
refused and changes nothing (`step_eq_error`).
-/

namespace AblAnalysis

/-! ### Data types -/

theorem DataType.eq_of_name : DataType.all.all (fun t => DataType.all.all (fun u =>
    t.name.toList.map Char.toLower != u.name.toList.map Char.toLower || t == u)) = true := by
  decide +kernel

theorem DataType.mem_all (t : DataType) : t ∈ DataType.all := by
  cases t <;> decide

/-- A data type is found by its name in any case, and by nothing else. -/
theorem DataType.ofName?_eq_some_iff {text : String} {t : DataType} :
    DataType.ofName? text = some t ↔ Text.equalIgnoringAsciiCase t.name text = true := by
  constructor
  · exact fun h => by simpa using List.find?_some h
  · intro h
    have hfound : (DataType.ofName? text).isSome = true :=
      List.find?_isSome.2 ⟨t, t.mem_all, h⟩
    obtain ⟨u, hu⟩ := Option.isSome_iff_exists.1 hfound
    have hname : Text.equalIgnoringAsciiCase u.name text = true := by simpa using List.find?_some hu
    have heq : t.name.toList.map Char.toLower = u.name.toList.map Char.toLower :=
      (beq_iff_eq.1 h).trans (beq_iff_eq.1 hname).symm
    have hall := List.all_eq_true.1 (List.all_eq_true.1 eq_of_name t t.mem_all) u u.mem_all
    rw [Bool.or_eq_true, bne_iff_ne, beq_iff_eq] at hall
    rw [hu, Option.some_inj]
    exact (hall.resolve_left fun hne => hne heq).symm

namespace Description

open Text

/-! ### Lines -/

/-- What a line of a description declares. The components of an index may abbreviate fields. -/
inductive Entry where
  | sequence (name : String)
  | table (name : String)
  | field (f : Field)
  | index (i : Index)
  deriving DecidableEq

/-- Whether a text names a data type, in any case and with blanks around the name. -/
def NamesType (text : String) (t : DataType) : Prop :=
  equalIgnoringAsciiCase t.name (trim text) = true

/-- Whether a text declares a field: the name ends at the first colon, and the extent begins after the
last. -/
def FieldText (text : String) (f : Field) : Prop :=
  ∃ typeText extentText t, text = f.name ++ ":" ++ typeText ++ ":" ++ extentText ∧
    ':' ∉ f.name.toList ∧ ':' ∉ extentText.toList ∧ NamesType typeText t ∧
    IsUnsigned (trim extentText) f.extent.toNat ∧ f.dataType = some t ∧ f.className = none

/-- Whether a part declares a component of an index. -/
def ComponentText (part : String) (c : IndexField) : Prop :=
  trim part = (if c.ascending then "A" else "D") ++ c.field

/-- Whether a text declares an index: a name, flags and at least one component, between colons. -/
def IndexText (text : String) (i : Index) : Prop :=
  ∃ name flags parts, text = ":".intercalate (name :: flags :: parts) ∧
    (∀ part ∈ name :: flags :: parts, ':' ∉ part.toList) ∧ parts ≠ [] ∧ i.name = trim name ∧
    (i.unique = true ↔ 'U' ∈ flags.toList) ∧ (i.primary = true ↔ 'P' ∈ flags.toList) ∧
    List.Forall₂ ComponentText parts i.fields

/-- Whether a line declares an entry. -/
def Says (line : String) : Entry → Prop
  | .sequence name => line = "S" ++ name
  | .table name => line = "T" ++ name
  | .field f => ∃ text, line = "F" ++ text ∧ FieldText text f
  | .index i => ∃ text, line = "I" ++ text ∧ IndexText text i

/-- Whether a line has the shape of a field line with a text that names no data type. -/
def UnknownType (line typeText : String) : Prop :=
  ∃ name extentText, line = "F" ++ (name ++ ":" ++ typeText ++ ":" ++ extentText) ∧
    ':' ∉ name.toList ∧ ':' ∉ extentText.toList ∧ ∀ t, ¬ NamesType typeText t

/-! ### Fields -/

/-- The two cuts of a field line. -/
theorem cuts_iff {text name typeText extentText : String} :
    (∃ tail, cutFirst ':' text = some (name, tail) ∧
      cutLast ':' tail = some (typeText, extentText)) ↔
    text = name ++ ":" ++ typeText ++ ":" ++ extentText ∧
      ':' ∉ name.toList ∧ ':' ∉ extentText.toList := by
  simp only [cutFirst_eq_some_iff, cutLast_eq_some_iff]
  constructor
  · rintro ⟨tail, ⟨htext, hname⟩, htail, hextent⟩
    refine ⟨String.toList_injective ?_, hname, hextent⟩
    rw [htext, htail]
    simp
  · rintro ⟨rfl, hname, hextent⟩
    exact ⟨typeText ++ ":" ++ extentText, by simp [hname], by simp [hextent]⟩

theorem read_eq_ok_iff {text : String} {t : DataType} :
    DataType.read text = .ok t ↔ NamesType text t := by
  rw [DataType.read, NamesType, ← DataType.ofName?_eq_some_iff]
  cases DataType.ofName? (trim text) <;> simp

theorem read_eq_error_iff {text : String} {e : Error} :
    DataType.read text = .error e ↔ (∀ t, ¬ NamesType text t) ∧ e = .unknownDataType text := by
  simp only [NamesType, ← DataType.ofName?_eq_some_iff, DataType.read]
  cases DataType.ofName? (trim text) <;> simp [eq_comm]

theorem readField_eq_ok_iff (number : Nat) {text : String} {f : Field} :
    readField number text = .ok f ↔ FieldText text f := by
  constructor
  · intro h
    unfold readField at h
    split at h
    · cases h
    next name tail hfirst =>
    split at h
    · cases h
    next typeText extentText hlast =>
    obtain ⟨htext, hname, hextent⟩ := cuts_iff.1 ⟨tail, hfirst, hlast⟩
    split at h
    · cases h
    next t ht =>
    split at h
    · cases h
    next extent hliteral =>
    cases h
    exact ⟨typeText, extentText, t, htext, hname, hextent, read_eq_ok_iff.1 ht,
      uint32?_eq_some_iff.1 hliteral, rfl, rfl⟩
  · obtain ⟨name, dataType, extent, className⟩ := f
    rintro ⟨typeText, extentText, t, htext, hname, hextent, ht, hliteral, rfl, rfl⟩
    obtain ⟨tail, hfirst, hlast⟩ := cuts_iff.2 ⟨htext, hname, hextent⟩
    simp only [readField, hfirst, hlast, read_eq_ok_iff.2 ht, uint32?_eq_some_iff.2 hliteral]

/-- A field line is refused for its data type if there is none of that name. -/
theorem readField_of_unknownType {number : Nat} {text typeText : String}
    (h : UnknownType ("F" ++ text) typeText) :
    readField number text = .error (.unknownDataType typeText) := by
  obtain ⟨name, extentText, hline, hname, hextent, ht⟩ := h
  obtain ⟨tail, hfirst, hlast⟩ := cuts_iff.2 ⟨(String.append_right_inj "F").1 hline, hname, hextent⟩
  simp only [readField, hfirst, hlast, read_eq_error_iff.2 ⟨ht, rfl⟩]

/-- A field line is refused by its number for anything else. -/
theorem readField_eq_error {number : Nat} {text : String} {e : Error}
    (hknown : ∀ typeText, ¬ UnknownType ("F" ++ text) typeText)
    (h : readField number text = .error e) : ∃ problem, e = .schemaFormat number problem := by
  unfold readField at h
  split at h
  · exact ⟨_, (Except.error.inj h).symm⟩
  next name tail hfirst =>
  split at h
  · exact ⟨_, (Except.error.inj h).symm⟩
  next typeText extentText hlast =>
  obtain ⟨rfl, hname, hextent⟩ := cuts_iff.1 ⟨tail, hfirst, hlast⟩
  split at h
  next e' he =>
    exact absurd ⟨name, extentText, rfl, hname, hextent, (read_eq_error_iff.1 he).1⟩
      (hknown typeText)
  · split at h
    · exact ⟨_, (Except.error.inj h).symm⟩
    · cases h

/-! ### Indexes -/

/-- The component that a part declares. -/
def component? (part : String) : Option IndexField :=
  match (trim part).toList with
  | 'A' :: cs => some ⟨String.ofList cs, true⟩
  | 'D' :: cs => some ⟨String.ofList cs, false⟩
  | _ => none

theorem component?_eq_some_iff {part : String} {c : IndexField} :
    component? part = some c ↔ ComponentText part c := by
  obtain ⟨field, ascending⟩ := c
  rw [component?, ComponentText, ← String.toList_inj, String.toList_append]
  split
  next cs hpart =>
    rw [hpart]
    cases ascending <;> simp [← String.toList_inj]
  next cs hpart =>
    rw [hpart]
    cases ascending <;> simp [← String.toList_inj]
  next hA hD =>
    refine iff_of_false (by simp) fun heq => ?_
    cases ascending
    · exact hD field.toList (by simpa using heq)
    · exact hA field.toList (by simpa using heq)

theorem readComponent_trim (number : Nat) (table : Table) (part : String) :
    readComponent number table (trim part) =
      match component? part with
      | some c => component number table c.ascending c.field
      | none => .error (.schemaFormat number (.indexFieldOrder (trim part))) := by
  rw [readComponent, component?]
  split <;> simp_all

/-- The index that a text declares. -/
def index? (text : String) : Option Index :=
  match pieces ':' text with
  | name :: flags :: part :: parts =>
    ((part :: parts).mapM component?).map fun fields =>
      { name := trim name, unique := hasChar 'U' flags, primary := hasChar 'P' flags,
        fields := fields }
  | _ => none

theorem mapM_component?_eq_some_iff {parts : List String} {cs : List IndexField} :
    parts.mapM component? = some cs ↔ List.Forall₂ ComponentText parts cs := by
  induction parts generalizing cs with
  | nil => cases cs <;> simp
  | cons part parts ih =>
    rw [List.mapM_cons]
    cases cs with
    | nil => simp [Option.bind_eq_some_iff]
    | cons c cs => simp [Option.bind_eq_some_iff, List.forall₂_cons, ih, component?_eq_some_iff]

theorem index?_eq_some_iff {text : String} {i : Index} : index? text = some i ↔ IndexText text i := by
  obtain ⟨name, unique, primary, fields⟩ := i
  constructor
  · intro h
    unfold index? at h
    split at h
    next first flags part parts hpieces =>
      obtain ⟨cs, hcs, heq⟩ := Option.map_eq_some_iff.1 h
      cases heq
      obtain ⟨-, htext, hparts⟩ := pieces_eq_iff.1 hpieces
      exact ⟨first, flags, part :: parts, htext, hparts, by simp, rfl, hasChar_iff, hasChar_iff,
        mapM_component?_eq_some_iff.1 hcs⟩
    · cases h
  · rintro ⟨first, flags, parts, htext, hparts, hne, rfl, hunique, hprimary, hfields⟩
    have hpieces : pieces ':' text = first :: flags :: parts :=
      pieces_eq_iff.2 ⟨by simp, htext, hparts⟩
    obtain ⟨part, rest, rfl⟩ := List.exists_cons_of_ne_nil hne
    rw [index?, hpieces]
    dsimp only
    rw [mapM_component?_eq_some_iff.2 hfields, Option.map_some,
      Bool.eq_iff_iff.2 (hasChar_iff.trans hunique.symm),
      Bool.eq_iff_iff.2 (hasChar_iff.trans hprimary.symm)]

/-- The entry that a line declares. -/
def entryOf? (line : String) : Option Entry :=
  match line.toList with
  | 'S' :: cs => some (.sequence (String.ofList cs))
  | 'T' :: cs => some (.table (String.ofList cs))
  | 'F' :: cs => (readField 0 (String.ofList cs)).toOption.map .field
  | 'I' :: cs => (index? (String.ofList cs)).map .index
  | _ => none

theorem toOption_eq_some_iff {ε α : Type} {x : Except ε α} {a : α} :
    x.toOption = some a ↔ x = .ok a := by
  cases x <;> simp [Except.toOption]

theorem entryOf?_eq_some_iff {line : String} {e : Entry} : entryOf? line = some e ↔ Says line e := by
  obtain ⟨cs, rfl⟩ : ∃ cs, line = String.ofList cs := ⟨line.toList, by simp⟩
  rw [entryOf?, String.toList_ofList]
  split
  next cs => cases e <;> simp [Says, ← String.toList_inj]
  next cs => cases e <;> simp [Says, ← String.toList_inj]
  next cs =>
    cases e
    case field f => simp [Says, ← readField_eq_ok_iff 0, toOption_eq_some_iff]
    all_goals simp [Says, ← String.toList_inj]
  next cs =>
    cases e
    case index i => simp [Says, ← index?_eq_some_iff]
    all_goals simp [Says, ← String.toList_inj]
  next hS hT hF hI => cases e <;> simp_all [Says, ← String.toList_inj]

/-! ### Indexes over a table -/

end Description

/-- A component over the field that it abbreviates, by its declared name. -/
def Table.resolve (t : Table) (c : IndexField) : IndexField :=
  { c with field := ((t.lookupField? c.field).map (·.name)).getD c.field }

/-- Whether the components of an index abbreviate fields of a table. -/
def Table.Carries (t : Table) (i : Index) : Prop :=
  ∀ c ∈ i.fields, ∃ f ∈ t.fields, f.AbbreviatedBy c.field

/-- Adds an index whose components may abbreviate fields. -/
def Table.addResolved (t : Table) (i : Index) : Table :=
  t.addIndex { i with fields := i.fields.map t.resolve }

namespace Description

open Text

variable (number : Nat) {table : Table}

theorem component_eq_ok {ascending : Bool} {name : String}
    (h : ∃ f ∈ table.fields, f.AbbreviatedBy name) :
    component number table ascending name = .ok (table.resolve ⟨name, ascending⟩) := by
  obtain ⟨f, hf⟩ := Option.isSome_iff_exists.1 (Table.isSome_lookupField?_iff.2 h)
  simp [component, Table.resolve, hf]

theorem component_eq_error {ascending : Bool} {name : String}
    (h : ¬ ∃ f ∈ table.fields, f.AbbreviatedBy name) : component number table ascending name =
      .error (.schemaFormat number (.indexFieldUnknown name table.name)) := by
  rw [← Table.isSome_lookupField?_iff, Option.not_isSome_iff_eq_none] at h
  simp [component, h]

theorem mapM_readComponent_eq_ok {parts : List String} {cs : List IndexField}
    (hparts : parts.mapM component? = some cs)
    (hcs : ∀ c ∈ cs, ∃ f ∈ table.fields, f.AbbreviatedBy c.field) :
    (parts.map trim).mapM (readComponent number table) = .ok (cs.map table.resolve) := by
  rw [mapM_component?_eq_some_iff] at hparts
  induction hparts with
  | nil => rfl
  | @cons part c parts cs hpart _ ih =>
    obtain ⟨hc, hcs⟩ := List.forall_mem_cons.1 hcs
    rw [List.map_cons, List.mapM_cons, readComponent_trim, component?_eq_some_iff.2 hpart]
    dsimp only
    rw [component_eq_ok number hc, ih hcs]
    rfl

theorem mapM_readComponent_eq_error {parts : List String}
    (h : ¬ ∃ cs, parts.mapM component? = some cs ∧
      ∀ c ∈ cs, ∃ f ∈ table.fields, f.AbbreviatedBy c.field) :
    ∃ problem, (parts.map trim).mapM (readComponent number table) =
      .error (.schemaFormat number problem) := by
  induction parts with
  | nil => exact absurd ⟨[], rfl, by simp⟩ h
  | cons part parts ih =>
    rw [List.map_cons, List.mapM_cons, readComponent_trim]
    cases hpart : component? part with
    | none => exact ⟨_, rfl⟩
    | some c =>
      by_cases hc : ∃ f ∈ table.fields, f.AbbreviatedBy c.field
      · have hrest : ¬ ∃ cs, parts.mapM component? = some cs ∧
            ∀ c ∈ cs, ∃ f ∈ table.fields, f.AbbreviatedBy c.field := by
          rintro ⟨cs, hcs, hall⟩
          exact h ⟨c :: cs, by simp [hpart, hcs], List.forall_mem_cons.2 ⟨hc, hall⟩⟩
        obtain ⟨problem, hproblem⟩ := ih hrest
        refine ⟨problem, ?_⟩
        dsimp only
        rw [component_eq_ok number hc, hproblem]
        rfl
      · refine ⟨.indexFieldUnknown c.field table.name, ?_⟩
        dsimp only
        rw [component_eq_error number hc]
        rfl

/-- An index line is accepted if its components abbreviate fields. -/
theorem readIndex_eq_ok {text : String} {i : Index} (htext : index? text = some i)
    (hi : table.Carries i) :
    readIndex number table text = .ok { i with fields := i.fields.map table.resolve } := by
  unfold index? at htext
  split at htext
  next name flags part parts hpieces =>
    obtain ⟨cs, hcs, rfl⟩ := Option.map_eq_some_iff.1 htext
    have hread := mapM_readComponent_eq_ok number hcs hi
    rw [List.map_cons] at hread
    rw [readIndex, hpieces, List.map_cons, List.map_cons, List.map_cons]
    dsimp only
    rw [hread]
    simp only [hasChar_trim (by decide : isBlank 'U' = false),
      hasChar_trim (by decide : isBlank 'P' = false)]
  · cases htext

theorem readIndex_eq_error {text : String}
    (h : ¬ ∃ i, index? text = some i ∧ table.Carries i) :
    ∃ problem, readIndex number table text = .error (.schemaFormat number problem) := by
  rw [index?] at h
  rw [readIndex]
  rcases hpieces : pieces ':' text with _ | ⟨name, _ | ⟨flags, _ | ⟨part, parts⟩⟩⟩
  · exact ⟨_, rfl⟩
  · exact ⟨_, rfl⟩
  · exact ⟨_, rfl⟩
  · have hrest : ¬ ∃ cs, (part :: parts).mapM component? = some cs ∧
        ∀ c ∈ cs, ∃ f ∈ table.fields, f.AbbreviatedBy c.field := by
      rintro ⟨cs, hcs, hall⟩
      refine h ⟨⟨trim name, hasChar 'U' flags, hasChar 'P' flags, cs⟩, ?_, hall⟩
      simp only [hpieces, hcs, Option.map_some]
    obtain ⟨problem, hproblem⟩ := mapM_readComponent_eq_error number hrest
    rw [List.map_cons] at hproblem
    refine ⟨problem, ?_⟩
    simp only [List.map_cons, hproblem]

/-! ### Steps -/

/-- Whether an entry can follow what has been read. -/
def Progress.Admits (p : Progress) : Entry → Prop
  | .sequence _ | .table _ => True
  | .field _ => p.opened.isSome = true
  | .index i => ∃ t ∈ p.opened, t.Carries i

/-- What has been read, with one more entry. -/
def Progress.take (p : Progress) : Entry → Progress
  | .sequence name => { p with database := p.database.addSequence name }
  | .table name => ⟨p.close.database, some { name := name, database := p.close.database.name }⟩
  | .field f => { p with opened := p.opened.map fun t => (t.addField f).2 }
  | .index i => { p with opened := p.opened.map (·.addResolved i) }

/-- Whether an error is the one for a bad line: the data type is blamed if a table is open and the line
would be a field line but for its data type, and otherwise the line is, by its number. -/
structure Blames (opened : Prop) (line : String) (number : Nat) (e : Error) : Prop where
  dataType : ∀ typeText, opened → UnknownType line typeText → e = .unknownDataType typeText
  format : (opened → ∀ typeText, ¬ UnknownType line typeText) →
    ∃ problem, e = .schemaFormat number problem

theorem Blames.of_not_unknownType {opened : Prop} {line : String} {problem : DescriptionProblem}
    (h : opened → ∀ typeText, ¬ UnknownType line typeText) :
    Blames opened line number (.schemaFormat number problem) :=
  ⟨fun typeText hopened hline => absurd hline (h hopened typeText), fun _ => ⟨problem, rfl⟩⟩

theorem UnknownType.head {line typeText : String} (h : UnknownType line typeText) :
    line.toList.head? = some 'F' := by
  obtain ⟨name, extentText, rfl, -⟩ := h
  simp

/-- A line that says an entry is applied if the entry can follow. -/
theorem step_eq_ok {p : Progress} {line : String} {e : Entry} (hline : Says line e)
    (he : p.Admits e) : step p number line = (.ok (), p.take e) := by
  cases e with
  | sequence name =>
    obtain rfl : line = "S" ++ name := hline
    simp [step, Progress.take]
  | table name =>
    obtain rfl : line = "T" ++ name := hline
    simp [step, Progress.take]
  | field f =>
    obtain ⟨text, rfl, htext⟩ := hline
    obtain ⟨t, ht⟩ := Option.isSome_iff_exists.1 he
    simp [step, Progress.take, ht, (readField_eq_ok_iff number).2 htext]
  | index i =>
    obtain ⟨text, rfl, htext⟩ := hline
    obtain ⟨t, ht, hi⟩ := he
    have hread := readIndex_eq_ok number (index?_eq_some_iff.2 htext) hi
    simp [step, Progress.take, Option.mem_def.1 ht, hread, Table.addResolved]

theorem ofList_cons (c : Char) (cs : List Char) :
    String.ofList (c :: cs) = String.singleton c ++ String.ofList cs := by
  simp

/-- A field line is refused under a table if the field can not be read. -/
theorem step_field_eq_error {p : Progress} {text : String} (hopened : p.opened.isSome = true)
    (h : ∀ f, ¬ FieldText text f) : ∃ e, step p number ("F" ++ text) = (.error e, p) ∧
      Blames (p.opened.isSome = true) ("F" ++ text) number e := by
  obtain ⟨t, ht⟩ := Option.isSome_iff_exists.1 hopened
  cases hread : readField number text with
  | ok f => exact absurd ((readField_eq_ok_iff number).1 hread) (h f)
  | error e =>
    refine ⟨e, by simp [step, ht, hread], fun typeText _ hunknown => ?_, fun hknown => ?_⟩
    · exact Except.error.inj (hread.symm.trans (readField_of_unknownType hunknown))
    · exact readField_eq_error (hknown hopened) hread

/-- Any other line is refused, and changes nothing. -/
theorem step_eq_error {p : Progress} {line : String} (hne : line ≠ "")
    (h : ∀ e, Says line e → ¬ p.Admits e) : ∃ e, step p number line = (.error e, p) ∧
      Blames (p.opened.isSome = true) line number e := by
  obtain ⟨tag, cs, htag⟩ := List.exists_cons_of_ne_nil (mt String.toList_eq_nil_iff.1 hne)
  have hshape {problem : DescriptionProblem} (htag' : tag ≠ 'F') :
      Blames (p.opened.isSome = true) line number (.schemaFormat number problem) := by
    refine .of_not_unknownType number fun _ typeText hunknown => htag' ?_
    simpa [htag] using hunknown.head
  have hline : line = String.singleton tag ++ String.ofList cs := by
    rw [← ofList_cons, ← htag, String.ofList_toList]
  by_cases hS : tag = 'S'
  · subst hS
    exact absurd trivial (h (.sequence (String.ofList cs)) hline)
  by_cases hT : tag = 'T'
  · subst hT
    exact absurd trivial (h (.table (String.ofList cs)) hline)
  by_cases hF : tag = 'F'
  · subst hF
    cases hopened : p.opened with
    | none =>
      exact ⟨.schemaFormat number .fieldWithoutTable, by simp [step, htag, hopened],
        .of_not_unknownType number fun hsome => absurd hsome (by simp)⟩
    | some t =>
      have hsome : p.opened.isSome = true := by rw [hopened, Option.isSome_some]
      exact hopened ▸ hline ▸ step_field_eq_error number hsome
        fun f hf => h (.field f) ⟨String.ofList cs, hline, hf⟩ hsome
  by_cases hI : tag = 'I'
  · subst hI
    cases hopened : p.opened with
    | none =>
      exact ⟨.schemaFormat number .indexWithoutTable, by simp [step, htag, hopened],
        hopened ▸ hshape hF⟩
    | some t =>
      obtain ⟨problem, hread⟩ := readIndex_eq_error number
        fun ⟨i, hi, hcarries⟩ =>
          h (.index i) ⟨String.ofList cs, hline, index?_eq_some_iff.1 hi⟩ ⟨t, hopened, hcarries⟩
      exact ⟨.schemaFormat number problem, by simp [step, htag, hopened, hread],
        hopened ▸ hshape hF⟩
  · exact ⟨.schemaFormat number (.unexpectedLine line), by simp [step, htag],
      hshape hF⟩

end Description

end AblAnalysis
