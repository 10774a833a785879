import AblAnalysis.DataType
import AblAnalysis.Schema.Abbreviation

/-!
Tables with their fields and indexes. Names are compared by their lower-case form, which is the
`key` of a field or table. A table keeps at most one field per key, in the order of declaration, and beside
them the order by key, in which a new field is put at its place.
-/

namespace AblAnalysis

/-- A field of a table. -/
structure Field where
  name : String
  /-- Not known for a field defined like an unresolved one. -/
  dataType : Option DataType := none
  /-- Number of array elements, 0 for a scalar. -/
  extent : UInt32 := 0
  className : Option String := none
  deriving Repr, DecidableEq

/-- What fields are compared and ordered by. -/
def Field.key (f : Field) : String :=
  Text.lowercase f.name

/-- Whether two fields have the same name. -/
def Field.sameName (f g : Field) : Bool :=
  f.key == g.key

/-- One component of an index. -/
structure IndexField where
  /-- Name of the field as declared on the table. -/
  field : String
  ascending : Bool
  deriving Repr, DecidableEq

/-- An index of a table. -/
structure Index where
  name : String
  unique : Bool := false
  primary : Bool := false
  fields : List IndexField := []
  deriving Repr, DecidableEq

/-- How the records of a table are stored. -/
inductive StoreKind where
  /-- In a database. -/
  | database
  /-- In a temp-table of one unit. -/
  | temporary
  /-- In a work-table of one unit. -/
  | work
  deriving Repr, DecidableEq

namespace StoreKind

/-- Attribute value on the nodes of records. -/
def code : StoreKind → Int32
  | .database => 1102
  | .temporary => 1103
  | .work => 1104

/-- The store kind with a given attribute value. -/
def ofCode? (code : Int32) : Option StoreKind :=
  [StoreKind.database, .temporary, .work].find? (fun s => s.code == code)

/-- Words for a table of this kind. -/
def label : StoreKind → String
  | .database => "DB Table"
  | .temporary => "Temp-table"
  | .work => "Work-table"

end StoreKind

/-- The key of the field with a number. -/
def Field.keyAt (fields : List Field) (number : Nat) : String :=
  match fields[number]? with
  | some f => f.key
  | none => ""

theorem Field.keyAt_append {fields : List Field} {number : Nat} (h : number < fields.length)
    (more : List Field) : Field.keyAt (fields ++ more) number = Field.keyAt fields number := by
  rw [Field.keyAt, List.getElem?_append_left h, Field.keyAt]

theorem Field.keyAt_concat (fields : List Field) (f : Field) :
    Field.keyAt (fields ++ [f]) fields.length = f.key := by
  rw [Field.keyAt, List.getElem?_concat_length]

theorem Field.increasing_nil :
    List.Pairwise (fun i j => Field.keyAt [] i < Field.keyAt [] j) [] :=
  .nil

/-- A table. -/
structure Table where
  name : String
  /-- Logical name of the owning database, empty for tables of a unit. -/
  database : String := ""
  store : StoreKind := .database
  /-- In the order of declaration. -/
  fields : List Field := []
  /-- Numbers of the fields, in the order of their keys. -/
  nameOrder : List Nat := []
  indexes : List Index := []
  /-- Each field has one place in the order by name. -/
  nameOrder_perm : nameOrder.Perm (List.range fields.length) := by exact List.Perm.nil
  nameOrder_increasing : nameOrder.Pairwise (fun i j => Field.keyAt fields i < Field.keyAt fields j) := by
    exact Field.increasing_nil
  deriving Repr, DecidableEq

namespace Table

/-- What tables are compared and ordered by. -/
def key (t : Table) : String :=
  Text.lowercase t.name

/-- Whether two tables have the same name. -/
def sameName (t u : Table) : Bool :=
  t.key == u.key

/-- Words for the table. -/
def label (t : Table) : String :=
  t.store.label ++ " " ++ t.name

theorem mem_nameOrder {t : Table} {number : Nat} :
    number ∈ t.nameOrder ↔ number < t.fields.length := by
  rw [t.nameOrder_perm.mem_iff, List.mem_range]

/-- The table with one more field, which stands at `place` in the order by name. -/
def push (t : Table) (f : Field) (place : Nat)
    (h : Bisection.locate (Field.keyAt t.fields) f.key t.nameOrder = .free place) : Table where
  name := t.name
  database := t.database
  store := t.store
  fields := t.fields ++ [f]
  nameOrder := Bisection.insertAt place t.fields.length t.nameOrder
  indexes := t.indexes
  nameOrder_perm := by
    rw [List.length_append, List.length_singleton, List.range_succ]
    exact (Bisection.perm_insertAt ..).trans
      ((t.nameOrder_perm.cons _).trans (List.perm_append_singleton ..).symm)
  nameOrder_increasing := by
    have hkey : ∀ i ∈ t.nameOrder, Field.keyAt (t.fields ++ [f]) i = Field.keyAt t.fields i :=
      fun i hi => Field.keyAt_append (mem_nameOrder.1 hi) [f]
    obtain ⟨hfront, hrest⟩ := Bisection.locate_free_spec t.nameOrder_increasing h
    refine Bisection.pairwise_insertAt ?_ (fun i hi => ?_) fun i hi => ?_
    · refine t.nameOrder_increasing.imp_of_mem fun hi hj hlt => ?_
      rwa [hkey _ hi, hkey _ hj]
    · rw [hkey i (List.mem_of_mem_take hi), Field.keyAt_concat]
      exact hfront i hi
    · rw [hkey i (List.mem_of_mem_drop hi), Field.keyAt_concat]
      exact hrest i hi

/-- Declares a field unless the name is taken; tells whether it was declared. -/
def addField (t : Table) (f : Field) : Bool × Table :=
  match h : Bisection.locate (Field.keyAt t.fields) f.key t.nameOrder with
  | .taken _ => (false, t)
  | .free place => (true, t.push f place h)

/-- Declares fields in order. -/
def declare (t : Table) (fields : List Field) : Table :=
  fields.foldl (fun t f => (t.addField f).2) t

/-- Adds an index. -/
def addIndex (t : Table) (index : Index) : Table :=
  { t with indexes := t.indexes ++ [index] }

/-- The fields in the order of their keys. -/
def fieldsByName (t : Table) : List Field :=
  t.nameOrder.filterMap (fun number => t.fields[number]?)

/-- The first field in name order that `name` names or abbreviates. -/
def lookupField? (t : Table) (name : String) : Option Field :=
  (Abbreviation.firstMatch? (Field.keyAt t.fields) name t.nameOrder).bind (fun number => t.fields[number]?)

/-- The same fields as a table that belongs to no database and has no index. -/
def copyBare (t : Table) : Table :=
  ({ name := t.name, store := t.store } : Table).declare t.fields

end Table

end AblAnalysis
