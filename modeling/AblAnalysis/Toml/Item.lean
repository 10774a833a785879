/-!
TOML values and the rules by which headers and dotted keys build tables. A table remembers how it
came about, because that decides what may still be added to it: a table may be opened by a header
once, dotted keys reach only tables that no header or value has written out, and an inline table is
closed.
-/

namespace AblAnalysis.Toml

/-- How a table came about. -/
inductive Origin where
  /-- Opened by a header. -/
  | header
  /-- On the way to a table opened by a header. -/
  | implied
  /-- On the way to the last part of a dotted key. -/
  | dotted
  /-- Written out as a value. -/
  | inline
  deriving Repr, DecidableEq

/-- A TOML value. Floats and dates keep no value. -/
inductive Item where
  | text (s : String)
  | integer (n : Int)
  | float
  | boolean (b : Bool)
  | moment
  | array (items : List Item)
  | table (origin : Origin) (entries : List (String × Item))
  /-- An array of tables, each opened by a header of its own, the last one first. -/
  | tables (elements : List (List (String × Item)))
  deriving Repr

/-- The entries of a table in the order in which they came. -/
abbrev Entries := List (String × Item)

namespace Entries

/-- The value of a key. -/
def get? (es : Entries) (key : String) : Option Item :=
  es.lookup key

/-- Sets a key that has a value already. -/
def replace (es : Entries) (key : String) (item : Item) : Entries :=
  es.map (fun e => if e.1 = key then (key, item) else e)

/-- Changes the first of some tables. -/
def changeFirst (f : Entries → Option Entries) : List Entries → Option (List Entries)
  | first :: rest => (f first).map (· :: rest)
  | [] => none

/-- Changes the table at a path, the last one where the path meets an array of tables. Missing tables
are created on the way; values are no tables. -/
def within (f : Entries → Option Entries) : List String → Entries → Option Entries
  | [], es => f es
  | key :: path, es =>
    match es.get? key with
    | none => (within f path []).map (fun sub => es ++ [(key, .table .implied sub)])
    | some (.table origin sub) =>
      if origin = .inline then none
      else (within f path sub).map (fun sub => es.replace key (.table origin sub))
    | some (.tables elements) =>
      (changeFirst (within f path) elements).map (fun elements => es.replace key (.tables elements))
    | some _ => none

/-- Opens a table. It may be there already only if headers of tables in it came first. -/
def openTable (key : String) (es : Entries) : Option Entries :=
  match es.get? key with
  | none => some (es ++ [(key, .table .header [])])
  | some (.table .implied sub) => some (es.replace key (.table .header sub))
  | some _ => none

/-- Opens the next table of an array of tables. -/
def openElement (key : String) (es : Entries) : Option Entries :=
  match es.get? key with
  | none => some (es ++ [(key, .tables [[]])])
  | some (.tables elements) => some (es.replace key (.tables ([] :: elements)))
  | some _ => none

/-- Gives a new key its value. -/
def add (key : String) (item : Item) (es : Entries) : Option Entries :=
  match es.get? key with
  | none => some (es ++ [(key, item)])
  | some _ => none

/-- Gives a new dotted key its value. Tables on the way are created; those that are there must not
have been written out, and the one that gets the value must itself come from a dotted key. -/
def addDotted (key : String) (item : Item) : List String → Entries → Option Entries
  | [], es => es.add key item
  | first :: path, es =>
    match es.get? first with
    | none => (addDotted key item path []).map (fun sub => es ++ [(first, .table .dotted sub)])
    | some (.table origin sub) =>
      if origin = .dotted ∨ (origin = .implied ∧ path ≠ []) then
        (addDotted key item path sub).map (fun sub => es.replace first (.table origin sub))
      else none
    | some (.tables elements) =>
      if path = [] then none
      else
        (changeFirst (addDotted key item path) elements).map (fun elements =>
          es.replace first (.tables elements))
    | some _ => none

end Entries

end AblAnalysis.Toml
