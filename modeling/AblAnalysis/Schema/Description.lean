import AblAnalysis.Schema.Database
import AblAnalysis.Text.Blank
import AblAnalysis.Text.Integer

/-!
Schema descriptions: text with one entry per line, the first character telling what it is.

* `S<name>` declares a sequence.
* `T<name>` opens a table, closing the one before it.
* `F<name>:<type>:<extent>` declares a field of the open table. The name ends at the first colon and
  the extent begins after the last.
* `I<name>:<flags>:<component>:...` adds an index to the open table. The flags may hold `U` for
  unique and `P` for primary; a component is `A` or `D` and a field name, which may be abbreviated.

Blanks at the end of a line do not count and empty lines are skipped. A table enters the database
when it is closed, so the first bad line leaves what was closed before it.
-/

namespace AblAnalysis.Description

/-- A database being described and the table that is open. -/
structure Progress where
  database : Database
  opened : Option Table := none
  deriving Repr

namespace Progress

/-- Closes the open table, if any; the database skips it when the name is taken. -/
def close (p : Progress) : Progress :=
  match p.opened with
  | some table => ⟨(p.database.addTable table).2, none⟩
  | none => p

end Progress

/-- Reads what follows the `F` of a field line. -/
def readField (number : Nat) (rest : String) : Except Error Field :=
  match Text.cutFirst ':' rest with
  | none => .error (.schemaFormat number .fieldShape)
  | some (name, tail) =>
    match Text.cutLast ':' tail with
    | none => .error (.schemaFormat number .fieldShape)
    | some (typeText, extentText) =>
      match DataType.read typeText with
      | .error e => .error e
      | .ok dataType =>
        match Text.uint32? (Text.trim extentText) with
        | none => .error (.schemaFormat number (.badExtent extentText))
        | some extent => .ok { name := name, dataType := some dataType, extent := extent }

/-- The component over the field that `name` names or abbreviates. -/
def component (number : Nat) (table : Table) (ascending : Bool) (name : String) :
    Except Error IndexField :=
  match table.lookupField? name with
  | some field => .ok ⟨field.name, ascending⟩
  | none => .error (.schemaFormat number (.indexFieldUnknown name table.name))

/-- Reads one component of an index over `table`. -/
def readComponent (number : Nat) (table : Table) (part : String) : Except Error IndexField :=
  match part.toList with
  | 'A' :: cs => component number table true (String.ofList cs)
  | 'D' :: cs => component number table false (String.ofList cs)
  | _ => .error (.schemaFormat number (.indexFieldOrder part))

/-- Reads what follows the `I` of an index line. -/
def readIndex (number : Nat) (table : Table) (rest : String) : Except Error Index :=
  match (Text.pieces ':' rest).map Text.trim with
  | name :: flags :: part :: parts =>
    match (part :: parts).mapM (readComponent number table) with
    | .error e => .error e
    | .ok fields =>
      .ok { name := name, unique := Text.hasChar 'U' flags, primary := Text.hasChar 'P' flags,
            fields := fields }
  | _ => .error (.schemaFormat number .indexShape)

/-- Applies one line, given without blanks at its end. A bad line changes nothing. -/
def step (p : Progress) (number : Nat) (line : String) : Except Error Unit × Progress :=
  match line.toList with
  | [] => (.ok (), p)
  | tag :: cs =>
    let rest := String.ofList cs
    match tag with
    | 'S' => (.ok (), { p with database := p.database.addSequence rest })
    | 'T' =>
      let closed := p.close
      let table : Table := { name := rest, database := closed.database.name }
      (.ok (), { closed with opened := some table })
    | 'F' =>
      match p.opened with
      | none => (.error (.schemaFormat number .fieldWithoutTable), p)
      | some table =>
        match readField number rest with
        | .error e => (.error e, p)
        | .ok field => (.ok (), { p with opened := some (table.addField field).2 })
    | 'I' =>
      match p.opened with
      | none => (.error (.schemaFormat number .indexWithoutTable), p)
      | some table =>
        match readIndex number table rest with
        | .error e => (.error e, p)
        | .ok index => (.ok (), { p with opened := some (table.addIndex index) })
    | _ => (.error (.schemaFormat number (.unexpectedLine line)), p)

/-- Applies lines numbered from `number`, up to the first bad one. A table that is open then is
lost. -/
def readLines (p : Progress) (number : Nat) : List String → Except Error Unit × Database
  | [] => (.ok (), p.close.database)
  | line :: rest =>
    match step p number (Text.trimEnd line) with
    | (.ok (), next) => readLines next (number + 1) rest
    | (.error e, last) => (.error e, last.database)

end AblAnalysis.Description

namespace AblAnalysis.Database

/-- Adds what a description declares. On an error the database has what came before the bad line. -/
def readDescription (db : Database) (text : String) : Except Error Unit × Database :=
  Description.readLines ⟨db, none⟩ 1 (Text.lines text)

end AblAnalysis.Database
